import PageSpeed.Spec.CdpClient
import PageSpeed.Wire.Find

/-!
# The cuts of the DevTools pipe

After any reads the client is where one read of all their bytes would have left it, unless one of
them ended in a message over the limit.

* `outcome_reads_cons`: one read.
* `reads_cut_iff`: the streams that are read in the same way however they are cut.
-/

namespace PageSpeed.Cdp

open Wire List

/-- The complete messages in a stream, but for those that are dropped. -/
def messages (s : Bytes) : List Bytes := (s.splitOn 0).dropLast.filter admitted

/-- What follows the last end of a message. -/
def rest (s : Bytes) : Bytes := (s.splitOn 0).getLastD []

variable {a m p q s stream read : Bytes} {reads : List Bytes}

/-- A stream without an end of a message has no message. -/
theorem split_of_notMem (h : 0 ∉ s) : messages s = [] ∧ rest s = s := by
  unfold messages rest
  rw [splitOn_eq_singleton h]
  exact ⟨rfl, rfl⟩

/-- The first message, and then the rest of the stream. -/
theorem split_cons (h : 0 ∉ a) (s : Bytes) :
    messages (a ++ 0 :: s) = [a].filter admitted ++ messages s ∧ rest (a ++ 0 :: s) = rest s := by
  obtain ⟨m, ms, hs⟩ := exists_cons_of_ne_nil (splitOn_ne_nil 0 s)
  unfold messages rest
  rw [splitOn_append_cons_self_of_not_mem h, hs,
    dropLast_cons_of_ne_nil (cons_ne_nil m ms), ← filter_append]
  exact ⟨rfl, rfl⟩

/-- More bytes are read behind what is left. -/
theorem split_append (p s : Bytes) :
    messages (p ++ s) = messages p ++ messages (rest p ++ s) ∧
      rest (p ++ s) = rest (rest p ++ s) := by
  induction p using splitOn_induction (c := 0) with
  | hlast p hp =>
    rw [(split_of_notMem hp).1, (split_of_notMem hp).2]
    exact ⟨rfl, rfl⟩
  | hcons a b ha ih =>
    rw [append_assoc, cons_append, (split_cons ha b).1, (split_cons ha b).2, (split_cons ha _).1,
      (split_cons ha _).2, ih.1, ih.2, append_assoc]
    exact ⟨rfl, rfl⟩

theorem rest_suffix (p : Bytes) : rest p <:+ p ∧ 0 ∉ rest p := by
  induction p using splitOn_induction (c := 0) with
  | hlast p hp =>
    rw [(split_of_notMem hp).2]
    exact ⟨suffix_rfl, hp⟩
  | hcons a b ha ih =>
    rw [(split_cons ha b).2]
    exact ⟨ih.1.trans ((suffix_cons 0 b).trans (suffix_append a _)), ih.2⟩

theorem split_append_of_notMem (p : Bytes) (h : 0 ∉ m) : messages (p ++ m) = messages p ∧
    rest (p ++ m) = rest p ++ m := by
  obtain ⟨hnone, hself⟩ := split_of_notMem (s := rest p ++ m) (by simp [(rest_suffix p).2, h])
  rw [(split_append p m).1, (split_append p m).2, hnone, append_nil, hself]
  exact ⟨rfl, rfl⟩

/-- A message over the limit is skipped where its NUL is read. -/
theorem split_of_overLimit (h : OverLimit (rest p)) (s : Bytes) :
    messages (p ++ 0 :: s) = messages p ++ messages s ∧ rest (p ++ 0 :: s) = rest s := by
  obtain ⟨hmessages, hrest⟩ := split_cons (rest_suffix p).2 s
  rw [(split_append p _).1, (split_append p _).2, hmessages, hrest]
  simp [admitted, h]

/-! ## Reads -/

/-- The client behind the first bytes of a stream, where no read has ended in a message over the
limit. -/
def reading (p : Bytes) : CdpClient := { readBuffer := rest p, processed := messages p }

/-- What is passed on, and whether the connection is kept. -/
def outcome (c : CdpClient) : List Bytes × Bool := (c.processed, c.connected)

/-- A read that leaves too long a rest ends the connection; otherwise the reads go on. -/
theorem outcome_reads_cons (p : Bytes) (hread : read ≠ []) (reads : List Bytes) :
    outcome ((reading p).reads (read :: reads)) =
      if OverLimit (rest (p ++ read)) then (messages (p ++ read), false)
      else outcome ((reading (p ++ read)).reads reads) := by
  have hclosed : ∀ processed, (CdpClient.mk [] false processed).reads reads =
      ⟨[], false, processed⟩ := by
    intro processed
    induction reads with
    | nil => rfl
    | cons read reads ih => exact ih
  change outcome (((reading p).onRead read).reads reads) = _
  unfold CdpClient.onRead reading
  rw [if_neg hread, (split_append p read).1, (split_append p read).2]
  change outcome (CdpClient.reads (if OverLimit (rest (rest p ++ read)) then _ else _) reads) = _
  split_ifs
  · rw [hclosed]
    rfl
  · rfl

/-- Behind a message over the limit no message is passed on, and the stream ends in a piece over the
limit. -/
def Uniform (stream : Bytes) : Prop :=
  ∀ before m after, stream = before ++ m ++ 0 :: after → 0 ∉ m → OverLimit m →
    OverLimit (rest after) ∧ messages after = []

/-- A read that ends in a message over the limit has the outcome of the whole stream. -/
theorem Uniform.of_cut (h : Uniform (p ++ q)) (hlimit : OverLimit (rest p)) :
    OverLimit (rest (p ++ q)) ∧ messages p = messages (p ++ q) := by
  by_cases hq : 0 ∈ q
  · obtain ⟨m, after, rfl, hm⟩ := eq_append_cons_of_mem hq
    obtain ⟨⟨before, hp⟩, hrest⟩ := rest_suffix p
    obtain ⟨hmessages, hmore⟩ := split_append_of_notMem p hm
    have hcut : OverLimit (rest (p ++ m)) := by rw [hmore, OverLimit, length_append]; omega
    obtain ⟨hover, hnone⟩ :=
      h before (rest p ++ m) after (by rw [← append_assoc before, hp, append_assoc])
      (by simp [hrest, hm]) (hmore ▸ hcut)
    rw [← append_assoc, (split_of_overLimit hcut after).1, (split_of_overLimit hcut after).2,
      hmessages, hnone, append_nil]
    exact ⟨hover, rfl⟩
  · rw [(split_append_of_notMem p hq).1, (split_append_of_notMem p hq).2, OverLimit, length_append]
    exact ⟨by omega, rfl⟩

/-- Where only the whole stream can pass the limit, the reads do not matter. -/
theorem Uniform.outcome_reads (h : Uniform (p ++ reads.flatten)) (hreads : [] ∉ reads)
    (hopen : ¬ OverLimit (rest p)) :
    outcome ((reading p).reads reads) =
      (messages (p ++ reads.flatten), !OverLimit (rest (p ++ reads.flatten))) := by
  induction reads generalizing p with
  | nil => simp [hopen, CdpClient.reads, outcome, reading]
  | cons read reads ih =>
    rw [mem_cons, not_or] at hreads
    rw [flatten_cons, ← append_assoc] at h ⊢
    rw [outcome_reads_cons p (Ne.symm hreads.1)]
    split_ifs with hlimit
    · obtain ⟨hover, heq⟩ := h.of_cut hlimit
      rw [heq, decide_eq_true hover]
      rfl
    · exact ih h hreads.2 hlimit

/-- Every two ways to cut the stream into reads that are not empty pass the same messages, and both
cancel the connection for size or neither does. -/
def CutFree (stream : Bytes) : Prop :=
  ∀ reads reads' : List Bytes, reads.flatten = stream → reads'.flatten = stream → [] ∉ reads →
    [] ∉ reads' → outcome (CdpClient.reads {} reads) = outcome (CdpClient.reads {} reads')

theorem CutFree.uniform (h : CutFree stream) : Uniform stream := by
  rintro before m after rfl hm hlimit
  have hcut : OverLimit (rest (before ++ m)) := by
    rw [(split_append_of_notMem before hm).2, OverLimit, length_append]; omega
  have hne : before ++ m ≠ [] := fun hnil => by rw [hnil] at hcut; exact absurd hcut (by decide)
  -- all at once, and without the NUL first
  have heq : outcome ((reading []).reads [before ++ m, 0 :: after]) =
      outcome ((reading []).reads [before ++ m ++ 0 :: after]) :=
    h _ _ (by simp) (by simp) (by simp_all) (by simp)
  rw [outcome_reads_cons [] hne, outcome_reads_cons [] (by simp), nil_append, nil_append,
    if_pos hcut, (split_of_overLimit hcut after).1, (split_of_overLimit hcut after).2] at heq
  split_ifs at heq with hover
  · exact ⟨hover, self_eq_append_right.1 (congrArg Prod.fst heq)⟩
  · exact absurd (congrArg Prod.snd heq) Bool.false_ne_true

/-- **The cut of the pipe** makes no difference exactly where behind a message over the limit
nothing is passed on, and the stream ends in one. -/
theorem reads_cut_iff (stream : Bytes) : CutFree stream ↔ Uniform stream := by
  refine ⟨CutFree.uniform, ?_⟩
  rintro h reads reads' rfl heq hreads hreads'
  have houtcome := Uniform.outcome_reads (p := []) h hreads (by decide)
  rw [← heq] at h houtcome
  exact houtcome.trans (Uniform.outcome_reads (p := []) h hreads' (by decide)).symm

/-- One message over the limit: it is skipped together with its NUL, and cancels the connection
without it. -/
theorem not_cutFree : ¬ ∀ stream, CutFree stream := by
  intro h
  have hover := (h _).uniform [] (replicate (kMaxMessageSize + 1) 1) [] rfl (by simp) (by
    rw [OverLimit, length_replicate]
    exact Nat.lt_succ_self _)
  exact absurd hover.1 (by decide)

end PageSpeed.Cdp
