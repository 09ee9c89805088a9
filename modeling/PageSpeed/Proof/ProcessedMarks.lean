import PageSpeed.Run.Basic
import PageSpeed.Spec.ProcessedMarks

/-!
# A purge and the processed marks

* `mem_add`, `mem_erase`: the marks after each of the sections.
* `MarksFenced`: a mark is not added once a purge its notification does not know of has cleared the
  marks of the URL.
* `no_stale_marks`: then a purge that has returned leaves no mark that is older than it.
-/

namespace PageSpeed

open Run Wire

/-! ## One section -/

variable {maxProcessedEntries : ℕ}

namespace ProcessedMarks

/-- A processed mark or a copy record. -/
def Mem (m : Mark) (ms : ProcessedMarks) : Prop :=
  m ∈ ms.processedCurrent ∨ m ∈ ms.processedPrevious ∨ m ∈ ms.copyWrittenCurrent ∨
    m ∈ ms.copyWrittenPrevious

theorem mem_insert {ms : MarkSet} {m n : Mark} (h : m ∈ MarkSet.insert ms n) : m ∈ ms ∨ m = n := by
  unfold MarkSet.insert at h
  split at h
  · exact .inl h
  · simpa using h

theorem mem_erase_key {ms : MarkSet} {m : Mark} {key : Bytes}
    (h : m ∈ MarkSet.erase ms key) : m ∈ ms :=
  List.mem_of_mem_filter h

/-- A new mark is the only one that is added. -/
theorem mem_add {ms : ProcessedMarks} {kind : MarkKind} {m n : Mark}
    (h : (ms.add maxProcessedEntries kind n).Mem m) : ms.Mem m ∨ m = n := by
  cases kind with
  | variantProcessed =>
    have hcurrent : m ∈ MarkSet.insert ms.processedCurrent n → ms.Mem m ∨ m = n :=
      fun h => (mem_insert h).imp_left .inl
    have hcopy : m ∈ MarkSet.erase ms.copyWrittenCurrent n.key → ms.Mem m ∨ m = n :=
      fun h => .inl (.inr (.inr (.inl (mem_erase_key h))))
    simp only [add, markVariantProcessed] at h
    split at h
    · -- the generations have moved: the older marks are gone
      rcases h with h | h | h | h
      · cases h
      · exact hcurrent h
      · cases h
      · exact hcopy h
    · rcases h with h | h | h | h
      · exact hcurrent h
      · exact .inl (.inr (.inl h))
      · exact hcopy h
      · exact .inl (.inr (.inr (.inr (mem_erase_key h))))
  | copyWritten =>
    simp only [add, markCopyWritten] at h
    split at h
    · rcases h with h | h | h | h
      · exact .inl (.inl h)
      · exact .inl (.inr (.inl h))
      · exact (mem_insert h).imp_left fun h => .inr (.inr (.inl h))
      · exact .inl (.inr (.inr (.inr h)))
    split at h
    · rcases h with h | h | h | h
      · exact .inl (.inl h)
      · exact .inl (.inr (.inl h))
      · exact .inl (.inr (.inr (.inl h)))
      · exact (mem_insert h).imp_left fun h => .inr (.inr (.inr h))
    · exact .inl h

/-- What a purge leaves. -/
theorem mem_erase {ms : ProcessedMarks} {m : Mark} {start : Bytes} :
    (ms.eraseUrlMarksLocked start).Mem m ↔ ms.Mem m ∧ ¬ start <+: m.key := by
  simp only [Mem, eraseUrlMarksLocked, List.mem_filter, List.isPrefixOf_iff_prefix,
    decide_eq_true_eq]
  tauto

end ProcessedMarks

/-- The keys of a URL start with what a purge of it erases. -/
theorem marksPrefix_of_composed (r : ResourceName) (id : UInt8) :
    marksPrefix r <+: composeInternalKeyWithId r id := by
  unfold marksPrefix composeInternalKeyWithId composeInternalKey
  split
  · exact ⟨Inet.decimal id.toNat, rfl⟩
  · exact ⟨lit "s=" ++ r.site ++ lit "|" ++ Inet.decimal id.toNat, by simp [lit]⟩

/-! ## All interleavings -/

/-- The call is an `InvalidateUrl` that has returned, and its purge was this one. -/
def MarkCall.purged : MarkCall → Option (ResourceName × ℕ)
  | .invalidateUrl r (.returned n) => some (r, n)
  | _ => none

/-- A call that is about to add a mark, for this URL and with this baseline. -/
def MarkCall.inserts : MarkCall → Option (ResourceName × ℕ)
  | .mark _ r _ gen .insert => some (r, gen)
  | _ => none

/-- No mark is added when a purge of its URL, after the baseline of its notification, has already
cleared the marks. -/
def MarksFenced (s : MarkState) : MarkAction → Prop
  | .advance i => ∀ c ∈ s.calls[i]?, ∀ new ∈ c.inserts, ∀ d ∈ s.calls, ∀ old ∈ d.purged,
      old.1 = new.1 → old.2 ≤ new.2
  | _ => True

instance (s : MarkState) (act : MarkAction) : Decidable (MarksFenced s act) := by
  cases act <;> unfold MarksFenced <;> infer_instance

namespace MarkState

/-- A mark that is set is of a generation no older than a purge that has cleared the marks. -/
structure Fenced (s : MarkState) : Prop where
  keys : ∀ m, s.marks.Mem m → ∃ id, m.key = composeInternalKeyWithId m.resource id
  fresh : ∀ m, s.marks.Mem m → ∀ d ∈ s.calls, ∀ n, d.purged = some (m.resource, n) → n ≤ m.purgeGen

/-- A call that starts has not returned. -/
theorem Fenced.start {s : MarkState} (h : s.Fenced) {c : MarkCall} (hc : c.purged = none) :
    Fenced { s with calls := s.calls ++ [c] } := by
  refine ⟨h.keys, fun m hm d hd n hn => ?_⟩
  rcases List.mem_append.1 hd with hd | hd
  · exact h.fresh m hm d hd n hn
  · rw [List.mem_singleton.1 hd, hc] at hn
    cases hn

/-- What a section of a call does to the marks, and what it says of purges. -/
theorem step_call {purges purges' : ResourceName → ℕ} {marks marks' : ProcessedMarks}
    {c c' : MarkCall} (h : c.step maxProcessedEntries purges marks = some (purges', marks', c')) :
    (marks' = marks ∧ c'.purged = none) ∨
    (∃ kind r id gen, c.inserts = some (r, gen) ∧ c'.purged = none ∧
      marks' = marks.add maxProcessedEntries kind ⟨composeInternalKeyWithId r id, r, gen⟩) ∨
    (∃ r n, c'.purged = some (r, n) ∧ marks' = marks.eraseUrlMarksLocked (marksPrefix r)) := by
  cases c with
  | mark kind r id gen stage =>
    cases stage <;> simp only [MarkCall.step, Option.some.injEq, Prod.mk.injEq, reduceCtorEq] at h
    case check =>
      obtain ⟨-, rfl, rfl⟩ := h
      exact .inl ⟨rfl, rfl⟩
    case insert =>
      obtain ⟨-, rfl, rfl⟩ := h
      exact .inr (.inl ⟨kind, r, id, gen, rfl, rfl, rfl⟩)
  | invalidateUrl r stage =>
    cases stage <;> simp only [MarkCall.step, Option.some.injEq, Prod.mk.injEq, reduceCtorEq] at h
    case purge =>
      obtain ⟨-, rfl, rfl⟩ := h
      exact .inl ⟨rfl, rfl⟩
    case clear n =>
      obtain ⟨-, rfl, rfl⟩ := h
      exact .inr (.inr ⟨r, n, rfl, rfl⟩)

/-- Every action keeps the fence. -/
theorem Fenced.step {s t : MarkState} {act : MarkAction} (h : s.Fenced)
    (hfenced : MarksFenced s act) (hstep : s.step maxProcessedEntries act = some t) : t.Fenced := by
  cases act with
  | mark kind r id gen =>
    cases hstep
    exact h.start rfl
  | invalidateUrl r =>
    cases hstep
    exact h.start rfl
  | advance i =>
    obtain ⟨⟨purges, marks, c'⟩, hc', rfl⟩ := Option.map_eq_some_iff.1 hstep
    obtain ⟨c, hc, hcstep⟩ := Option.bind_eq_some_iff.1 hc'
    -- the calls of the new state are those of the old one, and the one that moved
    have hcalls : ∀ d ∈ s.calls.set i c', d ∈ s.calls ∨ d = c' :=
      fun d hd => List.mem_or_eq_of_mem_set hd
    rcases step_call hcstep with
      ⟨rfl, hnone⟩ | ⟨kind, r, id, gen, hins, hnone, rfl⟩ | ⟨r, n, hpurged, rfl⟩
    · refine ⟨h.keys, fun m hm d hd n hn => ?_⟩
      rcases hcalls d hd with hd | rfl
      · exact h.fresh m hm d hd n hn
      · rw [hnone] at hn
        cases hn
    · refine ⟨fun m hm => ?_, fun m hm d hd n hn => ?_⟩
      · rcases ProcessedMarks.mem_add hm with hm | rfl
        · exact h.keys m hm
        · exact ⟨id, rfl⟩
      · rcases hcalls d hd with hd | rfl
        · rcases ProcessedMarks.mem_add hm with hm | rfl
          · exact h.fresh m hm d hd n hn
          · exact hfenced c hc _ hins d hd _ hn rfl
        · rw [hnone] at hn
          cases hn
    · refine ⟨fun m hm => h.keys m (ProcessedMarks.mem_erase.1 hm).1, fun m hm d hd k hk => ?_⟩
      obtain ⟨hold, hkey⟩ := ProcessedMarks.mem_erase.1 hm
      rcases hcalls d hd with hd | rfl
      · exact h.fresh m hold d hd k hk
      · -- every mark of the URL has just been erased
        obtain ⟨rfl, rfl⟩ := Prod.mk.inj (Option.some.inj (hpurged.symm.trans hk))
        obtain ⟨id, hid⟩ := h.keys m hold
        rw [hid] at hkey
        exact absurd (marksPrefix_of_composed m.resource id) hkey

end MarkState

/-- **A purge leaves no stale mark**, in every interleaving in which no mark is added behind a purge
that has cleared the marks: once an `InvalidateUrl` has returned, no processed mark and no copy
record for the URL is from a notification with an older baseline. -/
theorem no_stale_marks (maxProcessedEntries : ℕ) (acts : List MarkAction) (s : MarkState)
    (hrun : run (MarkState.step maxProcessedEntries) {} acts = some s)
    (hfenced : Meets (MarkState.step maxProcessedEntries) MarksFenced {} acts)
      (r : ResourceName) (n : ℕ) (hreturned : .invalidateUrl r (.returned n) ∈ s.calls) :
    ∀ m, s.marks.Mem m → m.resource = r → ¬ m.purgeGen < n := by
  have h : s.Fenced := by
    refine run_invariant (I := fun _ s => s.Fenced) (fun _ s act t h => h.step) ?_ hfenced hrun
    exact ⟨by simp [ProcessedMarks.Mem], by simp [ProcessedMarks.Mem]⟩
  rintro m hm rfl
  exact not_lt.2 (h.fresh m hm _ hreturned n rfl)

/-- A mark from before the purge is erased, and one from after it stays. -/
theorem no_stale_marks_fresh :
    ∃ s : MarkState, run (MarkState.step 10) {}
      [.mark .variantProcessed ⟨[47], [104], [], []⟩ 0 0, .advance 0,
        .advance 0, .invalidateUrl ⟨[47], [104], [], []⟩, .advance 1, .advance 1,
        .mark .variantProcessed ⟨[47], [104], [], []⟩ 0 1, .advance 2, .advance 2] = some s ∧
      s.marks.processedCurrent.map Mark.purgeGen = [1] ∧
      ∀ m, s.marks.Mem m → m.resource = ⟨[47], [104], [], []⟩ → ¬ m.purgeGen < 1 := by
  have hrun : run (MarkState.step 10) {}
    [.mark .variantProcessed ⟨[47], [104], [], []⟩ 0 0, .advance 0,
      .advance 0, .invalidateUrl ⟨[47], [104], [], []⟩, .advance 1, .advance 1,
      .mark .variantProcessed ⟨[47], [104], [], []⟩ 0 1, .advance 2, .advance 2] =
      some ⟨Function.update (fun _ => 0) ⟨[47], [104], [], []⟩ 1,
        { processedCurrent :=
            [⟨composeInternalKeyWithId ⟨[47], [104], [], []⟩ 0, ⟨[47], [104], [], []⟩, 1⟩] },
        [.mark .variantProcessed ⟨[47], [104], [], []⟩ 0 0 .returned,
          .invalidateUrl ⟨[47], [104], [], []⟩ (.returned 1),
          .mark .variantProcessed ⟨[47], [104], [], []⟩ 0 1 .returned]⟩ := by
    rfl
  exact ⟨_, hrun, rfl, no_stale_marks 10 _ _ hrun (by decide) _ 1 (by simp)⟩

/-- A mark whose fence check came before the purge is added behind it. -/
theorem stale_mark_added :
    ∃ s : MarkState, run (MarkState.step 10) {}
      [.mark .variantProcessed ⟨[47], [104], [], []⟩ 0 0, .advance 0,
        .invalidateUrl ⟨[47], [104], [], []⟩, .advance 1, .advance 1, .advance 0] = some s ∧
      .invalidateUrl ⟨[47], [104], [], []⟩ (.returned 1) ∈ s.calls ∧
      ∃ m, s.marks.Mem m ∧ m.resource = ⟨[47], [104], [], []⟩ ∧ m.purgeGen < 1 := by
  refine ⟨⟨Function.update (fun _ => 0) ⟨[47], [104], [], []⟩ 1,
    { processedCurrent :=
        [⟨composeInternalKeyWithId ⟨[47], [104], [], []⟩ 0, ⟨[47], [104], [], []⟩, 0⟩] },
    [.mark .variantProcessed ⟨[47], [104], [], []⟩ 0 0 .returned,
      .invalidateUrl ⟨[47], [104], [], []⟩ (.returned 1)]⟩, rfl, by
        simp, _, .inl List.mem_cons_self, rfl, by decide⟩

end PageSpeed
