import PageSpeed.Spec.NoscriptDiff

/-!
# The diff is a shortest one

Before each round the vector has the furthest points of the search (`Holds`), so the search ends in
the round of the shortest script (`search_spec`), and the walk back finds one such script and counts
its runs (`walk_spec`).
-/

namespace PageSpeed.NoscriptStrip

open Diff Wire List Nat

variable {a b : List Bytes} {maxD d : ℕ} {v : List ℤ} {k x : ℤ} {s : List Edit} {t : Tally}
  {traces : List (List ℤ)}

/-! ## Vectors -/

/-- The furthest point on each diagonal, for names up to case. -/
abbrev far (a b : List Bytes) : ℕ → ℤ → ℤ := furthest stringCaseEqual a b

/-- The entries that round `d` reads. -/
def Readable (d : ℕ) (k : ℤ) : Prop := d = 0 ∧ k = 1 ∨ -d < k ∧ k < d ∧ (d + k) % 2 = 1

/-- The table after `d` rounds: the entries that the next round reads are the furthest points. -/
structure Holds (a b : List Bytes) (maxD d : ℕ) (v : List ℤ) : Prop where
  length : v.length = 2 * maxD + 3
  values : ∀ k, Readable d k → valueAt maxD v k = some (far a b d k)

/-- The ends of both lists are reached on the diagonal. -/
def Ends (a b : List Bytes) (d : ℕ) (k : ℤ) : Prop :=
  a.length ≤ far a b (d + 1) k ∧ b.length ≤ far a b (d + 1) k - k

instance : Decidable (Ends a b d k) := inferInstanceAs (Decidable (_ ∧ _))

/-- The loop visits the diagonals of its round. -/
theorem mem_diagonals : k ∈ diagonals d ↔ OnRound d k := by
  unfold diagonals OnRound
  rw [mem_map]
  constructor
  · rintro ⟨i, hi, rfl⟩
    rw [mem_range] at hi
    omega
  · intro h
    exact ⟨((k + d) / 2).toNat, by rw [mem_range]; omega, by omega⟩

/-- A write to a diagonal of the round is in range, and leaves what the round reads. -/
theorem Holds.setAt (h : Holds a b maxD d v) (hd : d ≤ maxD) (hk : OnRound d k) (x : ℤ) :
    ∃ v', setAt maxD v k x = some v' ∧ Holds a b maxD d v' ∧ valueAt maxD v' k = some x ∧
      ∀ j ≠ k, valueAt maxD v' j = valueAt maxD v j := by
  obtain ⟨hlo, hhi, hparity⟩ := hk
  have hslot : slot maxD k = some (k + (maxD + 1)).toNat := if_pos (by omega)
  have hlt : (k + (maxD + 1)).toNat < v.length := by
    rw [h.length]
    omega
  have hother : ∀ j ≠ k, valueAt maxD (v.set (k + (maxD + 1)).toNat x) j = valueAt maxD v j := by
    intro j hj
    unfold valueAt slot
    split_ifs
    · simp only [Option.bind_eq_bind, Option.bind_some]
      exact getElem?_set_ne (by omega)
    · rfl
  refine ⟨v.set (k + (maxD + 1)).toNat x, ?_,
    ⟨by rw [length_set, h.length], fun j hj => ?_⟩, ?_, hother⟩
  · simp [NoscriptStrip.setAt, hslot, hlt]
  · unfold Readable at hj
    rw [hother j (by omega)]
    exact h.values j hj
  · simp [valueAt, hslot, getElem?_set_self hlt]

/-- The choice of the search as the code makes it, which reads in range. -/
theorem Holds.fromAbove (h : Holds a b maxD d v) (hk : OnRound d k) :
    ∃ above, fromAbove maxD v d k = some above ∧
    if above then (k = -d ∨ k ≠ d) ∧ valueAt maxD v (k + 1) = some (start (far a b d) d k)
    else k ≠ -d ∧ valueAt maxD v (k - 1) = some (start (far a b d) d k - 1) := by
  obtain ⟨hlo, hhi, hparity⟩ := hk
  have hleft : k ≠ -d → valueAt maxD v (k - 1) = some (far a b d (k - 1)) :=
    fun hlow => h.values _ (by unfold Readable; omega)
  have hright : k = -d ∨ k ≠ d → valueAt maxD v (k + 1) = some (far a b d (k + 1)) :=
    fun hhigh => h.values _ (by unfold Readable; omega)
  refine ⟨decide (k = -d ∨ k ≠ d ∧ far a b d (k - 1) < far a b d (k + 1)), ?_, ?_⟩
  · unfold NoscriptStrip.fromAbove
    split_ifs with hlow hhigh
    · simp [hlow]
    · rw [decide_eq_false fun habove => habove.elim hlow fun h => h.1 hhigh]
    · simp [hlow, hhigh, hleft hlow, hright (.inr hhigh)]
  · simp only [decide_eq_true_eq, start]
    split_ifs with habove
    · exact ⟨habove.imp_right And.left, hright (habove.imp_right And.left)⟩
    · rw [add_sub_cancel_right]
      exact ⟨fun hlow => habove (.inl hlow), hleft fun hlow => habove (.inl hlow)⟩

/-- The entries of the neighbours give the start of a diagonal. -/
theorem Holds.startAt (h : Holds a b maxD d v) (hk : OnRound d k) :
    startAt maxD v d k = some (start (far a b d) d k) := by
  obtain ⟨above, habove, hvalue⟩ := h.fromAbove hk
  rw [NoscriptStrip.startAt, habove]
  cases above with
  | true => exact hvalue.2
  | false =>
    have hvalue : valueAt maxD v (k - 1) = _ := hvalue.2
    simp [hvalue]

/-- A run of equal names is followed to its end. -/
theorem snake_eq {i j : ℕ} : snake a b i j =
    some (i + commonLength stringCaseEqual (a.drop i) (b.drop j) : ℤ) := by
  unfold snake
  split_ifs with hin
  · simp
  · simp only [cast_nonneg, and_self, not_true_eq_false] at *
  · rcases not_and_or.1 hin with hlen | hlen
    · simp [drop_eq_nil_of_le (by omega : a.length ≤ i), commonLength]
    · simp [drop_eq_nil_of_le (by omega : b.length ≤ j), commonLength]

/-! ## The search -/

/-- A round makes the table of the next one, within its bounds. -/
theorem searchRound_spec (hd : d ≤ maxD) {ks : List ℤ} (hks : ∀ k ∈ ks, OnRound d k)
    (h : Holds a b maxD d v) :
    ∃ v' found, searchRound a b maxD d ks v = some (v', found) ∧ v'.length = v.length ∧
      if found then ∃ k ∈ ks, Ends a b d k
      else (∀ k ∈ ks, ¬ Ends a b d k ∧ valueAt maxD v' k = some (far a b (d + 1) k)) ∧
        ∀ j ∉ ks, valueAt maxD v' j = valueAt maxD v j := by
  induction ks generalizing v with
  | nil => exact ⟨v, false, rfl, rfl, by simp⟩
  | cons k ks ih =>
    obtain ⟨hk, hks⟩ := forall_mem_cons.1 hks
    obtain ⟨i, j, hi, hdiag, -, hend⟩ := @exists_start _ _ stringCaseEqual a b _ _ hk
    obtain ⟨v', hset, hholds, hself, hother⟩ := h.setAt hd hk (far a b (d + 1) k)
    -- one diagonal: its start is read, the snake followed and the end written
    have hround : searchRound a b maxD d (k :: ks) v =
        if Ends a b d k then some (v', true) else searchRound a b maxD d ks v' := by
      have hsnake : snake a b i (i - k) = some (far a b (d + 1) k) := by
        rw [show (i : ℤ) - k = j by omega, snake_eq, far, hend]
      simp only [searchRound, h.startAt hk, far, hi, Option.bind_eq_bind, Option.bind_some,
        hsnake, hset]
      rfl
    rw [hround]
    split_ifs with hends
    · exact ⟨v', true, rfl, by rw [hholds.length, h.length], k, mem_cons_self, hends⟩
    · obtain ⟨v'', found, hrun, hlength, hfound⟩ := ih hks hholds
      refine ⟨v'', found, hrun, by rw [hlength, hholds.length, h.length], ?_⟩
      cases found with
      | true =>
        obtain ⟨k', hk', hends'⟩ := hfound
        exact ⟨k', mem_cons_of_mem _ hk', hends'⟩
      | false =>
        obtain ⟨hall, hrest⟩ := hfound
        refine ⟨forall_mem_cons.2 ⟨⟨hends, ?_⟩, hall⟩, fun j hj => ?_⟩
        · by_cases hmem : k ∈ ks
          · exact (hall k hmem).2
          · rw [hrest k hmem, hself]
        · rw [mem_cons, not_or] at hj
          rw [hrest j hj.2, hother j hj.1]

/-- What the search gives: no earlier round ends, and the vectors are those of the rounds. -/
def Searched (a b : List Bytes) (maxD : ℕ) : Option (ℕ × List (List ℤ)) → Prop
  | none => ∀ e ≤ maxD, ∀ k, OnRound e k → ¬ Ends a b e k
  | some (d, traces) => d ≤ maxD ∧ (∀ e ≤ d, ∃ w, traces[e]? = some w ∧ Holds a b maxD e w) ∧
      (∀ e < d, ∀ k, OnRound e k → ¬ Ends a b e k) ∧ ∃ k, OnRound d k ∧ Ends a b d k

/-- The search finds the end in the first round that reaches it, or no round does. -/
theorem search_spec {n : ℕ} (hn : d + n = maxD + 1) (h : Holds a b maxD d v)
    (hlen : traces.length = d) (htraces : ∀ e < d, ∃ w, traces[e]? = some w ∧ Holds a b maxD e w)
    (hnone : ∀ e < d, ∀ k, OnRound e k → ¬ Ends a b e k) :
    ∃ r, search a b maxD n d v traces = some r ∧ Searched a b maxD r := by
  induction n generalizing d v traces with
  | zero => exact ⟨none, rfl, fun e he => hnone e (by omega)⟩
  | succ n ih =>
    -- the row that the round starts from is kept for the way back
    have htraces' : ∀ e < d + 1, ∃ w, (traces ++ [v])[e]? = some w ∧ Holds a b maxD e w := by
      intro e he
      rcases Nat.lt_succ_iff_lt_or_eq.1 he with hlt | rfl
      · obtain ⟨w, hw, hholds⟩ := htraces e hlt
        exact ⟨w, by rw [getElem?_append_left (by omega), hw], hholds⟩
      · exact ⟨v, by rw [← hlen, getElem?_concat_length], h⟩
    obtain ⟨v', found, hround, hlength, hfound⟩ :=
      searchRound_spec (by omega) (fun k hk => mem_diagonals.1 hk) h
    simp only [search, hround, Option.bind_eq_bind, Option.bind_some]
    cases found with
    | true =>
      obtain ⟨k, hk, hends⟩ := hfound
      exact ⟨_, rfl, by omega, fun e he => htraces' e (by omega), hnone, k,
        mem_diagonals.1 hk, hends⟩
    | false =>
      -- no diagonal ends: the next round reads what this one wrote
      obtain ⟨hall, -⟩ := hfound
      refine ih (by omega) ⟨by rw [hlength, h.length], fun k hk => ?_⟩ (by simp [hlen]) htraces'
        fun e he k hk => ?_
      · unfold Readable at hk
        exact (hall k (mem_diagonals.2 (by unfold OnRound; omega))).2
      · rcases Nat.lt_succ_iff_lt_or_eq.1 he with hlt | rfl
        · exact hnone e hlt k hk
        · exact (hall k (mem_diagonals.2 hk)).1

/-- A script ends the search in the round of its cost. -/
theorem ends_of_reaches (h : Reaches stringCaseEqual a b d a.length b.length) :
    Ends a b d (a.length - b.length) := by
  have hle : (a.length : ℤ) ≤ far a b (d + 1) (a.length - b.length) := h.le_furthest
  exact ⟨hle, by omega⟩

/-- A script reaches the end in as many rounds as it has edits. -/
theorem ends_of_script (h : Script stringCaseEqual a b s) :
    Ends a b (cost s) (a.length - b.length) ∧ OnRound (cost s) (a.length - b.length) := by
  have hreaches := h.reaches (i := 0) (j := 0) (zero_le _) (zero_le _) .start
  rw [zero_add] at hreaches
  exact ⟨ends_of_reaches hreaches, hreaches.onRound⟩

/-- The search ends at the ends of the lists, not past them. -/
theorem far_eq_length (hnone : ∀ e < d, ∀ k, OnRound e k → ¬ Ends a b e k) (hk : OnRound d k)
    (hends : Ends a b d k) :
    k = a.length - b.length ∧ far a b (d + 1) k = a.length := by
  obtain ⟨i, j, -, hdiag, hbeyond, hend⟩ := @exists_start _ _ stringCaseEqual a b _ _ hk
  obtain ⟨e, hreaches, hcost⟩ := hbeyond.keep le_rfl
  unfold Ends far at hends
  rw [hend] at hends
  rw [min_eq_right (by omega), min_eq_right (by omega)] at hreaches
  have hle : d ≤ e := by
    by_contra hlt
    exact hnone e (by omega) _ hreaches.onRound (ends_of_reaches hreaches)
  constructor
  · omega
  · rw [far, hend]
    omega

/-! ## The walk back -/

/-- The counts of the walk: those of the run at the front of the script, and all deletions behind
it. -/
structure Tallied (t : Tally) (s : List Edit) : Prop where
  front : ∀ run, run <+: s → .keep ∉ run → run.count .delete ≤ t.deleted ∧
    run.count .insert ≤ t.inserted
  runs : ∀ run, run <:+: s → .keep ∉ run →
    run.count .delete ≤ max t.deleted kMaxDeletionRun ∧
      run.count .insert ≤ max t.inserted kMaxIsolatedRun
  total : s.count .delete = t.deletions + t.deleted

/-- A tally that is in order stands for isolated edits. -/
theorem Tallied.isolated (h : Tallied t s) (hok : t.runOk = true) : Isolated s ∧
    s.count .delete ≤ kMaxDeletions := by
  simp only [Tally.runOk, Bool.and_eq_true, decide_eq_true_eq] at hok
  obtain ⟨⟨⟨-, hinserted⟩, hdeleted⟩, htotal⟩ := hok
  refine ⟨fun run hrun hkeep => ?_, by rw [h.total]; exact htotal⟩
  have hcounts := h.runs run hrun hkeep
  rwa [max_eq_right hdeleted, max_eq_right hinserted] at hcounts

theorem Isolated.keep (h : Isolated s) (c : ℕ) : Isolated (List.replicate c .keep ++ s) := by
  induction c with
  | zero => exact h
  | succ c ih =>
    intro run hrun hkeep
    rw [replicate_succ, cons_append] at hrun
    rcases infix_cons_iff.1 hrun with hfront | hrun
    · cases run with
      | nil => simp
      | cons e run =>
        obtain ⟨rfl, -⟩ := cons_prefix_cons.1 hfront
        exact absurd mem_cons_self hkeep
    · exact ih run hrun hkeep

/-- Isolation does not depend on the direction. -/
theorem Isolated.reverse (h : Isolated s) : Isolated s.reverse := by
  intro run hrun hkeep
  rw [← reverse_infix, reverse_reverse] at hrun
  simpa using h run.reverse hrun (by simpa using hkeep)

/-- A kept name ends the run. -/
theorem Tallied.keep (h : Tallied t s) (hok : t.runOk = true) (c : ℕ) :
    Tallied { deletions := t.deletions + t.deleted } (List.replicate (c + 1) .keep ++ s) := by
  have hisolated := (h.isolated hok).1.keep (c + 1)
  refine ⟨fun run hrun hkeep => ?_, fun run hrun hkeep => ?_, ?_⟩
  · cases run with
    | nil => simp
    | cons e run =>
      rw [replicate_succ, cons_append] at hrun
      obtain ⟨rfl, -⟩ := cons_prefix_cons.1 hrun
      exact absurd mem_cons_self hkeep
  · simpa using hisolated run hrun hkeep
  · simp [count_append, count_replicate, h.total]

/-- One more edit in the run at the front. -/
theorem Tallied.edit (h : Tallied t s) {e : Edit} {t' : Tally}
    (hdeleted : t'.deleted = t.deleted + [e].count .delete)
      (hinserted : t'.inserted = t.inserted + [e].count .insert)
    (hdeletions : t'.deletions = t.deletions) : Tallied t' (e :: s) := by
  have hfront : ∀ run, run <+: e :: s → .keep ∉ run → run.count .delete ≤ t'.deleted ∧
      run.count .insert ≤ t'.inserted := by
    intro run hrun hkeep
    cases run with
    | nil => simp
    | cons f run =>
      obtain ⟨rfl, hprefix⟩ := cons_prefix_cons.1 hrun
      have hcounts := h.front run hprefix fun hmem => hkeep (mem_cons_of_mem _ hmem)
      rw [← singleton_append, count_append, count_append]
      omega
  refine ⟨hfront, fun run hrun hkeep => ?_, ?_⟩
  · rcases infix_cons_iff.1 hrun with hrun | hrun
    · have hcounts := hfront run hrun hkeep
      omega
    · have hcounts := h.runs run hrun hkeep
      omega
  · rw [← singleton_append, count_append, h.total]
    omega

/-- The point of the round before, as the walk finds it. -/
theorem Holds.previous (h : Holds a b maxD (d + 1) v) (hk : OnRound (d + 1) k) :
    ∃ (above : Bool) (x y i j : ℕ),
    NoscriptStrip.fromAbove maxD v (d + 1) k = some above ∧
      (x : ℤ) - y = (if above then k + 1 else k - 1) ∧
    valueAt maxD v (x - y) = some (x : ℤ) ∧ OnRound d (x - y) ∧ far a b (d + 1) (x - y) = x ∧
      (i : ℤ) = j + k ∧
    i = (if above then x else x + 1) ∧
      far a b (d + 2) k = i + commonLength stringCaseEqual (a.drop i) (b.drop j) := by
  obtain ⟨above, habove, hvalue⟩ := h.fromAbove hk
  obtain ⟨i, j, hi, hdiag, -, hend⟩ := @exists_start _ _ stringCaseEqual a b _ _ hk
  have hi : start (far a b (d + 1)) (d + 1) k = i := hi
  have hpoint : ∀ k' z : ℤ, OnRound d k' → valueAt maxD v k' = some z →
      ∃ x y : ℕ, (x : ℤ) - y = k' ∧ far a b (d + 1) k' = x ∧ z = x := by
    intro k' z hk' hz
    obtain ⟨p, q, -, hpq, -, hfar⟩ := @exists_start _ _ stringCaseEqual a b _ _ hk'
    have hread := h.values k' (by unfold OnRound at hk'; unfold Readable; omega)
    refine ⟨p + commonLength stringCaseEqual (a.drop p) (b.drop q),
      q + commonLength stringCaseEqual (a.drop p) (b.drop q),
      by omega, by rw [far, hfar, cast_add], ?_⟩
    rw [← Option.some.inj (hread.symm.trans hz), far, hfar, cast_add]
  obtain ⟨hlo, hhi, hparity⟩ := hk
  cases above with
  | true =>
    obtain ⟨hside, hvalue⟩ := hvalue
    obtain ⟨x, y, hxy, hfar, hx⟩ := hpoint (k + 1) _ (by unfold OnRound; omega) hvalue
    refine ⟨true, x, y, i, j, habove, hxy, ?_, ?_, ?_, hdiag, ?_, hend⟩
    · rw [hxy, hvalue, hx]
    · unfold OnRound
      omega
    · rw [hxy, hfar]
    · rw [if_pos rfl]
      omega
  | false =>
    obtain ⟨hside, hvalue⟩ := hvalue
    obtain ⟨x, y, hxy, hfar, hx⟩ := hpoint (k - 1) _ (by unfold OnRound; omega) hvalue
    refine ⟨false, x, y, i, j, habove, hxy, ?_, ?_, ?_, hdiag, ?_, hend⟩
    · rw [hxy, hvalue, hx]
    · unfold OnRound
      omega
    · rw [hxy, hfar]
    · rw [if_neg (by decide)]
      omega

/-- The walk back through the tables spells out a shortest script. -/
theorem walk_spec (htraces : ∀ e ≤ d, ∃ w, traces[e]? = some w ∧ Holds a b maxD e w)
    {x y : ℕ} (hx : x ≤ a.length) (hy : y ≤ b.length) (hround : OnRound d (x - y))
      (hfar : far a b (d + 1) (x - y) = x)
    (hs : Script stringCaseEqual (a.drop x) (b.drop y) s) (ht : Tallied t s) :
    ∃ r, walk maxD traces d x y t = some r ∧
      (r = true → ∃ s', Script stringCaseEqual a b s' ∧ cost s' = d + cost s ∧
      Isolated s' ∧ s'.count .delete ≤ kMaxDeletions) := by
  induction d generalizing x y s t with
  | zero =>
    refine ⟨_, rfl, fun hok => ?_⟩
    obtain ⟨hisolated, hdeletions⟩ := ht.isolated hok
    obtain ⟨hlo, hhi, -⟩ := hround
    obtain rfl : x = y := by omega
    -- round 0 went along the common start
    have hcommon : x = commonLength stringCaseEqual a b := by
      simpa [far, furthest, Diff.start] using hfar.symm
    refine ⟨List.replicate x .keep ++ s, ?_, by simp, hisolated.keep x, by simpa [count_replicate]⟩
    rw [hcommon] at hs ⊢
    exact keep_commonLength .keep hs
  | succ d ih =>
    obtain ⟨w, hw, hholds⟩ := htraces (d + 1) le_rfl
    obtain ⟨above, x', y', i, j, habove, hprev, hvalue, hround', hfar', hdiag, hi, hend⟩ :=
      hholds.previous hround
    obtain ⟨c, hc⟩ : ∃ c, c = commonLength stringCaseEqual (a.drop i) (b.drop j) := ⟨_, rfl⟩
    rw [← hc, hfar] at hend
    -- the elements between the two points match
    have hkept : Script stringCaseEqual (a.drop i) (b.drop j) (List.replicate c .keep ++ s) := by
      rw [hc]
      apply keep_commonLength .keep
      rw [drop_drop, drop_drop, ← hc, show i + c = x by omega, show j + c = y by omega]
      exact hs
    have hmatched : min ((x : ℤ) - x') (y - y') = c := by
      cases above <;> simp only [if_true, if_false, Bool.false_eq_true] at hprev hi <;> omega
    have hprevK : (if above = true then (x : ℤ) - y + 1 else x - y - 1) = x' - y' := hprev.symm
    rw [walk]
    simp only [hw, habove, Option.bind_eq_bind, Option.bind_some, hprevK, hvalue,
      sub_sub_cancel, hmatched]
    by_cases hbad : 0 < (c : ℤ) ∧ t.runOk = false
    · rw [if_pos hbad]
      exact ⟨false, rfl, fun h => absurd h Bool.false_ne_true⟩
    rw [if_neg hbad]
    have htally : Tallied (if 0 < (c : ℤ) then { deletions := t.deletions + t.deleted } else t)
        (List.replicate c .keep ++ s) := by
      cases c with
      | zero => simpa using ht
      | succ c =>
        rw [if_pos (by omega)]
        exact ht.keep (by simpa using hbad) c
    generalize (if 0 < (c : ℤ) then { deletions := t.deletions + t.deleted } else t) = t' at htally
    have htraces' : ∀ e ≤ d, ∃ w, traces[e]? = some w ∧ Holds a b maxD e w :=
      fun e he => htraces e (by omega)
    cases above with
    | true =>
      simp only [if_true] at hprev hi
      have hdrop : Script stringCaseEqual (a.drop x') (b.drop y')
          (.insert :: (List.replicate c .keep ++ s)) := by
        rw [hi, show j = y' + 1 by omega] at hkept
        rw [drop_eq_getElem_cons (by omega : y' < b.length)]
        exact .insert hkept
      have hedit : Tallied { t' with inserted := t'.inserted + 1 }
          (.insert :: (List.replicate c .keep ++ s)) :=
        htally.edit rfl rfl rfl
      have hnext := ih htraces' (by omega) (by omega) hround' hfar' hdrop hedit
      rw [if_pos (by omega)]
      rwa [cost_insert, cost_keeps, ← add_assoc, add_right_comm] at hnext
    | false =>
      simp only [if_false, Bool.false_eq_true] at hprev hi
      have hdrop : Script stringCaseEqual (a.drop x') (b.drop y')
          (.delete :: (List.replicate c .keep ++ s)) := by
        rw [hi, show j = y' by omega] at hkept
        rw [drop_eq_getElem_cons (by omega : x' < a.length)]
        exact .delete hkept
      have hedit : Tallied { t' with deleted := t'.deleted + 1 }
          (.delete :: (List.replicate c .keep ++ s)) :=
        htally.edit rfl rfl rfl
      have hnext := ih htraces' (by omega) (by omega) hround' hfar' hdrop hedit
      rw [if_neg (by omega)]
      rwa [cost_delete, cost_keeps, ← add_assoc, add_right_comm] at hnext

/-! ## The whole -/

/-- A script that the cross-check allows. -/
structure Allowed (a b : List Bytes) (maxD : ℕ) (s : List Edit) : Prop where
  shortest : Shortest stringCaseEqual a b s
  few : cost s ≤ maxD
  isolated : Isolated s
  deletions : s.count .delete ≤ kMaxDeletions

/-- The common start of the lists. -/
theorem Allowed.keep
    (h : Allowed (a.drop (commonLength stringCaseEqual a b))
      (b.drop (commonLength stringCaseEqual a b)) maxD s) :
    Allowed a b maxD (List.replicate (commonLength stringCaseEqual a b) .keep ++ s) :=
  ⟨keep_commonLength .keep h.shortest, by simpa using h.few, h.isolated.keep _,
    by simpa [count_replicate] using h.deletions⟩

theorem Allowed.reverse (h : Allowed a b maxD s) : Allowed a.reverse b.reverse maxD s.reverse :=
  ⟨h.shortest.reverse, by simpa [cost] using h.few, h.isolated.reverse, by simpa using h.deletions⟩

/-- The first table. -/
theorem holds_zero : Holds a b maxD 0 (List.replicate (2 * maxD + 3) 0) := by
  refine ⟨length_replicate, fun k hk => ?_⟩
  obtain rfl : k = 1 := by
    unfold Readable at hk
    omega
  rw [valueAt, slot, if_pos (by omega), Option.bind_eq_bind, Option.bind_some, getElem?_replicate,
    if_pos (by omega)]
  rfl

/-- The comparison never leaves its tables, and what it accepts has an allowed script. -/
theorem agreeWithin_spec (a b : List Bytes) (maxD : ℕ) :
    ∃ r, agreeWithin maxD a b = some r ∧ (r = true → ∃ s, Allowed a b maxD s) := by
  obtain ⟨found, hsearch, hfound⟩ : ∃ r,
    search a b maxD (maxD + 1) 0 (List.replicate (2 * maxD + 3) 0) [] = some r ∧
      Searched a b maxD r := search_spec (zero_add _) holds_zero length_nil nofun nofun
  rw [agreeWithin, hsearch]
  match found, hfound with
  | none, _ => exact ⟨false, rfl, nofun⟩
  | some (d, traces), ⟨hd, htraces, hnone, k, hk, hends⟩ =>
    obtain ⟨rfl, hfar⟩ := far_eq_length hnone hk hends
    have hnil : Script stringCaseEqual (a.drop a.length) (b.drop b.length) [] := by
      rw [drop_length, drop_length]
      exact .nil
    obtain ⟨r, hwalk, hr⟩ :=
      walk_spec (t := {}) htraces le_rfl le_rfl hk hfar hnil ⟨by simp, by simp, rfl⟩
    refine ⟨r, hwalk, fun hok => ?_⟩
    obtain ⟨s, hs, hcost, hisolated, hdeletions⟩ := hr hok
    rw [cost_nil, add_zero] at hcost
    refine ⟨s, ⟨hs, fun s' hs' => ?_⟩, by omega, hisolated, hdeletions⟩
    obtain ⟨hends', hround'⟩ := ends_of_script hs'
    by_contra hlt
    exact hnone _ (by omega) _ hround' hends'

/-- **The cross-check reads its vectors in range. Where it agrees, a shortest script has few
deletions and no long runs, and where every script has too many edits it does not agree.** -/
theorem diffRunsAgree_sound (scanned kept : List Bytes) :
    ∃ agrees, diffRunsAgree scanned kept = some agrees ∧
    (agrees = true → ∃ s, Shortest stringCaseEqual scanned kept s ∧ Isolated s ∧ s.count .delete ≤
      kMaxDeletions) ∧
    ((∀ s, Script stringCaseEqual scanned kept s → maxEdits scanned kept < cost s) →
      agrees = false) := by
  suffices h : ∃ agrees, diffRunsAgree scanned kept = some agrees ∧
      (agrees = true → ∃ s, Allowed scanned kept (maxEdits scanned kept) s) by
    obtain ⟨agrees, hagrees, hallowed⟩ := h
    refine ⟨agrees, hagrees, fun hok => ?_, fun hmany => Bool.eq_false_iff.2 fun hok => ?_⟩
    · obtain ⟨s, hs⟩ := hallowed hok
      exact ⟨s, hs.shortest, hs.isolated, hs.deletions⟩
    · obtain ⟨s, hs⟩ := hallowed hok
      exact absurd hs.few (not_le.2 (hmany s hs.shortest.1))
  unfold diffRunsAgree
  extract_lets lo a b hi a' b'
  -- what is allowed between the common ends is allowed with them
  have hends : (∃ s, Allowed a' b' (maxEdits scanned kept) s) → ∃ s,
      Allowed scanned kept (maxEdits scanned kept) s := by
    rintro ⟨s, hs⟩
    have hmiddle := hs.reverse
    rw [reverse_reverse, reverse_reverse] at hmiddle
    have hstart := hmiddle.keep.reverse
    rw [reverse_reverse, reverse_reverse] at hstart
    exact ⟨_, hstart.keep⟩
  split_ifs with hnil
  · refine ⟨true, rfl, fun _ => hends ⟨[], ?_⟩⟩
    rw [length_eq_zero_iff.1 hnil.1, length_eq_zero_iff.1 hnil.2]
    exact ⟨⟨.nil, fun _ _ => zero_le _⟩, zero_le _, by simp [Isolated], by simp⟩
  · obtain ⟨r, hr, hallowed⟩ := agreeWithin_spec a' b' (maxEdits scanned kept)
    exact ⟨r, hr, fun hok => hends (hallowed hok)⟩

end PageSpeed.NoscriptStrip
