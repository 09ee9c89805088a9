import Mathlib.Tactic

/-!
# Choosing a maximum by a scan

Candidates are ranked in a linear order with a bottom; bottom means "not eligible".

* `IsTop`: what a scan is meant to choose, an eligible element of maximal rank, if any.
* `IsTop.keep`, `IsTop.take`: one step of a scan.
* `IsTop.rankOf_eq`: the rank of the choice depends on the candidates, not on their order.
* `foldl_zipIdx_invariant`: the invariant rule for a loop over indexed elements.
-/

namespace PageSpeed.Choice

variable {α κ : Type} [LinearOrder κ] (rank : α → WithBot κ)

/-- The rank of a choice; no choice ranks at the bottom. -/
def rankOf : Option α → WithBot κ
  | none => ⊥
  | some a => rank a

/-- `o` is an eligible element of `l` of maximal rank, or nothing in `l` is eligible. -/
structure IsTop (l : List α) (o : Option α) : Prop where
  mem : ∀ a, o = some a → a ∈ l ∧ rank a ≠ ⊥
  le : ∀ b ∈ l, rank b ≤ rankOf rank o

namespace IsTop

variable {rank} {l l' : List α} {o o' : Option α} {x : α}

theorem nil : IsTop rank [] none := by
  refine ⟨fun _ h => ?_, fun _ h => ?_⟩ <;> cases h

/-- An item that ranks no higher is passed over. -/
theorem keep (h : IsTop rank l o) (hx : rank x ≤ rankOf rank o) : IsTop rank (l ++ [x]) o := by
  refine ⟨fun a ha => ⟨List.mem_append_left _ (h.mem a ha).1, (h.mem a ha).2⟩, ?_⟩
  exact List.forall_mem_append.2 ⟨h.le, List.forall_mem_singleton.2 hx⟩

/-- One that ranks higher is the new top. -/
theorem take (h : IsTop rank l o) (hx : rankOf rank o < rank x) :
    IsTop rank (l ++ [x]) (some x) := by
  refine ⟨?_, ?_⟩
  · intro a ha
    cases ha
    exact ⟨by simp, bot_lt_iff_ne_bot.1 (lt_of_le_of_lt bot_le hx)⟩
  · intro b hb
    rcases List.mem_append.1 hb with hb | hb
    · exact (h.le b hb).trans hx.le
    · rw [List.mem_singleton.1 hb]; exact le_rfl

/-- The chosen rank bounds from above what a sublist can choose. -/
theorem rankOf_le (h : IsTop rank l o) (h' : IsTop rank l' o') (hl : ∀ a ∈ l', a ∈ l) :
    rankOf rank o' ≤ rankOf rank o := by
  cases o' with
  | none => exact bot_le
  | some a => exact h.le a (hl a (h'.mem a rfl).1)

/-- **The rank of the choice does not depend on the order of the candidates.** -/
theorem rankOf_eq (h : IsTop rank l o) (h' : IsTop rank l' o') (hp : l.Perm l') :
    rankOf rank o = rankOf rank o' :=
  le_antisymm (h'.rankOf_le h fun _ ha => hp.mem_iff.1 ha)
    (h.rankOf_le h' fun _ ha => hp.mem_iff.2 ha)

/-- Nothing is chosen exactly when nothing is eligible. -/
theorem eq_none_iff (h : IsTop rank l o) : o = none ↔ ∀ a ∈ l, rank a = ⊥ := by
  constructor
  · rintro rfl a ha
    exact le_bot_iff.1 (h.le a ha)
  · intro hl
    cases o with
    | none => rfl
    | some a =>
      obtain ⟨ha, hne⟩ := h.mem a rfl
      exact absurd (hl a ha) hne

end IsTop

omit [LinearOrder κ] in
/-- **The invariant rule for an indexed loop**: what holds before the first element and is
kept by each iteration holds of all of them. -/
theorem foldl_zipIdx_invariant {σ : Type} {step : σ → α × ℕ → σ} {Inv : List α → σ → Prop}
    (hstep : ∀ seen x s, Inv seen s → Inv (seen ++ [x]) (step s (x, seen.length)))
    {s : σ} (h0 : Inv [] s) (l : List α) : Inv l (l.zipIdx.foldl step s) := by
  have hgen : ∀ (l seen : List α) (s : σ), Inv seen s →
      Inv (seen ++ l) ((l.zipIdx seen.length).foldl step s) := by
    intro l
    induction l with
    | nil =>
      intro seen s h
      rw [List.append_nil]
      exact h
    | cons x l ih =>
      intro seen s h
      have := ih (seen ++ [x]) _ (hstep seen x s h)
      rwa [List.append_assoc, List.singleton_append, List.length_append,
        List.length_singleton] at this
  exact hgen l [] s h0

end PageSpeed.Choice
