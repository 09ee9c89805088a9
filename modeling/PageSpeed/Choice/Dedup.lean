import Mathlib.Data.List.Destutter
import Mathlib.Order.Lattice

/-!
# Sorting and removing neighbours

A list sorted by a rank, with neighbours of one rank merged, holds one element of each rank
in strictly increasing order. What was already so is left alone.
-/

namespace PageSpeed.Choice

open List

variable {α β : Type*} [LinearOrder β] {rank : α → β} {R : α → α → Prop} [DecidableRel R]
  {l : List α}

section

variable (hR : ∀ a b, R a b ↔ rank a ≠ rank b)
include hR

/-- Without neighbours of equal rank the order is strict. -/
theorem pairwise_lt_destutter' {a : α}
    (h : (a :: l).Pairwise fun a b => rank a ≤ rank b) :
    (l.destutter' R a).Pairwise fun a b => rank a < rank b := by
  induction l generalizing a with
  | nil => simp
  | cons b l ih =>
    obtain ⟨ha, hbl⟩ := pairwise_cons.1 h
    by_cases hab : R a b
    · have hlt : rank a < rank b := lt_of_le_of_ne (ha b mem_cons_self) ((hR a b).1 hab)
      rw [destutter'_cons_pos _ hab, pairwise_cons]
      refine ⟨fun x hx => ?_, ih hbl⟩
      rcases mem_cons.1 ((destutter'_sublist l R b).subset hx) with rfl | hx
      · exact hlt
      · exact hlt.trans_le ((pairwise_cons.1 hbl).1 x hx)
    · rw [destutter'_cons_neg _ hab]
      apply ih
      rw [pairwise_cons]
      exact ⟨fun x hx => ha x (mem_cons_of_mem b hx), (pairwise_cons.1 hbl).2⟩

/-- **Strictly sorted**: neighbours were the only ones of one rank. -/
theorem pairwise_lt_destutter
    (h : l.Pairwise fun a b => rank a ≤ rank b) :
    (l.destutter R).Pairwise fun a b => rank a < rank b := by
  cases l with
  | nil => exact List.Pairwise.nil
  | cons a l => exact pairwise_lt_destutter' hR h

/-- Every rank keeps an item. -/
theorem exists_mem_destutter' {a x : α} (hx : x ∈ a :: l) : ∃ y ∈ l.destutter' R a,
    rank y = rank x := by
  induction l generalizing a x with
  | nil => exact ⟨a, by simp, by rw [mem_singleton.1 hx]⟩
  | cons b l ih =>
    by_cases hab : R a b
    · rw [destutter'_cons_pos _ hab]
      rcases mem_cons.1 hx with rfl | hx
      · exact ⟨x, mem_cons_self, rfl⟩
      · obtain ⟨y, hy, hr⟩ := ih hx
        exact ⟨y, mem_cons_of_mem a hy, hr⟩
    · rw [destutter'_cons_neg _ hab]
      -- the skipped element has the rank of the one that stands for it
      have hr : rank a = rank b := by
        by_contra hne
        exact hab ((hR a b).2 hne)
      rcases mem_cons.1 hx with rfl | hx
      · exact ih mem_cons_self
      rcases mem_cons.1 hx with rfl | hx
      · obtain ⟨y, hy, hya⟩ := ih (a := a) mem_cons_self
        exact ⟨y, hy, hya.trans hr⟩
      · exact ih (mem_cons_of_mem a hx)

/-- **No rank is lost.** -/
theorem exists_mem_destutter {x : α} (hx : x ∈ l) : ∃ y ∈ l.destutter R, rank y = rank x := by
  cases l with
  | nil => cases hx
  | cons a l => exact exists_mem_destutter' hR hx

end

/-- In a strict order ranks tell items apart. -/
theorem eq_of_rank_eq (h : l.Pairwise fun a b => rank a < rank b) {a b : α}
    (ha : a ∈ l) (hb : b ∈ l) (hab : rank a = rank b) : a = b := by
  have hnodup : (l.map rank).Nodup := pairwise_map.2 (h.imp ne_of_lt)
  exact inj_on_of_nodup_map hnodup ha hb hab

/-- A strictly sorted list is the only sorted arrangement of its elements. -/
theorem eq_of_perm_of_sorted {l l' : List α} (hp : l'.Perm l)
    (hs : l'.Pairwise fun a b => rank a ≤ rank b) (h : l.Pairwise fun a b => rank a < rank b) :
    l' = l := by
  refine List.Perm.eq_of_pairwise ?_ hs (h.imp le_of_lt) hp
  intro a b ha hb hab hba
  exact eq_of_rank_eq h (hp.subset ha) hb (le_antisymm hab hba)

/-- In a strict order nothing is dropped. -/
theorem destutter_of_pairwise_lt (hR : ∀ a b, R a b ↔ rank a ≠ rank b)
    (h : l.Pairwise fun a b => rank a < rank b) : l.destutter R = l :=
  destutter_of_isChain _ _ (h.imp fun hab => (hR _ _).2 hab.ne).isChain

end PageSpeed.Choice
