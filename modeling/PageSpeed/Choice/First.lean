import Mathlib.Tactic

/-!
# Lists in which the first match counts

A record may stand in a list more than once, and a search, a removal and an update all take the
first one that matches. Operations for one kind of record do not disturb a search for another kind.

* `updateFirst`: an update of the first match.
* `filter_eraseP_of_disjoint`, `filter_updateFirst_of_disjoint`: what does not disturb the others.
* `filter_eraseP_self`: a removal takes the first of its own kind.
* `eraseP_updateFirst`: how updates and removals compose.
* `find?_or_mem_eraseP`: the first match, and the others.
-/

namespace PageSpeed.Choice

open List

variable {α : Type} {p q : α → Bool} {f : α → α} {l : List α}

/-- The first match is replaced. -/
def updateFirst (p : α → Bool) (f : α → α) : List α → List α
  | [] => []
  | a :: l => if p a then f a :: l else a :: updateFirst p f l

theorem filter_eraseP_of_disjoint (h : ∀ a, p a → ¬ q a) (l : List α) :
    (l.eraseP p).filter q = l.filter q := by
  induction l with
  | nil => rfl
  | cons a l ih =>
    by_cases hp : p a
    · rw [eraseP_cons_of_pos hp, filter_cons_of_neg (h a hp)]
    · rw [eraseP_cons_of_neg hp, filter_cons, filter_cons, ih]

/-- A removal takes the first of its own kind. -/
theorem filter_eraseP_self (p : α → Bool) (l : List α) :
    (l.eraseP p).filter p = (l.filter p).tail := by
  induction l with
  | nil => rfl
  | cons a l ih =>
    by_cases hp : p a
    · rw [eraseP_cons_of_pos hp, filter_cons_of_pos hp, tail_cons]
    · rw [eraseP_cons_of_neg hp, filter_cons_of_neg hp, filter_cons_of_neg hp, ih]

/-- Other items are not touched. -/
theorem filter_updateFirst_of_disjoint (h : ∀ a, p a → ¬ q a) (hf : ∀ a, p a → ¬ q (f a))
    (l : List α) :
    (updateFirst p f l).filter q = l.filter q := by
  induction l with
  | nil => rfl
  | cons a l ih =>
    rw [updateFirst]
    split_ifs with hp
    · rw [filter_cons_of_neg (hf a hp), filter_cons_of_neg (h a hp)]
    · rw [filter_cons, filter_cons, ih]

/-- The changed item is the first one. -/
theorem find?_updateFirst_self (hf : ∀ a, p a → p (f a)) (l : List α) :
    (updateFirst p f l).find? p = (l.find? p).map f := by
  induction l with
  | nil => rfl
  | cons a l ih =>
    rw [updateFirst]
    split_ifs with hp
    · rw [find?_cons_of_pos (hf a hp), find?_cons_of_pos hp, Option.map_some]
    · rw [find?_cons_of_neg hp, find?_cons_of_neg hp, ih]

/-! ## Updates among other operations -/

@[simp] theorem length_updateFirst (p : α → Bool) (f : α → α) (l : List α) :
    (updateFirst p f l).length = l.length := by
  induction l with
  | nil => rfl
  | cons a l ih =>
    rw [updateFirst]
    split_ifs
    · rfl
    · rw [length_cons, length_cons, ih]

/-- What holds of every entry holds after an update that keeps it of the first match. -/
theorem forall_mem_updateFirst {P : α → Prop} (hl : ∀ a ∈ l, P a)
    (hf : ∀ a, l.find? p = some a → P (f a)) :
    ∀ a ∈ updateFirst p f l, P a := by
  induction l with
  | nil => exact hl
  | cons a l ih =>
    rw [updateFirst]
    split_ifs with hp
    · rintro b (_ | ⟨_, hb⟩)
      · exact hf a (find?_cons_of_pos hp)
      · exact hl b (.tail _ hb)
    · rw [find?_cons_of_neg hp] at hf
      rintro b (_ | ⟨_, hb⟩)
      · exact hl a (.head _)
      · exact ih (fun c hc => hl c (.tail _ hc)) hf b hb

/-- An entry is the first match or stays when the first match is removed. -/
theorem find?_or_mem_eraseP {a : α} (h : a ∈ l) : l.find? p = some a ∨ a ∈ l.eraseP p := by
  induction l with
  | nil => cases h
  | cons b l ih =>
    by_cases hp : p b
    · rw [find?_cons_of_pos hp, eraseP_cons_of_pos hp]
      rcases mem_cons.1 h with rfl | hl
      · exact .inl rfl
      · exact .inr hl
    · rw [find?_cons_of_neg hp, eraseP_cons_of_neg hp]
      rcases mem_cons.1 h with rfl | hl
      · exact .inr (.head _)
      · exact (ih hl).imp id (.tail _)

theorem eraseP_updateFirst_self (hf : ∀ a, p a → p (f a)) (l : List α) :
    (updateFirst p f l).eraseP p = l.eraseP p := by
  induction l with
  | nil => rfl
  | cons a l ih =>
    rw [updateFirst]
    split_ifs with hp
    · rw [eraseP_cons_of_pos (hf a hp), eraseP_cons_of_pos hp]
    · rw [eraseP_cons_of_neg hp, eraseP_cons_of_neg hp, ih]

/-- Changing one item and erasing another commute. -/
theorem eraseP_updateFirst (h : ∀ a, p a → ¬ q a) (hf : ∀ a, p a → ¬ q (f a)) (l : List α) :
    (updateFirst p f l).eraseP q = updateFirst p f (l.eraseP q) := by
  induction l with
  | nil => rfl
  | cons a l ih =>
    by_cases hp : p a
    · rw [updateFirst, if_pos hp, eraseP_cons_of_neg (hf a hp), eraseP_cons_of_neg (h a hp),
        updateFirst, if_pos hp]
    · rw [updateFirst, if_neg hp]
      by_cases hq : q a
      · rw [eraseP_cons_of_pos hq, eraseP_cons_of_pos hq]
      · rw [eraseP_cons_of_neg hq, eraseP_cons_of_neg hq, updateFirst, if_neg hp, ih]

end PageSpeed.Choice
