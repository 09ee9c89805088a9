import Mathlib.Order.Lex
import Mathlib.Data.List.Sort

/-!
# Sorting that need not be stable

A sorting function for a comparator, with nothing said about ties (`Sorting`). Where the comparator
compares a rank, the result is in the order of the ranks (`Sorting.pairwise_rank`), and there is
such a function (`Sorting.merge`).
-/

namespace PageSpeed.Choice

variable {α β : Type} {less : α → α → Bool}

/-- What a sort by `less` has to do, whatever it does with equal items. -/
structure Sorting (less : α → α → Bool) where
  run : List α → List α
  perm : ∀ l, (run l).Perm l
  sorted : ∀ l, (run l).Pairwise fun a b => less b a = false

namespace Sorting

variable [LinearOrder β] {rank : α → β}

/-- A sort by a comparison of ranks is sorted by rank. -/
theorem pairwise_rank (sort : Sorting less) (hless : ∀ a b, less a b = true ↔ rank a < rank b)
    (l : List α) :
    (sort.run l).Pairwise fun a b => rank a ≤ rank b :=
  (sort.sorted l).imp fun h => by rwa [Bool.eq_false_iff, ne_eq, hless, not_lt] at h

/-- The stable sort. -/
def merge (rank : α → β) (hless : ∀ a b, less a b = true ↔ rank a < rank b) : Sorting less where
  run l := l.mergeSort fun a b => !less b a
  perm l := List.mergeSort_perm l _
  sorted l := by
    refine (List.pairwise_mergeSort ?_ ?_ l).imp fun h => by simpa using h
    · intro a b c hab hbc
      simp only [Bool.not_eq_true', Bool.eq_false_iff, ne_eq, hless, not_lt] at *
      exact hab.trans hbc
    · intro a b
      simp only [Bool.or_eq_true, Bool.not_eq_true', Bool.eq_false_iff, ne_eq, hless, not_lt]
      exact le_total _ _

end Sorting

end PageSpeed.Choice
