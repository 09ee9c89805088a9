import Mathlib.Tactic

/-!
# What stands at the start of a line

A text is read from left to right, knowing whether only blanks have been read since the last end of
a line. What a line starts with is its first element that is no blank.

* `lineStarts`, `lineEnd`: the elements at the start of lines, and whether the text ends at one.
* `lineStarts_append`: a text in two parts.
* `lineStarts_eq`: they are the first elements of the pieces between the ends of lines.
* `lineStarts_of_within`: a part without an end of line starts no further line.
-/

namespace PageSpeed.Wire

open List

variable {α : Type} (newline blank : α → Bool)

/-- The first elements of the lines that are no blanks. -/
def lineStarts : (atStart : Bool) → List α → List α
  | _, [] => []
  | atStart, a :: t =>
    if newline a then lineStarts true t
    else if atStart then if blank a then lineStarts true t else a :: lineStarts false t
    else lineStarts false t

/-- Whether only blanks follow the last end of a line. -/
def lineEnd : (atStart : Bool) → List α → Bool
  | atStart, [] => atStart
  | atStart, a :: t =>
    if newline a then lineEnd true t else if atStart then if blank a then lineEnd true t
    else lineEnd false t else lineEnd false t

variable {newline blank} {atStart : Bool} {t u : List α}

/-- The starts of lines, part by part. -/
theorem lineStarts_append (atStart : Bool) (t u : List α) :
    lineStarts newline blank atStart (t ++ u) =
    lineStarts newline blank atStart t ++
      lineStarts newline blank (lineEnd newline blank atStart t) u := by
  induction t generalizing atStart with
  | nil => rfl
  | cons a t ih =>
    simp only [cons_append, lineStarts, lineEnd]
    split_ifs
    · exact ih true
    · exact ih true
    · rw [ih false, cons_append]
    · exact ih false

/-- And where the last line stands. -/
theorem lineEnd_append (atStart : Bool) (t u : List α) :
    lineEnd newline blank atStart (t ++ u) =
      lineEnd newline blank (lineEnd newline blank atStart t) u := by
  induction t generalizing atStart with
  | nil => rfl
  | cons a t ih =>
    simp only [cons_append, lineEnd]
    split_ifs <;> exact ih _

theorem lineStarts_subset (atStart : Bool) (t : List α) :
    lineStarts newline blank atStart t ⊆ t := by
  induction t generalizing atStart with
  | nil => exact List.Subset.refl _
  | cons a t ih =>
    rw [lineStarts]
    split_ifs
    · exact subset_cons_of_subset a (ih true)
    · exact subset_cons_of_subset a (ih true)
    · exact cons_subset_cons a (ih false)
    · exact subset_cons_of_subset a (ih false)

/-- The element a line starts with, if it is not blank. -/
def firstOf (blank : α → Bool) (line : List α) : Option α := (line.dropWhile blank).head?

/-- They are the first items of the lines, blanks aside. -/
theorem lineStarts_eq (t : List α) :
    lineStarts newline blank true t = (t.splitOnP newline).filterMap (firstOf blank) ∧
      lineStarts newline blank false t = (t.splitOnP newline).tail.filterMap (firstOf blank) := by
  induction t with
  | nil => exact ⟨rfl, rfl⟩
  | cons a t ih =>
    obtain ⟨htrue, hfalse⟩ := ih
    obtain ⟨line, lines, hsplit⟩ := exists_cons_of_ne_nil (splitOnP_ne_nil newline t)
    rw [hsplit] at htrue hfalse
    rw [splitOnP_cons_eq_if_modifyHead, hsplit]
    by_cases ha : newline a
    · simp only [lineStarts, if_pos ha, tail_cons]
      exact ⟨htrue, htrue⟩
    · simp only [lineStarts, if_neg ha, if_true, Bool.false_eq_true, if_false,
        modifyHead_cons, tail_cons]
      refine ⟨?_, hfalse⟩
      by_cases hb : blank a
      · have hfirst : firstOf blank (a :: line) = firstOf blank line := by
          rw [firstOf, dropWhile_cons_of_pos hb, firstOf]
        rw [if_pos hb, htrue, filterMap_cons, filterMap_cons, hfirst]
      · have hfirst : firstOf blank (a :: line) = some a := by
          rw [firstOf, dropWhile_cons_of_neg hb, head?_cons]
        rw [if_neg hb, hfalse, filterMap_cons_some hfirst, tail_cons]

/-- Within a line, a part without an end of line starts nothing. -/
theorem lineStarts_of_within (h : ∀ a ∈ t, newline a = false) :
    lineStarts newline blank false t = [] := by
  induction t with
  | nil => rfl
  | cons a t ih =>
    obtain ⟨ha, ht⟩ := forall_mem_cons.1 h
    rw [lineStarts, ha]
    exact ih ht

theorem lineEnd_of_within (h : ∀ a ∈ t, newline a = false) :
    lineEnd newline blank false t = false := by
  induction t with
  | nil => rfl
  | cons a t ih =>
    obtain ⟨ha, ht⟩ := forall_mem_cons.1 h
    rw [lineEnd, ha]
    exact ih ht

/-- A part without an end of line that is not blank is within a line at its end. -/
theorem lineEnd_of_solid (h : ∀ a ∈ t, newline a = false) (hsolid : ∃ a ∈ t, blank a = false)
    (atStart : Bool) :
    lineEnd newline blank atStart t = false := by
  induction t generalizing atStart with
  | nil => simp at hsolid
  | cons a t ih =>
    obtain ⟨ha, ht⟩ := forall_mem_cons.1 h
    rw [lineEnd, ha, if_neg Bool.false_ne_true]
    by_cases hb : blank a
    · obtain ⟨b, hmem, hblank⟩ := hsolid
      have hrest : ∃ b ∈ t, blank b = false := by
        rcases mem_cons.1 hmem with rfl | hmem
        · rw [hb] at hblank
          cases hblank
        · exact ⟨b, hmem, hblank⟩
      split_ifs <;> exact ih ht hrest _
    · split_ifs <;> exact lineEnd_of_within ht

/-- An end of line is behind the last line. -/
theorem lineEnd_concat {a : α} (ha : newline a) (atStart : Bool) (t : List α) :
    lineEnd newline blank atStart (t ++ [a]) = true := by
  rw [lineEnd_append]
  simp [lineEnd, ha]

end PageSpeed.Wire
