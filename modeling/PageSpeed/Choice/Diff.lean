import Mathlib.Data.List.Basic
import Mathlib.Tactic.Ring

/-!
# Shortest edit scripts

Scripts that turn one list into another by deletions and insertions. Elements that the ends of both
lists share can be kept (`Shortest.commonLength`). On each diagonal Myers' search keeps the point
that is furthest along it: every point that can be reached with as many edits is at or before that
one (`Reaches.le_furthest`), and the point itself can be reached, but for edits past the end of a
list (`exists_start`).
-/

namespace PageSpeed.Diff

/-- A step along the two lists. -/
inductive Edit
  | keep
  | delete
  | insert
  deriving DecidableEq, Repr

variable {α β : Type*} (same : α → β → Bool)

/-- The script turns the first list into the second. -/
inductive Script : List α → List β → List Edit → Prop
  | nil : Script [] [] []
  | keep {x y a b s} : same x y = true → Script a b s → Script (x :: a) (y :: b) (.keep :: s)
  | delete {x a b s} : Script a b s → Script (x :: a) b (.delete :: s)
  | insert {y a b s} : Script a b s → Script a (y :: b) (.insert :: s)

/-- The number of steps that are edits. -/
def cost (s : List Edit) : ℕ := s.countP (· ≠ .keep)

/-- No script has fewer edits. -/
def Shortest (a : List α) (b : List β) (s : List Edit) : Prop :=
  Script same a b s ∧ ∀ t, Script same a b t → cost s ≤ cost t

/-- The number of elements that match from the start on. -/
def commonLength : List α → List β → ℕ
  | x :: a, y :: b => if same x y then commonLength a b + 1 else 0
  | _, _ => 0

variable {same} {a a' : List α} {b b' : List β} {s t : List Edit} {x : α} {y : β}
  {d i j : ℕ} {k : ℤ}

@[simp] theorem cost_nil : cost [] = 0 := rfl

@[simp] theorem cost_keep : cost (.keep :: s) = cost s := rfl

@[simp] theorem cost_delete : cost (.delete :: s) = cost s + 1 := by simp [cost]

@[simp] theorem cost_insert : cost (.insert :: s) = cost s + 1 := by simp [cost]

@[simp] theorem cost_keeps (c : ℕ) : cost (List.replicate c .keep ++ s) = cost s := by
  induction c with
  | zero => rfl
  | succ c ih => exact ih

/-- Scripts one after the other. -/
theorem Script.append (h : Script same a b s) (h' : Script same a' b' t) :
    Script same (a ++ a') (b ++ b') (s ++ t) := by
  induction h with
  | nil => exact h'
  | keep hsame _ ih => exact .keep hsame ih
  | delete _ ih => exact .delete ih
  | insert _ ih => exact .insert ih

/-- A script backwards. -/
theorem Script.reverse (h : Script same a b s) : Script same a.reverse b.reverse s.reverse := by
  induction h with
  | nil => exact .nil
  | keep hsame _ ih => simpa using ih.append (.keep hsame .nil)
  | @delete x _ _ _ _ ih => simpa using ih.append (.delete (x := x) .nil)
  | @insert y _ _ _ _ ih => simpa using ih.append (.insert (y := y) .nil)

/-! ## Common ends -/

/-- Without the first item on the right there is a script that costs at most one more. -/
theorem Script.tail_right (h : Script same a (y :: b) s) : ∃ t, Script same a b t ∧
    cost t ≤ cost s + 1 := by
  generalize hb : y :: b = b₁ at h
  induction h with
  | nil => cases hb
  | keep _ h =>
    cases hb
    exact ⟨_, .delete h, by simp⟩
  | delete _ ih =>
    obtain ⟨t, ht, hcost⟩ := ih hb
    exact ⟨_, .delete ht, by simpa using hcost⟩
  | insert h =>
    cases hb
    exact ⟨_, h, by simp; omega⟩

/-- The same on the left. -/
theorem Script.tail_left (h : Script same (x :: a) b s) : ∃ t, Script same a b t ∧
    cost t ≤ cost s + 1 := by
  generalize ha : x :: a = a₁ at h
  induction h with
  | nil => cases ha
  | keep _ h =>
    cases ha
    exact ⟨_, .insert h, by simp⟩
  | delete h =>
    cases ha
    exact ⟨_, h, by simp; omega⟩
  | insert _ ih =>
    obtain ⟨t, ht, hcost⟩ := ih ha
    exact ⟨_, .insert ht, by simpa using hcost⟩

/-- To keep a common element costs nothing: an edit that is saved elsewhere is not more than the one
it takes here. -/
theorem Shortest.keep (hsame : same x y = true) (h : Shortest same a b s) :
    Shortest same (x :: a) (y :: b) (.keep :: s) := by
  refine ⟨.keep hsame h.1, fun t ht => ?_⟩
  rw [cost_keep]
  cases ht with
  | keep _ ht =>
    rw [cost_keep]
    exact h.2 _ ht
  | delete ht =>
    obtain ⟨u, hu, hcost⟩ := ht.tail_right
    exact (h.2 u hu).trans (by simpa using hcost)
  | insert ht =>
    obtain ⟨u, hu, hcost⟩ := ht.tail_left
    exact (h.2 u hu).trans (by simpa using hcost)

/-- A shortest script backwards is shortest. -/
theorem Shortest.reverse (h : Shortest same a b s) :
    Shortest same a.reverse b.reverse s.reverse := by
  refine ⟨h.1.reverse, fun t ht => ?_⟩
  have hle := h.2 _ (by simpa using ht.reverse)
  simpa [cost] using hle

/-- What holds behind the common elements holds with them, if it holds of one more whenever it
holds. -/
theorem keep_commonLength {P : List α → List β → List Edit → Prop}
    (hkeep : ∀ {x y a b s}, same x y = true → P a b s → P (x :: a) (y :: b) (.keep :: s))
    (h : P (a.drop (commonLength same a b)) (b.drop (commonLength same a b)) s) :
    P a b (List.replicate (commonLength same a b) .keep ++ s) := by
  fun_induction commonLength same a b with
  | case1 x a y b hsame ih => exact hkeep hsame (ih h)
  | case2 | case3 => exact h

/-- The lists agree up to their common length. -/
theorem same_of_lt_commonLength (h : i < commonLength same a b) :
    ∃ x y, a[i]? = some x ∧ b[i]? = some y ∧ same x y = true := by
  fun_induction commonLength same a b generalizing i with
  | case1 x a y b hsame ih =>
    cases i with
    | zero => exact ⟨x, y, rfl, rfl, hsame⟩
    | succ i => exact ih (by omega)
  | case2 | case3 => omega

/-- And not behind it. -/
theorem not_same_commonLength (ha : a[commonLength same a b]? = some x)
    (hb : b[commonLength same a b]? = some y) :
    same x y = false := by
  fun_induction commonLength same a b with
  | case1 _ _ _ _ _ ih => exact ih ha hb
  | case2 u a v b hsame =>
    obtain rfl : u = x := Option.some.inj ha
    obtain rfl : v = y := Option.some.inj hb
    exact Bool.eq_false_iff.2 hsame
  | case3 a b hnil =>
    cases a with
    | nil => cases ha
    | cons u a =>
      cases b with
      | nil => cases hb
      | cons v b => exact (hnil u a v b rfl rfl).elim

/-! ## Points that can be reached -/

variable (same a b)

/-- With `d` edits the first `i` elements turn into the first `j`. -/
inductive Reaches : ℕ → ℕ → ℕ → Prop
  | start : Reaches 0 0 0
  | keep {d i j : ℕ} {x : α} {y : β} : a[i]? = some x → b[j]? = some y → same x y = true →
      Reaches d i j → Reaches d (i + 1) (j + 1)
  | delete {d i j : ℕ} : i < a.length → Reaches d i j → Reaches (d + 1) (i + 1) j
  | insert {d i j : ℕ} : j < b.length → Reaches d i j → Reaches (d + 1) i (j + 1)

/-- The same with edits past the ends of the lists. -/
def Beyond (d i j : ℕ) : Prop :=
  ∃ e, Reaches same a b e (min i a.length) (min j b.length) ∧
    e + (i - a.length) + (j - b.length) = d

/-- The choice of Myers' search on diagonal `k` in round `d`. -/
def start (r : ℤ → ℤ) (d : ℕ) (k : ℤ) : ℤ :=
  if k = -d ∨ k ≠ d ∧ r (k - 1) < r (k + 1) then r (k + 1) else r (k - 1) + 1

/-- How far along its diagonal the search is before round `d`. -/
def furthest : ℕ → ℤ → ℤ
  | 0, _ => 0
  | d + 1, k =>
    let i := start (furthest d) d k
    i + commonLength same (a.drop i.toNat) (b.drop (i - k).toNat)

/-- The diagonals of a round. -/
def OnRound (d : ℕ) (k : ℤ) : Prop := -d ≤ k ∧ k ≤ d ∧ (d + k) % 2 = 0

variable {same a b}

theorem of_drop_eq_cons {γ : Type*} {l r : List γ} {n : ℕ} {z : γ} (h : l.drop n = z :: r) :
    n < l.length ∧ l[n]? = some z ∧ l.drop (n + 1) = r := by
  have hget : l[n]? = some z := by rw [← List.head?_drop, h, List.head?_cons]
  exact ⟨(List.getElem?_eq_some_iff.1 hget).1, hget, by rw [← List.tail_drop, h, List.tail_cons]⟩

/-- A script leads from a point that is reached to the end. -/
theorem Script.reaches (h : Script same (a.drop i) (b.drop j) s) (hi : i ≤ a.length)
    (hj : j ≤ b.length)
    (hreaches : Reaches same a b d i j) : Reaches same a b (d + cost s) a.length b.length := by
  generalize ha : a.drop i = a₁ at h
  generalize hb : b.drop j = b₁ at h
  induction h generalizing d i j with
  | nil =>
    obtain rfl : i = a.length := le_antisymm hi (List.drop_eq_nil_iff.1 ha)
    obtain rfl : j = b.length := le_antisymm hj (List.drop_eq_nil_iff.1 hb)
    exact hreaches
  | keep hsame _ ih =>
    obtain ⟨hlt, hget, ha⟩ := of_drop_eq_cons ha
    obtain ⟨hlt', hget', hb⟩ := of_drop_eq_cons hb
    exact ih hlt hlt' (.keep hget hget' hsame hreaches) ha hb
  | delete _ ih =>
    obtain ⟨hlt, -, ha⟩ := of_drop_eq_cons ha
    rw [cost_delete, Nat.add_comm _ 1, ← Nat.add_assoc]
    exact ih hlt hj (.delete hlt hreaches) ha hb
  | insert _ ih =>
    obtain ⟨hlt, -, hb⟩ := of_drop_eq_cons hb
    rw [cost_insert, Nat.add_comm _ 1, ← Nat.add_assoc]
    exact ih hi hlt (.insert hlt hreaches) ha hb

/-- A point that is reached is on a diagonal of its round. -/
theorem Reaches.onRound (h : Reaches same a b d i j) : OnRound d (i - j) := by
  unfold OnRound
  induction h with
  | start => simp
  | keep | delete | insert => omega

/-- The three moves beyond the ends of the lists: a deletion. -/
theorem Beyond.delete (h : Beyond same a b d i j) : Beyond same a b (d + 1) (i + 1) j := by
  obtain ⟨e, he, hcost⟩ := h
  unfold Beyond
  by_cases hi : i < a.length
  · rw [show min (i + 1) a.length = min i a.length + 1 by omega]
    exact ⟨e + 1, .delete (by omega) he, by omega⟩
  · rw [show min (i + 1) a.length = min i a.length by omega]
    exact ⟨e, he, by omega⟩

theorem Beyond.insert (h : Beyond same a b d i j) : Beyond same a b (d + 1) i (j + 1) := by
  obtain ⟨e, he, hcost⟩ := h
  unfold Beyond
  by_cases hj : j < b.length
  · rw [show min (j + 1) b.length = min j b.length + 1 by omega]
    exact ⟨e + 1, .insert (by omega) he, by omega⟩
  · rw [show min (j + 1) b.length = min j b.length by omega]
    exact ⟨e, he, by omega⟩

/-- A run of equal items. -/
theorem Beyond.keep (h : Beyond same a b d i j) {c : ℕ}
    (hc : c ≤ commonLength same (a.drop i) (b.drop j)) :
    Beyond same a b d (i + c) (j + c) := by
  induction c with
  | zero => exact h
  | succ c ih =>
    obtain ⟨x, y, hx, hy, hsame⟩ := same_of_lt_commonLength hc
    rw [List.getElem?_drop] at hx hy
    have hi := (List.getElem?_eq_some_iff.1 hx).1
    have hj := (List.getElem?_eq_some_iff.1 hy).1
    obtain ⟨e, he, hcost⟩ := ih (by omega)
    rw [min_eq_left hi.le, min_eq_left hj.le] at he
    refine ⟨e, ?_, by omega⟩
    rw [min_eq_left (by omega), min_eq_left (by omega)]
    exact .keep hx hy hsame he

/-- **Each diagonal of a round** starts at a point that can be reached, and goes on while elements
match. -/
theorem exists_start (h : OnRound d k) : ∃ i j : ℕ, start (furthest same a b d) d k = i ∧
    (i : ℤ) = j + k ∧
    Beyond same a b d i j ∧ furthest same a b (d + 1) k =
      i + commonLength same (a.drop i) (b.drop j) := by
  suffices hstart : ∃ i j : ℕ, start (furthest same a b d) d k = i ∧ (i : ℤ) = j + k ∧
    Beyond same a b d i j by
    obtain ⟨i, j, hi, hk, hbeyond⟩ := hstart
    refine ⟨i, j, hi, hk, hbeyond, ?_⟩
    rw [furthest, hi, Int.toNat_natCast, show ((i : ℤ) - k).toNat = j by omega]
  obtain ⟨hlo, hhi, hparity⟩ := h
  unfold start
  induction d generalizing k with
  | zero =>
    obtain rfl : k = 0 := by omega
    exact ⟨0, 0, by simp [furthest], rfl, 0, by simpa using .start, by simp⟩
  | succ d ih =>
    have hprev : ∀ k' : ℤ, -d ≤ k' → k' ≤ d → (d + k') % 2 = 0 →
        ∃ i j : ℕ, furthest same a b (d + 1) k' = i ∧ (i : ℤ) = j + k' ∧ Beyond same a b d i j := by
      intro k' hlo hhi hparity
      obtain ⟨i, j, hi, hk, hbeyond⟩ := ih hlo hhi hparity
      refine ⟨_, _, ?_, ?_, hbeyond.keep le_rfl⟩
      · rw [furthest, start, hi, Int.toNat_natCast, show ((i : ℤ) - k').toNat = j by omega,
          Nat.cast_add]
      · omega
    split_ifs with hdown
    · obtain ⟨i, j, hi, hk, hbeyond⟩ := hprev (k + 1) (by omega) (by omega) (by omega)
      exact ⟨i, j + 1, hi, by omega, hbeyond.insert⟩
    · obtain ⟨i, j, hi, hk, hbeyond⟩ := hprev (k - 1) (by omega) (by omega) (by omega)
      exact ⟨i + 1, j, by omega, by omega, hbeyond.delete⟩

/-- A diagonal goes at least as far as its start. -/
theorem start_le_furthest (same : α → β → Bool) (a : List α) (b : List β) (d : ℕ) (k : ℤ) :
    start (furthest same a b d) d k ≤ furthest same a b (d + 1) k := by
  rw [furthest]
  omega

/-- **No point that can be reached is further.** -/
theorem Reaches.le_furthest (h : Reaches same a b d i j) :
    (i : ℤ) ≤ furthest same a b (d + 1) (i - j) := by
  induction h with
  | start => simp [furthest, Diff.start]
  | @keep d i j x y hx hy hsame h ih =>
    obtain ⟨p, q, -, hk, -, hend⟩ := @exists_start _ _ same a b _ _ h.onRound
    have hdiag : ((i + 1 : ℕ) : ℤ) - (j + 1 : ℕ) = i - j := by omega
    rw [hdiag]
    refine (Int.lt_iff_add_one_le.1 (lt_of_le_of_ne ih fun heq => ?_))
    -- the diagonal ends here, where the elements do not match
    obtain rfl : i = p + commonLength same (a.drop p) (b.drop q) := by omega
    obtain rfl : j = q + commonLength same (a.drop p) (b.drop q) := by omega
    rw [← List.getElem?_drop] at hx hy
    exact absurd hsame (by rw [not_same_commonLength hx hy]; decide)
  | @delete d i j _ h ih =>
    obtain ⟨hlo, hhi, -⟩ := h.onRound
    have hle := start_le_furthest same a b (d + 1) (((i + 1 : ℕ) : ℤ) - j)
    rw [Diff.start, show ((i + 1 : ℕ) : ℤ) - j - 1 = i - j by omega] at hle
    split_ifs at hle <;> omega
  | @insert d i j _ h ih =>
    obtain ⟨hlo, hhi, -⟩ := h.onRound
    have hle := start_le_furthest same a b (d + 1) ((i : ℤ) - (j + 1 : ℕ))
    rw [Diff.start, show (i : ℤ) - (j + 1 : ℕ) + 1 = i - j by omega] at hle
    split_ifs at hle <;> omega

end PageSpeed.Diff
