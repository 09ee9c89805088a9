import Mathlib.Tactic

/-!
# Taking a composed string apart

Cancellation rules for strings put together from parts, over any alphabet.

* `until_inj`: a part that ends at the first occurrence of a delimiter.
* `last_inj`: two parts around the last occurrence of a delimiter, which `rfind` finds.
* `tagged_inj`: an optional part of fixed length, announced by a tag that nothing after it
  can start with.
-/

namespace PageSpeed.Wire

open List

variable {α : Type} {c : α}

theorem takeWhile_until [DecidableEq α] {a : List α} (ha : c ∉ a) (b : List α) :
    (a ++ c :: b).takeWhile (· ≠ c) = a := by
  have hall : ∀ d ∈ a, decide (d ≠ c) = true := fun d hd => decide_eq_true fun h => ha (h ▸ hd)
  rw [takeWhile_append_of_pos hall, takeWhile_cons_of_neg (by simp), append_nil]

/-- **A delimiter splits a string in one way**: two parts without it, each followed by it. -/
theorem until_inj {a a' r r' : List α} (ha : c ∉ a) (ha' : c ∉ a') (hr : r.head? = some c)
    (hr' : r'.head? = some c) (h : a ++ r = a' ++ r') : a = a' ∧ r = r' := by
  classical
  obtain ⟨t, rfl⟩ := head?_eq_some_iff.1 hr
  obtain ⟨t', rfl⟩ := head?_eq_some_iff.1 hr'
  have haa : a = a' := by
    rw [← takeWhile_until ha t, h, takeWhile_until ha']
  exact ⟨haa, append_cancel_left (haa ▸ h)⟩

/-- **The last delimiter splits a string in one way.** -/
theorem last_inj {a a' b b' : List α} (hb : c ∉ b) (hb' : c ∉ b')
    (h : a ++ c :: b = a' ++ c :: b') :
    a = a' ∧ b = b' := by
  have hrev : b.reverse ++ (c :: a.reverse) = b'.reverse ++ (c :: a'.reverse) := by
    simpa using congrArg List.reverse h
  obtain ⟨htail, hinit⟩ := until_inj (by simpa using hb) (by simpa using hb') rfl rfl hrev
  simpa using And.intro hinit htail

/-- The position of the last occurrence. -/
def rfind [DecidableEq α] (c : α) (s : List α) : Option ℕ :=
  let tail := s.reverse.takeWhile (· ≠ c)
  if tail.length = s.length then none else some (s.length - tail.length - 1)

/-- The last occurrence. -/
theorem rfind_append_cons [DecidableEq α] {a b : List α} (h : c ∉ b) :
    rfind c (a ++ c :: b) = some a.length := by
  have htail : (a ++ c :: b).reverse.takeWhile (· ≠ c) = b.reverse := by
    rw [reverse_append, reverse_cons, append_assoc]
    exact takeWhile_until (fun hc => h (mem_reverse.1 hc)) _
  unfold rfind
  dsimp only
  rw [htail, length_reverse, length_append, length_cons, if_neg (by omega)]
  congr 1
  omega

theorem rfind_lt [DecidableEq α] {s : List α} {i : ℕ} (h : rfind c s = some i) : i < s.length := by
  have hle : (s.reverse.takeWhile (· ≠ c)).length ≤ s.length := by
    simpa using (takeWhile_sublist (p := fun x => decide (x ≠ c)) (l := s.reverse)).length_le
  unfold rfind at h
  dsimp only at h
  split_ifs at h with hall
  have hi := Option.some.inj h
  omega

/-- An optional part, announced by a tag and closed by a fixed letter. -/
def tagged (tag : List α) (close : α) : Option (List α) → List α
  | none => []
  | some v => tag ++ v ++ [close]

/-- **An optional tagged part cancels**, when it has a fixed length and nothing behind it
starts like the tag. -/
theorem tagged_inj {t close : α} {tag : List α} {n : ℕ} {o o' : Option (List α)} {r r' : List α}
    (ho : ∀ v ∈ o, v.length = n) (ho' : ∀ v ∈ o', v.length = n) (hr : r.head? ≠ some t)
    (hr' : r'.head? ≠ some t)
    (h : tagged (t :: tag) close o ++ r = tagged (t :: tag) close o' ++ r') : o = o' ∧ r = r' := by
  cases o with
  | none =>
    cases o' with
    | none => exact ⟨rfl, h⟩
    | some v =>
      refine absurd ?_ hr
      rw [show r = _ from h]
      rfl
  | some v =>
    cases o' with
    | none =>
      refine absurd ?_ hr'
      rw [show r' = _ from h.symm]
      rfl
    | some v' =>
      have hv := ho v rfl
      have hv' := ho' v' rfl
      unfold tagged at h
      obtain ⟨h1, h2⟩ := append_inj h (by simp [hv, hv'])
      rw [append_left_inj, append_right_inj] at h1
      exact ⟨by rw [h1], h2⟩

end PageSpeed.Wire
