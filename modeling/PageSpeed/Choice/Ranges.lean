import Mathlib.Tactic

/-!
# Ranges of positions in a list

Half-open ranges of positions, and the elements of a list that stand at positions with a property.

* `pick`: the elements at the positions, in the order of the list.
* `pick_or`: what stands at earlier positions comes first.
* `flatMap_slice`: the slices for ranges in order are the elements at what the ranges cover.
* `covers_flatMap_minus`, `inOrder_flatMap_minus`: ranges less ranges in order, by one pass over
  these.
-/

namespace PageSpeed.Choice.Ranges

open List

variable {α : Type}

/-! ## Ranges -/

/-- A position is in one of the ranges. -/
def covers (rs : List (ℕ × ℕ)) (p : ℕ) : Bool := rs.any fun r => r.1 ≤ p && p < r.2

/-- Each range ends before the later ones start, and after its own start. -/
structure InOrder (rs : List (ℕ × ℕ)) : Prop where
  apart : rs.Pairwise fun r s => r.2 ≤ s.1
  proper : ∀ r ∈ rs, r.1 ≤ r.2

variable {rs : List (ℕ × ℕ)} {r : ℕ × ℕ} {p lo hi : ℕ}

theorem covers_iff : covers rs p = true ↔ ∃ r ∈ rs, r.1 ≤ p ∧ p < r.2 := by simp [covers]

@[simp] theorem covers_nil : covers [] p = false := rfl

theorem covers_cons : covers (r :: rs) p = true ↔ (r.1 ≤ p ∧ p < r.2) ∨ covers rs p = true := by
  simp [covers]

theorem covers_append {rs' : List (ℕ × ℕ)} :
    covers (rs ++ rs') p = true ↔ covers rs p = true ∨ covers rs' p = true := by
  simp only [covers, any_append, Bool.or_eq_true]

theorem inOrder_nil : InOrder [] := ⟨.nil, by simp⟩

theorem inOrder_cons : InOrder (r :: rs) ↔ (r.1 ≤ r.2 ∧ ∀ s ∈ rs, r.2 ≤ s.1) ∧ InOrder rs := by
  constructor
  · intro h
    obtain ⟨hapart, htail⟩ := pairwise_cons.1 h.apart
    obtain ⟨hproper, hrest⟩ := forall_mem_cons.1 h.proper
    exact ⟨⟨hproper, hapart⟩, htail, hrest⟩
  · rintro ⟨⟨hproper, hapart⟩, htail⟩
    exact ⟨pairwise_cons.2 ⟨hapart, htail.apart⟩, forall_mem_cons.2 ⟨hproper, htail.proper⟩⟩

/-- What the later ranges cover is not before the end of the first. -/
theorem le_of_covers_tail (h : InOrder (r :: rs)) (hp : covers rs p = true) : r.2 ≤ p := by
  obtain ⟨s, hs, hlo, -⟩ := covers_iff.1 hp
  have hle := (inOrder_cons.1 h).1.2 s hs
  omega

/-! ## Elements at positions -/

/-- The elements at positions with the property, when the list starts at position `n`. -/
def pick (P : ℕ → Bool) (n : ℕ) (l : List α) : List α :=
  ((l.zipIdx n).filter fun x => P x.2).map Prod.fst

variable {P Q : ℕ → Bool} {n : ℕ} {a : α} {l : List α} {ss : List (ℕ × ℕ)}

@[simp] theorem pick_nil : pick P n ([] : List α) = [] := rfl

theorem pick_cons : pick P n (a :: l) = (if P n then [a] else []) ++ pick P (n + 1) l := by
  by_cases h : P n = true <;> simp [pick, h]

theorem pick_congr (h : ∀ p, P p = Q p) : pick P n l = pick Q n l := by
  have hPQ : P = Q := funext h
  rw [hPQ]

theorem pick_eq_nil (h : ∀ p, n ≤ p → P p = false) : pick P n l = [] := by
  induction l generalizing n with
  | nil => rfl
  | cons a l ih =>
    rw [pick_cons, h n le_rfl, ih fun p hp => h p (by omega)]
    rfl

/-- **What stands at earlier positions comes first.** -/
theorem pick_or (h : ∀ p q, P p = true → Q q = true → p < q) :
    pick (fun p => P p || Q p) n l = pick P n l ++ pick Q n l := by
  induction l generalizing n with
  | nil => rfl
  | cons a l ih =>
    rw [pick_cons, pick_cons, pick_cons, ih]
    by_cases hQ : Q n = true
    · -- from here on no position has the first property
      have hnone : ∀ p, n ≤ p → P p = false := by
        intro p hp
        by_contra hP
        have hlt := h p n (by simpa using hP) hQ
        omega
      rw [pick_eq_nil fun p hp => hnone p (by omega), hnone n le_rfl]
      simp
    · simp [hQ]

/-- The items of one range. -/
theorem pick_range : pick (fun p => lo ≤ p && p < hi) n l =
    (l.drop (lo - n)).take (hi - max lo n) := by
  induction l generalizing n with
  | nil => simp
  | cons a l ih =>
    rw [pick_cons, ih]
    by_cases hlo : lo ≤ n
    · by_cases hhi : n < hi
      · have h₁ : hi - max lo n = (hi - max lo (n + 1)) + 1 := by omega
        have h₂ : lo - n = 0 := by omega
        have h₃ : lo - (n + 1) = 0 := by omega
        rw [h₁, h₂, h₃]
        simp [hlo, hhi]
      · have h₁ : hi - max lo n = 0 := by omega
        have h₂ : hi - max lo (n + 1) = 0 := by omega
        simp [hhi, h₁, h₂]
    · have h₁ : lo - n = (lo - (n + 1)) + 1 := by omega
      have h₂ : max lo n = max lo (n + 1) := by omega
      simp [hlo, h₁, h₂]

/-- The part of the list from one position up to another. -/
def slice (l : List α) (r : ℕ × ℕ) : List α := (l.drop r.1).take (r.2 - r.1)

/-- **Slices in order** are the elements at what the ranges cover. -/
theorem flatMap_slice (h : InOrder rs) : rs.flatMap (slice l) = pick (covers rs) 0 l := by
  induction rs with
  | nil => exact (pick_eq_nil fun _ _ => rfl).symm
  | cons r rs ih =>
    have hfirst : slice l r = pick (fun p => r.1 ≤ p && p < r.2) 0 l := by
      rw [pick_range, slice]
      simp
    have hbefore : ∀ p q, (decide (r.1 ≤ p) && decide (p < r.2)) = true →
        covers rs q = true → p < q := by
      intro p q hp hq
      have hle := le_of_covers_tail h hq
      simp only [Bool.and_eq_true, decide_eq_true_eq] at hp
      omega
    rw [flatMap_cons, hfirst, ih (inOrder_cons.1 h).2, ← pick_or hbefore]
    rfl

/-- Two properties, one in the other, pick the same elements of a kind exactly when they agree on
the positions of that kind. -/
theorem filter_pick_eq_iff (f : α → Bool) (hQP : ∀ p, Q p = true → P p = true) :
    (pick P 0 l).filter f = (pick Q 0 l).filter f ↔
      ∀ p a, l[p]? = some a → f a = true → P p = true → Q p = true := by
  have hpick : ∀ R : ℕ → Bool,
      (pick R 0 l).filter f = ((l.zipIdx.filter fun x => f x.1 && R x.2).map Prod.fst) := by
    intro R
    simp only [pick, filter_map, filter_filter, Function.comp_def]
  have hsub : (l.zipIdx.filter fun x => f x.1 && Q x.2) =
      (l.zipIdx.filter fun x => f x.1 && P x.2).filter fun x => Q x.2 := by
    rw [filter_filter]
    refine filter_congr fun x _ => ?_
    cases hx : Q x.2 with
    | false => simp
    | true => simp [hQP x.2 hx]
  rw [hpick, hpick, hsub]
  constructor
  · intro heq p a hl hf hP
    have hlen := congrArg List.length heq
    simp only [length_map] at hlen
    have hall := length_filter_eq_length_iff.1 hlen.symm
    exact hall (a, p) (mem_filter.2 ⟨mem_zipIdx_iff_getElem?.2 hl, by simp [hf, hP]⟩)
  · intro h
    congr 1
    refine (filter_eq_self.2 ?_).symm
    rintro ⟨a, p⟩ hx
    obtain ⟨hmem, hfP⟩ := mem_filter.1 hx
    simp only [Bool.and_eq_true] at hfP
    exact h p a (mem_zipIdx_iff_getElem?.1 hmem) hfP.1 hfP.2

/-! ## A range less other ranges -/

/-- What is left of the range, by one pass over the others with a running start. -/
def minus (lo hi : ℕ) : List (ℕ × ℕ) → List (ℕ × ℕ)
  | [] => if lo < hi then [(lo, hi)] else []
  | (s, e) :: rs =>
    if s ≥ hi ∨ e ≤ lo then minus lo hi rs
    else (if lo < s then [(lo, s)] else []) ++ minus (max lo e) hi rs

/-- What is left of a range is in it. -/
theorem le_of_mem_minus (h : r ∈ minus lo hi rs) : lo ≤ r.1 ∧ r.2 ≤ hi ∧ r.1 < r.2 := by
  induction rs generalizing lo with
  | nil =>
    simp only [minus, mem_ite_nil_right, mem_singleton] at h
    obtain ⟨hlt, rfl⟩ := h
    exact ⟨le_rfl, le_rfl, hlt⟩
  | cons s rs ih =>
    rw [minus] at h
    split_ifs at h with hskip hlt
    · exact ih h
    · rcases mem_append.1 h with h | h
      · obtain rfl := mem_singleton.1 h
        dsimp only
        omega
      · have hmem := ih h
        omega
    · have hmem := ih (by simpa using h)
      omega

/-- It covers what the range does and the others do not. -/
theorem covers_minus (h : InOrder rs) : covers (minus lo hi rs) p = true ↔ (lo ≤ p ∧ p < hi) ∧
    covers rs p = false := by
  induction rs generalizing lo with
  | nil =>
    rw [minus]
    split_ifs with hlt
    · simp [covers]
    · simp only [covers_nil, Bool.false_eq_true, and_true, false_iff]
      omega
  | cons s rs ih =>
    have hrest := @ih lo (inOrder_cons.1 h).2
    have hrest' := @ih (max lo s.2) (inOrder_cons.1 h).2
    have htail := @le_of_covers_tail rs s p h
    have hcons := @covers_cons rs s p
    have hproper := (inOrder_cons.1 h).1.1
    rw [minus, Bool.eq_false_iff, ne_eq, hcons]
    rw [Bool.eq_false_iff, ne_eq] at hrest hrest'
    by_cases hcovered : covers rs p = true
    · have hle := htail hcovered
      split_ifs with hskip hlt
      · rw [hrest]
        simp [hcovered]
      · rw [covers_append, hrest', covers_cons]
        simp only [hcovered, covers_nil]
        simp
        omega
      · rw [nil_append, hrest']
        simp [hcovered]
    · split_ifs with hskip hlt
      · rw [hrest]
        simp only [hcovered]
        simp
        omega
      · rw [covers_append, hrest', covers_cons]
        simp only [hcovered, covers_nil]
        simp
        omega
      · rw [nil_append, hrest']
        simp only [hcovered]
        simp
        omega

/-- And is in order. -/
theorem inOrder_minus (h : InOrder rs) : InOrder (minus lo hi rs) := by
  induction rs generalizing lo with
  | nil =>
    rw [minus]
    split_ifs with hlt
    · exact inOrder_cons.2 ⟨⟨hlt.le, by simp⟩, inOrder_nil⟩
    · exact inOrder_nil
  | cons s rs ih =>
    have hrest := @ih (max lo s.2) (inOrder_cons.1 h).2
    rw [minus]
    split_ifs with hskip hlt
    · exact ih (inOrder_cons.1 h).2
    · have hproper := (inOrder_cons.1 h).1.1
      refine inOrder_cons.2 ⟨⟨hlt.le, fun r hr => ?_⟩, hrest⟩
      have hle := (le_of_mem_minus hr).1
      dsimp only
      omega
    · exact hrest

/-- Ranges less ranges. -/
theorem covers_flatMap_minus (h : InOrder ss) :
    covers (rs.flatMap fun r => minus r.1 r.2 ss) p = true ↔ covers rs p = true ∧
      covers ss p = false := by
  induction rs with
  | nil => simp
  | cons r rs ih =>
    rw [flatMap_cons, covers_append, ih, covers_minus h, covers_cons]
    tauto

/-- They are in order, too. -/
theorem inOrder_flatMap_minus (hr : InOrder rs) (hs : InOrder ss) :
    InOrder (rs.flatMap fun r => minus r.1 r.2 ss) := by
  constructor
  · refine pairwise_flatMap.2 ⟨fun r _ => (inOrder_minus hs).apart, hr.apart.imp ?_⟩
    intro r r' hle x hx y hy
    have hbefore := le_of_mem_minus hx
    have hafter := le_of_mem_minus hy
    omega
  · intro x hx
    obtain ⟨r, -, hmem⟩ := mem_flatMap.1 hx
    exact (le_of_mem_minus hmem).2.2.le

end PageSpeed.Choice.Ranges
