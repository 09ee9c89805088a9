import PageSpeed.Wire.Bytes
import Mathlib.Data.List.TakeWhile

/-!
# Searching and splitting byte strings

* `find`: the position of the first occurrence, with `find_byte` for a single byte.
* `splitOn_induction`: a string is its pieces between delimiters.
-/

namespace PageSpeed.Wire

open List

/-- The position of a string, `find` of the library. -/
def find (pat : Bytes) : Bytes → Option ℕ
  | [] => if pat = [] then some 0 else none
  | c :: s => if pat <+: c :: s then some 0 else (find pat s).map (· + 1)

/-- The position of a string at or after a given one. -/
def findFrom (pat url : Bytes) (pos : ℕ) : Option ℕ := (find pat (url.drop pos)).map (· + pos)

/-- The first occurrence. -/
theorem find_spec {pat s : Bytes} {i : ℕ} (h : find pat s = some i) :
    pat <+: s.drop i ∧ ∀ k < i, ¬ pat <+: s.drop k := by
  induction s generalizing i with
  | nil =>
    rw [find] at h
    split_ifs at h with hp
    cases h
    exact ⟨by rw [hp]; exact ⟨_, rfl⟩, fun k hk => absurd hk (Nat.not_lt_zero k)⟩
  | cons c s ih =>
    rw [find] at h
    split_ifs at h with hp
    · cases h
      exact ⟨hp, fun k hk => absurd hk (Nat.not_lt_zero k)⟩
    · obtain ⟨j, hj, rfl⟩ := Option.map_eq_some_iff.1 h
      obtain ⟨h1, h2⟩ := ih hj
      refine ⟨h1, fun k hk => ?_⟩
      cases k with
      | zero => exact hp
      | succ k => exact h2 k (by omega)

/-- An occurrence is found, or an earlier one. -/
theorem find_of_occurs {pat s : Bytes} {j : ℕ} (h : pat <+: s.drop j) (hne : pat ≠ []) :
    ∃ i ≤ j, find pat s = some i := by
  induction s generalizing j with
  | nil =>
    rw [drop_nil] at h
    exact absurd (prefix_nil.1 h) hne
  | cons c s ih =>
    rw [find]
    split_ifs with hp
    · exact ⟨0, Nat.zero_le j, rfl⟩
    · cases j with
      | zero => exact absurd h hp
      | succ j =>
        obtain ⟨i, hi, hf⟩ := ih h
        exact ⟨i + 1, by omega, by rw [hf]; rfl⟩

variable {c : UInt8} {s : Bytes}

/-- The position of a byte: the length of what is before it. -/
theorem find_byte {a b : Bytes} (h : c ∉ a) : find [c] (a ++ c :: b) = some a.length := by
  induction a with
  | nil =>
    rw [nil_append, find, if_pos (show [c] <+: c :: b from ⟨b, rfl⟩)]
    rfl
  | cons d a ih =>
    rw [mem_cons, not_or] at h
    have hp : ¬ [c] <+: d :: (a ++ c :: b) := by
      intro hp
      exact h.1 (cons_prefix_cons.1 hp).1
    rw [cons_append, find, if_neg hp, ih h.2]
    rfl

/-- A byte that is not there is not found. -/
theorem find_byte_none {a : Bytes} (h : c ∉ a) : find [c] a = none := by
  cases hf : find [c] a with
  | none => rfl
  | some i =>
    have hp := (find_spec hf).1
    exact absurd (mem_of_mem_drop (hp.subset (mem_singleton.2 rfl))) h

/-- The position of a byte splits the string at its first occurrence. -/
theorem find_byte_eq_some {i : ℕ} (h : find [c] s = some i) : s = s.take i ++ c :: s.drop (i + 1) ∧
    c ∉ s.take i := by
  have hmem : c ∈ s := by
    by_contra hno
    rw [find_byte_none hno] at h
    exact absurd h (by simp)
  obtain ⟨a, b, rfl, ha⟩ := eq_append_cons_of_mem hmem
  rw [find_byte ha, Option.some.injEq] at h
  subst h
  have hdrop : (a ++ c :: b).drop (a.length + 1) = b := by
    rw [← drop_drop, drop_left, drop_one, tail_cons]
  rw [take_left, hdrop]
  exact ⟨rfl, ha⟩

/-! ## Up to a delimiter -/

theorem takeWhile_ne_of_not_mem (h : c ∉ s) : s.takeWhile (· ≠ c) = s := by
  rw [takeWhile_eq_self_iff]
  intro x hx
  exact decide_eq_true fun hxc => h (hxc ▸ hx)

/-- What stands in front of a byte does not have it. -/
theorem not_mem_takeWhile_ne (c : UInt8) (s : Bytes) : c ∉ s.takeWhile (· ≠ c) := by
  intro h
  have := mem_takeWhile_imp h
  simp at this

/-- Splitting at a delimiter, one piece at a time. -/
theorem splitOn_induction {motive : Bytes → Prop} (hlast : ∀ s, c ∉ s → motive s)
    (hcons : ∀ a b, c ∉ a → motive b → motive (a ++ c :: b)) (s : Bytes) : motive s := by
  induction hn : s.length using Nat.strong_induction_on generalizing s with
  | _ n ih =>
    by_cases hc : c ∈ s
    · obtain ⟨a, b, rfl, ha⟩ := eq_append_cons_of_mem hc
      exact hcons a b ha (ih b.length (by rw [← hn]; simp; omega) b rfl)
    · exact hlast s hc

/-- The pieces hold what is no delimiter. -/
theorem flatten_splitOnP {α : Type} (f : α → Bool) (l : List α) :
    (l.splitOnP f).flatten = l.filter fun a => !f a := by
  induction l with
  | nil => simp
  | cons a l ih =>
    rw [splitOnP_cons_eq_if_modifyHead]
    by_cases hf : f a = true
    · simp [hf, ih]
    · obtain ⟨p, ps, hps⟩ := exists_cons_of_ne_nil (splitOnP_ne_nil f l)
      rw [hps] at ih
      simp [hf, hps, ← ih]

/-- The parts have the bytes of the text but for the separator. -/
theorem mem_of_mem_splitOn {x : UInt8} {t : Bytes} (h : t ∈ s.splitOn c) (hx : x ∈ t) :
    x ∈ s ∧ x ≠ c := by
  have hmem := mem_flatten_of_mem h hx
  rw [splitOn_eq_splitOnP, flatten_splitOnP, mem_filter] at hmem
  simpa using hmem

theorem not_mem_of_mem_splitOn {t : Bytes} (h : t ∈ s.splitOn c) : c ∉ t :=
  fun hc => (mem_of_mem_splitOn h hc).2 rfl

/-- Lines that each end in the delimiter; behind the last there is an empty piece. -/
theorem splitOn_lines {lines : List Bytes} (h : ∀ line ∈ lines, c ∉ line) :
    (lines.flatMap (· ++ [c])).splitOn c = lines ++ [[]] := by
  induction lines with
  | nil => rfl
  | cons line lines ih =>
    obtain ⟨hline, hlines⟩ := forall_mem_cons.1 h
    rw [flatMap_cons, append_assoc, singleton_append, splitOn_append_cons_self_of_not_mem hline,
      ih hlines, cons_append]

/-- Joining brings in the separator only. -/
theorem not_mem_intercalate {c d : UInt8} {ts : List Bytes} (hcd : c ≠ d) (h : ∀ t ∈ ts, c ∉ t) :
    c ∉ [d].intercalate ts := by
  induction ts with
  | nil => simp [List.intercalate]
  | cons t ts ih =>
    obtain ⟨ht, hts⟩ := forall_mem_cons.1 h
    cases ts with
    | nil => simpa [List.intercalate] using ht
    | cons u ts =>
      rw [intercalate_cons_cons, append_assoc, singleton_append, mem_append, mem_cons,
        not_or, not_or]
      exact ⟨ht, hcd, ih hts⟩

/-! ## Rewriting other bytes -/

section Map

variable {f : UInt8 → UInt8}

/-- A map that fixes the bytes of a pattern does not move it. -/
theorem startsWith_map_iff {pat : Bytes} (h : ∀ c ∈ pat, ∀ d, f d = c ↔ d = c) (s : Bytes) :
    pat <+: s.map f ↔ pat <+: s := by
  induction pat generalizing s with
  | nil => simp
  | cons c pat ih =>
    cases s with
    | nil => simp
    | cons d s =>
      rw [map_cons, cons_prefix_cons, cons_prefix_cons,
        ih (fun c' hc' => h c' (mem_cons_of_mem c hc')), eq_comm, h c mem_cons_self, eq_comm]

theorem find_map {pat : Bytes} (h : ∀ c ∈ pat, ∀ d, f d = c ↔ d = c) (s : Bytes) :
    find pat (s.map f) = find pat s := by
  induction s with
  | nil => rfl
  | cons d s ih =>
    have hp := startsWith_map_iff h (d :: s)
    rw [map_cons] at hp ⊢
    rw [find, find, ih]
    simp only [hp]

variable {c : UInt8} (hf : ∀ d, f d = c ↔ d = c)
include hf

theorem mem_map_fixed_iff (s : Bytes) : c ∈ s.map f ↔ c ∈ s := by
  rw [mem_map]
  constructor
  · rintro ⟨d, hd, he⟩
    rwa [← (hf d).1 he]
  · intro h
    exact ⟨c, h, (hf c).2 rfl⟩

/-- Nor does it move the parts. -/
theorem splitOn_map (s : Bytes) : (s.map f).splitOn c = (s.splitOn c).map (List.map f) := by
  induction s using splitOn_induction (c := c) with
  | hlast s hs =>
    rw [splitOn_eq_singleton hs, splitOn_eq_singleton (by rwa [mem_map_fixed_iff hf])]
    rfl
  | hcons a b ha ih =>
    rw [map_append, map_cons, (hf c).2 rfl, splitOn_append_cons_self_of_not_mem ha,
      map_cons, ← ih, splitOn_append_cons_self_of_not_mem (by rwa [mem_map_fixed_iff hf])]

end Map

/-! ## Beginnings and delimiters -/

/-- A beginning without the delimiter lies in front of it. -/
theorem startsWith_until_iff {p a r : Bytes} (hp : c ∉ p) : p <+: a ++ c :: r ↔ p <+: a := by
  induction p generalizing a with
  | nil => simp
  | cons x p ih =>
    rw [mem_cons, not_or] at hp
    cases a with
    | nil =>
      rw [nil_append, cons_prefix_cons]
      simp [Ne.symm hp.1]
    | cons y a =>
      rw [cons_append, cons_prefix_cons, cons_prefix_cons, ih hp.2]

/-- A beginning with the delimiter agrees up to it. -/
theorem startsWith_delim_iff {p q a r : Bytes} (hp : c ∉ p) (ha : c ∉ a) :
    p ++ c :: q <+: a ++ c :: r ↔ p = a ∧ q <+: r := by
  induction p generalizing a with
  | nil =>
    cases a with
    | nil => simp
    | cons y a =>
      rw [mem_cons, not_or] at ha
      rw [nil_append, cons_append, cons_prefix_cons]
      simp [ha.1]
  | cons x p ih =>
    rw [mem_cons, not_or] at hp
    cases a with
    | nil =>
      rw [cons_append, nil_append, cons_prefix_cons]
      simp [Ne.symm hp.1]
    | cons y a =>
      rw [mem_cons, not_or] at ha
      rw [cons_append, cons_append, cons_prefix_cons, ih hp.2 ha.2, cons.injEq, and_assoc]

end PageSpeed.Wire
