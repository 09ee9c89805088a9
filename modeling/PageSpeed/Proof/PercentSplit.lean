import PageSpeed.Proof.PercentEncoding

/-!
# Percent-encoding and delimiters

The bytes that delimit the parts of a url are reserved: the normaliser neither makes nor
eats one, so it can be moved past any split at a delimiter.

* `normalize_append`, `normalize_split`: splits of the input and of the output correspond.
* `weight_normalize`: what changes gets lighter, so a change cannot be undone later.
-/

namespace PageSpeed

open Wire List

/-- A byte that percent-encoding keeps apart: not a percent sign, and never decoded. -/
structure Reserved (c : UInt8) : Prop where
  ne_percent : c ≠ ch '%'
  not_hex : isHex c = false
  not_unreserved : isUnreserved c = false

/-- The delimiters of a URL are reserved. -/
theorem reserved_delims : Reserved (ch '#') ∧ Reserved (ch '?') ∧ Reserved (ch '&') ∧
    Reserved (ch '=') ∧ Reserved (ch '/') ∧ Reserved (ch ':') := by
  refine ⟨?_, ?_, ?_, ?_, ?_, ?_⟩ <;> exact ⟨by decide, by decide, by decide⟩

variable {c : UInt8} (hc : Reserved c) {s : Bytes}

include hc

/-- A text is cut into pieces on each side of a delimiter. -/
theorem pieces_append (a b : Bytes) :
    pieces (a ++ c :: b) = pieces a ++ .literal c :: pieces b := by
  fun_induction pieces a with
  | case1 => exact pieces_of_ne hc.ne_percent b
  | case2 d x y rest h ih =>
    obtain ⟨rfl, hx, hy⟩ := h
    simp only [cons_append]
    rw [pieces_escape hx hy, ih]
  | case3 d x y rest h ih =>
    simp only [cons_append] at ih ⊢
    rw [pieces, if_neg h, ih]
  | case4 d rest hne ih =>
    -- fewer than two bytes are left before the delimiter, which is not a digit
    rw [cons_append, pieces_cons, ih, cons_append]
    intro x y r h hd
    rcases rest with _ | ⟨z, _ | ⟨w, rest⟩⟩
    · rw [nil_append, cons.injEq] at h
      rw [← h.1, hc.not_hex] at hd
      exact absurd hd.2.1 (by decide)
    · simp only [cons_append, nil_append, cons.injEq] at h
      rw [← h.2.1, hc.not_hex] at hd
      exact absurd hd.2.2 (by decide)
    · exact hne z w rest rfl

/-- **A delimiter in the input is one in the output.** -/
theorem normalize_append (a b : Bytes) : normalizePercentEncoding (a ++ c :: b) =
    normalizePercentEncoding a ++ c :: normalizePercentEncoding b := by
  simp only [normalizePercentEncoding_eq]
  rw [pieces_append hc, flatMap_append, flatMap_emit_literal]

omit hc in
/-- And a literal delimiter is one of the text. -/
theorem pieces_split {l r : List Piece} (h : pieces s = l ++ .literal c :: r) :
    ∃ a b, s = a ++ c :: b ∧ pieces a = l ∧ pieces b = r := by
  fun_induction pieces s generalizing l with
  | case1 => simp at h
  | case2 d x y rest hd ih =>
    obtain ⟨rfl, hx, hy⟩ := hd
    cases l with
    | nil => simp at h
    | cons p l =>
      rw [cons_append, cons.injEq] at h
      obtain ⟨a, b, rfl, ha, hb⟩ := ih h.2
      exact ⟨ch '%' :: x :: y :: a, b, rfl, by rw [pieces_escape hx hy, ha, h.1], hb⟩
  | case3 d x y rest hd ih =>
    cases l with
    | nil =>
      rw [nil_append, cons.injEq, Piece.literal.injEq] at h
      exact ⟨[], x :: y :: rest, by rw [h.1]; rfl, rfl, h.2⟩
    | cons p l =>
      rw [cons_append, cons.injEq] at h
      obtain ⟨a, b, hab, ha, hb⟩ := ih h.2
      refine ⟨d :: a, b, by rw [hab]; rfl, ?_, hb⟩
      rw [pieces_cons, ha, h.1]
      rintro u v w rfl hu
      simp only [cons_append, cons.injEq] at hab
      rw [← hab.1, ← hab.2.1] at hu
      exact hd hu
  | case4 d rest hne ih =>
    cases l with
    | nil =>
      rw [nil_append, cons.injEq, Piece.literal.injEq] at h
      exact ⟨[], rest, by rw [h.1]; rfl, rfl, h.2⟩
    | cons p l =>
      rw [cons_append, cons.injEq] at h
      obtain ⟨a, b, rfl, ha, hb⟩ := ih h.2
      refine ⟨d :: a, b, rfl, ?_, hb⟩
      rw [pieces_cons, ha, h.1]
      rintro u v w rfl -
      exact hne u v (w ++ c :: b) rfl

/-- A reserved byte of the output was a byte of the input. -/
theorem flatMap_emit_split {ts : List Piece} (hv : ∀ t ∈ ts, t.Valid) {x y : Bytes}
    (h : ts.flatMap Piece.emit = x ++ c :: y) :
    ∃ l r, ts = l ++ .literal c :: r ∧ l.flatMap Piece.emit = x ∧ r.flatMap Piece.emit = y := by
  induction ts generalizing x with
  | nil => simp at h
  | cons t ts ih =>
    have ih := fun {x} => ih (x := x) fun p hp => hv p (mem_cons_of_mem t hp)
    rw [flatMap_cons] at h
    rcases t.emit_cases with ⟨d, hs, he⟩ | ⟨a, b, rfl, -, -, he⟩
    · rw [he, singleton_append] at h
      cases x with
      | nil =>
        rw [nil_append, cons.injEq] at h
        obtain ⟨rfl, hts⟩ := h
        refine ⟨[], ts, ?_, rfl, hts⟩
        -- an escape that is written out as a byte gives an unreserved one, unlike `c`
        cases t with
        | literal e => rw [← hs]; rfl
        | escape a b =>
          rw [Piece.settle] at hs
          split_ifs at hs with hu
          rw [Piece.literal.inj hs, hc.not_unreserved] at hu
          cases hu
      | cons e x =>
        rw [cons_append, cons.injEq] at h
        obtain ⟨l, r, rfl, hl, hr⟩ := ih h.2
        exact ⟨t :: l, r, rfl, by rw [flatMap_cons, he, hl, h.1]; rfl, hr⟩
    · -- the three bytes of an escape are not reserved
      have ht := hv _ mem_cons_self
      have hA := isHex_upHex a ht.1
      have hB := isHex_upHex b ht.2
      rw [he] at h
      rcases x with _ | ⟨e, _ | ⟨f, _ | ⟨g, x⟩⟩⟩
      · simp only [cons_append, nil_append, cons.injEq] at h
        exact absurd h.1.symm hc.ne_percent
      · simp only [cons_append, nil_append, cons.injEq] at h
        rw [h.2.1, hc.not_hex] at hA
        cases hA
      · simp only [cons_append, nil_append, cons.injEq] at h
        rw [h.2.2.1, hc.not_hex] at hB
        cases hB
      · simp only [cons_append, nil_append, cons.injEq] at h
        obtain ⟨h1, h2, h3, h4⟩ := h
        obtain ⟨l, r, rfl, hl, hr⟩ := ih h4
        refine ⟨.escape a b :: l, r, rfl, ?_, hr⟩
        rw [flatMap_cons, he, hl, h1, h2, h3]
        rfl

/-- **A delimiter in the output is one of the input**, at the same place. -/
theorem normalize_split {s x y : Bytes} (h : normalizePercentEncoding s = x ++ c :: y) :
    ∃ a b, s = a ++ c :: b ∧ normalizePercentEncoding a = x ∧ normalizePercentEncoding b = y := by
  rw [normalizePercentEncoding_eq] at h
  obtain ⟨l, r, hp, hl, hr⟩ := flatMap_emit_split hc (valid_pieces s) h
  obtain ⟨a, b, hs, ha, hb⟩ := pieces_split hp
  refine ⟨a, b, hs, ?_, ?_⟩
  · rw [normalizePercentEncoding_eq, ha, hl]
  · rw [normalizePercentEncoding_eq, hb, hr]

omit hc in
theorem normalize_eq_nil_iff : normalizePercentEncoding s = [] ↔ s = [] := by
  constructor
  · intro h
    rw [normalizePercentEncoding_eq, flatMap_eq_nil_iff] at h
    rw [← flatMap_raw_pieces s, flatMap_eq_nil_iff]
    exact fun p hp => absurd (h p hp) p.emit_ne_nil
  · rintro rfl
    rfl

/-- Normalisation neither makes nor loses a delimiter. -/
theorem mem_normalize_iff : c ∈ normalizePercentEncoding s ↔ c ∈ s := by
  constructor
  · intro h
    obtain ⟨x, y, hxy⟩ := append_of_mem h
    obtain ⟨a, b, rfl, -⟩ := normalize_split hc hxy
    simp
  · intro h
    obtain ⟨a, b, rfl⟩ := append_of_mem h
    rw [normalize_append hc]
    simp

omit hc

/-! ## Weight -/

/-- A lowercase letter weighs two, any other byte one. -/
def byteWeight (c : UInt8) : ℕ := if c ≥ ch 'a' ∧ c ≤ ch 'z' then 2 else 1

/-- The weight of a text, which a round of decoding lowers. -/
def weight (s : Bytes) : ℕ := (s.map byteWeight).sum

theorem weight_append (a b : Bytes) : weight (a ++ b) = weight a + weight b := by
  rw [weight, map_append, sum_append, weight, weight]

theorem byteWeight_bounds (c : UInt8) : 1 ≤ byteWeight c ∧ byteWeight c ≤ 2 := by
  unfold byteWeight; split_ifs <;> omega

/-- Upper case never weighs more. -/
theorem byteWeight_upHex : ∀ a : UInt8, isHex a = true → byteWeight (upHex a) ≤ byteWeight a ∧
    (byteWeight (upHex a) = byteWeight a → upHex a = a) := by decide +kernel

/-- What a piece emits is lighter than what it was, or the same. -/
theorem Piece.weight_emit {p : Piece} (h : p.Valid) : weight p.emit < weight p.raw ∨
    p.emit = p.raw := by
  cases p with
  | literal c => exact .inr rfl
  | escape a b =>
    obtain ⟨ha, ha'⟩ := byteWeight_upHex a h.1
    obtain ⟨hb, hb'⟩ := byteWeight_upHex b h.2
    have hraw : weight (Piece.escape a b).raw = 1 + (byteWeight a + byteWeight b) := rfl
    rw [emit]
    split_ifs with hu
    · left
      have h1 := (byteWeight_bounds (escaped a b)).2
      have h2 := (byteWeight_bounds a).1
      have h3 := (byteWeight_bounds b).1
      rw [hraw, show weight [escaped a b] = byteWeight (escaped a b) from rfl]
      omega
    · have hemit : weight [ch '%', upHex a, upHex b] =
          1 + (byteWeight (upHex a) + byteWeight (upHex b)) := rfl
      by_cases heq : byteWeight (upHex a) = byteWeight a ∧ byteWeight (upHex b) = byteWeight b
      · right
        rw [ha' heq.1, hb' heq.2]
        rfl
      · left
        rw [hraw, hemit]
        omega

/-- Writing pieces changes nothing or lowers the weight. -/
theorem weight_flatMap_emit (ts : List Piece) (hv : ∀ t ∈ ts, t.Valid) :
    weight (ts.flatMap Piece.emit) < weight (ts.flatMap Piece.raw) ∨
      ts.flatMap Piece.emit = ts.flatMap Piece.raw := by
  induction ts with
  | nil => exact .inr rfl
  | cons t ts ih =>
    rw [flatMap_cons, flatMap_cons, weight_append, weight_append]
    rcases Piece.weight_emit (hv t mem_cons_self) with ht | ht <;>
      rcases ih fun p hp => hv p (mem_cons_of_mem t hp) with hts | hts
    · exact .inl (by omega)
    · exact .inl (by rw [hts]; omega)
    · exact .inl (by rw [ht]; omega)
    · exact .inr (by rw [ht, hts])

/-- **What the normaliser changes gets lighter.** -/
theorem weight_normalize (s : Bytes) :
    weight (normalizePercentEncoding s) < weight s ∨ normalizePercentEncoding s = s := by
  have h := weight_flatMap_emit (pieces s) (valid_pieces s)
  rwa [flatMap_raw_pieces, ← normalizePercentEncoding_eq] at h

/-- Normalisation never raises the weight. -/
theorem weight_normalize_le (s : Bytes) : weight (normalizePercentEncoding s) ≤ weight s := by
  rcases weight_normalize s with h | h
  · exact h.le
  · rw [h]

end PageSpeed
