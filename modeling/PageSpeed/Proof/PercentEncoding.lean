import PageSpeed.Spec.UrlNormalizer

/-!
# Percent-encoding, piece by piece

The scanner cuts its input into escapes and other bytes. A percent sign that starts no
escape is passed through, and so are the bytes after it; but an escape of a hex digit
among these is decoded, and then the percent sign starts an escape after all.

* `pieces_emit`: what the scanner sees in its own output.
* `normalize_idem_iff`: normalising twice is normalising once exactly when no such escape
  is assembled that a second pass would change.
* `decode_eq_iff`: among inputs with the same normal form, decoding agrees exactly when the
  stray percent signs do.
-/

namespace PageSpeed

open Wire List

/-! ## Pieces -/

/-- What the scanner cuts its input into. -/
inductive Piece
  | escape (a b : UInt8)
  | literal (c : UInt8)
  deriving DecidableEq

open Piece

/-- A hexadecimal digit. -/
def isHex (c : UInt8) : Bool := (hexDigitValue c).isSome

/-- The value of a hex digit. -/
def hexVal (c : UInt8) : ℕ := (hexDigitValue c).getD 0

/-- The byte an escape stands for. -/
def escaped (a b : UInt8) : UInt8 := UInt8.ofNat (hexVal a * 16 + hexVal b)

/-- A hex digit in upper case. -/
def upHex (c : UInt8) : UInt8 := upperHexDigit (hexVal c)

/-- A text as encoded characters and literal ones. -/
def pieces : Bytes → List Piece
  | [] => []
  | c :: a :: b :: rest =>
    if c = ch '%' ∧ isHex a ∧ isHex b then .escape a b :: pieces rest
    else .literal c :: pieces (a :: b :: rest)
  | c :: rest => .literal c :: pieces rest

namespace Piece

/-- The bytes a piece was cut from. -/
def raw : Piece → Bytes
  | escape a b => [ch '%', a, b]
  | literal c => [c]

/-- The bytes the normaliser emits for a piece. -/
def emit : Piece → Bytes
  | escape a b => if isUnreserved (escaped a b) then [escaped a b] else [ch '%', upHex a, upHex b]
  | literal c => [c]

/-- The byte a piece decodes to. -/
def decode : Piece → UInt8
  | escape a b => escaped a b
  | literal c => c

/-- The digits of an escape are hex digits. -/
def Valid : Piece → Prop
  | escape a b => isHex a = true ∧ isHex b = true
  | literal _ => True

end Piece

variable (s : Bytes)

theorem valid_pieces : ∀ p ∈ pieces s, p.Valid := by
  fun_induction pieces s with
  | case1 => intro p hp; cases hp
  | case2 c a b rest h ih =>
    exact forall_mem_cons.2 ⟨⟨h.2.1, h.2.2⟩, ih⟩
  | case3 c a b rest h ih =>
    exact forall_mem_cons.2 ⟨trivial, ih⟩
  | case4 c rest _ ih =>
    exact forall_mem_cons.2 ⟨trivial, ih⟩

/-- The pieces make up the text. -/
theorem flatMap_raw_pieces : (pieces s).flatMap Piece.raw = s := by
  fun_induction pieces s with
  | case1 => rfl
  | case2 c a b rest h ih => rw [flatMap_cons, ih, h.1]; rfl
  | case3 c a b rest h ih => rw [flatMap_cons, ih]; rfl
  | case4 c rest _ ih => rw [flatMap_cons, ih]; rfl

/-- **The scan works piece by piece.** -/
theorem transformPercentEncoded_eq (f : UInt8 → ℕ → ℕ → Bytes) (g : UInt8 → Bytes) (s : Bytes) :
    transformPercentEncoded f g s = (pieces s).flatMap fun
      | .escape a b => f (escaped a b) (hexVal a) (hexVal b)
      | .literal c => g c := by
  fun_induction pieces s with
  | case1 => rfl
  | case2 c a b rest h ih =>
    obtain ⟨rfl, ha, hb⟩ := h
    obtain ⟨hi, hhi⟩ := Option.isSome_iff_exists.1 ha
    obtain ⟨lo, hlo⟩ := Option.isSome_iff_exists.1 hb
    rw [transformPercentEncoded, flatMap_cons, ← ih]
    simp only [if_true, hhi, hlo, escaped, hexVal, Option.getD_some]
  | case3 c a b rest h ih =>
    rw [transformPercentEncoded, flatMap_cons, ← ih]
    split
    · rename_i hi lo h1 h2
      refine absurd ?_ h
      split_ifs at h1 with hc
      exact ⟨hc, by rw [isHex, h1]; rfl, by rw [isHex, h2]; rfl⟩
    · rfl
  | case4 c rest hne ih =>
    rw [transformPercentEncoded, flatMap_cons, ← ih]
    exact hne

/-- Normalisation works piece by piece. -/
theorem normalizePercentEncoding_eq :
    normalizePercentEncoding s = (pieces s).flatMap Piece.emit := by
  unfold normalizePercentEncoding
  rw [transformPercentEncoded_eq]
  congr 1

/-- So does decoding. -/
theorem percentDecode_eq : percentDecode s = (pieces s).map Piece.decode := by
  unfold percentDecode
  rw [transformPercentEncoded_eq, ← flatMap_pure_eq_map]
  congr 1
  funext p
  cases p <;> rfl

/-! ## Bytes -/

theorem percent_facts : isHex (ch '%') = false ∧ isUnreserved (ch '%') = false := by decide

/-- Upper case keeps a digit a digit. -/
theorem isHex_upHex : ∀ a : UInt8, isHex a = true → isHex (upHex a) = true := by decide +kernel

/-- And keeps its value. -/
theorem hexVal_upHex : ∀ a : UInt8, isHex a = true → hexVal (upHex a) = hexVal a := by
  decide +kernel

theorem isUnreserved_of_isHex : ∀ a : UInt8, isHex a = true → isUnreserved a = true := by
  decide +kernel

theorem upHex_upHex {a : UInt8} (h : isHex a = true) : upHex (upHex a) = upHex a := by
  rw [upHex, hexVal_upHex a h, upHex]

variable {a b c : UInt8}

/-- The case of the digits does not change what they encode. -/
theorem escaped_upHex (ha : isHex a = true) (hb : isHex b = true) :
    escaped (upHex a) (upHex b) = escaped a b := by
  rw [escaped, hexVal_upHex a ha, hexVal_upHex b hb, escaped]

theorem hexVal_lt : ∀ a : UInt8, hexVal a < 16 := by decide +kernel

/-- An encoded percent sign is `%25`. -/
theorem upHex_of_escaped_percent (h : escaped a b = ch '%') : upHex a = ch '2' ∧
    upHex b = ch '5' := by
  have ha := hexVal_lt a
  have hb := hexVal_lt b
  have hn : (hexVal a * 16 + hexVal b) % 256 = 37 := by
    rw [← UInt8.toNat_ofNat', ← escaped, h]; rfl
  have h2 : hexVal a = 2 := by omega
  have h5 : hexVal b = 5 := by omega
  rw [upHex, upHex, h2, h5]
  exact ⟨rfl, rfl⟩

theorem ne_percent_of_isUnreserved (h : isUnreserved c = true) : c ≠ ch '%' := by
  rintro rfl
  exact absurd h (by decide)

/-! ## Cutting once more -/

/-- A character that starts no encoding is a literal. -/
theorem pieces_cons {s : Bytes}
    (h : ∀ a b r, s = a :: b :: r → ¬ (c = ch '%' ∧ isHex a = true ∧ isHex b = true)) :
    pieces (c :: s) = .literal c :: pieces s := by
  match s, h with
  | [], _ => rfl
  | [a], _ => rfl
  | a :: b :: rest, h => rw [pieces, if_neg (h a b rest rfl)]

theorem pieces_of_ne (h : c ≠ ch '%') (s : Bytes) : pieces (c :: s) = .literal c :: pieces s :=
  pieces_cons fun _ _ _ _ hc => h hc.1

theorem pieces_escape (ha : isHex a = true) (hb : isHex b = true) (s : Bytes) :
    pieces (ch '%' :: a :: b :: s) = .escape a b :: pieces s := by
  rw [pieces, if_pos ⟨rfl, ha, hb⟩]

variable {p : Piece} {x : UInt8}

namespace Piece

/-- The piece that the output of a piece is cut into, on its own. -/
def settle : Piece → Piece
  | escape a b =>
    if isUnreserved (escaped a b) then literal (escaped a b) else escape (upHex a) (upHex b)
  | literal c => literal c

/-- The hex digit that a piece leaves in the output, if it leaves one. -/
def digit? (p : Piece) : Option UInt8 :=
  match p.settle with
  | escape _ _ => none
  | literal c => if isHex c then some c else none

/-- A settled piece is written the same. -/
theorem emit_settle (h : p.Valid) : p.settle.emit = p.emit := by
  cases p with
  | literal c => rfl
  | escape a b =>
    by_cases hu : isUnreserved (escaped a b) = true
    · rw [settle, if_pos hu, emit, emit, if_pos hu]
    · rw [settle, if_neg hu, emit, emit, escaped_upHex h.1 h.2, if_neg hu, if_neg hu,
        upHex_upHex h.1, upHex_upHex h.2]

theorem emit_ne_nil (p : Piece) : p.emit ≠ [] := by
  cases p with
  | literal c => simp [emit]
  | escape a b => rw [emit]; split_ifs <;> simp

/-- A piece emits one byte, or an escape. -/
theorem emit_cases (p : Piece) : (∃ c, p.settle = literal c ∧ p.emit = [c]) ∨
    ∃ a b, p = escape a b ∧ isUnreserved (escaped a b) = false ∧
      p.settle = escape (upHex a) (upHex b) ∧ p.emit = [ch '%', upHex a, upHex b] := by
  cases p with
  | literal c => exact .inl ⟨c, rfl, rfl⟩
  | escape a b =>
    by_cases hu : isUnreserved (escaped a b) = true
    · exact .inl ⟨escaped a b, by rw [settle, if_pos hu], by rw [emit, if_pos hu]⟩
    · exact .inr ⟨a, b, rfl, by simpa using hu, by rw [settle, if_neg hu], by rw [emit, if_neg hu]⟩

theorem emit_of_digit? (h : p.digit? = some x) : p.emit = [x] ∧ isHex x = true := by
  unfold digit? at h
  rcases p.emit_cases with ⟨c, hs, he⟩ | ⟨a, b, -, -, hs, -⟩
  · rw [hs] at h
    simp only at h
    split_ifs at h with hx
    cases h
    exact ⟨he, hx⟩
  · rw [hs] at h
    cases h

/-- A hex digit at the front of the output comes from a piece that leaves it there. -/
theorem digit?_of_emit {r s : Bytes} (h : p.emit ++ r = x :: s) (hx : isHex x = true) :
    p.digit? = some x ∧ r = s := by
  rcases p.emit_cases with ⟨c, hs, he⟩ | ⟨a, b, -, -, -, he⟩
  · rw [he, singleton_append, cons.injEq] at h
    obtain ⟨rfl, hr⟩ := h
    exact ⟨by unfold digit?; rw [hs]; simp [hx], hr⟩
  · rw [he, cons_append, cons.injEq] at h
    rw [← h.1, percent_facts.1] at hx
    cases hx

end Piece

/-- Two hex digits at the front of the output come from the first two pieces. -/
theorem digits_of_flatMap {ts : List Piece} {r : Bytes}
    (h : ts.flatMap Piece.emit = a :: b :: r) (ha : isHex a = true) (hb : isHex b = true) :
    ∃ p q rest, ts = p :: q :: rest ∧ p.digit? = some a ∧ q.digit? = some b ∧
      rest.flatMap Piece.emit = r := by
  match ts with
  | [] => cases h
  | [p] =>
    rw [flatMap_cons] at h
    have := (digit?_of_emit h ha).2
    cases this
  | p :: q :: rest =>
    rw [flatMap_cons] at h
    obtain ⟨hp, h⟩ := digit?_of_emit h ha
    rw [flatMap_cons] at h
    obtain ⟨hq, h⟩ := digit?_of_emit h hb
    exact ⟨p, q, rest, rfl, hp, hq, h⟩

/-- Apart from stray percent signs, the output is cut where the input was. -/
theorem pieces_emit (hp : p ≠ .literal (ch '%')) (hv : p.Valid) (s : Bytes) :
    pieces (p.emit ++ s) = p.settle :: pieces s := by
  rcases p.emit_cases with ⟨c, hs, he⟩ | ⟨a, b, rfl, -, hs, he⟩
  · rw [hs, he, singleton_append]
    refine pieces_of_ne ?_ s
    rintro rfl
    cases p with
    | literal c => exact hp (by rw [← hs]; rfl)
    | escape a b =>
      rw [settle] at hs
      split_ifs at hs with hu
      exact ne_percent_of_isUnreserved hu (literal.inj hs)
  · rw [hs, he]
    exact pieces_escape (isHex_upHex a hv.1) (isHex_upHex b hv.2) s

/-! ## Normalising twice -/

/-- The escape of these digits is left alone by the normaliser. -/
def Fixed (x y : UInt8) : Prop :=
  isUnreserved (escaped x y) = false ∧ upHex x = x ∧ upHex y = y

/-- No stray percent sign stands in front of two pieces that leave hex digits which spell
an escape that a second pass would change. -/
def Clean (ts : List Piece) : Prop :=
  ∀ p q rest x y, (.literal (ch '%') :: p :: q :: rest) <:+ ts →
    p.digit? = some x → q.digit? = some y → Fixed x y

/-- Whether a stray percent sign meets two digits behind it. -/
theorem clean_cons_iff (t : Piece) (ts : List Piece) : Clean (t :: ts) ↔
    (t = .literal (ch '%') → ∀ p q rest x y, ts = p :: q :: rest →
      p.digit? = some x → q.digit? = some y → Fixed x y) ∧ Clean ts := by
  unfold Clean
  constructor
  · intro h
    refine ⟨?_, fun p q rest x y hs => h p q rest x y (hs.trans (suffix_cons t ts))⟩
    rintro rfl p q rest x y rfl
    exact h p q rest x y (suffix_refl _)
  · rintro ⟨h1, h2⟩ p q rest x y hs hx hy
    rcases suffix_cons_iff.1 hs with heq | hs
    · rw [cons.injEq] at heq
      exact h1 heq.1.symm p q rest x y heq.2.symm hx hy
    · exact h2 p q rest x y hs hx hy

theorem clean_cons_of_ne {t : Piece} (h : t ≠ .literal (ch '%')) (ts : List Piece) :
    Clean (t :: ts) ↔ Clean ts := by
  rw [clean_cons_iff]
  exact ⟨fun hc => hc.2, fun hc => ⟨fun ht => absurd ht h, hc⟩⟩

theorem ne_stray_of_digit? (h : p.digit? = some x) : p ≠ .literal (ch '%') := by
  rintro rfl
  obtain ⟨he, hx⟩ := emit_of_digit? h
  obtain rfl : ch '%' = x := cons.inj he |>.1
  rw [percent_facts.1] at hx
  cases hx

/-- An assembled escape survives the second pass exactly when it is fixed. -/
theorem emit_escape_append {x y : UInt8} {r s : Bytes} :
    (Piece.escape x y).emit ++ r = ch '%' :: x :: y :: s ↔ Fixed x y ∧ r = s := by
  rw [emit]
  split_ifs with hu
  · constructor
    · intro h
      rw [singleton_append, cons.injEq] at h
      exact absurd h.1 (ne_percent_of_isUnreserved hu)
    · rintro ⟨⟨hf, -⟩, -⟩
      rw [hu] at hf
      cases hf
  · simp only [cons_append, nil_append, cons.injEq, true_and, Fixed, hu]
    exact and_assoc.symm

theorem flatMap_emit_literal (c : UInt8) (ts : List Piece) :
    (Piece.literal c :: ts).flatMap Piece.emit = c :: ts.flatMap Piece.emit := rfl

/-- **Normalising the output again**, piece by piece. -/
theorem emit_pieces_emit_iff (ts : List Piece) (hv : ∀ t ∈ ts, t.Valid) :
    (pieces (ts.flatMap Piece.emit)).flatMap Piece.emit = ts.flatMap Piece.emit ↔ Clean ts := by
  -- a stray percent sign swallows two further pieces: induction on the length
  induction hn : ts.length using Nat.strong_induction_on generalizing ts with
  | _ n ih =>
    subst hn
    cases ts with
    | nil => exact ⟨fun _ _ _ _ _ _ h => absurd h (by simp), fun _ => rfl⟩
    | cons t ts =>
      have hts : ∀ t ∈ ts, t.Valid := fun p hp => hv p (mem_cons_of_mem t hp)
      have ih1 := ih ts.length (by simp) ts hts rfl
      by_cases ht : t = .literal (ch '%')
      · subst ht
        rw [flatMap_emit_literal]
        by_cases hsp : ∃ p q rest x y, ts = p :: q :: rest ∧ p.digit? = some x ∧ q.digit? = some y
        · obtain ⟨p, q, rest, x, y, rfl, hp, hq⟩ := hsp
          obtain ⟨hep, hx⟩ := emit_of_digit? hp
          obtain ⟨heq, hy⟩ := emit_of_digit? hq
          have ih3 := ih rest.length (by simp; omega) rest
            (fun t ht => hts t (by simp [ht])) rfl
          rw [flatMap_cons, flatMap_cons, hep, heq]
          simp only [singleton_append]
          rw [pieces_escape hx hy, flatMap_cons, emit_escape_append, ih3, clean_cons_iff,
            clean_cons_of_ne (ne_stray_of_digit? hp), clean_cons_of_ne (ne_stray_of_digit? hq)]
          constructor
          · rintro ⟨hf, hc⟩
            refine ⟨fun _ p' q' rest' x' y' heq' hx' hy' => ?_, hc⟩
            obtain ⟨rfl, rfl, rfl⟩ : p = p' ∧ q = q' ∧ rest = rest' := by simpa using heq'
            rw [hp, Option.some.injEq] at hx'
            rw [hq, Option.some.injEq] at hy'
            rw [← hx', ← hy']
            exact hf
          · rintro ⟨hf, hc⟩
            exact ⟨hf rfl p q rest x y rfl hp hq, hc⟩
        · rw [pieces_cons, flatMap_emit_literal]
          · rw [cons.injEq, clean_cons_iff, ih1]
            constructor
            · rintro ⟨-, hc⟩
              exact ⟨fun _ p q rest x y h hp hq => absurd ⟨p, q, rest, x, y, h, hp, hq⟩ hsp, hc⟩
            · exact fun hc => ⟨rfl, hc.2⟩
          · intro a b r hab hhex
            obtain ⟨p, q, rest, h, hp, hq, -⟩ := digits_of_flatMap hab hhex.2.1 hhex.2.2
            exact hsp ⟨p, q, rest, a, b, h, hp, hq⟩
      · rw [flatMap_cons, pieces_emit ht (hv t mem_cons_self), flatMap_cons,
          emit_settle (hv t mem_cons_self), append_right_inj, ih1, clean_cons_of_ne ht]

/-- The input has no stray percent sign that a second pass would trip over. -/
def Settled : Prop := Clean (pieces s)

/-- **Normalising twice is normalising once exactly on settled input.** -/
theorem normalize_idem_iff :
    normalizePercentEncoding (normalizePercentEncoding s) = normalizePercentEncoding s ↔
      Settled s := by
  rw [normalizePercentEncoding_eq s, normalizePercentEncoding_eq]
  exact emit_pieces_emit_iff _ (valid_pieces s)

/-! ## Decoding what has the same normal form -/

namespace Piece

/-- A piece that becomes a literal decodes to it. -/
theorem decode_of_settle_literal (h : p.settle = literal c) : p.decode = c := by
  cases p with
  | literal d => exact literal.inj h
  | escape a b =>
    rw [settle] at h
    split_ifs at h
    exact literal.inj h

theorem decode_of_digit? (h : p.digit? = some x) : p.decode = x := by
  rcases p.emit_cases with ⟨c, hs, he⟩ | ⟨a, b, -, -, hs, -⟩
  · obtain rfl : c = x := by
      have := (emit_of_digit? h).1
      rw [he] at this
      exact cons.inj this |>.1
    exact decode_of_settle_literal hs
  · unfold digit? at h
    rw [hs] at h
    cases h

/-- A piece that decodes to a hex digit leaves it in the output. -/
theorem emit_of_decode_isHex (h : isHex p.decode = true) : p.emit = [p.decode] := by
  rcases p.emit_cases with ⟨c, hs, he⟩ | ⟨a, b, rfl, hu, -, -⟩
  · rw [he, decode_of_settle_literal hs]
  · rw [decode] at h
    rw [isUnreserved_of_isHex _ h] at hu
    cases hu

/-- Whether a percent sign in the output is a stray one; `none` for other bytes. -/
def mark? (p : Piece) : Option Bool :=
  match p.settle with
  | escape _ _ => some false
  | literal c => if c = ch '%' then some true else none

end Piece

/-- The percent signs of the output, stray or of an escape. -/
def marks (ts : List Piece) : List Bool := ts.filterMap Piece.mark?

/-- The two digits of an escaped percent sign do not slip past the decoder. -/
theorem decode_ne_of_two_five (ts ts' : List Piece)
    (h : ts.flatMap Piece.emit = ts'.flatMap Piece.emit) :
    ch '2' :: ch '5' :: ts.map Piece.decode ≠ ts'.map Piece.decode := by
  induction hn : ts'.length using Nat.strong_induction_on generalizing ts ts' with
  | _ n ih =>
    subst hn
    intro heq
    match ts' with
    | [] => simp at heq
    | [p] => simp at heq
    | p :: q :: rest' =>
      simp only [map_cons, cons.injEq] at heq
      obtain ⟨hp, hq, hrest⟩ := heq
      have ep : p.emit = [ch '2'] := by
        rw [emit_of_decode_isHex (by rw [← hp]; decide), hp]
      have eq : q.emit = [ch '5'] := by
        rw [emit_of_decode_isHex (by rw [← hq]; decide), hq]
      rw [flatMap_cons, flatMap_cons, ep, eq] at h
      obtain ⟨p', q', rest, rfl, hp', hq', hr⟩ := digits_of_flatMap h (by decide) (by decide)
      refine ih rest'.length (by simp) rest rest' hr rfl ?_
      rw [← hrest, map_cons, map_cons, decode_of_digit? hp', decode_of_digit? hq']

/-- A stray percent sign against an escape: the decoded bytes differ. -/
theorem decode_ne_of_stray {ts ts' : List Piece} (ha : isHex a = true)
    (hb : isHex b = true) (h : ts.flatMap Piece.emit = upHex a :: upHex b ::
      ts'.flatMap Piece.emit) :
    ch '%' :: ts.map Piece.decode ≠ escaped a b :: ts'.map Piece.decode := by
  intro heq
  rw [cons.injEq] at heq
  obtain ⟨hpc, heq⟩ := heq
  obtain ⟨p, q, rest, rfl, hp, hq, hr⟩ := digits_of_flatMap h (isHex_upHex a ha) (isHex_upHex b hb)
  have h25 := upHex_of_escaped_percent hpc.symm
  rw [map_cons, map_cons, decode_of_digit? hp, decode_of_digit? hq, h25.1,
    h25.2] at heq
  exact decode_ne_of_two_five rest ts' hr heq

/-- **Same output, same decoding exactly when the stray percent signs agree.** -/
theorem map_decode_eq_iff (ts ts' : List Piece) (hv : ∀ t ∈ ts, t.Valid) (hv' : ∀ t ∈ ts', t.Valid)
    (h : ts.flatMap Piece.emit = ts'.flatMap Piece.emit) :
    ts.map Piece.decode = ts'.map Piece.decode ↔ marks ts = marks ts' := by
  induction ts generalizing ts' with
  | nil =>
    cases ts' with
    | nil => exact ⟨fun _ => rfl, fun _ => rfl⟩
    | cons t ts' =>
      rw [flatMap_nil, flatMap_cons] at h
      exact absurd (append_eq_nil_iff.1 h.symm).1 t.emit_ne_nil
  | cons t ts ih =>
    cases ts' with
    | nil =>
      rw [flatMap_nil, flatMap_cons] at h
      exact absurd (append_eq_nil_iff.1 h).1 t.emit_ne_nil
    | cons t' ts' =>
      have ht := hv t mem_cons_self
      have ht' := hv' t' mem_cons_self
      have ih := ih ts' (fun p hp => hv p (mem_cons_of_mem t hp))
        fun p hp => hv' p (mem_cons_of_mem t' hp)
      rw [flatMap_cons, flatMap_cons] at h
      rw [map_cons, map_cons]
      unfold marks at ih ⊢
      -- whether a piece was escaped is what the output may not show, so that it is split on
      rcases t.emit_cases with ⟨c, hs, he⟩ | ⟨a, b, rfl, hu, hs, he⟩ <;>
        rcases t'.emit_cases with ⟨c', hs', he'⟩ | ⟨a', b', rfl, hu', hs', he'⟩ <;>
        rw [he, he'] at h
      · obtain ⟨rfl, htl⟩ := cons.inj h
        have hm : t.mark? = t'.mark? := by unfold mark?; rw [hs, hs']
        rw [decode_of_settle_literal hs, decode_of_settle_literal hs', cons.injEq,
          filterMap_cons, filterMap_cons, hm, ih htl]
        cases t'.mark? <;> simp
      · -- a literal percent sign against an escape: the decodings differ, and so do the marks
        obtain ⟨rfl, htl⟩ := cons.inj h
        have hd := decode_ne_of_stray ht'.1 ht'.2 htl
        rw [decode_of_settle_literal hs, filterMap_cons, filterMap_cons]
        simp only [mark?, hs, hs', if_true]
        exact ⟨fun heq => absurd heq hd, fun hm => by cases hm⟩
      · obtain ⟨rfl, htl⟩ := cons.inj h
        have hd := decode_ne_of_stray ht.1 ht.2 htl.symm
        rw [decode_of_settle_literal hs', filterMap_cons, filterMap_cons]
        simp only [mark?, hs, hs', if_true]
        exact ⟨fun heq => absurd heq.symm hd, fun hm => by cases hm⟩
      · -- two escapes agree up to the case of their digits
        simp only [cons_append, nil_append, cons.injEq, true_and] at h
        obtain ⟨ha, hb, h⟩ := h
        have hdec : escaped a b = escaped a' b' := by
          rw [← escaped_upHex ht.1 ht.2, ha, hb, escaped_upHex ht'.1 ht'.2]
        rw [filterMap_cons, filterMap_cons]
        simp only [mark?, hs, hs', decode, hdec, cons.injEq, true_and]
        exact ih h

/-- **Honesty of the normal form**: inputs with the same one decode to the same bytes exactly
when their percent signs are stray in the same places. -/
theorem decode_eq_iff {s t : Bytes} (h : normalizePercentEncoding s = normalizePercentEncoding t) :
    percentDecode s = percentDecode t ↔ marks (pieces s) = marks (pieces t) := by
  rw [normalizePercentEncoding_eq, normalizePercentEncoding_eq] at h
  rw [percentDecode_eq, percentDecode_eq]
  exact map_decode_eq_iff _ _ (valid_pieces s) (valid_pieces t) h

end PageSpeed
