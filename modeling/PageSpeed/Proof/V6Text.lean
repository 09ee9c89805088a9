import PageSpeed.Spec.SsrfGuard

/-!
# IPv6 text and the bytes it denotes

* `readV6_spec`: an accepted text is the text of a valid way to write an address.
* `V6Text.Valid.cases`: it starts with "::" or with a group and a colon.
* `readV6_lower`: letter case makes no difference.
-/

namespace PageSpeed.Inet

open Wire List

/-! ## Digits and groups -/

theorem digitValue_lt : ∀ c : UInt8, digitValue c < 16 := by decide +kernel

theorem isHexDigit_of_isDigit : ∀ c : UInt8, isDigit c = true → isHexDigit c = true := by
  decide +kernel

/-- Lower case keeps the value of a digit. -/
theorem lowerChar_hex : ∀ c : UInt8, isHexDigit (lowerChar c) = isHexDigit c ∧
    digitValue (lowerChar c) = digitValue c ∧ isDigit (lowerChar c) = isDigit c := by
  decide +kernel

theorem toNat_lowerChar (c : UInt8) :
    (lowerChar c).toNat = if 65 ≤ c.toNat ∧ c.toNat ≤ 90 then c.toNat + 32 else c.toNat := by
  have hupper : (c ≥ ch 'A' ∧ c ≤ ch 'Z') ↔ (65 ≤ c.toNat ∧ c.toNat ≤ 90) := by
    rw [ge_iff_le, UInt8.le_iff_toNat_le, UInt8.le_iff_toNat_le]
    rfl
  have hA : (ch 'A').toNat = 65 := rfl
  have ha : (ch 'a').toNat = 97 := rfl
  unfold lowerChar
  by_cases h : 65 ≤ c.toNat ∧ c.toNat ≤ 90
  · rw [if_pos (hupper.2 h), if_pos h, UInt8.toNat_add, UInt8.toNat_sub, hA, ha]
    omega
  · rw [if_neg (mt hupper.1 h), if_neg h]

/-- Folding the case reaches nothing below the letters. -/
theorem lowerChar_eq_iff {d : UInt8} (hd : d < ch 'A') (c : UInt8) : lowerChar c = d ↔ c = d := by
  have h65 : d.toNat < 65 := hd
  rw [← UInt8.toNat_inj, ← UInt8.toNat_inj, toNat_lowerChar]
  split_ifs <;> omega

theorem lowerChar_lowerChar (c : UInt8) : lowerChar (lowerChar c) = lowerChar c := by
  rw [← UInt8.toNat_inj, toNat_lowerChar (lowerChar c), toNat_lowerChar]
  split_ifs <;> omega

/-- A digit is no separator. -/
theorem hex_ne (c : UInt8) (hc : isHexDigit c = true) : c ≠ ch ':' ∧ c ≠ ch '.' := by
  constructor <;> rintro rfl <;> exact absurd hc (by decide)

/-- A lower-case digit is known by its value. -/
theorem lowerChar_inj_of_digitValue {c d : UInt8} (hc : isHexDigit c = true)
    (hd : isHexDigit d = true) (h : digitValue c = digitValue d) : lowerChar c = lowerChar d := by
  have key : ∀ c : UInt8, isHexDigit c = true →
      lowerChar c = (if digitValue c < 10 then UInt8.ofNat (48 + digitValue c)
        else UInt8.ofNat (87 + digitValue c)) := by
    decide +kernel
  rw [key c hc, key d hd, h]

variable {x : V6Text} {g s : Bytes} {c : UInt8}

namespace V6Text

/-- What a group is. -/
theorem isGroup_iff : isGroup g = true ↔ g ≠ [] ∧ g.length ≤ 4 ∧ ∀ c ∈ g, isHexDigit c = true := by
  simp [isGroup]

theorem numeral_append (base : ℕ) (s : Bytes) (c : UInt8) :
    numeral base (s ++ [c]) = numeral base s * base + digitValue c := by
  simp [numeral]

/-- A number is bounded by its length. -/
theorem numeral_lt (s : Bytes) : numeral 16 s < 16 ^ s.length := by
  induction s using reverseRecOn with
  | nil => simp [numeral]
  | append_singleton s c ih =>
    have := digitValue_lt c
    rw [numeral_append, length_append, length_singleton, pow_succ]
    omega

theorem numeral_lt_of_isGroup (h : isGroup g = true) : numeral 16 g < 65536 :=
  (numeral_lt g).trans_le (Nat.pow_le_pow_right (by decide) (isGroup_iff.1 h).2.1)

/-- A digit that is not zero shows. -/
theorem numeral_ne_zero (hc : c ∈ s) (hd : digitValue c ≠ 0) : numeral 16 s ≠ 0 := by
  induction s using reverseRecOn with
  | nil => cases hc
  | append_singleton s d ih =>
    rw [numeral_append]
    rcases mem_append.1 hc with hc | hc
    · have := ih hc
      omega
    · rw [mem_singleton.1 hc] at hd
      omega

/-- Numbers of equal length differ in no digit. -/
theorem lower_eq_of_numeral {s t : Bytes} (hs : ∀ c ∈ s, isHexDigit c = true)
    (ht : ∀ c ∈ t, isHexDigit c = true) (hl : s.length = t.length)
      (h : numeral 16 s = numeral 16 t) :
    toLowerAscii s = toLowerAscii t := by
  induction s using reverseRecOn generalizing t with
  | nil => rw [length_eq_zero_iff.1 hl.symm]
  | append_singleton s c ih =>
    obtain ⟨t, d, rfl⟩ : ∃ t' d, t = t' ++ [d] := by
      have hne : t ≠ [] := by rintro rfl; simp at hl
      exact ⟨t.dropLast, t.getLast hne, (dropLast_append_getLast hne).symm⟩
    rw [numeral_append, numeral_append] at h
    have hc := digitValue_lt c
    have hd := digitValue_lt d
    have hlow := lowerChar_inj_of_digitValue (hs c (by simp)) (ht d (by simp)) (by omega)
    have hrest : toLowerAscii s = toLowerAscii t :=
      ih (fun x hx => hs x (mem_append_left _ hx)) (fun x hx => ht x (mem_append_left _ hx))
        (by simpa using hl) (by omega)
    simp only [toLowerAscii, map_append, map_cons, map_nil] at hrest ⊢
    rw [hrest, hlow]

theorem length_groupBytes (g : Bytes) : (groupBytes g).length = 2 := length_beBytes 2 _

theorem groupBytes_eq (g : Bytes) :
    groupBytes g = [UInt8.ofNat (numeral 16 g / 256 % 256), UInt8.ofNat (numeral 16 g % 256)] := rfl

/-- The bytes of a group are its number. -/
theorem numeral_of_groupBytes (h : isGroup g = true) {hi lo : UInt8}
    (hb : groupBytes g = [hi, lo]) : numeral 16 g = hi.toNat * 256 + lo.toNat := by
  have hlt := numeral_lt_of_isGroup h
  rw [groupBytes_eq] at hb
  obtain ⟨rfl, rfl⟩ : UInt8.ofNat (numeral 16 g / 256 % 256) = hi ∧
      UInt8.ofNat (numeral 16 g % 256) = lo := by
    simpa using hb
  simp only [UInt8.toNat_ofNat']
  omega

/-- The two bytes of a group and its value. -/
theorem exists_groupBytes (h : isGroup g = true) :
    ∃ hi lo, groupBytes g = [hi, lo] ∧ numeral 16 g = hi.toNat * 256 + lo.toNat :=
  ⟨_, _, groupBytes_eq g, numeral_of_groupBytes h (groupBytes_eq g)⟩

theorem length_flatMap_groupBytes (gs : List Bytes) :
    (gs.flatMap groupBytes).length = 2 * gs.length := by
  induction gs with
  | nil => rfl
  | cons g gs ih =>
    rw [flatMap_cons, length_append, length_groupBytes, ih, length_cons]
    omega

/-! ## Texts -/

/-- What can be told of a text that was accepted. -/
structure Valid (x : V6Text) : Prop where
  left : ∀ g ∈ x.left, isGroup g = true
  right : ∀ g ∈ x.right.getD [], isGroup g = true
  quad : ∀ q ∈ x.quad, ∃ b, inetPton4 q = some b
  open_size : x.right ≠ none → x.leftBytes.length + x.rightBytes.length ≤ 14
  full_size : x.right = none → x.leftBytes.length + x.rightBytes.length = 16

/-- What passes the check is valid. -/
theorem valid_of_isValid (h : x.isValid = true) : x.Valid := by
  obtain ⟨left, right, quad⟩ := x
  simp only [isValid, decide_eq_true_eq, all_eq_true] at h
  obtain ⟨h1, h2, h3, h4⟩ := h
  refine ⟨h1, h2, ?_, ?_, ?_⟩
  · rintro q rfl
    exact Option.isSome_iff_exists.1 h3
  · intro hr
    rwa [if_pos (Option.isSome_iff_ne_none.2 hr)] at h4
  · rintro rfl
    rwa [if_neg (by simp)] at h4

/-- Fields joined by colons. -/
def join (fs : List Bytes) : Bytes := [ch ':'].intercalate fs

theorem join_single (f : Bytes) : join [f] = f := by simp [join, List.intercalate]

theorem join_cons_cons (f g : Bytes) (fs : List Bytes) :
    join (f :: g :: fs) = f ++ ch ':' :: join (g :: fs) := by
  rw [join, intercalate_cons_cons, append_assoc]
  rfl

/-- Joined fields start with the first one. -/
theorem exists_join_cons (f : Bytes) (fs : List Bytes) :
    ∃ K, join (f :: fs) = f ++ K ∧ (K = [] ∨ K.head? = some (ch ':')) := by
  cases fs with
  | nil => exact ⟨[], by rw [join_single, append_nil], .inl rfl⟩
  | cons g fs => exact ⟨_, join_cons_cons f g fs, .inr rfl⟩

variable {fs : List Bytes}

theorem not_mem_join (hc : c ≠ ch ':') (h : ∀ f ∈ fs, c ∉ f) : c ∉ join fs :=
  not_mem_intercalate hc h

theorem join_eq_nil_iff (h : ∀ f ∈ fs, f ≠ []) : join fs = [] ↔ fs = [] := by
  refine ⟨fun hj => ?_, fun hf => by rw [hf]; rfl⟩
  match fs, h, hj with
  | [], _, _ => rfl
  | [f], h, hj => exact absurd (join_single f ▸ hj) (h f (by simp))
  | f :: g :: fs, h, hj =>
    rw [join_cons_cons] at hj
    simp at hj

/-- A text without a colon is one field. -/
theorem join_eq_single_iff {t : Bytes} (ht : ch ':' ∉ t) (hne : t ≠ []) : join fs = t ↔
    fs = [t] := by
  refine ⟨fun hj => ?_, fun hf => by rw [hf, join_single]⟩
  match fs, hj with
  | [], hj => exact absurd hj.symm hne
  | [f], hj => rw [← hj, join_single]
  | f :: g :: fs, hj =>
    rw [join_cons_cons] at hj
    exact absurd (by rw [← hj]; simp) ht

/-- A field and the colon after it. -/
theorem startsWith_join_iff {t : Bytes} (ht : ch ':' ∉ t) (h : ∀ f ∈ fs, ch ':' ∉ f) :
    t ++ [ch ':'] <+: join fs ↔ ∃ g rest, fs = t :: g :: rest := by
  match fs, h with
  | [], _ =>
    refine ⟨fun hp => absurd (prefix_nil.1 hp) (by simp), ?_⟩
    rintro ⟨g, rest, h⟩
    cases h
  | [f], h =>
    rw [join_single]
    refine ⟨fun hp => absurd (hp.subset (by simp)) (h f (by simp)), ?_⟩
    rintro ⟨g, rest, h⟩
    cases h
  | f :: g :: fs, h =>
    rw [join_cons_cons, startsWith_delim_iff ht (h f (by simp))]
    constructor
    · rintro ⟨rfl, -⟩
      exact ⟨g, fs, rfl⟩
    · rintro ⟨g', rest, h⟩
      exact ⟨(cons.inj h).1.symm, _, rfl⟩

/-- The text, as it is written. -/
def text (x : V6Text) : Bytes :=
  match x.right with
  | none => join (x.left ++ x.quad.toList)
  | some r => join x.left ++ ch ':' :: ch ':' :: join (r ++ x.quad.toList)

end V6Text

/-! ## Octets -/

/-- What an octet is. -/
theorem isOctet_iff {o : Bytes} : isOctet o = true ↔ o ≠ [] ∧ o.length ≤ 3 ∧
    (∀ c ∈ o, isDigit c = true) ∧
    ¬ (o.length > 1 ∧ o.head? = some (ch '0')) ∧ numeral 10 o ≤ 255 := by
  simp only [isOctet, decide_eq_true_eq, all_eq_true]

/-- Four octets and the dots between them. -/
structure Quad (q b : Bytes) (o₁ o₂ o₃ o₄ : Bytes) : Prop where
  octet : ∀ o ∈ [o₁, o₂, o₃, o₄], isOctet o = true
  text : q = o₁ ++ ch '.' :: (o₂ ++ ch '.' :: (o₃ ++ ch '.' :: o₄))
  split : q.splitOn (ch '.') = [o₁, o₂, o₃, o₄]
  bytes : b = [o₁, o₂, o₃, o₄].map fun o => UInt8.ofNat (numeral 10 o)

/-- A quad is four octets. -/
theorem quad_of_inetPton4 {q b : Bytes} (h : inetPton4 q = some b) : ∃ o₁ o₂ o₃ o₄,
    Quad q b o₁ o₂ o₃ o₄ := by
  unfold inetPton4 at h
  dsimp only at h
  split_ifs at h with hq
  obtain ⟨hl, ho⟩ := hq
  match hs : q.splitOn (ch '.'), hl with
  | [o₁, o₂, o₃, o₄], _ =>
    rw [hs] at ho h
    refine ⟨o₁, o₂, o₃, o₄, fun o hm => all_eq_true.1 ho o hm, ?_, hs, (Option.some.inj h).symm⟩
    have hj : [ch '.'].intercalate (q.splitOn (ch '.')) = q := intercalate_splitOn (ch '.')
    rw [hs] at hj
    rw [← hj]
    simp [List.intercalate]

theorem isDigit_ne (c : UInt8) (hc : isDigit c = true) : c ≠ ch '.' ∧ c ≠ ch ':' := by
  constructor <;> rintro rfl <;> exact absurd hc (by decide)

namespace Quad

variable {q b o₁ o₂ o₃ o₄ : Bytes}

section

variable (h : Quad q b o₁ o₂ o₃ o₄)
include h

theorem length_bytes : b.length = 4 := by rw [h.bytes]; rfl

theorem digit {o : Bytes} (ho : o ∈ [o₁, o₂, o₃, o₄]) :
    ∀ c ∈ o, isDigit c = true := (isOctet_iff.1 (h.octet o ho)).2.2.1

/-- A quad has digits and dots only. -/
theorem mem_text (hc : c ∈ q) : isDigit c = true ∨ c = ch '.' := by
  rw [h.text] at hc
  simp only [mem_append, mem_cons] at hc
  rcases hc with hc | hc | hc | hc | hc | hc | hc
  · exact .inl (h.digit (by simp) c hc)
  · exact .inr hc
  · exact .inl (h.digit (by simp) c hc)
  · exact .inr hc
  · exact .inl (h.digit (by simp) c hc)
  · exact .inr hc
  · exact .inl (h.digit (by simp) c hc)

theorem dot_mem : ch '.' ∈ q := by rw [h.text]; simp

end

end Quad

open V6Text

/-- The fields make up the text. -/
theorem join_fields (s : Bytes) : join (fields s) = s := by
  unfold fields
  split_ifs with h
  · rw [h]; rfl
  · exact intercalate_splitOn _

/-- So do the fields and the quad. -/
theorem join_splitQuad (s : Bytes) : join ((splitQuad s).1 ++ (splitQuad s).2.toList) = s := by
  unfold splitQuad
  cases hl : (fields s).getLast? with
  | none =>
    have hs := join_fields s
    rw [getLast?_eq_none_iff.1 hl] at hs
    exact hs
  | some q =>
    dsimp only
    split_ifs with hq
    · rw [Option.toList_some, dropLast_append_getLast? _ hl]
      exact join_fields s
    · rw [Option.toList_none, append_nil]
      exact join_fields s

/-- Any text is written as its parts. -/
theorem text_writtenAs (s : Bytes) : (writtenAs s).text = s := by
  unfold writtenAs
  cases hf : find (lit "::") s with
  | none => exact join_splitQuad s
  | some i =>
    obtain ⟨r, hr⟩ := (find_spec hf).1
    have hdrop : s.drop (i + 2) = r := by
      rw [← drop_drop, ← hr]
      rfl
    show join (fields (s.take i)) ++ ch ':' :: ch ':' :: join (_ ++ _) = s
    rw [join_fields, join_splitQuad, hdrop]
    conv_rhs => rw [← take_append_drop i s, ← hr]
    rfl

/-- **What is accepted is the text of a valid way to write an address.** -/
theorem readV6_spec (h : readV6 s = some x) : x.Valid ∧ x.text = s := by
  unfold readV6 at h
  split_ifs at h with hv
  cases h
  exact ⟨valid_of_isValid hv, text_writtenAs s⟩

namespace V6Text

variable {x : V6Text} {rest : List Bytes}

/-- The fields behind a "::". -/
def tail (x : V6Text) : List Bytes := x.right.getD [] ++ x.quad.toList

theorem Valid.tail_field (h : x.Valid) {f : Bytes} (hf : f ∈ x.tail) : f ≠ [] ∧ ch ':' ∉ f := by
  rcases mem_append.1 hf with hf | hf
  · obtain ⟨hne, -, hx⟩ := isGroup_iff.1 (h.right f hf)
    exact ⟨hne, fun hc => (hex_ne _ (hx _ hc)).1 rfl⟩
  · obtain ⟨b, hb⟩ := h.quad f (by simpa using hf)
    obtain ⟨o₁, o₂, o₃, o₄, hq⟩ := quad_of_inetPton4 hb
    refine ⟨fun hn => ?_, fun hc => ?_⟩
    · have := hq.dot_mem
      rw [hn] at this
      cases this
    · rcases hq.mem_text hc with hd | hd
      · exact (isDigit_ne _ hd).2 rfl
      · exact absurd hd (by decide)

theorem Valid.length_quad (h : x.Valid) :
    ((x.quad.bind inetPton4).getD []).length = 4 * x.quad.toList.length := by
  cases hq : x.quad with
  | none => rfl
  | some q =>
    obtain ⟨b, hb⟩ := h.quad q hq
    obtain ⟨o₁, o₂, o₃, o₄, hquad⟩ := quad_of_inetPton4 hb
    simp [hb, hquad.length_bytes]

/-- The bytes behind the `::`. -/
theorem Valid.length_rightBytes (h : x.Valid) :
    x.rightBytes.length = 2 * (x.right.getD []).length + 4 * x.quad.toList.length := by
  rw [rightBytes, length_append, length_flatMap_groupBytes, h.length_quad]

/-- **How an accepted text starts**: with "::", or with a group and a "::", or with two groups. -/
theorem Valid.cases (h : x.Valid) :
    (x.left = [] ∧ x.right ≠ none ∧ x.text = ch ':' :: ch ':' :: join x.tail) ∨
    (∃ g, x.left = [g] ∧ x.right ≠ none ∧ x.text = g ++ ch ':' :: ch ':' :: join x.tail) ∨
    ∃ g k rest K, x.left = g :: k :: rest ∧ x.text = g ++ ch ':' :: (k ++ K) ∧
      (K = [] ∨ K.head? = some (ch ':')) := by
  have hq : x.quad.toList.length ≤ 1 := by cases x.quad <;> simp
  have hsize := h.length_rightBytes
  obtain ⟨left, right, quad⟩ := x
  match left, right with
  | [], some r => exact .inl ⟨rfl, by simp, rfl⟩
  -- no groups and nothing left out is too short for an address
  | [], none =>
    have := h.full_size rfl
    simp only [leftBytes, flatMap_nil, length_nil, Option.getD_none] at this hsize hq
    omega
  | [g], some r =>
    refine .inr (.inl ⟨g, rfl, by simp, ?_⟩)
    simp [text, tail, join_single]
  | [g], none =>
    have := h.full_size rfl
    simp only [leftBytes, length_flatMap_groupBytes, length_singleton, Option.getD_none,
      length_nil] at this hsize hq
    omega
  | g :: k :: rest, some r =>
    obtain ⟨K, hK, hhead⟩ := exists_join_cons k rest
    refine .inr (.inr ⟨g, k, rest, K ++ ch ':' :: ch ':' :: join (r ++ quad.toList), rfl,
      ?_, .inr ?_⟩)
    · simp [text, join_cons_cons, hK]
    · rcases hhead with rfl | hhead
      · rfl
      · rw [head?_append, hhead, Option.some_or]
  | g :: k :: rest, none =>
    obtain ⟨K, hK, hhead⟩ := exists_join_cons k (rest ++ quad.toList)
    refine .inr (.inr ⟨g, k, rest, K, rfl, ?_, hhead⟩)
    show join (g :: k :: (rest ++ quad.toList)) = _
    rw [join_cons_cons, hK]

theorem bytes_eq : x.bytes = x.left.flatMap groupBytes ++
    (List.replicate (16 - x.leftBytes.length - x.rightBytes.length) 0 ++ x.rightBytes) := by
  rw [bytes, leftBytes, append_assoc]

/-- The first bytes are those of the first group. -/
theorem Valid.bytes_group (h : x.Valid) (hl : x.left = g :: rest) :
    ∃ hi lo r, x.bytes = hi :: lo :: r ∧ numeral 16 g = hi.toNat * 256 + lo.toNat := by
  have hg := h.left g (by rw [hl]; exact mem_cons_self)
  obtain ⟨hi, lo, hb, hn⟩ := exists_groupBytes hg
  rw [bytes_eq, hl, flatMap_cons, hb, append_assoc]
  exact ⟨hi, lo, _, rfl, hn⟩

/-- The same for the first two groups. -/
theorem Valid.bytes_two_groups (h : x.Valid) {g k : Bytes} (hl : x.left = g :: k :: rest) :
    ∃ hi lo hi' lo' r, x.bytes = hi :: lo :: hi' :: lo' :: r ∧
      numeral 16 g = hi.toNat * 256 + lo.toNat ∧ numeral 16 k = hi'.toNat * 256 + lo'.toNat := by
  have hg := h.left g (by rw [hl]; exact mem_cons_self)
  have hk := h.left k (by rw [hl]; simp)
  obtain ⟨hi, lo, hb, hn⟩ := exists_groupBytes hg
  obtain ⟨hi', lo', hb', hn'⟩ := exists_groupBytes hk
  rw [bytes_eq, hl, flatMap_cons, flatMap_cons, hb, hb', append_assoc, append_assoc]
  exact ⟨hi, lo, hi', lo', _, rfl, hn, hn'⟩

/-- At least two zero bytes stand where the "::" does. -/
theorem Valid.bytes_open (h : x.Valid) (hr : x.right ≠ none) :
    ∃ r, x.bytes = x.leftBytes ++ 0 :: 0 :: r := by
  have := h.open_size hr
  obtain ⟨n, hn⟩ : ∃ n, 16 - x.leftBytes.length - x.rightBytes.length = n + 2 :=
    ⟨_, (Nat.sub_add_cancel (by omega)).symm⟩
  refine ⟨List.replicate n 0 ++ x.rightBytes, ?_⟩
  rw [bytes, hn]
  simp [replicate_succ]

end V6Text

/-! ## Letter case -/

theorem numeral_lower (base : ℕ) (s : Bytes) : numeral base (toLowerAscii s) = numeral base s := by
  unfold numeral toLowerAscii
  rw [foldl_map]
  simp only [(lowerChar_hex _).2.1]

theorem isGroup_lower (g : Bytes) : isGroup (toLowerAscii g) = isGroup g := by
  simp only [isGroup, toLowerAscii, ne_eq, map_eq_nil_iff, length_map, all_map,
    Function.comp_def, (lowerChar_hex _).1]

theorem groupBytes_lower (g : Bytes) : groupBytes (toLowerAscii g) = groupBytes g := by
  rw [groupBytes, numeral_lower, groupBytes]

theorem isOctet_lower (o : Bytes) : isOctet (toLowerAscii o) = isOctet o := by
  have hzero : ∀ c : UInt8, (lowerChar c = ch '0' ↔ c = ch '0') := lowerChar_eq_iff (by decide)
  have hhead : (toLowerAscii o).head? = some (ch '0') ↔ o.head? = some (ch '0') := by
    cases o with
    | nil => rfl
    | cons c o => simp [toLowerAscii, hzero]
  simp only [isOctet, hhead, numeral_lower]
  simp only [toLowerAscii, ne_eq, map_eq_nil_iff, length_map, all_map,
    Function.comp_def, (lowerChar_hex _).2.2]

/-- Case does not matter to a quad. -/
theorem inetPton4_lower (q : Bytes) : inetPton4 (toLowerAscii q) = inetPton4 q := by
  unfold inetPton4
  have hsplit : (toLowerAscii q).splitOn (ch '.') = (q.splitOn (ch '.')).map toLowerAscii :=
    splitOn_map (lowerChar_eq_iff (by decide)) q
  simp only [hsplit, length_map, all_map, map_map, Function.comp_def, isOctet_lower,
    numeral_lower]

namespace V6Text

/-- The text in lower case. -/
def lower (x : V6Text) : V6Text :=
  ⟨x.left.map toLowerAscii, x.right.map (List.map toLowerAscii), x.quad.map toLowerAscii⟩

variable (x : V6Text)

theorem lower_lower : x.lower.lower = x.lower := by
  have hidem : toLowerAscii ∘ toLowerAscii = toLowerAscii := by
    funext s
    simp [toLowerAscii, lowerChar_lowerChar]
  obtain ⟨left, right, quad⟩ := x
  simp only [lower, map_map, Option.map_map, hidem]
  cases right <;> simp [hidem]

theorem flatMap_groupBytes_lower (gs : List Bytes) :
    (gs.map toLowerAscii).flatMap groupBytes = gs.flatMap groupBytes := by
  rw [flatMap_map]
  simp only [groupBytes_lower]

theorem right_lower : x.lower.right.getD [] = (x.right.getD []).map toLowerAscii := by
  unfold lower
  cases x.right <;> rfl

theorem leftBytes_lower : x.lower.leftBytes = x.leftBytes := flatMap_groupBytes_lower x.left

theorem rightBytes_lower : x.lower.rightBytes = x.rightBytes := by
  unfold rightBytes
  rw [right_lower, flatMap_groupBytes_lower]
  unfold lower
  cases x.quad with
  | none => rfl
  | some q => simp [inetPton4_lower]

/-- Nor to whether a text is valid. -/
theorem isValid_lower : x.lower.isValid = x.isValid := by
  unfold isValid
  rw [right_lower, leftBytes_lower, rightBytes_lower]
  unfold lower
  cases x.right <;> cases x.quad <;>
    simp [all_map, Function.comp_def, isGroup_lower, inetPton4_lower]

end V6Text

theorem fields_lower (s : Bytes) : fields (toLowerAscii s) = (fields s).map toLowerAscii := by
  unfold fields
  by_cases h : s = []
  · rw [h]; rfl
  · rw [if_neg h, if_neg (by simpa [toLowerAscii] using h)]
    exact splitOn_map (lowerChar_eq_iff (by decide)) s

theorem splitQuad_lower (s : Bytes) : splitQuad (toLowerAscii s) =
    ((splitQuad s).1.map toLowerAscii, (splitQuad s).2.map toLowerAscii) := by
  unfold splitQuad
  rw [fields_lower, getLast?_map]
  cases (fields s).getLast? with
  | none => rfl
  | some q =>
    have hdot : ch '.' ∈ toLowerAscii q ↔ ch '.' ∈ q :=
      mem_map_fixed_iff (lowerChar_eq_iff (by decide)) q
    simp only [Option.map_some, hdot]
    split_ifs
    · rw [map_dropLast]; rfl
    · rfl

/-- The parts in lower case. -/
theorem writtenAs_lower (s : Bytes) : writtenAs (toLowerAscii s) = (writtenAs s).lower := by
  have hfind : find (lit "::") (toLowerAscii s) = find (lit "::") s := by
    refine find_map (fun c hc => ?_) s
    rw [show c = ch ':' by simpa [lit] using hc]
    exact lowerChar_eq_iff (by decide)
  have htake : ∀ i, (toLowerAscii s).take i = toLowerAscii (s.take i) := fun i => map_take.symm
  have hdrop : ∀ i, (toLowerAscii s).drop i = toLowerAscii (s.drop i) := fun i => map_drop.symm
  unfold writtenAs
  rw [hfind]
  cases find (lit "::") s with
  | none => simp only [splitQuad_lower]; rfl
  | some i => simp only [htake, hdrop, splitQuad_lower, fields_lower]; rfl

/-- **Letter case makes no difference.** -/
theorem readV6_lower (h : readV6 s = some x) : readV6 (toLowerAscii s) = some x.lower := by
  unfold readV6 at h ⊢
  rw [writtenAs_lower, isValid_lower]
  obtain ⟨hv, hx⟩ := Option.ite_none_right_eq_some.1 h
  rw [if_pos hv, ← Option.some.inj hx]

/-- The bytes an accepted text is made of. -/
theorem readV6_chars (h : readV6 s = some x) : ∀ c ∈ s, isHexDigit c = true ∨ c = ch ':' ∨
    c = ch '.' := by
  obtain ⟨hv, rfl⟩ := readV6_spec h
  intro c hc
  by_contra hno
  rw [not_or, not_or] at hno
  have hgroup : ∀ g, isGroup g = true → c ∉ g := fun g hg hm => hno.1 ((isGroup_iff.1 hg).2.2 c hm)
  have hleft : ∀ f ∈ x.left, c ∉ f := fun f hf => hgroup f (hv.left f hf)
  have hquad : ∀ f ∈ x.quad.toList, c ∉ f := by
    intro f hf hm
    obtain ⟨b, hb⟩ := hv.quad f (by simpa using hf)
    obtain ⟨o₁, o₂, o₃, o₄, hq⟩ := quad_of_inetPton4 hb
    rcases hq.mem_text hm with hd | hd
    · exact hno.1 (isHexDigit_of_isDigit c hd)
    · exact hno.2.2 hd
  revert hc
  unfold text
  cases hr : x.right with
  | none => exact not_mem_join hno.2.1 (forall_mem_append.2 ⟨hleft, hquad⟩)
  | some r =>
    rw [imp_false, mem_append, mem_cons, mem_cons, not_or, not_or, not_or]
    have hright : ∀ f ∈ r, c ∉ f := fun f hf => hgroup f (hv.right f (by rw [hr]; exact hf))
    exact ⟨not_mem_join hno.2.1 hleft, hno.2.1, hno.2.1,
      not_mem_join hno.2.1 (forall_mem_append.2 ⟨hright, hquad⟩)⟩

/-- An IPv6 text has a colon. -/
theorem colon_mem_of_readV6 (h : readV6 s = some x) : ch ':' ∈ s := by
  obtain ⟨hv, rfl⟩ := readV6_spec h
  rcases hv.cases with ⟨-, -, ht⟩ | ⟨g, -, -, ht⟩ | ⟨g, k, rest, K, -, ht, -⟩ <;> rw [ht] <;> simp

end PageSpeed.Inet
