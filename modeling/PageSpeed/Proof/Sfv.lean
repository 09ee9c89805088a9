import PageSpeed.Spec.WebBotAuth

/-!
# Structured fields, parsed and serialised

* `parseInnerList_yields`: what the parser returns is well formed.
* `parseInnerList_reads`: the text of a well-formed list is read back as that list.
* `serializeSignatureParams_inj`: so the text determines the list.
* `parseSignatureInputDict_text`: a dictionary of one member is read back.
* `paramRound_advances`, `componentRound_advances`: no round of these loops stands still.
-/

namespace PageSpeed

open Wire Wire.Scan Sfv List Yields
open Inet (isDigit numeral decimal digitValue)

/-! ## Well-formed values -/

namespace Sfv

/-- A character that may stand in a string. -/
def isStringByte (c : UInt8) : Bool := ¬ (c < 0x20 ∨ c = 0x7f)

/-- A first character and further ones. -/
def Word (first more : UInt8 → Bool) (s : Bytes) : Prop :=
  ∃ c cs, s = c :: cs ∧ first c = true ∧ ∀ x ∈ cs, more x = true

end Sfv

/-- The values that can be written; false has no form as a parameter. -/
def SfvValue.WellFormed : SfvValue → Prop
  | .kInteger v => v.natAbs < 10 ^ 15
  | .kString s => ∀ c ∈ s, isStringByte c = true
  | .kToken s => Word isTokenStart isTokenChar s
  | .kBoolean b => b = true

/-- A parameter that can be written. -/
structure SfvParam.WellFormed (p : SfvParam) : Prop where
  name : Word isKeyStart isKeyChar p.name
  value : p.value.WellFormed

/-- A list that can be written. -/
structure SfvInnerList.WellFormed (list : SfvInnerList) : Prop where
  components : ∀ s ∈ list.components, ∀ c ∈ s, isStringByte c = true
  params : ∀ p ∈ list.params, p.WellFormed

/-- A member that can be written. -/
structure SfvDictMember.WellFormed (m : SfvDictMember) : Prop where
  label : Word isKeyStart isKeyChar m.label
  inner : m.inner.WellFormed

/-! ## Numbers -/

variable {c : UInt8}

namespace Sfv

theorem decimal_eq (n : ℕ) :
    decimal n = if n < 10 then [UInt8.ofNat n.digitChar.toNat]
      else decimal (n / 10) ++ [UInt8.ofNat (n % 10).digitChar.toNat] := by
  unfold decimal
  rw [Nat.toDigits_eq_if (by decide)]
  split <;> simp

theorem digit_spec : ∀ d < 10, isDigit (UInt8.ofNat (Nat.digitChar d).toNat) = true ∧
    digitValue (UInt8.ofNat (Nat.digitChar d).toNat) = d := by
  decide

/-- The digits of a number are digits and stand for it. -/
theorem decimal_spec (n : ℕ) : (∀ c ∈ decimal n, isDigit c = true) ∧
    numeral 10 (decimal n) = n := by
  induction n using Nat.strong_induction_on with
  | _ n ih =>
    rw [decimal_eq]
    split
    · rename_i h
      obtain ⟨hd, hv⟩ := digit_spec n h
      exact ⟨by simpa using hd, by simpa [numeral] using hv⟩
    · rename_i h
      obtain ⟨hdigits, hvalue⟩ := ih (n / 10) (by omega)
      obtain ⟨hd, hv⟩ := digit_spec (n % 10) (Nat.mod_lt _ (by decide))
      constructor
      · exact forall_mem_append.2 ⟨hdigits, forall_mem_singleton.2 hd⟩
      · rw [numeral, foldl_append, ← numeral, hvalue, foldl_cons, foldl_nil, hv]
        omega

theorem length_decimal {n : ℕ} (h : n < 10 ^ 15) : (decimal n).length ≤ 15 := by
  simpa [decimal] using (Nat.length_toDigits_le_iff (by decide) (by decide)).2 h

theorem decimal_ne_nil (n : ℕ) : decimal n ≠ [] := by
  simp [decimal, Nat.toDigits_ne_nil]

theorem digitValue_le (h : isDigit c = true) : digitValue c ≤ 9 := by
  have h9 : c ≥ ch '0' ∧ c ≤ ch '9' := of_decide_eq_true h
  have hle : c.toNat ≤ 57 := h9.2
  rw [digitValue, hexDigitValue, if_pos h9, Option.getD_some]
  exact Nat.sub_le_sub_right hle 48

/-- A number is bounded by its length. -/
theorem numeral_lt_of_digits (s : Bytes) (h : ∀ c ∈ s, isDigit c = true) :
    numeral 10 s < 10 ^ s.length := by
  induction s using reverseRecOn with
  | nil => decide
  | append_singleton s c ih =>
    have hlast := digitValue_le (h c (by simp))
    have hinit := ih fun x hx => h x (by simp [hx])
    rw [numeral, foldl_append, ← numeral, foldl_cons, foldl_nil, length_append, pow_add]
    simp only [length_cons, length_nil]
    omega

/-! ## What the parser returns -/

/-- A word has the shape of one. -/
theorem word_yields (first more : UInt8 → Bool) : Yields (word first more) (Word first more) :=
  (Yields.item first).bind fun c hc => (Yields.span more).bind fun cs hcs =>
    pure ⟨c, cs, rfl, hc, hcs⟩

/-- A string has only characters that may stand in it. -/
theorem stringBody_spec (s : Bytes) : ∀ a t, stringBody s = some (a, t) →
    (∀ c ∈ a, isStringByte c = true) ∧ t.length ≤ s.length := by
  fun_induction stringBody s with
  | case1 => intro a t h; cases h
  | case2 => intro a t h; cases h
  | case3 => intro a t h; cases h
  | case4 e rest he ih =>
    intro a t h
    obtain ⟨r, hr, heq⟩ := Option.map_eq_some_iff.1 h
    cases heq
    obtain ⟨hbytes, hle⟩ := ih r.1 r.2 hr
    refine ⟨forall_mem_cons.2 ⟨?_, hbytes⟩, hle.trans (by simp only [length_cons]; omega)⟩
    by_contra hbyte
    refine he ⟨?_, ?_⟩ <;> rintro rfl <;> exact hbyte (by decide)
  | case5 =>
    intro a t h
    cases h
    simp
  | case6 => intro a t h; cases h
  | case7 c rest hesc hquote hctl ih =>
    intro a t h
    obtain ⟨r, hr, heq⟩ := Option.map_eq_some_iff.1 h
    cases heq
    obtain ⟨hbytes, hle⟩ := ih r.1 r.2 hr
    exact ⟨forall_mem_cons.2 ⟨by simpa [isStringByte] using hctl, hbytes⟩,
      hle.trans (Nat.le_succ _)⟩

theorem parseString_yields : Yields parseString fun s => ∀ c ∈ s, isStringByte c = true :=
  skip fun _ s a t h => (stringBody_spec s a t h).1

/-- An integer has at most 15 digits. -/
theorem parseInteger_yields : Yields parseInteger fun v => v.natAbs < 10 ^ 15 := by
  refine Yields.skip fun neg => (Yields.span isDigit).bind fun digits hdigits => ?_
  split
  · exact Yields.fail
  · rename_i hlen
    rw [not_or, not_lt] at hlen
    have hlt :=
      (numeral_lt_of_digits digits hdigits).trans_le (Nat.pow_le_pow_right (by decide) hlen.2)
    refine pure ?_
    split <;> simpa using hlt

/-- A value that is read is well formed. -/
theorem parseValue_yields : Yields parseValue SfvValue.WellFormed := by
  refine skip fun c => ?_
  split
  · exact parseString_yields.bind fun s hs => pure hs
  split
  · exact parseInteger_yields.bind fun v hv => pure hv
  split
  · exact (word_yields _ _).bind fun s hs => pure hs
  · exact fail

/-- So is a parameter. -/
theorem parseParam_yields : Yields parseParam SfvParam.WellFormed := by
  refine skip fun _ => (word_yields _ _).bind fun name hname => skip fun b => ?_
  cases b with
  | true => exact parseValue_yields.bind fun v hv => pure ⟨hname, hv⟩
  | false => exact pure ⟨hname, rfl⟩

theorem parseParams_yields : Yields parseParams fun ps => ∀ p ∈ ps, p.WellFormed := by
  -- the parameters read so far are well formed
  refine loop_yields (I := fun ps => ∀ p ∈ ps, p.WellFormed)
    (fun ps hps => skip fun b => ?_) (by simp)
  cases b with
  | true =>
    refine parseParam_yields.bind fun p hp => pure fun q hq => ?_
    rcases mem_append.1 hq with hq | hq
    · exact hps q hq
    · rw [mem_singleton.1 hq]
      exact hp
  | false => exact pure hps

/-- So is a list. -/
theorem parseInnerList_yields : Yields parseInnerList SfvInnerList.WellFormed := by
  refine skip fun _ => skip fun _ => bind (P := SfvInnerList.WellFormed)
    (loop_yields (I := SfvInnerList.WellFormed) (fun list hlist => skip fun c => ?_)
      ⟨by simp, by simp⟩)
    fun list hlist => skip fun _ => parseParams_yields.bind fun ps hps =>
      pure ⟨hlist.components, hps⟩
  split
  · exact pure hlist
  · refine parseString_yields.bind fun s hs => skip fun ps => skip fun _ => pure ⟨?_, hlist.params⟩
    exact forall_mem_append.2 ⟨hlist.components, forall_mem_singleton.2 hs⟩

end Sfv

/-- Every member of a parsed dictionary is well formed. -/
theorem wellFormed_of_parse {value : Bytes} {members : List SfvDictMember}
    (h : parseSignatureInputDict value = some members) : ∀ m ∈ members, m.WellFormed := by
  have hmembers : Yields (loop memberRound []) fun ms : List SfvDictMember => ∀ m ∈ ms,
      m.WellFormed := by
    -- the members read so far are well formed
    refine loop_yields (I := fun ms => ∀ m ∈ ms, m.WellFormed) (fun ms hms => ?_) (by simp)
    refine skip fun _ => (word_yields _ _).bind fun label hlabel => skip fun _ =>
      parseInnerList_yields.bind fun inner hinner => ?_
    have hall : ∀ m ∈ ms ++ [(⟨label, inner⟩ : SfvDictMember)], m.WellFormed := by
      exact forall_mem_append.2 ⟨hms, forall_mem_singleton.2 ⟨hlabel, hinner⟩⟩
    split
    · exact fail
    split
    · exact fail
    refine skip fun _ => skip fun b => ?_
    cases b with
    | true => exact pure hall
    | false => exact skip fun _ => pure hall
  obtain ⟨r, hr, rfl⟩ := Option.map_eq_some_iff.1 h
  exact hmembers _ _ _ hr

/-! ## Reading back -/

namespace Sfv

theorem Word.stops {first more q : UInt8 → Bool} {w : Bytes} (hw : Word first more w)
    (h : ∀ c, first c = true → q c = false) (rest : Bytes) : Stops q (w ++ rest) := by
  obtain ⟨c, cs, rfl, hc, -⟩ := hw
  exact stops_cons (h c hc)

theorem skipSpaces_reads : Reads skipSpaces (Stops isBlank) [] () :=
  (Reads.span (t := []) (by simp)).bind_end (Reads.pure ())

theorem skipSpaces_space : Reads skipSpaces (Stops isBlank) [ch ' '] () :=
  (Reads.span (q := isBlank) (t := [ch ' ']) (by simp [isBlank])).bind_end (Reads.pure ())

/-- A word is read up to what ends it. -/
theorem word_reads {first more : UInt8 → Bool} {w : Bytes} (hw : Word first more w) :
    Reads (word first more) (Stops more) w w := by
  obtain ⟨c, cs, rfl, hc, hcs⟩ := hw
  exact Reads.bind' [c] cs (Reads.item hc) ((Reads.span hcs).bind_end (Reads.pure _))

theorem stringBody_cons (c : UInt8) (rest : Bytes) :
    stringBody (c :: rest) =
      if c = ch '\\' then
        match rest with
        | [] => none
        | e :: rest =>
          if e ≠ ch '"' ∧ e ≠ ch '\\' then none else (stringBody rest).map fun r => (e :: r.1, r.2)
      else if c = ch '"' then some ([], rest)
      else if c < 0x20 ∨ c = 0x7f then none
      else (stringBody rest).map fun r => (c :: r.1, r.2) :=
  stringBody.eq_def (c :: rest)

/-- A character that was escaped is read back. -/
theorem stringBody_escape (hc : isStringByte c = true) (s : Bytes) :
    stringBody (escapeChar c ++ s) = (stringBody s).map fun r => (c :: r.1, r.2) := by
  unfold escapeChar
  split
  · rename_i h
    rw [cons_append, cons_append, nil_append, stringBody_cons, if_pos rfl]
    exact if_neg (by tauto)
  · rename_i h
    rw [not_or] at h
    have hctl : ¬ (c < 0x20 ∨ c = 0x7f) := by simpa [isStringByte] using hc
    rw [cons_append, nil_append, stringBody_cons, if_neg h.2, if_neg h.1, if_neg hctl]

variable {s : Bytes} {ps : List SfvParam}

/-- A string is read back. -/
theorem parseString_reads (hs : ∀ c ∈ s, isStringByte c = true) :
    Reads parseString (fun _ => True) (serializeString s) s := by
  have hbody : Reads stringBody (fun _ => True) (s.flatMap escapeChar ++ [ch '"']) s := by
    intro rest _
    induction s with
    | nil => exact (stringBody_cons _ _).trans (by rw [if_neg (by decide), if_pos rfl]; rfl)
    | cons c s ih =>
      rw [forall_mem_cons] at hs
      rw [flatMap_cons, append_assoc, append_assoc, stringBody_escape hs.1, ← append_assoc,
        ih hs.2]
      rfl
  rw [serializeString, append_assoc]
  exact Reads.bind' _ _ (Reads.expect _) hbody

/-- An integer is read back. -/
theorem parseInteger_reads {v : ℤ} (hv : v.natAbs < 10 ^ 15) :
    Reads parseInteger (Stops isDigit) (signedDecimal v) v := by
  obtain ⟨hdigits, hvalue⟩ := decimal_spec v.natAbs
  have hlen : ¬ (decimal v.natAbs = [] ∨ (decimal v.natAbs).length > 15) :=
    not_or.2 ⟨decimal_ne_nil _, not_lt.2 (length_decimal hv)⟩
  unfold signedDecimal
  split
  · refine Reads.bind' _ _ (Reads.consume _) ((Reads.span hdigits).bind_end ?_)
    rw [if_neg hlen, hvalue, if_pos rfl, show -(v.natAbs : ℤ) = v by omega]
    exact Reads.pure v
  · refine Reads.bind _ _ (Reads.not_consume _) ((Reads.span hdigits).bind_end ?_) fun rest _ => ?_
    · rw [if_neg hlen, hvalue, if_neg (by decide), show (v.natAbs : ℤ) = v by omega]
      exact Reads.pure v
    · -- a digit is no minus sign
      obtain ⟨c, cs, hc⟩ := exists_cons_of_ne_nil (decimal_ne_nil v.natAbs)
      rw [hc] at hdigits ⊢
      refine stops_cons (decide_eq_false ?_)
      rintro rfl
      exact absurd (hdigits _ mem_cons_self) (by decide)

/-- A byte that could belong to a parameter. -/
def isParamByte (c : UInt8) : Bool := isTokenChar c ∨ c = ch '='

/-- A byte that could belong to a list of parameters. -/
def isListByte (c : UInt8) : Bool := isParamByte c ∨ c = ch ';'

theorem isTokenChar_of_digit (h : isDigit c = true) : isTokenChar c = true :=
  decide_eq_true (.inr (.inl h))

theorem isTokenChar_of_key (h : isKeyChar c = true) : isTokenChar c = true := by
  have hspecial : lit "_-.*" ⊆ lit "_-.:/*" := by simp [lit]
  rcases of_decide_eq_true h with h | h | h
  · exact decide_eq_true (.inl (decide_eq_true (.inl h)))
  · exact isTokenChar_of_digit h
  · exact decide_eq_true (.inr (.inr (hspecial h)))

/-- What ends a parameter ends every kind of value. -/
theorem stops_of_param (c : UInt8) (h : isParamByte c = false) :
    isDigit c = false ∧ isKeyChar c = false ∧ isTokenChar c = false ∧
      decide (c = ch '=') = false := by
  obtain ⟨htoken, heq⟩ := not_or.1 (of_decide_eq_false h)
  rw [Bool.not_eq_true] at htoken
  refine ⟨?_, ?_, htoken, decide_eq_false heq⟩
  · exact Bool.eq_false_iff.2 fun hd => absurd (isTokenChar_of_digit hd) (by simp [htoken])
  · exact Bool.eq_false_iff.2 fun hk => absurd (isTokenChar_of_key hk) (by simp [htoken])

theorem stops_of_list (c : UInt8) (h : isListByte c = false) : isParamByte c = false ∧
    decide (c = ch ';') = false := by
  obtain ⟨hparam, hsemi⟩ := not_or.1 (of_decide_eq_false h)
  exact ⟨Bool.not_eq_true _ ▸ hparam, decide_eq_false hsemi⟩

theorem parseValue_string (hs : ∀ c ∈ s, isStringByte c = true) :
    Reads parseValue (Stops isParamByte) (serializeString s) (.kString s) := by
  refine Reads.peek (c := ch '"') ?_
  rw [if_pos rfl]
  exact Reads.bind_end (fun rest _ => parseString_reads hs rest trivial) (Reads.pure _)

theorem parseValue_integer {v : ℤ} (hv : v.natAbs < 10 ^ 15) :
    Reads parseValue (Stops isParamByte) (signedDecimal v) (.kInteger v) := by
  -- the first character is a minus sign or a digit
  obtain ⟨c, cs, hcs, hc⟩ : ∃ c cs, signedDecimal v = c :: cs ∧
      (c = ch '-' ∨ isDigit c = true) := by
    obtain ⟨d, ds, hds⟩ := exists_cons_of_ne_nil (decimal_ne_nil v.natAbs)
    have hd := (decimal_spec v.natAbs).1 d (by simp [hds])
    unfold signedDecimal
    split
    · exact ⟨ch '-', _, rfl, .inl rfl⟩
    · exact ⟨d, ds, hds, .inr hd⟩
  have hreads := parseInteger_reads hv
  rw [hcs] at hreads ⊢
  have hquote : c ≠ ch '"' := by
    rintro rfl
    exact absurd hc (by decide)
  refine Reads.peek ?_
  rw [if_neg (by simpa using hquote), if_pos (by simpa using hc)]
  exact Reads.bind_end (fun rest hrest =>
    hreads rest (hrest.mono fun c hc => (stops_of_param c hc).1)) (Reads.pure _)

/-- A token is read back. -/
theorem parseValue_token (hs : Word isTokenStart isTokenChar s) :
    Reads parseValue (Stops isParamByte) s (.kToken s) := by
  have hreads := word_reads hs
  obtain ⟨c, cs, rfl, hc, -⟩ := hs
  have key : ∀ c : UInt8, isTokenStart c = true → c ≠ ch '"' ∧ c ≠ ch '-' ∧ isDigit c = false := by
    decide +kernel
  obtain ⟨h1, h2, h3⟩ := key c hc
  refine Reads.peek ?_
  rw [if_neg (by simpa using h1), if_neg (by simp [h2, h3]), if_pos (by simpa using hc)]
  exact Reads.bind_end (fun rest hrest =>
    hreads rest (hrest.mono fun c hc => (stops_of_param c hc).2.2.1))
    (Reads.pure _)

theorem isBlank_of_keyStart (c : UInt8) (hc : isKeyStart c = true) : isBlank c = false := by
  refine decide_eq_false ?_
  rintro (rfl | rfl) <;> exact absurd hc (by decide)

/-- A parameter is read back. -/
theorem parseParam_reads {p : SfvParam} (hp : p.WellFormed) :
    Reads parseParam (Stops isParamByte) (p.name ++ serializeValue p.value) p := by
  refine Reads.bind [] (p.name ++ serializeValue p.value) skipSpaces_reads
    (Reads.bind p.name _ (word_reads hp.name) ?_ fun rest hrest => ?_) fun rest _ => ?_
  · obtain ⟨name, value⟩ := p
    cases value with
    | kInteger v =>
      exact Reads.bind' [ch '='] _ (Reads.consume _)
        ((parseValue_integer hp.value).bind_end (Reads.pure _))
    | kString s =>
      exact Reads.bind' [ch '='] _ (Reads.consume _)
        ((parseValue_string hp.value).bind_end (Reads.pure _))
    | kToken s =>
      exact Reads.bind' [ch '='] _ (Reads.consume _)
        ((parseValue_token hp.value).bind_end (Reads.pure _))
    | kBoolean b =>
      obtain rfl : b = true := hp.value
      exact Reads.bind [] [] (Reads.not_consume _) (Reads.pure _) fun rest hrest =>
        hrest.mono fun c hc => (stops_of_param c hc).2.2.2
  · -- behind the name comes an equals sign, or what follows the parameter
    cases p.value with
    | kBoolean b => exact hrest.mono fun c hc => (stops_of_param c hc).2.1
    | kInteger v => exact stops_cons (by decide)
    | kString s => exact stops_cons (by decide)
    | kToken s => exact stops_cons (by decide)
  · rw [append_assoc]
    exact hp.name.stops isBlank_of_keyStart _

/-! ## Progress -/

theorem parseKey_consumes : Consumes parseKey :=
  (Consumes.item _).bind_left fun _ => (Shrinks.span _).bind fun _ => Shrinks.pure _

theorem skipSpaces_shrinks : Shrinks skipSpaces := (Shrinks.span _).bind fun _ => Shrinks.pure _

theorem parseString_consumes : Consumes parseString :=
  (Consumes.expect _).bind_left fun _ s a t h => (stringBody_spec s a t h).2

/-- A value never takes more than there is. -/
theorem parseValue_shrinks : Shrinks parseValue := by
  refine Shrinks.peek.bind fun c => ?_
  split
  · exact parseString_consumes.shrinks.bind fun _ => Shrinks.pure _
  split
  · refine Shrinks.bind ((Shrinks.consume _).bind fun _ => (Shrinks.span _).bind fun _ => ?_)
      fun _ => Shrinks.pure _
    split
    · exact Shrinks.fail
    · exact Shrinks.pure _
  split
  · exact Shrinks.bind ((Consumes.item _).shrinks.bind fun _ => (Shrinks.span _).bind fun _ =>
      Shrinks.pure _)
      fun _ => Shrinks.pure _
  · exact Shrinks.fail

theorem parseParam_shrinks : Shrinks parseParam := by
  refine skipSpaces_shrinks.bind fun _ => parseKey_consumes.shrinks.bind fun _ =>
    (Shrinks.consume _).bind fun b => ?_
  cases b with
  | true => exact parseValue_shrinks.bind fun _ => Shrinks.pure _
  | false => exact Shrinks.pure _

theorem paramRound_shrinks (ps : List SfvParam) : Shrinks (paramRound ps) := by
  refine (Shrinks.consume _).bind fun b => ?_
  cases b with
  | true => exact parseParam_shrinks.bind fun _ => Shrinks.pure _
  | false => exact Shrinks.pure _

/-- Every round takes something. -/
theorem paramRound_advances : Advances paramRound := by
  intro ps s ps' t h
  obtain ⟨b, u, hb, hrest⟩ := bind_eq_some.1 h
  cases b with
  | true =>
    have hle := (parseParam_shrinks.bind fun p => Shrinks.pure _) u _ t hrest
    exact hle.trans_lt (length_of_consume hb)
  | false => cases hrest

/-- So does every component. -/
theorem componentRound_advances : Advances componentRound := by
  intro list s list' t h
  obtain ⟨c, u, hc, hrest⟩ := bind_eq_some.1 h
  cases hc
  split at hrest
  · cases hrest
  · exact (parseString_consumes.bind_left fun _ =>
      (loop_shrinks paramRound_shrinks []).bind fun _ =>
      skipSpaces_shrinks.bind fun _ => Shrinks.pure _) _ _ t hrest

/-! ## Lists -/

/-- Parameters are read back one by one. -/
theorem parseParams_loop (hps : ∀ p ∈ ps, p.WellFormed) (acc : List SfvParam) :
    Reads (loop paramRound acc) (Stops isListByte) (ps.flatMap serializeParam) (acc ++ ps) := by
  intro rest hrest
  induction ps generalizing acc with
  | nil =>
    have hround : Reads (paramRound acc) (Stops isListByte) [] (.inr acc) :=
      Reads.bind [] [] (Reads.not_consume _) (Reads.pure _) fun rest hrest =>
        hrest.mono fun c hc => (stops_of_list c hc).2
    rw [append_nil]
    exact loop_done (hround rest hrest)
  | cons p ps ih =>
    rw [forall_mem_cons] at hps
    have hround : Reads (paramRound acc) (Stops isParamByte) (serializeParam p)
        (.inl (acc ++ [p])) := by
      rw [serializeParam, append_assoc]
      exact Reads.bind' _ _ (Reads.consume _) ((parseParam_reads hps.1).bind_end (Reads.pure _))
    -- the next parameter starts with its semicolon
    have hfollow : Stops isParamByte (ps.flatMap serializeParam ++ rest) := by
      cases ps with
      | nil => exact hrest.mono fun c hc => (stops_of_list c hc).1
      | cons q qs => exact stops_cons (by decide)
    rw [flatMap_cons, append_assoc, loop_step paramRound_advances (hround _ hfollow), ih hps.2,
      append_assoc]
    rfl

theorem parseParams_reads (hps : ∀ p ∈ ps, p.WellFormed) :
    Reads parseParams (Stops isListByte) (ps.flatMap serializeParam) ps :=
  parseParams_loop hps []

/-- A component without parameters, with the blank behind it. -/
theorem componentRound_reads (list : SfvInnerList) (hs : ∀ c ∈ s, isStringByte c = true)
    {sep rest : Bytes} (hsep : sep = [] ∨ sep = [ch ' '])
    (hrest : Stops (fun c => isListByte c ∨ isBlank c) rest) :
    componentRound list (serializeString s ++ (sep ++ rest)) =
      some (.inl { list with components := list.components ++ [s] }, rest) := by
  have hlist : Stops isListByte (sep ++ rest) := by
    rcases hsep with rfl | rfl
    · exact hrest.mono fun c hc => by simp_all
    · exact stops_cons (by decide)
  have hblank : skipSpaces (sep ++ rest) = some ((), rest) := by
    have hstop : Stops isBlank rest := hrest.mono fun c hc => by simp_all
    rcases hsep with rfl | rfl
    · exact skipSpaces_reads rest hstop
    · exact skipSpaces_space rest hstop
  have hparams : parseParams (sep ++ rest) = some ([], sep ++ rest) :=
    parseParams_loop (forall_mem_nil _) [] _ hlist
  unfold componentRound
  rw [bind_apply, show peek (serializeString s ++ (sep ++ rest)) = some (some (ch '"'), _) from rfl]
  simp only [Option.bind_some]
  rw [if_neg (by decide), bind_apply, parseString_reads hs _ trivial]
  simp only [Option.bind_some, bind_apply, hparams, hblank, pure_apply]
  simp

/-- The text of the components of a list. -/
def componentsText (ss : List Bytes) : Bytes := [ch ' '].intercalate (ss.map serializeString)

/-- It starts with a quote, or it is empty and the bracket comes. -/
theorem stops_componentsText (ss : List Bytes) {rest : Bytes} (hrest : rest.head? = some (ch ')')) :
    Stops (fun c => isListByte c ∨ isBlank c) (componentsText ss ++ rest) := by
  match ss with
  | [] =>
    intro c hc
    obtain rfl := Option.some.inj (hrest.symm.trans hc)
    decide
  | [s] => exact stops_cons (c := ch '"') (by decide)
  | s :: s' :: ss => exact stops_cons (c := ch '"') (by decide)

/-- So are components. -/
theorem components_loop {ss : List Bytes} (hss : ∀ s ∈ ss, ∀ c ∈ s, isStringByte c = true)
    (list : SfvInnerList) :
    Reads (loop componentRound list) (fun rest => rest.head? = some (ch ')')) (componentsText ss)
      { list with components := list.components ++ ss } := by
  intro rest hrest
  induction ss generalizing list with
  | nil =>
    rw [append_nil]
    refine loop_done ?_
    unfold componentRound
    rw [bind_apply, show peek (componentsText [] ++ rest) =
      some (some (ch ')'), rest) from by rw [← hrest]; rfl]
    rfl
  | cons s ss ih =>
    rw [forall_mem_cons] at hss
    have hnext := ih hss.2 { list with components := list.components ++ [s] }
    have hstops := stops_componentsText ss hrest
    rw [append_assoc, singleton_append] at hnext
    cases ss with
    | nil =>
      rw [componentsText, map_cons, map_nil, intercalate_singleton]
      exact (loop_step componentRound_advances
        (componentRound_reads list hss.1 (.inl rfl) hstops)).trans hnext
    | cons s' ss =>
      have hround := componentRound_reads list hss.1 (.inr rfl) hstops
      rw [componentsText, map_cons, map_cons, intercalate_cons_cons, append_assoc,
        append_assoc, ← map_cons, ← componentsText, loop_step componentRound_advances hround, hnext]

/-- **The text of a well-formed list is read back as that list.** -/
theorem parseInnerList_reads {list : SfvInnerList} (hlist : list.WellFormed)
    (hplain : list.anyComponentParams = false) :
    Reads parseInnerList (Stops isListByte) (serializeSignatureParams list) list := by
  obtain ⟨components, params, any⟩ := list
  obtain rfl : any = false := hplain
  rw [serializeSignatureParams, append_assoc, append_assoc]
  refine Reads.bind' [ch '('] _ (Reads.expect _)
    (Reads.bind [] (componentsText components ++ (_ ++ _))
    skipSpaces_reads (Reads.bind _ _ (components_loop hlist.components {})
      (Reads.bind' _ _ (Reads.expect _)
      ((parseParams_reads hlist.params).bind_end ?_)) fun rest _ => rfl) fun rest _ => ?_)
  · exact Reads.pure _
  · rw [append_assoc]
    exact (stops_componentsText components rfl).mono fun c hc => by simp_all

end Sfv

/-- **The serialised parameters determine the list**, but for the flag. -/
theorem serializeSignatureParams_inj {l l' : SfvInnerList} (hl : l.WellFormed) (hl' : l'.WellFormed)
    (h : serializeSignatureParams l = serializeSignatureParams l') :
    l.components = l'.components ∧ l.params = l'.params := by
  have hread : ∀ l : SfvInnerList, l.WellFormed →
      parseInnerList (serializeSignatureParams l ++ []) =
        some ({ l with anyComponentParams := false }, []) :=
    fun l hl => @parseInnerList_reads { l with anyComponentParams := false }
      ⟨hl.components, hl.params⟩ rfl [] nofun
  have heq := hread l hl
  rw [h, hread l' hl'] at heq
  obtain ⟨heq, -⟩ := Prod.mk.inj (Option.some.inj heq)
  injection heq with h1 h2
  exact ⟨h1.symm, h2.symm⟩

/-! ## Dictionaries of one member -/

/-- A member on its own, as the text of a `Signature-Input` value. -/
def SfvDictMember.text (m : SfvDictMember) : Bytes :=
  m.label ++ [ch '='] ++ serializeSignatureParams m.inner

/-- The member without what it remembers of parameters of its components. -/
def SfvDictMember.plain (m : SfvDictMember) : SfvDictMember :=
  { m with inner := { m.inner with anyComponentParams := false } }

variable {m : SfvDictMember}

theorem SfvDictMember.WellFormed.plain (hm : m.WellFormed) : m.plain.WellFormed :=
  ⟨hm.label, hm.inner.components, hm.inner.params⟩

/-- A member is plain if no component has parameters. -/
theorem SfvDictMember.plain_eq_iff : m.plain = m ↔ m.inner.anyComponentParams = false := by
  obtain ⟨label, components, params, any⟩ := m
  simp [SfvDictMember.plain, eq_comm]

/-- A member is read back. -/
theorem memberRound_reads (hm : m.WellFormed) (hplain : m.inner.anyComponentParams = false) :
    memberRound [] m.text = some (.inr [m], []) := by
  have hlabel : parseKey m.text = some (m.label, [ch '='] ++ serializeSignatureParams m.inner) := by
    rw [SfvDictMember.text, append_assoc]
    exact word_reads hm.label _ (stops_cons (by decide))
  have hspaces : skipSpaces m.text = some ((), m.text) := by
    refine skipSpaces_reads m.text ?_
    rw [SfvDictMember.text, append_assoc]
    exact hm.label.stops isBlank_of_keyStart _
  have hinner : parseInnerList (serializeSignatureParams m.inner) = some (m.inner, []) := by
    have h := parseInnerList_reads hm.inner hplain [] nofun
    rwa [append_nil] at h
  have hequals : expect (ch '=') ([ch '='] ++ serializeSignatureParams m.inner) =
      some ((), serializeSignatureParams m.inner) :=
    Reads.expect (F := fun _ => True) _ _ trivial
  unfold memberRound
  simp only [bind_apply, hspaces, hlabel, hequals, hinner, Option.bind_some]
  rfl

/-- So is a header with one. -/
theorem parse_text (hm : m.WellFormed) (hplain : m.inner.anyComponentParams = false) :
    parseSignatureInputDict m.text = some [m] := by
  rw [parseSignatureInputDict, loop_done (memberRound_reads hm hplain)]
  rfl

/-- **Round trip of a `Signature-Input` member.** A well-formed list is read back from its own
text. A member of an accepted value is read back from its text without its components' parameters;
so it is the same member just when it had none. -/
theorem parseSignatureInputDict_text :
    (∀ m : SfvDictMember, m.WellFormed → m.inner.anyComponentParams = false →
      parseSignatureInputDict m.text = some [m]) ∧
    ∀ value members, parseSignatureInputDict value = some members → ∀ m ∈ members,
      parseSignatureInputDict m.text = some [m.plain] ∧
      (parseSignatureInputDict m.text = some [m] ↔ m.inner.anyComponentParams = false) := by
  refine ⟨fun m hm hplain => parse_text hm hplain, fun value members h m hm => ?_⟩
  have hread : parseSignatureInputDict m.text = some [m.plain] :=
    parse_text (wellFormed_of_parse h m hm).plain rfl
  refine ⟨hread, ?_⟩
  rw [hread, Option.some_inj, cons_eq_cons, eq_self, and_true, SfvDictMember.plain_eq_iff]

/-- A header with blanks in the list. -/
theorem parseSignatureInputDict_text_sig :
    parseSignatureInputDict (lit "sig=( \"@authority\" );keyid=\"k\"") =
      some [⟨lit "sig", ⟨[lit "@authority"], [⟨lit "keyid", .kString (lit "k")⟩], false⟩⟩] ∧
    parseSignatureInputDict
        (SfvDictMember.text ⟨lit "sig",
          ⟨[lit "@authority"], [⟨lit "keyid", .kString (lit "k")⟩], false⟩⟩) =
      some [⟨lit "sig", ⟨[lit "@authority"], [⟨lit "keyid", .kString (lit "k")⟩], false⟩⟩] := by
  have h : parseSignatureInputDict (lit "sig=( \"@authority\" );keyid=\"k\"") =
      some [⟨lit "sig", ⟨[lit "@authority"], [⟨lit "keyid", .kString (lit "k")⟩], false⟩⟩] := by
    decide +kernel
  exact ⟨h, parseSignatureInputDict_text.1 _ (wellFormed_of_parse h _ mem_cons_self) rfl⟩

/-- A parameter of a component is not kept, and the tokens of the parser are not all there are. -/
theorem parseSignatureInputDict_component_params :
    (parseSignatureInputDict (lit "sig=(\"a\";x)") = some [⟨lit "sig", ⟨[lit "a"], [], true⟩⟩] ∧
      parseSignatureInputDict (SfvDictMember.text ⟨lit "sig", ⟨[lit "a"], [], true⟩⟩) =
        some [⟨lit "sig", ⟨[lit "a"], [], false⟩⟩]) ∧
    parseSignatureInputDict
      (SfvDictMember.text ⟨lit "sig", ⟨[lit "a"], [⟨lit "p", .kToken (lit "a+b")⟩], false⟩⟩) =
      none := by
  decide +kernel

end PageSpeed
