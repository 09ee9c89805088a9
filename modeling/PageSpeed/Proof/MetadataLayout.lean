import PageSpeed.Spec.Metadata

/-!
# What the metadata reader reads

The reader of alternate metadata is a sequence of bounds-checked reads interleaved with
size checks. This module gives it in closed form. `fields d` reads the blob `d` as a
record, each field at its offset and each field above the blob's version at its default;
`extent d` is the number of bytes the blob occupies; `Accepts d` are the checks.

* `deserialize_accepted`: an accepted blob gives `fields d`.
* `deserialize_refused`: any other blob is refused, without a fault.
-/

namespace PageSpeed.AlternateMetadata

open Wire Scalar

/-! ## The blob as a record -/

/-- The version of a block. -/
def wireVersion (d : Bytes) : UInt8 := scalarAt UInt8 d 0

/-- The offset of the suffix: the prefix and the content-type string come first. -/
def suffixAt (d : Bytes) : ℕ := kFixedPrefixSize + (scalarAt UInt16 d 7).toNat

/-- The wire length of the ETag; versions below 5 have none. -/
def wireEtagLen (d : Bytes) : ℕ :=
  if wireVersion d ≥ 5 then (scalarAt UInt16 d (suffixAt d + 21)).toNat else 0

/-- The offset of the V8 fields. -/
def v8At (d : Bytes) : ℕ := suffixAt d + 23 + wireEtagLen d + 4 + 2 * kHashSize

/-- The Cache-Control length field; versions below 8 have none. -/
def wireCc (d : Bytes) : UInt16 :=
  if wireVersion d ≥ 8 then scalarAt UInt16 d (v8At d + 8) else 0

/-- The number of bytes the blob occupies. -/
def extent (d : Bytes) : ℕ :=
  suffixAt d + suffixSize (wireVersion d) + wireEtagLen d + (wireCc d).toNat

/-- The hash at an offset. -/
def hashAt (d : Bytes) (off : ℕ) : Hash :=
  if h : off + kHashSize ≤ d.length then ⟨slice d off kHashSize, length_slice h⟩ else Hash.zero

/-- **The blob as a record**: fields above its version are at their defaults. -/
def fields (d : Bytes) : AlternateMetadata where
  version := wireVersion d
  fullMask := scalarAt UInt32 d 1
  contentType := (ContentType.ofByte? (scalarAt UInt8 d 5)).getD .kOther
  flags := scalarAt UInt8 d 6
  originContentType :=
    stripHeaderControlChars (slice d kFixedPrefixSize (scalarAt UInt16 d 7).toNat)
  wireCtLen := scalarAt UInt16 d 7
  wireCcLen := wireCc d
  cacheInsertedAt := scalarAt UInt32 d (suffixAt d)
  originMaxAge := scalarAt UInt32 d (suffixAt d + 4)
  originSMaxage := scalarAt UInt32 d (suffixAt d + 8)
  originCcFlags := scalarAt UInt16 d (suffixAt d + 12)
  ssimulacra2ScoreX100 :=
    if wireVersion d ≥ 4 then
      clampScore (isEncodedMask (scalarAt UInt32 d 1)) (scalarAt UInt16 d (suffixAt d + 14))
    else kScoreNA
  contentClass :=
    if wireVersion d ≥ 4 then clampContentClass (scalarAt UInt8 d (suffixAt d + 16))
    else kContentClassUnknown
  originLastModified := if wireVersion d ≥ 5 then scalarAt UInt32 d (suffixAt d + 17) else 0
  originEtag := slice d (suffixAt d + 23) (wireEtagLen d)
  originContentLength :=
    if wireVersion d ≥ 6 then scalarAt UInt32 d (suffixAt d + 23 + wireEtagLen d) else 0
  originHtmlHash :=
    if wireVersion d ≥ 7 then hashAt d (suffixAt d + 23 + wireEtagLen d + 4) else Hash.zero
  renderSourceHash :=
    if wireVersion d ≥ 7 then hashAt d (suffixAt d + 23 + wireEtagLen d + 4 + kHashSize)
    else Hash.zero
  originEpoch := if wireVersion d ≥ 8 then scalarAt UInt64 d (v8At d) else 0
  originCacheControl := stripHeaderControlChars (slice d (v8At d + 10) (wireCc d).toNat)
  consumedSize := extent d

/-- The bytes `IsRetired` looks at say "HTML, or worker-written Markdown, below version 9". -/
def Retired (d : Bytes) : Prop :=
  7 ≤ d.length ∧ 3 ≤ wireVersion d ∧ wireVersion d < 9 ∧
    (scalarAt UInt8 d 5 = ContentType.kHtml.toByte ∨
      (scalarAt UInt8 d 6 &&& kFlagWorkerProcessed) ≠ 0 ∧ scalarAt UInt8 d 1 = kAgentMarkdown)

instance (d : Bytes) : Decidable (Retired d) := by unfold Retired; infer_instance

/-- The checks of the reader. -/
structure Accepts (d : Bytes) : Prop where
  head : kFixedPrefixSize ≤ d.length
  version_ge : 3 ≤ wireVersion d
  version_le : wireVersion d ≤ kCurrentVersion
  contentType : ∃ t, ContentType.ofByte? (scalarAt UInt8 d 5) = some t
  current : ¬ Retired d
  ctLen : (scalarAt UInt16 d 7).toNat ≤ kMaxOriginCtLen
  ccLen : (wireCc d).toNat ≤ kMaxOriginCcLen
  fits : extent d ≤ d.length

/-! ## The reader in closed form -/

variable {d : Bytes} {m : AlternateMetadata} {off ctLen etagLen : ℕ}

/-- The check for a retired layout does not fail. -/
theorem isRetired_eq (d : Bytes) : isRetired d = .ok (decide (Retired d)) := by
  unfold isRetired Retired wireVersion
  by_cases h7 : d.length < 7
  · simp [h7, pure, Except.pure, show ¬ 7 ≤ d.length by omega]
  · have hr : ∀ i < 7, readByte d i = .ok (scalarAt UInt8 d i) :=
      fun i hi => readByte_eq (by omega)
    rw [hr 0 (by omega), hr 5 (by omega), hr 1 (by omega), hr 6 (by omega)]
    simp only [h7, if_false, bind, Except.bind, pure, Except.pure, show 7 ≤ d.length by omega,
      true_and]
    split_ifs with hv hc
    · congr 1; symm; rw [decide_eq_false_iff_not]; grind
    · congr 1; symm; rw [decide_eq_true_iff]; grind
    · congr 1; rw [decide_eq_decide]; grind

/-- The fields of version 3, if there is room for them. -/
theorem parseCacheControlFields_eq (h : off + 14 ≤ d.length) :
    m.parseCacheControlFields d off = .ok { m with
      cacheInsertedAt := scalarAt UInt32 d off
      originMaxAge := scalarAt UInt32 d (off + 4)
      originSMaxage := scalarAt UInt32 d (off + 8)
      originCcFlags := scalarAt UInt16 d (off + 12) } := by
  have w4 : width UInt32 = 4 := rfl
  unfold parseCacheControlFields
  rw [readScalar_eq (by omega), readScalar_eq (by omega), readScalar_eq (by omega),
    readScalar_eq (by omega)]
  rfl

/-- Those of version 4. -/
theorem parseV4Fields_eq (h : off + 17 ≤ d.length) :
    m.parseV4Fields d off = .ok { m with
      ssimulacra2ScoreX100 := clampScore m.isEncodedVariant (scalarAt UInt16 d (off + 14))
      contentClass := clampContentClass (scalarAt UInt8 d (off + 16)) } := by
  have w2 : width UInt16 = 2 := rfl
  unfold parseV4Fields
  rw [readScalar_eq (by omega), readByte_eq (by omega)]
  rfl

/-- The fixed suffix the V5 parser asks for is the version's suffix size. -/
theorem fixedSuffix_eq {v : UInt8} (h5 : v ≥ 5) :
    (if v ≥ 8 then kV8FixedSuffixSize else if v ≥ 7 then kV7FixedSuffixSize
      else if v ≥ 6 then kV6FixedSuffixSize else kV5FixedSuffixSize) = suffixSize v := by
  unfold suffixSize; simp only [h5, if_true]

/-- The fixed part has room for the fields of its version. -/
theorem suffixSize_ge (v : UInt8) : 14 ≤ suffixSize v ∧ (v ≥ 4 → 17 ≤ suffixSize v) ∧
    (v ≥ 5 → 23 ≤ suffixSize v) ∧ (v ≥ 6 → 27 ≤ suffixSize v) ∧
    (v ≥ 7 → 91 ≤ suffixSize v) ∧ (v ≥ 8 → suffixSize v = 101) := by
  unfold suffixSize kV8FixedSuffixSize kV7FixedSuffixSize kV6FixedSuffixSize kV5FixedSuffixSize
  split_ifs <;> refine ⟨?_, ?_, ?_, ?_, ?_, ?_⟩ <;> intros <;> first | omega | contradiction

theorem slice_zero (d : Bytes) (off : ℕ) : slice d off 0 = [] := by simp [slice]

/-- Those of version 5, with the entity tag. -/
theorem parseV5Fields_eq (ho : off = kFixedPrefixSize + ctLen) (h : off + 23 ≤ d.length)
    (h5 : m.version ≥ 5) (he : m.originEtag = []) {n : ℕ}
    (hn : n = (scalarAt UInt16 d (off + 21)).toNat) :
    m.parseV5Fields d off ctLen = .ok (if d.length < off + suffixSize m.version + n then none
      else some ({ m with
        originLastModified := scalarAt UInt32 d (off + 17)
        originEtag := slice d (off + 23) n }, n)) := by
  have w4 : width UInt32 = 4 := rfl
  have hs := (suffixSize_ge m.version).2.2.1 h5
  subst hn
  unfold parseV5Fields
  rw [readScalar_eq (by omega), readScalar_eq (by omega)]
  simp only [bind, Except.bind, pure, Except.pure, fixedSuffix_eq h5, ← ho]
  split_ifs with hlt hpos
  · rfl
  · rw [readAt_eq (by omega)]
  · have h0 : (scalarAt UInt16 d (off + 21)).toNat = 0 := by
      have : ¬ (0 : UInt16) < scalarAt UInt16 d (off + 21) := hpos
      rw [UInt16.lt_iff_toNat_lt] at this
      simpa using this
    rw [h0, slice_zero, he]

/-- That of version 6. -/
theorem parseV6Fields_eq (h : off + 27 + etagLen ≤ d.length) :
    m.parseV6Fields d off etagLen = .ok { m with
      originContentLength := scalarAt UInt32 d (off + 23 + etagLen) } := by
  have w4 : width UInt32 = 4 := rfl
  unfold parseV6Fields
  rw [readScalar_eq (by omega)]
  rfl

theorem readHash_eq (h : off + kHashSize ≤ d.length) : readHash d off = .ok (hashAt d off) := by
  rw [readHash, hashAt, dif_pos h, dif_pos h]

/-- Those of version 7. -/
theorem parseV7Fields_eq (h : off + 91 + etagLen ≤ d.length) :
    m.parseV7Fields d off etagLen = .ok { m with
      originHtmlHash := hashAt d (off + 23 + etagLen + 4)
      renderSourceHash := hashAt d (off + 23 + etagLen + 4 + kHashSize) } := by
  have hk : kHashSize = 32 := rfl
  unfold parseV7Fields
  dsimp only
  rw [readHash_eq (by omega), readHash_eq (by omega)]
  rfl

/-- Those of version 8, with the `Cache-Control` value. -/
theorem parseV8Fields_eq (ho : off = kFixedPrefixSize + ctLen) (h : off + 101 + etagLen ≤ d.length)
    (hc : m.originCacheControl = []) {base : ℕ} (hb : base = off + 23 + etagLen + 4 + 2 * kHashSize)
    {cc : UInt16} (hcc : cc = scalarAt UInt16 d (base + 8)) :
    m.parseV8Fields d off ctLen etagLen =
      .ok (if cc.toNat > kMaxOriginCcLen ∨ d.length < off + 101 + etagLen + cc.toNat then none
      else some { m with
        originEpoch := scalarAt UInt64 d base
        wireCcLen := cc
        originCacheControl := stripHeaderControlChars (slice d (base + 10) cc.toNat) }) := by
  have w8 : width UInt64 = 8 := rfl
  have w2 : width UInt16 = 2 := rfl
  have hk : kHashSize = 32 := rfl
  have hs : kV8FixedSuffixSize = 101 := rfl
  have r1 : readScalar UInt64 d base = .ok (scalarAt UInt64 d base) := readScalar_eq (by omega)
  have r2 : readScalar UInt16 d (base + 8) = .ok cc := by rw [readScalar_eq (by omega), hcc]
  unfold parseV8Fields
  simp only [← hb, r1, r2, bind, Except.bind, pure, Except.pure, ← ho, hs]
  split_ifs with h1 h2 h3 h4 h5 h6 h7 <;> try first | rfl | (exfalso; omega)
  · rw [readAt_eq (by omega)]; rfl
  · have h0 : cc.toNat = 0 := by
      have : ¬ (0 : UInt16) < cc := by assumption
      rw [UInt16.lt_iff_toNat_lt] at this
      simpa using this
    rw [h0, slice_zero, hc]; rfl

/-! ## The stages -/

/-- The record after the prefix and the cache-control fields. -/
def upTo3 (d : Bytes) (t : ContentType) : AlternateMetadata where
  version := wireVersion d
  fullMask := scalarAt UInt32 d 1
  contentType := t
  flags := scalarAt UInt8 d 6
  originContentType :=
    stripHeaderControlChars (slice d kFixedPrefixSize (scalarAt UInt16 d 7).toNat)
  wireCtLen := scalarAt UInt16 d 7
  cacheInsertedAt := scalarAt UInt32 d (suffixAt d)
  originMaxAge := scalarAt UInt32 d (suffixAt d + 4)
  originSMaxage := scalarAt UInt32 d (suffixAt d + 8)
  originCcFlags := scalarAt UInt16 d (suffixAt d + 12)

/-- The fields up to version 4, the others at their defaults. -/
def upTo4 (d : Bytes) (t : ContentType) : AlternateMetadata :=
  { upTo3 d t with
    ssimulacra2ScoreX100 := (fields d).ssimulacra2ScoreX100
    contentClass := (fields d).contentClass }

/-- Up to version 5. -/
def upTo5 (d : Bytes) (t : ContentType) : AlternateMetadata :=
  { upTo4 d t with
    originLastModified := (fields d).originLastModified
    originEtag := (fields d).originEtag }

/-- Up to version 6. -/
def upTo6 (d : Bytes) (t : ContentType) : AlternateMetadata :=
  { upTo5 d t with originContentLength := (fields d).originContentLength }

/-- Up to version 7. -/
def upTo7 (d : Bytes) (t : ContentType) : AlternateMetadata :=
  { upTo6 d t with
    originHtmlHash := (fields d).originHtmlHash
    renderSourceHash := (fields d).renderSourceHash }

variable {t : ContentType}

/-- The stages of the reader: up to version 4. -/
theorem stage4 (h : suffixAt d + suffixSize (wireVersion d) ≤ d.length) :
    (upTo3 d t).since 4 ((upTo3 d t).parseV4Fields d (suffixAt d)) (upTo3 d t) =
      .ok (upTo4 d t) := by
  have s4 := (suffixSize_ge (wireVersion d)).2.1
  rw [since, show (upTo3 d t).version = wireVersion d from rfl]
  by_cases h4 : wireVersion d ≥ 4
  · rw [if_pos h4, parseV4Fields_eq (by have := s4 h4; omega)]
    simp only [upTo4, fields, if_pos h4]
    rfl
  · simp only [upTo4, fields, if_neg h4]
    rfl

theorem suffixAt_eq : suffixAt d = kFixedPrefixSize + (scalarAt UInt16 d 7).toNat := rfl

/-- Up to version 5; the entity tag may not fit. -/
theorem stage5 (h : suffixAt d + suffixSize (wireVersion d) ≤ d.length) :
    (upTo4 d t).since 5 ((upTo4 d t).parseV5Fields d (suffixAt d) (scalarAt UInt16 d 7).toNat)
      (some (upTo4 d t, 0)) =
      .ok (if d.length < suffixAt d + suffixSize (wireVersion d) + wireEtagLen d then none
        else some (upTo5 d t, wireEtagLen d)) := by
  have s5 := (suffixSize_ge (wireVersion d)).2.2.1
  rw [since, show (upTo4 d t).version = wireVersion d from rfl]
  by_cases h5 : wireVersion d ≥ 5
  · have hn : wireEtagLen d = (scalarAt UInt16 d (suffixAt d + 21)).toNat := by
      rw [wireEtagLen, if_pos h5]
    rw [if_pos h5, parseV5Fields_eq suffixAt_eq (by have := s5 h5; omega) h5 rfl hn]
    simp only [upTo5, fields, if_pos h5]
    rfl
  · have hn : wireEtagLen d = 0 := by rw [wireEtagLen, if_neg h5]
    rw [if_neg h5, if_neg (by omega)]
    simp only [upTo5, fields, if_neg h5, hn, slice_zero]
    rfl

/-- Up to version 6. -/
theorem stage6 (h : suffixAt d + suffixSize (wireVersion d) + wireEtagLen d ≤ d.length) :
    (upTo5 d t).since 6 ((upTo5 d t).parseV6Fields d (suffixAt d) (wireEtagLen d)) (upTo5 d t) =
      .ok (upTo6 d t) := by
  have s6 := (suffixSize_ge (wireVersion d)).2.2.2.1
  rw [since, show (upTo5 d t).version = wireVersion d from rfl]
  by_cases h6 : wireVersion d ≥ 6
  · rw [if_pos h6, parseV6Fields_eq (by have := s6 h6; omega)]
    simp only [upTo6, fields, if_pos h6]
  · simp only [upTo6, fields, if_neg h6]
    rfl

/-- Up to version 7. -/
theorem stage7 (h : suffixAt d + suffixSize (wireVersion d) + wireEtagLen d ≤ d.length) :
    (upTo6 d t).since 7 ((upTo6 d t).parseV7Fields d (suffixAt d) (wireEtagLen d)) (upTo6 d t) =
      .ok (upTo7 d t) := by
  have s7 := (suffixSize_ge (wireVersion d)).2.2.2.2.1
  rw [since, show (upTo6 d t).version = wireVersion d from rfl]
  by_cases h7 : wireVersion d ≥ 7
  · rw [if_pos h7, parseV7Fields_eq (by have := s7 h7; omega)]
    simp only [upTo7, fields, if_pos h7]
  · simp only [upTo7, fields, if_neg h7]
    rfl

/-- Up to version 8; the `Cache-Control` value may not fit. -/
theorem stage8 (ht : ContentType.ofByte? (scalarAt UInt8 d 5) = some t)
    (h : suffixAt d + suffixSize (wireVersion d) + wireEtagLen d ≤ d.length) :
    (upTo7 d t).since 8
        ((upTo7 d t).parseV8Fields d (suffixAt d) (scalarAt UInt16 d 7).toNat (wireEtagLen d))
        (some (upTo7 d t)) =
      .ok (if (wireCc d).toNat ≤ kMaxOriginCcLen ∧ extent d ≤ d.length
        then some { fields d with consumedSize := 0 } else none) := by
  have s8 := (suffixSize_ge (wireVersion d)).2.2.2.2.2
  have hb : v8At d = suffixAt d + 23 + wireEtagLen d + 4 + 2 * kHashSize := rfl
  have hct : (fields d).contentType = t := by simp [fields, ht]
  rw [since, show (upTo7 d t).version = wireVersion d from rfl]
  by_cases h8 : wireVersion d ≥ 8
  · have hs := s8 h8
    have hcc : wireCc d = scalarAt UInt16 d (v8At d + 8) := by rw [wireCc, if_pos h8]
    have hx : extent d = suffixAt d + 101 + wireEtagLen d + (wireCc d).toNat := by rw [extent, hs]
    rw [if_pos h8, parseV8Fields_eq suffixAt_eq (by omega) rfl hb hcc, ← hct]
    by_cases hc : (wireCc d).toNat ≤ kMaxOriginCcLen ∧ extent d ≤ d.length
    · rw [if_pos hc, if_neg (by omega)]
      simp only [upTo7, upTo6, upTo5, upTo4, upTo3, fields, if_pos h8]
    · rw [if_neg hc, if_pos (by omega)]
  · have hcc : wireCc d = 0 := by rw [wireCc, if_neg h8]
    have hx : extent d = suffixAt d + suffixSize (wireVersion d) + wireEtagLen d := by
      rw [extent, hcc]; rfl
    have hc : (wireCc d).toNat ≤ kMaxOriginCcLen ∧ extent d ≤ d.length :=
      ⟨by rw [hcc]; decide, by omega⟩
    rw [if_neg h8, if_pos hc, ← hct]
    simp only [upTo7, upTo6, upTo5, upTo4, upTo3, fields, if_neg h8, hcc]
    rw [show (0 : UInt16).toNat = 0 from rfl, slice_zero]
    rfl

/-- **The version-dependent fields.** They are refused exactly when a length in the blob
overruns it or the Cache-Control length is over its cap. -/
theorem parseVersionFields_eq (ht : ContentType.ofByte? (scalarAt UInt8 d 5) = some t)
    (h : suffixAt d + suffixSize (wireVersion d) ≤ d.length) :
    (upTo3 d t).parseVersionFields d (suffixAt d) (scalarAt UInt16 d 7).toNat =
      .ok (if (wireCc d).toNat ≤ kMaxOriginCcLen ∧ extent d ≤ d.length
        then some { fields d with consumedSize := 0 } else none) := by
  unfold parseVersionFields
  rw [stage4 h]
  simp only [bind, Except.bind]
  rw [stage5 h]
  by_cases hlt : d.length < suffixAt d + suffixSize (wireVersion d) + wireEtagLen d
  · have : ¬ extent d ≤ d.length := by unfold extent; omega
    simp only [if_pos hlt, this, and_false, if_false]
    rfl
  · simp only [if_neg hlt]
    rw [stage6 (not_lt.1 hlt)]
    simp only
    rw [stage7 (not_lt.1 hlt)]
    simp only
    rw [stage8 ht (not_lt.1 hlt)]

/-! ## The whole reader -/

/-- The suffix size is the sum of the sizes each version added. -/
theorem suffixSize_sum (v : UInt8) :
    suffixSize v = (4 + 4 + 4 + 2) + (if v ≥ 4 then 2 + 1 else 0) + (if v ≥ 5 then 4 + 2 else 0) +
      (if v ≥ 6 then 4 else 0) + (if v ≥ 7 then 64 else 0) + (if v ≥ 8 then 8 + 2 else 0) := by
  unfold suffixSize kV8FixedSuffixSize kV7FixedSuffixSize kV6FixedSuffixSize kV5FixedSuffixSize
  split_ifs <;> first | rfl | (exfalso; grind)

theorem length_originEtag (h : extent d ≤ d.length) :
    (fields d).originEtag.length = wireEtagLen d := by
  by_cases h5 : wireVersion d ≥ 5
  · have := (suffixSize_ge (wireVersion d)).2.2.1 h5
    exact length_slice (by unfold extent at h; omega)
  · have : wireEtagLen d = 0 := by rw [wireEtagLen, if_neg h5]
    simp only [fields, this, slice_zero, List.length_nil]

theorem wireCc_of_lt (h : ¬ wireVersion d ≥ 8) : (wireCc d).toNat = 0 := by
  rw [wireCc, if_neg h]; rfl

theorem wireEtagLen_of_lt (h : ¬ wireVersion d ≥ 5) : wireEtagLen d = 0 := by
  rw [wireEtagLen, if_neg h]

/-- The field-by-field count is the extent of the blob. -/
theorem consumed_eq (h : extent d ≤ d.length) :
    { fields d with consumedSize := 0 }.consumed (scalarAt UInt16 d 7).toNat = extent d := by
  have he : (slice d (suffixAt d + 23) (wireEtagLen d)).length = wireEtagLen d :=
    length_originEtag h
  have h5 := wireEtagLen_of_lt (d := d)
  have h8 := wireCc_of_lt (d := d)
  have hso : suffixAt d = 9 + (scalarAt UInt16 d 7).toNat := rfl
  simp only [consumed, fields, he, extent, suffixSize_sum]
  split_ifs <;> simp only [*, not_false_eq_true] at * <;> omega

/-- The size from the constants is the extent of the blob. -/
theorem wireSize_eq (h : extent d ≤ d.length) : (fields d).wireSize = extent d := by
  have he : (slice d (suffixAt d + 23) (wireEtagLen d)).length = wireEtagLen d :=
    length_originEtag h
  have h5 := wireEtagLen_of_lt (d := d)
  have h8 := wireCc_of_lt (d := d)
  have hso := suffixAt_eq (d := d)
  simp only [wireSize, fields, he, extent, suffixSize]
  split_ifs <;> simp only [*, not_false_eq_true, if_true, if_false] at * <;> omega

/-- The reader is a total function of the layout: the fields if they are accepted. -/
theorem deserialize_eq (d : Bytes) [Decidable (Accepts d)] :
    deserialize d = .ok (if Accepts d then some (fields d) else none) := by
  unfold deserialize
  -- the checks in the order of the source, each against one field of `Accepts`
  by_cases h9 : d.length < kFixedPrefixSize
  · have : ¬ Accepts d := fun h => by have := h.head; omega
    rw [if_pos h9, if_neg this]; rfl
  have hk : kFixedPrefixSize = 9 := rfl
  have hr : ∀ i < 9, readByte d i = .ok (scalarAt UInt8 d i) := fun i hi => readByte_eq (by omega)
  have r1 : readScalar UInt32 d 1 = .ok (scalarAt UInt32 d 1) :=
    readScalar_eq (by have : width UInt32 = 4 := rfl; omega)
  have r7 : readScalar UInt16 d 7 = .ok (scalarAt UInt16 d 7) :=
    readScalar_eq (by have : width UInt16 = 2 := rfl; omega)
  rw [if_neg h9, hr 0 (by omega)]
  simp only [bind, Except.bind, hr 5 (by omega), hr 6 (by omega), r1, r7, isRetired_eq]
  by_cases hv : scalarAt UInt8 d 0 < 3 ∨ scalarAt UInt8 d 0 > kCurrentVersion
  · have : ¬ Accepts d := by
      intro h
      have h1 : 3 ≤ scalarAt UInt8 d 0 := h.version_ge
      have h2 : scalarAt UInt8 d 0 ≤ kCurrentVersion := h.version_le
      rcases hv with hv | hv
      · exact absurd h1 (UInt8.not_le.2 hv)
      · exact absurd h2 (UInt8.not_le.2 hv)
    rw [if_pos hv, if_neg this]; rfl
  rw [if_neg hv]
  cases ht : ContentType.ofByte? (scalarAt UInt8 d 5) with
  | none =>
    have : ¬ Accepts d := by
      intro h
      obtain ⟨t, ht'⟩ := h.contentType
      rw [ht] at ht'; cases ht'
    rw [if_neg this]; rfl
  | some t =>
    simp only [decide_eq_true_eq]
    by_cases hret : Retired d
    · rw [if_pos hret, if_neg (fun h => h.current hret)]; rfl
    rw [if_neg hret]
    by_cases hct : (scalarAt UInt16 d 7).toNat > kMaxOriginCtLen
    · rw [if_pos hct, if_neg (fun h => by have := h.ctLen; omega)]; rfl
    rw [if_neg hct]
    -- behind the prefix, the rest of the layout depends on the version
    have hs14 := (suffixSize_ge (wireVersion d)).1
    have hso := suffixAt_eq (d := d)
    by_cases hfit : d.length < suffixAt d + suffixSize (wireVersion d)
    · have : ¬ Accepts d := fun h => by have := h.fits; unfold extent at this; omega
      rw [if_neg this]
      exact if_pos hfit
    have hfit' : ¬ d.length < kFixedPrefixSize + (scalarAt UInt16 d 7).toNat +
      suffixSize (scalarAt UInt8 d 0) := hfit
    rw [if_neg hfit', readAt_eq (by omega)]
    simp only [← hso]
    rw [parseCacheControlFields_eq (by omega)]
    have hp := parseVersionFields_eq ht (not_lt.1 hfit)
    simp only [upTo3, wireVersion] at hp
    simp only [hp]
    -- the two checks that are left, on the second length and on the whole extent
    by_cases hc : (wireCc d).toNat ≤ kMaxOriginCcLen ∧ extent d ≤ d.length
    · have hacc : Accepts d :=
        ⟨not_lt.1 h9, UInt8.not_lt.1 (fun h => hv (Or.inl h)),
          UInt8.not_lt.1 (fun h => hv (Or.inr h)), ⟨t, ht⟩, hret, not_lt.1 hct, hc.1, hc.2⟩
      rw [if_pos hc, if_pos hacc]
      simp only [consumed_eq hc.2]
      rfl
    · have : ¬ Accepts d := fun h => hc ⟨h.ccLen, h.fits⟩
      rw [if_neg hc, if_neg this]
      rfl

/-- **An accepted blob is read as the record of its fields.** -/
theorem deserialize_accepted (h : Accepts d) : deserialize d = .ok (some (fields d)) := by
  classical rw [deserialize_eq, if_pos h]

/-- **Any other blob is refused**, without a fault. -/
theorem deserialize_refused (h : ¬ Accepts d) : deserialize d = .ok none := by
  classical rw [deserialize_eq, if_neg h]

/-- What is read was accepted. -/
theorem accepts_of_deserialize (h : deserialize d = .ok (some m)) : Accepts d ∧ m = fields d := by
  by_cases ha : Accepts d
  · rw [deserialize_accepted ha] at h
    simp only [Except.ok.injEq, Option.some.injEq] at h
    exact ⟨ha, h.symm⟩
  · rw [deserialize_refused ha] at h; cases h

end PageSpeed.AlternateMetadata
