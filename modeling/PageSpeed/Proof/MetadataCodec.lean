import PageSpeed.Proof.MetadataLayout

/-!
# The metadata codec

* `serialize_eq`: the writer fills its buffer with exactly its fields.
* `deserialize_serialize`: what is written in front of any content is read back in
  normal form, and the content starts where the reader stops.
* `encodedOriginLength_set`: a stored encoded size comes back within its rounding error.
-/

namespace PageSpeed.AlternateMetadata

open Wire List

/-! ## The writer -/

variable (m : AlternateMetadata)

/-- The content-type string as it is stored. -/
def storedContentType : Bytes := (stripHeaderControlChars m.originContentType).take kMaxOriginCtLen

/-- The ETag as it is stored. -/
def storedEtag : Bytes := m.originEtag.take 65535

theorem toNat_ofNat_min (k n : ℕ) (hk : k < 65536) : (UInt16.ofNat (min k n)).toNat = min k n :=
  UInt16.toNat_ofNat_of_lt' (lt_of_le_of_lt (min_le_left k n) hk)

/-- What is stored of the values keeps their bounds. -/
theorem length_storedCacheControl : m.storedCacheControl.length ≤ kMaxOriginCcLen := by
  unfold storedCacheControl
  dsimp only
  split_ifs with h
  · simp
  · omega

theorem length_storedContentType : m.storedContentType.length ≤ kMaxOriginCtLen := by
  unfold storedContentType; rw [length_take]; omega

theorem length_storedEtag : m.storedEtag.length ≤ 65535 := by
  unfold storedEtag; rw [length_take]; omega

theorem toNat_length {s : Bytes} {k : ℕ} (hs : s.length ≤ k) (hk : k < 65536) :
    (UInt16.ofNat s.length).toNat = s.length :=
  UInt16.toNat_ofNat_of_lt' (lt_of_le_of_lt hs hk)

/-- The fields written, with the stored strings in place of their computations. -/
theorem serializeFields_eq : m.serializeFields =
    [Scalar.toLe kCurrentVersion, Scalar.toLe m.fullMask, Scalar.toLe m.contentType.toByte,
      Scalar.toLe m.flags, Scalar.toLe (UInt16.ofNat m.storedContentType.length),
      m.storedContentType,
      Scalar.toLe m.cacheInsertedAt, Scalar.toLe m.originMaxAge, Scalar.toLe m.originSMaxage,
      Scalar.toLe m.originCcFlags,
      Scalar.toLe m.ssimulacra2ScoreX100, Scalar.toLe m.contentClass,
      Scalar.toLe m.originLastModified, Scalar.toLe (UInt16.ofNat m.storedEtag.length),
      m.storedEtag, Scalar.toLe m.originContentLength,
      m.originHtmlHash.bytes, m.renderSourceHash.bytes,
      Scalar.toLe m.originEpoch, Scalar.toLe (UInt16.ofNat m.storedCacheControl.length),
      m.storedCacheControl] := by
  have h1 := toNat_ofNat_min kMaxOriginCtLen (stripHeaderControlChars m.originContentType).length
    (by decide)
  have h2 := toNat_ofNat_min 65535 m.originEtag.length (by decide)
  have h3 := toNat_length m.length_storedCacheControl (by decide)
  unfold serializeFields
  simp only [h1, h2, h3, storedContentType, storedEtag, length_take, take_length]
  rw [← take_eq_take_min, ← take_eq_take_min]

/-- The sizes of the fields written. -/
theorem serializeFields_sizes : m.serializeFields.map List.length =
    [1, 4, 1, 1, 2, m.storedContentType.length, 4, 4, 4, 2, 2, 1, 4, 2, m.storedEtag.length, 4,
      kHashSize, kHashSize, 8, 2, m.storedCacheControl.length] := by
  rw [serializeFields_eq]
  simp only [map_cons, map_nil, Scalar.length_toLe, Hash.length_eq, Scalar.width_uint8,
    Scalar.width_uint16, Scalar.width_uint32, Scalar.width_uint64]

/-- The size of the written fields. -/
theorem length_serializeFields : m.serializeFields.flatten.length =
    9 + m.storedContentType.length + 101 + m.storedEtag.length + m.storedCacheControl.length := by
  rw [length_flatten, serializeFields_sizes]
  simp only [sum_cons, sum_nil, kHashSize]
  omega

theorem serializedSize_eq : m.serializedSize =
    9 + m.storedContentType.length + 101 + m.storedEtag.length + m.storedCacheControl.length := by
  unfold serializedSize
  dsimp only
  rw [toNat_ofNat_min _ _ (by decide), toNat_ofNat_min _ _ (by decide),
    toNat_length m.length_storedCacheControl (by decide), storedContentType, storedEtag,
    length_take, length_take]
  rfl

/-- **The writer fills its buffer with exactly its fields.** -/
theorem serialize_eq : m.serialize = m.serializeFields.flatten := by
  have h := Cursor.Filled.start (List.replicate m.serializedSize 0)
  rw [length_replicate, serializedSize_eq, ← length_serializeFields] at h
  have := Cursor.writeAll_out m.serializeFields h
  rw [length_serializeFields, ← serializedSize_eq] at this
  simpa [serialize] using this

theorem length_serialize : m.serialize.length =
    9 + m.storedContentType.length + 101 + m.storedEtag.length + m.storedCacheControl.length := by
  rw [serialize_eq, length_serializeFields]

/-! ## Reading back what was written -/

/-- What a reader finds at each offset of a written blob. -/
structure Written (d : Bytes) : Prop where
  version : scalarAt UInt8 d 0 = kCurrentVersion
  mask : scalarAt UInt32 d 1 = m.fullMask
  contentType : scalarAt UInt8 d 5 = m.contentType.toByte
  flags : scalarAt UInt8 d 6 = m.flags
  ctLen : scalarAt UInt16 d 7 = UInt16.ofNat m.storedContentType.length
  ct : slice d 9 m.storedContentType.length = m.storedContentType
  inserted : scalarAt UInt32 d (9 + m.storedContentType.length) = m.cacheInsertedAt
  maxAge : scalarAt UInt32 d (9 + m.storedContentType.length + 4) = m.originMaxAge
  sMaxage : scalarAt UInt32 d (9 + m.storedContentType.length + 8) = m.originSMaxage
  ccFlags : scalarAt UInt16 d (9 + m.storedContentType.length + 12) = m.originCcFlags
  score : scalarAt UInt16 d (9 + m.storedContentType.length + 14) = m.ssimulacra2ScoreX100
  cls : scalarAt UInt8 d (9 + m.storedContentType.length + 16) = m.contentClass
  lastModified : scalarAt UInt32 d (9 + m.storedContentType.length + 17) = m.originLastModified
  etagLen : scalarAt UInt16 d (9 + m.storedContentType.length + 21) =
    UInt16.ofNat m.storedEtag.length
  etag : slice d (9 + m.storedContentType.length + 23) m.storedEtag.length = m.storedEtag
  length : scalarAt UInt32 d (9 + m.storedContentType.length + 23 + m.storedEtag.length) =
    m.originContentLength
  html : slice d (9 + m.storedContentType.length + 23 + m.storedEtag.length + 4) kHashSize =
    m.originHtmlHash.bytes
  source : slice d (9 + m.storedContentType.length + 23 + m.storedEtag.length + 4 + kHashSize)
    kHashSize = m.renderSourceHash.bytes
  epoch : scalarAt UInt64 d
    (9 + m.storedContentType.length + 23 + m.storedEtag.length + 4 + 2 * kHashSize) = m.originEpoch
  ccLen : scalarAt UInt16 d
    (9 + m.storedContentType.length + 23 + m.storedEtag.length + 4 + 2 * kHashSize + 8) =
      UInt16.ofNat m.storedCacheControl.length
  cc : slice d (9 + m.storedContentType.length + 23 + m.storedEtag.length + 4 + 2 * kHashSize + 10)
    m.storedCacheControl.length = m.storedCacheControl

variable (c : Bytes)

/-- The fields stand where the layout has them. -/
theorem written : m.Written (m.serialize ++ c) := by
  have hS := m.serializeFields_sizes
  have h1 := m.originHtmlHash.length_eq
  have h2 := m.renderSourceHash.length_eq
  rw [serialize_eq]
  rw [serializeFields_eq] at hS ⊢
  refine ⟨scalarAt_field hS 0 rfl ?_, scalarAt_field hS 1 rfl ?_, scalarAt_field hS 2 rfl ?_,
    scalarAt_field hS 3 rfl ?_, scalarAt_field hS 4 rfl ?_, slice_field hS 5 rfl ?_ rfl,
    scalarAt_field hS 6 rfl ?_, scalarAt_field hS 7 rfl ?_, scalarAt_field hS 8 rfl ?_,
    scalarAt_field hS 9 rfl ?_, scalarAt_field hS 10 rfl ?_, scalarAt_field hS 11 rfl ?_,
    scalarAt_field hS 12 rfl ?_, scalarAt_field hS 13 rfl ?_, slice_field hS 14 rfl ?_ rfl,
    scalarAt_field hS 15 rfl ?_, slice_field hS 16 rfl ?_ h1.symm, slice_field hS 17 rfl ?_ h2.symm,
    scalarAt_field hS 18 rfl ?_, scalarAt_field hS 19 rfl ?_, slice_field hS 20 rfl ?_ rfl⟩
  all_goals simp only [take_succ_cons, take_zero, sum_cons, sum_nil] <;> omega

/-- **The normal form** a written record is read back in. -/
def normalised : AlternateMetadata :=
  { m with
    version := 9
    originContentType := (stripHeaderControlChars m.originContentType).take 256
    originCacheControl :=
      if (stripHeaderControlChars m.originCacheControl).length > 256 then []
      else stripHeaderControlChars m.originCacheControl
    originEtag := m.originEtag.take 65535
    ssimulacra2ScoreX100 :=
      if m.ssimulacra2ScoreX100 > 10000 ∧ m.isEncodedVariant = false then kScoreNA
      else m.ssimulacra2ScoreX100
    contentClass := if m.contentClass > 4 then 4 else m.contentClass
    wireCtLen := UInt16.ofNat m.storedContentType.length
    wireCcLen := UInt16.ofNat m.storedCacheControl.length
    consumedSize := m.serialize.length }

theorem stripHeaderControlChars_idem (s : Bytes) :
    stripHeaderControlChars (stripHeaderControlChars s) = stripHeaderControlChars s := by
  simp [stripHeaderControlChars]

/-- A value without control characters is kept as it is. -/
theorem strip_eq_self_iff (s : Bytes) : stripHeaderControlChars s = s ↔ ∀ c ∈ s, c ≠ ch '\r' ∧
    c ≠ ch '\n' ∧ c ≠ 0 := by
  unfold stripHeaderControlChars
  rw [filter_eq_self]
  simp

theorem strip_storedContentType :
    stripHeaderControlChars m.storedContentType = m.storedContentType := by
  rw [strip_eq_self_iff]
  intro c hc
  exact (strip_eq_self_iff _).1 (stripHeaderControlChars_idem m.originContentType) c
    (mem_of_mem_take hc)

theorem strip_storedCacheControl :
    stripHeaderControlChars m.storedCacheControl = m.storedCacheControl := by
  unfold storedCacheControl
  dsimp only
  split_ifs
  · rfl
  · exact stripHeaderControlChars_idem _

/-- A score that is out of range counts as none. -/
theorem clampScore_eq (e : Bool) (x : UInt16) : clampScore e x = if x > 10000 ∧ e = false then
    kScoreNA else x := by
  unfold clampScore
  by_cases hx : x = kScoreNA
  · subst hx; simp
  · simp [hx, kMaxScoreX100]

section Written

variable {m} {d : Bytes} (w : m.Written d)

include w

theorem Written.ctLen_toNat : (scalarAt UInt16 d 7).toNat = m.storedContentType.length := by
  rw [w.ctLen, toNat_length m.length_storedContentType (by decide)]

theorem Written.suffixAt_eq : suffixAt d = 9 + m.storedContentType.length := by
  rw [suffixAt, w.ctLen_toNat]; rfl

theorem Written.wireVersion_eq : wireVersion d = kCurrentVersion := w.version

theorem Written.wireEtagLen_eq : wireEtagLen d = m.storedEtag.length := by
  rw [wireEtagLen, w.wireVersion_eq, if_pos (by decide), w.suffixAt_eq, w.etagLen,
    toNat_length m.length_storedEtag (by decide)]

theorem Written.v8At_eq : v8At d = 9 + m.storedContentType.length + 23 + m.storedEtag.length + 4 +
    2 * kHashSize := by
  rw [v8At, w.suffixAt_eq, w.wireEtagLen_eq]

theorem Written.wireCc_eq : wireCc d = UInt16.ofNat m.storedCacheControl.length := by
  rw [wireCc, w.wireVersion_eq, if_pos (by decide), w.v8At_eq, w.ccLen]

theorem Written.wireCc_toNat : (wireCc d).toNat = m.storedCacheControl.length := by
  rw [w.wireCc_eq, toNat_length m.length_storedCacheControl (by decide)]

/-- The extent of a written block is its length. -/
theorem Written.extent_eq : extent d = m.serialize.length := by
  rw [extent, w.suffixAt_eq, w.wireVersion_eq, w.wireEtagLen_eq, w.wireCc_toNat, length_serialize]
  rfl

end Written

/-- A written block is accepted, whatever follows it. -/
theorem accepts_serialize : Accepts (m.serialize ++ c) := by
  have w := m.written c
  have hl : (m.serialize ++ c).length = m.serialize.length + c.length := length_append
  have h9 := m.length_serialize
  refine ⟨by rw [hl, h9]; unfold kFixedPrefixSize; omega, by rw [w.wireVersion_eq]; decide,
    by rw [w.wireVersion_eq]; decide,
    ⟨m.contentType, by rw [w.contentType, ContentType.ofByte?_toByte]⟩, ?_, ?_, ?_, ?_⟩
  · rintro ⟨-, -, h, -⟩
    rw [w.wireVersion_eq] at h
    exact absurd h (by decide)
  · rw [w.ctLen_toNat]; exact m.length_storedContentType
  · rw [w.wireCc_toNat]; exact m.length_storedCacheControl
  · rw [w.extent_eq, hl]; omega

theorem hashAt_of_slice {d : Bytes} {off : ℕ} {h : Hash} (hs : slice d off kHashSize = h.bytes) :
    hashAt d off = h := by
  have hl := h.length_eq
  rw [← hs, slice, length_take, length_drop] at hl
  unfold hashAt
  rw [dif_pos (by unfold kHashSize at *; omega)]
  cases h; simp only [Hash.mk.injEq]; exact hs

/-- Its fields are those of the metadata, brought into range. -/
theorem fields_serialize : fields (m.serialize ++ c) = m.normalised := by
  have w := m.written c
  have hct : (stripHeaderControlChars m.originContentType).take 256 = m.storedContentType := rfl
  have hcc : (if (stripHeaderControlChars m.originCacheControl).length > 256 then []
      else stripHeaderControlChars m.originCacheControl) = m.storedCacheControl := rfl
  have hctn := toNat_length m.length_storedContentType (by decide)
  have hccn := toNat_length m.length_storedCacheControl (by decide)
  unfold fields normalised
  simp only [w.wireVersion_eq, w.suffixAt_eq, w.wireEtagLen_eq, w.v8At_eq, w.extent_eq,
    hctn, hccn, w.wireCc_eq, w.mask, w.contentType, w.flags, w.ctLen,
    w.inserted, w.maxAge, w.sMaxage, w.ccFlags, w.score, w.cls, w.lastModified, w.etag, w.length,
    hashAt_of_slice w.html, hashAt_of_slice w.source, w.epoch, w.cc, hct, hcc,
    ContentType.ofByte?_toByte, Option.getD_some, strip_storedCacheControl,
    show kFixedPrefixSize = 9 from rfl, w.ct, strip_storedContentType, clampScore_eq]
  rfl

/-- And it is read back. -/
theorem deserialize_written :
    deserialize (m.serialize ++ c) = .ok (some m.normalised) := by
  rw [deserialize_accepted (m.accepts_serialize c), fields_serialize]

/-- **The codec's round trip.** A record written in front of any content is read back in
normal form; the reader stops where the content starts. -/
theorem deserialize_serialize (c : Bytes) :
    deserialize (m.serialize ++ c) = .ok (some m.normalised) ∧
      m.normalised.consumedSize = m.serialize.length ∧
      m.normalised.wireSize = m.serialize.length ∧
      parseMetadataPrefix (m.serialize ++ c) = .ok (some (m.serialize.length, m.normalised)) ∧
      (m.serialize ++ c).drop m.serialize.length = c := by
  have ha := m.accepts_serialize c
  have hd := m.deserialize_written c
  have hw : m.normalised.wireSize = m.serialize.length := by
    rw [← m.fields_serialize c, wireSize_eq ha.fits, (m.written c).extent_eq]
  refine ⟨hd, rfl, hw, ?_, drop_left⟩
  have hl : ¬ (m.serialize ++ c).length < kFixedPrefixSize := not_lt.2 ha.head
  have hs : m.normalised.consumedSize = m.serialize.length := rfl
  unfold parseMetadataPrefix
  rw [if_neg hl, hd]
  simp [bind, Except.bind, pure, Except.pure, hs, hw]

/-! ## The encoded-size code -/

/-- A gzip- or brotli-coded entry of a known origin length. -/
structure Coded extends AlternateMetadata where
  coded : toAlternateMetadata.isEncodedVariant = true
  sized : toAlternateMetadata.originContentLength ≠ 0

/-- The integer nearest to `a / b`, halves up. -/
def roundDiv (a b : ℕ) : ℕ := (a + b / 2) / b

/-- The rounded quotient is within a half. -/
theorem two_mul_roundDiv (a : ℕ) {b : ℕ} (hb : 0 < b) :
    2 * (roundDiv a b * b) ≤ 2 * a + b ∧ 2 * a + b < 2 * (roundDiv a b * b + b) := by
  have h1 := Nat.div_mul_le_self (a + b / 2) b
  have h2 := Nat.lt_mul_div_succ (a + b / 2) hb
  rw [mul_comm, Nat.succ_mul] at h2
  unfold roundDiv
  omega

/-- **The encoded size comes back within a hundred-thousandth of the origin's length**,
unless its code or the decoded size does not fit; no score reader takes the code for a score,
and it survives a store. -/
theorem encodedOriginLength_set (m : Coded) (n : Fin (2 ^ 48)) :
    let L := m.originContentLength.toNat
    let r := roundDiv (50000 * n) L
    let m' := m.setEncodedOriginLength (UInt64.ofNat n)
    (m'.encodedOriginLength = none ∧ (r > 55533 ∨ roundDiv (r * L) 50000 > 0xFFFFFFFF) ∨
        ∃ e, m'.encodedOriginLength = some e ∧ 100000 * ((e.toNat : ℤ) - n).natAbs ≤ L + 100000) ∧
      ¬ m'.ssimulacra2ScoreX100 ≤ kMaxScoreX100 ∧
      ∃ s, deserialize m'.serialize = .ok (some s) ∧
        s.ssimulacra2ScoreX100 = m'.ssimulacra2ScoreX100 := by
  intro L r m'
  have hL : 0 < L := Nat.pos_of_ne_zero fun h => m.sized (UInt32.toNat_inj.1 h)
  have hr : 2 * (r * L) ≤ _ ∧ _ < 2 * (r * L + L) := two_mul_roundDiv (50000 * n) hL
  have hm : m' = { m.toAlternateMetadata with
      ssimulacra2ScoreX100 := if r ≤ 55533 then .ofNat (10001 + r) else 65535 } := by
    have hn : (UInt64.ofNat n).toNat = n := UInt64.toNat_ofNat_of_lt' (by unfold UInt64.size; omega)
    have hL := m.originContentLength.toNat_lt
    unfold m' setEncodedOriginLength
    rw [m.coded, Bool.not_true, if_neg Bool.false_ne_true, if_neg m.sized, hn]
    dsimp only
    rw [Nat.mod_eq_of_lt (by unfold kEncodedRatioScale; omega), mul_comm]
    rfl
  have hv : m'.isEncodedVariant = true := hm ▸ m.coded
  have hs : m'.ssimulacra2ScoreX100.toNat = if r ≤ 55533 then 10001 + r else 65535 := by
    rw [hm]
    split_ifs with h
    · exact UInt16.toNat_ofNat_of_lt' (by unfold UInt16.size; omega)
    · rfl
  have he : m'.encodedOriginLength = if r ≤ 55533 ∧ roundDiv (r * L) 50000 ≤ 0xFFFFFFFF then
      some (.ofNat (roundDiv (r * L) 50000)) else none := by
    have hb : kEncodedRatioBase.toNat = 10001 ∧ kScoreNA.toNat = 65535 := ⟨rfl, rfl⟩
    have ho : m'.originContentLength = m.originContentLength := by rw [hm]
    clear_value r
    simp only [encodedOriginLength, ho, if_neg m.sized, hv, UInt16.lt_iff_toNat_lt,
      ← UInt16.toNat_inj, hs, hb]
    by_cases hc : r ≤ 55533
    · simp only [if_pos hc, Nat.add_sub_cancel_left]
      rw [if_neg (by decide), if_neg (by omega), ← ite_not]
      simp only [hc, true_and, not_lt]
      rfl
    · simp [hc]
  refine ⟨?_, ?_, _, by simpa using m'.deserialize_written [], by simp [normalised, hv]⟩
  · rw [he]
    split_ifs with h
    · refine .inr ⟨_, rfl, ?_⟩
      rw [UInt32.toNat_ofNat_of_lt' (Nat.lt_succ_of_le h.2), roundDiv]
      -- half a step of the code and half a unit of the decoded size
      omega
    · exact .inl ⟨rfl, by omega⟩
  · rw [UInt16.le_iff_toNat_le, hs, show kMaxScoreX100.toNat = 10000 from rfl]
    split_ifs <;> omega

/-- A brotli copy a little larger than a 4 GiB origin has a code, but no size to return. -/
theorem encodedOriginLength_large : ∃ (m : Coded) (n : Fin (2 ^ 48)),
    (m.setEncodedOriginLength (UInt64.ofNat n)).encodedOriginLength = none ∧
      roundDiv (50000 * n) m.originContentLength.toNat = 52387 :=
  ⟨⟨{ fullMask := 0x80, originContentLength := 0xFFFFFFFF }, rfl, by decide⟩, 4500000000, by decide⟩

end PageSpeed.AlternateMetadata
