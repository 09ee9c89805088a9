import PageSpeed.Proof.MetadataCodec

/-!
# Metadata blobs from anywhere

Nothing is assumed here of the blob: it may have any version, lie about its lengths or
stop in the middle of a field.

* `accepts_take`, `fields_take`: the reader looks at the first `extent d` bytes only.
* `normalised_fields`: what was read is already in normal form.
* `deserialize_sound`: the contract of the reader.
-/

namespace PageSpeed.AlternateMetadata

open Wire Scalar

variable {d : Bytes}

/-! ## Locality -/

section Take

variable (h : extent d ≤ d.length) (s : Bytes) {off : ℕ}

include h

/-- A number within the extent does not depend on what follows. -/
theorem scalarAt_take {α : Type} [Scalar α] (ho : off + Scalar.width α ≤ extent d) :
    scalarAt α (d.take (extent d) ++ s) off = scalarAt α d off :=
  scalarAt_stable h ho

/-- Nor does a slice. -/
theorem slice_take {off len : ℕ} (ho : off + len ≤ extent d) :
    slice (d.take (extent d) ++ s) off len = slice d off len :=
  slice_stable h ho

omit h in
/-- The extent, with the suffix bounds of every version at hand. -/
theorem extent_ge : extent d = suffixAt d + suffixSize (wireVersion d) + wireEtagLen d +
    (wireCc d).toNat ∧ 9 ≤ suffixAt d ∧ 14 ≤ suffixSize (wireVersion d) := by
  refine ⟨rfl, ?_, (suffixSize_ge _).1⟩
  unfold suffixAt kFixedPrefixSize; omega

theorem wireVersion_take : wireVersion (d.take (extent d) ++ s) = wireVersion d := by
  obtain ⟨he, h9, h14⟩ := extent_ge (d := d)
  exact scalarAt_take h s (by rw [width_uint8]; omega)

theorem ctLen_take : scalarAt UInt16 (d.take (extent d) ++ s) 7 = scalarAt UInt16 d 7 := by
  obtain ⟨he, h9, h14⟩ := extent_ge (d := d)
  exact scalarAt_take h s (by rw [width_uint16]; omega)

theorem suffixAt_take : suffixAt (d.take (extent d) ++ s) = suffixAt d := by
  rw [suffixAt, suffixAt, ctLen_take h s]

theorem length_take_extent : (d.take (extent d) ++ s).length = extent d + s.length := by
  rw [List.length_append, List.length_take, min_eq_left h]

/-- A field that is read from version `v` on. -/
theorem since_take {α β : Type} [Scalar α] {v : UInt8} (f : α → β) (z : β)
    (ho : wireVersion d ≥ v → off + Scalar.width α ≤ extent d) :
    (if wireVersion d ≥ v then f (scalarAt α (d.take (extent d) ++ s) off) else z) =
      if wireVersion d ≥ v then f (scalarAt α d off) else z :=
  ite_congr rfl (fun hv => by rw [scalarAt_take h s (ho hv)]) fun _ => rfl

theorem hash_take (ho : wireVersion d ≥ 7 → off + kHashSize ≤ extent d) :
    (if wireVersion d ≥ 7 then hashAt (d.take (extent d) ++ s) off else Hash.zero) =
      if wireVersion d ≥ 7 then hashAt d off else Hash.zero := by
  refine ite_congr rfl (fun hv => ?_) fun _ => rfl
  have hl := length_take_extent h s
  have ho := ho hv
  unfold hashAt
  rw [dif_pos (by omega), dif_pos (by omega)]
  simp only [slice_take h s ho]

theorem wireEtagLen_take : wireEtagLen (d.take (extent d) ++ s) = wireEtagLen d := by
  obtain ⟨he, h9, h14⟩ := extent_ge (d := d)
  have h23 := (suffixSize_ge (wireVersion d)).2.2.1
  unfold wireEtagLen
  rw [wireVersion_take h s, suffixAt_take h s, since_take h s UInt16.toNat 0 fun hv => ?_]
  have := h23 hv
  rw [width_uint16]; omega

theorem v8At_take : v8At (d.take (extent d) ++ s) = v8At d := by
  rw [v8At, v8At, suffixAt_take h s, wireEtagLen_take h s]

omit h in
theorem v8At_add (h8 : wireVersion d ≥ 8) : v8At d + 10 + (wireCc d).toNat = extent d := by
  have h101 := (suffixSize_ge (wireVersion d)).2.2.2.2.2 h8
  unfold extent v8At kHashSize
  omega

theorem wireCc_take : wireCc (d.take (extent d) ++ s) = wireCc d := by
  unfold wireCc
  rw [wireVersion_take h s, v8At_take h s, since_take h s (fun x => x) 0 fun hv => ?_]
  have := v8At_add hv
  rw [width_uint16]; omega

/-- Nor does the extent itself. -/
theorem extent_take : extent (d.take (extent d) ++ s) = extent d := by
  rw [extent, suffixAt_take h s, wireVersion_take h s, wireEtagLen_take h s,
    wireCc_take h s, extent]

theorem etag_take : slice (d.take (extent d) ++ s) (suffixAt d + 23) (wireEtagLen d) =
    slice d (suffixAt d + 23) (wireEtagLen d) := by
  by_cases h5 : wireVersion d ≥ 5
  · have s5 := (suffixSize_ge (wireVersion d)).2.2.1 h5
    exact slice_take h s (by unfold extent; omega)
  · rw [wireEtagLen_of_lt h5, slice_zero, slice_zero]

theorem cc_take : slice (d.take (extent d) ++ s) (v8At d + 10) (wireCc d).toNat =
    slice d (v8At d + 10) (wireCc d).toNat := by
  by_cases h8 : wireVersion d ≥ 8
  · exact slice_take h s (v8At_add h8).le
  · rw [wireCc_of_lt h8, slice_zero, slice_zero]

/-- **The record is read from the blob's own bytes**, whatever follows them. -/
theorem fields_take : fields (d.take (extent d) ++ s) = fields d := by
  obtain ⟨he, h9, h14⟩ := extent_ge (d := d)
  obtain ⟨-, s4, s5, s6, s7, s8⟩ := suffixSize_ge (wireVersion d)
  have w1 := width_uint8
  have w2 := width_uint16
  have w4 := width_uint32
  have w8 := width_uint64
  have hk : kHashSize = 32 := rfl
  have h8 := v8At_add (d := d)
  have hct : suffixAt d = kFixedPrefixSize + (scalarAt UInt16 d 7).toNat := rfl
  simp only [fields, AlternateMetadata.mk.injEq, wireVersion_take h s, suffixAt_take h s,
    wireEtagLen_take h s, v8At_take h s, wireCc_take h s, extent_take h s, ctLen_take h s,
    etag_take h s, cc_take h s, true_and, and_true]
  -- one goal for each remaining field, unconditional reads first
  refine ⟨scalarAt_take h s ?_, ?_, scalarAt_take h s ?_, ?_, scalarAt_take h s ?_,
    scalarAt_take h s ?_, scalarAt_take h s ?_, scalarAt_take h s ?_, ?_,
    since_take h s _ _ fun hv => ?_, since_take h s (fun x => x) _ fun hv => ?_,
    since_take h s (fun x => x) _ fun hv => ?_, hash_take h s fun hv => ?_,
    hash_take h s fun hv => ?_, since_take h s (fun x => x) _ fun hv => ?_⟩
  case refine_2 => rw [scalarAt_take h s (by omega)]
  case refine_4 => rw [slice_take h s (by omega)]
  case refine_9 =>
    rw [scalarAt_take h s (by omega), since_take h s _ _ fun hv => ?_]
    have := s4 hv
    omega
  case refine_10 => have := s4 hv; omega
  case refine_11 => have := s5 hv; omega
  case refine_12 => have := s6 hv; omega
  case refine_13 => have := s7 hv; omega
  case refine_14 => have := s7 hv; omega
  case refine_15 => have := h8 hv; omega
  all_goals omega

/-- Nor whether the layout is retired. -/
theorem retired_take : Retired (d.take (extent d) ++ s) ↔ Retired d := by
  obtain ⟨he, h9, h14⟩ := extent_ge (d := d)
  have w1 := width_uint8
  have hl := length_take_extent h s
  unfold Retired
  rw [wireVersion_take h s, scalarAt_take h s (by omega), scalarAt_take h s (by omega),
    scalarAt_take h s (by omega), hl]
  have : 7 ≤ extent d + s.length ↔ 7 ≤ d.length := by omega
  rw [this]

end Take

/-- Nor whether the block is accepted. -/
theorem accepts_take (ha : Accepts d) (s : Bytes) : Accepts (d.take (extent d) ++ s) := by
  have h := ha.fits
  obtain ⟨he, h9, h14⟩ := extent_ge (d := d)
  have hl := length_take_extent h s
  refine ⟨?_, ?_, ?_, ?_, ?_, ?_, ?_, ?_⟩
  · rw [hl]; unfold kFixedPrefixSize; omega
  · rw [wireVersion_take h s]; exact ha.version_ge
  · rw [wireVersion_take h s]; exact ha.version_le
  · rw [scalarAt_take h s (by rw [width_uint8]; omega)]; exact ha.contentType
  · rw [retired_take h s]; exact ha.current
  · rw [ctLen_take h s]; exact ha.ctLen
  · rw [wireCc_take h s]; exact ha.ccLen
  · rw [extent_take h s, hl]; omega

/-! ## Reading twice -/

/-- Every field above version `v` is at its default. -/
def AtDefaultAbove (v : UInt8) (m : AlternateMetadata) : Prop :=
  (v < 4 → m.ssimulacra2ScoreX100 = kScoreNA ∧ m.contentClass = kContentClassUnknown) ∧
    (v < 5 → m.originLastModified = 0 ∧ m.originEtag = []) ∧
    (v < 6 → m.originContentLength = 0) ∧
    (v < 7 → m.originHtmlHash = Hash.zero ∧ m.renderSourceHash = Hash.zero) ∧
    (v < 8 → m.originEpoch = 0 ∧ m.originCacheControl = [])

/-- Fields of later versions are at their defaults. -/
theorem fields_atDefaultAbove (d : Bytes) : AtDefaultAbove (wireVersion d) (fields d) := by
  have h5 := wireEtagLen_of_lt (d := d)
  have h8 := wireCc_of_lt (d := d)
  refine ⟨fun hv => ?_, fun hv => ?_, fun hv => ?_, fun hv => ?_, fun hv => ?_⟩ <;>
    rw [← UInt8.not_le] at hv
  · exact ⟨if_neg hv, if_neg hv⟩
  · refine ⟨if_neg hv, ?_⟩
    show slice d _ (wireEtagLen d) = []
    rw [h5 hv, slice_zero]
  · exact if_neg hv
  · exact ⟨if_neg hv, if_neg hv⟩
  · refine ⟨if_neg hv, ?_⟩
    show stripHeaderControlChars (slice d _ (wireCc d).toNat) = []
    rw [h8 hv, slice_zero]; rfl

theorem length_strip_le (s : Bytes) : (stripHeaderControlChars s).length ≤ s.length :=
  List.length_filter_le _ _

/-- Clamping twice is clamping once. -/
theorem clampScore_idem (e : Bool) (x : UInt16) :
    clampScore e (clampScore e x) = clampScore e x := by
  unfold clampScore kMaxScoreX100 kScoreNA
  split_ifs <;> grind

/-- A score that was read is in range. -/
theorem clampScore_fields :
    clampScore (fields d).isEncodedVariant (fields d).ssimulacra2ScoreX100 =
      (fields d).ssimulacra2ScoreX100 := by
  show clampScore (isEncodedMask (scalarAt UInt32 d 1)) (if wireVersion d ≥ 4 then _ else _) = _
  split_ifs with h4
  · rw [clampScore_idem]; exact (if_pos h4).symm
  · rw [clampScore, if_neg (by simp)]; exact (if_neg h4).symm

/-- So is a class. -/
theorem contentClass_fields : ¬ (fields d).contentClass > 4 := by
  show ¬ (if wireVersion d ≥ 4 then clampContentClass (scalarAt UInt8 d (suffixAt d + 16))
    else kContentClassUnknown) > 4
  unfold clampContentClass kContentClassUnknown
  split_ifs <;> first | assumption | decide

/-- **What was read is in normal form**: a rewrite changes the version, the wire lengths
and the consumed size only. -/
theorem normalised_fields (ha : Accepts d) :
    (fields d).normalised = { fields d with
      version := 9
      wireCtLen := (fields d).normalised.wireCtLen
      wireCcLen := (fields d).normalised.wireCcLen
      consumedSize := (fields d).normalised.consumedSize } := by
  have hct : (fields d).originContentType.length ≤ 256 :=
    (length_strip_le _).trans ((length_slice_le _ _ _).trans ha.ctLen)
  have hcc : (fields d).originCacheControl.length ≤ 256 :=
    (length_strip_le _).trans ((length_slice_le _ _ _).trans ha.ccLen)
  have het : (fields d).originEtag.length ≤ 65535 := by
    rw [length_originEtag ha.fits]
    unfold wireEtagLen
    split_ifs
    · exact Nat.le_of_lt_succ (UInt16.toNat_lt _)
    · omega
  have sct : stripHeaderControlChars (fields d).originContentType = (fields d).originContentType :=
    stripHeaderControlChars_idem _
  have scc : stripHeaderControlChars (fields d).originCacheControl =
      (fields d).originCacheControl :=
    stripHeaderControlChars_idem _
  have hsc : (if (fields d).ssimulacra2ScoreX100 > 10000 ∧ (fields d).isEncodedVariant = false
      then kScoreNA else (fields d).ssimulacra2ScoreX100) = (fields d).ssimulacra2ScoreX100 := by
    rw [← clampScore_eq, clampScore_fields]
  unfold normalised
  simp only [sct, scc, hsc, if_neg contentClass_fields, List.take_of_length_le hct,
    List.take_of_length_le het, if_neg (not_lt.2 hcc)]

/-- The reader of the block's front never leaves it. -/
theorem parseMetadataPrefix_ok (d : Bytes) : ∃ r, parseMetadataPrefix d = .ok r := by
  classical
  unfold parseMetadataPrefix
  rw [deserialize_eq]
  split_ifs
  · exact ⟨_, rfl⟩
  · simp only [bind, Except.bind]
    split_ifs <;> exact ⟨_, rfl⟩
  · exact ⟨_, rfl⟩

/-- **The contract of the reader**, for a blob from anywhere. No read leaves the blob. A
retired blob is refused. What is accepted is counted correctly and fits, depends on the
counted bytes alone, leaves what its version lacks at the default, and survives a rewrite
but for the version, the wire lengths and the consumed size. -/
theorem deserialize_sound (d : Bytes) :
    (∃ r, deserialize d = .ok r) ∧ (∃ b, isRetired d = .ok b) ∧
      (∃ r, parseMetadataPrefix d = .ok r) ∧
      (isRetired d = .ok true → deserialize d = .ok none) ∧
      ∀ m, deserialize d = .ok (some m) →
        m.consumedSize = m.wireSize ∧ m.consumedSize ≤ d.length ∧
          (∀ s, deserialize (d.take m.consumedSize ++ s) = .ok (some m)) ∧
          d.head? = some m.version ∧ AtDefaultAbove m.version m ∧
          ∃ m', deserialize m.serialize = .ok (some m') ∧
            { m' with
              version := m.version, wireCtLen := m.wireCtLen, wireCcLen := m.wireCcLen
              consumedSize := m.consumedSize } = m := by
  classical
  refine ⟨⟨_, deserialize_eq d⟩, ⟨_, isRetired_eq d⟩, parseMetadataPrefix_ok d, ?_, ?_⟩
  · intro hr
    rw [isRetired_eq, Except.ok.injEq, decide_eq_true_iff] at hr
    exact deserialize_refused fun ha => ha.current hr
  · intro m hm
    obtain ⟨ha, rfl⟩ := accepts_of_deserialize hm
    refine ⟨(wireSize_eq ha.fits).symm, ha.fits, ?_, ?_, fields_atDefaultAbove d,
      (fields d).normalised, ?_, ?_⟩
    · intro s
      show deserialize (d.take (extent d) ++ s) = _
      rw [deserialize_accepted (accepts_take ha s), fields_take ha.fits s]
    · have h9 := ha.head
      obtain ⟨b, t, rfl⟩ : ∃ b t, d = b :: t :=
        List.exists_cons_of_ne_nil fun h => by simp [h, kFixedPrefixSize] at h9
      exact congrArg some (scalarAt_uint8_cons b t).symm
    · have := deserialize_accepted ((fields d).accepts_serialize [])
      rwa [fields_serialize, List.append_nil] at this
    · rw [normalised_fields ha]

/-- A version 3 blob with a stray CR for its content type, two content bytes behind it. -/
theorem deserialize_sound_v3 :
    let d : Bytes := [3, 12, 0, 0, 0, 2, 0, 1, 0, 13] ++ List.replicate 14 7 ++ [65, 66]
    let m : AlternateMetadata :=
      { version := 3, fullMask := 12, contentType := .kJs, wireCtLen := 1
        cacheInsertedAt := 0x07070707, originMaxAge := 0x07070707, originSMaxage := 0x07070707
        originCcFlags := 0x0707, consumedSize := 24 }
    deserialize d = .ok (some m) ∧ ∀ s, deserialize (d.take 24 ++ s) = .ok (some m) := by
  intro d m
  have hm : deserialize d = .ok (some m) := by decide +kernel
  exact ⟨hm, ((deserialize_sound d).2.2.2.2 m hm).2.2.1⟩

end PageSpeed.AlternateMetadata
