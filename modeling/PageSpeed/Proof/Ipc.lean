import PageSpeed.Spec.Ipc

/-!
# The notification frame

* `contained_deserializeFields`: the field reads stay inside the frame.
* `deserialize_sendable`: what the sender builds, the receiver reads back.
* `deserialize_frame`: the round trip, and frame locality, which holds exactly when the
  frame has room for its version byte or nothing follows it.
-/

namespace PageSpeed.CacheNotification

open Wire Framed List Scalar Reads

/-! ## Staying inside the frame -/

/-- No field is read from behind the end of the message. -/
theorem contained_deserializeFields (e : IpcRejection) : Contained (deserializeFields e) := by
  unfold deserializeFields
  -- the reader is one chain of binds: each link is contained, whatever was read before it
  repeat' first
    | intro _
    | exact Contained.nextBe _
    | exact Contained.nextBytes _ _
    | exact Contained.refuseIf _ _
    | exact Contained.orRefuse _ _
    | exact Contained.modify _
    | apply Contained.bind

/-! ## Reading back what was sent -/

variable {n : CacheNotification} {d : Bytes}

/-- What a notification the sender does not refuse looks like. -/
structure Sendable (n : CacheNotification) : Prop where
  url : n.url.length ≤ kMaxUrlLength
  hostname : n.hostname.length ≤ kMaxHostnameLength
  scheme : n.scheme = schemeFromWire (schemeToWire n.scheme)
  context : n.optionContext.length ≤ kMaxOptionContextBytes
  both : n.optionContext.isEmpty = n.optionSignature.isEmpty
  signature : n.optionSignature.length = 0 ∨ n.optionSignature.length = kOptionContextSignatureChars
  site : n.site.length = 0 ∨ isSiteId n.site = true

/-- A valid scheme is read back. -/
theorem schemeFromWire_toWire {scheme : Bytes} (h : validateScheme scheme = true) :
    scheme = schemeFromWire (schemeToWire scheme) := by
  unfold validateScheme at h
  rcases of_decide_eq_true h with rfl | rfl <;> decide

/-- What the sender does not refuse keeps the bounds. -/
theorem sendable_of_not_refuses (h : n.refuses = false) : Sendable n := by
  unfold refuses at h
  simp only [decide_eq_false_iff_not, not_or, not_and_or, not_not, not_lt, ne_eq] at h
  obtain ⟨hu, hh, hs, hc, hb, hsig, hsite⟩ := h
  exact ⟨hu, hh, schemeFromWire_toWire hs, hc, hb, hsig, hsite⟩

theorem Sendable.site_length (h : Sendable n) : n.site.length = 0 ∨
    n.site.length = kSiteIdChars := by
  rcases h.site with h0 | h1
  · exact .inl h0
  · unfold isSiteId at h1
    exact .inr (of_decide_eq_true h1).1

theorem toNat_uint32_length {b : Bytes} {k : ℕ} (hb : b.length ≤ k) (hk : k < 4294967296) :
    (UInt32.ofNat b.length).toNat = b.length :=
  UInt32.toNat_ofNat_of_lt' (lt_of_le_of_lt hb hk)

theorem toNat_uint8_length {b : Bytes} (hb : b.length = 0 ∨ b.length = 64) :
    (UInt8.ofNat b.length).toNat = b.length :=
  UInt8.toNat_ofNat_of_lt' (by rcases hb with h | h <;> rw [h] <;> decide)

/-- No unknown flag is written. -/
theorem flagsByte_known (n : CacheNotification) : (n.flagsByte &&& ~~~kNotifyFlagsKnown) = 0 := by
  unfold flagsByte
  cases n.hostVouched <;> cases n.fromModule <;> cases n.legacyExCaller <;> decide

/-- The flags are read back. -/
theorem flagsByte_bits (n : CacheNotification) :
    decide ((n.flagsByte &&& kNotifyFlagHostVouched) ≠ 0) = n.hostVouched ∧
      decide ((n.flagsByte &&& kNotifyFlagFromModule) ≠ 0) = n.fromModule ∧
      decide ((n.flagsByte &&& kNotifyFlagLegacyExCaller) ≠ 0) = n.legacyExCaller := by
  unfold flagsByte
  cases n.hostVouched <;> cases n.fromModule <;> cases n.legacyExCaller <;> decide

theorem agentByte_ne_zero (b : Bool) : decide ((if b then 1 else 0 : UInt8) ≠ 0) = b := by
  cases b <;> decide

theorem ofByte?_schemeByte (w : IpcScheme) : IpcScheme.ofByte? w.toByte = some w := by
  cases w <;> decide

/-- **The field reads undo the field writes**, whatever the notification held before. -/
theorem reads_payloadFields (e : IpcRejection) (h : Sendable n) (old : CacheNotification) :
    Reads (deserializeFields e) n.payloadFields.flatten () old n := by
  have hu := toNat_uint32_length h.url (by decide)
  have hh := toNat_uint32_length h.hostname (by decide)
  have hc := toNat_uint32_length h.context (by decide)
  have hg := toNat_uint8_length h.signature
  have hs := toNat_uint8_length h.site_length
  obtain ⟨f1, f2, f3⟩ := n.flagsByte_bits
  unfold deserializeFields payloadFields
  simp only [flatten_cons, flatten_nil]
  refine (nextBe e _).bind (skip (refuseIf e ?_) ?_)
  · simpa only [hu, decide_eq_false_iff_not, not_lt] using h.url
  refine (nextBytes e hu).bind (skip (modify _ rfl) ?_)
  refine (nextBe e _).bind (skip (refuseIf e ?_) ?_)
  · simpa only [hh, decide_eq_false_iff_not, not_lt] using h.hostname
  refine (nextBytes e hh).bind (skip (modify _ rfl) ?_)
  refine (nextBe e _).bind (skip (orRefuse e (ContentType.ofByte?_toByte _)) ?_)
  refine skip (modify _ rfl) ?_
  refine (nextBe e _).bind (skip (modify _ rfl) ?_)
  refine (nextBe e _).bind (skip (orRefuse e (ofByte?_schemeByte _)) ?_)
  refine skip (modify _ rfl) ?_
  refine (nextBe e _).bind (skip (modify _ rfl) ?_)
  refine (nextBe e _).bind (skip (refuseIf e ?_) ?_)
  · simpa only [hc, decide_eq_false_iff_not, not_lt] using h.context
  refine (nextBytes e hc).bind (skip (modify _ rfl) ?_)
  refine (nextBe e _).bind (skip (refuseIf e ?_) ?_)
  · simpa only [hg, decide_eq_false_iff_not, not_and_or, not_not] using h.signature
  refine (nextBytes e hg).bind (skip (modify _ rfl) ?_)
  refine (nextBe e _).bind (skip (refuseIf e ?_) ?_)
  · simpa only [hs, decide_eq_false_iff_not, not_and_or, not_not] using h.site_length
  refine (nextBytes e hs).bind (skip (modify _ rfl) (skip (refuseIf e ?_) ?_))
  · simpa only [hs, decide_eq_false_iff_not, not_and_or, not_not] using h.site
  refine (nextBe e _).bind (skip (refuseIf e ?_) ?_)
  · simpa only [decide_eq_false_iff_not, not_not] using n.flagsByte_known
  -- by now every field is the sender's
  refine skip (modify n ?_) (refuseIf e ?_)
  · simp only [f1, f2, f3, agentByte_ne_zero]
    rw [← h.scheme]
  · simpa only [decide_eq_false_iff_not, not_not] using h.both

/-! ## The frame -/

/-- The length header of a frame. -/
def header (f : Bytes) : ℕ := (Scalar.ofBe (α := UInt32) (f.take 4)).toNat

/-- The size in front is that of the fields. -/
theorem length_payloadFields (n : CacheNotification) :
    n.payloadFields.flatten.length + 1 = n.totalSize := by
  unfold payloadFields totalSize
  simp only [flatten_cons, flatten_nil, length_append, length_nil,
    length_toBe, width_uint8, width_uint32]
  omega

/-- **The frame the sender builds**: header, version, payload. -/
theorem serialize_eq (h : n.refuses = false) : n.serialize =
    Scalar.toBe (UInt32.ofNat n.totalSize) ++
      (Scalar.toBe kIpcVersion ++ n.payloadFields.flatten) := by
  have hl := n.length_payloadFields
  have hf := Cursor.Filled.start (List.replicate (4 + n.totalSize) 0)
  rw [serialize, if_neg (by rw [h]; decide)]
  have hlen : (List.replicate (4 + n.totalSize) (0 : UInt8)).length =
      (Scalar.toBe (UInt32.ofNat n.totalSize) :: Scalar.toBe kIpcVersion ::
        n.payloadFields).flatten.length := by
    simp only [length_replicate, flatten_cons, length_append, length_toBe,
      width_uint8, width_uint32]
    omega
  rw [hlen] at hf
  exact Cursor.writeAll_out _ hf

/-- It fits into four bytes. -/
theorem Sendable.totalSize_lt (h : Sendable n) : n.totalSize < 4294967296 := by
  have hu := h.url
  have hh := h.hostname
  have hc := h.context
  have hg := h.signature
  have hs := h.site_length
  unfold kMaxUrlLength at hu
  unfold kMaxHostnameLength at hh
  unfold kMaxOptionContextBytes at hc
  unfold kOptionContextSignatureChars at hg
  unfold kSiteIdChars at hs
  unfold totalSize
  omega

/-- The outcome a finished field read stands for. -/
def outcome : Except IpcRejection Unit × ℕ × CacheNotification → Outcome
  | (.ok (), _, n) => ⟨true, {}, n⟩
  | (.error rejection, _, n) => ⟨false, rejection, n⟩

/-- The receiver on a buffer that has a fifth byte. -/
theorem deserialize_eq (h5 : 5 ≤ d.length) (old : CacheNotification) :
    deserialize d old =
      if d.length < 4 + header d then .ok ⟨false, ⟨.kTruncated, 0⟩, old⟩
      else if scalarAt UInt8 d 4 ≠ kIpcVersion then
        .ok ⟨false, ⟨.kVersionMismatch, scalarAt UInt8 d 4⟩, old⟩
      else (deserializeFields ⟨.kMalformed, scalarAt UInt8 d 4⟩ d (4 + header d) (5, old)).map
        outcome := by
  have hh : header d = (Scalar.ofBe (α := UInt32) (slice d 0 4)).toNat := rfl
  unfold deserialize
  rw [if_neg (by omega), readAt_eq (by omega), readByte_eq (by omega)]
  simp only [Except.map, Bind.bind, Except.bind, ← hh]
  split_ifs
  · rfl
  · rfl
  · cases deserializeFields ⟨.kMalformed, scalarAt UInt8 d 4⟩ d (4 + header d) (5, old) with
    | error e => rfl
    | ok r =>
      obtain ⟨r, p, n⟩ := r
      cases r with
      | error e => rfl
      | ok u => rfl

/-- A message without its header is truncated. -/
theorem deserialize_short (h5 : d.length < 5) (old : CacheNotification) :
    deserialize d old = .ok ⟨false, ⟨.kTruncated, 0⟩, old⟩ := by
  unfold deserialize
  rw [if_pos h5]
  rfl

theorem header_append {f : Bytes} (h4 : 4 ≤ f.length) (s : Bytes) : header (f ++ s) = header f := by
  rw [header, take_append_of_le_length h4, header]

/-- The size is read back. -/
theorem header_toBe (x : UInt32) (s : Bytes) : header (Scalar.toBe x ++ s) = x.toNat := by
  have hl : (Scalar.toBe x).length = 4 := length_toBe x
  rw [header, ← hl, take_left, ofBe_toBe]

/-- **The round trip** of a frame the sender did not refuse. -/
theorem deserialize_sendable (hr : n.refuses = false) (old : CacheNotification) :
    deserialize n.serialize old = .ok ⟨true, {}, n⟩ := by
  have hs := sendable_of_not_refuses hr
  have hl := n.length_payloadFields
  have hx : (UInt32.ofNat n.totalSize).toNat = n.totalSize :=
    UInt32.toNat_ofNat_of_lt' hs.totalSize_lt
  rw [serialize_eq hr]
  set x := UInt32.ofNat n.totalSize
  have l1 : (Scalar.toBe x).length = 4 := length_toBe x
  have l2 : (Scalar.toBe kIpcVersion).length = 1 := length_toBe kIpcVersion
  have hlen : (Scalar.toBe x ++ (Scalar.toBe kIpcVersion ++ n.payloadFields.flatten)).length =
      4 + n.totalSize := by
    simp only [length_append, l1, l2]; omega
  have hv : scalarAt UInt8 (Scalar.toBe x ++
    (Scalar.toBe kIpcVersion ++ n.payloadFields.flatten)) 4 = kIpcVersion := by
    rw [scalarAt, width_uint8, slice_mid l1.symm l2.symm]; rfl
  -- the payload stands right behind the header and the version
  have hread := reads_payloadFields ⟨.kMalformed, kIpcVersion⟩ hs old
    (Scalar.toBe x ++ Scalar.toBe kIpcVersion) [] (4 + n.totalSize)
    (by rw [length_append, l1, l2]; omega)
  rw [append_nil, append_assoc, length_append, l1, l2] at hread
  rw [deserialize_eq (by rw [hlen]; unfold totalSize; omega), header_toBe, hx, hlen, hv,
    if_neg (lt_irrefl _), if_neg (by simp), hread]
  rfl

/-- **Frame locality**: behind a frame that has room for its version byte, nothing is
looked at. -/
theorem deserialize_append {f : Bytes} (hf : f.length = 4 + header f)
    (h0 : 0 < header f) (s : Bytes)
    (old : CacheNotification) : deserialize (f ++ s) old = deserialize f old := by
  have hl : (f ++ s).length = f.length + s.length := length_append
  have hh := header_append (show 4 ≤ f.length by omega) s
  have hv : scalarAt UInt8 (f ++ s) 4 = scalarAt UInt8 f 4 := by
    have := scalarAt_stable (s := s) (α := UInt8) (le_refl f.length)
      (show 4 + Scalar.width UInt8 ≤ f.length by rw [width_uint8]; omega)
    rwa [take_length] at this
  have e1 := deserialize_eq (d := f ++ s) (by omega) old
  have e2 := deserialize_eq (d := f) (by omega) old
  rw [e1, e2, hh, hv, if_neg (show ¬ (f ++ s).length < 4 + header f by omega),
    if_neg (show ¬ f.length < 4 + header f by omega),
    (contained_deserializeFields _).frame f _ _ s hf.ge]

/-- With no room for the first length, the reader rejects before it assigns anything. -/
theorem deserializeFields_no_room {e : IpcRejection} {stop p : ℕ} (h : p + 4 > stop)
    (old : CacheNotification) : deserializeFields e d stop (p, old) = .ok (.error e, p, old) := by
  have hb : (Framed.nextBe UInt32 e : Framed IpcRejection CacheNotification UInt32) d
    stop (p, old) = .ok (.error e, p, old) := by
    show Framed.bind (Framed.nextBytes 4 e) _ d stop (p, old) = _
    simp [Framed.bind, Framed.nextBytes, h]
  unfold deserializeFields
  show Framed.bind (Framed.nextBe UInt32 e) _ d stop (p, old) = _
  rw [Framed.bind, hb]

/-- **The blind spot**: a frame of declared length zero borrows the next byte of the
buffer for its version. -/
theorem deserialize_append_of_header_zero {f s : Bytes} (hf : f.length = 4) (h0 : header f = 0)
    (hs : s ≠ []) (old : CacheNotification) : deserialize (f ++ s) old ≠ deserialize f old := by
  have hl : (f ++ s).length = f.length + s.length := length_append
  have hpos : 0 < s.length := length_pos_of_ne_nil hs
  have e1 := deserialize_eq (d := f ++ s) (by omega) old
  rw [e1, deserialize_short (d := f) (by omega), header_append hf.ge s, h0, if_neg (by omega)]
  split_ifs with hv
  · simp
  · -- the borrowed byte passes for the version: the first field read then finds no room
    rw [deserializeFields_no_room (show 5 + 4 > 4 + 0 by decide)]
    simp [Except.map, outcome]

/-- **The frame contract.** The round trip holds without exception; locality holds exactly
when the frame has room for its own version byte, or nothing follows it. -/
theorem deserialize_frame (n old : CacheNotification) (f s : Bytes) (hf : f.length = 4 + header f) :
    (n.serialize ≠ [] → deserialize n.serialize old = .ok ⟨true, {}, n⟩) ∧
      (deserialize (f ++ s) old = deserialize f old ↔ 0 < header f ∨ s = []) := by
  refine ⟨fun hne => deserialize_sendable ?_ old, ?_, ?_⟩
  · by_contra hr
    rw [Bool.not_eq_false] at hr
    exact hne (by rw [serialize, if_pos hr])
  · intro h
    by_contra hc
    rw [not_or, not_lt, Nat.le_zero] at hc
    exact deserialize_append_of_header_zero (by omega) hc.1 hc.2 old h
  · rintro (h0 | rfl)
    · exact deserialize_append hf h0 s old
    · rw [append_nil]

/-- A notification with every optional part present, and a frame in front of another. -/
theorem deserialize_frame_ping :
    let n : CacheNotification :=
      { url := lit "/a.css", hostname := lit "h", scheme := lit "https", contentType := .kCss
        capabilityMask := 12, agentRequest := true, optionContext := lit "x"
        optionSignature := List.replicate 64 (ch 'a'), site := List.replicate 64 (ch '0')
        fromModule := true }
    let f : Bytes := [0, 0, 0, 1, 5]
    n.serialize ≠ [] ∧ deserialize n.serialize n = .ok ⟨true, {}, n⟩ ∧
      deserialize (f ++ [0, 0]) n = deserialize f n := by
  intro n f
  have hne : n.serialize ≠ [] := by
    rw [serialize_eq (by decide)]
    simp [← length_eq_zero_iff]
  exact ⟨hne, (deserialize_frame n n f [0, 0] (by decide)).1 hne,
    (deserialize_frame n n f [0, 0] (by decide)).2.2 (.inl (by decide))⟩

/-- A zero length header: alone it is truncated, in front of another frame it is blamed on
the other frame's first byte. -/
theorem deserialize_borrows_next_frame :
    let n : CacheNotification :=
      { url := [], hostname := [], scheme := [], contentType := .kOther, capabilityMask := 0 }
    let f : Bytes := [0, 0, 0, 0]
    f.length = 4 + header f ∧
      deserialize f n = .ok ⟨false, ⟨.kTruncated, 0⟩, n⟩ ∧
      deserialize (f ++ [0, 0, 0, 30, 6]) n = .ok ⟨false, ⟨.kVersionMismatch, 0⟩, n⟩ ∧
      deserialize (f ++ [5]) n = .ok ⟨false, ⟨.kVersionMismatch, 5⟩, n⟩ := by
  decide

end PageSpeed.CacheNotification
