import PageSpeed.Spec.HeadersSidecar

/-!
# The block carries what it is for

* `parseFields_encode`, `encode_of_parseFields`: the two directions of the layout.
* `carried_eq`: a gate without a reason has carried exactly the fields of the allowlist.
* `sidecar_codec`: what follows for a response that may be optimized in place.
-/

namespace PageSpeed.Cache

open Wire List

/-! ## The layout -/

theorem beNat_pair (b₁ b₀ : UInt8) : beNat [b₁, b₀] = b₁.toNat * 256 + b₀.toNat := by
  simp only [beNat, reverse_cons, reverse_nil, nil_append, cons_append, leNat]
  omega

theorem beBytes_two (n : ℕ) :
    beBytes 2 n = [UInt8.ofNat (n / 256 % 256), UInt8.ofNat (n % 256)] := rfl

theorem beBytes_beNat (b₁ b₀ : UInt8) : beBytes 2 (beNat [b₁, b₀]) = [b₁, b₀] := by
  have h₁ := b₁.toNat_lt
  have h₀ := b₀.toNat_lt
  rw [beNat_pair, beBytes_two, show (b₁.toNat * 256 + b₀.toNat) / 256 % 256 = b₁.toNat by omega,
    show (b₁.toNat * 256 + b₀.toNat) % 256 = b₀.toNat by
      omega, UInt8.ofNat_toNat, UInt8.ofNat_toNat]

/-- A field that the layout has room for. -/
structure Fits (field : HeaderField) : Prop where
  name_ne : field.name ≠ []
  name_le : field.name.length ≤ kMaxHeadersSidecarNameBytes
  value_le : field.value.length ≤ kMaxHeadersSidecarValueBytes

variable {fields headers : List HeaderField}

/-- Encoded fields are read back. -/
theorem parseFields_encode (h : ∀ f ∈ fields, Fits f) (rest : Bytes) :
    parseFields fields.length (fields.flatMap encodeField ++ rest) = some (fields, rest) := by
  induction fields with
  | nil => rfl
  | cons f fields ih =>
    obtain ⟨hf, hfields⟩ := forall_mem_cons.1 h
    have hname : (UInt8.ofNat f.name.length).toNat = f.name.length :=
      UInt8.toNat_ofNat_of_lt' (hf.name_le.trans_lt (by decide))
    have hne : UInt8.ofNat f.name.length ≠ 0 := by
      intro hzero
      rw [hzero] at hname
      exact hf.name_ne (length_eq_zero_iff.1 hname.symm)
    have hvalue : beNat [UInt8.ofNat (f.value.length / 256 % 256),
        UInt8.ofNat (f.value.length % 256)] = f.value.length := by
      rw [← beBytes_two, beNat_beBytes, Nat.mod_eq_of_lt (hf.value_le.trans_lt (by decide))]
    rw [flatMap_cons, encodeField, beBytes_two, length_cons]
    simp only [cons_append, nil_append, append_assoc, parseFields, hname, hvalue]
    rw [if_neg hne, if_neg (by simp), if_neg (by simp), take_left, ← drop_drop,
      drop_left, take_left, drop_left, ih hfields]
    rfl

/-- What is read was encoded like that. -/
theorem encode_of_parseFields {n : ℕ} :
    ∀ {bytes : Bytes} {fields : List HeaderField} {rest : Bytes},
    parseFields n bytes = some (fields, rest) → fields.length = n ∧
      bytes = fields.flatMap encodeField ++ rest := by
  induction n with
  | zero =>
    intro bytes fields rest h
    cases h
    exact ⟨rfl, rfl⟩
  | succ n ih =>
    intro bytes fields rest h
    match bytes, h with
    | [], h => cases h
    | [_], h => cases h
    | [_, _], h => cases h
    | nameLen :: v₁ :: v₀ :: bytes, h =>
      rw [parseFields] at h
      split_ifs at h with hzero hname hvalue
      obtain ⟨⟨more, left⟩, hmore, heq⟩ := Option.map_eq_some_iff.1 h
      cases heq
      obtain ⟨hlen, hbytes⟩ := ih hmore
      have hnameLen : (bytes.take nameLen.toNat).length = nameLen.toNat := by
        rw [length_take]
        omega
      have hvalueLen : ((bytes.drop nameLen.toNat).take (beNat [v₁, v₀])).length =
          beNat [v₁, v₀] := by
        rw [length_take, length_drop]
        omega
      refine ⟨by rw [length_cons, hlen], ?_⟩
      rw [flatMap_cons, encodeField, hnameLen, hvalueLen, beBytes_beNat, UInt8.ofNat_toNat]
      simp only [cons_append, nil_append, append_assoc, ← hbytes]
      rw [← drop_drop, take_append_drop, take_append_drop]

/-- A block is read back. -/
theorem parse_encode (h : ∀ f ∈ fields, Fits f) (hlen : fields.length ≤ 0xFFFF) :
    parseHeadersSidecar (encodeFields fields) = some fields := by
  have hparse := parseFields_encode h []
  rw [append_nil] at hparse
  rw [encodeFields, beBytes_two, parseHeadersSidecar.eq_def]
  simp only [cons_append, nil_append]
  rw [if_neg (by simp), ← beBytes_two, beNat_beBytes,
    Nat.mod_eq_of_lt (hlen.trans_lt (by decide)), hparse]

/-- A block that is read is the encoding of its fields. -/
theorem encode_of_parse {payload : Bytes} (h : parseHeadersSidecar payload = some fields) :
    encodeFields fields = payload := by
  match payload, h with
  | [], h => cases h
  | [_], h => cases h
  | [_, _], h => cases h
  | version :: c₁ :: c₀ :: bytes, h =>
    rw [parseHeadersSidecar] at h
    split_ifs at h with hversion
    rw [not_not] at hversion
    cases hfields : parseFields (beNat [c₁, c₀]) bytes with
    | none => simp [hfields] at h
    | some r =>
      obtain ⟨fs, rest⟩ := r
      cases rest with
      | cons c rest => simp [hfields] at h
      | nil =>
        obtain rfl : fs = fields := by simpa [hfields] using h
        obtain ⟨hlen, hbytes⟩ := encode_of_parseFields hfields
        rw [encodeFields, hlen, beBytes_beNat, hversion, hbytes, append_nil]
        rfl

/-! ## The gate -/

/-- The field is reproduced, stamped, or one to carry. -/
def Accounted (field : HeaderField) : Prop :=
  contains kReproducedByEntryMetadata field.name ∨ contains kStampedPerResponse field.name ∨
    contains kAllowlist field.name ∧ Fits field

/-- The fields to carry are not the ones that are reproduced or stamped. -/
theorem not_contains_of_allowlist {name : Bytes} (h : contains kAllowlist name) :
    contains kReproducedByEntryMetadata name = false ∧
      contains kStampedPerResponse name = false := by
  have hdisjoint : ∀ a ∈ kAllowlist, ∀ b ∈ kReproducedByEntryMetadata ++ kStampedPerResponse,
      asciiLower a ≠ asciiLower b := by
    decide +kernel
  obtain ⟨a, ha, hlower⟩ := any_eq_true.1 h
  have hnone : ∀ set ⊆ kReproducedByEntryMetadata ++ kStampedPerResponse,
      contains set name = false := by
    intro set hset
    refine any_eq_false.2 fun b hb heq => hdisjoint a ha b (hset hb) ?_
    exact (of_decide_eq_true hlower).trans (of_decide_eq_true heq).symm
  exact ⟨hnone _ (subset_append_left _ _), hnone _ (subset_append_right _ _)⟩

namespace Gate

variable {g : Gate} {field : HeaderField}

theorem addVary_reasons (g : Gate) (field : HeaderField) :
    (g.addVary field).reasons = g.reasons := by
  unfold addVary
  split_ifs <;> rfl

theorem addVary_carried (g : Gate) (field : HeaderField) :
    (g.addVary field).carried = g.carried := by
  unfold addVary
  split_ifs <;> rfl

theorem addVary_neverOptimized (g : Gate) (field : HeaderField) :
    (g.addVary field).neverOptimized = g.neverOptimized := by
  unfold addVary
  split_ifs <;> rfl

/-- A field gives a reason, or is accounted for and carried if it is to be. -/
theorem add_cases (g : Gate) (field : HeaderField) :
    (∃ reason, (g.add field).reasons = g.reasons ++ [reason]) ∨
      (g.add field).reasons = g.reasons ∧ (g.add field).neverOptimized = g.neverOptimized ∧
        Accounted field ∧
        (g.add field).carried = g.carried ++ [field].filter (contains kAllowlist ·.name) := by
  unfold add
  split_ifs with hcsp hlink hbad hrep hallow hsize
  · exact .inl ⟨_, rfl⟩
  · exact .inl ⟨_, rfl⟩
  · exact .inl ⟨_, rfl⟩
  · right
    have hnot : contains kAllowlist field.name = false := by
      rw [← Bool.not_eq_true]
      intro hallow
      obtain ⟨h₁, h₂⟩ := not_contains_of_allowlist hallow
      simp [h₁, h₂] at hrep
    refine ⟨addVary_reasons g field, addVary_neverOptimized g field, ?_, ?_⟩
    · exact hrep.imp_right Or.inl
    · rw [addVary_carried, filter_singleton, hnot]
      simp
  · exact .inl ⟨_, by rw [addReason, addVary_reasons]⟩
  · exact .inl ⟨_, by rw [addReason, addVary_reasons]⟩
  · right
    obtain ⟨hname, -⟩ := not_or.1 hbad
    have hne : field.name ≠ [] := by
      rintro hnil
      simp [isFieldName, hnil] at hname
    refine ⟨addVary_reasons g field, addVary_neverOptimized g field, ?_, ?_⟩
    · exact .inr (.inr ⟨by simpa using hallow, hne, by omega, by omega⟩)
    · simp only [addVary_carried, filter_singleton]
      simp [Bool.of_not_eq_false hallow]

end Gate

/-- **A gate without a reason has carried the fields of the allowlist**, and all others are
accounted for. -/
theorem carried_eq (h : (headers.foldl Gate.add {}).reasons = []) :
    (headers.foldl Gate.add {}).neverOptimized = false ∧ (∀ f ∈ headers, Accounted f) ∧
      (headers.foldl Gate.add {}).carried = headers.filter (contains kAllowlist ·.name) := by
  induction headers using reverseRecOn with
  | nil => exact ⟨rfl, by simp, rfl⟩
  | append_singleton headers field ih =>
    rw [foldl_append, foldl_cons, foldl_nil] at h ⊢
    rcases Gate.add_cases (headers.foldl Gate.add {}) field
      with ⟨reason, hreason⟩ | ⟨hsame, hnever, hfield, hcarried⟩
    · rw [h] at hreason
      simp at hreason
    · obtain ⟨hold, hall, hkept⟩ := ih (hsame.symm.trans h)
      refine ⟨hnever.trans hold, ?_, ?_⟩
      · exact forall_mem_append.2 ⟨hall, forall_mem_singleton.2 hfield⟩
      · rw [hcarried, hkept, filter_append]

/-- What is settled without a reason was without one before, and keeps what it has carried. -/
theorem settle_eq {g : Gate} (h : g.settle.reasons = []) : g.settle = g ∧ g.reasons = [] ∧
    (g.carried ≠ [] → g.carried.length ≤ 0xFFFF) := by
  unfold Gate.settle at h ⊢
  simp only at h ⊢
  by_cases hvary : g.sawVary ∧ varyUncacheable g.combinedVary
  · rw [if_pos hvary] at h
    split_ifs at h <;> simp [Gate.addReason] at h
  · rw [if_neg hvary] at h ⊢
    by_cases hlarge : g.carried ≠ [] ∧
      (g.carried.length > 0xFFFF ∨ encodedSize g.carried > kMaxHeadersSidecarPayloadBytes)
    · rw [if_pos hlarge] at h
      simp [Gate.addReason] at h
    · rw [if_neg hlarge] at h ⊢
      refine ⟨rfl, h, fun hne => ?_⟩
      by_contra hlen
      exact hlarge ⟨hne, .inl (by omega)⟩

/-! ## The codec -/

/-- What a response without an objection has in its payload: the layout of the fields of the
allowlist. -/
theorem payload_of_swapEligible
    (h : (classifyForHeadersSidecar headers).verdict = .swapEligible) :
    (∀ f ∈ headers, Accounted f) ∧
      ((classifyForHeadersSidecar headers).payload = [] ↔
        headers.filter (contains kAllowlist ·.name) = []) ∧
      (headers.filter (contains kAllowlist ·.name) ≠ [] →
        parseHeadersSidecar (classifyForHeadersSidecar headers).payload =
          some (headers.filter (contains kAllowlist ·.name))) := by
  have hreasons : (headers.foldl Gate.add {}).settle.reasons = [] := by
    by_contra hne
    unfold classifyForHeadersSidecar at h
    simp only [hne, ne_eq, not_false_eq_true, if_true] at h
    split_ifs at h
  obtain ⟨hsettle, hopen, hcount⟩ := settle_eq hreasons
  obtain ⟨hnever, hall, hcarried⟩ := carried_eq hopen
  have hpayload : (classifyForHeadersSidecar headers).payload =
      if headers.filter (contains kAllowlist ·.name) = [] then []
      else encodeFields (headers.filter (contains kAllowlist ·.name)) := by
    unfold classifyForHeadersSidecar
    simp only [hsettle, hnever, hopen, hcarried]
    split_ifs <;> simp_all
  have hfits : ∀ f ∈ headers.filter (contains kAllowlist ·.name), Fits f := by
    intro f hf
    obtain ⟨hmem, hallow⟩ := mem_filter.1 hf
    obtain ⟨hrep, hstamped⟩ := not_contains_of_allowlist hallow
    have hacc := hall f hmem
    simp only [Accounted, hrep, hstamped, Bool.false_eq_true, false_or] at hacc
    exact hacc.2
  rw [hcarried] at hcount
  refine ⟨hall, ?_, fun hne => ?_⟩
  · rw [hpayload]
    constructor
    · intro hempty
      by_contra hne
      rw [if_neg hne, encodeFields] at hempty
      cases hempty
    · intro hnil
      rw [if_pos hnil]
  · rw [hpayload, if_neg hne]
    exact parse_encode hfits (hcount hne)

/-- **The headers sidecar loses no header.** A response that may be optimized in place has its
headers reproduced, stamped, or in the payload, and the payload parses to the fields of the
allowlist, as they were and in their order (it is empty if there are none); and what parses is the
layout of its fields. -/
theorem sidecar_codec :
    (∀ headers : List HeaderField, (classifyForHeadersSidecar headers).verdict = .swapEligible →
      (∀ f ∈ headers, contains kReproducedByEntryMetadata f.name ∨
        contains kStampedPerResponse f.name ∨
        ∃ fields, parseHeadersSidecar (classifyForHeadersSidecar headers).payload = some fields ∧
          f ∈ fields) ∧
      ((classifyForHeadersSidecar headers).payload = [] ↔
        headers.filter (contains kAllowlist ·.name) = []) ∧
      (headers.filter (contains kAllowlist ·.name) ≠ [] →
        parseHeadersSidecar (classifyForHeadersSidecar headers).payload =
          some (headers.filter (contains kAllowlist ·.name)))) ∧
    ∀ (payload : Bytes) (fields : List HeaderField), parseHeadersSidecar payload = some fields →
      encodeFields fields = payload := by
  refine ⟨fun headers h => ?_, fun payload fields => encode_of_parse⟩
  obtain ⟨hall, hempty, hparse⟩ := payload_of_swapEligible h
  refine ⟨fun f hf => ?_, hempty, hparse⟩
  rcases hall f hf with hrep | hstamped | ⟨hallow, -⟩
  · exact .inl hrep
  · exact .inr (.inl hstamped)
  · have hmem : f ∈ headers.filter (contains kAllowlist ·.name) := mem_filter.2 ⟨hf, hallow⟩
    exact .inr (.inr ⟨_, hparse (ne_nil_of_mem hmem), hmem⟩)

/-- A reproduced, a stamped and an allowlisted field: the third one is in the payload. -/
theorem sidecar_codec_vary :
    let headers : List HeaderField :=
      [⟨lit "ETag", lit "1"⟩, ⟨lit "Date", lit "now"⟩, ⟨lit "Link", lit "</a>; rel=preload"⟩]
    (classifyForHeadersSidecar headers).verdict = .swapEligible ∧
      parseHeadersSidecar (classifyForHeadersSidecar headers).payload =
        some [⟨lit "Link", lit "</a>; rel=preload"⟩] ∧
      encodeFields [⟨lit "Link", lit "</a>; rel=preload"⟩] =
        (classifyForHeadersSidecar headers).payload := by
  intro headers
  have hverdict : (classifyForHeadersSidecar headers).verdict = .swapEligible := by decide +kernel
  have hfilter : headers.filter (contains kAllowlist ·.name) =
      [⟨lit "Link", lit "</a>; rel=preload"⟩] := by
    decide +kernel
  have hparse := (sidecar_codec.1 headers hverdict).2.2 (by rw [hfilter]; nofun)
  rw [hfilter] at hparse
  exact ⟨hverdict, hparse, sidecar_codec.2 _ _ hparse⟩

end PageSpeed.Cache
