import PageSpeed.Wire.Window

/-!
# Alternate metadata

The metadata blob in front of every cached alternate (`lib/classify/alternate_metadata`),
its writer (`serialize`), its reader for versions 3 to 9 (`deserialize`) and the offset
computation of the cache (`parseMetadataPrefix`, `lib/cache/cache.cc`).

Every read of the blob goes through `readAt`, so a read past its end is a fault and not
a rejection.
-/

namespace PageSpeed

open Wire

/-- `ContentType`, with the byte values of the source. -/
inductive ContentType
  | kHtml
  | kCss
  | kJs
  | kImage
  | kOther
  deriving DecidableEq, Repr

namespace ContentType

/-- The byte of a content type. -/
def toByte : ContentType → UInt8
  | kHtml => 0
  | kCss => 1
  | kJs => 2
  | kImage => 3
  | kOther => 4

/-- The range check and cast of a content-type byte: above `kOther` is refused. -/
def ofByte? (b : UInt8) : Option ContentType :=
  if b > kOther.toByte then none
  else if b = 0 then some kHtml
  else if b = 1 then some kCss
  else if b = 2 then some kJs
  else if b = 3 then some kImage
  else some kOther

@[simp] theorem ofByte?_toByte (t : ContentType) : ofByte? t.toByte = some t := by
  cases t <;> decide

end ContentType

/-- The transfer-encoding bits of a capability mask (`CapabilityMask::Decode`). -/
def transferEncoding (mask : UInt32) : UInt32 := (mask >>> 6) &&& 3

/-- The encodings in a mask. -/
def kGzip : UInt32 := 1

/-- Brotli. -/
def kBrotli : UInt32 := 2

/-- The sentinel alternate id of a page's Markdown version. -/
def kAgentMarkdown : UInt8 := 0x7C

namespace AlternateMetadata

/-- The version that is written. -/
def kCurrentVersion : UInt8 := 9

/-- The part of every version in front of the origin's content type. -/
def kFixedPrefixSize : ℕ := 9

/-- The fixed part behind it, up to the length of the entity tag. -/
def kV5FixedSuffixSize : ℕ := 23

/-- With the content length of the origin. -/
def kV6FixedSuffixSize : ℕ := 27

/-- With two hashes. -/
def kV7FixedSuffixSize : ℕ := kV6FixedSuffixSize + 64

/-- With the epoch and the length of the `Cache-Control` value. -/
def kV8FixedSuffixSize : ℕ := kV7FixedSuffixSize + 8 + 2

/-- The size of a hash. -/
def kHashSize : ℕ := 32

/-- The longest content type. -/
def kMaxOriginCtLen : ℕ := 256

/-- The longest `Cache-Control` value. -/
def kMaxOriginCcLen : ℕ := 256

/-- No score. -/
def kScoreNA : UInt16 := 0xFFFF

/-- The best score. -/
def kMaxScoreX100 : UInt16 := 10000

/-- From here on the field holds a ratio of sizes. -/
def kEncodedRatioBase : UInt16 := kMaxScoreX100 + 1

/-- The steps of that ratio. -/
def kEncodedRatioScale : ℕ := 50000

/-- The class of a page that was not classified. -/
def kContentClassUnknown : UInt8 := 4

/-- The worker has made the alternate. -/
def kFlagWorkerProcessed : UInt8 := 0x02

end AlternateMetadata

open AlternateMetadata in
/-- A content-binding hash: exactly `kHashSize` bytes. -/
structure Hash where
  bytes : Bytes
  length_eq : bytes.length = kHashSize
  deriving DecidableEq

namespace Hash

/-- The all-zero hash, "no binding". -/
def zero : Hash := ⟨List.replicate AlternateMetadata.kHashSize 0, by simp⟩

end Hash

open AlternateMetadata in
/-- The block in front of the content of an alternate. -/
structure AlternateMetadata where
  version : UInt8 := kCurrentVersion
  fullMask : UInt32 := 0
  contentType : ContentType := .kOther
  flags : UInt8 := 0
  originContentType : Bytes := []
  wireCtLen : UInt16 := 0
  wireCcLen : UInt16 := 0
  cacheInsertedAt : UInt32 := 0
  originMaxAge : UInt32 := 0
  originSMaxage : UInt32 := 0
  originCcFlags : UInt16 := 0
  ssimulacra2ScoreX100 : UInt16 := kScoreNA
  contentClass : UInt8 := kContentClassUnknown
  originLastModified : UInt32 := 0
  originEtag : Bytes := []
  originContentLength : UInt32 := 0
  originHtmlHash : Hash := Hash.zero
  renderSourceHash : Hash := Hash.zero
  originEpoch : UInt64 := 0
  originCacheControl : Bytes := []
  consumedSize : ℕ := 0
  deriving DecidableEq

/-- CR, LF and NUL are dropped from every stored header value. -/
def stripHeaderControlChars (s : Bytes) : Bytes :=
  s.filter fun c => c ≠ ch '\r' ∧ c ≠ ch '\n' ∧ c ≠ 0

namespace AlternateMetadata

/-- The mask names gzip or brotli transfer encoding. -/
def isEncodedMask (mask : UInt32) : Bool :=
  transferEncoding mask = kGzip ∨ transferEncoding mask = kBrotli

/-- A compressed copy. -/
def isEncodedVariant (m : AlternateMetadata) : Bool := isEncodedMask m.fullMask

/-- The size of the origin bytes under this entry's own transfer encoding. -/
def encodedOriginLength (m : AlternateMetadata) : Option UInt32 :=
  if m.originContentLength = 0 then none
  else if !m.isEncodedVariant then some m.originContentLength
  else if m.ssimulacra2ScoreX100 < kEncodedRatioBase ∨ m.ssimulacra2ScoreX100 = kScoreNA then none
  else
    let code := m.ssimulacra2ScoreX100.toNat - kEncodedRatioBase.toNat
    let encoded :=
      (code * m.originContentLength.toNat + kEncodedRatioScale / 2) / kEncodedRatioScale
    if encoded > 0xFFFFFFFF then none else some (.ofNat encoded)

/-- Stores the encoded size of a coded entry as a rounded fraction of the origin's. -/
def setEncodedOriginLength (m : AlternateMetadata) (encodedBytes : UInt64) : AlternateMetadata :=
  if !m.isEncodedVariant then m
  else if m.originContentLength = 0 then { m with ssimulacra2ScoreX100 := kScoreNA }
  else
    let length := m.originContentLength.toNat
    let code := (encodedBytes.toNat * kEncodedRatioScale + length / 2) % 2 ^ 64 / length
    { m with ssimulacra2ScoreX100 :=
        if code ≤ (kScoreNA - 1 - kEncodedRatioBase).toNat then
          .ofNat (kEncodedRatioBase.toNat + code)
        else kScoreNA }

/-- Version-aware wire size, from the size constants. -/
def wireSize (m : AlternateMetadata) : ℕ :=
  if m.version ≥ 8 then
    kFixedPrefixSize + m.wireCtLen.toNat + kV8FixedSuffixSize + m.originEtag.length +
      m.wireCcLen.toNat
  else if m.version ≥ 7 then
    kFixedPrefixSize + m.wireCtLen.toNat + kV7FixedSuffixSize + m.originEtag.length
  else if m.version ≥ 6 then
    kFixedPrefixSize + m.wireCtLen.toNat + kV6FixedSuffixSize + m.originEtag.length
  else if m.version ≥ 5 then
    kFixedPrefixSize + m.wireCtLen.toNat + kV5FixedSuffixSize + m.originEtag.length
  else
    kFixedPrefixSize + m.wireCtLen.toNat + (if m.version ≥ 4 then 17 else 14)

/-! ## Writing -/

/-- The Cache-Control string as it is stored: over the cap after stripping is stored as
absent, not cut. -/
def storedCacheControl (m : AlternateMetadata) : Bytes :=
  let sanitizedCc := stripHeaderControlChars m.originCacheControl
  if sanitizedCc.length > kMaxOriginCcLen then [] else sanitizedCc

/-- The fields `Serialize` hands to its cursor, in call order. -/
def serializeFields (m : AlternateMetadata) : List Bytes :=
  let sanitized := stripHeaderControlChars m.originContentType
  let sanitizedCc := m.storedCacheControl
  let ctLen := UInt16.ofNat (min kMaxOriginCtLen sanitized.length)
  let etagLen := UInt16.ofNat (min 65535 m.originEtag.length)
  let ccLen := UInt16.ofNat sanitizedCc.length
  [Scalar.toLe kCurrentVersion, Scalar.toLe m.fullMask, Scalar.toLe m.contentType.toByte,
    Scalar.toLe m.flags, Scalar.toLe ctLen,
    sanitized.take ctLen.toNat,
    Scalar.toLe m.cacheInsertedAt, Scalar.toLe m.originMaxAge, Scalar.toLe m.originSMaxage,
    Scalar.toLe m.originCcFlags,
    Scalar.toLe m.ssimulacra2ScoreX100, Scalar.toLe m.contentClass,
    Scalar.toLe m.originLastModified, Scalar.toLe etagLen, m.originEtag.take etagLen.toNat,
    Scalar.toLe m.originContentLength,
    m.originHtmlHash.bytes, m.renderSourceHash.bytes,
    Scalar.toLe m.originEpoch, Scalar.toLe ccLen, sanitizedCc.take ccLen.toNat]

/-- The size `Serialize` allocates before it writes anything. -/
def serializedSize (m : AlternateMetadata) : ℕ :=
  let sanitized := stripHeaderControlChars m.originContentType
  let ctLen := UInt16.ofNat (min kMaxOriginCtLen sanitized.length)
  let etagLen := UInt16.ofNat (min 65535 m.originEtag.length)
  let ccLen := UInt16.ofNat m.storedCacheControl.length
  kFixedPrefixSize + ctLen.toNat + kV8FixedSuffixSize + etagLen.toNat + ccLen.toNat

/-- `Serialize`: a zeroed buffer of the computed size, filled by the cursor. -/
def serialize (m : AlternateMetadata) : Bytes :=
  ((Cursor.mk (List.replicate m.serializedSize 0) 0).writeAll m.serializeFields).out

/-! ## Reading -/

/-- True for an HTML page, or a worker-written Markdown version, below version 9. -/
def isRetired (data : Bytes) : Except Fault Bool := do
  if data.length < 7 then return false
  let version ← readByte data 0
  if version < 3 ∨ version ≥ 9 then return false
  let contentType ← readByte data 5
  if contentType = ContentType.kHtml.toByte then return true
  let maskLowByte ← readByte data 1
  let flags ← readByte data 6
  return decide ((flags &&& kFlagWorkerProcessed) ≠ 0 ∧ maskLowByte = kAgentMarkdown)

/-- The fields of version 3. -/
def parseCacheControlFields (m : AlternateMetadata) (data : Bytes) (suffixOffset : ℕ) :
    Except Fault AlternateMetadata := do
  let cacheInsertedAt ← readScalar UInt32 data suffixOffset
  let originMaxAge ← readScalar UInt32 data (suffixOffset + 4)
  let originSMaxage ← readScalar UInt32 data (suffixOffset + 8)
  let originCcFlags ← readScalar UInt16 data (suffixOffset + 12)
  return { m with cacheInsertedAt, originMaxAge, originSMaxage, originCcFlags }

/-- The score clamp of the reader: above the maximum is "not available", unless the entry
is gzip or brotli coded. -/
def clampScore (encoded : Bool) (score : UInt16) : UInt16 :=
  if score > kMaxScoreX100 ∧ score ≠ kScoreNA ∧ encoded = false then kScoreNA else score

/-- An unknown class for a byte that is none. -/
def clampContentClass (c : UInt8) : UInt8 :=
  if c > kContentClassUnknown then kContentClassUnknown else c

/-- The fields that version 4 adds. -/
def parseV4Fields (m : AlternateMetadata) (data : Bytes) (suffixOffset : ℕ) :
    Except Fault AlternateMetadata := do
  let score ← readScalar UInt16 data (suffixOffset + 14)
  let contentClass ← readByte data (suffixOffset + 16)
  return { m with
    ssimulacra2ScoreX100 := clampScore m.isEncodedVariant score
    contentClass := clampContentClass contentClass }

/-- The V5 fields and the wire ETag length, `none` when the blob is too short for them. -/
def parseV5Fields (m : AlternateMetadata) (data : Bytes) (suffixOffset ctLen : ℕ) :
    Except Fault (Option (AlternateMetadata × ℕ)) := do
  let originLastModified ← readScalar UInt32 data (suffixOffset + 17)
  let etagLen ← readScalar UInt16 data (suffixOffset + 21)
  let fixedSuffix :=
    if m.version ≥ 8 then kV8FixedSuffixSize
    else if m.version ≥ 7 then kV7FixedSuffixSize
    else if m.version ≥ 6 then kV6FixedSuffixSize
    else kV5FixedSuffixSize
  if data.length < kFixedPrefixSize + ctLen + fixedSuffix + etagLen.toNat then return none
  let originEtag ← if etagLen > 0 then readAt data (suffixOffset + 23) etagLen.toNat
    else pure m.originEtag
  return some ({ m with originLastModified, originEtag }, etagLen.toNat)

/-- The field that version 6 adds. -/
def parseV6Fields (m : AlternateMetadata) (data : Bytes) (suffixOffset etagLen : ℕ) :
    Except Fault AlternateMetadata := do
  let originContentLength ← readScalar UInt32 data (suffixOffset + 23 + etagLen)
  return { m with originContentLength }

/-- A hash read: the bytes with the proof that there are `kHashSize` of them. -/
def readHash (data : Bytes) (off : ℕ) : Except Fault Hash :=
  if h : off + kHashSize ≤ data.length then .ok ⟨slice data off kHashSize, length_slice h⟩
  else .error .overread

/-- The fields that version 7 adds. -/
def parseV7Fields (m : AlternateMetadata) (data : Bytes) (suffixOffset etagLen : ℕ) :
    Except Fault AlternateMetadata := do
  let base := suffixOffset + 23 + etagLen + 4
  let originHtmlHash ← readHash data base
  let renderSourceHash ← readHash data (base + kHashSize)
  return { m with originHtmlHash, renderSourceHash }

/-- The fields that version 8 adds. -/
def parseV8Fields (m : AlternateMetadata) (data : Bytes) (suffixOffset ctLen etagLen : ℕ) :
    Except Fault (Option AlternateMetadata) := do
  let base := suffixOffset + 23 + etagLen + 4 + 2 * kHashSize
  let originEpoch ← readScalar UInt64 data base
  let ccLen ← readScalar UInt16 data (base + 8)
  if ccLen.toNat > kMaxOriginCcLen then return none
  if data.length < kFixedPrefixSize + ctLen + kV8FixedSuffixSize + etagLen + ccLen.toNat then
    return none
  let originCacheControl ← if ccLen > 0 then
      (readAt data (base + 10) ccLen.toNat).map stripHeaderControlChars
    else pure m.originCacheControl
  return some { m with originEpoch, wireCcLen := ccLen, originCacheControl }

/-- `if (meta.version >= v) ...`: the parse happens from version `v` on. -/
def since {α : Type} (m : AlternateMetadata) (v : UInt8) (parse : Except Fault α) (otherwise : α) :
    Except Fault α :=
  if m.version ≥ v then parse else .ok otherwise

/-- The version-dependent part of the reader, after the cache-control fields. -/
def parseVersionFields (m : AlternateMetadata) (data : Bytes) (suffixOffset ctLen : ℕ) :
    Except Fault (Option AlternateMetadata) := do
  let m ← m.since 4 (m.parseV4Fields data suffixOffset) m
  let some (m, etagLen) ← m.since 5 (m.parseV5Fields data suffixOffset ctLen) (some (m, 0))
    | return none
  let m ← m.since 6 (m.parseV6Fields data suffixOffset etagLen) m
  let m ← m.since 7 (m.parseV7Fields data suffixOffset etagLen) m
  m.since 8 (m.parseV8Fields data suffixOffset ctLen etagLen) (some m)

/-- The consumed byte count, summed field by field. -/
def consumed (m : AlternateMetadata) (ctLen : ℕ) : ℕ :=
  (1 + 4 + 1 + 1 + 2) + ctLen + (4 + 4 + 4 + 2) +
    (if m.version ≥ 4 then 2 + 1 else 0) +
    (if m.version ≥ 5 then 4 + 2 + m.originEtag.length else 0) +
    (if m.version ≥ 6 then 4 else 0) +
    (if m.version ≥ 7 then 64 else 0) +
    (if m.version ≥ 8 then 8 + 2 + m.wireCcLen.toNat else 0)

/-- The size of the suffix that every blob of a version must have room for. -/
def suffixSize (version : UInt8) : ℕ :=
  if version ≥ 8 then kV8FixedSuffixSize
  else if version ≥ 7 then kV7FixedSuffixSize
  else if version ≥ 6 then kV6FixedSuffixSize
  else if version ≥ 5 then kV5FixedSuffixSize
  else if version ≥ 4 then 17
  else 14

/-- The block at the front of the data, `none` if it is not one. A read outside of the data is a
fault. -/
def deserialize (data : Bytes) : Except Fault (Option AlternateMetadata) := do
  if data.length < kFixedPrefixSize then return none
  let version ← readByte data 0
  if version < 3 ∨ version > kCurrentVersion then return none
  let fullMask ← readScalar UInt32 data 1
  let ctRaw ← readByte data 5
  let some contentType := ContentType.ofByte? ctRaw | return none
  let flags ← readByte data 6
  if ← isRetired data then return none
  let ctLen ← readScalar UInt16 data 7
  if ctLen.toNat > kMaxOriginCtLen then return none
  if data.length < kFixedPrefixSize + ctLen.toNat + suffixSize version then return none
  let ct ← readAt data kFixedPrefixSize ctLen.toNat
  let suffixOffset := kFixedPrefixSize + ctLen.toNat
  let m : AlternateMetadata :=
    { version, fullMask, contentType, flags, wireCtLen := ctLen,
      originContentType := stripHeaderControlChars ct }
  let m ← m.parseCacheControlFields data suffixOffset
  let some m ← m.parseVersionFields data suffixOffset ctLen.toNat | return none
  return some { m with consumedSize := m.consumed ctLen.toNat }

end AlternateMetadata

/-- The size of the metadata prefix of a stored content and the metadata it holds; `none`
stands for the source's prefix size 0. -/
def parseMetadataPrefix (content : Bytes) : Except Fault (Option (ℕ × AlternateMetadata)) := do
  if content.length < AlternateMetadata.kFixedPrefixSize then return none
  let some m ← AlternateMetadata.deserialize content | return none
  if m.consumedSize ≠ m.wireSize ∨ m.consumedSize > content.length then return none
  return some (m.consumedSize, m)

end PageSpeed
