import PageSpeed.Spec.Metadata

/-!
# Choosing an alternate

The score of a stored alternate for a client (`ScoreAlternate`) and the scan that picks
one (`PageSpeedSelector::select`), from `lib/classify/pagespeed_selector.cc`. Of an
alternate's record the scan reads the id alone.
-/

namespace PageSpeed

open Wire

/-- The sentinel alternate id of the durable original content. -/
def kOriginalContent : UInt8 := 0x0C

/-- The viewport bits of an alternate id are 3. -/
def isSentinel (id : UInt8) : Bool := ((id >>> 2) &&& 0x03) = 0x03

namespace PageSpeedSelector

/-- The format that fits every client. -/
def kSvgFormat : ℕ := 3

/-- More than any sum of the other scores. -/
def kAgentMarkdownScore : ℤ := 100000

/-- The price of a small image for a client that did not ask for one. -/
def kSaveDataMismatchPenalty : ℤ := 980

/-- The fields of a mask: the image format. -/
def extractFormat (mask : UInt32) : ℕ := ((mask >>> 0) &&& 0x03).toNat

/-- The class of the viewport. -/
def extractViewport (mask : UInt32) : ℕ := ((mask >>> 2) &&& 0x03).toNat

/-- The pixel density. -/
def extractDensity (mask : UInt32) : ℕ := ((mask >>> 4) &&& 0x01).toNat

/-- Whether the client saves data. -/
def extractSaveData (mask : UInt32) : ℕ := ((mask >>> 5) &&& 0x01).toNat

/-- The content encoding. -/
def extractEncoding (mask : UInt32) : ℕ := ((mask >>> 6) &&& 0x03).toNat

/-- The stored image scales. -/
def isSvg (storedMask : UInt32) : Bool := extractFormat storedMask = kSvgFormat

/-- The format score; `none` is the hard disqualification. -/
def formatScore (clientMask storedMask : UInt32) : Option ℤ :=
  if isSvg storedMask then some 1200
  else if extractFormat clientMask = extractFormat storedMask then some 1000
  else if extractFormat storedMask = 0 then some 100
  else none

/-- An image for this viewport. -/
def viewportScore (clientMask storedMask : UInt32) : ℤ :=
  if isSvg storedMask ∨ extractViewport clientMask = extractViewport storedMask then 2000 else 0

/-- An image for this density. -/
def densityScore (clientMask storedMask : UInt32) : ℤ :=
  if isSvg storedMask ∨ extractDensity clientMask = extractDensity storedMask then 40 else 0

/-- An image for a client that saves data, or for one that does not. -/
def saveDataScore (clientMask storedMask : UInt32) : ℤ :=
  if isSvg storedMask ∧ extractSaveData clientMask = 1 then 50
  else if extractSaveData clientMask = extractSaveData storedMask then 20
  else if ¬ isSvg storedMask ∧ extractSaveData storedMask = 1 then -kSaveDataMismatchPenalty
  else 0

/-- The encoding score; `none` is the hard disqualification. -/
def encodingScore (clientMask storedMask : UInt32) : Option ℤ :=
  if extractEncoding clientMask = extractEncoding storedMask then some 60
  else if extractEncoding storedMask = 0 then some 5
  else none

/-- `ScoreAlternate`: the two disqualifications return 0, anything else at least 1. -/
def scoreAlternate (clientMask storedMask : UInt32) : ℤ :=
  if isSentinel (storedMask &&& 0xFF).toUInt8 then 0
  else
    match formatScore clientMask storedMask with
    | none => 0
    | some format =>
      let score := format + viewportScore clientMask storedMask +
        densityScore clientMask storedMask + saveDataScore clientMask storedMask
      match encodingScore clientMask storedMask with
      | none => 0
      | some encoding => if score + encoding > 0 then score + encoding else 1

/-- What the scan reads of a stored alternate. -/
structure AlternateInfo where
  id : UInt8
  deriving DecidableEq

/-- The client mask in the request metadata: its first four bytes, little-endian. -/
def clientMaskOf (requestMetadata : Bytes) : UInt32 :=
  if requestMetadata.length ≥ 4 then scalarAt UInt32 requestMetadata 0 else 0

/-- The flag byte of an entitled agent request. -/
def agentRequestOf (requestMetadata : Bytes) : Bool :=
  requestMetadata.length ≥ 5 ∧ scalarAt UInt8 requestMetadata 4 ≠ 0

/-- The running state of the scan. -/
structure Best where
  idx : Option ℕ := none
  score : ℤ := 0
  mask : UInt8 := 0

/-- The tie-break against the running best: format first, then the mask byte. -/
def breaksTie (altByte bestMask : UInt8) : Bool :=
  let candFmt := extractFormat altByte.toUInt32
  let bestFmt := extractFormat bestMask.toUInt32
  candFmt > bestFmt ∨ (candFmt = bestFmt ∧ altByte > bestMask)

/-- One iteration of the scan. The markdown arm leaves `mask` alone. -/
def scanStep (clientMask : UInt32) (agentRequest : Bool) (best : Best) : AlternateInfo × ℕ → Best
  | (alt, i) =>
    if isSentinel alt.id then
      if alt.id = kOriginalContent then best
      else if agentRequest ∧ alt.id = kAgentMarkdown ∧ kAgentMarkdownScore > best.score then
        { best with idx := some i, score := kAgentMarkdownScore }
      else best
    else
      let score := scoreAlternate clientMask alt.id.toUInt32
      let wins := score > best.score ∨
        (best.idx.isSome ∧ score = best.score ∧ breaksTie alt.id best.mask)
      if wins then ⟨some i, score, alt.id⟩ else best

/-- `PageSpeedSelector::select`: the index of the chosen alternate. -/
def select (alternates : List AlternateInfo) (requestMetadata : Bytes) : Option ℕ :=
  if alternates.isEmpty then none
  else (alternates.zipIdx.foldl
    (scanStep (clientMaskOf requestMetadata) (agentRequestOf requestMetadata)) {}).idx

end PageSpeedSelector

end PageSpeed
