import Mathlib.Data.List.Destutter
import PageSpeed.Spec.HttpFields

/-!
# The headers sidecar

`lib/cache/vary_storability.cc` and `lib/cache/headers_sidecar.cc`: the gate that decides whether
all headers of a response can be reproduced, the block that carries some of them, and its parser.
-/

namespace PageSpeed.Cache

open Wire

/-! ## Vary -/

/-- Whether the `Vary` header lets a response be stored, and whether it names `Accept`. -/
structure VaryStoreVerdict where
  storable : Bool := true
  variesAccept : Bool := false
  deriving DecidableEq

/-- The request headers that the cache tells apart itself. -/
def kAllowedVary : List Bytes := ["Accept-Encoding", "User-Agent", "Accept", "Save-Data"].map lit

/-- The loop over the list members. The first one that is not allowed ends it. -/
def classifyVaryTokens : VaryStoreVerdict → List Bytes → VaryStoreVerdict
  | verdict, [] => verdict
  | verdict, token :: tokens =>
    let token := trimOws token
    if token = [] then classifyVaryTokens verdict tokens
    else if token = lit "*" then { storable := false, variesAccept := false }
    else if kAllowedVary.any (asciiEqualsIgnoreCase token ·) = false then
      { storable := false, variesAccept := false }
    else if asciiEqualsIgnoreCase token (lit "Accept") then
      classifyVaryTokens { verdict with variesAccept := true } tokens
    else classifyVaryTokens verdict tokens

/-- The verdict on the lines of `Vary` as one. -/
def classifyVaryForStore (combinedVary : Bytes) : VaryStoreVerdict :=
  classifyVaryTokens {} (commaTokens combinedVary)

/-- A `Vary` that rules out a stored copy. -/
def varyUncacheable (combinedVary : Bytes) : Bool := !(classifyVaryForStore combinedVary).storable

/-! ## Names and values -/

/-- Membership up to case. -/
def contains (set : List Bytes) (name : Bytes) : Bool := set.any (asciiEqualsIgnoreCase · name)

/-- A header name is a token. -/
def isFieldName (name : Bytes) : Bool := name ≠ [] ∧ name.all isTokenChar

/-- A value that cannot end its line. -/
def isStorableFieldValue (value : Bytes) : Bool :=
  value.all fun c => c ≠ ch '\r' ∧ c ≠ ch '\n' ∧ c ≠ 0

/-- The headers that are stored with a response. -/
def kAllowlist : List Bytes :=
  ["content-security-policy", "access-control-allow-origin", "x-content-type-options",
    "referrer-policy", "cross-origin-opener-policy", "cross-origin-embedder-policy",
    "cross-origin-resource-policy", "permissions-policy", "vary", "link",
    "strict-transport-security", "x-frame-options", "x-xss-protection",
    "x-permitted-cross-domain-policies", "origin-agent-cluster", "x-dns-prefetch-control",
    "timing-allow-origin", "access-control-expose-headers", "reporting-endpoints", "nel",
    "x-powered-by", "x-pingback", "x-robots-tag", "content-language", "content-disposition",
    "alt-svc", "allow"].map lit

/-- The headers that the metadata of the entry stands for. -/
def kReproducedByEntryMetadata : List Bytes :=
  ["cache-control", "content-type", "content-length", "etag", "last-modified", "expires"].map lit

/-- The headers that are made anew for every response. -/
def kStampedPerResponse : List Bytes :=
  ["date", "server", "connection", "keep-alive", "transfer-encoding", "age",
    "accept-ranges"].map lit

/-! ## Nonces -/

/-- The text begins with the word, without regard to case. -/
def startsIgnoreCase (text word : Bytes) : Bool :=
  asciiEqualsIgnoreCase (text.take word.length) word

/-- A policy with a nonce, which is good for one response only. -/
def cspCarriesNonce (cspValue : Bytes) : Bool :=
  cspValue.tails.any (startsIgnoreCase · (lit "nonce-"))

/-- The loop over a `Link` value: inside of a `<...>` target, or of a quoted string. Behind a
backslash in quotes the loop looks at the next character. -/
def linkScan : (inTarget inQuotes : Bool) → Bytes → Bool
  | inTarget, _, [] => inTarget
  | true, inQuotes, c :: rest =>
    if c ≠ ch '>' then linkScan true inQuotes rest
    else startsIgnoreCase (c :: rest) (lit "nonce") || linkScan false inQuotes rest
  | false, true, c :: rest =>
    if c = ch '\\' then
      match rest with
      | [] => startsIgnoreCase [c] (lit "nonce") || linkScan false true []
      | d :: rest => startsIgnoreCase (d :: rest) (lit "nonce") || linkScan false true rest
    else startsIgnoreCase (c :: rest) (lit "nonce") || linkScan false (c ≠ ch '"') rest
  | false, false, c :: rest =>
    if c = ch '"' then startsIgnoreCase (c :: rest) (lit "nonce") || linkScan false true rest
    else if c = ch '<' then linkScan true false rest
    else startsIgnoreCase (c :: rest) (lit "nonce") || linkScan false false rest

/-- A `Link` with a nonce parameter. -/
def linkCarriesNonce (linkValue : Bytes) : Bool := linkScan false false linkValue

/-! ## The gate -/

/-- What may be done with a response of these headers. -/
inductive SidecarVerdict
  | swapEligible
  | fallThrough
  | neverOptimized
  deriving DecidableEq

/-- The verdict with its reasons, and the block to store. -/
structure SidecarClassification where
  verdict : SidecarVerdict := .swapEligible
  reasons : List Bytes := []
  payload : Bytes := []
  fields : ℕ := 0
  deriving DecidableEq

/-- The version in the first byte of a block. -/
def kHeadersSidecarFormatVersion : UInt8 := 1

/-- The largest block that is stored. -/
def kMaxHeadersSidecarPayloadBytes : ℕ := 8 * 1024

/-- The longest name that its length byte can give. -/
def kMaxHeadersSidecarNameBytes : ℕ := 255

/-- The longest value that its two length bytes can give. -/
def kMaxHeadersSidecarValueBytes : ℕ := 65535

/-- What the loop over the header lines has gathered. -/
structure Gate where
  carried : List HeaderField := []
  combinedVary : Bytes := []
  sawVary : Bool := false
  neverOptimized : Bool := false
  reasons : List Bytes := []

/-- One more reason against the response. -/
def Gate.addReason (g : Gate) (reason : Bytes) : Gate := { g with reasons := g.reasons ++ [reason] }

/-- Several `Vary` lines are one list. -/
def Gate.addVary (g : Gate) (field : HeaderField) : Gate :=
  if asciiEqualsIgnoreCase field.name (lit "vary") then
    { g with
      sawVary := true
      combinedVary := (if g.combinedVary ≠ [] then g.combinedVary ++ [ch ',']
        else g.combinedVary) ++ field.value }
  else g

/-- One header: against the response, carried, or passed over. -/
def Gate.add (g : Gate) (field : HeaderField) : Gate :=
  if asciiEqualsIgnoreCase field.name (lit "content-security-policy") ∧
      cspCarriesNonce field.value then
    ({ g with neverOptimized := true } : Gate).addReason (lit "nonce-csp")
  else if asciiEqualsIgnoreCase field.name (lit "link") ∧ linkCarriesNonce field.value then
    ({ g with neverOptimized := true } : Gate).addReason (lit "nonce-link")
  else if isFieldName field.name = false ∨ isStorableFieldValue field.value = false then
    g.addReason (lit "malformed-field:" ++ asciiLower field.name)
  else
    let g := g.addVary field
    if contains kReproducedByEntryMetadata field.name ∨
        contains kStampedPerResponse field.name then g
    else if contains kAllowlist field.name = false then
      g.addReason (lit "unreconstructible-header:" ++ asciiLower field.name)
    else if field.name.length > kMaxHeadersSidecarNameBytes ∨
        field.value.length > kMaxHeadersSidecarValueBytes then
      g.addReason (lit "field-too-large:" ++ asciiLower field.name)
    else { g with carried := g.carried ++ [field] }

/-- The size of the block before it is built. -/
def encodedSize (carried : List HeaderField) : ℕ :=
  3 + (carried.map fun field => 3 + field.name.length + field.value.length).sum

/-- What follows the loop: the list of all `Vary` lines, and the size of the block. -/
def Gate.settle (g : Gate) : Gate :=
  let g :=
    if g.sawVary ∧ varyUncacheable g.combinedVary then
      g.addReason (lit "vary-unstorable:" ++ g.combinedVary) else g
  if g.carried ≠ [] ∧ (g.carried.length > 0xFFFF ∨ encodedSize g.carried >
    kMaxHeadersSidecarPayloadBytes) then
    { g.addReason (lit "sidecar-too-large") with carried := [] }
  else g

/-- The two lengths, the name, the value. -/
def encodeField (field : HeaderField) : Bytes :=
  UInt8.ofNat field.name.length :: (beBytes 2 field.value.length ++ (field.name ++ field.value))

/-- The payload layout: version, count, and the fields with their lengths in front. -/
def encodeFields (carried : List HeaderField) : Bytes :=
  kHeadersSidecarFormatVersion :: (beBytes 2 carried.length ++ carried.flatMap encodeField)

/-- `std::sort` and `std::unique`: strings are compared byte by byte. -/
def sortUnique (reasons : List Bytes) : List Bytes :=
  (reasons.insertionSort fun a b => a.map UInt8.toNat ≤ b.map UInt8.toNat).destutter (· ≠ ·)

/-- The classification of a response by its headers; the block is made only if nothing speaks
against it. -/
def classifyForHeadersSidecar (headers : List HeaderField) : SidecarClassification :=
  let g := (headers.foldl Gate.add {}).settle
  let verdict : SidecarVerdict :=
    if g.neverOptimized then .neverOptimized else if g.reasons ≠ [] then .fallThrough
    else .swapEligible
  let result : SidecarClassification := { verdict, reasons := sortUnique g.reasons }
  if verdict ≠ .swapEligible ∨ g.carried = [] then result
  else { result with payload := encodeFields g.carried, fields := g.carried.length }

/-! ## The parser -/

/-- So many fields off the front of the bytes, and what is left. -/
def parseFields : ℕ → Bytes → Option (List HeaderField × Bytes)
  | 0, bytes => some ([], bytes)
  | n + 1, nameLen :: v₁ :: v₀ :: bytes =>
    let valueLen := beNat [v₁, v₀]
    if nameLen = 0 then none
    else if bytes.length < nameLen.toNat then none
    else if bytes.length - nameLen.toNat < valueLen then none
    else
      let field : HeaderField :=
        ⟨bytes.take nameLen.toNat, (bytes.drop nameLen.toNat).take valueLen⟩
      (parseFields n (bytes.drop (nameLen.toNat + valueLen))).map fun r => (field :: r.1, r.2)
  | _ + 1, _ => none

/-- A block is read as a whole or not at all. -/
def parseHeadersSidecar : Bytes → Option (List HeaderField)
  | version :: c₁ :: c₀ :: bytes =>
    if version ≠ kHeadersSidecarFormatVersion then none
    else
      match parseFields (beNat [c₁, c₀]) bytes with
      | some (fields, []) => some fields
      | _ => none
  | _ => none

end PageSpeed.Cache
