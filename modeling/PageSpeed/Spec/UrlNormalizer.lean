import PageSpeed.Spec.StringUtil
import PageSpeed.Wire.Find
import Mathlib.Data.List.Destutter

/-!
# Cache url normalisation

`NormalizeCacheUrl` (`lib/classify/url_normalizer.cc`). The sort of the query parameters is
the library's `std::sort`, which is not stable: `StdSort` is any function that sorts.
-/

namespace PageSpeed

open Wire

/-! ## Percent-encoding -/

/-- A character that means the same with and without encoding. -/
def isUnreserved (c : UInt8) : Bool :=
  (c ≥ ch 'A' ∧ c ≤ ch 'Z') ∨ (c ≥ ch 'a' ∧ c ≤ ch 'z') ∨ (c ≥ ch '0' ∧ c ≤ ch '9') ∨
    c = ch '-' ∨ c = ch '.' ∨ c = ch '_' ∨ c = ch '~'

/-- A digit in upper case. -/
def upperHexDigit (v : ℕ) : UInt8 :=
  UInt8.ofNat (if v < 10 then (ch '0').toNat + v else (ch 'A').toNat + v - 10)

/-- Decode the unreserved, uppercase the rest. -/
def normalizePercentEncoding (input : Bytes) : Bytes :=
  transformPercentEncoded
    (fun decoded hi lo =>
      if isUnreserved decoded then [decoded] else [ch '%', upperHexDigit hi, upperHexDigit lo])
    (fun c => [c]) input

/-- One pass of decoding. -/
def percentDecode (input : Bytes) : Bytes :=
  transformPercentEncoded (fun decoded _ _ => [decoded]) (fun c => [c]) input

/-! ## Taking a url apart -/

/-- Strip scheme and authority when "://" comes before the first "/". -/
def extractSchemeAndAuthority (url : Bytes) : Bytes :=
  let firstSlash := find (lit "/") url
  match find (lit "://") url with
  | none => url
  | some schemeEnd =>
    if firstSlash.all fun s => schemeEnd < s then
      match findFrom (lit "/") url (schemeEnd + 3) with
      | some authorityEnd => url.drop authorityEnd
      | none => lit "/"
    else url

/-- A URL cut at its question mark. -/
structure PathAndQuery where
  path : Bytes
  query : Bytes := []
  hasQuery : Bool

/-- Strip the fragment, then split at the first question mark. -/
def extractPathAndQuery (url : Bytes) : PathAndQuery :=
  let url := url.takeWhile (· ≠ ch '#')
  match find (lit "?") url with
  | none => { path := url, hasQuery := false }
  | some qmark => { path := url.take qmark, query := url.drop (qmark + 1), hasQuery := true }

/-- A parameter of the query. -/
structure QueryParam where
  key : Bytes
  value : Bytes
  hasEquals : Bool
  deriving DecidableEq

/-- A parameter, split at its first equals sign. -/
def parseParam (param : Bytes) : QueryParam :=
  match find (lit "=") param with
  | none => ⟨param, [], false⟩
  | some eq => ⟨param.take eq, param.drop (eq + 1), true⟩

/-- The parameters between ampersands, empty ones skipped. -/
def parseQueryParams (query : Bytes) : List QueryParam :=
  ((query.splitOn (ch '&')).filter (· ≠ [])).map parseParam

/-- The lowercase extension of the last path segment, with its dot; empty if there is none. -/
def extractLowercaseExtension (url : Bytes) : Bytes :=
  let path := (url.takeWhile (· ≠ ch '?')).takeWhile (· ≠ ch '#')
  let segment := (path.reverse.takeWhile (· ≠ ch '/')).reverse
  let afterDot := (segment.reverse.takeWhile (· ≠ ch '.')).reverse
  if ch '.' ∉ segment ∨ afterDot = [] then [] else (ch '.' :: afterDot).map lowerChar

/-! ## Normalising -/

/-- The two sets the url normaliser reads. -/
structure UrlNormalizationConfig where
  stripQueryExtensions : List Bytes := []
  stripQueryParams : List Bytes := []

/-- The order of byte strings: `operator<` compares bytes as unsigned. -/
def bytesLess (a b : Bytes) : Bool := a.map UInt8.toNat < b.map UInt8.toNat

/-- The comparator of the sort. -/
def paramLess (a b : QueryParam) : Bool :=
  if a.key ≠ b.key then bytesLess a.key b.key else bytesLess a.value b.value

/-- The predicate of the dedup: the equals sign does not count. -/
def paramSame (a b : QueryParam) : Bool := a.key = b.key ∧ a.value = b.value

/-- A sorting function, as `std::sort` is: nothing is promised for ties. -/
structure StdSort where
  run : List QueryParam → List QueryParam
  perm : ∀ l, (run l).Perm l
  sorted : ∀ l, (run l).Pairwise fun a b => paramLess b a = false

/-- A parameter as it is written. -/
def QueryParam.text (p : QueryParam) : Bytes :=
  p.key ++ if p.hasEquals then ch '=' :: p.value else []

/-- Filter, sort and dedup. -/
def cookParams (sort : StdSort) (config : UrlNormalizationConfig) (params : List QueryParam) :
    List QueryParam :=
  (sort.run (params.filter fun p => p.key ∉ config.stripQueryParams)).destutter
    fun a b => paramSame a b = false

/-- The path with the parameters that are left. -/
def reassemble (normPath : Bytes) (params : List QueryParam) : Bytes :=
  if params.isEmpty then normPath
  else normPath ++ ch '?' :: [ch '&'].intercalate (params.map QueryParam.text)

/-- The query is dropped whole for these extensions. -/
def stripsQuery (config : UrlNormalizationConfig) (normPath : Bytes) : Bool :=
  let ext := extractLowercaseExtension normPath
  ext ≠ [] ∧ ext ∈ config.stripQueryExtensions

/-- The URL that a cache key is made of. -/
def normalizeCacheUrl (sort : StdSort) (url : Bytes) (config : UrlNormalizationConfig) : Bytes :=
  let split := extractPathAndQuery (extractSchemeAndAuthority url)
  if split.hasQuery = false then normalizePercentEncoding split.path
  else
    let normPath := normalizePercentEncoding split.path
    let normQuery := normalizePercentEncoding split.query
    if stripsQuery config normPath then normPath
    else reassemble normPath (cookParams sort config (parseQueryParams normQuery))

end PageSpeed
