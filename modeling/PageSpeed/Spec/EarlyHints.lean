import PageSpeed.Spec.StringUtil

/-!
# Link headers of early hints

`SanitizeLinkUrl` and `FormatLinkHeader` of `src/nginx/early_hints_util.cc`.
-/

namespace PageSpeed.EarlyHints

open Wire

/-- Two hexadecimal digits in either case. -/
def isHexPair (hex : Bytes) (hi lo : UInt8) : Bool := hex.map lowerChar = [hi, lo]

/-- A percent sign in front of a pair that counts as an injection. -/
def isInjection (c : UInt8) (rest : Bytes) : Bool :=
  let hex := rest.take 2
  c = ch '%' ∧ (isHexPair hex (ch '0') (ch 'd') ∨ isHexPair hex (ch '0') (ch 'a') ∨
    isHexPair hex (ch '0') (ch '0'))

/-- Somewhere in the URL an encoded character is one of those that end a link. -/
def hasEncoded : Bytes → Bool
  | [] => false
  | c :: rest => isInjection c rest || hasEncoded rest

/-- The characters that end a link or a header. -/
def isRaw (c : UInt8) : Bool := c = ch '\r' ∨ c = ch '\n' ∨ c = 0 ∨ c = ch '<' ∨ c = ch '>'

/-- The URL for the header; none is left if it could break out of its link. -/
def sanitizeLinkUrl (url : Bytes) : Bytes := if hasEncoded url then [] else url.filter (!isRaw ·)

/-- A value without line breaks. -/
def sanitizeHeaderValue (value : Bytes) : Bytes := value.filter fun c => c ≠ ch '\r' ∧ c ≠ ch '\n'

/-- A resource to be announced. -/
structure PreloadResource where
  url : Bytes
  asType : Bytes := []
  rel : Bytes := lit "preload"
  extra : Bytes := []

/-- What stands behind the target. -/
def linkParams (resource : PreloadResource) : Bytes :=
  lit "; rel=" ++ sanitizeHeaderValue (if resource.rel = [] then lit "preload" else resource.rel) ++
    (if resource.asType = [] then [] else lit "; as=" ++ sanitizeHeaderValue resource.asType) ++
    if resource.extra = [] then [] else lit "; " ++ sanitizeHeaderValue resource.extra

/-- One more link in the header. -/
def addLink (result : Bytes) (resource : PreloadResource) : Bytes :=
  let sanitized := sanitizeLinkUrl resource.url
  if sanitized = [] then result
  else result ++ (if result = [] then [] else lit ", ") ++ lit "<" ++ sanitized ++ lit ">" ++
    linkParams resource

/-- The `Link` header of a list of resources. -/
def formatLinkHeader (resources : List PreloadResource) : Bytes := resources.foldl addLink []

end PageSpeed.EarlyHints
