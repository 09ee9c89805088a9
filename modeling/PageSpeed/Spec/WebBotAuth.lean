import PageSpeed.Spec.Sfv

/-!
# Web Bot Auth

The signature base of `src/crypto/webbotauth/signature_base.cc` and the supported profile of
`src/crypto/webbotauth/header_parser.cc`.
-/

namespace PageSpeed

open Wire

/-! ## Serialising -/

/-- A character of a string as it is written. -/
def escapeChar (c : UInt8) : Bytes := if c = ch '"' ∨ c = ch '\\' then [ch '\\', c] else [c]

/-- A string as it is written. -/
def serializeString (s : Bytes) : Bytes := [ch '"'] ++ s.flatMap escapeChar ++ [ch '"']

/-- A signed number as `StrCat` prints it. -/
def signedDecimal (v : ℤ) : Bytes := (if v < 0 then [ch '-'] else []) ++ Inet.decimal v.natAbs

/-- What follows the name; a boolean is a bare key, whatever its value. -/
def serializeValue : SfvValue → Bytes
  | .kInteger v => [ch '='] ++ signedDecimal v
  | .kString s => [ch '='] ++ serializeString s
  | .kToken s => [ch '='] ++ s
  | .kBoolean _ => []

/-- A parameter as it is written. -/
def serializeParam (p : SfvParam) : Bytes := [ch ';'] ++ p.name ++ serializeValue p.value

/-- The covered components and the parameters as they are written. -/
def serializeSignatureParams (list : SfvInnerList) : Bytes :=
  [ch '('] ++ [ch ' '].intercalate (list.components.map serializeString) ++ [ch ')'] ++
    list.params.flatMap serializeParam

/-! ## The signature base -/

/-- A header line. -/
structure HeaderField where
  name : Bytes
  value : Bytes

/-- What a signature can cover of a request. -/
structure BaseRequestView where
  method : Bytes
  authority : Bytes
  path : Bytes
  fields : List HeaderField

/-- Equality up to case. -/
def equalsIgnoreAsciiCase (a b : Bytes) : Bool := a.map lowerChar = b.map lowerChar

/-- The text without blanks at both ends. -/
def trimOws (v : Bytes) : Bytes := ((v.dropWhile Sfv.isBlank).reverse.dropWhile Sfv.isBlank).reverse

/-- Every line of a field, in wire order; there must be one. -/
def fieldValue (fields : List HeaderField) (comp : Bytes) : Option Bytes :=
  let lines := fields.filter fun field => equalsIgnoreAsciiCase field.name comp
  if lines = [] then none
  else some ((lit ", ").intercalate (lines.map fun field => trimOws field.value))

/-- The value of a covered component. -/
def componentValue (req : BaseRequestView) (comp : Bytes) : Option Bytes :=
  if comp.head? = some (ch '@') then
    if comp = lit "@method" then some req.method
    else if comp = lit "@authority" then some req.authority
    else if comp = lit "@path" then some req.path
    else none
  else fieldValue req.fields comp

/-- The text that is signed, a line for each component. -/
def buildSignatureBase (req : BaseRequestView) (covered : List Bytes)
    (paramsSerialization : Bytes) :
    Option Bytes :=
  match covered with
  | [] => some (lit "\"@signature-params\": " ++ paramsSerialization)
  | comp :: covered =>
    match componentValue req comp, buildSignatureBase req covered paramsSerialization with
    | some value, some base => some (lit "\"" ++ comp ++ lit "\": " ++ value ++ lit "\n" ++ base)
    | _, _ => none

/-! ## The supported profile -/

/-- The tag of the signatures that are looked at. -/
def kWebBotAuthTag : Bytes := lit "web-bot-auth"

/-- The most components of a signature. -/
def kMaxCoveredComponents : ℕ := 16

/-- The longest header name among them. -/
def kMaxFieldComponentNameLen : ℕ := 64

/-- A character of a header name in lower case. -/
def isLowercaseFieldNameChar (c : UInt8) : Bool :=
  (c ≥ ch 'a' ∧ c ≤ ch 'z') ∨ (c ≥ ch '0' ∧ c ≤ ch '9') ∨ c ∈ lit "!#$%&'*+-.^_`|~"

/-- A component whose value is known. -/
def isSupportedComponent (c : Bytes) : Bool :=
  (c = lit "@method" ∨ c = lit "@authority" ∨ c = lit "@path") ∨
    (c ≠ [] ∧ c.length ≤ kMaxFieldComponentNameLen ∧ c.all isLowercaseFieldNameChar)

/-- The last tag counts. -/
def hasWebBotAuthTag (inner : SfvInnerList) : Bool :=
  ((inner.params.filter (·.name = lit "tag")).getLast?).any (·.value = .kString kWebBotAuthTag)

/-- What the verifier is asked. -/
structure SignatureRequest where
  label : Bytes := []
  covered : List Bytes := []
  keyid : Bytes := []
  alg : Bytes := []
  tag : Bytes := []
  created : ℤ := 0
  expires : ℤ := 0
  hasCreated : Bool := false
  hasExpires : Bool := false
  signatureBytes : Bytes := []
  signatureParamsValue : Bytes := []
  deriving DecidableEq

/-- The outcome, with the diagnostic where there is one. -/
inductive ParseStatus
  | kOk (out : SignatureRequest)
  | kNoWebBotAuthSignature (reason : Bytes)
  | kMalformed (reason : Bytes)
  deriving DecidableEq

/-- The next covered component. -/
def coverStep (covered : List Bytes) (c : Bytes) : Except Bytes (List Bytes) :=
  if isSupportedComponent c = false then .error (lit "unsupported-component")
  else if c ∈ covered then .error (lit "duplicate-covered-component")
  else .ok (covered ++ [c])

/-- The request as far as the parameters have been walked. -/
structure ParamWalk where
  out : SignatureRequest
  haveKeyid : Bool := false
  haveAlg : Bool := false

/-- One parameter, or the error that it is. -/
def walkParam (w : ParamWalk) (p : SfvParam) : Except Bytes ParamWalk :=
  if p.name = lit "keyid" then
    match p.value with
    | .kString s => .ok { w with out := { w.out with keyid := s }, haveKeyid := true }
    | _ => .error (lit "keyid-not-string")
  else if p.name = lit "alg" then
    match p.value with
    | .kString s => .ok { w with out := { w.out with alg := s }, haveAlg := true }
    | _ => .error (lit "alg-not-string")
  else if p.name = lit "created" then
    match p.value with
    | .kInteger v => .ok { w with out := { w.out with created := v, hasCreated := true } }
    | _ => .error (lit "created-not-integer")
  else if p.name = lit "expires" then
    match p.value with
    | .kInteger v => .ok { w with out := { w.out with expires := v, hasExpires := true } }
    | _ => .error (lit "expires-not-integer")
  else if p.name = lit "tag" then
    match p.value with
    | .kString s => .ok { w with out := { w.out with tag := s } }
    | _ => .ok w
  else .ok w

/-- The checks on the member that was selected. -/
def readMember (selected : SfvDictMember) (signature : Bytes) : Except Bytes SignatureRequest := do
  let list := selected.inner
  if selected.label = [] then .error (lit "empty-label")
  else if list.components = [] then .error (lit "empty-covered-components")
  else if list.components.length > kMaxCoveredComponents then
    .error (lit "too-many-covered-components")
  else if list.anyComponentParams then .error (lit "unsupported-component-params")
  else
    let covered ← list.components.foldlM coverStep []
    if lit "@authority" ∉ covered then .error (lit "authority-not-covered")
    else
      let w ← list.params.foldlM walkParam
        { out := { label := selected.label, covered := covered } }
      if w.haveKeyid = false ∨ w.out.keyid = [] then .error (lit "missing-keyid")
      else if w.haveAlg = false ∨ w.out.alg ≠ lit "ed25519" then .error (lit "alg-not-ed25519")
      else
        match parseSignatureBytes signature selected.label with
        | none => .error (lit "malformed-signature")
        | some bytes =>
          if bytes.length ≠ 64 then .error (lit "signature-not-64-bytes")
          else
            .ok { w.out with
              signatureParamsValue := serializeSignatureParams list
              signatureBytes := bytes }

/-- The two headers of a signature. -/
def parseSignatureHeaders (signatureInput signature : Bytes) : ParseStatus :=
  match parseSignatureInputDict signatureInput with
  | none => .kMalformed (lit "malformed-signature-input")
  | some members =>
    if members = [] then .kMalformed (lit "malformed-signature-input")
    else
      match members.find? fun m => hasWebBotAuthTag m.inner with
      | none => .kNoWebBotAuthSignature (lit "no-web-bot-auth-tag")
      | some selected =>
        match readMember selected signature with
        | .error reason => .kMalformed reason
        | .ok out => .kOk out

end PageSpeed
