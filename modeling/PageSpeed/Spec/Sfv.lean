import PageSpeed.Spec.Base64
import PageSpeed.Spec.Inet
import PageSpeed.Wire.Scan

/-!
# Structured field values

The parser of `src/crypto/webbotauth/sfv.cc` for `Signature-Input` and `Signature`. The cursor
over the header value is the string that is left; at its end `Peek` sees no character.
-/

namespace PageSpeed

open Wire

/-- A value of a parameter; the parser sets a bare one to true. -/
inductive SfvValue
  | kInteger (intValue : ℤ)
  | kString (strValue : Bytes)
  | kToken (strValue : Bytes)
  | kBoolean (boolValue : Bool)
  deriving DecidableEq

/-- A parameter. -/
structure SfvParam where
  name : Bytes
  value : SfvValue
  deriving DecidableEq

/-- The covered components with their parameters. -/
structure SfvInnerList where
  components : List Bytes := []
  params : List SfvParam := []
  anyComponentParams : Bool := false
  deriving DecidableEq

/-- A signature's label and what it covers. -/
structure SfvDictMember where
  label : Bytes
  inner : SfvInnerList
  deriving DecidableEq

/-- The most signatures of a header. -/
def kMaxSignatureInputMembers : ℕ := 8

namespace Sfv

open Scan
open Inet (isDigit numeral)

/-- A scanner over bytes. -/
abbrev Scanner := Scan UInt8

/-! ## Characters -/

/-- A letter. -/
def isAlpha (c : UInt8) : Bool := (c ≥ ch 'a' ∧ c ≤ ch 'z') ∨ (c ≥ ch 'A' ∧ c ≤ ch 'Z')

/-- The first character of a token. -/
def isTokenStart (c : UInt8) : Bool := isAlpha c ∨ c = ch '*'

/-- A further character of a token. -/
def isTokenChar (c : UInt8) : Bool := isAlpha c ∨ isDigit c ∨ c ∈ lit "_-.:/*"

/-- The first character of a key. -/
def isKeyStart (c : UInt8) : Bool := (c ≥ ch 'a' ∧ c ≤ ch 'z') ∨ c = ch '*'

/-- A further character of a key. -/
def isKeyChar (c : UInt8) : Bool := (c ≥ ch 'a' ∧ c ≤ ch 'z') ∨ isDigit c ∨ c ∈ lit "_-.*"

/-- A blank or a tab. -/
def isBlank (c : UInt8) : Bool := c = ch ' ' ∨ c = ch '\t'

/-! ## Items -/

/-- Blanks are passed over. -/
def skipSpaces : Scanner Unit := do
  let _ ← span isBlank
  pure ()

/-- The rest of a string behind its opening quote. -/
def stringBody : Scanner Bytes
  | [] => none
  | c :: rest =>
    if c = ch '\\' then
      match rest with
      | [] => none
      | e :: rest =>
        if e ≠ ch '"' ∧ e ≠ ch '\\' then none
        else (stringBody rest).map fun r => (e :: r.1, r.2)
    else if c = ch '"' then some ([], rest)
    -- control characters are not allowed; bytes from 0x80 on are
    else if c < 0x20 ∨ c = 0x7f then none
    else (stringBody rest).map fun r => (c :: r.1, r.2)

/-- A quoted string. -/
def parseString : Scanner Bytes := do
  expect (ch '"')
  stringBody

/-- A first character of one class, and the others of another. -/
def word (first more : UInt8 → Bool) : Scanner Bytes := do
  let c ← item first
  let cs ← span more
  pure (c :: cs)

/-- A token. -/
def parseToken : Scanner Bytes := word isTokenStart isTokenChar

/-- At most fifteen digits. -/
def parseInteger : Scanner ℤ := do
  let neg ← consume (ch '-')
  let digits ← span isDigit
  if digits = [] ∨ digits.length > 15 then fail
  else pure (if neg then -(numeral 10 digits : ℤ) else numeral 10 digits)

/-- A key. -/
def parseKey : Scanner Bytes := word isKeyStart isKeyChar

/-! ## Parameters -/

/-- A string, an integer, a boolean or a token, told by the first character. -/
def parseValue : Scanner SfvValue := do
  let c ← peek
  if c = some (ch '"') then
    let s ← parseString
    pure (.kString s)
  else if c = some (ch '-') ∨ c.any isDigit then
    let v ← parseInteger
    pure (.kInteger v)
  else if c.any isTokenStart then
    let s ← parseToken
    pure (.kToken s)
  else fail

/-- A parameter behind its semicolon; without a value it is true. -/
def parseParam : Scanner SfvParam := do
  skipSpaces
  let name ← parseKey
  if ← consume (ch '=') then
    let value ← parseValue
    pure ⟨name, value⟩
  else pure ⟨name, .kBoolean true⟩

/-- One more parameter, or the end. -/
def paramRound (params : List SfvParam) : Scanner (List SfvParam ⊕ List SfvParam) := do
  if ← consume (ch ';') then
    let p ← parseParam
    pure (.inl (params ++ [p]))
  else pure (.inr params)

/-- All parameters. -/
def parseParams : Scanner (List SfvParam) := loop paramRound []

/-! ## Inner lists -/

/-- A component; its own parameters are dropped, and remembered to have been there. -/
def componentRound (list : SfvInnerList) : Scanner (SfvInnerList ⊕ SfvInnerList) := do
  if (← peek) = some (ch ')') then pure (.inr list)
  else
    let comp ← parseString
    let itemParams ← parseParams
    skipSpaces
    pure (.inl { list with
      components := list.components ++ [comp]
      anyComponentParams := list.anyComponentParams || itemParams ≠ [] })

/-- The components in parentheses and the parameters of the list. -/
def parseInnerList : Scanner SfvInnerList := do
  expect (ch '(')
  skipSpaces
  let list ← loop componentRound {}
  expect (ch ')')
  let params ← parseParams
  pure { list with params := params }

/-! ## Dictionaries -/

/-- One more member, whose label is new, or the end. -/
def memberRound (out : List SfvDictMember) : Scanner (List SfvDictMember ⊕ List SfvDictMember) := do
  skipSpaces
  let label ← parseKey
  expect (ch '=')
  let inner ← parseInnerList
  if out.any (·.label = label) then fail
  else if out.length ≥ kMaxSignatureInputMembers then fail
  else
    skipSpaces
    if ← eof then pure (.inr (out ++ [⟨label, inner⟩]))
    else
      expect (ch ',')
      pure (.inl (out ++ [⟨label, inner⟩]))

/-- The bytes between the colons, if this is the member that is looked for. -/
def bytesRound (label : Bytes) (_ : Unit) : Scanner (Unit ⊕ Option Bytes) := do
  if ← eof then pure (.inr none)
  else
    skipSpaces
    let key ← parseKey
    expect (ch '=')
    expect (ch ':')
    let b64 ← span (· ≠ ch ':')
    expect (ch ':')
    let _ ← parseParams
    if key = label then pure (.inr (base64Decode b64))
    else
      skipSpaces
      if ← consume (ch ',') then pure (.inl ())
      else if ← eof then pure (.inr none)
      else fail

end Sfv

open Sfv

/-- The members of a `Signature-Input` value. -/
def parseSignatureInputDict (value : Bytes) : Option (List SfvDictMember) :=
  (Scan.loop memberRound [] value).map Prod.fst

/-- A header with exactly one signature. -/
def parseSignatureInput (value : Bytes) : Option (Bytes × SfvInnerList) :=
  match parseSignatureInputDict value with
  | some [m] => if m.inner.anyComponentParams then none else some (m.label, m.inner)
  | _ => none

/-- The decoded bytes of the member of a `Signature` value with this label. -/
def parseSignatureBytes (value label : Bytes) : Option Bytes :=
  (Scan.loop (bytesRound label) () value).bind Prod.fst

end PageSpeed
