import PageSpeed.Spec.HeadersSidecar
import PageSpeed.Spec.VariantWriters

/-!
# The plan of a 304 restamp

`PlanRestampSidecar` of `src/nginx/headers_sidecar_record.cc`: the stored header block is merged
with the lines of a 304 (RFC 9111 §4.3.4), and the gate decides anew what is carried.
-/

namespace PageSpeed.Cache

open Wire

/-- The copy of `AsciiLower` here adds `'a' - 'A'`, which on capitals sets the same bit. -/
def headerNameEquals (a b : Bytes) : Bool := asciiEqualsIgnoreCase a b

/-- What becomes of the stored headers. -/
inductive RestampSidecarAction
  | legacy
  | restampOnly
  | rewriteThenRestamp
  | remove
  deriving DecidableEq

/-- The action, with the headers it was decided from. -/
structure RestampSidecarPlan where
  action : RestampSidecarAction := .legacy
  merged : List HeaderField := []
  storedNotOverridden : List HeaderField := []
  classification : SidecarClassification := {}
  deriving DecidableEq

/-- The headers of the entry were classified when it was stored. -/
def headersClassified (flags : UInt8) : Bool := flags &&& kFlagHeadersClassified ≠ 0

/-- The entry has a block of headers. -/
def sidecarRequired (flags : UInt8) : Bool := flags &&& kFlagHeadersSidecarRequired ≠ 0

/-- The fields that a stored entry replays: of its block if it requires one. `none` if that cannot
be read. -/
def storedFields (storedFlags : UInt8) (storedPayload : Option Bytes) : Option (List HeaderField) :=
  if sidecarRequired storedFlags then storedPayload.bind parseHeadersSidecar else some []

/-- The stored fields that the new response does not name. -/
def notOverridden (fields response304 : List HeaderField) : List HeaderField :=
  fields.filter fun field => !response304.any fun line => headerNameEquals field.name line.name

/-- What follows the merge. -/
def restampAction (storedRequired : Bool) (storedPayload : Option Bytes)
    (classification : SidecarClassification) :
    RestampSidecarAction :=
  let carry : Bool := classification.payload ≠ []
  if classification.verdict ≠ .swapEligible then .remove
  -- the siblings of the stashed variant would keep the old bits
  else if carry ≠ storedRequired then .remove
  else if carry = false ∨ some classification.payload = storedPayload then .restampOnly
  else .rewriteThenRestamp

/-- The stored headers under those of a `304`, classified again. -/
def planRestampSidecar (storedFlags : UInt8) (storedPayload : Option Bytes)
    (response304 : List HeaderField) :
    RestampSidecarPlan :=
  if headersClassified storedFlags = false then { action := .legacy }
  else
    match storedFields storedFlags storedPayload with
    | none => { action := .remove }
    | some fields =>
      let kept := notOverridden fields response304
      let classification := classifyForHeadersSidecar (kept ++ response304)
      { action := restampAction (sidecarRequired storedFlags) storedPayload classification
        merged := kept ++ response304
        storedNotOverridden := kept
        classification }

end PageSpeed.Cache
