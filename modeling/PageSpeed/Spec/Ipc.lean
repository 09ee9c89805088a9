import PageSpeed.Spec.Metadata
import PageSpeed.Wire.Framed

/-!
# The worker notification protocol

The frame that tells the worker of newly recorded content (`src/proto/worker_ipc`,
version 6): `CacheNotification.serialize` builds one or declines, `deserialize` reads one
out of a buffer into a notification the caller owns. A rejected frame leaves behind the
fields assigned before the rejection.
-/

namespace PageSpeed

open Wire

/-- The bounds of the fields of a notification. -/
def kMaxUrlLength : ℕ := 16384

/-- The longest hostname. -/
def kMaxHostnameLength : ℕ := 512

/-- The longest option context. -/
def kMaxOptionContextBytes : ℕ := 16384

/-- The length of a signature in hexadecimal. -/
def kOptionContextSignatureChars : ℕ := 64

/-- The length of a site in hexadecimal. -/
def kSiteIdChars : ℕ := 64

/-- The only version that is read and written. -/
def kIpcVersion : UInt8 := 6

/-- The sender vouches for the hostname. -/
def kNotifyFlagHostVouched : UInt8 := 0x01

/-- The sender is the web server's module. -/
def kNotifyFlagFromModule : UInt8 := 0x02

/-- The sender uses the older entry point. -/
def kNotifyFlagLegacyExCaller : UInt8 := 0x04

/-- Any other bit makes a message malformed. -/
def kNotifyFlagsKnown : UInt8 :=
  kNotifyFlagHostVouched ||| kNotifyFlagFromModule ||| kNotifyFlagLegacyExCaller

/-- Why a message is not read. -/
inductive IpcRejectReason
  | kNone
  | kTruncated
  | kVersionMismatch
  | kMalformed
  deriving DecidableEq, Repr

/-- The reason, with the version of the peer if it is another one. -/
structure IpcRejection where
  reason : IpcRejectReason := .kNone
  peerVersion : UInt8 := 0
  deriving DecidableEq, Repr

/-- The scheme identifiers on the wire. -/
inductive IpcScheme
  | kHttp
  | kHttps
  deriving DecidableEq, Repr

namespace IpcScheme

/-- The byte of a scheme. -/
def toByte : IpcScheme → UInt8
  | kHttp => 0x01
  | kHttps => 0x02

/-- The check and cast of a scheme byte. -/
def ofByte? (b : UInt8) : Option IpcScheme :=
  if b = kHttp.toByte then some kHttp else if b = kHttps.toByte then some kHttps else none

end IpcScheme

/-- The two schemes. -/
def validateScheme (scheme : Bytes) : Bool := scheme = lit "http" ∨ scheme = lit "https"

/-- Any other text is taken for `https`. -/
def schemeToWire (scheme : Bytes) : IpcScheme :=
  if scheme = lit "http" then .kHttp else if scheme = lit "https" then .kHttps else .kHttps

/-- The text of a scheme. -/
def schemeFromWire : IpcScheme → Bytes
  | .kHttp => lit "http"
  | .kHttps => lit "https"

/-- Lowercase hexadecimal digits. -/
def isLowerHex (c : UInt8) : Bool :=
  (c ≥ ch '0' ∧ c ≤ ch '9') ∨ (c ≥ ch 'a' ∧ c ≤ ch 'f')

/-- A site is a hash in lower-case hexadecimal. -/
def isSiteId (site : Bytes) : Bool := site.length = kSiteIdChars ∧ site.all isLowerHex

/-- A notification that a response was stored. -/
structure CacheNotification where
  url : Bytes
  hostname : Bytes
  scheme : Bytes
  contentType : ContentType
  capabilityMask : UInt32
  agentRequest : Bool := false
  optionContext : Bytes := []
  optionSignature : Bytes := []
  site : Bytes := []
  hostVouched : Bool := false
  fromModule : Bool := false
  legacyExCaller : Bool := false
  deriving DecidableEq

namespace CacheNotification

/-! ## The sender -/

/-- The refusals of `Serialize`. -/
def refuses (n : CacheNotification) : Bool :=
  n.url.length > kMaxUrlLength ∨ n.hostname.length > kMaxHostnameLength ∨
    ¬ validateScheme n.scheme ∨
    n.optionContext.length > kMaxOptionContextBytes ∨
    n.optionContext.isEmpty ≠ n.optionSignature.isEmpty ∨
    (n.optionSignature.length ≠ 0 ∧ n.optionSignature.length ≠ kOptionContextSignatureChars) ∨
    (n.site.length ≠ 0 ∧ ¬ isSiteId n.site)

/-- The three flags in their byte. -/
def flagsByte (n : CacheNotification) : UInt8 :=
  (if n.hostVouched then kNotifyFlagHostVouched else 0) |||
    (if n.fromModule then kNotifyFlagFromModule else 0) |||
    (if n.legacyExCaller then kNotifyFlagLegacyExCaller else 0)

/-- What the length header counts. -/
def totalSize (n : CacheNotification) : ℕ :=
  1 + 4 + n.url.length + 4 + n.hostname.length + 1 + 4 + 1 + 1 + 4 + n.optionContext.length + 1 +
    n.optionSignature.length + 1 + n.site.length + 1

/-- The payload fields behind the version byte, in the order they are written. -/
def payloadFields (n : CacheNotification) : List Bytes :=
  [Scalar.toBe (UInt32.ofNat n.url.length), n.url,
    Scalar.toBe (UInt32.ofNat n.hostname.length), n.hostname,
    Scalar.toBe n.contentType.toByte, Scalar.toBe n.capabilityMask,
    Scalar.toBe (schemeToWire n.scheme).toByte,
    Scalar.toBe (if n.agentRequest then 1 else 0 : UInt8),
    Scalar.toBe (UInt32.ofNat n.optionContext.length), n.optionContext,
    Scalar.toBe (UInt8.ofNat n.optionSignature.length), n.optionSignature,
    Scalar.toBe (UInt8.ofNat n.site.length), n.site, Scalar.toBe n.flagsByte]

/-- `Serialize`: empty when refused, else a buffer of the computed size filled in order. -/
def serialize (n : CacheNotification) : Bytes :=
  if n.refuses then []
  else ((Cursor.mk (List.replicate (4 + n.totalSize) 0) 0).writeAll
    (Scalar.toBe (UInt32.ofNat n.totalSize) :: Scalar.toBe kIpcVersion :: n.payloadFields)).out

/-! ## The receiver -/

/-- The field reads, each against the end of the frame; every failure is `malformed`. -/
def deserializeFields (malformed : IpcRejection) : Framed IpcRejection CacheNotification Unit := do
  let urlLen ← Framed.nextBe UInt32 malformed
  Framed.refuseIf (fun _ => urlLen.toNat > kMaxUrlLength) malformed
  let url ← Framed.nextBytes urlLen.toNat malformed
  Framed.modify fun n => { n with url }
  let hostLen ← Framed.nextBe UInt32 malformed
  Framed.refuseIf (fun _ => hostLen.toNat > kMaxHostnameLength) malformed
  let hostname ← Framed.nextBytes hostLen.toNat malformed
  Framed.modify fun n => { n with hostname }
  let ctByte ← Framed.nextBe UInt8 malformed
  let contentType ← Framed.orRefuse (ContentType.ofByte? ctByte) malformed
  Framed.modify fun n => { n with contentType }
  let capabilityMask ← Framed.nextBe UInt32 malformed
  Framed.modify fun n => { n with capabilityMask }
  let schemeByte ← Framed.nextBe UInt8 malformed
  let wire ← Framed.orRefuse (IpcScheme.ofByte? schemeByte) malformed
  Framed.modify fun n => { n with scheme := schemeFromWire wire }
  let agentByte ← Framed.nextBe UInt8 malformed
  Framed.modify fun n => { n with agentRequest := decide (agentByte ≠ 0) }
  let ctxLen ← Framed.nextBe UInt32 malformed
  Framed.refuseIf (fun _ => ctxLen.toNat > kMaxOptionContextBytes) malformed
  let optionContext ← Framed.nextBytes ctxLen.toNat malformed
  Framed.modify fun n => { n with optionContext }
  let sigLen ← Framed.nextBe UInt8 malformed
  Framed.refuseIf (fun _ => sigLen.toNat ≠ 0 ∧ sigLen.toNat ≠
    kOptionContextSignatureChars) malformed
  let optionSignature ← Framed.nextBytes sigLen.toNat malformed
  Framed.modify fun n => { n with optionSignature }
  let siteLen ← Framed.nextBe UInt8 malformed
  Framed.refuseIf (fun _ => siteLen.toNat ≠ 0 ∧ siteLen.toNat ≠ kSiteIdChars) malformed
  let site ← Framed.nextBytes siteLen.toNat malformed
  Framed.modify fun n => { n with site }
  Framed.refuseIf (fun n => siteLen.toNat ≠ 0 ∧ ¬ isSiteId n.site) malformed
  let flags ← Framed.nextBe UInt8 malformed
  Framed.refuseIf (fun _ => (flags &&& ~~~kNotifyFlagsKnown) ≠ 0) malformed
  Framed.modify fun n => { n with
    hostVouched := decide ((flags &&& kNotifyFlagHostVouched) ≠ 0)
    fromModule := decide ((flags &&& kNotifyFlagFromModule) ≠ 0)
    legacyExCaller := decide ((flags &&& kNotifyFlagLegacyExCaller) ≠ 0) }
  Framed.refuseIf (fun n => n.optionContext.isEmpty ≠ n.optionSignature.isEmpty) malformed

/-- What a call of `Deserialize` leaves with its caller: the verdict, the rejection detail
and the notification, assigned as far as the reader got. -/
structure Outcome where
  accepted : Bool
  rejection : IpcRejection
  notification : CacheNotification
  deriving DecidableEq

/-- `Deserialize` into a notification the caller owns. -/
def deserialize (data : Bytes) (notification : CacheNotification) : Except Fault Outcome := do
  if data.length < 5 then return ⟨false, ⟨.kTruncated, 0⟩, notification⟩
  let totalLen ← (readAt data 0 4).map (Scalar.ofBe (α := UInt32))
  if data.length < 4 + totalLen.toNat then return ⟨false, ⟨.kTruncated, 0⟩, notification⟩
  let version ← readByte data 4
  if version ≠ kIpcVersion then return ⟨false, ⟨.kVersionMismatch, version⟩, notification⟩
  let (r, _, n) ← deserializeFields ⟨.kMalformed, version⟩ data (4 + totalLen.toNat)
    (5, notification)
  match r with
  | .ok () => return ⟨true, {}, n⟩
  | .error rejection => return ⟨false, rejection, n⟩

end CacheNotification

end PageSpeed
