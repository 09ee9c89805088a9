import PageSpeed.Spec.HostAliases
import PageSpeed.Spec.Ipc
import PageSpeed.Spec.ProcessedMarks
import PageSpeed.Spec.UrlNormalizer
import PageSpeed.Spec.UrlRegistry

/-!
# Dispatch of notifications

`DispatchNotification` and `OnNotificationDone` of `src/worker/worker.cc`, which both run on the
event loop. Work is always queued, and the worker is not shutting down. A work context keeps its
place in the list of contexts when its work is done; the source deletes it then.
-/

namespace PageSpeed

open Wire

/-- The mask of a warm-up request. -/
def kWarmupSentinel : UInt32 := 0xFFFFFFFE

/-- The mask of a request for `llms.txt`. -/
def kLlmsTxtSentinel : UInt32 := 0xFFFFFFFD

/-- The mask of the notice that the origin's copy was refreshed. -/
def kOriginRefreshedSentinel : UInt32 := 0xFFFFFFFC

/-! ## Admission -/

/-- The outcome of looking at an option context. -/
inductive OptionContextStatus
  | kOk
  | kEmpty
  | kTooLarge
  | kUnknownFormat
  | kMalformedSignature
  | kSignatureMismatch
  deriving DecidableEq

/-- The only format that is read. -/
def kOptionContextFormatVersion : Bytes := lit "psoc1"

/-- `ValidateOptionContext` of `lib/classify/option_context.cc`, with the digest as a parameter. -/
def validateOptionContext (optionContextSignature : Bytes → Bytes) (payload signature : Bytes) :
    OptionContextStatus :=
  if payload = [] ∧ signature = [] then .kEmpty
  else if payload.length > kMaxOptionContextBytes then .kTooLarge
  else if ¬ (kOptionContextFormatVersion ++ lit "\n").isPrefixOf payload then .kUnknownFormat
  else if signature.length ≠ kOptionContextSignatureChars ∨ ¬ signature.all isLowerHex then
    .kMalformedSignature
  else if optionContextSignature payload ≠ signature then .kSignatureMismatch
  else .kOk

/-- What the worker is configured with. -/
structure DispatchConfig where
  maxUrlLength : ℕ := 8192
  urlNorm : UrlNormalizationConfig := {}
  hostAliases : HostAliases := ∅
  sort : StdSort
  optionContextSignature : Bytes → Bytes

namespace DispatchConfig

variable (c : DispatchConfig)

/-- A context that is not empty has to come with its signature. -/
def acceptOptionContext (n : CacheNotification) : Bool :=
  match validateOptionContext c.optionContextSignature n.optionContext n.optionSignature with
  | .kOk | .kEmpty => true
  | _ => false

/-- The hostname that its alias stands for, if it has one. -/
def normalizeCacheHostname (hostname : Bytes) : Bytes :=
  let normalized := normalizeHostname hostname
  match c.hostAliases.lookup normalized with
  | some target => target
  | none => normalized

/-- The copy that `DispatchNotification` works on. -/
def normalize (n : CacheNotification) : CacheNotification :=
  { n with
    url := normalizeCacheUrl c.sort n.url c.urlNorm
    hostname := c.normalizeCacheHostname n.hostname }

end DispatchConfig

/-- The web server's module may ask only for resources of a site, not for pages or for agents. -/
def acceptSiteAndSender (n : CacheNotification) : Bool :=
  if ¬ n.fromModule then true
  else if n.site = [] then false
  else if n.contentType = .kHtml ∨ n.capabilityMask = kLlmsTxtSentinel ∨ n.agentRequest ∨
      n.hostVouched then false
  else true

namespace CacheNotification

/-- The resource that a notification is about. -/
def resource (n : CacheNotification) : ResourceName := ⟨n.url, n.hostname, n.scheme, n.site⟩

/-- The key under which the work on a notification is in flight. -/
def internalKey (n : CacheNotification) : Bytes := composeInternalKey n.resource

end CacheNotification

/-! ## Dispatch -/

/-- The key is empty for an item that is not tracked. -/
structure NotificationWorkContext where
  notification : CacheNotification
  dedupKey : Bytes := []
  done : Bool := false
  deriving DecidableEq

/-- The keys in flight, a refresh to be run behind each of them, and the work that was queued. -/
structure Dispatcher where
  inFlightUrls : Finset Bytes := ∅
  pendingOriginRefresh : AList (fun _ : Bytes => CacheNotification) := ∅
  contexts : List NotificationWorkContext := []

namespace Dispatcher

variable (c : DispatchConfig)

/-- A notification is dropped, queued, or, if it is a refresh of a key in flight, kept for later. -/
def dispatchNotification (s : Dispatcher) (n : CacheNotification) : Dispatcher :=
  if ¬ c.acceptOptionContext n then s
  else if ¬ acceptSiteAndSender n then s
  else if n.url.length > c.maxUrlLength then s
  else
    let normalized := c.normalize n
    if normalized.capabilityMask ≠ kWarmupSentinel then
      let dedupKey := normalized.internalKey
      if dedupKey ∈ s.inFlightUrls then
        -- one per key is held, the latest
        if normalized.capabilityMask = kOriginRefreshedSentinel then
          { s with pendingOriginRefresh := s.pendingOriginRefresh.insert dedupKey normalized }
        else s
      else
        { s with
          inFlightUrls := insert dedupKey s.inFlightUrls
          contexts := s.contexts ++ [{ notification := normalized, dedupKey := dedupKey }] }
    else { s with contexts := s.contexts ++ [{ notification := normalized }] }

/-- The work of the context is done, and its key is free. -/
def release (s : Dispatcher) (i : ℕ) (ctx : NotificationWorkContext) : Dispatcher :=
  { inFlightUrls := if ctx.dedupKey ≠ [] then s.inFlightUrls.erase ctx.dedupKey else s.inFlightUrls
    pendingOriginRefresh :=
      if ctx.dedupKey ≠ [] then s.pendingOriginRefresh.erase ctx.dedupKey
      else s.pendingOriginRefresh
    contexts := s.contexts.set i { ctx with done := true } }

/-- What is dispatched again when the work of the context is done. -/
def heldRefresh (s : Dispatcher) (ctx : NotificationWorkContext) : Option CacheNotification :=
  if ctx.dedupKey ≠ [] then s.pendingOriginRefresh.lookup ctx.dedupKey else none

/-- The end of a piece of work: its key is free, and the refresh kept behind it is dispatched. -/
def onNotificationDone (s : Dispatcher) (i : ℕ) : Dispatcher :=
  match s.contexts[i]? with
  | none => s
  | some ctx =>
    if ctx.done then s
    else
      match s.heldRefresh ctx with
      | some held => (s.release i ctx).dispatchNotification c held
      | none => s.release i ctx

end Dispatcher

/-- The two entry points. -/
inductive DispatchAction
  | dispatchNotification (n : CacheNotification)
  | onNotificationDone (i : ℕ)

/-- One of them. -/
def Dispatcher.step (c : DispatchConfig) (s : Dispatcher) : DispatchAction → Dispatcher
  | .dispatchNotification n => s.dispatchNotification c n
  | .onNotificationDone i => s.onNotificationDone c i

end PageSpeed
