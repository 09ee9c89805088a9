import Mathlib.Data.List.AList
import PageSpeed.Spec.Selector

/-!
# Writers behind the purge fence

`WriteVariant` and `RestampVariantSetFreshness` of `src/worker/worker.cc` for one URL, beside purges
and resets. Every cache call and every section under `purge_gen_mutex_` is one step, and cache
calls succeed. The purge oracle is exact: a baseline is the number of purges and resets before it
was captured.
-/

namespace PageSpeed

open Wire

/-- A stored alternate; `fence` is the baseline of the writer that wrote it, if one did. -/
structure Alternate where
  content : Bytes
  metadata : AlternateMetadata
  fence : Option ℕ := none
  deriving DecidableEq

/-- The alternates of a URL. -/
abbrev Alternates := AList fun _ : UInt8 => Alternate

/-- The fence check with a baseline. -/
def purgeCheck (epoch fence : ℕ) : Bool := epoch > fence

/-- Low byte of the encoded mask. -/
def maskToId (mask : UInt32) : UInt8 := mask.toUInt8

/-! ## `WriteVariant` -/

/-- What a call of `WriteVariant` is given; without a worker the undo is a plain removal. -/
structure VariantWrite where
  fence : ℕ
  mask : UInt32
  data : Bytes
  originMeta : AlternateMetadata
  undoWorker : Bool

/-- Where a write of a variant is. -/
inductive VariantStage
  | check
  | commit
  | recheck
  | undo
  | returned (written : Bool)
  deriving DecidableEq

/-- What a write puts into the cache. -/
def VariantWrite.alternate (call : VariantWrite) : Alternate :=
  { content := call.data
    metadata := { call.originMeta with fullMask := call.mask }
    fence := some call.fence }

/-- The next stage: check, write, check again, take back. -/
def VariantWrite.step (call : VariantWrite) (epoch : ℕ) (alternates : Alternates) :
    VariantStage → Option (ℕ × Alternates × VariantStage)
  | .check =>
    some (epoch, alternates, if purgeCheck epoch call.fence then .returned false else .commit)
  | .commit => some (epoch, alternates.insert (maskToId call.mask) call.alternate, .recheck)
  | .recheck =>
    some (epoch, alternates, if purgeCheck epoch call.fence then .undo else .returned true)
  -- `InvalidateUrl` is a purge like any other
  | .undo => some (if call.undoWorker then epoch + 1 else epoch, ∅, .returned false)
  | .returned _ => none

/-! ## `RestampVariantSetFreshness` -/

/-- The headers of the response were looked at. -/
def kFlagHeadersClassified : UInt8 := 0x10

/-- The response is not complete without its block of headers. -/
def kFlagHeadersSidecarRequired : UInt8 := 0x20

/-- The response was recorded for a request without credentials. -/
def kFlagAnonymousRecorded : UInt8 := 0x40

/-- The flags that a variant takes over. -/
def kVariantInheritedFlags : UInt8 :=
  kFlagHeadersClassified ||| kFlagHeadersSidecarRequired ||| kFlagAnonymousRecorded

/-- Those of them that the source has. -/
def inheritedVariantFlags (source : AlternateMetadata) : UInt8 :=
  source.flags &&& kVariantInheritedFlags

/-- A call that gives all alternates the metadata of a fresh response. -/
structure Restamp where
  fence : ℕ
  freshOriginMeta : AlternateMetadata
  skipId : UInt8

/-- The freshness of the origin, and the flags that ride on every variant but agent markdown. -/
def Restamp.metadata (call : Restamp) (pid : UInt8) (m : AlternateMetadata) : AlternateMetadata :=
  { m with
    cacheInsertedAt := call.freshOriginMeta.cacheInsertedAt
    originMaxAge := call.freshOriginMeta.originMaxAge
    originSMaxage := call.freshOriginMeta.originSMaxage
    originCcFlags := call.freshOriginMeta.originCcFlags
    originEtag := call.freshOriginMeta.originEtag
    originLastModified := call.freshOriginMeta.originLastModified
    flags :=
      if pid = kAgentMarkdown then m.flags
      else (m.flags &&& ~~~ kVariantInheritedFlags) ||| inheritedVariantFlags call.freshOriginMeta }

/-- The alternates that are left as they are. -/
def Restamp.skips (call : Restamp) (pid : UInt8) : Bool :=
  pid = call.skipId ∨ (isSentinel pid ∧ pid ≠ kAgentMarkdown)

/-- Where a restamp stands. `loop` is at the head of the loop over the ids that are left; `checked`
says that the fence was checked before. -/
inductive RestampStage
  | list
  | loop (checked : Bool) (alts : List UInt8) (restamped : ℕ)
  | read (pid : UInt8) (alts : List UInt8) (restamped : ℕ)
  | commit (pid : UInt8) (bytes : Bytes) (metadata : AlternateMetadata) (alts : List UInt8)
      (restamped : ℕ)
  | returned (restamped : ℕ)
  deriving DecidableEq

/-- The next stage: the list of alternates, and then one after the other. -/
def Restamp.step (call : Restamp) (epoch : ℕ) (alternates : Alternates) :
    RestampStage → Option (ℕ × Alternates × RestampStage)
  | .list => some (epoch, alternates, .loop false alternates.keys 0)
  | .loop _ alts restamped => some (epoch, alternates,
      match alts.dropWhile call.skips with
      | [] => .returned restamped
      | pid :: alts =>
        if purgeCheck epoch call.fence then .returned restamped else .read pid alts restamped)
  | .read pid alts restamped => some (epoch, alternates,
      match alternates.lookup pid with
      | none => .loop true alts restamped
      | some entry => .commit pid entry.content (call.metadata pid entry.metadata) alts restamped)
  | .commit pid bytes metadata alts restamped =>
    some (epoch, alternates.insert pid ⟨bytes, metadata, some call.fence⟩,
      .loop true alts (restamped + 1))
  | .returned _ => none

/-! ## All of them -/

/-- A call that is under way. -/
inductive VariantWriter
  | variant (call : VariantWrite) (stage : VariantStage)
  | restamp (call : Restamp) (stage : RestampStage)

/-- The cache of the URL, the purges and resets so far, and the calls that were made. -/
structure FencedCache where
  epoch : ℕ := 0
  alternates : Alternates := ∅
  writers : List VariantWriter := []

/-- A call starts or goes on, or the cache is purged. -/
inductive FencedAction
  | writeVariant (call : VariantWrite)
  | restamp (call : Restamp)
  | advance (i : ℕ)
  | invalidateUrl
  | resetCache

/-- The next stage of a call. -/
def VariantWriter.step (epoch : ℕ) (alternates : Alternates) :
    VariantWriter → Option (ℕ × Alternates × VariantWriter)
  | .variant call stage =>
    (call.step epoch alternates stage).map fun (epoch, alternates, stage) =>
      (epoch, alternates, .variant call stage)
  | .restamp call stage =>
    (call.step epoch alternates stage).map fun (epoch, alternates, stage) =>
      (epoch, alternates, .restamp call stage)

/-- A call starts with a baseline that was captured before. -/
def FencedCache.step (s : FencedCache) : FencedAction → Option FencedCache
  | .writeVariant call =>
    if call.fence ≤ s.epoch then some { s with writers := s.writers ++ [.variant call .check] }
    else none
  | .restamp call =>
    if call.fence ≤ s.epoch then some { s with writers := s.writers ++ [.restamp call .list] }
    else none
  | .advance i =>
    (s.writers[i]?.bind (·.step s.epoch s.alternates)).map fun (epoch, alternates, writer) =>
      { epoch := epoch, alternates := alternates, writers := s.writers.set i writer }
  | .invalidateUrl => some { s with epoch := s.epoch + 1, alternates := ∅ }
  | .resetCache => some { s with epoch := s.epoch + 1, alternates := ∅ }

end PageSpeed
