import Mathlib.Algebra.Group.Nat.Defs
import Mathlib.Data.List.AList

/-!
# Purge generations

The counters of `src/worker/worker.cc` that tell work in flight whether its URL was purged since
it was dispatched. Each function here is a section under `purge_gen_mutex_`. Keys are the composed
internal keys of URLs; nothing is asked of them but equality.
-/

namespace PageSpeed

variable {κ : Type} [DecidableEq κ]

/-- The baseline a notification captures when it is dispatched. -/
structure PurgeDispatchGen where
  urlGen : ℕ := 0
  allGen : ℕ := 0
  deriving DecidableEq

/-- The size at which the tables are rotated. -/
def kMaxPurgeGenEntries : ℕ := 10000

/-- `++` of a `uint64_t`. -/
def incr64 (n : ℕ) : ℕ := (n + 1) % 2 ^ 64

/-- The generations of the URLs, and the one every URL has. -/
structure PurgeGenerations (κ : Type) where
  current : AList fun _ : κ => ℕ := ∅
  previous : AList fun _ : κ => ℕ := ∅
  all : ℕ := 0

namespace PurgeGenerations

variable (o : PurgeGenerations κ) (k : κ)

/-- The generation of a key: the current map comes before the previous one. -/
def generation : ℕ := (o.current.lookup k).getD ((o.previous.lookup k).getD 0)

/-- The generations when a piece of work starts. -/
def capturePurgeGen : PurgeDispatchGen := ⟨o.generation k, o.all⟩

/-- The URL, or everything, was purged since. -/
def wasPurgedSinceDispatch (dispatchGen : PurgeDispatchGen) : Bool :=
  o.generation k > dispatchGen.urlGen ∨ o.all > dispatchGen.allGen

/-- The key is in the current map: seeded from the previous one, or new. -/
def seed : PurgeGenerations κ :=
  match o.current.lookup k with
  | some _ => o
  | none =>
    match o.previous.lookup k with
    | some g => { o with current := o.current.insert k g, previous := o.previous.erase k }
    | none => { o with current := o.current.insert k 0 }

/-- The current map becomes the previous one when it has grown too large. -/
def rotate : PurgeGenerations κ :=
  if o.current.keys.length > kMaxPurgeGenEntries then
    { o with previous := o.current, current := ∅ } else o

/-- A purge of the URL. -/
def bumpPurgeGenerationLocked : PurgeGenerations κ :=
  let seeded := o.seed k
  let gen := (seeded.current.lookup k).getD 0
  { seeded with current := seeded.current.insert k (incr64 gen) }.rotate

/-- The section of `ResetCache`. -/
def resetCache : PurgeGenerations κ := { current := ∅, previous := ∅, all := incr64 o.all }

/-- The section of `ClearDedupAndCooldown`. -/
def clearDedupAndCooldown : PurgeGenerations κ :=
  { o with current := o.current.erase k, previous := o.previous.erase k }

end PurgeGenerations

/-- A call that takes the mutex. A capture changes nothing. -/
inductive PurgeOp (κ : Type)
  | capture (k : κ)
  | purge (k : κ)
  | resetCache
  | clearDedupAndCooldown (k : κ)

/-- One operation; none of them fails. -/
def PurgeGenerations.step (o : PurgeGenerations κ) : PurgeOp κ → Option (PurgeGenerations κ)
  | .capture _ => some o
  | .purge k => some (o.bumpPurgeGenerationLocked k)
  | .resetCache => some o.resetCache
  | .clearDedupAndCooldown k => some (o.clearDedupAndCooldown k)

end PageSpeed
