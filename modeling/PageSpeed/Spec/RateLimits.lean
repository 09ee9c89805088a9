import PageSpeed.Choice.Windows
import PageSpeed.Spec.ProcessedMarks

/-!
# Rate limits per URL

The three limiters of `src/worker/worker.cc`: `HandleOriginRefreshed` drops a sentinel, the heal of
`HandleNotification` is put off, and `RecheckRecordedOriginal` leaves the copies as they are. Each
reads the steady clock, in nanoseconds, and keeps the time of the last attempt it let through for
each key.

Attempts follow one another; a heal takes its lock twice, with a read of the cache in between.
-/

namespace PageSpeed

open Choice Wire

namespace RateLimits

/-- At most one purge of a key for a refreshed origin in this time. -/
def kOriginRefreshMinIntervalSecs : ℤ := 10

/-- The size at which its table is swept. -/
def kMaxOriginRefreshEntries : ℕ := 1024

/-- At most one healing, and one recheck, of a key in this time. -/
def kDedupHealMinIntervalSecs : ℤ := 10

/-- The size at which their tables are swept. -/
def kMaxDedupHealEntries : ℕ := 1024

/-- A number of seconds in ticks of the clock. -/
def seconds (n : ℤ) : ℤ := n * 1000000000

/-- What becomes of an attempt. -/
inductive Verdict
  | limited
  | passed
  /-- The copies are there: nothing to heal. -/
  | skipped
  deriving DecidableEq

/-- The end of the section of `HandleOriginRefreshed` and of the second one of the heal: a full
table is swept, and the attempt is put off when each window in it is live. -/
def recordOrDefer (interval : ℤ) (maxEntries : ℕ) (t : Windows Bytes) (key : Bytes) (now : ℤ) :
    Windows Bytes × Verdict :=
  if t.length ≥ maxEntries then
    let swept := t.sweep interval now
    if swept.length ≥ maxEntries then (swept, .limited) else (swept.record key now, .passed)
  else (t.record key now, .passed)

/-- The limiter of `HandleOriginRefreshed`. -/
def originRefreshed (t : Windows Bytes) (key : Bytes) (now : ℤ) : Windows Bytes × Verdict :=
  if t.within (seconds kOriginRefreshMinIntervalSecs) now key then (t, .limited)
  else recordOrDefer (seconds kOriginRefreshMinIntervalSecs) kMaxOriginRefreshEntries t key now

/-- The limiter of the heal. The cache is read between the check and the record, and says whether
there is something to heal. -/
def dedupHeal (t : Windows Bytes) (key : Bytes) (checked : ℤ) (orphaned : Bool) (now : ℤ) :
    Windows Bytes × Verdict :=
  if t.within (seconds kDedupHealMinIntervalSecs) checked key then (t, .limited)
  else if ¬ orphaned then (t, .skipped)
  else recordOrDefer (seconds kDedupHealMinIntervalSecs) kMaxDedupHealEntries t key now

/-- The limiter of `RecheckRecordedOriginal`: what finds no room in the table is neither recorded
nor put off. -/
def originRecheck (t : Windows Bytes) (key : Bytes) (now : ℤ) : Windows Bytes × Verdict :=
  if t.within (seconds kDedupHealMinIntervalSecs) now key then (t, .limited)
  else
    let t :=
      if t.length ≥ kMaxDedupHealEntries then t.sweep (seconds kDedupHealMinIntervalSecs) now else t
    (if t.length < kMaxDedupHealEntries then t.record key now else t, .passed)

end RateLimits

/-- The three limiters. -/
inductive Limiter
  | originRefreshed
  | dedupHeal
  | originRecheck
  deriving DecidableEq

namespace Limiter

/-- The time that one attempt bars the next. -/
def interval : Limiter → ℤ
  | originRefreshed => RateLimits.seconds RateLimits.kOriginRefreshMinIntervalSecs
  | dedupHeal | originRecheck => RateLimits.seconds RateLimits.kDedupHealMinIntervalSecs

/-- The size at which the table is swept. -/
def maxEntries : Limiter → ℕ
  | originRefreshed => RateLimits.kMaxOriginRefreshEntries
  | dedupHeal | originRecheck => RateLimits.kMaxDedupHealEntries

end Limiter

/-- The times are those the attempt reads the clock at. -/
inductive Attempt
  | originRefreshed (resource : ResourceName) (now : ℤ)
  | dedupHeal (resource : ResourceName) (targetId : UInt8) (checked : ℤ) (orphaned : Bool) (now : ℤ)
  | originRecheck (resource : ResourceName) (now : ℤ)
  deriving DecidableEq

namespace Attempt

/-- The limiter that decides an attempt. -/
def limiter : Attempt → Limiter
  | originRefreshed .. => .originRefreshed
  | dedupHeal .. => .dedupHeal
  | originRecheck .. => .originRecheck

/-- The key of an attempt: the variant's for healing, otherwise the resource's. -/
def key : Attempt → Bytes
  | originRefreshed r _ | originRecheck r _ => composeInternalKey r
  | dedupHeal r id _ _ _ => composeInternalKeyWithId r id

/-- The first and the last time the attempt reads the clock at. -/
def starts : Attempt → ℤ
  | originRefreshed _ now | originRecheck _ now => now
  | dedupHeal _ _ checked _ _ => checked

/-- When an attempt is made. -/
def ends : Attempt → ℤ
  | originRefreshed _ now | originRecheck _ now | dedupHeal _ _ _ _ now => now

end Attempt

/-- The tables of the limiters. -/
structure RateLimits where
  originRefreshLastPurge : Windows Bytes := []
  dedupHealLast : Windows Bytes := []
  originRecheckLast : Windows Bytes := []

namespace RateLimits

/-- The table of a limiter. -/
def table (s : RateLimits) : Limiter → Windows Bytes
  | .originRefreshed => s.originRefreshLastPurge
  | .dedupHeal => s.dedupHealLast
  | .originRecheck => s.originRecheckLast

/-- That table replaced. -/
def setTable (s : RateLimits) (l : Limiter) (t : Windows Bytes) : RateLimits :=
  match l with
  | .originRefreshed => { s with originRefreshLastPurge := t }
  | .dedupHeal => { s with dedupHealLast := t }
  | .originRecheck => { s with originRecheckLast := t }

/-- The limiter of the attempt on its table. -/
def judge (t : Windows Bytes) (a : Attempt) : Windows Bytes × Verdict :=
  match a with
  | .originRefreshed _ now => RateLimits.originRefreshed t a.key now
  | .dedupHeal _ _ checked orphaned now => RateLimits.dedupHeal t a.key checked orphaned now
  | .originRecheck _ now => RateLimits.originRecheck t a.key now

/-- What an attempt is told. -/
def verdict (s : RateLimits) (a : Attempt) : Verdict := (judge (s.table a.limiter) a).2

/-- What it leaves behind. -/
def step (s : RateLimits) (a : Attempt) : RateLimits :=
  s.setTable a.limiter (judge (s.table a.limiter) a).1

/-- The attempts that are let through, in their order. -/
def passed : RateLimits → List Attempt → List Attempt
  | _, [] => []
  | s, a :: as => if s.verdict a = .passed then a :: passed (s.step a) as else passed (s.step a) as

end RateLimits

end PageSpeed
