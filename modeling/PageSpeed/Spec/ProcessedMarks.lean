import PageSpeed.Spec.Inet

/-!
# Processed marks

The sets of `src/worker/worker.cc` that make a notification a duplicate (`processed_*`) and those
that record a written copy (`copy_written_*`), with the calls that change them. Every section under
a mutex is one step. The purge oracle is exact: a baseline for a URL is the number of purges of it
before.
-/

namespace PageSpeed

open Wire

/-- A URL as the worker names it: normalised, with its scheme and site. -/
structure ResourceName where
  url : Bytes
  hostname : Bytes
  scheme : Bytes
  site : Bytes := []
  deriving DecidableEq

/-- The key of a resource, with its site if it has one. -/
def composeInternalKey (r : ResourceName) : Bytes :=
  if r.site = [] then r.url ++ lit "|" ++ r.hostname ++ lit "|" ++ r.scheme
  else r.url ++ lit "|" ++ r.hostname ++ lit "|" ++ r.scheme ++ lit "|s=" ++ r.site

/-- The key of a variant. -/
def composeInternalKeyWithId (r : ResourceName) (id : UInt8) : Bytes :=
  composeInternalKey r ++ lit "|" ++ Inet.decimal id.toNat

/-- What the key of every mark of the URL starts with, whatever the site. -/
def marksPrefix (r : ResourceName) : Bytes :=
  r.url ++ lit "|" ++ r.hostname ++ lit "|" ++ r.scheme ++ lit "|"

/-- A key in a set, and the notification that put it there: its URL and its baseline. -/
structure Mark where
  key : Bytes
  resource : ResourceName
  purgeGen : ℕ
  deriving DecidableEq

/-- A set of keys: at most one mark for each. -/
abbrev MarkSet := List Mark

namespace MarkSet

/-- There is a mark of this key. -/
def contains (ms : MarkSet) (key : Bytes) : Bool := ms.any (·.key = key)

/-- The first to put a key there stays. -/
def insert (ms : MarkSet) (m : Mark) : MarkSet := if contains ms m.key then ms else ms ++ [m]

/-- The marks of other keys. -/
def erase (ms : MarkSet) (key : Bytes) : MarkSet := ms.filter (·.key ≠ key)

end MarkSet

/-- The marks and the copy records, each in two generations. -/
structure ProcessedMarks where
  processedCurrent : MarkSet := []
  processedPrevious : MarkSet := []
  copyWrittenCurrent : MarkSet := []
  copyWrittenPrevious : MarkSet := []

namespace ProcessedMarks

/-- The section of `MarkVariantProcessed`: a new mark has no copy record, and the sets age
together. -/
def markVariantProcessed (maxProcessedEntries : ℕ) (ms : ProcessedMarks) (m : Mark) :
    ProcessedMarks :=
  let current := MarkSet.insert ms.processedCurrent m
  let copyCurrent := MarkSet.erase ms.copyWrittenCurrent m.key
  let copyPrevious := MarkSet.erase ms.copyWrittenPrevious m.key
  if current.length > maxProcessedEntries then ⟨[], current, [], copyCurrent⟩
  else ⟨current, ms.processedPrevious, copyCurrent, copyPrevious⟩

/-- The section of `MarkCopyWritten`: into the generation that holds the mark, if one does. -/
def markCopyWritten (ms : ProcessedMarks) (m : Mark) : ProcessedMarks :=
  if MarkSet.contains ms.processedCurrent m.key then
    { ms with copyWrittenCurrent := MarkSet.insert ms.copyWrittenCurrent m }
  else if MarkSet.contains ms.processedPrevious m.key then
    { ms with copyWrittenPrevious := MarkSet.insert ms.copyWrittenPrevious m }
  else ms

/-- All whose key starts like this are dropped. -/
def eraseUrlMarksLocked (ms : ProcessedMarks) (start : Bytes) : ProcessedMarks :=
  let rest (s : MarkSet) : MarkSet := s.filter fun m => ¬ start.isPrefixOf m.key
  ⟨rest ms.processedCurrent, rest ms.processedPrevious, rest ms.copyWrittenCurrent,
    rest ms.copyWrittenPrevious⟩

/-- The section of the heal of `HandleNotification`: the record is spent with the mark. -/
def eraseHealed (ms : ProcessedMarks) (key : Bytes) : ProcessedMarks :=
  ⟨MarkSet.erase ms.processedCurrent key, MarkSet.erase ms.processedPrevious key,
    MarkSet.erase ms.copyWrittenCurrent key, MarkSet.erase ms.copyWrittenPrevious key⟩

/-- The lookup of `HandleNotification`. -/
def dedupHit (ms : ProcessedMarks) (key : Bytes) : Bool :=
  MarkSet.contains ms.processedCurrent key || MarkSet.contains ms.processedPrevious key

/-- A copy was written and its record is still there. -/
def copyExpected (ms : ProcessedMarks) (key : Bytes) : Bool :=
  MarkSet.contains ms.copyWrittenCurrent key || MarkSet.contains ms.copyWrittenPrevious key

end ProcessedMarks

/-- What is done to the sets, where no purge comes between a dispatch and its marks. -/
inductive MarkOp
  | markVariantProcessed (m : Mark)
  | markCopyWritten (m : Mark)
  | eraseUrlMarks (start : Bytes)
  | eraseHealed (key : Bytes)
  | resetCache

/-- One operation. -/
def ProcessedMarks.apply (maxProcessedEntries : ℕ) (ms : ProcessedMarks) : MarkOp → ProcessedMarks
  | .markVariantProcessed m => ms.markVariantProcessed maxProcessedEntries m
  | .markCopyWritten m => ms.markCopyWritten m
  | .eraseUrlMarks start => ms.eraseUrlMarksLocked start
  | .eraseHealed key => ms.eraseHealed key
  | .resetCache => {}

/-! ## Calls -/

/-- The two calls that set a mark. -/
inductive MarkKind
  | variantProcessed
  | copyWritten

/-- Where a `MarkVariantProcessed` or a `MarkCopyWritten` stands. -/
inductive MarkStage
  | check
  | insert
  | returned

/-- Where an `InvalidateUrl` stands, with the number of the purge once it is made. -/
inductive InvalidateStage
  | purge
  | clear (purge : ℕ)
  | returned (purge : ℕ)

/-- A call that is under way. -/
inductive MarkCall
  | mark (kind : MarkKind) (resource : ResourceName) (id : UInt8) (purgeGen : ℕ) (stage : MarkStage)
  | invalidateUrl (resource : ResourceName) (stage : InvalidateStage)

/-- The marks, the purges so far, and the calls under way. -/
structure MarkState where
  purges : ResourceName → ℕ := fun _ => 0
  marks : ProcessedMarks := {}
  calls : List MarkCall := []

/-- A call starts, or one that is under way goes on. -/
inductive MarkAction
  | mark (kind : MarkKind) (resource : ResourceName) (id : UInt8) (purgeGen : ℕ)
  | invalidateUrl (resource : ResourceName)
  | advance (i : ℕ)

/-- The mark of a call. -/
def ProcessedMarks.add (maxProcessedEntries : ℕ) (ms : ProcessedMarks) (kind : MarkKind)
    (m : Mark) : ProcessedMarks :=
  match kind with
  | .variantProcessed => ms.markVariantProcessed maxProcessedEntries m
  | .copyWritten => ms.markCopyWritten m

/-- The next section of a call. -/
def MarkCall.step (maxProcessedEntries : ℕ) (purges : ResourceName → ℕ) (marks : ProcessedMarks) :
    MarkCall → Option ((ResourceName → ℕ) × ProcessedMarks × MarkCall)
  | .mark kind r id gen .check =>
    some (purges, marks, .mark kind r id gen (if purges r > gen then .returned else .insert))
  | .mark kind r id gen .insert =>
    some (purges, marks.add maxProcessedEntries kind ⟨composeInternalKeyWithId r id, r, gen⟩,
      .mark kind r id gen .returned)
  | .mark _ _ _ _ .returned => none
  | .invalidateUrl r .purge =>
    some (Function.update purges r (purges r + 1), marks, .invalidateUrl r (.clear (purges r + 1)))
  | .invalidateUrl r (.clear n) =>
    some (purges, marks.eraseUrlMarksLocked (marksPrefix r), .invalidateUrl r (.returned n))
  | .invalidateUrl _ (.returned _) => none

/-- One action; a call that is over does not go on. -/
def MarkState.step (maxProcessedEntries : ℕ) (s : MarkState) : MarkAction → Option MarkState
  | .mark kind r id gen => some { s with calls := s.calls ++ [.mark kind r id gen .check] }
  | .invalidateUrl r => some { s with calls := s.calls ++ [.invalidateUrl r .purge] }
  | .advance i =>
    (s.calls[i]?.bind (·.step maxProcessedEntries s.purges s.marks)).map
      fun (purges, marks, call) =>
      { purges := purges, marks := marks, calls := s.calls.set i call }

end PageSpeed
