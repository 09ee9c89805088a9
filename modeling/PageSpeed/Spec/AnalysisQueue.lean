import Mathlib.Data.Finset.Basic

/-!
# The browser analysis queue

`src/browser/analysis_queue.cc`: a bounded list of work items, ordered by priority, with the set of
the template hashes that are queued. The calls hold a mutex, so a history is a list of calls.
-/

namespace PageSpeed.Analysis

/-- A work item. What the queue only carries is the payload. -/
structure Item (α : Type) where
  templateHash : UInt64
  isWarmup : Bool
  frequency : UInt32
  payload : α
  deriving DecidableEq

/-- Warmup before others, then the higher frequency. -/
def Item.higher {α : Type} (x y : Item α) : Bool :=
  (x.isWarmup && !y.isWarmup) || (x.isWarmup == y.isWarmup && x.frequency > y.frequency)

/-- The queue, highest rank first, with the templates that are in it. -/
structure AnalysisQueue (α : Type) where
  queue : List (Item α) := []
  pendingTemplates : Finset UInt64 := ∅
  shutdown : Bool := false
  maxSize : ℕ := 1000
  drops : UInt64 := 0

namespace AnalysisQueue

variable {α : Type} (q : AnalysisQueue α)

/-- The item before the first one that is not higher. -/
def insert (item : Item α) : AnalysisQueue α :=
  { q with
    queue := q.queue.takeWhile (·.higher item) ++ item :: q.queue.dropWhile (·.higher item)
    pendingTemplates := Insert.insert item.templateHash q.pendingTemplates }

/-- The queue without its tail. -/
def evict (tail : Item α) : AnalysisQueue α :=
  { q with
    queue := q.queue.dropLast
    pendingTemplates := q.pendingTemplates.erase tail.templateHash
    drops := q.drops + 1 }

/-- A template that is waiting is not queued twice. In a full queue an item takes the place of the
tail if it ranks higher, and is dropped otherwise. -/
def enqueue (item : Item α) : AnalysisQueue α × Bool :=
  if q.shutdown then (q, false)
  else if item.templateHash ∈ q.pendingTemplates then (q, false)
  else if q.queue.length ≥ q.maxSize then
    match q.queue.getLast? with
    -- no tail to look at: `back()` is called on an empty deque only with a maximum of zero
    | none => (q, false)
    | some tail =>
      if item.higher tail then ((q.evict tail).insert item, true)
      else ({ q with drops := q.drops + 1 }, false)
  else (q.insert item, true)

/-- The front item leaves, and its template may be queued again. -/
def dequeue : AnalysisQueue α × Option (Item α) :=
  match q.queue with
  | [] => (q, none)
  | item :: rest =>
    ({ q with queue := rest, pendingTemplates := q.pendingTemplates.erase item.templateHash },
      some item)

/-- No item is taken in any more. -/
def shutDown : AnalysisQueue α := { q with shutdown := true }

end AnalysisQueue

/-! ## Histories -/

/-- A call from outside. -/
inductive Call (α : Type)
  | enqueue (item : Item α)
  | dequeue
  | shutdown

variable {α : Type}

namespace AnalysisQueue

/-- The queue after a call. -/
def call (q : AnalysisQueue α) : Call α → AnalysisQueue α
  | .enqueue item => (q.enqueue item).1
  | .dequeue => q.dequeue.1
  | .shutdown => q.shutDown

/-- The call is an `Enqueue` that returns true. -/
def accepts (q : AnalysisQueue α) : Call α → Bool
  | .enqueue item => (q.enqueue item).2
  | _ => false

/-- The item that a `Dequeue` returns. -/
def returned (q : AnalysisQueue α) : Call α → Option (Item α)
  | .dequeue => q.dequeue.2
  | _ => none

/-- The item that is refused for capacity: the queue is not shut down, no item of the template is
queued, and still the call returns false. -/
def refused (q : AnalysisQueue α) : Call α → Option (Item α)
  | .enqueue item =>
    if q.shutdown = false ∧ item.templateHash ∉ q.queue.map Item.templateHash ∧
        (q.enqueue item).2 = false then some item else none
  | _ => none

/-- The items that were queued, are no longer, and were not returned. -/
def evicted (q : AnalysisQueue α) (c : Call α) : List (Item α) :=
  q.queue.filter fun x => x.templateHash ∉ (q.call c).queue.map Item.templateHash ∧
    (q.returned c).map Item.templateHash ≠ some x.templateHash

end AnalysisQueue

/-- Counts over a history. -/
structure Tally where
  enqueued : ℕ := 0
  dequeued : ℕ := 0
  refused : ℕ := 0
  evicted : ℕ := 0
  deriving DecidableEq

/-- The tally after a call in the state `q`. -/
def Tally.count (t : Tally) (q : AnalysisQueue α) (c : Call α) : Tally where
  enqueued := t.enqueued + if q.accepts c then 1 else 0
  dequeued := t.dequeued + if (q.returned c).isSome then 1 else 0
  refused := t.refused + if (q.refused c).isSome then 1 else 0
  evicted := t.evicted + (q.evicted c).length

/-- The queue and the counts after a history, from an empty queue of the given maximum. -/
def history (maxSize : ℕ) (calls : List (Call α)) : AnalysisQueue α × Tally :=
  calls.foldl (fun s c => (s.1.call c, s.2.count s.1 c)) ({ maxSize }, {})

end PageSpeed.Analysis
