import Mathlib.Algebra.Group.Nat.Defs
import Mathlib.Data.List.Sort
import PageSpeed.Spec.AnalysisQueue

/-!
# The analysis queue over whole histories

* `Ok`: what holds of every queue that calls lead to.
* `enqueue_cases`: all that an `Enqueue` can do.
* `history_accounts`: order, bound, hashes and counts after any history.
-/

namespace PageSpeed.Analysis

open List AnalysisQueue

variable {α : Type} {x y : Item α}

/-! ## Ranks -/

/-- The first item is a warmup where the second is, and with the same mark has no lower
frequency. -/
def Item.RanksAsHigh (x y : Item α) : Prop :=
  (y.isWarmup → x.isWarmup) ∧ (x.isWarmup = y.isWarmup → y.frequency ≤ x.frequency)

/-- The priority as a number. -/
def Item.rank (x : Item α) : ℕ := (if x.isWarmup then 2 ^ 32 else 0) + x.frequency.toNat

/-- `higher` compares ranks. -/
theorem higher_iff : x.higher y = true ↔ y.rank < x.rank := by
  have hx := x.frequency.toNat_lt
  have hy := y.frequency.toNat_lt
  cases hwx : x.isWarmup <;> cases hwy : y.isWarmup <;>
    simp [Item.higher, Item.rank, hwx, hwy, UInt32.lt_iff_toNat_lt] <;> omega

theorem ranksAsHigh_iff : x.RanksAsHigh y ↔ y.rank ≤ x.rank := by
  have hx := x.frequency.toNat_lt
  have hy := y.frequency.toNat_lt
  cases hwx : x.isWarmup <;> cases hwy : y.isWarmup <;>
    simp [Item.RanksAsHigh, Item.rank, hwx, hwy, UInt32.le_iff_toNat_le] <;> omega

/-- The place of a new item is the one that keeps the order. -/
theorem insert_eq_orderedInsert (item : Item α) (l : List (Item α)) :
    l.takeWhile (·.higher item) ++ item :: l.dropWhile (·.higher item) =
      l.orderedInsert (fun x y => y.rank ≤ x.rank) item := by
  have hp : (fun y : Item α => y.higher item) = fun y => decide (¬y.rank ≤ item.rank) := by
    funext y
    rw [Bool.eq_iff_iff, higher_iff, decide_eq_true_eq, not_le]
  rw [orderedInsert_eq_take_drop, hp]

/-! ## One call -/

/-- The queue is sorted, its hashes are distinct and those that are pending, and it has no more
items than it may. -/
structure Ok (q : AnalysisQueue α) : Prop where
  sorted : q.queue.Pairwise fun x y => y.rank ≤ x.rank
  nodup : (q.queue.map Item.templateHash).Nodup
  pending : q.pendingTemplates = (q.queue.map Item.templateHash).toFinset
  size : q.queue.length ≤ q.maxSize

variable {q : AnalysisQueue α} {front : List (Item α)} {tail : Item α}

/-- A template is pending exactly if it is in the queue. -/
theorem Ok.mem_pending (h : Ok q) {hash : UInt64} :
    hash ∈ q.pendingTemplates ↔ hash ∈ q.queue.map Item.templateHash := by
  rw [h.pending, mem_toFinset]

/-- A new item that fits in keeps the invariant. -/
theorem Ok.insert (h : Ok q) {item : Item α}
    (hnew : item.templateHash ∉ q.queue.map Item.templateHash)
    (hsize : q.queue.length < q.maxSize) : Ok (q.insert item) := by
  have hperm := perm_orderedInsert (fun x y : Item α => y.rank ≤ x.rank) item q.queue
  have hmap := hperm.map Item.templateHash
  refine ⟨?_, ?_, ?_, ?_⟩ <;> simp only [AnalysisQueue.insert, insert_eq_orderedInsert]
  · exact h.sorted.orderedInsert item _
  · rw [hmap.nodup_iff, map_cons, nodup_cons]
    exact ⟨hnew, h.nodup⟩
  · rw [toFinset_eq_of_perm _ _ hmap, map_cons, toFinset_cons, h.pending]
  · rw [orderedInsert_length]
    exact hsize

/-- So does dropping the tail. -/
theorem Ok.evict (h : Ok q) (hqueue : q.queue = front ++ [tail]) : Ok (q.evict tail) := by
  have hnodup := h.nodup
  have hsorted := h.sorted
  have hsize := h.size
  rw [hqueue, map_append, map_singleton] at hnodup
  rw [hqueue] at hsorted hsize
  have hnew : tail.templateHash ∉ front.map Item.templateHash := fun hmem =>
    (nodup_append.1 hnodup).2.2 _ hmem _ (mem_singleton_self _) rfl
  refine ⟨?_, ?_, ?_, ?_⟩ <;> simp only [AnalysisQueue.evict, hqueue, dropLast_concat]
  · exact (pairwise_append.1 hsorted).1
  · exact (nodup_append.1 hnodup).1
  · rw [h.pending, hqueue]
    ext hash
    simp only [Finset.mem_erase, mem_toFinset, map_append, mem_append, map_singleton, mem_singleton]
    constructor
    · rintro ⟨hne, hmem | heq⟩
      · exact hmem
      · exact absurd heq hne
    · exact fun hmem => ⟨fun heq => hnew (heq ▸ hmem), .inl hmem⟩
  · rw [length_append] at hsize
    exact le_trans (Nat.le_add_right _ _) hsize

/-- All that an `Enqueue` can do: the item is turned away, refused for capacity, takes the place of
the tail, or is added. -/
theorem enqueue_cases (h : Ok q) (hmax : 1 ≤ q.maxSize) (item : Item α) :
    (q.enqueue item = (q, false) ∧
      (q.shutdown = true ∨ item.templateHash ∈ q.queue.map Item.templateHash)) ∨
    (q.shutdown = false ∧ item.templateHash ∉ q.queue.map Item.templateHash ∧
      ((q.enqueue item = ({ q with drops := q.drops + 1 }, false) ∧ q.queue.length = q.maxSize ∧
        ∀ y ∈ q.queue, item.rank ≤ y.rank) ∨
       (∃ front tail, q.queue = front ++ [tail] ∧ q.queue.length = q.maxSize ∧
         tail.rank < item.rank ∧ q.enqueue item = ((q.evict tail).insert item, true)) ∨
       (q.queue.length < q.maxSize ∧ q.enqueue item = (q.insert item, true)))) := by
  by_cases hshutdown : q.shutdown = true
  · exact .inl ⟨by rw [enqueue, if_pos hshutdown], .inl hshutdown⟩
  by_cases hpending : item.templateHash ∈ q.pendingTemplates
  · exact .inl ⟨by rw [enqueue, if_neg hshutdown, if_pos hpending], .inr (h.mem_pending.1 hpending)⟩
  refine .inr ⟨by simpa using hshutdown, fun hmem => hpending (h.mem_pending.2 hmem), ?_⟩
  by_cases hfull : q.queue.length ≥ q.maxSize
  · have hlen : q.queue.length = q.maxSize := le_antisymm h.size hfull
    have hne : q.queue ≠ [] := by
      intro hnil
      rw [hnil, length_nil] at hlen
      omega
    obtain ⟨front, tail, hqueue⟩ := (eq_nil_or_concat q.queue).resolve_left hne
    rw [concat_eq_append] at hqueue
    have hlast : q.queue.getLast? = some tail := by rw [hqueue, getLast?_concat]
    have henqueue : q.enqueue item =
        if item.higher tail then ((q.evict tail).insert item, true)
        else ({ q with drops := q.drops + 1 }, false) := by
      rw [enqueue, if_neg hshutdown, if_neg hpending, if_pos hfull, hlast]
    by_cases hhigher : item.higher tail
    · exact .inr (.inl ⟨front, tail, hqueue, hlen, higher_iff.1 hhigher,
        by rw [henqueue, if_pos hhigher]⟩)
    · refine .inl ⟨by rw [henqueue, if_neg hhigher], hlen, fun y hy => ?_⟩
      have htail : item.rank ≤ tail.rank := not_lt.1 fun hlt => hhigher (higher_iff.2 hlt)
      have hsorted := h.sorted
      rw [hqueue, pairwise_append] at hsorted
      rw [hqueue, mem_append, mem_singleton] at hy
      -- the tail has the lowest rank
      rcases hy with hy | rfl
      · exact le_trans htail (hsorted.2.2 y hy tail (mem_singleton_self _))
      · exact htail
  · exact .inr (.inr ⟨not_le.1 hfull,
      by rw [enqueue, if_neg hshutdown, if_neg hpending, if_neg hfull]⟩)

/-- And taking the front. -/
theorem Ok.dequeue (h : Ok q) : Ok q.dequeue.1 := by
  rw [AnalysisQueue.dequeue]
  cases hqueue : q.queue with
  | nil => exact h
  | cons item rest =>
    have hnodup := h.nodup
    have hsorted := h.sorted
    have hsize := h.size
    rw [hqueue, map_cons, nodup_cons] at hnodup
    rw [hqueue] at hsorted hsize
    refine ⟨(pairwise_cons.1 hsorted).2, hnodup.2, ?_, le_trans (Nat.le_succ _) hsize⟩
    rw [h.pending, hqueue, map_cons, toFinset_cons]
    exact Finset.erase_insert fun hmem => hnodup.1 (mem_toFinset.1 hmem)

/-! ## What a call does to the items -/

section Calls

variable {q : AnalysisQueue α} {item : Item α}

theorem mem_insert_queue : x ∈ (q.insert item).queue ↔ x = item ∨ x ∈ q.queue := by
  simp only [AnalysisQueue.insert, insert_eq_orderedInsert]
  exact mem_orderedInsert _

theorem length_insert : (q.insert item).queue.length = q.queue.length + 1 := by
  simp only [AnalysisQueue.insert, insert_eq_orderedInsert]
  exact orderedInsert_length _ _ _

/-- Nothing is evicted if every item stays or is returned. -/
theorem evicted_eq_nil {c : Call α}
    (h : ∀ x ∈ q.queue, x ∈ (q.call c).queue ∨ q.returned c = some x) : q.evicted c = [] := by
  rw [evicted, filter_eq_nil_iff]
  intro x hx hgone
  rw [decide_eq_true_eq] at hgone
  rcases h x hx with hkept | hreturned
  · exact hgone.1 (mem_map_of_mem hkept)
  · exact hgone.2 (by rw [hreturned]; rfl)

/-- The tail is what an `Enqueue` evicts. -/
theorem evicted_eq_tail (h : Ok q) (hqueue : q.queue = front ++ [tail])
    (hnew : item.templateHash ∉ q.queue.map Item.templateHash)
      (henqueue : q.enqueue item = ((q.evict tail).insert item, true)) :
    q.evicted (.enqueue item) = [tail] := by
  have hafter : ∀ x, x ∈ (q.call (.enqueue item)).queue ↔ x = item ∨ x ∈ front := by
    intro x
    rw [call, henqueue, mem_insert_queue, evict, hqueue, dropLast_concat]
  have hnodup := h.nodup
  rw [hqueue, map_append, map_singleton, nodup_append] at hnodup
  rw [hqueue, map_append, map_singleton, mem_append, mem_singleton, not_or] at hnew
  rw [evicted, hqueue, filter_append]
  have hfront : front.filter (fun x =>
    decide (x.templateHash ∉ (q.call (.enqueue item)).queue.map Item.templateHash ∧
      (q.returned (.enqueue item)).map Item.templateHash ≠ some x.templateHash)) = [] := by
    rw [filter_eq_nil_iff]
    intro x hx hgone
    rw [decide_eq_true_eq] at hgone
    exact hgone.1 (mem_map_of_mem ((hafter x).2 (.inr hx)))
  have htail : tail.templateHash ∉ (q.call (.enqueue item)).queue.map Item.templateHash := by
    intro hmem
    obtain ⟨x, hx, hhash⟩ := mem_map.1 hmem
    rcases (hafter x).1 hx with rfl | hx
    · exact hnew.2 hhash
    · exact hnodup.2.2 _ (mem_map_of_mem hx) _ (mem_singleton_self _) hhash
  rw [hfront, nil_append, filter_cons_of_pos]
  · rfl
  · rw [decide_eq_true_eq]
    exact ⟨htail, nofun⟩

/-- What a call does to the counts and to the items it turns away. -/
structure Accounts (q : AnalysisQueue α) (c : Call α) : Prop where
  ok : Ok (q.call c)
  maxSize : (q.call c).maxSize = q.maxSize
  items : q.queue.length + (if q.accepts c then 1 else 0) =
    (q.call c).queue.length + (if (q.returned c).isSome then 1 else 0) + (q.evicted c).length
  drops : (q.call c).drops = q.drops +
    UInt64.ofNat ((if (q.refused c).isSome then 1 else 0) + (q.evicted c).length)
  refused : ∀ x ∈ q.refused c, q.queue.length = q.maxSize ∧ ∀ y ∈ q.queue, x.rank ≤ y.rank
  evicted : ∀ x ∈ q.evicted c, (q.call c).queue.length = q.maxSize ∧ ∀ y ∈ (q.call c).queue,
    x.rank ≤ y.rank

theorem refused_of_accepted {item : Item α} (h : (q.enqueue item).2 = true) :
    q.refused (.enqueue item) = none := by
  rw [refused, if_neg]
  rintro ⟨-, -, hfalse⟩
  rw [h] at hfalse
  cases hfalse

/-- An `enqueue` accounts for every item. -/
theorem accounts_enqueue (h : Ok q) (hmax : 1 ≤ q.maxSize) (item : Item α) :
    Accounts q (.enqueue item) := by
  rcases enqueue_cases h hmax item
    with ⟨henqueue, hturned⟩ | ⟨hopen, hnew, ⟨henqueue, hfull, hlow⟩ |
    ⟨front, tail, hqueue, hfull, hhigher, henqueue⟩ | ⟨hroom, henqueue⟩⟩
  · have hcall : q.call (.enqueue item) = q := by rw [call, henqueue]
    have hevicted : q.evicted (.enqueue item) = [] :=
      evicted_eq_nil fun x hx => .inl (by rwa [hcall])
    have hrefused : q.refused (.enqueue item) = none := by
      rw [refused, if_neg]
      rintro ⟨hopen, hnew, -⟩
      rcases hturned with hshut | hmem
      · rw [hshut] at hopen
        cases hopen
      · exact hnew hmem
    refine ⟨by rwa [hcall], by rw [hcall], ?_, ?_, ?_, ?_⟩ <;>
      simp [hcall, hevicted, hrefused, accepts, returned, henqueue]
  · have hcall : q.call (.enqueue item) = { q with drops := q.drops + 1 } := by rw [call, henqueue]
    have hevicted : q.evicted (.enqueue item) = [] :=
      evicted_eq_nil fun x hx => .inl (by rwa [hcall])
    have hrefused : q.refused (.enqueue item) = some item := by
      rw [refused, if_pos ⟨hopen, hnew, by rw [henqueue]⟩]
    refine ⟨?_, by rw [hcall], ?_, ?_, ?_, ?_⟩
    · rw [hcall]
      exact { h with }
    · simp [hcall, hevicted, accepts, returned, henqueue]
    · simp [hcall, hevicted, hrefused]
    · intro x hx
      rw [hrefused, Option.mem_some_iff] at hx
      exact hx ▸ ⟨hfull, hlow⟩
    · simp [hevicted]
  · have hcall : q.call (.enqueue item) = (q.evict tail).insert item := by rw [call, henqueue]
    have hevicted := evicted_eq_tail h hqueue hnew henqueue
    have hrefused := refused_of_accepted (congrArg Prod.snd henqueue)
    have hfront : (q.evict tail).queue = front := by rw [evict, hqueue, dropLast_concat]
    have hlen : front.length + 1 = q.maxSize := by
      rw [← hfull, hqueue, length_append, length_singleton]
    have hnewfront : item.templateHash ∉ (q.evict tail).queue.map Item.templateHash := by
      rw [hfront]
      intro hmem
      exact hnew (by rw [hqueue, map_append]; exact mem_append_left _ hmem)
    have hafter : ((q.evict tail).insert item).queue.length = q.maxSize := by
      rw [length_insert, hfront, hlen]
    refine ⟨?_, by rw [hcall]; rfl, ?_, ?_, ?_, ?_⟩
    · rw [hcall]
      refine (h.evict hqueue).insert hnewfront ?_
      rw [hfront]
      exact hlen ▸ Nat.lt_succ_self _
    · rw [hcall, hafter, hevicted, hfull]
      simp [accepts, returned, henqueue]
    · rw [hcall, hevicted, hrefused]
      rfl
    · simp [hrefused]
    · intro x hx
      rw [hevicted, mem_singleton] at hx
      rw [hcall, hx]
      refine ⟨hafter, fun y hy => ?_⟩
      rw [mem_insert_queue, hfront] at hy
      -- the others stand before the tail, and the new item outranks it
      rcases hy with rfl | hy
      · exact hhigher.le
      · have hsorted := h.sorted
        rw [hqueue, pairwise_append] at hsorted
        exact hsorted.2.2 y hy tail (mem_singleton_self _)
  · have hcall : q.call (.enqueue item) = q.insert item := by rw [call, henqueue]
    have hevicted : q.evicted (.enqueue item) = [] := evicted_eq_nil fun x hx => .inl (by
      rw [hcall, mem_insert_queue]
      exact .inr hx)
    have hrefused := refused_of_accepted (congrArg Prod.snd henqueue)
    refine ⟨by rw [hcall]; exact h.insert hnew hroom, by rw [hcall]; rfl, ?_, ?_, ?_, ?_⟩
    · rw [hcall, length_insert, hevicted]
      simp [accepts, returned, henqueue]
    · rw [hcall, hevicted, hrefused]
      simp [AnalysisQueue.insert]
    · simp [hrefused]
    · simp [hevicted]

/-- A `dequeue` accounts for every item. -/
theorem accounts_dequeue (h : Ok q) : Accounts q .dequeue := by
  have hevicted : q.evicted .dequeue = [] := by
    refine evicted_eq_nil fun x hx => ?_
    rw [call, returned, dequeue]
    cases hqueue : q.queue with
    | nil =>
      rw [hqueue] at hx
      cases hx
    | cons item rest =>
      rw [hqueue, mem_cons] at hx
      exact hx.symm.imp_right fun heq => by rw [heq]
  refine ⟨h.dequeue, ?_, ?_, ?_, nofun, ?_⟩
  · rw [call, dequeue]
    cases q.queue <;> rfl
  · rw [hevicted, call, returned, dequeue]
    cases hqueue : q.queue <;> simp [accepts, hqueue]
  · rw [hevicted, call, dequeue]
    cases q.queue <;> simp [refused]
  · simp [hevicted]

/-- Every call accounts for every item. -/
theorem accounts_call (h : Ok q) (hmax : 1 ≤ q.maxSize) (c : Call α) : Accounts q c := by
  cases c with
  | enqueue item => exact accounts_enqueue h hmax item
  | dequeue => exact accounts_dequeue h
  | shutdown =>
    have hevicted : q.evicted .shutdown = [] := evicted_eq_nil fun x hx => .inl hx
    refine ⟨{ h with }, rfl, ?_, ?_, nofun, ?_⟩
    · simp [hevicted, accepts, returned, call, shutDown]
    · simp [hevicted, refused, call, shutDown]
    · simp [hevicted]

end Calls

/-! ## Histories -/

theorem ok_empty (maxSize : ℕ) : Ok ({ maxSize } : AnalysisQueue α) :=
  ⟨.nil, nodup_nil, rfl, Nat.zero_le _⟩

/-- The counts belong to the queue. -/
def Balanced (maxSize : ℕ) (s : AnalysisQueue α × Tally) : Prop :=
  Ok s.1 ∧ s.1.maxSize = maxSize ∧ s.2.enqueued = s.2.dequeued + s.1.queue.length + s.2.evicted ∧
    s.1.drops = UInt64.ofNat (s.2.refused + s.2.evicted)

/-- The tally balances after any calls. -/
theorem balanced_history {maxSize : ℕ} (hmax : 1 ≤ maxSize) (calls : List (Call α)) :
    Balanced maxSize (history maxSize calls) := by
  refine List.foldlRecOn (motive := Balanced maxSize) calls _ ⟨ok_empty maxSize, rfl, rfl, rfl⟩ ?_
  rintro ⟨q, t⟩ ⟨hok, rfl, hitems, hdrops⟩ c -
  have haccounts : Accounts q c := accounts_call hok hmax c
  refine ⟨haccounts.ok, haccounts.maxSize, ?_, ?_⟩
  · have hcall := haccounts.items
    simp only [Tally.count] at hitems ⊢
    omega
  · simp only [Tally.count] at hdrops ⊢
    rw [haccounts.drops, hdrops, ← UInt64.ofNat_add]
    congr 1
    omega

/-- An item is accepted unless its template is queued, the queue is shut down, or the queue is full
of items that rank as high; an accepted item is queued. -/
theorem accepts_enqueue (h : Ok q) (hmax : 1 ≤ q.maxSize) (item : Item α) :
    (q.shutdown = false → item.templateHash ∉ q.queue.map Item.templateHash →
      (q.queue.length < q.maxSize ∨ ∃ y ∈ q.queue, y.rank < item.rank) →
        q.accepts (.enqueue item) = true) ∧
    (q.accepts (.enqueue item) = true → item ∈ (q.call (.enqueue item)).queue) := by
  rw [accepts, call]
  rcases enqueue_cases h hmax item with ⟨henqueue, hturned⟩ | ⟨-, -, ⟨henqueue, hfull, hlow⟩ |
    ⟨front, tail, -, -, -, henqueue⟩ | ⟨-, henqueue⟩⟩ <;> rw [henqueue]
  · refine ⟨fun hopen hnew _ => ?_, nofun⟩
    rcases hturned with hshut | hmem
    · rw [hopen] at hshut
      exact hshut
    · exact absurd hmem hnew
  · refine ⟨fun _ _ hroom => ?_, nofun⟩
    rcases hroom with hroom | ⟨y, hy, hlt⟩
    · exact absurd hfull hroom.ne
    · exact absurd (hlow y hy) (not_le.2 hlt)
  · exact ⟨fun _ _ _ => rfl, fun _ => mem_insert_queue.2 (.inl rfl)⟩
  · exact ⟨fun _ _ _ => rfl, fun _ => mem_insert_queue.2 (.inl rfl)⟩

/-- **After any history the queue is a bounded priority queue, and its accounts are exact.** A
`Dequeue` takes the head of a queue that is not empty, which no other item outranks. An `Enqueue`
accepts what it has room for or what outranks an item, and turns an item away or evicts it only for
as many queued items as there may be. -/
theorem history_accounts (maxSize : ℕ) (hmax : 1 ≤ maxSize) (calls : List (Call α)) :
    let q := (history maxSize calls).1
    let t := (history maxSize calls).2
    q.queue.Pairwise Item.RanksAsHigh ∧ q.queue.length ≤ maxSize ∧
    (q.queue.map Item.templateHash).Nodup ∧
    (∀ hash, hash ∈ q.pendingTemplates ↔ hash ∈ q.queue.map Item.templateHash) ∧
    (∀ item rest, q.queue = item :: rest → q.dequeue.2 = some item ∧ q.dequeue.1.queue = rest) ∧
    (∀ x ∈ q.dequeue.2, ∀ y ∈ q.queue, x.RanksAsHigh y) ∧
    (∀ item, q.shutdown = false → item.templateHash ∉ q.queue.map Item.templateHash →
      (q.queue.length < maxSize ∨ ∃ y ∈ q.queue, ¬y.RanksAsHigh item) →
        q.accepts (.enqueue item) = true) ∧
    (∀ item, q.accepts (.enqueue item) = true → item ∈ (q.call (.enqueue item)).queue) ∧
    (∀ c, ∀ x ∈ q.refused c, q.queue.length = maxSize ∧ ∀ y ∈ q.queue, y.RanksAsHigh x) ∧
    (∀ c, ∀ x ∈ q.evicted c, (q.call c).queue.length = maxSize ∧ ∀ y ∈ (q.call c).queue,
      y.RanksAsHigh x) ∧
    t.enqueued = t.dequeued + q.queue.length + t.evicted ∧
      q.drops = UInt64.ofNat (t.refused + t.evicted) := by
  obtain ⟨hok, hsize, hitems, hdrops⟩ := balanced_history hmax calls
  generalize history maxSize calls = s at hok hsize hitems hdrops
  obtain ⟨q, t⟩ := s
  simp only [ranksAsHigh_iff, not_le] at hok hsize hitems hdrops ⊢
  subst hsize
  refine ⟨hok.sorted.imp fun h => ranksAsHigh_iff.2 h, hok.size, hok.nodup,
    fun hash => hok.mem_pending, ?_, ?_,
    fun item => (accepts_enqueue hok hmax item).1, fun item => (accepts_enqueue hok hmax item).2,
    fun c => (accounts_call hok hmax c).refused, fun c => (accounts_call hok hmax c).evicted,
      hitems, hdrops⟩
  · intro item rest hqueue
    rw [dequeue, hqueue]
    exact ⟨rfl, rfl⟩
  · intro x hx y hy
    rw [dequeue] at hx
    have hsorted := hok.sorted
    cases hqueue : q.queue with
    | nil =>
      rw [hqueue] at hy
      cases hy
    | cons item rest =>
      rw [hqueue] at hx hy hsorted
      obtain rfl : item = x := Option.some.inj hx
      rcases mem_cons.1 hy with rfl | hy
      · exact le_rfl
      · exact (pairwise_cons.1 hsorted).1 y hy

/-- A queue of two: the second item goes before the first, the third takes the place of the first,
the fourth is refused, and the third is dequeued. Then there is room, and the fourth is accepted. -/
theorem history_accounts_two :
    let calls : List (Call Unit) := [.enqueue ⟨1, false, 1, ()⟩, .enqueue ⟨2, false, 3, ()⟩,
      .enqueue ⟨3, true, 1, ()⟩, .enqueue ⟨4, false, 2, ()⟩]
    let q := (history 2 calls).1
    let q' := (history 2 (calls ++ [.dequeue])).1
    q.queue = [⟨3, true, 1, ()⟩, ⟨2, false, 3, ()⟩] ∧ q.drops = 2 ∧
      q.queue.Pairwise Item.RanksAsHigh ∧
    q.dequeue.2 = some ⟨3, true, 1, ()⟩ ∧ q'.queue = [⟨2, false, 3, ()⟩] ∧
    q'.accepts (.enqueue ⟨4, false, 2, ()⟩) = true := by
  intro calls q q'
  obtain ⟨hsorted, -, -, -, hdequeue, -⟩ := history_accounts 2 (by decide) calls
  obtain ⟨-, -, -, -, -, -, haccepts, -⟩ := history_accounts 2 (by decide) (calls ++ [.dequeue])
  have hqueue : q.queue = [⟨3, true, 1, ()⟩, ⟨2, false, 3, ()⟩] := by decide
  exact ⟨hqueue, by decide, hsorted, (hdequeue _ _ hqueue).1, by decide,
    haccepts _ (by decide) (by decide) (.inl (by decide))⟩

end PageSpeed.Analysis
