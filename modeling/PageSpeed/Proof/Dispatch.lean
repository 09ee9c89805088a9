import PageSpeed.Run.Total
import PageSpeed.Proof.UrlNormalizer
import PageSpeed.Spec.Dispatch

/-!
# Dispatch is single-flight

* `Dispatched`: everything that `DispatchNotification` can do.
* `SingleFlight`: one item in flight for each key, the keys of `in_flight_urls_`, and what is held.
* `Steady`: the normal form of a refresh that is held is normal.
* `Due`: a refresh is queued, or held for the item in flight.
-/

namespace PageSpeed

open Run Wire List AList

/-- The notification passes the checks of `DispatchNotification`. -/
def DispatchConfig.Admits (c : DispatchConfig) (n : CacheNotification) : Prop :=
  c.acceptOptionContext n ∧ acceptSiteAndSender n ∧ n.url.length ≤ c.maxUrlLength

theorem CacheNotification.internalKey_ne_nil (n : CacheNotification) : n.internalKey ≠ [] := by
  unfold internalKey composeInternalKey
  split <;> simp [lit]

/-- The item is in flight, and not a warmup. -/
def NotificationWorkContext.Tracked (ctx : NotificationWorkContext) : Prop :=
  ctx.done = false ∧ ctx.notification.capabilityMask ≠ kWarmupSentinel

namespace Dispatcher

variable {c : DispatchConfig} {s t : Dispatcher} {n : CacheNotification}

/-- Everything that `DispatchNotification` can do. -/
inductive Dispatched (c : DispatchConfig) (s : Dispatcher) (n : CacheNotification) :
    Dispatcher → Prop
  | refused (h : ¬ c.Admits n) : Dispatched c s n s
  | warmup (h : c.Admits n) (hmask : n.capabilityMask = kWarmupSentinel) :
    Dispatched c s n { s with contexts := s.contexts ++ [{ notification := c.normalize n }] }
  | dropped (h : c.Admits n) (hin : (c.normalize n).internalKey ∈ s.inFlightUrls)
    (hmask : n.capabilityMask ≠ kOriginRefreshedSentinel) : Dispatched c s n s
  | held (h : c.Admits n) (hin : (c.normalize n).internalKey ∈ s.inFlightUrls)
    (hmask : n.capabilityMask = kOriginRefreshedSentinel) :
    Dispatched c s n { s with
      pendingOriginRefresh :=
        s.pendingOriginRefresh.insert (c.normalize n).internalKey (c.normalize n) }
  | queued (h : c.Admits n) (hmask : n.capabilityMask ≠ kWarmupSentinel)
    (hout : (c.normalize n).internalKey ∉ s.inFlightUrls) :
    Dispatched c s n { s with
      inFlightUrls := insert (c.normalize n).internalKey s.inFlightUrls
      contexts :=
        s.contexts ++ [{ notification := c.normalize n, dedupKey := (c.normalize n).internalKey }] }

/-- What a dispatch does is one of the cases. -/
theorem dispatched (c : DispatchConfig) (s : Dispatcher) (n : CacheNotification) :
    Dispatched c s n (s.dispatchNotification c n) := by
  unfold dispatchNotification
  have hsame : (c.normalize n).capabilityMask = n.capabilityMask := rfl
  simp only [hsame]
  split_ifs with hoption hsite hlength hwarm hin hmask
  · exact .refused fun h => absurd h.2.2 (not_le.2 hlength)
  · exact .held ⟨hoption, hsite, not_lt.1 hlength⟩ hin hmask
  · exact .dropped ⟨hoption, hsite, not_lt.1 hlength⟩ hin hmask
  · exact .queued ⟨hoption, hsite, not_lt.1 hlength⟩ hwarm hin
  · exact .warmup ⟨hoption, hsite, not_lt.1 hlength⟩ (not_not.1 hwarm)
  · exact .refused fun h => hsite h.2.1
  · exact .refused fun h => hoption h.1

/-- One item in flight for each key, `in_flight_urls_` the keys of these items, and held only what
waits for one of them. -/
structure SingleFlight (s : Dispatcher) : Prop where
  dedupKey : ∀ {i : ℕ} {ctx : NotificationWorkContext}, s.contexts[i]? = some ctx → ctx.dedupKey =
    if ctx.notification.capabilityMask = kWarmupSentinel then [] else ctx.notification.internalKey
  unique : ∀ {i j : ℕ} {ctx ctx' : NotificationWorkContext}, s.contexts[i]? = some ctx →
    s.contexts[j]? = some ctx' →
    ctx.Tracked → ctx'.Tracked →
      ctx.notification.internalKey = ctx'.notification.internalKey → i = j
  urls : ∀ k, k ∈ s.inFlightUrls ↔
    ∃ (i : ℕ) (ctx : NotificationWorkContext), s.contexts[i]? = some ctx ∧ ctx.Tracked ∧
      ctx.notification.internalKey = k
  held : ∀ k, k ∈ s.pendingOriginRefresh → k ∈ s.inFlightUrls

theorem getElem?_snoc {l : List NotificationWorkContext} {a ctx : NotificationWorkContext} {i : ℕ} :
    (l ++ [a])[i]? = some ctx ↔ l[i]? = some ctx ∨ (i = l.length ∧ ctx = a) := by
  rw [getElem?_append]
  split
  · rename_i hlt
    simp [hlt.ne]
  · rename_i hge
    rw [getElem?_singleton, getElem?_eq_none (not_lt.1 hge)]
    simp only [reduceCtorEq, false_or, Option.ite_none_right_eq_some, Option.some.injEq]
    constructor <;> rintro ⟨hi, rfl⟩ <;> exact ⟨by omega, rfl⟩

theorem SingleFlight.empty : SingleFlight {} :=
  ⟨nofun, nofun, fun k => by simp, fun k hk => absurd hk (notMem_empty k)⟩

/-- A new item under a free key keeps the invariant. -/
theorem SingleFlight.snoc (h : s.SingleFlight) {a : NotificationWorkContext} {urls : Finset Bytes}
    (hkey : a.dedupKey = if a.notification.capabilityMask = kWarmupSentinel then []
      else a.notification.internalKey)
    (hout : a.Tracked → a.notification.internalKey ∉ s.inFlightUrls)
    (hurls : ∀ k, k ∈ urls ↔ k ∈ s.inFlightUrls ∨ a.Tracked ∧ a.notification.internalKey = k) :
    SingleFlight { s with inFlightUrls := urls, contexts := s.contexts ++ [a] } := by
  refine ⟨?_, ?_, ?_, fun k hk => (hurls k).2 (.inl (h.held k hk))⟩
  · intro i ctx hi
    rcases getElem?_snoc.1 hi with hi | ⟨-, rfl⟩
    exacts [h.dedupKey hi, hkey]
  · intro i j ctx ctx' hi hj ht ht' heq
    -- an item in flight with the key of the new one would have it in the set
    rcases getElem?_snoc.1 hi with hl | ⟨hlen, rfl⟩ <;> rcases getElem?_snoc.1 hj
      with hr | ⟨hlen', rfl⟩
    · exact h.unique hl hr ht ht' heq
    · exact absurd ((h.urls _).2 ⟨_, _, hl, ht, heq⟩) (hout ht')
    · exact absurd ((h.urls _).2 ⟨_, _, hr, ht', heq.symm⟩) (hout ht)
    · exact hlen.trans hlen'.symm
  · intro k
    rw [hurls, h.urls]
    constructor
    · rintro (⟨i, ctx, hi, ht⟩ | ht)
      exacts [⟨i, ctx, getElem?_snoc.2 (.inl hi), ht⟩,
        ⟨_, _, getElem?_snoc.2 (.inr ⟨rfl, rfl⟩), ht⟩]
    · rintro ⟨i, ctx, hi, ht⟩
      rcases getElem?_snoc.1 hi with hi | ⟨-, rfl⟩
      exacts [.inl ⟨i, ctx, hi, ht⟩, .inr ht]

/-- A dispatch never starts a key that is in flight. -/
theorem SingleFlight.dispatchNotification (h : s.SingleFlight) (c : DispatchConfig)
    (n : CacheNotification) :
    (s.dispatchNotification c n).SingleFlight := by
  have hcases := dispatched c s n
  generalize s.dispatchNotification c n = t at hcases ⊢
  cases hcases with
  | refused | dropped => exact h
  | warmup _ hmask =>
    have hnew : ¬ NotificationWorkContext.Tracked { notification := c.normalize n } :=
      fun ht => ht.2 hmask
    exact h.snoc (if_pos hmask).symm (fun ht => absurd ht hnew) fun k => by simp [hnew]
  | held _ hin =>
    refine { h with held := ?_ }
    intro k hk
    rcases (mem_insert _).1 hk with rfl | hk
    exacts [hin, h.held k hk]
  | queued _ hmask hout =>
    refine h.snoc (if_neg hmask).symm (fun _ => hout) fun k => ?_
    rw [Finset.mem_insert, or_comm, and_iff_right ⟨rfl, hmask⟩, eq_comm]

variable {i : ℕ} {ctx : NotificationWorkContext} {k : Bytes}

theorem getElem?_release (hi : s.contexts[i]? = some ctx) (j : ℕ) :
    (s.release i ctx).contexts[j]? = if i = j then some { ctx with done := true }
      else s.contexts[j]? := by
  have hlt := (List.getElem?_eq_some_iff.1 hi).1
  rw [release, List.getElem?_set, if_pos hlt]

/-- The key of an item is empty exactly when the item is a warmup. -/
theorem SingleFlight.dedupKey_cases (h : s.SingleFlight) (hi : s.contexts[i]? = some ctx) :
    (ctx.dedupKey = [] ∧ ctx.notification.capabilityMask = kWarmupSentinel) ∨
    (ctx.dedupKey = ctx.notification.internalKey ∧ ctx.dedupKey ≠ [] ∧
      ctx.notification.capabilityMask ≠ kWarmupSentinel) := by
  have hkey := h.dedupKey hi
  split at hkey
  · exact .inl ⟨hkey, ‹_›⟩
  · exact .inr ⟨hkey, hkey ▸ ctx.notification.internalKey_ne_nil, ‹_›⟩

/-- The end of an item frees its key alone. -/
theorem SingleFlight.release (h : s.SingleFlight) (hi : s.contexts[i]? = some ctx)
    (hdone : ctx.done = false) :
    (s.release i ctx).SingleFlight := by
  -- what is in flight afterwards was so before, at another place
  have hold : ∀ {j : ℕ} {ctx' : NotificationWorkContext},
    (s.release i ctx).contexts[j]? = some ctx' → ctx'.Tracked →
      i ≠ j ∧ s.contexts[j]? = some ctx' := by
    intro j ctx' hj ht
    rw [getElem?_release hi] at hj
    split at hj
    · cases hj
      cases ht.1
    · exact ⟨‹_›, hj⟩
  have hurls : ∀ k, (k ∈ s.inFlightUrls ∧ (ctx.dedupKey ≠ [] → k ≠ ctx.dedupKey)) ↔
      ∃ (j : ℕ) (ctx' : NotificationWorkContext), (s.release i ctx).contexts[j]? = some ctx' ∧
        ctx'.Tracked ∧ ctx'.notification.internalKey = k := by
    intro k
    rw [h.urls]
    constructor
    · rintro ⟨⟨j, ctx', hj, ht, rfl⟩, hne⟩
      have hij : i ≠ j := by
        rintro rfl
        obtain rfl : ctx = ctx' := Option.some.inj (hi.symm.trans hj)
        rcases h.dedupKey_cases hi with ⟨-, hwarm⟩ | ⟨hkey, hnil, -⟩
        exacts [ht.2 hwarm, hne hnil hkey.symm]
      exact ⟨j, ctx', by rwa [getElem?_release hi, if_neg hij], ht, rfl⟩
    · rintro ⟨j, ctx', hj, ht, rfl⟩
      obtain ⟨hij, hj⟩ := hold hj ht
      refine ⟨⟨j, ctx', hj, ht, rfl⟩, fun hnil heq => hij ?_⟩
      rcases h.dedupKey_cases hi with ⟨hempty, -⟩ | ⟨hkey, -, hwarm⟩
      · exact absurd hempty hnil
      · exact h.unique hi hj ⟨hdone, hwarm⟩ ht (hkey.symm.trans heq.symm)
  have hmem : ∀ k, k ∈ (s.release i ctx).inFlightUrls ↔
      k ∈ s.inFlightUrls ∧ (ctx.dedupKey ≠ [] → k ≠ ctx.dedupKey) := by
    intro k
    unfold Dispatcher.release
    by_cases hnil : ctx.dedupKey = []
    · simp [hnil]
    · simp [hnil, and_comm]
  refine ⟨?_, ?_, fun k => (hmem k).trans (hurls k), ?_⟩
  · intro j ctx' hj
    rw [getElem?_release hi] at hj
    split at hj
    · cases hj
      have hkey := h.dedupKey hi
      exact hkey
    · exact h.dedupKey hj
  · intro j j' ctx' ctx'' hj hj' ht ht' hkey
    exact h.unique (hold hj ht).2 (hold hj' ht').2 ht ht' hkey
  · intro k hk
    rw [hmem]
    unfold Dispatcher.release at hk
    by_cases hnil : ctx.dedupKey = []
    · simp only [hnil, ne_eq, not_true_eq_false, if_false] at hk
      exact ⟨h.held k hk, fun hne => absurd hnil hne⟩
    · simp only [hnil, ne_eq, not_false_eq_true, if_true] at hk
      obtain ⟨hne, hk⟩ := mem_erase.1 hk
      exact ⟨h.held k hk, fun _ => hne⟩

/-- Everything that `OnNotificationDone` can do. -/
theorem onNotificationDone_cases (c : DispatchConfig) (s : Dispatcher) (i : ℕ) :
    s.onNotificationDone c i = s ∨
    ∃ ctx, s.contexts[i]? = some ctx ∧ ctx.done = false ∧
      ((s.heldRefresh ctx = none ∧ s.onNotificationDone c i = s.release i ctx) ∨
        ∃ n, s.heldRefresh ctx = some n ∧
          s.onNotificationDone c i = (s.release i ctx).dispatchNotification c n) := by
  unfold onNotificationDone
  split
  · exact .inl rfl
  · rename_i ctx hi
    by_cases hdone : ctx.done = true
    · exact .inl (if_pos hdone)
    rw [if_neg hdone]
    refine .inr ⟨ctx, hi, Bool.eq_false_iff.2 hdone, ?_⟩
    split
    · rename_i n hn
      exact .inr ⟨n, hn, rfl⟩
    · rename_i hn
      exact .inl ⟨hn, rfl⟩

/-- Every action keeps the invariant. -/
theorem SingleFlight.step (h : s.SingleFlight) (c : DispatchConfig) (a : DispatchAction) :
    (s.step c a).SingleFlight := by
  cases a with
  | dispatchNotification n => exact h.dispatchNotification c n
  | onNotificationDone i =>
    change (s.onNotificationDone c i).SingleFlight
    rcases onNotificationDone_cases c s i with heq | ⟨ctx, hi, hdone, ⟨-, heq⟩ | ⟨n, -, heq⟩⟩
    · rwa [heq]
    · rw [heq]
      exact h.release hi hdone
    · rw [heq]
      exact (h.release hi hdone).dispatchNotification c n

/-- At any time every key is in flight at most once. -/
theorem singleFlight_run (c : DispatchConfig) (as : List DispatchAction) :
    (as.foldl (step c) {}).SingleFlight :=
  List.foldlRecOn as (step c) SingleFlight.empty fun _ h a _ => h.step c a

/-! ## No refresh is lost -/

/-- A refresh that has to wait is held in a form that dispatch does not change. -/
def Steady (c : DispatchConfig) (s : Dispatcher) : DispatchAction → Prop
  | .dispatchNotification n => c.Admits n → n.capabilityMask = kOriginRefreshedSentinel →
    (c.normalize n).internalKey ∈ s.inFlightUrls → c.normalize (c.normalize n) = c.normalize n
  | .onNotificationDone _ => True

/-- What is held can be dispatched as it is. -/
structure Ready (c : DispatchConfig) (k : Bytes) (n : CacheNotification) : Prop where
  key : n.internalKey = k
  refresh : n.capabilityMask = kOriginRefreshedSentinel
  normal : c.normalize n = n
  admits : c.Admits n

/-- Every refresh that is kept can be dispatched under its key. -/
def HoldsReady (c : DispatchConfig) (s : Dispatcher) : Prop :=
  ∀ k n, s.pendingOriginRefresh.lookup k = some n → Ready c k n

theorem admits_normalize (h : c.Admits n) : c.Admits (c.normalize n) :=
  ⟨h.1, h.2.1, (length_normalizeCacheUrl_le c.sort n.url c.urlNorm).trans h.2.2⟩

theorem lookup_dispatch_of_ne (hk : k ≠ (c.normalize n).internalKey) :
    (s.dispatchNotification c n).pendingOriginRefresh.lookup k =
      s.pendingOriginRefresh.lookup k := by
  have hcases := dispatched c s n
  generalize s.dispatchNotification c n = t at hcases ⊢
  cases hcases with
  | held => exact lookup_insert_ne hk
  | _ => rfl

/-- Queued work stays queued. -/
theorem contexts_dispatch (c : DispatchConfig) (s : Dispatcher) (n : CacheNotification) :
    s.contexts <+: (s.dispatchNotification c n).contexts := by
  have hcases := dispatched c s n
  generalize s.dispatchNotification c n = t at hcases ⊢
  cases hcases with
  | warmup | queued => exact prefix_append _ _
  | _ => exact prefix_refl _

/-- A dispatch keeps only what can be dispatched later. -/
theorem HoldsReady.dispatchNotification (h : HoldsReady c s)
    (hsteady : Steady c s (.dispatchNotification n)) :
    HoldsReady c (s.dispatchNotification c n) := by
  have hcases := dispatched c s n
  generalize s.dispatchNotification c n = t at hcases ⊢
  cases hcases with
  | held hadmits hin hmask =>
    intro k m hm
    by_cases hk : k = (c.normalize n).internalKey
    · rw [hk, lookup_insert] at hm
      cases hm
      exact ⟨hk.symm, hmask, hsteady hadmits hmask hin, admits_normalize hadmits⟩
    · rw [lookup_insert_ne hk] at hm
      exact h k m hm
  | _ => exact h

theorem lookup_release_of_ne (hk : k ≠ ctx.dedupKey) :
    (s.release i ctx).pendingOriginRefresh.lookup k = s.pendingOriginRefresh.lookup k := by
  unfold release
  split
  · exact lookup_erase_ne hk
  · rfl

theorem lookup_release (hn : (s.release i ctx).pendingOriginRefresh.lookup k = some n) :
    s.pendingOriginRefresh.lookup k = some n := by
  unfold release at hn
  split at hn
  · by_cases hk : k = ctx.dedupKey
    · rw [hk, lookup_erase] at hn
      cases hn
    · rwa [lookup_erase_ne hk] at hn
  · exact hn

/-- What is dispatched when an item is done was held for its key. -/
theorem heldRefresh_eq_some (hn : s.heldRefresh ctx = some n) :
    ctx.dedupKey ≠ [] ∧ s.pendingOriginRefresh.lookup ctx.dedupKey = some n := by
  unfold heldRefresh at hn
  split at hn
  · exact ⟨‹_›, hn⟩
  · cases hn

/-- So does every action of a steady run. -/
theorem HoldsReady.step (h : HoldsReady c s) {a : DispatchAction} (hsteady : Steady c s a) :
    HoldsReady c (s.step c a) := by
  cases a with
  | dispatchNotification n => exact h.dispatchNotification hsteady
  | onNotificationDone i =>
    change HoldsReady c (s.onNotificationDone c i)
    have hrelease : ∀ ctx, HoldsReady c (s.release i ctx) :=
      fun ctx k n hn => h k n (lookup_release hn)
    rcases onNotificationDone_cases c s i with heq | ⟨ctx, -, -, ⟨-, heq⟩ | ⟨n, hn, heq⟩⟩
    · rwa [heq]
    · rw [heq]
      exact hrelease ctx
    · rw [heq]
      have hready := h _ n (heldRefresh_eq_some hn).2
      exact (hrelease ctx).dispatchNotification fun _ _ _ => congrArg c.normalize hready.normal

/-- A refresh of the key, among the ones that arrived. -/
structure Arrived (c : DispatchConfig) (k : Bytes) (ns : List CacheNotification)
    (m : CacheNotification) : Prop where
  mem : m ∈ ns
  refresh : m.capabilityMask = kOriginRefreshedSentinel
  key : (c.normalize m).internalKey = k

/-- One of the refreshes that arrived is queued, at this place or later. -/
def Queued (c : DispatchConfig) (k : Bytes) (from' : ℕ) (ns : List CacheNotification)
    (t : Dispatcher) : Prop :=
  ∃ (j : ℕ) (ctx : NotificationWorkContext), from' ≤ j ∧ t.contexts[j]? = some ctx ∧
    ∃ m, Arrived c k ns m ∧ ctx.notification = c.normalize m

/-- The item is in flight, and holds the key. -/
def Holder (k : Bytes) (s : Dispatcher) (i : ℕ) : Prop :=
  ∃ ctx, s.contexts[i]? = some ctx ∧ ctx.Tracked ∧ ctx.notification.internalKey = k

/-- One of the refreshes that arrived is held, and the item in flight is the one that it found. -/
def Waiting (c : DispatchConfig) (k : Bytes) (old : Dispatcher) (ns : List CacheNotification)
    (t : Dispatcher) : Prop :=
  (∃ i, Holder k old i ∧ Holder k t i) ∧ ∃ m, Arrived c k ns m ∧
    t.pendingOriginRefresh.lookup k = some (c.normalize m)

/-- Where the refresh that arrived in state `old` is. -/
structure Due (c : DispatchConfig) (k : Bytes) (old : Dispatcher) (ns : List CacheNotification)
    (t : Dispatcher) :
    Prop where
  length_le : old.contexts.length ≤ t.contexts.length
  due : Queued c k old.contexts.length ns t ∨ Waiting c k old ns t

variable {k : Bytes} {old : Dispatcher} {ns : List CacheNotification}
  {m : CacheNotification} {l : ℕ}

theorem Arrived.append (h : Arrived c k ns m) (more : List CacheNotification) :
    Arrived c k (ns ++ more) m :=
  ⟨mem_append_left _ h.mem, h.refresh, h.key⟩

theorem getElem?_dispatch (hi : s.contexts[i]? = some ctx) :
    (s.dispatchNotification c n).contexts[i]? = some ctx := by
  obtain ⟨rest, hrest⟩ := contexts_dispatch c s n
  rw [← hrest, List.getElem?_append_left (List.getElem?_eq_some_iff.1 hi).1]
  exact hi

/-- What is queued stays queued. -/
theorem Queued.dispatchNotification (h : Queued c k l ns t) (n : CacheNotification) :
    Queued c k l ns (t.dispatchNotification c n) := by
  obtain ⟨j, ctx, hj, hctx, hm⟩ := h
  exact ⟨j, ctx, hj, getElem?_dispatch hctx, hm⟩

theorem Queued.release (h : Queued c k l ns t) (hi : t.contexts[i]? = some ctx) :
    Queued c k l ns (t.release i ctx) := by
  obtain ⟨j, ctx', hj, hctx, m, hm, hn⟩ := h
  by_cases hij : i = j
  · obtain rfl : ctx = ctx' := Option.some.inj (hi.symm.trans (hij ▸ hctx))
    exact ⟨j, { ctx with done := true }, hj, by rw [getElem?_release hi, if_pos hij], m, hm, hn⟩
  · exact ⟨j, ctx', hj, by rwa [getElem?_release hi, if_neg hij], m, hm, hn⟩

theorem Queued.append (h : Queued c k l ns t) (more : List CacheNotification) :
    Queued c k l (ns ++ more) t := by
  obtain ⟨j, ctx, hj, hctx, m, hm, hn⟩ := h
  exact ⟨j, ctx, hj, hctx, m, hm.append more, hn⟩

/-- An item that holds a key goes on holding it. -/
theorem Holder.dispatchNotification (h : Holder k t i) (n : CacheNotification) :
    Holder k (t.dispatchNotification c n) i := by
  obtain ⟨ctx, hi, hctx⟩ := h
  exact ⟨ctx, getElem?_dispatch hi, hctx⟩

/-- A notification that arrives while a refresh waits leaves it waiting, or is held in its place. -/
theorem Waiting.dispatchNotification (h : Waiting c k old ns t) (n : CacheNotification) :
    Waiting c k old (ns ++ [n]) (t.dispatchNotification c n) := by
  obtain ⟨⟨i, hold, hnew⟩, m, hm, hlookup⟩ := h
  refine ⟨⟨i, hold, hnew.dispatchNotification n⟩, ?_⟩
  by_cases hk : k = (c.normalize n).internalKey
  swap
  · exact ⟨m, hm.append [n], (lookup_dispatch_of_ne hk).trans hlookup⟩
  have hcases := dispatched c t n
  generalize t.dispatchNotification c n = t' at hcases ⊢
  cases hcases with
  | held _ _ hmask =>
    refine ⟨n, ⟨by simp, hmask, hk.symm⟩, ?_⟩
    rw [hk]
    exact lookup_insert _
  | _ => exact ⟨m, hm.append [n], hlookup⟩

/-- The end of another item does not change that. -/
theorem Holder.release {j : ℕ} (h : Holder k t j) (hi : t.contexts[i]? = some ctx) (hij : i ≠ j) :
    Holder k (t.release i ctx) j := by
  obtain ⟨ctx', hj, hctx⟩ := h
  exact ⟨ctx', by rwa [getElem?_release hi, if_neg hij], hctx⟩

/-- The refresh that an item holds up is queued when the item is done. -/
theorem queued_of_done (hready : Ready c k (c.normalize m)) (hm : Arrived c k ns m)
    (hl : l ≤ t.contexts.length) (hkey : ctx.dedupKey = k) :
    Queued c k l ns ((t.release i ctx).dispatchNotification c (c.normalize m)) := by
  have hnil : ctx.dedupKey ≠ [] := by
    rw [hkey, ← hready.key]
    exact (c.normalize m).internalKey_ne_nil
  have hfree : (c.normalize (c.normalize m)).internalKey ∉ (t.release i ctx).inFlightUrls := by
    rw [hready.normal, hready.key, Dispatcher.release, if_pos hnil, hkey]
    exact Finset.notMem_erase k _
  have hcases := dispatched c (t.release i ctx) (c.normalize m)
  generalize (t.release i ctx).dispatchNotification c (c.normalize m) = t' at hcases ⊢
  cases hcases with
  | refused hrefused => exact absurd hready.admits hrefused
  | warmup _ hmask => exact absurd (hready.refresh.symm.trans hmask) (by decide)
  | dropped _ hin | held _ hin => exact absurd hin hfree
  | queued =>
    refine ⟨_, _, ?_, getElem?_snoc.2 (.inr ⟨rfl, rfl⟩), m, hm, hready.normal⟩
    rw [Dispatcher.release, length_set]
    exact hl

/-- The notifications that arrive. -/
def arrivals (as : List DispatchAction) : List CacheNotification :=
  as.filterMap fun
    | .dispatchNotification n => some n
    | .onNotificationDone _ => none

/-- The key of an item that is in flight is not the one of another. -/
theorem SingleFlight.dedupKey_ne (h : t.SingleFlight) {j : ℕ} (hj : Holder k t j)
    (hi : t.contexts[i]? = some ctx)
    (hdone : ctx.done = false) (hij : i ≠ j) : k ≠ ctx.dedupKey := by
  obtain ⟨ctx', hj, ht, rfl⟩ := hj
  intro heq
  rcases h.dedupKey_cases hi with ⟨hnil, -⟩ | ⟨hkey, -, hwarm⟩
  · exact ctx'.notification.internalKey_ne_nil (heq.trans hnil)
  · exact hij (h.unique hi hj ⟨hdone, hwarm⟩ ht (hkey.symm.trans heq.symm))

/-- An item that holds a key is filed under it. -/
theorem SingleFlight.dedupKey_eq (h : t.SingleFlight) (hi : Holder k t i)
    (hctx : t.contexts[i]? = some ctx) :
    ctx.dedupKey = k := by
  obtain ⟨ctx', hi', ht, rfl⟩ := hi
  obtain rfl : ctx = ctx' := Option.some.inj (hctx.symm.trans hi')
  rcases h.dedupKey_cases hctx with ⟨-, hwarm⟩ | ⟨hkey, -⟩
  exacts [absurd hwarm ht.2, hkey]

/-- One action: the refresh is queued, or still kept behind the same item. -/
theorem Due.step (h : Due c k old ns t) (hflight : t.SingleFlight) (hready : HoldsReady c t)
    (a : DispatchAction) :
    Due c k old (ns ++ arrivals [a]) (t.step c a) := by
  -- contexts are never taken away, so that an index stays valid
  have hlen : t.contexts.length ≤ (t.step c a).contexts.length := by
    cases a with
    | dispatchNotification n => exact (contexts_dispatch c t n).length_le
    | onNotificationDone i =>
      change _ ≤ (t.onNotificationDone c i).contexts.length
      have hrelease : ∀ ctx, (t.release i ctx).contexts.length = t.contexts.length :=
        fun _ => length_set
      rcases onNotificationDone_cases c t i with heq | ⟨ctx, -, -, ⟨-, heq⟩ | ⟨n, -, heq⟩⟩
      · rw [heq]
      · rw [heq, hrelease]
      · rw [heq, ← hrelease ctx]
        exact (contexts_dispatch c _ n).length_le
  refine ⟨h.length_le.trans hlen, ?_⟩
  cases a with
  | dispatchNotification n =>
    exact h.due.imp (fun hq => (hq.dispatchNotification n).append [n]) (·.dispatchNotification n)
  | onNotificationDone i =>
    change Queued c k _ (ns ++ []) (t.onNotificationDone c i) ∨
      Waiting c k old (ns ++ []) (t.onNotificationDone c i)
    rw [append_nil]
    rcases onNotificationDone_cases c t i
      with heq | ⟨ctx, hi, hdone, ⟨hnone, heq⟩ | ⟨n, hsome, heq⟩⟩
    · rw [heq]
      exact h.due
    · rw [heq]
      -- the key that is released is another one: its own would have held the refresh
      refine h.due.imp (·.release hi) ?_
      rintro ⟨⟨j, hold, hj⟩, m, hm, hlookup⟩
      have hij : i ≠ j := by
        rintro rfl
        have hkey := hflight.dedupKey_eq hj hi
        have hnil : ctx.dedupKey ≠ [] := by
          rw [hkey, ← hm.key]
          exact (c.normalize m).internalKey_ne_nil
        rw [heldRefresh, if_pos hnil, hkey, hlookup] at hnone
        cases hnone
      exact ⟨⟨j, hold, hj.release hi hij⟩, m, hm,
        (lookup_release_of_ne (hflight.dedupKey_ne hj hi hdone hij)).trans hlookup⟩
    · rw [heq]
      obtain ⟨-, hheld⟩ := heldRefresh_eq_some hsome
      rcases h.due with hq | ⟨⟨j, hold, hj⟩, m, hm, hlookup⟩
      · exact .inl ((hq.release hi).dispatchNotification n)
      by_cases hij : i = j
      · -- the refresh that waited is the one that is dispatched now
        subst hij
        have hkey := hflight.dedupKey_eq hj hi
        rw [hkey, hlookup] at hheld
        cases hheld
        exact .inl (queued_of_done (hready k _ hlookup) hm h.length_le hkey)
      · -- the refresh of another key is dispatched, under its own key
        have hne := hflight.dedupKey_ne hj hi hdone hij
        have hother := hready _ n hheld
        refine .inr ⟨⟨j, hold, (hj.release hi hij).dispatchNotification n⟩, m, hm, ?_⟩
        rw [lookup_dispatch_of_ne (by rwa [hother.normal, hother.key]), lookup_release_of_ne hne]
        exact hlookup

/-- A refresh that arrives is queued or held. -/
theorem due_of_arrival (h : s.SingleFlight) (hadmits : c.Admits n)
    (hmask : n.capabilityMask = kOriginRefreshedSentinel) :
    Due c (c.normalize n).internalKey s [n] (s.dispatchNotification c n) := by
  refine ⟨(contexts_dispatch c s n).length_le, ?_⟩
  have hm : Arrived c (c.normalize n).internalKey [n] n := ⟨by simp, hmask, rfl⟩
  have hcases := dispatched c s n
  generalize s.dispatchNotification c n = t at hcases ⊢
  cases hcases with
  | refused hrefused => exact absurd hadmits hrefused
  | warmup _ hwarm => exact absurd (hmask.symm.trans hwarm) (by decide)
  | dropped _ _ hother => exact absurd hmask hother
  | held _ hin =>
    obtain ⟨i, ctx, hctx⟩ := (h.urls _).1 hin
    exact .inr ⟨⟨i, ⟨ctx, hctx⟩, ⟨ctx, hctx⟩⟩, n, hm, lookup_insert _⟩
  | queued => exact .inl ⟨_, _, le_refl _, getElem?_snoc.2 (.inr ⟨rfl, rfl⟩), n, hm, rfl⟩

theorem holdsReady_run {as : List DispatchAction} (h : Along (step c) (Steady c) s as)
    (hready : HoldsReady c s) :
    HoldsReady c (as.foldl (step c) s) :=
  foldl_along (I := fun _ => HoldsReady c) (fun _ _ _ hI hsteady => hI.step hsteady) hready h

variable {before after : List DispatchAction}

/-- A refresh that arrived is due from then on. -/
theorem due_run
    (h : Along (step c) (Steady c) {} (before ++ .dispatchNotification n :: after))
      (hadmits : c.Admits n) (hmask : n.capabilityMask = kOriginRefreshedSentinel) :
    Due c (c.normalize n).internalKey (before.foldl (step c) {}) (n :: arrivals after)
      ((before ++ .dispatchNotification n :: after).foldl (step c) {}) := by
  obtain ⟨hbefore, hsteady, hafter⟩ := along_append.1 h
  have hflight := singleFlight_run c before
  have hready : HoldsReady c (before.foldl (step c) {}) :=
    holdsReady_run hbefore fun k m hm => by simp [lookup_empty] at hm
  rw [foldl_append, foldl_cons]
  refine (foldl_along (I := fun bs t => Due c (c.normalize n).internalKey (before.foldl (step c) {})
    (n :: arrivals bs) t ∧ t.SingleFlight ∧ HoldsReady c t) ?_ ⟨?_, ?_, ?_⟩ hafter).1
  · rintro bs t a ⟨hdue, hf, hr⟩ ha
    refine ⟨?_, hf.step c a, hr.step ha⟩
    have hmore : arrivals (bs ++ [a]) = arrivals bs ++ arrivals [a] := filterMap_append
    rw [hmore, ← cons_append]
    exact hdue.step hf hr a
  · exact due_of_arrival hflight hadmits hmask
  · exact hflight.step c _
  · exact hready.step hsteady

/-- A refresh of the same key, that one or one that arrives after it, is queued when no item that it
found in flight for its key is left. -/
def RefreshQueued (c : DispatchConfig) (before : List DispatchAction) (n : CacheNotification)
    (after : List DispatchAction) : Prop :=
  let old := before.foldl (step c) {}
  let new := (before ++ .dispatchNotification n :: after).foldl (step c) {}
  (∀ (i : ℕ) (ctx : NotificationWorkContext), old.contexts[i]? = some ctx → ctx.Tracked →
    ctx.notification.internalKey = (c.normalize n).internalKey → ∃ ctx',
      new.contexts[i]? = some ctx' ∧ ctx'.done) →
  ∃ (j : ℕ) (ctx : NotificationWorkContext), old.contexts.length ≤ j ∧ new.contexts[j]? = some ctx ∧
    ∃ m ∈ n :: arrivals after, m.capabilityMask = kOriginRefreshedSentinel ∧
      (c.normalize m).internalKey = (c.normalize n).internalKey ∧ ctx.notification = c.normalize m

/-- What is due is queued when the item in front of it is done. -/
theorem Due.refreshQueued
    (h : Due c (c.normalize n).internalKey (before.foldl (Dispatcher.step c) {})
      (n :: arrivals after)
      ((before ++ .dispatchNotification n :: after).foldl (Dispatcher.step c) {})) :
    RefreshQueued c before n after := by
  intro hdone
  rcases h.due with ⟨j, ctx, hj, hctx, m, hm,
    hn⟩ | ⟨⟨i, ⟨ctx, hold, ht, hkey⟩, ctx', hnew, ht', -⟩, -⟩
  · exact ⟨j, ctx, hj, hctx, m, hm.mem, hm.refresh, hm.key, hn⟩
  · obtain ⟨ctx'', hctx, hd⟩ := hdone i ctx hold ht hkey
    obtain rfl := Option.some.inj (hnew.symm.trans hctx)
    exact absurd ht'.1 (by simp [hd])

/-- **Dispatch.** After any notifications and completions: one item in flight for each key,
`in_flight_urls_` the keys of these items, a key held only while it is in flight. While each refresh
that has to wait is held in a form that dispatch does not change, none is lost. -/
theorem dispatch_single_flight (c : DispatchConfig) (as : List DispatchAction) :
    let s := as.foldl (step c) {}
    (∀ (i j : ℕ) (ctx ctx' : NotificationWorkContext), s.contexts[i]? = some ctx →
      s.contexts[j]? = some ctx' →
      ctx.Tracked → ctx'.Tracked →
        ctx.notification.internalKey = ctx'.notification.internalKey → i = j) ∧
    (∀ k, k ∈ s.inFlightUrls ↔ ∃ ctx ∈ s.contexts, ctx.Tracked ∧ ctx.notification.internalKey = k) ∧
    (∀ k ∈ s.pendingOriginRefresh, k ∈ s.inFlightUrls) ∧
    ((∀ ctx ∈ s.contexts, ctx.done) → ∀ k, k ∉ s.pendingOriginRefresh) ∧
    (Along (step c) (Steady c) {} as → ∀ before n after,
      as = before ++ .dispatchNotification n :: after →
      c.Admits n → n.capabilityMask = kOriginRefreshedSentinel →
        RefreshQueued c before n after) := by
  have h := singleFlight_run c as
  have hurls : ∀ k, k ∈ (as.foldl (step c) {}).inFlightUrls ↔
      ∃ ctx ∈ (as.foldl (step c) {}).contexts, ctx.Tracked ∧ ctx.notification.internalKey = k := by
    intro k
    rw [h.urls]
    constructor
    · rintro ⟨i, ctx, hi, ht⟩
      exact ⟨ctx, mem_of_getElem? hi, ht⟩
    · rintro ⟨ctx, hmem, ht⟩
      obtain ⟨i, hi⟩ := getElem?_of_mem hmem
      exact ⟨i, ctx, hi, ht⟩
  refine ⟨fun i j ctx ctx' => h.unique, hurls, h.held, ?_, ?_⟩
  · intro hdone k hk
    obtain ⟨ctx, hmem, ht, -⟩ := (hurls k).1 (h.held k hk)
    exact absurd ht.1 (by simp [hdone ctx hmem])
  · -- this part alone needs the history, and rests on what is due at each step
    rintro halong before n after rfl hadmits hmask
    exact (due_run halong hadmits hmask).refreshQueued

/-- A configuration without aliases. -/
def exampleConfig : DispatchConfig :=
  { sort := StdSort.merge, optionContextSignature := fun _ => [] }

/-- A notification for a style sheet. -/
def stylesheet (url : Bytes) (mask : UInt32) : CacheNotification :=
  { url := url, hostname := lit "h", scheme := lit "https", contentType := .kCss,
    capabilityMask := mask }

/-- Two stylesheets in flight. The normal form of the first one's URL is not normal. -/
def stylesheets : List DispatchAction :=
  [.dispatchNotification (stylesheet (lit "/%%34%31") 8),
    .dispatchNotification (stylesheet (lit "/A") 8)]

theorem contexts_stylesheets : (stylesheets.foldl (step exampleConfig) {}).contexts =
    [⟨stylesheet (lit "/%41") 8, lit "/%41|h|https", false⟩,
      ⟨stylesheet (lit "/A") 8, lit "/A|h|https", false⟩] := by
  decide +kernel

/-- A refresh that finds its stylesheet in flight, and the end of the item. -/
def refreshed : List DispatchAction :=
  [.dispatchNotification (stylesheet (lit "/a") 8),
    .dispatchNotification (stylesheet (lit "/a") kOriginRefreshedSentinel), .onNotificationDone 0]

/-- The refresh is held, and queued when the item is done. -/
theorem dispatch_single_flight_refresh :
    RefreshQueued exampleConfig [.dispatchNotification (stylesheet (lit "/a") 8)]
        (stylesheet (lit "/a") kOriginRefreshedSentinel) [.onNotificationDone 0] ∧
      (refreshed.foldl (step exampleConfig) {}).contexts =
        [⟨stylesheet (lit "/a") 8, lit "/a|h|https", true⟩,
          ⟨stylesheet (lit "/a") kOriginRefreshedSentinel, lit "/a|h|https", false⟩] := by
  have hsteady : Along (step exampleConfig) (Steady exampleConfig) {} refreshed :=
    ⟨fun _ hmask => absurd hmask (by decide), fun _ _ _ => by decide +kernel, trivial, trivial⟩
  refine ⟨?_, by decide +kernel⟩
  exact (dispatch_single_flight exampleConfig refreshed).2.2.2.2 hsteady _ _ _ rfl
    ⟨by decide +kernel, by decide +kernel, by decide +kernel⟩ rfl

/-- A refresh that waits for `/%41` is dispatched for `/A` when the item is done, and has to wait
again. -/
theorem not_refreshQueued :
    ¬ ∀ (c : DispatchConfig) (before : List DispatchAction) (n : CacheNotification)
    (after : List DispatchAction), c.Admits n → n.capabilityMask = kOriginRefreshedSentinel →
    RefreshQueued c before n after := by
  intro hall
  have hnew : ((stylesheets ++ DispatchAction.dispatchNotification
      (stylesheet (lit "/%%34%31") kOriginRefreshedSentinel) ::
        [DispatchAction.onNotificationDone 0]).foldl
      (step exampleConfig) {}).contexts =
      [⟨stylesheet (lit "/%41") 8, lit "/%41|h|https", true⟩,
        ⟨stylesheet (lit "/A") 8, lit "/A|h|https", false⟩] := by
    decide +kernel
  have hqueued :=
    hall exampleConfig stylesheets (stylesheet (lit "/%%34%31") kOriginRefreshedSentinel)
    [.onNotificationDone 0] ⟨by decide +kernel, by decide +kernel, by decide +kernel⟩ rfl
  obtain ⟨j, ctx, hj, hctx, -⟩ := hqueued fun i ctx hi ht hkey => by
    rw [contexts_stylesheets] at hi
    rw [hnew]
    -- the item for `/A` has another key
    match i, hi with
    | 0, _ => exact ⟨_, rfl, rfl⟩
    | 1, hi =>
      cases hi
      exact absurd hkey (by decide +kernel)
  rw [contexts_stylesheets] at hj
  rw [hnew] at hctx
  exact absurd (List.getElem?_eq_some_iff.1 hctx).1 (not_lt.2 hj)

end Dispatcher

end PageSpeed
