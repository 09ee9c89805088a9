import PageSpeed.Choice.Lru
import PageSpeed.Wire.Split
import PageSpeed.Spec.UrlRegistry

/-!
# The registry is an LRU

The list of nodes and the map are two views of one list of links, a node with the entry that the map
has for its key (`Linked`). Every call changes that list as it changes an LRU of the targets
(`linked_run`).

* `linked_step`, `linked_run`: one call, and any sequence of them.
* `Linked.walkUpTo_eq`: the pages of a listing, one after the other, are the matching entries.
-/

namespace PageSpeed.UrlRegistry

open Wire Choice List

/-- What a call names: four strings without a NUL. -/
structure Target where
  url : Bytes
  hostname : Bytes
  scheme : Bytes
  site : Bytes
  url_nul : 0 ∉ url
  hostname_nul : 0 ∉ hostname
  scheme_nul : 0 ∉ scheme
  site_nul : 0 ∉ site
  deriving DecidableEq

/-- The key of a target. -/
def Target.key (t : Target) : Bytes := makeKey t.url t.hostname t.scheme t.site

/-- Different targets have different keys. -/
theorem Target.key_inj {t u : Target} (h : t.key = u.key) : t = u := by
  obtain ⟨hurl, h⟩ := until_inj t.url_nul u.url_nul rfl rfl h
  obtain ⟨hhost, h⟩ := until_inj t.hostname_nul u.hostname_nul rfl rfl (cons.inj h).2
  have h := (cons.inj h).2
  have hrest : t.scheme = u.scheme ∧ t.site = u.site := by
    by_cases ht : t.site = [] <;> by_cases hu : u.site = []
    · rw [if_pos ht, if_pos hu, append_nil, append_nil] at h
      exact ⟨h, ht.trans hu.symm⟩
    · rw [if_pos ht, if_neg hu, append_nil] at h
      exact absurd (h ▸ by simp) t.scheme_nul
    · rw [if_neg ht, if_pos hu, append_nil] at h
      exact absurd (h ▸ by simp) u.scheme_nul
    · rw [if_neg ht, if_neg hu] at h
      obtain ⟨hscheme, h⟩ := until_inj t.scheme_nul u.scheme_nul rfl rfl h
      exact ⟨hscheme, (cons.inj h).2⟩
  cases t
  cases u
  simp_all

/-- A call that changes the registry, or lists it. -/
inductive Call
  | record (t : Target)
  | remove (t : Target)
  | setAlternateCount (t : Target) (count : ℕ)
  | clearAll
  | list (offset limit : ℕ) (hostname site : Bytes)
  deriving DecidableEq

/-- A call. -/
def apply (r : UrlRegistry) : Call → UrlRegistry
  | .record t => r.record t.url t.hostname t.scheme t.site
  | .remove t => r.remove t.url t.hostname t.scheme t.site
  | .setAlternateCount t count => r.setAlternateCount t.url t.hostname t.scheme count t.site
  | .clearAll => r.clearAll.2
  | .list _ _ _ _ => r

variable (maxEntries : ℕ) (calls : List Call)

/-- A list of calls on a new registry. -/
def run : UrlRegistry := calls.foldl apply (new maxEntries)

/-! ## The purpose -/

/-- An entry of an LRU of targets. -/
structure Item where
  target : Target
  count : ℕ := 0

/-- The entry that an item stands for. -/
def Item.entry (i : Item) : Entry :=
  { url := i.target.url, hostname := i.target.hostname, scheme := i.target.scheme,
    site := i.target.site, alternateCount := i.count }

/-- The calls on an LRU of targets, the most recently recorded one first. -/
def lruStep (cap : ℕ) (l : List Item) : Call → List Item
  | .record t => touch Item.target cap { target := t } l
  | .remove t => forget Item.target t l
  | .setAlternateCount t count => l.map fun i => if i.target = t then { i with count } else i
  | .clearAll => []
  | .list _ _ _ _ => l

/-- The list that the calls lead to. -/
def lru (cap : ℕ) (calls : List Call) : List Item := calls.foldl (lruStep cap) []

/-- The position of the last call that recorded the target, and 0 if none did. -/
def lastRecorded (t : Target) : ℕ :=
  calls.length - (calls.reverse.takeWhile (· ≠ .record t)).length

/-! ## The cap -/

variable {r : UrlRegistry}

theorem maxEntries_rememberSite (r : UrlRegistry) (site : Bytes) :
    (r.rememberSite site).maxEntries = r.maxEntries := by
  unfold rememberSite
  split_ifs <;> rfl

theorem maxEntries_evictOldest (r : UrlRegistry) : r.evictOldest.maxEntries = r.maxEntries := by
  unfold evictOldest
  cases r.order.getLast? <;> rfl

theorem maxEntries_evict (r : UrlRegistry) : r.evict.maxEntries = r.maxEntries := by
  unfold evict
  induction r.order.length generalizing r with
  | zero => rfl
  | succ n ih =>
    rw [evictUpTo]
    split_ifs
    · rw [ih, maxEntries_evictOldest]
    · rfl

/-! ## Links -/

/-- A node of the list, and the item that the map has for its key. -/
structure Link where
  address : ℕ
  item : Item

open Link

/-- The node of a link. -/
def Link.node (l : Link) : Node := ⟨l.address, l.item.target.key⟩

/-- The map entry of a link. -/
def Link.pair (l : Link) : Bytes × MapEntry := (l.item.target.key, ⟨l.item.entry, l.address⟩)

/-- List and map are two views of the links. -/
structure Linked (r : UrlRegistry) (ls : List Link) : Prop where
  order : r.order = ls.map Link.node
  entries : r.entries.Perm (ls.map Link.pair)
  addresses : (ls.map Link.address).Nodup
  fresh : ∀ l ∈ ls, l.address < r.nextAddress
  lru : Lru Item.target r.maxEntries (ls.map Link.item)
  room : 0 < r.maxEntries

variable {ls ls' : List Link} {l : Link} {t : Target}

/-- A new registry is empty. -/
theorem linked_new : Linked (new maxEntries) [] :=
  ⟨rfl, List.Perm.refl _, nodup_nil, by simp, ⟨nodup_nil, Nat.zero_le _⟩, by simp [new]⟩

namespace Linked

section

variable (h : Linked r ls)
include h

theorem targets_nodup : (ls.map fun l => l.item.target).Nodup := by
  have hnodup := h.lru.nodup
  rwa [map_map] at hnodup

theorem keys_nodup : (ls.map fun l => l.item.target.key).Nodup := by
  have hnodup := h.targets_nodup.map (f := Target.key) fun _ _ => Target.key_inj
  rwa [map_map] at hnodup

/-- Address, target and link say the same. -/
theorem address_iff (hl : l ∈ ls) {m : Link} (hm : m ∈ ls) : m.address = l.address ↔
    m.item.target = l.item.target := by
  constructor
  · intro heq
    rw [inj_on_of_nodup_map h.addresses hm hl heq]
  · intro heq
    rw [inj_on_of_nodup_map h.targets_nodup hm hl heq]

/-- The key of a link leads to its entry. -/
theorem find_mem (hl : l ∈ ls) : r.find l.item.target.key = some ⟨l.item.entry, l.address⟩ := by
  have hmem : l.pair ∈ r.entries := h.entries.mem_iff.2 (mem_map_of_mem hl)
  have hnodup : (r.entries.map (·.1)).Nodup := by
    rw [(h.entries.map (·.1)).nodup_iff, map_map]
    exact h.keys_nodup
  have hfind : r.entries.find? (·.1 = l.item.target.key) = some l.pair := by
    cases hsearch : r.entries.find? (·.1 = l.item.target.key) with
    | none =>
      exact absurd rfl (show ¬ l.pair.1 =
        l.item.target.key by simpa using find?_eq_none.1 hsearch _ hmem)
    | some p =>
      have hkey : p.1 = l.item.target.key := by simpa using find?_some hsearch
      rw [inj_on_of_nodup_map hnodup (mem_of_find?_eq_some hsearch) hmem hkey]
  rw [find, hfind]
  rfl

/-- Any other key leads nowhere. -/
theorem find_none (ht : ∀ l ∈ ls, l.item.target ≠ t) : r.find t.key = none := by
  rw [find, Option.map_eq_none_iff, find?_eq_none]
  intro p hp
  obtain ⟨l, hl, rfl⟩ := mem_map.1 (h.entries.mem_iff.1 hp)
  have hne : l.pair.1 ≠ t.key := fun heq => ht l hl (Target.key_inj heq)
  simpa using hne

/-- Some of the links, in their order, without what they had in the map. -/
theorem filter (p : Link → Bool) (q : Bytes → Bool) (hq : ∀ l ∈ ls, q l.item.target.key = p l)
    {r' : UrlRegistry} (horder : r'.order = (ls.filter p).map Link.node)
    (hentries : r'.entries = r.entries.filter fun e => q e.1)
      (hnext : r'.nextAddress = r.nextAddress)
    (hmax : r'.maxEntries = r.maxEntries) : Linked r' (ls.filter p) where
  order := horder
  entries := by
    rw [hentries]
    refine (h.entries.filter _).trans (List.Perm.of_eq ?_)
    rw [filter_map]
    exact congrArg _ (filter_congr hq)
  addresses := h.addresses.sublist (filter_sublist.map _)
  fresh l hl := hnext ▸ h.fresh l (mem_of_mem_filter hl)
  lru := by
    rw [hmax]
    exact ⟨h.lru.nodup.sublist ((filter_sublist.map _).map _),
      (((filter_sublist.map _).length_le).trans h.lru.length_le)⟩
  room := hmax ▸ h.room

theorem rememberSite (site : Bytes) : Linked (r.rememberSite site) ls := by
  unfold UrlRegistry.rememberSite
  split_ifs
  · exact { h with }
  · exact { h with }
  · exact h

/-! ## Room -/

/-- The last link goes. -/
theorem evictOldest : Linked r.evictOldest ls.dropLast := by
  unfold UrlRegistry.evictOldest
  induction ls using reverseRecOn with
  | nil =>
    rw [h.order]
    exact h
  | append_singleton ls last _ =>
    have hlast : r.order.getLast? = some last.node := by simp [h.order]
    have hkeys := h.keys_nodup
    rw [map_append, map_singleton, nodup_append] at hkeys
    have hold : ∀ l ∈ ls, l.item.target.key ≠ last.item.target.key := fun l hl =>
      hkeys.2.2 _ (mem_map_of_mem hl) _ (mem_singleton_self _)
    have hfilter : (ls ++ [last]).filter
        (fun l => l.item.target.key ≠ last.item.target.key) = ls := by
      rw [filter_append, filter_eq_self.2 fun l hl => by simpa using hold l hl]
      simp
    rw [hlast, dropLast_concat]
    have hfiltered : Linked { r with
          entries := r.entries.filter (·.1 ≠ last.node.key), order := r.order.dropLast }
        ((ls ++ [last]).filter fun l => l.item.target.key ≠ last.item.target.key) :=
      h.filter (fun l => l.item.target.key ≠ last.item.target.key) (· ≠ last.item.target.key)
        (fun _ _ => rfl)
        (by rw [hfilter, h.order]; simp) rfl rfl rfl
    rwa [hfilter] at hfiltered

/-- Room is made by dropping the last links. -/
theorem evict : Linked r.evict (ls.take (r.maxEntries - 1)) := by
  have hlen : r.order.length = ls.length := by rw [h.order, length_map]
  have hle : ls.length ≤ r.maxEntries := by simpa using h.lru.length_le
  have hroom := h.room
  unfold UrlRegistry.evict
  rw [hlen]
  by_cases hfull : ls.length < r.maxEntries
  · have hstay : evictUpTo ls.length r = r := by
      cases ls.length with
      | zero => rfl
      | succ n => rw [evictUpTo, if_neg (by omega)]
    rwa [hstay, take_of_length_le (by omega)]
  · obtain ⟨n, hn⟩ : ∃ n, ls.length = n + 1 := ⟨ls.length - 1, by omega⟩
    have hnext := h.evictOldest
    have hlen' : r.evictOldest.order.length = n := by
      rw [hnext.order, length_map, length_dropLast, hn]; rfl
    have hmax := maxEntries_evictOldest r
    have hstay : evictUpTo n r.evictOldest = r.evictOldest := by
      cases n with
      | zero => rfl
      | succ n => rw [evictUpTo, if_neg (by omega)]
    rwa [hn, evictUpTo, if_pos (by omega), hstay,
      show r.maxEntries - 1 = ls.length - 1 by omega, ← dropLast_eq_take]

/-! ## Calls -/

/-- Taking out a link forgets its item. -/
theorem item_filter (hl : l ∈ ls) :
    (ls.filter (·.address ≠ l.address)).map Link.item =
      forget Item.target l.item.target (ls.map Link.item) := by
  rw [forget, filter_map]
  refine congrArg _ (filter_congr fun m hm => ?_)
  simp [h.address_iff hl hm]

/-- The link comes to the front. -/
theorem record_present (hl : l ∈ ls) :
    ∃ ls', Linked (r.apply (.record l.item.target)) ls' ∧
      ls'.map Link.item = lruStep r.maxEntries (ls.map Link.item) (.record l.item.target) := by
  have hsite := h.rememberSite l.item.target.site
  have hself : ls.filter (·.address = l.address) = [l] := filter_key_eq h.addresses hl
  have hperm : (l :: ls.filter (·.address ≠ l.address)).Perm ls := by
    have hsplit := filter_append_perm (fun m => decide (m.address = l.address)) ls
    rw [hself] at hsplit
    simpa using hsplit
  have hitems : touch Item.target r.maxEntries { target := l.item.target } (ls.map item) =
      l.item :: forget Item.target l.item.target (ls.map item) :=
    touch_of_mem h.lru.nodup (mem_map_of_mem hl)
      (show Item.target l.item = Item.target { target := l.item.target } from rfl) _
  refine ⟨l :: ls.filter (·.address ≠ l.address), ?_, ?_⟩
  · show Linked (r.record _ _ _ _) _
    unfold record
    rw [show makeKey _ _ _ _ = l.item.target.key from rfl]
    simp only [hsite.find_mem hl]
    refine ⟨?_, hsite.entries.trans (hperm.symm.map _), ?_, ?_, ?_, hsite.room⟩
    · show splice (r.rememberSite _).order l.address = _
      rw [splice, hsite.order, filter_map, filter_map, ← map_append]
      refine congrArg _ ?_
      rw [show ls.filter ((fun n : Node => decide (n.address = l.address)) ∘ node) = [l] from hself]
      rfl
    · exact (hperm.map _).nodup_iff.2 h.addresses
    · exact fun m hm => hsite.fresh m (hperm.mem_iff.1 hm)
    · exact ⟨((hperm.map _).map _).nodup_iff.2 hsite.lru.nodup,
        (hperm.map _).length_eq ▸ hsite.lru.length_le⟩
  · rw [lruStep, hitems, map_cons, h.item_filter hl]

/-- A new link comes to the front, and the oldest one makes room for it. -/
theorem record_absent (ht : ∀ l ∈ ls, l.item.target ≠ t) :
    ∃ ls', Linked (r.apply (.record t)) ls' ∧
      ls'.map Link.item = lruStep r.maxEntries (ls.map Link.item) (.record t) := by
  -- the site is remembered and room is made before the entry is added
  have hsite := h.rememberSite t.site
  have hmax : (r.rememberSite t.site).evict.maxEntries = r.maxEntries := by
    rw [maxEntries_evict, maxEntries_rememberSite]
  have hevict := hsite.evict
  rw [maxEntries_rememberSite] at hevict
  set r' := (r.rememberSite t.site).evict
  set old := ls.take (r.maxEntries - 1)
  have hold : ∀ l ∈ old, l.item.target ≠ t := fun l hl => ht l (mem_of_mem_take hl)
  have habsent : t ∉ (ls.map item).map Item.target := by
    rw [map_map, mem_map]
    rintro ⟨l, hl, heq⟩
    exact ht l hl heq
  have hitems : touch Item.target r.maxEntries { target := t } (ls.map item) =
      { target := t } :: (ls.map item).take (r.maxEntries - 1) := touch_of_notMem habsent _
  have hentries : r'.entries.filter (·.1 ≠ t.key) = r'.entries := by
    refine filter_eq_self.2 fun p hp => ?_
    obtain ⟨l, hl, rfl⟩ := mem_map.1 (hevict.entries.mem_iff.1 hp)
    have hne : l.pair.1 ≠ t.key := fun heq => hold l hl (Target.key_inj heq)
    simpa using hne
  -- in front of what is left stands the new item
  have hlru := h.lru.touch h.room { target := t }
  rw [hitems, ← map_take] at hlru
  refine ⟨⟨r'.nextAddress, { target := t }⟩ :: old, ?_, ?_⟩
  · show Linked (r.record _ _ _ _) _
    unfold record
    rw [show makeKey _ _ _ _ = t.key from rfl]
    simp only [hsite.find_none ht]
    refine ⟨?_, ?_, ?_, ?_, ?_, ?_⟩
    · exact congrArg _ hevict.order
    · show List.Perm (_ :: r'.entries.filter (·.1 ≠ t.key)) _
      rw [hentries]
      exact hevict.entries.cons _
    · refine nodup_cons.2 ⟨fun hmem => ?_, hevict.addresses⟩
      obtain ⟨l, hl, heq⟩ := mem_map.1 hmem
      exact (hevict.fresh l hl).ne heq
    · rintro l hl
      rcases mem_cons.1 hl with rfl | hl
      · exact Nat.lt_succ_self _
      · exact (hevict.fresh l hl).trans (Nat.lt_succ_self _)
    · show Lru Item.target r'.maxEntries _
      rw [hmax]
      exact hlru
    · exact hevict.room
  · rw [lruStep, hitems, map_cons, ← map_take]

/-- A removal is one of the list. -/
theorem remove (t : Target) :
    ∃ ls', Linked (r.apply (.remove t)) ls' ∧
      ls'.map Link.item = lruStep r.maxEntries (ls.map Link.item) (.remove t) := by
  by_cases ht : ∃ l ∈ ls, l.item.target = t
  · obtain ⟨l, hl, rfl⟩ := ht
    refine ⟨ls.filter (·.address ≠ l.address), ?_, h.item_filter hl⟩
    show Linked (r.remove _ _ _ _) _
    unfold UrlRegistry.remove
    rw [show makeKey _ _ _ _ = l.item.target.key from rfl]
    simp only [h.find_mem hl]
    refine h.filter _ (· ≠ l.item.target.key) (fun m hm => ?_) ?_ rfl rfl rfl
    · rw [decide_eq_decide, ne_eq, ne_eq, h.address_iff hl hm]
      exact not_congr ⟨Target.key_inj, fun heq => by rw [heq]⟩
    · rw [h.order, filter_map]
      rfl
  · push Not at ht
    refine ⟨ls, ?_, ?_⟩
    · show Linked (r.remove _ _ _ _) _
      unfold UrlRegistry.remove
      rw [show makeKey _ _ _ _ = t.key from rfl]
      simpa only [h.find_none ht] using h
    · refine (forget_of_notMem ?_).symm
      rw [map_map, mem_map]
      rintro ⟨l, hl, heq⟩
      exact ht l hl heq

/-- So is a new count. -/
theorem setAlternateCount (t : Target) (count : ℕ) :
    ∃ ls', Linked (r.apply (.setAlternateCount t count)) ls' ∧
      ls'.map Link.item = lruStep r.maxEntries (ls.map Link.item) (.setAlternateCount t count) := by
  set f : Link → Link :=
    fun l => if l.item.target = t then { l with item := { l.item with count } } else l with hf
  have haddress : ∀ l, (f l).address = l.address := fun l => by simp only [hf]; split_ifs <;> rfl
  have htarget : ∀ l, (f l).item.target = l.item.target := fun l => by
    simp only [hf]; split_ifs <;> rfl
  have hpair : ∀ l, (f l).pair = if l.pair.1 = t.key then
      (l.pair.1, { l.pair.2 with entry := { l.pair.2.entry with alternateCount := count } })
        else l.pair := by
    intro l
    by_cases heq : l.item.target = t
    · rw [if_pos (show l.pair.1 = t.key from congrArg Target.key heq)]
      simp [hf, heq, pair, Item.entry]
    · rw [if_neg (show ¬ l.pair.1 = t.key from fun hkey => heq (Target.key_inj hkey))]
      simp [hf, heq]
  refine ⟨ls.map f, ⟨?_, ?_, ?_, ?_, ⟨?_, ?_⟩, h.room⟩, ?_⟩
  · rw [map_map]
    refine h.order.trans (map_congr_left fun l _ => ?_)
    rw [Function.comp_apply, node, node, haddress, htarget]
  · show List.Perm (r.entries.map _) _
    refine (h.entries.map _).trans (List.Perm.of_eq ?_)
    rw [map_map, map_map]
    exact map_congr_left fun l _ => (hpair l).symm
  · rw [map_map, show address ∘ f = address from funext haddress]
    exact h.addresses
  · intro m hm
    obtain ⟨l, hl, rfl⟩ := mem_map.1 hm
    rw [haddress]
    exact h.fresh l hl
  · rw [map_map, map_map, show (Item.target ∘ item) ∘ f = Item.target ∘ item from funext htarget]
    have hnodup := h.lru.nodup
    rwa [map_map] at hnodup
  · show (((ls.map f).map item).length ≤ r.maxEntries)
    simpa using h.lru.length_le
  · rw [lruStep, map_map, map_map]
    refine map_congr_left fun l _ => ?_
    simp only [Function.comp_apply, hf]
    split_ifs <;> rfl

end

end Linked

theorem maxEntries_apply (r : UrlRegistry) (call : Call) :
    (r.apply call).maxEntries = r.maxEntries := by
  cases call with
  | record t =>
    show (r.record _ _ _ _).maxEntries = _
    unfold record
    cases hfind : (r.rememberSite t.site).find (makeKey t.url t.hostname t.scheme t.site) with
    | none => simp only [hfind, maxEntries_evict, maxEntries_rememberSite]
    | some m => simp only [hfind, maxEntries_rememberSite]
  | remove t =>
    show (r.remove _ _ _ _).maxEntries = _
    unfold UrlRegistry.remove
    cases hfind : r.find (makeKey t.url t.hostname t.scheme t.site) <;> simp only [hfind]
  | setAlternateCount t count => rfl
  | clearAll => rfl
  | list => rfl

/-- **One call on the registry is one call on the LRU.** -/
theorem linked_step (h : Linked r ls) (call : Call) :
    ∃ ls', Linked (r.apply call) ls' ∧
      ls'.map Link.item = lruStep r.maxEntries (ls.map Link.item) call := by
  cases call with
  | record t =>
    by_cases ht : ∃ l ∈ ls, l.item.target = t
    · obtain ⟨l, hl, rfl⟩ := ht
      exact h.record_present hl
    · exact h.record_absent (by simpa using ht)
  | remove t => exact h.remove t
  | setAlternateCount t count => exact h.setAlternateCount t count
  | clearAll =>
    exact ⟨[], ⟨rfl, List.Perm.refl _, nodup_nil, by simp, ⟨nodup_nil, Nat.zero_le _⟩, h.room⟩, rfl⟩
  | list => exact ⟨ls, h, rfl⟩

theorem run_snoc (call : Call) :
    run maxEntries (calls ++ [call]) = (run maxEntries calls).apply call := by
  rw [run, foldl_append]
  rfl

theorem lru_snoc (cap : ℕ) (calls : List Call) (call : Call) :
    lru cap (calls ++ [call]) = lruStep cap (lru cap calls) call := by
  rw [lru, foldl_append]
  rfl

/-- The bound stays what it was. -/
theorem maxEntries_run : (run maxEntries calls).maxEntries = max maxEntries 1 := by
  induction calls using reverseRecOn with
  | nil => rfl
  | append_singleton calls call ih => rw [run_snoc, maxEntries_apply, ih]

/-- **Any sequence of calls leaves the registry as it leaves the LRU.** -/
theorem linked_run :
    ∃ ls, Linked (run maxEntries calls) ls ∧ ls.map Link.item = lru (max maxEntries 1) calls := by
  induction calls using reverseRecOn with
  | nil => exact ⟨[], linked_new maxEntries, rfl⟩
  | append_singleton calls call ih =>
    obtain ⟨ls, h, hitems⟩ := ih
    obtain ⟨ls', h', hstep⟩ := linked_step h call
    refine ⟨ls', by rwa [run_snoc], ?_⟩
    rw [hstep, lru_snoc, maxEntries_run, hitems]

/-! ## Recency -/

/-- When a target was last recorded, call by call. -/
theorem lastRecorded_snoc (call : Call) (t : Target) :
    lastRecorded (calls ++ [call]) t = if call = .record t then calls.length + 1
      else lastRecorded calls t := by
  unfold lastRecorded
  rw [reverse_append, length_append, reverse_singleton, singleton_append]
  split_ifs with h
  · rw [takeWhile_cons_of_neg (by simp [h])]
    rfl
  · rw [takeWhile_cons_of_pos (by simpa using h), length_singleton, length_cons]
    omega

theorem lastRecorded_le (t : Target) : lastRecorded calls t ≤ calls.length := Nat.sub_le _ _

/-- The items stand in the order in which they were recorded last. -/
theorem recent_lru {cap : ℕ} (hcap : 0 < cap) (calls : List Call) :
    Lru Item.target cap (lru cap calls) ∧
      Recent (lastRecorded calls) ((lru cap calls).map Item.target) := by
  induction calls using reverseRecOn with
  | nil => exact ⟨⟨nodup_nil, Nat.zero_le _⟩, List.Pairwise.nil⟩
  | append_singleton calls call ih =>
    obtain ⟨hlru, hrecent⟩ := ih
    have hother : (∀ t, call ≠ .record t) → lastRecorded (calls ++ [call]) = lastRecorded calls :=
      fun hcall => by
      funext t
      rw [lastRecorded_snoc, if_neg (hcall t)]
    rw [lru_snoc]
    cases call with
    | record t =>
      have htime : lastRecorded (calls ++ [.record t]) =
          Function.update (lastRecorded calls) t (calls.length + 1) := by
        funext u
        rw [lastRecorded_snoc, Function.update_apply]
        simp only [Call.record.injEq, eq_comm]
      refine ⟨hlru.touch hcap _, ?_⟩
      rw [lruStep, map_key_touch hlru hcap, htime]
      exact hrecent.touch (fun u => Nat.lt_succ_of_le (lastRecorded_le calls u)) cap
    | remove t =>
      rw [hother (by simp)]
      exact ⟨hlru.forget t, hrecent.sublist (filter_sublist.map _)⟩
    | setAlternateCount t count =>
      have htargets : (lruStep cap (lru cap calls) (.setAlternateCount t count)).map Item.target =
          (lru cap calls).map Item.target := by
        rw [lruStep, map_map]
        refine map_congr_left fun i _ => ?_
        simp only [Function.comp_apply]
        split_ifs <;> rfl
      rw [hother (by simp), htargets]
      refine ⟨⟨htargets ▸ hlru.nodup, ?_⟩, hrecent⟩
      rw [lruStep, length_map]
      exact hlru.length_le
    | clearAll => exact ⟨⟨nodup_nil, Nat.zero_le _⟩, List.Pairwise.nil⟩
    | list =>
      rw [hother (by simp)]
      exact ⟨hlru, hrecent⟩

/-! ## Listing -/

/-- The entry passes the filters; an empty filter lets everything pass. -/
def Matches (hostname site : Bytes) (e : Entry) : Prop :=
  (hostname = [] ∨ e.hostname = hostname) ∧ (site = [] ∨ e.site = site)

instance (hostname site : Bytes) : DecidablePred (Matches hostname site) :=
  fun _ => instDecidableAnd

/-- What a page shows of the matching entries. -/
structure Shows (page : Page) (offset limit : ℕ) (matching : List Entry) : Prop where
  entries : page.entries = (matching.drop offset).take limit
  total : page.total = matching.length
  hasMore : page.hasMore = decide (offset + page.entries.length < matching.length)
  nextOffset : page.hasMore = true → page.nextOffset = offset + page.entries.length

/-- Walking the nodes gives the entries. -/
theorem Linked.filterMap_find (h : Linked r ls) (hsub : ls' ⊆ ls) :
    (ls'.map Link.node).filterMap (fun n => (r.find n.key).map (·.entry)) = ls'.map fun l =>
      l.item.entry := by
  rw [filterMap_map, ← filterMap_eq_map]
  refine filterMap_congr fun l hl => ?_
  rw [Function.comp_apply, show l.node.key = l.item.target.key from rfl, h.find_mem (hsub hl)]
  rfl

/-- A page of all entries. -/
theorem Linked.shows_listAll (h : Linked r ls) (offset limit : ℕ) :
    Shows (r.listAll offset limit) offset limit (ls.map fun l => l.item.entry) := by
  have hlen : r.order.length = ls.length := by rw [h.order, length_map]
  unfold listAll
  split_ifs with hoff
  · refine ⟨?_, by simpa using hlen, ?_, by simp⟩
    · rw [drop_eq_nil_of_le (by simpa [hlen] using hoff), take_nil]
    · simp only [length_nil, length_map]
      exact (decide_eq_false (by omega)).symm
  · have hentries : ((r.order.drop offset).take (min limit (r.order.length - offset))).filterMap
        (fun n => (r.find n.key).map (·.entry)) =
          ((ls.map fun l => l.item.entry).drop offset).take limit := by
      rw [h.order, ← map_drop, ← map_take,
        h.filterMap_find fun l hl => mem_of_mem_drop (mem_of_mem_take hl), ← map_drop, ← map_take,
        length_map, ← length_drop]
      exact congrArg _ (take_eq_take_iff.2 (by simp))
    have hcount : (((r.order.drop offset).take (min limit (r.order.length - offset))).filterMap
        (fun n => (r.find n.key).map (·.entry))).length = min limit (r.order.length - offset) := by
      rw [hentries, length_take, length_drop, length_map, hlen]
    refine ⟨hentries, by simpa using hlen, ?_, fun _ => ?_⟩
    · show decide (_ < r.order.length) = decide (offset + List.length (List.filterMap _ _) < _)
      rw [hcount, length_map, hlen]
    · show offset + _ = offset + List.length (List.filterMap _ _)
      rw [hcount]

/-- The entries that match, in the order of the links. -/
def matching (hostname site : Bytes) (ls : List Link) : List Entry :=
  (ls.map fun l => l.item.entry).filter fun e => Matches hostname site e

/-- A page takes one more entry if it has come to its offset and has room. -/
theorem page_concat (old : List Entry) (e : Entry) (offset limit : ℕ) :
    ((old ++ [e]).drop offset).take limit =
      if old.length ≥ offset ∧ ((old.drop offset).take limit).length < limit then
        (old.drop offset).take limit ++ [e]
      else (old.drop offset).take limit := by
  by_cases hoff : offset ≤ old.length
  · rw [drop_append_of_le_length hoff]
    by_cases hroom : (old.drop offset).length < limit
    · rw [take_of_length_le (by simp only [length_append, length_singleton]; omega),
        take_of_length_le hroom.le, if_pos ⟨hoff, hroom⟩]
    · have hfull : ((old.drop offset).take limit).length = limit := by
        rw [length_take]
        omega
      rw [take_append_of_le_length (by omega), if_neg (by omega)]
  · rw [drop_eq_nil_of_le (by simp only [length_append, length_singleton]; omega),
      drop_eq_nil_of_le (by omega), if_neg (by omega)]

/-- The loop of a filtered page. -/
theorem Linked.foldl_listStep (h : Linked r ls) (offset limit : ℕ) (hostname site : Bytes)
    (hsub : ls' ⊆ ls) :
    (ls'.map Link.node).foldl (r.listStep offset limit hostname site) (0, []) =
      ((matching hostname site ls').length,
        ((matching hostname site ls').drop offset).take limit) := by
  induction ls' using reverseRecOn with
  | nil => simp [matching]
  | append_singleton ls' l ih =>
    have hl : l ∈ ls := hsub (by simp)
    have hmatching : matching hostname site (ls' ++ [l]) =
        matching hostname site ls' ++ if Matches hostname site l.item.entry then [l.item.entry]
          else [] := by
      rw [matching, matching, map_append, filter_append]
      by_cases hm : Matches hostname site l.item.entry <;> simp [hm]
    rw [map_append, foldl_append, ih fun m hm => hsub (by simp [hm]), map_singleton, foldl_cons,
      foldl_nil, listStep, show l.node.key = l.item.target.key from rfl, h.find_mem hl, hmatching]
    generalize matching hostname site ls' = old
    simp only
    by_cases hm : Matches hostname site l.item.entry
    · rw [if_pos hm]
      obtain ⟨hhost, hsite⟩ := hm
      rw [if_neg (by tauto), if_neg (by tauto), length_append, length_singleton, page_concat]
    · rw [if_neg hm, append_nil]
      by_cases hhost : hostname ≠ [] ∧ l.item.entry.hostname ≠ hostname
      · rw [if_pos hhost]
      · rw [if_neg hhost, if_pos]
        unfold Matches at hm
        tauto

/-- A page of either kind. -/
theorem Linked.shows_list (h : Linked r ls) (offset limit : ℕ) (hostname site : Bytes) :
    Shows (r.list offset limit hostname site) offset limit (matching hostname site ls) := by
  unfold list
  split_ifs with hempty
  · have hall : matching hostname site ls = ls.map fun l => l.item.entry := by
      refine filter_eq_self.2 fun e _ => ?_
      simp [Matches, hempty]
    rw [hall]
    exact h.shows_listAll offset limit
  · have hfold := h.foldl_listStep offset limit hostname site (List.Subset.refl ls)
    rw [← h.order] at hfold
    unfold listFiltered
    rw [hfold]
    exact ⟨rfl, rfl, rfl, fun _ => rfl⟩

/-! ## Walking the pages -/

/-- The entries of the pages from `offset` on, each page at the `nextOffset` of the one before, if
`n` pages are enough. -/
def walkUpTo (r : UrlRegistry) (limit : ℕ) (hostname site : Bytes) : ℕ → ℕ → Option (List Entry)
  | 0, _ => none
  | n + 1, offset =>
    let page := r.list offset limit hostname site
    if page.hasMore then (walkUpTo r limit hostname site n page.nextOffset).map
      (page.entries ++ ·) else some page.entries

/-- **The pages are the matching entries**, from the offset on: none twice, none left out. -/
theorem Linked.walkUpTo_eq (h : Linked r ls) {limit : ℕ} (hlimit : 1 ≤ limit)
    (hostname site : Bytes) (n : ℕ) :
    ∀ offset, (matching hostname site ls).length - offset < n →
      r.walkUpTo limit hostname site n offset = some ((matching hostname site ls).drop offset) := by
  induction n with
  | zero =>
    intro offset hn
    exact absurd hn (Nat.not_lt_zero _)
  | succ n ih =>
    intro offset hn
    obtain ⟨hentries, -, hmore, hnext⟩ := h.shows_list offset limit hostname site
    have hlen : (r.list offset limit hostname site).entries.length =
        min limit ((matching hostname site ls).length - offset) := by
      rw [hentries, length_take, length_drop]
    rw [walkUpTo]
    by_cases hlast : offset + (r.list offset limit hostname site).entries.length <
      (matching hostname site ls).length
    · rw [decide_eq_true hlast] at hmore
      have hfull : (r.list offset limit hostname site).entries.length = limit := by omega
      rw [if_pos hmore, hnext hmore, hfull, ih (offset + limit) (by omega), hentries, ← drop_drop,
        Option.map_some, take_append_drop]
    · rw [decide_eq_false hlast] at hmore
      rw [if_neg (by simp [hmore]), hentries, take_of_length_le]
      rw [length_drop]
      omega

/-- The matching entries, from the items. -/
theorem matching_eq {items : List Item} (hitems : ls.map Link.item = items)
    (hostname site : Bytes) :
    matching hostname site ls = (items.map Item.entry).filter fun e => Matches hostname site e := by
  rw [matching, ← hitems, map_map]
  rfl

/-- No entry is there twice. -/
theorem Linked.entry_nodup (h : Linked r ls) : (ls.map fun l => l.item.entry).Nodup := by
  refine List.Nodup.of_map (fun e : Entry => makeKey e.url e.hostname e.scheme e.site) ?_
  rw [map_map]
  exact h.keys_nodup

/-! ## Any sequence of calls -/

/-- **The registry is an exact LRU.** After any calls, list and map have the same keys, each once,
and every iterator of the map is the one node with its key; there are at most as many entries as the
cap admits; a listing shows the items of the LRU, the most recently recorded one first; and walking
the pages of any filter shows each matching one once. -/
theorem run_exact_lru (maxEntries : ℕ) (calls : List Call) :
    ((run maxEntries calls).order.map Node.key).Nodup ∧
    ((run maxEntries calls).order.map Node.key).Perm ((run maxEntries calls).entries.map (·.1)) ∧
    ((run maxEntries calls).order.map Node.address).Nodup ∧
    (∀ p ∈ (run maxEntries calls).entries, ⟨p.2.orderIt, p.1⟩ ∈ (run maxEntries calls).order) ∧
    (run maxEntries calls).size ≤ max maxEntries 1 ∧
    (∀ limit ≥ (run maxEntries calls).size,
      ((run maxEntries calls).list 0 limit [] []).entries =
        (lru (max maxEntries 1) calls).map Item.entry) ∧
    Recent (lastRecorded calls) ((lru (max maxEntries 1) calls).map Item.target) ∧
    ∀ (limit : ℕ) (hostname site : Bytes) (pages : ℕ), 1 ≤ limit →
      (run maxEntries calls).size < pages →
      ∃ found, (run maxEntries calls).walkUpTo limit hostname site pages 0 = some found ∧
        found.Nodup ∧
        found = ((lru (max maxEntries 1) calls).map Item.entry).filter fun e =>
          Matches hostname site e := by
  -- everything follows from the links that the run keeps and their items
  obtain ⟨ls, h, hitems⟩ := linked_run maxEntries calls
  have hsize : (run maxEntries calls).size = ls.length := by
    rw [size, h.entries.length_eq, length_map]
  have hkeys : (run maxEntries calls).order.map Node.key = ls.map fun l => l.item.target.key := by
    rw [h.order, map_map]
    rfl
  refine ⟨hkeys ▸ h.keys_nodup, ?_, ?_, ?_, ?_, ?_, (recent_lru (by omega) calls).2, ?_⟩
  · rw [hkeys]
    refine List.Perm.trans (List.Perm.of_eq ?_) (h.entries.map _).symm
    rw [map_map]
    rfl
  · rw [h.order, map_map]
    exact h.addresses
  · intro p hp
    obtain ⟨l, hl, rfl⟩ := mem_map.1 (h.entries.mem_iff.1 hp)
    rw [h.order]
    exact mem_map_of_mem hl
  · have hle := h.lru.length_le
    rw [maxEntries_run, length_map] at hle
    rwa [hsize]
  · intro limit hlimit
    obtain ⟨hentries, -, -, -⟩ := h.shows_list 0 limit [] []
    rw [hentries, matching_eq hitems, drop_zero,
      filter_eq_self.2 fun e _ => by simp [Matches], ← hitems, take_of_length_le]
    rw [length_map, length_map, ← hsize]
    exact hlimit
  · intro limit hostname site pages hlimit hpages
    have hcount : (matching hostname site ls).length ≤ ls.length := by
      refine (length_filter_le _ _).trans ?_
      rw [length_map]
    refine ⟨_, h.walkUpTo_eq hlimit hostname site pages 0 (by omega), ?_, ?_⟩
    · exact h.entry_nodup.filter _
    · rw [drop_zero, matching_eq hitems]

/-- A page of the host `h`. -/
def page (url : Bytes) (h : 0 ∉ url) : Target where
  url := url
  hostname := lit "h"
  scheme := lit "https"
  site := []
  url_nul := h
  hostname_nul := by decide
  scheme_nul := by decide
  site_nul := by decide

/-- Three pages, the first one recorded again, with room for two. -/
theorem run_exact_lru_two :
    let calls := [Call.record (page (lit "/a") (by decide)), .record (page (lit "/b") (by decide)),
      .record (page (lit "/a") (by decide)), .record (page (lit "/c") (by decide))]
    ((run 2 calls).list 0 2 [] []).entries.map Entry.url = [lit "/c", lit "/a"] ∧
      (run 2 calls).size ≤ 2 := by
  intro calls
  obtain ⟨-, -, -, -, hsize, hlist, -⟩ := run_exact_lru 2 calls
  refine ⟨?_, hsize⟩
  rw [hlist 2 hsize]
  decide

end PageSpeed.UrlRegistry
