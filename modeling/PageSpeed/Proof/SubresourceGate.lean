import PageSpeed.Spec.SubresourceGate
import PageSpeed.Wire.Split

/-!
# The subresource gate admits on current evidence

* `key_inj`: an entry of the memo is of one site, scheme, host and URL.
* `ask_cases`, `check_cases`: what a call can do.
* `sound_step`: each admission in the memo is backed by a HEAD that a call has sent.
* `admits_on_evidence`: what follows for every sequence of calls.
-/

namespace PageSpeed.SubresourceGate

open Wire List

variable {options : Options} {gate : Gate} {call : Call}

/-! ## Keys -/

/-- The parts of the key cannot run into each other. -/
structure SubresourceRead.NewlineFree (read : SubresourceRead) : Prop where
  site : ch '\n' ∉ read.site
  scheme : ch '\n' ∉ read.scheme
  host : ch '\n' ∉ read.host

/-- The reads ask about the same thing. -/
structure SameTarget (a b : SubresourceRead) : Prop where
  site : a.site = b.site
  scheme : a.schemeOrHttps = b.schemeOrHttps
  host : normalizeHostname a.host = normalizeHostname b.host
  url : a.url = b.url

/-- Normalising a host makes no line feed. -/
theorem newline_normalizeHostname {hostname : Bytes} (h : ch '\n' ∉ hostname) :
    ch '\n' ∉ normalizeHostname hostname := by
  have hlower : ∀ c : UInt8, lowerChar c = ch '\n' → c = ch '\n' := by decide +kernel
  have hsub : ∀ {part : Bytes}, part ⊆ hostname → ch '\n' ∉ part := fun hpart hmem => h (hpart hmem)
  unfold normalizeHostname
  split
  rename_i hostPart portPart hparts
  obtain ⟨hhost, hport⟩ : ch '\n' ∉ hostPart ∧ ch '\n' ∉ portPart := by
    simp only at hparts
    split_ifs at hparts <;> cases hparts
    · have htake := hsub ( takeWhile_prefix (· ≠ ch ']')).subset
      rw [mem_append, not_or]
      refine ⟨⟨htake, by decide⟩, ?_⟩
      exact hsub ((drop_suffix 2 _).trans (dropWhile_suffix (· ≠ ch ']'))).subset
    · exact ⟨h, not_mem_nil⟩
    · refine ⟨hsub (take_subset _ _), hsub fun c hc => ?_⟩
      exact mem_reverse.1 (( takeWhile_prefix _).subset (mem_reverse.1 hc))
    · exact ⟨h, not_mem_nil⟩
  have hmap : ch '\n' ∉ hostPart.map lowerChar := by
    intro hmem
    obtain ⟨c, hc, heq⟩ := mem_map.1 hmem
    exact hhost (hlower c heq ▸ hc)
  have hlast : ch '\n' ∉ (hostPart.map lowerChar).dropLast :=
    fun hmem => hmap (mem_of_mem_dropLast hmem)
  have hcolon : ch '\n' ≠ ch ':' := by decide
  simp only
  split_ifs <;> simp_all

/-- Two reads with one key want the same thing. -/
theorem key_inj {a b : SubresourceRead} (ha : a.NewlineFree) (hb : b.NewlineFree)
    (h : a.key = b.key) : SameTarget a b := by
  have hscheme : ∀ {read : SubresourceRead}, read.NewlineFree → ch '\n' ∉ read.schemeOrHttps := by
    intro read hread
    unfold SubresourceRead.schemeOrHttps
    split_ifs
    · decide
    · exact hread.scheme
  unfold SubresourceRead.key memoKey at h
  obtain ⟨hsite, h⟩ := until_inj ha.site hb.site rfl rfl h
  obtain ⟨hsch, h⟩ := until_inj (hscheme ha) (hscheme hb) rfl rfl (cons.inj h).2
  obtain ⟨hhost, h⟩ :=
    until_inj (newline_normalizeHostname ha.host) (newline_normalizeHostname hb.host) rfl rfl
    (cons.inj h).2
  exact ⟨hsite, hsch, hhost, (cons.inj h).2⟩

/-! ## What a call can do -/

/-- The HEAD goes to the page's own host, for a read that may ask it. -/
structure Allowed (call : Call) (head : Head) : Prop where
  mayFetch : call.mayFetch
  hostFetchAllowed : call.read.hostFetchAllowed
  ownHost : normalizeHostname call.read.host = normalizeHostname call.read.pageHost
  origin : head.origin = call.read.schemeOrHttps ++ lit "://" ++
    normalizeHostname call.read.pageHost
  absoluteUrl : head.absoluteUrl = head.origin ++ call.read.url

/-- The memo is cut to its size. -/
theorem evict_spec (options : Options) (now : ℤ) (memo : List (Bytes × Entry)) :
    evict options now memo ⊆ memo ∧ (evict options now memo).length < max 1 options.maxEntries := by
  unfold evict
  simp only
  split_ifs with hfull hstill
  · simp
  · exact ⟨filter_subset_self _, by omega⟩
  · exact ⟨List.Subset.refl _, by omega⟩

/-- A call that sends nothing admits on what was recorded or on an entry of the memo, and notes
nothing. -/
structure Quiet (gate : Gate) (call : Call) (outcome : Outcome) : Prop where
  sent : outcome.sent = none
  memo : outcome.gate.memo.Sublist gate.memo
  admitted : outcome.verdict = .admitted → call.read.recordedAnonymously ∨
    ∃ e ∈ gate.memo, e.1 = call.read.key ∧ e.2.verdict = .admitted ∧ call.now < e.2.expiresAtMs

/-- A call that sends a HEAD notes the answer. -/
structure Asked (options : Options) (gate : Gate) (call : Call) (outcome : Outcome)
    (head : Head) : Prop where
  sent : outcome.sent = some head
  allowed : Allowed call head
  status : outcome.verdict = .admitted → head.status = some 200
  memo : ∃ rest expires, outcome.gate.memo = (call.read.key, ⟨outcome.verdict, expires⟩) :: rest ∧
    rest ⊆ gate.memo ∧
    rest.length < max 1 options.maxEntries ∧
      (outcome.verdict = .admitted → expires = call.now + options.admittedTtlMs)

/-- A verdict that is not known, or the one `HEAD` request for it. -/
theorem ask_cases (options : Options) (gate : Gate) (call : Call) :
    ask options gate call = { verdict := .unknown, gate } ∨ ∃ head,
      Asked options gate call (ask options gate call) head := by
  unfold ask
  simp only
  cases call.head with
  | none => exact .inl rfl
  | some head =>
    simp only
    by_cases hmay : call.mayFetch = false ∨ call.read.hostFetchAllowed = false ∨
        normalizeHostname call.read.host ≠ normalizeHostname call.read.pageHost
    · exact .inl (if_pos hmay)
    rw [if_neg hmay]
    simp only [not_or, Bool.not_eq_false, not_not] at hmay
    obtain ⟨hfetch, hallowed, hhost⟩ := hmay
    obtain ⟨hsub, hlen⟩ := evict_spec options call.now gate.memo
    refine .inr ⟨_, rfl, ⟨hfetch, hallowed, hhost, by rw [hhost], rfl⟩, fun hverdict => ?_, _, _,
      rfl, ?_, ?_, ?_⟩
    · split at hverdict
      · cases hverdict
      · rename_i code hcode
        rw [hcode, show code = 200 by by_contra hne; simp [hne] at hverdict]
    · exact fun e he => hsub (mem_of_mem_filter he)
    · exact (length_filter_le _ _).trans_lt hlen
    · exact fun hverdict => by rw [if_pos hverdict]

/-- A check makes no request, or the one that is allowed. -/
theorem check_cases (options : Options) (gate : Gate) (call : Call) :
    Quiet gate call (check options gate call) ∨ ∃ head,
      Asked options gate call (check options gate call) head := by
  have hask : ∀ {memo}, memo.Sublist gate.memo →
    Quiet gate call (ask options { gate with memo } call) ∨
      ∃ head, Asked options gate call (ask options { gate with memo } call) head := by
    intro memo hmemo
    refine (ask_cases options { gate with memo } call).imp (fun h => ?_) fun ⟨head, h⟩ =>
      ⟨head, h.sent, h.allowed, h.status, ?_⟩
    · rw [h]
      exact ⟨rfl, hmemo, by simp⟩
    · obtain ⟨rest, expires, hnew, hrest, hroom⟩ := h.memo
      exact ⟨rest, expires, hnew, fun e he => hmemo.subset (hrest he), hroom⟩
  unfold check
  simp only
  split_ifs with hrecorded
  · exact .inl ⟨rfl, .refl _, fun _ => .inl hrecorded⟩
  · exact .inl ⟨rfl, .refl _, by simp⟩
  · exact .inl ⟨rfl, .refl _, by simp⟩
  · exact .inl ⟨rfl, .refl _, by simp⟩
  cases hfind : gate.memo.find? (·.1 = call.read.key) with
  | none => exact hask (.refl _)
  | some e =>
    simp only
    split_ifs with hnow
    · refine .inl ⟨rfl, .refl _, fun hverdict =>
        .inr ⟨e, mem_of_find?_eq_some hfind, ?_, hverdict, hnow⟩⟩
      simpa using find?_some hfind
    · exact hask filter_sublist

/-! ## Runs -/

/-- What holds between the calls: the log has their HEADs, and each admission of the memo is in
it. -/
structure Sound (options : Options) (calls : List Call) (s : Gate × List (Call × Head)) : Prop where
  size : s.1.memo.length ≤ max 1 options.maxEntries
  logged : ∀ p ∈ s.2, p.1 ∈ calls ∧ Allowed p.1 p.2
  backed : ∀ e ∈ s.1.memo, e.2.verdict = .admitted → ∃ p ∈ s.2, e.1 = p.1.read.key ∧
    p.2.status = some 200 ∧ e.2.expiresAtMs = p.1.now + options.admittedTtlMs

variable {calls : List Call} {s : Gate × List (Call × Head)}

/-- One check keeps the memo sound. -/
theorem sound_step (h : Sound options calls s) (call : Call) :
    Sound options (calls ++ [call]) (step options s call) := by
  have hlogged : ∀ p ∈ s.2, p.1 ∈ calls ++ [call] ∧ Allowed p.1 p.2 := fun p hp =>
    ⟨mem_append_left _ (h.logged p hp).1, (h.logged p hp).2⟩
  unfold step
  rcases check_cases options s.1 call with hquiet | ⟨head, hasked⟩
  · simp only [hquiet.sent, Option.map_none, Option.toList_none, append_nil]
    exact ⟨hquiet.memo.length_le.trans h.size, hlogged,
      fun e he => h.backed e (hquiet.memo.subset he)⟩
  · obtain ⟨rest, expires, hmemo, hrest, hroom, hexpires⟩ := hasked.memo
    simp only [hasked.sent, Option.map_some, Option.toList_some]
    refine ⟨?_, fun p hp => ?_, fun e he hadmitted => ?_⟩
    · simp only [hmemo, length_cons]
      omega
    · rcases mem_append.1 hp with hp | hp
      · exact hlogged p hp
      · rw [mem_singleton.1 hp]
        exact ⟨by simp, hasked.allowed⟩
    · rw [hmemo] at he
      rcases mem_cons.1 he with rfl | he
      · exact ⟨(call, head), by simp, rfl, hasked.status hadmitted, hexpires hadmitted⟩
      · obtain ⟨p, hp, hbacked⟩ := h.backed e (hrest he) hadmitted
        exact ⟨p, mem_append_left _ hp, hbacked⟩

/-- So do all of them. -/
theorem sound_run (options : Options) (calls : List Call) :
    Sound options calls (run options calls) := by
  induction calls using reverseRecOn with
  | nil => exact ⟨by simp [run], by simp [run], by simp [run]⟩
  | append_singleton calls call ih =>
    rw [run, foldl_append]
    exact sound_step ih call

/-- A call of the worker behind those before it. -/
structure Session where
  before : List Call
  call : Call
  clock : ∀ c ∈ before, c.now ≤ call.now
  plain : ∀ c ∈ call :: before, c.read.NewlineFree

/-- **The gate admits on current evidence.** A call admits if the page's own site has recorded the
entry anonymously and its host may not be asked, or if a HEAD about the same site, scheme, host and
URL was answered with 200: by an earlier call less than `admitted_ttl_ms` ago, or by this one. All
HEADs go to the page's own host for a read that may fetch, and the memo stays within its bound. -/
theorem admits_on_evidence (options : Options) (session : Session) :
    let call := session.call
    let past := run options session.before
    ((check options past.1 call).verdict = .admitted →
      (call.read.hostFetchAllowed = false ∧ call.read.entryRead ∧
        call.read.entryFlags &&& kFlagAnonymousRecorded ≠ 0 ∧
        call.read.entrySite = call.read.site) ∨
      (∃ p ∈ past.2, SameTarget p.1.read call.read ∧ p.2.status = some 200 ∧ p.1.now ≤ call.now ∧
        call.now - p.1.now < options.admittedTtlMs) ∨
      ∃ head, (check options past.1 call).sent = some head ∧ head.status = some 200) ∧
    (∀ p ∈ (run options (session.before ++ [call])).2, Allowed p.1 p.2) ∧
    (run options (session.before ++ [call])).1.memo.length ≤ max 1 options.maxEntries := by
  intro call past
  have hnext := sound_run options (session.before ++ [call])
  refine ⟨fun hadmitted => ?_, fun p hp => (hnext.logged p hp).2, hnext.size⟩
  have hsound : Sound options session.before past := sound_run options session.before
  rcases check_cases options past.1 call with hquiet | ⟨head, hasked⟩
  · rcases hquiet.admitted hadmitted with hrecorded | ⟨e, he, hkey, hverdict, hnow⟩
    · exact .inl (by simpa [SubresourceRead.recordedAnonymously, and_assoc] using hrecorded)
    · obtain ⟨p, hp, hpkey, hstatus, hexpires⟩ := hsound.backed e he hverdict
      have hbefore := (hsound.logged p hp).1
      have htarget : SameTarget p.1.read call.read :=
        key_inj (session.plain _ (.tail _ hbefore)) (session.plain _ (.head _))
          (hpkey.symm.trans hkey)
      exact .inr (.inl ⟨p, hp, htarget, hstatus, session.clock _ hbefore, by omega⟩)
  · exact .inr (.inr ⟨head, hasked.sent, hasked.status hadmitted⟩)

/-- A subresource on the page's own host. -/
def pageRead : SubresourceRead :=
  { site := [], scheme := [], host := lit "a", url := lit "/b", pageHost := lit "a",
    hostFetchAllowed := true }

/-- A HEAD that is answered with 200, and a call a second later that may not ask. -/
def askedBefore : Session where
  before := [{ read := pageRead, mayFetch := true, now := 0, head := some fun _ _ => some 200 }]
  call := { read := pageRead, mayFetch := false, now := 1000, head := none }
  clock := by simp
  plain := by
    have hplain : pageRead.NewlineFree := ⟨by decide, by decide, by decide⟩
    simp [hplain]

/-- The second call admits on the HEAD of the first. -/
theorem admits_on_evidence_earlier :
    (check {} (run {} askedBefore.before).1 askedBefore.call).verdict = .admitted ∧
    ∃ p ∈ (run {} askedBefore.before).2, SameTarget p.1.read pageRead ∧ p.2.status = some 200 ∧
      p.1.now ≤ 1000 ∧ 1000 - p.1.now < 300 * 1000 := by
  have hadmitted : (check {} (run {} askedBefore.before).1 askedBefore.call).verdict =
      .admitted := by decide
  rcases (admits_on_evidence {} askedBefore).1 hadmitted
    with hrecorded | hearlier | ⟨head, hsent, -⟩
  · exact absurd hrecorded.1 (by decide)
  · exact ⟨hadmitted, hearlier⟩
  · have hnone : (check {} (run {} askedBefore.before).1 askedBefore.call).sent.isSome =
        false := by decide
    rw [hsent] at hnone
    cases hnone

/-- With a lifetime of zero a call still admits on its own HEAD, which is not less than that ago. -/
theorem admits_without_lifetime :
    let options : Options := { admittedTtlMs := 0 }
    let call : Call :=
      { read := pageRead, mayFetch := true, now := 0, head := some fun _ _ => some 200 }
    (check options {} call).verdict = .admitted ∧ pageRead.recordedAnonymously = false ∧
      ∀ p ∈ (run options [call]).2, ¬call.now - p.1.now < options.admittedTtlMs := by
  decide

end PageSpeed.SubresourceGate
