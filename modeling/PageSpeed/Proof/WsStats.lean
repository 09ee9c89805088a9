import PageSpeed.Proof.WsCallbacks

/-!
# What a client of the stats stream holds

* `heldStats`: what a client holds that starts from its snapshot and overwrites the fields of each
  delta.
* `lookup_overwrite`: what it holds after a delta against a baseline.
* `pushStats_conn`: a push sends a client the delta once, or passes it over.
* `Follows`: a client holds its snapshot until the stats are pushed, and the baseline from then on.
* `heldStats_current`: the clients hold the pushed value after every push of a run just if every
  push finds the snapshots since the last one at the baseline's value in the fields that it leaves
  out.
* `heldStats_stale`: a field that changed before a client's snapshot and changes back stays as it
  was.
-/

namespace PageSpeed

open Run Wire Relation List Option

variable {ν : Type}

/-- The client overwrites the fields of a delta. -/
def hold : Option (Stats ν) → WsMessage ν → Option (Stats ν)
  | _, .statsSnapshot _ data => some data
  | some held, .statsDelta _ data => some (data ∪ held)
  | held, _ => held

/-- The figures of a client that reads these messages. -/
def heldStats (messages : List (WsMessage ν)) : Option (Stats ν) := messages.foldl hold none

/-- A delta overwrites what the client holds. -/
theorem heldStats_delta (messages : List (WsMessage ν)) (sequence : ℕ) (delta : Stats ν) :
    heldStats (messages ++ [.statsDelta sequence delta]) =
      (heldStats messages).map (delta ∪ ·) := by
  unfold heldStats
  rw [foldl_append]
  cases messages.foldl hold none <;> rfl

/-- The last snapshot so far. -/
def latest : Option (ℕ × Stats ν) → WsMessage ν → Option (ℕ × Stats ν)
  | _, .statsSnapshot n data => some (n, data)
  | last, _ => last

/-- The number and the value of the last snapshot among the messages. -/
def lastSnapshot (messages : List (WsMessage ν)) : Option (ℕ × Stats ν) :=
  messages.foldl latest none

theorem lastSnapshot_delta (messages : List (WsMessage ν)) (sequence : ℕ) (delta : Stats ν) :
    lastSnapshot (messages ++ [.statsDelta sequence delta]) = lastSnapshot messages := by
  rw [lastSnapshot, foldl_append]
  rfl

/-- Messages of the other streams change neither what is held nor which snapshot was the last. -/
theorem held_append_of_not_isStats (messages : List (WsMessage ν)) {more : List (WsMessage ν)}
    (h : ∀ m ∈ more, m.isStats = false) :
    lastSnapshot (messages ++ more) = lastSnapshot messages ∧
      heldStats (messages ++ more) = heldStats messages := by
  unfold lastSnapshot heldStats
  rw [foldl_append, foldl_append]
  generalize messages.foldl latest none = last
  generalize messages.foldl hold none = held
  induction more generalizing last held with
  | nil => exact ⟨rfl, rfl⟩
  | cons m more ih =>
    have hm := h m mem_cons_self
    have hlast := ih (fun m' hm' => h m' (mem_cons_of_mem m hm')) last held
    cases m <;> first | exact hlast | exact absurd hm (by simp [WsMessage.isStats])

/-- Something is held from the first snapshot on. -/
theorem isSome_heldStats (messages : List (WsMessage ν)) :
    (heldStats messages).isSome = (lastSnapshot messages).isSome := by
  induction messages using List.reverseRecOn with
  | nil => rfl
  | append_singleton messages m ih =>
    unfold heldStats lastSnapshot at ih ⊢
    rw [foldl_append, foldl_append]
    generalize messages.foldl hold none = held at ih ⊢
    generalize messages.foldl latest none = last at ih ⊢
    cases m <;> cases held <;> first | rfl | exact ih

/-- The connection is open, has been let in, and is of this stream. -/
def WsConnection.IsClient (stream : Bytes) (c : WsConnection ν) : Prop :=
  c.closing = false ∧ c.authenticated = true ∧ c.endpoint = stream

namespace WsManager

variable {w : WsWorld ν} {s t : WsManager ν} {id : ℕ} {c c' : WsConnection ν} {keys : Set Bytes}

/-- The value of a field in the baseline of the deltas. -/
def baseline (s : WsManager ν) (key : Bytes) : Option ν := s.prevStats.bind (·.lookup key)

/-! ## One delta -/

section Delta

variable [DecidableEq ν] (prev : Option (Stats ν))

/-- A delta has the fields that differ from the baseline. -/
theorem mem_lookup_statsDelta (current : Stats ν) (key : Bytes) (value : ν) :
    value ∈ (statsDelta prev current).lookup key ↔
      value ∈ current.lookup key ∧ prev.bind (·.lookup key) ≠ some value := by
  cases prev with
  | none => simp [statsDelta]
  | some prev =>
    rw [AList.mem_lookup_iff, AList.mem_lookup_iff]
    simp [statsDelta, mem_filter]

/-- The fields that are at the baseline's value are the client's own, the others are overwritten. -/
theorem lookup_overwrite (current held : Stats ν) (key : Bytes)
    (hkeys : current.lookup key = none → prev.bind (·.lookup key) = none) :
    (statsDelta prev current ∪ held).lookup key = current.lookup key ↔
      (current.lookup key = prev.bind (·.lookup key) → held.lookup key = current.lookup key) := by
  by_cases hsame : current.lookup key = prev.bind (·.lookup key)
  · -- the delta says nothing of the field
    have hnone : key ∉ statsDelta prev current := by
      rw [← AList.lookup_eq_none, eq_none_iff_forall_not_mem]
      intro value hvalue
      obtain ⟨hcurrent, hprev⟩ := (mem_lookup_statsDelta prev current key value).1 hvalue
      exact hprev (hsame ▸ hcurrent)
    rw [AList.lookup_union_right hnone]
    exact ⟨fun h _ => h, fun h => h hsame⟩
  · refine ⟨fun _ h => absurd h hsame, fun _ => ?_⟩
    cases hcurrent : current.lookup key with
    | none => exact absurd (hcurrent.trans (hkeys hcurrent).symm) hsame
    | some value =>
      have hprev : prev.bind (·.lookup key) ≠ some value :=
        fun hprev => hsame (hcurrent.trans hprev.symm)
      have hdelta := (mem_lookup_statsDelta prev current key value).2 ⟨hcurrent, hprev⟩
      have hmem : key ∈ statsDelta prev current :=
        AList.lookup_isSome.1 (isSome_iff_exists.2 ⟨value, hdelta⟩)
      rw [AList.lookup_union_left hmem]
      exact hdelta

/-- An empty delta means that nothing has changed. -/
theorem lookup_of_delta_nil (current : Stats ν) (key : Bytes)
    (hkeys : current.lookup key = none → prev.bind (·.lookup key) = none)
    (hnil : (statsDelta prev current).entries = []) : current.lookup key =
      prev.bind (·.lookup key) := by
  cases hcurrent : current.lookup key with
  | none => exact (hkeys hcurrent).symm
  | some value =>
    by_contra hne
    have hdelta :=
      (mem_lookup_statsDelta prev current key value).2 ⟨hcurrent, fun hprev => hne hprev.symm⟩
    rw [AList.mem_lookup_iff, hnil] at hdelta
    exact absurd hdelta not_mem_nil

end Delta

/-! ## One push -/

/-- Who listens is a client of the stream. -/
theorem listens_iff {stream : Bytes} (hc : s.conns[id]? = some c) : s.listens stream id ↔
    c.IsClient stream := by
  simp [listens, hc, WsConnection.IsClient]

theorem closeWs_connections (w : WsWorld ν) (s : WsManager ν) (id code : ℕ) :
    (s.closeWs w id code).connections = s.connections ∨
      (s.closeWs w id code).connections = s.connections.filter (· ≠ id) := by
  have hframe : ∀ t : WsManager ν, (t.closeFrame w id code).connections = t.connections := by
    intro t
    unfold closeFrame
    dsimp only
    split
    · split <;> rfl
    · rfl
  unfold closeWs
  split
  · exact .inl rfl
  split
  · exact .inl rfl
  refine .inr ?_
  dsimp only
  rw [(removeConnection_spec (w := w) _ _).2.2, hframe]
  split <;> rfl

/-- A write that is refused takes the connection out of the vector. -/
theorem sendFrame_connections (w : WsWorld ν) (s : WsManager ν) (id : ℕ) (m : WsMessage ν) :
    (s.sendFrame w id m).connections = s.connections ∨
      (s.sendFrame w id m).connections = s.connections.filter (· ≠ id) := by
  unfold sendFrame
  split
  · exact .inl rfl
  split
  · exact .inl rfl
  split
  · exact .inl rfl
  dsimp only
  split
  · exact .inl rfl
  · exact closeWs_connections w { s with uvWrites := s.uvWrites + 1 } id 0

/-- What a push makes of a connection: it is sent the delta once, if it is a client, or nothing. -/
def Told (w : WsWorld ν) (delta : Stats ν) (c c' : WsConnection ν) : Prop :=
  c' = c ∨ c.IsClient (lit "stats") ∧ ∃ n, Sends w (.statsDelta n delta) c c'

theorem lastSnapshot_told {delta : Stats ν} (h : Told w delta c c') :
    lastSnapshot c'.sent = lastSnapshot c.sent ∧
      (c.authenticated = true → c'.authenticated = true) := by
  rcases h with rfl | ⟨-, n, hsends⟩
  · exact ⟨rfl, fun h => h⟩
  · cases hsends with
    | written => exact ⟨lastSnapshot_delta c.sent n delta, fun h => h⟩
    | dropped | refused | idle => exact ⟨rfl, fun h => h⟩

/-- The loop over the connections, so far as it has come. -/
structure Telling (w : WsWorld ν) (delta : Stats ν) (s : WsManager ν) (i : ℕ)
    (t : WsManager ν) : Prop where
  sound : Sound w t
  seq : t.statsSeq = s.statsSeq
  told : ∀ (id : ℕ) c', t.conns[id]? = some c' → ∃ c, s.conns[id]? = some c ∧ Told w delta c c'
  ahead : ∀ j, i ≤ j → ∀ id : ℕ, t.connections[j]? = some id → t.conns[id]? = s.conns[id]?

/-- Behind a connection that is taken out of the vector, one is passed over; none is met twice. -/
theorem getElem?_of_filter {connections : List ℕ} (hnodup : connections.Nodup) {i j id' : ℕ}
    (hi : connections[i]? = some id) (hj : i < j)
    (hget : connections[j]? = some id' ∨ (connections.filter (· ≠ id))[j]? = some id') :
    id' ≠ id ∧ ∃ k, i < k ∧ connections[k]? = some id' := by
  obtain ⟨hlt, hid⟩ := List.getElem?_eq_some_iff.1 hi
  have hfilter : connections.filter (· ≠ id) = connections.eraseIdx i := by
    rw [← hid, ← hnodup.erase_getElem i hlt, hnodup.erase_eq_filter]
    exact filter_congr fun x _ => (decide_not (p := x = connections[i])).trans rfl
  rw [hfilter, getElem?_eraseIdx, if_neg (by omega)] at hget
  obtain ⟨k, hk, hget⟩ : ∃ k, i < k ∧ connections[k]? = some id' := by
    rcases hget with h | h
    · exact ⟨j, hj, h⟩
    · exact ⟨j + 1, by omega, h⟩
  refine ⟨?_, k, hk, hget⟩
  rintro rfl
  obtain ⟨hlt', hid'⟩ := List.getElem?_eq_some_iff.1 hget
  exact hk.ne ((hnodup.getElem_inj_iff).1 (hid.trans hid'.symm))

/-- The loop by index over a list that may shrink. -/
theorem forConnections_induction {body : ℕ → WsManager ν → WsManager ν} {P : ℕ → WsManager ν → Prop}
    (hzero : P 0 s)
    (hsucc : ∀ i t, P i t → P (i + 1) (match t.connections[i]? with
      | some id => body id t
      | none => t)) : P s.connections.length (s.forConnections body) := by
  have hall : ∀ n, P n ((range n).foldl (fun t i => match t.connections[i]? with
      | some id => body id t
      | none => t) s) := by
    intro n
    induction n with
    | zero => exact hzero
    | succ n ih =>
      rw [range_succ, foldl_append]
      exact hsucc n _ ih
  exact hall _

/-- Which clients the loop reaches. -/
theorem forConnections_tells (hs : Sound w s) (delta : Stats ν) :
    Telling w delta s s.connections.length (s.forConnections fun id t =>
      if t.listens (lit "stats") id then t.sendFrame w id (.statsDelta t.statsSeq delta)
      else t) := by
  -- the invariant of the loop: those before `i` are told, those from `i` on untouched
  refine forConnections_induction ⟨hs, rfl, fun _ c hc => ⟨c, hc, .inl rfl⟩, fun _ _ _ _ => rfl⟩ ?_
  intro i t h
  have hskip : Telling w delta s (i + 1) t :=
    ⟨h.sound, h.seq, h.told, fun j hj => h.ahead j (by omega)⟩
  split
  · rename_i id hid
    split
    · rename_i hlistens
      obtain ⟨c, hc⟩ : ∃ c, t.conns[id]? = some c :=
        ⟨_, getElem?_eq_getElem (h.sound.bounded id (mem_of_getElem? hid))⟩
      have hold : s.conns[id]? = some c := (h.ahead i le_rfl id hid).symm.trans hc
      obtain ⟨hsame, d, hsends, hconns⟩ := sendFrame_spec (w := w) hc (.statsDelta t.statsSeq delta)
      refine ⟨hsame.sound h.sound, hsame.steady.1.trans h.seq, fun id' c' hc' => ?_,
        fun j hj id' hid' => ?_⟩
      · rw [hconns, getElem?_set] at hc'
        by_cases hne : id = id'
        · subst hne
          rw [if_pos rfl, if_pos (List.getElem?_eq_some_iff.1 hc).1, some.injEq] at hc'
          exact ⟨c, hold, .inr ⟨(listens_iff hc).1 hlistens, _, hc' ▸ hsends⟩⟩
        · rw [if_neg hne] at hc'
          exact h.told id' c' hc'
      · -- a send may drop its connection; then the ones behind it move up by one
        have hmoved : t.connections[j]? = some id' ∨ (t.connections.filter (· ≠ id))[j]? =
            some id' := by
          rcases sendFrame_connections w t id (.statsDelta t.statsSeq delta) with heq | heq
            <;> rw [heq] at hid'
          · exact .inl hid'
          · exact .inr hid'
        obtain ⟨hne, k, hk, hget⟩ := getElem?_of_filter h.sound.nodup hid hj hmoved
        rw [hconns, getElem?_set_ne hne.symm]
        exact h.ahead k hk.le id' hget
    · exact hskip
  · exact hskip

/-! ## What a client follows -/

/-- The fields are those of the key set. -/
def HasKeys (keys : Set Bytes) (data : Stats ν) : Prop := ∀ key, key ∈ data ↔ key ∈ keys

theorem lookup_none_of_hasKeys {current : Stats ν} {prev : Option (Stats ν)}
    (hcurrent : HasKeys keys current)
    (hprev : ∀ p, prev = some p → HasKeys keys p) {key : Bytes}
      (hnone : current.lookup key = none) :
    prev.bind (·.lookup key) = none := by
  cases prev with
  | none => rfl
  | some p =>
    rw [AList.lookup_eq_none] at hnone
    exact AList.lookup_eq_none.2 ((hprev p rfl key).not.2 ((hcurrent key).not.1 hnone))

/-- **What a client holds**: its snapshot, if the stats have not been pushed since, and otherwise
the baseline. -/
def Follows (keys : Set Bytes) (seq : ℕ) (prev : Option (Stats ν)) (c : WsConnection ν) : Prop :=
  ∀ n data, lastSnapshot c.sent = some (n, data) →
    c.authenticated = true ∧ n ≤ seq ∧ (n < seq → prev = none → keys = ∅) ∧
      (c.IsClient (lit "stats") → c.dropped = false → ∀ held, heldStats c.sent = some held →
        ∀ key, held.lookup key = if n = seq then data.lookup key else prev.bind (·.lookup key))

section

variable {seq total : ℕ} {prev : Option (Stats ν)} {ring : List LogEntry} {heard : Bytes → Prop}

/-- Messages of other streams change nothing. -/
theorem Follows.keep (h : Follows keys seq prev c) {more : List (WsMessage ν)}
    (hsent : c'.sent = c.sent ++ more) (hmore : ∀ m ∈ more, m.isStats = false)
    (hauth : c.authenticated = true → c'.authenticated = true)
      (hendpoint : c'.endpoint = c.endpoint)
    (hclosing : c'.closing = false → c.closing = false)
      (hdropped : c'.dropped = false → c.dropped = false) :
    Follows keys seq prev c' := by
  obtain ⟨hlast, hheld⟩ := held_append_of_not_isStats c.sent hmore
  intro n data hsnapshot
  rw [hsent, hlast] at hsnapshot
  obtain ⟨hauth', hn, hkeys, hholds⟩ := h n data hsnapshot
  refine ⟨hauth hauth', hn, hkeys, fun hclient hnot held hsome => ?_⟩
  rw [hsent, hheld] at hsome
  exact hholds ⟨hclosing hclient.1, hauth', hendpoint ▸ hclient.2.2⟩ (hdropped hnot) held hsome

theorem isStream_of_isStats {m : WsMessage ν} (h : m.isStats) : m.isStream := by
  cases m <;> first | rfl | exact absurd h (by simp [WsMessage.isStats])

/-- A snapshot starts the client over. -/
theorem Follows.sends (h : Follows keys seq prev c) {m : WsMessage ν}
    (htells : m.isStats → c.authenticated = true ∧ ∃ data, m = .statsSnapshot seq data)
    (hsends : Sends w m c c') : Follows keys seq prev c' := by
  cases hsends with
  | written hopen =>
    cases hm : m.isStats with
    | false => exact h.keep rfl (by simpa using hm) (fun ha => ha) rfl (fun ho => ho) fun hd => hd
    | true =>
      obtain ⟨hauth, data, rfl⟩ := htells hm
      intro n data' hlast
      simp only [WsConnection.wrote, lastSnapshot, foldl_append] at hlast
      cases hlast
      refine ⟨hauth, le_rfl, fun hlt => absurd hlt (lt_irrefl _), fun _ _ held hheld key => ?_⟩
      simp only [WsConnection.wrote, heldStats, foldl_append] at hheld
      cases hheld
      rw [if_pos rfl]
  | dropped =>
    exact h.keep (append_nil _).symm (by simp) (fun ha => ha) rfl (fun ho => ho) fun hd =>
      absurd hd (by simp)
  | refused =>
    exact h.keep (append_nil _).symm (by simp) (fun ha => ha) rfl
      (fun ho => absurd ho (by simp [WsConnection.closed]))
      fun hd => hd
  | idle _ => exact h

/-- One step of a connection. -/
theorem Follows.step (h : Follows keys seq prev c)
    (hstep : ConnStep w heard (fun m => ∃ data, m = .statsSnapshot seq data) ring total c c') :
    Follows keys seq prev c' := by
  cases hstep with
  | close =>
    exact h.keep (append_nil _).symm (by simp) (fun ha => ha) rfl
      (fun ho => absurd ho (by simp [WsConnection.closed]))
      fun hd => hd
  | closeFrame code _ =>
    exact h.keep rfl (by simp [WsMessage.isStats]) (fun ha => ha) rfl (fun ho => ho) fun hd => hd
  | send _ hstream hsends =>
    refine h.sends (fun hm => ?_) hsends
    exact ⟨(hstream (isStream_of_isStats hm)).1, (hstream (isStream_of_isStats hm)).2 hm⟩
  | receive | buffer | complete =>
    exact h.keep (append_nil _).symm (by simp) (fun ha => ha) rfl (fun ho => ho) fun hd => hd
  -- to enter and to move the position leave what was sent as it is
  | enter =>
    exact h.keep (append_nil _).symm (by simp) (fun _ => rfl) rfl (fun ho => ho) fun hd => hd
  | enterLogs _ _ _ hsends =>
    have hentered : Follows keys seq prev (c.entered.atPosition total) :=
      h.keep (append_nil _).symm (by simp) (fun _ => rfl) rfl (fun ho => ho) fun hd => hd
    exact hentered.sends (by simp [WsMessage.isStats]) hsends
  | chunk _ hchunk =>
    cases hchunk with
    | written n =>
      refine h.keep rfl (fun m hm => ?_) (fun ha => ha) rfl (fun ho => ho) fun hd => hd
      rcases mem_append.1 hm with hm | hm
      · unfold overflowMessages at hm
        split at hm <;> simp_all [WsMessage.isStats]
      · obtain ⟨entry, -, rfl⟩ := mem_map.1 hm
        rfl
    | refused n =>
      exact h.keep (append_nil _).symm (by simp) (fun ha => ha) rfl
        (fun ho => absurd ho (by simp [WsConnection.closed])) fun hd => hd

theorem Follows.steps (h : Follows keys seq prev c)
    (hsteps : ReflTransGen (ConnStep w heard (fun m => ∃ data, m = .statsSnapshot seq data) ring
      total) c c') :
    Follows keys seq prev c' := by
  induction hsteps with
  | refl => exact h
  | tail _ hstep ih => exact ih.step hstep

theorem Follows.new (hnew : c.New) : Follows keys seq prev c := by
  intro n data hlast
  rw [hnew.sent] at hlast
  exact absurd hlast (by simp [lastSnapshot])

/-- The first snapshot of all becomes the baseline. -/
theorem Follows.rebase (h : Follows keys seq prev c) {prev' : Option (Stats ν)}
    (hstays : ∀ p, prev = some p → prev' = some p) (hprev : ∀ p, prev' = some p → HasKeys keys p) :
    Follows keys seq prev' c := by
  cases prev with
  | some p =>
    rw [hstays p rfl]
    exact h
  | none =>
    intro n data hlast
    obtain ⟨hauth, hn, hkeys, hholds⟩ := h n data hlast
    refine ⟨hauth, hn, fun hlt _ => hkeys hlt rfl, fun hclient hnot held hheld key => ?_⟩
    rw [hholds hclient hnot held hheld key]
    split
    · rfl
    · rename_i hne
      have hempty := hkeys (by omega) rfl
      cases prev' with
      | none => rfl
      | some p =>
        have hnot : key ∉ p := by
          rw [hprev p rfl key, hempty]
          exact Set.notMem_empty key
        exact (AList.lookup_eq_none.2 hnot).symm

end

variable [DecidableEq ν]

/-- A push sends a client the delta once, or passes it over. -/
theorem pushStats_conn (hs : Sound w s) {current : Stats ν}
    (hc : (s.pushStats w current).conns[id]? = some c') :
    ∃ c, s.conns[id]? = some c ∧ Told w (statsDelta s.prevStats current) c c' := by
  unfold pushStats at hc
  split at hc
  · exact ⟨c', hc, .inl rfl⟩
  dsimp only at hc
  split at hc
  · exact ⟨c', hc, .inl rfl⟩
  · exact (forConnections_tells (s := { s with statsSeq := s.statsSeq + 1 })
      ⟨hs.frames, hs.registered, hs.bounded, hs.nodup⟩
        (statsDelta s.prevStats current)).told id c' hc

/-- The client holds the value, unless it is closed or has lost a frame. -/
def HoldsStats (current : Stats ν) (c : WsConnection ν) : Prop :=
  c.IsClient (lit "stats") → c.dropped = false → ∀ held, heldStats c.sent = some held →
    ∀ key, held.lookup key = current.lookup key

/-- **Snapshot plus deltas is the current state**: after a push the clients hold the pushed
value. -/
def Current (w : WsWorld ν) (s : WsManager ν) : Action ν → Prop
  | .pushStats current =>
    ∀ (id : ℕ) c, (s.pushStats w current).conns[id]? = some c → HoldsStats current c
  | _ => True

/-- What a push needs of a client with this snapshot. If there was no push since, a field that is at
the baseline's value now was at that value in the snapshot. If the push says nothing to the client,
the pushed value is the one it was sent last: its snapshot or, if there was a push since, the
baseline. -/
def RebasedFor (s : WsManager ν) (current : Stats ν) (c c' : WsConnection ν) : Prop :=
  c'.IsClient (lit "stats") → c'.dropped = false → ∀ n data, lastSnapshot c.sent = some (n, data) →
    (n = s.statsSeq → ∀ key, current.lookup key = s.baseline key → data.lookup key =
      s.baseline key) ∧
      (c'.sent = c.sent → ∀ key, current.lookup key = if n = s.statsSeq then data.lookup key
        else s.baseline key)

/-- The push finds every client it reaches, and every client it passes over, as it needs them. -/
def Rebased (w : WsWorld ν) (s : WsManager ν) : Action ν → Prop
  | .pushStats current => ∀ (id : ℕ) c c', s.conns[id]? = some c →
      (s.pushStats w current).conns[id]? = some c' → RebasedFor s current c c'
  | _ => True

/-- A client that is told a delta holds the figures if its snapshot was on the baseline. -/
theorem holdsStats_iff_rebasedFor {current : Stats ν} (hcurrent : HasKeys keys current)
    (hprev : ∀ p, s.prevStats = some p → HasKeys keys p) (h : Follows keys s.statsSeq s.prevStats c)
    (htold : Told w (statsDelta s.prevStats current) c c') :
    HoldsStats current c' ↔ RebasedFor s current c c' := by
  refine forall₂_congr fun hclient hnot => ?_
  rcases htold with rfl | ⟨hold, sequence, hsends⟩
  · -- the client is told nothing, and holds what it held
    have hsome := isSome_heldStats c'.sent
    constructor
    · intro hholds n data hlast
      rw [hlast, isSome_some, isSome_iff_exists] at hsome
      obtain ⟨held, hheld⟩ := hsome
      have hknown : ∀ key, current.lookup key = if n = s.statsSeq then data.lookup key
          else s.baseline key :=
        fun key => (hholds held hheld key).symm.trans
          ((h n data hlast).2.2.2 hclient hnot held hheld key)
      refine ⟨fun hn key hbase => ?_, fun _ => hknown⟩
      rw [← hbase, hknown key, if_pos hn]
    · intro hrebased held hheld key
      rw [hheld, isSome_some, eq_comm, isSome_iff_exists] at hsome
      obtain ⟨⟨n, data⟩, hlast⟩ := hsome
      rw [(hrebased n data hlast).2 rfl key]
      exact (h n data hlast).2.2.2 hclient hnot held hheld key
  · cases hsends with
    | dropped => exact absurd hnot (by simp)
    | refused => exact absurd hclient.1 (by simp [WsConnection.closed])
    | idle hclosing => exact absurd hold.1 (by simp [hclosing])
    | written _ =>
      -- the delta is laid over what the client held
      have hdropped : c.dropped = false := hnot
      have hsent : ∀ delta,
        (c.writing.wrote [.statsDelta sequence delta] (w.frame (.statsDelta sequence delta))).sent =
          c.sent ++ [.statsDelta sequence delta] := fun _ => rfl
      have hkeys (key : Bytes) (hnone : current.lookup key = none) :=
        lookup_none_of_hasKeys hcurrent hprev hnone
      have hsome := isSome_heldStats c.sent
      rw [hsent, heldStats_delta]
      constructor
      · intro hholds n data hlast
        refine ⟨fun hn key hbase => ?_, fun hsame => absurd hsame (by simp)⟩
        rw [hlast, isSome_some, isSome_iff_exists] at hsome
        obtain ⟨held, hheld⟩ := hsome
        have hover := hholds _ (by rw [hheld]; rfl) key
        have hknown := (h n data hlast).2.2.2 hold hdropped held hheld key
        rw [if_pos hn] at hknown
        rw [← hknown, ← hbase]
        exact (lookup_overwrite s.prevStats current held key (hkeys key)).1 hover hbase
      · intro hrebased held' hheld' key
        obtain ⟨held, hheld, rfl⟩ := map_eq_some_iff.1 hheld'
        rw [hheld, isSome_some, eq_comm, isSome_iff_exists] at hsome
        obtain ⟨⟨n, data⟩, hlast⟩ := hsome
        refine (lookup_overwrite s.prevStats current held key (hkeys key)).2 fun hbase => ?_
        rw [(h n data hlast).2.2.2 hold hdropped held hheld key, hbase]
        split
        · rename_i hn
          exact (hrebased n data hlast).1 hn key hbase
        · rfl

/-! ## Runs -/

/-- What is kept over a run. -/
structure Tracked (w : WsWorld ν) (keys : Set Bytes) (s : WsManager ν) : Prop where
  sound : Sound w s
  prev : ∀ p, s.prevStats = some p → HasKeys keys p
  follows : ∀ (id : ℕ) c, s.conns[id]? = some c → Follows keys s.statsSeq s.prevStats c

/-- A push to a client counts, and the baseline is at the pushed value from then on. -/
theorem pushStats_baseline (hs : Sound w s) (hprev : ∀ p, s.prevStats = some p → HasKeys keys p)
    {current : Stats ν} (hcurrent : HasKeys keys current)
      (hany : s.connections.any (s.listens (lit "stats"))) :
    (s.pushStats w current).statsSeq = s.statsSeq + 1 ∧
      (∀ key, (s.pushStats w current).prevStats.bind (·.lookup key) = current.lookup key) ∧
      ((s.pushStats w current).prevStats = none → keys = ∅) := by
  by_cases hnil : (statsDelta s.prevStats current).entries = []
  · have heq : s.pushStats w current = { s with statsSeq := s.statsSeq + 1 } := by
      simp [pushStats, hany, hnil]
    rw [heq]
    refine ⟨rfl, fun key => ?_, fun hnone => ?_⟩
    · exact (lookup_of_delta_nil s.prevStats current key
        (lookup_none_of_hasKeys hcurrent hprev) hnil).symm
    · -- without a baseline the whole value is the delta
      rw [show s.prevStats = none from hnone] at hnil
      refine Set.eq_empty_of_forall_notMem fun key hkey => ?_
      obtain ⟨value, hvalue⟩ := isSome_iff_exists.1 (AList.lookup_isSome.2 ((hcurrent key).2 hkey))
      have hmem := AList.mem_lookup_iff.1 hvalue
      rw [show current.entries = [] from hnil] at hmem
      exact absurd hmem not_mem_nil
  · have htelling := forConnections_tells (w := w) (s := { s with statsSeq := s.statsSeq + 1 })
      ⟨hs.frames, hs.registered, hs.bounded, hs.nodup⟩ (statsDelta s.prevStats current)
    simp only [pushStats, hany, hnil, not_true_eq_false, if_false]
    exact ⟨htelling.seq, fun _ => rfl, fun h => absurd h (by simp)⟩

/-- A push that the clients hold becomes what they follow. -/
theorem pushStats_tracked (h : Tracked w keys s) {current : Stats ν}
    (hcurrent : HasKeys keys current)
    (hok : Current w s (.pushStats current)) : Tracked w keys (s.pushStats w current) := by
  have hevolves :=
    pushStats_evolves (w := w) (g := ⟨fun _ => True, HasKeys keys, fun _ => True⟩) h.sound hcurrent
    fun _ _ => trivial
  have hprev : ∀ p, (s.pushStats w current).prevStats = some p → HasKeys keys p :=
    fun p hp => (hevolves.prev p hp).elim (h.prev p) fun hgiven => hgiven
  by_cases hany : s.connections.any (s.listens (lit "stats"))
  · obtain ⟨hseq, hbase, hnone⟩ := pushStats_baseline h.sound h.prev hcurrent hany
    refine ⟨hevolves.sound, hprev, fun id c' hc' n data hlast => ?_⟩
    obtain ⟨c, hc, htold⟩ := pushStats_conn h.sound hc'
    rw [(lastSnapshot_told htold).1] at hlast
    obtain ⟨hauth, hn, -, -⟩ := h.follows id c hc n data hlast
    refine ⟨(lastSnapshot_told htold).2 hauth, by omega, fun _ => hnone,
      fun hclient hnot held hheld key => ?_⟩
    rw [if_neg (by omega), hbase]
    exact hok id c' hc' hclient hnot held hheld key
  · rw [show s.pushStats w current = s by simp [pushStats, hany]]
    exact h

/-- One callback keeps the figures tracked. -/
theorem step_tracked {a : Action ν} (h : Tracked w keys s)
    (hkeys : ∀ data ∈ a.given, HasKeys keys data)
    (hok : Current w s a) (hstep : s.step w a = some t) : Tracked w keys t := by
  -- drains and pushes change the numbers by themselves; every other step is an evolution
  by_cases hdrain : a = .drainLogs
  · subst hdrain
    cases hstep
    refine drainPendingLogs_keeps (I := Tracked w keys) (fun t entry ht => ?_)
      ⟨h.sound.of_core rfl, h.prev, h.follows⟩
    exact ⟨drainLog_sound ht.sound entry, ht.prev, ht.follows⟩
  by_cases hpush : ∃ current, a = .pushStats current
  · obtain ⟨current, rfl⟩ := hpush
    cases hstep
    exact pushStats_tracked h (hkeys current rfl) hok
  have hevolves := step_evolves
    (g := ⟨fun _ => True, HasKeys keys, fun m => ∃ data, m = .statsSnapshot s.statsSeq data⟩)
    h.sound hdrain
    ⟨fun _ _ _ _ _ _ _ => trivial, fun data hdata => ⟨hkeys data hdata, data, rfl⟩,
      fun current ha => absurd ⟨current, ha⟩ hpush⟩ hstep
  have hsteady : Steady s t := by
    refine hevolves.steady.resolve_left fun hall => ?_
    obtain ⟨data, hm⟩ := hall 0 ∅
    cases hm
  have hprev : ∀ p, t.prevStats = some p → HasKeys keys p :=
    fun p hp => (hevolves.prev p hp).elim (h.prev p) fun hgiven => hgiven
  refine ⟨hevolves.sound, hprev, fun id c' hc' => ?_⟩
  obtain ⟨c, hc, hsteps⟩ := hevolves.origin id c' hc'
  have hstart : Follows keys s.statsSeq s.prevStats c := hc.elim (h.follows id c) Follows.new
  rw [hsteady.1]
  exact (hstart.steps hsteps).rebase hsteady.2 hprev

/-- **Snapshot plus deltas is the current state**, just if the pushes find the snapshots at the
baseline. Let the provider's values be over one key set. In a run every push leaves every open
client of the stats stream that has lost no frame with the pushed value, if and only if every push
is as `Rebased` says. -/
theorem heldStats_current (w : WsWorld ν) (keys : Set Bytes) {as : List (Action ν)}
    (hkeys : ∀ a ∈ as, ∀ data ∈ a.given, HasKeys keys data) :
    Meets (step w) (Current w) {} as ↔ Meets (step w) (Rebased w) {} as := by
  refine meets_congr (J := Tracked w keys) ?_
    (fun s a t h (hgiven : ∀ data ∈ a.given, HasKeys keys data) hok hstep =>
      step_tracked h hgiven hok hstep) ⟨sound_empty, by simp, by simp⟩ hkeys
  intro s a h hgiven
  cases a with
  | pushStats current =>
    have hpoint : ∀ (id : ℕ) c c', s.conns[id]? = some c →
      (s.pushStats w current).conns[id]? = some c' →
        (HoldsStats current c' ↔ RebasedFor s current c c') := by
      intro id c c' hc hc'
      obtain ⟨d, hd, htold⟩ := pushStats_conn h.sound hc'
      obtain rfl := some.inj (hc.symm.trans hd)
      exact holdsStats_iff_rebasedFor (hgiven current rfl) h.prev (h.follows id c hc) htold
    constructor
    · exact fun hcurrent id c c' hc hc' => (hpoint id c c' hc hc').1 (hcurrent id c' hc')
    · intro hrebased id c' hc'
      obtain ⟨c, hc, -⟩ := pushStats_conn h.sound hc'
      exact (hpoint id c c' hc hc').2 (hrebased id c c' hc hc')
  | _ => rfl

/-! ## Clients of an open server -/

/-- A server that lets everyone in. -/
def openStatsWorld (uvWrite : ℕ → Bool) : WsWorld ℕ where
  config := { allowUnauthenticated := true }
  frame := fun _ => []
  dumpEvent := fun _ => []
  parse := fun _ => none
  uvWrite := uvWrite

/-- One field. -/
def hits (n : ℕ) : Stats ℕ := AList.singleton (lit "hits") n

/-- A client of the figures. -/
def statsConn (messages : List (WsMessage ℕ)) : WsConnection ℕ where
  endpoint := lit "stats"
  authRequired := false
  authenticated := true
  countedPreauth := false
  preauthPeerKey := []
  pendingWrites := messages.length
  sent := messages
  underWay := messages.map fun _ => false

/-- The first client sets the baseline, and a push tells it the new value. -/
theorem heldStats_current_hits :
    Meets (step (openStatsWorld fun _ => true)) (Current (openStatsWorld fun _ => true)) {}
    [.upgrade (lit "stats") [] (some (hits 0)), .pushStats (hits 1)] := by
  have hstep : ({} : WsManager ℕ).step (openStatsWorld fun _ => true)
    (.upgrade (lit "stats") [] (some (hits 0))) =
      some { conns := [statsConn [.handshake, .statsSnapshot 0 (hits 0)]], connections := [0],
             prevStats := some (hits 0), uvWrites := 2 } := rfl
  have hkeys : ∀ n, HasKeys {lit "hits"} (hits n) := by
    intro n key
    rw [hits, AList.mem_keys, AList.keys_singleton, mem_singleton]
    rfl
  refine (heldStats_current (openStatsWorld fun _ => true) {lit "hits"} ?_).2
    ⟨trivial, fun t ht => ⟨?_, fun _ _ => trivial⟩⟩
  · intro a ha data hdata
    rcases mem_pair.1 ha with rfl | rfl
    · exact some.inj hdata ▸ hkeys 0
    · exact some.inj hdata ▸ hkeys 1
  · obtain rfl := some.inj (hstep.symm.trans ht)
    intro id c c' hc hc' _ _ n data hlast
    -- the one client was sent the baseline, and is sent the delta
    obtain rfl := mem_singleton.1 (mem_of_getElem? hc)
    obtain ⟨rfl, rfl⟩ := Prod.mk.inj (some.inj hlast)
    have hsent : c' = statsConn [.handshake, .statsSnapshot 0 (hits 0), .statsDelta 1 (hits 1)] :=
      mem_singleton.1 (mem_of_getElem? hc')
    refine ⟨fun _ _ _ => rfl, fun hsame => ?_⟩
    rw [hsent] at hsame
    exact absurd (congrArg length hsame) (by decide)

/-- The first client sets the baseline; the field changes, a second client comes, and the field
changes back. The push has no delta, and the second client goes on holding the other value. -/
theorem heldStats_stale : ∃ s, run (step (openStatsWorld fun _ => true)) {}
      [.upgrade (lit "stats") [] (some (hits 0)), .upgrade (lit "stats") [] (some (hits 1)),
        .pushStats (hits 0)] = some s ∧
    ∃ c held, s.conns[1]? = some c ∧ s.listens (lit "stats") 1 ∧ c.dropped = false ∧
      heldStats c.sent = some held ∧ held.lookup (lit "hits") ≠ (hits 0).lookup (lit "hits") := by
  have hrun : run (step (openStatsWorld fun _ => true)) {}
      [.upgrade (lit "stats") [] (some (hits 0)), .upgrade (lit "stats") [] (some (hits 1)),
        .pushStats (hits 0)] =
        some { conns := [statsConn [.handshake, .statsSnapshot 0 (hits 0)],
                 statsConn [.handshake, .statsSnapshot 0 (hits 1)]],
               connections := [0, 1], prevStats := some (hits 0), statsSeq :=
                 1, uvWrites := 4 } := rfl
  exact ⟨_, hrun, _, hits 1, rfl, rfl, rfl, rfl, by decide⟩

-- The write to the first client is refused, which takes it out of the vector the loop is in: the
-- second client is passed over.
example : ∃ s, run (step (openStatsWorld fun n => n ≠ 4)) {}
      [.upgrade (lit "stats") [] (some (hits 0)), .upgrade (lit "stats") [] (some (hits 0)),
        .pushStats (hits 1)] =
        some s ∧ ∃ c, s.conns[1]? = some c ∧ c.closing = false ∧ c.dropped = false ∧
          heldStats c.sent = some (hits 0) :=
  ⟨_, rfl, _, rfl, rfl, rfl, rfl⟩

end WsManager

end PageSpeed
