import PageSpeed.Proof.WsManager

/-!
# What a callback does to the connections

* `Evolves`: every connection has come to where it is by steps of `ConnStep`, from what it was or
  from a new one.
* `step_evolves`: a callback that drains no log entries is of this kind.
* `drainLog_sound`: draining one touches no connection and keeps the frames at their places.
-/

namespace PageSpeed

open Run Wire Relation List WsConnection Option

namespace WsManager

variable {ν : Type} {w : WsWorld ν} {s t u : WsManager ν} {id : ℕ} {c c' : WsConnection ν}

/-! ## Evolving -/

/-- What the manager may be given: the texts of clients that are not let in, and the stats; and what
it may say on the stats stream. -/
structure Inputs (ν : Type) where
  text : Bytes → Prop
  stats : Stats ν → Prop
  tells : WsMessage ν → Prop

/-- Anything may be given and said. -/
def Inputs.any : Inputs ν := ⟨fun _ => True, fun _ => True, fun _ => True⟩

/-- The stats may be pushed. -/
def Inputs.Pushes (g : Inputs ν) : Prop := ∀ sequence delta, g.tells (.statsDelta sequence delta)

/-- The sequence of the stats messages stands, and so does a baseline of the deltas once there is
one. -/
def Steady (s t : WsManager ν) : Prop :=
  t.statsSeq = s.statsSeq ∧ ∀ p, s.prevStats = some p → t.prevStats = some p

/-- Every connection has come here by steps of `ConnStep`, from what it was or from a new one. -/
structure Evolves (w : WsWorld ν) (g : Inputs ν) (s t : WsManager ν) : Prop where
  sound : Sound w t
  history : t.history = s.history
  ring : t.logRing = s.logRing
  total : t.logTotal = s.logTotal
  prev : ∀ p, t.prevStats = some p → s.prevStats = some p ∨ g.stats p
  steady : g.Pushes ∨ Steady s t
  origin : ∀ (id : ℕ) c', t.conns[id]? = some c' →
    ∃ c, (s.conns[id]? = some c ∨ c.New) ∧
      ReflTransGen (ConnStep w g.text g.tells s.logRing s.logTotal) c c'

variable {g : Inputs ν} {current : Stats ν}

/-- Callbacks one after the other. -/
theorem Evolves.trans (h₁ : Evolves w g s t) (h₂ : Evolves w g t u) : Evolves w g s u := by
  refine ⟨h₂.sound, h₂.history.trans h₁.history, h₂.ring.trans h₁.ring,
    h₂.total.trans h₁.total, ?_, ?_, ?_⟩
  · intro p hp
    rcases h₂.prev p hp with h | h
    · exact h₁.prev p h
    · exact .inr h
  · rcases h₁.steady with hpush | hst
    · exact .inl hpush
    · exact h₂.steady.imp_right fun htu => ⟨htu.1.trans hst.1, fun p hp => htu.2 p (hst.2 p hp)⟩
  · intro id c'' hc''
    obtain ⟨c', hc', hsteps'⟩ := h₂.origin id c'' hc''
    rw [h₁.ring, h₁.total] at hsteps'
    rcases hc' with hc' | hnew
    · obtain ⟨c, hc, hsteps⟩ := h₁.origin id c' hc'
      exact ⟨c, hc, hsteps.trans hsteps'⟩
    · exact ⟨c', .inr hnew, hsteps'⟩

theorem SameLog.prev (h : SameLog w s t) : t.prevStats = s.prevStats := congrArg Prod.fst h.stats

theorem SameLog.steady (h : SameLog w s t) : Steady s t :=
  ⟨congrArg Prod.snd h.stats, fun _ hp => h.prev.trans hp⟩

/-- A change that touches no connection. -/
theorem SameLog.evolves (hlog : SameLog w s t) (hs : Sound w s) (hconns : t.conns = s.conns) :
    Evolves w g s t :=
  ⟨hlog.sound hs, hlog.history, hlog.ring, hlog.total, fun _ hp => .inl (hlog.prev ▸ hp),
    .inr hlog.steady, fun _ c hc => ⟨c, .inl (hconns ▸ hc), .refl⟩⟩

/-- One connection takes steps. -/
theorem SameLog.evolves_set (hlog : SameLog w s t) (hs : Sound w s) (hc : s.conns[id]? = some c)
    (hconns : t.conns = s.conns.set id c')
    (hsteps : ReflTransGen (ConnStep w g.text g.tells s.logRing s.logTotal) c c') :
    Evolves w g s t := by
  refine ⟨hlog.sound hs, hlog.history, hlog.ring, hlog.total, fun _ hp => .inl (hlog.prev ▸ hp),
    .inr hlog.steady, ?_⟩
  intro i d hd
  rw [hconns, getElem?_set] at hd
  by_cases hi : id = i
  · subst hi
    rw [if_pos rfl, if_pos (List.getElem?_eq_some_iff.1 hc).1, some.injEq] at hd
    exact ⟨c, .inl hc, hd ▸ hsteps⟩
  · rw [if_neg hi] at hd
    exact ⟨d, .inl hd, .refl⟩

section

variable (hs : Sound w s)
include hs

theorem Evolves.refl : Evolves w g s s := SameLog.refl.evolves hs rfl

theorem Evolves.of_core (h : t.core = s.core) : Evolves w g s t :=
  (SameLog.of_core h).evolves hs (congrArg Prod.fst h)

theorem Evolves.of_eq (h : t = s) : Evolves w g s t := by
  subst h
  exact .refl hs

/-- A close. -/
theorem closeWs_evolves (id code : ℕ) : Evolves w g s (s.closeWs w id code) := by
  cases hc : s.conns[id]? with
  | none =>
    exact .of_eq hs (by simp [closeWs, hc])
  | some c =>
    cases hopen : c.closing with
    | true =>
      exact .of_eq hs (by simp [closeWs, hc, hopen])
    | false =>
      obtain ⟨hlog, hconns⟩ := closeWs_spec (w := w) hc hopen code
      rcases hconns with h | ⟨-, h⟩
      · exact hlog.evolves_set hs hc h (.single (.close c))
      · exact hlog.evolves_set hs hc h (.tail (.single (.close c)) (.closeFrame _ code rfl))

/-- A message, to a client that may have it. -/
theorem sendFrame_evolves {m : WsMessage ν} (hlog : m.isLog = false)
    (hstream : m.isStream → (∀ c, s.conns[id]? = some c → c.authenticated) ∧
      (m.isStats → g.tells m)) :
    Evolves w g s (s.sendFrame w id m) := by
  cases hc : s.conns[id]? with
  | none =>
    exact .of_eq hs (by simp [sendFrame, hc])
  | some c =>
    obtain ⟨hsame, c', hsends, hconns⟩ := sendFrame_spec (w := w) hc m
    exact hsame.evolves_set hs hc hconns
      (.single (.send hlog (fun h => ⟨(hstream h).1 c hc, (hstream h).2⟩) hsends))

/-- The next entries of the log. -/
theorem pumpLogStream_evolves (id : ℕ) : Evolves w g s (s.pumpLogStream w id) := by
  cases hc : s.conns[id]? with
  | none =>
    exact .of_eq hs (by simp [pumpLogStream, hc])
  | some c =>
    rcases pumpLogStream_spec hs hc with ⟨-, h⟩ | ⟨hp, hlog, c', hchunk, hconns⟩
    · exact .of_eq hs h
    · exact hlog.evolves_set hs hc hconns (.single (.chunk hp hchunk))

/-- A step of one connection. -/
theorem modifyConn_evolves {f : WsConnection ν → WsConnection ν}
    (hf : ∀ c, (f c).closing = c.closing)
    (hstep : ∀ c, s.conns[id]? = some c →
      ReflTransGen (ConnStep w g.text g.tells s.logRing s.logTotal) c (f c)) :
    Evolves w g s (s.modifyConn id f) := by
  cases hc : s.conns[id]? with
  | none =>
    have hnone : (s.modifyConn id f).conns = s.conns := modify_eq_self (getElem?_eq_none_iff.1 hc)
    exact (modifyConn_sameLog hf).evolves hs hnone
  | some c => exact (modifyConn_sameLog hf).evolves_set hs hc (modifyConn_conns hc f) (hstep c hc)

theorem trimLogFrames_evolves : Evolves w g s s.trimLogFrames :=
  trimLogFrames_sameLog.evolves hs rfl

theorem foldl_evolves {α : Type} {f : WsManager ν → α → WsManager ν} (xs : List α)
    (hf : ∀ t x, Sound w t → Evolves w g t (f t x)) : Evolves w g s (xs.foldl f s) := by
  induction xs generalizing s with
  | nil => exact .refl hs
  | cons x xs ih => exact (hf s x hs).trans (ih (hf s x hs).sound)

/-- A loop over the connections, which may shrink meanwhile. -/
theorem forConnections_evolves {body : ℕ → WsManager ν → WsManager ν}
    (hbody : ∀ id t, Sound w t → Evolves w g t (body id t)) :
    Evolves w g s (s.forConnections body) := by
  refine foldl_evolves hs _ fun t i ht => ?_
  split
  · exact hbody _ t ht
  · exact .refl ht

end

/-- Only a client that was let in listens. -/
theorem authenticated_of_listens {stream : Bytes} (h : s.listens stream id)
    (hc : s.conns[id]? = some c) :
    c.authenticated := by
  simp [listens, hc] at h
  exact h.2.1

/-! ## Being let in -/

/-- A snapshot of the figures. -/
theorem sendStatsSnapshot_evolves (hs : Sound w s)
    (hauth : ∀ c, s.conns[id]? = some c → c.authenticated)
    (hgiven : g.stats current) (htells : g.tells (.statsSnapshot s.statsSeq current)) :
    Evolves w g s (s.sendStatsSnapshot w id current) := by
  have hsend := sendFrame_evolves (g := g) hs (m := .statsSnapshot s.statsSeq current) rfl
    fun _ => ⟨hauth, fun _ => htells⟩
  unfold sendStatsSnapshot
  dsimp only
  split
  · rename_i hnone
    refine ⟨⟨hsend.sound.frames, hsend.sound.registered, hsend.sound.bounded, hsend.sound.nodup⟩,
      hsend.history, hsend.ring, hsend.total, ?_, hsend.steady.imp_right fun h => ⟨h.1, ?_⟩,
        hsend.origin⟩
    · intro p hp
      exact .inr (some.inj hp ▸ hgiven)
    · intro p hp
      exact absurd (hnone.symm.trans (h.2 p hp)) (by simp)
  · exact hsend

variable {stats : Option (Stats ν)} {ring : List LogEntry} {frames : List Bytes}

/-- The provider's value is allowed, and so is a snapshot of it. -/
def Given (g : Inputs ν) (s : WsManager ν) (stats : Option (Stats ν)) : Prop :=
  ∀ current ∈ stats, g.stats current ∧ g.tells (.statsSnapshot s.statsSeq current)

/-- A connection that may be let in gets the snapshot of its stream. -/
theorem sendSnapshot_evolves (hs : Sound w s) (hc : s.conns[id]? = some c)
    (hnot : c.authenticated = false) (hadmits : c.Admits w) (hgiven : Given g s stats) :
    Evolves w g s ((s.modifyConn id WsConnection.entered).sendSnapshot w id c.endpoint stats) := by
  have hsame : SameLog w s (s.modifyConn id entered) := modifyConn_sameLog fun _ => rfl
  have hconns := modifyConn_conns hc entered
  have hlt := (List.getElem?_eq_some_iff.1 hc).1
  have hget : (s.modifyConn id entered).conns[id]? = some c.entered := by
    rw [hconns, getElem?_set_self hlt]
  by_cases hlogs : c.endpoint = lit "logs"
  · have heq : (s.modifyConn id entered).sendSnapshot w id c.endpoint stats =
        (s.modifyConn id entered).sendLogSnapshot w id := by
      have hne : lit "logs" ≠ lit "stats" := by decide
      unfold sendSnapshot
      cases stats with
      | none => simp only [hlogs, if_pos]
      | some current => simp only [hlogs, if_neg hne, if_pos]
    have hpos := modifyConn_conns hget (·.atPosition s.logTotal)
    have hget' := congrArg (·[id]?) hpos
    simp only [hconns, set_set, getElem?_set_self hlt] at hget'
    obtain ⟨hsame', c', hsends, hconns'⟩ :=
      sendFrame_spec (w := w) hget' (.logSnapshot s.logRing s.logTotal)
    rw [hpos, hconns, set_set, set_set] at hconns'
    rw [heq]
    have hmoved : SameLog w s ((s.modifyConn id entered).modifyConn id (·.atPosition s.logTotal)) :=
      hsame.trans (modifyConn_sameLog fun _ => rfl)
    exact (hmoved.trans hsame').evolves_set hs hc hconns'
      (.single (.enterLogs hnot hadmits hlogs hsends))
  · have henter : Evolves w g s (s.modifyConn id entered) :=
      hsame.evolves_set hs hc hconns (.single (.enter c hnot hadmits (.inl hlogs)))
    simp only [sendSnapshot, if_neg hlogs]
    cases stats with
    | none => exact henter
    | some current =>
      dsimp only
      split
      · refine henter.trans (sendStatsSnapshot_evolves henter.sound ?_ (hgiven current rfl).1
          (hgiven current rfl).2)
        intro d hd
        rw [hget, some.injEq] at hd
        exact hd ▸ rfl
      · exact henter

/-- A connection as it comes in, before it is let in. -/
def newConn (w : WsWorld ν) (endpoint peerKey : Bytes) : WsConnection ν where
  endpoint := endpoint
  authRequired := ¬ w.config.isOpen endpoint
  authenticated := false
  countedPreauth := ¬ w.config.isOpen endpoint
  preauthPeerKey := peerKey

/-- The manager with a connection more. -/
def withConn (s : WsManager ν) (c : WsConnection ν) : WsManager ν :=
  { s with
    conns := s.conns ++ [c]
    connections := s.connections ++ [s.conns.length]
    uvWrites := s.uvWrites + 1 }

theorem withConn_get (c : WsConnection ν) : (s.withConn c).conns[s.conns.length]? = some c := by
  simp [withConn]

theorem withConn_modify (c : WsConnection ν) (f : WsConnection ν → WsConnection ν) :
    (s.withConn c).modifyConn s.conns.length f = s.withConn (f c) := by
  have h := modifyConn_conns (withConn_get (s := s) c) f
  have hset : (s.withConn c).conns.set s.conns.length (f c) = s.conns ++ [f c] := by simp [withConn]
  rw [hset] at h
  simp only [modifyConn, withConn] at h ⊢
  rw [h]

theorem withConn_record (c : WsConnection ν) (m : WsMessage ν) (data : Bytes) :
    ((s.withConn c).modifyConn s.conns.length WsConnection.writing).record s.conns.length [m] data =
      s.withConn (c.writing.wrote [m] data) := by
  rw [record, withConn_modify, withConn_modify]
  rfl

/-- A new connection. -/
theorem withConn_evolves (hs : Sound w s) (hnew : c.New) (hopen : c.closing = false) :
    Evolves w g s (s.withConn c) := by
  have hfresh : s.conns.length ∉ s.connections := fun h => absurd (hs.bounded _ h) (lt_irrefl _)
  refine ⟨⟨hs.frames, ?_, ?_, ?_⟩, rfl, rfl, rfl, fun _ hp => .inl hp,
    .inr ⟨rfl, fun _ hp => hp⟩, ?_⟩
  · intro i d hd
    simp only [withConn, mem_append, mem_singleton]
    rcases lt_trichotomy i s.conns.length with hi | rfl | hi
    · rw [withConn, getElem?_append_left hi] at hd
      rw [hs.registered i d hd]
      simp [hi.ne]
    · rw [withConn_get, some.injEq] at hd
      simp [← hd, hopen]
    · rw [withConn, getElem?_eq_none (by simp; omega)] at hd
      exact absurd hd (by simp)
  · intro i hi
    simp only [withConn, mem_append, mem_singleton, length_append, length_singleton] at hi ⊢
    rcases hi with hi | rfl
    · exact (hs.bounded i hi).trans (Nat.lt_succ_self _)
    · exact Nat.lt_succ_self _
  · simp only [withConn, nodup_append, nodup_singleton, true_and]
    refine ⟨hs.nodup, fun a ha b hb => ?_⟩
    rw [mem_singleton] at hb
    exact fun h => hfresh (hb ▸ h ▸ ha)
  · intro i d hd
    rcases lt_or_ge i s.conns.length with hi | hi
    · rw [withConn, getElem?_append_left hi] at hd
      exact ⟨d, .inl hd, .refl⟩
    · rw [withConn, getElem?_append_right hi] at hd
      have hdc := mem_singleton.1 (mem_of_getElem? hd)
      exact ⟨d, .inr (hdc ▸ hnew), .refl⟩

/-- `openConnection`, with the connection as it is in the end. -/
theorem openConnection_eq (endpoint peerKey : Bytes) (stats : Option (Stats ν)) :
    s.openConnection w endpoint peerKey stats =
      let conn :=
        if w.config.isOpen endpoint then (newConn w endpoint peerKey).entered
        else newConn w endpoint peerKey
      if w.uvWrite s.uvWrites then
        let s' := s.withConn (conn.writing.wrote [.handshake] (w.frame .handshake))
        if w.config.isOpen endpoint then s'.sendSnapshot w s.conns.length endpoint stats else s'
      else (s.withConn conn).closeWs w s.conns.length 0 := by
  have hconn :
      (if w.config.isOpen endpoint then (newConn w endpoint peerKey).entered
        else newConn w endpoint peerKey) =
        { newConn w endpoint peerKey with authenticated := w.config.isOpen endpoint } := by
    cases hopen : w.config.isOpen endpoint <;> simp [newConn, entered, hopen]
  dsimp only
  rw [hconn, ← withConn_record]
  rfl

/-- The handshake and what a client is told at once. -/
theorem openConnection_evolves (hs : Sound w s) (endpoint peerKey : Bytes)
    (hgiven : Given g s stats) : Evolves w g s (s.openConnection w endpoint peerKey stats) := by
  have hnew : Evolves w g s (s.withConn (newConn w endpoint peerKey)) :=
    withConn_evolves hs ⟨rfl, rfl, rfl, rfl, rfl, rfl, rfl⟩ rfl
  have hget := withConn_get (s := s) (newConn w endpoint peerKey)
  -- the handshake, on a connection that has not been let in
  obtain ⟨hlog, hconns⟩ := record_spec (w := w) (f := writing) hget (fun _ => rfl)
    [.handshake] (w.frame .handshake)
  have hshaken := hnew.trans (hlog.evolves_set (g := g) hnew.sound hget hconns
    (.single (.send rfl (by simp [WsMessage.isStream]) (.written rfl))))
  rw [withConn_record] at hshaken
  rw [openConnection_eq]
  cases hopen : w.config.isOpen endpoint with
  | false =>
    dsimp only [Bool.false_eq_true, if_false]
    split
    · exact hshaken
    · exact hnew.trans (closeWs_evolves hnew.sound _ 0)
  | true =>
    simp only [if_true]
    split
    · have henter :=
        sendSnapshot_evolves (g := g) hshaken.sound (withConn_get _) rfl (.inl hopen) hgiven
      rw [withConn_modify] at henter
      exact hshaken.trans henter
    · -- it is let in, and closed at once
      have hentered : SameLog w (s.withConn (newConn w endpoint peerKey))
          (s.withConn (newConn w endpoint peerKey).entered) := by
        rw [← withConn_modify]
        exact modifyConn_sameLog fun _ => rfl
      have hget' := withConn_get (s := s) (newConn w endpoint peerKey).entered
      have hclosed := closeWs_zero (w := w) hget' rfl
      refine hnew.trans ((hentered.trans (closeWs_spec hget' rfl 0).1).evolves_set
        hnew.sound hget ?_
        (.tail (.single (.close _)) (.enter _ rfl (.inl hopen) (.inr rfl))))
      rw [hclosed]
      simp [withConn]
      rfl

/-- An upgrade, if there is room. -/
theorem acceptUpgrade_evolves (hs : Sound w s) (endpoint peerKey : Bytes)
    (hgiven : Given g s stats) : Evolves w g s (s.acceptUpgrade w endpoint peerKey stats) := by
  unfold acceptUpgrade
  split
  · exact .refl hs
  split
  · exact .refl hs
  split
  · exact openConnection_evolves hs _ _ hgiven
  split
  · rename_i budget _
    have hbudget : Evolves w g s { s with preauthBudget := budget } :=
      .of_core hs rfl
    exact hbudget.trans (openConnection_evolves hbudget.sound _ _ hgiven)
  · exact .refl hs

/-- The token of a client. -/
theorem handleAuthMessage_evolves (hs : Sound w s) (hc : s.conns[id]? = some c)
    (hnot : c.authenticated = false) {payload : Bytes} (hreceived : payload ∈ c.received)
    (hgiven : Given g s stats) : Evolves w g s (s.handleAuthMessage w id payload stats) := by
  simp only [handleAuthMessage, hc]
  split
  · exact closeWs_evolves hs id 4001
  rename_i token htoken
  split
  · exact closeWs_evolves hs id 4001
  rename_i hcompare
  rw [not_not, constantTimeCompare_iff] at hcompare
  subst hcompare
  -- the slot is given back before the connection is let in, which comes to the same
  set released := if c.countedPreauth = true then
    { s with preauthBudget := s.preauthBudget.release c.preauthPeerKey } else s with hreleased
  have hsame : SameLog w s released := by
    rw [hreleased]
    split
    · exact .of_core rfl
    · exact .refl
  have hconns : released.conns = s.conns := by
    rw [hreleased]
    split <;> rfl
  have hrel : Evolves w g s released := hsame.evolves hs hconns
  have hentered : (if c.countedPreauth = true then
      { s.modifyConn id entered with
        preauthBudget := (s.modifyConn id entered).preauthBudget.release c.preauthPeerKey }
      else s.modifyConn id entered) = released.modifyConn id entered := by
    rw [hreleased]
    split <;> rfl
  have hgiven' : Given g released stats := by
    rw [Given, hsame.steady.1]
    exact hgiven
  have hsnap := sendSnapshot_evolves (g := g) hrel.sound (hconns ▸ hc) hnot
    (.inr ⟨payload, hreceived, htoken⟩) hgiven'
  rw [← hentered] at hsnap
  exact (hrel.trans hsnap).trans
    (sendFrame_evolves (hrel.trans hsnap).sound rfl (by simp [WsMessage.isStream]))

/-! ## Draining -/

theorem FramesOf.tail (h : FramesOf w ring frames) : FramesOf w ring.tail frames.tail := by
  refine ⟨by rw [length_tail, length_tail, h.length], fun i entry frame he hf => ?_⟩
  rw [getElem?_tail] at he hf
  exact h.frame (i + 1) entry frame he hf

/-- A new entry has no frame yet. -/
theorem FramesOf.concat (h : FramesOf w ring frames) (entry : LogEntry) :
    FramesOf w (ring ++ [entry]) (frames ++ [[]]) := by
  refine ⟨by simp [h.length], fun i e frame he hf => ?_⟩
  rcases lt_or_ge i ring.length with hi | hi
  · rw [getElem?_append_left hi] at he
    rw [getElem?_append_left (h.length ▸ hi)] at hf
    exact h.frame i e frame he hf
  · rw [getElem?_append_right (h.length ▸ hi)] at hf
    exact .inl (mem_singleton.1 (mem_of_getElem? hf))

/-- An entry that is taken in keeps the invariant. -/
theorem drainLog_sound (hs : Sound w s) (entry : LogEntry) : Sound w (s.drainLog entry) := by
  refine { hs with frames := ?_ }
  simp only [drainLog]
  split
  · exact hs.frames.tail.concat _
  · exact hs.frames.concat _

/-- Entry by entry, a drain keeps what draining one keeps. -/
theorem drainPendingLogs_keeps {I : WsManager ν → Prop}
    (hstep : ∀ s entry, I s → I (s.drainLog entry))
    (h : I { s with pendingLogs := [] }) : I s.drainPendingLogs := by
  unfold drainPendingLogs
  generalize { s with pendingLogs := [] } = t at h
  induction s.pendingLogs generalizing t with
  | nil => exact h
  | cons entry entries ih => exact ih _ (hstep t entry h)

/-! ## Steps -/

/-- The stats an action is given by the provider. -/
def Action.given : Action ν → Option (Stats ν)
  | .upgrade _ _ stats => stats
  | .frame _ _ stats => stats
  | .pushStats current => some current
  | _ => none

/-- The action is given what the inputs allow. -/
structure Allowed (g : Inputs ν) (s : WsManager ν) (a : Action ν) : Prop where
  text : ∀ id payload stats c, a = .frame id (.text payload) stats → s.conns[id]? = some c →
    c.authenticated = false → g.text payload
  stats : Given g s a.given
  push : ∀ current, a = .pushStats current → g.Pushes

/-- A frame from a client. -/
theorem handleFrame_evolves (hs : Sound w s) (hc : s.conns[id]? = some c) (stats : Option (Stats ν))
    (frame : ClientFrame) (hallowed : Allowed g s (.frame id frame stats)) :
    Evolves w g s (s.handleFrame w id stats frame) := by
  cases frame with
  | text payload =>
    have hreceive : Evolves w g s
        (s.modifyConn id fun c => { c with received := c.received ++ [payload] }) := by
      refine modifyConn_evolves hs (fun _ => rfl) fun d hd =>
        .single (.receive d payload fun hnot => ?_)
      exact hallowed.text id payload stats d rfl hd hnot
    simp only [handleFrame, hc, any_some]
    split
    · exact hreceive
    · rename_i hnot
      rw [Bool.not_eq_true] at hnot
      have hget := congrArg (·[id]?)
        (modifyConn_conns hc fun c => { c with received := c.received ++ [payload] })
      simp only [List.getElem?_set_self (List.getElem?_eq_some_iff.1 hc).1] at hget
      exact hreceive.trans (handleAuthMessage_evolves hreceive.sound hget hnot
        (by simp) hallowed.stats)
  | pong => exact .refl hs
  | ping payload => exact sendFrame_evolves hs rfl (by simp [WsMessage.isStream])
  | close code => exact closeWs_evolves hs id _
  | binary => exact closeWs_evolves hs id 1003
  | other => exact closeWs_evolves hs id 1002

/-- Buffering events changes the buffer and nothing else. -/
theorem bufferEvents_eq (events : List Json) (c : WsConnection ν) : ∃ buffer size,
    events.foldl (bufferEvent w) c =
      { c with eventBuffer := buffer, eventBufferBytes := size } := by
  induction events generalizing c with
  | nil => exact ⟨c.eventBuffer, c.eventBufferBytes, rfl⟩
  | cons event events ih =>
    obtain ⟨buffer, size, hrest⟩ := ih (bufferEvent w c event)
    refine ⟨buffer, size, ?_⟩
    rw [foldl_cons, hrest]
    unfold bufferEvent
    dsimp only
    split <;> rfl

theorem drainPendingEvents_evolves (hs : Sound w s) : Evolves w g s (s.drainPendingEvents w) := by
  have hdrained : Evolves w g s { s with pendingEvents := [] } :=
    .of_core hs rfl
  refine hdrained.trans (forConnections_evolves hdrained.sound fun id t ht => ?_)
  split
  · refine modifyConn_evolves ht (fun c => ?_) fun c _ => ?_
    · obtain ⟨buffer, size, heq⟩ := bufferEvents_eq (w := w) s.pendingEvents c
      rw [heq]
    · obtain ⟨buffer, size, heq⟩ := bufferEvents_eq (w := w) s.pendingEvents c
      rw [heq]
      exact .single (.buffer c buffer size)
  · exact .refl ht

/-- The buffered events. -/
theorem flushEventBatch_evolves (hs : Sound w s) : Evolves w g s (s.flushEventBatch w) := by
  unfold flushEventBatch
  split
  · exact .refl hs
  have hseq : Evolves w g s { s with eventsSeq := s.eventsSeq + 1 } :=
    .of_core hs rfl
  refine hseq.trans (forConnections_evolves hseq.sound fun id t ht => ?_)
  split
  · rename_i hevents
    have hlistens : t.listens (lit "events") id := by
      simp only [hasEvents, decide_eq_true_eq] at hevents
      exact hevents.1
    have hsend := sendFrame_evolves (w := w) (g := g) ht
      (m := .events t.eventsSeq ((t.conns[id]?.map eventBuffer).getD [])) rfl
      fun _ => ⟨fun c hc => authenticated_of_listens hlistens hc, by simp [WsMessage.isStats]⟩
    exact hsend.trans (modifyConn_evolves hsend.sound (fun _ => rfl) fun c _ =>
      .single (.buffer c [] 0))
  · exact .refl ht

/-- The end of a write. -/
theorem onWriteDone_evolves (hs : Sound w s) (logChunk ok : Bool)
    (hunder : ∀ c, s.conns[id]? = some c → logChunk ∈ c.underWay) :
    Evolves w g s (s.onWriteDone w id logChunk ok) := by
  have hdone : Evolves w g s (s.modifyConn id (·.completed logChunk)) :=
    modifyConn_evolves hs (fun _ => rfl) fun c hc => .single (.complete c logChunk (hunder c hc))
  have heq : s.onWriteDone w id logChunk ok =
      let s := s.modifyConn id (·.completed logChunk)
      if ¬ ok then s.closeWs w id 0
      else if logChunk ∧ s.conns[id]?.any (¬ ·.closing) then (s.pumpLogStream w id).trimLogFrames
      else s := rfl
  rw [heq]
  generalize s.modifyConn id (·.completed logChunk) = done at hdone ⊢
  dsimp only
  split
  · exact hdone.trans (closeWs_evolves hdone.sound id 0)
  split
  · have hpump := hdone.trans (pumpLogStream_evolves hdone.sound id)
    exact hpump.trans (trimLogFrames_evolves hpump.sound)
  · exact hdone

theorem flushLogBatch_evolves (hs : Sound w s) : Evolves w g s (s.flushLogBatch w) := by
  have hpumped :=
    foldl_evolves (g := g) hs s.connections fun t id ht => pumpLogStream_evolves (w := w) ht id
  exact hpumped.trans (trimLogFrames_evolves hpumped.sound)

variable [DecidableEq ν]

/-- A push of the figures. -/
theorem pushStats_evolves (hs : Sound w s) (hgiven : g.stats current) (hpush : g.Pushes) :
    Evolves w g s (s.pushStats w current) := by
  unfold pushStats
  split
  · exact .refl hs
  have hseq : Evolves w g s { s with statsSeq := s.statsSeq + 1 } :=
    ⟨⟨hs.frames, hs.registered, hs.bounded, hs.nodup⟩, rfl, rfl, rfl,
      fun _ hp => .inl hp, .inl hpush, fun _ c hc => ⟨c, .inl hc, .refl⟩⟩
  dsimp only
  split
  · exact hseq
  have hloop : Evolves w g { s with statsSeq := s.statsSeq + 1 }
      ({ s with statsSeq := s.statsSeq + 1 }.forConnections fun id t =>
        if t.listens (lit "stats") id then
          t.sendFrame w id (.statsDelta t.statsSeq (statsDelta s.prevStats current))
        else t) := by
    refine forConnections_evolves hseq.sound fun id t ht => ?_
    split
    · rename_i hlistens
      exact sendFrame_evolves ht rfl fun _ =>
        ⟨fun c hc => authenticated_of_listens hlistens hc, fun _ => hpush _ _⟩
    · exact .refl ht
  have hsent := hseq.trans hloop
  exact ⟨⟨hsent.sound.frames, hsent.sound.registered, hsent.sound.bounded, hsent.sound.nodup⟩,
    hsent.history, hsent.ring, hsent.total, fun p hp => .inr (some.inj hp ▸ hgiven), .inl hpush,
    hsent.origin⟩

/-- **A callback that drains no log entries** takes every connection through steps of `ConnStep`. -/
theorem step_evolves (hs : Sound w s) {a : Action ν} (ha : a ≠ .drainLogs)
    (hallowed : Allowed g s a) (h : s.step w a = some t) : Evolves w g s t := by
  have hlive : ∀ id ∈ s.connections, ∃ c, s.conns[id]? = some c := fun id hid =>
    ⟨_, getElem?_eq_getElem (hs.bounded id hid)⟩
  cases a with
  | upgrade endpoint peerKey stats =>
    cases h
    exact acceptUpgrade_evolves hs _ _ hallowed.stats
  | frame id frame stats =>
    rw [step, ite_none_right_eq_some] at h
    obtain ⟨hid, h⟩ := h
    obtain ⟨c, hc⟩ := hlive id hid
    cases h
    exact handleFrame_evolves hs hc stats frame hallowed
  -- a connection that is given up, whatever for
  | readError id | authTimeout id | pongTimeout id =>
    rw [step, ite_none_right_eq_some] at h
    obtain rfl := some.inj h.2
    exact closeWs_evolves hs id _
  | pingTimer =>
    cases h
    refine forConnections_evolves hs fun id t ht => ?_
    split
    · exact sendFrame_evolves ht rfl (by simp [WsMessage.isStream])
    · exact .refl ht
  | postEvent event =>
    cases h
    unfold postEvent
    split
    · exact .refl hs
    split
    · exact .refl hs
    · exact .of_core hs rfl
  | drainEvents =>
    cases h
    exact drainPendingEvents_evolves hs
  | flushEvents =>
    cases h
    exact flushEventBatch_evolves hs
  | pushStats current =>
    cases h
    exact pushStats_evolves hs (hallowed.stats current rfl).1 (hallowed.push current rfl)
  | postLog entry =>
    cases h
    unfold postLog
    split
    · exact .refl hs
    split
    · exact .of_core hs rfl
    · exact .of_core hs rfl
  | drainLogs => exact absurd rfl ha
  | flushLogs =>
    cases h
    exact flushLogBatch_evolves hs
  | writeDone id logChunk ok =>
    rw [step, ite_none_right_eq_some] at h
    obtain ⟨hunder, h⟩ := h
    cases h
    refine onWriteDone_evolves hs logChunk ok fun c hc => ?_
    simpa [hc] using hunder
  | stop =>
    cases h
    split
    · exact .refl hs
    have hstopped : Evolves w g s { s with running := false } :=
      .of_core hs rfl
    -- the connections are closed one by one, from a list that was taken before
    exact hstopped.trans (foldl_evolves hstopped.sound _ fun t id ht => closeWs_evolves ht id 1001)

end WsManager

end PageSpeed
