import PageSpeed.Proof.WsCallbacks

/-!
# Who is sent a stream

* `Entitled`: the stream is open, or the connection has presented the configured token.
* `streams_to_entitled`: in every run in which no client presents an empty token while none is
  configured, stream messages are only sent on entitled connections.
* `stream_without_token`: a server without a token that is not open lets in a client that presents
  an empty one.
-/

namespace PageSpeed

open Run Wire Relation List

namespace WsManager

variable {ν : Type} {w : WsWorld ν} {s t : WsManager ν} {c c' : WsConnection ν}
  {ring : List LogEntry}

/-- The stream is open, or the connection has sent a text whose `auth` is the token there is. -/
def Entitled (w : WsWorld ν) (c : WsConnection ν) : Prop :=
  w.config.isOpen c.endpoint ∨ w.config.authToken ≠ [] ∧ ∃ payload ∈ c.received,
    (w.parse payload).bind (Json.stringMember (lit "auth")) = some w.config.authToken

/-- The text does not present an empty token to a server that has none. -/
def Presentable (w : WsWorld ν) (payload : Bytes) : Prop :=
  w.config.authToken = [] → presentedToken w payload ≠ some []

/-- The action is not such a text, of a connection that has not been let in. -/
def NoEmptyToken (w : WsWorld ν) (s : WsManager ν) (a : Action ν) : Prop :=
  ∀ id payload stats c, a = .frame id (.text payload) stats → s.conns[id]? = some c →
    c.authenticated = false → Presentable w payload

/-- What is kept for a connection. -/
structure Fair (w : WsWorld ν) (c : WsConnection ν) : Prop where
  authenticated : c.authenticated = true → Entitled w c
  stream : ∀ m ∈ c.sent, m.isStream → Entitled w c
  received : c.authenticated = false → ∀ payload ∈ c.received, Presentable w payload

theorem parse_of_presentedToken {payload token : Bytes}
    (h : presentedToken w payload = some token) :
    (w.parse payload).bind (Json.stringMember (lit "auth")) = some token := by
  unfold presentedToken at h
  split at h
  · exact absurd h (by simp)
  · exact h

/-- A client that is admitted is entitled. -/
theorem entitled_of_admits (h : Fair w c) (hnot : c.authenticated = false) (hadmits : c.Admits w) :
    Entitled w c := by
  rcases hadmits with hopen | ⟨payload, hmem, htoken⟩
  · exact .inl hopen
  · refine .inr ⟨fun hempty => ?_, payload, hmem, parse_of_presentedToken htoken⟩
    exact h.received hnot payload hmem hempty (hempty ▸ htoken)

/-- Stream messages that are sent on a connection that has been let in. -/
theorem Fair.grow (h : Fair w c) (hendpoint : c'.endpoint = c.endpoint)
    (hreceived : c'.received = c.received) (hauthenticated : c'.authenticated = c.authenticated)
    (hsent : ∀ m ∈ c'.sent, m ∈ c.sent ∨ (m.isStream → c.authenticated = true)) : Fair w c' := by
  have hentitled : Entitled w c → Entitled w c' := by
    unfold Entitled
    rw [hendpoint, hreceived]
    exact fun h => h
  refine ⟨fun hauth => hentitled (h.authenticated (hauthenticated ▸ hauth)),
    fun m hm hstream => ?_, ?_⟩
  · rcases hsent m hm with hold | hnew
    · exact hentitled (h.stream m hold hstream)
    · exact hentitled (h.authenticated (hnew hstream))
  · rw [hauthenticated, hreceived]
    exact h.received

/-- A message to a client that was let in. -/
theorem Fair.sends (h : Fair w c) {m : WsMessage ν} (hstream : m.isStream → c.authenticated)
    (hsends : Sends w m c c') : Fair w c' := by
  cases hsends with
  | written _ =>
    refine h.grow rfl rfl rfl fun m' hm' => ?_
    rcases mem_append.1 hm' with hold | hnew
    · exact .inl hold
    · rw [mem_singleton.1 hnew]
      exact .inr hstream
  | dropped | refused => exact h.grow rfl rfl rfl fun m hm => .inl hm
  | idle _ => exact h

theorem Fair.entered (h : Fair w c) (hnot : c.authenticated = false) (hadmits : c.Admits w) :
    Fair w c.entered := by
  have hentitled : Entitled w c := entitled_of_admits h hnot hadmits
  exact ⟨fun _ => hentitled, fun _ _ _ => hentitled,
    fun hno => absurd hno (by simp [WsConnection.entered])⟩

/-- One step of a connection. -/
theorem Fair.step {tells : WsMessage ν → Prop} {total : ℕ} (h : Fair w c)
    (hstep : ConnStep w (Presentable w) tells ring total c c') : Fair w c' := by
  cases hstep with
  | close | buffer | complete => exact h.grow rfl rfl rfl fun m hm => .inl hm
  | closeFrame code _ =>
    refine h.grow rfl rfl rfl fun m hm => ?_
    rcases mem_append.1 hm with hold | hnew
    · exact .inl hold
    · rw [mem_singleton.1 hnew]
      exact .inr (by simp [WsMessage.isStream])
  | send _ hstream hsends => exact h.sends (fun hm => (hstream hm).1) hsends
  -- what has been received only grows, so that a token shown once stays shown
  | receive payload hheard =>
    have hentitled : Entitled w c → Entitled w { c with received := c.received ++ [payload] } := by
      rintro (hopen | ⟨htoken, text, hmem, hauth⟩)
      · exact .inl hopen
      · exact .inr ⟨htoken, text, mem_append_left _ hmem, hauth⟩
    refine ⟨fun hauth => hentitled (h.authenticated hauth), fun m hm hs =>
      hentitled (h.stream m hm hs), ?_⟩
    intro hnot text hmem
    rcases mem_append.1 hmem with hold | hnew
    · exact h.received hnot text hold
    · exact mem_singleton.1 hnew ▸ hheard hnot
  | enter hnot hadmits _ => exact h.entered hnot hadmits
  | enterLogs hnot hadmits _ hsends =>
    have hmoved : Fair w (c.entered.atPosition total) :=
      (h.entered hnot hadmits).grow rfl rfl rfl fun m hm => .inl hm
    exact hmoved.sends (fun _ => rfl) hsends
  | chunk hp hchunk =>
    cases hchunk with
    | written n =>
      refine h.grow rfl rfl rfl fun m hm => ?_
      rcases mem_append.1 hm with hold | -
      · exact .inl hold
      · exact .inr fun _ => hp.authenticated
    | refused n => exact h.grow rfl rfl rfl fun m hm => .inl hm

theorem Fair.new (hnew : c.New) : Fair w c := by
  refine ⟨fun hauth => ?_, fun m hm => ?_, fun _ payload hmem => ?_⟩
  · rw [hnew.authenticated] at hauth
    exact absurd hauth (by simp)
  · rw [hnew.sent] at hm
    exact absurd hm not_mem_nil
  · rw [hnew.received] at hmem
    exact absurd hmem not_mem_nil

/-- All its steps. -/
theorem Fair.steps {tells : WsMessage ν → Prop} {total : ℕ} (h : Fair w c)
    (hsteps : ReflTransGen (ConnStep w (Presentable w) tells ring total) c c') : Fair w c' := by
  induction hsteps with
  | refl => exact h
  | tail _ hstep ih => exact ih.step hstep

/-! ## Runs -/

/-- Every connection is fair. -/
def AllFair (w : WsWorld ν) (s : WsManager ν) : Prop :=
  Sound w s ∧ ∀ (id : ℕ) c, s.conns[id]? = some c → Fair w c

variable [DecidableEq ν]

/-- One callback keeps every connection fair. -/
theorem step_fair {a : Action ν} (h : AllFair w s) (hok : NoEmptyToken w s a)
    (hstep : s.step w a = some t) :
    AllFair w t := by
  by_cases ha : a = .drainLogs
  · subst ha
    cases hstep
    refine drainPendingLogs_keeps (I := AllFair w)
      (fun t entry ht => ⟨drainLog_sound ht.1 entry, ht.2⟩) ?_
    exact ⟨h.1.of_core rfl, h.2⟩
  · have hevolves := step_evolves (g := ⟨Presentable w, fun _ => True, fun _ => True⟩) h.1 ha
      ⟨hok, fun _ _ => ⟨trivial, trivial⟩, fun _ _ _ _ => trivial⟩ hstep
    refine ⟨hevolves.sound, fun id c' hc' => ?_⟩
    obtain ⟨c, hc, hsteps⟩ := hevolves.origin id c' hc'
    rcases hc with hc | hnew
    · exact (h.2 id c hc).steps hsteps
    · exact (Fair.new hnew).steps hsteps

/-- **Streams go to entitled clients.** In every run in which no client that has not been let in
presents an empty token to a server without one, a stream message is only sent on an entitled
connection, and a server without a token that is not open sends none on streams that are not
read-open. -/
theorem streams_to_entitled (w : WsWorld ν) {as : List (Action ν)} {s : WsManager ν}
    (hmeets : Meets (step w) (NoEmptyToken w) {} as) (hrun : run (step w) {} as = some s) :
    ∀ c ∈ s.conns, ∀ m ∈ c.sent, m.isStream →
      Entitled w c ∧ (w.config.authToken = [] → w.config.allowUnauthenticated = false →
        w.config.readOpen = true ∧ c.endpoint ∈ w.config.readOpenStreams) := by
  have hinv :=
    run_invariant (I := fun _ => AllFair w) (fun _ s a t hI hok hstep => step_fair hI hok hstep)
    ⟨sound_empty, by simp⟩ hmeets hrun
  intro c hc m hm hstream
  obtain ⟨id, hid⟩ := mem_iff_getElem?.1 hc
  have hentitled := (hinv.2 id c hid).stream m hm hstream
  refine ⟨hentitled, fun hempty hclosed => ?_⟩
  rcases hentitled with hopen | ⟨htoken, -⟩
  · simpa [WsConfig.isOpen, hempty, hclosed] using hopen
  · exact absurd hempty htoken

/-- The text that presents a token. -/
def authText (token : Bytes) : Bytes := lit "\x7b\"auth\":\"" ++ token ++ lit "\"\x7d"

/-- A server whose clients can send the text that presents this token. -/
def authWorld (config : WsConfig) (token : Bytes) : WsWorld ℕ where
  config := config
  frame := fun _ => []
  dumpEvent := fun _ => []
  parse := fun payload => if payload = authText token then
    some (.object [(lit "auth", .string token)]) else none
  uvWrite := fun _ => true

/-- A client of the log stream presents the token. -/
def authRun (token : Bytes) : List (Action ℕ) :=
  [.upgrade (lit "logs") [] none, .frame 0 (.text (authText token)) none]

/-- The client has been let in, and got the snapshot. -/
def authConn (token : Bytes) : WsConnection ℕ where
  endpoint := lit "logs"
  authRequired := true
  authenticated := true
  countedPreauth := false
  preauthPeerKey := []
  pendingWrites := 3
  received := [authText token]
  sent := [.handshake, .logSnapshot [] 0, .authOk]
  underWay := [false, false, false]

theorem streams_to_entitled_token :
    ∃ s, run (step (authWorld { authToken := lit "t" } (lit "t"))) {}
      (authRun (lit "t")) = some s ∧ authConn (lit "t") ∈ s.conns ∧
    Entitled (authWorld { authToken := lit "t" } (lit "t")) (authConn (lit "t")) := by
  have hrun : run (step (authWorld { authToken := lit "t" } (lit "t"))) {} (authRun (lit "t")) =
      some { conns := [authConn (lit "t")], connections := [0], uvWrites := 3 } := rfl
  have hmeets : Meets (step (authWorld { authToken := lit "t" } (lit "t")))
      (NoEmptyToken (authWorld { authToken := lit "t" } (lit "t"))) {} (authRun (lit "t")) :=
    meets_of_forall (fun _ _ _ _ _ _ _ _ _ hempty => absurd hempty (by decide)) _ _
  refine ⟨_, hrun, mem_cons_self, ?_⟩
  exact (streams_to_entitled _ hmeets hrun _ mem_cons_self (.logSnapshot [] 0)
    (by simp [authConn]) rfl).1

/-- The log stream is sent to a client that presents an empty token to a server that has none and
was not opened. -/
theorem stream_without_token : ∃ s, run (step (authWorld {} [])) {} (authRun []) = some s ∧
    ∃ c ∈ s.conns, (∃ m ∈ c.sent, m.isStream) ∧ ¬ Entitled (authWorld {} []) c := by
  have hrun : run (step (authWorld {} [])) {} (authRun []) =
      some { conns := [authConn []], connections := [0], uvWrites := 3 } := rfl
  refine ⟨_, hrun, _, mem_cons_self, ⟨.logSnapshot [] 0, by simp [authConn], rfl⟩, ?_⟩
  rintro (hopen | ⟨htoken, -⟩)
  · exact absurd hopen (by decide)
  · exact htoken rfl

end WsManager

end PageSpeed
