import PageSpeed.Proof.HttpConnection

/-!
# Connections and their timers

What becomes of a connection over whole runs of the server.

* `Touches`: an event on one connection changes that one, and others only by their responders.
* `leaving_onEvent`: the last response of a connection closes it when it is written.
* `run_timers`: in which runs every connection stays guarded, what an expiry leads to there, and the
  count of connections.
-/

namespace PageSpeed.Http

open Wire Choice List HttpConnection

namespace HttpServer

open HttpConnection (Sound Good SameControl Keeps)

variable {π : Type} {setup : Setup π} {out : Outside} {s : HttpServer π} {id : ℕ}
  {c : HttpConnection π}
  {f : HttpConnection π → HttpConnection π} {callbacks : List (Callback × π × Bytes)}
    {ending : Errno}

/-! ## What an event on one connection touches -/

/-- The second server comes from the first by changes of one connection and by responders of any. -/
inductive Touches (setup : Setup π) (out : Outside) (id : ℕ) : HttpServer π → HttpServer π → Prop
  | refl (s : HttpServer π) : Touches setup out id s s
  | modify {s t : HttpServer π} {f : HttpConnection π → HttpConnection π}
      (h : Touches setup out id s t)
    (hf : ∀ c, Keeps c (f c)) : Touches setup out id s (t.modify id f)
  | respond {s t : HttpServer π} (h : Touches setup out id s t) (id' : ℕ)
      (response : HttpResponse) :
    Touches setup out id s (completeAsync setup out id' response t)

namespace Touches

variable {t : HttpServer π}

/-- The calls of a handler, seen from another connection. -/
theorem runCalls (h : Touches setup out id s t) (run : HandlerRun) :
    Touches setup out id s (runCalls setup out run t) :=
  List.foldlRecOn (motive := Touches setup out id s) run.calls _ h fun _ ht call _ =>
    ht.respond call.1 call.2

/-- A dispatch, seen from another connection. -/
theorem dispatchMessage (h : Touches setup out id s t) (request : HttpRequest) :
    Touches setup out id s (dispatchMessage setup out id request t) := by
  rw [HttpServer.dispatchMessage]
  cases dispatchRequest setup.config setup.routes request with
  | respond response => exact h.modify fun c => keeps_sendDispatched
  | handler index isAsync =>
    dsimp only
    have hcalls : Touches setup out id s (HttpServer.runCalls setup out (out.handler index request)
        (if isAsync then t.modify id fun c => { c with asyncPending := true } else t)) := by
      refine runCalls ?_ _
      split
      · exact h.modify fun c => ⟨rfl, fun hc => hc⟩
      · exact h
    generalize HttpServer.runCalls setup out (out.handler index request)
      (if isAsync then t.modify id fun c => { c with asyncPending := true } else t) = u at hcalls
    split
    · exact hcalls.modify fun c =>
        ⟨keeps_sendDispatched.id, fun hc => keeps_sendDispatched.closing hc⟩
    split
    · exact hcalls.modify fun c => keeps_awaitAsync
    · exact hcalls.modify fun c => keeps_sendDispatched

theorem onMessageComplete (h : Touches setup out id s t) (method : Bytes) (shouldKeepAlive : Bool) :
    Touches setup out id s (onMessageComplete setup out id method shouldKeepAlive t) := by
  rw [HttpServer.onMessageComplete]
  cases t.find id with
  | none => exact h
  | some c =>
    have hprepare := h.modify (f := fun c =>
      (c.prepareMessage setup.config out t.now setup.hasUpgradeHandler method shouldKeepAlive).2)
      fun c => keeps_prepareMessage
    dsimp only
    split
    · exact hprepare.dispatchMessage _
    · exact hprepare

theorem onConn (h : Touches setup out id s t) {f : HttpConnection π → Errno × HttpConnection π}
    (hf : ∀ c, SameControl c (f c).2) : Touches setup out id s (onConn id f t).2 := by
  rw [HttpServer.onConn]
  cases t.find id with
  | none => exact h
  | some c => exact h.modify fun c => (hf c).keeps

/-- A callback, seen from another connection. -/
theorem callback (h : Touches setup out id s t) (cb : Callback) :
    Touches setup out id s (callback setup out id t cb).2 := by
  cases cb with
  | url text => exact h.onConn fun c => sameControl_onUrl
  | headerField text => exact h.onConn fun c => sameControl_onHeaderField
  | headerValue text => exact h.onConn fun c => sameControl_onHeaderValue
  | body text => exact h.onConn fun c => sameControl_onBody
  | messageComplete method shouldKeepAlive => exact h.onMessageComplete method shouldKeepAlive

theorem runCallbacks {parser : π} (h : Touches setup out id s t) :
    Touches setup out id s (runCallbacks setup out id ending parser callbacks t).2 := by
  induction callbacks generalizing t with
  | nil => exact h
  | cons entry callbacks ih =>
    obtain ⟨cb, p, rest⟩ := entry
    have hcallback := h.callback cb
    rw [HttpServer.runCallbacks]
    generalize HttpServer.callback setup out id t cb = result at hcallback
    obtain ⟨errno, u⟩ := result
    cases errno with
    | ok => exact ih hcallback
    | paused => exact hcallback
    | error => exact hcallback

/-- A read, seen from another connection. -/
theorem execute (h : Touches setup out id s t) (data : Bytes) :
    Touches setup out id s (execute setup out id data t).2.2 := by
  rw [HttpServer.execute]
  cases t.find id with
  | none => exact h
  | some c => exact h.runCallbacks.modify fun c => ⟨rfl, fun hc => hc⟩

theorem savePending (h : Touches setup out id s t) (rest : Bytes) :
    Touches setup out id s (savePending id rest t) := by
  rw [HttpServer.savePending]
  split
  · exact h.modify fun c => ⟨rfl, fun hc => hc⟩
  · exact h

/-- A read touches its own connection. -/
theorem onRead (data : Option Bytes) : Touches setup out c.id s (onRead setup out c data s) := by
  have hrefl : Touches setup out c.id s s := refl s
  cases data with
  | none => exact hrefl.modify fun c => keeps_closeConnection
  | some data =>
    rw [HttpServer.onRead]
    split
    · exact hrefl
    split
    · exact hrefl.modify fun c => keeps_sendResponse
    have hexecute := hrefl.execute data
    generalize HttpServer.execute setup out c.id data s = result at hexecute
    obtain ⟨errno, rest, t⟩ := result
    cases errno with
    | ok => exact hexecute.modify fun c => keeps_restartBodyTimer
    | paused => exact hexecute.savePending rest
    | error => exact hexecute.modify fun c => keeps_sendResponse

theorem replayPending (h : Touches setup out id s t) (data : Bytes) :
    Touches setup out id s (replayPending setup out id data t) := by
  have hexecute := (h.modify (f := fun c => { c with pendingData := [] }) fun c =>
    ⟨rfl, fun hc => hc⟩).execute data
  rw [HttpServer.replayPending]
  generalize HttpServer.execute setup out id data _ = result at hexecute
  obtain ⟨errno, rest, t⟩ := result
  cases errno with
  | ok => exact hexecute.modify fun c => keeps_resumeReading
  | paused => exact hexecute.savePending rest
  | error =>
    refine hexecute.modify fun c => ?_
    split
    · exact keeps_resumeReading
    · exact keeps_sendResponse

/-- A write completion touches its own connection. -/
theorem onWriteDone (status : Bool) :
    Touches setup out c.id s (onWriteDone setup out c status s) := by
  have hrefl : Touches setup out c.id s s := refl s
  have hwrites :=
    hrefl.modify (f := fun c => { c with writes := c.writes.tail }) fun c => ⟨rfl, fun hc => hc⟩
  rw [HttpServer.onWriteDone]
  dsimp only
  split
  · exact hwrites
  have hstopped :=
    hwrites.modify (f := fun c => { c with timer := none }) fun c => ⟨rfl, fun hc => hc⟩
  split
  · exact hstopped.modify fun c => keeps_closeConnection
  have hreset :=
    hstopped.modify (f := HttpConnection.resetForNextRequest setup.config s.now) fun c =>
    ⟨rfl, fun hc => hc⟩
  split
  · exact hreset.replayPending _
  · exact hreset.modify fun c => keeps_resumeReading

end Touches

/-! ## What becomes of an answered connection -/

section Leaving

variable {t : HttpServer π} {id' : ℕ}

/-- The connection of the number is there and has the property. -/
def Has (s : HttpServer π) (id : ℕ) (P : HttpConnection π → Prop) : Prop :=
  ∃ c, s.find id = some c ∧ P c

/-- A property that every change keeps. -/
theorem Has.modify {P : HttpConnection π → Prop} (h : Has s id P) (hid : ∀ c, (f c).id = c.id)
    (hf : ∀ c, P c → P (f c)) :
    Has (s.modify id' f) id P := by
  obtain ⟨c, hfind, hc⟩ := h
  by_cases hne : id' = id
  · subst hne
    exact ⟨f c, by rw [find_modify hid, hfind, Option.map_some], hf c hc⟩
  · exact ⟨c, by rw [find_modify_other hne hid, hfind], hc⟩

/-- A responder changes no connection that is closing or answered. -/
theorem find_completeAsync (hfind : s.find id = some c)
    (hdone : c.closing = true ∨ c.responseSent = true)
    (response : HttpResponse) : (completeAsync setup out id' response s).find id = some c := by
  rw [completeAsync]
  split
  · by_cases hne : id' = id
    · subst hne
      rw [find_modify fun c => keeps_completeAsync.id, hfind, Option.map_some,
        HttpConnection.completeAsync, if_pos (hdone.imp_right .inl)]
    · rw [find_modify_other hne fun c => keeps_completeAsync.id, hfind]
  · exact hfind

/-- What is closing stays so. -/
theorem Touches.closing (h : Touches setup out id' s t) (hs : Has s id (·.closing = true)) :
    Has t id (·.closing = true) := by
  induction h with
  | refl => exact hs
  | modify h hf ih => exact ih.modify (fun c => (hf c).id) fun c => (hf c).closing
  | respond h id' response ih =>
    obtain ⟨c, hfind, hclosing⟩ := ih
    exact ⟨c, find_completeAsync hfind (.inl hclosing) response, hclosing⟩

/-- Work on another connection leaves an answered one alone. -/
theorem Touches.find_other (h : Touches setup out id' s t) (hne : id' ≠ id)
    (hfind : s.find id = some c) (hsent : c.responseSent = true) : t.find id = some c := by
  induction h with
  | refl => exact hfind
  | modify h hf ih => rw [find_modify_other hne fun c => (hf c).id, ih]
  | respond h id' response ih => exact find_completeAsync ih (.inr hsent) response

/-- Deleting one connection leaves the others. -/
theorem find_destroy (hne : id' ≠ id) : (destroy id' s).find id = s.find id := by
  have hother : ∀ c : HttpConnection π, decide (c.id = id') = true →
      ¬decide (c.id = id) = true := by
    intro c hc hc'
    exact hne ((of_decide_eq_true hc).symm.trans (of_decide_eq_true hc'))
  rw [find, destroy, ← head?_filter, filter_eraseP_of_disjoint hother, head?_filter]
  rfl

theorem find_onConnection {status accepted : Bool} (hfind : s.find id = some c) :
    (onConnection setup status accepted s).find id = some c := by
  rw [onConnection]
  split
  · exact hfind
  · have hold : s.conns.find? (·.id = id) = some c := hfind
    rw [find, find?_append, hold]
    rfl

/-- A property that closing keeps. -/
theorem Has.stop {P : HttpConnection π → Prop} (h : Has s id P)
    (hP : ∀ c, P c → P ({ c with reading := c.closing && c.reading }.closeConnection)) :
    Has (stop s) id P := by
  rw [HttpServer.stop]
  split
  · refine List.foldlRecOn (motive := fun t => Has t id P) s.connections _ h fun t ht id' _ => ?_
    exact ht.modify (fun c => keeps_closeConnection.id) hP
  · exact h

/-- **A connection that is closing stays so until it is deleted.** -/
theorem closing_onEvent (hs : Has s id (·.closing = true)) (event : Event) :
    event = .timerClosed id ∨ Has (onEvent setup out s event) id (·.closing = true) := by
  cases event with
  | connection status accepted =>
    obtain ⟨c, hfind, hclosing⟩ := hs
    refine .inr ⟨c, ?_, hclosing⟩
    rw [onEvent]
    split
    · exact find_onConnection hfind
    · exact hfind
  | read id' data =>
    exact .inr (guard_of_find (R := (Has · id _)) hs fun c _ _ => (Touches.onRead data).closing hs)
  | writeDone id' status =>
    exact .inr (guard_of_find (R := (Has · id _)) hs fun c _ _ =>
      (Touches.onWriteDone status).closing hs)
  | timeout id' =>
    refine .inr (guard_of_find (R := (Has · id _)) hs fun c _ _ =>
      hs.modify (fun c => ?_) fun c => ?_)
    · exact keeps_sendResponse.id
    · exact fun hc => keeps_sendResponse.closing hc
  | handleClosed id' =>
    exact .inr (guard_of_find (R := (Has · id _)) hs fun c _ _ =>
      hs.modify (fun c => rfl) fun c hc => hc)
  | timerClosed id' =>
    by_cases hne : id' = id
    · exact .inl (by rw [hne])
    · refine .inr (guard_of_find (R := (Has · id _)) hs fun c _ _ => ?_)
      obtain ⟨c, hfind, hclosing⟩ := hs
      exact ⟨c, (find_destroy hne).trans hfind, hclosing⟩
  | respond id' response =>
    obtain ⟨c, hfind, hclosing⟩ := hs
    exact .inr ⟨c, find_completeAsync hfind (.inl hclosing) response, hclosing⟩
  | stop => exact .inr (hs.stop fun c hc => keeps_closeConnection.closing hc)

/-- The response is out, and the connection is not kept behind it. -/
structure Leaving (c : HttpConnection π) : Prop where
  sent : c.responseSent = true
  dropped : c.keepAlive = false

/-- **The last response of a connection closes it when it is written**, and until then it stays the
last one. -/
theorem leaving_onEvent (hsound : Sound c) (hfind : s.find id = some c) (hopen : c.closing = false)
    (h : Leaving c) (event : Event) :
    Has (onEvent setup out s event) id fun c' => c'.closing = true ∨
      Leaving c' ∧ ∀ status, event = .writeDone id status → c.writes = [] := by
  have hstage : c.stage = .opened := by
    by_contra hne
    exact Bool.false_ne_true (hopen.symm.trans (hsound.stage hne))
  have hreading : ¬c.reading = true := fun hread =>
    Bool.false_ne_true ((hsound.reading hread).symm.trans h.sent)
  -- what is not the end of a write of its own leaves it as it is
  have hsame : ∀ {t : HttpServer π}, t.find id = some c → (∀ status, event ≠ .writeDone id status) →
      Has t id fun c' => c'.closing = true ∨ Leaving c' ∧ ∀ status, event = .writeDone id status →
        c.writes = [] :=
    fun ht hevent => ⟨c, ht, .inr ⟨h, fun status heq => absurd heq (hevent status)⟩⟩
  cases event with
  | connection status accepted =>
    refine hsame ?_ (by simp)
    rw [onEvent]
    split
    · exact find_onConnection hfind
    · exact hfind
  | read id' data =>
    refine hsame ?_ (by simp)
    refine guard_of_find (R := (find · id = some c)) hfind fun d hd hread => ?_
    have hne : d.id ≠ id := by
      rintro rfl
      obtain rfl : c = d := Option.some.inj (hfind.symm.trans ((id_of_find hd) ▸ hd))
      exact hreading hread
    exact (Touches.onRead data).find_other hne hfind h.sent
  | writeDone id' status =>
    by_cases hne : id' = id
    · subst hne
      rw [onEvent, hfind]
      dsimp only
      split_ifs with hwrites
      · rw [onWriteDone]
        dsimp only
        rw [if_neg (by simp [hopen]), if_pos (.inr h.dropped)]
        obtain rfl : c.id = id' := id_of_find hfind
        refine ⟨closeConnection { c with writes := c.writes.tail, timer := none }, ?_,
          .inl closing_closeConnection⟩
        rw [find_modify fun c => keeps_closeConnection.id, find_modify, find_modify, hfind]
        · rfl
        · exact fun _ => rfl
        · exact fun _ => rfl
      · exact ⟨c, hfind, .inr ⟨h, fun _ _ => not_not.1 hwrites⟩⟩
    · refine hsame ?_ fun status' heq => hne (Event.writeDone.inj heq).1
      refine guard_of_find (R := (find · id = some c)) hfind fun d hd _ => ?_
      exact (Touches.onWriteDone status).find_other (id_of_find hd ▸ hne) hfind h.sent
  | timeout id' =>
    -- no second response is sent
    have hagain : ∀ d : HttpConnection π, Leaving d →
        Leaving ({ d with timer := none }.onTimeout setup.config out s.now) := by
      intro d hd
      rw [HttpConnection.onTimeout, HttpConnection.sendResponse]
      dsimp only
      rw [if_pos (.inr hd.sent)]
      exact ⟨hd.sent, by dsimp only; rw [hd.dropped, ite_self]⟩
    have hs : Has s id Leaving := ⟨c, hfind, h⟩
    have hafter : Has (onEvent setup out s (.timeout id')) id Leaving := by
      refine guard_of_find (R := (Has · id _)) hs fun d _ _ => hs.modify (fun c => ?_) hagain
      exact keeps_sendResponse.id
    obtain ⟨c', hfind', hc'⟩ := hafter
    exact ⟨c', hfind', .inr ⟨hc', (by simp)⟩⟩
  | handleClosed id' =>
    refine hsame ?_ (by simp)
    refine guard_of_find (R := (find · id = some c)) hfind fun d hd hclosed => ?_
    refine (find_modify_other ?_ fun c => ?_).trans hfind
    swap
    · rfl
    rintro rfl
    obtain rfl : c = d := Option.some.inj (hfind.symm.trans hd)
    rw [hstage] at hclosed
    cases hclosed.1
  | timerClosed id' =>
    refine hsame ?_ (by simp)
    refine guard_of_find (R := (find · id = some c)) hfind fun d hd hclosed => ?_
    rw [find_destroy ?_, hfind]
    rintro rfl
    obtain rfl : c = d := Option.some.inj (hfind.symm.trans hd)
    rw [hstage] at hclosed
    cases hclosed
  | respond id' response => exact hsame (find_completeAsync hfind (.inr h.sent) response) (by simp)
  | stop =>
    have hs : Has s id fun c' => c'.closing = true ∨ Leaving c' := ⟨c, hfind, .inr h⟩
    obtain ⟨c', hfind', hc'⟩ := hs.stop fun d _ => .inl closing_closeConnection
    exact ⟨c', hfind', hc'.imp_right fun hleaving => ⟨hleaving, (by simp)⟩⟩

end Leaving

/-! ## The count -/

/-- By how much the count differs from the number of connections. -/
def surplus (s : HttpServer π) : ℤ := s.activeConnections - s.conns.length

@[simp] theorem surplus_modify : (s.modify id f).surplus = s.surplus := by
  rw [surplus, surplus, modify, length_updateFirst]

theorem surplus_completeAsync {response : HttpResponse} :
    (completeAsync setup out id response s).surplus = s.surplus := by
  rw [completeAsync]
  split
  · exact surplus_modify
  · rfl

/-- Work on connections does not change their count. -/
theorem Touches.surplus {t : HttpServer π} (h : Touches setup out id s t) :
    t.surplus = s.surplus := by
  induction h with
  | refl => rfl
  | modify h hf ih => exact surplus_modify.trans ih
  | respond h id' response ih => exact surplus_completeAsync.trans ih

theorem surplus_stop : (stop s).surplus = s.surplus := by
  rw [stop]
  split
  · exact List.foldlRecOn (motive := fun t : HttpServer π => t.surplus = s.surplus) s.connections _
      rfl fun _ ht _ _ =>
      surplus_modify.trans ht
  · rfl

/-- A connection that is taken in is counted. -/
theorem surplus_onConnection {status accepted : Bool} :
    (onConnection setup status accepted s).surplus = s.surplus := by
  rw [onConnection]
  split
  · rfl
  · rw [surplus, surplus, length_append, length_singleton]
    push_cast
    ring

/-- One that is deleted is not counted any more. -/
theorem surplus_destroy (hfind : s.find id = some c) : (destroy id s).surplus = s.surplus := by
  have hlength : (s.conns.eraseP (·.id = id)).length = s.conns.length - 1 :=
    length_eraseP_of_mem (mem_of_find?_eq_some hfind) (decide_eq_true (id_of_find hfind))
  have hpos : 0 < s.conns.length := length_pos_of_mem (mem_of_find?_eq_some hfind)
  rw [surplus, surplus, destroy]
  dsimp only
  rw [hlength]
  omega

/-- **Every event keeps the count.** -/
theorem surplus_onEvent (event : Event) : (onEvent setup out s event).surplus = s.surplus := by
  cases event with
  | connection status accepted =>
    rw [onEvent]
    split
    · exact surplus_onConnection
    · rfl
  | read id data => exact guard_of_find (R := (·.surplus = s.surplus)) rfl fun c hfind _ =>
    (id_of_find hfind ▸ Touches.onRead data).surplus
  | writeDone id status => exact guard_of_find (R := (·.surplus = s.surplus)) rfl fun c hfind _ =>
    (id_of_find hfind ▸ Touches.onWriteDone status).surplus
  | timeout id | handleClosed id =>
    exact guard_of_find (R := (·.surplus = s.surplus)) rfl fun c _ _ => surplus_modify
  | timerClosed id =>
    exact guard_of_find (R := (·.surplus = s.surplus)) rfl fun c hfind _ => surplus_destroy hfind
  | respond id response => exact surplus_completeAsync
  | stop => exact surplus_stop

/-! ## Runs -/

/-- Every connection that is not closing has its timer armed. -/
def Guarded (s : HttpServer π) : Prop := ∀ c ∈ s.conns, c.closing = false → c.timer.isSome = true

/-- Good connections have their timers. -/
theorem guarded_of_good (h : AllGood s) : Guarded s := by
  intro c hc hopen
  rcases (h c hc).guarded with hclosing | htimer
  · rw [hopen] at hclosing
    cases hclosing
  · exact htimer

/-- What an expired timer makes of its connection. -/
theorem find_step_timeout {input : Input} (hevent : input.event = .timeout id)
    (hfind : s.find id = some c)
    (hdue : c.timer.any (· ≤ s.now + input.elapsed) = true) : (step setup s input).find id =
      some ({ c with timer := none }.onTimeout setup.config input.outside
        (s.now + input.elapsed)) := by
  rw [step, hevent, onEvent]
  rw [show ({ s with now := s.now + input.elapsed } : HttpServer π).find id = some c from hfind]
  dsimp only
  rw [if_pos hdue]
  refine (find_modify fun _ => ?_).trans ?_
  · exact keeps_sendResponse.id
  · change (s.find id).map _ = _
    rw [hfind, Option.map_some]

/-- A timer that expires while the response is written leaves the connection without one. -/
theorem not_guarded_of_expires {input : Input} (h : ¬ExpiresUnanswered s input) :
    ¬Guarded (step setup s input) := by
  simp only [ExpiresUnanswered, not_forall, exists_prop] at h
  obtain ⟨id, c, hevent, hfind, hdue, hclosing, hsent⟩ := h
  -- the timer is spent, and no response is sent a second time
  have hspent : ∀ now, { c with timer := none }.onTimeout setup.config input.outside now =
      { c with timer := none, keepAlive := if c.asyncPending then false else c.keepAlive } := by
    intro now
    rw [HttpConnection.onTimeout, HttpConnection.sendResponse]
    exact if_pos (.inr (Bool.not_eq_false _ ▸ hsent))
  have hstep := @find_step_timeout π setup s id c input hevent hfind hdue
  rw [hspent] at hstep
  intro hguarded
  have htimer := hguarded _ (mem_of_find?_eq_some hstep) hclosing
  cases htimer

/-- A run that meets the condition ends with every connection good. -/
theorem good_run {inputs : List Input} (h : Run.Along (step setup) ExpiresUnanswered {} inputs) :
    AllGood (run setup inputs) :=
  Run.foldl_along (I := fun _ => AllGood)
    (fun _ s input hs hexpires =>
      good_onEvent (s := { s with now := s.now + input.elapsed }) hs input.event hexpires)
    (fun _ hc => absurd hc not_mem_nil) h

/-- What an expiry makes of a connection: the timeout response is on its way, as its last one. -/
structure TimedOut (c c' : HttpConnection π) : Prop extends Leaving c' where
  written : c'.writes = c.writes ++
    [(HttpResponse.error .kGatewayTimeout (lit "Request timeout")).serialize
      (c.request.method = lit "HEAD")]

/-- **An expiry before the response answers for the last time**, or closes the connection at
once. -/
theorem timedOut_onTimeout {now : ℕ} (h : Good c) (hopen : c.closing = false)
    (hsent : c.responseSent = false) :
    let c' := { c with timer := none }.onTimeout setup.config out now
    c'.closing = true ∨ TimedOut c c' := by
  dsimp only
  rw [HttpConnection.onTimeout, HttpConnection.sendResponse]
  dsimp only
  rw [if_neg (by rw [hopen, hsent]; simp)]
  split
  · refine .inr ⟨⟨rfl, ?_⟩, rfl⟩
    cases hpending : c.asyncPending with
    | true => rfl
    | false =>
      -- only a connection that awaits its response would be kept
      refine Bool.eq_false_iff.2 fun hkeep => ?_
      have hkept := h.kept hkeep
      rw [hopen, hsent, hpending] at hkept
      simp at hkept
  · exact .inl closing_closeConnection

/-- **Connections and their timers.** In every run the count is the number of connections accepted
and not deleted. Every connection that is not closing has its timer armed after each event exactly
if no timer expires on a connection that is writing its response. In such a run an expiry closes the
connection or sends the timeout response as its last one; a last response closes its connection when
it is written; and a connection that is closing stays so until it is deleted. -/
theorem run_timers (setup : Setup π) (inputs : List Input) :
    (run setup inputs).activeConnections = (run setup inputs).conns.length ∧
      ((∀ before, before <+: inputs → Guarded (run setup before)) ↔
        Run.Along (step setup) ExpiresUnanswered {} inputs) ∧
      (Run.Along (step setup) ExpiresUnanswered {} inputs → ∀ input,
        ExpiresUnanswered (run setup inputs) input → ∀ id c, (run setup inputs).find id = some c →
          (input.event = .timeout id →
            c.timer.any (· ≤ (run setup inputs).now + input.elapsed) = true →
            c.closing = false → Has (step setup (run setup inputs) input) id fun c' =>
              c'.closing = true ∨ TimedOut c c') ∧
          (c.closing = false → Leaving c → Has (step setup (run setup inputs) input) id fun c' =>
            c'.closing = true ∨ Leaving c' ∧ ∀ status, input.event = .writeDone id status →
              c.writes = []) ∧ (c.closing = true → input.event = .timerClosed id ∨
            Has (step setup (run setup inputs) input) id (·.closing = true))) := by
  refine ⟨?_, ⟨?_, ?_⟩, ?_⟩
  · have hsurplus : (run setup inputs).surplus = 0 :=
      List.foldlRecOn (motive := fun s : HttpServer π => s.surplus = 0) inputs _ rfl
        fun s hs input _ =>
        (surplus_onEvent (s := { s with now := s.now + input.elapsed }) input.event).trans hs
    rw [surplus] at hsurplus
    omega
  · intro hguarded
    induction inputs using reverseRecOn with
    | nil => exact trivial
    | append_singleton inputs input ih =>
      have hbefore := ih fun before hbefore => hguarded before (hbefore.trans (prefix_append _ _))
      refine Run.along_append.2 ⟨hbefore, ?_, trivial⟩
      by_contra hexpires
      have hlast := hguarded _ prefix_rfl
      rw [run, foldl_concat] at hlast
      exact not_guarded_of_expires hexpires hlast
  · rintro halong before ⟨after, rfl⟩
    exact guarded_of_good (good_run (Run.along_append.1 halong).1)
  · intro halong input hexpires id c hfind
    have hgood : Good c := good_run halong c (mem_of_find?_eq_some hfind)
    generalize run setup inputs = s at hfind hexpires
    refine ⟨fun hevent hdue hopen => ?_, fun hopen hleaving => ?_, fun hclosing => ?_⟩
    · have hsent := hexpires id c hevent hfind hdue hopen
      exact ⟨_, find_step_timeout hevent hfind hdue, timedOut_onTimeout hgood hopen hsent⟩
    · exact leaving_onEvent (s := { s with now := s.now + input.elapsed }) hgood.toSound hfind hopen
        hleaving input.event
    · exact closing_onEvent (s := { s with now := s.now + input.elapsed })
        ⟨c, hfind, hclosing⟩ input.event

/-- A server with one route and a parser that finds a whole request in every read. -/
def healthSetup : Setup Unit where
  config := {}
  routes := [{ method := lit "GET", path := lit "/v1/health" }]
  llhttpInit := ()
  llhttpExecute := fun _ _ =>
    { callbacks := [(.url (lit "/v1/health"), (), []),
        (.messageComplete (lit "GET") false, (), [])], ending := .ok, parser := () }

/-- A client sends a request and does not read the response until the write timeout expires. -/
def slowReader : List Input :=
  [{ event := .connection true true },
    { event := .read 1 (some (lit "GET /v1/health HTTP/1.1\r\n\r\n")) },
    { elapsed := 10000, event := .timeout 1 }]

/-- The connection stays open, with no timer. -/
theorem not_guarded_slowReader : ¬Guarded (run healthSetup slowReader) := by
  have hstate : ((run healthSetup slowReader).conns.map fun c => (c.closing, c.timer)) =
      [(false, none)] := by
    decide +kernel
  intro hguarded
  obtain ⟨c, hc, hfields⟩ : ∃ c ∈ (run healthSetup slowReader).conns,
      (c.closing, c.timer) = (false, none) :=
    mem_map.1 (hstate ▸ mem_singleton_self _)
  obtain ⟨hclosing, hnone⟩ := Prod.mk.inj hfields
  have htimer := hguarded c hc hclosing
  rw [hnone] at htimer
  cases htimer

end HttpServer

end PageSpeed.Http
