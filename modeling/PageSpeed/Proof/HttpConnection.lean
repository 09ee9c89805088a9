import PageSpeed.Run.Total
import PageSpeed.Spec.HttpServer

/-!
# Connections between events

`Good` is what holds of every connection between events: no read while a response is out, a handle
is closed only once the connection is closing, the timer is armed unless it is, and a connection is
kept only behind a response that is out or awaited. During an event one connection is at work
(`Focused`), and may have its timer stopped.

* `Focused.onMessageComplete`: a message that is complete leaves its connection armed, closing or
  answered.
* `good_onEvent`: every event keeps `Good`, but for a timer that expires while the response is
  written.
-/

namespace PageSpeed.Http

open Wire Choice List HttpConnection

variable {π : Type} {shouldKeepAlive : Bool} {method : Bytes}

/-! ## One connection -/

namespace HttpConnection

variable {config : HttpServerConfig} {out : Outside} {now : ℕ} {response : HttpResponse}
  {c c' : HttpConnection π}

/-- The part that holds also while the timer is stopped. -/
structure Sound (c : HttpConnection π) : Prop where
  reading : c.reading = true → c.responseSent = false
  stage : c.stage ≠ .opened → c.closing = true

/-- The timer is armed, and a connection is kept behind its response only when one is out or
awaited. -/
structure Good (c : HttpConnection π) : Prop extends Sound c where
  guarded : c.closing = true ∨ c.timer.isSome = true
  kept : c.keepAlive = true → c.closing = true ∨ c.responseSent = true ∨ c.asyncPending = true

/-- The members the timer depends on are the same. -/
structure SameControl (c c' : HttpConnection π) : Prop where
  id : c'.id = c.id
  closing : c'.closing = c.closing
  responseSent : c'.responseSent = c.responseSent
  asyncPending : c'.asyncPending = c.asyncPending
  keepAlive : c'.keepAlive = c.keepAlive
  timer : c'.timer = c.timer
  reading : c'.reading = c.reading
  stage : c'.stage = c.stage

/-- `Sound` looks at the control fields only. -/
theorem Sound.of_same (h : Sound c) (hs : SameControl c c') : Sound c' :=
  ⟨by rw [hs.reading, hs.responseSent]; exact h.reading,
    by rw [hs.stage, hs.closing]; exact h.stage⟩

/-- So does `Good`. -/
theorem Good.of_same (h : Good c) (hs : SameControl c c') : Good c' :=
  ⟨h.toSound.of_same hs, by rw [hs.closing, hs.timer]; exact h.guarded,
    by rw [hs.keepAlive, hs.closing, hs.responseSent, hs.asyncPending]; exact h.kept⟩

/-- A closing connection needs nothing more. -/
theorem Good.of_closing (h : Sound c) (hclosing : c.closing = true) : Good c :=
  ⟨h, .inl hclosing, fun _ => .inl hclosing⟩

/-! ### What answers and closes -/

/-- What every change of a connection keeps: its number, and that it is closing. -/
structure Keeps (c c' : HttpConnection π) : Prop where
  id : c'.id = c.id
  closing : c.closing = true → c'.closing = true

theorem SameControl.keeps (h : SameControl c c') : Keeps c c' :=
  ⟨h.id, fun hclosing => by rw [h.closing, hclosing]⟩

theorem closing_closeConnection : c.closeConnection.closing = true := by
  rw [closeConnection]
  split_ifs with hclosing
  · exact hclosing
  · rfl

/-- A close keeps the number, and stays closed. -/
theorem keeps_closeConnection : Keeps c c.closeConnection := by
  refine ⟨?_, fun _ => closing_closeConnection⟩
  rw [closeConnection]
  split <;> rfl

/-- A response keeps the number, and does not open what is closing. -/
theorem keeps_sendResponse : Keeps c (c.sendResponse config out now response) := by
  rw [sendResponse]
  split
  · exact ⟨rfl, fun h => h⟩
  · dsimp only
    split
    · exact ⟨rfl, fun h => h⟩
    · exact ⟨keeps_closeConnection.id, fun h => keeps_closeConnection.closing h⟩

theorem keeps_sendDispatched : Keeps c (c.sendDispatched config out now response) :=
  keeps_sendResponse

/-- So does a late answer. -/
theorem keeps_completeAsync : Keeps c (c.completeAsync config out now response) := by
  rw [completeAsync]
  split
  · exact ⟨rfl, fun h => h⟩
  · exact ⟨keeps_sendDispatched.id, fun h => keeps_sendDispatched.closing h⟩

theorem keeps_awaitAsync : Keeps c (c.awaitAsync config now) := by
  rw [awaitAsync]
  split <;> exact ⟨rfl, fun h => h⟩

/-- A closed connection is good. -/
theorem Good.closeConnection (h : Sound c) : Good c.closeConnection := by
  by_cases hclosing : c.closing = true
  · rw [HttpConnection.closeConnection, if_pos hclosing]
    exact .of_closing h hclosing
  · rw [HttpConnection.closeConnection, if_neg hclosing]
    exact .of_closing ⟨nofun, fun _ => rfl⟩ rfl

/-- A response arms the timer, unless one is out already. -/
theorem Good.sendResponse (h : Sound c) (hsent : c.responseSent = false ∨ Good c) :
    Good (c.sendResponse config out now response) := by
  rw [HttpConnection.sendResponse]
  split_ifs with hskip
  · rcases hsent with hfalse | hgood
    · rcases hskip with hclosing | hsent
      · exact .of_closing h hclosing
      · rw [hfalse] at hsent
        cases hsent
    · exact hgood
  · have hsound : Sound { c with
        responseSent := true, reading := false,
        timer := some (now + config.requestTimeoutMs) } :=
      ⟨nofun, h.stage⟩
    dsimp only
    split
    · exact ⟨⟨nofun, h.stage⟩, .inr rfl, fun _ => .inr (.inl rfl)⟩
    · exact Good.closeConnection hsound

/-- So is one that is answered. -/
theorem Good.sendDispatched (h : Sound c) (hsent : c.responseSent = false ∨ Good c) :
    Good (c.sendDispatched config out now response) :=
  Good.sendResponse h hsent

/-- A responder finds nothing to do, or answers. -/
theorem completeAsync_cases (h : Sound c) : c.completeAsync config out now response = c ∨
    Good (c.completeAsync config out now response) := by
  rw [HttpConnection.completeAsync]
  by_cases hskip : c.closing ∨ c.responseSent ∨ c.asyncPending = false
  · exact .inl (if_pos hskip)
  · rw [if_neg hskip]
    have hsent : c.responseSent = false :=
      Bool.eq_false_iff.2 fun hsent => hskip (.inr (.inl hsent))
    exact .inr (Good.sendDispatched ⟨h.reading, h.stage⟩ (.inl hsent))

/-- So is one that waits for its handler. -/
theorem Good.awaitAsync (h : Sound c) (hpending : c.asyncPending = true ∨ Good c) :
    Good (c.awaitAsync config now) := by
  rw [HttpConnection.awaitAsync]
  split_ifs with hasync
  · exact ⟨⟨nofun, h.stage⟩, .inr rfl, fun _ => .inr (.inr hasync)⟩
  · exact hpending.resolve_left hasync

/-- So is one that became a WebSocket. -/
theorem Good.detachConnection (h : Sound c) : Good (c.detachConnection out) := by
  rw [HttpConnection.detachConnection]
  by_cases hclosing : c.closing = true
  · rw [if_pos hclosing]
    exact .of_closing h hclosing
  · rw [if_neg hclosing]
    dsimp only
    split
    · exact .of_closing ⟨nofun, fun _ => rfl⟩ rfl
    · refine Good.closeConnection ⟨nofun, fun hstage => ?_⟩
      exact absurd (h.stage hstage) hclosing

theorem Good.restartBodyTimer (h : Good c) : Good (c.restartBodyTimer config now) := by
  rw [HttpConnection.restartBodyTimer]
  split
  · exact ⟨⟨h.reading, h.stage⟩, .inr rfl, h.kept⟩
  · exact h

theorem keeps_restartBodyTimer : Keeps c (c.restartBodyTimer config now) := by
  rw [HttpConnection.restartBodyTimer]
  split <;> exact ⟨rfl, fun h => h⟩

/-! ### Callbacks of the parser -/

/-- Headers are stored without touching the control fields. -/
theorem sameControl_storeHeader : SameControl c c.storeHeader := by
  rw [storeHeader]
  split <;> constructor <;> rfl

variable {text : Bytes}

theorem sameControl_onUrl : SameControl c (c.onUrl config text).2 := by
  constructor <;> rfl

theorem sameControl_onHeaderField : SameControl c (c.onHeaderField config text).2 := by
  rw [onHeaderField]
  dsimp only
  split
  · constructor <;> rfl
  · split
    · have hstore := sameControl_storeHeader
        (c := { c with totalHeaderBytes := c.totalHeaderBytes + text.length })
      exact { hstore with }
    · constructor <;> rfl

theorem sameControl_onHeaderValue : SameControl c (c.onHeaderValue config text).2 := by
  rw [onHeaderValue]
  dsimp only
  split <;> constructor <;> rfl

/-- So is the body. -/
theorem sameControl_onBody : SameControl c (c.onBody config text).2 := by
  rw [onBody]
  split <;> constructor <;> rfl

/-- A connection whose response is still to come. -/
structure Receiving (c : HttpConnection π) : Prop extends Sound c where
  unanswered : c.responseSent = false

theorem Receiving.of_same (h : Receiving c) (hs : SameControl c c') : Receiving c' :=
  ⟨h.toSound.of_same hs, by rw [hs.responseSent]; exact h.unanswered⟩

theorem keeps_detachConnection : Keeps c (c.detachConnection out) := by
  rw [detachConnection]
  by_cases hclosing : c.closing = true
  · rw [if_pos hclosing]
    exact ⟨rfl, fun h => h⟩
  · rw [if_neg hclosing]
    dsimp only
    split
    · exact ⟨rfl, fun _ => rfl⟩
    · exact ⟨keeps_closeConnection.id, fun h => absurd h hclosing⟩

/-- Preparing a request keeps the connection's number. -/
theorem keeps_prepareMessage {hasUpgradeHandler : Bool} :
    Keeps c (c.prepareMessage config out now hasUpgradeHandler method shouldKeepAlive).2 := by
  have hstore : Keeps c c.storeHeader := sameControl_storeHeader.keeps
  rw [HttpConnection.prepareMessage]
  generalize c.storeHeader = d at hstore
  -- a step that keeps its connection can follow
  have hthen : ∀ {d' d'' : HttpConnection π}, d'.id = d.id → d'.closing = d.closing → Keeps d' d'' →
      Keeps c d'' :=
    fun hid hclosing hk =>
      ⟨hk.id.trans (hid.trans hstore.id), fun h => hk.closing (hclosing.trans (hstore.closing h))⟩
  dsimp only
  split
  · exact hthen (by rfl) (by rfl) keeps_sendResponse
  split
  · exact hthen (by rfl) (by rfl) keeps_sendResponse
  split
  · split
    · exact hthen (by rfl) (by rfl) keeps_sendResponse
    · exact hthen (by rfl) (by rfl) keeps_detachConnection
  · exact ⟨hstore.id, hstore.closing⟩

/-- Either the message is answered or handed over here, or it goes on to the dispatch. -/
theorem Receiving.prepareMessage (h : Receiving c) (hasUpgradeHandler : Bool) (method : Bytes)
    (shouldKeepAlive : Bool) :
    ∃ goOn c', c.prepareMessage config out now hasUpgradeHandler method shouldKeepAlive =
      (goOn, c') ∧ (goOn = true → Receiving c') ∧ (goOn = false → Good c') := by
  have hstore : Receiving c.storeHeader := h.of_same sameControl_storeHeader
  rw [HttpConnection.prepareMessage]
  generalize c.storeHeader = d at hstore
  have hsound : Sound d := hstore.toSound
  -- the answers given here are all sent by a connection that has not answered yet
  have hanswer : ∀ (d' : HttpConnection π) (response : HttpResponse), Sound d' →
    d'.responseSent = d.responseSent →
      ∃ goOn c', (false, d'.sendResponse config out now response) = (goOn, c') ∧
        (goOn = true → Receiving c') ∧ (goOn = false → Good c') := by
    intro d' response hsound' hsent'
    refine ⟨_, _, rfl, nofun, fun _ => Good.sendResponse hsound' (.inl ?_)⟩
    rw [hsent', hstore.unanswered]
  dsimp only
  split
  · exact hanswer _ _ (by exact ⟨hsound.reading, hsound.stage⟩) (by rfl)
  split
  · exact hanswer _ _ (by exact ⟨hsound.reading, hsound.stage⟩) (by rfl)
  split
  · split
    · exact hanswer _ _ (by exact ⟨hsound.reading, hsound.stage⟩) (by rfl)
    · refine ⟨_, _, rfl, nofun, fun _ => Good.detachConnection ?_⟩
      exact ⟨hsound.reading, hsound.stage⟩
  · exact ⟨_, _, rfl, fun _ => ⟨⟨hsound.reading, hsound.stage⟩, hstore.unanswered⟩, nofun⟩

end HttpConnection

/-! ## One event -/

namespace HttpServer

open HttpConnection (Sound Good Receiving SameControl Keeps)

variable {setup : Setup π} {out : Outside} {s : HttpServer π} {id : ℕ}
  {Q Q' : HttpConnection π → Prop}

/-- The connection at work and the others. -/
structure Focused (s : HttpServer π) (id : ℕ) (Q : HttpConnection π → Prop) : Prop where
  own : ∀ c, s.find id = some c → Q c
  others : ∀ c ∈ s.conns.eraseP (·.id = id), Good c

open Focused

/-- What holds between events. -/
def AllGood (s : HttpServer π) : Prop := ∀ c ∈ s.conns, Good c

/-- If all are good, so are the others and the one in focus. -/
theorem Focused.of_forall (id : ℕ) (h : AllGood s) : Focused s id Good :=
  ⟨fun _ hc => h _ (mem_of_find?_eq_some hc), fun _ hc => h _ (mem_of_mem_eraseP hc)⟩

variable {c : HttpConnection π}

theorem id_of_find (h : s.find id = some c) : c.id = id := by
  have hid : decide (c.id = id) = true :=
    find?_some (p := fun d : HttpConnection π => decide (d.id = id)) h
  exact of_decide_eq_true hid

theorem Focused.of_find (h : AllGood s) (hfind : s.find id = some c) :
    Focused s id fun d => d = c ∧ Good d :=
  ⟨fun d hd => ⟨Option.some.inj (hd.symm.trans hfind), h d (mem_of_find?_eq_some hd)⟩,
    (of_forall id h).others⟩

/-- And conversely. -/
theorem Focused.forall (h : Focused s id Good) : AllGood s := by
  intro c hc
  rcases find?_or_mem_eraseP (p := (·.id = id)) hc with hfind | hrest
  · exact h.own c hfind
  · exact h.others c hrest

theorem Focused.mono (h : Focused s id Q) (hQ : ∀ c, Q c → Q' c) : Focused s id Q' :=
  ⟨fun c hc => hQ c (h.own c hc), h.others⟩

variable {f : HttpConnection π → HttpConnection π} {callbacks : List (Callback × π × Bytes)}
  {ending : Errno}

/-- The changed connection is found. -/
theorem find_modify (hid : ∀ c, (f c).id = c.id) : (s.modify id f).find id = (s.find id).map f := by
  refine find?_updateFirst_self (fun c hc => ?_) s.conns
  rw [hid]
  exact hc

/-- The connection at work is changed. -/
theorem Focused.modify (h : Focused s id Q) (hid : ∀ c, (f c).id = c.id)
    (hf : ∀ c, Q c → Q' (f c)) : Focused (s.modify id f) id Q' := by
  refine ⟨fun c hc => ?_, fun c hc => ?_⟩
  · rw [find_modify hid, Option.map_eq_some_iff] at hc
    obtain ⟨d, hd, rfl⟩ := hc
    exact hf d (h.own d hd)
  · rw [HttpServer.modify, eraseP_updateFirst_self fun d hd => by rw [hid]; exact hd] at hc
    exact h.others c hc

/-- Another one is found as it was. -/
theorem find_modify_other {id' : ℕ} (hne : id' ≠ id) (hid : ∀ c, (f c).id = c.id) :
    (s.modify id' f).find id = s.find id := by
  have hother : ∀ c : HttpConnection π, decide (c.id = id') = true →
      ¬decide (c.id = id) = true := by
    intro c hc hc'
    exact hne ((of_decide_eq_true hc).symm.trans (of_decide_eq_true hc'))
  rw [find, HttpServer.modify, ← head?_filter, filter_updateFirst_of_disjoint hother ?_,
    head?_filter]
  · rfl
  · intro c hc
    rw [hid]
    exact hother c hc

/-- Another connection is changed. -/
theorem Focused.modify_other (h : Focused s id Q) {id' : ℕ} (hne : id' ≠ id)
    (hid : ∀ c, (f c).id = c.id) (hf : ∀ c, Good c → Good (f c)) :
    Focused (s.modify id' f) id Q := by
  have hother : ∀ c : HttpConnection π, decide (c.id = id') = true →
      ¬decide (c.id = id) = true := by
    intro c hc hc'
    exact hne ((of_decide_eq_true hc).symm.trans (of_decide_eq_true hc'))
  have hother' : ∀ c : HttpConnection π, decide (c.id = id') = true →
      ¬decide ((f c).id = id) = true := by
    intro c hc
    rw [hid]
    exact hother c hc
  refine ⟨fun c hc => ?_, fun c hc => ?_⟩
  · rw [find_modify_other hne hid] at hc
    exact h.own c hc
  · rw [HttpServer.modify, eraseP_updateFirst hother hother'] at hc
    refine forall_mem_updateFirst h.others (fun d hd => hf d (h.others d ?_)) c hc
    exact mem_of_find?_eq_some hd

/-- A responder is called: `Q` holds of the connection at work until the response is sent. -/
theorem Focused.completeAsync (h : Focused s id Q) (hsound : ∀ c, Q c → Sound c)
    (hgood : ∀ c, Good c → Q c) (id' : ℕ)
    (response : HttpResponse) : Focused (completeAsync setup out id' response s) id Q := by
  rw [HttpServer.completeAsync]
  split
  · by_cases hne : id' = id
    · subst hne
      refine h.modify (fun c => keeps_completeAsync.id) fun c hc => ?_
      rcases completeAsync_cases (hsound c hc) with heq | hdone
      · rw [heq]
        exact hc
      · exact hgood _ hdone
    · refine h.modify_other hne (fun c => keeps_completeAsync.id) fun c hc => ?_
      rcases completeAsync_cases hc.toSound with heq | hdone
      · rw [heq]
        exact hc
      · exact hdone
  · exact h

/-- The calls of a handler answer other connections too. -/
theorem Focused.runCalls (h : Focused s id Q) (hsound : ∀ c, Q c → Sound c)
    (hgood : ∀ c, Good c → Q c) (run : HandlerRun) : Focused (runCalls setup out run s) id Q :=
  List.foldlRecOn (motive := fun s => Focused s id Q) run.calls _ h fun _ hs call _ =>
    hs.completeAsync hsound hgood call.1 call.2

/-- **The dispatch answers the message or waits for the answer.** -/
theorem Focused.dispatchMessage (h : Focused s id Receiving) (request : HttpRequest) :
    Focused (dispatchMessage setup out id request s) id Good := by
  rw [HttpServer.dispatchMessage]
  cases dispatchRequest setup.config setup.routes request with
  | respond response =>
    exact h.modify (fun c => keeps_sendDispatched.id) fun c hc =>
      Good.sendDispatched hc.toSound (.inl hc.unanswered)
  | handler index isAsync =>
    -- until the handler returns the connection is unanswered (and marked, when the handler is
    -- asynchronous) or done with
    have hcalls : Focused (HttpServer.runCalls setup out (out.handler index request)
          (if isAsync then s.modify id fun c => { c with asyncPending := true } else s)) id
        fun c => Sound c ∧ (c.responseSent = false ∧ (isAsync = true → c.asyncPending = true) ∨
          Good c) := by
      refine runCalls ?_ (fun c hc => hc.1) (fun c hc => ⟨hc.toSound, .inr hc⟩) _
      cases isAsync with
      | true =>
        exact h.modify (fun _ => rfl) fun c hc =>
          ⟨⟨hc.reading, hc.stage⟩, .inl ⟨hc.unanswered, fun _ => rfl⟩⟩
      | false => exact h.mono fun c hc => ⟨hc.toSound, .inl ⟨hc.unanswered, nofun⟩⟩
    dsimp only
    generalize HttpServer.runCalls setup out (out.handler index request)
      (if isAsync then s.modify id fun c => { c with asyncPending := true } else s) = t at hcalls
    by_cases hthrows : (out.handler index request).throws = true
    · rw [if_pos hthrows]
      refine hcalls.modify (fun c => keeps_sendDispatched.id) fun c hc => ?_
      refine Good.sendDispatched ⟨hc.1.reading, hc.1.stage⟩ ?_
      by_cases hsent : c.responseSent = true
      · have hgood : Good c :=
          hc.2.resolve_left fun hunsent => absurd (hunsent.1.symm.trans hsent) nofun
        exact .inr ⟨⟨hgood.reading, hgood.stage⟩, hgood.guarded, fun _ => .inr (.inl hsent)⟩
      · exact .inl (Bool.eq_false_iff.2 hsent)
    rw [if_neg hthrows]
    cases isAsync with
    | true =>
      rw [if_pos rfl]
      exact hcalls.modify (fun c => keeps_awaitAsync.id) fun c hc =>
        Good.awaitAsync hc.1 (hc.2.imp_left fun hpending => hpending.2 rfl)
    | false =>
      rw [if_neg nofun]
      exact hcalls.modify (fun c => keeps_sendDispatched.id) fun c hc =>
        Good.sendDispatched hc.1 (hc.2.imp_left And.left)

/-- **A message that is complete leaves its connection guarded.** -/
theorem Focused.onMessageComplete (h : Focused s id Receiving) (method : Bytes)
    (shouldKeepAlive : Bool) :
    Focused (onMessageComplete setup out id method shouldKeepAlive s) id Good := by
  rw [HttpServer.onMessageComplete]
  cases hfind : s.find id with
  | none => exact ⟨fun c hc => absurd hc (by rw [hfind]; nofun), h.others⟩
  | some c =>
    obtain ⟨goOn, c', hprepare, hgoOn, hdone⟩ : ∃ goOn c',
        c.prepareMessage setup.config out s.now setup.hasUpgradeHandler method shouldKeepAlive =
          (goOn, c') ∧ (goOn = true → Receiving c') ∧ (goOn = false → Good c') :=
      (h.own c hfind).prepareMessage setup.hasUpgradeHandler method shouldKeepAlive
    have hfocus : Focused s id (· = c) :=
      ⟨fun d hd => Option.some.inj (hd.symm.trans hfind), h.others⟩
    dsimp only
    rw [hprepare]
    cases goOn with
    | true =>
      rw [if_pos rfl]
      refine dispatchMessage (hfocus.modify (fun _ => keeps_prepareMessage.id) ?_) _
      rintro d rfl
      rw [hprepare]
      exact hgoOn rfl
    | false =>
      rw [if_neg nofun]
      refine hfocus.modify (fun _ => keeps_prepareMessage.id) ?_
      rintro d rfl
      rw [hprepare]
      exact hdone rfl

/-- A connection that is guarded and not answered yet. -/
def Ready (c : HttpConnection π) : Prop := Receiving c ∧ Good c

theorem Ready.of_same {c c' : HttpConnection π} (h : Ready c) (hs : SameControl c c') : Ready c' :=
  ⟨h.1.of_same hs, h.2.of_same hs⟩

/-- A callback that changes nothing the timer depends on. -/
theorem Focused.onConn (h : Focused s id Ready) {f : HttpConnection π → Errno × HttpConnection π}
    (hf : ∀ c, SameControl c (f c).2) : Focused (onConn id f s).2 id Ready := by
  rw [HttpServer.onConn]
  cases s.find id with
  | none => exact h
  | some c => exact h.modify (fun c => (hf c).id) fun c hc => hc.of_same (hf c)

/-- A callback that lets the parser go on leaves the connection as it was. -/
theorem Focused.callback (h : Focused s id Ready) (cb : Callback) :
    Focused (callback setup out id s cb).2 id Good ∧
      ((callback setup out id s cb).1 = .ok → Focused (callback setup out id s cb).2 id Ready) := by
  have hconn : ∀ {f : HttpConnection π → Errno × HttpConnection π}, (∀ c, SameControl c (f c).2) →
      Focused (HttpServer.onConn id f s).2 id Good ∧
        ((HttpServer.onConn id f s).1 = .ok → Focused (HttpServer.onConn id f s).2 id Ready) := by
    intro f hf
    have hready := h.onConn hf
    exact ⟨hready.mono fun c hc => hc.2, fun _ => hready⟩
  cases cb with
  | url text => exact hconn fun c => sameControl_onUrl
  | headerField text => exact hconn fun c => sameControl_onHeaderField
  | headerValue text => exact hconn fun c => sameControl_onHeaderValue
  | body text => exact hconn fun c => sameControl_onBody
  | messageComplete method shouldKeepAlive =>
    exact ⟨(h.mono fun c hc => hc.1).onMessageComplete method shouldKeepAlive, nofun⟩

/-- The callbacks of a read leave the connection good. -/
theorem Focused.runCallbacks {parser : π} :
    ∀ {s : HttpServer π}, Focused s id Ready →
      Focused (runCallbacks setup out id ending parser callbacks s).2 id Good := by
  induction callbacks with
  | nil => exact fun h => h.mono fun c hc => hc.2
  | cons entry callbacks ih =>
    intro s h
    obtain ⟨cb, p, rest⟩ := entry
    have hcallback : Focused (HttpServer.callback setup out id s cb).2 id Good ∧
        ((HttpServer.callback setup out id s cb).1 = .ok →
          Focused (HttpServer.callback setup out id s cb).2 id Ready) :=
      h.callback cb
    rw [HttpServer.runCallbacks]
    generalize HttpServer.callback setup out id s cb = result at hcallback
    obtain ⟨errno, t⟩ := result
    cases errno with
    | ok => exact ih (hcallback.2 rfl)
    | paused => exact hcallback.1
    | error => exact hcallback.1

/-- A read leaves the connection good. -/
theorem Focused.execute (h : Focused s id Ready) (data : Bytes) :
    Focused (execute setup out id data s).2.2 id Good := by
  rw [HttpServer.execute]
  cases hfind : s.find id with
  | none => exact h.mono fun c hc => hc.2
  | some c =>
    exact h.runCallbacks.modify (fun _ => rfl) fun c hc => hc.of_same (by constructor <;> rfl)

theorem Focused.savePending (h : Focused s id Good) (rest : Bytes) :
    Focused (savePending id rest s) id Good := by
  rw [HttpServer.savePending]
  split
  · exact h.modify (fun _ => rfl) fun c hc => hc.of_same (by constructor <;> rfl)
  · exact h

theorem Focused.sendResponse (h : Focused s id Good) {now : ℕ} (response : HttpResponse) :
    Focused (s.modify id (HttpConnection.sendResponse setup.config out now response)) id Good :=
  h.modify (fun _ => keeps_sendResponse.id) fun _ hc => Good.sendResponse hc.toSound (.inr hc)

/-- **A read.** -/
theorem Focused.onRead (h : Focused s c.id Ready) (data : Option Bytes) :
    Focused (onRead setup out c data s) c.id Good := by
  have hgood : Focused s c.id Good := h.mono fun _ hc => hc.2
  cases data with
  | none =>
    exact hgood.modify (fun _ => keeps_closeConnection.id) fun _ hc =>
      Good.closeConnection hc.toSound
  | some data =>
    rw [HttpServer.onRead]
    split
    · exact hgood
    split
    · exact hgood.sendResponse _
    have hexecute : Focused (HttpServer.execute setup out c.id data s).2.2 c.id Good :=
      h.execute data
    generalize HttpServer.execute setup out c.id data s = result at hexecute
    obtain ⟨errno, rest, t⟩ := result
    cases errno with
    | ok =>
      refine hexecute.modify (fun d => ?_) fun d hd => hd.restartBodyTimer
      rw [HttpConnection.restartBodyTimer]
      split <;> rfl
    | paused => exact hexecute.savePending rest
    | error => exact hexecute.sendResponse _

theorem good_resumeReading (h : Good c) : Good (resumeReading c) := by
  rw [HttpServer.resumeReading]
  split_ifs with hsent
  · exact h
  · exact ⟨⟨fun _ => Bool.eq_false_iff.2 hsent, h.stage⟩, h.guarded, h.kept⟩

theorem keeps_resumeReading : Keeps c (resumeReading c) := by
  rw [resumeReading]
  split <;> exact ⟨rfl, fun h => h⟩

/-- So do bytes that had waited. -/
theorem Focused.replayPending (h : Focused s id Ready) (data : Bytes) :
    Focused (replayPending setup out id data s) id Good := by
  have hready : Focused (s.modify id fun c => { c with pendingData := [] }) id Ready :=
    h.modify (fun _ => rfl) fun c hc => hc.of_same (by constructor <;> rfl)
  have hexecute : Focused (HttpServer.execute setup out id data
    (s.modify id fun c => { c with pendingData := [] })).2.2 id
      Good := hready.execute data
  rw [HttpServer.replayPending]
  generalize HttpServer.execute setup out id data _ = result at hexecute
  obtain ⟨errno, rest, t⟩ := result
  cases errno with
  | ok => exact hexecute.modify (fun _ => keeps_resumeReading.id) fun c hc => good_resumeReading hc
  | paused => exact hexecute.savePending rest
  | error =>
    refine hexecute.modify (fun c => ?_) fun c hc => ?_
    · split
      · exact keeps_resumeReading.id
      · exact keeps_sendResponse.id
    · split
      · exact good_resumeReading hc
      · exact Good.sendResponse hc.toSound (.inr hc)

/-- **A write completion.** -/
theorem Focused.onWriteDone (hfind : s.find c.id = some c) (h : Focused s c.id Good)
    (status : Bool) :
    Focused (onWriteDone setup out c status s) c.id Good := by
  have hfocus : Focused s c.id fun d => d = c ∧ Good d :=
    ⟨fun d hd => ⟨Option.some.inj (hd.symm.trans hfind), h.own d hd⟩, h.others⟩
  have hwrites : Focused (s.modify c.id fun c => { c with writes := c.writes.tail }) c.id Good :=
    hfocus.modify (fun _ => rfl) fun d hd => hd.2.of_same (by constructor <;> rfl)
  rw [HttpServer.onWriteDone]
  dsimp only
  generalize s.modify c.id (fun c => { c with writes := c.writes.tail }) = t at hwrites
  split
  · exact hwrites
  have hstopped : Focused (t.modify c.id fun c => { c with timer := none }) c.id Sound :=
    hwrites.modify (fun _ => rfl) fun d hd => ⟨hd.reading, hd.stage⟩
  generalize t.modify c.id (fun c => { c with timer := none }) = u at hstopped
  split
  · exact hstopped.modify (fun _ => keeps_closeConnection.id) fun _ hd => Good.closeConnection hd
  have hreset : Focused (u.modify c.id (HttpConnection.resetForNextRequest setup.config u.now))
      c.id Ready :=
    hstopped.modify (fun _ => rfl) fun d hd =>
      have hsound : Sound (d.resetForNextRequest setup.config u.now) := ⟨fun _ => rfl, hd.stage⟩
      ⟨⟨hsound, rfl⟩, ⟨hsound, .inr rfl, nofun⟩⟩
  split
  · exact hreset.replayPending _
  · exact hreset.modify (fun _ => keeps_resumeReading.id) fun d hd => good_resumeReading hd.2

/-- No timer expires on a connection that is writing its response. -/
def ExpiresUnanswered (s : HttpServer π) (input : Input) : Prop :=
  ∀ id c, input.event = .timeout id → s.find id = some c →
    c.timer.any (· ≤ s.now + input.elapsed) = true → c.closing = false → c.responseSent = false

/-- A new connection is good from the start. -/
theorem good_onConnection (h : AllGood s) (status accepted : Bool) :
    AllGood (onConnection setup status accepted s) := by
  rw [onConnection]
  split
  · exact h
  · exact forall_mem_append.2 ⟨h, forall_mem_singleton.2
      ⟨⟨fun _ => rfl, fun hstage => absurd rfl hstage⟩, .inr rfl, nofun⟩⟩

/-- Stopping closes them all. -/
theorem good_stop (h : AllGood s) : AllGood (stop s) := by
  rw [stop]
  split
  · refine List.foldlRecOn (motive := AllGood) s.connections _ h ?_
    intro t ht id _
    refine ((of_forall id ht).modify (fun _ => ?_) fun c hc => ?_).forall
    · exact keeps_closeConnection.id
    refine Good.closeConnection ⟨fun hreading => hc.reading ?_, hc.stage⟩
    exact (Bool.and_eq_true_iff.1 hreading).2
  · exact h

/-- A timer that expires before the response sends one. -/
theorem good_onTimeout {now : ℕ} (h : Good c) (hsent : c.closing = false → c.responseSent = false) :
    Good ({ c with timer := none }.onTimeout setup.config out now) := by
  rw [HttpConnection.onTimeout]
  refine Good.sendResponse ⟨h.reading, h.stage⟩ ?_
  by_cases hclosing : c.closing = true
  · exact .inr (.of_closing ⟨h.reading, h.stage⟩ hclosing)
  · exact .inl (hsent (Bool.eq_false_iff.2 hclosing))

/-- An event that needs its connection in some condition. -/
theorem guard_of_find {P : HttpConnection π → Prop} [DecidablePred P]
    {f : HttpConnection π → HttpServer π}
    {R : HttpServer π → Prop} (hs : R s) (h : ∀ c, s.find id = some c → P c → R (f c)) :
    R (match s.find id with
      | some c => if P c then f c else s
      | none => s) := by
  cases hfind : s.find id with
  | none => exact hs
  | some c =>
    dsimp only
    split
    · rename_i hP
      exact h c hfind hP
    · exact hs

/-- **Every event keeps the connections guarded**, but for a timer that expires while the response
is written. -/
theorem good_onEvent (h : AllGood s) (event : Event)
    (hexpire : ∀ id c, event = .timeout id → s.find id = some c → c.timer.any (· ≤ s.now) = true →
      c.closing = false → c.responseSent = false) : AllGood (onEvent setup out s event) := by
  cases event with
  | connection status accepted =>
    rw [onEvent]
    split
    · exact good_onConnection h status accepted
    · exact h
  | read id data =>
    refine guard_of_find (R := AllGood) h fun c hfind hreading => ?_
    obtain rfl : c.id = id := id_of_find hfind
    refine (Focused.onRead ((Focused.of_find h hfind).mono ?_) data).forall
    -- a connection that reads has not answered
    rintro d ⟨rfl, hgood⟩
    exact ⟨⟨hgood.toSound, hgood.reading hreading⟩, hgood⟩
  | writeDone id status =>
    refine guard_of_find (R := AllGood) h fun c hfind _ => ?_
    obtain rfl : c.id = id := id_of_find hfind
    exact (Focused.onWriteDone hfind (Focused.of_forall c.id h) status).forall
  | timeout id =>
    refine guard_of_find (R := AllGood) h fun c hfind hdue => ?_
    refine ((of_find h hfind).modify (fun d => ?_) ?_).forall
    · exact keeps_sendResponse.id
    · rintro d ⟨rfl, hgood⟩
      exact good_onTimeout hgood (hexpire id d rfl hfind hdue)
  | handleClosed id =>
    refine guard_of_find (R := AllGood) h fun c hfind hclosed => ?_
    refine ((of_find h hfind).modify (fun d => ?_) ?_).forall
    · rfl
    rintro d ⟨rfl, hgood⟩
    have hclosing : d.closing = true := hgood.stage (by rw [hclosed.1]; nofun)
    exact .of_closing ⟨hgood.reading, fun _ => hclosing⟩ hclosing
  | timerClosed id =>
    exact guard_of_find (R := AllGood) h fun c _ _ d hd => h d (mem_of_mem_eraseP hd)
  | respond id response =>
    exact ((of_forall id h).completeAsync (fun _ hc => hc.toSound)
      (fun _ hc => hc) id response).forall
  | stop => exact good_stop h

end HttpServer

end PageSpeed.Http
