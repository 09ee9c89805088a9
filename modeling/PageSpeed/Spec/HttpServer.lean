import PageSpeed.Choice.First
import PageSpeed.Spec.HttpMessages

/-!
# The management API server

`HttpServer` of `src/worker/http_server.cc` as a machine over the callbacks of libuv: a connection
from its accept to its deletion, with the timer, the read and the writes libuv keeps for it. The
parser is a parameter: a run over some bytes is a list of callbacks, and how it ends.

A timer is one-shot: it is no longer armed when its callback runs. A handle is closed in a later
turn of the loop, after the callbacks of its writes.
-/

namespace PageSpeed.Http

open Wire

/-! ## The parser and the world outside -/

/-- A call from the parser into the server. -/
inductive Callback
  | url (text : Bytes)
  | headerField (text : Bytes)
  | headerValue (text : Bytes)
  | body (text : Bytes)
  | messageComplete (method : Bytes) (shouldKeepAlive : Bool)

/-- The result of a callback and of a run of the parser. -/
inductive Errno
  | ok
  | paused
  | error
  deriving DecidableEq

/-- A run of llhttp over some bytes. With each callback come the state it is resumed from and the
bytes not consumed if the callback pauses it. -/
structure Parse (π : Type) where
  callbacks : List (Callback × π × Bytes)
  ending : Errno
  parser : π

/-- What stays the same while the server runs. The parser is a parameter. -/
structure Setup (π : Type) where
  config : HttpServerConfig
  routes : List Route
  hasUpgradeHandler : Bool := false
  llhttpInit : π
  llhttpExecute : π → Bytes → Parse π

/-- What a handler does: the responders it calls, of any request it was given, and whether it
throws. -/
structure HandlerRun where
  calls : List (ℕ × HttpResponse) := []
  throws : Bool := false
  response : HttpResponse := {}

/-- What the calls out of the server return during an event. -/
structure Outside where
  handler : ℕ → HttpRequest → HandlerRun := fun _ _ => {}
  writeOk : ℕ → Bool := fun _ => true
  duplicateOk : Bool := true

/-! ## Connections -/

/-- How far a connection is on its way to deletion. -/
inductive Stage
  | opened
  | handleClosing
  | timerClosing
  deriving DecidableEq

/-- A connection, with the bytes that are on their way to the client. -/
structure HttpConnection (π : Type) where
  id : ℕ
  parser : π
  request : HttpRequest := {}
  closing : Bool := false
  responseSent : Bool := false
  asyncPending : Bool := false
  deadlineMs : ℕ
  keepAlive : Bool := false
  requestsServed : ℕ := 0
  pendingData : Bytes := []
  currentHeaderField : Bytes := []
  currentHeaderValue : Bytes := []
  buildingHeaderValue : Bool := false
  totalHeaderBytes : ℕ := 0
  /-- The time at which the armed timer expires. -/
  timer : Option ℕ
  reading : Bool := true
  writes : List Bytes := []
  stage : Stage := .opened

variable {π : Type}

namespace HttpConnection

/-- The handle is being closed; from now on no timer and no read. -/
def closeConnection (c : HttpConnection π) : HttpConnection π :=
  if c.closing then c
  else { c with closing := true, reading := false, timer := none, stage := .handleClosing }

variable (config : HttpServerConfig) (out : Outside) (now : ℕ)

/-- A response is sent at most once. A write that fails closes the connection. -/
def sendResponse (response : HttpResponse) (c : HttpConnection π) : HttpConnection π :=
  if c.closing ∨ c.responseSent then c
  else
    let c := { c with
      responseSent := true, reading := false, timer := some (now + config.requestTimeoutMs) }
    if out.writeOk c.id then
      { c with writes := c.writes ++ [response.serialize (c.request.method = lit "HEAD")] }
    else c.closeConnection

/-- The socket goes to the upgrade handler when it could be duplicated. -/
def detachConnection (c : HttpConnection π) : HttpConnection π :=
  if c.closing then c
  else
    let c := { c with closing := true, reading := false, timer := none }
    if out.duplicateOk then { c with stage := .handleClosing }
    else { c with closing := false }.closeConnection

/-- The header read so far goes into the request. -/
def storeHeader (c : HttpConnection π) : HttpConnection π :=
  if c.buildingHeaderValue then
    let field := c.currentHeaderField.map lowerChar
    { c with
      request := { c.request with headers := assign c.request.headers field c.currentHeaderValue }
      currentHeaderField := field, buildingHeaderValue := false }
  else c

/-- A further part of the URL. -/
def onUrl (text : Bytes) (c : HttpConnection π) : Errno × HttpConnection π :=
  let url := c.request.rawUrl ++ text
  (if config.maxUrlLength < url.length then .error else .ok,
    { c with request := { c.request with rawUrl := url } })

/-- A further part of a header name; the header before it is complete. -/
def onHeaderField (text : Bytes) (c : HttpConnection π) : Errno × HttpConnection π :=
  let c := { c with totalHeaderBytes := c.totalHeaderBytes + text.length }
  if config.maxHeaderBytes < c.totalHeaderBytes then (.error, c)
  else
    let c :=
      if c.buildingHeaderValue then
        { c.storeHeader with currentHeaderField := [], currentHeaderValue := [] }
      else c
    (.ok, { c with currentHeaderField := c.currentHeaderField ++ text })

/-- A further part of a header value. -/
def onHeaderValue (text : Bytes) (c : HttpConnection π) : Errno × HttpConnection π :=
  let c := { c with totalHeaderBytes := c.totalHeaderBytes + text.length }
  if config.maxHeaderBytes < c.totalHeaderBytes then (.error, c)
  else
    (.ok, { c with
      currentHeaderValue := c.currentHeaderValue ++ text, buildingHeaderValue := true })

/-- A further part of the body. -/
def onBody (text : Bytes) (c : HttpConnection π) : Errno × HttpConnection π :=
  if config.maxRequestBody < text.length ∨
      config.maxRequestBody - text.length < c.request.body.length then (.error, c)
  else (.ok, { c with request := { c.request with body := c.request.body ++ text } })

/-- The path and the query of the request. -/
def parseUrl (r : HttpRequest) : HttpRequest :=
  match find (lit "?") r.rawUrl with
  | some qpos =>
    { r with
      path := urlDecodePath (r.rawUrl.take qpos)
      queryString := r.rawUrl.drop (qpos + 1) }.parseQueryString
  | none => { r with path := urlDecodePath r.rawUrl }.parseQueryString

/-- `OnMessageComplete` up to the dispatch, and whether it gets there. -/
def prepareMessage (hasUpgradeHandler : Bool) (method : Bytes) (shouldKeepAlive : Bool)
    (c : HttpConnection π) :
    Bool × HttpConnection π :=
  let c := c.storeHeader
  let c := { c with request := { c.request with method := method } }
  if config.maxUrlLength < c.request.rawUrl.length then
    (false, c.sendResponse config out now (.error .kBadRequest (lit "URL too long")))
  else
    let c := { c with request := parseUrl c.request }
    if (0 : UInt8) ∈ c.request.path ∨ (find (lit "..") c.request.path).isSome then
      (false, c.sendResponse config out now (.error .kBadRequest (lit "Invalid path")))
    else
      let c := { c with timer := none }
      if hasUpgradeHandler ∧ c.request.method = lit "GET" ∧ isWebSocketUpgrade c.request then
        match upgradeRefusal config c.request with
        | some refusal => (false, c.sendResponse config out now refusal)
        | none => (false, { c with request := {} }.detachConnection out)
      else
        (true,
          { c with
            requestsServed := c.requestsServed + 1
            keepAlive :=
              shouldKeepAlive && decide (c.requestsServed + 1 < config.maxRequestsPerConnection) })

/-- A response of a handler or of the dispatch. -/
def sendDispatched (response : HttpResponse) (c : HttpConnection π) : HttpConnection π :=
  let response :=
    if c.keepAlive then response.setHeader (lit "Connection") (lit "keep-alive") else response
  c.sendResponse config out now (applyCors config c.request response)

/-- The part of `CompleteAsync` on the connection it finds. -/
def completeAsync (response : HttpResponse) (c : HttpConnection π) : HttpConnection π :=
  if c.closing ∨ c.responseSent ∨ c.asyncPending = false then c
  else { c with asyncPending := false }.sendDispatched config out now response

/-- After an asynchronous handler returned: a fresh timeout for the response it owes. -/
def awaitAsync (c : HttpConnection π) : HttpConnection π :=
  if c.asyncPending then
    { c with
      reading := false, deadlineMs := now + config.requestTimeoutMs, timer :=
        some (now + config.requestTimeoutMs) }
  else c

/-- The inactivity timeout of an upload, within the deadline of the request. -/
def restartBodyTimer (c : HttpConnection π) : HttpConnection π :=
  if c.request.body ≠ [] ∧ c.closing = false ∧ c.responseSent = false then
    let remaining := if now < c.deadlineMs then c.deadlineMs - now else 0
    let timeout := min config.bodyReadTimeoutMs remaining
    { c with timer := some (now + if timeout = 0 then 1 else timeout) }
  else c

/-- The reset of `OnWriteDone` for the next request. -/
def resetForNextRequest (c : HttpConnection π) : HttpConnection π :=
  { c with
    request := {}, responseSent := false, keepAlive := false, buildingHeaderValue :=
      false, currentHeaderField := []
    currentHeaderValue := [], totalHeaderBytes := 0, deadlineMs := now + config.requestTimeoutMs
    timer := some (now + config.requestTimeoutMs) }

/-- The timer has expired: an answer that is still to come from a handler will not keep the
connection open. -/
def onTimeout (c : HttpConnection π) : HttpConnection π :=
  let c := { c with keepAlive := if c.asyncPending then false else c.keepAlive }
  c.sendResponse config out now (.error .kGatewayTimeout (lit "Request timeout"))

end HttpConnection

/-! ## The server -/

/-- `conns` are the connections that were accepted and are not deleted. -/
structure HttpServer (π : Type) where
  now : ℕ := 0
  listening : Bool := true
  conns : List (HttpConnection π) := []
  connections : List ℕ := []
  liveConns : List ℕ := []
  activeConnections : ℤ := 0
  nextConnId : ℕ := 1

namespace HttpServer

open Choice
open HttpConnection (closeConnection sendResponse onUrl onHeaderField onHeaderValue onBody
  prepareMessage sendDispatched awaitAsync
  restartBodyTimer resetForNextRequest)

/-- The connection of this number. -/
def find (s : HttpServer π) (id : ℕ) : Option (HttpConnection π) := s.conns.find? (·.id = id)

/-- A change of one connection. -/
def modify (s : HttpServer π) (id : ℕ) (f : HttpConnection π → HttpConnection π) : HttpServer π :=
  { s with conns := updateFirst (·.id = id) f s.conns }

variable (setup : Setup π) (out : Outside)

/-- A client is taken in unless there are too many. -/
def onConnection (status accepted : Bool) (s : HttpServer π) : HttpServer π :=
  if status = false ∨ setup.config.maxConnections ≤ s.activeConnections ∨ accepted = false then s
  else
    { s with
      conns := s.conns ++ [{ id := s.nextConnId, parser := setup.llhttpInit,
                             deadlineMs := s.now + setup.config.requestTimeoutMs,
                             timer := some (s.now + setup.config.requestTimeoutMs) }]
      connections := s.connections ++ [s.nextConnId], liveConns := s.nextConnId :: s.liveConns
      activeConnections := s.activeConnections + 1, nextConnId := s.nextConnId + 1 }

/-- An answer from a handler; its connection may be gone. -/
def completeAsync (id : ℕ) (response : HttpResponse) (s : HttpServer π) : HttpServer π :=
  if id ∈ s.liveConns then s.modify id
    (HttpConnection.completeAsync setup.config out s.now response) else s

/-- A handler runs: the responders it calls. -/
def runCalls (run : HandlerRun) (s : HttpServer π) : HttpServer π :=
  run.calls.foldl (fun s call => completeAsync setup out call.1 call.2 s) s

/-- The second half of `OnMessageComplete`. -/
def dispatchMessage (id : ℕ) (request : HttpRequest) (s : HttpServer π) : HttpServer π :=
  match dispatchRequest setup.config setup.routes request with
  | .respond response => s.modify id (sendDispatched setup.config out s.now response)
  | .handler index isAsync =>
    let run := out.handler index request
    let s := if isAsync then s.modify id fun c => { c with asyncPending := true } else s
    let s := runCalls setup out run s
    if run.throws then
      s.modify id fun c => { c with asyncPending := false }.sendDispatched setup.config out s.now
        (.error .kInternalError (lit "Internal server error"))
    else if isAsync then s.modify id (awaitAsync setup.config s.now)
    else s.modify id (sendDispatched setup.config out s.now run.response)

/-- A request is there as a whole. -/
def onMessageComplete (id : ℕ) (method : Bytes) (shouldKeepAlive : Bool) (s : HttpServer π) :
    HttpServer π :=
  match s.find id with
  | none => s
  | some c =>
    let prepare :=
      prepareMessage setup.config out s.now setup.hasUpgradeHandler method shouldKeepAlive
    let s := s.modify id fun c => (prepare c).2
    if (prepare c).1 then dispatchMessage setup out id (prepare c).2.request s else s

/-- A callback on the connection alone. -/
def onConn (id : ℕ) (f : HttpConnection π → Errno × HttpConnection π) (s : HttpServer π) :
    Errno × HttpServer π :=
  match s.find id with
  | none => (.error, s)
  | some c => ((f c).1, s.modify id fun c => (f c).2)

/-- The callbacks of the parser. -/
def callback (id : ℕ) (s : HttpServer π) : Callback → Errno × HttpServer π
  | .url text => onConn id (onUrl setup.config text) s
  | .headerField text => onConn id (onHeaderField setup.config text) s
  | .headerValue text => onConn id (onHeaderValue setup.config text) s
  | .body text => onConn id (onBody setup.config text) s
  | .messageComplete method shouldKeepAlive =>
    (.paused, onMessageComplete setup out id method shouldKeepAlive s)

/-- The callbacks up to the first that stops the parser. -/
def runCallbacks (id : ℕ) (ending : Errno) (parser : π) :
    List (Callback × π × Bytes) → HttpServer π → (Errno × π × Bytes) × HttpServer π
  | [], s => ((ending, parser, []), s)
  | (cb, p, rest) :: callbacks, s =>
    match callback setup out id s cb with
    | (.ok, s) => runCallbacks id ending parser callbacks s
    | (errno, s) => ((errno, p, rest), s)

/-- `llhttp_execute`: how it ends, the bytes it leaves, and the server after its callbacks. -/
def execute (id : ℕ) (data : Bytes) (s : HttpServer π) : Errno × Bytes × HttpServer π :=
  match s.find id with
  | none => (.error, data, s)
  | some c =>
    let parse := setup.llhttpExecute c.parser data
    let result := runCallbacks setup out id parse.ending parse.parser parse.callbacks s
    (result.1.1, result.1.2.2, result.2.modify id fun c => { c with parser := result.1.2.1 })

/-- The bound on a read and the body before it, with room for the headers. -/
def bodyLimit : ℕ :=
  if setup.config.maxRequestBody ≤ 2 ^ 64 - 1 - 4096 then setup.config.maxRequestBody + 4096
  else setup.config.maxRequestBody

/-- The answer to what the parser does not read. -/
def badRequest : HttpResponse := .error .kBadRequest (lit "Malformed HTTP request")

/-- Bytes left over by a pause wait for the next request. -/
def savePending (id : ℕ) (rest : Bytes) (s : HttpServer π) : HttpServer π :=
  if rest ≠ [] then s.modify id fun c => { c with pendingData := rest } else s

/-- `nread < 0` is no data. -/
def onRead (c : HttpConnection π) (data : Option Bytes) (s : HttpServer π) : HttpServer π :=
  match data with
  | none => s.modify c.id closeConnection
  | some data =>
    if data = [] then s
    else if bodyLimit setup < data.length ∨
        bodyLimit setup - data.length < c.request.body.length then
      s.modify c.id (sendResponse setup.config out s.now
        (.error .kPayloadTooLarge (lit "Request body too large")))
    else
      match execute setup out c.id data s with
      | (.paused, rest, s) => savePending c.id rest s
      | (.error, _, s) => s.modify c.id (sendResponse setup.config out s.now badRequest)
      | (.ok, _, s) => s.modify c.id (restartBodyTimer setup.config s.now)

/-- Reads start again when no response is pending. -/
def resumeReading (c : HttpConnection π) : HttpConnection π :=
  if c.responseSent then c else { c with reading := true }

/-- The replay of pipelined data in `OnWriteDone`. -/
def replayPending (id : ℕ) (data : Bytes) (s : HttpServer π) : HttpServer π :=
  match execute setup out id data (s.modify id fun c => { c with pendingData := [] }) with
  | (.paused, rest, s) => savePending id rest s
  | (.error, _, s) =>
    s.modify id fun c =>
      if c.responseSent then resumeReading c else c.sendResponse setup.config out s.now badRequest
  | (.ok, _, s) => s.modify id resumeReading

/-- A response is written: the connection closes, or waits for the next request. -/
def onWriteDone (c : HttpConnection π) (status : Bool) (s : HttpServer π) : HttpServer π :=
  let s := s.modify c.id fun c => { c with writes := c.writes.tail }
  if c.closing then s
  else
    let s := s.modify c.id fun c => { c with timer := none }
    if status = false ∨ c.keepAlive = false then s.modify c.id closeConnection
    else
      let s := s.modify c.id (resetForNextRequest setup.config s.now)
      if c.pendingData ≠ [] then replayPending setup out c.id c.pendingData s
      else s.modify c.id resumeReading

/-- The timer of a connection closed: the connection is deleted. -/
def destroy (id : ℕ) (s : HttpServer π) : HttpServer π :=
  { s with
    conns := s.conns.eraseP (·.id = id), connections := s.connections.filter (· ≠ id)
    liveConns := s.liveConns.filter (· ≠ id), activeConnections := s.activeConnections - 1 }

/-- The listener and all connections are closed. -/
def stop (s : HttpServer π) : HttpServer π :=
  if s.listening then
    s.connections.foldl
      (fun s id => s.modify id fun c =>
        { c with reading := c.closing && c.reading }.closeConnection)
      { s with listening := false }
  else s

/-! ## Events -/

/-- The callbacks of libuv, the responders, and `Stop`. -/
inductive Event
  | connection (status accepted : Bool)
  | read (id : ℕ) (data : Option Bytes)
  | writeDone (id : ℕ) (status : Bool)
  | timeout (id : ℕ)
  | handleClosed (id : ℕ)
  | timerClosed (id : ℕ)
  | respond (id : ℕ) (response : HttpResponse)
  | stop

/-- An event, the time passed before it, and what the calls out of the server return during it. -/
structure Input where
  elapsed : ℕ := 0
  outside : Outside := {}
  event : Event

/-- A callback on a connection comes only when libuv has a reason for it. -/
def onEvent (s : HttpServer π) : Event → HttpServer π
  | .connection status accepted => if s.listening then onConnection setup status accepted s else s
  | .read id data =>
    match s.find id with
    | some c => if c.reading then onRead setup out c data s else s
    | none => s
  | .writeDone id status =>
    match s.find id with
    | some c => if c.writes ≠ [] then onWriteDone setup out c status s else s
    | none => s
  | .timeout id =>
    match s.find id with
    | some c =>
      if c.timer.any (· ≤ s.now) then
        s.modify id fun c => { c with timer := none }.onTimeout setup.config out s.now
      else s
    | none => s
  | .handleClosed id =>
    match s.find id with
    | some c =>
      if c.stage = .handleClosing ∧ c.writes = [] then
        s.modify id fun c => { c with stage := .timerClosing, timer := none }
      else s
    | none => s
  | .timerClosed id =>
    match s.find id with
    | some c => if c.stage = .timerClosing then destroy id s else s
    | none => s
  | .respond id response => completeAsync setup out id response s
  | .stop => stop s

/-- Time passes, and an event is handled. -/
def step (s : HttpServer π) (input : Input) : HttpServer π :=
  onEvent setup input.outside { s with now := s.now + input.elapsed } input.event

/-- The server after some events. -/
def run (inputs : List Input) : HttpServer π := inputs.foldl (step setup) {}

end HttpServer

end PageSpeed.Http
