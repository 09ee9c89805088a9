import Mathlib.Data.List.AList
import PageSpeed.Spec.StringUtil

/-!
# The WebSocket streams

`WsManager` of `src/worker/ws_handlers.cc`: who is let in, and the stats, event and log streams. The
manager runs on the event loop, so a callback is one step. What a step meets outside it is given:
the bytes of a message on the wire, the JSON parser, and whether a `uv_write` is taken. A connection
keeps what was written on it; the descriptor of a connection is its number.
-/

namespace PageSpeed

open Wire

/-- A parsed JSON value. -/
inductive Json
  | null
  | boolean (b : Bool)
  | integer (n : ℤ)
  | float (bits : UInt64)
  | string (s : Bytes)
  | array (items : List Json)
  | object (members : List (Bytes × Json))

/-- The string under a key of an object. -/
def Json.stringMember (key : Bytes) : Json → Option Bytes
  | .object members =>
    match members.lookup key with
    | some (.string s) => some s
    | _ => none
  | _ => none

/-! ## Messages and connections -/

/-- A line of the log. -/
structure LogEntry where
  timestamp : ℤ
  source : Bytes
  level : Bytes
  module : Bytes
  message : Bytes
  seq : ℕ := 0
  deriving DecidableEq

/-- An object of the stats provider. -/
abbrev Stats (ν : Type) := AList fun _ : Bytes => ν

/-- What is sent to a client. -/
inductive WsMessage (ν : Type)
  | handshake
  | statsSnapshot (sequence : ℕ) (data : Stats ν)
  | statsDelta (sequence : ℕ) (data : Stats ν)
  | events (sequence : ℕ) (buffer : Bytes)
  | logSnapshot (entries : List LogEntry) (total : ℕ)
  | log (entry : LogEntry)
  | overflow (droppedCount firstSeq lastSeq : ℕ)
  | authOk
  | ping
  | pong (payload : Bytes)
  | close (code : ℕ)

/-- A message of a stats, event or log stream. -/
def WsMessage.isStream {ν : Type} : WsMessage ν → Bool
  | .statsSnapshot .. | .statsDelta .. | .events .. | .logSnapshot .. | .log .. | .overflow .. =>
    true
  | _ => false

/-- The limits and the access rules. -/
structure WsConfig where
  maxConnections : ℤ := 8
  eventHwm : ℕ := 65536
  authToken : Bytes := []
  allowUnauthenticated : Bool := false
  readOpen : Bool := false
  readOpenStreams : List Bytes := [lit "stats", lit "events"]
  maxPreauthConnections : ℤ := 16
  maxPreauthConnectionsPerPeer : ℤ := 4

/-- Whether a stream needs no token. -/
def WsConfig.isOpen (config : WsConfig) (endpoint : Bytes) : Bool :=
  (config.authToken = [] ∧ config.allowUnauthenticated) ∨
    (config.readOpen ∧ endpoint ∈ config.readOpenStreams)

/-- What lies outside the manager. The `n`-th `uv_write` is taken if `uvWrite n`. -/
structure WsWorld (ν : Type) where
  config : WsConfig := {}
  frame : WsMessage ν → Bytes
  dumpEvent : Json → Bytes
  parse : Bytes → Option Json
  uvWrite : ℕ → Bool

/-- The most writes that wait for one client. -/
def kMaxPendingWrites : ℕ := 64

/-- The log entries that are kept. -/
def kMaxLogRingSize : ℕ := 2000

/-- The most events, and entries, that wait for the loop. -/
def kMaxPendingQueueSize : ℕ := 10000

/-- A connection. Below the fields of the source: the text frames it has sent us, the messages and
the bytes written on it, the writes that are under way (whether they are log chunks), and whether a
frame was dropped. -/
structure WsConnection (ν : Type) where
  endpoint : Bytes
  authRequired : Bool
  authenticated : Bool
  countedPreauth : Bool
  preauthPeerKey : Bytes
  closing : Bool := false
  eventBuffer : Bytes := []
  eventBufferBytes : ℕ := 0
  logNextSeq : ℕ := 0
  logWriteInFlight : Bool := false
  pendingWrites : ℕ := 0
  received : List Bytes := []
  sent : List (WsMessage ν) := []
  written : Bytes := []
  underWay : List Bool := []
  dropped : Bool := false

/-! ## The budget of connections that are not authenticated -/

/-- The clients that have not been let in yet, in all and from each peer. -/
structure WsPreauthBudget where
  pending : ℤ := 0
  byPeer : AList fun _ : Bytes => ℤ := ∅

/-- Whether one more fits in. -/
inductive WsPreauthBudget.Verdict
  | kAdmitted
  | kRefusedGlobal
  | kRefusedPerPeer
  deriving DecidableEq

/-- One more client; a peer without a name counts in the sum only. -/
def WsPreauthBudget.tryAcquire (config : WsConfig) (budget : WsPreauthBudget) (peerKey : Bytes) :
    WsPreauthBudget.Verdict × WsPreauthBudget :=
  if budget.pending ≥ config.maxPreauthConnections then (.kRefusedGlobal, budget)
  else if peerKey = [] then (.kAdmitted, { budget with pending := budget.pending + 1 })
  else
    let held := (budget.byPeer.lookup peerKey).getD 0
    if held ≥ config.maxPreauthConnectionsPerPeer then (.kRefusedPerPeer, budget)
    else (.kAdmitted, ⟨budget.pending + 1, budget.byPeer.insert peerKey (held + 1)⟩)

/-- One client less. -/
def WsPreauthBudget.release (budget : WsPreauthBudget) (peerKey : Bytes) : WsPreauthBudget :=
  let budget := { budget with pending := budget.pending - 1 }
  if peerKey = [] then budget
  else
    match budget.byPeer.lookup peerKey with
    | none => budget
    | some held =>
      if held - 1 = 0 then { budget with byPeer := budget.byPeer.erase peerKey }
      else { budget with byPeer := budget.byPeer.insert peerKey (held - 1) }

/-! ## The manager -/

/-- The manager, after `Start`. `conns` are all connections there ever were, `connections` those
that are open; `history` are all the log entries that were drained. -/
structure WsManager (ν : Type) where
  running : Bool := true
  conns : List (WsConnection ν) := []
  connections : List ℕ := []
  preauthBudget : WsPreauthBudget := {}
  prevStats : Option (Stats ν) := none
  statsSeq : ℕ := 0
  eventsSeq : ℕ := 0
  pendingEvents : List Json := []
  pendingLogs : List LogEntry := []
  logRing : List LogEntry := []
  logFrames : List Bytes := []
  logFramesTrimmedTo : ℕ := 0
  logTotal : ℕ := 0
  logShedTotal : ℕ := 0
  uvWrites : ℕ := 0
  history : List LogEntry := []

namespace WsManager

variable {ν : Type} [DecidableEq ν] (w : WsWorld ν) (s : WsManager ν)

/-- A change of one connection. -/
def modifyConn (id : ℕ) (f : WsConnection ν → WsConnection ν) : WsManager ν :=
  { s with conns := s.conns.modify id f }

/-- The connection is open, has been let in, and is of this stream. -/
def listens (stream : Bytes) (id : ℕ) : Bool :=
  s.conns[id]?.any fun c => ¬ c.closing ∧ c.authenticated ∧ c.endpoint = stream

/-- `for (auto* conn : connections_)`. The body may take connections out of the vector, and the loop
goes on by position; behind the end of the shortened vector nothing is defined, and here it
stops. -/
def forConnections (body : ℕ → WsManager ν → WsManager ν) : WsManager ν :=
  (List.range s.connections.length).foldl
    (fun s i => match s.connections[i]? with
      | some id => body id s
      | none => s) s

/-! ### Sending and closing -/

/-- How far back the log stream clients have got. -/
def neededFrom : ℕ :=
  s.connections.foldl (fun needed id =>
    if s.listens (lit "logs") id then min needed ((s.conns[id]?.map (·.logNextSeq)).getD needed)
    else needed)
    s.logTotal

/-- The number of the oldest entry that is kept. -/
def oldestSeq : ℕ := s.logTotal - s.logRing.length

/-- The frames that no client will be sent any more are emptied. -/
def trimLogFrames : WsManager ν :=
  { s with
    logFrames := s.logFrames.mapIdx fun i frame =>
      if max s.logFramesTrimmedTo s.oldestSeq ≤ s.oldestSeq + i ∧
          s.oldestSeq + i < s.neededFrom then []
      else frame
    logFramesTrimmedTo := max s.logFramesTrimmedTo s.neededFrom }

/-- The connection is not listed any more. -/
def removeConnection (id : ℕ) (endpoint : Bytes) : WsManager ν :=
  let s := { s with connections := s.connections.filter (· ≠ id) }
  if endpoint = lit "logs" then s.trimLogFrames else s

/-- A `uv_write` of a message is taken. -/
def record (id : ℕ) (messages : List (WsMessage ν)) (data : Bytes) : WsManager ν :=
  s.modifyConn id fun c => { c with sent := c.sent ++ messages, written := c.written ++ data }

/-- The close frame is sent if the code is not 0; it has a callback of its own. -/
def closeFrame (id code : ℕ) : WsManager ν :=
  if code > 0 then
    let taken := w.uvWrite s.uvWrites
    let s := { s with uvWrites := s.uvWrites + 1 }
    if taken then s.record id [.close code] (w.frame (.close code)) else s
  else s

/-- A close frame, unless the code is 0, and the connection is closing. -/
def closeWs (id code : ℕ) : WsManager ν :=
  match s.conns[id]? with
  | none => s
  | some c =>
    if c.closing then s
    else
      let s := s.modifyConn id fun c => { c with closing := true, countedPreauth := false }
      let s :=
        if c.countedPreauth then
          { s with preauthBudget := s.preauthBudget.release c.preauthPeerKey } else s
      (s.closeFrame w id code).removeConnection id c.endpoint

/-- A message to one client, dropped if too many wait. A write that is refused closes the
connection. -/
def sendFrame (id : ℕ) (message : WsMessage ν) : WsManager ν :=
  match s.conns[id]? with
  | none => s
  | some c =>
    if c.closing then s
    else if c.pendingWrites ≥ kMaxPendingWrites then s.modifyConn id fun c =>
      { c with dropped := true }
    else
      let taken := w.uvWrite s.uvWrites
      let s := { s with uvWrites := s.uvWrites + 1 }
      if taken then
        (s.modifyConn id fun c => { c with
          pendingWrites := c.pendingWrites + 1
          underWay := c.underWay ++ [false] }).record id [message] (w.frame message)
      else s.closeWs w id 0

/-! ### The log stream -/

/-- The whole frames of one chunk: the frames of the entries, each built if it is not there, until
the chunk is full. -/
def collectFrames (hwm : ℕ) : List LogEntry → ℕ → List Bytes → Bytes → List (WsMessage ν) →
    List Bytes × Bytes × List (WsMessage ν)
  | [], _, frames, chunk, messages => (frames, chunk, messages)
  | entry :: entries, index, frames, chunk, messages =>
    let frame := if frames.getD index [] = [] then w.frame (.log entry) else frames.getD index []
    let frames := frames.set index frame
    if chunk ≠ [] ∧ chunk.length + frame.length > hwm then (frames, chunk, messages)
    else collectFrames hwm entries (index + 1) frames (chunk ++ frame) (messages ++ [.log entry])

/-- What is said of the entries that left the ring before they could be sent. -/
def overflowMessages (oldestSeq nextSeq : ℕ) : List (WsMessage ν) :=
  if nextSeq < oldestSeq then [.overflow (oldestSeq - nextSeq) (nextSeq + 1) oldestSeq] else []

/-- The next entries to a client of the log, one write at a time. -/
def pumpLogStream (id : ℕ) : WsManager ν :=
  match s.conns[id]? with
  | none => s
  | some c =>
    if c.closing ∨ ¬ c.authenticated then s
    else if c.endpoint ≠ lit "logs" then s
    else if c.logWriteInFlight then s
    else if c.logNextSeq ≥ s.logTotal then s
    else
      let overflow := overflowMessages s.oldestSeq c.logNextSeq
      let start := max c.logNextSeq s.oldestSeq
      let (frames, chunk, messages) :=
        collectFrames w w.config.eventHwm (s.logRing.drop (start - s.oldestSeq))
        (start - s.oldestSeq) s.logFrames (overflow.flatMap w.frame) []
      let taken := w.uvWrite s.uvWrites
      let s := { s with logFrames := frames, uvWrites := s.uvWrites + 1 }
      let s := s.modifyConn id fun c => { c with logNextSeq := start + messages.length }
      if taken then
        (s.modifyConn id fun c => { c with
          logWriteInFlight := true
          underWay := c.underWay ++ [true] }).record id (overflow ++ messages) chunk
      else s.closeWs w id 0

/-- The kept entries, behind which the stream goes on. -/
def sendLogSnapshot (id : ℕ) : WsManager ν :=
  (s.modifyConn id fun c => { c with logNextSeq := s.logTotal }).sendFrame w id
    (.logSnapshot s.logRing s.logTotal)

/-- Every client of the log gets what is new. -/
def flushLogBatch : WsManager ν :=
  (s.connections.foldl (fun s id => s.pumpLogStream w id) s).trimLogFrames

/-- An entry from any thread. -/
def postLog (entry : LogEntry) : WsManager ν :=
  if ¬ s.running then s
  else if s.pendingLogs.length ≥ kMaxPendingQueueSize then
    { s with logShedTotal := s.logShedTotal + 1 }
  else { s with pendingLogs := s.pendingLogs ++ [entry] }

/-- An entry gets its number and a place in the ring. -/
def drainLog (entry : LogEntry) : WsManager ν :=
  let entry := { entry with seq := s.logTotal + 1 }
  let full := s.logRing.length ≥ kMaxLogRingSize
  { s with
    logTotal := s.logTotal + 1
    logRing := (if full then s.logRing.tail else s.logRing) ++ [entry]
    logFrames := (if full then s.logFrames.tail else s.logFrames) ++ [[]]
    history := s.history ++ [entry] }

/-- The entries that wait go into the ring. -/
def drainPendingLogs : WsManager ν :=
  s.pendingLogs.foldl drainLog { s with pendingLogs := [] }

/-- A write has completed. -/
def onWriteDone (id : ℕ) (logChunk ok : Bool) : WsManager ν :=
  let s := s.modifyConn id fun c => { c with
    underWay := c.underWay.erase logChunk
    logWriteInFlight := if logChunk then false else c.logWriteInFlight
    pendingWrites := if logChunk then c.pendingWrites else c.pendingWrites - 1 }
  if ¬ ok then s.closeWs w id 0
  else if logChunk ∧ s.conns[id]?.any (¬ ·.closing) then (s.pumpLogStream w id).trimLogFrames
  else s

/-! ### The stats stream -/

/-- The figures as a whole to one client. -/
def sendStatsSnapshot (id : ℕ) (current : Stats ν) : WsManager ν :=
  let s := s.sendFrame w id (.statsSnapshot s.statsSeq current)
  -- only the first snapshot of all becomes the baseline of the deltas
  match s.prevStats with
  | none => { s with prevStats := some current }
  | some _ => s

/-- The fields that are new or have another value. -/
def statsDelta (prev : Option (Stats ν)) (current : Stats ν) : Stats ν :=
  match prev with
  | none => current
  | some prev => ⟨current.entries.filter fun field => prev.lookup field.1 ≠ some field.2,
      current.nodupKeys.sublist List.filter_sublist⟩

/-- What has changed since the last push, to every client of the figures. -/
def pushStats (current : Stats ν) : WsManager ν :=
  if ¬ s.connections.any (s.listens (lit "stats")) then s
  else
    let s := { s with statsSeq := s.statsSeq + 1 }
    let delta := statsDelta s.prevStats current
    if delta.entries = [] then s
    else
      let s := s.forConnections fun id s =>
        if s.listens (lit "stats") id then s.sendFrame w id (.statsDelta s.statsSeq delta) else s
      { s with prevStats := some current }

/-! ### The event stream -/

/-- An event from any thread. -/
def postEvent (event : Json) : WsManager ν :=
  if ¬ s.running then s
  else if s.pendingEvents.length ≥ kMaxPendingQueueSize then s
  else { s with pendingEvents := s.pendingEvents ++ [event] }

/-- An event goes into the buffer of a client, unless that is full. -/
def bufferEvent (c : WsConnection ν) (event : Json) : WsConnection ν :=
  let serialized := w.dumpEvent event
  if c.eventBufferBytes + serialized.length > w.config.eventHwm then c
  else
    let comma := if c.eventBuffer = [] then [] else [ch ',']
    { c with
      eventBuffer := c.eventBuffer ++ comma ++ serialized
      eventBufferBytes := c.eventBufferBytes + comma.length + serialized.length }

/-- The events that wait go into the buffer of every client. -/
def drainPendingEvents : WsManager ν :=
  { s with pendingEvents := [] }.forConnections fun id t =>
    if t.listens (lit "events") id then t.modifyConn id fun c =>
      s.pendingEvents.foldl (bufferEvent w) c else t

/-- The client has events to be sent. -/
def hasEvents (id : ℕ) : Bool :=
  s.listens (lit "events") id ∧ s.conns[id]?.any (·.eventBuffer ≠ [])

/-- The buffers are sent. -/
def flushEventBatch : WsManager ν :=
  if ¬ s.connections.any s.hasEvents then s
  else
    { s with eventsSeq := s.eventsSeq + 1 }.forConnections fun id (s : WsManager ν) =>
      if s.hasEvents id then
        (s.sendFrame w id
          (.events s.eventsSeq ((s.conns[id]?.map WsConnection.eventBuffer).getD []))).modifyConn id
          fun c => { c with eventBuffer := [], eventBufferBytes := 0 }
      else s

/-! ### Coming in -/

/-- The snapshot a connection gets when it has been let in. -/
def sendSnapshot (id : ℕ) (endpoint : Bytes) (stats : Option (Stats ν)) : WsManager ν :=
  let s :=
    match stats with
    | some current => if endpoint = lit "stats" then s.sendStatsSnapshot w id current else s
    | none => s
  if endpoint = lit "logs" then s.sendLogSnapshot w id else s

/-- The connection is there; the handshake is sent, and the snapshot if no token is needed. -/
def openConnection (endpoint peerKey : Bytes) (stats : Option (Stats ν)) : WsManager ν :=
  let isOpen := w.config.isOpen endpoint
  let id := s.conns.length
  let conn : WsConnection ν :=
    { endpoint, authRequired := ¬ isOpen, authenticated := isOpen, countedPreauth := ¬ isOpen,
      preauthPeerKey := peerKey }
  let s := { s with conns := s.conns ++ [conn], connections := s.connections ++ [id] }
  let taken := w.uvWrite s.uvWrites
  let s := { s with uvWrites := s.uvWrites + 1 }
  if taken then
    let s := (s.modifyConn id fun c => { c with
      pendingWrites := c.pendingWrites + 1
      underWay := c.underWay ++ [false] }).record id [.handshake] (w.frame .handshake)
    if isOpen then s.sendSnapshot w id endpoint stats else s
  else s.closeWs w id 0

/-- `AcceptUpgrade`; `stats` is what the stats provider returns, if there is one. -/
def acceptUpgrade (endpoint peerKey : Bytes) (stats : Option (Stats ν)) : WsManager ν :=
  if ¬ s.running then s
  else if s.connections.length ≥ w.config.maxConnections then s
  else if w.config.isOpen endpoint then s.openConnection w endpoint [] stats
  else
    match s.preauthBudget.tryAcquire w.config peerKey with
    | (.kAdmitted, budget) =>
      { s with preauthBudget := budget }.openConnection w endpoint peerKey stats
    | _ => s

/-- The brackets are nested deeper than 32 somewhere. -/
def nestsTooDeep (payload : Bytes) : Bool :=
  (payload.foldl (fun (depth, deep) c =>
    if c = ch '\x7b' ∨ c = ch '[' then (depth + 1, deep || decide (depth + 1 > 32))
    else if c = ch '\x7d' ∨ c = ch ']' then (depth - 1, deep)
    else (depth, deep)) ((0 : ℤ), false)).2

/-- The token a text frame presents. -/
def presentedToken (payload : Bytes) : Option Bytes :=
  if nestsTooDeep payload then none else (w.parse payload).bind (Json.stringMember (lit "auth"))

/-- The first message of a client has to be its token. -/
def handleAuthMessage (id : ℕ) (payload : Bytes) (stats : Option (Stats ν)) : WsManager ν :=
  match s.conns[id]? with
  | none => s
  | some c =>
    match presentedToken w payload with
    | none => s.closeWs w id 4001
    | some token =>
      if ¬ constantTimeCompare token w.config.authToken then s.closeWs w id 4001
      else
        let s := s.modifyConn id fun c => { c with authenticated := true, countedPreauth := false }
        let s :=
          if c.countedPreauth then
            { s with preauthBudget := s.preauthBudget.release c.preauthPeerKey } else s
        (s.sendSnapshot w id c.endpoint stats).sendFrame w id .authOk

/-! ### Steps -/

/-- A frame from a client. -/
inductive ClientFrame
  | text (payload : Bytes)
  | pong
  | ping (payload : Bytes)
  | close (code : ℕ)
  | binary
  | other

/-- A frame from a client. -/
def handleFrame (id : ℕ) (stats : Option (Stats ν)) : ClientFrame → WsManager ν
  | .text payload =>
    let authenticated := s.conns[id]?.any (·.authenticated)
    let s := s.modifyConn id fun c => { c with received := c.received ++ [payload] }
    if authenticated then s else s.handleAuthMessage w id payload stats
  | .pong => s
  | .ping payload => s.sendFrame w id (.pong payload)
  | .close code => s.closeWs w id (if code ≠ 0 then code else 1000)
  | .binary => s.closeWs w id 1003
  | .other => s.closeWs w id 1002

/-- A callback of the loop, or a call from outside. -/
inductive Action (ν : Type)
  | upgrade (endpoint peerKey : Bytes) (stats : Option (Stats ν))
  | frame (id : ℕ) (frame : ClientFrame) (stats : Option (Stats ν))
  | readError (id : ℕ)
  | authTimeout (id : ℕ)
  | pongTimeout (id : ℕ)
  | pingTimer
  | postEvent (event : Json)
  | drainEvents
  | flushEvents
  | pushStats (current : Stats ν)
  | postLog (entry : LogEntry)
  | drainLogs
  | flushLogs
  | writeDone (id : ℕ) (logChunk ok : Bool)
  | stop

/-- A step. Frames and timers belong to a connection that is not closing, a completion to a write
that is under way. -/
def step : Action ν → Option (WsManager ν)
  | .upgrade endpoint peerKey stats => some (s.acceptUpgrade w endpoint peerKey stats)
  | .frame id frame stats =>
    if id ∈ s.connections then some (s.handleFrame w id stats frame) else none
  | .readError id => if id ∈ s.connections then some (s.closeWs w id 0) else none
  | .authTimeout id =>
    if id ∈ s.connections ∧ s.conns[id]?.any (¬ ·.authenticated) then
      some (s.closeWs w id 4001) else none
  | .pongTimeout id => if id ∈ s.connections then some (s.closeWs w id 1001) else none
  | .pingTimer => some (s.forConnections fun id s =>
      if s.conns[id]?.any (·.authenticated) then s.sendFrame w id .ping else s)
  | .postEvent event => some (s.postEvent event)
  | .drainEvents => some (s.drainPendingEvents w)
  | .flushEvents => some (s.flushEventBatch w)
  | .pushStats current => some (s.pushStats w current)
  | .postLog entry => some (s.postLog entry)
  | .drainLogs => some s.drainPendingLogs
  | .flushLogs => some (s.flushLogBatch w)
  | .writeDone id logChunk ok =>
    if s.conns[id]?.any (logChunk ∈ ·.underWay) then some (s.onWriteDone w id logChunk ok) else none
  | .stop => some (if ¬ s.running then s
      else s.connections.foldl (fun s id => s.closeWs w id 1001) { s with running := false })

end WsManager

end PageSpeed
