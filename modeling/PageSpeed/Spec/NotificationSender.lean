import PageSpeed.Spec.Ipc

/-!
# The persistent notification sender

`SendNotificationPersistent` of `src/proto/notification_sender.cc`: one cached connection, two
attempts. What `connect`, `send` and `poll` answer is laid out in advance in two lists; a call that
comes to the end of a list has not returned.
-/

namespace PageSpeed

open Wire

/-- The outcome that a caller sees. -/
structure NotificationSendResult where
  success : Bool := false
  errorMessage : Bytes := []
  connectErrno : ℕ := 0
  invalidArgument : Bool := false
  deriving DecidableEq

/-! ## Connecting -/

/-- How the calls of `CreateAndConnectSocket` turn out. The `late` ones are those of a connect in
progress, once `poll` and `getsockopt` have answered. -/
inductive ConnectOutcome
  | socketFailed
  | fcntlFailed
  | connected
  | failed (errno : ℕ)
  | pollTimedOut
  | pollFailed (errno : ℕ)
  | getsockoptFailed (errno : ℕ)
  | lateFailed (errno : ℕ)
  | lateConnected
  deriving DecidableEq

/-- The size of `sun_path`. -/
def kSunPathSize : ℕ := 108

/-- The error of a connect that takes too long. -/
def ETIMEDOUT : ℕ := 110

/-- A connected socket, or the result to return. -/
def createAndConnectSocket (socketPath : Bytes) : ConnectOutcome →
    Except NotificationSendResult Unit
  | .socketFailed => .error { errorMessage := lit "Failed to create socket" }
  | .fcntlFailed => .error { errorMessage := lit "Failed to set non-blocking" }
  | outcome =>
    if socketPath.length ≥ kSunPathSize then .error { errorMessage := lit "Socket path too long" }
    else
      match outcome with
      | .failed errno =>
        .error { errorMessage := lit "Failed to connect to worker socket", connectErrno := errno }
      | .pollTimedOut =>
        .error { errorMessage := lit "Connect to worker timed out", connectErrno := ETIMEDOUT }
      | .pollFailed errno =>
        .error { errorMessage := lit "Connect to worker timed out", connectErrno := errno }
      | .getsockoptFailed errno =>
        .error { errorMessage := lit "Failed to check connect result", connectErrno := errno }
      | .lateFailed errno =>
        .error { errorMessage := lit "Failed to connect to worker socket", connectErrno := errno }
      | _ => .ok ()

/-! ## Writing -/

/-- What a `send` answers, with the `poll` behind an `EAGAIN`. No more is sent than was to be
sent. -/
inductive SendOutcome
  | sent (written : ℕ)
  | interrupted
  | wouldBlock (pollReady : Bool)
  | failed
  deriving DecidableEq

/-- `WriteAll`: the bytes that went out, whether it succeeded (`none`: it has not returned), and the
answers that are left. -/
def writeAll : Bytes → List SendOutcome → Bytes × Option Bool × List SendOutcome
  | [], sends => ([], some true, sends)
  | _ :: _, [] => ([], none, [])
  | b :: remaining, answer :: sends =>
    match answer with
    | .interrupted => writeAll (b :: remaining) sends
    | .wouldBlock true => writeAll (b :: remaining) sends
    | .wouldBlock false => ([], some false, sends)
    | .failed => ([], some false, sends)
    | .sent 0 => ([], some false, sends)
    | .sent (n + 1) =>
      let r := writeAll (remaining.drop n) sends
      (b :: remaining.take n ++ r.1, r.2)

/-! ## Calls -/

/-- What one `WriteAll` put on a connection: the call it was for, and the bytes. -/
structure WireWrite where
  call : ℕ
  notification : CacheNotification
  bytes : Bytes

/-- The process: its cached descriptor and path, everything ever written on its connections, the
number of calls so far, and the answers to come. A descriptor is the number of its connection. -/
structure Sender where
  persistentFd : Option ℕ := none
  persistentPath : Bytes := []
  wires : List (List WireWrite) := []
  calls : ℕ := 0
  connects : List ConnectOutcome
  sends : List SendOutcome

namespace Sender

/-- The connection is closed. -/
def resetPersistentConnection (s : Sender) : Sender :=
  { s with persistentFd := none, persistentPath := [] }

/-- `EnsureConnected`; `none`: it has not returned. -/
def ensureConnected (socketPath : Bytes) (s : Sender) :
    Option (Except NotificationSendResult ℕ) × Sender :=
  match s.persistentFd with
  | some fd =>
    if s.persistentPath = socketPath then (some (.ok fd), s)
    else connect s.resetPersistentConnection
  | none => connect s.resetPersistentConnection
where
  connect (s : Sender) : Option (Except NotificationSendResult ℕ) × Sender :=
    match s.connects with
    | [] => (none, s)
    | outcome :: connects =>
      let s := { s with connects := connects }
      match createAndConnectSocket socketPath outcome with
      | .error result => (some (.error result), s)
      | .ok () => (some (.ok s.wires.length), { s with
          persistentFd := some s.wires.length
          persistentPath := socketPath
          wires := s.wires ++ [[]] })

/-- What came of a first or second try. -/
inductive Attempt
  | written
  | notWritten
  | notConnected (result : NotificationSendResult)
  deriving DecidableEq

/-- One attempt: connect if need be, and write. -/
def attempt (socketPath : Bytes) (notification : CacheNotification) (s : Sender) :
    Option Attempt × Sender :=
  match s.ensureConnected socketPath with
  | (none, s) => (none, s)
  | (some (.error result), s) => (some (.notConnected result), s)
  | (some (.ok fd), s) =>
    let r := writeAll notification.serialize s.sends
    (r.2.1.map fun ok => if ok then .written else .notWritten,
      { s with wires := s.wires.modify fd (· ++ [⟨s.calls, notification, r.1⟩]), sends := r.2.2 })

/-- The second attempt, on a new connection. -/
def reconnectAndSend (socketPath : Bytes) (notification : CacheNotification) (s : Sender) :
    Option NotificationSendResult × Sender :=
  match s.resetPersistentConnection.attempt socketPath notification with
  | (none, s) => (none, s)
  | (some .written, s) => (some { success := true }, s)
  | (some (.notConnected result), s) => (some result, s)
  | (some .notWritten, s) =>
    (some { errorMessage := lit "Persistent send failed after reconnect" },
      s.resetPersistentConnection)

/-- Both attempts of `SendNotificationPersistent`. -/
def sendTwice (socketPath : Bytes) (notification : CacheNotification) (s : Sender) :
    Option NotificationSendResult × Sender :=
  match s.attempt socketPath notification with
  | (none, s) => (none, s)
  | (some .written, s) => (some { success := true }, s)
  | (some _, s) => s.reconnectAndSend socketPath notification

/-- `SendNotificationPersistent`; `none`: it has not returned. -/
def sendNotificationPersistent (socketPath : Bytes) (notification : CacheNotification)
    (s : Sender) :
    Option NotificationSendResult × Sender :=
  if socketPath = [] then (some { errorMessage := lit "Empty socket path" },
    { s with calls := s.calls + 1 })
  else
    let r := s.sendTwice socketPath notification
    (r.1, { r.2 with calls := s.calls + 1 })

end Sender

/-- The process between two calls, or inside one that does not return. -/
structure SenderRun where
  sender : Sender
  stuck : Bool := false

/-- The next call. -/
def SenderRun.step (s : SenderRun) (call : Bytes × CacheNotification) : Option SenderRun :=
  if s.stuck then none
  else
    let r := s.sender.sendNotificationPersistent call.1 call.2
    some ⟨r.2, r.1.isNone⟩

end PageSpeed
