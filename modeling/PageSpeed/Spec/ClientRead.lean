import PageSpeed.Spec.Ipc

/-!
# The worker's notification socket

`Worker::OnClientRead` of `src/worker/worker.cc`: what arrives on a connection is buffered, and
every whole frame in the buffer is read and handed on.
-/

namespace PageSpeed

open Wire

/-- The limits of `WorkerConfig`. -/
structure ReadLimits where
  maxRequestSize : ℕ := 10 * 1024 * 1024
  maxBufferSize : ℕ := 1024 * 1024

/-- A connection, with what was made of its frames: those handed to `DispatchNotification`, and the
counts of the refused ones. -/
structure ClientContext where
  buffer : Bytes := []
  closing : Bool := false
  dispatched : List CacheNotification := []
  notificationsRejectedVersion : ℕ := 0
  notificationsRejectedMalformed : ℕ := 0

/-- A notification before it is read into. -/
def freshNotification : CacheNotification :=
  { url := [], hostname := [], scheme := [], contentType := .kOther, capabilityMask := 0 }

namespace ClientContext

/-- The connection is closing; the callbacks that are still to come find that out. -/
def closeClientConnection (ctx : ClientContext) : ClientContext := { ctx with closing := true }

/-- A whole frame is read: it is dispatched, or counted. -/
def readNotification (ctx : ClientContext) (msgView : Bytes) : Except Fault ClientContext := do
  let out ← CacheNotification.deserialize msgView freshNotification
  if out.accepted then return { ctx with dispatched := ctx.dispatched ++ [out.notification] }
  else if out.rejection.reason = .kVersionMismatch then
    return { ctx with notificationsRejectedVersion := ctx.notificationsRejectedVersion + 1 }
  else return { ctx with notificationsRejectedMalformed := ctx.notificationsRejectedMalformed + 1 }

/-- The big-endian length in front of a frame. -/
def msgLen (buffer : Bytes) : ℕ := (Scalar.ofBe (α := UInt32) (buffer.take 4)).toNat

/-- The loop over the whole frames of a buffer. -/
def processBuffer (limits : ReadLimits) (ctx : ClientContext) (buffer : Bytes) :
    Except Fault ClientContext :=
  if buffer.length < 4 then .ok { ctx with buffer := buffer }
  else if msgLen buffer > limits.maxRequestSize then
    .ok { ctx with buffer := buffer }.closeClientConnection
  else if buffer.length < 4 + msgLen buffer then .ok { ctx with buffer := buffer }
  else do
    let ctx ← ctx.readNotification (buffer.take (4 + msgLen buffer))
    processBuffer limits ctx (buffer.drop (4 + msgLen buffer))
termination_by buffer.length
decreasing_by
  rw [List.length_drop]
  omega

/-- `OnClientRead`; `none` is a read error or the end of the stream. -/
def onClientRead (limits : ReadLimits) (ctx : ClientContext) (read : Option Bytes) :
    Except Fault ClientContext :=
  if ctx.closing then .ok ctx
  else
    match read with
    | none => .ok ctx.closeClientConnection
    | some data =>
      if data = [] then .ok ctx
      else if ctx.buffer.length + data.length > limits.maxBufferSize then
        .ok ctx.closeClientConnection
      else processBuffer limits ctx (ctx.buffer ++ data)

/-- A connection over its reads. -/
def readAll (limits : ReadLimits) (reads : List Bytes) : Except Fault ClientContext :=
  reads.foldlM (fun ctx data => onClientRead limits ctx (some data)) {}

end ClientContext

end PageSpeed
