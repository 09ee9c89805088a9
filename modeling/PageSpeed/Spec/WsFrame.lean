import PageSpeed.Wire.Bytes

/-!
# The WebSocket frame parser

`WsFrameParser::Feed` of `src/worker/websocket.cc`. An array that is filled byte by byte (`header_`,
`ext_len_buf_`, `mask_key_`) is the list of the bytes it holds so far, and its counter is the length
of that list.
-/

namespace PageSpeed

open Wire

/-- An opcode is a byte: the enumeration has a fixed underlying type, and the parser casts to it. -/
abbrev WsOpcode := UInt8

/-- The opcodes: a text. -/
def kText : WsOpcode := 0x1

/-- The end of the connection. -/
def kClose : WsOpcode := 0x8

/-- A ping. -/
def kPing : WsOpcode := 0x9

/-- A frame. -/
structure WsFrame where
  fin : Bool := true
  opcode : WsOpcode := kText
  closeCode : UInt16 := 0
  payload : Bytes := []
  deriving DecidableEq

/-- What a call of the parser returns. -/
inductive WsParseResult
  | needMore
  | frame
  | error
  deriving DecidableEq

namespace WsFrameParser

/-- The part of a frame that comes next. -/
inductive State
  | header
  | extLen16
  | extLen64
  | maskKey
  | payload
  | done
  deriving DecidableEq

end WsFrameParser

/-- The parser between two bytes. -/
structure WsFrameParser where
  state : WsFrameParser.State := .header
  frame : WsFrame := {}
  header : Bytes := []
  masked : Bool := false
  maskKey : Bytes := []
  payloadLen : ℕ := 0
  extLenBuf : Bytes := []
  extLenNeeded : ℕ := 0
  deriving DecidableEq

namespace WsFrameParser

/-- The longest payload. -/
def kMaxPayloadSize : ℕ := 1 * 1024 * 1024

/-- The parser in front of a frame. -/
def reset : WsFrameParser := {}

/-- How a turn of the loop ends: the loop goes on with the rest of the data, or `Feed` returns. -/
inductive Turn
  | again (rest : Bytes)
  | ret (result : WsParseResult) (rest : Bytes)
  deriving DecidableEq

/-- A control frame. -/
def isControl (opcode : WsOpcode) : Bool := opcode &&& 0x08 ≠ 0

/-- What the length and the key lead to. -/
def startPayload (p : WsFrameParser) (rest : Bytes) : Turn × WsFrameParser :=
  if p.payloadLen > 0 then (.again rest, { p with state := .payload })
  else (.ret .frame rest, { p with state := .done })

/-- A byte of the two at the start. -/
def turnHeader (p : WsFrameParser) (byte : UInt8) (rest : Bytes) : Turn × WsFrameParser :=
  let header := p.header ++ [byte]
  let p := { p with header := header }
  if header.length < 2 then (.again rest, p)
  else if header.getD 0 0 &&& 0x70 ≠ 0 then (.ret .error rest, p)
  else
    let p := { p with
      frame :=
        { p.frame with fin := header.getD 0 0 &&& 0x80 ≠ 0, opcode := header.getD 0 0 &&& 0x0F }
      masked := header.getD 1 0 &&& 0x80 ≠ 0
      payloadLen := (header.getD 1 0 &&& 0x7F).toNat }
    if p.masked = false then (.ret .error rest, p)
    else if isControl p.frame.opcode ∧ (p.payloadLen > 125 ∨ p.frame.fin = false) then
      (.ret .error rest, p)
    else if p.payloadLen = 126 then
      (.again rest, { p with state := .extLen16, extLenNeeded := 2, extLenBuf := [] })
    else if p.payloadLen = 127 then
      (.again rest, { p with state := .extLen64, extLenNeeded := 8, extLenBuf := [] })
    else if p.masked then (.again rest, { p with state := .maskKey, maskKey := [] })
    else if p.payloadLen > kMaxPayloadSize then (.ret .error rest, p)
    else startPayload p rest

/-- A byte of the longer length. -/
def turnExtLen (p : WsFrameParser) (byte : UInt8) (rest : Bytes) : Turn × WsFrameParser :=
  let buf := p.extLenBuf ++ [byte]
  let p := { p with extLenBuf := buf }
  if buf.length < p.extLenNeeded then (.again rest, p)
  else
    let p := { p with payloadLen := buf.foldl (fun n b => n * 256 + b.toNat) 0 }
    if p.payloadLen > kMaxPayloadSize then (.ret .error rest, p)
    else if p.masked then (.again rest, { p with state := .maskKey, maskKey := [] })
    else startPayload p rest

/-- A byte of the key. -/
def turnMaskKey (p : WsFrameParser) (byte : UInt8) (rest : Bytes) : Turn × WsFrameParser :=
  let p := { p with maskKey := p.maskKey ++ [byte] }
  if p.maskKey.length < 4 then (.again rest, p) else startPayload p rest

/-- Bytes of the payload from `offset` on, with the key applied to them. -/
def unmask (maskKey : Bytes) (offset : ℕ) (bytes : Bytes) : Bytes :=
  bytes.mapIdx fun i b => b ^^^ maskKey.getD ((offset + i) % 4) 0

/-- The frame with a whole payload: a close frame begins with a code, and one byte is not a code. -/
def finishPayload (p : WsFrameParser) (rest : Bytes) : Turn × WsFrameParser :=
  if p.frame.opcode = kClose then
    if p.frame.payload.length = 1 then (.ret .error rest, p)
    else if p.frame.payload.length ≥ 2 then
      let code := (p.frame.payload.getD 0 0).toUInt16 <<< 8 ||| (p.frame.payload.getD 1 0).toUInt16
      (.ret .frame rest,
        { p with state := .done, frame :=
            { p.frame with closeCode := code, payload := p.frame.payload.drop 2 } })
    else (.ret .frame rest, { p with state := .done })
  else (.ret .frame rest, { p with state := .done })

/-- As much of the payload as there is, at once. -/
def turnPayload (p : WsFrameParser) (data : Bytes) : Turn × WsFrameParser :=
  let toRead := min (p.payloadLen - p.frame.payload.length) data.length
  let bytes := data.take toRead
  let bytes := if p.masked then unmask p.maskKey p.frame.payload.length bytes else bytes
  let p := { p with frame := { p.frame with payload := p.frame.payload ++ bytes } }
  if p.frame.payload.length = p.payloadLen then finishPayload p (data.drop toRead)
  else (.again (data.drop toRead), p)

/-- One turn of the loop, on data that begins with `byte`. -/
def turn (p : WsFrameParser) (byte : UInt8) (rest : Bytes) : Turn × WsFrameParser :=
  match p.state with
  | .header => turnHeader p byte rest
  | .extLen16 => turnExtLen p byte rest
  | .extLen64 => turnExtLen p byte rest
  | .maskKey => turnMaskKey p byte rest
  | .payload => turnPayload p (byte :: rest)
  | .done => (.ret .frame (byte :: rest), p)

/-- At most `n` turns: the result, what is not consumed, and the parser. -/
def feedUpTo : ℕ → WsFrameParser → Bytes → WsParseResult × Bytes × WsFrameParser
  | _, p, [] => (.needMore, [], p)
  | 0, p, data => (.needMore, data, p)
  | n + 1, p, byte :: rest =>
    match turn p byte rest with
    | (.again rest, p) => feedUpTo n p rest
    | (.ret result rest, p) => (result, rest, p)

/-- Every turn that does not return takes a byte. -/
def feed (p : WsFrameParser) (data : Bytes) : WsParseResult × Bytes × WsFrameParser :=
  feedUpTo data.length p data

end WsFrameParser

/-! ## Frames of the server -/

end PageSpeed
