import PageSpeed.Wire.Bytes

/-!
# The DevTools pipe

`CdpClient::OnRead` of `src/browser/cdp_client.cc`. A message ends at a NUL.
-/

namespace PageSpeed.Cdp

open Wire

/-- The most that is kept of a message without its end. -/
def kMaxMessageSize : ℕ := 10 * 1024 * 1024

/-- A piece that is passed on where a NUL follows it. -/
def admitted (m : Bytes) : Bool := 0 < m.length ∧ m.length ≤ kMaxMessageSize

/-- What is buffered is too long. -/
abbrev OverLimit (m : Bytes) : Prop := m.length > kMaxMessageSize

/-- The read side of the connection to the browser. -/
structure CdpClient where
  readBuffer : Bytes := []
  connected : Bool := true
  /-- What `ProcessMessage` was called with. -/
  processed : List Bytes := []

/-- `OnRead` with `nread >= 0`. -/
def CdpClient.onRead (c : CdpClient) (read : Bytes) : CdpClient :=
  if read = [] then c
  else
    let pieces := (c.readBuffer ++ read).splitOn 0
    let processed := c.processed ++ pieces.dropLast.filter admitted
    let rest := pieces.getLastD []
    -- `CancelAll` stops the reads
    if OverLimit rest then ⟨[], false, processed⟩ else ⟨rest, c.connected, processed⟩

/-- The reads of a pipe, until they are stopped. -/
def CdpClient.reads (c : CdpClient) (reads : List Bytes) : CdpClient :=
  reads.foldl (fun c read => if c.connected then c.onRead read else c) c

end PageSpeed.Cdp
