import Mathlib.Data.Nat.Bitwise
import PageSpeed.Run.Basic
import PageSpeed.Spec.WsManager

/-!
# What can happen to a connection

Every callback of the manager is made of a few things that can happen to a connection; an invariant
of the connections is proved against these, once each.

* `constantTimeCompare_iff`: the comparison of tokens is equality.
* `ConnStep`: what can happen to a connection.
* `Sound`: the open connections are those in the vector; a cached log frame is that of its entry.
* `closeWs_spec`, `sendFrame_spec`, `pumpLogStream_spec`: what the primitives do to the connection
  they are called for, and that they keep the manager sound.
-/

namespace PageSpeed

open Run Wire Relation List

/-! ## Comparing tokens -/

theorem foldl_or_eq_zero (f : ℕ → ℕ) (is : List ℕ) (acc : ℕ) :
    is.foldl (fun acc i => acc ||| f i) acc = 0 ↔ acc = 0 ∧ ∀ i ∈ is, f i = 0 := by
  induction is generalizing acc with
  | nil => simp
  | cons i is ih => simp [ih, Nat.or_eq_zero_iff, and_assoc]

/-- All the bytes are looked at, and the comparison is that of the texts. -/
theorem constantTimeCompare_iff (a b : Bytes) : constantTimeCompare a b ↔ a = b := by
  have hxor : ∀ i, (a.getD i 0 ^^^ b.getD i 0).toNat = 0 ↔ a.getD i 0 = b.getD i 0 := by
    intro i
    rw [← UInt8.toNat_zero, UInt8.toNat_inj, UInt8.xor_eq_zero_iff]
  unfold constantTimeCompare
  rw [decide_eq_true_iff, foldl_or_eq_zero, Nat.xor_eq_zero_iff]
  constructor
  · rintro ⟨hlen, hbytes⟩
    refine ext_getElem hlen fun i ha hb => ?_
    have hi := (hxor i).1 (hbytes i (by simp; omega))
    rwa [getD_eq_getElem _ _ ha, getD_eq_getElem _ _ hb] at hi
  · rintro rfl
    exact ⟨rfl, fun i _ => (hxor i).2 rfl⟩

/-! ## One connection -/

variable {ν : Type}

/-- A message of the log stream. -/
def WsMessage.isLog : WsMessage ν → Bool
  | .logSnapshot .. | .log .. | .overflow .. => true
  | _ => false

/-- The message is one of the stats stream. -/
def WsMessage.isStats : WsMessage ν → Bool
  | .statsSnapshot .. | .statsDelta .. => true
  | _ => false

namespace WsConnection

variable (c : WsConnection ν)

/-- The connection after a close. -/
def closed : WsConnection ν := { c with closing := true, countedPreauth := false }

/-- The connection after its token was taken. -/
def entered : WsConnection ν := { c with authenticated := true, countedPreauth := false }

/-- The connection after a write. -/
def wrote (messages : List (WsMessage ν)) (data : Bytes) : WsConnection ν :=
  { c with sent := c.sent ++ messages, written := c.written ++ data }

/-- A write is under way. -/
def writing : WsConnection ν :=
  { c with pendingWrites := c.pendingWrites + 1, underWay := c.underWay ++ [false] }

/-- The connection at this place in the log. -/
def atPosition (next : ℕ) : WsConnection ν := { c with logNextSeq := next }

/-- A log chunk is under way. -/
def streaming : WsConnection ν :=
  { c with logWriteInFlight := true, underWay := c.underWay ++ [true] }

/-- A write has completed. -/
def completed (logChunk : Bool) : WsConnection ν :=
  { c with
    underWay := c.underWay.erase logChunk
    logWriteInFlight := if logChunk then false else c.logWriteInFlight
    pendingWrites := if logChunk then c.pendingWrites else c.pendingWrites - 1 }

/-- Nothing has happened on the connection, and it has not been let in. -/
structure New : Prop where
  authenticated : c.authenticated = false
  received : c.received = []
  sent : c.sent = []
  written : c.written = []
  underWay : c.underWay = []
  logWriteInFlight : c.logWriteInFlight = false
  logNextSeq : c.logNextSeq = 0

/-- The connection may be let in: the stream is open, or the token was presented. -/
def Admits (w : WsWorld ν) : Prop :=
  w.config.isOpen c.endpoint ∨
    ∃ payload ∈ c.received, WsManager.presentedToken w payload = some w.config.authToken

end WsConnection

/-- What becomes of a connection on which a frame is sent. -/
inductive Sends (w : WsWorld ν) (m : WsMessage ν) (c : WsConnection ν) : WsConnection ν → Prop
  | written (h : c.closing = false) : Sends w m c (c.writing.wrote [m] (w.frame m))
  | dropped : Sends w m c { c with dropped := true }
  | refused : Sends w m c c.closed
  | idle (h : c.closing = true) : Sends w m c c

/-- The next of the entries the ring holds for a client that is at a position. -/
def chunkEntries (ring : List LogEntry) (total next n : ℕ) : List LogEntry :=
  (ring.drop (max next (total - ring.length) - (total - ring.length))).take n

/-- The messages of a chunk. -/
def chunkMessages (ring : List LogEntry) (total next n : ℕ) : List (WsMessage ν) :=
  WsManager.overflowMessages (total - ring.length) next ++ (chunkEntries ring total next n).map .log

/-- The position behind a chunk. -/
def chunkEnd (ring : List LogEntry) (total next n : ℕ) : ℕ :=
  max next (total - ring.length) + (chunkEntries ring total next n).length

/-- The log stream of a connection has something to send and may send it. -/
structure Pumpable (total : ℕ) (c : WsConnection ν) : Prop where
  closing : c.closing = false
  authenticated : c.authenticated = true
  endpoint : c.endpoint = lit "logs"
  logWriteInFlight : c.logWriteInFlight = false
  logNextSeq : c.logNextSeq < total

/-- What becomes of a connection on which a chunk of the log stream is sent. -/
inductive Chunks (w : WsWorld ν) (ring : List LogEntry) (total : ℕ) (c : WsConnection ν) :
    WsConnection ν → Prop
  | written (n : ℕ) : Chunks w ring total c
      ((c.atPosition (chunkEnd ring total c.logNextSeq n)).streaming.wrote
        (chunkMessages ring total c.logNextSeq n)
        ((chunkMessages ring total c.logNextSeq n).flatMap w.frame))
  | refused (n : ℕ) : Chunks w ring total c
      (c.atPosition (chunkEnd ring total c.logNextSeq n)).closed

/-- **What can happen to a connection**, while the ring holds these entries. A text it sends before
it is let in is one that `heard` allows, a message of the stats stream one that `tells` allows. -/
inductive ConnStep (w : WsWorld ν) (heard : Bytes → Prop) (tells : WsMessage ν → Prop)
    (ring : List LogEntry) (total : ℕ) : WsConnection ν → WsConnection ν → Prop
  | close (c : WsConnection ν) : ConnStep w heard tells ring total c c.closed
  | closeFrame (c : WsConnection ν) (code : ℕ) (h : c.closing = true) :
      ConnStep w heard tells ring total c (c.wrote [.close code] (w.frame (.close code)))
  | send {c c' : WsConnection ν} {m : WsMessage ν} (hlog : m.isLog = false)
      (hstream : m.isStream → c.authenticated ∧ (m.isStats → tells m)) (h : Sends w m c c') :
      ConnStep w heard tells ring total c c'
  | receive (c : WsConnection ν) (payload : Bytes) (h : c.authenticated = false → heard payload) :
      ConnStep w heard tells ring total c { c with received := c.received ++ [payload] }
  | enter (c : WsConnection ν) (hnot : c.authenticated = false) (h : c.Admits w)
      (hlogs : c.endpoint ≠ lit "logs" ∨ c.closing = true) :
        ConnStep w heard tells ring total c c.entered
  | enterLogs {c c' : WsConnection ν} (hnot : c.authenticated = false) (h : c.Admits w)
      (hlogs : c.endpoint = lit "logs")
      (hsend : Sends w (.logSnapshot ring total) (c.entered.atPosition total) c') :
      ConnStep w heard tells ring total c c'
  | buffer (c : WsConnection ν) (events : Bytes) (size : ℕ) :
      ConnStep w heard tells ring total c { c with eventBuffer := events, eventBufferBytes := size }
  | chunk {c c' : WsConnection ν} (h : Pumpable total c) (hchunk : Chunks w ring total c c') :
      ConnStep w heard tells ring total c c'
  | complete (c : WsConnection ν) (logChunk : Bool) (h : logChunk ∈ c.underWay) :
      ConnStep w heard tells ring total c (c.completed logChunk)

/-! ## The manager -/

namespace WsManager

variable {w : WsWorld ν} {s t u : WsManager ν} {id : ℕ} {c c' : WsConnection ν}

/-- The frames that are there are those of the entries at their places. -/
structure FramesOf (w : WsWorld ν) (ring : List LogEntry) (frames : List Bytes) : Prop where
  length : frames.length = ring.length
  frame : ∀ (i : ℕ) entry frame, ring[i]? = some entry → frames[i]? = some frame →
    frame = [] ∨ frame = w.frame (.log entry)

/-- The frames are those of the ring, and the list has the connections that are not closing, each
once. -/
structure Sound (w : WsWorld ν) (s : WsManager ν) : Prop where
  frames : FramesOf w s.logRing s.logFrames
  registered : ∀ (id : ℕ) c, s.conns[id]? = some c → (id ∈ s.connections ↔ c.closing = false)
  bounded : ∀ id ∈ s.connections, id < s.conns.length
  nodup : s.connections.Nodup

theorem sound_empty : Sound w {} :=
  ⟨⟨rfl, by simp⟩, by simp, by simp, nodup_nil⟩

/-- The log is as before, and the manager stays sound. -/
structure SameLog (w : WsWorld ν) (s t : WsManager ν) : Prop where
  sound : Sound w s → Sound w t
  history : t.history = s.history
  ring : t.logRing = s.logRing
  total : t.logTotal = s.logTotal
  stats : (t.prevStats, t.statsSeq) = (s.prevStats, s.statsSeq)

theorem SameLog.refl : SameLog w s s := ⟨id, rfl, rfl, rfl, rfl⟩

theorem SameLog.trans (h₁ : SameLog w s t) (h₂ : SameLog w t u) : SameLog w s u :=
  ⟨fun h => h₂.sound (h₁.sound h), h₂.history.trans h₁.history, h₂.ring.trans h₁.ring,
    h₂.total.trans h₁.total, h₂.stats.trans h₁.stats⟩

/-- What the invariants speak of; the rest is bookkeeping. -/
def core (s : WsManager ν) : List (WsConnection ν) × List ℕ × List Bytes × List LogEntry × ℕ ×
    List LogEntry ×
    Option (Stats ν) × ℕ :=
  (s.conns, s.connections, s.logFrames, s.logRing, s.logTotal, s.history, s.prevStats, s.statsSeq)

theorem SameLog.of_core (h : t.core = s.core) : SameLog w s t := by
  simp only [core, Prod.mk.injEq] at h
  obtain ⟨hconns, hconnections, hframes, hring, htotal, hhistory, hprev, hseq⟩ := h
  refine ⟨fun hs => ⟨?_, ?_, ?_, ?_⟩, hhistory, hring, htotal, by rw [hprev, hseq]⟩
  · rw [hframes, hring]
    exact hs.frames
  · rw [hconns, hconnections]
    exact hs.registered
  · rw [hconns, hconnections]
    exact hs.bounded
  · rw [hconnections]
    exact hs.nodup

theorem Sound.of_core (hs : Sound w s) (h : t.core = s.core) : Sound w t :=
  (SameLog.of_core h).sound hs

/-- A change of a connection that is there. -/
theorem modifyConn_conns (hc : s.conns[id]? = some c) (f : WsConnection ν → WsConnection ν) :
    (s.modifyConn id f).conns = s.conns.set id (f c) := by
  obtain ⟨hlt, rfl⟩ := List.getElem?_eq_some_iff.1 hc
  exact List.modify_eq_set_get f hlt

variable {f : WsConnection ν → WsConnection ν} {ring : List LogEntry} {frames : List Bytes}
  {entry : LogEntry}

/-- A change that does not close leaves the log. -/
theorem modifyConn_sameLog (hf : ∀ c, (f c).closing = c.closing) :
    SameLog w s (s.modifyConn id f) := by
  refine ⟨fun h => ⟨h.frames, ?_, ?_, h.nodup⟩, rfl, rfl, rfl, rfl⟩
  · intro i c hc
    rw [modifyConn, getElem?_modify, Option.map_eq_map, Option.map_eq_some_iff] at hc
    obtain ⟨b, hb, rfl⟩ := hc
    have hreg := h.registered i b hb
    split
    · rw [hf]
      exact hreg
    · exact hreg
  · intro i hi
    rw [modifyConn, length_modify]
    exact h.bounded i hi

/-- Emptied frames are made again when they are needed. -/
theorem framesOf_trim (h : FramesOf w s.logRing s.logFrames) :
    FramesOf w s.logRing s.trimLogFrames.logFrames := by
  refine ⟨by rw [trimLogFrames, length_mapIdx, h.length], ?_⟩
  intro i entry frame he hf
  rw [trimLogFrames, getElem?_mapIdx, Option.map_eq_some_iff] at hf
  obtain ⟨old, hold, rfl⟩ := hf
  split
  · exact .inl rfl
  · exact h.frame i entry old he hold

theorem trimLogFrames_sameLog : SameLog w s s.trimLogFrames :=
  ⟨fun h => { h with frames := framesOf_trim h.frames }, rfl, rfl, rfl, rfl⟩

/-! ### Closing and sending -/

/-- Everything but the connections and the frames is as it was, and the frames are still right. -/
structure Frame (w : WsWorld ν) (s t : WsManager ν) : Prop where
  frames : FramesOf w s.logRing s.logFrames → FramesOf w s.logRing t.logFrames
  history : t.history = s.history
  ring : t.logRing = s.logRing
  total : t.logTotal = s.logTotal
  stats : (t.prevStats, t.statsSeq) = (s.prevStats, s.statsSeq)

/-- A close frame is sent or not. -/
theorem closeFrame_spec (hc : s.conns[id]? = some c) (code : ℕ) :
    Frame w s (s.closeFrame w id code) ∧ (s.closeFrame w id code).connections = s.connections ∧
      ((s.closeFrame w id code).conns = s.conns ∨ code ≠ 0 ∧
        (s.closeFrame w id code).conns =
          s.conns.set id (c.wrote [.close code] (w.frame (.close code)))) := by
  unfold closeFrame
  split
  · rename_i hcode
    dsimp only
    split
    · exact ⟨⟨fun h => h, rfl, rfl, rfl, rfl⟩, rfl, .inr ⟨by omega,
        modifyConn_conns (s := { s with uvWrites := s.uvWrites + 1 }) hc _⟩⟩
    · exact ⟨⟨fun h => h, rfl, rfl, rfl, rfl⟩, rfl, .inl rfl⟩
  · exact ⟨⟨fun h => h, rfl, rfl, rfl, rfl⟩, rfl, .inl rfl⟩

/-- A connection is taken off the list. -/
theorem removeConnection_spec (id : ℕ) (endpoint : Bytes) :
    Frame w s (s.removeConnection id endpoint) ∧ (s.removeConnection id endpoint).conns = s.conns ∧
      (s.removeConnection id endpoint).connections = s.connections.filter (· ≠ id) := by
  unfold removeConnection
  split
  · have htrim :=
      framesOf_trim (w := w) (s := { s with connections := s.connections.filter (· ≠ id) })
    exact ⟨⟨htrim, rfl, rfl, rfl, rfl⟩, rfl, rfl⟩
  · exact ⟨⟨fun h => h, rfl, rfl, rfl, rfl⟩, rfl, rfl⟩

theorem Frame.trans (h₁ : Frame w s t) (h₂ : Frame w t u) : Frame w s u := by
  refine ⟨fun h => ?_, h₂.history.trans h₁.history, h₂.ring.trans h₁.ring, h₂.total.trans h₁.total,
    h₂.stats.trans h₁.stats⟩
  have := h₂.frames
  rw [h₁.ring] at this
  exact this (h₁.frames h)

/-- A connection that is closed leaves the vector. -/
theorem sound_close (hs : Sound w s) (hframe : Frame w s t) (hc : s.conns[id]? = some c)
    (hclosing : c'.closing = true) (hconns : t.conns = s.conns.set id c')
    (hconnections : t.connections = s.connections.filter (· ≠ id)) : Sound w t := by
  have hlt := (List.getElem?_eq_some_iff.1 hc).1
  refine ⟨hframe.ring ▸ hframe.frames hs.frames, ?_, ?_, hconnections ▸ hs.nodup.filter _⟩
  · intro i d hd
    rw [hconns, getElem?_set] at hd
    rw [hconnections, mem_filter]
    by_cases hi : id = i
    · subst hi
      rw [if_pos rfl, if_pos hlt, Option.some.injEq] at hd
      simp [← hd, hclosing]
    · rw [if_neg hi] at hd
      rw [hs.registered i d hd]
      simp [Ne.symm hi]
  · intro i hi
    rw [hconnections, mem_filter] at hi
    rw [hconns, length_set]
    exact hs.bounded i hi.1

/-- What a close leaves. -/
theorem closeWs_spec (hc : s.conns[id]? = some c) (hopen : c.closing = false) (code : ℕ) :
    SameLog w s (s.closeWs w id code) ∧
      ((s.closeWs w id code).conns = s.conns.set id c.closed ∨ code ≠ 0 ∧
      (s.closeWs w id code).conns =
        s.conns.set id (c.closed.wrote [.close code] (w.frame (.close code)))) := by
  simp only [closeWs, hc, hopen, Bool.false_eq_true, if_false]
  -- the connection is marked and its slot is given back; then the close frame, then the vector
  set marked := if c.countedPreauth = true then _ else _ with hmarked
  have hconns : marked.conns = s.conns.set id c.closed := by
    have := modifyConn_conns hc (fun c => { c with closing := true, countedPreauth := false })
    rw [hmarked]
    split <;> exact this
  have hframe : Frame w s marked := by
    rw [hmarked]
    split <;> exact ⟨fun h => h, rfl, rfl, rfl, rfl⟩
  have hconnections : marked.connections = s.connections := by
    rw [hmarked]
    split <;> rfl
  have hlt := (List.getElem?_eq_some_iff.1 hc).1
  have hget : marked.conns[id]? = some c.closed := by rw [hconns, getElem?_set_self hlt]
  obtain ⟨hframe', hconnections', hconns'⟩ := closeFrame_spec (w := w) hget code
  obtain ⟨hframe'', hconns'', hconnections''⟩ :=
    removeConnection_spec (w := w) (s := marked.closeFrame w id code) id c.endpoint
  have hall := (hframe.trans hframe').trans hframe''
  rw [hconnections', hconnections] at hconnections''
  rw [hconns, set_set] at hconns'
  rw [← hconns''] at hconns'
  refine ⟨⟨fun hs => ?_, hall.history, hall.ring, hall.total, hall.stats⟩, hconns'⟩
  rcases hconns' with h | ⟨-, h⟩
  · exact sound_close hs hall hc rfl h hconnections''
  · exact sound_close hs hall hc rfl h hconnections''

theorem closeWs_zero (hc : s.conns[id]? = some c) (hopen : c.closing = false) :
    (s.closeWs w id 0).conns = s.conns.set id c.closed := by
  rcases (closeWs_spec hc hopen 0).2 with h | ⟨h, -⟩
  · exact h
  · exact absurd rfl h

/-- A write that is taken. -/
theorem record_spec (hc : s.conns[id]? = some c)
    (hf : ∀ c, (f c).closing = c.closing) (messages : List (WsMessage ν)) (data : Bytes) :
    SameLog w s ((s.modifyConn id f).record id messages data) ∧
      ((s.modifyConn id f).record id messages data).conns =
        s.conns.set id ((f c).wrote messages data) := by
  constructor
  · exact (modifyConn_sameLog hf).trans (modifyConn_sameLog fun _ => rfl)
  · rw [record, modifyConn, modifyConn, modify_modify_eq]
    exact modifyConn_conns hc _

/-- What a message leaves. -/
theorem sendFrame_spec (hc : s.conns[id]? = some c) (m : WsMessage ν) :
    SameLog w s (s.sendFrame w id m) ∧
      ∃ c', Sends w m c c' ∧ (s.sendFrame w id m).conns = s.conns.set id c' := by
  have hself : s.conns = s.conns.set id c := by
    obtain ⟨hlt, rfl⟩ := List.getElem?_eq_some_iff.1 hc
    exact (List.set_getElem_self hlt).symm
  have hsame : SameLog w s { s with uvWrites := s.uvWrites + 1 } := .of_core rfl
  have hc' : { s with uvWrites := s.uvWrites + 1 }.conns[id]? = some c := hc
  simp only [sendFrame, hc]
  split
  · rename_i hclosing
    exact ⟨.refl, c, .idle hclosing, hself⟩
  rename_i hclosing
  rw [Bool.not_eq_true] at hclosing
  split
  · exact ⟨modifyConn_sameLog fun _ => rfl, _, .dropped, modifyConn_conns hc _⟩
  split
  · obtain ⟨hlog, hconns⟩ :=
      record_spec (w := w) (f := WsConnection.writing) hc' (fun _ => rfl) [m] (w.frame m)
    exact ⟨hsame.trans hlog, _, .written hclosing, hconns⟩
  · exact ⟨hsame.trans (closeWs_spec hc' hclosing 0).1, _, .refused, closeWs_zero hc' hclosing⟩

/-! ### The chunks of the log stream -/

theorem FramesOf.set (h : FramesOf w ring frames) {index : ℕ}
    (he : ring[index]? = some entry) :
    FramesOf w ring (frames.set index (w.frame (.log entry))) := by
  refine ⟨by rw [length_set, h.length], ?_⟩
  intro i e f hi hf
  rw [getElem?_set] at hf
  by_cases hii : index = i
  · subst hii
    rw [if_pos rfl] at hf
    rw [he, Option.some.injEq] at hi
    split at hf
    · rw [Option.some.injEq] at hf
      exact .inr (by rw [← hf, hi])
    · exact absurd hf (by simp)
  · rw [if_neg hii] at hf
    exact h.frame i e f hi hf

/-- The frame of an entry, cached or built, is that of the entry. -/
theorem FramesOf.getD (h : FramesOf w ring frames) {index : ℕ}
    (he : ring[index]? = some entry) :
    (if frames.getD index [] = [] then w.frame (.log entry) else frames.getD index []) =
      w.frame (.log entry) := by
  split
  · rfl
  rename_i hne
  have hlt : index < frames.length := h.length ▸ (List.getElem?_eq_some_iff.1 he).1
  rw [getD_eq_getElem _ _ hlt] at hne ⊢
  exact (h.frame index entry _ he (getElem?_eq_getElem hlt)).resolve_left hne

/-- A chunk takes some of the entries behind the position, in order, each with its own frame. -/
theorem collectFrames_spec (ring : List LogEntry) (hwm : ℕ) (entries : List LogEntry) (index : ℕ)
    (frames : List Bytes)
    (chunk : Bytes) (messages : List (WsMessage ν)) (hring : ring.drop index = entries)
      (h : FramesOf w ring frames) :
    ∃ n, (collectFrames w hwm entries index frames chunk messages).2 =
        (chunk ++ ((entries.take n).map WsMessage.log).flatMap w.frame,
          messages ++ (entries.take n).map .log) ∧
      FramesOf w ring (collectFrames w hwm entries index frames chunk messages).1 := by
  induction entries generalizing index frames chunk messages with
  | nil => exact ⟨0, by simp [collectFrames], h⟩
  | cons entry entries ih =>
    have he : ring[index]? = some entry := by rw [← head?_drop, hring, head?_cons]
    have hrest : ring.drop (index + 1) = entries := by rw [← tail_drop, hring, tail_cons]
    have hset := h.set he
    simp only [collectFrames, h.getD he]
    split
    · exact ⟨0, by simp, hset⟩
    · obtain ⟨n, heq, hframes⟩ :=
        ih (index + 1) _ (chunk ++ w.frame (.log entry)) (messages ++ [.log entry]) hrest hset
      exact ⟨n + 1, by rw [heq]; simp, hframes⟩

/-- What a pump leaves. -/
theorem pumpLogStream_spec (hs : Sound w s) (hc : s.conns[id]? = some c) :
    ¬ Pumpable s.logTotal c ∧ s.pumpLogStream w id = s ∨
      Pumpable s.logTotal c ∧ SameLog w s (s.pumpLogStream w id) ∧
        ∃ c', Chunks w s.logRing s.logTotal c c' ∧
          (s.pumpLogStream w id).conns = s.conns.set id c' := by
  simp only [pumpLogStream, hc]
  split
  · rename_i h
    exact .inl ⟨fun hp => by simp [hp.closing, hp.authenticated] at h, rfl⟩
  split
  · rename_i h
    exact .inl ⟨fun hp => h hp.endpoint, rfl⟩
  split
  · rename_i h
    exact .inl ⟨fun hp => by simp [hp.logWriteInFlight] at h, rfl⟩
  split
  · rename_i h
    exact .inl ⟨fun hp => absurd hp.logNextSeq (by omega), rfl⟩
  rename_i hopen hend hfree hnext
  have hp : Pumpable s.logTotal c := by
    refine ⟨?_, ?_, not_not.1 hend, by simpa using hfree, by omega⟩ <;> simp_all
  refine .inr ⟨hp, ?_⟩
  obtain ⟨n, heq, hframes⟩ := collectFrames_spec (w := w) s.logRing w.config.eventHwm _
    (max c.logNextSeq s.oldestSeq - s.oldestSeq) s.logFrames
    ((overflowMessages s.oldestSeq c.logNextSeq).flatMap w.frame) [] rfl hs.frames
  generalize collectFrames w _ _ _ _ _ _ = collected at heq hframes ⊢
  obtain ⟨frames, chunk, messages⟩ := collected
  cases heq
  -- the chunk is there; the position moves on, and the write is taken or the connection closed
  have hsame : SameLog w s { s with logFrames := frames, uvWrites := s.uvWrites + 1 } :=
    ⟨fun h => { h with frames := hframes }, rfl, rfl, rfl, rfl⟩
  have hmoved : SameLog w s ({ s with logFrames := frames, uvWrites := s.uvWrites + 1 }.modifyConn id
      (·.atPosition (chunkEnd s.logRing s.logTotal c.logNextSeq n))) :=
    hsame.trans (modifyConn_sameLog fun _ => rfl)
  have hpos := modifyConn_conns (s := { s with logFrames := frames, uvWrites := s.uvWrites + 1 }) hc
    (·.atPosition (chunkEnd s.logRing s.logTotal c.logNextSeq n))
  have hget := congrArg (·[id]?) hpos
  simp only [List.getElem?_set_self (List.getElem?_eq_some_iff.1 hc).1] at hget
  simp only [nil_append, length_map, ← flatMap_append]
  split
  · obtain ⟨hlog, hconns⟩ := record_spec (w := w) (f := WsConnection.streaming) hget (fun _ => rfl)
      (chunkMessages s.logRing s.logTotal c.logNextSeq n)
      ((chunkMessages s.logRing s.logTotal c.logNextSeq n).flatMap w.frame)
    rw [hpos, List.set_set] at hconns
    exact ⟨hmoved.trans hlog, _, .written n, hconns⟩
  · have hconns := closeWs_zero (w := w) hget hp.closing
    rw [hpos, List.set_set] at hconns
    exact ⟨hmoved.trans (closeWs_spec hget hp.closing 0).1, _, .refused n, hconns⟩

end WsManager

end PageSpeed
