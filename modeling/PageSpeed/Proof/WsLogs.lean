import PageSpeed.Proof.WsCallbacks
import PageSpeed.Run.Feed

/-!
# What a client of the log stream is sent

* `LogOf`: the ring is the end of all that was drained, and the entries are numbered from 1.
* `Streams`: what is kept for a connection; its log messages are a feed of the drained entries.
* `logStream_accounts`: over any interleaving, the messages behind a snapshot account for every
  number once, in order; an overflow names evicted entries; one log write is in flight at most; and
  a flush brings the clients that wait for no write up to the newest entry.
-/

namespace PageSpeed

open Run Wire Relation List WsConnection WsMessage

variable {ν : Type}

/-- A log message as an item of a feed. -/
def WsMessage.logItem : WsMessage ν → Option (Item LogEntry)
  | .log entry => some (.entry entry)
  | .overflow droppedCount firstSeq lastSeq => some (.gap droppedCount firstSeq lastSeq)
  | _ => none

namespace WsManager

variable {w : WsWorld ν} {s t : WsManager ν} {c c' : WsConnection ν}
  {history ring : List LogEntry} {total : ℕ}

/-- The log: all that was drained, numbered, and the ring as its end. -/
structure LogOf (history ring : List LogEntry) (total : ℕ) : Prop where
  total : total = history.length
  ring : ring <:+ history
  seq : ∀ (i : ℕ) entry, history[i]? = some entry → entry.seq = i + 1

/-- What is kept for a connection. -/
structure Streams (w : WsWorld ν) (history ring : List LogEntry) (total : ℕ)
    (c : WsConnection ν) : Prop where
  written : c.written = c.sent.flatMap w.frame
  flight : c.underWay.count true = if c.logWriteInFlight then 1 else 0
  before : c.authenticated = false → ∀ m ∈ c.sent, m.isLog = false
  endpoint : ∀ entries n, .logSnapshot entries n ∈ c.sent → c.endpoint = lit "logs"
  covered : ∀ pre entries n post, c.sent = pre ++ .logSnapshot entries n :: post →
    ∃ p, account history n (post.filterMap WsMessage.logItem) = some p ∧ p ≤ total ∧
      (c.closing = false → p = c.logNextSeq)
  evicted : ∀ count first last, .overflow count first last ∈ c.sent → last ≤ total - ring.length

/-- A new client has been sent nothing. -/
theorem Streams.new (hnew : c.New) : Streams w history ring total c := by
  obtain ⟨-, -, hsent, hwritten, hunder, hflight, -⟩ := hnew
  exact ⟨by simp [hsent, hwritten], by simp [hunder, hflight], by simp [hsent], by simp [hsent],
    by simp [hsent], by simp [hsent]⟩

/-- A message that is not of the log stream changes nothing of its account. -/
theorem logItem_eq_none {m : WsMessage ν} (h : m.isLog = false) : m.logItem = none := by
  cases m <;> first | rfl | simp [isLog] at h

theorem split_of_concat {α : Type} {xs ys pre post : List α} {x : α} (hx : x ∉ ys)
    (h : xs ++ ys = pre ++ x :: post) :
    ∃ post', post = post' ++ ys ∧ xs = pre ++ x :: post' := by
  rcases append_eq_append_iff.1 h with ⟨zs, hpre, hys⟩ | ⟨zs, hxs, hpost⟩
  · exact absurd (hys ▸ by simp) hx
  · cases zs with
    | nil =>
      rw [nil_append] at hpost
      exact absurd (hpost ▸ mem_cons_self) hx
    | cons z zs =>
      cases hpost
      exact ⟨zs, rfl, hxs⟩

theorem split_last {α : Type} {xs pre post : List α} {x y : α} (hx : x ∉ xs)
    (h : xs ++ [y] = pre ++ x :: post) :
    x = y ∧ post = [] := by
  rcases eq_nil_or_concat post with rfl | ⟨post', z, rfl⟩
  · exact ⟨((append_inj' h rfl).2 |> cons.inj |>.1).symm, rfl⟩
  · rw [concat_eq_append, ← cons_append, ← append_assoc] at h
    have hxs : xs = pre ++ x :: post' := (append_inj' h rfl).1
    exact absurd (by rw [hxs]; simp) hx

/-! ## One step of a connection -/

theorem count_concat_false (writes : List Bool) :
    (writes ++ [false]).count true = writes.count true := by
  rw [count_append]
  rfl

section

variable (h : Streams w history ring total c)
include h

/-- Messages of other kinds are sent, and the position stays while the connection is open. -/
theorem Streams.grow (messages : List (WsMessage ν))
    (hmessages : ∀ m ∈ messages, m.isLog = false) (hsent : c'.sent = c.sent ++ messages)
    (hwritten : c'.written = c.written ++ messages.flatMap w.frame)
      (hendpoint : c'.endpoint = c.endpoint)
    (hauthenticated : c'.authenticated = false → c.authenticated = false)
    (hopen : c'.closing = false → c.closing = false ∧ c'.logNextSeq = c.logNextSeq)
    (hflight : c'.underWay.count true = if c'.logWriteInFlight then 1 else 0) :
    Streams w history ring total c' := by
  have hold : ∀ m ∈ c'.sent, m.isLog = true → m ∈ c.sent := by
    intro m hm hlog
    rw [hsent] at hm
    rcases mem_append.1 hm with hm | hm
    · exact hm
    · rw [hmessages m hm] at hlog
      exact absurd hlog (by simp)
  refine ⟨?_, hflight, ?_, ?_, ?_, ?_⟩
  · rw [hwritten, hsent, flatMap_append, h.written]
  · intro hnot m hm
    rw [hsent] at hm
    rcases mem_append.1 hm with hm | hm
    · exact h.before (hauthenticated hnot) m hm
    · exact hmessages m hm
  · intro entries n hm
    rw [hendpoint]
    exact h.endpoint entries n (hold _ hm rfl)
  · intro pre entries n post hsplit
    rw [hsent] at hsplit
    have hnone : logSnapshot entries n ∉ messages := fun hm =>
      absurd (hmessages _ hm) (by simp [isLog])
    obtain ⟨post', rfl, hsplit'⟩ := split_of_concat hnone hsplit
    obtain ⟨p, haccount, hle, hnext⟩ := h.covered pre entries n post' hsplit'
    refine ⟨p, ?_, hle, fun hc' => ?_⟩
    · have hnone : messages.filterMap logItem = [] :=
        filterMap_eq_nil_iff.2 fun m hm => logItem_eq_none (hmessages m hm)
      rw [filterMap_append, hnone, append_nil]
      exact haccount
    · obtain ⟨hc, hpos⟩ := hopen hc'
      rw [hpos]
      exact hnext hc
  · exact fun count first last hm => h.evicted count first last (hold _ hm rfl)

/-- Nothing is sent, and the writes under way are the same. -/
theorem Streams.keep (hsent : c'.sent = c.sent)
    (hwritten : c'.written = c.written) (hendpoint : c'.endpoint = c.endpoint)
      (hauthenticated : c'.authenticated = false → c.authenticated = false)
    (hopen : c'.closing = false → c.closing = false ∧ c'.logNextSeq = c.logNextSeq)
    (hunder : c'.underWay = c.underWay) (hflight : c'.logWriteInFlight = c.logWriteInFlight) :
    Streams w history ring total c' := by
  refine h.grow [] (by simp) (by simp [hsent]) (by simp [hwritten]) hendpoint
    hauthenticated hopen ?_
  rw [hunder, hflight]
  exact h.flight

/-- A message that is none of the log. -/
theorem Streams.sends {m : WsMessage ν} (hlog : m.isLog = false)
    (hsends : Sends w m c c') : Streams w history ring total c' := by
  cases hsends with
  | written hc =>
    refine h.grow [m] (by simpa using hlog) rfl (by simp [wrote, writing]) rfl
      (fun hnot => hnot) (fun hc => ⟨hc, rfl⟩) ?_
    exact (count_concat_false c.underWay).trans h.flight
  | dropped => exact h.keep rfl rfl rfl (fun hnot => hnot) (fun hc => ⟨hc, rfl⟩) rfl rfl
  | refused =>
    exact h.keep rfl rfl rfl (fun hnot => hnot) (fun hc => by simp [closed] at hc) rfl rfl
  | idle _ => exact h

/-- A connection that has just been let in has no log messages, so its position may be set. -/
theorem Streams.entered (hnot : c.authenticated = false) (next : ℕ) :
    Streams w history ring total (c.entered.atPosition next) := by
  refine ⟨h.written, h.flight,
    fun hno => by simp [WsConnection.entered, WsConnection.atPosition] at hno, h.endpoint,
    ?_, h.evicted⟩
  intro pre entries n post hsplit
  have hmem : logSnapshot entries n ∈ c.sent := by
    rw [show c.sent = _ from hsplit]
    simp
  exact absurd (h.before hnot _ hmem) (by simp [isLog])

/-- A snapshot at the current end. -/
theorem Streams.snapshot (hnot : c.authenticated = false)
    (hlogs : c.endpoint = lit "logs")
      (hsends : Sends w (.logSnapshot ring total) (c.entered.atPosition total) c') :
    Streams w history ring total c' := by
  have hin := h.entered hnot total
  cases hsends with
  | written hc =>
    refine ⟨by simp [wrote, writing, hin.written], ?_, ?_, fun _ _ _ => hlogs, ?_, ?_⟩
    · exact (count_concat_false c.underWay).trans h.flight
    · exact fun hno => absurd (show true = false from hno) (by simp)
    · -- the snapshot that is sent is the only one
      intro pre entries n post hsplit
      have hnone : logSnapshot entries n ∉ c.sent := fun hm =>
        absurd (h.before hnot _ hm) (by simp [isLog])
      have hsplit' : c.sent ++ [.logSnapshot ring total] = pre ++ .logSnapshot entries n ::
          post := hsplit
      obtain ⟨hsame, rfl⟩ := split_last hnone hsplit'
      obtain ⟨-, rfl⟩ := logSnapshot.inj hsame
      exact ⟨n, rfl, le_rfl, fun _ => rfl⟩
    · intro count first last hm
      rcases mem_append.1 hm with hm | hm
      · exact h.evicted count first last hm
      · exact absurd (mem_singleton.1 hm) (by simp)
  | dropped => exact hin.keep rfl rfl rfl (fun hnot => hnot) (fun hc => ⟨hc, rfl⟩) rfl rfl
  | refused =>
    exact hin.keep rfl rfl rfl (fun hnot => hnot) (fun hc => by simp [closed] at hc) rfl rfl
  | idle _ => exact hin

end

theorem chunkMessages_noSnapshot (next n m : ℕ) (entries : List LogEntry) :
    (WsMessage.logSnapshot entries m : WsMessage ν) ∉ chunkMessages ring total next n := by
  unfold chunkMessages overflowMessages
  split <;> simp

/-- A chunk accounts for the numbers from the position of the client on. -/
theorem account_chunk (hlog : LogOf history ring total) (next n : ℕ) :
    account history next ((chunkMessages (ν := ν) ring total next n).filterMap WsMessage.logItem) =
      some (chunkEnd ring total next n) := by
  have hentries : ((chunkEntries ring total next n).map (log (ν := ν))).filterMap logItem =
      (chunkEntries ring total next n).map .entry := by
    rw [filterMap_map]
    exact congrFun filterMap_eq_map _
  have hwindow :=
    account_window hlog.ring (p := max next (total - ring.length)) (by rw [← hlog.total]; omega) n
  rw [← hlog.total] at hwindow
  rw [chunkMessages, filterMap_append, hentries, account_append]
  by_cases hlt : next < total - ring.length
  · -- the entries up to the oldest retained one are a gap
    have hgap : (overflowMessages (ν := ν) (total - ring.length) next).filterMap logItem =
        [.gap (total - ring.length - next) (next + 1) (total - ring.length)] := by
      rw [overflowMessages, if_pos hlt]
      rfl
    rw [hgap, account_gap history hlt, Option.bind_some]
    rw [max_eq_right hlt.le] at hwindow
    rw [chunkEnd, chunkEntries, max_eq_right hlt.le]
    exact hwindow
  · have hnone : (overflowMessages (ν := ν) (total - ring.length) next).filterMap logItem = [] := by
      rw [overflowMessages, if_neg hlt]
      rfl
    rw [hnone, account, Option.bind_some]
    rw [max_eq_left (not_lt.1 hlt)] at hwindow
    rw [chunkEnd, chunkEntries, max_eq_left (not_lt.1 hlt)]
    exact hwindow

/-- A chunk ends within the log. -/
theorem chunkEnd_le (hlog : LogOf history ring total) {next : ℕ} (hnext : next ≤ total) (n : ℕ) :
    chunkEnd ring total next n ≤ total := by
  have hlen := hlog.ring.length_le
  rw [← hlog.total] at hlen
  have htake : (chunkEntries ring total next n).length ≤
      ring.length - (max next (total - ring.length) - (total - ring.length)) := by
    rw [chunkEntries, length_take, length_drop]
    exact min_le_right _ _
  unfold chunkEnd
  omega

section

variable (h : Streams w history ring total c)
include h

/-- A chunk goes on where the client is. -/
theorem Streams.chunk (hlog : LogOf history ring total) (hp : Pumpable total c)
    (hchunk : Chunks w ring total c c') : Streams w history ring total c' := by
  cases hchunk with
  | written n =>
    refine ⟨?_, ?_, fun hnot => ?_, ?_, ?_, ?_⟩
    · simp [wrote, streaming, atPosition, h.written]
    · have hfree := h.flight
      rw [hp.logWriteInFlight] at hfree
      show (c.underWay ++ [true]).count true = 1
      rw [count_append, hfree]
      rfl
    · exact absurd hp.authenticated (by rw [show c.authenticated = false from hnot]; simp)
    · exact fun _ _ _ => hp.endpoint
    · intro pre entries m post hsplit
      obtain ⟨post', rfl, hsplit'⟩ :=
        split_of_concat (chunkMessages_noSnapshot _ n m entries) hsplit
      obtain ⟨p, haccount, -, hnext⟩ := h.covered pre entries m post' hsplit'
      refine ⟨_, ?_, chunkEnd_le hlog hp.logNextSeq.le n, fun _ => rfl⟩
      rw [filterMap_append, account_append, haccount, hnext hp.closing, Option.bind_some]
      exact account_chunk hlog c.logNextSeq n
    · intro count first last hm
      rcases mem_append.1 hm with hm | hm
      · exact h.evicted count first last hm
      · rcases mem_append.1 hm with hm | hm
        · unfold overflowMessages at hm
          split at hm
          · obtain ⟨-, -, rfl⟩ := overflow.inj (mem_singleton.1 hm)
            exact le_rfl
          · exact absurd hm not_mem_nil
        · simp at hm
  | refused n =>
    exact h.keep rfl rfl rfl (fun hnot => hnot) (fun hc => by simp [closed] at hc) rfl rfl

/-- The end of a write. -/
theorem Streams.complete (logChunk : Bool) (hunder : logChunk ∈ c.underWay) :
    Streams w history ring total (c.completed logChunk) := by
  refine h.grow [] (by simp) (by simp [completed]) (by simp [completed]) rfl
    (fun hnot => hnot) (fun hc => ⟨hc, rfl⟩) ?_
  have hflight := h.flight
  cases logChunk with
  | false =>
    show (c.underWay.erase false).count true = _
    rw [count_erase_of_ne (by simp)]
    exact hflight
  | true =>
    -- the log write that was under way was the only one
    show (c.underWay.erase true).count true = 0
    have hpos := count_pos_iff.2 hunder
    rw [count_erase_self]
    split at hflight <;> omega

/-- One step of a connection. -/
theorem Streams.step {heard : Bytes → Prop} {tells : WsMessage ν → Prop}
    (hlog : LogOf history ring total)
    (hstep : ConnStep w heard tells ring total c c') : Streams w history ring total c' := by
  cases hstep with
  | close =>
    exact h.keep rfl rfl rfl (fun hnot => hnot) (fun hc => by simp [closed] at hc) rfl rfl
  | closeFrame code hclosing =>
    refine h.grow [.close code] (by simp [isLog]) rfl (by simp [wrote]) rfl
      (fun hnot => hnot) (fun hc => ⟨hc, rfl⟩) h.flight
  | send hm _ hsends => exact h.sends hm hsends
  | receive | buffer => exact h.keep rfl rfl rfl (fun hnot => hnot) (fun hc => ⟨hc, rfl⟩) rfl rfl
  | enter hnot _ _ =>
    exact h.keep rfl rfl rfl (fun hno => by simp [WsConnection.entered] at hno)
      (fun hc => ⟨hc, rfl⟩) rfl rfl
  | enterLogs hnot _ hlogs hsends => exact h.snapshot hnot hlogs hsends
  | chunk hp hchunk => exact h.chunk hlog hp hchunk
  | complete logChunk hunder => exact h.complete logChunk hunder

theorem Streams.steps {heard : Bytes → Prop} {tells : WsMessage ν → Prop}
    (hlog : LogOf history ring total)
    (hsteps : ReflTransGen (ConnStep w heard tells ring total) c c') :
    Streams w history ring total c' := by
  induction hsteps with
  | refl => exact h
  | tail _ hstep ih => exact ih.step hlog hstep

end

/-! ## Draining -/

/-- A new entry goes to the end of the ring. -/
theorem drainLog_logOf (h : LogOf s.history s.logRing s.logTotal) (entry : LogEntry) :
    LogOf (s.drainLog entry).history (s.drainLog entry).logRing (s.drainLog entry).logTotal := by
  refine ⟨by simp [drainLog, h.total], ?_, ?_⟩
  · have hkept : (if s.logRing.length ≥ kMaxLogRingSize then s.logRing.tail else s.logRing) <:+
        s.history := by
      split
      · exact (tail_suffix _).trans h.ring
      · exact h.ring
    obtain ⟨front, hfront⟩ := hkept
    exact ⟨front, by simp only [drainLog]; rw [← append_assoc, hfront]⟩
  · intro i e he
    simp only [drainLog] at he
    rcases lt_or_ge i s.history.length with hi | hi
    · rw [getElem?_append_left hi] at he
      exact h.seq i e he
    · rw [getElem?_append_right hi] at he
      obtain ⟨hlt, rfl⟩ := List.getElem?_eq_some_iff.1 he
      rw [List.length_singleton] at hlt
      have htotal := h.total
      simp only [getElem_singleton]
      omega

/-- The log grows, and the oldest retained entry does not become older. -/
theorem Streams.drain (h : Streams w s.history s.logRing s.logTotal c) (entry : LogEntry) :
    Streams w (s.drainLog entry).history (s.drainLog entry).logRing
      (s.drainLog entry).logTotal c := by
  refine { h with covered := ?_, evicted := ?_ }
  · intro pre entries n post hsplit
    obtain ⟨p, haccount, hle, hnext⟩ := h.covered pre entries n post hsplit
    exact ⟨p, account_mono (prefix_append _ _) haccount, hle.trans (Nat.le_succ _), hnext⟩
  · intro count first last hm
    have hle := h.evicted count first last hm
    have hring : (s.drainLog entry).logRing.length ≤ s.logRing.length + 1 := by
      simp only [drainLog]
      split <;> simp
    have htotal : (s.drainLog entry).logTotal = s.logTotal + 1 := rfl
    omega

/-! ## Flushing -/

/-- After a pump the connection has nothing left to send, or waits for a write, or is closed. -/
theorem pumpLogStream_drained (hs : Sound w s) {id : ℕ}
    (hc : (s.pumpLogStream w id).conns[id]? = some c') :
    ¬ Pumpable s.logTotal c' := by
  cases hold : s.conns[id]? with
  | none =>
    have hsame : s.pumpLogStream w id = s := by simp [pumpLogStream, hold]
    rw [hsame, hold] at hc
    exact absurd hc (by simp)
  | some c =>
    rcases pumpLogStream_spec hs hold with ⟨hnot, hsame⟩ | ⟨-, -, d, hchunk, hconns⟩
    · rw [hsame, hold, Option.some.injEq] at hc
      exact hc ▸ hnot
    · rw [hconns, List.getElem?_set_self (List.getElem?_eq_some_iff.1 hold).1,
        Option.some.injEq] at hc
      subst hc
      cases hchunk with
      | written n => exact fun hp => absurd hp.logWriteInFlight (by simp [wrote, streaming])
      | refused n => exact fun hp => absurd hp.closing (by simp [closed])

theorem pumpLogStream_other (hs : Sound w s) {i id : ℕ} (hne : i ≠ id) :
    (s.pumpLogStream w i).conns[id]? = s.conns[id]? := by
  cases hold : s.conns[i]? with
  | none => simp [pumpLogStream, hold]
  | some c =>
    rcases pumpLogStream_spec hs hold with ⟨-, hsame⟩ | ⟨-, -, d, -, hconns⟩
    · rw [hsame]
    · rw [hconns, getElem?_set_ne hne]

/-- The loop over the clients of the log. -/
theorem foldl_pump (hs : Sound w s) (ids : List ℕ) (id : ℕ) :
    (id ∉ ids → (ids.foldl (fun s id => s.pumpLogStream w id) s).conns[id]? = s.conns[id]?) ∧
      (id ∈ ids → ∀ c', (ids.foldl (fun s id => s.pumpLogStream w id) s).conns[id]? = some c' →
        ¬ Pumpable s.logTotal c') := by
  induction ids generalizing s with
  | nil => exact ⟨fun _ => rfl, fun h => absurd h not_mem_nil⟩
  | cons i ids ih =>
    have hpump := pumpLogStream_evolves (g := .any) hs i
    obtain ⟨hout, hin⟩ := ih hpump.sound
    rw [hpump.total] at hin
    rw [foldl_cons]
    constructor
    · intro hid
      rw [mem_cons, not_or] at hid
      rw [hout hid.2, pumpLogStream_other hs (Ne.symm hid.1)]
    · intro hid c' hc'
      by_cases hmem : id ∈ ids
      · exact hin hmem c' hc'
      · obtain rfl := (mem_cons.1 hid).resolve_right hmem
        rw [hout hmem] at hc'
        exact pumpLogStream_drained hs hc'

/-- After a flush no connection has something to send that it may send. -/
theorem flushLogBatch_drained (hs : Sound w s) {id : ℕ}
    (hc : (s.flushLogBatch w).conns[id]? = some c) :
    ¬ Pumpable (s.flushLogBatch w).logTotal c := by
  have htotal := (flushLogBatch_evolves (g := .any) hs).total
  obtain ⟨hout, hin⟩ := foldl_pump hs s.connections id
  rw [htotal]
  by_cases hmem : id ∈ s.connections
  · exact hin hmem c hc
  · have hold : s.conns[id]? = some c := (hout hmem).symm.trans hc
    exact fun hp => hmem ((hs.registered id c hold).2 hp.closing)

/-! ## Runs -/

/-- What is kept over a run; after a flush, what it brings about. -/
structure Accounted (w : WsWorld ν) (as : List (Action ν)) (s : WsManager ν) : Prop where
  sound : Sound w s
  log : LogOf s.history s.logRing s.logTotal
  streams : ∀ (id : ℕ) c, s.conns[id]? = some c → Streams w s.history s.logRing s.logTotal c
  flushed : as.getLast? = some .flushLogs → ∀ (id : ℕ) c, s.conns[id]? = some c →
    ¬ Pumpable s.logTotal c

theorem accounted_empty : Accounted w [] {} :=
  ⟨sound_empty, ⟨rfl, suffix_rfl, by simp⟩, by simp, by simp⟩

variable [DecidableEq ν]

/-- One callback keeps the account. -/
theorem step_accounted {as : List (Action ν)} {a : Action ν} (h : Accounted w as s)
    (hstep : s.step w a = some t) :
    Accounted w (as ++ [a]) t := by
  by_cases ha : a = .drainLogs
  · subst ha
    cases hstep
    have hkept := drainPendingLogs_keeps (s := s)
      (I := fun t => Sound w t ∧ LogOf t.history t.logRing t.logTotal ∧
        ∀ (id : ℕ) c, t.conns[id]? = some c → Streams w t.history t.logRing t.logTotal c)
      (fun t entry ht => ⟨drainLog_sound ht.1 entry, drainLog_logOf ht.2.1 entry,
        fun id c hc => (ht.2.2 id c hc).drain entry⟩)
      ⟨h.sound.of_core rfl, h.log, h.streams⟩
    exact ⟨hkept.1, hkept.2.1, hkept.2.2, by simp⟩
  · have hevolves := step_evolves (g := .any) h.sound ha
      ⟨fun _ _ _ _ _ _ _ => trivial, fun _ _ => ⟨trivial, trivial⟩, fun _ _ _ _ => trivial⟩ hstep
    refine ⟨hevolves.sound, ?_, fun id c' hc' => ?_, fun hlast => ?_⟩
    · rw [hevolves.history, hevolves.ring, hevolves.total]
      exact h.log
    · obtain ⟨c, hc, hsteps⟩ := hevolves.origin id c' hc'
      rw [hevolves.history, hevolves.ring, hevolves.total]
      rcases hc with hc | hnew
      · exact (h.streams id c hc).steps h.log hsteps
      · exact (Streams.new hnew).steps h.log hsteps
    · rw [getLast?_concat, Option.some.injEq] at hlast
      subst hlast
      cases hstep
      exact fun id c hc => flushLogBatch_drained h.sound hc

/-- The ring has the latest entries. -/
theorem seq_of_mem_ring (h : LogOf history ring total) {entry : LogEntry} (he : entry ∈ ring) :
    total - ring.length < entry.seq := by
  obtain ⟨i, hi⟩ := List.mem_iff_getElem?.1 he
  obtain ⟨front, rfl⟩ := h.ring
  have hlt := (List.getElem?_eq_some_iff.1 hi).1
  have hseq :=
    h.seq (front.length + i) entry (by rw [getElem?_append_right (by omega)]; simpa using hi)
  have htotal := h.total
  rw [length_append] at htotal
  omega

/-- **The log stream accounts for every entry once.** Over any interleaving: the messages behind a
snapshot account for the numbers behind its total, in order, each by the entry that carries it or
within one overflow, and after a flush for all of them if no log write of the open connection is
under way; an overflow names only entries that are not in the ring; at most one log write is under
way; and the bytes written are the frames of the messages. -/
theorem logStream_accounts (w : WsWorld ν) {as : List (Action ν)} {s : WsManager ν}
    (hrun : run (step w) {} as = some s) {c : WsConnection ν} (hc : c ∈ s.conns) :
    (∀ pre entries n post, c.sent = pre ++ .logSnapshot entries n :: post →
      ∃ p, account s.history n (post.filterMap WsMessage.logItem) = some p ∧ p ≤ s.logTotal ∧
        (as.getLast? = some .flushLogs → c.closing = false → true ∉ c.underWay → p = s.logTotal)) ∧
    (∀ (i : ℕ) entry, s.history[i]? = some entry → entry.seq = i + 1) ∧
    (∀ count first last, .overflow count first last ∈ c.sent → ∀ entry ∈ s.logRing,
      last < entry.seq) ∧ c.underWay.count true ≤ 1 ∧ c.written = c.sent.flatMap w.frame := by
  have hinv : Accounted w as s :=
    run_invariant_all (fun as s a t h hstep => step_accounted h hstep) accounted_empty hrun
  obtain ⟨id, hid⟩ := mem_iff_getElem?.1 hc
  have hstreams := hinv.streams id c hid
  refine ⟨?_, hinv.log.seq, ?_, ?_, hstreams.written⟩
  · intro pre entries n post hsplit
    obtain ⟨p, haccount, hle, hnext⟩ := hstreams.covered pre entries n post hsplit
    refine ⟨p, haccount, hle, fun hlast hopen hnone => ?_⟩
    have hmem : logSnapshot entries n ∈ c.sent := by rw [hsplit]; simp
    -- the connection is let in on the log stream and waits for no write, so it has nothing left to
    -- send
    have hnot := hinv.flushed hlast id c hid
    have hauth : c.authenticated = true := by
      by_contra hno
      exact absurd (hstreams.before (by simpa using hno) _ hmem) (by simp [isLog])
    have hfree : c.logWriteInFlight = false := by
      by_contra hflight
      have hcount := hstreams.flight
      rw [if_pos (by simpa using hflight)] at hcount
      exact hnone (count_pos_iff.1 (by omega))
    have hdone : ¬ c.logNextSeq < s.logTotal := fun hlt =>
      hnot ⟨hopen, hauth, hstreams.endpoint entries n hmem, hfree, hlt⟩
    have hp := hnext hopen
    omega
  · intro count first last hm entry he
    exact (hstreams.evicted count first last hm).trans_lt (seq_of_mem_ring hinv.log he)
  · rw [hstreams.flight]
    split <;> simp

/-- A server whose streams are open. -/
def openWorld : WsWorld ℕ where
  config := { allowUnauthenticated := true }
  frame := fun _ => [0]
  dumpEvent := fun _ => []
  parse := fun _ => none
  uvWrite := fun _ => true

/-- A client arrives, an entry is drained and sent, the write completes, and the timer fires
again. -/
def logRun : List (Action ℕ) :=
  [.upgrade (lit "logs") [] none, .postLog ⟨7, lit "worker", lit "info", [], lit "hello", 0⟩,
    .drainLogs, .flushLogs, .writeDone 0 true true, .flushLogs]

/-- An entry of the log. -/
def firstEntry : LogEntry := ⟨7, lit "worker", lit "info", [], lit "hello", 1⟩

/-- A client of the log that has been let in. -/
def logConn : WsConnection ℕ where
  endpoint := lit "logs"
  authRequired := false
  authenticated := true
  countedPreauth := false
  preauthPeerKey := []
  logNextSeq := 1
  pendingWrites := 2
  sent := [.handshake, .logSnapshot [] 0, .log firstEntry]
  written := [0, 0, 0]
  underWay := [false, false]

theorem logStream_accounts_entry : ∃ s, run (step openWorld) {} logRun = some s ∧
    ∃ p, account s.history 0 [.entry firstEntry] = some p ∧ p = s.logTotal := by
  have hrun : run (step openWorld) {} logRun = some
      { conns := [logConn], connections := [0], logRing := [firstEntry], logFrames := [[]],
        logFramesTrimmedTo := 1, logTotal := 1, uvWrites := 3, history := [firstEntry] } := rfl
  obtain ⟨p, haccount, -, hflushed⟩ := (logStream_accounts openWorld hrun mem_cons_self).1
    [.handshake] [] 0 [.log firstEntry] rfl
  exact ⟨_, hrun, p, haccount, hflushed rfl rfl (by decide)⟩

end WsManager

end PageSpeed
