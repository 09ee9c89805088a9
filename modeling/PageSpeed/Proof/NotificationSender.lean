import PageSpeed.Proof.Ipc
import PageSpeed.Run.Basic
import PageSpeed.Spec.NotificationSender

/-!
# What the persistent sender writes and reports

* `writeAll_spec`: a prefix of the frame goes out, and all of it just when the write succeeds.
* `Sound`: every connection carries whole frames and at most one part of a frame behind them; the
  cached one carries whole frames.
* `sendNotificationPersistent_truthful`: this holds over any sequence of calls, a frame is written
  completely at most once, and a call tells the truth unless it had a connection for a notification
  that is refused.
-/

namespace PageSpeed

open Run Wire List

/-! ## One write -/

/-- A prefix of the data is written, all of it exactly on success. -/
theorem writeAll_spec (data : Bytes) (sends : List SendOutcome) :
    (writeAll data sends).1 <+: data ∧
      ((writeAll data sends).2.1 = some true ↔ (writeAll data sends).1 = data) := by
  fun_induction writeAll data sends with
  | case1 => simp
  | case2 => simp
  | case3 b remaining sends ih => exact ih
  | case4 b remaining sends ih => exact ih
  | case5 => simp
  | case6 => simp
  | case7 => simp
  | case8 b remaining sends n r ih =>
    -- what is left behind the bytes that were sent goes out in the same way
    obtain ⟨hpre, hall⟩ := ih
    have hsplit : b :: remaining = b :: remaining.take n ++ remaining.drop n := by simp
    constructor
    · conv_rhs => rw [hsplit]
      exact (prefix_append_right_inj _).2 hpre
    · rw [hall]
      conv_rhs => rw [hsplit, append_right_inj]

/-- The whole frame went out. -/
def WireWrite.Complete (w : WireWrite) : Prop := w.bytes = w.notification.serialize

instance (w : WireWrite) : Decidable w.Complete := inferInstanceAs (Decidable (_ = _))

/-- Whole frames, and behind them at most one part of a frame. -/
structure WholeFrames (wire : List WireWrite) : Prop where
  parts : ∀ w ∈ wire, w.bytes <+: w.notification.serialize
  whole : ∀ w ∈ wire.dropLast, w.Complete

/-- One more write behind complete ones. -/
theorem WholeFrames.snoc {wire : List WireWrite} {w : WireWrite} (h : ∀ v ∈ wire, v.Complete)
    (hw : w.bytes <+: w.notification.serialize) : WholeFrames (wire ++ [w]) := by
  constructor
  · intro v hv
    rcases mem_append.1 hv with hv | hv
    · rw [show v.bytes = _ from h v hv]
    · rw [mem_singleton.1 hv]
      exact hw
  · rwa [dropLast_concat]

theorem wholeFrames_nil : WholeFrames [] := ⟨by simp, by simp⟩

/-! ## One attempt -/

namespace Sender

/-- Every connection carries whole frames but for a cut at its end, and the kept one has no cut. -/
structure Sound (s : Sender) : Prop where
  whole : ∀ wire ∈ s.wires, WholeFrames wire
  cached : ∀ fd ∈ s.persistentFd, ∃ wire, s.wires[fd]? = some wire ∧ ∀ w ∈ wire, w.Complete

/-- A frame that was written completely for a call. -/
def completes (s : Sender) (call : ℕ) : ℕ :=
  s.wires.flatten.countP fun w => w.call = call ∧ w.Complete

variable {s : Sender}

/-- A sender without a connection is sound. -/
theorem sound_reset (h : ∀ wire ∈ s.wires, WholeFrames wire) : s.resetPersistentConnection.Sound :=
  ⟨h, by simp [resetPersistentConnection]⟩

variable {socketPath : Bytes} {s s' : Sender}

theorem error_success {outcome : ConnectOutcome} {result : NotificationSendResult}
    (h : createAndConnectSocket socketPath outcome = .error result) : result.success = false := by
  cases outcome <;> simp only [createAndConnectSocket] at h <;> (try split at h) <;> cases h <;> rfl

/-- `EnsureConnected` writes nothing, and the connection it gives carries whole frames. -/
structure Connects (s s' : Sender) (res : Option (Except NotificationSendResult ℕ)) : Prop where
  sound : s'.Sound
  calls : s'.calls = s.calls
  written : s'.wires.flatten = s.wires.flatten
  error : ∀ result, res = some (.error result) → result.success = false
  fd : ∀ fd, res = some (.ok fd) → ∃ wire, s'.wires[fd]? = some wire ∧ ∀ w ∈ wire, w.Complete

/-- Connecting completes no frame. -/
theorem Connects.completes_eq {res : Option (Except NotificationSendResult ℕ)}
    (h : Connects s s' res) (call : ℕ) : s'.completes call = s.completes call := by
  rw [completes, h.written, completes]

/-- A new connection starts empty. -/
theorem connect_spec (socketPath : Bytes) (h : s.Sound) (hfd : s.persistentFd = none) :
    Connects s (ensureConnected.connect socketPath s).2
      (ensureConnected.connect socketPath s).1 := by
  unfold ensureConnected.connect
  cases s.connects with
  | nil => exact ⟨h, rfl, rfl, nofun, nofun⟩
  | cons outcome connects =>
    dsimp only
    cases hconnect : createAndConnectSocket socketPath outcome with
    | error result =>
      refine ⟨⟨h.whole, by simp [hfd]⟩, rfl, rfl, ?_, nofun⟩
      rintro _ ⟨⟩
      exact error_success hconnect
    | ok u =>
      have hnew : ∃ wire, (s.wires ++ [[]])[s.wires.length]? = some wire ∧ ∀ w ∈ wire, w.Complete :=
        ⟨[], by simp, by simp⟩
      refine ⟨⟨?_, ?_⟩, rfl, by simp, nofun, ?_⟩
      · exact forall_mem_append.2 ⟨h.whole, forall_mem_singleton.2 wholeFrames_nil⟩
      · rintro fd ⟨⟩
        exact hnew
      · rintro fd ⟨⟩
        exact hnew

/-- A kept connection has no cut. -/
theorem ensureConnected_spec (socketPath : Bytes) (h : s.Sound) :
    Connects s (s.ensureConnected socketPath).2 (s.ensureConnected socketPath).1 := by
  have hconnect : Connects s (ensureConnected.connect socketPath s.resetPersistentConnection).2
      (ensureConnected.connect socketPath s.resetPersistentConnection).1 := by
    obtain ⟨h1, h2, h3, h4, h5⟩ := connect_spec socketPath (sound_reset h.whole) rfl
    exact ⟨h1, h2, h3, h4, h5⟩
  unfold ensureConnected
  cases hfd : s.persistentFd with
  | none => exact hconnect
  | some fd =>
    dsimp only
    split_ifs with hpath
    · refine ⟨h, rfl, rfl, nofun, ?_⟩
      rintro _ ⟨⟩
      exact h.cached fd hfd
    · exact hconnect

theorem countP_flatten_modify {α : Type} (p : α → Bool) (x : α) (ls : List (List α)) (i : ℕ)
    (hi : i < ls.length) :
    (ls.modify i (· ++ [x])).flatten.countP p = ls.flatten.countP p + if p x then 1 else 0 := by
  induction ls generalizing i with
  | nil => cases hi
  | cons l ls ih =>
    cases i with
    | zero =>
      simp only [modify_zero_cons, flatten_cons, countP_append, countP_singleton]
      omega
    | succ i =>
      have h := ih i (Nat.lt_of_succ_lt_succ hi)
      simp only [modify_succ_cons, flatten_cons, countP_append, h]
      omega

/-- What an attempt leaves behind. -/
structure Attempts (s s' : Sender) (res : Option Attempt) : Prop where
  whole : ∀ wire ∈ s'.wires, WholeFrames wire
  sound : ∀ a, res = some a → a ≠ .notWritten → s'.Sound
  calls : s'.calls = s.calls
  completes : ∀ call, s'.completes call = s.completes call + if res = some .written ∧
    call = s.calls then 1 else 0
  notConnected : ∀ result, res = some (.notConnected result) → result.success = false

/-- One attempt: the frame is whole, or the connection is given up. -/
theorem attempt_spec (socketPath : Bytes) (n : CacheNotification) (h : s.Sound) :
    Attempts s (s.attempt socketPath n).2 (s.attempt socketPath n).1 := by
  have hconnects := ensureConnected_spec socketPath h
  unfold attempt
  generalize s.ensureConnected socketPath = c at hconnects ⊢
  -- connecting has not returned, has failed or has given a connection
  obtain ⟨_ | result | fd, t⟩ := c
  · exact ⟨hconnects.sound.whole, nofun, hconnects.calls,
      fun call => by simp [hconnects.completes_eq], nofun⟩
  · refine ⟨hconnects.sound.whole, fun _ _ _ => hconnects.sound, hconnects.calls,
      fun call => by simp [hconnects.completes_eq], ?_⟩
    rintro _ ⟨⟩
    exact hconnects.error result rfl
  · obtain ⟨wire, hwire, hcomplete⟩ := hconnects.fd fd rfl
    obtain ⟨hlt, rfl⟩ := List.getElem?_eq_some_iff.1 hwire
    obtain ⟨hpre, hall⟩ := writeAll_spec n.serialize t.sends
    set r := writeAll n.serialize t.sends
    set w : WireWrite := ⟨t.calls, n, r.1⟩
    have hwritten : (r.2.1.map fun ok => if ok then Attempt.written else .notWritten) =
        some .written ↔ w.Complete := by
      rw [WireWrite.Complete, ← hall]
      rcases r.2.1 with _ | _ | _ <;> simp
    -- the write is added to one wire, behind frames that are all whole
    have hwhole : ∀ v ∈ t.wires.modify fd (· ++ [w]), WholeFrames v := by
      intro v hv
      obtain ⟨i, hi, rfl⟩ := getElem_of_mem hv
      rw [getElem_modify]
      split
      · rename_i heq
        subst heq
        exact WholeFrames.snoc hcomplete hpre
      · exact hconnects.sound.whole _ (getElem_mem _)
    refine ⟨hwhole, fun a hres ha => ⟨hwhole, fun fd' hfd' => ?_⟩, hconnects.calls, fun call => ?_,
      fun result hres => ?_⟩
    · -- the connection that was written on carries one more whole frame
      have hdone : w.Complete := by
        obtain ⟨ok, hok, rfl⟩ := Option.map_eq_some_iff.1 hres
        cases ok with
        | false => exact absurd rfl ha
        | true => exact hall.1 hok
      obtain ⟨wire', hwire', hcomplete'⟩ := hconnects.sound.cached fd' hfd'
      rw [getElem?_modify, hwire']
      refine ⟨_, rfl, ?_⟩
      split
      · exact forall_mem_append.2 ⟨hcomplete', forall_mem_singleton.2 hdone⟩
      · exact hcomplete'
    · -- one more frame is complete, exactly if the attempt reports it as written
      have hcount := countP_flatten_modify
        (fun v : WireWrite => decide (v.call = call ∧ v.Complete)) w t.wires fd hlt
      rw [Sender.completes, hcount, ← Sender.completes, hconnects.completes_eq]
      refine congrArg (s.completes call + ·) (if_congr ?_ rfl rfl)
      rw [decide_eq_true_eq, and_comm, eq_comm, ← hconnects.calls]
      exact and_congr_left' hwritten.symm
    · rcases hr : r.2.1 with _ | _ | _ <;> simp [hr, r] at hres

/-! ## One call -/

/-- What a call leaves behind. -/
structure Sends (s s' : Sender) (res : Option NotificationSendResult) : Prop where
  whole : ∀ wire ∈ s'.wires, WholeFrames wire
  sound : res ≠ none → s'.Sound
  completes : ∀ call, s'.completes call =
    s.completes call + if res.any NotificationSendResult.success ∧ call = s.calls then 1 else 0

/-- The second attempt is on a new connection. -/
theorem reconnectAndSend_spec (socketPath : Bytes) (n : CacheNotification)
    (h : ∀ wire ∈ s.wires, WholeFrames wire) :
    Sends s (s.reconnectAndSend socketPath n).2 (s.reconnectAndSend socketPath n).1 := by
  have hattempt := attempt_spec socketPath n (sound_reset h)
  have hcompletes : ∀ call, s.resetPersistentConnection.completes call = s.completes call :=
    fun _ => rfl
  have hcalls : s.resetPersistentConnection.calls = s.calls := rfl
  unfold reconnectAndSend
  generalize s.resetPersistentConnection.attempt socketPath n = a at hattempt ⊢
  obtain ⟨_ | _ | _ | result, t⟩ := a
  · exact ⟨hattempt.whole, nofun, fun call => by simp [hattempt.completes, hcompletes]⟩
  · exact ⟨hattempt.whole, fun _ => hattempt.sound _ rfl nofun,
      fun call => by simp [hattempt.completes, hcompletes, hcalls]⟩
  · refine ⟨hattempt.whole, fun _ => sound_reset hattempt.whole, fun call => ?_⟩
    rw [show t.resetPersistentConnection.completes call = t.completes call from rfl,
      hattempt.completes]
    simp [hcompletes]
  · have hresult := hattempt.notConnected result rfl
    exact ⟨hattempt.whole, fun _ => hattempt.sound _ rfl nofun,
      fun call => by simp [hattempt.completes, hcompletes, hresult]⟩

/-- Two attempts complete the frame at most once. -/
theorem sendTwice_spec (socketPath : Bytes) (n : CacheNotification) (h : s.Sound) :
    Sends s (s.sendTwice socketPath n).2 (s.sendTwice socketPath n).1 := by
  have hattempt := attempt_spec socketPath n h
  unfold sendTwice
  generalize s.attempt socketPath n = a at hattempt ⊢
  -- a first attempt that has written no frame is followed by another one
  have hretry : a.1 ≠ some .written →
      Sends s (a.2.reconnectAndSend socketPath n).2 (a.2.reconnectAndSend socketPath n).1 := by
    intro hres
    obtain ⟨hwhole, hsound, hcompletes⟩ := reconnectAndSend_spec socketPath n hattempt.whole
    refine ⟨hwhole, hsound, fun call => ?_⟩
    rw [hcompletes, hattempt.completes, hattempt.calls]
    simp [hres]
  obtain ⟨_ | _ | _ | result, t⟩ := a
  · exact ⟨hattempt.whole, nofun, fun call => by simp [hattempt.completes]⟩
  · exact ⟨hattempt.whole, fun _ => hattempt.sound _ rfl nofun,
      fun call => by simp [hattempt.completes]⟩
  · exact hretry nofun
  · exact hretry nofun

/-! ## A notification that is refused -/

/-- The call gets a connection: the cached one, or one of the two it may ask for. -/
def Reaches (socketPath : Bytes) (s : Sender) : Prop :=
  (s.persistentFd.isSome ∧ s.persistentPath = socketPath) ∨
    ∃ outcome ∈ s.connects.take 2, createAndConnectSocket socketPath outcome = .ok ()

variable {n : CacheNotification} {r : NotificationSendResult}

/-- A notification that is refused is written as nothing at all. -/
theorem attempt_cached (hn : n.serialize = [])
    (h : s.persistentFd.isSome ∧ s.persistentPath = socketPath) : (s.attempt socketPath n).1 =
      some .written := by
  obtain ⟨fd, hfd⟩ := Option.isSome_iff_exists.1 h.1
  simp [attempt, ensureConnected, hfd, h.2, hn, writeAll]

/-- Without the cached connection the next one that is asked for decides. -/
theorem attempt_connect {s t : Sender} {res : Option Attempt}
    (hn : n.serialize = []) (h : ¬ (s.persistentFd.isSome ∧ s.persistentPath = socketPath))
    (hattempt : s.attempt socketPath n = (res, t)) :
    s.connects = [] ∧ res = none ∨ ∃ outcome, s.connects = outcome :: t.connects ∧
      (createAndConnectSocket socketPath outcome = .ok () ∧ res = some .written ∨
        ∃ result, createAndConnectSocket socketPath outcome = .error result ∧
          res = some (.notConnected result)) := by
  have hconnect : s.ensureConnected socketPath =
      ensureConnected.connect socketPath s.resetPersistentConnection := by
    unfold ensureConnected
    cases hfd : s.persistentFd with
    | none => rfl
    | some fd => exact if_neg fun hpath => h ⟨by simp [hfd], hpath⟩
  unfold attempt at hattempt
  rw [hconnect, ensureConnected.connect, show s.resetPersistentConnection.connects =
    s.connects from rfl] at hattempt
  cases hconnects : s.connects with
  | nil =>
    rw [hconnects] at hattempt
    exact .inl ⟨rfl, (Prod.mk.inj hattempt).1.symm⟩
  | cons outcome connects =>
    cases hoc : createAndConnectSocket socketPath outcome with
    | error result =>
      obtain ⟨rfl, rfl⟩ := by simpa [hconnects, hoc] using hattempt
      exact .inr ⟨outcome, rfl, .inr ⟨result, hoc, rfl⟩⟩
    | ok u =>
      obtain ⟨rfl, rfl⟩ := by simpa [hconnects, hoc, hn, writeAll] using hattempt
      exact .inr ⟨outcome, rfl, .inl ⟨hoc, rfl⟩⟩

/-- Its success is then that of the connect. -/
theorem reconnectAndSend_refused
    (hn : n.serialize = []) (h : s.reconnectAndSend socketPath n = (some r, s')) :
    r.success = true ↔ ∃ outcome ∈ s.connects.head?, createAndConnectSocket socketPath outcome =
      .ok () := by
  unfold reconnectAndSend at h
  cases ha : s.resetPersistentConnection.attempt socketPath n with
  | mk res t =>
    rw [ha] at h
    rw [show s.connects = s.resetPersistentConnection.connects from rfl]
    rcases attempt_connect hn (by simp [resetPersistentConnection]) ha with
      ⟨-, rfl⟩ | ⟨outcome, hconnects, ⟨hoc, rfl⟩ | ⟨result, hoc, rfl⟩⟩
    · simp at h
    · obtain ⟨rfl, -⟩ := by simpa using h
      exact iff_of_true rfl ⟨outcome, by simp [hconnects], hoc⟩
    · obtain ⟨rfl, -⟩ := by simpa using h
      exact iff_of_false (by simp [error_success hoc]) (by simp [hconnects, hoc])

/-- **A refused notification** is reported as sent just when there is a connection. -/
theorem sendTwice_refused
    (hn : n.serialize = []) (h : s.sendTwice socketPath n = (some r, s')) :
    r.success = true ↔ s.Reaches socketPath := by
  unfold sendTwice at h
  cases ha : s.attempt socketPath n with
  | mk res t =>
    rw [ha] at h
    by_cases hcached : s.persistentFd.isSome ∧ s.persistentPath = socketPath
    · obtain rfl : res = some .written := by rw [← attempt_cached hn hcached, ha]
      obtain ⟨rfl, -⟩ := by simpa using h
      exact iff_of_true rfl (.inl hcached)
    rw [Reaches, or_iff_right hcached]
    rcases attempt_connect hn hcached ha
      with ⟨-, rfl⟩ | ⟨outcome, hconnects, ⟨hoc, rfl⟩ | ⟨result, hoc, rfl⟩⟩
    · simp at h
    · obtain ⟨rfl, -⟩ := by simpa using h
      exact iff_of_true rfl ⟨outcome, by simp [hconnects], hoc⟩
    · -- the second attempt decides
      rw [reconnectAndSend_refused hn h, hconnects]
      cases t.connects <;> simp [hoc]

/-! ## All calls -/

/-- No frame has been written for a call that has not been made. -/
def Fresh (s : Sender) : Prop := ∀ call, s.calls ≤ call → s.completes call = 0

/-- What a call does to the wires, and what it reports. -/
theorem sendNotificationPersistent_spec
    {res : Option NotificationSendResult} (hsound : s.Sound) (hfresh : s.Fresh)
    (h : s.sendNotificationPersistent socketPath n = (res, s')) :
    (∀ wire ∈ s'.wires, WholeFrames wire) ∧ (res ≠ none → s'.Sound) ∧ s'.Fresh ∧
      s'.completes s.calls = if res.any NotificationSendResult.success then 1 else 0 := by
  unfold sendNotificationPersistent at h
  split at h
  · cases h
    exact ⟨hsound.whole, fun _ => ⟨hsound.whole, hsound.cached⟩,
      fun call hcall => hfresh call ((Nat.le_succ _).trans hcall), hfresh s.calls le_rfl⟩
  · cases h
    obtain ⟨hwhole, hsound', hcompletes⟩ := sendTwice_spec socketPath n hsound
    refine ⟨hwhole, fun hres => ⟨(hsound' hres).whole, (hsound' hres).cached⟩,
      fun call hcall => ?_, ?_⟩
    · have hlt : s.calls < call := hcall
      refine (hcompletes call).trans ?_
      simp [hfresh call hlt.le, hlt.ne']
    · refine (hcompletes s.calls).trans ?_
      simp [hfresh s.calls le_rfl]

end Sender

/-- What holds of the process between calls, and while one does not return. -/
structure SenderRun.Ok (s : SenderRun) : Prop where
  whole : ∀ wire ∈ s.sender.wires, WholeFrames wire
  sound : s.stuck = false → s.sender.Sound
  fresh : s.sender.Fresh

theorem SenderRun.Ok.step {s t : SenderRun} {call : Bytes × CacheNotification} (h : s.Ok)
    (hstep : s.step call = some t) : t.Ok := by
  unfold SenderRun.step at hstep
  split_ifs at hstep with hstuck
  cases hstep
  obtain ⟨hwhole, hsound, hfresh, -⟩ := Sender.sendNotificationPersistent_spec
    (h.sound (Bool.eq_false_iff.2 hstuck)) h.fresh (Prod.eta _).symm
  exact ⟨hwhole, fun hret => hsound (Option.isSome_iff_ne_none.1 (by simpa using hret)), hfresh⟩

/-- Every run keeps the invariant. -/
theorem SenderRun.ok_run {connects : List ConnectOutcome} {sends : List SendOutcome}
    {calls : List (Bytes × CacheNotification)} {s : SenderRun}
    (hrun : run SenderRun.step ⟨{ connects := connects, sends := sends }, false⟩ calls =
      some s) : s.Ok :=
  run_invariant_all (I := fun _ => SenderRun.Ok) (fun _ _ _ _ h hstep => h.step hstep)
    ⟨by simp, fun _ => ⟨by simp, by simp⟩, fun _ _ => rfl⟩ hrun

/-- **The sender over any sequence of calls**, whatever `connect`, `send` and `poll` answer. Every
connection carries whole frames and behind them at most one part of a frame; the next call that
returns has written its frame completely at most once; and it reports success just for a frame that
exists and was written completely, unless its notification is refused and it has a connection. -/
theorem sendNotificationPersistent_truthful (connects : List ConnectOutcome)
    (sends : List SendOutcome) (calls : List (Bytes × CacheNotification)) (s : SenderRun)
    (hrun : run SenderRun.step ⟨{ connects := connects, sends := sends }, false⟩ calls = some s) :
    (∀ wire ∈ s.sender.wires, WholeFrames wire) ∧
    (s.stuck = false → ∀ socketPath n r s', s.sender.sendNotificationPersistent socketPath n =
      (some r, s') → s'.completes s.sender.calls ≤ 1 ∧
      ((r.success = true ↔ n.serialize ≠ [] ∧ s'.completes s.sender.calls = 1) ↔
        ¬ (n.serialize = [] ∧ socketPath ≠ [] ∧ s.sender.Reaches socketPath))) := by
  obtain ⟨hwhole, hsound, hfresh⟩ := SenderRun.ok_run hrun
  refine ⟨hwhole, fun hstuck socketPath n r s' hcall => ?_⟩
  obtain ⟨-, -, -, hcompletes⟩ :=
    Sender.sendNotificationPersistent_spec (hsound hstuck) hfresh hcall
  rw [Option.any_some] at hcompletes
  refine ⟨by rw [hcompletes]; split <;> decide, ?_⟩
  have hone : s'.completes s.sender.calls = 1 ↔ r.success = true := by
    rw [hcompletes]
    cases r.success <;> simp
  rw [hone]
  by_cases hn : n.serialize = []
  · -- success is a lie here
    simp only [hn, ne_eq, not_true_eq_false, false_and, iff_false, true_and]
    unfold Sender.sendNotificationPersistent at hcall
    split at hcall
    · rename_i hpath
      obtain ⟨h, -⟩ := Prod.mk.inj hcall
      cases h
      simp [hpath]
    · rename_i hpath
      obtain ⟨h, -⟩ := Prod.mk.inj hcall
      rw [Sender.sendTwice_refused (s := s.sender) (r := r) hn (Prod.ext h rfl)]
      simp [hpath]
  · simp [hn]

/-- The first connection breaks inside a frame, the second attempt writes it whole, and so does the
next call. -/
def brokenOff (n : CacheNotification) : Option SenderRun :=
  run SenderRun.step
    ⟨{ connects := [.connected, .connected], sends := [.sent 10, .failed, .sent 90, .sent 90] },
      false⟩
    [(lit "/s", n)]

/-- A notification for a style sheet. -/
def cssNotification : CacheNotification where
  url := lit "/a"
  hostname := lit "h"
  scheme := lit "https"
  contentType := .kCss
  capabilityMask := 12

theorem sendNotificationPersistent_truthful_broken : ∃ s s', brokenOff cssNotification = some s ∧
    (∀ wire ∈ s.sender.wires, WholeFrames wire) ∧ s.stuck = false ∧
    s.sender.sendNotificationPersistent (lit "/s") cssNotification =
      (some { success := true }, s') ∧ s'.completes s.sender.calls ≤ 1 ∧
    ((True ↔ cssNotification.serialize ≠ [] ∧ s'.completes s.sender.calls = 1) ↔
      ¬ (cssNotification.serialize = [] ∧ lit "/s" ≠ [] ∧ s.sender.Reaches (lit "/s"))) := by
  have hval : (brokenOff cssNotification).map
      (fun s => (s.stuck, (s.sender.sendNotificationPersistent (lit "/s") cssNotification).1)) =
        some (false, some { success := true }) := by
    decide +kernel
  obtain ⟨s, hrun, hpair⟩ := Option.map_eq_some_iff.1 hval
  obtain ⟨hstuck, hresult⟩ := Prod.mk.inj hpair
  obtain ⟨hwhole, hnext⟩ := sendNotificationPersistent_truthful _ _ _ s hrun
  obtain ⟨hone, hsuccess⟩ :=
    hnext hstuck (lit "/s") cssNotification { success := true } _ (Prod.ext hresult rfl)
  exact ⟨s, _, hrun, hwhole, hstuck, Prod.ext hresult rfl, hone, by simpa using hsuccess⟩

/-- A notification without a scheme is refused, and reported as sent. -/
theorem sendNotificationPersistent_reports_refused :
    ∃ (n : CacheNotification) (s : Sender), n.serialize = [] ∧
      Sender.sendNotificationPersistent (lit "/s") n { connects := [.connected], sends := [] } =
        (some { success := true }, s) :=
  ⟨{ url := lit "/a", hostname := lit "h", scheme := [], contentType := .kCss,
     capabilityMask := 12 }, _, rfl, rfl⟩

end PageSpeed
