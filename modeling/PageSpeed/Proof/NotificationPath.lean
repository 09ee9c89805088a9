import PageSpeed.Proof.ClientRead
import PageSpeed.Proof.NotificationSender

/-!
# From the sender to the worker

What the worker makes of a connection that the persistent sender writes on, however its bytes
arrive.
-/

namespace PageSpeed

open Run Wire CacheNotification ClientContext List Framing

variable {wire : List WireWrite}

/-- The frames that went out whole on a connection. A notification that is refused has none. -/
def wholeOf (wire : List WireWrite) : List WireWrite :=
  wire.filter fun w => w.Complete ∧ w.bytes ≠ []

/-- Each whole frame is its notification. -/
theorem notificationOf_wholeOf :
    ((wholeOf wire).map (·.bytes)).filterMap notificationOf =
      (wholeOf wire).map (·.notification) := by
  rw [filterMap_map, ← filterMap_eq_map]
  refine filterMap_congr fun w h => ?_
  rw [wholeOf, mem_filter, decide_eq_true_eq, WireWrite.Complete] at h
  obtain ⟨-, hw, hne⟩ := h
  rw [hw] at hne
  simp [hw, notificationOf_serialize (not_refuses_of_serialize hne)]

/-- The framing of the worker finds the whole frames. -/
theorem WholeFrames.drain (h : WholeFrames wire) :
    ((notificationFraming {}).drain (wire.flatMap (·.bytes))).1 = (wholeOf wire).map (·.bytes) := by
  obtain ⟨hparts, hwhole⟩ := h
  induction wire with
  | nil => exact congrArg Prod.fst (drain_more (head_nil _))
  | cons w wire ih =>
    have hframe (hne : w.notification.serialize ≠ []) :=
      isFrame_serialize (not_refuses_of_serialize hne)
    by_cases hw : w.bytes = w.notification.serialize
    · have hdrain := ih (forall_mem_cons.1 hparts).2 (by cases wire <;> simp_all)
      by_cases hnil : w.bytes = []
      · simpa [wholeOf, hnil] using hdrain
      · have hfr := hframe (hw ▸ hnil)
        rw [flatMap_cons, drain_frame (hw ▸ hfr.head_append _), take_left, drop_left, hdrain]
        simp [wholeOf, WireWrite.Complete, hw, hw ▸ hnil]
    · -- only the last frame may have broken off
      obtain rfl : wire = [] := by
        by_contra hne
        exact hw (hwhole w (by simp [dropLast_cons_of_ne_nil hne]))
      have hpre := hparts w (mem_singleton_self w)
      have hlt := hpre.length_le.lt_of_ne fun heq => hw (hpre.eq_of_length heq)
      have hfr := hframe (ne_nil_of_length_pos (Nat.zero_lt_of_lt hlt))
      simp [drain_more (hfr.head_of_part hpre hlt), wholeOf, WireWrite.Complete, hw]

/-- **Whatever `connect`, `send` and `poll` answer**, a worker that has read a connection up to some
point, in reads of any size, has dispatched the first of the notifications that went out whole on
it, in order and once each; all of them if it has read everything and not closed the connection. -/
theorem worker_dispatches_written (connects : List ConnectOutcome) (sends : List SendOutcome)
    (calls : List (Bytes × CacheNotification)) (s : SenderRun)
    (hrun : run SenderRun.step ⟨{ connects := connects, sends := sends }, false⟩ calls = some s)
    (wire : List WireWrite) (hwire : wire ∈ s.sender.wires) (reads : List Bytes)
      (hreads : ∀ r ∈ reads, r ≠ []) (hcut : reads.flatten <+: wire.flatMap (·.bytes)) :
    ∃ ctx, readAll {} reads = .ok ctx ∧ ctx.dispatched <+: (wholeOf wire).map (·.notification) ∧
      (reads.flatten = wire.flatMap (·.bytes) → ctx.closing = false →
        ctx.dispatched = (wholeOf wire).map (·.notification)) := by
  obtain ⟨ctx, hctx, hdisp, hstate⟩ := readAll_follows {} hreads
  rw [← notificationOf_wholeOf, ← ((SenderRun.ok_run hrun).whole wire hwire).drain]
  refine ⟨ctx, hctx, ?_, ?_⟩
  · obtain ⟨rest, hrest⟩ := hcut
    rw [hdisp, ← hrest]
    exact ((feedAll_starts _ (head_nil _) reads).trans (drain_starts _ _)).filterMap _
  · intro hall hopen
    rw [hdisp, ← hall]
    cases hst : ((notificationFraming {}).feedAll ({} : ReadLimits).maxBufferSize reads).2 with
    | none => simp [hst, hopen] at hstate
    | some rest => rw [feedAll_open reads rest hst (head_nil _)]

/-- The second connection, on which the frame went out whole, is read in two pieces. -/
theorem worker_dispatches_written_broken :
    ∃ s, brokenOff cssNotification = some s ∧ ∃ wire ∈ s.sender.wires, ∃ ctx,
      readAll {} [(wire.flatMap (·.bytes)).take 7, (wire.flatMap (·.bytes)).drop 7] = .ok ctx ∧
        ctx.dispatched = [cssNotification] := by
  have hval : (brokenOff cssNotification).map (fun s => s.sender.wires[1]?.map fun wire =>
      let bytes := wire.flatMap (·.bytes)
      ((wholeOf wire).map (·.notification), decide (7 < bytes.length),
        (readAll {} [bytes.take 7, bytes.drop 7]).toOption.map (·.closing))) =
        some (some ([cssNotification], true, some false)) := by
    decide +kernel
  obtain ⟨s, hrun, hwires⟩ := Option.map_eq_some_iff.1 hval
  obtain ⟨wire, hget, heval⟩ := Option.map_eq_some_iff.1 hwires
  dsimp only at heval
  generalize hbytes : wire.flatMap (·.bytes) = bytes at heval
  obtain ⟨hwhole, hrest⟩ := Prod.mk.inj heval
  obtain ⟨hlong, hopen⟩ := Prod.mk.inj hrest
  have hlong := of_decide_eq_true hlong
  have hcut : [bytes.take 7, bytes.drop 7].flatten = bytes := by simp
  have hreads : ∀ r ∈ [bytes.take 7, bytes.drop 7], r ≠ [] := by
    simp only [forall_mem_cons, ne_eq, take_eq_nil_iff, drop_eq_nil_iff]
    refine ⟨?_, by omega, by simp⟩
    rintro (h | rfl)
    · cases h
    · cases hlong
  obtain ⟨ctx, hctx, -, hall⟩ := worker_dispatches_written _ _ _ s hrun wire (mem_of_getElem? hget)
    [bytes.take 7, bytes.drop 7] hreads (by rw [hcut, hbytes])
  refine ⟨s, hrun, wire, mem_of_getElem? hget, ctx, by rw [hbytes, hctx], ?_⟩
  rw [hctx] at hopen
  rw [hall (by rw [hcut, hbytes]) (Option.some.inj hopen), hwhole]

end PageSpeed
