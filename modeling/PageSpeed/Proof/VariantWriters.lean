import PageSpeed.Run.Basic
import PageSpeed.Spec.VariantWriters

/-!
# Purged content stays purged

* `Undoing`: a `WriteVariant` that has committed behind a purge and will still notice it.
* `Fenced.step`: whenever an alternate is older than the latest purge, there is such a call.
* `purged_stays_purged`: so there is no such alternate when no writer is at work, unless a restamp
  commits behind a purge.
-/

namespace PageSpeed

open Run Option

/-! ## Stale alternates -/

variable (s : FencedCache)

/-- The alternate was written by a writer whose baseline predates the latest purge or reset. -/
def FencedCache.Stale (a : Alternate) : Prop := ∃ fence ∈ a.fence, purgeCheck s.epoch fence = true

/-- The call is between its first fence check and its return. -/
def VariantWriter.InFlight : VariantWriter → Prop
  | .variant _ stage => stage ≠ .check ∧ ∀ written, stage ≠ .returned written
  | .restamp _ stage => match stage with
    | .list => False
    | .loop checked _ _ => checked = true
    | .read .. => True
    | .commit .. => True
    | .returned _ => False

/-- No write is under way. -/
def FencedCache.Quiet : Prop := ∀ w ∈ s.writers, ¬ w.InFlight

/-- A restamp that is about to commit, with the baseline it holds. -/
def VariantWriter.restampCommits : VariantWriter → Option ℕ
  | .restamp call (.commit ..) => some call.fence
  | _ => none

/-- No restamp commits when its URL was purged after the fence check before. -/
def RestampFenced : FencedAction → Prop
  | .advance i => ∀ w ∈ s.writers[i]?, ∀ fence ∈ w.restampCommits, purgeCheck s.epoch fence = false
  | _ => True

instance (s : FencedCache) (act : FencedAction) : Decidable (RestampFenced s act) := by
  cases act <;> unfold RestampFenced <;> infer_instance

/-! ## One step of a writer -/

/-- The call has committed, its URL was purged since its baseline, and its second check is to come
or has seen it. -/
def VariantWriter.Undoing (epoch : ℕ) : VariantWriter → Prop
  | .variant call stage => (stage = .recheck ∨ stage = .undo) ∧ purgeCheck epoch call.fence = true
  | .restamp .. => False

theorem VariantWriter.Undoing.inFlight {epoch : ℕ} {w : VariantWriter} (h : w.Undoing epoch) :
    w.InFlight := by
  cases w with
  | variant call stage => rcases h with ⟨rfl | rfl, -⟩ <;> exact ⟨nofun, nofun⟩
  | restamp call stage => exact h.elim

/-- What a step of a writer leaves in the cache: what was there, or an alternate of its own that it
will undo if need be, unless it is a restamp. -/
structure VariantWriter.Leaves (epoch : ℕ) (alternates alternates' : Alternates)
    (w w' : VariantWriter) : Prop where
  undoing : w.Undoing epoch → w'.Undoing epoch
  lookup : ∀ id a, alternates'.lookup id = some a → alternates.lookup id = some a ∨
    ∃ fence, a.fence = some fence ∧
      (w.restampCommits = some fence ∨ (purgeCheck epoch fence = true → w'.Undoing epoch))

variable {alternates : Alternates} {w w' : VariantWriter}

theorem lookup_insert_cases {id id' : UInt8} {a b : Alternate}
    (h : (alternates.insert id b).lookup id' = some a) : alternates.lookup id' =
      some a ∨ a = b := by
  rcases eq_or_ne id' id with rfl | hne
  · rw [AList.lookup_insert] at h
    exact .inr (some.inj h).symm
  · rw [AList.lookup_insert_ne hne] at h
    exact .inl h

/-- A step that leaves the alternates alone, by a writer with nothing to undo. -/
theorem VariantWriter.Leaves.of_not_undoing {epoch : ℕ}
    (h : ¬ w.Undoing epoch) : w.Leaves epoch alternates alternates w' :=
  ⟨fun hw => absurd hw h, fun _ _ ha => .inl ha⟩

variable {alternates alternates' : Alternates} {epoch epoch' : ℕ}

/-- What a write leaves, stage by stage. -/
theorem VariantWrite.step_leaves {call : VariantWrite}
    {stage stage' : VariantStage}
      (h : call.step epoch alternates stage = some (epoch', alternates', stage')) :
    alternates' = ∅ ∨ epoch' = epoch ∧
      (VariantWriter.variant call stage).Leaves epoch alternates alternates'
        (.variant call stage') := by
  cases stage <;> simp only [VariantWrite.step, some.injEq, Prod.mk.injEq, reduceCtorEq] at h
  case check =>
    obtain ⟨rfl, rfl, -⟩ := h
    exact .inr ⟨rfl, .of_not_undoing (by simp [VariantWriter.Undoing])⟩
  case commit =>
    obtain ⟨rfl, rfl, rfl⟩ := h
    refine .inr ⟨rfl, by simp [VariantWriter.Undoing], fun id a ha => ?_⟩
    rcases lookup_insert_cases ha with ha | rfl
    · exact .inl ha
    · exact .inr ⟨_, rfl, .inr fun hpurged => ⟨.inl rfl, hpurged⟩⟩
  case recheck =>
    obtain ⟨rfl, rfl, rfl⟩ := h
    refine .inr ⟨rfl, fun hw => ?_, fun _ _ ha => .inl ha⟩
    -- the second check sees the purge
    rw [if_pos hw.2]
    exact ⟨.inr rfl, hw.2⟩
  case undo => exact .inl h.2.1.symm

/-- What a restamp leaves, stage by stage. -/
theorem Restamp.step_leaves {call : Restamp}
    {stage stage' : RestampStage}
      (h : call.step epoch alternates stage = some (epoch', alternates', stage')) :
    epoch' = epoch ∧
      (VariantWriter.restamp call stage).Leaves epoch alternates alternates'
        (.restamp call stage') := by
  cases stage <;> simp only [Restamp.step, some.injEq, Prod.mk.injEq, reduceCtorEq] at h
  case commit =>
    obtain ⟨rfl, rfl, -⟩ := h
    refine ⟨rfl, id, fun id a ha => ?_⟩
    rcases lookup_insert_cases ha with ha | rfl
    · exact .inl ha
    · exact .inr ⟨_, rfl, .inl rfl⟩
  all_goals
    obtain ⟨rfl, rfl, -⟩ := h
    exact ⟨rfl, .of_not_undoing id⟩

/-- What either call leaves. -/
theorem VariantWriter.step_leaves
    (h : w.step epoch alternates = some (epoch', alternates', w')) :
    alternates' = ∅ ∨ epoch' = epoch ∧ w.Leaves epoch alternates alternates' w' := by
  cases w with
  | variant call stage =>
    obtain ⟨⟨e, as, stage'⟩, hstep, heq⟩ := map_eq_some_iff.1 h
    simp only [Prod.mk.injEq] at heq
    obtain ⟨rfl, rfl, rfl⟩ := heq
    exact VariantWrite.step_leaves hstep
  | restamp call stage =>
    obtain ⟨⟨e, as, stage'⟩, hstep, heq⟩ := map_eq_some_iff.1 h
    simp only [Prod.mk.injEq] at heq
    obtain ⟨rfl, rfl, rfl⟩ := heq
    exact .inr (Restamp.step_leaves hstep)

/-! ## All interleavings -/

/-- Whoever left a stale alternate behind is about to undo it. -/
def FencedCache.Fenced : Prop :=
  ∀ id a, s.alternates.lookup id = some a → s.Stale a → ∃ w ∈ s.writers, w.Undoing s.epoch

theorem FencedCache.fenced_of_empty {s : FencedCache} (h : s.alternates = ∅) : s.Fenced := by
  intro id a ha
  simp [h] at ha

/-- Every action keeps the fence. -/
theorem FencedCache.Fenced.step {s t : FencedCache} {act : FencedAction} (h : s.Fenced)
    (hfenced : RestampFenced s act) (hstep : s.step act = some t) : t.Fenced := by
  cases act <;> simp only [FencedCache.step, ite_none_right_eq_some, some.injEq] at hstep
  case writeVariant call | restamp call =>
    obtain ⟨-, rfl⟩ := hstep
    intro id a ha hstale
    obtain ⟨w, hw, hundo⟩ := h id a ha hstale
    exact ⟨w, List.mem_append_left _ hw, hundo⟩
  case invalidateUrl | resetCache =>
    subst hstep
    exact fenced_of_empty rfl
  case advance i =>
    obtain ⟨⟨epoch, alternates, w'⟩, hw', rfl⟩ := map_eq_some_iff.1 hstep
    obtain ⟨w, hw, hwstep⟩ := bind_eq_some_iff.1 hw'
    obtain ⟨hi, rfl⟩ := List.getElem?_eq_some_iff.1 hw
    have hmem : w' ∈ s.writers.set i w' := List.mem_set hi w'
    rcases VariantWriter.step_leaves hwstep with rfl | ⟨rfl, hleaves⟩
    · exact fenced_of_empty rfl
    intro id a ha hstale
    rcases hleaves.lookup id a ha with hold | ⟨fence, hfence, hcommits | hundo⟩
    · -- the one that is about to undo it is still there
      obtain ⟨v, hv, hundo⟩ := h id a hold hstale
      obtain ⟨j, hj, rfl⟩ := List.getElem_of_mem hv
      rcases eq_or_ne i j with rfl | hne
      · exact ⟨w', hmem, hleaves.undoing hundo⟩
      · refine ⟨_, List.mem_iff_getElem.2 ⟨j, by simpa using hj, ?_⟩, hundo⟩
        rw [List.getElem_set_ne hne]
    · -- a restamp that commits is not behind a purge
      obtain ⟨fence', hfence', hpurged⟩ := hstale
      obtain rfl := some.inj (hfence.symm.trans hfence')
      have hnot := hfenced _ hw fence hcommits
      exact absurd hpurged (by simp [hnot])
    · -- a write behind a purge is the one that its writer is about to undo
      obtain ⟨fence', hfence', hpurged⟩ := hstale
      obtain rfl := some.inj (hfence.symm.trans hfence')
      exact ⟨w', hmem, hundo hpurged⟩

/-- **Purged content stays purged**, in every interleaving in which no restamp commits behind a
purge: when no writer is between its first fence check and its return, no alternate is from a writer
whose baseline predates the latest purge or reset. -/
theorem purged_stays_purged (alternates : Alternates) (acts : List FencedAction) (s : FencedCache)
    (hinit : ∀ id a, alternates.lookup id = some a → a.fence = none)
    (hrun : run FencedCache.step { alternates := alternates } acts = some s)
    (hfenced : Meets FencedCache.step RestampFenced { alternates := alternates } acts)
      (hquiet : s.Quiet) :
    ∀ id a, s.alternates.lookup id = some a → ¬ s.Stale a := by
  have h : s.Fenced := by
    refine run_invariant (I := fun _ s => s.Fenced) (fun _ s act t h => h.step) ?_ hfenced hrun
    rintro id a ha ⟨fence, hfence, -⟩
    rw [hinit id a ha] at hfence
    cases hfence
  intro id a ha hstale
  obtain ⟨w, hw, hundo⟩ := h id a ha hstale
  exact hquiet w hw hundo.inFlight

/-- A variant that is committed behind a purge is undone, and one with a fresh baseline stays. -/
theorem purged_stays_purged_race :
    ∃ s : FencedCache, run FencedCache.step {} [.writeVariant ⟨0, 1, [65], {}, true⟩, .advance 0,
      .invalidateUrl,
        .advance 0, .advance 0, .advance 0, .writeVariant ⟨2, 1, [66], {}, true⟩,
          .advance 1, .advance 1, .advance 1] = some s ∧
      (s.alternates.lookup 1).map Alternate.content = some [66] ∧
      ∀ id a, s.alternates.lookup id = some a → ¬ s.Stale a := by
  have hrun : run FencedCache.step {} [.writeVariant ⟨0, 1, [65], {}, true⟩, .advance 0,
    .invalidateUrl,
      .advance 0, .advance 0, .advance 0, .writeVariant ⟨2, 1, [66], {}, true⟩,
        .advance 1, .advance 1,
      .advance 1] = some ⟨2, AList.singleton 1 (VariantWrite.alternate ⟨2, 1, [66], {}, true⟩),
        [.variant ⟨0, 1, [65], {}, true⟩ (.returned false),
          .variant ⟨2, 1, [66], {}, true⟩ (.returned true)]⟩ := rfl
  exact ⟨_, hrun, rfl, purged_stays_purged ∅ _ _ (by simp) hrun (by decide)
    (by simp [FencedCache.Quiet, VariantWriter.InFlight])⟩

/-- A restamp that has read an alternate brings it back after the purge. -/
theorem restamp_resurrects :
    ∃ s : FencedCache, run FencedCache.step { alternates := AList.singleton 1 ⟨[65], {}, none⟩ }
        [.restamp ⟨0, {}, 0⟩, .advance 0, .advance 0, .advance 0, .invalidateUrl, .advance 0,
          .advance 0] = some s ∧ s.Quiet ∧ ∃ a, s.alternates.lookup 1 = some a ∧ s.Stale a := by
  refine ⟨⟨1, AList.singleton 1 ⟨[65], Restamp.metadata ⟨0, {}, 0⟩ 1 {}, some 0⟩,
    [.restamp ⟨0, {}, 0⟩ (.returned 1)]⟩, rfl, ?_, _, rfl, 0, rfl, rfl⟩
  simp [FencedCache.Quiet, VariantWriter.InFlight]

end PageSpeed
