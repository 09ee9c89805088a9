import PageSpeed.Run.Basic
import PageSpeed.Spec.PurgeGeneration

/-!
# The purge oracle

* `generation_bump`: what a purge of one key does to the generation of another.
* `Keeps`: the calls that do not lose the generation of a key.
* `wasPurgedSinceDispatch_exact`: after a capture, over such calls, the check says that the key
  was purged just when it was.
-/

namespace PageSpeed

open Run

variable {κ : Type} [DecidableEq κ]

namespace PurgeGenerations

variable (o : PurgeGenerations κ) {k k' : κ} {op : PurgeOp κ}

/-! ## One call -/

@[simp] theorem seed_all : (o.seed k).all = o.all := by
  unfold seed
  split <;> [rfl; split <;> rfl]

/-- A seeded key has its generation in the current table. -/
theorem lookup_seed_self : ((o.seed k).current.lookup k).getD 0 = o.generation k := by
  unfold seed generation
  cases hcur : o.current.lookup k with
  | some g => simp [hcur]
  | none => cases hprev : o.previous.lookup k <;> simp

/-- Seeding one key leaves the others. -/
theorem lookup_seed_of_ne (h : k' ≠ k) : (o.seed k).current.lookup k' = o.current.lookup k' ∧
    (o.seed k).previous.lookup k' = o.previous.lookup k' := by
  unfold seed
  split
  · exact ⟨rfl, rfl⟩
  · split <;> simp [h]

/-- The maps are rotated by a purge of the key. -/
def Rotates (k : κ) : Prop := ((o.seed k).current.insert k 0).keys.length > kMaxPurgeGenEntries

instance : Decidable (o.Rotates k) := inferInstanceAs (Decidable (_ > _))

theorem length_insert (m : AList fun _ : κ => ℕ) (g g' : ℕ) :
    (m.insert k g).keys.length = (m.insert k g').keys.length := by
  simp [AList.keys_insert]

/-- A purge, with or without a rotation. -/
theorem bump_eq : o.bumpPurgeGenerationLocked k =
    if o.Rotates k then
      { o.seed k with
        previous := (o.seed k).current.insert k (incr64 (o.generation k)), current := ∅ }
    else { o.seed k with current := (o.seed k).current.insert k (incr64 (o.generation k)) } := by
  simp only [bumpPurgeGenerationLocked, lookup_seed_self, rotate, Rotates,
    length_insert _ (incr64 (o.generation k)) 0]
  rfl

@[simp] theorem bump_all : (o.bumpPurgeGenerationLocked k).all = o.all := by
  rw [bump_eq]
  split <;> simp

/-- A purge counts. -/
theorem generation_bump_self :
    (o.bumpPurgeGenerationLocked k).generation k = incr64 (o.generation k) := by
  rw [bump_eq]
  split <;> simp [generation]

/-- **A purge of another key** keeps the generation, unless it rotates the maps: then what only
the previous map held is lost. -/
theorem generation_bump (h : k' ≠ k) : (o.bumpPurgeGenerationLocked k).generation k' =
    if o.Rotates k then (o.current.lookup k').getD 0 else o.generation k' := by
  obtain ⟨hcur, hprev⟩ := o.lookup_seed_of_ne h
  rw [bump_eq]
  split <;> simp [generation, h, hcur, hprev]

/-- Clearing a key forgets its generation. -/
theorem generation_clear_self : (o.clearDedupAndCooldown k).generation k = 0 := by
  simp [generation, clearDedupAndCooldown]

/-- And no other one. -/
theorem generation_clear (h : k' ≠ k) :
    (o.clearDedupAndCooldown k).generation k' = o.generation k' := by
  simp [generation, clearDedupAndCooldown, h]

/-! ## Many calls -/

/-- The call does not lose the generation of the key: it is not cleared when it is set, it is not
rotated out of the previous map, and no counter overflows. -/
def Keeps (k : κ) (o : PurgeGenerations κ) : PurgeOp κ → Prop
  | .capture _ => True
  | .purge k' =>
    if k' = k then o.generation k + 1 < 2 ^ 64
    else o.Rotates k' → (o.current.lookup k).isSome ∨ o.generation k = 0
  | .resetCache => o.all + 1 < 2 ^ 64
  | .clearDedupAndCooldown k' => k' = k → o.generation k = 0

/-- A purge of the key, or of everything. -/
def Purges (k : κ) (op : PurgeOp κ) : Prop := op = .purge k ∨ op = .resetCache

/-- **What a call does** to the counters that a baseline for the key is compared with. -/
theorem step_keeps {o o' : PurgeGenerations κ} (hkeeps : Keeps k o op)
    (hstep : o.step op = some o') :
    (op = .resetCache ∧ o'.all = o.all + 1) ∨
    (op = .purge k ∧ o'.all = o.all ∧ o'.generation k = o.generation k + 1) ∨
    (¬ Purges k op ∧ o'.all = o.all ∧ o'.generation k = o.generation k) := by
  cases op <;> cases hstep
  case capture k' => exact .inr (.inr ⟨by simp [Purges], rfl, rfl⟩)
  case resetCache => exact .inl ⟨rfl, Nat.mod_eq_of_lt hkeeps⟩
  case purge k' =>
    refine .inr ?_
    rcases eq_or_ne k' k with rfl | hne
    · have hlt : o.generation k' + 1 < 2 ^ 64 := by simpa [Keeps] using hkeeps
      exact .inl ⟨rfl, o.bump_all, o.generation_bump_self.trans (Nat.mod_eq_of_lt hlt)⟩
    · have hrot : o.Rotates k' → (o.current.lookup k).isSome ∨ o.generation k = 0 := by
        simpa [Keeps, hne] using hkeeps
      refine .inr ⟨by simp [Purges, hne], o.bump_all, ?_⟩
      rw [o.generation_bump hne.symm]
      split
      · rename_i h
        -- what the current map holds is the generation, and otherwise it is zero
        rcases hrot h with hsome | hzero
        · obtain ⟨g, hg⟩ := Option.isSome_iff_exists.1 hsome
          simp [generation, hg]
        · cases hg : o.current.lookup k with
          | none => simp [hzero]
          | some g => simp [generation, hg]
      · rfl
  case clearDedupAndCooldown k' =>
    refine .inr (.inr ⟨by simp [Purges], rfl, ?_⟩)
    rcases eq_or_ne k' k with rfl | hne
    · rw [hkeeps rfl]
      exact o.generation_clear_self
    · exact o.generation_clear hne.symm

/-- The counters against a baseline for the key, after some calls. -/
structure Counts (k : κ) (g : PurgeDispatchGen) (ops : List (PurgeOp κ))
    (o : PurgeGenerations κ) : Prop where
  all : g.allGen ≤ o.all ∧ (g.allGen < o.all ↔ .resetCache ∈ ops)
  url : .resetCache ∉ ops → g.urlGen ≤ o.generation k ∧ (g.urlGen < o.generation k ↔ .purge k ∈ ops)

/-- Every operation that keeps the entry keeps the count. -/
theorem Counts.step {g : PurgeDispatchGen} {ops : List (PurgeOp κ)} {o o' : PurgeGenerations κ}
    (h : Counts k g ops o) (hkeeps : Keeps k o op) (hstep : o.step op = some o') :
    Counts k g (ops ++ [op]) o' := by
  obtain ⟨hall, hurl⟩ := h
  rcases step_keeps hkeeps hstep with ⟨rfl, hall'⟩ | ⟨rfl, hall', hurl'⟩ | ⟨hother, hall', hurl'⟩
  · refine ⟨⟨by omega, ?_⟩, fun hreset => absurd (by simp) hreset⟩
    simp only [List.mem_append, List.mem_singleton, or_true, iff_true]
    omega
  · refine ⟨by simpa [hall'] using hall, fun hreset => ?_⟩
    obtain ⟨hle, -⟩ := hurl fun h => hreset (by simp [h])
    simp only [List.mem_append, List.mem_singleton, or_true, iff_true]
    omega
  · obtain ⟨hpurge, hreset⟩ := not_or.1 hother
    refine ⟨by simpa [hall', Ne.symm hreset] using hall, fun hno => ?_⟩
    simpa [hurl', Ne.symm hpurge] using hurl fun h => hno (by simp [h])

end PurgeGenerations

open PurgeGenerations

/-- **The purge oracle is exact** for a baseline whose key keeps its generation: from the capture
on, whatever went before it, the check is true just when the key, or everything, was purged. -/
theorem wasPurgedSinceDispatch_exact (k : κ) (o o' : PurgeGenerations κ) (ops : List (PurgeOp κ))
    (hrun : run step o ops = some o') (hkeeps : Meets step (Keeps k) o ops) :
    o'.wasPurgedSinceDispatch k (o.capturePurgeGen k) = true ↔ ∃ op ∈ ops, Purges k op := by
  have hcounts : Counts k (o.capturePurgeGen k) ops o' := by
    refine run_invariant (fun ops o op o' h => h.step) ?_ hkeeps hrun
    exact ⟨⟨le_rfl, by simp [capturePurgeGen]⟩, fun _ => ⟨le_rfl, by simp [capturePurgeGen]⟩⟩
  obtain ⟨⟨-, hall⟩, hurl⟩ := hcounts
  rw [wasPurgedSinceDispatch, decide_eq_true_eq, gt_iff_lt, gt_iff_lt, hall]
  by_cases hreset : .resetCache ∈ ops
  · exact iff_of_true (.inr hreset) ⟨_, hreset, .inr rfl⟩
  · rw [(hurl hreset).2, or_iff_left hreset]
    constructor
    · exact fun h => ⟨_, h, .inl rfl⟩
    · rintro ⟨op, hop, rfl | rfl⟩
      · exact hop
      · exact absurd hop hreset

/-- A key that was purged before the capture; then another one is purged and cleared, and then it is
purged again. -/
theorem wasPurgedSinceDispatch_exact_other :
    ∃ o o' o'' : PurgeGenerations Bool, run step {} [.purge true, .capture true] = some o ∧
      run step o [.purge false, .clearDedupAndCooldown false] = some o' ∧
      o'.wasPurgedSinceDispatch true (o.capturePurgeGen true) = false ∧
      run step o [.purge false, .clearDedupAndCooldown false, .purge true] = some o'' ∧
      o''.wasPurgedSinceDispatch true (o.capturePurgeGen true) = true := by
  refine ⟨_, _, _, rfl, rfl, Bool.eq_false_iff.2 fun h => ?_, rfl, ?_⟩
  · have hexact := wasPurgedSinceDispatch_exact true (bumpPurgeGenerationLocked {} true) _
      [.purge false, .clearDedupAndCooldown false] rfl ⟨fun h => absurd h (by decide), ?_⟩
    · obtain ⟨op, hop, hpurges⟩ := hexact.1 h
      fin_cases hop <;> exact absurd hpurges (by simp [Purges])
    · rintro _ ⟨⟩
      exact ⟨nofun, by rintro _ ⟨⟩; trivial⟩
  · refine (wasPurgedSinceDispatch_exact true (bumpPurgeGenerationLocked {} true) _
      [.purge false, .clearDedupAndCooldown false, .purge true] rfl
        ⟨fun h => absurd h (by decide), ?_⟩).2
      ⟨.purge true, by simp, .inl rfl⟩
    rintro _ ⟨⟩
    refine ⟨nofun, ?_⟩
    rintro _ ⟨⟩
    exact ⟨by rw [Keeps, if_pos rfl]; decide, by rintro _ ⟨⟩; trivial⟩

/-- A key that is purged and then cleared looks as if it had never been purged. -/
theorem wasPurgedSinceDispatch_forgets :
    ∃ o o' : PurgeGenerations Bool, run step {} [.capture true] = some o ∧
      run step o [.purge true, .clearDedupAndCooldown true] = some o' ∧
      o'.wasPurgedSinceDispatch true (o.capturePurgeGen true) = false :=
  ⟨_, _, rfl, rfl, by decide⟩

end PageSpeed
