import PageSpeed.Spec.ProcessedMarks

/-!
# Marks and copy records age together

* `keys`: a set of marks by its keys, with what each operation does to them.
* `Paired`: a record is in the generation of its mark, and the generations have room.
* `Kept`: where a mark is while other keys are marked after it.
* `copied`: the records, read off the operations.
-/

namespace PageSpeed

open Wire List

namespace MarkSet

/-- The keys of a set of marks. -/
def keys (ms : MarkSet) : List Bytes := ms.map (·.key)

variable {ms : MarkSet} {m : Mark} {k : Bytes}

theorem notMem_keys_nil : k ∉ keys [] := not_mem_nil

/-- Membership by key. -/
theorem contains_iff : contains ms k ↔ k ∈ keys ms := by
  simp [contains, keys]

/-- The keys behind an insertion. -/
theorem mem_keys_insert : k ∈ keys (insert ms m) ↔ k ∈ keys ms ∨ k = m.key := by
  unfold insert
  split
  · rename_i h
    constructor
    · exact .inl
    · rintro (h' | rfl)
      exacts [h', contains_iff.1 h]
  · simp [keys]

theorem mem_keys_filter (p : Bytes → Bool) : k ∈ keys (ms.filter fun m => p m.key) ↔
    k ∈ keys ms ∧ p k := by
  simp only [keys, mem_map, mem_filter]
  constructor
  · rintro ⟨m, ⟨hm, hp⟩, rfl⟩
    exact ⟨⟨m, hm, rfl⟩, hp⟩
  · rintro ⟨⟨m, hm, rfl⟩, hp⟩
    exact ⟨m, ⟨hm, hp⟩, rfl⟩

/-- The keys behind an erasure. -/
theorem mem_keys_erase {k' : Bytes} : k ∈ keys (erase ms k') ↔ k ∈ keys ms ∧ k ≠ k' := by
  have h := @mem_keys_filter ms k fun x => decide (x ≠ k')
  rwa [decide_eq_true_iff] at h

theorem nodup_keys_filter {p : Mark → Bool} (h : (keys ms).Nodup) : (keys (ms.filter p)).Nodup :=
  h.sublist (filter_sublist.map _)

/-- Every key is there at most once. -/
theorem nodup_keys_insert (h : (keys ms).Nodup) : (keys (insert ms m)).Nodup := by
  unfold insert
  split
  · exact h
  · rename_i hout
    have hnew : m.key ∉ keys ms := fun hmem => hout (contains_iff.2 hmem)
    rw [keys, map_append, nodup_append]
    refine ⟨h, nodup_singleton _, ?_⟩
    intro a ha b hb heq
    obtain rfl : b = m.key := by simpa using hb
    exact hnew (heq ▸ ha)

theorem length_insert_le (ms : MarkSet) (m : Mark) : (insert ms m).length ≤ ms.length + 1 := by
  unfold insert
  split
  · omega
  · simp

end MarkSet

open MarkSet

/-- The operation forgets the key. -/
def MarkOp.erases : MarkOp → Bytes → Bool
  | .eraseUrlMarks start, k => start.isPrefixOf k
  | .eraseHealed key, k => k = key
  | .resetCache, _ => true
  | _, _ => false

namespace ProcessedMarks

/-- What is left of the four sets when only some keys are kept. -/
def keep (p : Bytes → Bool) (ms : ProcessedMarks) : ProcessedMarks :=
  ⟨ms.processedCurrent.filter fun m => p m.key, ms.processedPrevious.filter fun m => p m.key,
    ms.copyWrittenCurrent.filter fun m => p m.key, ms.copyWrittenPrevious.filter fun m => p m.key⟩

variable {M : ℕ} {ms : ProcessedMarks} {m : Mark} {k : Bytes}

/-- Everything that an operation can do to the sets. -/
inductive Effect (M : ℕ) (ms : ProcessedMarks) : MarkOp → ProcessedMarks → Prop
  | rotate (m : Mark) (hfull : (insert ms.processedCurrent m).length > M) :
    Effect M ms (.markVariantProcessed m)
      ⟨[], insert ms.processedCurrent m, [], erase ms.copyWrittenCurrent m.key⟩
  | mark (m : Mark) (hroom : (insert ms.processedCurrent m).length ≤ M) :
    Effect M ms (.markVariantProcessed m)
      ⟨insert ms.processedCurrent m, ms.processedPrevious, erase ms.copyWrittenCurrent m.key,
        erase ms.copyWrittenPrevious m.key⟩
  | copyCurrent (m : Mark) (hmem : m.key ∈ keys ms.processedCurrent) :
    Effect M ms (.markCopyWritten m)
      { ms with copyWrittenCurrent := insert ms.copyWrittenCurrent m }
  | copyPrevious (m : Mark) (hout : m.key ∉ keys ms.processedCurrent)
      (hmem : m.key ∈ keys ms.processedPrevious) :
    Effect M ms (.markCopyWritten m)
      { ms with copyWrittenPrevious := insert ms.copyWrittenPrevious m }
  | copyRefused (m : Mark) (hout : m.key ∉ keys ms.processedCurrent)
      (hprev : m.key ∉ keys ms.processedPrevious) :
    Effect M ms (.markCopyWritten m) ms
  | erase (op : MarkOp) (hmark : ∀ m, op ≠ .markVariantProcessed m)
      (hcopy : ∀ m, op ≠ .markCopyWritten m) :
    Effect M ms op (ms.keep fun k => !op.erases k)

/-- What an operation does is one of the cases. -/
theorem effect_apply (M : ℕ) (ms : ProcessedMarks) (op : MarkOp) :
    Effect M ms op (ms.apply M op) := by
  cases op with
  | markVariantProcessed m =>
    simp only [apply, markVariantProcessed]
    split_ifs with hfull
    · exact .rotate m hfull
    · exact .mark m (not_lt.1 hfull)
  | markCopyWritten m =>
    simp only [apply, markCopyWritten, contains_iff]
    split_ifs with hcur hprev
    · exact .copyCurrent m hcur
    · exact .copyPrevious m hcur hprev
    · exact .copyRefused m hcur hprev
  | eraseUrlMarks start =>
    have h := @Effect.erase M ms (.eraseUrlMarks start) nofun nofun
    simpa only [keep, MarkOp.erases, apply, eraseUrlMarksLocked, decide_not,
      Bool.decide_eq_true] using h
  | eraseHealed key =>
    have h := @Effect.erase M ms (.eraseHealed key) nofun nofun
    simpa [keep, MarkOp.erases, apply, eraseHealed, MarkSet.erase] using h
  | resetCache =>
    have h := @Effect.erase M ms .resetCache nofun nofun
    simpa [keep, MarkOp.erases, apply] using h

/-- One mark for each key, each record in the generation of its mark, and no more marks than a
generation has room for. -/
structure Paired (M : ℕ) (ms : ProcessedMarks) : Prop where
  current_nodup : (keys ms.processedCurrent).Nodup
  current_length : ms.processedCurrent.length ≤ M
  previous_length : ms.processedPrevious.length ≤ M + 1
  copy_current : ∀ k ∈ keys ms.copyWrittenCurrent, k ∈ keys ms.processedCurrent
  copy_previous : ∀ k ∈ keys ms.copyWrittenPrevious, k ∈ keys ms.processedPrevious ∧
    k ∉ keys ms.processedCurrent

/-- Every operation keeps a record in the generation of its mark. -/
theorem Paired.apply (h : Paired M ms) (op : MarkOp) : Paired M (ms.apply M op) := by
  have heffect := effect_apply M ms op
  generalize ms.apply M op = ms' at heffect ⊢
  cases heffect with
  | rotate m hfull =>
    refine ⟨nodup_nil, Nat.zero_le M, ?_, by simp [MarkSet.keys], ?_⟩
    · exact (length_insert_le _ m).trans (Nat.succ_le_succ h.current_length)
    · intro k hk
      exact ⟨mem_keys_insert.2
        (.inl (h.copy_current k (mem_keys_erase.1 hk).1)), by simp [MarkSet.keys]⟩
  | mark m hroom =>
    refine ⟨nodup_keys_insert h.current_nodup, hroom, h.previous_length, ?_, ?_⟩
    · exact fun k hk => mem_keys_insert.2 (.inl (h.copy_current k (mem_keys_erase.1 hk).1))
    · intro k hk
      obtain ⟨hk, hne⟩ := mem_keys_erase.1 hk
      refine ⟨(h.copy_previous k hk).1, fun hcur => ?_⟩
      rcases mem_keys_insert.1 hcur with hcur | heq
      exacts [(h.copy_previous k hk).2 hcur, hne heq]
  | copyCurrent m hmem =>
    refine { h with copy_current := ?_ }
    intro k hk
    rcases mem_keys_insert.1 hk with hk | rfl
    exacts [h.copy_current k hk, hmem]
  | copyPrevious m hout hmem =>
    refine { h with copy_previous := ?_ }
    intro k hk
    rcases mem_keys_insert.1 hk with hk | rfl
    exacts [h.copy_previous k hk, ⟨hmem, hout⟩]
  | copyRefused => exact h
  | erase =>
    have hkeys : ∀ {k} {l : MarkSet}, k ∈ keys (l.filter fun m => !op.erases m.key) ↔ k ∈ keys l ∧
        !op.erases k :=
      mem_keys_filter (!op.erases ·)
    refine ⟨nodup_keys_filter h.current_nodup, (length_filter_le _ _).trans h.current_length,
      (length_filter_le _ _).trans h.previous_length, ?_, ?_⟩
    · intro k hk
      exact hkeys.2 ((hkeys.1 hk).imp_left (h.copy_current k))
    · intro k hk
      obtain ⟨hk, hp⟩ := hkeys.1 hk
      exact ⟨hkeys.2 ⟨(h.copy_previous k hk).1, hp⟩,
        fun hcur => (h.copy_previous k hk).2 (hkeys.1 hcur).1⟩

/-- So do all of them. -/
theorem paired_run (M : ℕ) (ops : List MarkOp) : Paired M (ops.foldl (apply M) {}) :=
  List.foldlRecOn ops (apply M) ⟨nodup_nil, Nat.zero_le _, Nat.zero_le _,
    fun _ hk => absurd hk notMem_keys_nil,
    fun _ hk => absurd hk notMem_keys_nil⟩ fun _ h op _ => h.apply op

/-! ## How long a mark stays -/

/-- The key is in the newer generation, or in the older one with only some other keys in the
newer. -/
def Kept (k : Bytes) (others : Finset Bytes) (ms : ProcessedMarks) : Prop :=
  k ∈ keys ms.processedCurrent ∨
    (k ∈ keys ms.processedPrevious ∧ ∀ k' ∈ keys ms.processedCurrent, k' ∈ others)

end ProcessedMarks

/-- The key that an operation marks. -/
def MarkOp.marks : MarkOp → Option Bytes
  | .markVariantProcessed m => some m.key
  | _ => none

/-- The keys other than `k` that are marked. -/
def othersMarked (k : Bytes) (ops : List MarkOp) : Finset Bytes :=
  (ops.filterMap MarkOp.marks).toFinset.erase k

variable {ops : List MarkOp}

/-- The other keys that were marked. -/
theorem mem_othersMarked {k k' : Bytes} : k' ∈ othersMarked k ops ↔ k' ≠ k ∧ ∃ op ∈ ops,
    op.marks = some k' := by
  simp [othersMarked]

theorem othersMarked_subset {k : Bytes} {ops more : List MarkOp} :
    othersMarked k ops ⊆ othersMarked k (ops ++ more) := by
  intro k' h
  obtain ⟨hne, op, hop, hmark⟩ := mem_othersMarked.1 h
  exact mem_othersMarked.2 ⟨hne, op, mem_append_left _ hop, hmark⟩

namespace ProcessedMarks

/-- A mark stays while fewer than `M` other keys are marked. -/
theorem Kept.apply (h : Paired M ms) {op : MarkOp} (hk : Kept k (othersMarked k ops) ms)
    (herase : op.erases k = false) (hfew : (othersMarked k (ops ++ [op])).card ≤ M) :
    Kept k (othersMarked k (ops ++ [op])) (ms.apply M op) := by
  have hmore : ∀ k' ∈ othersMarked k ops, k' ∈ othersMarked k (ops ++ [op]) :=
    fun _ => (othersMarked_subset ·)
  -- the newer generation, where the key is only in the older one
  have hnew : k ∉ keys ms.processedCurrent → ∀ m, op = .markVariantProcessed m → m.key ≠ k →
      k ∈ keys ms.processedPrevious ∧
        ∀ k' ∈ keys (insert ms.processedCurrent m), k' ∈ othersMarked k (ops ++ [op]) := by
    rintro hout m rfl hne
    obtain ⟨hprev, hothers⟩ := hk.resolve_left hout
    refine ⟨hprev, fun k' hk' => ?_⟩
    rcases mem_keys_insert.1 hk' with hk' | rfl
    · exact hmore k' (hothers k' hk')
    · exact mem_othersMarked.2 ⟨hne, _, mem_append_right _ (mem_singleton.2 rfl), rfl⟩
  have heffect := effect_apply M ms op
  generalize ms.apply M op = ms' at heffect ⊢
  cases heffect with
  | rotate m hfull =>
    refine .inr ⟨mem_keys_insert.2 ?_, by simp [MarkSet.keys]⟩
    by_contra hcon
    obtain ⟨hout, hne⟩ := not_or.1 hcon
    -- the generation that is full has more than `M` keys, all of them marked after `k`
    have hsub := (hnew hout m rfl (Ne.symm hne)).2
    have hcard : (insert ms.processedCurrent m).length ≤
        (othersMarked k (ops ++ [.markVariantProcessed m])).card := by
      have hlen : (keys (insert ms.processedCurrent m)).length =
          (insert ms.processedCurrent m).length :=
        length_map _
      rw [← hlen, ← toFinset_card_of_nodup (nodup_keys_insert h.current_nodup)]
      exact Finset.card_le_card fun k' hk' => hsub k' (mem_toFinset.1 hk')
    omega
  | mark m hroom =>
    by_cases hcur : k ∈ keys (insert ms.processedCurrent m)
    · exact .inl hcur
    · obtain ⟨hout, hne⟩ := not_or.1 fun hcon => hcur (mem_keys_insert.2 hcon)
      exact .inr (hnew hout m rfl (Ne.symm hne))
  | erase =>
    have hkeep : ∀ l : MarkSet, k ∈ keys l →
        k ∈ keys (l.filter fun m => !op.erases m.key) := fun l hl =>
      (mem_keys_filter (!op.erases ·)).2 ⟨hl, by simp [herase]⟩
    refine hk.imp (hkeep _) fun ⟨hprev, hothers⟩ => ⟨hkeep _ hprev, fun k' hk' => ?_⟩
    exact hmore k' (hothers k' ((mem_keys_filter (!op.erases ·)).1 hk').1)
  | _ => exact hk.imp_right fun ⟨hprev, hothers⟩ => ⟨hprev, fun k' hk' => hmore k' (hothers k' hk')⟩

/-- A key that is marked is in one of the generations, with nothing marked after it. -/
theorem kept_mark (M : ℕ) (ms : ProcessedMarks) (m : Mark) :
    Kept m.key (othersMarked m.key []) (ms.apply M (.markVariantProcessed m)) := by
  have heffect := effect_apply M ms (.markVariantProcessed m)
  generalize ms.apply M (.markVariantProcessed m) = ms' at heffect ⊢
  cases heffect with
  | rotate => exact .inr ⟨mem_keys_insert.2 (.inr rfl), by simp [MarkSet.keys]⟩
  | mark => exact .inl (mem_keys_insert.2 (.inr rfl))
  | erase _ hmark => exact absurd rfl (hmark m)

/-- The same over a list of operations. -/
theorem kept_run (h : Paired M ms) (m : Mark) (herase : ∀ op ∈ ops, op.erases m.key = false)
    (hfew : (othersMarked m.key ops).card ≤ M) :
    Kept m.key (othersMarked m.key ops)
      (ops.foldl (apply M) (ms.apply M (.markVariantProcessed m))) := by
  induction ops using reverseRecOn with
  | nil => exact kept_mark M ms m
  | append_singleton ops op ih =>
    have hrest := ih (fun op hop => herase op (mem_append_left _ hop))
      ((Finset.card_le_card othersMarked_subset).trans hfew)
    have hpaired : Paired M (ops.foldl (apply M) (ms.apply M (.markVariantProcessed m))) :=
      List.foldlRecOn ops (apply M) (h.apply _) fun _ h op _ => h.apply op
    rw [foldl_append]
    exact hrest.apply hpaired (herase op (by simp)) hfew

/-! ## Which marks have a copy record -/

variable {M : ℕ} {ms : ProcessedMarks} {op : MarkOp} {k : Bytes}

/-- A hit is a mark in either generation. -/
theorem dedupHit_iff : ms.dedupHit k ↔ k ∈ keys ms.processedCurrent ∨
    k ∈ keys ms.processedPrevious := by
  rw [dedupHit, Bool.or_eq_true, contains_iff, contains_iff]

/-- A copy is expected if there is a record in either generation. -/
theorem copyExpected_iff : ms.copyExpected k ↔ k ∈ keys ms.copyWrittenCurrent ∨
    k ∈ keys ms.copyWrittenPrevious := by
  rw [copyExpected, Bool.or_eq_true, contains_iff, contains_iff]

/-- A new mark has no record. -/
theorem copyExpected_mark (M : ℕ) (ms : ProcessedMarks) (m : Mark) :
    ¬ (ms.apply M (.markVariantProcessed m)).copyExpected m.key := by
  have heffect := effect_apply M ms (.markVariantProcessed m)
  generalize ms.apply M (.markVariantProcessed m) = ms' at heffect ⊢
  rw [copyExpected_iff]
  cases heffect with
  | rotate => exact not_or.2 ⟨notMem_keys_nil, fun h => (mem_keys_erase.1 h).2 rfl⟩
  | mark =>
    exact not_or.2 ⟨fun h => (mem_keys_erase.1 h).2 rfl, fun h => (mem_keys_erase.1 h).2 rfl⟩
  | erase _ hmark => exact absurd rfl (hmark m)

/-- A key that stays a hit without a new mark was one, and has a record if it had one or gets
one. -/
theorem copyExpected_apply (h : Paired M ms) (hmark : op.marks ≠ some k)
    (hhit : (ms.apply M op).dedupHit k) :
    ms.dedupHit k ∧
    ((ms.apply M op).copyExpected k ↔ ms.copyExpected k ∨ ∃ m : Mark,
      m.key = k ∧ op = .markCopyWritten m) := by
  have heffect := effect_apply M ms op
  generalize ms.apply M op = ms' at heffect hhit ⊢
  simp only [dedupHit_iff, copyExpected_iff] at hhit ⊢
  cases heffect with
  | rotate m =>
    have hne : k ≠ m.key := fun heq => hmark (by rw [heq]; rfl)
    -- the newer generation becomes the older one, and its keys have their records with them
    have hcur : k ∈ keys ms.processedCurrent :=
      (mem_keys_insert.1 (hhit.resolve_left notMem_keys_nil)).resolve_right hne
    have hprev : k ∉ keys ms.copyWrittenPrevious := fun hk => (h.copy_previous k hk).2 hcur
    refine ⟨.inl hcur, ?_⟩
    simp [mem_keys_erase, hne, hprev, notMem_keys_nil]
  | mark m =>
    have hne : k ≠ m.key := fun heq => hmark (by rw [heq]; rfl)
    refine ⟨hhit.imp_left fun hk => (mem_keys_insert.1 hk).resolve_right hne, ?_⟩
    simp [mem_keys_erase, hne]
  | copyCurrent | copyPrevious =>
    refine ⟨hhit, ?_⟩
    simp only [mem_keys_insert, MarkOp.markCopyWritten.injEq, exists_eq_right', eq_comm (a := k)]
    tauto
  | copyRefused m hout hprev =>
    refine ⟨hhit, ?_⟩
    constructor
    · exact .inl
    · rintro (hk | ⟨m', rfl, heq⟩)
      · exact hk
      · cases heq
        exact absurd hhit (not_or.2 ⟨hout, hprev⟩)
  | erase _ _ hnocopy =>
    have hmem : ∀ l : MarkSet, k ∈ keys (l.filter fun m => !op.erases m.key) ↔ k ∈ keys l ∧
        (!op.erases k) :=
      fun _ => mem_keys_filter (!op.erases ·)
    have hnot : ¬ ∃ m : Mark, m.key = k ∧ op = .markCopyWritten m :=
      fun ⟨m, _, heq⟩ => hnocopy m heq
    rw [keep, hmem, hmem, ← or_and_right] at hhit
    refine ⟨hhit.1, ?_⟩
    rw [keep, hmem, hmem, ← or_and_right, or_iff_left hnot, and_iff_left hhit.2]

/-- A key that is a hit has a latest mark, and a record when a copy was written after it. -/
theorem latest_mark (M : ℕ) (ops : List MarkOp) (hhit : (ops.foldl (apply M) {}).dedupHit k) :
    ∃ before m after, ops = before ++ .markVariantProcessed m :: after ∧ m.key = k ∧
      (∀ op ∈ after, op.marks ≠ some k) ∧
      ((ops.foldl (apply M) {}).copyExpected k ↔ ∃ m' : Mark,
        m'.key = k ∧ .markCopyWritten m' ∈ after) := by
  induction ops using reverseRecOn with
  | nil => simp [dedupHit, MarkSet.contains] at hhit
  | append_singleton ops op ih =>
    rw [foldl_append] at hhit ⊢
    by_cases hmark : op.marks = some k
    · -- the last operation is the mark itself
      obtain ⟨m, rfl, hk⟩ : ∃ m, op = .markVariantProcessed m ∧ m.key = k := by
        cases op <;> simp [MarkOp.marks] at hmark
        exact ⟨_, rfl, hmark⟩
      refine ⟨ops, m, [], rfl, hk, by simp, ?_⟩
      have hnone := copyExpected_mark M (ops.foldl (apply M) {}) m
      rw [hk] at hnone
      simpa using hnone
    · -- any other operation keeps the hit only if there was one before
      obtain ⟨hold, hcopy⟩ := copyExpected_apply (paired_run M ops) hmark hhit
      obtain ⟨before, m, after, rfl, hk, hlatest, hiff⟩ := ih hold
      refine ⟨before, m, after ++ [op], by simp, hk, ?_, ?_⟩
      · intro op' hop'
        rcases mem_append.1 hop' with hop' | hop'
        · exact hlatest op' hop'
        · rwa [mem_singleton.1 hop']
      · have hsplit : (∃ m' : Mark, m'.key = k ∧ MarkOp.markCopyWritten m' ∈ after ++ [op]) ↔
            (∃ m' : Mark, m'.key = k ∧ .markCopyWritten m' ∈ after) ∨ ∃ m' : Mark, m'.key = k ∧
              op = .markCopyWritten m' := by
          simp only [mem_append, mem_singleton, and_or_left, exists_or, eq_comm (b := op)]
        rw [hsplit, ← hiff]
        exact hcopy

/-- **Marks and copy records.** After any operations: a record is in the generation of its mark, the
generations have their sizes, a mark is a hit until more than `M` other keys are marked after it or
it is erased, and a hit has a record exactly when a copy was written after its latest mark. -/
theorem marks_age_together (M : ℕ) (ops : List MarkOp) :
    let ms := ops.foldl (apply M) {}
    keys ms.copyWrittenCurrent ⊆ keys ms.processedCurrent ∧
      keys ms.copyWrittenPrevious ⊆ keys ms.processedPrevious ∧
    (keys ms.processedCurrent).length ≤ M ∧ (keys ms.processedPrevious).length ≤ M + 1 ∧
    (∀ before m after, ops = before ++ .markVariantProcessed m :: after →
      (∀ op ∈ after, op.erases m.key = false) → (othersMarked m.key after).card ≤ M →
        ms.dedupHit m.key) ∧
    ∀ k, ms.dedupHit k → ∃ before m after,
      ops = before ++ .markVariantProcessed m :: after ∧ m.key = k ∧
      (∀ op ∈ after, op.marks ≠ some k) ∧
      (ms.copyExpected k ↔ ∃ m' : Mark, m'.key = k ∧ .markCopyWritten m' ∈ after) := by
  have h := paired_run M ops
  refine ⟨h.copy_current, fun k hk => (h.copy_previous k hk).1, ?_, ?_, ?_, fun k hhit =>
    latest_mark M ops hhit⟩
  · rw [MarkSet.keys, length_map]
    exact h.current_length
  · rw [MarkSet.keys, length_map]
    exact h.previous_length
  · rintro before m after rfl herase hfew
    rw [foldl_append, foldl_cons]
    exact dedupHit_iff.2 ((kept_run (paired_run M before) m herase hfew).imp_right And.left)

end ProcessedMarks

end PageSpeed
