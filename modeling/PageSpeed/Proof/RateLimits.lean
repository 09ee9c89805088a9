import PageSpeed.Run.Total
import PageSpeed.Spec.RateLimits

/-!
# The rate limits hold

* `Tracked`: a recheck outside its window finds room in the table.
* `judge_size`: no attempt makes a table too large.
* `judge_covers`: an attempt that is tracked leaves a table that still has every live window.
* `passed_spaced`: in a run of tracked attempts those that are let through are an interval apart for
  each key. One that is not tracked is let through as often as it is repeated.
-/

namespace PageSpeed

open Choice Run Wire List Windows

/-- The clock does not go back, within an attempt and from one to the next. -/
def InOrder (as : List Attempt) : Prop :=
  (∀ a ∈ as, a.starts ≤ a.ends) ∧ as.Pairwise (·.ends ≤ ·.starts)

/-- Two attempts for one key of one limiter are at least its interval apart. -/
def Spaced (a b : Attempt) : Prop :=
  a.limiter = b.limiter → a.key = b.key → a.limiter.interval ≤ b.starts - a.ends

instance (as : List Attempt) : Decidable (InOrder as) := inferInstanceAs (Decidable (_ ∧ _))

instance (a b : Attempt) : Decidable (Spaced a b) := inferInstanceAs (Decidable (_ → _))

namespace RateLimits

/-- A recheck that its window does not hold back finds fewer live windows than the table has room
for. -/
def Tracked (s : RateLimits) : Attempt → Prop
  | .originRecheck r now =>
    s.originRecheckLast.within (seconds kDedupHealMinIntervalSecs) now (composeInternalKey r) ∨
      (s.originRecheckLast.sweep (seconds kDedupHealMinIntervalSecs) now).length <
        kMaxDedupHealEntries
  | _ => True

instance (s : RateLimits) (a : Attempt) : Decidable (Tracked s a) := by
  cases a <;> unfold Tracked <;> infer_instance

/-! ## One attempt -/

variable {t : Windows Bytes} {es : List (Bytes × ℤ)} {a : Attempt} {n : ℕ}

/-- An attempt is limited, or recorded in a table with room. -/
theorem recordOrDefer_cases (interval : ℤ) (maxEntries : ℕ) (t : Windows Bytes)
    (key : Bytes) (now : ℤ) :
    recordOrDefer interval maxEntries t key now = (t.sweep interval now, .limited) ∨
    ∃ kept, (kept = t ∨ kept = t.sweep interval now) ∧ kept.length < maxEntries ∧
      recordOrDefer interval maxEntries t key now = (kept.record key now, .passed) := by
  unfold recordOrDefer
  by_cases hfull : t.length ≥ maxEntries
  · rw [if_pos hfull]
    by_cases hlive : (t.sweep interval now).length ≥ maxEntries
    · exact .inl (if_pos hlive)
    · exact .inr ⟨_, .inr rfl, not_le.1 hlive, if_neg hlive⟩
  · exact .inr ⟨_, .inl rfl, not_le.1 hfull, if_neg hfull⟩

/-- The attempt is not let through: at most, the table is swept. -/
def Held (t : Windows Bytes) (a : Attempt) : Prop :=
  (judge t a).2 ≠ .passed ∧ ((judge t a).1 = t ∨ (judge t a).1 = t.sweep a.limiter.interval a.ends)

/-- The attempt is let through, and its time is recorded in a table that has room. -/
def Recorded (t : Windows Bytes) (a : Attempt) : Prop :=
  (judge t a).2 = .passed ∧ ∃ kept, (kept = t ∨ kept = t.sweep a.limiter.interval a.ends) ∧
    kept.length < a.limiter.maxEntries ∧ (judge t a).1 = kept.record a.key a.ends

/-- The attempt is let through without a trace. -/
def Untracked (t : Windows Bytes) (a : Attempt) : Prop :=
  a.limiter = .originRecheck ∧ judge t a = (t.sweep a.limiter.interval a.ends, .passed) ∧
    a.limiter.maxEntries ≤ (t.sweep a.limiter.interval a.ends).length

/-- Everything that an attempt can come to. -/
theorem judge_cases (t : Windows Bytes) (a : Attempt) :
    Held t a ∨ (t.within a.limiter.interval a.starts a.key = false ∧
      (Recorded t a ∨ Untracked t a)) := by
  by_cases hwithin : t.within a.limiter.interval a.starts a.key = true
  · have hheld : judge t a = (t, .limited) := by
      cases a <;> exact if_pos hwithin
    exact .inl ⟨by simp [hheld], .inl (by rw [hheld])⟩
  -- two of the limiters defer when they are full; the recheck goes on untracked
  have hdefer : judge t a = recordOrDefer a.limiter.interval a.limiter.maxEntries t a.key a.ends →
      Held t a ∨ Recorded t a := by
    intro heq
    rcases recordOrDefer_cases a.limiter.interval a.limiter.maxEntries t a.key a.ends
      with h | ⟨kept, hkept, hroom, h⟩
    · exact .inl ⟨by simp [heq, h], .inr (by rw [heq, h])⟩
    · exact .inr ⟨by rw [heq, h], kept, hkept, hroom, by rw [heq, h]⟩
  have hout := Bool.eq_false_iff.2 hwithin
  cases a with
  | originRefreshed r now =>
    exact (hdefer (if_neg hwithin)).imp_right fun h => ⟨hout, .inl h⟩
  | dedupHeal r id checked orphaned now =>
    cases orphaned with
    | false =>
      have hskipped : judge t (.dedupHeal r id checked false now) = (t, .skipped) := if_neg hwithin
      exact .inl ⟨by simp [hskipped], .inl (by rw [hskipped])⟩
    | true => exact (hdefer (if_neg hwithin)).imp_right fun h => ⟨hout, .inl h⟩
  | originRecheck r now =>
    refine .inr ⟨hout, ?_⟩
    have heq : judge t (.originRecheck r now) = _ := if_neg hwithin
    by_cases hfull : t.length ≥ kMaxDedupHealEntries
    · simp only [if_pos hfull] at heq
      by_cases hroom : (t.sweep (seconds kDedupHealMinIntervalSecs) now).length <
        kMaxDedupHealEntries
      · rw [if_pos hroom] at heq
        exact .inl ⟨by rw [heq], _, .inr rfl, hroom, by rw [heq]; rfl⟩
      · rw [if_neg hroom] at heq
        exact .inr ⟨rfl, heq, not_lt.1 hroom⟩
    · simp only [if_neg hfull, if_pos (not_le.1 hfull)] at heq
      exact .inl ⟨by rw [heq], _, .inl rfl, not_le.1 hfull, by rw [heq]; rfl⟩

/-- No attempt makes a table too large, or gives a key two windows. -/
theorem judge_size (hnodup : (t.map Prod.fst).Nodup) (hle : t.length ≤ a.limiter.maxEntries) :
    ((judge t a).1.map Prod.fst).Nodup ∧ (judge t a).1.length ≤ a.limiter.maxEntries := by
  -- the keys are distinct whatever the table is asked to cover
  have hcovers : ∀ now, Windows.Covers a.limiter.interval now [] t := fun _ => ⟨hnodup, by simp⟩
  have hswept : ((t.sweep a.limiter.interval a.ends).map Prod.fst).Nodup ∧
      (t.sweep a.limiter.interval a.ends).length ≤ a.limiter.maxEntries :=
    ⟨(hcovers a.ends).sweep.nodup, (length_sweep_le _ _ _).trans hle⟩
  rcases judge_cases t a with ⟨-, h | h⟩ | ⟨hout, ⟨-, kept, hkept, hroom, h⟩ | ⟨-, h, -⟩⟩
  · rw [h]
    exact ⟨hnodup, hle⟩
  · rw [h]
    exact hswept
  · rw [h]
    refine ⟨?_, (length_record_le _ _ _).trans hroom⟩
    rcases hkept with rfl | rfl
    · exact nodup_record hnodup
    · exact nodup_record hswept.1
  · rw [h]
    exact hswept

/-- The window of an attempt that is let through is kept with the other ones. -/
theorem judge_covers (hcovers : Windows.Covers a.limiter.interval a.starts es t)
    (hle : a.starts ≤ a.ends)
    (htracked : t.within a.limiter.interval a.starts a.key = false → ¬ Untracked t a) :
    ((judge t a).2 ≠ .passed ∧ Windows.Covers a.limiter.interval a.ends es (judge t a).1) ∨
    ((judge t a).2 = .passed ∧ t.within a.limiter.interval a.starts a.key = false ∧
      Windows.Covers a.limiter.interval a.ends (es ++ [(a.key, a.ends)]) (judge t a).1) := by
  have hlater := hcovers.mono hle
  rcases judge_cases t a with ⟨hv, h⟩ | ⟨hout, ⟨hv, kept, hkept, -, h⟩ | h⟩
  · refine .inl ⟨hv, ?_⟩
    rcases h with h | h
    · rwa [h]
    · rw [h]
      exact hlater.sweep
  · refine .inr ⟨hv, hout, ?_⟩
    rw [h]
    have hover := within_of_later hle hout
    rcases hkept with rfl | rfl
    · exact hlater.record hover
    · exact hlater.sweep.record ((hlater.within_sweep a.key).trans hover)
  · exact absurd h (htracked hout)

/-! ## Runs -/

section Run

variable {s : RateLimits} {as : List Attempt}

/-- An attempt changes the table of its limiter only. -/
theorem table_step (s : RateLimits) (a : Attempt) (l : Limiter) :
    (s.step a).table l = if l = a.limiter then (judge (s.table a.limiter) a).1 else s.table l := by
  unfold step setTable
  generalize a.limiter = m
  cases l <;> cases m <;> rfl

/-- What passes, part by part. -/
theorem passed_append (s : RateLimits) (as bs : List Attempt) :
    passed s (as ++ bs) = passed s as ++ passed (as.foldl step s) bs := by
  induction as generalizing s with
  | nil => rfl
  | cons a as ih =>
    rw [cons_append, passed, passed, ih, foldl_cons]
    split <;> rfl

theorem not_untracked (h : Tracked s a)
    (hout : (s.table a.limiter).within a.limiter.interval a.starts a.key = false) :
    ¬ Untracked (s.table a.limiter) a := by
  rintro ⟨hlimiter, -, hfull⟩
  cases a with
  | originRefreshed r now => cases hlimiter
  | dedupHeal r id checked orphaned now => cases hlimiter
  | originRecheck r now =>
    rcases h with h | h
    · exact Bool.eq_false_iff.1 hout h
    · exact absurd hfull (not_le.2 h)

/-- The keys of a limiter that were let through, with the times that are recorded for them. -/
def events (l : Limiter) (as : List Attempt) : List (Bytes × ℤ) :=
  (as.filter (·.limiter = l)).map fun a => (a.key, a.ends)

theorem mem_events (h : a ∈ as) : (a.key, a.ends) ∈ events a.limiter as :=
  mem_map.2 ⟨a, mem_filter.2 ⟨h, by simp⟩, rfl⟩

theorem events_append (l : Limiter) (as : List Attempt) (a : Attempt) :
    events l (as ++ [a]) = if l = a.limiter then events l as ++ [(a.key, a.ends)]
      else events l as := by
  by_cases h : l = a.limiter
  · simp [events, h]
  · simp [events, h, Ne.symm h]

/-- What holds after a run of tracked attempts. -/
structure Covered (as : List Attempt) (s : RateLimits) : Prop where
  state : s = as.foldl step {}
  spaced : InOrder as → (passed {} as).Pairwise Spaced
  covers : InOrder as → ∀ l now, (∀ a ∈ as, a.ends ≤ now) →
    Windows.Covers l.interval now (events l (passed {} as)) (s.table l)

/-- Attempts in order, one by one. -/
theorem inOrder_append_singleton : InOrder (as ++ [a]) ↔ InOrder as ∧ a.starts ≤ a.ends ∧ ∀ b ∈ as,
    b.ends ≤ a.starts := by
  simp only [InOrder, mem_append, mem_singleton, pairwise_append, pairwise_singleton]
  constructor
  · rintro ⟨hle, hpair, -, hlast⟩
    exact ⟨⟨fun b hb => hle b (.inl hb), hpair⟩, hle a (.inr rfl), fun b hb => hlast b hb a rfl⟩
  · rintro ⟨⟨hle, hpair⟩, ha, hlast⟩
    refine ⟨?_, hpair, trivial, ?_⟩
    · rintro b (hb | rfl)
      exacts [hle b hb, ha]
    · rintro b hb c rfl
      exact hlast b hb

/-- A tracked attempt keeps every window of the past in its table. -/
theorem Covered.step (h : Covered as s) (htracked : Tracked s a) :
    Covered (as ++ [a]) (s.step a) := by
  have hpassed : passed {} (as ++ [a]) = passed {} as ++ passed s [a] := by
    rw [passed_append, ← h.state]
  -- what the attempt does to its own table; the other two are as they were
  have key : InOrder (as ++ [a]) → (passed {} (as ++ [a])).Pairwise Spaced ∧
      Windows.Covers a.limiter.interval a.ends (events a.limiter (passed {} (as ++ [a])))
        (judge (s.table a.limiter) a).1 := by
    intro hord
    obtain ⟨hord, hle, hlast⟩ := inOrder_append_singleton.1 hord
    have hcovers := h.covers hord a.limiter a.starts hlast
    rcases judge_covers hcovers hle (not_untracked htracked) with ⟨hv, hnew⟩ | ⟨hv, hout, hnew⟩
    · have hnone : passed s [a] = [] := if_neg hv
      rw [hpassed, hnone, append_nil]
      exact ⟨h.spaced hord, hnew⟩
    · have hone : passed s [a] = [a] := if_pos hv
      rw [hpassed, hone, events_append, if_pos rfl]
      refine ⟨pairwise_append.2 ⟨h.spaced hord, pairwise_singleton _ _, ?_⟩, hnew⟩
      intro b hb c hc hlimiter hkey
      obtain rfl := mem_singleton.1 hc
      rw [hlimiter]
      exact hcovers.expired hout (hlimiter ▸ mem_events hb) hkey
  refine ⟨by rw [foldl_append, ← h.state]; rfl, fun hord => (key hord).1, ?_⟩
  intro hord l now hnow
  rw [table_step]
  by_cases hl : l = a.limiter
  · rw [if_pos hl, hl]
    exact (key hord).2.mono (hnow a (by simp))
  · have hsame : events l (passed {} (as ++ [a])) = events l (passed {} as) := by
      rw [hpassed]
      by_cases hv : s.verdict a = .passed
      · rw [show passed s [a] = [a] from if_pos hv, events_append, if_neg hl]
      · rw [show passed s [a] = [] from if_neg hv, append_nil]
    rw [if_neg hl, hsame]
    exact h.covers (inOrder_append_singleton.1 hord).1 l now fun b hb =>
      hnow b (mem_append_left _ hb)

/-- So does a tracked run. -/
theorem covered_of_along (h : Along step Tracked {} as) : Covered as (as.foldl step {}) := by
  refine foldl_along (I := Covered) (fun _ _ _ => Covered.step) ⟨rfl, ?_, ?_⟩ h
  · exact fun _ => List.Pairwise.nil
  · intro _ l now _
    cases l <;> exact covers_nil _ _

/-- One window for each key, and no more of them than there is room for. -/
def Sized (s : RateLimits) : Prop :=
  ∀ l, ((s.table l).map Prod.fst).Nodup ∧ (s.table l).length ≤ l.maxEntries

/-- No table grows beyond its size. -/
theorem sized_step (h : Sized s) (a : Attempt) : Sized (s.step a) := by
  intro l
  rw [table_step]
  split_ifs with hl
  · rw [hl]
    exact judge_size (h a.limiter).1 (h a.limiter).2
  · exact h l

/-- Not in any run. -/
theorem sized_run (as : List Attempt) : Sized (as.foldl step {}) := by
  have h0 : Sized {} := by
    intro l
    cases l <;> exact ⟨nodup_nil, Nat.zero_le _⟩
  exact List.foldlRecOn as step h0 fun s hs a _ => sized_step hs a

/-- An attempt that is not tracked sweeps a table that has no room even so, and is let through. -/
theorem judge_of_not_tracked (h : ¬ Tracked s a) : ∃ r now, a = .originRecheck r now ∧
    s.originRecheckLast.within (seconds kDedupHealMinIntervalSecs) now a.key = false ∧
    judge s.originRecheckLast a =
      (s.originRecheckLast.sweep (seconds kDedupHealMinIntervalSecs) now, .passed) := by
  cases a with
  | originRefreshed r now => exact absurd trivial h
  | dedupHeal r id checked orphaned now => exact absurd trivial h
  | originRecheck r now =>
    obtain ⟨hwithin, hroom⟩ := not_or.1 h
    have hfull : s.originRecheckLast.length ≥ kMaxDedupHealEntries :=
      (not_lt.1 hroom).trans (length_sweep_le _ _ _)
    refine ⟨r, now, rfl, Bool.eq_false_iff.2 hwithin, ?_⟩
    have heq : judge s.originRecheckLast (.originRecheck r now) = _ := if_neg hwithin
    simp only [if_pos hfull, if_neg hroom] at heq
    exact heq

/-- So it is let through again, and again leaves no trace. -/
theorem not_tracked_step (hs : Sized s) (h : ¬ Tracked s a) : ¬ Tracked (s.step a) a := by
  obtain ⟨r, now, rfl, hout, heq⟩ := judge_of_not_tracked h
  have htable : (s.step (.originRecheck r now)).originRecheckLast =
      s.originRecheckLast.sweep (seconds kDedupHealMinIntervalSecs) now := congrArg Prod.fst heq
  have hcovers : Windows.Covers (seconds kDedupHealMinIntervalSecs) now [] s.originRecheckLast :=
    ⟨(hs .originRecheck).1, by simp⟩
  rw [Tracked, htable, hcovers.within_sweep, sweep_sweep]
  exact h

/-- An attempt that finds no room is let through. -/
theorem passed_of_not_tracked (h : ¬ Tracked s a) : s.verdict a = .passed := by
  obtain ⟨r, now, rfl, -, heq⟩ := judge_of_not_tracked h
  exact congrArg Prod.snd heq

/-- And a second one right behind it, too. -/
theorem not_spaced_of_not_tracked (hlast : InOrder (as ++ [a]))
    (h : ¬ Tracked (as.foldl step {}) a) :
    InOrder (as ++ [a, a]) ∧ ¬ (passed {} (as ++ [a, a])).Pairwise Spaced := by
  obtain ⟨r, now, ha, -⟩ := judge_of_not_tracked h
  constructor
  · have htimes : a.starts = a.ends := by rw [ha]; rfl
    rw [append_cons, inOrder_append_singleton]
    exact ⟨hlast, htimes.le,
      forall_mem_append.2 ⟨(inOrder_append_singleton.1 hlast).2.2,
        forall_mem_singleton.2 htimes.ge⟩⟩
  · have htwice : passed (as.foldl step {}) [a, a] = [a, a] := by
      rw [passed, if_pos (passed_of_not_tracked h), passed,
        if_pos (passed_of_not_tracked (not_tracked_step (sized_run as) h)), passed]
    rw [passed_append, htwice, pairwise_append]
    rintro ⟨-, hpair, -⟩
    have hspaced : Spaced a a := rel_of_pairwise_cons hpair mem_cons_self
    have hle := hspaced rfl rfl
    rw [ha] at hle
    simp [Attempt.starts, Attempt.ends, Attempt.limiter, Limiter.interval, seconds,
      kDedupHealMinIntervalSecs] at hle

end Run

/-- **Rate limits.** The tables are never too large. While every recheck is tracked, the attempts
that are let through for a key are an interval apart; one that is not tracked is let through twice
at one time. -/
theorem passed_spaced {as : List Attempt} (hord : InOrder as) :
    (∀ l, ((as.foldl step {}).table l).length ≤ l.maxEntries) ∧
    (Along step Tracked {} as → (passed {} as).Pairwise Spaced) ∧
    ∀ a, InOrder (as ++ [a]) → ¬ Tracked (as.foldl step {}) a →
      InOrder (as ++ [a, a]) ∧ ¬ (passed {} (as ++ [a, a])).Pairwise Spaced :=
  ⟨fun l => (sized_run as l).2, fun h => (covered_of_along h).spaced hord,
    fun _ hlast h => not_spaced_of_not_tracked hlast h⟩

/-- A heal, a recheck of another URL and, once the window is over, a heal of the first URL again. -/
theorem passed_spaced_heals :
    let r : ResourceName := ⟨lit "/a.css", lit "h", lit "https", []⟩
    let as : List Attempt := [.dedupHeal r 8 0 true 5, .originRecheck r 7, .dedupHeal r 8 9 true 9,
      .dedupHeal r 8 10000000005 true 10000000006]
    passed {} as = [.dedupHeal r 8 0 true 5, .originRecheck r 7,
      .dedupHeal r 8 10000000005 true 10000000006] ∧ (passed {} as).Pairwise Spaced :=
  ⟨by decide +kernel, (passed_spaced (by decide +kernel)).2.1 (by decide +kernel)⟩

/-! ## A crowd of URLs -/

/-- The URLs differ in their length. -/
def crowded (n : ℕ) : ResourceName := ⟨List.replicate n (ch 'a'), lit "h", lit "https", []⟩

/-- The keys of the crowd differ. -/
theorem composeInternalKey_crowded {m n : ℕ}
    (h : composeInternalKey (crowded m) = composeInternalKey (crowded n)) :
    m = n := by
  have hlen := congrArg List.length h
  simpa [composeInternalKey, crowded] using hlen

/-- Attempts for `n` keys at one time. -/
def crowd (n : ℕ) : List Attempt := (List.range n).map fun i => .originRecheck (crowded i) 0

/-- The table holds the URLs of the crowd, each at time `0`. -/
def Holds (n : ℕ) (t : Windows Bytes) : Prop :=
  t.length = n ∧ ∀ e ∈ t, e.2 = 0 ∧ ∃ i < n, e.1 = composeInternalKey (crowded i)

theorem Holds.ne (h : Holds n t) {e : Bytes × ℤ} (he : e ∈ t) :
    e.1 ≠ composeInternalKey (crowded n) := by
  obtain ⟨-, i, hi, hkey⟩ := h.2 e he
  intro heq
  exact absurd (composeInternalKey_crowded (hkey.symm.trans heq)) hi.ne

theorem Holds.within (h : Holds n t) (interval now : ℤ) :
    t.within interval now (composeInternalKey (crowded n)) = false := by
  have hnone : t.find? (·.1 = composeInternalKey (crowded n)) = none := by
    rw [find?_eq_none]
    intro e he heq
    exact h.ne he (by simpa using heq)
  rw [Windows.within, hnone]

/-- As long as there is room, each of them is recorded. -/
theorem holds_crowd (hn : n ≤ kMaxDedupHealEntries) :
    Holds n ((crowd n).foldl step {}).originRecheckLast := by
  induction n with
  | zero => exact ⟨rfl, by simp [crowd]⟩
  | succ n ih =>
    have h := ih (by omega)
    rw [crowd, range_succ, map_append, foldl_append, ← crowd]
    generalize (crowd n).foldl step {} = s at h ⊢
    have hroom : s.originRecheckLast.length < kMaxDedupHealEntries := by
      rw [h.1]
      omega
    have hnew : (s.step (.originRecheck (crowded n) 0)).originRecheckLast =
        (composeInternalKey (crowded n), 0) :: s.originRecheckLast := by
      have hout := h.within (seconds kDedupHealMinIntervalSecs) 0
      have hkept : s.originRecheckLast.filter (·.1 ≠ composeInternalKey (crowded n)) =
          s.originRecheckLast :=
        filter_eq_self.2 fun e he => by simpa using h.ne he
      have hrecord := congrArg ((composeInternalKey (crowded n), (0 : ℤ)) :: ·) hkept
      have hjudge : judge s.originRecheckLast (.originRecheck (crowded n) 0) = _ :=
        if_neg (Bool.eq_false_iff.1 hout)
      simp only [if_neg (not_le.2 hroom), if_pos hroom] at hjudge
      exact (congrArg Prod.fst hjudge).trans hrecord
    rw [map_singleton, foldl_cons, foldl_nil, hnew]
    refine ⟨congrArg Nat.succ h.1, ?_⟩
    intro e he
    rcases mem_cons.1 he with rfl | he
    · exact ⟨rfl, n, by omega, rfl⟩
    · obtain ⟨hzero, i, hi, hkey⟩ := h.2 e he
      exact ⟨hzero, i, by omega, hkey⟩

/-- With 1024 URLs in their windows, another one is rechecked twice at one time. -/
theorem not_passed_spaced : ¬ ∀ as : List Attempt, InOrder as →
    (passed {} as).Pairwise Spaced ∧ ∀ l, ((as.foldl step {}).table l).length ≤ l.maxEntries := by
  intro hall
  have h := holds_crowd (le_refl kMaxDedupHealEntries)
  have hord : InOrder (crowd kMaxDedupHealEntries ++
      [.originRecheck (crowded kMaxDedupHealEntries) 0]) := by
    have hzero :
      ∀ b ∈ crowd kMaxDedupHealEntries ++ [.originRecheck (crowded kMaxDedupHealEntries) 0],
        b.starts = 0 ∧ b.ends = 0 := by
      intro b hb
      rcases mem_append.1 hb with hb | hb
      · obtain ⟨i, -, rfl⟩ := mem_map.1 hb
        exact ⟨rfl, rfl⟩
      · rw [mem_singleton.1 hb]
        exact ⟨rfl, rfl⟩
    refine ⟨fun b hb => (hzero b hb).1.trans_le (hzero b hb).2.ge, ?_⟩
    exact pairwise_of_forall_mem_list fun b hb c hc => (hzero b hb).2.trans_le (hzero c hc).1.ge
  have hfull : ¬ Tracked ((crowd kMaxDedupHealEntries).foldl step {})
      (.originRecheck (crowded kMaxDedupHealEntries) 0) := by
    rintro (hwithin | hroom)
    · exact Bool.eq_false_iff.1 (h.within _ _) hwithin
    · have hall : ∀ e ∈ ((crowd kMaxDedupHealEntries).foldl step {}).originRecheckLast,
          Windows.live (seconds kDedupHealMinIntervalSecs) 0 e := fun e he => by
        rw [live_iff, (h.2 e he).1]
        decide
      rw [Windows.sweep, filter_eq_self.2 hall, h.1] at hroom
      exact lt_irrefl _ hroom
  have hboth := not_spaced_of_not_tracked hord hfull
  exact hboth.2 (hall _ hboth.1).1

end RateLimits

end PageSpeed
