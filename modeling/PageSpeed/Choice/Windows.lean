import Mathlib.Tactic

/-!
# Windows by key

A table with the time at which each key was last let through. The window of an entry is live for an
interval from that time; a table that is too large is swept, which drops the windows that are not
live.

* `Covers`: the table has a window for everything that was let through and is still live.
* `Covers.mono`, `Covers.sweep`, `Covers.record`: time passes, the table is swept, a key is let
  through.
* `Covers.expired`: a key that has no live window in the table was not let through within the
  interval.
-/

namespace PageSpeed.Choice

open List

variable {κ : Type}

/-- Keys with the time of their last event. -/
abbrev Windows (κ : Type) := List (κ × ℤ)

namespace Windows

/-- The entry is younger than the interval. -/
def live (interval now : ℤ) (e : κ × ℤ) : Bool := now - e.2 < interval

/-- The windows that are over are dropped. -/
def sweep (t : Windows κ) (interval now : ℤ) : Windows κ := t.filter (live interval now)

/-- One entry for each key, and an entry for each event whose window is still live. -/
structure Covers (interval now : ℤ) (events : List (κ × ℤ)) (t : Windows κ) : Prop where
  nodup : (t.map Prod.fst).Nodup
  mem : ∀ e ∈ events, live interval now e → e ∈ t

variable {interval now later : ℤ} {events : List (κ × ℤ)} {t : Windows κ} {k : κ} {e : κ × ℤ}

theorem live_iff : live interval now e ↔ now - e.2 < interval := decide_eq_true_iff

/-- What is live later is live now. -/
theorem live_of_later (hle : now ≤ later) (h : live interval later e) : live interval now e := by
  rw [live_iff] at h ⊢
  omega

theorem length_sweep_le (t : Windows κ) (interval now : ℤ) :
    (t.sweep interval now).length ≤ t.length :=
  length_filter_le _ _

theorem covers_nil (interval now : ℤ) : Covers interval now [] ([] : Windows κ) :=
  ⟨nodup_nil, by simp⟩

/-- Time passes. -/
theorem Covers.mono (h : Covers interval now events t) (hle : now ≤ later) :
    Covers interval later events t :=
  ⟨h.nodup, fun e he hlive => h.mem e he (live_of_later hle hlive)⟩

/-- The table is swept. -/
theorem Covers.sweep (h : Covers interval now events t) :
    Covers interval now events (t.sweep interval now) :=
  ⟨h.nodup.sublist (filter_sublist.map Prod.fst),
    fun e he hlive => mem_filter.2 ⟨h.mem e he hlive, hlive⟩⟩

variable [DecidableEq κ]

/-- The key has an entry that is younger than the interval. -/
def within (t : Windows κ) (interval now : ℤ) (k : κ) : Bool :=
  match t.find? (·.1 = k) with
  | some e => live interval now e
  | none => false

/-- The window of a key starts now. -/
def record (t : Windows κ) (k : κ) (now : ℤ) : Windows κ := (k, now) :: t.filter (·.1 ≠ k)

theorem length_record_le (t : Windows κ) (k : κ) (now : ℤ) :
    (t.record k now).length ≤ t.length + 1 :=
  Nat.succ_le_succ (length_filter_le _ _)

theorem nodup_record (h : (t.map Prod.fst).Nodup) : ((t.record k now).map Prod.fst).Nodup := by
  refine nodup_cons.2 ⟨?_, h.sublist (filter_sublist.map Prod.fst)⟩
  intro hmem
  obtain ⟨e, he, heq⟩ := mem_map.1 hmem
  have hne := of_mem_filter he
  simp [heq] at hne

/-- The entry of a key is the one that is found. -/
theorem find_of_mem (hnodup : (t.map Prod.fst).Nodup) (he : e ∈ t) :
    t.find? (·.1 = e.1) = some e := by
  induction t with
  | nil => cases he
  | cons a t ih =>
    obtain ⟨ha, ht⟩ := nodup_cons.1 hnodup
    rcases mem_cons.1 he with rfl | he
    · rw [find?_cons_of_pos (by simp)]
    · have hne : a.1 ≠ e.1 := fun heq => ha (heq ▸ mem_map_of_mem he)
      rw [find?_cons_of_neg (by simpa using hne), ih ht he]

/-- A key is within its window if that is live. -/
theorem within_of_mem (hnodup : (t.map Prod.fst).Nodup) (he : e ∈ t) :
    t.within interval now e.1 = live interval now e := by
  rw [within, find_of_mem hnodup he]

/-- A window that is over stays over. -/
theorem within_of_later (hle : now ≤ later) (h : t.within interval now k = false) :
    t.within interval later k = false := by
  unfold within at h ⊢
  split at h
  · rename_i e _
    exact Bool.eq_false_iff.2 fun hlive => Bool.eq_false_iff.1 h (live_of_later hle hlive)
  · rfl

omit [DecidableEq κ] in
/-- Sweeping twice is sweeping once. -/
theorem sweep_sweep (t : Windows κ) (interval now : ℤ) :
    (t.sweep interval now).sweep interval now = t.sweep interval now := by
  rw [sweep, filter_eq_self]
  exact fun _ he => of_mem_filter he

namespace Covers

/-- Sweeping changes nothing that `within` reads. -/
theorem within_sweep (h : Covers interval now events t) (k : κ) :
    (t.sweep interval now).within interval now k = t.within interval now k := by
  by_cases hk : ∃ e ∈ t.sweep interval now, e.1 = k
  · obtain ⟨e, he, rfl⟩ := hk
    rw [within_of_mem h.sweep.nodup he, within_of_mem h.nodup (mem_of_mem_filter he)]
  · have hswept : (t.sweep interval now).find? (·.1 = k) = none := by
      rw [find?_eq_none]
      intro e he heq
      exact hk ⟨e, he, by simpa using heq⟩
    rw [within, hswept, within]
    cases hfind : t.find? (·.1 = k) with
    | none => rfl
    | some e =>
      -- an entry of the key that is found in `t` but not in what the sweep keeps
      have hkey : e.1 = k := by simpa using find?_some hfind
      have hdead : ¬ live interval now e := fun hlive =>
        hk ⟨e, mem_filter.2 ⟨mem_of_find?_eq_some hfind, hlive⟩, hkey⟩
      simpa using hdead

/-- No window, no event. -/
theorem expired (h : Covers interval now events t) (hk : t.within interval now k = false)
    (he : e ∈ events) (hkey : e.1 = k) : interval ≤ now - e.2 := by
  by_contra hlt
  have hlive : live interval now e := live_iff.2 (not_le.1 hlt)
  rw [← hkey, within_of_mem h.nodup (h.mem e he hlive), hlive] at hk
  cases hk

theorem record (h : Covers interval now events t) (hk : t.within interval now k = false) :
    Covers interval now (events ++ [(k, now)]) (t.record k now) where
  nodup := nodup_record h.nodup
  mem := by
    intro e he hlive
    rcases mem_append.1 he with he | he
    · have hne : e.1 ≠ k := by
        intro hkey
        have hexp := h.expired hk he hkey
        rw [live_iff] at hlive
        omega
      exact mem_cons_of_mem _ (mem_filter.2 ⟨h.mem e he hlive, by simpa using hne⟩)
    · rw [mem_singleton.1 he]
      exact mem_cons_self

end Covers

end Windows

end PageSpeed.Choice
