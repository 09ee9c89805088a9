import PageSpeed.Spec.CacheControlHeader
import Mathlib.Data.Nat.Digits.Defs

/-!
# What the Cache-Control builder writes

* `foldl_put`: a run of the writer, over any directives whose estimates are bounds.
* `buildCacheControlHeader_complete`: whole directives only, and no lifetime without the
  restrictions that are due.
-/

namespace PageSpeed.Cache

open Wire List
open Inet (decimal)

/-- The directives joined by a comma and a space. -/
def joined : List SentDirective → Bytes
  | [] => []
  | d :: ds => d.text ++ ds.flatMap (lit ", " ++ ·.text)

/-- The directive has a text, and the estimate bounds it. -/
def SentDirective.Estimated (d : SentDirective) : Prop := d.text ≠ [] ∧ d.text.length ≤ d.estimate

/-- What is written, and the separator. -/
def behind (w : Bytes) : Bytes := if w = [] then [] else w ++ lit ", "

/-- A directive at the end comes behind a comma. -/
theorem joined_concat {c : List SentDirective} (hc : ∀ d ∈ c, d.Estimated) (d : SentDirective) :
    joined (c ++ [d]) = behind (joined c) ++ d.text := by
  cases c with
  | nil => simp [joined, behind]
  | cons e c => simp [joined, behind, (hc e mem_cons_self).1]

theorem joined_prefix (c c' : List SentDirective) : joined c <+: joined (c ++ c') := by
  cases c <;> simp [joined]

variable {capacity : ℕ}

/-- What fits behind more fits behind less. -/
theorem fits_of_prefix {w w' : Bytes} {d e : SentDirective} (h : w <+: w')
    (he : d.estimate ≤ e.estimate) (hf : e.fits capacity w') : d.fits capacity w := by
  have hl := h.length_le
  have hc : (if w = [] then 0 else 2) ≤ if w' = [] then 0 else 2 := by
    by_cases h' : w' = []
    · simp [prefix_nil.1 (h' ▸ h)]
    · split_ifs <;> omega
  simp only [SentDirective.fits, decide_eq_true_eq] at hf ⊢
  omega

/-- A text that fits is written whole. -/
theorem snprintf_eq {n : ℕ} {t : Bytes} (h : t.length < n) : snprintf n t = t := by
  rw [snprintf, min_eq_left h.le, take_of_length_le (Nat.le_sub_one_of_lt h), take_left]

/-- A directive that fits is written whole. -/
theorem put_eq {w : Bytes} {d : SentDirective} (hd : d.Estimated) (h : d.due ∧ d.fits capacity w) :
    put capacity w d = behind w ++ d.text ∧ (behind w ++ d.text).length < capacity := by
  have hf : (if w = [] then 0 else 2) + d.estimate + 1 ≤ capacity - w.length :=
    of_decide_eq_true h.2
  have hl := hd.2
  have hw : (if w ≠ [] ∧ capacity - w.length ≥ 2 then w ++ lit ", " else w) = behind w ∧
      d.text.length < capacity - (behind w).length := by
    by_cases hw : w = []
    · subst hw
      exact ⟨rfl, by simp only [behind, if_pos] at hf ⊢; omega⟩
    · rw [behind, if_neg hw]
      rw [if_neg hw] at hf
      exact ⟨if_pos ⟨hw, by omega⟩,
        by rw [length_append, show (lit ", ").length = 2 from rfl]; omega⟩
  simp only [put, if_pos h, hw.1, snprintf_eq hw.2, length_append, true_and]
  omega

/-- A run of the writer over `ds` that appends `c'` to the directives `c`. -/
structure Run (capacity : ℕ) (ds c c' : List SentDirective) : Prop where
  due : c'.Sublist (ds.filter SentDirective.due)
  out : ds.foldl (put capacity) (joined c) = joined (c ++ c')
  short : c' ≠ [] → (joined (c ++ c')).length < capacity
  fitted : ∀ d ∈ c', d.fits capacity (joined c)
  skipped : ∀ d ∈ ds, d.due → d ∈ c' ∨ ¬ d.fits capacity (joined (c ++ c'))

variable (capacity) in
/-- Whatever the capacity, what is written is some of the directives, each whole. -/
theorem foldl_put (ds : List SentDirective) (hds : ∀ d ∈ ds, d.Estimated) (c : List SentDirective)
    (hc : ∀ d ∈ c, d.Estimated) : ∃ c', Run capacity ds c c' := by
  induction ds generalizing c with
  | nil => exact ⟨[], by constructor <;> simp⟩
  | cons d ds ih =>
    obtain ⟨hd, hds⟩ := forall_mem_cons.1 hds
    by_cases h : d.due ∧ d.fits capacity (joined c)
    · have hp := put_eq hd h
      rw [← joined_concat hc] at hp
      obtain ⟨c', r⟩ := ih hds (c ++ [d]) (forall_mem_append.2 ⟨hc, by simpa using hd⟩)
      obtain ⟨hdue, hout, hshort, hfit, hskip⟩ := r
      rw [append_assoc, singleton_append] at hout hshort hskip
      refine ⟨d :: c', by simpa [h.1] using hdue, by rw [foldl_cons, hp.1, hout],
        fun _ => ?_, ?_, ?_⟩
      · cases c' with
        | nil => exact hp.2
        | cons e c' => exact hshort (cons_ne_nil e c')
      · exact forall_mem_cons.2 ⟨h.2,
          fun e he => fits_of_prefix ( joined_prefix c [d]) le_rfl (hfit e he)⟩
      · exact forall_mem_cons.2 ⟨fun _ => .inl mem_cons_self,
          fun e he hdue => (hskip e he hdue).imp_left (mem_cons_of_mem d)⟩
    · have hp : put capacity (joined c) d = joined c := if_neg h
      obtain ⟨c', r⟩ := ih hds c hc
      refine ⟨c', r.due.trans ((sublist_cons_self d ds).filter _), by rw [foldl_cons, hp, r.out],
        r.short, r.fitted, forall_mem_cons.2 ⟨fun hdue => .inr fun hf => ?_, r.skipped⟩⟩
      exact h ⟨hdue, fits_of_prefix ( joined_prefix c c') le_rfl hf⟩

theorem length_decimal_le (n : UInt32) : (decimal n.toNat).length ≤ 10 := by
  have h := n.toNat_lt
  simpa [decimal] using (Nat.length_toDigits_le_iff (k := 10) (by decide) (by decide)).2 (by omega)

/-- The estimates of the source are upper bounds. -/
theorem estimated (i : CacheControlInput) : ∀ d ∈ leading i ++ maxAge i :: stale i,
    d.Estimated := by
  have hv {d : SentDirective} {n : UInt32} (hn : d.value = some n) (hne : d.name ≠ [])
      (hle : d.name.length + 11 ≤ d.estimate) : d.Estimated := by
    have := length_decimal_le n
    rw [SentDirective.Estimated, SentDirective.text, hn]
    exact ⟨by simp [hne], by simp; omega⟩
  simp only [leading, restrictions, stale, cons_append, nil_append, forall_mem_cons]
  -- a lifetime may have ten digits; the other texts are fixed
  refine ⟨?_, ?_, ?_, ?_, ?_, ?_, ?_, hv rfl ?_ ?_, hv rfl ?_ ?_, hv rfl ?_ ?_, ?_, by simp⟩
  all_goals first
    | exact cons_ne_nil _ _
    | exact Nat.le_of_ble_eq_true rfl
    | exact ⟨cons_ne_nil _ _, Nat.le_of_ble_eq_true rfl⟩

/-- **Whole directives only, whatever the buffer**, and a `max-age` only with every restriction
that is due. -/
theorem buildCacheControlHeader_complete (i : CacheControlInput) (capacity : ℕ) :
    ∃ chosen : List SentDirective,
      chosen.Sublist ((leading i ++ maxAge i :: stale i).filter SentDirective.due) ∧
      (buildCacheControlHeader i capacity).bytes = joined chosen ∧
      (chosen ≠ [] → (joined chosen).length < capacity) ∧
      (maxAge i ∈ chosen → ∀ d ∈ restrictions i, d.due → d ∈ chosen) := by
  rcases Nat.eq_zero_or_pos capacity with rfl | h0
  · exact ⟨[], nil_sublist _, rfl, by simp, by simp⟩
  obtain ⟨h1, h2⟩ := forall_mem_append.1 (estimated i)
  obtain ⟨c, r⟩ := foldl_put capacity (leading i) h1 [] (by simp)
  have hc : ∀ d ∈ c, d ∈ leading i := fun d hd => (mem_filter.1 (r.due.subset hd)).1
  obtain ⟨c', r'⟩ := foldl_put capacity (maxAge i :: stale i) h2 c fun d hd => h1 d (hc d hd)
  refine ⟨c ++ c', by simpa using r.due.append r'.due, ?_, ?_, ?_⟩
  · rw [buildCacheControlHeader, if_neg h0.ne']
    exact r'.out ▸ r.out ▸ rfl
  · intro h
    by_cases hc : c' = []
    · simpa [hc] using r.short (by simpa [hc] using h)
    · exact r'.short hc
  · intro hm d hd hdue
    refine mem_append_left c' ((r.skipped d (by simp [leading, hd]) hdue).resolve_right
      (not_not.2 ?_))
    have hn : maxAge i ∉ c := by
      intro h
      have := mem_map_of_mem (f := SentDirective.name) (hc _ h)
      revert this
      change lit "max-age" ∉ ["public", "no-store", "private", "no-cache", "must-revalidate",
        "proxy-revalidate", "no-transform", "s-maxage"].map lit
      decide
    have he : d.estimate ∈ [8, 7, 8, 16, 17, 12] := mem_map_of_mem (f := SentDirective.estimate) hd
    have hf := r'.fitted _ ((mem_append.1 hm).resolve_left hn)
    exact fits_of_prefix prefix_rfl (show _ ≤ 18 by simp at he; omega) hf

end PageSpeed.Cache
