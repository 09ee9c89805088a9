import Mathlib.Tactic

/-!
# Least recently used

Entries with a key, the most recent one first, and at most `cap` of them. To touch a key brings its
entry to the front; a key that has none gets a new one, and the oldest entries make room for it.

* `touch`, `Lru.touch`: touching keeps keys distinct and the number of entries within the cap.
* `map_key_touch`: the keys are the `cap` most recent ones.
* `Recent.touch`: the entries stand in the order in which their keys were last touched.
-/

namespace PageSpeed.Choice

open List

variable {κ ε : Type} [DecidableEq κ] (key : ε → κ)

/-- Bring the entry of the key to the front. `new` is for a key that has none. -/
def touch (cap : ℕ) (new : ε) (l : List ε) : List ε :=
  match l.find? (key · = key new) with
  | some e => e :: l.filter (key · ≠ key new)
  | none => new :: l.take (cap - 1)

/-- The item of a key is taken out. -/
def forget (k : κ) (l : List ε) : List ε := l.filter (key · ≠ k)

/-- Distinct keys, at most `cap` of them. -/
structure Lru (cap : ℕ) (l : List ε) : Prop where
  nodup : (l.map key).Nodup
  length_le : l.length ≤ cap

variable {key} {cap : ℕ} {l : List ε} {new e : ε} {time : κ → ℕ}

theorem forget_of_notMem {k : κ} (h : k ∉ l.map key) : forget key k l = l := by
  rw [forget, filter_eq_self]
  intro e he
  have hne : key e ≠ k := fun heq => h (heq ▸ mem_map_of_mem he)
  simpa using hne

/-- Exactly one entry has the key. -/
theorem filter_key_eq (h : (l.map key).Nodup) (he : e ∈ l) : l.filter (key · = key e) = [e] := by
  induction l with
  | nil => cases he
  | cons a l ih =>
    obtain ⟨ha, hl⟩ := nodup_cons.1 h
    rcases mem_cons.1 he with rfl | he
    · have hrest : l.filter (key · = key e) = [] := by
        refine filter_eq_nil_iff.2 fun b hb => ?_
        have hne : key b ≠ key e := fun heq => ha (heq ▸ mem_map_of_mem hb)
        simpa using hne
      rw [filter_cons_of_pos (by simp), hrest]
    · have hne : key a ≠ key e := fun heq => ha (heq ▸ mem_map_of_mem he)
      rw [filter_cons_of_neg (by simpa using hne), ih hl he]

theorem length_forget_lt (he : e ∈ l) : (forget key (key e) l).length < l.length :=
  length_filter_lt_length_iff_exists.2 ⟨e, he, by simp⟩

/-- A known key comes to the front. -/
theorem touch_of_mem (h : (l.map key).Nodup) (he : e ∈ l) (hkey : key e = key new) (cap : ℕ) :
    touch key cap new l = e :: forget key (key new) l := by
  have hfind : l.find? (key · = key new) = some e := by
    rw [← hkey, ← head?_filter, filter_key_eq h he]
    rfl
  rw [touch, hfind, forget]

/-- A new one pushes the last one out. -/
theorem touch_of_notMem (h : key new ∉ l.map key) (cap : ℕ) :
    touch key cap new l = new :: l.take (cap - 1) := by
  have hfind : l.find? (key · = key new) = none := by
    rw [find?_eq_none]
    intro e he
    have hne : key e ≠ key new := fun heq => h (heq ▸ mem_map_of_mem he)
    simpa using hne
  rw [touch, hfind]

/-- Forgetting keeps the invariant. -/
theorem Lru.forget (h : Lru key cap l) (k : κ) : Lru key cap (forget key k l) :=
  ⟨h.nodup.sublist (filter_sublist.map key), (length_filter_le _ _).trans h.length_le⟩

theorem notMem_map_forget (k : κ) (l : List ε) : k ∉ (forget key k l).map key := by
  rintro hmem
  obtain ⟨e, he, rfl⟩ := mem_map.1 hmem
  have hne := of_mem_filter he
  simp at hne

/-- So does touching. -/
theorem Lru.touch (h : Lru key cap l) (hcap : 0 < cap) (new : ε) :
    Lru key cap (touch key cap new l) := by
  by_cases hmem : key new ∈ l.map key
  · obtain ⟨e, he, hkey⟩ := mem_map.1 hmem
    have hlt := @length_forget_lt _ _ _ key l e he
    rw [hkey] at hlt
    rw [touch_of_mem h.nodup he hkey]
    refine ⟨nodup_cons.2 ⟨?_, (h.forget _).nodup⟩, hlt.trans_le h.length_le⟩
    rw [hkey]
    exact notMem_map_forget _ l
  · rw [touch_of_notMem hmem]
    have hsub : (l.take (cap - 1)).Sublist l := take_sublist _ _
    refine ⟨nodup_cons.2 ⟨fun hold => hmem ((hsub.map key).subset hold),
      h.nodup.sublist (hsub.map key)⟩, ?_⟩
    rw [length_cons, length_take]
    omega

/-- **The most recent keys stay**: the touched one, and then the others, as many as there is room
for. -/
theorem map_key_touch (h : Lru key cap l) (hcap : 0 < cap) (new : ε) :
    (touch key cap new l).map key = (key new :: (l.map key).filter (· ≠ key new)).take cap := by
  obtain ⟨n, rfl⟩ : ∃ n, cap = n + 1 := ⟨cap - 1, by omega⟩
  have hmap : (forget key (key new) l).map key = (l.map key).filter (· ≠ key new) := by
    rw [forget, filter_map]
    rfl
  rw [take_succ_cons, ← hmap]
  by_cases hmem : key new ∈ l.map key
  · obtain ⟨e, he, hkey⟩ := mem_map.1 hmem
    have hlt := @length_forget_lt _ _ _ key l e he
    rw [hkey] at hlt
    have hshort : ((forget key (key new) l).map key).length ≤ n := by
      have hle := h.length_le
      rw [length_map]
      omega
    rw [touch_of_mem h.nodup he hkey, take_of_length_le hshort, map_cons, hkey]
  · rw [touch_of_notMem hmem, forget_of_notMem hmem, map_cons, Nat.add_sub_cancel, map_take]

/-! ## Recency -/

/-- The keys stand in the order of their times, the latest first. -/
def Recent (time : κ → ℕ) (l : List κ) : Prop := l.Pairwise fun a b => time b < time a

/-- A key that is touched at a time later than all others is the most recent one. -/
theorem Recent.touch {ks : List κ} {k : κ} {n : ℕ} (h : Recent time ks)
    (hn : ∀ k', time k' < n) (cap : ℕ) :
    Recent (Function.update time k n) ((k :: ks.filter (· ≠ k)).take cap) := by
  refine List.Pairwise.sublist (take_sublist _ _) ?_
  have hne : ∀ a ∈ ks.filter (· ≠ k), Function.update time k n a = time a := fun a ha =>
    Function.update_of_ne (by simpa using of_mem_filter ha) _ _
  refine pairwise_cons.2 ⟨fun b hb => ?_, ?_⟩
  · rw [hne b hb, Function.update_self]
    exact hn b
  · refine List.Pairwise.imp_of_mem (fun ha hb hlt => ?_) (h.sublist filter_sublist)
    rwa [hne _ ha, hne _ hb]

end PageSpeed.Choice
