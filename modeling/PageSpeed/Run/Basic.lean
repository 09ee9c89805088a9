import Mathlib.Tactic

/-!
# Runs of a system

A system is given by a step that may refuse an action. A run is a list of actions taken one after
the other; which component takes the next one is part of the action, so a list of actions is an
interleaving.

* `run`: the state a list of actions ends in.
* `Meets`: every action of a run meets a condition on the state it is taken in.
* `meets_congr`: two conditions that agree under an invariant are met by the same runs.
* `run_invariant`, `run_invariant_all`: what such actions, or all actions, keep holds at the end,
  with the actions so far at hand.
-/

namespace PageSpeed.Run

variable {σ α : Type} (step : σ → α → Option σ) (ok : σ → α → Prop)

/-- The state after the actions, if each of them is enabled in its turn. -/
def run : σ → List α → Option σ
  | s, [] => some s
  | s, a :: as => (step s a).bind fun t => run t as

/-- Each action meets the condition where it is taken. -/
def Meets : σ → List α → Prop
  | _, [] => True
  | s, a :: as => ok s a ∧ ∀ t ∈ step s a, Meets t as

variable {step ok} {s t u : σ} {a : α} {as bs : List α} {I : List α → σ → Prop}

/-- A run, action by action. -/
theorem run_cons : run step s (a :: as) = some u ↔ ∃ t, step s a = some t ∧
    run step t as = some u := by
  rw [run, Option.bind_eq_some_iff]

instance decidableMeets [∀ s a, Decidable (ok s a)] : (s : σ) → (as : List α) →
    Decidable (Meets step ok s as)
  | _, [] => isTrue trivial
  | s, a :: as =>
    match h : step s a with
    | none => decidable_of_iff (ok s a) (by simp [Meets, h])
    | some t =>
      have := decidableMeets t as
      decidable_of_iff (ok s a ∧ Meets step ok t as) (by simp [Meets, h])

theorem meets_of_forall (h : ∀ s a, ok s a) (s : σ) (as : List α) : Meets step ok s as := by
  induction as generalizing s with
  | nil => trivial
  | cons a as ih => exact ⟨h s a, fun t _ => ih t⟩

/-- Two conditions that agree where an invariant holds, which the steps that meet them keep. -/
theorem meets_congr {ok' : σ → α → Prop} {J : σ → Prop} {given : α → Prop}
    (hiff : ∀ s a, J s → given a → (ok s a ↔ ok' s a))
    (hstep : ∀ s a t, J s → given a → ok s a → step s a = some t → J t) (h : J s)
    (hgiven : ∀ a ∈ as, given a) : Meets step ok s as ↔ Meets step ok' s as := by
  induction as generalizing s with
  | nil => rfl
  | cons a as ih =>
    have ha := hgiven a List.mem_cons_self
    refine and_congr_right_iff.2 ?_ |>.trans (and_congr_left fun _ => hiff s a h ha)
    intro hok
    refine forall₂_congr fun t ht => ih (hstep s a t h ha hok ht) ?_
    exact fun b hb => hgiven b (List.mem_cons_of_mem a hb)

/-- **The invariant rule.** The invariant may speak of the actions taken so far. -/
theorem run_invariant
    (hstep : ∀ as s a t, I as s → ok s a → step s a = some t → I (as ++ [a]) t) (h0 : I [] s)
    (hmeets : Meets step ok s as) (hrun : run step s as = some t) : I as t := by
  have key : ∀ bs done s, I done s → Meets step ok s bs → run step s bs = some t →
      I (done ++ bs) t := by
    intro bs
    induction bs with
    | nil =>
      rintro done s hI - hrun
      cases hrun
      rwa [List.append_nil]
    | cons b bs ih =>
      rintro done s hI ⟨hb, hbs⟩ hrun
      obtain ⟨v, hv, hrun⟩ := run_cons.1 hrun
      rw [List.append_cons]
      exact ih (done ++ [b]) v (hstep done s b v hI hb hv) (hbs v hv) hrun
  exact key as [] s h0 hmeets hrun

/-- The rule for what every action keeps. -/
theorem run_invariant_all
    (hstep : ∀ as s a t, I as s → step s a = some t → I (as ++ [a]) t) (h0 : I [] s)
    (hrun : run step s as = some t) : I as t := by
  have hmeets : Meets step (fun _ _ => True) s as := meets_of_forall (fun _ _ => trivial) s as
  exact run_invariant (fun as s a t hI _ hat => hstep as s a t hI hat) h0 hmeets hrun

end PageSpeed.Run
