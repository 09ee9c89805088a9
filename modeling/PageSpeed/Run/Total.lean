import Mathlib.Tactic

/-!
# Runs of a machine that takes every action

A machine whose step is always enabled runs through a list of actions by folding its step over the
list.

* `Along`: every action of a run meets a condition on the state it is taken in.
* `along_append`: the two parts of a run.
* `foldl_along`: what such actions keep holds at the end, with the actions so far at hand.
-/

namespace PageSpeed.Run

variable {σ α : Type} (f : σ → α → σ) (ok : σ → α → Prop)

/-- Each action meets the condition where it is taken. -/
def Along : σ → List α → Prop
  | _, [] => True
  | s, a :: as => ok s a ∧ Along (f s a) as

instance decidableAlong [∀ s a, Decidable (ok s a)] : (s : σ) → (as : List α) →
    Decidable (Along f ok s as)
  | _, [] => isTrue trivial
  | s, a :: as =>
    have := decidableAlong (f s a) as
    inferInstanceAs (Decidable (ok s a ∧ Along f ok (f s a) as))

variable {f ok} {s : σ} {as bs : List α}

/-- A condition along a run, part by part. -/
theorem along_append : Along f ok s (as ++ bs) ↔ Along f ok s as ∧
    Along f ok (as.foldl f s) bs := by
  induction as generalizing s with
  | nil => exact ⟨fun h => ⟨trivial, h⟩, And.right⟩
  | cons a as ih =>
    rw [List.cons_append, Along, Along, List.foldl_cons, ih, and_assoc]

/-- **The invariant rule.** The invariant may speak of the actions taken so far. -/
theorem foldl_along {I : List α → σ → Prop}
    (hstep : ∀ as s a, I as s → ok s a → I (as ++ [a]) (f s a)) (h0 : I [] s)
    (h : Along f ok s as) : I as (as.foldl f s) := by
  have key : ∀ bs done s, I done s → Along f ok s bs → I (done ++ bs) (bs.foldl f s) := by
    intro bs
    induction bs with
    | nil =>
      intro done s hI _
      rwa [List.append_nil]
    | cons b bs ih =>
      rintro done s hI ⟨hb, hbs⟩
      rw [List.append_cons, List.foldl_cons]
      exact ih (done ++ [b]) (f s b) (hstep done s b hI hb) hbs
  exact key as [] s h0 h

end PageSpeed.Run
