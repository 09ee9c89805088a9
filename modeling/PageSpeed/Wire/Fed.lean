import Mathlib.Tactic

/-!
# Readers that are fed a stream

A reader takes a stream in pieces, one call a piece, and answers `more` until it has seen enough; it
then leaves what follows.

* `Fed`: what a call on two pieces at once has to do with the calls on each of them.
* `Fed.answers`: whatever the cut, the calls wait up to one of them, and that one gives the answer
  that the stream as a whole gives.
-/

namespace PageSpeed.Wire

variable {σ τ ρ : Type}

/-- `feed s xs` is the answer, what is left of `xs`, and the reader behind the call. `Ok` holds of a
reader that has not answered yet: a call waits for what comes after its piece, or leaves it. -/
structure Fed (more : ρ) (feed : σ → List τ → ρ × List τ × σ) (Ok : σ → Prop) : Prop where
  nil (s : σ) : feed s [] = (more, [], s)
  cut {s : σ} (xs : List τ) : Ok s → (∃ t, Ok t ∧ ∀ ys, feed s (xs ++ ys) = feed t ys) ∨
    ∃ r rest t, r ≠ more ∧ rest.length < xs.length ∧ ∀ ys, feed s (xs ++ ys) = (r, rest ++ ys, t)

/-- Each of the calls answers `more`, and takes all of its piece. -/
def Waits (more : ρ) (feed : σ → List τ → ρ × List τ × σ) : σ → List (List τ) → σ → Prop
  | s, [], t => s = t
  | s, xs :: pieces, t =>
    (feed s xs).1 = more ∧ (feed s xs).2.1 = [] ∧ Waits more feed (feed s xs).2.2 pieces t

namespace Fed

variable {more : ρ} {feed : σ → List τ → ρ × List τ × σ} {Ok : σ → Prop}

/-- **Whatever the cut**, there is one call that answers. The calls before it take less than what
the answer takes of the stream, and that call leaves what the stream as a whole leaves. -/
theorem answers (h : Fed more feed Ok) {s t : σ} {r : ρ} {rest : List τ} (hs : Ok s) (hr : r ≠ more)
    (pieces : List (List τ)) (hfeed : feed s pieces.flatten = (r, rest, t)) :
    ∃ before piece after u left, pieces = before ++ piece :: after ∧ Waits more feed s before u ∧
      feed u piece = (r, left, t) ∧ left ++ after.flatten = rest ∧ left.length < piece.length := by
  induction pieces generalizing s with
  | nil =>
    rw [List.flatten_nil, h.nil] at hfeed
    exact absurd (Prod.ext_iff.1 hfeed).1.symm hr
  | cons piece pieces ih =>
    rw [List.flatten_cons] at hfeed
    rcases h.cut piece hs with ⟨v, hv, hcut⟩ | ⟨r', left, v, -, hlt, hcut⟩
    · have hcall : feed s piece = (more, [], v) := by simpa [h.nil] using hcut []
      rw [hcut] at hfeed
      obtain ⟨before, c, after, u, left, rfl, hwaits, hanswer, hleft, hlt⟩ := ih hv hfeed
      refine ⟨piece :: before, c, after, u, left, rfl, ?_, hanswer, hleft, hlt⟩
      rw [Waits, hcall]
      exact ⟨rfl, rfl, hwaits⟩
    · have hcall : feed s piece = (r', left, v) := by simpa using hcut []
      rw [hcut, Prod.mk.injEq, Prod.mk.injEq] at hfeed
      obtain ⟨rfl, hleft, rfl⟩ := hfeed
      exact ⟨[], piece, pieces, s, left, rfl, rfl, hcall, hleft, hlt⟩

end Fed

end PageSpeed.Wire
