import Mathlib.Tactic
import Mathlib.Data.List.TakeWhile

/-!
# Scanners

A scanner reads a value off the front of a string over any alphabet, or fails. Loops of a
scanner carry a state and go on until their body says so.

* `Reads`: the text of a value is read back in front of anything that may follow it.
* `Yields`, `loop_yields`: what holds of every value a scanner returns; for a loop, by an
  invariant.
* `loop_step`: a loop whose rounds all consume something is what its unrolling says.
-/

namespace PageSpeed.Wire

variable {τ α β σ : Type}

/-- A scanner: a value and the rest of the string. -/
def Scan (τ α : Type) : Type := List τ → Option (α × List τ)

namespace Scan

instance : Monad (Scan τ) where
  pure a := fun s => some (a, s)
  bind p f := fun s => (p s).bind fun r => f r.1 r.2

/-- No result. -/
def fail : Scan τ α := fun _ => none

/-- The next item, which stays. -/
def peek : Scan τ (Option τ) := fun s => some (s.head?, s)

/-- Nothing is left. -/
def eof : Scan τ Bool := fun s => some (s.isEmpty, s)

/-- One letter of a class. -/
def item (p : τ → Bool) : Scan τ τ
  | [] => none
  | c :: s => if p c then some (c, s) else none

/-- The longest run of letters of a class. -/
def span (p : τ → Bool) : Scan τ (List τ) := fun s => some (s.takeWhile p, s.dropWhile p)

section Letter

variable [DecidableEq τ]

/-- Whether a letter was there to be taken. -/
def consume (c : τ) : Scan τ Bool := fun s =>
  if s.head? = some c then some (true, s.tail) else some (false, s)

/-- The next item has to be this one. -/
def expect (c : τ) : Scan τ Unit := fun s => if s.head? = some c then some ((), s.tail) else none

end Letter

/-- At most so many rounds of a body that says whether to go on. -/
def rounds (body : σ → Scan τ (σ ⊕ β)) : ℕ → σ → Scan τ β
  | 0, _ => fail
  | n + 1, st => do
    match ← body st with
    | .inl st' => rounds body n st'
    | .inr b => pure b

/-- A loop: no round of a body that consumes something can be beyond the length. -/
def loop (body : σ → Scan τ (σ ⊕ β)) (st : σ) : Scan τ β := fun s => rounds body (s.length + 1) st s

variable {p : Scan τ α} {f : α → Scan τ β} {body : σ → Scan τ (σ ⊕ β)} {s t : List τ} {q : τ → Bool}
  {c : τ} {st : σ}

theorem pure_apply (a : α) (s : List τ) : (pure a : Scan τ α) s = some (a, s) := rfl

theorem bind_apply (s : List τ) : (p >>= f) s = (p s).bind fun r => f r.1 r.2 := rfl

/-- A sequence succeeds if both parts do. -/
theorem bind_eq_some {b : β} : (p >>= f) s = some (b, t) ↔ ∃ a u, p s = some (a, u) ∧
    f a u = some (b, t) := by
  rw [bind_apply, Option.bind_eq_some_iff]
  exact ⟨fun ⟨⟨a, u⟩, h⟩ => ⟨a, u, h⟩, fun ⟨a, u, h⟩ => ⟨⟨a, u⟩, h⟩⟩

/-! ## Reading back -/

/-- The scanner reads this text as this value, in front of whatever may follow. -/
def Reads (p : Scan τ α) (follow : List τ → Prop) (text : List τ) (a : α) : Prop :=
  ∀ rest, follow rest → p (text ++ rest) = some (a, rest)

/-- The string does not start with a letter of the class. -/
def Stops (q : τ → Bool) (s : List τ) : Prop := ∀ c ∈ s.head?, q c = false

theorem Stops.mono {q q' : τ → Bool} (hs : Stops q s) (h : ∀ c, q c = false → q' c = false) :
    Stops q' s :=
  fun c hc => h c (hs c hc)

theorem stops_cons (h : q c = false) : Stops q (c :: s) := by
  rintro x ⟨⟩
  exact h

namespace Reads

variable {F G : List τ → Prop} {t u : List τ} {a : α} {b : β}

theorem pure (a : α) : Reads (pure a : Scan τ α) F [] a := fun _ _ => rfl

/-- Two texts one after the other, where the second is what ends the first. -/
theorem bind (t u : List τ) (hp : Reads p F t a) (hf : Reads (f a) G u b)
    (hFG : ∀ rest, G rest → F (u ++ rest)) : Reads (p >>= f) G (t ++ u) b := by
  intro rest hrest
  rw [bind_apply, List.append_assoc, hp _ (hFG rest hrest)]
  exact hf rest hrest

/-- Behind a scanner that does not mind what follows. -/
theorem bind' (t u : List τ) (hp : Reads p (fun _ => True) t a) (hf : Reads (f a) G u b) :
    Reads (p >>= f) G (t ++ u) b :=
  hp.bind t u hf fun _ _ => trivial

/-- In front of a scanner that takes nothing. -/
theorem bind_end (hp : Reads p G t a) (hf : Reads (f a) G [] b) : Reads (p >>= f) G t b := by
  have h := hp.bind t [] hf fun _ hrest => hrest
  rwa [List.append_nil] at h

theorem peek {f : Option τ → Scan τ β} (hf : Reads (f (some c)) G (c :: t) b) :
    Reads (peek >>= f) G (c :: t) b :=
  fun rest hrest => hf rest hrest

theorem item (hc : q c = true) : Reads (item q) F [c] c := by
  intro rest _
  simp [Scan.item, hc]

/-- A span is read up to what ends it. -/
theorem span (ht : ∀ c ∈ t, q c = true) : Reads (span q) (Stops q) t t := by
  intro rest hrest
  have hstop : rest.takeWhile q = [] ∧ rest.dropWhile q = rest := by
    cases rest with
    | nil => exact ⟨rfl, rfl⟩
    | cons c rest =>
      have hc := hrest c rfl
      simp [hc]
  simp only [Scan.span]
  rw [List.takeWhile_append_of_pos ht, List.dropWhile_append_of_pos ht, hstop.1, hstop.2,
    List.append_nil]

variable [DecidableEq τ]

theorem expect (c : τ) : Reads (expect c) F [c] () := by
  intro rest _
  simp [Scan.expect]

theorem consume (c : τ) : Reads (consume c) F [c] true := by
  intro rest _
  simp [Scan.consume]

/-- An item that is not there is not consumed. -/
theorem not_consume (c : τ) : Reads (Scan.consume c) (Stops (· = c)) [] false := by
  intro rest hrest
  have hne : rest.head? ≠ some c := by
    intro h
    simpa using hrest c h
  simp [Scan.consume, hne]

end Reads

/-! ## What a scanner returns -/

/-- Every value the scanner returns is of this kind. -/
def Yields (p : Scan τ α) (P : α → Prop) : Prop := ∀ s a t, p s = some (a, t) → P a

namespace Yields

variable {P : α → Prop} {Q : β → Prop} {a : α}

theorem pure (h : P a) : Yields (pure a : Scan τ α) P := by
  intro s b t hb
  cases hb
  exact h

/-- What the parts yield. -/
theorem bind (hp : Yields p P) (hf : ∀ a, P a → Yields (f a) Q) : Yields (p >>= f) Q := by
  intro s b t h
  obtain ⟨a, u, ha, hb⟩ := bind_eq_some.1 h
  exact hf a (hp s a u ha) u b t hb

/-- Behind a scanner whose value does not matter. -/
theorem skip (hf : ∀ a, Yields (f a) Q) : Yields (p >>= f) Q := by
  intro s b t h
  obtain ⟨a, u, -, hb⟩ := bind_eq_some.1 h
  exact hf a u b t hb

theorem fail : Yields (fail : Scan τ α) P := fun _ _ _ h => by cases h

theorem item (q : τ → Bool) : Yields (item q) (fun c => q c = true) := by
  intro s a t h
  cases s with
  | nil => cases h
  | cons c s =>
    rw [Scan.item] at h
    split at h
    · cases h
      assumption
    · cases h

theorem span (q : τ → Bool) : Yields (span q) (fun cs => ∀ c ∈ cs, q c = true) := by
  intro s a t h c hc
  cases h
  exact List.mem_takeWhile_imp hc

end Yields

/-! ## Progress -/

/-- What is left is never longer. -/
def Shrinks (p : Scan τ α) : Prop := ∀ s a t, p s = some (a, t) → t.length ≤ s.length

/-- Something is taken. -/
def Consumes (p : Scan τ α) : Prop := ∀ s a t, p s = some (a, t) → t.length < s.length

/-- Who consumes takes no more than there is. -/
theorem Consumes.shrinks (h : Consumes p) : Shrinks p := fun s a t ha => (h s a t ha).le

namespace Shrinks

theorem pure (a : α) : Shrinks (pure a : Scan τ α) := by
  intro s b t h
  cases h
  exact le_rfl

/-- A sequence takes no more than there is. -/
theorem bind (hp : Shrinks p) (hf : ∀ a, Shrinks (f a)) : Shrinks (p >>= f) := by
  intro s b t h
  obtain ⟨a, u, ha, hb⟩ := bind_eq_some.1 h
  exact (hf a u b t hb).trans (hp s a u ha)

theorem fail : Shrinks (fail : Scan τ α) := fun _ _ _ h => by cases h

theorem peek : Shrinks (peek : Scan τ (Option τ)) := by
  intro s a t h
  cases h
  exact le_rfl

theorem eof : Shrinks (eof : Scan τ Bool) := by
  intro s a t h
  cases h
  exact le_rfl

theorem span (q : τ → Bool) : Shrinks (span q) := by
  intro s a t h
  cases h
  exact List.length_dropWhile_le q s

theorem consume [DecidableEq τ] (c : τ) : Shrinks (consume c) := by
  intro s a t h
  unfold Scan.consume at h
  split at h
  · cases h
    simp
  · cases h
    exact le_rfl

end Shrinks

namespace Consumes

/-- A sequence that starts by consuming consumes. -/
theorem bind_left (hp : Consumes p) (hf : ∀ a, Shrinks (f a)) : Consumes (p >>= f) := by
  intro s b t h
  obtain ⟨a, u, ha, hb⟩ := bind_eq_some.1 h
  exact (hf a u b t hb).trans_lt (hp s a u ha)

theorem item (q : τ → Bool) : Consumes (item q) := by
  intro s a t h
  cases s with
  | nil => cases h
  | cons c s =>
    rw [Scan.item] at h
    split at h
    · cases h
      simp
    · cases h

theorem expect [DecidableEq τ] (c : τ) : Consumes (expect c) := by
  intro s a t h
  cases s with
  | nil => cases h
  | cons x s =>
    unfold Scan.expect at h
    split at h
    · cases h
      simp
    · cases h

end Consumes

theorem length_of_consume [DecidableEq τ] (h : consume c s = some (true, t)) :
    t.length < s.length := by
  unfold consume at h
  split at h
  · cases h
    cases s with
    | nil => simp_all
    | cons x s => simp
  · cases h

/-! ## Loops -/

/-- Every round that goes on has taken something. -/
def Advances (body : σ → Scan τ (σ ⊕ β)) : Prop :=
  ∀ st s st' t, body st s = some (.inl st', t) → t.length < s.length

/-- Rounds that advance need no more fuel than there are items. -/
theorem rounds_fuel (h : Advances body) {n m : ℕ} (hn : s.length < n)
    (hm : s.length < m) : rounds body n st s = rounds body m st s := by
  induction n generalizing m st s with
  | zero => cases hn
  | succ n ih =>
    obtain ⟨m, rfl⟩ := Nat.exists_eq_succ_of_ne_zero (Nat.ne_zero_of_lt hm)
    rw [rounds, rounds, bind_apply, bind_apply]
    cases hb : body st s with
    | none => rfl
    | some r =>
      obtain ⟨st' | b, t⟩ := r
      · have hlt := h st s st' t hb
        exact ih (hlt.trans_le (Nat.le_of_lt_succ hn)) (hlt.trans_le (Nat.le_of_lt_succ hm))
      · rfl

/-- **A round that goes on.** -/
theorem loop_step (h : Advances body) {st st' : σ} (hb : body st s = some (.inl st', t)) :
    loop body st s = loop body st' t := by
  rw [loop, rounds, bind_apply, hb]
  exact rounds_fuel h (h st s st' t hb) (Nat.lt_succ_self _)

/-- The last round. -/
theorem loop_done {b : β} (hb : body st s = some (.inr b, t)) : loop body st s = some (b, t) := by
  rw [loop, rounds, bind_apply, hb]
  rfl

/-- **The invariant rule.** -/
theorem loop_yields {I : σ → Prop} {P : β → Prop}
    (hbody : ∀ st, I st → Yields (body st) (Sum.elim I P)) (hst : I st) :
    Yields (loop body st) P := by
  have hrounds : ∀ n st, I st → Yields (rounds body n st) P := by
    intro n
    induction n with
    | zero => exact fun _ _ => Yields.fail
    | succ n ih =>
      intro st hst
      refine (hbody st hst).bind fun r hr => ?_
      cases r with
      | inl st' => exact ih st' hr
      | inr b => exact Yields.pure hr
  exact fun s a t h => hrounds _ st hst s a t h

/-- A loop takes no more than there is. -/
theorem loop_shrinks (h : ∀ st, Shrinks (body st)) (st : σ) : Shrinks (loop body st) := by
  have hrounds : ∀ n st, Shrinks (rounds body n st) := by
    intro n
    induction n with
    | zero => exact fun _ => Shrinks.fail
    | succ n ih =>
      intro st
      refine (h st).bind fun r => ?_
      cases r with
      | inl st' => exact ih st'
      | inr b => exact Shrinks.pure b
  exact fun s a t hs => hrounds _ st s a t hs

end Scan

end PageSpeed.Wire
