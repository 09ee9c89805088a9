import PageSpeed.Wire.Window

/-!
# Readers of one frame in a larger buffer

A `Framed` reader is handed a whole buffer and the offset where its own frame stops. It
carries a read position and a record it fills in; both stay as they are when it rejects.

* `Contained`: a reader that checks against the end of its frame never reads outside the
  buffer and never sees a byte behind the frame. The rules follow the reader's syntax.
* `Reads`: the reader accepts the bytes `b`, gives `a` and turns the record `s` into `s'`.
  The rules again follow the syntax, so a codec's round trip is their composition.
-/

namespace PageSpeed.Wire

/-- A reader of one frame: buffer, end of the frame, read position and record. -/
def Framed (ε σ α : Type) : Type :=
  Bytes → ℕ → ℕ × σ → Except Fault (Except ε α × ℕ × σ)

namespace Framed

variable {ε σ α β : Type} {f : α → Framed ε σ β} {p : Framed ε σ α}

/-- A failure ends the sequence. -/
def bind (p : Framed ε σ α) (f : α → Framed ε σ β) : Framed ε σ β := fun d stop st =>
  match p d stop st with
  | .error e => .error e
  | .ok (.error e, st') => .ok (.error e, st')
  | .ok (.ok a, st') => f a d stop st'

instance : Monad (Framed ε σ) where
  pure a := fun _ _ st => .ok (.ok a, st)
  bind := bind

/-- Reject with `e` when the condition on the record holds. -/
def refuseIf (c : σ → Bool) (e : ε) : Framed ε σ Unit := fun _ _ st =>
  .ok (if c st.2 then .error e else .ok (), st)

/-- Reject with `e` when there is no value. -/
def orRefuse (x : Option α) (e : ε) : Framed ε σ α := fun _ _ st =>
  .ok (match x with | none => .error e | some a => .ok a, st)

/-- Change the record. -/
def modify (g : σ → σ) : Framed ε σ Unit := fun _ _ st => .ok (.ok (), st.1, g st.2)

/-- The next `n` bytes of the frame, `e` when it has fewer. -/
def nextBytes (n : ℕ) (e : ε) : Framed ε σ Bytes := fun d stop st =>
  if st.1 + n > stop then .ok (.error e, st)
  else (readAt d st.1 n).map fun b => (.ok b, st.1 + n, st.2)

/-- The next scalar of the frame, big-endian. -/
def nextBe (α : Type) [Scalar α] (e : ε) : Framed ε σ α := do
  let b ← nextBytes (Scalar.width α) e
  pure (Scalar.ofBe b)

/-! ## Staying inside the frame -/

/-- The reader neither faults nor looks behind the end of its frame. -/
structure Contained (p : Framed ε σ α) : Prop where
  total : ∀ d stop st, stop ≤ d.length → ∃ r, p d stop st = .ok r
  frame : ∀ d stop st s, stop ≤ d.length → p (d ++ s) stop st = p d stop st

namespace Contained

theorem pure (a : α) : Contained (Pure.pure a : Framed ε σ α) :=
  ⟨fun _ _ _ _ => ⟨_, rfl⟩, fun _ _ _ _ _ => rfl⟩

theorem refuseIf (c : σ → Bool) (e : ε) : Contained (refuseIf c e) :=
  ⟨fun _ _ _ _ => ⟨_, rfl⟩, fun _ _ _ _ _ => rfl⟩

theorem orRefuse (x : Option α) (e : ε) : Contained (orRefuse x e : Framed ε σ α) :=
  ⟨fun _ _ _ _ => ⟨_, rfl⟩, fun _ _ _ _ _ => rfl⟩

theorem modify (g : σ → σ) : Contained (modify g : Framed ε σ Unit) :=
  ⟨fun _ _ _ _ => ⟨_, rfl⟩, fun _ _ _ _ _ => rfl⟩

/-- Bytes are taken from within the frame. -/
theorem nextBytes (n : ℕ) (e : ε) : Contained (nextBytes n e : Framed ε σ Bytes) := by
  constructor
  · intro d stop st hd
    unfold Framed.nextBytes
    split_ifs with h
    · exact ⟨_, rfl⟩
    · rw [readAt_eq (by omega)]
      exact ⟨_, rfl⟩
  · intro d stop st s hd
    unfold Framed.nextBytes
    split_ifs with h
    · rfl
    · have hs : slice (d ++ s) st.1 n = slice d st.1 n := by
        have := slice_stable (s := s) (le_refl d.length) (show st.1 + n ≤ d.length by omega)
        rwa [List.take_length] at this
      rw [readAt_eq (by rw [List.length_append]; omega), readAt_eq (by omega), hs]

/-- **A sequence of contained readers is contained.** -/
theorem bind (hp : Contained p) (hf : ∀ a, Contained (f a)) : Contained (p >>= f) := by
  constructor
  · intro d stop st hd
    obtain ⟨⟨r, st'⟩, hr⟩ := hp.total d stop st hd
    show ∃ r, Framed.bind p f d stop st = .ok r
    unfold Framed.bind
    rw [hr]
    cases r with
    | error e => exact ⟨_, rfl⟩
    | ok a => exact (hf a).total d stop st' hd
  · intro d stop st s hd
    show Framed.bind p f (d ++ s) stop st = Framed.bind p f d stop st
    unfold Framed.bind
    rw [hp.frame d stop st s hd]
    obtain ⟨⟨r, st'⟩, hr⟩ := hp.total d stop st hd
    rw [hr]
    cases r with
    | error e => rfl
    | ok a => exact (hf a).frame d stop st' s hd

/-- So is a number. -/
theorem nextBe [Scalar α] (e : ε) : Contained (nextBe α e : Framed ε σ α) :=
  (nextBytes _ e).bind fun _ => pure _

end Contained

/-! ## Reading back -/

/-- Wherever `b` stands in the frame, the reader consumes it, gives `a` and turns the
record `s` into `s'`. -/
def Reads (p : Framed ε σ α) (b : Bytes) (a : α) (s s' : σ) : Prop :=
  ∀ before after stop, before.length + b.length ≤ stop →
    p (before ++ (b ++ after)) stop (before.length, s) = .ok (.ok a, before.length + b.length, s')

namespace Reads

variable {s s' s'' : σ} {a : α}

theorem pure (a : α) (s : σ) : Reads (Pure.pure a : Framed ε σ α) [] a s s :=
  fun _ _ _ _ => rfl

/-- A check that passes. -/
theorem refuseIf {c : σ → Bool} (e : ε) (hc : c s = false) : Reads (refuseIf c e) [] () s s := by
  intro before after stop _
  simp [Framed.refuseIf, hc]

theorem orRefuse {x : Option α} (e : ε) (hx : x = some a) :
    Reads (orRefuse x e : Framed ε σ α) [] a s s := by
  intro before after stop _
  simp [Framed.orRefuse, hx]

/-- An assignment; the new record is named, so that a chain of them does not nest. -/
theorem modify {g : σ → σ} (s' : σ) (h : g s = s') :
    Reads (modify g : Framed ε σ Unit) [] () s s' :=
  fun _ _ _ _ => by rw [← h]; rfl

/-- Bytes that are there are read. -/
theorem nextBytes {n : ℕ} {b : Bytes} (e : ε) (hn : n = b.length) :
    Reads (nextBytes n e) b b s s := by
  intro before after stop hs
  subst hn
  unfold Framed.nextBytes
  rw [if_neg (by dsimp only; omega), readAt_eq (by simp only [List.length_append]; omega),
    slice_mid rfl rfl]
  rfl

/-- **Fields that follow each other are read one after the other.** -/
theorem bind {b b' : Bytes} {a' : β}
    (hp : Reads p b a s s') (hf : Reads (f a) b' a' s' s'') :
    Reads (p >>= f) (b ++ b') a' s s'' := by
  intro before after stop hs
  rw [List.length_append] at hs
  have h1 := hp before (b' ++ after) stop (by omega)
  have h2 := hf (before ++ b) after stop (by rw [List.length_append]; omega)
  show Framed.bind p f _ stop _ = _
  unfold Framed.bind
  rw [List.append_assoc, h1, List.length_append, ← Nat.add_assoc]
  rwa [List.append_assoc, List.length_append] at h2

/-- A check or an assignment consumes nothing. -/
theorem skip {b : Bytes} {a' : β}
    (hp : Reads p [] a s s') (hf : Reads (f a) b a' s' s'') : Reads (p >>= f) b a' s s'' :=
  hp.bind hf

/-- A number that is there is read. -/
theorem nextBe [Scalar α] (e : ε) (x : α) : Reads (nextBe α e) (Scalar.toBe x) x s s := by
  have hb : Reads (Framed.nextBytes (Scalar.width α) e) (Scalar.toBe x) (Scalar.toBe x) s s :=
    nextBytes e (Scalar.length_toBe x).symm
  have h :=
    hb.bind (f := fun b => Pure.pure (Scalar.ofBe b)) (pure (Scalar.ofBe (Scalar.toBe x) : α) s)
  rwa [List.append_nil, Scalar.ofBe_toBe] at h

end Reads

end Framed

end PageSpeed.Wire
