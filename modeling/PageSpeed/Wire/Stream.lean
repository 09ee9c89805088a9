import Mathlib.Tactic

/-!
# Frames in a stream

A framing says of a buffer whether it starts with a whole frame. A reader keeps what it has of the
next frame in a buffer, takes every whole frame off it when more arrives, and gives up when the
buffer would grow beyond a limit.

* `drain_append`: the frames of a longer buffer are those of the shorter one, and then some.
* `feedAll_starts`: whatever the cut, the reader takes a prefix of the frames of the stream.
* `feedAll_frames`: all the frames of a stream that consists of them, when frames and reads are
  small enough for the limit.
-/

namespace PageSpeed.Wire

open List

variable {τ : Type}

/-- What a buffer starts with: part of a frame, one that is not to be read, or one of this
length. -/
inductive Head
  | more
  | refuse
  | frame (n : ℕ)
  deriving DecidableEq

/-- What a buffer starts with is known from its first letters. -/
structure Framing (τ : Type) where
  head : List τ → Head
  frame_le {b : List τ} {n : ℕ} : head b = .frame n → 0 < n ∧ n ≤ b.length
  stable {b : List τ} (s : List τ) : head b ≠ .more → head (b ++ s) = head b

namespace Framing

variable (F : Framing τ)

/-- The whole frames of a buffer, and what is left behind them unless the next one is refused. -/
def drain (b : List τ) : List (List τ) × Option (List τ) :=
  match _h : F.head b with
  | .more => ([], some b)
  | .refuse => ([], none)
  | .frame n => (b.take n :: (drain (b.drop n)).1, (drain (b.drop n)).2)
termination_by b.length
decreasing_by
  all_goals
    have := F.frame_le ‹F.head b = .frame _›
    rw [List.length_drop]
    omega

/-- One read: the frames so far, and the buffer unless the reader has given up. -/
def feed (limit : ℕ) (st : List (List τ) × Option (List τ)) (chunk : List τ) :
    List (List τ) × Option (List τ) :=
  match st.2 with
  | none => st
  | some buffer =>
    if buffer.length + chunk.length > limit then (st.1, none)
    else (st.1 ++ (F.drain (buffer ++ chunk)).1, (F.drain (buffer ++ chunk)).2)

/-- The chunks of a stream from its start. -/
def feedAll (limit : ℕ) (chunks : List (List τ)) : List (List τ) × Option (List τ) :=
  chunks.foldl (F.feed limit) ([], some [])

variable {F} {b s rest f : List τ} {fs chunks : List (List τ)} {n limit : ℕ}

theorem drain_more (h : F.head b = .more) : F.drain b = ([], some b) := by
  rw [drain]
  split <;> simp_all

theorem drain_refuse (h : F.head b = .refuse) : F.drain b = ([], none) := by
  rw [drain]
  split <;> simp_all

/-- A frame at the front is taken, and the rest drained. -/
theorem drain_frame (h : F.head b = .frame n) :
    F.drain b = (b.take n :: (F.drain (b.drop n)).1, (F.drain (b.drop n)).2) := by
  rw [drain]
  split <;> simp_all

/-- **More letters behind a buffer**: its frames stay, and draining goes on with what was left. -/
theorem drain_append (b s : List τ) : F.drain (b ++ s) =
    match (F.drain b).2 with
    | none => F.drain b
    | some rest => ((F.drain b).1 ++ (F.drain (rest ++ s)).1, (F.drain (rest ++ s)).2) := by
  induction hb : b.length using Nat.strong_induction_on generalizing b with
  | _ k ih =>
    cases hhead : F.head b with
    | more => simp [drain_more hhead]
    | refuse =>
      have h := F.stable s (b := b) (by simp [hhead])
      rw [drain_refuse hhead, drain_refuse (h.trans hhead)]
    | frame n =>
      obtain ⟨hpos, hle⟩ := F.frame_le hhead
      have h := F.stable s (b := b) (by simp [hhead])
      rw [drain_frame hhead, drain_frame (h.trans hhead), take_append_of_le_length hle,
        drop_append_of_le_length hle, ih _ (by rw [length_drop]; omega) (b.drop n) rfl]
      cases hrest : (F.drain (b.drop n)).2 <;> simp [hrest]

/-- More data only adds frames. -/
theorem drain_starts (b s : List τ) : (F.drain b).1 <+: (F.drain (b ++ s)).1 := by
  rw [drain_append]
  cases (F.drain b).2 with
  | none => exact prefix_rfl
  | some rest => exact prefix_append _ _

/-! ## Reads -/

theorem feedAll_snoc (chunk : List τ) :
    F.feedAll limit (chunks ++ [chunk]) = F.feed limit (F.feedAll limit chunks) chunk := by
  rw [feedAll, foldl_append]
  rfl

/-- As long as the reader has not given up, the cut makes no difference. -/
theorem feedAll_open (chunks : List (List τ)) : ∀ rest, (F.feedAll limit chunks).2 = some rest →
    F.head [] = .more → F.feedAll limit chunks = F.drain chunks.flatten := by
  induction chunks using reverseRecOn with
  | nil =>
    intro rest h hnil
    exact (drain_more hnil).symm
  | append_singleton chunks chunk ih =>
    intro rest h hnil
    rw [feedAll_snoc, feed] at h ⊢
    cases hst : (F.feedAll limit chunks).2 with
    | none => simp [hst] at h
    | some buffer =>
      have hprev := ih buffer hst hnil
      simp only [hst] at h ⊢
      split at h
      · cases h
      · rename_i hle
        rw [if_neg hle, flatten_append, flatten_singleton,
          drain_append chunks.flatten, ← hprev, hst]

/-- **Whatever the cut**, the frames the reader takes are the first frames of the stream. -/
theorem feedAll_starts (limit : ℕ) (hnil : F.head [] = .more) (chunks : List (List τ)) :
    (F.feedAll limit chunks).1 <+: (F.drain chunks.flatten).1 := by
  induction chunks using reverseRecOn with
  | nil => exact nil_prefix
  | append_singleton chunks chunk ih =>
    have hgrow : (F.drain chunks.flatten).1 <+: (F.drain (chunks ++ [chunk]).flatten).1 := by
      rw [flatten_append]
      exact drain_starts _ _
    cases hst : (F.feedAll limit (chunks ++ [chunk])).2 with
    | some rest => rw [feedAll_open _ rest hst hnil]
    | none =>
      rw [feedAll_snoc, feed] at hst ⊢
      cases hprev : (F.feedAll limit chunks).2 with
      | none => exact ih.trans hgrow
      | some buffer =>
        simp only [hprev] at hst ⊢
        split
        · exact ih.trans hgrow
        · -- the reader was open, so these are the frames of the stream up to here
          rw [flatten_append, flatten_singleton, drain_append chunks.flatten,
            ← feedAll_open chunks buffer hprev hnil, hprev]

/-! ## Streams of frames -/

/-- The letters are one frame. -/
def IsFrame (F : Framing τ) (f : List τ) : Prop := F.head f = .frame f.length

/-- A frame is recognised whatever follows it. -/
theorem IsFrame.head_append (h : F.IsFrame f) (s : List τ) : F.head (f ++ s) = .frame f.length :=
  (F.stable s (by simp [show F.head f = _ from h])).trans h

/-- Less than a frame is not yet one. -/
theorem IsFrame.head_of_part (h : F.IsFrame f) (hb : b <+: f) (hlt : b.length < f.length) :
    F.head b = .more := by
  by_contra hne
  obtain ⟨s, rfl⟩ := hb
  have hhead := F.stable s hne
  rw [show F.head (b ++ s) = _ from h] at hhead
  have hle := (F.frame_le hhead.symm).2
  omega

/-- A stream of frames is cut into them. -/
theorem drain_frames (hnil : F.head [] = .more) (hfs : ∀ f ∈ fs, F.IsFrame f) :
    F.drain fs.flatten = (fs, some []) := by
  induction fs with
  | nil => exact drain_more hnil
  | cons f fs ih =>
    rw [forall_mem_cons] at hfs
    rw [flatten_cons, drain_frame (hfs.1.head_append _), take_left, drop_left, ih hfs.2]

/-- Behind the whole frames of the beginning of a stream of frames there is less than a frame. -/
theorem drain_of_part (hnil : F.head [] = .more) (hfs : ∀ f ∈ fs, F.IsFrame f)
    (hlen : ∀ f ∈ fs, f.length ≤ n)
    (hb : b <+: fs.flatten) : ∃ rest, (F.drain b).2 = some rest ∧ rest.length ≤ n := by
  induction fs generalizing b with
  | nil =>
    obtain rfl : b = [] := prefix_nil.1 hb
    exact ⟨[], by rw [drain_more hnil], Nat.zero_le _⟩
  | cons f fs ih =>
    rw [forall_mem_cons] at hfs hlen
    rw [flatten_cons] at hb
    rcases lt_or_ge b.length f.length with hlt | hge
    · have hpre : b <+: f := prefix_of_prefix_length_le hb (prefix_append _ _) hlt.le
      exact ⟨b, by rw [drain_more (hfs.1.head_of_part hpre hlt)], hlt.le.trans hlen.1⟩
    · obtain ⟨s, rfl⟩ := prefix_of_prefix_length_le (prefix_append f fs.flatten) hb hge
      obtain ⟨rest, hrest, hle⟩ := ih hfs.2 hlen.2 ((prefix_append_right_inj f).1 hb)
      refine ⟨rest, ?_, hle⟩
      rw [drain_frame (hfs.1.head_append s), drop_left]
      exact hrest

/-- **A stream of frames is read whole**, when a frame and a read fit under the limit together. -/
theorem feedAll_frames {r : ℕ} (hnil : F.head [] = .more) (hfs : ∀ f ∈ fs, F.IsFrame f)
    (hlen : ∀ f ∈ fs, f.length ≤ n)
    (hread : ∀ c ∈ chunks, c.length ≤ r) (hlimit : n + r ≤ limit)
      (hchunks : chunks.flatten = fs.flatten) :
    F.feedAll limit chunks = (fs, some []) := by
  have hopen : ∀ cs : List (List τ), (∀ c ∈ cs, c.length ≤ r) → cs.flatten <+: fs.flatten →
      ∃ rest, (F.feedAll limit cs).2 = some rest := by
    intro cs
    induction cs using reverseRecOn with
    | nil => exact fun _ _ => ⟨[], rfl⟩
    | append_singleton cs c ih =>
      intro hcs hpre
      rw [flatten_append, flatten_singleton] at hpre
      have hpre' := (prefix_append _ _).trans hpre
      obtain ⟨buffer, hbuffer⟩ := ih (fun x hx => hcs x (by simp [hx])) hpre'
      have hprev := feedAll_open cs buffer hbuffer hnil
      -- what is in the buffer is less than a frame, so there is room for the read
      obtain ⟨buffer', hbuffer', hle⟩ := drain_of_part hnil hfs hlen hpre'
      obtain rfl : buffer = buffer' := by
        rw [hprev, hbuffer'] at hbuffer
        exact (Option.some.inj hbuffer).symm
      have hc := hcs c (by simp)
      obtain ⟨rest, hrest, -⟩ := drain_of_part hnil hfs hlen hpre
      refine ⟨rest, ?_⟩
      rw [feedAll_snoc, feed, hbuffer]
      simp only
      rw [if_neg (by omega)]
      rw [drain_append, hbuffer'] at hrest
      exact hrest
  obtain ⟨rest, hrest⟩ := hopen chunks hread (by rw [hchunks])
  rw [feedAll_open chunks rest hrest hnil, hchunks, drain_frames hnil hfs]

end Framing

end PageSpeed.Wire
