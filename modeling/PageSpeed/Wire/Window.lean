import PageSpeed.Wire.Bytes

/-!
# Reads from a buffer and writes into one

`readAt d off len` is a read of `len` bytes at an absolute offset, with the fault made
explicit: it is `.ok` exactly when the whole read lies inside `d` (`readAt_eq`). A
reader built from such reads and never faulting therefore never runs past its buffer.

* `slice_stable`: a read inside the first `n` bytes sees only those bytes.
* `slice_mid`: a field is read back where it was put.
* `Cursor`: writing consecutive fields into a buffer sized in advance (`Cursor.Filled`).
-/

namespace PageSpeed.Wire

open List

/-- What a read outside its buffer does. -/
inductive Fault
  | overread
  deriving DecidableEq, Repr

/-- The `len` bytes of `d` from offset `off` on. -/
def slice (d : Bytes) (off len : ℕ) : Bytes := (d.drop off).take len

/-- A bounds-checked read. -/
def readAt (d : Bytes) (off len : ℕ) : Except Fault Bytes :=
  if off + len ≤ d.length then .ok (slice d off len) else .error .overread

/-- A bounds-checked read of one byte. -/
def readByte (d : Bytes) (off : ℕ) : Except Fault UInt8 :=
  (readAt d off 1).map Scalar.ofLe

/-- A bounds-checked read of a little-endian scalar. -/
def readScalar (α : Type) [Scalar α] (d : Bytes) (off : ℕ) : Except Fault α :=
  (readAt d off (Scalar.width α)).map Scalar.ofLe

/-- The little-endian scalar at offset `off`. -/
def scalarAt (α : Type) [Scalar α] (d : Bytes) (off : ℕ) : α :=
  Scalar.ofLe (slice d off (Scalar.width α))

variable {d s : Bytes} {off len n : ℕ} {α : Type} [Scalar α] {L : List Bytes}

/-- A read within the data is a slice. -/
theorem readAt_eq (h : off + len ≤ d.length) : readAt d off len = .ok (slice d off len) := by
  rw [readAt, if_pos h]

theorem readByte_eq (h : off + 1 ≤ d.length) : readByte d off = .ok (scalarAt UInt8 d off) := by
  rw [readByte, readAt_eq h]; rfl

/-- So is a number. -/
theorem readScalar_eq (h : off + Scalar.width α ≤ d.length) :
    readScalar α d off = .ok (scalarAt α d off) := by
  rw [readScalar, readAt_eq h]; rfl

theorem length_slice (h : off + len ≤ d.length) : (slice d off len).length = len := by
  rw [slice, length_take, length_drop]; omega

theorem length_slice_le (d : Bytes) (off len : ℕ) : (slice d off len).length ≤ len := by
  rw [slice, length_take]; omega

/-- A slice of the first `n` bytes does not see what follows them. -/
theorem slice_stable (hn : n ≤ d.length) (h : off + len ≤ n) :
    slice (d.take n ++ s) off len = slice d off len := by
  have hl : (d.take n).length = n := by rw [length_take]; omega
  rw [slice, slice, drop_append_of_le_length (by omega),
    take_append_of_le_length (by rw [length_drop]; omega), drop_take,
    take_take, min_eq_left (by omega)]

/-- A number does not depend on what follows it. -/
theorem scalarAt_stable (hn : n ≤ d.length) (h : off + Scalar.width α ≤ n) :
    scalarAt α (d.take n ++ s) off = scalarAt α d off := by
  rw [scalarAt, scalarAt, slice_stable hn h]

theorem scalarAt_uint8_cons (b : UInt8) (t : Bytes) : scalarAt UInt8 (b :: t) 0 = b := by
  show UInt8.ofNat (leNat [b]) = b
  simp [leNat]

/-- **A field is read back where it was put.** -/
theorem slice_mid {a b c : Bytes} (ho : off = a.length) (hl : len = b.length) :
    slice (a ++ (b ++ c)) off len = b := by
  subst ho hl
  rw [slice, drop_left, take_left]

/-- The `i`-th of consecutive fields, read at the sum of the sizes before it. -/
theorem slice_field {S : List ℕ} {c x : Bytes} (hS : L.map List.length = S) (i : ℕ)
    (hx : L[i]? = some x) (ho : off = (S.take i).sum) (hl : len = x.length) :
    slice (L.flatten ++ c) off len = x := by
  obtain ⟨hi, rfl⟩ := List.getElem?_eq_some_iff.1 hx
  have hsplit : L.flatten ++ c = (L.take i).flatten ++
      (L[i] ++ ((L.drop (i + 1)).flatten ++ c)) := by
    conv_lhs => rw [← List.take_append_drop i L, List.drop_eq_getElem_cons hi, List.flatten_append,
      flatten_cons, append_assoc, append_assoc]
  have ho' : off = (L.take i).flatten.length := by
    rw [ho, length_flatten, ← hS, map_take]
  rw [hsplit, slice_mid ho' hl]

/-- A number in a list of fields, by the sizes of those before it. -/
theorem scalarAt_field {S : List ℕ} {c : Bytes} {x : α} (hS : L.map List.length = S)
    (i : ℕ) (hx : L[i]? = some (Scalar.toLe x)) (ho : off = (S.take i).sum) :
    scalarAt α (L.flatten ++ c) off = x := by
  rw [scalarAt, slice_field hS i hx ho (by simp), Scalar.ofLe_toLe]

/-! ## Writing consecutive fields -/

/-- A write position in a buffer. -/
structure Cursor where
  out : Bytes
  offset : ℕ

namespace Cursor

/-- Overwrite the bytes at the cursor and move past them. -/
def writeBytes (c : Cursor) (src : Bytes) : Cursor :=
  ⟨c.out.take c.offset ++ src ++ c.out.drop (c.offset + src.length), c.offset + src.length⟩

/-- Everything before the cursor is `done`, and `room` bytes of the buffer are left. -/
structure Filled (c : Cursor) (done : Bytes) (room : ℕ) : Prop where
  written : c.out.take c.offset = done
  offset : c.offset = done.length
  length : c.out.length = done.length + room

theorem Filled.start (b : Bytes) : Filled ⟨b, 0⟩ [] b.length := ⟨rfl, rfl, by simp⟩

variable {c : Cursor}

/-- **One write** into a buffer with room for it. -/
theorem Filled.write {done src : Bytes} {room : ℕ} (h : c.Filled done (src.length + room)) :
    (c.writeBytes src).Filled (done ++ src) room := by
  have hl := h.length
  have ho := h.offset
  refine ⟨?_, ?_, ?_⟩
  · simp only [writeBytes]
    rw [h.written, ho, ← length_append, take_left]
  · simp only [writeBytes, length_append]; omega
  · simp only [writeBytes]
    rw [h.written, length_append, length_append, length_drop]
    omega

/-- A buffer with no room left holds exactly what was written. -/
theorem Filled.full {done : Bytes} (h : c.Filled done 0) : c.out = done := by
  have hl := h.length
  have := h.written
  rwa [take_of_length_le (by have := h.offset; omega)] at this

/-- The fields written one after another. -/
def writeAll (c : Cursor) (fields : List Bytes) : Cursor := fields.foldl writeBytes c

/-- **A buffer of the fields' total size is filled with exactly the fields.** -/
theorem writeAll_out (fields : List Bytes) {done : Bytes}
    (h : c.Filled done fields.flatten.length) : (c.writeAll fields).out = done ++
      fields.flatten := by
  induction fields generalizing c done with
  | nil => simpa [writeAll] using h.full
  | cons f fs ih =>
    rw [flatten_cons, length_append] at h
    have := ih h.write
    rw [flatten_cons, ← append_assoc]
    exact this

end Cursor

end PageSpeed.Wire
