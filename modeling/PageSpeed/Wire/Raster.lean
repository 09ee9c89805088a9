import Mathlib.Tactic

/-!
# Rasters

A list that is laid out as chunks of one length, and a raster: rows of pixels, each of `c` entries.

* `chunk_flatMap`, `flatMap_chunk`: the chunks of such a list, and the list of its chunks.
* `pixel_raster`, `raster_pixel`: the pixels of a raster, and the raster of its pixels.
-/

namespace PageSpeed.Wire

open List

variable {α : Type}

/-- `n` entries from a position on. -/
def chunk (l : List α) (i n : ℕ) : List α := (l.drop i).take n

/-- Rows of pixels, one after the other. -/
def raster (w h : ℕ) (f : ℕ → ℕ → List α) : List α :=
  (List.range h).flatMap fun y => (List.range w).flatMap fun x => f x y

/-- A pixel of `c` entries in a raster of width `w`. -/
def pixel (l : List α) (w c x y : ℕ) : List α := chunk l (y * (w * c) + x * c) c

variable {l : List α} {n c : ℕ} {g : ℕ → List α}

/-- A chunk of a chunk. -/
theorem chunk_chunk {i j m : ℕ} (h : j + c ≤ m) : chunk (chunk l i m) j c = chunk l (i + j) c := by
  rw [chunk, chunk, chunk, drop_take, drop_drop, take_take, min_eq_left (by omega)]

theorem length_chunk {i : ℕ} (h : i + n ≤ l.length) : (chunk l i n).length = n := by
  rw [chunk, length_take, length_drop, min_eq_left (by omega)]

/-- Pieces of one length. -/
theorem length_flatMap_range (hg : ∀ i < n, (g i).length = c) :
    ((List.range n).flatMap g).length = n * c := by
  induction n with
  | zero => simp
  | succ n ih =>
    rw [range_succ, flatMap_append, length_append, ih fun i hi => hg i (by omega),
      flatMap_singleton, hg n (by omega), Nat.succ_mul]

/-- The chunks of a list. -/
theorem chunk_flatMap (hg : ∀ i < n, (g i).length = c) {i : ℕ} (hi : i < n) :
    chunk ((List.range n).flatMap g) (i * c) c = g i := by
  induction n with
  | zero => omega
  | succ n ih =>
    have hlen := length_flatMap_range fun i hi => hg i (Nat.lt_succ_of_lt hi)
    rw [range_succ, flatMap_append, flatMap_singleton, chunk]
    rcases Nat.lt_succ_iff_lt_or_eq.1 hi with hlt | rfl
    · have hfit : i * c + c ≤ n * c := by
        rw [← Nat.succ_mul]
        exact Nat.mul_le_mul_right c hlt
      rw [drop_append_of_le_length (by omega),
        take_append_of_le_length (by rw [length_drop]; omega)]
      exact ih (fun j hj => hg j (by omega)) hlt
    · rw [← hlen, drop_left, ← hg i (by omega), take_length]

/-- The list of the chunks. -/
theorem flatMap_chunk (h : l.length = n * c) :
    ((List.range n).flatMap fun i => chunk l (i * c) c) = l := by
  induction n generalizing l with
  | zero =>
    rw [Nat.zero_mul] at h
    rw [length_eq_zero_iff.1 h]
    rfl
  | succ n ih =>
    rw [Nat.succ_mul] at h
    have hinit : ((List.range n).flatMap fun i => chunk l (i * c) c) = l.take (n * c) := by
      rw [← ih (l := l.take (n * c)) (by rw [length_take]; omega)]
      refine flatMap_congr fun i hi => ?_
      have hfit : i * c + c ≤ n * c := by
        rw [← Nat.succ_mul]
        exact Nat.mul_le_mul_right c (mem_range.1 hi)
      rw [chunk, chunk, drop_take, take_take, min_eq_left (by omega)]
    rw [range_succ, flatMap_append, flatMap_singleton, hinit, chunk,
      take_of_length_le (i := c) (by rw [length_drop]; omega), take_append_drop]

variable {w h x y : ℕ} {f g : ℕ → ℕ → List α}

theorem raster_congr (hfg : ∀ x < w, ∀ y < h, f x y = g x y) : raster w h f = raster w h g :=
  flatMap_congr fun y hy => flatMap_congr fun x hx => hfg x (mem_range.1 hx) y (mem_range.1 hy)

theorem length_row (hf : ∀ x < w, (f x y).length = c) :
    ((List.range w).flatMap fun x => f x y).length = w * c :=
  length_flatMap_range hf

/-- The size of a raster. -/
theorem length_raster (hf : ∀ x < w, ∀ y < h, (f x y).length = c) :
    (raster w h f).length = h * (w * c) :=
  length_flatMap_range fun y hy => length_row fun x hx => hf x hx y hy

/-- The pixel lies in its row. -/
theorem pixel_fits (hx : x < w) : x * c + c ≤ w * c := by
  rw [← Nat.succ_mul]
  exact Nat.mul_le_mul_right c hx

/-- **The pixels of a raster.** -/
theorem pixel_raster (hf : ∀ x < w, ∀ y < h, (f x y).length = c) (hx : x < w) (hy : y < h) :
    pixel (raster w h f) w c x y = f x y := by
  rw [pixel, ← chunk_chunk (m := w * c) (pixel_fits hx), raster,
    chunk_flatMap (fun y hy => length_row fun x hx => hf x hx y hy) hy]
  exact chunk_flatMap (fun x hx => hf x hx y hy) hx

/-- **The raster of the pixels.** -/
theorem raster_pixel (hl : l.length = h * (w * c)) : raster w h (pixel l w c) = l := by
  have hrow : ∀ y < h, ((List.range w).flatMap fun x => pixel l w c x y) =
      chunk l (y * (w * c)) (w * c) := by
    intro y hy
    have hfit : y * (w * c) + w * c ≤ h * (w * c) := pixel_fits hy
    rw [← flatMap_chunk (length_chunk (l := l) (i := y * (w * c)) (n := w * c) (by omega))]
    refine flatMap_congr fun x hx => ?_
    rw [chunk_chunk (pixel_fits (mem_range.1 hx)), pixel]
  rw [raster, flatMap_congr fun y hy => hrow y (mem_range.1 hy)]
  exact flatMap_chunk hl

/-- The size of a pixel. -/
theorem length_pixel (hl : l.length = h * (w * c)) (hx : x < w) (hy : y < h) :
    (pixel l w c x y).length = c := by
  have hrow : y * (w * c) + w * c ≤ h * (w * c) := pixel_fits hy
  have hpixel : x * c + c ≤ w * c := pixel_fits hx
  exact length_chunk (by omega)

end PageSpeed.Wire
