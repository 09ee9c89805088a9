import Mathlib.Data.Int.Range
import Mathlib.Tactic

/-!
# Pixels before tracing

`MorphologicalClose` of `lib/image/svg_preprocessor.cc`. The byte `(y * width + x) * bpp + c` of the
buffer is channel `c` of the pixel `(y, x)`.
-/

namespace PageSpeed.Svg

variable (w h : ℕ)

/-- The pixels, each with its channels. -/
abbrev Image (bpp : ℕ) : Type := Fin h × Fin w → Fin bpp → Fin 256

/-- One channel. -/
abbrev Plane : Type := Fin h × Fin w → Fin 256

/-- A sum of type `int`; where it leaves the range it wraps. -/
def addInt (a b : ℤ) : ℤ := (a + b).bmod (2 ^ 32)

/-- The pixel at a place, unless the place is outside of the image. -/
def place (ny nx : ℤ) : Option (Fin h × Fin w) :=
  if hin : (0 ≤ ny ∧ ny < h) ∧ 0 ≤ nx ∧ nx < w then
    some (⟨ny.toNat, by omega⟩, ⟨nx.toNat, by omega⟩) else none

variable {w h} (radius : ℤ)

/-- What the loops over `dy` and `dx` visit around a pixel. -/
def window (p : Fin h × Fin w) : List (Fin h × Fin w) :=
  (Int.range (-radius) (radius + 1)).flatMap fun dy =>
    (Int.range (-radius) (radius + 1)).filterMap fun dx => place w h (addInt p.1 dy) (addInt p.2 dx)

/-- The largest value in the window around a pixel. -/
def dilate (temp : Plane w h) : Plane w h := fun p =>
  (window radius p).foldl (fun maxVal q => max maxVal (temp q)) 0

/-- The smallest value in it. -/
def erode (result : Plane w h) : Plane w h := fun p =>
  (window radius p).foldl (fun minVal q => min minVal (result q)) 255

/-- The alpha channel closed, the others as they are. -/
def morphologicalClose {bpp : ℕ} (pixels : Image w h bpp) : Image w h bpp :=
  if hb : bpp = 4 ∧ 0 < radius then
    let temp := erode radius (dilate radius fun p => pixels p ⟨3, by omega⟩)
    fun p c => if c.val = 3 then temp p else pixels p c
  else pixels

end PageSpeed.Svg
