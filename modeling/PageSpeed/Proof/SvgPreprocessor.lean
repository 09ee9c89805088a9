import Mathlib.Order.GaloisConnection.Basic
import PageSpeed.Spec.SvgPreprocessor

/-!
# The closing of the alpha channel

A pixel is in the window of those that are in its own (`mem_window`), so the maximum filter of a
plane is below another plane exactly when the first is below the minimum filter of the other
(`gc_dilate_erode`).

* `morphologicalClose_closing`: so the two in turn are a closure operator.
-/

namespace PageSpeed.Svg

open List

/-- A running maximum as a least upper bound. -/
theorem foldl_max_le {α β : Type} [LinearOrder α] {f : β → α} {l : List β} {a v : α} :
    l.foldl (fun m q => max m (f q)) a ≤ v ↔ a ≤ v ∧ ∀ q ∈ l, f q ≤ v := by
  induction l generalizing a with
  | nil => simp
  | cons q l ih => rw [foldl_cons, ih, max_le_iff, forall_mem_cons, and_assoc]

/-- A sum that wraps is outside of the image. -/
theorem exists_addInt {n : Fin (2 ^ 31)} (a b : Fin n) {r : ℤ} (hr : r < 2 ^ 30) :
    (∃ d ∈ Int.range (-r) (r + 1), addInt a d = b) ↔ -r ≤ (b : ℤ) - a ∧ (b : ℤ) - a ≤ r := by
  have := a.isLt; have := b.isLt; have := n.isLt
  have hsum : ∀ d, -r ≤ d ∧ d < r + 1 → (addInt a d = b ↔ (a : ℤ) + d = b) := by
    intro d hd
    rw [addInt, Int.bmod_def]; split <;> omega
  simp only [Int.mem_range_iff]
  constructor
  · rintro ⟨d, hd, heq⟩
    have := (hsum d hd).1 heq; omega
  · intro hd
    exact ⟨b - a, by omega, (hsum _ (by omega)).2 (by omega)⟩

variable {w h : Fin (2 ^ 31)} {radius : ℤ}

/-- The window is the square around a pixel. -/
theorem mem_window (hr : radius < 2 ^ 30) {p q : Fin h × Fin w} : q ∈ window radius p ↔
    (-radius ≤ (q.1 : ℤ) - p.1 ∧ (q.1 : ℤ) - p.1 ≤ radius) ∧ -radius ≤ (q.2 : ℤ) - p.2 ∧
      (q.2 : ℤ) - p.2 ≤ radius := by
  have hplace : ∀ ny nx, place w h ny nx = some q ↔ ny = q.1 ∧ nx = q.2 := by
    intro ny nx
    have := q.1.isLt; have := q.2.isLt
    unfold place
    split_ifs
    · rw [Option.some.injEq, Prod.ext_iff, Fin.ext_iff, Fin.ext_iff]
      dsimp only; omega
    · rw [false_iff]; omega
  rw [← exists_addInt p.1 q.1 hr, ← exists_addInt p.2 q.2 hr]
  simp only [window, mem_flatMap, mem_filterMap, hplace]
  constructor
  · rintro ⟨dy, hdy, dx, hdx, hy, hx⟩
    exact ⟨⟨dy, hdy, hy⟩, dx, hdx, hx⟩
  · rintro ⟨⟨dy, hdy, hy⟩, dx, hdx, hx⟩
    exact ⟨dy, hdy, dx, hdx, hy, hx⟩

/-- Dilation and erosion are adjoint. -/
theorem gc_dilate_erode (hr : radius < 2 ^ 30) :
    GaloisConnection (dilate (w := w) (h := h) radius) (erode radius) := by
  have hcomm : ∀ p q : Fin h × Fin w, q ∈ window radius p ↔ p ∈ window radius q := by
    intro p q
    rw [mem_window hr, mem_window hr]; omega
  have herode : ∀ g (q : Fin h × Fin w) v, v ≤ erode radius g q ↔ ∀ p ∈ window radius q,
      v ≤ g p := by
    intro g q v
    refine (foldl_max_le (α := (Fin 256)ᵒᵈ)).trans (and_iff_right ?_)
    exact Fin.le_last v
  intro f g
  simp only [Pi.le_def, herode]
  constructor
  · intro hfg q p hp
    exact (foldl_max_le.1 (hfg p)).2 q ((hcomm p q).2 hp)
  · intro hfg p
    exact foldl_max_le.2 ⟨Fin.zero_le _, fun q hq => hfg q p ((hcomm p q).1 hq)⟩

/-- The alpha channel. -/
def Image.alpha (pixels : Image w h 4) : Plane w h := fun p => pixels p 3

/-- **Closing is a closure operator on the alpha channel**, up to the borders, and leaves the
colours alone. -/
theorem morphologicalClose_closing (w h : Fin (2 ^ 31)) (radius : Set.Ico (1 : ℤ) (2 ^ 30))
    (pixels : Image w h 4) :
    pixels.alpha ≤ (morphologicalClose radius pixels).alpha ∧
    morphologicalClose radius (morphologicalClose radius pixels) =
      morphologicalClose radius pixels ∧ (∀ larger : Image w h 4, pixels.alpha ≤ larger.alpha →
      (morphologicalClose radius pixels).alpha ≤ (morphologicalClose radius larger).alpha) ∧
    ∀ p (c : Fin 4), c ≠ 3 → morphologicalClose radius pixels p c = pixels p c := by
  obtain ⟨radius, hpos, hr⟩ := radius
  have hclose : ∀ px : Image w h 4, morphologicalClose radius px =
      fun p c => if c.val = 3 then erode radius (dilate radius px.alpha) p else px p c :=
    fun px => dif_pos ⟨rfl, Int.lt_of_lt_of_le one_pos hpos⟩
  have halpha : ∀ px : Image w h 4, (morphologicalClose radius px).alpha =
      erode radius (dilate radius px.alpha) := by
    intro px; rw [hclose]; rfl
  have hgc := gc_dilate_erode (w := w) (h := h) hr
  refine ⟨?_, ?_, ?_, ?_⟩
  · rw [halpha]; exact hgc.le_u_l _
  · rw [hclose (morphologicalClose radius pixels), halpha, hgc.u_l_u_eq_u, hclose]
    funext p c; dsimp only; split_ifs <;> rfl
  · intro larger hle
    rw [halpha, halpha]; exact hgc.monotone_u (hgc.monotone_l hle)
  · intro p c hc
    rw [hclose]; exact if_neg fun h => hc (Fin.ext h)

end PageSpeed.Svg
