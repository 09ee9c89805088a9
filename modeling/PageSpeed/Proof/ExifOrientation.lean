import PageSpeed.Spec.ExifOrientation

/-!
# Baking an orientation

* `mapUprightToStored_lt`, `mapUprightToStored_inverse`: the coordinate maps are bijections between
  the upright and the stored raster.
* `applyExifOrientationToRaster_eq`: the transform of a whole raster, pixel by pixel.
* `delivers_initialized`: the rows of the oriented reader.
* `readJpegSegments_inserted`: the tag is found behind well-formed segments.
-/

namespace PageSpeed.Exif

open Wire List Nat

/-- The orientation that undoes one. -/
def inverseOrientation (orientation : UInt8) : UInt8 :=
  if orientation = 6 then 8 else if orientation = 8 then 6 else orientation

/-! ## Coordinates -/

section Coordinates

variable {o : UInt8} {w h x y : ℕ}

theorem orientation_cases :
    ∀ o : UInt8, 1 ≤ o ∧ o ≤ 8 → o = 1 ∨ o = 2 ∨ o = 3 ∨ o = 4 ∨ o = 5 ∨ o = 6 ∨ o = 7 ∨ o = 8 := by
  decide +kernel

theorem inverseOrientation_range : ∀ o : UInt8, 1 ≤ o ∧ o ≤ 8 → 1 ≤ inverseOrientation o ∧
    inverseOrientation o ≤ 8 := by
  decide +kernel

/-- Every orientation is undone by its inverse. -/
theorem inverseOrientation_inverseOrientation : ∀ o : UInt8,
    inverseOrientation (inverseOrientation o) = o := by
  decide +kernel

theorem swapsDimensions_inverseOrientation :
    ∀ o : UInt8, exifOrientationSwapsDimensions (inverseOrientation o) =
      exifOrientationSwapsDimensions o := by
  decide +kernel

/-- Turning there and back keeps the width. -/
theorem outWidth_inverseOrientation :
    outWidth (inverseOrientation o) (outWidth o w h) (outHeight o w h) = w := by
  rw [outWidth, swapsDimensions_inverseOrientation, outWidth, outHeight]
  split <;> rfl

/-- And the height. -/
theorem outHeight_inverseOrientation :
    outHeight (inverseOrientation o) (outWidth o w h) (outHeight o w h) = h := by
  rw [outHeight, swapsDimensions_inverseOrientation, outWidth, outHeight]
  split <;> rfl

/-- Turning keeps the number of pixels. -/
theorem outWidth_mul_outHeight : outHeight o w h * outWidth o w h = h * w := by
  rw [outWidth, outHeight]
  split
  · exact mul_comm w h
  · rfl

/-- A position of the upright raster is copied from inside the stored one. -/
theorem mapUprightToStored_lt (ho : 1 ≤ o ∧ o ≤ 8) (hx : x < outWidth o w h)
    (hy : y < outHeight o w h) :
    (mapUprightToStored o x y w h).1 < w ∧ (mapUprightToStored o x y w h).2 < h := by
  rcases orientation_cases o ho with rfl | rfl | rfl | rfl | rfl | rfl | rfl | rfl <;>
    simp [outWidth, outHeight, exifOrientationSwapsDimensions, mapUprightToStored] at * <;> omega

/-- **The map of the inverse orientation is the inverse map.** -/
theorem mapUprightToStored_inverse (ho : 1 ≤ o ∧ o ≤ 8) (hx : x < w) (hy : y < h) :
    mapUprightToStored o
      (mapUprightToStored (inverseOrientation o) x y (outWidth o w h) (outHeight o w h)).1
      (mapUprightToStored (inverseOrientation o) x y (outWidth o w h) (outHeight o w h)).2 w h =
        (x, y) := by
  rcases orientation_cases o ho with rfl | rfl | rfl | rfl | rfl | rfl | rfl | rfl <;>
    simp [outWidth, outHeight, exifOrientationSwapsDimensions, mapUprightToStored,
      inverseOrientation] <;> omega

theorem mapUprightToStored_inverse_lt (ho : 1 ≤ o ∧ o ≤ 8) (hx : x < w) (hy : y < h) :
    (mapUprightToStored (inverseOrientation o) x y (outWidth o w h) (outHeight o w h)).1 <
      outWidth o w h ∧
      (mapUprightToStored (inverseOrientation o) x y (outWidth o w h) (outHeight o w h)).2 <
        outHeight o w h := by
  refine mapUprightToStored_lt (inverseOrientation_range o ho) ?_ ?_
  · rw [outWidth_inverseOrientation]
    exact hx
  · rw [outHeight_inverseOrientation]
    exact hy

end Coordinates

/-! ## Rasters -/

section Rasters

variable {o : UInt8} {w h c x y : ℕ} {src : Bytes}

/-- A pixel is copied whole. -/
theorem length_uprightPixel (ho : 1 ≤ o ∧ o ≤ 8) (hsrc : src.length = h * (w * c))
    (hx : x < outWidth o w h)
    (hy : y < outHeight o w h) : (uprightPixel o src w h c x y).length = c :=
  length_pixel hsrc (mapUprightToStored_lt ho hx hy).1 (mapUprightToStored_lt ho hx hy).2

/-- The upright raster. -/
def upright (o : UInt8) (src : Bytes) (w h c : ℕ) : Bytes :=
  raster (outWidth o w h) (outHeight o w h) (uprightPixel o src w h c)

section

variable (ho : 1 ≤ o ∧ o ≤ 8)
include ho

/-- The upright raster has the size of the stored one. -/
theorem length_upright (hsrc : src.length = h * (w * c)) :
    (upright o src w h c).length = outHeight o w h * (outWidth o w h * c) :=
  length_raster fun _ hx _ hy => length_uprightPixel ho hsrc hx hy

/-- Its pixels are the stored ones in their new places. -/
theorem pixel_upright (hsrc : src.length = h * (w * c)) (hx : x < outWidth o w h)
    (hy : y < outHeight o w h) : pixel (upright o src w h c) (outWidth o w h) c x y =
      uprightPixel o src w h c x y :=
  pixel_raster (fun _ hx _ hy => length_uprightPixel ho hsrc hx hy) hx hy

/-- **The transform of a raster.** A plain copy is the transform with the identity map. -/
theorem applyExifOrientationToRaster_eq (hw : 0 < w) (hh : 0 < h) (hc : 0 < c)
    (hsrc : src.length = h * (w * c)) : applyExifOrientationToRaster o src w h c =
      some (upright o src w h c) := by
  have hvalid : ¬(o < 1 ∨ 8 < o ∨ w = 0 ∨ h = 0 ∨ c = 0) := by
    rintro (hlt | hlt | hzero | hzero | hzero)
    · exact absurd ho.1 (UInt8.not_le.2 hlt)
    · exact absurd ho.2 (UInt8.not_le.2 hlt)
    all_goals omega
  rw [applyExifOrientationToRaster, if_neg hvalid]
  by_cases h1 : o = 1
  · subst h1
    have hlen : src.length ≤ w * h * c := by
      rw [hsrc, mul_comm w h, mul_assoc]
    rw [if_pos rfl, take_of_length_le hlen]
    exact congrArg some (raster_pixel hsrc).symm
  · rw [if_neg h1, upright]

/-- **The inverse orientation restores the raster.** -/
theorem upright_inverse (hsrc : src.length = h * (w * c)) :
    upright (inverseOrientation o) (upright o src w h c) (outWidth o w h)
      (outHeight o w h) c = src := by
  rw [upright, outWidth_inverseOrientation, outHeight_inverseOrientation]
  refine (raster_congr fun x hx y hy => ?_).trans (raster_pixel hsrc)
  have hlt := mapUprightToStored_inverse_lt ho hx hy
  rw [uprightPixel, pixel_upright ho hsrc hlt.1 hlt.2, uprightPixel,
    mapUprightToStored_inverse ho hx hy]

/-- **Every stored pixel has one upright position.** -/
theorem existsUnique_upright (hx : x < w) (hy : y < h) :
    ∃! p : ℕ × ℕ, p.1 < outWidth o w h ∧ p.2 < outHeight o w h ∧
      mapUprightToStored o p.1 p.2 w h = (x, y) := by
  have hlt := mapUprightToStored_inverse_lt ho hx hy
  refine ⟨mapUprightToStored (inverseOrientation o) x y (outWidth o w h) (outHeight o w h),
    ⟨hlt.1, hlt.2, mapUprightToStored_inverse ho hx hy⟩, ?_⟩
  rintro ⟨px, py⟩ ⟨hpx, hpy, hmap⟩
  -- the inverse map, read in the other direction, recovers the position from the pixel
  have hback := mapUprightToStored_inverse (o := inverseOrientation o) (w := outWidth o w h)
    (h := outHeight o w h)
    (inverseOrientation_range o ho) hpx hpy
  rw [inverseOrientation_inverseOrientation, outWidth_inverseOrientation,
    outHeight_inverseOrientation, hmap] at hback
  exact hback.symm

end

end Rasters

/-! ## The oriented reader -/

variable {rows segments : List Bytes}

namespace Oriented

variable {σ : Type} {R : ScanlineReader σ} {limit : UInt64} {fuel : ℕ} {image src : Bytes}
  {o : UInt8} {w h c : ℕ}

/-- With no orientation the reader serves what the inner reader serves. -/
theorem delivers_passthrough {s : σ} (hdeliver : R.Delivers s rows) :
    ∀ r : Oriented σ, r.inner = s → r.orientation = 1 → (reader R limit fuel).Delivers r rows := by
  induction hdeliver with
  | done hmore =>
    intro r hinner hone
    refine .done ?_
    change hasMoreScanLines R r = false
    rw [hasMoreScanLines, if_pos hone, hinner, hmore]
  | row hmore hread hstatus hrest ih =>
    intro r hinner hone
    refine .row ?_ ?_ hstatus (ih { r with inner := _ } rfl hone)
    · change hasMoreScanLines R r = true
      rw [hasMoreScanLines, if_pos hone, hinner, hmore]
    · change readNextScanlineWithStatus R limit fuel r = _
      rw [readNextScanlineWithStatus, dif_pos hone, hinner, hread]
      rfl

/-- The loop stores the scanlines of the inner reader. -/
theorem bufferScanlines_delivers {s : σ} {rowBytes : ℕ} (hdeliver : R.Delivers s rows)
    (hrows : ∀ row ∈ rows, row.length = rowBytes) :
    ∀ (fuel : ℕ) (stored : Bytes), rows.length < fuel →
      ∃ s', bufferScanlines R rowBytes fuel stored s = some ({}, stored ++ rows.flatten, s') := by
  induction hdeliver with
  | @done s hmore =>
    rintro (_ | fuel) stored hfuel
    · omega
    · refine ⟨s, ?_⟩
      rw [bufferScanlines, if_neg (by rw [hmore]; simp), flatten_nil, append_nil]
  | @row s s' status row rows hmore hread hstatus hrest ih =>
    rintro (_ | fuel) stored hfuel
    · omega
    · obtain ⟨s'', hs''⟩ := ih (fun row hrow => hrows row (.tail _ hrow)) fuel (stored ++ row)
        (by rw [length_cons] at hfuel; omega)
      refine ⟨s'', ?_⟩
      have htake : row.take rowBytes = row := by
        rw [← hrows row (.head _), take_length]
      rw [bufferScanlines, if_pos hmore, hread]
      simp only [Option.bind_eq_bind, Option.bind_some, hstatus, if_true, htake]
      rw [hs'', append_assoc, flatten_cons]

/-- The reader will serve the rows of the raster from its row on: it holds the raster or will buffer
it. -/
structure Serves (R : ScanlineReader σ) (limit : UInt64) (fuel : ℕ) (o : UInt8)
    (src : Bytes) (w h c : ℕ)
    (r : Oriented σ) : Prop where
  orientation : r.orientation = o
  oriented : o ≠ 1
  storedWidth : r.storedWidth = w
  storedHeight : r.storedHeight = h
  outWidth : r.outWidth = Exif.outWidth o w h
  outHeight : r.outHeight = Exif.outHeight o w h
  components : r.components = c
  raster : r.buffered = true ∧ r.stored = src ∨
    r.buffered = false ∧ ∃ inner, bufferStoredRaster R limit fuel r = some ({}, ⟨inner, src, true⟩)

variable {r : Oriented σ}

/-- One read serves one row. -/
theorem Serves.read (hr : Serves R limit fuel o src w h c r) (hrow : r.row < Exif.outHeight o w h) :
    ∃ r', readNextScanlineWithStatus R limit fuel r =
        some ({}, (List.range (Exif.outWidth o w h)).flatMap fun x =>
          uprightPixel o src w h c x r.row, r') ∧
      Serves R limit fuel o src w h c r' ∧ r'.row = r.row + 1 := by
  have hone : r.orientation ≠ 1 := by rw [hr.orientation]; exact hr.oriented
  have hmore : ¬r.outHeight ≤ r.row := by rw [hr.outHeight]; omega
  -- either way the raster is there after the first half of the read
  obtain ⟨b, hb, hstored, hbuffered⟩ : ∃ b : Buffering σ,
      ensureBuffered R limit fuel r = some ({}, b) ∧ b.stored = src ∧ b.buffered = true := by
    rcases hr.raster with ⟨hbuffered, hstored⟩ | ⟨hbuffered, inner, hbuffer⟩
    · exact ⟨_, if_pos hbuffered, hstored, rfl⟩
    · exact ⟨_, (if_neg (by rw [hbuffered]; simp)).trans hbuffer, rfl, rfl⟩
  have hnext : nextRow (r.withBuffering b) =
      (List.range (Exif.outWidth o w h)).flatMap fun x => uprightPixel o src w h c x r.row := by
    rw [nextRow, withBuffering]
    simp only [hr.orientation, hr.storedWidth, hr.storedHeight, hr.outWidth, hr.components, hstored]
  refine ⟨(r.withBuffering b).nextState hone, ?_, ?_, rfl⟩
  · rw [readNextScanlineWithStatus, dif_neg hone, if_neg hmore, hb, ← hnext]
    rfl
  · exact { hr with raster := .inl ⟨hbuffered, hstored⟩ }

/-- The reads from a row on serve the rows from it on. -/
theorem Serves.delivers {n : ℕ} : ∀ {r : Oriented σ}, Serves R limit fuel o src w h c r →
    r.row + n = Exif.outHeight o w h →
    (reader R limit fuel).Delivers r ((List.range' r.row n).map fun y =>
      (List.range (Exif.outWidth o w h)).flatMap fun x => uprightPixel o src w h c x y) := by
  induction n with
  | zero =>
    intro r hr hn
    refine .done ?_
    have hone : r.orientation ≠ 1 := by rw [hr.orientation]; exact hr.oriented
    change hasMoreScanLines R r = false
    rw [hasMoreScanLines, if_neg hone, hr.outHeight, decide_eq_false_iff_not]
    omega
  | succ n ih =>
    intro r hr hn
    have hone : r.orientation ≠ 1 := by rw [hr.orientation]; exact hr.oriented
    obtain ⟨r', hread, hr', hrow⟩ := hr.read (by omega)
    have hrest := ih hr' (by omega)
    rw [hrow] at hrest
    rw [range'_succ, map_cons]
    refine .row ?_ hread rfl hrest
    change hasMoreScanLines R r = true
    rw [hasMoreScanLines, if_neg hone, hr.outHeight, decide_eq_true_eq]
    omega

theorem buffered_restart (R : ScanlineReader σ) (r : Oriented σ) :
    (restart R r).buffered = false := by
  by_cases h : r.buffered ∨ r.orientation ≠ 1
  · rw [restart, if_pos h]
    rfl
  · rw [restart, if_neg h]
    exact Bool.eq_false_iff.2 (not_or.1 h).1

/-- Buffering the rows of a raster within the limit holds the raster. -/
theorem bufferStoredRaster_delivers (hw : r.storedWidth = w)
    (hh : r.storedHeight = h) (hc : r.components = c) (hdeliver : R.Delivers r.inner rows)
    (hrows : ∀ row ∈ rows, row.length = w * c) (hsrc : rows.flatten.length = h * (w * c))
      (hpos : 0 < w * c) (hh0 : 0 < h) (hlimit : w * h * c ≤ limit.toNat) (hfuel : h < fuel) :
    ∃ inner, bufferStoredRaster R limit fuel r = some ({}, ⟨inner, rows.flatten, true⟩) := by
  have hcount : rows.length = h := by
    rw [length_flatten, eq_replicate_of_mem (l := rows.map List.length) (a := w * c) ?_,
      sum_replicate, length_map, smul_eq_mul] at hsrc
    · exact eq_of_mul_eq_mul_right hpos hsrc
    · intro n hn
      obtain ⟨row, hrow, rfl⟩ := mem_map.1 hn
      exact hrows row hrow
  have htotal : w * h * c % 2 ^ 64 = rows.flatten.length := by
    rw [mod_eq_of_lt (hlimit.trans_lt limit.toNat_lt), hsrc, mul_comm w h, mul_assoc]
  have hnonzero : 0 < rows.flatten.length := hsrc ▸ mul_pos hh0 hpos
  obtain ⟨s', hs'⟩ := bufferScanlines_delivers hdeliver hrows fuel [] (hcount ▸ hfuel)
  refine ⟨s', ?_⟩
  rw [bufferStoredRaster, hw, hh, hc]
  simp only [htotal]
  rw [if_neg (by omega), hs']
  simp [ScanlineStatus.isSuccess]

/-- **The oriented reader serves the upright raster** of what its inner reader serves. -/
theorem decodes_upright (ho : 1 ≤ o ∧ o ≤ 8) (hw : 0 < w) (hh : 0 < h) (hc : 0 < c)
    (hsrc : src.length = h * (w * c)) (hlimit : w * h * c ≤ limit.toNat) (hfuel : h < fuel)
    (himage : readExifOrientation image = o)
      (hinner : R.Decodes image (restart R r).inner w h c src) :
    (reader R limit fuel).Decodes image r (Exif.outWidth o w h) (Exif.outHeight o w h) c
      (upright o src w h c) := by
  obtain ⟨status, s', rows, hinit, hstatus, hwidth, hheight, hbytes, hdeliver, hrows, rfl⟩ := hinner
  -- an upright image is passed through; any other is buffered and served row by row
  by_cases hone : o = 1
  · subst hone
    have hinit' : (reader R limit fuel).initializeWithStatus image r =
        (status, { restart R r with
          inner := s', orientation := 1, unserved := fun _ => row_restart R r }) := by
      change initializeWithStatus R image r = _
      rw [initializeWithStatus, hinit]
      simp [hstatus, himage]
    refine ⟨status, _, rows, hinit', hstatus, hwidth, hheight, hbytes,
      delivers_passthrough hdeliver _ rfl rfl, hrows, ?_⟩
    exact (raster_pixel hsrc).symm
  · have hcomponents : w * c / w = c := Nat.mul_div_cancel_left c hw
    obtain ⟨r', hr', hinit'⟩ : ∃ r', { restart R r with
          inner := s', orientation := o, storedWidth := w, storedHeight := h, components := c,
          outWidth := Exif.outWidth o w h, outHeight := Exif.outHeight o w h,
          unserved := fun _ => row_restart R r } = r' ∧
        (reader R limit fuel).initializeWithStatus image r = (status, r') := by
      refine ⟨_, rfl, ?_⟩
      change initializeWithStatus R image r = _
      rw [initializeWithStatus, hinit]
      simp [hstatus, himage, hone, hwidth, hheight, hbytes, hcomponents, hw.ne', hc.ne',
        mul_comm c w]
    have hserves : Serves R limit fuel o rows.flatten w h c r' := by
      subst hr'
      exact ⟨rfl, hone, rfl, rfl, rfl, rfl, rfl, .inr ⟨buffered_restart R r,
        bufferStoredRaster_delivers rfl rfl rfl hdeliver hrows hsrc
          (mul_pos hw hc) hh hlimit hfuel⟩⟩
    have hrow : r'.row = 0 := by
      subst hr'
      exact row_restart R r
    have hdeliver' := hserves.delivers (n := Exif.outHeight o w h) (by omega)
    have hne : r'.orientation ≠ 1 := hserves.orientation.symm ▸ hone
    -- size and rows are those of the upright image
    refine ⟨status, r', _, hinit', hstatus, ?_, ?_, ?_, hdeliver', ?_, ?_⟩
    · change imageWidth R r' = _
      rw [imageWidth, if_neg hne, hserves.outWidth]
    · change imageHeight R r' = _
      rw [imageHeight, if_neg hne, hserves.outHeight]
    · change bytesPerScanline R r' = _
      rw [bytesPerScanline, if_neg hne, hserves.outWidth, hserves.components]
    · intro row hmem
      obtain ⟨y, hy, rfl⟩ := mem_map.1 hmem
      rw [hrow, ← range_eq_range', mem_range] at hy
      exact length_row fun x hx => length_uprightPixel ho hsrc hx hy
    · rw [hrow, ← range_eq_range', ← flatMap_def]
      rfl

end Oriented

/-! ## The tag in a JPEG stream -/

/-- A well-formed segment ahead of the image data, after any fill bytes: it starts neither the scan
nor the end of the image, and is no APP1 segment with the Exif identifier. -/
inductive HeaderSegment : Bytes → Prop
  | standalone (fill : ℕ) {marker : UInt8} (hmarker : standaloneMarker marker = true) :
      HeaderSegment (List.replicate (fill + 1) 0xFF ++ [marker])
  | sized (fill : ℕ) {marker : UInt8} {payload : Bytes} (hmarker : standaloneMarker marker = false)
      (hfill : marker ≠ 0xFF) (heoi : marker ≠ 0xD9) (hsos : marker ≠ 0xDA)
        (hlen : payload.length + 2 < 2 ^ 16)
      (hexif : ¬(marker = 0xE1 ∧ exifIdentifier <+: payload)) :
      HeaderSegment (List.replicate (fill + 1) 0xFF ++
        marker :: (beBytes 2 (payload.length + 2) ++ payload))

/-- An APP1 segment with the built payload, as `jpeg_write_marker` writes it. -/
def orientationSegment (orientation : UInt8) : Bytes :=
  [0xFF, 0xE1] ++ beBytes 2 (2 + (buildExifOrientationApp1 orientation).length) ++
    buildExifOrientationApp1 orientation

section Segments

variable {o marker : UInt8} {rest payload : Bytes} {fuel : ℕ}

theorem standaloneMarker_ne_fill : ∀ marker : UInt8, standaloneMarker marker = true →
    marker ≠ 0xFF := by
  decide +kernel

theorem dropWhile_fill (n : ℕ) (h : marker ≠ 0xFF) :
    (List.replicate n (0xFF : UInt8) ++ marker :: rest).dropWhile (· == 0xFF) = marker :: rest := by
  induction n with
  | zero => exact dropWhile_cons_of_neg (by simpa using h)
  | succ n ih =>
    rw [replicate_succ, cons_append, dropWhile_cons_of_pos (by rfl)]
    exact ih

/-- A standalone marker is passed. -/
theorem readJpegSegments_standalone (fill : ℕ) (h : standaloneMarker marker = true)
    (hrest : 2 ≤ rest.length) :
    readJpegSegments (fuel + 1) (List.replicate (fill + 1) 0xFF ++ marker :: rest) =
      readJpegSegments fuel rest := by
  rw [readJpegSegments, if_neg (by simp; omega), if_neg (by simp [replicate_succ]),
    dropWhile_fill _ (standaloneMarker_ne_fill marker h)]
  exact if_pos h

/-- A segment with a length field is read for its tag if it is an Exif APP1 segment, and passed if
not. -/
theorem readJpegSegments_sized (fill : ℕ) (hmarker : standaloneMarker marker = false)
    (hfill : marker ≠ 0xFF)
    (heoi : marker ≠ 0xD9) (hsos : marker ≠ 0xDA) (hlen : payload.length + 2 < 2 ^ 16) :
    readJpegSegments (fuel + 1)
        (List.replicate (fill + 1) 0xFF ++
          marker :: (beBytes 2 (payload.length + 2) ++ payload ++ rest)) =
      if marker = 0xE1 ∧ 2 + 6 + 8 ≤ payload.length + 2 ∧
          exifIdentifier.isPrefixOf (payload ++ rest) then
        orDefault (parseTiffOrientation (((payload ++ rest).drop 6).take (payload.length + 2 - 8)))
      else readJpegSegments fuel rest := by
  have hread : read16 (beBytes 2 (payload.length + 2) ++ payload ++ rest) true =
      payload.length + 2 := by
    rw [read16, if_pos rfl, append_assoc, take_left' (length_beBytes _ _), beNat_beBytes]
    exact mod_eq_of_lt hlen
  have hdrop2 : (beBytes 2 (payload.length + 2) ++ payload ++ rest).drop 2 = payload ++ rest := by
    rw [append_assoc, drop_left' (length_beBytes _ _)]
  have hdrop8 : (beBytes 2 (payload.length + 2) ++ payload ++ rest).drop 8 =
      (payload ++ rest).drop 6 := by
    rw [← hdrop2, drop_drop]
  have hdrop : (beBytes 2 (payload.length + 2) ++ payload ++ rest).drop
      (payload.length + 2) = rest :=
    drop_left' (by rw [length_append, length_beBytes, add_comm])
  rw [readJpegSegments, if_neg (by simp; omega), if_neg (by simp [replicate_succ]),
    dropWhile_fill _ hfill]
  simp only [hmarker, heoi, hsos, hread, hdrop2, hdrop8, hdrop, Bool.false_eq_true,
    or_self, if_false]
  rw [if_neg (by simp; omega), if_neg (by simp; omega)]

/-- A segment with a length field and no Exif identifier is passed. -/
theorem readJpegSegments_sized_of_not_exif (fill : ℕ) (hmarker : standaloneMarker marker = false)
    (hfill : marker ≠ 0xFF) (heoi : marker ≠ 0xD9) (hsos : marker ≠ 0xDA)
      (hlen : payload.length + 2 < 2 ^ 16) (hexif : ¬(marker = 0xE1 ∧ exifIdentifier <+: payload)) :
    readJpegSegments (fuel + 1)
        (List.replicate (fill + 1) 0xFF ++
          marker :: (beBytes 2 (payload.length + 2) ++ payload ++ rest)) =
      readJpegSegments fuel rest := by
  rw [readJpegSegments_sized fill hmarker hfill heoi hsos hlen, if_neg]
  rintro ⟨happ1, hlong, hident⟩
  -- the identifier fits into the payload, so it is not completed by what follows
  have hfits : exifIdentifier.length ≤ payload.length := by
    have hsix : exifIdentifier.length = 6 := rfl
    omega
  exact hexif ⟨happ1, prefix_of_prefix_length_le ( isPrefixOf_iff_prefix.1 hident)
    (prefix_append payload rest) hfits⟩

/-- A built payload is read back. -/
theorem parseTiffOrientation_built : ∀ o : UInt8, 1 ≤ o ∧ o ≤ 8 →
    orDefault (parseTiffOrientation ((buildExifOrientationApp1 o).drop 6)) = o := by
  decide +kernel

theorem length_buildExifOrientationApp1 : (buildExifOrientationApp1 o).length = 32 := rfl

/-- The inserted segment is read. -/
theorem readJpegSegments_orientationSegment (ho : 1 ≤ o ∧ o ≤ 8) :
    readJpegSegments (fuel + 1) (orientationSegment o ++ rest) = o := by
  have hsegment : orientationSegment o ++ rest = List.replicate (0 + 1) 0xFF ++ 0xE1 ::
      (beBytes 2 ((buildExifOrientationApp1 o).length + 2) ++
        buildExifOrientationApp1 o ++ rest) := by
    rw [orientationSegment, add_comm 2]
    simp
  have hident : exifIdentifier.isPrefixOf (buildExifOrientationApp1 o ++ rest) = true := rfl
  have htiff : ((buildExifOrientationApp1 o ++ rest).drop 6).take 26 =
      (buildExifOrientationApp1 o).drop 6 := rfl
  rw [hsegment, readJpegSegments_sized 0 (by decide) (by decide) (by decide) (by decide)
    (by rw [length_buildExifOrientationApp1]; decide),
      if_pos ⟨rfl, by rw [length_buildExifOrientationApp1]; decide, hident⟩,
    length_buildExifOrientationApp1, htiff]
  exact parseTiffOrientation_built o ho

/-- **The tag is found behind well-formed segments.** -/
theorem readJpegSegments_inserted (ho : 1 ≤ o ∧ o ≤ 8)
    (hsegments : ∀ segment ∈ segments, HeaderSegment segment) :
    ∀ fuel, (segments.flatten ++ (orientationSegment o ++ rest)).length ≤ fuel →
      readJpegSegments fuel (segments.flatten ++ (orientationSegment o ++ rest)) = o := by
  induction segments with
  | nil =>
    rintro (_ | fuel) hfuel
    · simp [orientationSegment] at hfuel
    · exact readJpegSegments_orientationSegment ho
  | cons segment segments ih =>
    rintro (_ | fuel) hfuel
    · simp [orientationSegment] at hfuel
    · have ih' := ih (fun s hs => hsegments s (.tail _ hs)) fuel
      generalize hfollowing : segments.flatten ++ (orientationSegment o ++ rest) = following at ih'
      have hfollowing2 : 2 ≤ following.length := by
        rw [← hfollowing]
        simp [orientationSegment]
        omega
      rw [flatten_cons, append_assoc, hfollowing] at hfuel ⊢
      have hsegment := hsegments segment (.head _)
      -- a marker alone, or a segment whose length is skipped
      rcases hsegment with ⟨fill, hmarker⟩ | ⟨fill, hmarker, hfill, heoi, hsos, hlen, hexif⟩
      · rw [append_assoc, singleton_append, readJpegSegments_standalone fill hmarker hfollowing2]
        refine ih' ?_
        simp at hfuel
        omega
      · rw [append_assoc, cons_append,
          readJpegSegments_sized_of_not_exif fill hmarker hfill heoi hsos hlen hexif]
        refine ih' ?_
        simp at hfuel
        omega

end Segments

/-- So is one put into a JPEG behind other header segments. -/
theorem readExifOrientation_inserted {o : UInt8} (ho : 1 ≤ o ∧ o ≤ 8) (rest : Bytes)
    (hsegments : ∀ segment ∈ segments, HeaderSegment segment) :
    readExifOrientation ([0xFF, 0xD8] ++
      (segments.flatten ++ (orientationSegment o ++ rest))) = o := by
  have hlong : ¬([0xFF, 0xD8] ++ (segments.flatten ++ (orientationSegment o ++ rest))).length <
      4 := by
    simp [orientationSegment]
    omega
  have hstart : ([0xFF, 0xD8] ++ (segments.flatten ++ (orientationSegment o ++ rest))).take 2 =
      [0xFF, 0xD8] := rfl
  rw [readExifOrientation, if_neg hlong, if_pos hstart, readJpegExifOrientation,
    if_neg (not_or.2 ⟨hlong, not_not.2 hstart⟩)]
  exact readJpegSegments_inserted ho hsegments _ (by simp; omega)

/-- A raster with no pixels is refused. -/
theorem applyExifOrientationToRaster_empty (o : UInt8) (src : Bytes) {w h c : ℕ}
    (hzero : w = 0 ∨ h = 0 ∨ c = 0) :
    applyExifOrientationToRaster o src w h c = none :=
  if_pos (.inr (.inr hzero))

/-- **Baking is an exact permutation.** For a raster that has pixels: every upright position takes
one stored pixel, every stored pixel goes to one upright position, the inverse orientation restores
the raster, and a reader over any reader of the raster serves the same bytes. The tag that asks for
it is read back from any JPEG stream it is inserted into, behind well-formed segments. -/
theorem baking_exact_permutation (o : UInt8) (src : Bytes) (w h c : ℕ) (ho : 1 ≤ o ∧ o ≤ 8)
    (hsrc : src.length = w * h * c) :
    (w = 0 ∨ h = 0 ∨ c = 0 → applyExifOrientationToRaster o src w h c = none) ∧
    (0 < w → 0 < h → 0 < c → ∃ dst, applyExifOrientationToRaster o src w h c = some dst ∧
      dst.length = src.length ∧
      (∀ x < outWidth o w h, ∀ y < outHeight o w h, ∃ sx < w, ∃ sy < h,
        mapUprightToStored o x y w h = (sx, sy) ∧
        pixel dst (outWidth o w h) c x y = pixel src w c sx sy) ∧
      (∀ sx < w, ∀ sy < h, ∃! p : ℕ × ℕ,
        p.1 < outWidth o w h ∧ p.2 < outHeight o w h ∧
          mapUprightToStored o p.1 p.2 w h = (sx, sy)) ∧
      applyExifOrientationToRaster (inverseOrientation o) dst (outWidth o w h)
        (outHeight o w h) c = some src ∧
      ∀ (σ : Type) (R : ScanlineReader σ) (limit : UInt64) (fuel : ℕ) (image : Bytes)
        (r : Oriented σ),
        w * h * c ≤ limit.toNat → h < fuel → readExifOrientation image = o →
        R.Decodes image (Oriented.restart R r).inner w h c src →
        (Oriented.reader R limit fuel).Decodes image r (outWidth o w h) (outHeight o w h) c dst) ∧
    ∀ (segments : List Bytes) (rest : Bytes), (∀ segment ∈ segments, HeaderSegment segment) →
      readExifOrientation ([0xFF, 0xD8] ++
        (segments.flatten ++ (orientationSegment o ++ rest))) = o := by
  refine ⟨applyExifOrientationToRaster_empty o src, ?_, fun _ rest h =>
    readExifOrientation_inserted ho rest h⟩
  intro hw hh hc
  have hsrc' : src.length = h * (w * c) := by rw [hsrc, mul_comm w h, mul_assoc]
  have hlen := length_upright ho hsrc'
  have hout : 0 < outWidth o w h ∧ 0 < outHeight o w h := by
    rw [outWidth, outHeight]
    split
    · exact ⟨hh, hw⟩
    · exact ⟨hw, hh⟩
  refine ⟨upright o src w h c, applyExifOrientationToRaster_eq ho hw hh hc hsrc', ?_,
    ?_, ?_, ?_, ?_⟩
  · rw [hlen, hsrc', ← mul_assoc, outWidth_mul_outHeight, mul_assoc]
  · intro x hx y hy
    obtain ⟨hsx, hsy⟩ := mapUprightToStored_lt ho hx hy
    exact ⟨_, hsx, _, hsy, rfl, pixel_upright ho hsrc' hx hy⟩
  · exact fun sx hsx sy hsy => existsUnique_upright ho hsx hsy
  · rw [applyExifOrientationToRaster_eq (inverseOrientation_range o ho) hout.1 hout.2 hc hlen,
      upright_inverse ho hsrc']
  · intro σ R limit fuel image r hlimit hfuel himage hinner
    exact Oriented.decodes_upright ho hw hh hc hsrc' hlimit hfuel himage hinner

/-- A reader of rows that are decoded already; its state is the rows still to be read. -/
def rowsReader (width height components : ℕ) (rows : List Bytes) : ScanlineReader (List Bytes) where
  reset := fun s => (true, s)
  bytesPerScanline := fun _ => width * components
  hasMoreScanLines := fun s => !s.isEmpty
  initializeWithStatus := fun _ _ => ({}, rows)
  readNextScanlineWithStatus := fun s => some ({}, s.headD [], s.tail)
  imageHeight := fun _ => height
  imageWidth := fun _ => width

/-- A reader of given rows delivers them. -/
theorem delivers_rowsReader {w h c : ℕ} (s : List Bytes) :
    (rowsReader w h c rows).Delivers s s := by
  induction s with
  | nil => exact .done rfl
  | cons row s ih => exact .row rfl rfl rfl ih

theorem baking_exact_permutation_quarter_turn :
    ∃ dst, applyExifOrientationToRaster 6 [1, 2, 3, 4, 5, 6] 3 2 1 = some dst ∧
      applyExifOrientationToRaster 8 dst 2 3 1 = some [1, 2, 3, 4, 5, 6] ∧
      (Oriented.reader (rowsReader 3 2 1 [[1, 2, 3], [4, 5, 6]]) 100 3).Decodes
        ([0xFF, 0xD8] ++ orientationSegment 6) { inner := [] } 2 3 1 dst := by
  obtain ⟨dst, hdst, -, -, -, hback, hreader⟩ :=
    (baking_exact_permutation 6 [1, 2, 3, 4, 5, 6] 3 2 1 (by decide) rfl).2.1 (by decide)
      (by decide) (by decide)
  refine ⟨dst, hdst, hback, hreader _ _ 100 3 _ { inner := [] } (by decide) (by decide)
    (by decide) ?_⟩
  exact ⟨_, _, _, rfl, rfl, rfl, rfl, rfl, delivers_rowsReader _, by decide, rfl⟩

end PageSpeed.Exif
