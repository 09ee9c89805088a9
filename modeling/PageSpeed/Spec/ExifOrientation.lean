import PageSpeed.Spec.Inet
import PageSpeed.Wire.Raster

/-!
# EXIF orientation

`lib/image/exif_orientation.cc`: the readers of the Orientation tag, the payload that carries it,
and the two transforms that bake it into the pixels. A reader of a container works on the bytes it
has not passed yet.
-/

namespace PageSpeed.Exif

open Wire

/-! ## The tag -/

/-- The tag of the orientation in a TIFF directory. -/
def kOrientationTag : ℕ := 0x0112

/-- The TIFF type of the orientation's value. -/
def kTypeShort : ℕ := 3

/-- Two bytes in either order. -/
def read16 (p : Bytes) (bigEndian : Bool) : ℕ :=
  if bigEndian then beNat (p.take 2) else leNat (p.take 2)

/-- Four bytes in either order. -/
def read32 (p : Bytes) (bigEndian : Bool) : ℕ :=
  if bigEndian then beNat (p.take 4) else leNat (p.take 4)

/-- The loop of `ParseTiffOrientation` over `numEntries` declared entries, of which `maxEntries` are
present. -/
def parseIfdEntries (bigEndian : Bool) : ℕ → ℕ → Bytes → UInt8
  | 0, _, _ => 0
  | _ + 1, 0, _ => 0
  | numEntries + 1, maxEntries + 1, entry =>
    if read16 entry bigEndian ≠ kOrientationTag then
      parseIfdEntries bigEndian numEntries maxEntries (entry.drop 12)
    else if read16 (entry.drop 2) bigEndian ≠ kTypeShort then 0
    else if read32 (entry.drop 4) bigEndian ≠ 1 then 0
    else
      let value := read16 (entry.drop 8) bigEndian
      if 1 ≤ value ∧ value ≤ 8 then UInt8.ofNat value else 0

/-- `ParseTiffOrientation` once the byte order is known. -/
def parseTiffBody (tiff : Bytes) (bigEndian : Bool) : UInt8 :=
  if read16 (tiff.drop 2) bigEndian ≠ 42 then 0
  else
    let ifdOffset := read32 (tiff.drop 4) bigEndian
    if ifdOffset < 8 ∨ tiff.length - 2 < ifdOffset then 0
    else
      let entriesOffset := ifdOffset + 2
      parseIfdEntries bigEndian (read16 (tiff.drop ifdOffset) bigEndian)
        ((tiff.length - entriesOffset) / 12)
        (tiff.drop entriesOffset)

/-- The orientation that a TIFF block gives, and 0 if it gives none. -/
def parseTiffOrientation (tiff : Bytes) : UInt8 :=
  if tiff.length < 8 then 0
  else if tiff.take 2 = lit "MM" then parseTiffBody tiff true
  else if tiff.take 2 = lit "II" then parseTiffBody tiff false
  else 0

/-- The identifier `"Exif\0\0"`. -/
def exifIdentifier : Bytes := lit "Exif" ++ [0, 0]

/-- A payload with the identifier in front, or without. -/
def parseExifPayload (payload : Bytes) : UInt8 :=
  if exifIdentifier.isPrefixOf payload then parseTiffOrientation (payload.drop 6)
  else parseTiffOrientation payload

/-- An orientation found, or the default. -/
def orDefault (orientation : UInt8) : UInt8 := if orientation ≠ 0 then orientation else 1

/-! ## Containers -/

/-- Markers that carry no length field. -/
def standaloneMarker (marker : UInt8) : Bool :=
  marker == 0xD8 || (decide (0xD0 ≤ marker) && decide (marker ≤ 0xD7)) || marker == 0x01

/-- The segments of a JPEG stream from a marker on. -/
def readJpegSegments : ℕ → Bytes → UInt8
  | 0, _ => 1
  | fuel + 1, rest =>
    if rest.length < 4 then 1
    else if rest.head? ≠ some 0xFF then 1
    else
      match rest.dropWhile (· == 0xFF) with
      | [] => 1
      | marker :: rest =>
        if standaloneMarker marker then readJpegSegments fuel rest
        else if marker = 0xD9 ∨ marker = 0xDA then 1
        else if rest.length < 2 then 1
        else
          let segmentLength := read16 rest true
          if segmentLength < 2 ∨ rest.length < segmentLength then 1
          else if marker = 0xE1 ∧ 2 + 6 + 8 ≤ segmentLength ∧
              exifIdentifier.isPrefixOf (rest.drop 2) then
            orDefault (parseTiffOrientation ((rest.drop 8).take (segmentLength - 8)))
          else readJpegSegments fuel (rest.drop segmentLength)

/-- The orientation of a JPEG, 1 if it names none. -/
def readJpegExifOrientation (bytes : Bytes) : UInt8 :=
  if bytes.length < 4 ∨ bytes.take 2 ≠ [0xFF, 0xD8] then 1
  else readJpegSegments bytes.length (bytes.drop 2)

/-- The flag of a WebP with an EXIF chunk. -/
def kVp8xExifFlag : UInt8 := 0x08

/-- The chunks of a RIFF payload. -/
def readWebpChunks : ℕ → Bool → Bytes → UInt8
  | 0, _, _ => 1
  | fuel + 1, first, rest =>
    if rest.length < 8 then 1
    else
      let chunkSize := read32 (rest.drop 4) false
      let payload := rest.drop 8
      let advance := chunkSize + chunkSize % 2
      if payload.length < chunkSize then 1
      else if first then
        if rest.take 4 ≠ lit "VP8X" ∨ chunkSize < 10 then 1
        else if payload.headD 0 &&& kVp8xExifFlag = 0 then 1
        else if payload.length < advance then 1
        else readWebpChunks fuel false (payload.drop advance)
      else if rest.take 4 = lit "EXIF" then orDefault (parseExifPayload (payload.take chunkSize))
      else if payload.length < advance then 1
      else readWebpChunks fuel false (payload.drop advance)

/-- The orientation of a WebP, read up to the size in its RIFF header. -/
def readWebpExifOrientation (bytes : Bytes) : UInt8 :=
  if bytes.length < 12 + 8 ∨ bytes.take 4 ≠ lit "RIFF" ∨ (bytes.drop 8).take 4 ≠ lit "WEBP" then 1
  else
    let stop := min bytes.length (read32 (bytes.drop 4) false + 8)
    if stop < 12 then 1 else readWebpChunks bytes.length true ((bytes.take stop).drop 12)

/-- The first bytes of a PNG. -/
def pngSignature : Bytes := 0x89 :: lit "PNG" ++ [0x0D, 0x0A, 0x1A, 0x0A]

/-- The chunks of a PNG up to the one with EXIF data or with pixels. -/
def readPngChunks : ℕ → Bytes → UInt8
  | 0, _ => 1
  | fuel + 1, rest =>
    if rest.length < 12 then 1
    else
      let chunkSize := read32 rest true
      if rest.length - 12 < chunkSize then 1
      else if (rest.drop 4).take 4 = lit "eXIf" then
        orDefault (parseTiffOrientation ((rest.drop 8).take chunkSize))
      else if (rest.drop 4).take 4 = lit "IEND" then 1
      else readPngChunks fuel (rest.drop (12 + chunkSize))

/-- The orientation of a PNG, 1 if it names none. -/
def readPngExifOrientation (bytes : Bytes) : UInt8 :=
  if bytes.length < 8 + 12 ∨ bytes.take 8 ≠ pngSignature then 1
  else readPngChunks bytes.length (bytes.drop 8)

/-- The format is told by the first bytes. -/
def readExifOrientation (bytes : Bytes) : UInt8 :=
  if bytes.length < 4 then 1
  else if bytes.take 2 = [0xFF, 0xD8] then readJpegExifOrientation bytes
  else if bytes.take 2 = lit "RI" then readWebpExifOrientation bytes
  else if bytes.take 2 = 0x89 :: lit "P" then readPngExifOrientation bytes
  else 1

/-! ## The payload -/

/-- A payload with nothing but an orientation, which is still to be filled in. -/
def exifTemplate : Bytes :=
  exifIdentifier ++ lit "II" ++ [0x2A, 0x00] ++ [0x08, 0x00, 0x00, 0x00] ++ [0x01, 0x00] ++
    [0x12, 0x01] ++ [0x03, 0x00] ++ [0x01, 0x00, 0x00, 0x00] ++ [0x00, 0x00, 0x00, 0x00] ++
    [0x00, 0x00, 0x00, 0x00]

/-- The payload that gives this orientation. -/
def buildExifOrientationApp1 (orientation : UInt8) : Bytes := exifTemplate.set 24 orientation

/-! ## The pixels -/

/-- The orientations that turn the image on its side. -/
def exifOrientationSwapsDimensions (orientation : UInt8) : Bool :=
  decide (5 ≤ orientation) && decide (orientation ≤ 8)

/-- Differences are taken only where the header's ranges for `x` and `y` make them natural
numbers. -/
def mapUprightToStored (orientation : UInt8) (x y storedWidth storedHeight : ℕ) : ℕ × ℕ :=
  match orientation.toNat with
  | 2 => (storedWidth - 1 - x, y)
  | 3 => (storedWidth - 1 - x, storedHeight - 1 - y)
  | 4 => (x, storedHeight - 1 - y)
  | 5 => (y, x)
  | 6 => (y, storedHeight - 1 - x)
  | 7 => (storedWidth - 1 - y, storedHeight - 1 - x)
  | 8 => (storedWidth - 1 - y, x)
  | _ => (x, y)

/-- The width of the upright image. -/
def outWidth (orientation : UInt8) (width height : ℕ) : ℕ :=
  if exifOrientationSwapsDimensions orientation then height else width

/-- The height of the upright image. -/
def outHeight (orientation : UInt8) (width height : ℕ) : ℕ :=
  if exifOrientationSwapsDimensions orientation then width else height

/-- The pixel copied to an upright position. -/
def uprightPixel (orientation : UInt8) (src : Bytes) (width height components x y : ℕ) : Bytes :=
  pixel src width components (mapUprightToStored orientation x y width height).1
    (mapUprightToStored orientation x y width height).2

/-- The upright pixels of stored ones, row by row. -/
def applyExifOrientationToRaster (orientation : UInt8) (src : Bytes) (width height components : ℕ) :
    Option Bytes :=
  if orientation < 1 ∨ 8 < orientation ∨ width = 0 ∨ height = 0 ∨ components = 0 then none
  else if orientation = 1 then some (src.take (width * height * components))
  else
    some (raster (outWidth orientation width height) (outHeight orientation width height)
      (uprightPixel orientation src width height components))

/-! ## Scanline readers -/

/-- The outcomes of a reader's call. -/
inductive ScanlineStatusType
  | uninitialized
  | success
  | unsupportedFormat
  | unsupportedFeature
  | parseError
  | memoryError
  | internalError
  | timeoutError
  | invocationError
  deriving DecidableEq

/-- The reader that reports an outcome. -/
inductive ScanlineStatusSource
  | unknown
  | pngReader
  | pngReaderRaw
  | gifReader
  | gifReaderRaw
  | jpegReader
  | webpReader
  | resizer
  | pngWriter
  | jpegWriter
  | webpWriter
  | util
  | pixelFormatOptimizer
  | frameToScanlineReaderAdapter
  | frameToScanlineWriterAdapter
  | scanlineToFrameReaderAdapter
  | scanlineToFrameWriterAdapter
  | frameGifReader
  | frameWebpWriter
  | framePaddingReader
  deriving DecidableEq

/-- An outcome with its source and text. -/
structure ScanlineStatus where
  type : ScanlineStatusType := .success
  source : ScanlineStatusSource := .unknown
  details : Bytes := []
  deriving DecidableEq

/-- The call went well. -/
def ScanlineStatus.isSuccess (status : ScanlineStatus) : Bool := status.type == .success

/-- `ScanlineReaderInterface`, over the states of an implementation. A read returns its status, the
scanline (which counts only when the status is a success) and the next state, or nothing when it
does not return. -/
structure ScanlineReader (σ : Type) where
  reset : σ → Bool × σ
  bytesPerScanline : σ → ℕ
  hasMoreScanLines : σ → Bool
  initializeWithStatus : Bytes → σ → ScanlineStatus × σ
  readNextScanlineWithStatus : σ → Option (ScanlineStatus × Bytes × σ)
  imageHeight : σ → ℕ
  imageWidth : σ → ℕ

/-- The scanlines a caller gets that reads while there are more. -/
inductive ScanlineReader.Delivers {σ : Type} (R : ScanlineReader σ) : σ → List Bytes → Prop
  | done {s : σ} (hmore : R.hasMoreScanLines s = false) : R.Delivers s []
  | row {s s' : σ} {status : ScanlineStatus} {row : Bytes} {rows : List Bytes}
      (hmore : R.hasMoreScanLines s = true)
      (hread : R.readNextScanlineWithStatus s = some (status, row, s'))
        (hstatus : status.isSuccess = true)
      (hrest : R.Delivers s' rows) : R.Delivers s (row :: rows)

/-- The reader, initialized with the image, serves the given raster: its size, and scanlines that
are its rows. -/
def ScanlineReader.Decodes {σ : Type} (R : ScanlineReader σ) (image : Bytes) (s : σ)
    (width height components : ℕ) (pixels : Bytes) : Prop :=
  ∃ status s' rows, R.initializeWithStatus image s = (status, s') ∧ status.isSuccess = true ∧
    R.imageWidth s' = width ∧ R.imageHeight s' = height ∧
      R.bytesPerScanline s' = width * components ∧
    R.Delivers s' rows ∧ (∀ row ∈ rows, row.length = width * components) ∧ rows.flatten = pixels

/-- The state of an `ExifOrientedScanlineReader`. Rows are served only once an orientation is
set. -/
structure Oriented (σ : Type) where
  inner : σ
  orientation : UInt8 := 1
  storedWidth : ℕ := 0
  storedHeight : ℕ := 0
  outWidth : ℕ := 0
  outHeight : ℕ := 0
  components : ℕ := 0
  row : ℕ := 0
  buffered : Bool := false
  stored : Bytes := []
  unserved : orientation = 1 → row = 0 := by simp

/-- What `BufferStoredRaster` writes. -/
structure Buffering (σ : Type) where
  inner : σ
  stored : Bytes
  buffered : Bool

namespace Oriented

variable {σ : Type} (R : ScanlineReader σ)

/-- The inner reader and all of the state start over. -/
def reset (r : Oriented σ) : Bool × Oriented σ :=
  ((R.reset r.inner).1, { inner := (R.reset r.inner).2 })

/-- The reader as `InitializeWithStatus` first makes it. -/
def restart (r : Oriented σ) : Oriented σ :=
  if r.buffered ∨ r.orientation ≠ 1 then (reset R r).2 else r

theorem row_restart (r : Oriented σ) : (restart R r).row = 0 := by
  by_cases h : r.buffered ∨ r.orientation ≠ 1
  · rw [restart, if_pos h]
    rfl
  · rw [restart, if_neg h]
    exact r.unserved (not_not.1 (not_or.1 h).2)

/-- The inner reader is set up, and the orientation is read from the image. -/
def initializeWithStatus (image : Bytes) (r : Oriented σ) : ScanlineStatus × Oriented σ :=
  let fresh := restart R r
  let (status, inner) := R.initializeWithStatus image fresh.inner
  if !status.isSuccess then
    (status, { fresh with inner := inner, unserved := fun _ => row_restart R r })
  else
    let orientation := readExifOrientation image
    if orientation = 1 then
      (status, { fresh with
        inner := inner, orientation := 1, unserved := fun _ => row_restart R r })
    else
      let storedWidth := R.imageWidth inner
      let storedHeight := R.imageHeight inner
      let bytesPerScanline := R.bytesPerScanline inner
      let components := if storedWidth ≠ 0 then bytesPerScanline / storedWidth else 0
      let measured : Oriented σ :=
        { fresh with
          inner := inner, orientation := orientation, storedWidth := storedWidth, storedHeight :=
            storedHeight, components := components, unserved := fun _ => row_restart R r }
      if components = 0 ∨ components * storedWidth ≠ bytesPerScanline then
        -- padded or otherwise not interleaved: the pixels are served as they are
        (status, { measured with orientation := 1, unserved := fun _ => row_restart R r })
      else
        (status,
          { measured with
            outWidth := Exif.outWidth orientation storedWidth storedHeight
            outHeight := Exif.outHeight orientation storedWidth storedHeight })

/-- The length of a row of the upright image. -/
def bytesPerScanline (r : Oriented σ) : ℕ :=
  if r.orientation = 1 then R.bytesPerScanline r.inner else r.outWidth * r.components

/-- Rows are left. -/
def hasMoreScanLines (r : Oriented σ) : Bool :=
  if r.orientation = 1 then R.hasMoreScanLines r.inner else decide (r.row < r.outHeight)

/-- The height that callers see. -/
def imageHeight (r : Oriented σ) : ℕ :=
  if r.orientation = 1 then R.imageHeight r.inner else r.outHeight

/-- The width that callers see. -/
def imageWidth (r : Oriented σ) : ℕ :=
  if r.orientation = 1 then R.imageWidth r.inner else r.outWidth

/-- The loop of `BufferStoredRaster`: the scanlines of the inner reader, appended to what is stored.
It does not return when the inner reader never runs out of them. -/
def bufferScanlines (rowBytes : ℕ) : ℕ → Bytes → σ → Option (ScanlineStatus × Bytes × σ)
  | 0, _, _ => none
  | fuel + 1, stored, inner =>
    if R.hasMoreScanLines inner then do
      let (status, scanline, inner) ← R.readNextScanlineWithStatus inner
      if status.isSuccess then
        bufferScanlines rowBytes fuel (stored ++ scanline.take rowBytes) inner
      else some (status, stored, inner)
    else some ({}, stored, inner)

variable (limit : UInt64) (fuel : ℕ)

/-- All stored rows are read, unless they take more than the limit. -/
def bufferStoredRaster (r : Oriented σ) : Option (ScanlineStatus × Buffering σ) :=
  let total := r.storedWidth * r.storedHeight * r.components % 2 ^ 64
  if total = 0 ∨ limit.toNat < total then
    some (⟨.unsupportedFeature, .jpegReader,
      lit "raster too large to bake EXIF orientation (" ++ Inet.decimal total ++ lit " bytes)"⟩,
      ⟨r.inner, r.stored, r.buffered⟩)
  else do
    let (status, stored, inner) ← bufferScanlines R (r.storedWidth * r.components) fuel [] r.inner
    if !status.isSuccess then some (status, ⟨inner, stored, r.buffered⟩)
    else if stored.length ≠ total then
      some (⟨.internalError, .jpegReader, lit "decoded raster size mismatch"⟩,
        ⟨inner, stored, r.buffered⟩)
    else some ({}, ⟨inner, stored, true⟩)

/-- The state after the rows were buffered. -/
def withBuffering (r : Oriented σ) (b : Buffering σ) : Oriented σ :=
  { r with inner := b.inner, stored := b.stored, buffered := b.buffered }

/-- `++row_`. -/
def nextState (r : Oriented σ) (h : r.orientation ≠ 1) : Oriented σ :=
  { r with row := r.row + 1, unserved := fun hone => absurd hone h }

/-- The row `ReadNextScanlineWithStatus` builds from the stored raster. -/
def nextRow (r : Oriented σ) : Bytes :=
  (List.range r.outWidth).flatMap fun x =>
    uprightPixel r.orientation r.stored r.storedWidth r.storedHeight r.components x r.row

/-- The raster is buffered at the first read. -/
def ensureBuffered (r : Oriented σ) : Option (ScanlineStatus × Buffering σ) :=
  if r.buffered then some ({}, ⟨r.inner, r.stored, true⟩) else bufferStoredRaster R limit fuel r

/-- The next upright row: the inner reader's own, or one of the buffered raster, which is made on
the first call. -/
def readNextScanlineWithStatus (r : Oriented σ) : Option (ScanlineStatus × Bytes × Oriented σ) :=
  if h : r.orientation = 1 then
    (R.readNextScanlineWithStatus r.inner).map fun (status, scanline, inner) =>
      (status, scanline, { r with inner := inner })
  else if r.outHeight ≤ r.row then
    some (⟨.invocationError, .jpegReader, lit "no more scanlines to read"⟩, [], r)
  else do
    let (status, b) ← ensureBuffered R limit fuel r
    if !status.isSuccess then some (status, [], r.withBuffering b)
    else some ({}, nextRow (r.withBuffering b), (r.withBuffering b).nextState h)

/-- `ExifOrientedScanlineReader` is a reader. -/
def reader : ScanlineReader (Oriented σ) where
  reset := reset R
  bytesPerScanline := bytesPerScanline R
  hasMoreScanLines := hasMoreScanLines R
  initializeWithStatus := initializeWithStatus R
  readNextScanlineWithStatus := readNextScanlineWithStatus R limit fuel
  imageHeight := imageHeight R
  imageWidth := imageWidth R

end Oriented

end PageSpeed.Exif
