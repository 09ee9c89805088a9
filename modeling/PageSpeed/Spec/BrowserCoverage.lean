import PageSpeed.Choice.Ranges
import PageSpeed.Choice.Sorting
import PageSpeed.Spec.UrlNormalizer

/-!
# Splitting stylesheets by coverage

The browser reports which ranges of which stylesheet were used, once at the first paint and once at
the end. The ranges of each report are merged, and every sheet is cut up: what was used at the first
paint is critical, what was used only later is deferred, and the rest is unused.
-/

namespace PageSpeed.Coverage

open Wire Choice

/-! ## Ranges -/

/-- An entry of a report. A field that is missing has a default. -/
structure CoverageEntry where
  used : Option Bool := none
  styleSheetId : Option Bytes := none
  startOffset : Option UInt32 := none
  endOffset : Option UInt32 := none
deriving DecidableEq, Repr

/-- A used part of a style sheet. -/
structure CoverageRange where
  styleSheetId : Bytes
  startOffset : ℕ
  endOffset : ℕ
deriving DecidableEq, Repr

/-- The offsets alone. -/
def CoverageRange.interval (r : CoverageRange) : ℕ × ℕ := (r.startOffset, r.endOffset)

/-- An entry of the report as a range, with defaults for what it does not say. -/
def CoverageEntry.range (entry : CoverageEntry) : CoverageRange where
  styleSheetId := entry.styleSheetId.getD []
  startOffset := (entry.startOffset.getD 0).toNat
  endOffset := (entry.endOffset.getD 0).toNat

/-- A report that is not an array has no ranges. -/
def parseCoverageRanges (coverage : Option (List CoverageEntry)) : List CoverageRange :=
  (coverage.getD []).filterMap fun entry =>
    if entry.used.getD false = false then none
    else if entry.range.styleSheetId ≠ [] ∧ entry.range.endOffset > entry.range.startOffset then
      some entry.range
    else none

/-- The comparator of the sort: by sheet, then by start. -/
def rangeLess (a b : CoverageRange) : Bool :=
  if a.styleSheetId ≠ b.styleSheetId then bytesLess a.styleSheetId b.styleSheetId
  else a.startOffset < b.startOffset

/-- The loop of `MergeRanges`: `last` is the range at the back of the merged ones. -/
def mergeLoop (last : CoverageRange) : List CoverageRange → List CoverageRange
  | [] => [last]
  | r :: rs =>
    if r.styleSheetId = last.styleSheetId ∧ r.startOffset ≤ last.endOffset then
      mergeLoop { last with endOffset := max last.endOffset r.endOffset } rs
    else last :: mergeLoop r rs

/-- The ranges sorted, and those that meet made one. -/
def mergeRanges (sort : Sorting rangeLess) (ranges : List CoverageRange) : List CoverageRange :=
  if ranges.length < 2 then ranges
  else
    match sort.run ranges with
    | [] => []
    | first :: rest => mergeLoop first rest

/-- The intervals of one sheet. -/
def intervalsOf (sheetId : Bytes) (ranges : List CoverageRange) : List (ℕ × ℕ) :=
  (ranges.filter fun r => r.styleSheetId = sheetId).map CoverageRange.interval

/-! ## Cutting a sheet up -/

/-- Texts are joined by a line feed. -/
def appendLine (result piece : Bytes) : Bytes :=
  (if result = [] then [] else result ++ [0x0A]) ++ piece

/-- The text of a sheet in the given ranges, cut at its end. -/
def extractRanges (sheetText : Bytes) (ranges : List CoverageRange) (sheetId : Bytes) : Bytes :=
  ranges.foldl (fun result range =>
    if range.styleSheetId ≠ sheetId then result
    else if range.startOffset ≥ sheetText.length then result
    else
      let stop := min range.endOffset sheetText.length
      if stop > range.startOffset then
        appendLine result (Ranges.slice sheetText (range.startOffset, stop)) else result) []

/-- The whitespace that does not make a region worth keeping. -/
def isRegionSpace (c : UInt8) : Bool := c = ch ' ' || c = ch '\t' || c = ch '\n' || c = ch '\r'

/-- The contiguous regions of bytes that are not used. Between two used bytes next to each other the
region is empty, and like every region of whitespace only it is left out. -/
def extractUnusedRanges (sheetText : Bytes) (usedRanges : List CoverageRange)
    (sheetId : Bytes) : Bytes :=
  let used := Ranges.covers (intervalsOf sheetId usedRanges)
  let regions := (sheetText.zipIdx.splitOnP fun b => used b.2).map (List.map Prod.fst)
  regions.foldl (fun result region => if region.all isRegionSpace then result
    else appendLine result region) []

/-- Ranges of `all` that are not in `fcp`: each is cut by the intervals of `fcp` with a running
start. -/
def computeDeferredRanges (all fcp : List CoverageRange) (sheetId : Bytes) : List CoverageRange :=
  let fcpIntervals := intervalsOf sheetId fcp
  (all.filter fun r => r.styleSheetId = sheetId).flatMap fun r =>
    (Ranges.minus r.startOffset r.endOffset fcpIntervals).map fun (start, stop) =>
      ⟨sheetId, start, stop⟩

/-! ## The result -/

/-- The three parts of the style sheets and their sizes. -/
structure BrowserCssResult where
  criticalCss : Bytes := []
  deferredCss : Bytes := []
  unusedCss : Bytes := []
  totalCssBytes : ℕ := 0
  criticalCssBytes : ℕ := 0
deriving DecidableEq, Repr

/-- A piece put behind the text on a line of its own. -/
def appendCss (css piece : Bytes) : Bytes := if piece = [] then css else appendLine css piece

/-- One sheet of the loop in `HandleStopTracking`. -/
def BrowserCssResult.addSheet (fcp all : List CoverageRange) (css : BrowserCssResult)
    (sheet : Bytes × Bytes) :
    BrowserCssResult :=
  { css with
    totalCssBytes := css.totalCssBytes + sheet.2.length
    criticalCss := appendCss css.criticalCss (extractRanges sheet.2 fcp sheet.1)
    deferredCss := appendCss css.deferredCss
      (extractRanges sheet.2 (computeDeferredRanges all fcp sheet.1) sheet.1)
    unusedCss := appendCss css.unusedCss (extractUnusedRanges sheet.2 all sheet.1) }

/-- The sheets, each text once: `seen` holds the texts that were met. -/
def unseenSheets (seen : List Bytes) : List (Bytes × Bytes) → List (Bytes × Bytes)
  | [] => []
  | sheet :: sheets =>
    if sheet.2 ∈ seen then unseenSheets seen sheets
    else sheet :: unseenSheets (sheet.2 :: seen) sheets

/-- What is made of the reports and the texts of the sheets. -/
def reconstruct (sort : Sorting rangeLess) (fcpCoverage ruleUsage : Option (List CoverageEntry))
    (texts : List (Bytes × Bytes)) : BrowserCssResult :=
  let fcp := mergeRanges sort (parseCoverageRanges fcpCoverage)
  let all := mergeRanges sort (parseCoverageRanges ruleUsage)
  let css := (unseenSheets [] texts).foldl (BrowserCssResult.addSheet fcp all) {}
  { css with criticalCssBytes := css.criticalCss.length }

/-! ## What the parts are -/

/-- The part of the result that a byte of a sheet goes to. -/
inductive Part where
  | critical
  | deferred
  | unused
deriving DecidableEq, Repr

/-- The part each byte of a sheet belongs to: used at the first paint, used later only, or in
neither report. -/
def partAt (fcp all : List CoverageRange) (sheetId : Bytes) (p : ℕ) : Part :=
  if Ranges.covers (intervalsOf sheetId fcp) p then .critical
  else if Ranges.covers (intervalsOf sheetId all) p then .deferred
  else .unused

/-- A text without its white space. -/
def solid (text : Bytes) : Bytes := text.filter fun c => !isRegionSpace c

/-- The bytes of the sheet in the part, in their order, without whitespace. -/
def bytesIn (fcp all : List CoverageRange) (part : Part) (sheet : Bytes × Bytes) : Bytes :=
  solid (Ranges.pick (fun p => partAt fcp all sheet.1 p = part) 0 sheet.2)

/-- Ranges in order and apart that cover the same bytes of every sheet. -/
structure Merged (ranges merged : List CoverageRange) : Prop where
  sorted : merged.Pairwise fun a b => rangeLess a b = true
  disjoint : merged.Pairwise fun a b => a.styleSheetId = b.styleSheetId →
    a.endOffset < b.startOffset
  union : ∀ sheetId p,
    Ranges.covers (intervalsOf sheetId merged) p = Ranges.covers (intervalsOf sheetId ranges) p

/-- The three texts are the parts of the sheets. -/
structure Splits (fcp all : List CoverageRange) (sheets : List (Bytes × Bytes))
    (css : BrowserCssResult) : Prop where
  critical : solid css.criticalCss = sheets.flatMap (bytesIn fcp all .critical)
  deferred : solid css.deferredCss = sheets.flatMap (bytesIn fcp all .deferred)
  unused : solid css.unusedCss = sheets.flatMap (bytesIn fcp all .unused)

end PageSpeed.Coverage
