import PageSpeed.Spec.HttpMessages

/-!
# Validation records

A rendered critical block that was found sufficient is recorded with a hash of the page's combined
stylesheet and of what else the render depended on. The record authorises deferring the stylesheet
only where the same hash comes out (`src/browser/optimization_profile.cc`). The cascade-layer order
is one of the inputs; its binding is a text made from the names of the layers
(`src/worker/cascade_layer_order.cc`).
-/

namespace PageSpeed.Validation

open Wire

/-! ## Layer names -/

/-- A character of a CSS name. -/
def isNameChar (c : UInt8) : Bool :=
  (c ≥ ch 'a' && c ≤ ch 'z') || (c ≥ ch 'A' && c ≤ ch 'Z') || (c ≥ ch '0' && c ≤ ch '9') ||
    c = ch '-' || c = ch '_' || c ≥ 0x80

/-- The words that are no layer names. -/
def cssWideKeywords : List Bytes :=
  [lit "initial", lit "inherit", lit "unset", lit "revert", lit "revert-layer", lit "default"]

/-- A part of a layer name that the reader trusts. -/
def isReadableLayerSegment (seg : Bytes) : Bool :=
  match seg with
  | [] => false
  | c :: rest =>
    seg.all isNameChar && !Inet.isDigit c &&
      !(c = ch '-' && (match rest with | [] => true | d :: _ => Inet.isDigit d)) &&
      !cssWideKeywords.any (stringCaseEqual seg)

/-- The segments of the name, or nothing when one of them is not readable. -/
def splitLayerName (name : Bytes) : List Bytes :=
  let segs := name.splitOn (ch '.')
  if segs.all isReadableLayerSegment then segs else []

/-- The full name of a layer in another. -/
def qualify (parent name : Bytes) : Bytes := if parent = [] then name else parent ++ ch '.' :: name

/-- Where a rule sits in the layer tree. -/
structure Context where
  parent : Bytes := []
  conditional : Bool := false
  inAnonymous : Bool := false

/-- What the walk over the sheets has met of named and anonymous layers. -/
structure Walker where
  names : List Bytes := []
  anonymousParents : List Bytes := []

/-- `none` is a refusal: the order cannot be proven. -/
def Walker.register (collectOnly : Bool) (w : Walker) (full parent : Bytes) (conditional : Bool) :
    Option Walker :=
  if full ∈ w.names then some w
  else if collectOnly = false ∧ (conditional ∨ parent ∈ w.anonymousParents) then none
  else some { w with names := w.names ++ [full] }

/-- The segments one after the other, each below the one before. -/
def Walker.registerSegments (collectOnly : Bool) (conditional : Bool) : Walker → Bytes →
    List Bytes → Option Walker
  | w, _, [] => some w
  | w, parent, seg :: segs =>
    match w.register collectOnly (qualify parent seg) parent conditional with
    | none => none
    | some w => registerSegments collectOnly conditional w (qualify parent seg) segs

/-- A layer name with its parts is registered, unless an anonymous layer is around it. -/
def Walker.registerPath (collectOnly : Bool) (w : Walker) (name : Bytes) (ctx : Context) :
    Option Walker :=
  let segs := splitLayerName name
  if segs = [] then none
  else if ctx.inAnonymous then some w
  else w.registerSegments collectOnly ctx.conditional ctx.parent segs

/-! ## The binding of a layer order -/

/-- The order of the layers of a page. Names come from `registerPath` only, so each of them is
readable. -/
structure CascadeLayerOrder where
  proven : Bool
  names : List Bytes
  readable : ∀ name ∈ names, splitLayerName name ≠ []

/-- The statement that declares the layers in this order. -/
def CascadeLayerOrder.statement (order : CascadeLayerOrder) : Bytes :=
  if order.names = [] then [] else lit "@layer " ++ [ch ','].intercalate order.names ++ lit ";"

/-- What else is read off the combined sheet for the binding. -/
structure LayerReaders where
  mayUseCascadeLayer : Bytes → Bool
  mayCarryImportantInAnonymousLayer : Bytes → Bool
  hasAnonymousLayer : Bytes → Bool
  blockGoesFirst : Bytes → CascadeLayerOrder → Bool
  retentionMayNarrow : Bytes → CascadeLayerOrder → Bool

/-- A word of a binding. -/
def marker (text : String) (present : Bool) : Bytes := if present then lit text else []

/-- What of the layers a validation depends on. -/
def CascadeLayerOrder.validationBinding (readers : LayerReaders) (order : CascadeLayerOrder)
    (combinedCss : Bytes) : Bytes :=
  if readers.mayUseCascadeLayer combinedCss = false then []
  else
    let a2 := readers.mayCarryImportantInAnonymousLayer combinedCss
    let u2 := readers.hasAnonymousLayer combinedCss && !readers.blockGoesFirst combinedCss order
    if order.proven = false then lit "unproven" ++ marker " a2" a2 ++ marker " u2" u2
    else
      lit "proven " ++ marker "r2 " (readers.retentionMayNarrow combinedCss order) ++
        marker "a2 " a2 ++ marker "u2 " u2 ++ order.statement

/-! ## Structural escapes -/

/-- Where the scan for escapes is. -/
inductive EscapeMode
  | text
  | comment
  | quoted (quote : UInt8)
  deriving DecidableEq, Repr

/-- A character that could hide a rule if it were escaped. -/
def isStructural (c : UInt8) : Bool :=
  c = ch '\'' || c = ch '"' || c = ch '\x7b' || c = ch '\x7d' || c = ch ','

/-- A string ends at its quote or at the end of the line; the byte behind a backslash is passed
over. -/
def escapeScan : EscapeMode → Bytes → Bool
  | _, [] | _, [_] => false
  | .comment, c :: d :: rest =>
    if c = ch '*' ∧ d = ch '/' then escapeScan .text rest else escapeScan .comment (d :: rest)
  | .quoted q, c :: d :: rest =>
    if c = ch '\\' then escapeScan (.quoted q) rest
    else if c = q ∨ c = ch '\n' ∨ c = ch '\r' ∨ c = 0x0C then escapeScan .text (d :: rest)
    else escapeScan (.quoted q) (d :: rest)
  | .text, c :: d :: rest =>
    if c = ch '/' ∧ d = ch '*' then escapeScan .comment rest
    else if c = ch '"' ∨ c = ch '\'' then escapeScan (.quoted c) (d :: rest)
    else if c = ch '\\' then if isStructural d then true else escapeScan .text rest
    else escapeScan .text (d :: rest)

/-- Such a character is escaped somewhere. -/
def combinedCssHasStructuralEscape (css : Bytes) : Bool := escapeScan .text css

/-! ## The binding of a record -/

/-- The values of the two-bit field; the last one has no name in the source. -/
inductive Viewport
  | kMobile
  | kTablet
  | kDesktop
  | unnamed
  deriving DecidableEq, Repr

/-- A binding with one more word. -/
def salt (word : String) (condition : Bool) (binding : Bytes) : Bytes :=
  if condition then (if binding = [] then [] else binding ++ lit " ") ++ lit word else binding

/-- The binding of the layers with the other conditions of a validation. -/
def validationBindingFor (layerOrderBinding : Bytes) (noscriptAffectsRender : Bool)
    (combinedCss : Bytes) (viewport : Viewport) (anonymousLayersDropped : Bool) : Bytes :=
  let binding := salt "noscript-render" noscriptAffectsRender layerOrderBinding
  let binding := salt "css-escape" (combinedCssHasStructuralEscape combinedCss) binding
  let binding := salt "tablet-mobile" (viewport = .kTablet) binding
  let binding := salt "touch" (viewport ≠ .kDesktop) binding
  let binding := salt "ua" (viewport ≠ .kDesktop) binding
  salt "anon-layers-dropped" anonymousLayersDropped binding

/-! ## Hashes -/

/-- The digest. No two texts have the same one, and none is empty. -/
structure Digest where
  hash : Bytes → Bytes
  injective : Function.Injective hash
  ne_nil : ∀ text, hash text ≠ []

/-- A digest in hexadecimal. -/
def hexText (digest : Bytes) : Bytes :=
  digest.flatMap fun b => [Http.hexDigit (b.toNat / 16), Http.hexDigit (b.toNat % 16)]

/-- The hash of a sheet alone. -/
def sheetValidationHash (digest : Digest) (css : Bytes) : Bytes :=
  if css = [] then [] else hexText (digest.hash css)

/-- The hash of a style sheet under its binding. -/
def combinedCssValidationHash (digest : Digest) (css layerOrderBinding : Bytes) : Bytes :=
  if css = [] then []
  else if layerOrderBinding = [] then sheetValidationHash digest css
  else sheetValidationHash digest
    (css ++ lit "\n/*pagespeed-layer-order:" ++ layerOrderBinding ++ lit "*/")

/-- The fields of a profile that the accept test reads. -/
structure ViewportProfile where
  criticalCssValidated : Bool := false
  validatedCombinedCssHash : Bytes := []
  deriving DecidableEq, Repr

/-- The record allows this sheet under this binding. -/
def asyncCssValidatedForServedSheet (digest : Digest) (vp : Option ViewportProfile)
    (combinedCss layerOrderBinding : Bytes) :
    Bool :=
  match vp with
  | none => false
  | some vp =>
    vp.criticalCssValidated && vp.validatedCombinedCssHash ≠ [] &&
      vp.validatedCombinedCssHash = combinedCssValidationHash digest combinedCss layerOrderBinding

/-! ## Situations -/

/-- What a record is made for, or looked up for. -/
structure Situation where
  combinedCss : Bytes
  layerOrder : CascadeLayerOrder
  noscriptAffectsRender : Bool
  viewport : Viewport
  anonymousLayersDropped : Bool

namespace Situation

/-- The binding of the layers in a situation. -/
def layerBinding (readers : LayerReaders) (s : Situation) : Bytes :=
  s.layerOrder.validationBinding readers s.combinedCss

/-- The binding of a situation. -/
def binding (readers : LayerReaders) (s : Situation) : Bytes :=
  validationBindingFor (s.layerBinding readers) s.noscriptAffectsRender s.combinedCss s.viewport
    s.anonymousLayersDropped

/-- The record of a positive verdict in the situation. -/
def record (digest : Digest) (readers : LayerReaders) (s : Situation) : ViewportProfile where
  criticalCssValidated := true
  validatedCombinedCssHash := combinedCssValidationHash digest s.combinedCss (s.binding readers)

/-- The record is good in the situation. -/
def accepts (digest : Digest) (readers : LayerReaders) (s : Situation)
    (vp : ViewportProfile) : Bool :=
  asyncCssValidatedForServedSheet digest (some vp) s.combinedCss (s.binding readers)

/-- The device class a binding tells apart. -/
inductive DeviceClass
  | desktop
  | mobile
  | tablet
  deriving DecidableEq, Repr

/-- The device that a viewport stands for. -/
def deviceClass (s : Situation) : DeviceClass :=
  match s.viewport with
  | .kDesktop => .desktop
  | .kTablet => .tablet
  | .kMobile | .unnamed => .mobile

/-- The situations are the same as far as a record goes. -/
structure Agrees (readers : LayerReaders) (s t : Situation) : Prop where
  css : s.combinedCss = t.combinedCss
  nonempty : s.combinedCss ≠ []
  layers : s.layerBinding readers = t.layerBinding readers
  noscript : s.noscriptAffectsRender = t.noscriptAffectsRender
  device : s.deviceClass = t.deviceClass
  dropped : s.anonymousLayersDropped = t.anonymousLayersDropped

/-- The words that say what is special besides the layers. -/
def saltWords (noscript escape : Bool) (device : DeviceClass) (dropped : Bool) : List Bytes :=
  (if noscript then [lit "noscript-render"] else []) ++
    ((if escape then [lit "css-escape"] else []) ++
      ((match device with
        | .desktop => []
        | .mobile => [lit "touch", lit "ua"]
        | .tablet => [lit "tablet-mobile", lit "touch", lit "ua"]) ++
        if dropped then [lit "anon-layers-dropped"] else []))

/-- The words that a situation adds to the binding of its layers. -/
def words (s : Situation) : List Bytes :=
  saltWords s.noscriptAffectsRender (combinedCssHasStructuralEscape s.combinedCss) s.deviceClass
    s.anonymousLayersDropped

/-- Nothing is special about the situation: no layers and none of the words. -/
def Plain (readers : LayerReaders) (s : Situation) : Prop :=
  s.layerBinding readers = [] ∧ s.words = []

/-- A comment line with the layers and the words of the situation. -/
def commentLine (readers : LayerReaders) (s : Situation) : Bytes :=
  lit "\n/*pagespeed-layer-order:" ++
    [ch ' '].intercalate ((if s.layerBinding readers = [] then [] else [s.layerBinding readers]) ++
      s.words) ++ lit "*/"

/-- The first is plain and its sheet is that of the second, which is not, with the comment line of
the second behind. -/
def Mimics (readers : LayerReaders) (s t : Situation) : Prop :=
  s.Plain readers ∧ ¬ t.Plain readers ∧ t.combinedCss ≠ [] ∧ s.combinedCss = t.combinedCss ++
    t.commentLine readers

end Situation

end PageSpeed.Validation
