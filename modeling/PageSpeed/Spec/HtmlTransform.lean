import PageSpeed.Spec.Html

/-!
# The HTML transform filter

`HtmlTransformFilter` of `src/worker/html_transform_filter.cc` over the event queue of
`lib/html/html_parse.cc`, with the whole document in one flush window. The queue is cut where the
parser stands: what lies behind is in the state, what lies ahead is the input. A node that one of
the filter's pointers names is marked in the queue (`Held`), and the anchor of the critical block is
a cut of the queue.

What the filter asks of the rest of the program is a parameter (`TransformInputs`): where a block
goes and how its text is written, whether a policy allows inline content, and the size of a cached
image.
-/

namespace PageSpeed.Html

open Wire Inet

/-- The switches of the rewriters. -/
structure HtmlTransformConfig where
  enableCriticalCss : Bool := true
  enableLazyLoad : Bool := true
  enableImageDimensions : Bool := true
  enableLcpPreload : Bool := true
  enablePreconnectInjection : Bool := true
  enableFontPreload : Bool := false
  enableSpeculationRules : Bool := false
  enableAsyncCss : Bool := false
  enableScriptDeferral : Bool := false

/-- The image that is expected to be the largest paint. -/
structure LcpCandidate where
  src : Bytes := []
  srcset : Bytes := []
  sizes : Bytes := []
  inPicture : Bool := false
  scriptLoadedHero : Bool := false

/-- An origin to connect to early. -/
structure PreconnectOrigin where
  origin : Bytes
  crossorigin : Bool
  deriving DecidableEq

/-- Whether the block stays behind the sheets, and else the layer statement in front of it. -/
structure CriticalCssLayerPlacement where
  keepFallback : Bool := false
  statement : Bytes := []

/-- What the filter is constructed with, and the functions of other components that it calls. -/
structure TransformInputs where
  config : HtmlTransformConfig := {}
  criticalCss : Bytes := []
  lcpCandidate : LcpCandidate := {}
  preconnectOrigins : List PreconnectOrigin := []
  speculationUrls : List Bytes := []
  deferScripts : List Bytes := []
  fontUrls : List Bytes := []
  documentIsTextHtml : Bool := false
  headerCsps : List Bytes := []
  /-- `DecideCriticalCssLayerPlacement` with the page's layer order. -/
  decideCriticalCssLayerPlacement : Bytes → CriticalCssLayerPlacement := fun _ => {}
  cssOpensMarkupOutsideStrings : Bytes → Bool := fun _ => false
  escapeLessThanForStyleElement : Bytes → Bytes := id
  inlineStyleAllowed : Bytes → Bool := fun _ => true
  inlineScriptAllowed : Bytes → Bool := fun _ => true
  jsonEscapeHtmlSafe : Bytes → Bytes := id
  /-- Width and height in the header of the image that the cache has for a `src` and that the gate
  admits. -/
  readImageDimensions : Bytes → Option (ℤ × ℤ) := fun _ => none

/-! ## The queue behind the parser -/

/-- Which of the filter's pointers names a node. -/
inductive Held
  | other
  | deferredCssLink
  | asyncCssInjected
  | injectedCriticalStyle
  deriving DecidableEq

/-- An event of the output that has not been flushed, and what it is held for. -/
structure Queued where
  event : HtmlEvent
  held : Held := .other
  deriving DecidableEq

/-- The state of the filter between two events. -/
structure Transform where
  /-- The queue up to the anchor, or all of it when there is no anchor. -/
  done : List Queued := []
  /-- The queue from the start tag of `critical_css_anchor_` on. -/
  fromAnchor : Option (List Queued) := none
  /-- Open elements of a node that is being deleted. -/
  deleting : ℕ := 0
  /-- The names of the ancestors, innermost first. -/
  openElements : List HtmlName := []
  criticalCssInjected : Bool := false
  criticalCssContextRefused : Bool := false
  inSelect : Bool := false
  selectSticky : Bool := false
  plaintextSeen : Bool := false
  framesetSeen : Bool := false
  inBody : Bool := false
  fallbackPriorityApplied : Bool := false
  pictureHasSourceSrcset : Bool := false
  bodyImgCount : ℕ := 0
  bodyIframeCount : ℕ := 0
  lcpPreloadInjected : Bool := false
  preconnectInjected : Bool := false
  fontPreloadInjected : Bool := false
  speculationRulesInjected : Bool := false
  asyncCssLoaderInjected : Bool := false
  metaCsps : List Bytes := []

namespace Transform

variable (s : Transform)

/-- All that is not flushed. -/
def queue : List Queued := s.done ++ s.fromAnchor.getD []

/-- New nodes right behind the parser. -/
def emit (xs : List Queued) : Transform :=
  match s.fromAnchor with
  | none => { s with done := s.done ++ xs }
  | some q => { s with fromAnchor := some (q ++ xs) }

/-- The next node to come is the anchor. -/
def setAnchor : Transform := { s with fromAnchor := some [] }

/-- There is no anchor any more. -/
def clearAnchor : Transform := { s with done := s.queue, fromAnchor := none }

/-- An operation on every node behind the parser. -/
def mapQueue (f : List Queued → List Queued) : Transform :=
  { s with done := f s.done, fromAnchor := s.fromAnchor.map f }

/-- Whether the queue is read in "in select" mode. -/
def isInSelect : Bool := s.inSelect || s.selectSticky

end Transform

/-! ## Markers -/

/-- The attributes that mark what the filter has put into a page. -/
def kCriticalMarker : Bytes := lit "data-pagespeed-critical"

/-- On a resource hint. -/
def kHintMarker : Bytes := lit "data-pagespeed-hint"

/-- On the `noscript` behind a deferred link, and on the link in it. -/
def kFallbackMarker : Bytes := lit "data-pagespeed-async-fallback"

/-- On the script that loads the deferred style sheets. -/
def kLoaderMarker : Bytes := lit "data-pagespeed-async-loader"

/-- On a deferred link. -/
def kAsyncMarker : Bytes := lit "data-pagespeed-async"

/-- The `media` that a deferred link had. -/
def kMediaMarker : Bytes := lit "data-pagespeed-media"

/-- On a script that the filter has deferred. -/
def kDeferMarker : Bytes := lit "data-pagespeed-defer"

/-- The path of the loader, with the hash of its text. -/
def kAsyncCssLoaderPath : Bytes := lit "/pagespeed_static/async_css.eb8f5c59.js"

/-- The nodes a pass deletes because an earlier one injected them. -/
def isInjectedNode (e : Element) : Bool :=
  (e.keyword = .kStyle ∧ e.attributes.hasName kCriticalMarker) ∨
    ((e.keyword = .kLink ∨ e.keyword = .kScript) ∧ e.attributes.hasName kHintMarker) ∨
    (e.keyword = .kNoscript ∧ e.attributes.hasName kFallbackMarker) ∨
    (e.keyword = .kScript ∧ e.attributes.hasName kLoaderMarker)

/-! ## Subtrees -/

/-- An element whose content is not part of the page while it is shown. -/
def isInertRoot (e : HtmlName) : Bool :=
  e.keyword = .kNoscript ∨ e.keyword = .kNoembed ∨ e.keyword = .kNoframes ∨ e.keyword = .kTemplate

/-- An element in which a style sheet is not one of the document. -/
def isNonDocumentSubtreeRoot (e : HtmlName) : Bool :=
  isInertRoot e ∨ e.keyword = .kSelect ∨ stringCaseEqual e.name (lit "svg") ∨
    stringCaseEqual e.name (lit "math") ∨ stringCaseEqual e.name (lit "plaintext")

/-- An open element is such a root. -/
def insideInertSubtree (ancestors : List HtmlName) : Bool := ancestors.any isInertRoot

/-- An open element is such a root. -/
def insideNonDocumentSubtree (ancestors : List HtmlName) : Bool :=
  ancestors.any isNonDocumentSubtreeRoot

/-- The innermost open element is a `picture`. -/
def parentIsPicture (ancestors : List HtmlName) : Bool :=
  ancestors.head?.any (·.keyword = .kPicture)

/-! ## Values -/

/-- A URL with one of the web's schemes, or a path on the same host. -/
def isAllowedPreloadUrl (url : Bytes) : Bool :=
  lit "https://" <+: url ∨ lit "http://" <+: url ∨ (lit "/" <+: url ∧ ¬ lit "//" <+: url)

/-- The most digits of a size. -/
def kMaxPixelDimensionDigits : ℕ := 5

/-- The largest size. -/
def kMaxPixelDimension : ℤ := 10 ^ kMaxPixelDimensionDigits - 1

/-- The number of a row of digits. -/
def decimalValue (digits : Bytes) : ℕ := digits.foldl (fun v c => v * 10 + (c.toNat - 48)) 0

/-- No percentage, not zero, at most five digits. -/
def isValidPixelDimension : Option Bytes → Bool
  | none => false
  | some v =>
    v ≠ [] ∧ ch '%' ∉ v ∧ v.length ≤ kMaxPixelDimensionDigits ∧ v.all isDigit ∧ 0 < decimalValue v

/-- `media_eq` of `ApplyAsyncCss`: each byte with the letter-case bit set. -/
def mediaEq (media : Option Bytes) (kw : Bytes) : Bool := media.any fun m => m.map (· ||| 0x20) = kw

/-! ## Asynchronous stylesheets -/

/-- The attributes that the fallback takes over from the link. -/
def kCarryAttrs : List Bytes :=
  [lit "integrity", lit "crossorigin", lit "referrerpolicy", lit "type", lit "title"]

/-- What `ApplyAsyncCss` makes of a link: its attributes and those of the copy in the fallback. -/
structure DeferredCss where
  link : AttributeList
  fallback : AttributeList

/-- A `media` that does not just say all. -/
def mediaIsMeaningful (media : Option Bytes) : Bool :=
  media.any (· ≠ []) && ¬ mediaEq media (lit "all")

/-- The media to restore: the author's, or `all`. -/
def originalMedia (media : Option Bytes) : Bytes :=
  if mediaIsMeaningful media then media.getD [] else lit "all"

/-- The link becomes a preload of a style sheet. -/
def preloadRel (as : AttributeList) : AttributeList :=
  ((as.setValue .kRel (lit "preload")).deleteKeyword .kAs).add (lit "as") (lit "style")

/-- The attributes of the link as a preload. -/
def deferLink (as : AttributeList) : AttributeList :=
  let media := as.value .kMedia
  let as := (preloadRel as).add kMediaMarker (originalMedia media)
  let as := if media.isSome then as.deleteKeyword .kMedia else as
  as.add kAsyncMarker []

/-- The attributes of the link in the fallback. -/
def fallbackLink (as : AttributeList) : AttributeList :=
  let media := as.value .kMedia
  [⟨lit "rel", some (lit "stylesheet")⟩, ⟨lit "href", as.value .kHref⟩] ++
    (if mediaIsMeaningful media then [⟨lit "media", some (originalMedia media)⟩] else []) ++
    kCarryAttrs.filterMap (fun name => (as.findName name).map fun a => ⟨name, a.value⟩) ++
    [⟨kFallbackMarker, some []⟩]

/-- A stylesheet link that is active and blocks rendering. -/
def isDeferrable (as : AttributeList) : Bool :=
  as.value .kRel = some (lit "stylesheet") ∧ (as.value .kHref).any (· ≠ []) ∧
    ¬ as.hasName kAsyncMarker ∧
    ¬ as.hasName (lit "disabled") ∧ ¬ mediaEq (as.value .kMedia) (lit "print")

/-- The deferred link and its fallback, if the link can be deferred. -/
def deferCss (as : AttributeList) : Option DeferredCss :=
  if isDeferrable as then some ⟨deferLink as, fallbackLink as⟩ else none

/-- The link for browsers without scripts. -/
def fallbackNoscript (fallback : AttributeList) : List HtmlEvent :=
  elementEvents (newElement .kNoscript [⟨kFallbackMarker, some []⟩])
    (elementEvents (newElement .kLink fallback) [])

/-- The script that turns the preloads into style sheets. -/
def asyncCssLoader : List HtmlEvent :=
  elementEvents (newElement .kScript [⟨lit "src", some kAsyncCssLoaderPath⟩, ⟨lit "defer", some []⟩,
    ⟨kLoaderMarker, some []⟩]) []

/-- The media that the deferral saved on the link. -/
def savedMedia (as : AttributeList) : Option Bytes := (as.findName kMediaMarker).bind (·.value)

/-- The link becomes a style sheet again. -/
def stylesheetRel (as : AttributeList) : AttributeList :=
  if as.hasKeyword .kRel then as.setValue .kRel (lit "stylesheet")
  else as.add (lit "rel") (lit "stylesheet")

/-- A saved default stays away. -/
def addSavedMedia (saved : Option Bytes) (as : AttributeList) : AttributeList :=
  if saved.any fun m => m ≠ lit "all" ∧ m ≠ [] then as.add (lit "media") (saved.getD []) else as

/-- `RestoreDeferredLink`. -/
def restoreDeferredLink (as : AttributeList) : AttributeList :=
  let as := (stylesheetRel as).deleteKeyword .kAs
  let saved := savedMedia as
  let as := addSavedMedia saved (as.deleteKeyword .kMedia)
  (as.deleteName kMediaMarker).deleteName kAsyncMarker

/-- `RemoveAsyncCssMarkers`: on a later pass also the attributes of older output formats. -/
def removeAsyncCssMarkers (as : AttributeList) : AttributeList :=
  ((restoreDeferredLink as).deleteKeyword .kOnload).deleteName (lit "fetchpriority")

/-! ## Scripts -/

/-- The pattern is the source, or ends it at a path boundary. -/
def matchesDeferPattern (src pattern : Bytes) : Bool :=
  pattern ≠ [] ∧ (src = pattern ∨
    (pattern <:+ src ∧ pattern.length < src.length ∧
      (src.take (src.length - pattern.length)).getLast?.any fun c => c = ch '/' ∨ c = ch '?' ∨
        c = ch '='))

/-- `defer` on a script that may run later. -/
def applyScriptDeferral (inp : TransformInputs) (as : AttributeList) : AttributeList :=
  match as.value .kSrc with
  | none => as
  | some src =>
    if src = [] ∨ as.hasKeyword .kAsync ∨ as.hasKeyword .kDefer ∨
      as.value .kType = some (lit "module") ∨
        as.hasName kDeferMarker ∨ ¬ inp.deferScripts.any (matchesDeferPattern src) then as
    else (as.add (lit "defer") []).add kDeferMarker []

/-- A script deferred by an earlier pass is put back. -/
def undeferScript (as : AttributeList) : AttributeList :=
  if as.hasName kDeferMarker then (as.deleteName kDeferMarker).deleteKeyword .kDefer else as

/-- An earlier `defer` of the filter goes in any case. -/
def rewriteScript (inp : TransformInputs) (as : AttributeList) : AttributeList :=
  if inp.config.enableScriptDeferral then applyScriptDeferral inp (undeferScript as)
  else undeferScript as

/-! ## Images and frames -/

/-- The first images of the body, which are not made lazy. -/
def kAboveFoldImgWindow : ℕ := 3

/-- The first frames of the body, likewise. -/
def kAboveFoldIframeWindow : ℕ := 1

/-- A `data:` source or none, or a stand-in beside a lazy source. -/
def hasNoUsableSrc (as : AttributeList) : Bool :=
  let src := (as.value .kSrc).getD []
  src = [] ∨ lit "data:" <+: src ∨ (hasLazySourceAttribute as ∧ isLazyStandInSrc src)

/-- An image with no source of its own that could be the largest paint. -/
def isPlaceholder (s : Transform) (as : AttributeList) : Bool :=
  hasNoUsableSrc as ∧ ¬ (as.value .kSrcset).any (· ≠ []) ∧
    ¬ (parentIsPicture s.openElements ∧ s.pictureHasSourceSrcset)

/-- There is a candidate with a URL that may be preloaded. -/
def hasCandidate (inp : TransformInputs) : Bool :=
  inp.lcpCandidate.src ≠ [] ∧ isAllowedPreloadUrl inp.lcpCandidate.src

/-- A high priority, unless the author has set one. -/
def addFetchpriority (as : AttributeList) : AttributeList :=
  if as.hasName (lit "fetchpriority") then as else as.add (lit "fetchpriority") (lit "high")

/-- The attributes of a lazy image or frame. -/
def addLazy (isImg : Bool) (as : AttributeList) : AttributeList :=
  let as := as.add (lit "loading") (lit "lazy")
  if isImg ∧ ¬ as.hasName (lit "decoding") then as.add (lit "decoding") (lit "async") else as

/-- `ApplyLazyLoad` on an image of the body, which is counted already. -/
def lazyLoadBodyImg (inp : TransformInputs) (s : Transform) (as : AttributeList) :
    Transform × AttributeList :=
  if isInvisibleElement as then (s, as)
  else if hasCandidate inp ∧ (as.value .kSrc).getD [] = inp.lcpCandidate.src then
    (s, addFetchpriority as)
  else if ¬ hasCandidate inp ∧ ¬ isPlaceholder s as ∧ ¬ inp.lcpCandidate.scriptLoadedHero ∧
      ¬ s.fallbackPriorityApplied ∧ s.bodyImgCount ≤ kAboveFoldImgWindow then
    ({ s with fallbackPriorityApplied := true }, addFetchpriority as)
  else if (hasCandidate inp ∨ inp.lcpCandidate.scriptLoadedHero ∨ isPlaceholder s as) ∧
      s.bodyImgCount ≤ kAboveFoldImgWindow then (s, as)
  else (s, addLazy true as)

/-- `ApplyLazyLoad` on a frame of the body: an invisible one is not counted. -/
def lazyLoadBodyIframe (s : Transform) (as : AttributeList) : Transform × AttributeList :=
  if isInvisibleElement as then (s, as)
  else
    ({ s with bodyIframeCount := s.bodyIframeCount + 1 },
      if s.bodyIframeCount + 1 ≤ kAboveFoldIframeWindow then as else addLazy false as)

/-- An image or frame is made lazy unless it is among the first ones of the body. -/
def applyLazyLoad (inp : TransformInputs) (s : Transform) (isImg : Bool) (as : AttributeList) :
    Transform × AttributeList :=
  if as.hasName (lit "loading") then (s, as)
  else if insideInertSubtree s.openElements then (s, as)
  else if ¬ s.inBody then (s, addLazy isImg as)
  else if isImg then lazyLoadBodyImg inp { s with bodyImgCount := s.bodyImgCount + 1 } as
  else lazyLoadBodyIframe s as

/-- Dimensions in the range that is asked of the author's. -/
def usableDimensions (inp : TransformInputs) (src : Bytes) : Option (ℤ × ℤ) :=
  (inp.readImageDimensions src).filter fun d =>
    0 < d.1 ∧ 0 < d.2 ∧ d.1 ≤ kMaxPixelDimension ∧ d.2 ≤ kMaxPixelDimension

/-- The author has set this side. -/
def hasValidDimension (as : AttributeList) (k : Keyword) : Bool :=
  isValidPixelDimension (as.value k)

/-- The sides that the author has left out, from the cached image. -/
def applyImageDimensions (inp : TransformInputs) (as : AttributeList) : AttributeList :=
  let validWidth := hasValidDimension as .kWidth
  let validHeight := hasValidDimension as .kHeight
  let src := (as.value .kSrc).getD []
  if (validWidth ∧ validHeight) ∨ src = [] ∨ lit "data:" <+: src then as
  else
    match usableDimensions inp src with
    | none => as
    | some d =>
      let as := if validWidth then as else as.add (lit "width") (decimal d.1.toNat)
      if validHeight then as else as.add (lit "height") (decimal d.2.toNat)

/-- The transforms of an `<img>` or `<iframe>`, in their order. -/
def rewriteFrame (inp : TransformInputs) (s : Transform) (isImg : Bool) (as : AttributeList) :
    Transform × AttributeList :=
  let r := if inp.config.enableLazyLoad then applyLazyLoad inp s isImg as else (s, as)
  if inp.config.enableImageDimensions ∧ isImg then (r.1, applyImageDimensions inp r.2) else r

/-! ## Policies -/

/-- Every policy of the page, in a header or a `meta`, allows inline styles. -/
def metaCspAllowsInlineStyle (inp : TransformInputs) (s : Transform) : Bool :=
  inp.headerCsps.all inp.inlineStyleAllowed && s.metaCsps.all inp.inlineStyleAllowed

/-- Every policy of the page allows inline scripts. -/
def metaCspAllowsInlineScript (inp : TransformInputs) (s : Transform) : Bool :=
  inp.headerCsps.all inp.inlineScriptAllowed && s.metaCsps.all inp.inlineScriptAllowed

/-- The `http-equiv` of a policy. -/
def kContentSecurityPolicy : Bytes := lit "Content-Security-Policy"

/-- The policy in a `meta`. -/
def metaCsp (e : Element) : List Bytes :=
  if e.keyword = .kMeta ∧ (e.attributes.value .kHttpEquiv).any
      (stringCaseEqual · kContentSecurityPolicy) then
    (e.attributes.value .kContent).toList
  else []

/-! ## Start tags -/

namespace Transform

variable (inp : TransformInputs) (s : Transform) (e : Element)

/-- The start tags that leave "in select" mode as it is. -/
def isSelectContent (k : Keyword) : Bool := k = .kOption ∨ k = .kOptgroup ∨ k = .kHr ∨ k = .kScript

/-- Once something is in a `select` that does not belong there, its end tag is not believed. -/
def noteSelect : Transform :=
  { s with
    selectSticky := s.selectSticky || (s.inSelect && ¬ isSelectContent e.keyword)
    inSelect := s.inSelect || (e.keyword = .kSelect : Bool) }

/-- The block that was injected leaves the document again. -/
def takeBackBlock : Transform :=
  if s.criticalCssInjected then
    { s.mapQueue (·.filter (·.held ≠ .injectedCriticalStyle)) with
      criticalCssInjected := false
      criticalCssContextRefused := true }
  else s

/-- Elements behind which no block can be put into the page. -/
def noteDocumentMode : Transform :=
  if stringCaseEqual e.name (lit "plaintext") then { s with plaintextSeen := true }
  else if stringCaseEqual e.name (lit "frameset") then { s with framesetSeen := true }.takeBackBlock
  else s

/-- A `picture` in which a `source` gives the image. -/
def notePicture : Transform :=
  if e.keyword = .kPicture then { s with pictureHasSourceSrcset := false }
  else if e.keyword = .kSource ∧ parentIsPicture s.openElements ∧
      (e.attributes.value .kSrcset).any (· ≠ []) then
    { s with pictureHasSourceSrcset := true }
  else s

/-- What every start tag is noted for, also that of a node about to be deleted. -/
def noteElement : Transform :=
  { ((s.noteSelect e).noteDocumentMode e).notePicture e with
    inBody := s.inBody || (e.keyword = .kBody : Bool)
    metaCsps := s.metaCsps ++ metaCsp e }

/-- An author's preload whose handler makes it the stylesheet. -/
def isLoadCssPreload (as : AttributeList) : Bool :=
  (as.value .kRel).any (relHasToken · (lit "preload")) ∧
    stringCaseEqual (trimHtmlSpace ((as.value .kAs).getD [])) (lit "style") ∧
    as.hasName (lit "onload") ∧ ¬ as.hasName kHintMarker

/-- An element that brings a style sheet. -/
def isStylesheetSource : Bool :=
  e.keyword = .kStyle ∨ (e.keyword = .kLink ∧ ¬ e.attributes.hasName kFallbackMarker ∧
    ((e.attributes.value .kRel).any (relHasToken · (lit "stylesheet")) ∨
      isLoadCssPreload e.attributes))

/-- The elements of the head that the block does not go in front of. -/
def isHeadPrelude : Bool :=
  e.keyword = .kBase ∨ (e.keyword = .kMeta ∧ (e.attributes.hasKeyword .kCharset ∨
    (e.attributes.value .kHttpEquiv).any fun v =>
      stringCaseEqual v (lit "Content-Type") ∨ stringCaseEqual v kContentSecurityPolicy))

/-- The anchor is the first style sheet behind what has to come first in the head. -/
def trackCriticalCssAnchor : Transform :=
  if s.criticalCssInjected then s
  else if isHeadPrelude e then s.clearAnchor
  else if s.fromAnchor.isSome then s
  else if isStylesheetSource e ∧ ¬ s.isInSelect ∧
      ¬ insideNonDocumentSubtree s.openElements then s.setAnchor
  else s

/-- The gate in front of `ApplyAsyncCss`. -/
def mayDefer : Bool :=
  inp.config.enableAsyncCss ∧ inp.criticalCss ≠ [] ∧ metaCspAllowsInlineStyle inp s ∧
    e.keyword = .kLink ∧
    ¬ e.attributes.hasName kFallbackMarker ∧ ¬ s.isInSelect ∧
      ¬ insideNonDocumentSubtree s.openElements

/-- The deferred link with its fallback, and the loader after the first one. -/
def deferredNodes (d : DeferredCss) : List Queued :=
  ⟨.startElement { e with attributes := d.link }, .deferredCssLink⟩ ::
    (fallbackNoscript d.fallback ++ if s.asyncCssLoaderInjected then [] else asyncCssLoader).map
      (⟨·, .asyncCssInjected⟩)

/-- The deferred link goes out, with the loader in front of the first one. -/
def applyAsyncCss (d : DeferredCss) : Transform :=
  { s.emit (s.deferredNodes e d) with asyncCssLoaderInjected := true }

/-- A link that an earlier pass deferred is a stylesheet again before anything looks at it. -/
def cleanLink : Element :=
  if e.keyword = .kLink ∧ e.attributes.hasName kAsyncMarker then
    { e with attributes := removeAsyncCssMarkers e.attributes }
  else e

/-- The transforms that leave the element in its place. -/
def rewriteElement : Transform × AttributeList :=
  match e.keyword with
  | .kScript => (s, rewriteScript inp e.attributes)
  | .kImg => rewriteFrame inp s true e.attributes
  | .kIframe => rewriteFrame inp s false e.attributes
  | _ => (s, e.attributes)

/-- The start tag goes into the queue, as a deferred link or rewritten in its place. -/
def placeElement : Transform :=
  match (if s.mayDefer inp e then deferCss e.attributes else none) with
  | some d => s.applyAsyncCss e d
  | none =>
    (s.rewriteElement inp e).1.emit
      [⟨.startElement { e with attributes := (s.rewriteElement inp e).2 }, .other⟩]

/-- The element goes out and is open. -/
def openElement : Transform :=
  { s.placeElement inp e with openElements := e.toHtmlName :: s.openElements }

/-- A node that an earlier run has put in is dropped with its content. -/
def startElement : Transform :=
  if isInjectedNode e then { s.noteElement e with deleting := 1 }
  else ((s.noteElement e).trackCriticalCssAnchor (cleanLink e)).openElement inp (cleanLink e)

end Transform

/-! ## End tags -/

/-- An element that the filter puts in. -/
def hintEvents (as : AttributeList) (children : List HtmlEvent) (k : Keyword) : List Queued :=
  (elementEvents (newElement k as) children).map (⟨·, .other⟩)

/-- The hint for a font. -/
def fontPreload (url : Bytes) : AttributeList :=
  [⟨lit "rel", some (lit "preload")⟩, ⟨lit "as", some (lit "font")⟩,
    ⟨lit "type", some (lit "font/woff2")⟩, ⟨lit "crossorigin", some []⟩, ⟨lit "href", some url⟩,
    ⟨kHintMarker, some []⟩]

/-- The hint for an origin. -/
def preconnectLink (p : PreconnectOrigin) : AttributeList :=
  [⟨lit "rel", some (lit "preconnect")⟩, ⟨lit "href", some p.origin⟩] ++
    (if p.crossorigin then [⟨lit "crossorigin", some []⟩] else []) ++ [⟨kHintMarker, some []⟩]

/-- Every URL of the list may be preloaded. -/
def srcsetIsSafe (srcset : Bytes) : Bool :=
  (srcset.splitOn (ch ',')).all fun entry =>
    let url := (entry.dropWhile (· = ch ' ')).takeWhile (· ≠ ch ' ')
    url = [] ∨ isAllowedPreloadUrl url

/-- The hint for the largest image. -/
def lcpPreload (c : LcpCandidate) : AttributeList :=
  [⟨lit "rel", some (lit "preload")⟩, ⟨lit "as", some (lit "image")⟩, ⟨lit "href", some c.src⟩,
    ⟨lit "fetchpriority", some (lit "high")⟩, ⟨kHintMarker, some []⟩] ++
    (if c.srcset ≠ [] ∧ srcsetIsSafe c.srcset then [⟨lit "imagesrcset", some c.srcset⟩] else []) ++
    (if c.sizes ≠ [] then [⟨lit "imagesizes", some c.sizes⟩] else [])

/-- The rules that let the browser prefetch these pages. -/
def speculationJson (inp : TransformInputs) (urls : List Bytes) : Bytes :=
  lit "\x7b\"prefetch\":[\x7b\"source\":\"list\",\"urls\":[" ++
    (lit ",").intercalate (urls.map fun url => lit "\"" ++ inp.jsonEscapeHtmlSafe url ++
      lit "\"") ++ lit "]\x7d]\x7d"

namespace Transform

variable (inp : TransformInputs) (s : Transform) (e : HtmlName)

/-- The hints for the fonts, once. -/
def injectFontPreload : Transform :=
  if inp.config.enableFontPreload ∧ ¬ s.fontPreloadInjected ∧ inp.fontUrls ≠ [] then
    { s.emit ((inp.fontUrls.filter isAllowedPreloadUrl).flatMap fun url =>
        hintEvents (fontPreload url) [] .kLink) with
      fontPreloadInjected := true }
  else s

/-- The hints for the origins, once. -/
def injectPreconnectLinks : Transform :=
  if inp.config.enablePreconnectInjection ∧ ¬ s.preconnectInjected ∧ inp.preconnectOrigins ≠ [] then
    { s.emit ((inp.preconnectOrigins.filter fun p => isAllowedPreloadUrl p.origin).flatMap fun p =>
        hintEvents (preconnectLink p) [] .kLink) with
      preconnectInjected := true }
  else s

/-- The hint for the largest image, once, and not for one in a `picture`. -/
def injectLcpPreload : Transform :=
  if inp.config.enableLcpPreload ∧ ¬ s.lcpPreloadInjected ∧ hasCandidate inp ∧
      ¬ inp.lcpCandidate.inPicture then
    { s.emit (hintEvents (lcpPreload inp.lcpCandidate) [] .kLink) with lcpPreloadInjected := true }
  else s

/-- The speculation rules, once, where inline scripts are allowed. -/
def injectSpeculationRules : Transform :=
  let urls := inp.speculationUrls.filter isAllowedPreloadUrl
  if inp.config.enableSpeculationRules ∧ ¬ s.speculationRulesInjected ∧
      metaCspAllowsInlineScript inp s ∧ urls ≠ [] then
    { s.emit (hintEvents [⟨lit "type", some (lit "speculationrules")⟩, ⟨kHintMarker, some []⟩]
        [.leaf (speculationJson inp urls)] .kScript) with
      speculationRulesInjected := true }
  else s

/-- The bytes of the block without NUL. -/
def sanitizedCss : Bytes := inp.criticalCss.filter (· ≠ 0)

/-- The text of the block, unless it could be read as markup. -/
def blockText : Option Bytes :=
  let text := (inp.decideCriticalCssLayerPlacement (sanitizedCss inp)).statement ++ sanitizedCss inp
  if inp.cssOpensMarkupOutsideStrings text then none
  else
    let text := inp.escapeLessThanForStyleElement text
    if (find (lit "</style") (toLowerAscii text)).isSome then none else some text

/-- The block of critical styles. -/
def criticalStyle (text : Bytes) : List Queued :=
  (elementEvents (newElement .kStyle [⟨kCriticalMarker, some []⟩]) [.leaf text]).map
    (⟨·, .injectedCriticalStyle⟩)

/-- The reasons not to inject that are known before the block is looked at. -/
def skipsBlock : Bool :=
  ¬ inp.config.enableCriticalCss ∨ s.criticalCssInjected ∨ inp.criticalCss = [] ∨
    ¬ inp.documentIsTextHtml ∨ s.criticalCssContextRefused ∨ ¬ metaCspAllowsInlineStyle inp s

/-- The block goes in front of the first style sheet, and not to the place where the element
ends. -/
def goesBeforeAnchor : Bool :=
  ¬ (inp.decideCriticalCssLayerPlacement (sanitizedCss inp)).keepFallback ∧ s.fromAnchor.isSome

/-- The block would not be a document stylesheet. The anchor is never in a subtree that is
refused. -/
def refusesContext : Bool :=
  s.isInSelect ∨ s.plaintextSeen ∨ s.framesetSeen ∨
    (¬ s.goesBeforeAnchor inp ∧
      (isNonDocumentSubtreeRoot e ∨ insideNonDocumentSubtree s.openElements))

/-- The block in front of the anchor, or behind the last node. -/
def putBlock (text : Bytes) : Transform :=
  if s.goesBeforeAnchor inp then
    { s with done := s.done ++ criticalStyle text, criticalCssInjected := true }
  else { s.emit (criticalStyle text) with criticalCssInjected := true }

/-- `InjectCriticalCss` at the end tag of `e`, whose ancestors are the open elements. -/
def injectCriticalCss : Transform :=
  if s.skipsBlock inp then s
  else
    match blockText inp with
    | none => s
    | some text =>
      if s.refusesContext inp e then { s with criticalCssContextRefused := true }
      else s.putBlock inp text

/-- Only an end tag in the source that closed nothing but options ends "in select" mode. -/
def noteSelectEnd (style : CloseStyle) : Transform :=
  let sticky := s.selectSticky || (s.inSelect &&
    (e.keyword ≠ .kSelect ∧ e.keyword ≠ .kOption ∧ e.keyword ≠ .kOptgroup ∧
      style ≠ .explicitClose ∧ style ≠ .implicitClose ∧ style ≠ .briefClose : Bool))
  { s with
    selectSticky := sticky
    inSelect := s.inSelect && ¬ (e.keyword = .kSelect ∧ style = .explicitClose ∧ ¬ sticky ∧
      ¬ s.openElements.any (·.keyword = .kSelect)) }

/-- What goes to the end of the head. -/
def endHead : Transform :=
  (((s.injectFontPreload inp).injectPreconnectLinks inp).injectLcpPreload
    inp).injectCriticalCss inp e

/-- What goes to the end of the body. -/
def endBody : Transform :=
  { (s.injectSpeculationRules inp).injectCriticalCss inp e with inBody := false }

/-- The end of an element that something goes in front of. -/
def closeElement : Transform :=
  match e.keyword with
  | .kHead => s.endHead inp e
  | .kBody => s.endBody inp e
  | _ => s

/-- An end tag closes the innermost open element. -/
def endElement (style : CloseStyle) : Transform :=
  match s.openElements with
  | [] => s.emit [⟨.endElement style, .other⟩]
  | e :: ancestors =>
    (({ s with openElements := ancestors }.noteSelectEnd e style).closeElement inp e).emit
      [⟨.endElement style, .other⟩]

/-! ## The document -/

/-- One event. While a node is being deleted its events are dropped from the queue. -/
def step (s : Transform) : HtmlEvent → Transform
  | .startElement e =>
    if s.deleting ≠ 0 then { s with deleting := s.deleting + 1 } else s.startElement inp e
  | .endElement style =>
    if s.deleting ≠ 0 then { s with deleting := s.deleting - 1 } else s.endElement inp style
  | .leaf contents => if s.deleting ≠ 0 then s else s.emit [⟨.leaf contents, .other⟩]

/-- What `RevertAsyncCss` leaves of a node. -/
def revertNode (q : Queued) : Option Queued :=
  match q.held, q.event with
  | .asyncCssInjected, _ => none
  | .deferredCssLink, .startElement e =>
    some ⟨.startElement { e with attributes := restoreDeferredLink e.attributes }, .other⟩
  | _, _ => some q

/-- Without the block the deferred links are put back. -/
def endDocument : Transform :=
  if s.criticalCssInjected then s else s.mapQueue (·.filterMap revertNode)

/-- The filter on a document, with the pointers of the queue it leaves. -/
def transformQueue (events : List HtmlEvent) : List Queued :=
  (events.foldl (step inp) {}).endDocument.queue

/-- The filter on a document. -/
def transform (events : List HtmlEvent) : List HtmlEvent :=
  (transformQueue inp events).map (·.event)

end Transform

end PageSpeed.Html
