import PageSpeed.Spec.Inet

/-!
# The SVG sanitizer

`lib/image/svg_sanitizer.cc`: the parser that copies allowed elements and attributes, and the pass
over its output that removes empty groups. A position in the input is what is left of the input from
there.
-/

namespace PageSpeed.Svg

open Wire Inet

/-! ## Allowlists -/

/-- The elements that are kept. -/
def allowedElements : List Bytes :=
  ["svg", "path", "rect", "circle", "ellipse", "line", "polyline", "polygon", "g", "defs",
    "clipPath", "linearGradient", "radialGradient", "stop"].map lit

/-- The elements that are dropped with their content. -/
def dangerousElements : List Bytes :=
  ["script", "style", "foreignObject", "use", "animate", "set", "a", "metadata", "image",
    "animateTransform", "animateMotion", "animateColor"].map lit

/-- The attributes that are kept. -/
def allowedAttributes : List Bytes :=
  ["d", "fill", "stroke", "opacity", "fill-opacity", "stroke-opacity", "transform", "viewBox",
    "width", "height", "cx", "cy", "r", "rx", "ry", "x", "y", "x1", "y1", "x2", "y2", "points",
    "offset", "stop-color", "stop-opacity", "clip-path", "fill-rule", "stroke-width",
    "stroke-linecap", "stroke-linejoin", "id", "class", "xmlns", "shape-rendering"].map lit

/-! ## Characters -/

/-- The white space of XML. -/
def isWhitespace (c : UInt8) : Bool := c = ch ' ' ∨ c = ch '\t' ∨ c = ch '\n' ∨ c = ch '\r'

/-- A letter. -/
def isAlpha (c : UInt8) : Bool := (ch 'a' ≤ c ∧ c ≤ ch 'z') ∨ (ch 'A' ≤ c ∧ c ≤ ch 'Z')

/-- The first character of a name. -/
def isNameStartChar (c : UInt8) : Bool := isAlpha c ∨ c = ch '_' ∨ c = ch ':'

/-- A further character of a name. -/
def isNameChar (c : UInt8) : Bool :=
  isAlpha c ∨ isDigit c ∨ c = ch '_' ∨ c = ch ':' ∨ c = ch '-' ∨ c = ch '.'

/-- The input behind its white space. -/
def skipWS (s : Bytes) : Bytes := s.dropWhile isWhitespace

/-! ## Configuration -/

/-- The size of the source image, and the limits. -/
structure SvgSanitizeConfig where
  sourceWidth : ℕ := 0
  sourceHeight : ℕ := 0
  crispEdges : Bool := false
  maxDepth : ℕ := 256
  maxElements : ℕ := 100000

/-! ## Empty groups -/

/-- What is left behind an empty group, if one begins here. -/
def skipEmptyGroup (s : Bytes) : Option Bytes :=
  if lit "<g>" <+: s ∨ lit "<g " <+: s then
    let tag := s.takeWhile (· ≠ ch '>')
    if tag = s then none
    else if tag.getLast? = some (ch '/') then some (s.drop (tag.length + 1))
    else
      let inner := skipWS (s.drop (tag.length + 1))
      if lit "</g>" <+: inner then some (inner.drop 4) else none
  else none

/-- One scan. At most so many characters are looked at. -/
def removeGroupsOnce : ℕ → Bytes → Bytes
  | 0, _ => []
  | _ + 1, [] => []
  | n + 1, c :: rest =>
    match skipEmptyGroup (c :: rest) with
    | some left => removeGroupsOnce n left
    | none => c :: removeGroupsOnce n rest

/-- Scans until nothing changes, at most so many. -/
def removeGroupsUpTo : ℕ → Bytes → Bytes
  | 0, s => s
  | n + 1, s =>
    let next := removeGroupsOnce s.length s
    if next = s then s else removeGroupsUpTo n next

/-- A scan that changes something makes the text shorter. -/
def removeEmptyGroups (s : Bytes) : Bytes := removeGroupsUpTo s.length s

/-! ## The parser -/

/-- An attribute as it was read. -/
structure AttrInfo where
  name : Bytes
  value : Bytes
  deriving DecidableEq

/-- The attributes of a tag, and whether it closes itself. -/
structure TagParseResult where
  attrs : List AttrInfo := []
  selfClosing : Bool := false
  deriving DecidableEq

/-- The value of an attribute, and what is left behind it. -/
def parseAttrValue (s : Bytes) : Bytes × Bytes :=
  match s with
  | [] => ([], [])
  | quote :: rest =>
    if quote = ch '"' ∨ quote = ch '\'' then
      (rest.takeWhile (· ≠ quote), (rest.dropWhile (· ≠ quote)).tail)
    else
      let stops := fun c => isWhitespace c ∨ c = ch '>' ∨ c = ch '/'
      (s.takeWhile fun c => ¬ stops c, s.dropWhile fun c => ¬ stops c)

/-- Behind the first of these characters. -/
def skipPast (c : UInt8) (s : Bytes) : Bytes := (s.dropWhile (· ≠ c)).tail

/-- The loop of `ParseAttributes`, and what is left behind the tag. Each round takes a character at
least. -/
def parseAttributesUpTo : ℕ → List AttrInfo → Bytes → TagParseResult × Bytes
  | 0, attrs, s => (⟨attrs, false⟩, s)
  | n + 1, attrs, s =>
    match skipWS s with
    | [] => (⟨attrs, false⟩, [])
    | c :: rest =>
      if c = ch '/' then (⟨attrs, true⟩, skipPast (ch '>') rest)
      else if c = ch '>' then (⟨attrs, false⟩, rest)
      else if isNameStartChar c = false ∧ c ≠ ch '-' then parseAttributesUpTo n attrs rest
      else
        let name := (c :: rest).takeWhile isNameChar
        match skipWS ((c :: rest).dropWhile isNameChar) with
        | [] => parseAttributesUpTo n (attrs ++ [⟨name, []⟩]) []
        | d :: left =>
          if d = ch '=' then
            let value := parseAttrValue (skipWS left)
            parseAttributesUpTo n (attrs ++ [⟨name, value.1⟩]) value.2
          else parseAttributesUpTo n (attrs ++ [⟨name, []⟩]) (d :: left)

/-- Every round takes at least a byte, so the length is fuel enough. -/
def parseAttributes (s : Bytes) : TagParseResult × Bytes := parseAttributesUpTo (s.length + 1) [] s

/-- The parser between two characters. -/
structure ParseState where
  input : Bytes
  output : Bytes := []
  skipDepth : ℕ := 0
  unknownDepth : ℕ := 0
  foundSvg : Bool := false
  currentDepth : ℕ := 0
  elementCount : ℕ := 0
  limitsExceeded : Bool := false
  errorMessage : Bytes := []
  pathCount : ℕ := 0
  elementsStripped : ℕ := 0
  deriving DecidableEq

/-- A value between quotes. -/
def escapeValue (value : Bytes) : Bytes :=
  value.flatMap fun c =>
    if c = ch '"' then lit "&quot;" else if c = ch '&' then lit "&amp;"
    else if c = ch '<' then lit "&lt;" else [c]

/-- An attribute as it is written. -/
def emitAttr (name value : Bytes) : Bytes := lit " " ++ name ++ lit "=\"" ++ value ++ lit "\""

/-- The attribute is one that is kept. -/
def keepsAttr (name : Bytes) : Bool :=
  ¬ (name.length ≥ 2 ∧ (name.head? = some (ch 'o') ∨ name.head? = some (ch 'O')) ∧
      ((name.drop 1).head? = some (ch 'n') ∨ (name.drop 1).head? = some (ch 'N'))) ∧
    name ≠ lit "href" ∧ name ≠ lit "xlink:href" ∧ name ≠ lit "style" ∧ name ∈ allowedAttributes

/-- What is emitted of an attribute. -/
def emitKept (config : SvgSanitizeConfig) (isSvgRoot : Bool) (attr : AttrInfo) : Bytes :=
  if isSvgRoot ∧ attr.name = lit "width" ∧ config.sourceWidth > 0 then
    emitAttr (lit "width") (decimal config.sourceWidth)
  else if isSvgRoot ∧ attr.name = lit "height" ∧ config.sourceHeight > 0 then
    emitAttr (lit "height") (decimal config.sourceHeight)
  else emitAttr attr.name (escapeValue attr.value)

/-- The attributes that the root gets in addition. -/
def rootAttrs (config : SvgSanitizeConfig) (kept : List AttrInfo) : Bytes :=
  (if (kept.all (·.name ≠ lit "width")) ∧
    config.sourceWidth > 0 then emitAttr (lit "width") (decimal config.sourceWidth)
    else []) ++
  (if (kept.all (·.name ≠ lit "height")) ∧ config.sourceHeight > 0 then
      emitAttr (lit "height") (decimal config.sourceHeight)
    else []) ++
  if config.crispEdges then emitAttr (lit "shape-rendering") (lit "crispEdges") else []

/-- A start tag with the attributes that are kept; the root gets those it lacks. -/
def emitOpenTag (config : SvgSanitizeConfig) (tag : Bytes) (parsed : TagParseResult)
    (isSvgRoot : Bool) : Bytes :=
  let kept := parsed.attrs.filter (keepsAttr ·.name)
  lit "<" ++ tag ++ kept.flatMap (emitKept config isSvgRoot) ++
    (if isSvgRoot then rootAttrs config kept else []) ++
    if parsed.selfClosing then lit "/>" else lit ">"

/-- Behind the `>` that ends a declaration. -/
def skipDeclaration (bracketDepth : ℤ) : Bytes → Bytes
  | [] => []
  | c :: rest =>
    if c = ch '[' then skipDeclaration (bracketDepth + 1) rest
    else if c = ch ']' then skipDeclaration (bracketDepth - 1) rest
    else if c = ch '>' ∧ bracketDepth ≤ 0 then rest
    else skipDeclaration bracketDepth rest

/-- Behind the first occurrence of the mark, or at the end. -/
def skipTo (mark s : Bytes) : Bytes :=
  match find mark s with
  | some i => s.drop (i + mark.length)
  | none => []

namespace ParseState

variable (config : SvgSanitizeConfig) (st : ParseState)

/-- Nothing is left to read, or a limit is passed. -/
def eof : Bool := st.input = [] ∨ st.limitsExceeded

/-- A closing tag; the input is behind `</`. -/
def closeTag (s : Bytes) : ParseState :=
  let tag := s.takeWhile isNameChar
  let st := { st with
    input := skipPast (ch '>') (s.dropWhile isNameChar)
    currentDepth := st.currentDepth - 1 }
  if st.skipDepth > 0 then { st with skipDepth := st.skipDepth - 1 }
  else if st.unknownDepth > 0 then { st with unknownDepth := st.unknownDepth - 1 }
  else if tag ∈ allowedElements then { st with output := st.output ++ (lit "</" ++ tag ++ lit ">") }
  else st

/-- An opening tag; the input is behind `<`. -/
def openTag (s : Bytes) : ParseState :=
  let tag := s.takeWhile isNameChar
  let (parsed, left) := parseAttributes (s.dropWhile isNameChar)
  let st := { st with
    input := left
    elementCount := st.elementCount + 1
    currentDepth := if parsed.selfClosing then st.currentDepth else st.currentDepth + 1 }
  if st.elementCount > config.maxElements ∨ st.currentDepth > config.maxDepth then
    { st with
      limitsExceeded := true
      errorMessage :=
        if st.elementCount > config.maxElements then lit "SVG element count limit exceeded"
        else lit "SVG nesting depth limit exceeded" }
  else if st.skipDepth > 0 then
    { st with
      skipDepth := if parsed.selfClosing then st.skipDepth else st.skipDepth + 1
      elementsStripped := st.elementsStripped + 1 }
  else if tag ∈ dangerousElements then
    { st with
      skipDepth := if parsed.selfClosing then st.skipDepth else 1
      elementsStripped := st.elementsStripped + 1 }
  else if tag ∉ allowedElements then
    { st with
      unknownDepth := if parsed.selfClosing then st.unknownDepth else st.unknownDepth + 1
      elementsStripped := st.elementsStripped + 1 }
  else
    let isSvgRoot := tag = lit "svg" ∧ st.foundSvg = false
    { st with
      foundSvg := tag = lit "svg" ∨ st.foundSvg
      pathCount := if tag = lit "path" then st.pathCount + 1 else st.pathCount
      output := st.output ++ emitOpenTag config tag parsed isSvgRoot }

/-- One round of the main loop. -/
def round : ParseState :=
  match st.input with
  | [] => st
  | c :: rest =>
    if c ≠ ch '<' then
      { st with input := rest, output := if st.skipDepth = 0 then st.output ++ [c] else st.output }
    else if lit "<!--" <+: st.input then { st with input := skipTo (lit "-->") (st.input.drop 4) }
    else if lit "<![CDATA[" <+: st.input then
      { st with input := skipTo (lit "]]>") (st.input.drop 9) }
    else if lit "<!" <+: st.input then { st with input := skipDeclaration 0 (st.input.drop 2) }
    else if lit "<?" <+: st.input then { st with input := skipTo (lit "?>") (st.input.drop 2) }
    else if lit "</" <+: st.input then st.closeTag (st.input.drop 2)
    else if rest.head?.any (fun d => isNameStartChar d || d = ch '-') = false then
      { st with input := rest, output := if st.skipDepth = 0 then st.output ++ [ch '<']
          else st.output }
    else st.openTag config rest

/-- So many rounds. Each of them takes a character at least. -/
def parseUpTo : ℕ → ParseState → ParseState
  | 0, st => st
  | n + 1, st => if st.eof then st else parseUpTo n (st.round config)

end ParseState

/-- The parser over the whole input. -/
def parse (config : SvgSanitizeConfig) (input : Bytes) : ParseState :=
  ParseState.parseUpTo config input.length { input }

end PageSpeed.Svg
