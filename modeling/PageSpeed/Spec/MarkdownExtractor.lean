import PageSpeed.Spec.Inet

/-!
# The Markdown extractor

`lib/html/markdown_extractor_filter.cc`: the filter that turns the events of a parsed page into
Markdown. With each byte of its buffers goes what the byte is there for; the source's strings are
the bytes without that. `SafeDecodeHtmlEntities` is a parameter.
-/

namespace PageSpeed.Markdown

open Wire Inet

/-! ## Text -/

/-- What the extractor opens at the start of a line. -/
inductive Structure
  | heading
  | blockquote
  | table
  | listItem
  | rule
  | frontMatter
  deriving DecidableEq

/-- What a byte of the output is there for: it comes from the page, or from the page into a fenced
block, or the extractor has put it there within a line, or to open something. -/
inductive Origin
  | page
  | fenced
  | inline
  | opened (s : Structure)
  deriving DecidableEq

/-- A byte of the output with its origin. -/
structure Mark where
  byte : UInt8
  origin : Origin
  deriving DecidableEq

/-- A text of the output. -/
abbrev Text := List Mark

/-- Bytes that are all there for the same. -/
def mark (origin : Origin) (s : Bytes) : Text := s.map (⟨·, origin⟩)

/-- What the source has of a text. -/
def bytesOf (t : Text) : Bytes := t.map (·.byte)

/-- The white space of the extractor, the Latin-1 no-break space included. -/
def isAsciiWs (c : UInt8) : Bool :=
  c = ch ' ' ∨ c = ch '\t' ∨ c = ch '\n' ∨ c = ch '\r' ∨ c = 0x0C ∨ c = 0x0B ∨ c = 0xA0

/-- The text without white space at both ends. -/
def trim (t : Text) : Text :=
  ((t.dropWhile (isAsciiWs ·.byte)).reverse.dropWhile (isAsciiWs ·.byte)).reverse

/-- A no-break space is a blank. -/
def foldLatin1Nbsp (s : Bytes) : Bytes := s.map fun c => if c = 0xA0 then ch ' ' else c

/-! ## Elements -/

/-- The names that the filter tells apart: the keywords, and `svg`, `label` and `summary`, which are
none. -/
inductive Tag
  | script | style | noscript | template | head | select | svg | label
  | nav | header | footer
  | main | article
  | h1 | h2 | h3 | h4 | h5 | h6
  | p | div | section | aside | address | dl | dt | dd
  | blockquote | pre | ul | ol | li | hr
  | table | tr | td | th
  | br | strong | b | em | i | code | a | img
  | time | summary
  | other
  deriving DecidableEq

/-- An element with the values of its attributes that the filter reads: C strings, and nothing for
an attribute that is not there or has no value. -/
structure Element where
  tag : Tag
  style : Option Bytes := none
  hidden : Bool := false
  ariaHidden : Option Bytes := none
  role : Option Bytes := none
  datetime : Option Bytes := none
  dataLanguage : Option Bytes := none
  cssClass : Option Bytes := none
  href : Option Bytes := none
  src : Option Bytes := none
  alt : Option Bytes := none
  deriving DecidableEq

namespace Element

variable (e : Element)

/-- Elements that are never shown. -/
def isHardStripKeyword : Bool := e.tag ∈ [.script, .style, .noscript, .template, .head, .select]

/-- The same for names that are no keywords. -/
def isHardStripByName : Bool := e.tag ∈ [.svg, .label]

/-- Elements around the content of a page. -/
def isSoftStripKeyword : Bool := e.tag ∈ [.nav, .header, .footer]

/-- The role of the element, up to case. -/
def roleIs (want : Bytes) : Bool := e.role.any (stringCaseEqual · want)

/-- An element that holds the content of the page. -/
def isContentRoot : Bool :=
  e.tag = .main ∨ e.tag = .article ∨ e.roleIs (lit "main") ∨ e.roleIs (lit "article")

/-- An element that holds an article. -/
def isArticleRoot : Bool := e.tag = .article ∨ e.roleIs (lit "article")

/-- Elements that start and end a block. -/
def isBlockKeyword : Bool :=
  e.tag ∈ [.h1, .h2, .h3, .h4, .h5, .h6, .p, .div, .section, .article, .main, .aside, .address,
    .blockquote, .ul, .ol, .li, .dl, .dt, .dd, .hr]

/-- Elements that do not start a block in an item of a list. -/
def isListItemFoldKeyword : Bool := e.tag ∈ [.p, .div, .section, .aside]

/-- Lower case, and without blanks and tabs. -/
def styleNorm (style : Bytes) : Bytes :=
  (style.filter fun c => ¬ (c = ch ' ' ∨ c = ch '\t')).map lowerChar

/-- The element is hidden by its own attributes. -/
def isInlineHidden : Bool :=
  (e.style.any fun style => lit "display:none" <:+: styleNorm style ∨
    lit "visibility:hidden" <:+: styleNorm style) ||
    e.hidden || e.ariaHidden.any (stringCaseEqual · (lit "true"))

/-- An element that is dropped with all that is below it. -/
def isHardStrip : Bool := e.isHardStripKeyword || e.isInlineHidden || e.isHardStripByName

end Element

/-! ## Escapes -/

/-- The characters that open a block at the start of a line. -/
def isBlockMarker (c : UInt8) : Bool :=
  c = ch '#' ∨ c = ch '>' ∨ c = ch '|' ∨ c = ch '-' ∨ c = ch '+'

/-- A backslash in front of a marker at the start of a block. -/
def escapeLeadingMarker (body : Text) : Text :=
  match body with
  | [] => []
  | c :: rest => if isBlockMarker c.byte then ⟨ch '\\', .inline⟩ :: c :: rest else c :: rest

/-- The same behind each line feed. -/
def escapeInteriorLineMarkers : Text → Text
  | [] => []
  | [c] => [c]
  | c :: n :: rest =>
    if c.byte = ch '\n' ∧ isBlockMarker n.byte then
      c :: ⟨ch '\\', .inline⟩ :: escapeInteriorLineMarkers (n :: rest)
    else c :: escapeInteriorLineMarkers (n :: rest)

/-- The text of a cell on one line and without a bar. -/
def escapeCell (t : Text) : Text :=
  t.flatMap fun c =>
    if c.byte = ch '\n' ∨ c.byte = ch '\r' then [{ c with byte := ch ' ' }]
    else if c.byte = ch '|' then [⟨ch '\\', .inline⟩, c]
    else [c]

/-- The characters that would end the URL are encoded. -/
def sanitizeUrl (url : Bytes) : Bytes :=
  url.flatMap fun c =>
    if c = ch '(' then lit "%28"
    else if c = ch ')' then lit "%29"
    else if c = ch ' ' then lit "%20"
    else if c = ch '<' then lit "%3C"
    else if c = ch '>' then lit "%3E"
    else if c = ch '"' then lit "%22"
    else if c = ch '\\' then lit "%5C"
    else if c ≥ 0x20 ∧ c ≠ 0x7F then [c]
    else []

/-- The text of a link or image on one line and without a bare bracket. -/
def escapeLinkText (s : Bytes) : Bytes :=
  s.flatMap fun c =>
    if c = 0xA0 then [ch ' ']
    else if c = ch '[' ∨ c = ch ']' ∨ c = ch '(' ∨ c = ch ')' then [ch '\\', c]
    else if c = ch '\n' ∨ c = ch '\r' then [ch ' ']
    else [c]

/-- The loop over a text, with the current run and the longest one so far. -/
def backtickRuns (run maxRun : ℕ) : Bytes → ℕ
  | [] => maxRun
  | c :: rest =>
    if c = ch '\x60' then backtickRuns (run + 1) (max maxRun (run + 1)) rest
    else backtickRuns 0 maxRun rest

/-- The length of the longest run of backticks. -/
def longestBacktickRun (s : Bytes) : ℕ := backtickRuns 0 0 s

/-- A character of a language's name. -/
def isLanguageChar (c : UInt8) : Bool :=
  (ch 'a' ≤ c ∧ c ≤ ch 'z') ∨ (ch 'A' ≤ c ∧ c ≤ ch 'Z') ∨ (ch '0' ≤ c ∧ c ≤ ch '9') ∨
    c ∈ lit "+#._-"

/-- The name of a language behind a fence. -/
def sanitizeFenceLanguage (v : Bytes) : Bytes := (v.takeWhile isLanguageChar).take 32

/-- The language in the class of a `code`. -/
def languageFromCodeClass (cssClass : Option Bytes) : Bytes :=
  let tokens := (cssClass.getD []).splitOnP fun c => c = ch ' ' ∨ c = ch '\t'
  match tokens.find? fun token => token.length > (lit "language-").length ∧
      lit "language-" <+: token with
  | some token => sanitizeFenceLanguage (token.drop (lit "language-").length)
  | none => []

/-! ## The filter -/

/-- An open list, with the number of items it has. -/
structure ListCtx where
  ordered : Bool
  counter : ℕ
  deriving DecidableEq

/-- How a filter is made. The decoder of entities is any function. -/
structure Config where
  stripSoftChrome : Bool := true
  contentRootOnly : Bool := false
  fmTitle : Bytes := []
  fmDescription : Bytes := []
  fmCanonical : Bytes := []
  decode : Bytes → Bytes := id

/-- The state of the filter. The innermost list is at the front. -/
structure Filter where
  markdown : Text := []
  cur : Text := []
  cell : Text := []
  codeBuf : Text := []
  preLanguage : Bytes := []
  table : Text := []
  lists : List ListCtx := []
  rowCells : List Text := []
  fmDate : Bytes := []
  anchorTextStart : ℕ := 0
  blockquoteDepth : ℕ := 0
  preDepth : ℕ := 0
  headingLevel : ℕ := 0
  hardSkipDepth : ℕ := 0
  softSkipDepth : ℕ := 0
  timeDepth : ℕ := 0
  contentRootDepth : ℕ := 0
  articleDepth : ℕ := 0
  anchorDepth : ℕ := 0
  itemOpen : Bool := false
  inTable : Bool := false
  inCell : Bool := false
  inInlineCode : Bool := false
  inDt : Bool := false
  tableHeaderDone : Bool := false
  lastWasListItem : Bool := false
  truncated : Bool := false
  droppedContentRoot : Bool := false
  deriving DecidableEq

/-- The size from which on nothing is added. -/
def kMaxMarkdownBytes : ℕ := 8 * 2 ^ 20

/-- An item of a deeper list is not indented further. -/
def kMaxListIndentLevels : ℕ := 16

/-- A deeper quote gets no further marks. -/
def kMaxBlockquoteDepth : ℕ := 8

namespace Filter

variable (x : Config) (s : Filter)

/-- The buffer that text goes to. -/
def out : Text := if s.inCell then s.cell else s.cur

/-- That buffer replaced. -/
def setOut (t : Text) : Filter := if s.inCell then { s with cell := t } else { s with cur := t }

/-- Appends something of the filter's own to the current buffer. -/
def put (t : Text) : Filter := s.setOut (s.out ++ t)

/-- Within an element that is left out. -/
def skipping : Bool := s.hardSkipDepth > 0 ∨ s.softSkipDepth > 0 ∨ s.timeDepth > 0

/-- Outside of the content, when only that is wanted. -/
def outsideContentRoot : Bool := x.contentRootOnly ∧ s.contentRootDepth = 0

/-- Blocks in a link are put on its line. -/
def inAnchorBlock : Bool := s.anchorDepth > 0 ∧ s.preDepth = 0

/-- Blocks in an item are put on its line. -/
def inListItemBlock : Bool := s.itemOpen ∧ s.preDepth = 0 ∧ s.anchorDepth = 0

/-- Whether the cap is reached. To ask sets the flag. -/
def atOutputCap : Bool := s.truncated || s.markdown.length > kMaxMarkdownBytes

/-- The loop of `AppendText` over the characters; whether it was cut off comes with the result. -/
def collapse : (prevSpace : Bool) → Text → Bytes → Text × Bool
  | _, o, [] => (o, false)
  | prevSpace, o, c :: rest =>
    if o.length ≥ kMaxMarkdownBytes then (o, true)
    else if isAsciiWs c then
      if prevSpace then collapse true o rest else collapse true (o ++ [⟨ch ' ', .page⟩]) rest
    else collapse false (o ++ [⟨c, .page⟩]) rest

/-- Text from the page: verbatim in a `pre`, its white space collapsed elsewhere. -/
def appendText (rawText : Bytes) : Filter :=
  if s.atOutputCap then { s with truncated := true }
  else if s.outsideContentRoot x then s
  else
    let text := x.decode rawText
    let o := s.out
    if o.length ≥ kMaxMarkdownBytes then { s with truncated := true }
    else if s.preDepth > 0 then
      let room := kMaxMarkdownBytes - o.length
      let s := s.setOut (o ++ mark .page (foldLatin1Nbsp (text.take room)))
      if text.length > room then { s with truncated := true } else s
    else
      let prevSpace : Bool := o = [] ∨ o.getLast?.any fun c => c.byte = ch ' ' ∨ c.byte = ch '\n'
      let r := collapse prevSpace o text
      let s := s.setOut r.1
      if r.2 then { s with truncated := true } else s

/-- A block, with a blank line in front. -/
def appendBlock (body : Text) : Filter :=
  if s.atOutputCap then { s with truncated := true }
  else
    { s with
      markdown :=
        (if s.markdown ≠ [] then s.markdown ++ mark .inline (lit "\n\n") else s.markdown) ++ body
      lastWasListItem := false }

/-- An item, on the line behind the item before it. -/
def appendListItem (body : Text) : Filter :=
  if s.atOutputCap then { s with truncated := true }
  else
    let separator := if s.lastWasListItem then lit "\n" else lit "\n\n"
    { s with
      markdown :=
        (if s.markdown ≠ [] then s.markdown ++ mark .inline separator else s.markdown) ++ body
      lastWasListItem := true }

/-- The marker of the next item of a list, and the list behind it. -/
def nextMarker (top : ListCtx) : Bytes × ListCtx :=
  if top.ordered then (decimal (top.counter + 1) ++ lit ". ",
    { top with counter := top.counter + 1 }) else (lit "- ", top)

/-- The block that was collected goes out as what it is: a heading, an item, a quote or a
paragraph. -/
def flushBlock : Filter :=
  let body := trim s.cur
  let s := { s with cur := [] }
  if body = [] then s
  else if s.headingLevel > 0 then
    s.appendBlock (mark (.opened .heading)
      (List.replicate s.headingLevel (ch '#') ++ lit " ") ++ body)
  else
    match (if s.itemOpen then s.lists else []) with
    | top :: lists =>
      let indent := (min (top :: lists).length kMaxListIndentLevels - 1) * 2
      let marker := nextMarker top
      let line := mark (.opened .listItem) (List.replicate indent (ch ' ') ++ marker.1) ++
        escapeInteriorLineMarkers (escapeLeadingMarker body)
      { ({ s with lists := marker.2 :: lists } : Filter).appendListItem
          line with itemOpen := false }
    | [] =>
      if s.blockquoteDepth > 0 then
        let depth := min s.blockquoteDepth kMaxBlockquoteDepth
        s.appendBlock (mark (.opened .blockquote) (List.replicate depth (lit "> ")).flatten ++
          escapeLeadingMarker body)
      else if s.inDt then
        let esc := escapeLeadingMarker body
        s.appendBlock (if ch '*' ∈ bytesOf esc then esc else mark .inline (lit "**") ++ esc ++
          mark .inline (lit "**"))
      else s.appendBlock (escapeLeadingMarker body)

/-- Between two blocks in a link. -/
def anchorBlockJoin : Filter :=
  let o := s.out
  if o.length ≤ s.anchorTextStart then s
  else if o.getLast?.any fun c => c.byte = ch ' ' ∨ c.byte = ch ':' then s
  else s.put (mark .inline (lit ": "))

/-- Between two blocks in an item. -/
def listItemBlockJoin : Filter :=
  let o := (s.out.reverse.dropWhile (·.byte = ch ' ')).reverse
  if o = [] ∨ o.getLast?.any (·.byte = ch '\n') then s.setOut o
  else s.setOut (o ++ mark .inline (lit " "))

/-! ## Start of an element -/

/-- Inside of a dropped subtree only the nesting is counted. -/
def startSkipped (e : Element) : Filter :=
  let s := if s.softSkipDepth > 0 ∧ s.hardSkipDepth = 0 ∧ e.isContentRoot then
    { s with droppedContentRoot := true } else s
  if e.isHardStrip then { s with hardSkipDepth := s.hardSkipDepth + 1 }
  else if e.tag = .time then { s with timeDepth := s.timeDepth + 1 }
  else if x.stripSoftChrome ∧ e.isSoftStripKeyword then
    { s with softSkipDepth := s.softSkipDepth + 1 }
  else s

/-- The content roots and articles that are open. -/
def openScopes (e : Element) : Filter :=
  { s with
    contentRootDepth := if e.isContentRoot then s.contentRootDepth + 1 else s.contentRootDepth
    articleDepth := if e.isArticleRoot then s.articleDepth + 1 else s.articleDepth }

/-- The first `<time datetime>` is the date of the page, and its text is dropped. -/
def startTime (e : Element) : Filter :=
  { s with
    fmDate := if s.fmDate = [] then e.datetime.getD [] else s.fmDate
    timeDepth := s.timeDepth + 1 }

/-- The next block is a heading. -/
def openHeading (level : ℕ) : Filter := { s.flushBlock with headingLevel := level }

/-- The next block is code; the outermost `pre` may name its language. -/
def openPre (e : Element) : Filter :=
  let s := s.flushBlock
  { s with
    preLanguage := if s.preDepth = 0 then e.dataLanguage.getD [] else s.preLanguage
    preDepth := s.preDepth + 1 }

/-- A list in the lists that are open. -/
def openList (ordered : Bool) : Filter :=
  let s := s.flushBlock
  { s with lists := ⟨ordered, 0⟩ :: s.lists }

/-- A table starts over; tables are not nested. -/
def openTable : Filter :=
  { s.flushBlock with inTable := true, table := [], rowCells := [], tableHeaderDone := false }

/-- A marker within a line; there are none in preformatted text. -/
def putInline (t : Bytes) : Filter := if s.preDepth = 0 then s.put (mark .inline t) else s

/-- A span of code, or the language of the `pre` around it. -/
def openCode (e : Element) : Filter :=
  if s.preDepth = 0 then { s with inInlineCode := true, codeBuf := [] }
  else if s.preLanguage = [] then { s with preLanguage := languageFromCodeClass e.cssClass }
  else s

/-- The text of a link starts. -/
def openAnchor : Filter :=
  if s.preDepth = 0 then
    let s := s.put (mark .inline (lit "["))
    { s with
      anchorTextStart := if s.anchorDepth = 0 then s.out.length else s.anchorTextStart
      anchorDepth := s.anchorDepth + 1 }
  else s

/-- An image with its text and URL. -/
def putImage (e : Element) : Filter :=
  if s.preDepth ≠ 0 then s
  else
    let src := e.src.getD []
    if src = [] then s
    else
      s.put (mark .inline (lit "![") ++ mark .page (escapeLinkText (e.alt.getD [])) ++
        mark .inline (lit "](") ++ mark .page (sanitizeUrl src) ++ mark .inline (lit ")"))

/-- The switch over the keyword. -/
def startTag (e : Element) : Filter :=
  match e.tag with
  | .h1 => s.openHeading 1
  | .h2 => s.openHeading 2
  | .h3 => s.openHeading 3
  | .h4 => s.openHeading 4
  | .h5 => s.openHeading 5
  | .h6 => s.openHeading 6
  | .p | .div | .section | .article | .main | .aside | .address | .dl | .dd => s.flushBlock
  | .dt => { s.flushBlock with inDt := true }
  | .blockquote => { s.flushBlock with blockquoteDepth := s.blockquoteDepth + 1 }
  | .pre => s.openPre e
  | .ul => s.openList false
  | .ol => s.openList true
  | .li => { s.flushBlock with itemOpen := true }
  | .hr => s.flushBlock.appendBlock (mark (.opened .rule) (lit "---"))
  | .table => s.openTable
  | .tr => { s with rowCells := [] }
  | .td | .th => { s with inCell := true, cell := [] }
  | .br => s.putInline (lit "  \n")
  | .strong | .b => s.putInline (lit "**")
  | .em | .i => s.putInline (lit "*")
  | .code => s.openCode e
  | .a => s.openAnchor
  | .img => s.putImage e
  | _ => s

/-- A start tag: what is skipped first, then what opens something. -/
def startElement (e : Element) : Filter :=
  if s.skipping then s.startSkipped x e
  else if s.inInlineCode then s
  else if e.isHardStrip then { s with hardSkipDepth := s.hardSkipDepth + 1 }
  else if x.stripSoftChrome ∧ e.isSoftStripKeyword ∧
      ¬ (s.articleDepth > 0 ∧ (e.tag = .header ∨ e.tag = .footer)) then
    { s with softSkipDepth := s.softSkipDepth + 1 }
  else
    let s := s.openScopes e
    if e.tag = .time then s.startTime e
    else if s.outsideContentRoot x then s
    else if s.inAnchorBlock ∧ (e.isBlockKeyword ∨ e.tag = .summary) then s.anchorBlockJoin
    else if e.tag = .summary then s.openHeading 3
    else if s.inListItemBlock ∧ e.isListItemFoldKeyword then s.listItemBlockJoin
    else s.startTag e

/-! ## End of an element -/

/-- An end tag within an element that is left out. -/
def endSkipped (e : Element) : Filter :=
  if e.isHardStrip then { s with hardSkipDepth := s.hardSkipDepth - 1 }
  else if e.tag = .time then { s with timeDepth := s.timeDepth - 1 }
  else if x.stripSoftChrome ∧ e.isSoftStripKeyword then
    { s with softSkipDepth := s.softSkipDepth - 1 }
  else s

/-- The span is fenced by more backticks than it has in a row. -/
def closeCode : Filter :=
  let code := bytesOf s.codeBuf
  let fence := mark .inline (List.replicate (longestBacktickRun code + 1) (ch '\x60'))
  let pad := if code.head? = some (ch '\x60') ∨ code.getLast? = some (ch '\x60') then
    mark .inline (lit " ") else []
  { s.put (fence ++ pad ++ s.codeBuf ++ pad ++ fence) with codeBuf := [], inInlineCode := false }

/-- The content roots and articles that are still open. -/
def closeScopes (e : Element) : Filter :=
  { s with
    contentRootDepth := if e.isContentRoot then s.contentRootDepth - 1 else s.contentRootDepth
    articleDepth := if e.isArticleRoot then s.articleDepth - 1 else s.articleDepth }

/-- The code between fences that are longer than any run of backticks in it. -/
def closePre : Filter :=
  let body := (s.cur.reverse.dropWhile fun c => c.byte = ch '\n' ∨ c.byte = ch '\r').reverse
  let s := { s with preDepth := s.preDepth - 1, cur := [] }
  let lang := if s.preDepth = 0 then sanitizeFenceLanguage s.preLanguage else []
  let s := if s.preDepth = 0 then { s with preLanguage := [] } else s
  if body = [] then s
  else
    let fence :=
      mark .inline (List.replicate (max 3 (longestBacktickRun (bytesOf body) + 1)) (ch '\x60'))
    s.appendBlock (fence ++ mark .page lang ++ mark .inline (lit "\n") ++
      mark .fenced (bytesOf body) ++ mark .inline (lit "\n") ++ fence)

/-- The cell is put into its row. -/
def closeCell : Filter :=
  { s with inCell := false, rowCells := s.rowCells ++ [escapeCell (trim s.cell)], cell := [] }

/-- A row as it is written. -/
def tableRow (cells : List Text) : Text :=
  mark (.opened .table) (lit "|") ++
    cells.flatMap fun c => mark (.opened .table) (lit " ") ++ c ++ mark (.opened .table) (lit " |")

/-- The row goes into the table, the first with the line below it. -/
def closeRow : Filter :=
  if s.inTable = false then s
  else if s.table.length < kMaxMarkdownBytes then
    let table := s.table ++ tableRow s.rowCells ++ mark .inline (lit "\n")
    let table :=
      if s.tableHeaderDone then table
      else table ++ tableRow (s.rowCells.map fun _ => mark .inline (lit "---")) ++
        mark .inline (lit "\n")
    { s with table, tableHeaderDone := true, rowCells := [] }
  else { s with truncated := true, rowCells := [] }

/-- The table goes out as a block. -/
def closeTable : Filter :=
  let t := trim s.table
  let s := { s with inTable := false, table := [] }
  if t = [] then s else s.appendBlock t

/-- The end of the text of a link, and its URL. -/
def closeAnchor (e : Element) : Filter :=
  if s.preDepth = 0 then
    ({ s with anchorDepth := s.anchorDepth - 1 } : Filter).put
      (mark .inline (lit "](") ++ mark .page (sanitizeUrl (e.href.getD [])) ++
        mark .inline (lit ")"))
  else s

/-- The switch over the keyword. -/
def endTag (e : Element) : Filter :=
  match e.tag with
  | .h1 | .h2 | .h3 | .h4 | .h5 | .h6 => { s.flushBlock with headingLevel := 0 }
  | .p | .div | .section | .article | .main | .aside | .address | .dl | .dd => s.flushBlock
  | .dt => { s.flushBlock with inDt := false }
  | .blockquote => { s.flushBlock with blockquoteDepth := s.blockquoteDepth - 1 }
  | .pre => s.closePre
  | .li => { s.flushBlock with itemOpen := false }
  | .ul | .ol => { s.flushBlock with lists := s.flushBlock.lists.tail }
  | .td | .th => s.closeCell
  | .tr => s.closeRow
  | .table => s.closeTable
  | .strong | .b => s.putInline (lit "**")
  | .em | .i => s.putInline (lit "*")
  | .a => s.closeAnchor e
  | _ => s

/-- An end tag, the counterpart of `startElement`. -/
def endElement (e : Element) : Filter :=
  if s.skipping then s.endSkipped x e
  else if s.inInlineCode then if e.tag = .code ∧ s.preDepth = 0 then s.closeCode else s
  else if s.outsideContentRoot x then s.closeScopes e
  else if s.inAnchorBlock ∧ (e.isBlockKeyword ∨ e.tag = .summary) then s.closeScopes e
  else if e.tag = .summary then { s.flushBlock with headingLevel := 0 }
  else if s.inListItemBlock ∧ e.isListItemFoldKeyword then s.closeScopes e
  else (s.endTag e).closeScopes e

/-! ## Characters, and the end of the document -/

/-- A span is a single line. -/
def foldLines (s : Bytes) : Bytes := s.map fun c => if c = ch '\n' ∨ c = ch '\r' then ch ' ' else c

/-- Text between the tags. -/
def characters (contents : Bytes) : Filter :=
  if s.skipping then s
  else if s.atOutputCap then { s with truncated := true }
  else if s.outsideContentRoot x then s
  else if s.inInlineCode then
    if s.codeBuf.length ≥ kMaxMarkdownBytes then { s with truncated := true }
    else
      let t := foldLines (x.decode contents)
      let room := kMaxMarkdownBytes - s.codeBuf.length
      let s := { s with codeBuf := s.codeBuf ++ mark .page (t.take room) }
      if t.length > room then { s with truncated := true } else s
  else s.appendText x contents

end Filter

/-- The characters that make a plain value start as something else. -/
def isYamlIndicator (c : UInt8) : Bool := c ∈ lit " -?:,[]\x7b\x7d#&*!|>%@\x60\"'"

/-- A hazard within a plain value: behind `prev`, the next character. -/
def yamlHazard (prev : Option UInt8) : Bytes → Bool
  | [] => false
  | c :: rest =>
    (c = ch '"' || c = ch '\'' || c = ch '\\' || (c = ch ':' && (rest.head?.all (· = ch ' '))) ||
      (c = ch '#' && prev = some (ch ' '))) || yamlHazard (some c) rest

/-- A value of the front matter, quoted unless it is plain. -/
def yamlScalar (v : Bytes) : Text :=
  let flat := Filter.foldLines v
  if flat = [] ∨ yamlHazard none flat ∨ flat.head?.any isYamlIndicator then
    mark .inline (lit "\"") ++
      flat.flatMap (fun c => if c = ch '"' ∨ c = ch '\\' then [⟨ch '\\', .inline⟩, ⟨c, .page⟩]
        else [⟨c, .page⟩]) ++ mark .inline (lit "\"")
  else mark .page flat

/-- A line of the front matter, if there is a value. -/
def frontMatterLine (key : String) (value : Bytes) : Text :=
  if value = [] then [] else mark (.opened .frontMatter) (lit key) ++ yamlScalar value ++
    mark .inline (lit "\n")

/-- The front matter: the values that there are, between two rules. -/
def frontMatter (x : Config) (fmDate : Bytes) : Text :=
  mark (.opened .frontMatter) (lit "---\n") ++ frontMatterLine "title: " x.fmTitle ++
    frontMatterLine "description: " x.fmDescription ++ frontMatterLine "date: " fmDate ++
    frontMatterLine "canonical: " x.fmCanonical ++ mark (.opened .frontMatter) (lit "---\n\n")

/-- The last block, and the front matter if there is any text. -/
def Filter.endDocument (x : Config) (s : Filter) : Filter :=
  let s := s.flushBlock
  let s : Filter := { s with markdown := (s.markdown.reverse.dropWhile (isAsciiWs ·.byte)).reverse }
  if (x.fmTitle = [] ∧ x.fmDescription = [] ∧ x.fmCanonical = []) ∨ s.markdown = [] then s
  else { s with markdown := frontMatter x s.fmDate ++ s.markdown }

/-! ## Pages -/

/-- The nodes that stand next to each other. -/
inductive Forest
  | nil
  | element (e : Element) (children rest : Forest)
  | characters (contents : Bytes) (rest : Forest)
  deriving DecidableEq

/-- An event of the HTML parser. -/
inductive Event
  | startElement (e : Element)
  | endElement (e : Element)
  | characters (contents : Bytes)
  deriving DecidableEq

/-- The events of a parsed page: properly nested. -/
def Forest.events : Forest → List Event
  | .nil => []
  | .element e children rest => .startElement e :: (children.events ++ .endElement e :: rest.events)
  | .characters contents rest => .characters contents :: rest.events

/-- One event. -/
def Filter.step (x : Config) (s : Filter) : Event → Filter
  | .startElement e => s.startElement x e
  | .endElement e => s.endElement x e
  | .characters contents => s.characters x contents

/-- A list of events. -/
def Filter.run (x : Config) (s : Filter) (events : List Event) : Filter :=
  events.foldl (Filter.step x) s

/-- `ContentRootDetector`. -/
def Forest.hasContentRoot : Forest → Bool
  | .nil => false
  | .element e children rest => e.isContentRoot || children.hasContentRoot || rest.hasContentRoot
  | .characters _ rest => rest.hasContentRoot

/-- What one pass over the page makes of it. -/
def extract (x : Config) (page : Forest) : Filter := (({} : Filter).run x page.events).endDocument x

/-- `RunExtractor`. -/
def runExtractor (x : Config) (page : Forest) : Bytes :=
  if x.stripSoftChrome ∧ (extract x page).droppedContentRoot then []
  else bytesOf (extract x page).markdown

/-- `ExtractAgentMarkdown`: a second pass keeps all that the first has dropped. -/
def extractAgentMarkdown (title description canonical : Bytes) (decode : Bytes → Bytes)
    (page : Forest) : Bytes :=
  let x : Config :=
    { stripSoftChrome := true, contentRootOnly := page.hasContentRoot, fmTitle := title,
      fmDescription := description, fmCanonical := canonical, decode }
  let md := runExtractor x page
  if md ≠ [] then md
  else runExtractor { x with stripSoftChrome := false, contentRootOnly := false } page

end PageSpeed.Markdown
