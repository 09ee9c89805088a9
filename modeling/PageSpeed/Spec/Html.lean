import PageSpeed.Choice.First
import PageSpeed.Spec.AgentFetcher

/-!
# Elements and events of the HTML parser

Names, attributes, elements and the event queue of `lib/html` (`html_name.h`, `html_element.cc`,
`html_event.h`), and what `src/worker/html_scanner.cc` reads off a single element. An attribute's
value is what `DecodedValueOrNull` returns: nothing for an attribute without one.
-/

namespace PageSpeed.Html

open Wire Inet

/-! ## Names -/

/-- `HtmlName::Keyword`, as far as the filters compare it; every other name is `kNotAKeyword`. -/
inductive Keyword
  | kAs | kAsync | kBase | kBody | kCharset | kClass | kContent | kCrossorigin | kDefer | kHead
  | kHeight | kHr | kHref | kHttpEquiv | kId | kIframe | kImg | kLink | kMedia | kMeta | kNoembed
  | kNoframes | kNoscript | kOnload | kOptgroup | kOption | kPicture | kRel | kScript | kSelect
  | kSource | kSrc | kSrcset | kStyle
  | kTemplate | kType | kWidth | kNotAKeyword
  deriving DecidableEq

namespace Keyword

/-- `KeywordToString`. -/
def text : Keyword → Bytes
  | kAs => lit "as"
  | kAsync => lit "async"
  | kBase => lit "base"
  | kBody => lit "body"
  | kCharset => lit "charset"
  | kClass => lit "class"
  | kContent => lit "content"
  | kCrossorigin => lit "crossorigin"
  | kDefer => lit "defer"
  | kHead => lit "head"
  | kHeight => lit "height"
  | kHr => lit "hr"
  | kHref => lit "href"
  | kHttpEquiv => lit "http-equiv"
  | kId => lit "id"
  | kIframe => lit "iframe"
  | kImg => lit "img"
  | kLink => lit "link"
  | kMedia => lit "media"
  | kMeta => lit "meta"
  | kNoembed => lit "noembed"
  | kNoframes => lit "noframes"
  | kNoscript => lit "noscript"
  | kOnload => lit "onload"
  | kOptgroup => lit "optgroup"
  | kOption => lit "option"
  | kPicture => lit "picture"
  | kRel => lit "rel"
  | kScript => lit "script"
  | kSelect => lit "select"
  | kSource => lit "source"
  | kSrc => lit "src"
  | kSrcset => lit "srcset"
  | kStyle => lit "style"
  | kTemplate => lit "template"
  | kType => lit "type"
  | kWidth => lit "width"
  | kNotAKeyword => []

/-- The keywords with a name. -/
def all : List Keyword :=
  [kAs, kAsync, kBase, kBody, kCharset, kClass, kContent, kCrossorigin, kDefer, kHead, kHeight, kHr,
    kHref, kHttpEquiv, kId, kIframe, kImg, kLink, kMedia, kMeta, kNoembed, kNoframes, kNoscript,
    kOnload, kOptgroup, kOption, kPicture, kRel, kScript, kSelect, kSource, kSrc, kSrcset, kStyle,
    kTemplate, kType, kWidth]

/-- `HtmlName::Lookup`: the letter case of the name does not count. -/
def lookup (name : Bytes) : Keyword :=
  (all.find? fun k => stringCaseEqual k.text name).getD kNotAKeyword

end Keyword

/-! ## Attributes -/

/-- An attribute, with the decoded value if it has one. -/
structure Attribute where
  name : Bytes
  value : Option Bytes
  deriving DecidableEq

/-- The keyword of its name. -/
def Attribute.keyword (a : Attribute) : Keyword := Keyword.lookup a.name

/-- The attributes in the order they are written; nothing stops a name from standing there twice. -/
abbrev AttributeList := List Attribute

namespace AttributeList

variable (as : AttributeList)

/-- The first attribute of this keyword. -/
def findKeyword (k : Keyword) : Option Attribute := as.find? (·.keyword = k)

/-- The first attribute of exactly this name. -/
def findName (name : Bytes) : Option Attribute := as.find? (·.name = name)

/-- There is an attribute of this keyword. -/
def hasKeyword (k : Keyword) : Bool := (findKeyword as k).isSome

/-- There is an attribute of this name. -/
def hasName (name : Bytes) : Bool := (findName as name).isSome

/-- `AttributeValue`. -/
def value (k : Keyword) : Option Bytes := (findKeyword as k).bind (·.value)

/-- `DeleteAttribute`: the first of that name goes. -/
def deleteKeyword (k : Keyword) : AttributeList := as.eraseP (·.keyword = k)

/-- The first attribute of this name is taken out. -/
def deleteName (name : Bytes) : AttributeList := as.eraseP (·.name = name)

/-- An attribute put behind the others, also if there is one of its name. -/
def add (name value : Bytes) : AttributeList := as ++ [⟨name, some value⟩]

/-- `SetValue` on the attribute that `FindAttribute` returns. -/
def setValue (k : Keyword) (v : Bytes) : AttributeList :=
  Choice.updateFirst (·.keyword = k) ({ · with value := some v }) as

end AttributeList

/-! ## Elements and events -/

/-- The name of an element as written, and the keyword the parser gave it: an element of SVG or
MathML content has none, and of the others `HtmlName::Lookup` finds the name. -/
structure HtmlName where
  name : Bytes
  keyword : Keyword
  named : keyword = .kNotAKeyword ∨ stringCaseEqual keyword.text name
  deriving DecidableEq

/-- A start tag. -/
structure Element extends HtmlName where
  attributes : AttributeList
  deriving DecidableEq

/-- `NewElement` for a keyword. -/
def newElement (k : Keyword) (attributes : AttributeList) : Element :=
  ⟨⟨k.text, k, .inr (stringCaseEqual_refl k.text)⟩, attributes⟩

/-- How the end of an element came about. -/
inductive CloseStyle
  | autoClose | implicitClose | explicitClose | briefClose | unclosed | invisible
  deriving DecidableEq

/-- The parser's events. The element an end event belongs to is the innermost open one. -/
inductive HtmlEvent
  | startElement (element : Element)
  | endElement (style : CloseStyle)
  | leaf (contents : Bytes)
  deriving DecidableEq

/-- The events of an element the filters make. -/
def elementEvents (element : Element) (children : List HtmlEvent) : List HtmlEvent :=
  HtmlEvent.startElement element :: children ++ [HtmlEvent.endElement .autoClose]

/-! ## What is read off one element -/

/-- The white space of HTML. -/
def isHtmlSpace (c : UInt8) : Bool :=
  c = ch ' ' ∨ c = ch '\t' ∨ c = ch '\n' ∨ c = ch '\r' ∨ c = 0x0C

/-- The space-separated token list has the token, in any letter case. -/
def relHasToken (rel token : Bytes) : Bool :=
  (rel.splitOnP isHtmlSpace).any fun t => t ≠ [] ∧ stringCaseEqual t token

/-- The text without the white space at both ends. -/
def trimHtmlSpace (s : Bytes) : Bytes :=
  ((s.dropWhile isHtmlSpace).reverse.dropWhile isHtmlSpace).reverse

/-- `0` and `1`, zeros in front allowed: the digits so far are worth `parsed`. -/
def tinyDigits (parsed : ℕ) : Bytes → Bool
  | [] => true
  | c :: v =>
    isDigit c && (parsed * 10 + (c.toNat - 48) ≤ 1 && tinyDigits (parsed * 10 + (c.toNat - 48)) v)

/-- A width or height that only a tracking pixel has. -/
def isTinyDimension (a : Option Attribute) : Bool :=
  match a.bind (·.value) with
  | none => false
  | some value => stripAsciiWhitespace value ≠ [] ∧ tinyDigits 0 (stripAsciiWhitespace value)

/-- The inline style without blanks, in lower case. -/
def normalizedStyle (style : Bytes) : Bytes :=
  (style.filter fun c => ¬ (c = ch ' ' ∨ c = ch '\t' ∨ c = ch '\n' ∨ c = ch '\r')).map lowerChar

/-- `IsInvisibleElement`, which is also `IsUnlikelyLcpImage`. -/
def isInvisibleElement (as : AttributeList) : Bool :=
  isTinyDimension (as.findKeyword .kWidth) || isTinyDimension (as.findKeyword .kHeight) ||
    as.hasName (lit "hidden") ||
    match as.value .kStyle with
    | none => false
    | some style =>
      (find (lit "display:none") (normalizedStyle style)).isSome ||
        (find (lit "visibility:hidden") (normalizedStyle style)).isSome

/-- An attribute from which a script loads the image later. -/
def isLazySourceName (name : Bytes) : Bool :=
  name.length > 5 ∧ startsWithIgnoreCase name (lit "data-") ∧
    ((find (lit "src") name).isSome ∨ stringCaseEqual name (lit "data-original") ∨
      stringCaseEqual name (lit "data-lazy"))

/-- The image is loaded by a script. -/
def hasLazySourceAttribute (as : AttributeList) : Bool := as.any fun a => isLazySourceName a.name

/-- The file name of a URL without its extension. -/
def fileStem (src : Bytes) : Bytes :=
  let path := src.takeWhile fun c => ¬ (c = ch '?' ∨ c = ch '#')
  let file := (path.reverse.takeWhile (· ≠ ch '/')).reverse
  let ext := (file.reverse.takeWhile (· ≠ ch '.')).length
  if ext + 1 < file.length then file.take (file.length - ext - 1) else file

/-- Words in the file name of an image that stands in for another. -/
def kStandInNames : List Bytes :=
  [lit "blank", lit "placeholder", lit "pixel", lit "spacer", lit "transparent",
    lit "loading", lit "lazy", lit "1x1"]

/-- A number, or two numbers with an `x` between them. -/
def isSizeToken (token : Bytes) : Bool :=
  match token.splitOn (ch 'x') with
  | [n] => n ≠ [] ∧ n.all isDigit
  | [n, m] => n ≠ [] ∧ n.all isDigit ∧ m ≠ [] ∧ m.all isDigit
  | _ => false

/-- One of these words, possibly numbered. -/
def isStandInWord (token : Bytes) : Bool :=
  kStandInNames.any fun name => token = name ∨ (token.reverse.dropWhile isDigit).reverse = name

/-- `IsLazyStandInSrc`: every word of the file name is a stand-in's or a size, and one is a
stand-in's. -/
def isLazyStandInSrc (src : Bytes) : Bool :=
  let stem := toLowerAscii (fileStem src)
  let tokens := (stem.splitOnP fun c => c = ch '-' ∨ c = ch '_' ∨ c = ch '.').filter (· ≠ [])
  tokens.all (fun t => isStandInWord t || isSizeToken t) && tokens.any isStandInWord

end PageSpeed.Html
