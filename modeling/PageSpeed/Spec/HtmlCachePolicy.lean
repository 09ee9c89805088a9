import PageSpeed.Wire.Window
import PageSpeed.Spec.HeadersSidecar

/-!
# Which pages the cache stores and serves

`lib/cache/origin_cache_control.cc` and `lib/cache/html_cache_policy.cc`: the rules that decide from
a request, a response and a policy whether a page is stored, and later whether it is served. A
machine integer is a number here; where the source saturates or wraps, so does the model.
-/

namespace PageSpeed.Cache

open Wire

/-! ## Cache-Control -/

/-- The bits of `cc_flags`: `no-cache`. -/
def kCCOriginNoCache : UInt16 := 0x0001

/-- `must-revalidate`. -/
def kCCOriginMustRevalidate : UInt16 := 0x0002

/-- `no-store`. -/
def kCCOriginNoStore : UInt16 := 0x0004

/-- `private`, in whichever form. -/
def kCCOriginPrivate : UInt16 := 0x0008

/-- `public`. -/
def kCCOriginPublic : UInt16 := 0x0010

/-- `immutable`. -/
def kCCOriginImmutable : UInt16 := 0x0020

/-- `s-maxage`, whatever its value. -/
def kCCOriginSMaxagePresent : UInt16 := 0x0040

/-- `proxy-revalidate`. -/
def kCCOriginProxyRevalidate : UInt16 := 0x0080

/-- `no-transform`. -/
def kCCOriginNoTransform : UInt16 := 0x0100

/-- There is a `Cache-Control` header. -/
def kCCOriginHeaderPresent : UInt16 := 0x0200

/-- `private` with an argument. -/
def kCCOriginPrivateQualified : UInt16 := 0x0400

/-- `private` without one. -/
def kCCOriginPrivateBare : UInt16 := 0x0800

/-- `no-cache` with an argument. -/
def kCCOriginNoCacheQualified : UInt16 := 0x1000

/-- `no-cache` without one. -/
def kCCOriginNoCacheBare : UInt16 := 0x2000

/-- What is kept of the `Cache-Control` of the origin. -/
structure OriginCacheControl where
  ccFlags : UInt16 := 0
  maxAge : ℕ := 0
  sMaxage : ℕ := 0
  deriving DecidableEq

/-- The largest number of seconds. -/
def kUint32Max : ℕ := 2 ^ 32 - 1

/-- A decimal digit. -/
def isDigit (c : UInt8) : Bool := ch '0' ≤ c ∧ c ≤ ch '9'

/-- The loop over the digits. It saturates at once, whatever follows. -/
def secondsFrom (result : ℕ) : Bytes → ℕ
  | [] => result
  | c :: rest =>
    if isDigit c = false then 0
    else if result * 10 + (c.toNat - 48) > kUint32Max then kUint32Max
    else secondsFrom (result * 10 + (c.toNat - 48)) rest

/-- A lifetime, possibly quoted; 0 for what is no number. -/
def parseCacheControlSeconds (val : Bytes) : ℕ :=
  let val := trimOws val
  let val := if val.head? = some (ch '"') then val.tail else val
  let val := if val.getLast? = some (ch '"') then val.dropLast else val
  let val := trimOws val
  if val = [] then 0 else secondsFrom 0 val

/-- The directives that set a flag by their name. -/
def kCCDirectives : List (Bytes × UInt16) :=
  [(lit "no-cache", kCCOriginNoCache), (lit "must-revalidate", kCCOriginMustRevalidate),
    (lit "proxy-revalidate", kCCOriginProxyRevalidate), (lit "no-store", kCCOriginNoStore),
    (lit "private", kCCOriginPrivate), (lit "public", kCCOriginPublic),
    (lit "immutable", kCCOriginImmutable), (lit "no-transform", kCCOriginNoTransform)]

/-- The form of an occurrence, for the two directives that have one. -/
def formFlag (flag : UInt16) (hasArgument : Bool) : UInt16 :=
  if flag = kCCOriginPrivate then if hasArgument then kCCOriginPrivateQualified
  else kCCOriginPrivateBare
  else if flag = kCCOriginNoCache then if hasArgument then kCCOriginNoCacheQualified
  else kCCOriginNoCacheBare
  else 0

/-- One directive. -/
def accumulateToken (out : OriginCacheControl) (token : Bytes) : OriginCacheControl :=
  let token := trimOws token
  if token = [] then out
  else
    let hasArgument := ch '=' ∈ token
    let name := if hasArgument then trimOws (token.takeWhile (· ≠ ch '=')) else token
    let value := if hasArgument then (token.dropWhile (· ≠ ch '=')).tail else []
    match kCCDirectives.find? (asciiEqualsIgnoreCase name ·.1) with
    | some d => { out with ccFlags := out.ccFlags ||| d.2 ||| formFlag d.2 hasArgument }
    | none =>
      if asciiEqualsIgnoreCase name (lit "max-age") then
        { out with maxAge := parseCacheControlSeconds value }
      else if asciiEqualsIgnoreCase name (lit "s-maxage") then
        { out with
          sMaxage := parseCacheControlSeconds value
          ccFlags := out.ccFlags ||| kCCOriginSMaxagePresent }
      else out

/-- One header line, split at every comma. -/
def accumulateOriginCacheControl (out : OriginCacheControl) (headerValue : Bytes) :
    OriginCacheControl :=
  (commaTokens headerValue).foldl accumulateToken
    { out with ccFlags := out.ccFlags ||| kCCOriginHeaderPresent }

/-! ## Lookups -/

/-- The first line of this name. -/
def findHeader (headers : List HeaderField) (name : Bytes) : Option HeaderField :=
  headers.find? (asciiEqualsIgnoreCase ·.name name)

/-- The number of lines of this name. -/
def countHeader (headers : List HeaderField) (name : Bytes) : ℕ :=
  headers.countP (asciiEqualsIgnoreCase ·.name name)

/-- The values of the lines of one name. -/
def linesOf (headers : List HeaderField) (name : Bytes) : List Bytes :=
  (headers.filter (asciiEqualsIgnoreCase ·.name name)).map (·.value)

/-- A number modulo `2 ^ 32`, if there are only digits; none at all are zero. -/
def parseDigits (s : Bytes) : Option ℕ :=
  if s.all isDigit then some (s.foldl (fun v c => (v * 10 + (c.toNat - 48)) % 2 ^ 32) 0) else none

/-- The number of directives of this name on a line. -/
def countDirective (line name : Bytes) : ℕ :=
  (commaTokens line).countP fun token =>
    asciiEqualsIgnoreCase (trimOws (token.takeWhile (· ≠ ch '='))) name

/-- An `s-maxage` that is a number. -/
def hasValidSMaxage (line : Bytes) : Bool :=
  (commaTokens line).any fun token =>
    let value := trimOws (token.dropWhile (· ≠ ch '=')).tail
    ch '=' ∈ token ∧ asciiEqualsIgnoreCase (trimOws (token.takeWhile (· ≠ ch '=')))
      (lit "s-maxage") ∧ value ≠ [] ∧ (parseDigits value).isSome

/-! ## Dates -/

/-- Days from the epoch to a date of the Gregorian calendar. -/
def daysFromCivil (y : ℤ) (m d : ℕ) : ℤ :=
  let y := if m ≤ 2 then y - 1 else y
  let era := (if y ≥ 0 then y else y - 399).tdiv 400
  let yoe := (y - era * 400).toNat
  let doy := (153 * (if m > 2 then m - 3 else m + 9) + 2) / 5 + d - 1
  let doe := yoe * 365 + yoe / 4 - yoe / 100 + doy
  era * 146097 + doe - 719468

/-- A leap year. -/
def isLeap (y : ℤ) : Bool := (y.tmod 4 = 0 ∧ y.tmod 100 ≠ 0) ∨ y.tmod 400 = 0

/-- The length of a month. -/
def daysInMonth (y : ℤ) (m : ℕ) : ℕ :=
  if m = 2 ∧ isLeap y then 29 else [31, 28, 31, 30, 31, 30, 31, 31, 30, 31, 30, 31].getD (m - 1) 0

/-- The year of a day. -/
def yearFromDays (days : ℤ) : ℤ :=
  let days := days + 719468
  let era := (if days ≥ 0 then days else days - 146096).tdiv 146097
  let doe := (days - era * 146097).toNat
  let yoe := (doe - doe / 1460 + doe / 36524 - doe / 146096) / 365
  let doy := doe - (365 * yoe + yoe / 4 - yoe / 100)
  let mp := (5 * doy + 2) / 153
  let month := if mp < 10 then mp + 3 else mp - 9
  yoe + era * 400 + if month ≤ 2 then 1 else 0

/-- The year of these last two digits that is not more than 50 years ahead. -/
def resolveTwoDigitYear (yy nowSeconds : ℕ) : ℤ :=
  let nowYear := yearFromDays (nowSeconds / 86400 : ℕ)
  let year := nowYear - nowYear.tmod 100 + yy
  if year > nowYear + 50 then year - 100 else if year + 100 ≤ nowYear + 50 then year + 100 else year

/-- The days in the current format of a date and in `asctime`. -/
def kShortDays : List Bytes := ["Sun", "Mon", "Tue", "Wed", "Thu", "Fri", "Sat"].map lit

/-- The days in the obsolete format. -/
def kLongDays : List Bytes :=
  ["Sunday", "Monday", "Tuesday", "Wednesday", "Thursday", "Friday", "Saturday"].map lit

/-- The months in every format. -/
def kMonths : List Bytes :=
  ["Jan", "Feb", "Mar", "Apr", "May", "Jun", "Jul", "Aug", "Sep", "Oct", "Nov", "Dec"].map lit

/-- A date in one of its three shapes, taken apart. -/
structure DateParts where
  weekday : Option ℕ
  day : Bytes
  month : Bytes
  year : ℤ
  time : Bytes

/-- The bytes stand at these positions. -/
def hasAt (s : Bytes) (marks : List (ℕ × Char)) : Bool := marks.all fun m => s.getD m.1 0 = ch m.2

/-- The parts of a date, in one of the three formats. -/
def dateParts (value : Bytes) (nowSeconds : ℕ) : Option DateParts :=
  if value.length = 29 ∧ value.getD 3 0 = ch ',' then
    if hasAt value [(4, ' '), (7, ' '), (11, ' '), (16, ' '), (25, ' ')] ∧
        value.drop 26 = lit "GMT" then do
      let year ← parseDigits (slice value 12 4)
      some ⟨kShortDays.idxOf? (value.take 3), slice value 5 2, slice value 8 3, year,
        slice value 17 8⟩
    else none
  else if value.length = 24 ∧ value.getD 3 0 = ch ' ' then
    if hasAt value [(7, ' '), (10, ' '), (19, ' ')] then do
      let day := slice value 8 2
      let year ← parseDigits (slice value 20 4)
      some ⟨kShortDays.idxOf? (value.take 3), if day.head? = some (ch ' ') then day.tail else day,
        slice value 4 3, year, slice value 11 8⟩
    else none
  else if ch ',' ∈ value then
    let rest := (value.dropWhile (· ≠ ch ',')).tail
    if rest.length = 23 ∧ hasAt rest [(0, ' '), (3, '-'), (7, '-'), (10, ' '), (19, ' ')] ∧
        rest.drop 20 = lit "GMT" then do
      let year ← parseDigits (slice rest 8 2)
      some ⟨kLongDays.idxOf? (value.takeWhile (· ≠ ch ',')), slice rest 1 2, slice rest 4 3,
        resolveTwoDigitYear year nowSeconds, slice rest 11 8⟩
    else none
  else none

/-- A date in seconds, if there is such a day, on that weekday, and such a time. -/
def parseHttpDateSeconds (value : Bytes) (nowSeconds : ℕ) : Option ℤ := do
  let p ← dateParts (trimOws value) nowSeconds
  let weekday ← p.weekday
  let monthIndex ← kMonths.idxOf? p.month
  let month := monthIndex + 1
  if p.day = [] ∨ hasAt p.time [(2, ':'), (5, ':')] = false then none
  else do
    let day ← parseDigits p.day
    let hour ← parseDigits (slice p.time 0 2)
    let minute ← parseDigits (slice p.time 3 2)
    let second ← parseDigits (slice p.time 6 2)
    if day < 1 ∨ day > daysInMonth p.year month then none
    else if hour > 23 ∨ minute > 59 ∨ second > 59 then none
    else
      let days := daysFromCivil p.year month day
      if (days.tmod 7 + 7 + 4).tmod 7 ≠ weekday then none
      else some (days * 86400 + hour * 3600 + minute * 60 + second)

/-- A number of seconds cut to 32 bits. -/
def saturateU32 (v : ℤ) : ℕ := if v ≤ 0 then 0 else if v > kUint32Max then kUint32Max else v.toNat

/-! ## Personalisation -/

/-- A tag that is longer counts as a sign itself. -/
def kMaxTagBytes : ℕ := 4096

/-- The part of a page that is looked at. -/
def kPersonalisationScanBytes : ℕ := 64 * 1024

/-- The white space of HTML. -/
def isAsciiSpace (c : UInt8) : Bool :=
  c = ch ' ' ∨ c = ch '\t' ∨ c = ch '\n' ∨ c = ch '\r' ∨ c = 0x0C

/-- A prefix up to case. -/
def startsWithIgnoreCase (s word : Bytes) : Bool :=
  s.length ≥ word.length ∧ asciiEqualsIgnoreCase (s.take word.length) word

/-- A part up to case. -/
def containsIgnoreCase (haystack needle : Bytes) : Bool :=
  needle = [] ∨ haystack.tails.any (asciiEqualsIgnoreCase needle <| ·.take needle.length)

/-- How much of the text there is up to the `>` that closes the tag. -/
def tagLength (quote : Option UInt8) : Bytes → Option ℕ
  | [] => none
  | c :: rest =>
    (match quote with
      | some q => tagLength (if c = q then none else some q) rest
      | none =>
        if c = ch '>' then some 0
        else tagLength (if c = ch '"' ∨ c = ch '\'' then some c else none) rest).map (· + 1)

/-- The text of the tag at the front of the body, and whether it is not closed. -/
def tagText (body : Bytes) : Bytes × Bool :=
  match tagLength none (body.take kMaxTagBytes).tail with
  | some n => (body.take (n + 1), false)
  | none => (body.take kMaxTagBytes, true)

/-- The value behind an attribute name, and what follows it. -/
def attributeValue (s : Bytes) : Bytes × Bytes :=
  let s := s.dropWhile isAsciiSpace
  match s with
  | c :: rest =>
    if c = ch '=' then
      let rest := rest.dropWhile isAsciiSpace
      match rest with
      | q :: rest' =>
        if q = ch '"' ∨ q = ch '\'' then (rest'.takeWhile (· ≠ q), (rest'.dropWhile (· ≠ q)).tail)
        else
          let ends := fun c => isAsciiSpace c ∨ c = ch '>'
          (rest.takeWhile (fun c => ¬ ends c), rest.dropWhile (fun c => ¬ ends c))
      | [] => ([], [])
    else ([], s)
  | [] => ([], [])

/-- At most `n` attributes are looked at. -/
def findAttributeUpTo : ℕ → Bytes → Bytes → Option Bytes
  | 0, _, _ => none
  | n + 1, tag, name =>
    let tag := tag.dropWhile fun c => isAsciiSpace c ∨ c = ch '/'
    if tag = [] ∨ tag.head? = some (ch '>') then none
    else
      let ends := fun c => isAsciiSpace c ∨ c = ch '=' ∨ c = ch '>' ∨ c = ch '/'
      let attr := tag.takeWhile fun c => ¬ ends c
      let (value, rest) := attributeValue (tag.dropWhile fun c => ¬ ends c)
      if attr ≠ [] ∧ asciiEqualsIgnoreCase attr name then some value
      else findAttributeUpTo n rest name

/-- Every attribute takes a byte of the tag. -/
def findAttribute (tag : Bytes) (tagNameLen : ℕ) (name : Bytes) : Option Bytes :=
  findAttributeUpTo tag.length (tag.drop tagNameLen) name

/-- The tag has this name, and not only one that starts with it. -/
def isTagNamed (tag name : Bytes) : Bool :=
  startsWithIgnoreCase tag name ∧
    (tag.drop name.length).head?.all fun c => isAsciiSpace c ∨ c = ch '/' ∨ c = ch '>'

/-- A `meta` tag with a token against forgery. -/
def metaSignal (tag : Bytes) : Option Bytes := do
  let name ← findAttribute tag 5 (lit "name")
  if asciiEqualsIgnoreCase name (lit "csrf-token") ∨ asciiEqualsIgnoreCase name (lit "_csrf") then
    some (lit "meta_csrf_token")
  else if asciiEqualsIgnoreCase name (lit "csrf-param") ∨
      asciiEqualsIgnoreCase name (lit "_csrf_header") then
    some (lit "meta_csrf_param")
  else none

/-- A hidden input with such a token. -/
def inputSignal (tag : Bytes) : Option Bytes := do
  let type ← findAttribute tag 6 (lit "type")
  if asciiEqualsIgnoreCase type (lit "hidden") = false then none
  else do
    let name ← findAttribute tag 6 (lit "name")
    if asciiEqualsIgnoreCase name (lit "csrfmiddlewaretoken") then
      some (lit "hidden_csrfmiddlewaretoken")
    else if asciiEqualsIgnoreCase name (lit "_token") then some (lit "hidden_token")
    else if asciiEqualsIgnoreCase name (lit "_wpnonce") then some (lit "hidden_wpnonce")
    else if startsWithIgnoreCase name (lit "csrf") ∨ startsWithIgnoreCase name (lit "_csrf") then
      some (lit "hidden_csrf")
    else if asciiEqualsIgnoreCase name (lit "authenticity_token") then
      some (lit "hidden_authenticity")
    else if asciiEqualsIgnoreCase name (lit "__RequestVerificationToken") then
      some (lit "hidden_request_verification")
    else none

/-- A form that signs a user in, or pays. -/
def formSignal (tag : Bytes) : Option Bytes := do
  let method ← findAttribute tag 5 (lit "method")
  if asciiEqualsIgnoreCase method (lit "post") = false then none
  else do
    let action ← findAttribute tag 5 (lit "action")
    if containsIgnoreCase action (lit "login") ∨ containsIgnoreCase action (lit "signin") then
      some (lit "post_form_login")
    else if containsIgnoreCase action (lit "checkout") ∨ containsIgnoreCase action (lit "cart") then
      some (lit "post_form_checkout")
    else none

/-- The sign in a tag that the page was made for one user. -/
def signalForTag (tag : Bytes) : Option Bytes :=
  if isTagNamed tag (lit "<meta") then metaSignal tag
  else if isTagNamed tag (lit "<input") then inputSignal tag
  else if isTagNamed tag (lit "<form") then formSignal tag
  else none

/-- At most `n` tags are looked at. -/
def scanUpTo : ℕ → Bytes → Bool → Option Bytes
  | 0, _, _ => none
  | n + 1, body, bodyContinues =>
    let rest := body.dropWhile (· ≠ ch '<')
    if rest = [] then none
    else if isTagNamed rest (lit "<meta") = false ∧ isTagNamed rest (lit "<input") = false ∧
        isTagNamed rest (lit "<form") = false then scanUpTo n rest.tail bodyContinues
    else
      let (tag, unclosed) := tagText rest
      if unclosed ∧ (tag.length = kMaxTagBytes ∨ bodyContinues) then some (lit "oversized_tag")
      else
        match signalForTag tag with
        | some signal => some signal
        | none => scanUpTo n (rest.drop tag.length) bodyContinues

/-- The first such sign in the part of the page that is looked at. -/
def scanForSignal (bodyPrefix : Bytes) (bodyContinues : Bool) : Option Bytes :=
  let window := bodyPrefix.take kPersonalisationScanBytes
  scanUpTo (window.length + 1) window
    (bodyContinues || bodyPrefix.length > kPersonalisationScanBytes)

/-! ## Verdicts -/

/-- How much of the HTML cache is on. -/
inductive HtmlCacheMode
  | off
  | reportOnly
  | serveVariants
  | serveCachedHtml
  deriving DecidableEq

/-- What is done with a page; in report-only mode, what would be. -/
inductive HtmlStoreAction
  | refuse
  | store
  | storeNoNotify
  | wouldStore
  | wouldStoreNoNotify
  deriving DecidableEq

/-- Why a page is not stored, or not announced. -/
inductive HtmlStoreReason
  | none
  | method
  | status
  | incomplete
  | authRequest
  | cookieRequest
  | setCookie
  | «private»
  | noStore
  | noLifetime
  | vary
  | headers
  | nonceCsp
  | nonceLink
  | contentType
  | encoding
  | size
  | url
  | personalisationSignal
  | noTransform
  | mode
  deriving DecidableEq

/-- What the store rules read of the request. -/
structure HtmlStoreRequest where
  method : Bytes
  urlPath : Bytes
  hasAuthorization : Bool := false
  authenticatedUser : Bool := false
  hasCookie : Bool := false
  requestNoStore : Bool := false

/-- What they read of the response. -/
structure HtmlStoreResponse where
  status : ℤ := 0
  headers : List HeaderField
  bodyBytes : ℕ := 0
  bodyComplete : Bool := true
  bodyPrefix : Bytes := []

/-- What they read of the configuration. -/
structure HtmlStorePolicy where
  mode : HtmlCacheMode := .off
  maxBodyBytes : ℕ := 5 * 1024 * 1024
  nowSeconds : ℕ := 0

/-- Their verdict, with what is stored along with the page. -/
structure HtmlStoreVerdict where
  action : HtmlStoreAction := .refuse
  reason : HtmlStoreReason := .none
  detail : Bytes := []
  lifetimeS : ℕ := 0
  lifetimeExplicit : Bool := false
  needsValidation : Bool := false
  hasValidators : Bool := false
  explicitShared : Bool := false
  ccFlags : UInt16 := 0
  varyTokens : List Bytes := []
  sidecarEvaluated : Bool := false
  ccEvaluated : Bool := false
  sidecar : SidecarClassification := {}
  deriving DecidableEq

/-- The longest detail of a reason. -/
def kMaxHtmlStoreDetailBytes : ℕ := 128

/-- The largest page under any configuration. -/
def kHtmlStoreHardMaxBodyBytes : ℕ := 16 * 1024 * 1024

/-- The page is not stored, for this reason. -/
def HtmlStoreVerdict.refuse (v : HtmlStoreVerdict) (reason : HtmlStoreReason) (detail : Bytes) :
    HtmlStoreVerdict :=
  { v with action := .refuse, reason, detail }

/-- A detail that can stand in a header. -/
def sanitizeDetail (s : Bytes) : Bytes :=
  (s.take kMaxHtmlStoreDetailBytes).map fun c => if isTokenChar c then c else ch '_'

/-- The first reason of the classification of the headers. -/
def sidecarDetail (sidecar : SidecarClassification) : Bytes :=
  match sidecar.reasons with
  | [] => []
  | reason :: _ =>
    if reason = lit "sidecar-too-large" then lit "sidecar-too-large"
    else if ch ':' ∉ reason then sanitizeDetail reason
    else if reason.takeWhile (· ≠ ch ':') = lit "vary-unstorable" then lit "vary"
    else sanitizeDetail (reason.dropWhile (· ≠ ch ':')).tail

/-! ## The store rules -/

/-- The rules 12 to 14: size, personalisation signals, no-transform. -/
def bodyRules (response : HtmlStoreResponse) (policy : HtmlStorePolicy) (v : HtmlStoreVerdict) :
    HtmlStoreVerdict :=
  if response.bodyBytes > min policy.maxBodyBytes kHtmlStoreHardMaxBodyBytes then v.refuse .size []
  else if response.bodyPrefix.length < min response.bodyBytes kPersonalisationScanBytes then
    v.refuse .incomplete (lit "body_prefix")
  else
    match scanForSignal response.bodyPrefix (response.bodyBytes > kPersonalisationScanBytes) with
    | some signal => v.refuse .personalisationSignal signal
    | none =>
      if v.ccFlags &&& kCCOriginNoTransform ≠ 0 then
        { v with action := .storeNoNotify, reason := .noTransform }
      else { v with action := .store, reason := .none }

/-- The lifetime of `Expires`, from `Date` or from the receipt. -/
def expiresLifetime (headers : List HeaderField) (nowSeconds : ℕ) (expires : HeaderField) : ℕ :=
  let date : ℤ :=
    if countHeader headers (lit "date") = 1 then
      ((findHeader headers (lit "date")).bind fun h =>
        parseHttpDateSeconds h.value nowSeconds).getD nowSeconds
    else nowSeconds
  let parsed :=
    if countHeader headers (lit "expires") = 1 then
      parseHttpDateSeconds expires.value nowSeconds else none
  match parsed with
  | some p => saturateU32 (p - date)
  | none => 0

/-- A non-empty validator. -/
def isValidator (h : HeaderField) : Bool :=
  (asciiEqualsIgnoreCase h.name (lit "etag") ∨ asciiEqualsIgnoreCase h.name (lit "last-modified")) ∧
    trimOws h.value ≠ []

/-- Rule 11: explicit freshness. -/
def freshnessRules (response : HtmlStoreResponse) (policy : HtmlStorePolicy)
    (cc : OriginCacheControl)
    (maxAgeCount sMaxageCount : ℕ) (v : HtmlStoreVerdict) : HtmlStoreVerdict :=
  let headers := response.headers
  let noCache := cc.ccFlags &&& kCCOriginNoCache ≠ 0
  let v :=
    if cc.ccFlags &&& kCCOriginSMaxagePresent ≠ 0 then
      { v with lifetimeS := cc.sMaxage, lifetimeExplicit := true }
    else if maxAgeCount > 0 then { v with lifetimeS := cc.maxAge, lifetimeExplicit := true }
    else
      match findHeader headers (lit "expires") with
      | some expires =>
        { v with
          lifetimeS := expiresLifetime headers policy.nowSeconds expires, lifetimeExplicit := true }
      | none => v
  let conflicting : Bool := maxAgeCount > 1 ∨ sMaxageCount > 1
  let v := if conflicting then { v with lifetimeS := 0 } else v
  let v := { v with needsValidation := v.lifetimeS = 0 ∨ noCache ∨ conflicting }
  let v := if headers.any isValidator then { v with hasValidators := true } else v
  if (v.lifetimeExplicit = false ∧ v.hasValidators = false) ∨
      (v.needsValidation ∧ v.hasValidators = false) then
    v.refuse .noLifetime []
  else bodyRules response policy v

/-- Rule 10: header reproducibility. -/
def sidecarRules (response : HtmlStoreResponse) (policy : HtmlStorePolicy) (cc : OriginCacheControl)
    (maxAgeCount sMaxageCount : ℕ) (v : HtmlStoreVerdict) : HtmlStoreVerdict :=
  let sidecar := classifyForHeadersSidecar response.headers
  let v := { v with sidecar, sidecarEvaluated := true }
  match sidecar.verdict with
  | .neverOptimized =>
    v.refuse (if lit "nonce-csp" ∈ sidecar.reasons then .nonceCsp else .nonceLink) []
  | .fallThrough => v.refuse .headers (sidecarDetail sidecar)
  | .swapEligible => freshnessRules response policy cc maxAgeCount sMaxageCount v

/-- The `Vary` lines as one list. -/
def joinVary (lines : List Bytes) : Bytes :=
  lines.foldl (fun joined value => (if joined ≠ [] then joined ++ lit ", " else joined) ++ value) []

/-- The header names in `Vary`, in lower case. -/
def varyTokensOf (joined : Bytes) : List Bytes :=
  (((commaTokens joined).map trimOws).filter (· ≠ [])).map asciiLower

/-- Rule 9: only `Accept-Encoding` is admitted. -/
def varyRules (response : HtmlStoreResponse) (policy : HtmlStorePolicy) (cc : OriginCacheControl)
    (maxAgeCount sMaxageCount : ℕ) (v : HtmlStoreVerdict) : HtmlStoreVerdict :=
  let varyTokens := varyTokensOf (joinVary (linesOf response.headers (lit "vary")))
  let v := { v with varyTokens }
  match varyTokens.find? (· ≠ lit "accept-encoding") with
  | some token => v.refuse .vary (sanitizeDetail token)
  | none => sidecarRules response policy cc maxAgeCount sMaxageCount v

/-- The rules 7 and 8: Cache-Control, and a request with a cookie. -/
def cacheControlRules (request : HtmlStoreRequest) (response : HtmlStoreResponse)
    (policy : HtmlStorePolicy) (v : HtmlStoreVerdict) : HtmlStoreVerdict :=
  let lines := linesOf response.headers (lit "cache-control")
  let cc := lines.foldl accumulateOriginCacheControl {}
  let maxAgeCount := (lines.map (countDirective · (lit "max-age"))).sum
  let sMaxageCount := (lines.map (countDirective · (lit "s-maxage"))).sum
  let validSMaxage := lines.any hasValidSMaxage
  let v := { v with
    ccFlags := cc.ccFlags
    ccEvaluated := true
    explicitShared := cc.ccFlags &&& kCCOriginPublic ≠ 0 ∨ validSMaxage }
  if cc.ccFlags &&& kCCOriginPrivate ≠ 0 then v.refuse .private []
  else if cc.ccFlags &&& kCCOriginNoStore ≠ 0 then v.refuse .noStore []
  else if request.hasCookie ∧ v.explicitShared = false then v.refuse .cookieRequest []
  else varyRules response policy cc maxAgeCount sMaxageCount v

/-- A path that the key is safe with, and that the optimizer has not made itself. -/
def isKeySafePath (urlPath : Bytes) : Bool :=
  urlPath.head? = some (ch '/') ∧ (urlPath.all fun c => c ∉ lit "?%#;") ∧
    ¬ lit ".pagespeed." <:+: urlPath

/-- The media type, its parameters aside. -/
def isTextHtml (value : Bytes) : Bool :=
  asciiEqualsIgnoreCase (trimOws (value.takeWhile (· ≠ ch ';'))) (lit "text/html")

/-- The rules 1 to 6, and the others if none of them refuses. -/
def applyStoreRules (request : HtmlStoreRequest) (response : HtmlStoreResponse)
    (policy : HtmlStorePolicy) : HtmlStoreVerdict :=
  let v : HtmlStoreVerdict := {}
  let headers := response.headers
  if request.method ≠ lit "GET" then v.refuse .method []
  else if response.status ≠ 200 then v.refuse .status []
  else if response.bodyComplete = false ∨ (findHeader headers (lit "content-range")).isSome then
    v.refuse .incomplete []
  else if isKeySafePath request.urlPath = false then v.refuse .url []
  else if countHeader headers (lit "content-type") ≠ 1 then v.refuse .contentType []
  else if (findHeader headers (lit "content-type")).any (isTextHtml ·.value) = false then
    v.refuse .contentType []
  else if headers.any (fun h => asciiEqualsIgnoreCase h.name (lit "content-encoding") ∧
      asciiEqualsIgnoreCase (trimOws h.value) (lit "identity") = false) then v.refuse .encoding []
  else if request.hasAuthorization ∨ request.authenticatedUser then v.refuse .authRequest []
  else if request.requestNoStore then v.refuse .noStore (lit "request")
  else if (findHeader headers (lit "set-cookie")).isSome ∨
      (findHeader headers (lit "set-cookie2")).isSome then
    v.refuse .setCookie []
  else cacheControlRules request response policy v

/-- The verdict in each mode. -/
def classifyHtmlForStore (request : HtmlStoreRequest) (response : HtmlStoreResponse)
    (policy : HtmlStorePolicy) : HtmlStoreVerdict :=
  if policy.mode = .off then ({} : HtmlStoreVerdict).refuse .mode []
  else
    let v := applyStoreRules request response policy
    if policy.mode ≠ .reportOnly then v
    else
      match v.action with
      | .store => { v with action := .wouldStore }
      | .storeNoNotify => { v with action := .wouldStoreNoNotify }
      | _ => v

/-! ## Serving -/

/-- What a request is answered with. -/
inductive HtmlServeAction
  | fallThrough
  | serveHtml
  | serveMarkdown
  | validate
  deriving DecidableEq

/-- Why a request is not answered from the cache. -/
inductive HtmlServeReason
  | fresh
  | mode
  | authRequest
  | cookieRequest
  | clientNoCache
  | needsValidation
  | stale
  | headersNotReproducible
  | sidecarMissing
  | purged
  | absent
  | bindingStale
  | parentStale

/-- What the serve rules read of the request. -/
structure HtmlServeRequest where
  mode : HtmlCacheMode := .off
  wantsMarkdown : Bool := false
  hasAuthorization : Bool := false
  authenticatedUser : Bool := false
  hasCookie : Bool := false
  hasCacheControl : Bool := false
  cacheControlNoCache : Bool := false
  pragmaNoCache : Bool := false
  maxAge : ℤ := -1
  minFresh : ℤ := -1
  nowSeconds : ℕ := 0

/-- What they read of the stored page. -/
structure StoredHtmlFacts where
  present : Bool := false
  storedAt : ℕ := 0
  ageAtStore : ℕ := 0
  lifetimeS : ℕ := 0
  needsValidation : Bool := false
  explicitShared : Bool := false
  headersNotReproducible : Bool := false
  sidecarRequired : Bool := false
  sidecarPresent : Bool := false
  purged : Bool := false
  validatedThisRequest : Bool := false
  variantPresent : Bool := false
  bindingLive : Bool := false
  renderTtlS : ℕ := 86400

/-- Their verdict, with the age that is sent. -/
structure HtmlServeVerdict where
  action : HtmlServeAction := .fallThrough
  reason : HtmlServeReason := .fresh
  enforce : Bool := false
  ageS : ℕ := 0

/-- The entry's age, saturated. -/
def servedAge (request : HtmlServeRequest) (stored : StoredHtmlFacts) : ℕ :=
  saturateU32 (stored.ageAtStore + max 0 ((request.nowSeconds : ℤ) - stored.storedAt))

/-- The `fresh` of rule 8: the entry's lifetime, and the limits of the request. -/
def isFresh (request : HtmlServeRequest) (stored : StoredHtmlFacts) (age : ℤ) : Bool :=
  (stored.needsValidation = false ∧ stored.lifetimeS ≠ 0 ∧ age < stored.lifetimeS) ∧
    ¬ (request.maxAge ≥ 0 ∧ age > request.maxAge) ∧
    ¬ (request.minFresh ≥ 0 ∧
      (request.minFresh > stored.lifetimeS ∨ age > stored.lifetimeS - request.minFresh))

/-- The rules in the order of the source: the first that holds decides. -/
def classifyHtmlForServe (request : HtmlServeRequest) (stored : StoredHtmlFacts) :
    HtmlServeVerdict :=
  let cachedHtml : Bool := request.mode = .serveCachedHtml
  let v : HtmlServeVerdict := { enforce := request.mode = .serveVariants ∨ cachedHtml }
  if request.mode = .off ∨ request.mode = .reportOnly then { v with reason := .mode }
  else if stored.present = false then { v with reason := .absent }
  else
    let age := servedAge request stored
    let v := { v with ageS := age }
    let validated := cachedHtml && stored.validatedThisRequest
    if request.hasAuthorization ∨ request.authenticatedUser then { v with reason := .authRequest }
    else if request.hasCookie ∧ stored.explicitShared = false then
      { v with reason := .cookieRequest }
    else if request.cacheControlNoCache ∨ request.pragmaNoCache ∧
        request.hasCacheControl = false then
      { v with reason := .clientNoCache }
    else if stored.purged then { v with reason := .purged }
    else if stored.headersNotReproducible then { v with reason := .headersNotReproducible }
    else if stored.sidecarRequired ∧ stored.sidecarPresent = false then
      { v with reason := .sidecarMissing }
    else if isFresh request stored age = false ∧ validated = false then
      { v with
        action := if cachedHtml then .validate else .fallThrough
        reason :=
          if request.wantsMarkdown then .parentStale
          else if stored.needsValidation ∨ stored.lifetimeS = 0 then .needsValidation
          else .stale }
    else if request.wantsMarkdown then
      if stored.variantPresent = false then { v with reason := .absent }
      else if stored.bindingLive = false then { v with reason := .bindingStale }
      else if age ≥ if validated then stored.renderTtlS
      else min stored.lifetimeS stored.renderTtlS then
        { v with reason := .parentStale }
      else { v with action := .serveMarkdown }
    else if cachedHtml then { v with action := .serveHtml }
    else { v with reason := .mode }

end PageSpeed.Cache
