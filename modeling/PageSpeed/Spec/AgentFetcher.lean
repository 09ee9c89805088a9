import PageSpeed.Spec.FetchPolicy

/-!
# The fetcher

`FetchSubresource` of `src/browser/agent_fetcher.cc` with the response parser, the redirect
resolver and the header hygiene, and the command line of `lib/net/curl_fetcher.cc`. The
resolver and the spawner are parameters: they may answer each call as they like, which is an
answer for each hop.
-/

namespace PageSpeed

open Wire Inet

/-! ## The command line -/

/-- The bounds of one call of curl. -/
structure CurlFetchOptions where
  maxTimeSec : ℕ := 5
  maxResponseBytes : ℕ := 5 * 2 ^ 20
  userAgent : Bytes := lit "Mozilla/5.0 (compatible; mod_pagespeed agent_optimize)"
  accept : Bytes := lit "text/html,application/xhtml+xml,*/*"
  head : Bool := false

/-- Bytes that the url parser folds and the spawned program does not. -/
def isFoldedByte (c : UInt8) : Bool := c = ch '\\' ∨ c = ch '\t' ∨ c = ch '\n' ∨ c = ch '\r'

/-- The pin, unless the host is the address. -/
def resolveOption (host : Bytes) (port : ℕ) (pinnedIp : Bytes) : List Bytes :=
  if host = pinnedIp then []
  else
    let addr := if ch ':' ∈ pinnedIp then lit "[" ++ pinnedIp ++ lit "]" else pinnedIp
    [lit "--resolve", host ++ lit ":" ++ decimal port ++ lit ":" ++ addr]

/-- The options in front of the pin; only a transfer with a body is capped. -/
def leadingOptions (opts : CurlFetchOptions) : List Bytes :=
  [lit "curl", lit "-q", lit "-sS", lit "-g", lit "--no-netrc", lit "--noproxy", lit "*",
    lit "--proto", lit "=http,https", lit "--proto-redir", lit "=http,https",
    lit "--max-redirs", lit "0", lit "--max-time", decimal opts.maxTimeSec, lit "-A",
      opts.userAgent, lit "-H", lit "Accept: " ++ opts.accept, lit "--compressed"] ++
  if opts.head then [] else [lit "--max-filesize", decimal opts.maxResponseBytes]

/-- The options that choose between a `HEAD` and a `GET`. -/
def methodOptions (opts : CurlFetchOptions) : List Bytes :=
  if opts.head then [lit "--head"] else [lit "-X", lit "GET"]

/-- The argument vector, or nothing if the pin is incomplete or the url is folded. -/
def buildPinnedGetArgv (url host : Bytes) (port : ℕ) (pinnedIp : Bytes) (opts : CurlFetchOptions) :
    List Bytes :=
  if url = [] ∨ host = [] ∨ pinnedIp = [] then []
  else if port = 0 ∨ port > 65535 then []
  else if url.any isFoldedByte then []
  else
    leadingOptions opts ++ resolveOption host port pinnedIp ++
      (lit "-i" :: methodOptions opts ++ [lit "--url", url])

/-! ## Responses -/

/-- A header line of a response, split at its colon. -/
structure HttpHeader where
  name : Bytes
  value : Bytes
  deriving DecidableEq

/-- The last response block of what curl has printed. -/
structure ParsedHttpResponse where
  status : ℕ
  headers : List HttpHeader
  body : Bytes
  location : Bytes

/-- The text without the white space at both ends. -/
def stripAsciiWhitespace (s : Bytes) : Bytes :=
  ((s.dropWhile isSpace).reverse.dropWhile isSpace).reverse

/-- Equality up to the case of ASCII letters. -/
def equalsIgnoreCase (a b : Bytes) : Bool := toLowerAscii a = toLowerAscii b

/-- A prefix up to the case of ASCII letters. -/
def startsWithIgnoreCase (s p : Bytes) : Bool := toLowerAscii p <+: toLowerAscii s

/-- A line without the carriage return at its end. -/
def stripCr (s : Bytes) : Bytes := dropTrailing (ch '\r') s

/-- Three digits after the first blanks, and then a blank or the end. -/
def parseStatusCode (statusLine : Bytes) : Option ℕ :=
  if lit "HTTP/" <+: statusLine then
    match find (lit " ") statusLine with
    | none => none
    | some sp =>
      match (statusLine.drop sp).dropWhile (· = ch ' ') with
      | a :: b :: c :: after =>
        if isDigit a ∧ isDigit b ∧ isDigit c ∧ after.head?.all (· = ch ' ') then
          some (numeral 10 [a, b, c])
        else none
      | _ => none
  else none

/-- A header line: stripped name and value. -/
def parseHeaderLine (line : Bytes) : Option HttpHeader :=
  match find (lit ":") (stripCr line) with
  | none => none
  | some colon =>
    let name := stripAsciiWhitespace ((stripCr line).take colon)
    let value := stripAsciiWhitespace ((stripCr line).drop (colon + 1))
    if name = [] then none else some ⟨name, value⟩

/-- The end of the header block and the length of its separator. -/
def headerEnd (rest : Bytes) : Option (ℕ × ℕ) :=
  match find (lit "\r\n\r\n") rest, find (lit "\n\n") rest with
  | none, none => none
  | some crlf, none => some (crlf, 4)
  | none, some lf => some (lf, 2)
  | some crlf, some lf => if crlf ≤ lf then some (crlf, 4) else some (lf, 2)

/-- One response block after the other; interim ones are skipped. Each is at least two bytes
long, so that the length of the input bounds their number. -/
def parseBlocks : ℕ → Bytes → Option ParsedHttpResponse
  | 0, _ => none
  | fuel + 1, rest =>
    match headerEnd rest with
    | none => none
    | some (hdrEnd, sepLen) =>
      let lines := (rest.take hdrEnd).splitOn (ch '\n')
      let body := rest.drop (hdrEnd + sepLen)
      match parseStatusCode (stripCr (lines.headD [])) with
      | none => none
      | some status =>
        if 100 ≤ status ∧ status < 200 then parseBlocks fuel body
        else
          let headers := lines.tail.filterMap parseHeaderLine
          let isLocation :=
            fun h : HttpHeader => equalsIgnoreCase h.name (lit "location") ∧ h.value ≠ []
          some {
            status := status
            headers := headers
            body := body
            location := ((headers.find? isLocation).map HttpHeader.value).getD [] }

/-- Every block takes at least a byte, so the length is fuel enough. -/
def parseCurlResponse (raw : Bytes) : Option ParsedHttpResponse := parseBlocks (raw.length + 1) raw

/-! ## Header hygiene -/

/-- A header name that can be sent on: visible characters, and no separator among them. -/
def isTokenName (name : Bytes) : Bool :=
  name ≠ [] ∧ name.all fun c => c > 0x20 ∧ c < 0x7f ∧ c ∉ lit "()<>@,;:\\\"/[]?=\x7b\x7d"

/-- A header value that can be sent on: no control character but the tab. -/
def isCleanValue (value : Bytes) : Bool := value.all fun c => c = ch '\t' ∨ (c ≥ 0x20 ∧ c ≠ 0x7f)

/-- The headers that belong to the hop or to the body as it was sent. -/
def kStrip : List Bytes :=
  [lit "connection", lit "keep-alive", lit "proxy-connection", lit "transfer-encoding", lit "te",
    lit "trailer", lit "upgrade", lit "content-length", lit "content-encoding", lit "content-md5",
    lit "content-range", lit "set-cookie", lit "set-cookie2"]

/-- The headers that are passed on to the browser. -/
def sanitizeResponseHeaders (headers : List HttpHeader) : List HttpHeader :=
  headers.filter fun h =>
    let lname := toLowerAscii (stripAsciiWhitespace h.name)
    isTokenName lname ∧ isCleanValue h.value ∧ lname ∉ kStrip

/-! ## Redirects -/

/-- The target of a location that is not absolute, against the current url. -/
def relativeTarget (baseUrl loc : Bytes) : Bytes :=
  match find (lit "://") baseUrl with
  | none => []
  | some schemeSep =>
    let authorityEnd :=
      schemeSep + 3 + ((baseUrl.drop (schemeSep + 3)).takeWhile (· ∉ lit "/?#")).length
    let scheme := baseUrl.take schemeSep
    let origin := baseUrl.take authorityEnd
    let path := (baseUrl.drop authorityEnd).takeWhile (· ∉ lit "?#")
    if lit "//" <+: loc then scheme ++ lit ":" ++ loc
    else if lit "/" <+: loc then origin ++ loc
    else if lit "#" <+: loc then []
    else if lit "?" <+: loc then origin ++ path ++ loc
    else
      let dir := (path.reverse.dropWhile (· ≠ ch '/')).reverse
      origin ++ (if dir = [] then lit "/" else dir) ++ loc

/-- The next url; empty if there is none. -/
def resolveRedirectTarget (baseUrl location : Bytes) : Bytes :=
  let loc := stripAsciiWhitespace location
  if loc = [] then []
  else
    let result :=
      if startsWithIgnoreCase loc (lit "http://") ∨
          startsWithIgnoreCase loc (lit "https://") then loc
      else relativeTarget baseUrl loc
    if (parseHttpUrl result).any fun a => isAllowedScheme a.scheme then result else []

/-! ## The loop -/

/-- What came of a call of curl; no exit code if it was stopped. -/
structure CurlSpawnOutcome where
  spawned : Bool
  exitCode : Option ℤ
  output : Bytes

/-- The resolver and the spawner, which may be missing, answer anew on each hop. -/
structure AgentFetcherDeps where
  spawn : Option (ℕ → List Bytes → ℕ → CurlSpawnOutcome)
  resolve : Option (ℕ → Bytes → List Bytes)
  curlOpts : CurlFetchOptions := {}
  maxRedirectHops : ℤ := 5
  requireHttps : Bool := false

/-- The answer to a subresource request, denied unless a fetch has filled it in. -/
structure AgentFetchOutcome where
  action : FetchAction := .kDenyBlockedByClient
  fulfilled : Bool := false
  status : ℕ := 0
  headers : List HttpHeader := []
  body : Bytes := []
  finalUrl : Bytes := []
  diagnostic : Bytes := []

/-- A refusal with its reason. -/
def deny (action : FetchAction) (why : Bytes) : AgentFetchOutcome :=
  { action := action, diagnostic := why }

/-- The refusal that the browser reports as blocked by the client. -/
def block (why : Bytes) : AgentFetchOutcome := deny .kDenyBlockedByClient why

/-- A spawn about to happen, with what was decided on its hop. -/
structure Egress where
  hop : ℕ
  url : Bytes
  action : FetchAction
  auth : UrlAuthority
  addrs : List Bytes
  pinnedIp : Bytes
  argv : List Bytes

section Loop

variable (resolve : ℕ → Bytes → List Bytes) (spawn : ℕ → List Bytes → ℕ → CurlSpawnOutcome)
  (rc : ResourceClass) (policy : FetchPolicy) (deps : AgentFetcherDeps)

/-- The addresses of the host: itself if it is one. -/
def addressesOf (hop : ℕ) (auth : UrlAuthority) : List Bytes :=
  if auth.hostIsIpLiteral then [auth.host] else resolve hop auth.host

/-- The guard on the addresses, and the one to pin. -/
def pin (url : Bytes) (action : FetchAction) (auth : UrlAuthority) (addrs : List Bytes) :
    Except AgentFetchOutcome Bytes :=
  if addrs = [] then .error (block (lit "dns resolve failed"))
  else if action = .kFetchAllowlisted ∧ isPublicUrl url addrs = false then
    .error (block (lit "ssrf: non-public address"))
  else if action ≠ .kFetchAllowlisted ∧ addrs.any isLinkLocalIp then
    .error (block (lit "g1: link-local/metadata ip"))
  else .ok (if auth.hostIsIpLiteral then auth.host else addrs.headD [])

/-- Everything a hop does before it spawns. -/
def adjudicate (hop : ℕ) (url : Bytes) : Except AgentFetchOutcome Egress :=
  let action := decideFetch url rc policy
  if action = .kDenyKeepElement then
    .error (deny .kDenyKeepElement (lit "keep-element (image/media)"))
  else if action ≠ .kProxyUpstream ∧ action ≠ .kFetchAllowlisted then
    .error (block (lit "policy deny"))
  else
    match parseHttpUrl url with
    | none => .error (block (lit "unparseable url"))
    | some auth =>
      if deps.requireHttps ∧ auth.scheme ≠ lit "https" then .error (block (lit "https required"))
      else if auth.port = 0 ∨ auth.port > 65535 then .error (block (lit "bad port"))
      else
        let addrs := addressesOf resolve hop auth
        match pin url action auth addrs with
        | .error o => .error o
        | .ok pinnedIp =>
          let argv := buildPinnedGetArgv url auth.host auth.port pinnedIp deps.curlOpts
          if argv = [] then .error (block (lit "argv build failed"))
          else .ok ⟨hop, url, action, auth, addrs, pinnedIp, argv⟩

/-- What a hop makes of the spawn's outcome: the end, or the next url. -/
def conclude (e : Egress) (spawned : CurlSpawnOutcome) : AgentFetchOutcome ⊕ Bytes :=
  if spawned.spawned = false ∨ spawned.exitCode ≠ some 0 then
    .inl (block (lit "curl transport failure"))
  else
    match parseCurlResponse spawned.output with
    | none => .inl (block (lit "unparseable response"))
    | some resp =>
      if resp.status ≥ 300 ∧ resp.status < 400 ∧ resp.location ≠ [] then
        let next := resolveRedirectTarget e.url resp.location
        if next = [] then .inl (block (lit "unresolvable redirect")) else .inr next
      else
        .inl {
          action := e.action
          fulfilled := true
          status := resp.status
          headers := sanitizeResponseHeaders resp.headers
          body := resp.body
          finalUrl := e.url }

/-- The hops that are left: the spawns they make and the outcome. -/
def fetchFrom : ℕ → ℕ → Bytes → List Egress × AgentFetchOutcome
  | 0, _, _ => ([], block (lit "too many redirects"))
  | left + 1, hop, url =>
    match adjudicate resolve rc policy deps hop url with
    | .error o => ([], o)
    | .ok e =>
      match conclude e (spawn hop e.argv deps.curlOpts.maxResponseBytes) with
      | .inl o => ([e], o)
      | .inr next =>
        let (es, o) := fetchFrom left (hop + 1) next
        (e :: es, o)

end Loop

/-- The spawns and the outcome of a fetch. -/
def fetchSubresource (urlIn : Bytes) (rc : ResourceClass) (policy : FetchPolicy)
    (deps : AgentFetcherDeps) :
    List Egress × AgentFetchOutcome :=
  match deps.spawn, deps.resolve with
  | some spawn, some resolve =>
    fetchFrom resolve spawn rc policy deps (deps.maxRedirectHops + 1).toNat 0 urlIn
  | _, _ => ([], block (lit "fetcher misconfigured"))

end PageSpeed
