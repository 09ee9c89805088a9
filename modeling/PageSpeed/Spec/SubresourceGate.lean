import PageSpeed.Spec.UrlRegistry
import PageSpeed.Spec.VariantWriters

/-!
# The subresource gate

`src/worker/subresource_gate.cc`: may a cached stylesheet or image of a page be used for all
clients? The worker asks the page's host with a HEAD, and keeps the verdict for a while. Times are
unbounded integers; the override hook for tests is not set.
-/

namespace PageSpeed.SubresourceGate

open Wire

/-- What is known of a subresource. -/
inductive SubresourceVerdict
  | admitted
  | refused
  | unknown
  deriving DecidableEq

/-- A subresource that a page wants, and the page. -/
structure SubresourceRead where
  site : Bytes
  scheme : Bytes
  host : Bytes
  url : Bytes
  pageHost : Bytes
  hostFetchAllowed : Bool := false
  entryRead : Bool := false
  entryFlags : UInt8 := 0
  entrySite : Bytes := []

/-- How long verdicts are good, and how many are kept. -/
structure Options where
  admittedTtlMs : ℤ := 300 * 1000
  refusedTtlMs : ℤ := 60 * 1000
  maxEntries : ℕ := 8192

/-- A verdict and its end. -/
structure Entry where
  verdict : SubresourceVerdict
  expiresAtMs : ℤ

/-- The hash map is a list of pairs. -/
structure Gate where
  memo : List (Bytes × Entry) := []
  headsSent : ℕ := 0
  refusals : ℕ := 0

/-- A call of `Check`, with the clock and the network as it finds them (`none` if there is no
`head_`). -/
structure Call where
  read : SubresourceRead
  mayFetch : Bool
  now : ℤ
  head : Option (Bytes → Bytes → Option ℤ)

/-- A `HEAD` request and its status, none if it failed. -/
structure Head where
  origin : Bytes
  absoluteUrl : Bytes
  status : Option ℤ

/-- What a call returns and leaves behind, and the HEAD it has sent. -/
structure Outcome where
  verdict : SubresourceVerdict
  gate : Gate
  sent : Option Head := none

/-- The key of a verdict, with its parts on lines of their own. -/
def memoKey (site scheme host url : Bytes) : Bytes :=
  site ++ ch '\n' :: (scheme ++ ch '\n' :: (host ++ ch '\n' :: url))

/-- The first condition of `Check`. -/
def SubresourceRead.recordedAnonymously (read : SubresourceRead) : Bool :=
  !read.hostFetchAllowed && read.entryRead && read.entryFlags &&& kFlagAnonymousRecorded ≠ 0 &&
    read.entrySite = read.site

/-- The scheme, `https` if none is given. -/
def SubresourceRead.schemeOrHttps (read : SubresourceRead) : Bytes :=
  if read.scheme = [] then lit "https" else read.scheme

/-- The key of the verdict on a read. -/
def SubresourceRead.key (read : SubresourceRead) : Bytes :=
  memoKey read.site read.schemeOrHttps (normalizeHostname read.host) read.url

/-- Room for one more entry: first the expired ones go, then all. -/
def evict (options : Options) (now : ℤ) (memo : List (Bytes × Entry)) : List (Bytes × Entry) :=
  if memo.length ≥ options.maxEntries then
    let kept := memo.filter fun entry => now < entry.2.expiresAtMs
    if kept.length ≥ options.maxEntries then [] else kept
  else memo

/-- `Check` behind the memo. -/
def ask (options : Options) (gate : Gate) (call : Call) : Outcome :=
  let host := normalizeHostname call.read.host
  match call.head with
  | none => { verdict := .unknown, gate }
  | some head =>
    if call.mayFetch = false ∨ call.read.hostFetchAllowed = false ∨
        host ≠ normalizeHostname call.read.pageHost then
      { verdict := .unknown, gate }
    else
      let origin := call.read.schemeOrHttps ++ lit "://" ++ host
      let status := head origin (origin ++ call.read.url)
      let verdict : SubresourceVerdict :=
        match status with
        | none => .unknown
        | some code => if code = 200 then .admitted else .refused
      let ttl := if verdict = .admitted then options.admittedTtlMs else options.refusedTtlMs
      let memo := (evict options call.now gate.memo).filter (·.1 ≠ call.read.key)
      { verdict
        gate :=
          { memo := (call.read.key, ⟨verdict, call.now + ttl⟩) :: memo
            headsSent := gate.headsSent + 1
            refusals := if verdict ≠ .admitted then gate.refusals + 1 else gate.refusals }
        sent := some ⟨origin, origin ++ call.read.url, status⟩ }

/-- A verdict from the memo, or from a `HEAD` that the policy allows. -/
def check (options : Options) (gate : Gate) (call : Call) : Outcome :=
  let read := call.read
  if read.recordedAnonymously then { verdict := .admitted, gate }
  else if read.url.head? ≠ some (ch '/') ∨ read.url.tail.head? = some (ch '/') then
    { verdict := .unknown, gate }
  else if normalizeHostname read.host = [] then { verdict := .unknown, gate }
  else if read.schemeOrHttps ≠ lit "https" ∧ read.schemeOrHttps ≠ lit "http" then
    { verdict := .unknown, gate }
  else
    match gate.memo.find? (·.1 = read.key) with
    | none => ask options gate call
    | some (_, entry) =>
      if call.now < entry.expiresAtMs then { verdict := entry.verdict, gate }
      else ask options { gate with memo := gate.memo.filter (·.1 ≠ read.key) } call

/-- The gate after some calls, and the HEADs that they have sent. -/
def step (options : Options) (s : Gate × List (Call × Head)) (call : Call) :
    Gate × List (Call × Head) :=
  let outcome := check options s.1 call
  (outcome.gate, s.2 ++ (outcome.sent.map (call, ·)).toList)

/-- A list of checks from the empty memo, and the requests they made. -/
def run (options : Options) (calls : List Call) : Gate × List (Call × Head) :=
  calls.foldl (step options) ({}, [])

end PageSpeed.SubresourceGate
