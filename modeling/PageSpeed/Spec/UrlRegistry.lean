import PageSpeed.Spec.StringUtil

/-!
# The URL registry

`src/worker/url_registry.cc`. The list `order_` consists of nodes with an address, and an iterator
is the address of a node. The hash map `entries_` is a list of pairs with distinct keys; the order
of such a list is not one that the source specifies.
-/

namespace PageSpeed

open Wire

/-- `NormalizeHostname` of `lib/classify/hostname.cc`. -/
def normalizeHostname (hostname : Bytes) : Bytes :=
  let (hostPart, portPart) :=
    if hostname.head? = some (ch '[') then
      let host := hostname.takeWhile (· ≠ ch ']')
      let rest := hostname.dropWhile (· ≠ ch ']')
      if rest.tail.head? = some (ch ':') then (host ++ [ch ']'], rest.drop 2) else (hostname, [])
    else
      let port := (hostname.reverse.takeWhile (· ≠ ch ':')).reverse
      if ch ':' ∈ hostname ∧ port ≠ [] ∧ port.all (fun c => ch '0' ≤ c ∧ c ≤ ch '9') then
        (hostname.take (hostname.length - port.length - 1), port)
      else (hostname, [])
  let host := hostPart.map lowerChar
  let host := if host.getLast? = some (ch '.') then host.dropLast else host
  if portPart ≠ [] ∧ portPart ≠ lit "80" ∧ portPart ≠ lit "443" then
    host ++ ch ':' :: portPart else host

namespace UrlRegistry

/-- A URL that was seen. -/
structure Entry where
  url : Bytes
  hostname : Bytes
  scheme : Bytes
  site : Bytes
  alternateCount : ℕ := 0
  deriving DecidableEq

/-- A node of the list of keys. -/
structure Node where
  address : ℕ
  key : Bytes
  deriving DecidableEq

/-- An entry with the node of its key. -/
structure MapEntry where
  entry : Entry
  orderIt : ℕ
  deriving DecidableEq

/-- A page of a listing. -/
structure Page where
  entries : List Entry
  nextOffset : ℕ
  hasMore : Bool
  total : ℕ
  deriving DecidableEq

/-- The most sites that are remembered. -/
def kMaxKnownSites : ℕ := 65536

end UrlRegistry

open UrlRegistry

/-- The entries by key, and the keys from the latest to the oldest. -/
structure UrlRegistry where
  maxEntries : ℕ
  order : List Node := []
  entries : List (Bytes × MapEntry) := []
  /-- No node of `order` has had this address, nor a later one. -/
  nextAddress : ℕ := 0
  knownHostnames : List Bytes := []
  knownSites : List Bytes := []
  knownSitesChanged : Bool := false
  knownSitesOverflow : ℕ := 0
  deriving DecidableEq

namespace UrlRegistry

/-- A registry holds at least one entry. -/
def new (maxEntries : ℕ) : UrlRegistry := { maxEntries := max maxEntries 1 }

/-- The key of an entry, its parts set apart by zero bytes. -/
def makeKey (url hostname scheme site : Bytes) : Bytes :=
  url ++ 0 :: (hostname ++ 0 :: (scheme ++ if site = [] then [] else 0 :: site))

/-- `entries_.find`. -/
def find (r : UrlRegistry) (key : Bytes) : Option MapEntry :=
  (r.entries.find? (·.1 = key)).map (·.2)

/-- A non-empty site is remembered, up to a cap. -/
def rememberSite (r : UrlRegistry) (site : Bytes) : UrlRegistry :=
  if site ≠ [] ∧ site ∉ r.knownSites then
    if r.knownSites.length < kMaxKnownSites then
      { r with knownSites := site :: r.knownSites, knownSitesChanged := true }
    else { r with knownSitesOverflow := r.knownSitesOverflow + 1 }
  else r

/-- The body of the loop that makes room. -/
def evictOldest (r : UrlRegistry) : UrlRegistry :=
  match r.order.getLast? with
  | none => r
  | some oldest =>
    { r with entries := r.entries.filter (·.1 ≠ oldest.key), order := r.order.dropLast }

/-- The loop that makes room, at most `n` times. -/
def evictUpTo : ℕ → UrlRegistry → UrlRegistry
  | 0, r => r
  | n + 1, r => if r.order.length ≥ r.maxEntries then evictUpTo n r.evictOldest else r

/-- Every turn of the loop takes a node off `order_`. -/
def evict (r : UrlRegistry) : UrlRegistry := evictUpTo r.order.length r

/-- `order_.splice(order_.begin(), order_, it)`. -/
def splice (order : List Node) (it : ℕ) : List Node :=
  order.filter (·.address = it) ++ order.filter (·.address ≠ it)

/-- A known URL moves to the front; a new one is put there, with room made for it. -/
def record (r : UrlRegistry) (url hostname scheme site : Bytes) : UrlRegistry :=
  let key := makeKey url hostname scheme site
  let r := r.rememberSite site
  match r.find key with
  | some m => { r with order := splice r.order m.orderIt }
  | none =>
    let r := r.evict
    { r with
      order := ⟨r.nextAddress, key⟩ :: r.order
      entries :=
        (key, ⟨{ url, hostname, scheme, site }, r.nextAddress⟩) :: r.entries.filter (·.1 ≠ key)
      nextAddress := r.nextAddress + 1
      knownHostnames :=
        normalizeHostname hostname :: r.knownHostnames.filter (· ≠ normalizeHostname hostname) }

/-- The entry and its node go. -/
def remove (r : UrlRegistry) (url hostname scheme site : Bytes) : UrlRegistry :=
  let key := makeKey url hostname scheme site
  match r.find key with
  | none => r
  | some m =>
    { r with
      order := r.order.filter (·.address ≠ m.orderIt)
      entries := r.entries.filter (·.1 ≠ key) }

/-- The count of an entry, if it is there. -/
def setAlternateCount (r : UrlRegistry) (url hostname scheme : Bytes) (count : ℕ) (site : Bytes) :
    UrlRegistry :=
  let key := makeKey url hostname scheme site
  { r with
    entries := r.entries.map fun p =>
      if p.1 = key then (p.1, { p.2 with entry := { p.2.entry with alternateCount := count } })
      else p }

/-- The entries are handed out, and none is left. -/
def clearAll (r : UrlRegistry) : List Entry × UrlRegistry :=
  (r.entries.map (·.2.entry), { r with entries := [], order := [] })

/-- The number of entries. -/
def size (r : UrlRegistry) : ℕ := r.entries.length

/-- Without a filter: by position. -/
def listAll (r : UrlRegistry) (offset limit : ℕ) : Page :=
  if offset ≥ r.order.length then
    { entries := [], total := r.order.length, nextOffset := r.order.length, hasMore := false }
  else
    let toRead := min limit (r.order.length - offset)
    { entries := ((r.order.drop offset).take toRead).filterMap fun n => (r.find n.key).map (·.entry)
      total := r.order.length
      nextOffset := offset + toRead
      hasMore := offset + toRead < r.order.length }

/-- One key of the filtered walk: how many matched so far, and what is on the page. -/
def listStep (r : UrlRegistry) (offset limit : ℕ) (hostname site : Bytes) (st : ℕ × List Entry)
    (n : Node) : ℕ × List Entry :=
  match r.find n.key with
  | none => st
  | some m =>
    if hostname ≠ [] ∧ m.entry.hostname ≠ hostname then st
    else if site ≠ [] ∧ m.entry.site ≠ site then st
    else (st.1 + 1, if st.1 ≥ offset ∧ st.2.length < limit then st.2 ++ [m.entry] else st.2)

/-- A page of the entries of a host or site. -/
def listFiltered (r : UrlRegistry) (offset limit : ℕ) (hostname site : Bytes) : Page :=
  let (matched, entries) := r.order.foldl (r.listStep offset limit hostname site) (0, [])
  { entries, total := matched, nextOffset := offset + entries.length,
    hasMore := offset + entries.length < matched }

/-- A page of the entries, the latest first. -/
def list (r : UrlRegistry) (offset limit : ℕ) (hostname site : Bytes) : Page :=
  if hostname = [] ∧ site = [] then r.listAll offset limit
  else r.listFiltered offset limit hostname site

end UrlRegistry

end PageSpeed
