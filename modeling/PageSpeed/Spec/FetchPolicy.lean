import PageSpeed.Spec.SsrfGuard

/-!
# Which requests may leave

The pinned upstreams of `lib/net/upstream_pin.cc` and the policy decision of
`lib/net/fetch_policy.cc`.
-/

namespace PageSpeed

open Wire Inet

/-! ## Pinned upstreams -/

/-- An upstream that may be fetched from, in canonical form. -/
structure PinnedUpstream where
  scheme : Bytes
  canonHost : Bytes
  port : ℕ
  isIpLiteral : Bool
  deriving DecidableEq

/-- A host for comparison: no trailing dot, an address in its usual spelling. -/
def canonHost (host : Bytes) (isIpLiteral : Bool) : Bytes :=
  let h := dropTrailing (ch '.') host
  if h = [] ∨ isIpLiteral = false then h
  else
    match inetPton4 (cStr h) with
    | some b => inetNtop4 b
    | none =>
      let h6 := h.takeWhile (· ≠ ch '%')
      match if h6 = [] then none else inetPton6 (cStr h6) with
      | some b => inetNtop6 b
      | none => h

/-- The canonical form of an authority, if it has one. -/
def canonicalize (a : UrlAuthority) : Option PinnedUpstream :=
  if a.hadUserinfo then none
  else if a.scheme ≠ lit "http" ∧ a.scheme ≠ lit "https" then none
  else if a.port = 0 then none
  else if canonHost a.host a.hostIsIpLiteral = [] then none
  else some ⟨a.scheme, canonHost a.host a.hostIsIpLiteral, a.port, a.hostIsIpLiteral⟩

/-- An upstream from the configuration. -/
def parseUpstream (configUrl : Bytes) : Option PinnedUpstream :=
  (parseHttpUrl configUrl).bind canonicalize

/-- The URL is on one of the upstreams, by scheme, host and port. -/
def isPinnedUpstream (subresourceUrl : Bytes) (pinned : List PinnedUpstream) : Bool :=
  match (parseHttpUrl subresourceUrl).bind canonicalize with
  | none => false
  | some c => c ∈ pinned

/-! ## The policy -/

/-- What the browser wants the subresource for. -/
inductive ResourceClass
  | kDocument | kScript | kStylesheet | kFont | kXhr | kFetch
  | kImage | kMedia
  | kWebSocket | kEventSource | kPing | kCspReport | kOther
  deriving DecidableEq

/-- What is done with the request. -/
inductive FetchAction
  | kProxyUpstream
  | kFetchAllowlisted
  | kDenyKeepElement
  | kDenyBlockedByClient
  deriving DecidableEq

/-- The upstreams and the hosts that are allowed. -/
structure FetchPolicy where
  pinnedUpstreams : List PinnedUpstream
  allowHosts : List Bytes

/-- The classes that may leave. -/
def isFetchableClass : ResourceClass → Bool
  | .kDocument | .kScript | .kStylesheet | .kFont | .kXhr | .kFetch => true
  | _ => false

/-- A hostname as it is compared. -/
def lowerNoTrailingDot (s : Bytes) : Bytes := dropTrailing (ch '.') (toLowerAscii s)

/-- Anything but the pinned upstreams and the allowed hosts is denied. -/
def decideFetch (url : Bytes) (rc : ResourceClass) (policy : FetchPolicy) : FetchAction :=
  match parseHttpUrl url with
  | none => .kDenyBlockedByClient
  | some u =>
    if isAllowedScheme u.scheme = false then .kDenyBlockedByClient
    else if rc = .kImage ∨ rc = .kMedia then .kDenyKeepElement
    else if isFetchableClass rc = false then .kDenyBlockedByClient
    else if isPinnedUpstream url policy.pinnedUpstreams then .kProxyUpstream
    else if u.hadUserinfo = false ∧
        lowerNoTrailingDot u.host ∈ policy.allowHosts.map lowerNoTrailingDot then .kFetchAllowlisted
    else .kDenyBlockedByClient

end PageSpeed
