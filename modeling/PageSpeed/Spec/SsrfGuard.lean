import PageSpeed.Spec.Inet

/-!
# The address guard of the fetcher

The range predicates, the url authority parser and `ResolveSafe` of
`lib/net/ssrf_guard.cc`.
-/

namespace PageSpeed

open Wire Inet

/-- A text in lower case. -/
def toLowerAscii (s : Bytes) : Bytes := s.map lowerChar

/-- The port of a URL that names none. -/
def schemeDefaultPort (scheme : Bytes) : ℕ :=
  if scheme = lit "http" then 80 else if scheme = lit "https" then 443 else 0

/-! ## IPv4 -/

/-- A number read digit by digit, until it exceeds any octet by far. -/
def accumulate (base : ℕ) (digit : UInt8 → Option ℕ) (v : ℕ) : Bytes → Option ℕ
  | [] => some v
  | c :: s =>
    match digit c with
    | none => none
    | some d =>
      if v * base + d > 0x7fffffff then some (v * base + d)
      else accumulate base digit (v * base + d) s

/-- The value of a decimal digit. -/
def decimalDigitValue (c : UInt8) : Option ℕ := if isDigit c then hexDigitValue c else none

/-- One label with the coercion of a script's `Number()`. -/
def jsNumberLabel (s : Bytes) : Option ℕ :=
  if s.length > 2 ∧ s.head? = some (ch '0') ∧ (s[1]? = some (ch 'x') ∨ s[1]? = some (ch 'X')) then
    accumulate 16 hexDigitValue 0 (s.drop 2)
  else accumulate 10 decimalDigitValue 0 s

/-- Four decimal octets without leading zeros. -/
def isCanonicalV4 (s : Bytes) : Bool :=
  (s.splitOn (ch '.')).all isOctet ∧ (s.splitOn (ch '.')).length = 4

/-- The blocks that are not public. -/
def isReservedV4 (a b c : ℕ) : Bool :=
  a = 0 ∨ a = 10 ∨ a = 127 ∨ (a = 169 ∧ b = 254) ∨ (a = 172 ∧ b ≥ 16 ∧ b ≤ 31) ∨
    (a = 192 ∧ b = 168) ∨ (a = 192 ∧ b = 0 ∧ c = 0) ∨ (a = 100 ∧ b ≥ 64 ∧ b ≤ 127) ∨
    (a = 198 ∧ (b = 18 ∨ b = 19)) ∨ a ≥ 224

/-- A reserved range, or a text that is no four numbers. -/
def isPrivateV4 (ip : Bytes) : Bool :=
  match (ip.splitOn (ch '.')).mapM fun l => (jsNumberLabel l).filter (· ≤ 255) with
  | some [a, b, c, _] => isReservedV4 a b c
  | _ => true

/-! ## IPv6 -/

/-- One to three digits off the end of a string, which is given reversed. -/
def takeDec (r : Bytes) : Option Bytes :=
  let n := min 3 (r.takeWhile isDigit).length
  if n = 0 then none else some (r.drop n)

/-- What follows a dot. -/
def takeDot : Bytes → Option Bytes
  | [] => none
  | c :: r => if c = ch '.' then some r else none

/-- The four dotted numbers at the end of a string. -/
def trailingDottedQuad (s : Bytes) : Option Bytes := do
  let r ← takeDec s.reverse
  let r ← takeDot r
  let r ← takeDec r
  let r ← takeDot r
  let r ← takeDec r
  let r ← takeDot r
  let r ← takeDec r
  pure (s.drop r.length)

/-- The reserved ranges, told from the text of an address. -/
def isPrivateV6 (ip : Bytes) : Bool :=
  let s := (toLowerAscii ip).takeWhile (· ≠ ch '%')
  s = lit "::1" ∨ s = lit "::" ∨ (trailingDottedQuad s).any isPrivateV4 ∨ lit "::ffff:" <+: s ∨
    (lit "fc" <+: s ∨ lit "fd" <+: s) ∨
    (lit "fe8" <+: s ∨ lit "fe9" <+: s ∨ lit "fea" <+: s ∨ lit "feb" <+: s) ∨
    lit "ff" <+: s ∨ lit "2001:db8" <+: s

/-- The textual rules run on the string as it is written. -/
def isPrivateIp (ip : Bytes) : Bool :=
  if 0 ∈ ip then true
  else if isCanonicalV4 ip then isPrivateV4 ip
  else if (inetPton6 (cStr ip)).isSome then isPrivateV6 ip
  else true

/-- A link-local address, told from its bytes. -/
def isLinkLocalIp (ip : Bytes) : Bool :=
  match inetPton4 (cStr ip) with
  | some b => b.getD 0 0 = 169 ∧ b.getD 1 0 = 254
  | none =>
    match inetPton6 (cStr ip) with
    | some b => b.getD 0 0 = 0xfe ∧ b.getD 1 0 &&& 0xc0 = 0x80
    | none => false

/-! ## Hosts -/

/-- One character less if it is the last. -/
def dropTrailing (c : UInt8) (s : Bytes) : Bytes := if s.getLast? = some c then s.dropLast else s

/-- Whether a host is an address, and how it is written then. -/
structure LiteralClass where
  isLiteral : Bool := false
  canonical : Bytes

/-- An address in any form a url may give it; IPv4 forms are rewritten, IPv6 text is not. -/
def classifyHostLiteral (host : Bytes) : LiteralClass :=
  let h4 := dropTrailing (ch '.') host
  if isCanonicalV4 h4 then ⟨true, h4⟩
  else
    match if h4 = [] then none else inetAton (cStr h4) with
    | some a4 => ⟨true, inetNtop4 a4⟩
    | none =>
      let h6 := host.takeWhile (· ≠ ch '%')
      if h6 ≠ [] ∧ (inetPton6 (cStr h6)).isSome then ⟨true, h6⟩ else ⟨false, host⟩

/-- The two schemes that are fetched. -/
def isAllowedScheme (scheme : Bytes) : Bool :=
  let s := dropTrailing (ch ':') (toLowerAscii scheme)
  s = lit "http" ∨ s = lit "https"

/-- The names of the metadata services. -/
def isBlockedHostLiteral (host : Bytes) : Bool :=
  let h := toLowerAscii host
  let h := if h.length ≥ 2 ∧ h.head? = some (ch '[') ∧ h.getLast? = some (ch ']') then
    h.tail.dropLast else h
  let h := dropTrailing (ch '.') h
  h = lit "metadata" ∨ h = lit "metadata.google.internal"

/-! ## Urls -/

/-- What the guard reads of a URL. -/
structure UrlAuthority where
  scheme : Bytes
  host : Bytes
  hostIsIpLiteral : Bool := false
  port : ℕ
  hadUserinfo : Bool
  deriving DecidableEq

/-- Tabs and line breaks go, a backslash is a slash. -/
def foldUrl (raw : Bytes) : Bytes :=
  (raw.filter fun c => c ≠ ch '\t' ∧ c ≠ ch '\n' ∧ c ≠ ch '\r').map fun c =>
    if c = ch '\\' then ch '/' else c

/-- A url taken apart as far as its authority. -/
structure Authority where
  scheme : Bytes
  hadUserinfo : Bool
  hostport : Bytes
  deriving DecidableEq

/-- Scheme and authority; the host follows the last at sign. -/
def splitAuthority (rawUrl : Bytes) : Option Authority :=
  let url := foldUrl rawUrl
  match find (lit "://") url with
  | none => none
  | some 0 => none
  | some sep =>
    let authority := (url.drop (sep + 3)).takeWhile (· ∉ lit "/?#")
    if authority = [] then none
    else
      let hostport := (authority.reverse.takeWhile (· ≠ ch '@')).reverse
      if hostport = [] then none
      else some ⟨toLowerAscii (url.take sep), ch '@' ∈ authority, hostport⟩

/-- Host and port, if there is one. -/
def splitHostPort (hostport : Bytes) : Option (Bytes × Option Bytes) :=
  if hostport.head? = some (ch '[') then
    match find (lit "]") hostport with
    | none => none
    | some close =>
      let host := (hostport.take close).drop 1
      match hostport.drop (close + 1) with
      | [] => some (host, none)
      | c :: port => if c = ch ':' then some (host, some port) else none
  else
    match find (lit ":") hostport with
    | none => some (hostport, none)
    | some colon => some (hostport.take colon, some (hostport.drop (colon + 1)))

/-- A decimal port of at most 65535. -/
def readPort (p : ℕ) : Bytes → Option ℕ
  | [] => some p
  | c :: s =>
    if isDigit c then
      if p * 10 + (c.toNat - 48) > 65535 then none else readPort (p * 10 + (c.toNat - 48)) s
    else none

/-- The port of a url, or the default of its scheme. -/
def urlPort (scheme : Bytes) : Option Bytes → Option ℕ
  | some (c :: s) => readPort 0 (c :: s)
  | _ => some (schemeDefaultPort scheme)

/-- The authority with a lower-case host, which is rewritten if it is a literal. -/
def classified (a : Authority) (host : Bytes) (port : ℕ) : UrlAuthority :=
  let lit := classifyHostLiteral host
  { scheme := a.scheme
    host := if lit.isLiteral then lit.canonical else host
    hostIsIpLiteral := lit.isLiteral
    port := port
    hadUserinfo := a.hadUserinfo }

/-- A control byte, a blank or a percent sign. -/
def isBadHostByte (c : UInt8) : Bool := c ≤ 0x20 ∨ c = ch '%'

/-- The authority of a URL as a browser would read it. -/
def parseHttpUrl (rawUrl : Bytes) : Option UrlAuthority :=
  (splitAuthority rawUrl).bind fun a =>
    (splitHostPort a.hostport).bind fun (host, port?) =>
      if host = [] then none
      else
        (urlPort a.scheme port?).bind fun port =>
          if (toLowerAscii host).any isBadHostByte then none
          else some (classified a (toLowerAscii host) port)

/-- A host with the addresses that it may be fetched from. -/
structure ResolveSafeResult where
  host : Bytes
  safeAddresses : List Bytes

/-- No address at all if one of them is private. -/
def resolveSafe (rawUrl : Bytes) (resolvedAddresses : List Bytes) : Option ResolveSafeResult :=
  match parseHttpUrl rawUrl with
  | none => none
  | some u =>
    if isAllowedScheme u.scheme = false then none
    else if isBlockedHostLiteral u.host then none
    else if u.hostIsIpLiteral then
      if isPrivateIp u.host then none else some ⟨u.host, [u.host]⟩
    else if resolvedAddresses = [] then none
    else if resolvedAddresses.any isPrivateIp then none
    else some ⟨u.host, resolvedAddresses⟩

/-- The URL may be fetched. -/
def isPublicUrl (rawUrl : Bytes) (resolvedAddresses : List Bytes) : Bool :=
  (resolveSafe rawUrl resolvedAddresses).isSome

end PageSpeed
