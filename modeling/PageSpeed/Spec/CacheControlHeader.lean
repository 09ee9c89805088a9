import PageSpeed.Spec.HtmlCachePolicy
import PageSpeed.Spec.Inet

/-!
# The Cache-Control header of a response

`BuildCacheControlHeader` (`lib/cache/cache_control_header`): the directives due for an input,
each with the source's own estimate of its size, written one by one behind a shared cursor.
-/

namespace PageSpeed.Cache

open Wire
open Inet (decimal)

/-- How far the served lifetime may go beyond what the origin allows. -/
inductive CacheMode
  | safe
  | aggressive
  deriving DecidableEq

/-- What the header is built from. -/
structure CacheControlInput where
  mode : CacheMode := .safe
  originCcFlags : UInt16 := 0
  effectiveMaxAge : UInt32 := 0
  originMaxAge : UInt32 := 0
  synthesizeSwr : Bool := false
  isSharedCache : Bool := true
  relayOriginNoCache : Bool := false
  forwardOriginRestrictions : Bool := false

variable (i : CacheControlInput)

/-- The origin has sent the directive. -/
def CacheControlInput.has (flag : UInt16) : Bool := i.originCcFlags &&& flag ≠ 0

/-- A stale copy may not be served without asking the origin. -/
def computeSharedRevalidationRequired : Bool :=
  i.has kCCOriginNoCache ∨ i.has kCCOriginMustRevalidate ∨
    (i.has kCCOriginProxyRevalidate ∧ i.isSharedCache) ∨
      (i.has kCCOriginSMaxagePresent ∧ i.isSharedCache)

/-- A directive, whether it is due, and the length its `fits` test reckons with. -/
structure SentDirective where
  name : Bytes
  value : Option UInt32 := none
  due : Bool
  estimate : ℕ

/-- The directive as it is written. -/
def SentDirective.text (d : SentDirective) : Bytes :=
  d.name ++ match d.value with
    | none => []
    | some n => ch '=' :: decimal n.toNat

/-- A blanket restriction: the bare form, or a flag stored before the forms were told apart. -/
def isBlanket (flag bare qualified : UInt16) : Bool :=
  i.has flag ∧ (i.has bare ∨ i.has qualified = false)

/-- `public`, in aggressive mode only and never against the origin. -/
def publicDirective : SentDirective :=
  { name := lit "public", estimate := 6,
    due := i.mode = .aggressive ∧ i.has kCCOriginPublic ∧
      ¬ (i.has kCCOriginPrivate ∨ i.has kCCOriginNoStore) }

/-- The restrictions: those of the origin that are passed on, and what the mode adds. -/
def restrictions : List SentDirective :=
  [{ name := lit "no-store", estimate := 8,
     due := i.forwardOriginRestrictions ∧ i.has kCCOriginNoStore },
    { name := lit "private", estimate := 7,
      due := i.forwardOriginRestrictions ∧
        isBlanket i kCCOriginPrivate kCCOriginPrivateBare kCCOriginPrivateQualified },
    { name := lit "no-cache", estimate := 8,
      due := (i.relayOriginNoCache ∨ i.forwardOriginRestrictions) ∧
        isBlanket i kCCOriginNoCache kCCOriginNoCacheBare kCCOriginNoCacheQualified },
    { name := lit "must-revalidate", estimate := 16,
      due :=
        (i.mode = .safe ∧ i.forwardOriginRestrictions = false) ∨ i.has kCCOriginMustRevalidate },
    { name := lit "proxy-revalidate", estimate := 17, due := i.has kCCOriginProxyRevalidate },
    { name := lit "no-transform", estimate := 12, due := i.has kCCOriginNoTransform }]

/-- `s-maxage`, if the origin has sent one. -/
def sMaxage : SentDirective :=
  { name := lit "s-maxage", value := some i.effectiveMaxAge, estimate := 19,
    due := i.has kCCOriginSMaxagePresent }

/-- With `s-maxage` the browser's own lifetime; none under a forwarded `no-store`. -/
def maxAge : SentDirective :=
  { name := lit "max-age", estimate := 18
    value := some (if i.has kCCOriginSMaxagePresent then i.originMaxAge else i.effectiveMaxAge)
    due := ¬ (i.forwardOriginRestrictions ∧ i.has kCCOriginNoStore) ∧
      (i.has kCCOriginSMaxagePresent → i.originMaxAge > 0 ∨ i.has kCCOriginHeaderPresent) }

/-- The permissions to serve a stale copy, which are the optimizer's own. -/
def stale : List SentDirective :=
  let permitted : Bool := i.mode = .aggressive ∧ computeSharedRevalidationRequired i = false ∧
    i.forwardOriginRestrictions = false
  let swr := min i.effectiveMaxAge 86400
  [{ name := lit "stale-while-revalidate", value := some swr, estimate := 34,
     due := permitted ∧ i.synthesizeSwr ∧ swr > 0 },
    { name := lit "stale-if-error", value := some 86400, estimate := 20, due := permitted }]

/-- The source's `fits`: the separator, the estimate and a NUL. -/
def SentDirective.fits (capacity : ℕ) (written : Bytes) (d : SentDirective) : Bool :=
  (if written = [] then 0 else 2) + d.estimate + 1 ≤ capacity - written.length

/-- What `snprintf` leaves before the advanced cursor; a text that is cut ends in its NUL. -/
def snprintf (remaining : ℕ) (text : Bytes) : Bytes :=
  (text.take (remaining - 1) ++ [0]).take (min text.length remaining)

/-- One directive behind the cursor, or nothing. -/
def put (capacity : ℕ) (written : Bytes) (d : SentDirective) : Bytes :=
  if d.due ∧ d.fits capacity written then
    let written :=
      if written ≠ [] ∧ capacity - written.length ≥ 2 then written ++ lit ", " else written
    written ++ snprintf (capacity - written.length) d.text
  else written

/-- The header value, and the lifetime that it gives. -/
structure CacheControlOutput where
  bytes : Bytes := []
  finalMaxAge : UInt32 := 0

/-- The directives before `max-age`, in the order of the source. -/
def leading : List SentDirective := publicDirective i :: restrictions i ++ [sMaxage i]

/-- The header in a buffer of the given size; `max-age` may be left out for space. -/
def buildCacheControlHeader (capacity : ℕ) : CacheControlOutput :=
  if capacity = 0 then {}
  else
    let before := (leading i).foldl (put capacity) []
    { bytes := (maxAge i :: stale i).foldl (put capacity) before
      finalMaxAge :=
        if i.has kCCOriginSMaxagePresent ∧ (maxAge i).due ∧ (maxAge i).fits capacity before then
          i.originMaxAge
        else i.effectiveMaxAge }

end PageSpeed.Cache
