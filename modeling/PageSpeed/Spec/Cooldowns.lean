import PageSpeed.Wire.Split
import PageSpeed.Spec.Ipc
import PageSpeed.Spec.ProcessedMarks

/-!
# Cooldowns by internal key

A URL that was tried in vain is left alone for a while. The table of cooldowns is by internal key,
and the list of those that are active (`Worker::ListActiveCooldowns`) takes the keys apart again.
-/

namespace PageSpeed

open Wire

/-- Why a URL is left alone for a while. -/
inductive CooldownReason
  | kProcessing
  | kWriteFailure
  | kRevalidation
  deriving DecidableEq, Repr

/-- Times are in nanoseconds of the steady clock. -/
structure CooldownEntry where
  createdAt : ℤ
  expiry : ℤ
  reason : CooldownReason
  deriving DecidableEq, Repr

/-- An entry as it is shown. -/
structure CooldownListEntry where
  url : Bytes
  hostname : Bytes
  scheme : Bytes
  reason : CooldownReason
  remainingSeconds : ℤ
  durationSeconds : ℤ
  deriving DecidableEq, Repr

/-- Whole seconds, in an `int`. -/
def wholeSeconds (nanoseconds : ℤ) : ℤ := (nanoseconds.tdiv 1000000000).bmod (2 ^ 32)

/-- The length of what a site adds to a key. -/
def kSiteSuffix : ℕ := 3 + kSiteIdChars

/-- The key without the site: what stands there for one is known by its length and its first three
bytes. -/
def dropSite (fullKey : Bytes) : Bytes :=
  if fullKey.length > kSiteSuffix ∧
      (fullKey.drop (fullKey.length - kSiteSuffix)).take 3 = lit "|s=" then
    fullKey.take (fullKey.length - kSiteSuffix)
  else fullKey

/-- The key split on its last two separators. The second search starts before the first separator;
when that is the first byte, the position wraps and the search is over the whole key again. -/
def splitKey (key : Bytes) : Option (Bytes × Bytes × Bytes) :=
  match rfind (ch '|') key with
  | none => none
  | some schemeSep =>
    match rfind (ch '|') (if schemeSep = 0 then key else key.take schemeSep) with
    | none => none
    | some hostSep =>
      let afterHostSep := key.drop (hostSep + 1)
      let hostname :=
        if schemeSep ≤ hostSep then afterHostSep else afterHostSep.take (schemeSep - hostSep - 1)
      some (key.take hostSep, hostname, key.drop (schemeSep + 1))

/-- An entry as it is shown, with the seconds that are left of it. -/
def CooldownEntry.listed (now : ℤ) (entry : CooldownEntry) (url hostname scheme : Bytes) :
    CooldownListEntry where
  url := url
  hostname := hostname
  scheme := scheme
  reason := entry.reason
  remainingSeconds := wholeSeconds (entry.expiry - now)
  durationSeconds := wholeSeconds (entry.expiry - entry.createdAt)

/-- The loop of the list, for one entry of the table. -/
def listCooldown (now : ℤ) (fullKey : Bytes) (entry : CooldownEntry) : Option CooldownListEntry :=
  if now ≥ entry.expiry then none
  else (splitKey (dropSite fullKey)).map fun (url, hostname, scheme) =>
    entry.listed now url hostname scheme

/-- The table in the order in which it is walked. -/
def listActiveCooldowns (now : ℤ) (textCooldownExpiry : List (Bytes × CooldownEntry)) :
    List CooldownListEntry :=
  textCooldownExpiry.filterMap fun (fullKey, entry) => listCooldown now fullKey entry

/-! ## Names that make keys -/

/-- What the separators of a key rest on: no pipe in the hostname, one of two schemes, a site in its
form. -/
structure ResourceName.Keyable (r : ResourceName) : Prop where
  hostname : ch '|' ∉ r.hostname
  scheme : r.scheme = lit "http" ∨ r.scheme = lit "https"
  site : r.site = [] ∨ isSiteId r.site = true

/-- A resource name that a key can be made of. -/
abbrev KeyedName := { r : ResourceName // r.Keyable }

/-- A cooldown is reported under its own name. -/
def ownEntry (now : ℤ) (c : KeyedName × CooldownEntry) : CooldownListEntry :=
  c.2.listed now c.1.val.url c.1.val.hostname c.1.val.scheme

/-- A name without a site whose key ends like one with a site. -/
def ResourceName.ImitatesSite (r : ResourceName) : Prop :=
  r.site = [] ∧ ∃ before rest, before ≠ [] ∧ rest.length = kSiteIdChars ∧
    r.url ++ lit "|" ++ r.hostname ++ lit "|" ++ r.scheme = before ++ lit "|s=" ++ rest

end PageSpeed
