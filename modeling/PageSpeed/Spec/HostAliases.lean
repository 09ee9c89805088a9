import Mathlib.Data.List.AList
import PageSpeed.Spec.Inet

/-!
# Host aliases

The worker takes its host aliases from its `--host-alias` arguments (`src/worker/main.cc`,
`Worker::Initialize`) and leaves them for the nginx module in the file `pagespeed-hosts.conf`
(`src/worker/host_aliases.cc`), from which the module reads them back (`RebuildUrlNormConfig` of
`src/nginx/ngx_pagespeed_module.cc`). The cache path is set, and files can be read and replaced.
-/

namespace PageSpeed

open Wire Inet

/-- An argument of the command line: a string without NUL. -/
def Argument : Type := { val : Bytes // (0 : UInt8) ∉ val }

/-- From a hostname to the one it stands for. -/
abbrev HostAliases := AList fun _ : Bytes => Bytes

/-! ## The worker -/

/-- One `--host-alias`; the worker does not start on one that has no source or no destination. -/
def parseHostAlias (val : Bytes) : Option (Bytes × Bytes) :=
  match find [ch '='] val with
  | none => none
  | some eq =>
    if eq = 0 ∨ eq + 1 ≥ val.length then none
    else some (val.take eq, val.drop (eq + 1))

/-- All arguments, or none if one of them is malformed. -/
def parseHostAliasArguments (args : List Argument) : Option (List (Bytes × Bytes)) :=
  args.mapM fun arg => parseHostAlias arg.val

/-- The map the worker itself normalises hostnames with. -/
def workerHostAliases (aliases : List (Bytes × Bytes)) : HostAliases :=
  aliases.foldl (fun map entry => map.insert entry.1 entry.2) ∅

/-- A name that would break its line of the file. -/
def hasNewline (s : Bytes) : Bool := ch '\n' ∈ s ∨ ch '\r' ∈ s

/-- A line of the file. -/
def aliasLine (entry : Bytes × Bytes) : Bytes := entry.1 ++ ch '=' :: entry.2

/-- The file that the worker writes. -/
def hostAliasesContent (aliases : List (Bytes × Bytes)) : Bytes :=
  lit "# Written by pagespeed-worker. Do not edit.\n" ++ lit "version=1\n" ++
    aliases.flatMap fun entry => aliasLine entry ++ [ch '\n']

/-- The file after the worker has started, and what `WriteHostAliasesFile` returns, which the worker
does not look at. -/
def writeHostAliasesFile (file : Option Bytes) (aliases : List (Bytes × Bytes)) :
    Option Bytes × Bool :=
  if aliases.any fun entry => hasNewline entry.1 ∨ hasNewline entry.2 then (file, false)
  else (some (hostAliasesContent aliases), true)

/-! ## The module -/

/-- `std::from_chars` for an `int`: the digits at the front, if there are any and the number
fits. -/
def fromCharsInt (s : Bytes) : Option ℤ :=
  let neg := s.head? = some (ch '-')
  let digits := (if neg then s.tail else s).takeWhile isDigit
  let v : ℤ := if neg then -(numeral 10 digits : ℤ) else numeral 10 digits
  if digits = [] then none
  else if -2 ^ 31 ≤ v ∧ v < 2 ^ 31 then some v
  else none

/-- A line without a carriage return at its end. -/
def stripTrailingCr (line : Bytes) : Bytes :=
  if line.getLast? = some (ch '\r') then line.dropLast else line

/-- What a line says. -/
inductive AliasLine
  | skip
  | version (v : ℤ)
  | entry (key value : Bytes)
  deriving DecidableEq

/-- A line of the file as the module reads it. -/
def readAliasLine (line : Bytes) : AliasLine :=
  let line := stripTrailingCr line
  if line = [] ∨ line.head? = some (ch '#') then .skip
  else
    match find [ch '='] line with
    | none => .skip
    | some eq =>
      let key := line.take eq
      let value := line.drop (eq + 1)
      if 0 ∈ key ∨ 0 ∈ value then .skip
      else if key = lit "version" then
        match fromCharsInt value with
        | some v => .version v
        | none => .skip
      else if key ≠ [] ∧ value ≠ [] then .entry key value
      else .skip

/-- The loop over the lines: a later line wins, and a file of another version has no aliases. -/
def readAliasLines : List Bytes → HostAliases → HostAliases
  | [], aliases => aliases
  | line :: lines, aliases =>
    match readAliasLine line with
    | .skip => readAliasLines lines aliases
    | .version v => if v ≥ 2 then ∅ else readAliasLines lines aliases
    | .entry key value => readAliasLines lines (aliases.insert key value)

/-- Behind the last line feed the source has no further line; here there is an empty one, which is
skipped. -/
def parseHostAliases (content : Bytes) : HostAliases := readAliasLines (content.splitOn (ch '\n')) ∅

/-- A larger file is not read. -/
def kMaxHostAliasesFileSize : ℕ := 64 * 1024

/-- What the module makes of the file. -/
def moduleHostAliases : Option Bytes → HostAliases
  | none => ∅
  | some content => if content.length ≤ kMaxHostAliasesFileSize then parseHostAliases content else ∅

end PageSpeed
