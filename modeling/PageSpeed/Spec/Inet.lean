import PageSpeed.Spec.StringUtil
import PageSpeed.Wire.Find

/-!
# Address text

The system's address functions, which the network code calls and does not define:
`inet_pton` (the text forms of RFC 4291, dotted octets without leading zeros), the lenient
`inet_aton`, and `inet_ntop`. They read a string up to its first NUL.
-/

namespace PageSpeed.Inet

open Wire

/-- What `c_str()` hands over. -/
def cStr (s : Bytes) : Bytes := s.takeWhile (· ≠ 0)

/-- A decimal digit. -/
def isDigit (c : UInt8) : Bool := c ≥ ch '0' ∧ c ≤ ch '9'

/-- A hexadecimal digit. -/
def isHexDigit (c : UInt8) : Bool := (hexDigitValue c).isSome

/-- The value of a digit. -/
def digitValue (c : UInt8) : ℕ := (hexDigitValue c).getD 0

/-- The number a digit string denotes in a base. -/
def numeral (base : ℕ) (s : Bytes) : ℕ := s.foldl (fun v c => v * base + digitValue c) 0

/-- A number in decimal. -/
def decimal (n : ℕ) : Bytes := (Nat.toDigits 10 n).map fun c => UInt8.ofNat c.toNat

/-- A number in lower-case hexadecimal. -/
def hexadecimal (n : ℕ) : Bytes := (Nat.toDigits 16 n).map fun c => UInt8.ofNat c.toNat

/-- The separator of groups. -/
def colon : Bytes := lit ":"

/-! ## `inet_pton` -/

/-- A decimal octet without leading zeros. -/
def isOctet (s : Bytes) : Bool :=
  s ≠ [] ∧ s.length ≤ 3 ∧ s.all isDigit ∧ ¬ (s.length > 1 ∧ s.head? = some (ch '0')) ∧
    numeral 10 s ≤ 255

/-- Dotted decimal. -/
def inetPton4 (s : Bytes) : Option Bytes :=
  let octets := s.splitOn (ch '.')
  if octets.length = 4 ∧ octets.all isOctet then
    some (octets.map fun o => UInt8.ofNat (numeral 10 o))
  else none

/-- An IPv6 text as it is written: the groups before a "::", those after it, and the dotted
octets at the end. -/
structure V6Text where
  left : List Bytes
  right : Option (List Bytes)
  quad : Option Bytes
  deriving DecidableEq

namespace V6Text

/-- One to four hexadecimal digits. -/
def isGroup (s : Bytes) : Bool := s ≠ [] ∧ s.length ≤ 4 ∧ s.all isHexDigit

/-- The two bytes of a group. -/
def groupBytes (s : Bytes) : Bytes := beBytes 2 (numeral 16 s)

/-- The bytes written before a "::". -/
def leftBytes (x : V6Text) : Bytes := x.left.flatMap groupBytes

/-- The bytes written after it, and those of the octets. -/
def rightBytes (x : V6Text) : Bytes :=
  (x.right.getD []).flatMap groupBytes ++ (x.quad.bind inetPton4).getD []

/-- Groups have one to four digits, and "::" stands for at least one group. -/
def isValid (x : V6Text) : Bool :=
  x.left.all isGroup ∧ (x.right.getD []).all isGroup ∧ x.quad.all (fun q => (inetPton4 q).isSome) ∧
    if x.right.isSome then x.leftBytes.length + x.rightBytes.length ≤ 14
    else x.leftBytes.length + x.rightBytes.length = 16

/-- The address: what is written on each side, and zeros between. -/
def bytes (x : V6Text) : Bytes :=
  x.leftBytes ++ List.replicate (16 - x.leftBytes.length - x.rightBytes.length) 0 ++ x.rightBytes

end V6Text

/-- The fields between colons. -/
def fields (s : Bytes) : List Bytes := if s = [] then [] else s.splitOn (ch ':')

/-- The fields, with the last one apart if it has a dot. -/
def splitQuad (s : Bytes) : List Bytes × Option Bytes :=
  match (fields s).getLast? with
  | none => ([], none)
  | some q => if ch '.' ∈ q then ((fields s).dropLast, some q) else (fields s, none)

/-- How a text is written. -/
def writtenAs (s : Bytes) : V6Text :=
  match find (lit "::") s with
  | none => ⟨(splitQuad s).1, none, (splitQuad s).2⟩
  | some i =>
    ⟨fields (s.take i), some (splitQuad (s.drop (i + 2))).1, (splitQuad (s.drop (i + 2))).2⟩

/-- How the text of an address is written. -/
def readV6 (s : Bytes) : Option V6Text := if (writtenAs s).isValid then some (writtenAs s) else none

/-- The bytes of an IPv6 text. -/
def inetPton6 (s : Bytes) : Option Bytes := (readV6 s).map V6Text.bytes

/-! ## `inet_aton` -/

/-- `strtoul` with base 0: "0x" is hexadecimal, "0" octal. The number and the rest. -/
def strtoul (s : Bytes) : ℕ × Bytes :=
  match s with
  | c :: x :: d :: rest =>
    if c = ch '0' ∧ (x = ch 'x' ∨ x = ch 'X') ∧ isHexDigit d then
      (numeral 16 ((d :: rest).takeWhile isHexDigit), (d :: rest).dropWhile isHexDigit)
    else ofDigits s
  | _ => ofDigits s
where
  ofDigits (s : Bytes) : ℕ × Bytes :=
    if s.head? = some (ch '0') then
      let octal := fun c => c ≥ ch '0' ∧ c ≤ ch '7'
      (numeral 8 (s.takeWhile octal), s.dropWhile octal)
    else (numeral 10 (s.takeWhile isDigit), s.dropWhile isDigit)

/-- White space in the C locale. -/
def isSpace (c : UInt8) : Bool := c = ch ' ' ∨ (c ≥ 9 ∧ c ≤ 13)

/-- The parts of a lenient address: `parts` more may follow a dot, and the last one fills
what is left of the 32 bits. -/
def atonParts (parts value : ℕ) (s : Bytes) : Option ℕ :=
  if s.head?.any isDigit then
    let (v, rest) := strtoul s
    if v > 0xffffffff then none
    else if rest.head? = some (ch '.') then
      match parts with
      | 0 => none
      | parts + 1 => if v > 0xff then none else atonParts parts (value * 256 + v) rest.tail
    else if rest.head?.all isSpace ∧ v < 256 ^ (parts + 1) then some (value * 256 ^ (parts + 1) + v)
    else none
  else none

/-- The bytes of an IPv4 text with one to four parts in any base. -/
def inetAton (s : Bytes) : Option Bytes := (atonParts 3 0 s).map (beBytes 4)

/-! ## `inet_ntop` -/

/-- An IPv4 address in dotted form. -/
def inetNtop4 (b : Bytes) : Bytes := (lit ".").intercalate (b.map fun o => decimal o.toNat)

/-- The 16-bit words of an address. -/
def words : Bytes → List ℕ
  | hi :: lo :: rest => (hi.toNat * 256 + lo.toNat) :: words rest
  | _ => []

/-- The first longest run of zero words, as position and length; at least two words. -/
def zeroRun (ws : List ℕ) : Option (ℕ × ℕ) :=
  let runs := (List.range ws.length).map fun i => (i, ((ws.drop i).takeWhile (· = 0)).length)
  let longest := runs.foldl (fun best r => if r.2 > best.2 then r else best) (0, 0)
  if longest.2 ≥ 2 then some longest else none

/-- An IPv6 address, its longest run of zero groups compressed. -/
def inetNtop6 (b : Bytes) : Bytes :=
  let ws := words b
  let text := fun l : List ℕ => colon.intercalate (l.map hexadecimal)
  match zeroRun ws with
  | none => text ws
  | some (i, n) =>
    -- an IPv4-compatible or an IPv4-mapped address shows its last four bytes in decimal
    if i = 0 ∧ n = 6 then lit "::" ++ inetNtop4 (b.drop 12)
    else if i = 0 ∧ n = 5 ∧ ws.getD 5 0 = 0xffff then lit "::ffff:" ++ inetNtop4 (b.drop 12)
    else text (ws.take i) ++ lit "::" ++ text (ws.drop (i + n))

end PageSpeed.Inet
