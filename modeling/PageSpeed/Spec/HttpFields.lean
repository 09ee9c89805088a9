import PageSpeed.Wire.Bytes

/-!
# Header fields

What `lib/cache` knows of header lines: names compared without regard to ASCII case, optional
whitespace, and lists at commas. The files of the directory have these helpers each in a copy of its
own.
-/

namespace PageSpeed.Cache

open Wire

/-- A header line. -/
structure HeaderField where
  name : Bytes
  value : Bytes
  deriving DecidableEq

/-- A letter in lower case. -/
def asciiLowerChar (c : UInt8) : UInt8 := if ch 'A' ≤ c ∧ c ≤ ch 'Z' then c ||| 0x20 else c

/-- A text in lower case. -/
def asciiLower (s : Bytes) : Bytes := s.map asciiLowerChar

/-- Equality up to case. -/
def asciiEqualsIgnoreCase (a b : Bytes) : Bool := asciiLower a = asciiLower b

/-- Optional white space. -/
def isOws (c : UInt8) : Bool := c = ch ' ' ∨ c = ch '\t'

/-- The text without optional white space at both ends. -/
def trimOws (s : Bytes) : Bytes := ((s.dropWhile isOws).reverse.dropWhile isOws).reverse

/-- The loop that takes a token off the front of a line until the line is empty: nothing follows a
last comma. -/
def commaTokens : Bytes → List Bytes
  | [] => []
  | c :: rest =>
    if c = ch ',' then [] :: commaTokens rest
    else
      match commaTokens rest with
      | [] => [[c]]
      | token :: tokens => (c :: token) :: tokens

/-- The characters of a token. -/
def isTokenChar (c : UInt8) : Bool :=
  (ch 'a' ≤ c ∧ c ≤ ch 'z') ∨ (ch 'A' ≤ c ∧ c ≤ ch 'Z') ∨ (ch '0' ≤ c ∧ c ≤ ch '9') ∨
    c ∈ lit "!#$%&'*+-.^_`|~"

end PageSpeed.Cache
