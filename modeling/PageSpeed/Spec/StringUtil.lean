import PageSpeed.Wire.Bytes

/-!
# String helpers

The ASCII helpers and the percent-encoding scanner of `lib/base/string_util.h`, and the comparison
of secrets of `lib/base/string_util.cc`.
-/

namespace PageSpeed

open Wire

/-- The value of a hexadecimal digit. -/
def hexDigitValue (c : UInt8) : Option ℕ :=
  if c ≥ ch '0' ∧ c ≤ ch '9' then some (c.toNat - (ch '0').toNat)
  else if c ≥ ch 'a' ∧ c ≤ ch 'f' then some (c.toNat - (ch 'a').toNat + 10)
  else if c ≥ ch 'A' ∧ c ≤ ch 'F' then some (c.toNat - (ch 'A').toNat + 10)
  else none

/-- A letter in lower case. -/
def lowerChar (c : UInt8) : UInt8 :=
  if c ≥ ch 'A' ∧ c ≤ ch 'Z' then c - ch 'A' + ch 'a' else c

/-- Equality up to case. -/
def stringCaseEqual (s t : Bytes) : Bool := s.map lowerChar = t.map lowerChar

theorem stringCaseEqual_refl (s : Bytes) : stringCaseEqual s s := decide_eq_true rfl

/-- The scan over percent-encoded input: what each valid escape and each other byte append. -/
def transformPercentEncoded (onDecoded : UInt8 → ℕ → ℕ → Bytes) (onLiteral : UInt8 → Bytes) :
    Bytes → Bytes
  | [] => []
  | c :: a :: b :: rest =>
    match (if c = ch '%' then hexDigitValue a else none), hexDigitValue b with
    | some hi, some lo =>
      onDecoded (UInt8.ofNat (hi * 16 + lo)) hi lo ++
        transformPercentEncoded onDecoded onLiteral rest
    | _, _ => onLiteral c ++ transformPercentEncoded onDecoded onLiteral (a :: b :: rest)
  | c :: rest => onLiteral c ++ transformPercentEncoded onDecoded onLiteral rest

/-- A byte behind the end of the shorter string counts as 0; the lengths are in the accumulator. -/
def constantTimeCompare (a b : Bytes) : Bool :=
  let maxLen := max a.length b.length
  (List.range maxLen).foldl (fun acc i => acc ||| (a.getD i 0 ^^^ b.getD i 0).toNat)
    (a.length ^^^ b.length) = 0

end PageSpeed
