import PageSpeed.Wire.Bytes

/-!
# Base64

The lenient decoders of `src/crypto/webbotauth/base64.cc`: padding is optional, left-over bits
are dropped.
-/

namespace PageSpeed

open Wire

/-- The six bits of a character of the alphabet. -/
def decodeChar (c : UInt8) (urlSafe : Bool) : Option UInt32 :=
  if c ≥ ch 'A' ∧ c ≤ ch 'Z' then some (c - ch 'A').toUInt32
  else if c ≥ ch 'a' ∧ c ≤ ch 'z' then some ((c - ch 'a').toUInt32 + 26)
  else if c ≥ ch '0' ∧ c ≤ ch '9' then some ((c - ch '0').toUInt32 + 52)
  else if c = (if urlSafe then ch '-' else ch '+') then some 62
  else if c = (if urlSafe then ch '_' else ch '/') then some 63
  else none

/-- The accumulator: bits not yet written, the number of characters read, and the output. -/
structure Base64State where
  buffer : UInt32 := 0
  bits : ℕ := 0
  sextets : ℕ := 0
  out : Bytes := []

/-- Six more bits, and a byte of output once eight are there. -/
def Base64State.push (st : Base64State) (v : UInt32) : Base64State :=
  let buffer := st.buffer <<< 6 ||| v
  let bits := st.bits + 6
  if bits ≥ 8 then
    { buffer := buffer
      bits := bits - 8
      sextets := st.sextets + 1
      out := st.out ++ [(buffer >>> UInt32.ofNat (bits - 8)).toUInt8] }
  else { buffer := buffer, bits := bits, sextets := st.sextets + 1, out := st.out }

/-- Padding ends the text: nothing else may come after it. -/
def decodeChars (urlSafe : Bool) : Bytes → Base64State → Option Base64State
  | [], st => some st
  | c :: rest, st =>
    if c = ch '=' then if rest.all (· = ch '=') then some st else none
    else
      match decodeChar c urlSafe with
      | none => none
      | some v => decodeChars urlSafe rest (st.push v)

/-- The decoder of either alphabet: a single character left over is an error. -/
def decodeImpl (input : Bytes) (urlSafe : Bool) : Option Bytes :=
  match decodeChars urlSafe input {} with
  | none => none
  | some st => if st.sextets % 4 = 1 then none else some st.out

/-- The standard alphabet. -/
def base64Decode (input : Bytes) : Option Bytes := decodeImpl input false

end PageSpeed
