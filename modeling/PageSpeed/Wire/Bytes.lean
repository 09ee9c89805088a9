import Mathlib.Tactic

/-!
# Byte strings and fixed-width integers

Byte strings are lists of `UInt8`. A fixed-width unsigned integer goes on the wire as
its base-256 digits, least significant byte first (`leBytes`) or last (`beBytes`).

* `Scalar`: a type whose values are exactly the numbers below `256 ^ width`.
* `Scalar.ofLe_toLe`, `Scalar.ofBe_toBe`: reading back what was written.
-/

namespace PageSpeed.Wire

/-- A byte string. -/
abbrev Bytes := List UInt8

instance : LawfulBEq Bytes := inferInstanceAs (LawfulBEq (List UInt8))

/-- The byte of an ASCII character. -/
abbrev ch (c : Char) : UInt8 := c.toUInt8

/-- The bytes of an ASCII literal. -/
def lit (s : String) : Bytes := s.toList.map ch

/-- A decidable property of bytes is checked on all 256 of them. -/
instance decidableForallByte {p : UInt8 → Prop} [DecidablePred p] : Decidable (∀ b, p b) :=
  decidable_of_iff (∀ i : Fin 256, p (UInt8.ofFin i))
    ⟨fun h b => h b.toFin, fun h _ => h _⟩

/-! ## Base-256 digits -/

/-- The `k` low base-256 digits of `n`, least significant first. -/
def leBytes : ℕ → ℕ → Bytes
  | 0, _ => []
  | k + 1, n => UInt8.ofNat (n % 256) :: leBytes k (n / 256)

/-- The number a little-endian byte string denotes. -/
def leNat : Bytes → ℕ
  | [] => 0
  | b :: bs => b.toNat + 256 * leNat bs

/-- The `k` low base-256 digits of `n`, most significant first. -/
def beBytes (k n : ℕ) : Bytes := (leBytes k n).reverse

/-- The number a big-endian byte string denotes. -/
def beNat (b : Bytes) : ℕ := leNat b.reverse

@[simp] theorem length_leBytes (k n : ℕ) : (leBytes k n).length = k := by
  induction k generalizing n with
  | zero => rfl
  | succ k ih => simp [leBytes, ih]

@[simp] theorem length_beBytes (k n : ℕ) : (beBytes k n).length = k := by simp [beBytes]

/-- A number in `k` bytes is read back modulo their range. -/
theorem leNat_leBytes (k n : ℕ) : leNat (leBytes k n) = n % 256 ^ k := by
  induction k generalizing n with
  | zero => simp [leBytes, leNat, Nat.mod_one]
  | succ k ih =>
    have h : (UInt8.ofNat (n % 256)).toNat = n % 256 := by simp
    rw [leBytes, leNat, ih, h, pow_succ, mul_comm _ 256, Nat.mod_mul]

/-- The same, most significant byte first. -/
theorem beNat_beBytes (k n : ℕ) : beNat (beBytes k n) = n % 256 ^ k := by
  rw [beNat, beBytes, List.reverse_reverse, leNat_leBytes]

/-! ## Scalars -/

/-- A fixed-width unsigned integer type: its values are the numbers below `256 ^ width`. -/
class Scalar (α : Type) where
  width : ℕ
  toNat : α → ℕ
  ofNat : ℕ → α
  toNat_lt : ∀ x, toNat x < 256 ^ width
  ofNat_toNat : ∀ x, ofNat (toNat x) = x
  toNat_ofNat : ∀ n, n < 256 ^ width → toNat (ofNat n) = n

instance : Scalar UInt8 :=
  ⟨1, UInt8.toNat, UInt8.ofNat, fun x => x.toNat_lt, fun _ => UInt8.ofNat_toNat,
    fun _ h => UInt8.toNat_ofNat_of_lt' h⟩

instance : Scalar UInt16 :=
  ⟨2, UInt16.toNat, UInt16.ofNat, fun x => x.toNat_lt, fun _ => UInt16.ofNat_toNat,
    fun _ h => UInt16.toNat_ofNat_of_lt' h⟩

instance : Scalar UInt32 :=
  ⟨4, UInt32.toNat, UInt32.ofNat, fun x => x.toNat_lt, fun _ => UInt32.ofNat_toNat,
    fun _ h => UInt32.toNat_ofNat_of_lt' h⟩

instance : Scalar UInt64 :=
  ⟨8, UInt64.toNat, UInt64.ofNat, fun x => x.toNat_lt, fun _ => UInt64.ofNat_toNat,
    fun _ h => UInt64.toNat_ofNat_of_lt' h⟩

namespace Scalar

@[simp] theorem width_uint8 : width UInt8 = 1 := rfl

@[simp] theorem width_uint16 : width UInt16 = 2 := rfl

@[simp] theorem width_uint32 : width UInt32 = 4 := rfl

@[simp] theorem width_uint64 : width UInt64 = 8 := rfl

variable {α : Type} [Scalar α]

/-- The little-endian bytes of a scalar. -/
def toLe (x : α) : Bytes := leBytes (width α) (toNat x)

/-- The scalar a little-endian byte string denotes. -/
def ofLe (b : Bytes) : α := ofNat (leNat b)

/-- The big-endian bytes of a scalar. -/
def toBe (x : α) : Bytes := beBytes (width α) (toNat x)

/-- The scalar a big-endian byte string denotes. -/
def ofBe (b : Bytes) : α := ofNat (beNat b)

@[simp] theorem length_toLe (x : α) : (toLe x).length = width α := by simp [toLe]

@[simp] theorem length_toBe (x : α) : (toBe x).length = width α := by simp [toBe]

/-- A number is read back. -/
@[simp] theorem ofLe_toLe (x : α) : (ofLe (toLe x) : α) = x := by
  rw [ofLe, toLe, leNat_leBytes, Nat.mod_eq_of_lt (toNat_lt x), ofNat_toNat]

/-- The same, most significant byte first. -/
@[simp] theorem ofBe_toBe (x : α) : (ofBe (toBe x) : α) = x := by
  rw [ofBe, toBe, beNat_beBytes, Nat.mod_eq_of_lt (toNat_lt x), ofNat_toNat]

end Scalar

end PageSpeed.Wire
