import Mathlib.Tactic.Common

/-!
# Fixed-width integer conversions

What C++ does when a value of one integer type is stored in another. Every
conversion is a function on `Int`, so that a mixed expression is written as the
composition the compiler performs, and `omega` can read the result.

Signed overflow does not occur here: the definitions are for conversions between
types, not for arithmetic inside one.
-/

namespace StarCraftIocp.CInt

/-- Conversion to `int32`: the representative in `[-2^31, 2^31)`. -/
def int32 (n : Int) : Int := (n + 2147483648) % 4294967296 - 2147483648

/-- Conversion to `int16`: the representative in `[-2^15, 2^15)`. -/
def int16 (n : Int) : Int := (n + 32768) % 65536 - 32768

/-- Conversion to `uint16`. -/
def uint16 (n : Int) : Int := n % 65536

/-- Conversion to `uint32`. -/
def uint32 (n : Int) : Int := n % 4294967296

/-- Conversion to `uint64`. -/
def uint64 (n : Int) : Int := n % 18446744073709551616

/-- Conversion to `size_t`, 64 bits wide on the target. -/
def sizeT (n : Int) : Int := uint64 n

/-- Conversion to `int64`: the representative in `[-2^63, 2^63)`. -/
def int64 (n : Int) : Int := (n + 9223372036854775808) % 18446744073709551616 - 9223372036854775808

/-- `INT_MAX`. -/
def intMax : Int := 2147483647

/-- `UINT16_MAX`. -/
def uint16Max : Nat := 65535

theorem int32_of_range {n : Int} (h0 : -2147483648 ≤ n) (h1 : n < 2147483648) :
    int32 n = n := by unfold int32; omega

/-- The bits of a 16-bit integer, read as one. -/
theorem int16_toUInt16 (x : Int16) : int16 x.toUInt16.toNat = x.toInt := by
  have hnat : x.toUInt16.toNat = x.toBitVec.toNat := rfl
  have hint : x.toInt = x.toBitVec.toInt := rfl
  have hlt := x.toBitVec.isLt
  rw [hnat, hint, BitVec.toInt_eq_toNat_cond]
  unfold int16
  split <;> omega

/-- The cast to a `short`. -/
theorem toInt_ofInt (n : Int) : (Int16.ofInt n).toInt = int16 n := by
  have hsize : Int16.size = 65536 := rfl
  rw [Int16.toInt_ofInt, hsize, Int.bmod_def]
  unfold int16
  split <;> omega

/-- The bits of a 32-bit integer, read as one. -/
theorem int32_toUInt32 (x : Int32) : int32 x.toUInt32.toNat = x.toInt := by
  have hnat : x.toUInt32.toNat = x.toBitVec.toNat := rfl
  have hint : x.toInt = x.toBitVec.toInt := rfl
  have hlt := x.toBitVec.isLt
  rw [hnat, hint, BitVec.toInt_eq_toNat_cond]
  unfold int32
  split <;> omega

theorem sizeT_of_range {n : Int} (h0 : 0 ≤ n) (h1 : n < 2147483648) : sizeT n = n := by
  unfold sizeT uint64; omega

theorem int64_of_range {n : Int} (h0 : 0 ≤ n) (h1 : n < 9223372036854775808) : int64 n = n := by
  unfold int64; omega

theorem uint64_of_range {n : Int} (h0 : 0 ≤ n) (h1 : n < 18446744073709551616) : uint64 n = n := by
  unfold uint64; omega

/-- Addition in `size_t` followed by a conversion to `int32` is addition in `int32`. -/
theorem int32_sizeT_add {n k : Int} (h0 : 0 ≤ n + k) (h1 : n + k < 2147483648) :
    int32 (sizeT (sizeT n + k)) = n + k := by
  unfold int32 sizeT uint64; omega

/-- Subtraction in `size_t` followed by a conversion to `int32` is subtraction in `int32`. -/
theorem int32_sizeT_sub {n k : Int} (h0 : -2147483648 ≤ n - k) (h1 : n - k < 2147483648) :
    int32 (sizeT (sizeT n - k)) = n - k := by
  unfold int32 sizeT uint64; omega

end StarCraftIocp.CInt
