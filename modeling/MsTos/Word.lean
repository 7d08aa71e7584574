-- SUMMARY: The 16-bit integer types of the MSP430: `size_t`, `int` and the conversions between them.
import Mathlib.Init

namespace MsTos

/-- The number of values of a 16-bit type. -/
abbrev wordSize : Nat := 65536

/-- Conversion to `int` (and to `int16_t`): the value modulo 2^16 that lies between
`INT_MIN` and `INT_MAX`. -/
def toInt (z : Int) : Int := (z + 32768) % 65536 - 32768

/-- Conversion to `size_t` (and to `uint16_t`). -/
def toSize (z : Int) : Nat := (z % 65536).toNat

theorem toInt_mem (z : Int) : -32768 ≤ toInt z ∧ toInt z ≤ 32767 := by
  unfold toInt
  omega

theorem toInt_of_mem {z : Int} (h : -32768 ≤ z) (h' : z ≤ 32767) : toInt z = z := by
  unfold toInt
  omega

/-- Where an `int` underflows, it gets larger. -/
theorem le_toInt {z : Int} (h : -98304 ≤ z) (h' : z ≤ 32767) : z ≤ toInt z := by
  unfold toInt
  omega

/-- Taking a `size_t` off a value of an `int` does not get below the difference. -/
theorem sub_le_toInt {p : Int} {n : Nat} (h : -32768 ≤ p) (h' : p ≤ 32767) (hn : n < wordSize) :
    p - n ≤ toInt (p - n) := by
  have hn : n < 65536 := hn
  apply le_toInt <;> omega

theorem toSize_lt (z : Int) : toSize z < wordSize := by
  unfold toSize wordSize
  omega

end MsTos
