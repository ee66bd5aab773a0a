import Mathlib.Algebra.Ring.Int.Defs
import Mathlib.Algebra.Ring.Nat

/-!
# Conversions between integer types

A number that is stored in an `int`, an `unsigned` or an `unsigned long` keeps its lowest 32 or 64
bits.
-/

namespace CommonLib

/-- The conversion of a number to a 32-bit `int`. -/
def toInt (value : Int) : Int :=
  let low := value % 2 ^ 32
  if low < 2 ^ 31 then low else low - 2 ^ 32

/-- The conversion of a number to a 32-bit `unsigned`. -/
def toUnsigned (value : Int) : Nat := (value % 2 ^ 32).toNat

/-- The conversion of a number to a 64-bit `unsigned long`. -/
def toUnsignedLong (value : Int) : Nat := (value % 2 ^ 64).toNat

theorem toUnsigned_of_small {value : Int} (low : 0 ≤ value) (high : value < 2 ^ 32) :
    (toUnsigned value : Int) = value := by
  unfold toUnsigned
  omega

theorem toInt_toUnsigned {value : Int} (low : -2 ^ 31 ≤ value) (high : value < 2 ^ 31) :
    toInt (toUnsigned value) = value := by
  unfold toInt toUnsigned
  dsimp only
  split <;> omega

theorem toInt_ge (value : Int) : -2 ^ 31 ≤ toInt value := by
  unfold toInt
  dsimp only
  split <;> omega

theorem toInt_lt (value : Int) : toInt value < 2 ^ 31 := by
  unfold toInt
  dsimp only
  split <;> omega

/-- Only the last conversion of a sum matters. -/
theorem toInt_toInt_add (value summand : Int) :
    toInt (toInt value + summand) = toInt (value + summand) := by
  have same : (toInt value + summand) % 2 ^ 32 = (value + summand) % 2 ^ 32 := by
    unfold toInt
    dsimp only
    split <;> omega
  rw [toInt, same]
  rfl

end CommonLib
