import CommonLib.Hlib.CirBuffer
import CommonLib.Library.Separator

/-!
# Strings of `hpasutils.cpp`

A `string` is the list of its bytes, and lengths and positions are exact integers.  Characters are
classified as in the "C" locale.
-/

namespace CommonLib
namespace PasUtils

/-- The bytes of an ASCII text. -/
def ascii (text : String) : List Byte := text.toList.map fun c => UInt8.ofNat c.toNat

/-- `isdigit`. -/
def isDigit (x : Byte) : Bool := 48 ≤ x && x ≤ 57

/-- `toupper`. -/
def toUpper (x : Byte) : Byte := if 97 ≤ x ∧ x ≤ 122 then x - 32 else x

def upperCase (s : List Byte) : List Byte := s.map toUpper

/-- `string::substr`, which throws `out_of_range` for a start behind the end. -/
def substr (s : List Byte) (pos len : Nat) : Option (List Byte) :=
  if pos ≤ s.length then some ((s.drop pos).take len) else none

/-- `string::find`. -/
def find (src sep : List Byte) (pos : Nat) : Option Nat :=
  if pos ≤ src.length then (Separator.firstMatch sep (src.drop pos)).map (pos + ·) else none

def midStr (src : List Byte) (start len : Nat) : Option (List Byte) := substr src (start - 1) len

/-- The text in front of the first NUL, as a `char*` gives it. -/
def cString (s : List Byte) : List Byte := s.takeWhile (· != 0)

theorem substr_eq_some {s : List Byte} {pos : Nat} (inside : pos ≤ s.length) (len : Nat) :
    substr s pos len = some ((s.drop pos).take len) :=
  if_pos inside

theorem cString_of_not_mem {s : List Byte} (absent : 0 ∉ s) : cString s = s := by
  induction s with
  | nil => rfl
  | cons c rest ih =>
      rw [List.mem_cons, not_or] at absent
      have nonzero : (c != 0) = true := bne_iff_ne.mpr (Ne.symm absent.1)
      rw [cString, List.takeWhile_cons, if_pos nonzero]
      exact congrArg (c :: ·) (ih absent.2)

theorem cString_terminated {s : List Byte} (absent : 0 ∉ s) : cString (s ++ [0]) = s := by
  induction s with
  | nil => rfl
  | cons c rest ih =>
      rw [List.mem_cons, not_or] at absent
      have nonzero : (c != 0) = true := bne_iff_ne.mpr (Ne.symm absent.1)
      rw [List.cons_append, cString, List.takeWhile_cons, if_pos nonzero]
      exact congrArg (c :: ·) (ih absent.2)

theorem length_cString_lt {s : List Byte} (present : 0 ∈ s) : (cString s).length < s.length := by
  induction s with
  | nil => exact absurd present List.not_mem_nil
  | cons c rest ih =>
      rw [cString, List.takeWhile_cons]
      split
      · rename_i nonzero
        have later := (List.mem_cons.mp present).resolve_left (bne_iff_ne.mp nonzero).symm
        exact Nat.succ_lt_succ (ih later)
      · exact Nat.succ_pos _

/-! ## Hexadecimal digits -/

def toHex (x : Byte) : Byte := if x > 9 then x - 10 + 65 else x + 48

def fromHex (x : Byte) : Byte := if isDigit x then x - 48 else x - 65 + 10

theorem isDigit_iff (x : Byte) : isDigit x = true ↔ 48 ≤ x.toNat ∧ x.toNat ≤ 57 := by
  simp [isDigit, UInt8.le_iff_toNat_le]

/-- The digits that `toHex` writes. -/
theorem toNat_toHex {x : Byte} (digit : x.toNat < 16) :
    (toHex x).toNat = if 9 < x.toNat then x.toNat + 55 else x.toNat + 48 := by
  unfold toHex
  simp only [gt_iff_lt, UInt8.lt_iff_toNat_lt, UInt8.toNat_ofNat]
  split <;> simp [UInt8.toNat_add, UInt8.toNat_sub] <;> omega

theorem toNat_fromHex (x : Byte) :
    (fromHex x).toNat =
      if isDigit x then x.toNat - 48 else (x.toNat + 201) % 256 := by
  unfold fromHex
  split
  · rename_i digit
    rw [isDigit_iff] at digit
    simp [UInt8.toNat_sub]
    omega
  · simp [UInt8.toNat_add, UInt8.toNat_sub]
    omega

theorem fromHex_toHex {x : Byte} (digit : x.toNat < 16) : fromHex (toHex x) = x := by
  apply UInt8.toNat_inj.mp
  rw [toNat_fromHex]
  simp only [isDigit_iff, toNat_toHex digit]
  split <;> split <;> omega

/-- The letters among the digits are capitals. -/
theorem toUpper_toHex {x : Byte} (digit : x.toNat < 16) : toUpper (toHex x) = toHex x := by
  unfold toUpper
  rw [if_neg]
  simp only [UInt8.le_iff_toNat_le, UInt8.toNat_ofNat, toNat_toHex digit]
  split <;> omega

theorem low_digit (c : Byte) : (c % 16).toNat = c.toNat % 16 := by
  simp only [UInt8.toNat_mod, UInt8.reduceToNat]

theorem low_digit_lt (c : Byte) : (c % 16).toNat < 16 := by
  rw [low_digit]
  omega

end PasUtils
end CommonLib
