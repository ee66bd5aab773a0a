import CommonLib.Hlib.PasUtils

/-!
# Sealed passwords

`EncodePassword` puts a password between random letters, replaces each byte by its distance to the
byte behind it and writes the result in hexadecimal digits.  `DecodePassword` undoes the three steps
in reverse order.
-/

namespace CommonLib
namespace PasUtils

def charmap : List Byte := ascii "-_0123456789abcdefghijklmnopqrstuvwxyzABCDEFGHIJKLMNOPQRSTUVWXYZ"

/-- `RandomString`; `random i` is what the `i`-th call of `random()` returns. -/
def randomString (random : Nat → Nat) (len : Nat) : List Byte :=
  (List.range len).map fun i => charmap.getD (random i % 64) 0

/-- The loop of `Seal`, from the end of the string: the last `k` and the bytes written. -/
def sealLoop : List Byte → Byte × List Byte
  | [] => (0, [])
  | c :: rest =>
      let (k, ret) := sealLoop rest
      (c, UInt8.ofNat ((255 - c.toNat + k.toNat) % 256) :: ret)

/-- `Seal`. -/
def sealBytes (s : List Byte) : List Byte := (sealLoop s).2

/-- The loop of `Unseal`, where `k` is the byte written last. -/
def unsealLoop : List Byte → Byte × List Byte
  | [] => (0, [])
  | c :: rest =>
      let (k, ret) := unsealLoop rest
      let c := UInt8.ofNat (255 - (256 + c.toNat - k.toNat) % 256)
      (c, c :: ret)

/-- `Unseal`. -/
def unsealBytes (s : List Byte) : List Byte := (unsealLoop s).2

def sealToString (s : List Byte) : List Byte :=
  upperCase (s.flatMap fun c => [toHex (c / 16), toHex (c % 16)])

/-- The loop of `StringToSeal`: two digits for a byte, and a last odd digit is dropped. -/
def readPairs : List Byte → List Byte
  | high :: low :: rest => ((fromHex high <<< 4) + fromHex low) :: readPairs rest
  | _ => []

def stringToSeal (s : List Byte) : List Byte := readPairs (upperCase s)

/-- `EncodePassword`, with the draws for the letters before and behind the password. -/
def encodePassword (before behind : Nat → Nat) (password : List Byte) : List Byte :=
  sealToString (sealBytes (randomString before 2 ++ password ++ randomString behind 2))

/-- `DecodePassword`; an exception is caught. -/
def decodePassword (random : Nat → Nat) (password : List Byte) : List Byte :=
  let s := unsealBytes (stringToSeal password)
  let i := s.length
  if i > 4 then (midStr s 3 (i - 4)).getD (randomString random 20) else randomString random 20

/-! ## Each step is undone -/

/-- The chains of both loops carry the same byte. -/
theorem unsealLoop_sealLoop (s : List Byte) :
    unsealLoop (sealLoop s).2 = ((sealLoop s).1, s) := by
  induction s with
  | nil => rfl
  | cons c rest ih =>
      simp only [sealLoop, unsealLoop, ih]
      have restored : UInt8.ofNat (255 - (256 + (UInt8.ofNat ((255 - c.toNat +
          (sealLoop rest).1.toNat) % 256)).toNat - (sealLoop rest).1.toNat) % 256) = c := by
        have c_lt := c.toNat_lt
        have k_lt := (sealLoop rest).1.toNat_lt
        apply UInt8.toNat_inj.mp
        rw [UInt8.toNat_ofNat', UInt8.toNat_ofNat']
        omega
      rw [restored]

theorem unsealBytes_sealBytes (s : List Byte) : unsealBytes (sealBytes s) = s := by
  rw [unsealBytes, sealBytes, unsealLoop_sealLoop]

theorem toUpper_toUpper (x : Byte) : toUpper (toUpper x) = toUpper x := by
  unfold toUpper
  split
  · rename_i lower
    rw [if_neg]
    simp only [UInt8.le_iff_toNat_le, UInt8.toNat_ofNat] at lower ⊢
    rw [UInt8.toNat_sub_of_le _ _ (UInt8.le_iff_toNat_le.mpr (Nat.le_trans (by decide) lower.1))]
    simp only [UInt8.toNat_ofNat]
    omega
  · rfl

theorem upperCase_upperCase (s : List Byte) : upperCase (upperCase s) = upperCase s := by
  simp [upperCase, toUpper_toUpper]

/-- A byte is put together from its two digits. -/
theorem shift_add_low (c : Byte) : ((c / 16) <<< 4) + c % 16 = c := by
  have c_lt := c.toNat_lt
  apply UInt8.toNat_inj.mp
  simp only [UInt8.toNat_add, UInt8.toNat_shiftLeft, UInt8.toNat_div, UInt8.toNat_mod,
    UInt8.reduceToNat, Nat.shiftLeft_eq, Nat.reduceMod, Nat.reducePow]
  omega

theorem high_lt (c : Byte) : (c / 16).toNat < 16 := by
  have c_lt := c.toNat_lt
  simp only [UInt8.toNat_div, UInt8.reduceToNat]
  omega

theorem stringToSeal_sealToString (s : List Byte) : stringToSeal (sealToString s) = s := by
  rw [stringToSeal, sealToString, upperCase_upperCase]
  induction s with
  | nil => rfl
  | cons c rest ih =>
      simp only [upperCase, List.flatMap_cons, List.map_cons, List.cons_append, List.nil_append,
        readPairs] at ih ⊢
      rw [ih, toUpper_toHex (high_lt c), toUpper_toHex (low_digit_lt c), fromHex_toHex (high_lt c),
        fromHex_toHex (low_digit_lt c), shift_add_low]

theorem length_randomString (random : Nat → Nat) (len : Nat) :
    (randomString random len).length = len := by
  simp [randomString]

/-- The letters around the password are cut off. -/
theorem midStr_framed {before behind : List Byte} (before_length : before.length = 2)
    (behind_length : behind.length = 2) (password : List Byte) :
    midStr (before ++ password ++ behind) 3 ((before ++ password ++ behind).length - 4) =
      some password := by
  have long : 3 - 1 ≤ (before ++ password ++ behind).length := by
    simp only [List.length_append]
    omega
  have middle : (before ++ password ++ behind).length - 4 = password.length := by
    simp only [List.length_append]
    omega
  rw [midStr, substr, if_pos long, middle, List.append_assoc,
    List.drop_left' (before_length.trans rfl), List.take_left]

/-- Sealing a password loses nothing. -/
theorem decodePassword_encodePassword (before behind random : Nat → Nat) {password : List Byte}
    (nonempty : password ≠ []) :
    decodePassword random (encodePassword before behind password) = password := by
  have before_length := length_randomString before 2
  have behind_length := length_randomString behind 2
  have positive := List.length_pos_iff.mpr nonempty
  have long : (randomString before 2 ++ password ++ randomString behind 2).length > 4 := by
    simp only [List.length_append]
    omega
  simp only [decodePassword, encodePassword, stringToSeal_sealToString, unsealBytes_sealBytes]
  rw [if_pos long, midStr_framed before_length behind_length, Option.getD_some]

theorem decodePassword_encodePassword_byte :
    decodePassword (fun _ => 0) (encodePassword (fun i => i + 60) (fun i => 7 * i) [0xFF]) =
      [0xFF] :=
  decodePassword_encodePassword _ _ _ (by decide)

end PasUtils
end CommonLib
