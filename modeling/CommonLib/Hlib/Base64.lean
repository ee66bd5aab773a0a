import Mathlib.Algebra.Group.Nat.Defs
import Mathlib.Data.List.GetD
import Mathlib.Data.List.TakeWhile
import CommonLib.Hlib.PasUtils

/-!
# Base64 in `hbase64.cpp`

Both directions pack a short group of units into an `int` and take it apart in units of the other
width.  The encoder writes `=` for the sextets of a short group; the decoder counts `=` at the last
three places and leaves as many characters out.  The array `need` of the decoder is not read.
-/

namespace CommonLib
namespace Base64

open PasUtils

/-- The characters of `base`. -/
def base : List Byte := ascii "ABCDEFGHIJKLMNOPQRSTUVWXYZabcdefghijklmnopqrstuvwxyz0123456789+/="

/-- The loop that shifts units of `width` bits into `prepare`. -/
def pack (width : UInt32) (units : List UInt32) : UInt32 :=
  units.foldl (fun prepare unit => (prepare <<< width) ||| unit) 0

/-! ## The encoder -/

/-- One turn of the outer loop of `base64_encode`, for at most three bytes. -/
def encodeGroup (group : List Byte) : List Byte :=
  let temp := group.length
  let prepare := pack 8 (group.map UInt8.toUInt32) <<< UInt32.ofNat ((3 - temp) * 8)
  (List.range 4).map fun i =>
    let changed := if temp < i then 0x40 else (prepare >>> UInt32.ofNat ((3 - i) * 6)) &&& 0x3F
    base.getD changed.toNat 0

/-- `base64_encode`, without the terminating NUL. -/
def base64Encode : List Byte → List Byte
  | [] => []
  | [a] => encodeGroup [a]
  | [a, b] => encodeGroup [a, b]
  | a :: b :: c :: rest => encodeGroup [a, b, c] ++ base64Encode rest

/-- The `ret_len` of `base64_encode`. -/
def encodedLen (dataLen : Nat) : Nat :=
  (if dataLen % 3 > 0 then dataLen / 3 + 1 else dataLen / 3) * 4 + 1

/-! ## The decoder -/

/-- `find_pos`, where `stray` is the difference of `NULL` and `base`; `strrchr` finds the NUL,
too. -/
def findPos (stray : Int8) (ch : Byte) : Int8 :=
  match (base ++ [0]).idxOf? ch with
  | some i => Int8.ofNat i
  | none => stray

/-- One turn of the outer loop of `base64_decode`, for at most four characters. -/
def decodeGroup (stray : Int8) (group : List Byte) : List Byte :=
  let temp := group.length
  let prepare :=
    pack 6 (group.map fun ch => (findPos stray ch).toInt32.toUInt32) <<<
      UInt32.ofNat ((4 - temp) * 6)
  ((List.range 3).takeWhile (· ≠ temp)).map fun i =>
    ((prepare >>> UInt32.ofNat ((2 - i) * 8)) &&& 0xFF).toUInt8

/-- The outer loop of `base64_decode`. -/
def decodeLoop (stray : Int8) : List Byte → List Byte
  | [] => []
  | [a] => decodeGroup stray [a]
  | [a, b] => decodeGroup stray [a, b]
  | [a, b, c] => decodeGroup stray [a, b, c]
  | a :: b :: c :: d :: rest => decodeGroup stray [a, b, c, d] ++ decodeLoop stray rest

/-- The `equal_count` of `base64_decode`. -/
def equalCount (data : List Byte) : Nat :=
  (if data.getD (data.length - 1) 0 = 61 then 1 else 0) +
    (if data.getD (data.length - 2) 0 = 61 then 1 else 0) +
    (if data.getD (data.length - 3) 0 = 61 then 1 else 0)

/-- The result of `base64_decode`: the size of the zeroed block and the bytes written to it. -/
structure Decoded where
  retLen : Nat
  written : List Byte

/-- The memory behind the result. -/
def Decoded.buffer (decoded : Decoded) : List Byte :=
  decoded.written ++ List.replicate (decoded.retLen - decoded.written.length) 0

/-- `base64_decode`, which reads the last three characters. -/
def base64Decode (stray : Int8) (data : List Byte) : Option Decoded :=
  if data.length < 3 then none
  else
    let equal := equalCount data
    some
      { retLen := data.length / 4 * 3 + (if equal = 2 then 3 else if equal = 3 then 2 else 4)
        written := decodeLoop stray (data.take (data.length - equal)) ++ [0] }

/-! ## The size of the result -/

/-- A group of `temp` characters makes `temp` bytes, but at most three. -/
theorem takeWhile_range (temp : Nat) :
    (List.range 3).takeWhile (· ≠ temp) = List.range (min 3 temp) := by
  rcases Nat.lt_or_ge temp 3 with short | full
  · revert temp
    decide
  · rw [Nat.min_eq_left full, List.takeWhile_eq_self_iff]
    intro i inside
    rw [List.mem_range] at inside
    exact decide_eq_true (by omega)

theorem length_decodeGroup (stray : Int8) (group : List Byte) :
    (decodeGroup stray group).length = min 3 group.length := by
  simp only [decodeGroup, takeWhile_range, List.length_map, List.length_range]

theorem length_decodeLoop (stray : Int8) (data : List Byte) :
    (decodeLoop stray data).length = data.length / 4 * 3 + data.length % 4 := by
  fun_induction decodeLoop stray data with
  | case1 => rfl
  | case2 => simp only [length_decodeGroup, List.length_cons, List.length_nil]; omega
  | case3 => simp only [length_decodeGroup, List.length_cons, List.length_nil]; omega
  | case4 => simp only [length_decodeGroup, List.length_cons, List.length_nil]; omega
  | case5 a b c d rest ih =>
      rw [List.length_append, length_decodeGroup, ih]
      simp only [List.length_cons, List.length_nil]
      omega

theorem equalCount_le (data : List Byte) : equalCount data ≤ 3 := by
  unfold equalCount
  split <;> split <;> split <;> decide

/-- The decoder never writes behind its block. -/
theorem base64Decode_fits (stray : Int8) {data : List Byte} (long : 3 ≤ data.length) :
    ∃ decoded, base64Decode stray data = some decoded ∧
      decoded.written.length ≤ decoded.retLen := by
  have count_le := equalCount_le data
  refine ⟨_, if_neg (by omega), ?_⟩
  simp only [List.length_append, length_decodeLoop, List.length_take, List.length_singleton]
  rw [Nat.min_eq_left (Nat.sub_le ..)]
  split
  · omega
  · split <;> omega

theorem base64Decode_fits_pads :
    ∃ decoded, base64Decode 0 [61, 0, 61, 255, 61, 61, 61] = some decoded ∧
      decoded.written.length ≤ decoded.retLen :=
  base64Decode_fits 0 (by decide)

/-! ## Packing -/

theorem shift_or_toNat {width : UInt32} {k : Nat} (width_eq : width.toNat = k)
    (k_lt : k < 32) {prepare unit : UInt32} (room : prepare.toNat * 2 ^ k < 2 ^ 32)
    (unit_lt : unit.toNat < 2 ^ k) :
    ((prepare <<< width) ||| unit).toNat = prepare.toNat * 2 ^ k + unit.toNat := by
  rw [UInt32.toNat_or, UInt32.toNat_shiftLeft, width_eq, Nat.mod_eq_of_lt k_lt,
    Nat.shiftLeft_eq, Nat.mod_eq_of_lt room, ← Nat.shiftLeft_eq,
    Nat.shiftLeft_add_eq_or_of_lt unit_lt]

theorem append_digit_lt {k j number digit : Nat} (number_lt : number < 2 ^ j)
    (digit_lt : digit < 2 ^ k) : number * 2 ^ k + digit < 2 ^ (j + k) := by
  rw [Nat.pow_add]
  calc number * 2 ^ k + digit < (number + 1) * 2 ^ k := by
        rw [Nat.add_mul, Nat.one_mul]
        omega
    _ ≤ 2 ^ j * 2 ^ k := Nat.mul_le_mul_right _ number_lt

/-- The number with the given digits of `k` bits. -/
def readDigits (k : Nat) (digits : List Nat) (number : Nat) : Nat :=
  digits.foldl (fun number digit => number * 2 ^ k + digit) number

theorem readDigits_lt {k : Nat} {digits : List Nat} (digits_lt : ∀ d ∈ digits, d < 2 ^ k)
    {j number : Nat} (number_lt : number < 2 ^ j) :
    readDigits k digits number < 2 ^ (j + k * digits.length) := by
  induction digits generalizing j number with
  | nil => simpa [readDigits] using number_lt
  | cons digit digits ih =>
      have shifted := append_digit_lt number_lt (digits_lt digit List.mem_cons_self)
      have rest := ih (fun other among => digits_lt other (List.mem_cons_of_mem _ among)) shifted
      rwa [List.length_cons, Nat.mul_add, Nat.mul_one, Nat.add_comm _ k, ← Nat.add_assoc]

/-- Units that fit are packed as the digits of a number. -/
theorem foldl_pack_toNat {width : UInt32} {k : Nat} (width_eq : width.toNat = k) (k_lt : k < 32)
    {units : List UInt32} (units_lt : ∀ d ∈ units.map UInt32.toNat, d < 2 ^ k) {j : Nat}
    {prepare : UInt32} (prepare_lt : prepare.toNat < 2 ^ j) (fits : j + k * units.length ≤ 32) :
    (units.foldl (fun prepare unit => (prepare <<< width) ||| unit) prepare).toNat =
      readDigits k (units.map UInt32.toNat) prepare.toNat := by
  induction units generalizing j prepare with
  | nil => rfl
  | cons unit units ih =>
      rw [List.map_cons] at units_lt
      have unit_lt := units_lt _ List.mem_cons_self
      have shifted := append_digit_lt prepare_lt unit_lt
      rw [List.length_cons, Nat.mul_add, Nat.mul_one] at fits
      have room : 2 ^ (j + k) ≤ 2 ^ 32 := Nat.pow_le_pow_right (by decide) (by omega)
      have step :=
        shift_or_toNat width_eq k_lt (by omega : prepare.toNat * 2 ^ k < 2 ^ 32) unit_lt
      rw [List.foldl_cons, List.map_cons, readDigits, List.foldl_cons, ← step]
      refine ih (fun other among => units_lt other (List.mem_cons_of_mem _ among)) ?_
        (by omega : j + k + k * units.length ≤ 32)
      rwa [step]

/-- The number that a group of at most `most` units of `k` bits is packed to. -/
def groupNumber (k most : Nat) (digits : List Nat) : Nat :=
  readDigits k digits 0 * 2 ^ ((most - digits.length) * k)

theorem groupNumber_lt {k most : Nat} {digits : List Nat} (digits_lt : ∀ d ∈ digits, d < 2 ^ k)
    (short : digits.length ≤ most) : groupNumber k most digits < 2 ^ (k * most) := by
  have read_lt : readDigits k digits 0 < 2 ^ (0 + k * digits.length) :=
    readDigits_lt digits_lt (by decide)
  rw [Nat.zero_add] at read_lt
  calc groupNumber k most digits < 2 ^ (k * digits.length) * 2 ^ ((most - digits.length) * k) :=
        Nat.mul_lt_mul_of_pos_right read_lt (Nat.two_pow_pos _)
    _ = 2 ^ (k * most) := by
        rw [← Nat.pow_add, Nat.mul_comm _ k, ← Nat.mul_add, Nat.add_sub_cancel' short]

/-- A unit of `w` bits is taken out of a packed group. -/
theorem unpack_pack {width mask : UInt32} {k most w t : Nat} (width_eq : width.toNat = k)
    (k_pos : 0 < k) (mask_eq : mask.toNat = 2 ^ w - 1) (t_lt : t < 32) (fits : k * most < 32)
    {units : List UInt32} (units_lt : ∀ d ∈ units.map UInt32.toNat, d < 2 ^ k)
    (short : units.length ≤ most) (nonempty : 0 < units.length) :
    (((pack width units <<< UInt32.ofNat ((most - units.length) * k)) >>> UInt32.ofNat t) &&&
        mask).toNat =
      groupNumber k most (units.map UInt32.toNat) / 2 ^ t % 2 ^ w := by
  have amount {n : Nat} (small : n < 32) : (UInt32.ofNat n).toNat % 32 = n := by
    rw [UInt32.toNat_ofNat']
    omega
  have k_le : k ≤ k * most := Nat.le_mul_of_pos_right k (by omega)
  have units_fit : k * units.length ≤ k * most := Nat.mul_le_mul_left k short
  have rest_fits : (most - units.length) * k ≤ k * most := by
    rw [Nat.mul_comm]
    exact Nat.mul_le_mul_left k (Nat.sub_le ..)
  have packed : (pack width units).toNat = readDigits k (units.map UInt32.toNat) 0 :=
    foldl_pack_toNat (j := 0) width_eq (by omega) units_lt Nat.one_pos (by omega)
  have number_lt : groupNumber k most (units.map UInt32.toNat) < 2 ^ (k * most) :=
    groupNumber_lt units_lt (by rwa [List.length_map])
  rw [groupNumber, List.length_map] at number_lt ⊢
  have room : 2 ^ (k * most) ≤ 2 ^ 32 := Nat.pow_le_pow_right (by decide) (by omega)
  have whole := Nat.mod_eq_of_lt (Nat.lt_of_lt_of_le number_lt room)
  rw [UInt32.toNat_and, UInt32.toNat_shiftRight, UInt32.toNat_shiftLeft, amount t_lt,
    amount (by omega), mask_eq, Nat.and_two_pow_sub_one_eq_mod, Nat.shiftRight_eq_div_pow,
    Nat.shiftLeft_eq, packed, whole]

/-! ## Characters -/

theorem idxOf_base : ∀ x < 64, (base ++ [0]).idxOf? (base.getD x 0) = some x := by
  decide +kernel

/-- The padding stands behind the characters of the sextets. -/
theorem base_ne_pad : ∀ x < 64, base.getD x 0 ≠ 61 := by
  intro x sextet pad
  have place := idxOf_base x sextet
  have pad_place : (base ++ [0]).idxOf? 61 = some 64 := by decide +kernel
  rw [pad, pad_place] at place
  exact absurd (Option.some.inj place) (Nat.ne_of_gt sextet)

theorem promote_ofNat : ∀ x < 64, (Int8.ofNat x).toInt32.toUInt32.toNat = x := by
  decide +kernel

/-- The decoder finds the sextet that the encoder has written. -/
theorem findPos_base (stray : Int8) {x : Nat} (sextet : x < 64) :
    (findPos stray (base.getD x 0)).toInt32.toUInt32.toNat = x := by
  rw [findPos, idxOf_base x sextet]
  exact promote_ofNat x sextet

/-! ## Groups -/

theorem encodeGroup_eq {group : List Byte} (short : group.length ≤ 3)
    (nonempty : 0 < group.length) :
    encodeGroup group = (List.range 4).map fun i =>
      if group.length < i then 61
      else base.getD (groupNumber 8 3 (group.map UInt8.toNat) / 2 ^ ((3 - i) * 6) % 2 ^ 6) 0 := by
  have digits_eq : (group.map UInt8.toUInt32).map UInt32.toNat = group.map UInt8.toNat := by
    rw [List.map_map]
    exact List.map_congr_left fun byte _ => UInt8.toNat_toUInt32 byte
  have digits_lt : ∀ d ∈ (group.map UInt8.toUInt32).map UInt32.toNat, d < 2 ^ 8 := by
    rw [digits_eq]
    simpa using fun byte _ => byte.toNat_lt
  have length_eq : (group.map UInt8.toUInt32).length = group.length := List.length_map _
  apply List.map_congr_left
  intro i among
  rw [List.mem_range] at among
  have unpacked : (((pack 8 (group.map UInt8.toUInt32) <<<
      UInt32.ofNat ((3 - (group.map UInt8.toUInt32).length) * 8)) >>>
        UInt32.ofNat ((3 - i) * 6)) &&& 0x3F).toNat = _ :=
    unpack_pack (k := 8) (w := 6) rfl (by decide) rfl (by omega) (by decide) digits_lt (by omega)
      (by omega)
  rw [digits_eq, length_eq] at unpacked
  dsimp only
  split
  · rfl
  · rw [unpacked]

theorem decodeGroup_eq (stray : Int8) {group : List Nat} (short : group.length ≤ 4)
    (nonempty : 0 < group.length) (group_lt : ∀ x ∈ group, x < 64) :
    decodeGroup stray (group.map (base.getD · 0)) = (List.range (min 3 group.length)).map fun i =>
      UInt8.ofNat (groupNumber 6 4 group / 2 ^ ((2 - i) * 8)) := by
  let units := (group.map (base.getD · 0)).map fun ch => (findPos stray ch).toInt32.toUInt32
  have digits_eq : units.map UInt32.toNat = group := by
    simp only [units, List.map_map]
    conv_rhs => rw [← List.map_id group]
    exact List.map_congr_left fun x among => findPos_base stray (group_lt x among)
  have digits_lt : ∀ d ∈ units.map UInt32.toNat, d < 2 ^ 6 := by rwa [digits_eq]
  have length_eq : units.length = group.length := by simp only [units, List.length_map]
  simp only [decodeGroup, takeWhile_range, List.length_map]
  apply List.map_congr_left
  intro i among
  rw [List.mem_range] at among
  have unpacked : (((pack 6 units <<< UInt32.ofNat ((4 - units.length) * 6)) >>>
      UInt32.ofNat ((2 - i) * 8)) &&& 0xFF).toNat = _ :=
    unpack_pack (k := 6) (w := 8) rfl (by decide) rfl (by omega) (by decide) digits_lt (by omega)
      (by omega)
  rw [digits_eq, length_eq] at unpacked
  apply UInt8.toNat_inj.mp
  rw [UInt32.toNat_toUInt8, UInt8.toNat_ofNat', unpacked, Nat.mod_mod]

/-- The sextets of a packed group of bytes, as many as hold bits of the bytes. -/
def sextets (group : List Byte) : List Nat :=
  (List.range (group.length + 1)).map fun i =>
    groupNumber 8 3 (group.map UInt8.toNat) / 2 ^ ((3 - i) * 6) % 2 ^ 6

theorem sextets_lt (group : List Byte) : ∀ x ∈ sextets group, x < 64 := by
  intro x among
  obtain ⟨i, -, rfl⟩ := List.mem_map.mp among
  exact Nat.mod_lt _ (by decide)

/-- A group is written as its sextets and the padding. -/
theorem encodeGroup_eq_sextets {group : List Byte} (short : group.length ≤ 3)
    (nonempty : 0 < group.length) :
    encodeGroup group =
      (sextets group).map (base.getD · 0) ++ List.replicate (3 - group.length) 61 := by
  have parts : List.range 4 = List.range (group.length + 1) ++
      (List.range (3 - group.length)).map (group.length + 1 + ·) := by
    rw [← List.range_add]
    congr 1
    omega
  rw [encodeGroup_eq short nonempty, parts, List.map_append, sextets, List.map_map, List.map_map]
  congr 1
  · apply List.map_congr_left
    intro i among
    rw [List.mem_range] at among
    rw [if_neg (by omega)]
    rfl
  · rw [List.eq_replicate_iff]
    refine ⟨by simp, ?_⟩
    intro ch among
    obtain ⟨i, -, rfl⟩ := List.mem_map.mp among
    rw [Function.comp_apply, if_pos (by omega)]

theorem length_sextets (group : List Byte) : (sextets group).length = group.length + 1 := by
  simp [sextets]

theorem groupNumber_one (k most a : Nat) : groupNumber k most [a] = a * 2 ^ ((most - 1) * k) := by
  rw [groupNumber, readDigits, List.foldl_cons, List.foldl_nil, Nat.zero_mul, Nat.zero_add]
  rfl

theorem groupNumber_two (k most a b : Nat) :
    groupNumber k most [a, b] = (a * 2 ^ k + b) * 2 ^ ((most - 2) * k) := by
  rw [groupNumber, readDigits, List.foldl_cons, List.foldl_cons, List.foldl_nil, Nat.zero_mul,
    Nat.zero_add]
  rfl

theorem groupNumber_three (k most a b c : Nat) :
    groupNumber k most [a, b, c] = ((a * 2 ^ k + b) * 2 ^ k + c) * 2 ^ ((most - 3) * k) := by
  rw [groupNumber, readDigits, List.foldl_cons, List.foldl_cons, List.foldl_cons, List.foldl_nil,
    Nat.zero_mul, Nat.zero_add]
  rfl

theorem groupNumber_four (k most a b c d : Nat) :
    groupNumber k most [a, b, c, d] =
      (((a * 2 ^ k + b) * 2 ^ k + c) * 2 ^ k + d) * 2 ^ ((most - 4) * k) := by
  rw [groupNumber, readDigits, List.foldl_cons, List.foldl_cons, List.foldl_cons, List.foldl_cons,
    List.foldl_nil, Nat.zero_mul, Nat.zero_add]
  rfl

/-- Sextets that leave out no set bit make up the packed number of the bytes. -/
theorem groupNumber_sextets {group : List Byte} (short : group.length ≤ 3)
    (nonempty : 0 < group.length) :
    groupNumber 6 4 (sextets group) = groupNumber 8 3 (group.map UInt8.toNat) := by
  rcases group with _ | ⟨a, _ | ⟨b, _ | ⟨c, _ | ⟨d, rest⟩⟩⟩⟩
  · exact absurd nonempty (by decide)
  · have a_lt := a.toNat_lt
    have packed := groupNumber_one 8 3 a.toNat
    change groupNumber 6 4 [groupNumber 8 3 [a.toNat] / 2 ^ 18 % 2 ^ 6,
      groupNumber 8 3 [a.toNat] / 2 ^ 12 % 2 ^ 6] = groupNumber 8 3 [a.toNat]
    rw [groupNumber_two, packed]
    omega
  · have a_lt := a.toNat_lt
    have b_lt := b.toNat_lt
    have packed := groupNumber_two 8 3 a.toNat b.toNat
    change groupNumber 6 4 [groupNumber 8 3 [a.toNat, b.toNat] / 2 ^ 18 % 2 ^ 6,
      groupNumber 8 3 [a.toNat, b.toNat] / 2 ^ 12 % 2 ^ 6,
      groupNumber 8 3 [a.toNat, b.toNat] / 2 ^ 6 % 2 ^ 6] = groupNumber 8 3 [a.toNat, b.toNat]
    rw [groupNumber_three, packed]
    omega
  · have a_lt := a.toNat_lt
    have b_lt := b.toNat_lt
    have c_lt := c.toNat_lt
    have packed := groupNumber_three 8 3 a.toNat b.toNat c.toNat
    change groupNumber 6 4 [groupNumber 8 3 [a.toNat, b.toNat, c.toNat] / 2 ^ 18 % 2 ^ 6,
      groupNumber 8 3 [a.toNat, b.toNat, c.toNat] / 2 ^ 12 % 2 ^ 6,
      groupNumber 8 3 [a.toNat, b.toNat, c.toNat] / 2 ^ 6 % 2 ^ 6,
      groupNumber 8 3 [a.toNat, b.toNat, c.toNat] / 2 ^ 0 % 2 ^ 6] =
        groupNumber 8 3 [a.toNat, b.toNat, c.toNat]
    rw [groupNumber_four, packed]
    omega
  · simp only [List.length_cons] at short
    omega

theorem ofNat_div_eq {number t : Nat} {byte : Byte} (eq : number / 2 ^ t % 256 = byte.toNat) :
    UInt8.ofNat (number / 2 ^ t) = byte := by
  apply UInt8.toNat_inj.mp
  rw [UInt8.toNat_ofNat']
  exact eq

/-- The bytes of a packed group, and those of the padding behind them. -/
theorem bytes_of_groupNumber {group : List Byte} (short : group.length ≤ 3)
    (nonempty : 0 < group.length) : ∃ extra,
      (List.range (min 3 (group.length + 1))).map (fun i =>
        UInt8.ofNat (groupNumber 8 3 (group.map UInt8.toNat) / 2 ^ ((2 - i) * 8))) =
          group ++ extra := by
  rcases group with _ | ⟨a, _ | ⟨b, _ | ⟨c, _ | ⟨d, rest⟩⟩⟩⟩
  · exact absurd nonempty (by decide)
  · have a_lt := a.toNat_lt
    have packed := groupNumber_one 8 3 a.toNat
    refine ⟨[_], congrArg₂ List.cons (ofNat_div_eq (t := 16) ?_) rfl⟩
    rw [List.map_cons, List.map_nil, packed]
    omega
  · have a_lt := a.toNat_lt
    have b_lt := b.toNat_lt
    have packed := groupNumber_two 8 3 a.toNat b.toNat
    refine ⟨[_], congrArg₂ List.cons (ofNat_div_eq (t := 16) ?_)
      (congrArg₂ List.cons (ofNat_div_eq (t := 8) ?_) rfl)⟩
    all_goals
      rw [List.map_cons, List.map_cons, List.map_nil, packed]
      omega
  · have a_lt := a.toNat_lt
    have b_lt := b.toNat_lt
    have c_lt := c.toNat_lt
    have packed := groupNumber_three 8 3 a.toNat b.toNat c.toNat
    refine ⟨[], congrArg₂ List.cons (ofNat_div_eq (t := 16) ?_)
      (congrArg₂ List.cons (ofNat_div_eq (t := 8) ?_)
        (congrArg₂ List.cons (ofNat_div_eq (t := 0) ?_) rfl))⟩
    all_goals
      rw [List.map_cons, List.map_cons, List.map_cons, List.map_nil, packed]
      omega
  · simp only [List.length_cons] at short
    omega

/-- The sextets of a group are decoded to its bytes and those of the padding. -/
theorem decodeGroup_sextets {group : List Byte} (short : group.length ≤ 3)
    (nonempty : 0 < group.length) (stray : Int8) :
    ∃ extra, decodeGroup stray ((sextets group).map (base.getD · 0)) = group ++ extra := by
  rw [decodeGroup_eq stray (by rw [length_sextets]; omega) (by rw [length_sextets]; omega)
    (sextets_lt group), length_sextets, groupNumber_sextets short nonempty]
  exact bytes_of_groupNumber short nonempty

/-! ## The round trip -/

theorem length_encodeGroup (group : List Byte) : (encodeGroup group).length = 4 := by
  simp [encodeGroup]

/-- The text fills the block that the encoder allocates, but for the NUL. -/
theorem length_base64Encode (data : List Byte) :
    (base64Encode data).length + 1 = encodedLen data.length := by
  unfold encodedLen
  fun_induction base64Encode data with
  | case1 => rfl
  | case2 a => rw [length_encodeGroup, List.length_singleton]; rfl
  | case3 a b => rw [length_encodeGroup, List.length_cons, List.length_singleton]; rfl
  | case4 a b c rest ih =>
      rw [List.length_append, length_encodeGroup]
      simp only [List.length_cons]
      split at ih <;> split <;> omega

/-- A text of `base64_encode`: characters without padding, from which the decoder's loop makes the
bytes first, and the padding. -/
structure EncodedAs (data front : List Byte) (pads : Nat) : Prop where
  text : base64Encode data = front ++ List.replicate pads 61
  no_pad : 61 ∉ front
  pads_le : pads ≤ 2
  long : data ≠ [] → 4 ≤ front.length + pads
  decoded : ∀ stray, ∃ extra, decodeLoop stray front = data ++ extra

theorem no_pad_sextets (group : List Byte) : 61 ∉ (sextets group).map (base.getD · 0) := by
  intro among
  obtain ⟨x, x_among, pad⟩ := List.mem_map.mp among
  exact base_ne_pad x (sextets_lt group x x_among) pad

theorem encodedAs_short {group : List Byte} (short : group.length ≤ 2)
    (nonempty : 0 < group.length) :
    EncodedAs group ((sextets group).map (base.getD · 0)) (3 - group.length) where
  text := by
    rw [← encodeGroup_eq_sextets (by omega) nonempty]
    rcases group with _ | ⟨a, _ | ⟨b, _ | ⟨c, rest⟩⟩⟩
    · exact absurd nonempty (by decide)
    · rfl
    · rfl
    · simp only [List.length_cons] at short
      omega
  no_pad := no_pad_sextets group
  pads_le := by omega
  long _ := by
    rw [List.length_map, length_sextets]
    omega
  decoded stray := by
    obtain ⟨extra, decoded⟩ := decodeGroup_sextets (by omega) nonempty stray
    refine ⟨extra, ?_⟩
    rw [← decoded]
    rcases group with _ | ⟨a, _ | ⟨b, _ | ⟨c, rest⟩⟩⟩
    · exact absurd nonempty (by decide)
    · rfl
    · rfl
    · simp only [List.length_cons] at short
      omega

theorem EncodedAs.append {a b c : Byte} {rest front : List Byte} {pads : Nat}
    (encoded : EncodedAs rest front pads) :
    EncodedAs (a :: b :: c :: rest) ((sextets [a, b, c]).map (base.getD · 0) ++ front) pads where
  text := by
    rw [base64Encode, encodeGroup_eq_sextets (Nat.le_refl [a, b, c].length) (Nat.succ_pos 2),
      encoded.text]
    simp
  no_pad among := by
    rcases List.mem_append.mp among with inside | inside
    · exact no_pad_sextets _ inside
    · exact encoded.no_pad inside
  pads_le := encoded.pads_le
  long _ := by
    rw [List.length_append, List.length_map, length_sextets]
    simp only [List.length_cons]
    omega
  decoded stray := by
    obtain ⟨extra, decoded⟩ := encoded.decoded stray
    obtain ⟨other, group⟩ :=
      decodeGroup_sextets (Nat.le_refl [a, b, c].length) (Nat.succ_pos 2) stray
    have other_length := congrArg List.length group
    rw [length_decodeGroup, List.length_map, length_sextets, List.length_append] at other_length
    have none_left : other = [] := List.eq_nil_of_length_eq_zero (by simpa using other_length)
    rw [none_left, List.append_nil] at group
    refine ⟨extra, ?_⟩
    change decodeGroup stray ((sextets [a, b, c]).map (base.getD · 0)) ++ decodeLoop stray front = _
    rw [group, decoded]
    rfl

theorem base64Encode_encodedAs (data : List Byte) : ∃ front pads, EncodedAs data front pads := by
  fun_induction base64Encode data with
  | case1 =>
      exact ⟨[], 0, rfl, List.not_mem_nil, by decide, fun nonempty => absurd rfl nonempty,
        fun _ => ⟨[], rfl⟩⟩
  | case2 a => exact ⟨_, _, encodedAs_short (Nat.le_succ 1) Nat.one_pos⟩
  | case3 a b => exact ⟨_, _, encodedAs_short (Nat.le_refl 2) (Nat.succ_pos 1)⟩
  | case4 a b c rest ih =>
      obtain ⟨front, pads, encoded⟩ := ih
      exact ⟨_, pads, encoded.append⟩

/-- The places at which the decoder looks for the padding. -/
theorem getD_end_eq_pad {front : List Byte} (no_pad : 61 ∉ front) {pads k : Nat} (k_pos : 0 < k)
    (inside : k ≤ front.length + pads) :
    (front ++ List.replicate pads 61).getD ((front ++ List.replicate pads 61).length - k) 0 = 61 ↔
      k ≤ pads := by
  have length_eq : (front ++ List.replicate pads 61).length = front.length + pads := by simp
  rw [length_eq]
  rcases Nat.lt_or_ge pads k with beyond | within
  · have place : front.length + pads - k < front.length := by omega
    rw [List.getD_append _ _ _ _ place, List.getD_eq_getElem _ _ place]
    refine ⟨fun pad => absurd (pad ▸ List.getElem_mem place) no_pad, fun le => by omega⟩
  · have place : front.length + pads - k - front.length < pads := by omega
    rw [List.getD_append_right _ _ _ _ (by omega), List.getD_replicate _ place]
    exact ⟨fun _ => within, fun _ => rfl⟩

theorem equalCount_encoded {front : List Byte} (no_pad : 61 ∉ front) {pads : Nat}
    (pads_le : pads ≤ 2) (long : 4 ≤ front.length + pads) :
    equalCount (front ++ List.replicate pads 61) = pads := by
  unfold equalCount
  have last := getD_end_eq_pad no_pad (Nat.succ_pos 0) (by omega : 1 ≤ front.length + pads)
  have second := getD_end_eq_pad no_pad (Nat.succ_pos 1) (by omega : 2 ≤ front.length + pads)
  have third := getD_end_eq_pad no_pad (Nat.succ_pos 2) (by omega : 3 ≤ front.length + pads)
  simp only [last, second, third]
  split <;> split <;> split <;> omega

end Base64
end CommonLib
