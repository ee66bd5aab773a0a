import CommonLib.Hlib.PasUtils

/-!
# URL coding

`URLDecode` inverts `URLEncode`.  The spellings of other encoders differ from it in the case of the
digits and in the bytes that are escaped, and `fromHex` takes a small letter for 32 more than its
value.
-/

namespace CommonLib
namespace PasUtils

/-- `isalnum`. -/
def isAlnum (x : Byte) : Bool := isDigit x || (65 ≤ x && x ≤ 90) || (97 ≤ x && x ≤ 122)

/-- The characters that `buf` holds for a byte, up to its first NUL. -/
def urlEncodeByte (c : Byte) : List Byte :=
  let buf := if isAlnum c then [c, 0, 0, 0] else [37, toHex (c >>> 4), toHex (c % 16), 0]
  buf.takeWhile (· ≠ 0)

def urlEncode (sIn : List Byte) : List Byte := sIn.flatMap urlEncodeByte

/-- The byte of an escape. -/
def unescape (high low : Byte) : Byte := (fromHex high <<< 4) ||| fromHex low

/-- `URLDecode`; the terminating NUL can be read, and what is behind it cannot. -/
def urlDecode : List Byte → Option (List Byte)
  | [] => some []
  | c :: rest =>
      if c = 37 then
        match rest with
        | [] => none
        | [high] => some [unescape high 0]
        | high :: low :: rest => (urlDecode rest).map (unescape high low :: ·)
      else (urlDecode rest).map ((if c = 43 then 32 else c) :: ·)

/-! ## Percent-encodings -/

/-- The value of a hexadecimal digit in upper or lower case. -/
def digitValue (x : Byte) : Option Nat :=
  if 48 ≤ x.toNat ∧ x.toNat ≤ 57 then some (x.toNat - 48)
  else if 65 ≤ x.toNat ∧ x.toNat ≤ 70 then some (x.toNat - 55)
  else if 97 ≤ x.toNat ∧ x.toNat ≤ 102 then some (x.toNat - 87)
  else none

/-- The percent-encodings of a byte string. -/
inductive Spelling : List Byte → List Byte → Prop
  | nil : Spelling [] []
  | literal {b : Byte} {s t : List Byte} (not_percent : b ≠ 37) (not_plus : b ≠ 43)
      (rest : Spelling s t) : Spelling (b :: s) (b :: t)
  | escape {high low : Byte} {h l : Nat} {s t : List Byte} (high_eq : digitValue high = some h)
      (low_eq : digitValue low = some l) (rest : Spelling s t) :
      Spelling (UInt8.ofNat (16 * h + l) :: s) (37 :: high :: low :: t)

/-- The second digit is no small letter, or the first one has the bit that `fromHex` adds. -/
def ReadableEscape (high low : Byte) : Prop :=
  97 ≤ low.toNat → ∀ h ∈ digitValue high, h / 2 % 2 = 1

/-- All escapes of a text are read as they are meant. -/
def Readable : List Byte → Prop
  | [] => True
  | c :: rest =>
      if c = 37 then
        match rest with
        | high :: low :: rest => ReadableEscape high low ∧ Readable rest
        | _ => True
      else Readable rest

theorem digitValue_cases {x : Byte} {v : Nat} (digit : digitValue x = some v) :
    v < 16 ∧ (fromHex x).toNat = if 97 ≤ x.toNat then v + 32 else v := by
  have x_lt := x.toNat_lt
  simp only [toNat_fromHex, isDigit_iff]
  unfold digitValue at digit
  split at digit
  · cases digit
    split <;> split <;> omega
  · split at digit
    · cases digit
      split <;> split <;> omega
    · split at digit
      · cases digit
        split <;> split <;> omega
      · cases digit

/-- The high half is right in both cases of the first digit. -/
theorem shifted_high {high : Byte} {h : Nat} (digit : digitValue high = some h) :
    (fromHex high <<< 4).toNat = h <<< 4 := by
  obtain ⟨small, value⟩ := digitValue_cases digit
  simp only [UInt8.toNat_shiftLeft, UInt8.reduceToNat, Nat.reduceMod, Nat.shiftLeft_eq,
    Nat.reducePow, value]
  split <;> omega

/-- Bit 5, which comes from a small letter, goes into the high half. -/
theorem or_small_letter (h : Nat) {l : Nat} (small : l < 16) :
    h <<< 4 ||| (l + 32) = (h ||| 2) <<< 4 + l := by
  have split_letter : l + 32 = 2 <<< 4 ||| l := by
    rw [← Nat.shiftLeft_add_eq_or_of_lt (i := 4) small]
    omega
  rw [split_letter, ← Nat.or_assoc, ← Nat.shiftLeft_or_distrib,
    Nat.shiftLeft_add_eq_or_of_lt (i := 4) small]

theorem or_two_eq_iff : ∀ h < 16, (h ||| 2 = h ↔ h / 2 % 2 = 1) := by decide

theorem unescape_eq_iff {high low : Byte} {h l : Nat} (high_eq : digitValue high = some h)
    (low_eq : digitValue low = some l) :
    unescape high low = UInt8.ofNat (16 * h + l) ↔ ReadableEscape high low := by
  obtain ⟨high_lt, -⟩ := digitValue_cases high_eq
  obtain ⟨low_lt, low_value⟩ := digitValue_cases low_eq
  have meant : (UInt8.ofNat (16 * h + l)).toNat = h <<< 4 + l := by
    rw [UInt8.toNat_ofNat', Nat.shiftLeft_eq]
    omega
  rw [← UInt8.toNat_inj, unescape, UInt8.toNat_or, shifted_high high_eq, low_value, meant,
    ReadableEscape, high_eq]
  split
  · rename_i letter
    rw [or_small_letter h low_lt]
    simp only [letter, Option.mem_some_iff, forall_eq', forall_const, ← or_two_eq_iff h high_lt]
    simp only [Nat.shiftLeft_eq]
    omega
  · rename_i capital
    rw [← Nat.shiftLeft_add_eq_or_of_lt (i := 4) low_lt]
    simp [capital]

/-! ## Reading a spelling -/

theorem map_cons_eq_some {b c : Byte} {s : List Byte} {decoded : Option (List Byte)} :
    decoded.map (b :: ·) = some (c :: s) ↔ b = c ∧ decoded = some s := by
  cases decoded <;> simp

theorem Spelling.urlDecode_iff {s t : List Byte} (spelling : Spelling s t) :
    urlDecode t = some s ↔ Readable t := by
  induction spelling with
  | nil => simp [urlDecode, Readable]
  | literal not_percent not_plus rest ih =>
      rw [urlDecode.eq_def, Readable.eq_def]
      simp only [if_neg not_percent, if_neg not_plus, map_cons_eq_some, true_and, ih]
  | escape high_eq low_eq rest ih =>
      rw [urlDecode.eq_def, Readable.eq_def]
      simp only [if_true, map_cons_eq_some, unescape_eq_iff high_eq low_eq, ih]

/-- The digits of `URLEncode` are capital. -/
theorem digitValue_toHex {x : Byte} (digit : x.toNat < 16) :
    digitValue (toHex x) = some x.toNat ∧ (toHex x).toNat < 97 := by
  have value := toNat_toHex digit
  unfold digitValue
  rw [value]
  split
  · rw [if_neg (by omega), if_pos (by omega)]
    exact ⟨by congr 1, by omega⟩
  · rw [if_pos (by omega)]
    exact ⟨by congr 1, by omega⟩

theorem high_digit (c : Byte) : (c >>> 4).toNat = c.toNat / 16 := by
  simp only [UInt8.toNat_shiftRight, UInt8.reduceToNat, Nat.reduceMod, Nat.shiftRight_eq_div_pow,
    Nat.reducePow]

theorem high_digit_lt (c : Byte) : (c >>> 4).toNat < 16 := by
  have c_lt := c.toNat_lt
  rw [high_digit]
  omega

theorem toHex_ne_zero {x : Byte} (digit : x.toNat < 16) : toHex x ≠ 0 := by
  intro zero
  have value := toNat_toHex digit
  rw [zero] at value
  simp only [UInt8.reduceToNat] at value
  split at value <;> omega

theorem isAlnum_iff (x : Byte) : isAlnum x = true ↔
    (48 ≤ x.toNat ∧ x.toNat ≤ 57) ∨ (65 ≤ x.toNat ∧ x.toNat ≤ 90) ∨
      (97 ≤ x.toNat ∧ x.toNat ≤ 122) := by
  simp [isAlnum, isDigit_iff, UInt8.le_iff_toNat_le, or_assoc]

theorem ne_of_isAlnum {x : Byte} (alnum : isAlnum x = true) : x ≠ 0 ∧ x ≠ 37 ∧ x ≠ 43 := by
  rw [isAlnum_iff] at alnum
  refine ⟨?_, ?_, ?_⟩ <;> rintro rfl <;> revert alnum <;> decide

/-- No byte of the buffer but its filling is NUL. -/
theorem urlEncodeByte_eq (c : Byte) :
    urlEncodeByte c = if isAlnum c then [c] else [37, toHex (c >>> 4), toHex (c % 16)] := by
  have high := toHex_ne_zero (high_digit_lt c)
  have low := toHex_ne_zero (low_digit_lt c)
  unfold urlEncodeByte
  split
  · rename_i alnum
    simp [(ne_of_isAlnum alnum).1]
  · simp [high, low]

theorem urlEncode_spelling (s : List Byte) : Spelling s (urlEncode s) ∧ Readable (urlEncode s) := by
  induction s with
  | nil => exact ⟨.nil, trivial⟩
  | cons c rest ih =>
      obtain ⟨spelling, readable⟩ := ih
      rw [urlEncode, List.flatMap_cons, urlEncodeByte_eq, ← urlEncode]
      split
      · rename_i alnum
        obtain ⟨-, not_percent, not_plus⟩ := ne_of_isAlnum alnum
        refine ⟨.literal not_percent not_plus spelling, ?_⟩
        rw [List.cons_append, List.nil_append, Readable.eq_def]
        simpa only [if_neg not_percent] using readable
      · obtain ⟨high_eq, -⟩ := digitValue_toHex (high_digit_lt c)
        obtain ⟨low_eq, capital⟩ := digitValue_toHex (low_digit_lt c)
        have byte : UInt8.ofNat (16 * (c >>> 4).toNat + (c % 16).toNat) = c := by
          have c_lt := c.toNat_lt
          apply UInt8.toNat_inj.mp
          rw [UInt8.toNat_ofNat', high_digit, low_digit]
          omega
        refine ⟨?_, ?_⟩
        · have escaped := Spelling.escape high_eq low_eq spelling
          rwa [byte] at escaped
        · rw [List.cons_append, Readable.eq_def]
          exact ⟨fun small => absurd small (by omega), readable⟩

/-- The encoder's own spelling is read back.  Another spelling is read back exactly if the first
digit of each escape that ends in a small letter has its second bit set. -/
theorem urlDecode_eq_some_iff (s : List Byte) :
    urlDecode (urlEncode s) = some s ∧
      ∀ t, Spelling s t → (urlDecode t = some s ↔ Readable t) := by
  obtain ⟨spelling, readable⟩ := urlEncode_spelling s
  exact ⟨spelling.urlDecode_iff.mpr readable, fun t other => other.urlDecode_iff⟩

/-- A slash that is written `%2f`. -/
theorem urlDecode_slash : urlDecode [37, 50, 102] = some [47] :=
  ((urlDecode_eq_some_iff [47]).2 _
    (.escape (h := 2) (l := 15) rfl rfl .nil)).mpr
      ⟨by simp [ReadableEscape, digitValue], trivial⟩

/-- `%0a` is read as an asterisk. -/
theorem urlDecode_small_letter :
    Spelling [10] [37, 48, 97] ∧ urlDecode [37, 48, 97] = some [42] ∧
      ¬ ∀ s t, Spelling s t → urlDecode t = some s := by
  have spelling : Spelling [10] [37, 48, 97] :=
    .escape (h := 0) (l := 10) rfl rfl .nil
  have read : urlDecode [37, 48, 97] = some [42] := by decide
  refine ⟨spelling, read, fun inverse => ?_⟩
  have meant := inverse [10] _ spelling
  rw [read] at meant
  exact absurd meant (by decide)

end PasUtils
end CommonLib
