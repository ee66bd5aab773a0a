import Mathlib.Algebra.Group.Nat.Defs
import CommonLib.Hlib.CirBuffer

/-!
# UTF-8 in `hcp936.cpp`

`UnicodeToUTF8Inline` writes a code point in one to four bytes.  `UTF8CharacterToUnicode` reads one
and refuses values that a shorter form has, except that its bound for four bytes is 32768 instead of
65536 and that it does not look for values behind the last code point.
-/

namespace CommonLib
namespace Cp936

/-! ## The codec -/

/-- `UnicodeToUTF8Inline`: the bytes it writes, whose number it returns. -/
def unicodeToUTF8Inline (codePoint : Nat) : List Byte :=
  if codePoint < 128 then [UInt8.ofNat codePoint]
  else if codePoint < 2048 then
    [UInt8.ofNat (0xc0 ||| (codePoint >>> 6)), UInt8.ofNat (128 ||| (codePoint &&& 0x3f))]
  else if codePoint < 65536 then
    [UInt8.ofNat (0xe0 ||| (codePoint >>> 12)),
      UInt8.ofNat (((codePoint >>> 6) &&& 0x3f) ||| 128),
      UInt8.ofNat ((codePoint &&& 0x3f) ||| 128)]
  else if codePoint < 1114112 then
    [UInt8.ofNat (0xf0 ||| (codePoint >>> 18)),
      UInt8.ofNat (((codePoint >>> 12) &&& 0x3f) ||| 128),
      UInt8.ofNat (((codePoint >>> 6) &&& 0x3f) ||| 0x80),
      UInt8.ofNat ((codePoint &&& 0x3f) ||| 0x80)]
  else []

/-- The conjunction of `(p[i] & 192) == 128`; the bytes behind the first that fails are not read. -/
def continued (p : List Byte) : List Nat → Option Bool
  | [] => some true
  | i :: rest =>
      p[i]?.bind fun x => if x.toNat &&& 192 = 128 then continued p rest else some false

/-- `p[i] & 63`. -/
def lowBits (p : List Byte) (i : Nat) : Nat := (p.getD i 0).toNat &&& 63

/-- `UTF8CharacterToUnicode`: the value and `CharLen`.  A pointer other than `NULL` is given by the
bytes from it on, and there is no result where others are read. -/
def utf8CharacterToUnicode : Option (List Byte) → Option (Nat × Nat)
  | none => some (0, 0)
  | some p =>
      p[0]?.bind fun x =>
        let c := x.toNat
        -- regular single byte character
        if c < 192 then some (c, 1)
        else if c &&& 224 = 192 then
          (continued p [1]).map fun whole =>
            if whole then
              let i := ((c &&& 31) <<< 6) ||| lowBits p 1
              (if i < 128 then 0 else i, 2)
            else (c, 1)
        else if c &&& 240 = 224 then
          (continued p [1, 2]).map fun whole =>
            if whole then
              let i := (((c &&& 31) <<< 12) ||| (lowBits p 1 <<< 6)) ||| lowBits p 2
              (if i < 2048 then 0 else i, 3)
            else (c, 1)
        else if c &&& 248 = 240 then
          (continued p [1, 2, 3]).map fun whole =>
            if whole then
              let i := ((((c &&& 15) <<< 18) ||| (lowBits p 1 <<< 12)) ||| (lowBits p 2 <<< 6)) |||
                lowBits p 3
              (if i < 32768 then 0 else i, 4)
            else (c, 1)
        -- invalid character
        else some (c, 1)

/-! ## Bits -/

theorem toNat_byte_lt (x : Byte) : x.toNat < 256 := x.toNat_lt

theorem lead_two_iff : ∀ c < 256, (c &&& 224 = 192 ↔ 192 ≤ c ∧ c < 224) := by decide +kernel

theorem lead_three_iff : ∀ c < 256, (c &&& 240 = 224 ↔ 224 ≤ c ∧ c < 240) := by decide +kernel

theorem lead_four_iff : ∀ c < 256, (c &&& 248 = 240 ↔ 240 ≤ c ∧ c < 248) := by decide +kernel

theorem tail_iff : ∀ c < 256, (c &&& 192 = 128 ↔ 128 ≤ c ∧ c < 192) := by decide +kernel

theorem and_63 (n : Nat) : n &&& 63 = n % 64 := Nat.and_two_pow_sub_one_eq_mod n 6

theorem and_31 (n : Nat) : n &&& 31 = n % 32 := Nat.and_two_pow_sub_one_eq_mod n 5

theorem and_15 (n : Nat) : n &&& 15 = n % 16 := Nat.and_two_pow_sub_one_eq_mod n 4

/-- Values without common bits are added. -/
theorem or_of_lt (k : Nat) {high low : Nat} (aligned : high % 2 ^ k = 0) (small : low < 2 ^ k) :
    high ||| low = high + low := by
  rw [← Nat.mul_div_cancel' (Nat.dvd_of_mod_eq_zero aligned)]
  exact (Nat.two_pow_add_eq_or_of_lt small _).symm

theorem value_two (a b : Nat) : (a <<< 6) ||| (b % 64) = a * 64 + b % 64 := by
  rw [Nat.shiftLeft_eq]
  exact or_of_lt 6 (by omega) (by omega)

theorem value_three (a b c : Nat) :
    ((a <<< 12) ||| ((b % 64) <<< 6)) ||| (c % 64) = (a * 64 + b % 64) * 64 + c % 64 := by
  have front : (a <<< 12) ||| ((b % 64) <<< 6) = (a * 64 + b % 64) <<< 6 := by
    simp only [Nat.shiftLeft_eq]
    rw [or_of_lt 12 (by omega) (by omega)]
    omega
  rw [front, value_two]

theorem value_four (a b c d : Nat) :
    (((a <<< 18) ||| ((b % 64) <<< 12)) ||| ((c % 64) <<< 6)) ||| (d % 64) =
      ((a * 64 + b % 64) * 64 + c % 64) * 64 + d % 64 := by
  have front : (a <<< 18) ||| ((b % 64) <<< 12) = (a * 64 + b % 64) <<< 12 := by
    simp only [Nat.shiftLeft_eq]
    rw [or_of_lt 18 (by omega) (by omega)]
    omega
  rw [front, value_three]

/-! ## Writing -/

theorem unicodeToUTF8Inline_one {c : Nat} (high : c < 128) :
    unicodeToUTF8Inline c = [UInt8.ofNat c] := if_pos high

theorem unicodeToUTF8Inline_two {c : Nat} (low : 128 ≤ c) (high : c < 2048) :
    unicodeToUTF8Inline c = [UInt8.ofNat (192 + c / 64), UInt8.ofNat (128 + c % 64)] := by
  have first : 192 ||| c / 64 = 192 + c / 64 := or_of_lt 5 rfl (by omega)
  have second : 128 ||| c % 64 = 128 + c % 64 := or_of_lt 6 rfl (by omega)
  rw [unicodeToUTF8Inline, if_neg (by omega), if_pos high, and_63, Nat.shiftRight_eq_div_pow, first,
    second]

theorem tail_bits (n : Nat) : n % 64 ||| 128 = 128 + n % 64 := by
  rw [Nat.or_comm]
  exact or_of_lt 6 rfl (by omega)

theorem unicodeToUTF8Inline_three {c : Nat} (low : 2048 ≤ c) (high : c < 65536) :
    unicodeToUTF8Inline c =
      [UInt8.ofNat (224 + c / 4096), UInt8.ofNat (128 + c / 64 % 64),
        UInt8.ofNat (128 + c % 64)] := by
  have first : 224 ||| c / 4096 = 224 + c / 4096 := or_of_lt 4 rfl (by omega)
  rw [unicodeToUTF8Inline, if_neg (by omega), if_neg (by omega), if_pos high]
  simp only [and_63, Nat.shiftRight_eq_div_pow, tail_bits]
  rw [first]

theorem unicodeToUTF8Inline_four {c : Nat} (low : 65536 ≤ c) (high : c < 1114112) :
    unicodeToUTF8Inline c =
      [UInt8.ofNat (240 + c / 262144), UInt8.ofNat (128 + c / 4096 % 64),
        UInt8.ofNat (128 + c / 64 % 64), UInt8.ofNat (128 + c % 64)] := by
  have first : 240 ||| c / 262144 = 240 + c / 262144 := or_of_lt 3 rfl (by omega)
  rw [unicodeToUTF8Inline, if_neg (by omega), if_neg (by omega), if_neg (by omega), if_pos high]
  simp only [and_63, Nat.shiftRight_eq_div_pow, tail_bits]
  rw [first]

theorem unicodeToUTF8Inline_none {c : Nat} (beyond : 1114112 ≤ c) : unicodeToUTF8Inline c = [] := by
  rw [unicodeToUTF8Inline, if_neg (by omega), if_neg (by omega), if_neg (by omega),
    if_neg (by omega)]

/-! ## Reading -/

/-- A byte of the form `%10xxxxxx`. -/
def IsTail (x : Byte) : Prop := 128 ≤ x.toNat ∧ x.toNat < 192

instance (x : Byte) : Decidable (IsTail x) := instDecidableAnd

theorem continued_cons (p : List Byte) (i : Nat) (rest : List Nat) :
    continued p (i :: rest) =
      p[i]?.bind fun x => if IsTail x then continued p rest else some false := by
  rw [continued]
  congr 1
  funext x
  exact if_congr (tail_iff x.toNat (toNat_byte_lt x)) rfl rfl

theorem continued_eq_true_iff (p : List Byte) (indices : List Nat) :
    continued p indices = some true ↔ ∀ i ∈ indices, ∃ x, p[i]? = some x ∧ IsTail x := by
  induction indices with
  | nil => simp [continued]
  | cons i rest ih =>
      rw [continued_cons, List.forall_mem_cons, ← ih]
      cases p[i]? with
      | none => simp
      | some x =>
          by_cases tail : IsTail x
          · simp [tail]
          · simp [tail]

/-- A character of several bytes, with the bound that its value must reach and its value. -/
inductive Form : List Byte → Nat → Nat → Prop
  | two {x y : Byte} (low : 192 ≤ x.toNat) (high : x.toNat < 224) (tail : IsTail y) :
      Form [x, y] 128 (x.toNat % 32 * 64 + y.toNat % 64)
  | three {x y z : Byte} (low : 224 ≤ x.toNat) (high : x.toNat < 240) (tail : IsTail y)
      (tail' : IsTail z) :
      Form [x, y, z] 2048 ((x.toNat % 32 * 64 + y.toNat % 64) * 64 + z.toNat % 64)
  | four {x y z w : Byte} (low : 240 ≤ x.toNat) (high : x.toNat < 248) (tail : IsTail y)
      (tail' : IsTail z) (tail'' : IsTail w) :
      Form [x, y, z, w] 32768
        (((x.toNat % 16 * 64 + y.toNat % 64) * 64 + z.toNat % 64) * 64 + w.toNat % 64)

/-- What is read where a form is expected: its value, or the first byte. -/
def formValue (bound value len c : Nat) (whole : Bool) : Nat × Nat :=
  if whole then (if value < bound then 0 else value, len) else (c, 1)

/-- The classes of the first byte as ranges, and the values of the forms as sums. -/
theorem utf8CharacterToUnicode_cons (x : Byte) (rest : List Byte) :
    utf8CharacterToUnicode (some (x :: rest)) =
      if 192 ≤ x.toNat ∧ x.toNat < 224 then
        (continued (x :: rest) [1]).map
          (formValue 128 (x.toNat % 32 * 64 + (rest.getD 0 0).toNat % 64) 2 x.toNat)
      else if 224 ≤ x.toNat ∧ x.toNat < 240 then
        (continued (x :: rest) [1, 2]).map
          (formValue 2048 ((x.toNat % 32 * 64 + (rest.getD 0 0).toNat % 64) * 64 +
            (rest.getD 1 0).toNat % 64) 3 x.toNat)
      else if 240 ≤ x.toNat ∧ x.toNat < 248 then
        (continued (x :: rest) [1, 2, 3]).map
          (formValue 32768 (((x.toNat % 16 * 64 + (rest.getD 0 0).toNat % 64) * 64 +
            (rest.getD 1 0).toNat % 64) * 64 + (rest.getD 2 0).toNat % 64) 4 x.toNat)
      else some (x.toNat, 1) := by
  have small := toNat_byte_lt x
  simp only [utf8CharacterToUnicode, List.getElem?_cons_zero, Option.bind_some, lowBits, and_63,
    and_31, and_15, value_two, value_three, value_four, lead_two_iff _ small,
    lead_three_iff _ small, lead_four_iff _ small, List.getD_cons_succ]
  split
  · rw [if_neg (by omega), if_neg (by omega), if_neg (by omega)]
  · rfl

/-- A form is read as its value. -/
theorem utf8CharacterToUnicode_form {form : List Byte} {bound value : Nat}
    (wellFormed : Form form bound value) (rest : List Byte) :
    utf8CharacterToUnicode (some (form ++ rest)) =
      some (if value < bound then 0 else value, form.length) := by
  cases wellFormed with
  | two low high tail =>
      rename_i x y
      have whole : continued (x :: y :: rest) [1] = some true :=
        (continued_eq_true_iff _ _).mpr (by simp [tail])
      rw [List.cons_append, List.cons_append, List.nil_append, utf8CharacterToUnicode_cons,
        if_pos ⟨low, high⟩, whole]
      rfl
  | three low high tail tail' =>
      rename_i x y z
      have whole : continued (x :: y :: z :: rest) [1, 2] = some true :=
        (continued_eq_true_iff _ _).mpr (by simp [tail, tail'])
      rw [List.cons_append, List.cons_append, List.cons_append, List.nil_append,
        utf8CharacterToUnicode_cons, if_neg (by omega), if_pos ⟨low, high⟩, whole]
      rfl
  | four low high tail tail' tail'' =>
      rename_i x y z w
      have whole : continued (x :: y :: z :: w :: rest) [1, 2, 3] = some true :=
        (continued_eq_true_iff _ _).mpr (by simp [tail, tail', tail''])
      rw [List.cons_append, List.cons_append, List.cons_append, List.cons_append, List.nil_append,
        utf8CharacterToUnicode_cons, if_neg (by omega), if_neg (by omega), if_pos ⟨low, high⟩,
        whole]
      rfl

theorem formValue_several {bound value len c u n : Nat} {result : Option Bool}
    (read : result.map (formValue bound value len c) = some (u, n)) (several : 2 ≤ n) :
    result = some true ∧ (if value < bound then 0 else value) = u ∧ len = n := by
  obtain ⟨whole, rfl, value_eq⟩ := Option.map_eq_some_iff.mp read
  cases whole with
  | true => exact ⟨rfl, Prod.mk.inj value_eq⟩
  | false =>
      obtain ⟨-, one⟩ := Prod.mk.inj value_eq
      omega

/-- What is read as several bytes is a form. -/
theorem form_of_several {p : List Byte} {u n : Nat}
    (read : utf8CharacterToUnicode (some p) = some (u, n)) (several : 2 ≤ n) :
    ∃ form bound value rest, p = form ++ rest ∧ Form form bound value ∧ form.length = n ∧
      (if value < bound then 0 else value) = u := by
  rcases p with _ | ⟨x, p⟩
  · cases read
  rw [utf8CharacterToUnicode_cons] at read
  split at read
  · rename_i range
    obtain ⟨whole, value_eq, rfl⟩ := formValue_several read several
    rw [continued_eq_true_iff] at whole
    rcases p with _ | ⟨y, rest⟩
    · simp at whole
    · simp at whole
      exact ⟨[x, y], _, _, rest, rfl, .two range.1 range.2 whole, rfl, value_eq⟩
  split at read
  · rename_i range
    obtain ⟨whole, value_eq, rfl⟩ := formValue_several read several
    rw [continued_eq_true_iff] at whole
    rcases p with _ | ⟨y, _ | ⟨z, rest⟩⟩
    · simp at whole
    · simp at whole
    · simp at whole
      exact ⟨[x, y, z], _, _, rest, rfl, .three range.1 range.2 whole.1 whole.2, rfl, value_eq⟩
  split at read
  · rename_i range
    obtain ⟨whole, value_eq, rfl⟩ := formValue_several read several
    rw [continued_eq_true_iff] at whole
    rcases p with _ | ⟨y, _ | ⟨z, _ | ⟨w, rest⟩⟩⟩
    · simp at whole
    · simp at whole
    · simp at whole
    · simp at whole
      exact ⟨[x, y, z, w], _, _, rest, rfl, .four range.1 range.2 whole.1 whole.2.1 whole.2.2, rfl,
        value_eq⟩
  · obtain ⟨-, one⟩ := Prod.mk.inj (Option.some.inj read)
    omega

/-! ## Both ways -/

theorem toNat_ofNat_byte {n : Nat} (small : n < 256) : (UInt8.ofNat n).toNat = n := by
  rw [UInt8.toNat_ofNat']
  exact Nat.mod_eq_of_lt small

theorem eq_ofNat {x : Byte} {n : Nat} (same : x.toNat = n) : UInt8.ofNat n = x := by
  rw [← same]
  exact UInt8.ofNat_toNat

theorem isTail_ofNat (n : Nat) : IsTail (UInt8.ofNat (128 + n % 64)) := by
  rw [IsTail, toNat_ofNat_byte (by omega)]
  omega

/-- What is written for a code point above 127 is a form of it. -/
theorem form_unicodeToUTF8Inline {c : Nat} (low : 128 ≤ c) (valid : c < 0x110000) :
    ∃ bound, bound ≤ c ∧ Form (unicodeToUTF8Inline c) bound c := by
  have tail_eq : ∀ n, (UInt8.ofNat (128 + n % 64)).toNat % 64 = n % 64 := by
    intro n
    rw [toNat_ofNat_byte (by omega)]
    omega
  rcases Nat.lt_or_ge c 2048 with two | more
  · have lead := @toNat_ofNat_byte (192 + c / 64) (by omega)
    have form := @Form.two (UInt8.ofNat (192 + c / 64)) _ (by omega) (by omega) (isTail_ofNat c)
    rw [lead, tail_eq, show (192 + c / 64) % 32 * 64 + c % 64 = c by omega] at form
    rw [unicodeToUTF8Inline_two low two]
    exact ⟨128, low, form⟩
  rcases Nat.lt_or_ge c 65536 with three | many
  · have lead := @toNat_ofNat_byte (224 + c / 4096) (by omega)
    have form := @Form.three (UInt8.ofNat (224 + c / 4096)) _ _ (by omega) (by omega)
      (isTail_ofNat (c / 64)) (isTail_ofNat c)
    rw [lead, tail_eq, tail_eq,
      show ((224 + c / 4096) % 32 * 64 + c / 64 % 64) * 64 + c % 64 = c by omega] at form
    rw [unicodeToUTF8Inline_three more three]
    exact ⟨2048, more, form⟩
  · have lead := @toNat_ofNat_byte (240 + c / 262144) (by omega)
    have form := @Form.four (UInt8.ofNat (240 + c / 262144)) _ _ _ (by omega) (by omega)
      (isTail_ofNat (c / 4096)) (isTail_ofNat (c / 64)) (isTail_ofNat c)
    rw [lead, tail_eq, tail_eq, tail_eq,
      show (((240 + c / 262144) % 16 * 64 + c / 4096 % 64) * 64 + c / 64 % 64) * 64 + c % 64 = c
        by omega] at form
    rw [unicodeToUTF8Inline_four many valid]
    exact ⟨32768, by omega, form⟩

theorem two_le_length_unicodeToUTF8Inline {c : Nat} (low : 128 ≤ c) (valid : c < 0x110000) :
    2 ≤ (unicodeToUTF8Inline c).length := by
  obtain ⟨bound, -, form⟩ := form_unicodeToUTF8Inline low valid
  generalize unicodeToUTF8Inline c = bytes at form ⊢
  cases form <;> simp

theorem unicodeToUTF8Inline_ne_nil {c : Nat} (valid : c < 0x110000) :
    unicodeToUTF8Inline c ≠ [] := by
  rcases Nat.lt_or_ge c 128 with one | several
  · rw [unicodeToUTF8Inline_one one]
    exact List.cons_ne_nil _ _
  · have long := two_le_length_unicodeToUTF8Inline several valid
    exact List.ne_nil_of_length_pos (by omega)

/-- Only for U+0000 a NUL is written. -/
theorem not_mem_unicodeToUTF8Inline {c : Nat} (positive : 0 < c) (valid : c < 0x110000) :
    0 ∉ unicodeToUTF8Inline c := by
  rcases Nat.lt_or_ge c 128 with one | several
  · rw [unicodeToUTF8Inline_one one, List.mem_singleton]
    intro zero
    have toNat_eq := @toNat_ofNat_byte c (by omega)
    rw [← zero] at toNat_eq
    exact absurd toNat_eq (Nat.ne_of_lt positive)
  · obtain ⟨bound, -, form⟩ := form_unicodeToUTF8Inline several valid
    generalize unicodeToUTF8Inline c = bytes at form ⊢
    have large : ∀ x ∈ bytes, 128 ≤ x.toNat := by
      cases form with
      | two low high tail =>
          rintro x (_ | ⟨_, _ | ⟨_, _ | _⟩⟩)
          · omega
          · exact tail.1
      | three low high tail tail' =>
          rintro x (_ | ⟨_, _ | ⟨_, _ | ⟨_, _ | _⟩⟩⟩)
          · omega
          · exact tail.1
          · exact tail'.1
      | four low high tail tail' tail'' =>
          rintro x (_ | ⟨_, _ | ⟨_, _ | ⟨_, _ | ⟨_, _ | _⟩⟩⟩⟩)
          · omega
          · exact tail.1
          · exact tail'.1
          · exact tail''.1
    exact fun among => absurd (large 0 among) (by decide)

/-- What is written is read again. -/
theorem utf8CharacterToUnicode_unicodeToUTF8Inline {c : Nat} (valid : c < 0x110000)
    (rest : List Byte) :
    utf8CharacterToUnicode (some (unicodeToUTF8Inline c ++ rest)) =
      some (c, (unicodeToUTF8Inline c).length) := by
  rcases Nat.lt_or_ge c 128 with one | several
  · have small := @toNat_ofNat_byte c (by omega)
    rw [unicodeToUTF8Inline_one one, List.singleton_append, utf8CharacterToUnicode_cons, small,
      if_neg (by omega), if_neg (by omega), if_neg (by omega)]
    rfl
  · obtain ⟨bound, reached, form⟩ := form_unicodeToUTF8Inline several valid
    rw [utf8CharacterToUnicode_form form, if_neg (Nat.not_lt.mpr reached)]

/-- A form of four bytes for which three suffice, or whose value lies behind the last code point,
although its value reaches the bound of 32768. -/
def Excess (p : List Byte) : Prop :=
  ∃ x y z w rest, p = x :: y :: z :: w :: rest ∧ IsTail y ∧ IsTail z ∧ IsTail w ∧
    (x.toNat = 0xF0 ∧ 0x88 ≤ y.toNat ∧ y.toNat < 0x90 ∨ x.toNat = 0xF4 ∧ 0x90 ≤ y.toNat ∨
      0xF5 ≤ x.toNat ∧ x.toNat ≤ 0xF7)

/-- What is read as several bytes and not refused is what is written for its value. -/
def Canonical (p : List Byte) : Prop :=
  ∀ u charLen, utf8CharacterToUnicode (some p) = some (u, charLen) → 2 ≤ charLen → u ≠ 0 →
    p.take charLen = unicodeToUTF8Inline u

/-- The forms that are written. -/
theorem form_eq_iff {form : List Byte} {bound value : Nat} (wellFormed : Form form bound value)
    (reached : bound ≤ value) (rest : List Byte) :
    form = unicodeToUTF8Inline value ↔ ¬ Excess (form ++ rest) := by
  cases wellFormed with
  | two low high tail =>
      rename_i x y
      obtain ⟨tail_low, tail_high⟩ := tail
      refine iff_of_true ?_ ?_
      · rw [unicodeToUTF8Inline_two reached (by omega), eq_ofNat (x := x) (by omega),
          eq_ofNat (x := y) (by omega)]
      · rintro ⟨x', _, _, _, _, form_eq, -, -, -, lead⟩
        obtain ⟨rfl, -⟩ := List.cons.inj form_eq
        omega
  | three low high tail tail' =>
      rename_i x y z
      obtain ⟨tail_low, tail_high⟩ := tail
      obtain ⟨tail_low', tail_high'⟩ := tail'
      refine iff_of_true ?_ ?_
      · rw [unicodeToUTF8Inline_three reached (by omega), eq_ofNat (x := x) (by omega),
          eq_ofNat (x := y) (by omega), eq_ofNat (x := z) (by omega)]
      · rintro ⟨x', _, _, _, _, form_eq, -, -, -, lead⟩
        obtain ⟨rfl, -⟩ := List.cons.inj form_eq
        omega
  | four low high tail tail' tail'' =>
      rename_i x y z w
      have excess_iff : Excess ([x, y, z, w] ++ rest) ↔
          x.toNat = 0xF0 ∧ 0x88 ≤ y.toNat ∧ y.toNat < 0x90 ∨ x.toNat = 0xF4 ∧ 0x90 ≤ y.toNat ∨
            0xF5 ≤ x.toNat ∧ x.toNat ≤ 0xF7 := by
        constructor
        · rintro ⟨_, _, _, _, _, form_eq, -, -, -, lead⟩
          obtain ⟨rfl, behind⟩ := List.cons.inj form_eq
          obtain ⟨rfl, -⟩ := List.cons.inj behind
          exact lead
        · exact fun lead => ⟨x, y, z, w, rest, rfl, tail, tail', tail'', lead⟩
      rw [excess_iff]
      obtain ⟨tail_low, tail_high⟩ := tail
      obtain ⟨tail_low', tail_high'⟩ := tail'
      obtain ⟨tail_low'', tail_high''⟩ := tail''
      generalize value_eq : ((x.toNat % 16 * 64 + y.toNat % 64) * 64 + z.toNat % 64) * 64 +
        w.toNat % 64 = value at reached ⊢
      rcases Nat.lt_or_ge value 65536 with few | many
      · refine iff_of_false (fun same => ?_) (not_not.mpr (by omega))
        rw [unicodeToUTF8Inline_three (by omega) few] at same
        exact absurd (congrArg List.length same) (by simp)
      rcases Nat.lt_or_ge value 1114112 with valid | beyond
      · refine iff_of_true ?_ (by omega)
        rw [unicodeToUTF8Inline_four many valid, eq_ofNat (x := x) (by omega),
          eq_ofNat (x := y) (by omega), eq_ofNat (x := z) (by omega), eq_ofNat (x := w) (by omega)]
      · refine iff_of_false (fun same => ?_) (not_not.mpr (by omega))
        rw [unicodeToUTF8Inline_none beyond] at same
        exact List.cons_ne_nil _ _ same

/-- What is read and not refused is canonical but for the excess. -/
theorem canonical_iff (p : List Byte) : Canonical p ↔ ¬ Excess p := by
  constructor
  · rintro canonical ⟨x, y, z, w, rest, rfl, tail, tail', tail'', lead⟩
    have form := @Form.four x y z w (by omega) (by omega) tail tail' tail''
    have reached : 32768 ≤
        ((x.toNat % 16 * 64 + y.toNat % 64) * 64 + z.toNat % 64) * 64 + w.toNat % 64 := by
      obtain ⟨tail_low, tail_high⟩ := tail
      omega
    have read := utf8CharacterToUnicode_form form rest
    rw [if_neg (Nat.not_lt.mpr reached)] at read
    have same := canonical _ _ read (by simp) (by omega)
    exact (form_eq_iff form reached rest).mp same
      ⟨x, y, z, w, rest, rfl, tail, tail', tail'', lead⟩
  · intro regular u charLen read several nonzero
    obtain ⟨form, bound, value, rest, rfl, wellFormed, rfl, value_eq⟩ :=
      form_of_several read several
    have reached : bound ≤ value := by
      by_contra small
      rw [if_pos (Nat.lt_of_not_le small)] at value_eq
      exact nonzero value_eq.symm
    rw [if_neg (Nat.not_lt.mpr reached)] at value_eq
    subst value_eq
    rw [List.take_left]
    exact (form_eq_iff wellFormed reached rest).mpr regular

/-- Every code point is read as it was written, and what is read as several bytes and not refused
is what is written for its value exactly if it is not one of the excessive forms. -/
theorem utf8_codec {c : Nat} (valid : c < 0x110000) (rest p : List Byte) :
    utf8CharacterToUnicode (some (unicodeToUTF8Inline c ++ rest)) =
        some (c, (unicodeToUTF8Inline c).length) ∧
      (Canonical p ↔ ¬ Excess p) :=
  ⟨utf8CharacterToUnicode_unicodeToUTF8Inline valid rest, canonical_iff p⟩

theorem utf8_codec_euro :
    utf8CharacterToUnicode (some (unicodeToUTF8Inline 0x20AC ++ [0])) =
        some (0x20AC, (unicodeToUTF8Inline 0x20AC).length) ∧
      (Canonical [0xE2, 0x82, 0xAC] ↔ ¬ Excess [0xE2, 0x82, 0xAC]) :=
  utf8_codec (by decide) [0] [0xE2, 0x82, 0xAC]

/-- Four bytes for U+8000, which has three, and four for a value behind the last code point. -/
theorem utf8_excess :
    utf8CharacterToUnicode (some [0xF0, 0x88, 0x80, 0x80]) = some (0x8000, 4) ∧
      unicodeToUTF8Inline 0x8000 = [0xE8, 0x80, 0x80] ∧
      utf8CharacterToUnicode (some [0xF4, 0x90, 0x80, 0x80]) = some (0x110000, 4) ∧
      unicodeToUTF8Inline 0x110000 = [] ∧ ¬ ∀ p, Canonical p := by
  refine ⟨rfl, rfl, rfl, rfl, fun canonical => ?_⟩
  have same := canonical [0xF0, 0x88, 0x80, 0x80] 0x8000 4 rfl (by decide) (by decide)
  exact absurd same (by decide)

end Cp936
end CommonLib
