import Mathlib.Algebra.Group.Nat.Defs
import CommonLib.Hlib.PasUtils

/-!
# Numbers and replacement in `hpasutils.cpp`

`IntToStr` writes a number in decimal and `TryStrToWord` reads the digits of a text, whatever stands
between them.  `StringReplace` replaces the occurrences that a search from the left finds.
-/

namespace CommonLib
namespace PasUtils

open Separator

/-! ## Numbers -/

/-- `IntToStr`. -/
def intToStr (n : Int) : List Byte := ascii (toString n)

/-- One turn of the loop of `TryStrToWord`, on `*w` and `k`. -/
def wordStep (parts : Nat × Nat) (c : Byte) : Nat × Nat :=
  if isDigit c then ((parts.1 * 10 + (c.toNat - 48)) % 65536, parts.2 + 1) else parts

/-- `TryStrToWord`; without a result it returns false. -/
def tryStrToWord (s : List Byte) : Option Nat :=
  let parts := s.foldl wordStep (0, 0)
  if parts.2 = 0 then none else some parts.1

def digit (n : Nat) : Byte := UInt8.ofNat (48 + n)

theorem toNat_digit {n : Nat} (small : n < 10) : (digit n).toNat = 48 + n := by
  rw [digit, UInt8.toNat_ofNat']
  omega

theorem isDigit_digit {n : Nat} (small : n < 10) : isDigit (digit n) = true := by
  rw [isDigit_iff, toNat_digit small]
  omega

theorem intToStr_natCast (n : Nat) :
    intToStr n = (Nat.toDigits 10 n).map fun c => UInt8.ofNat c.toNat := by
  have text : toString (n : Int) = n.repr := rfl
  rw [intToStr, ascii, text, Nat.toList_repr]

theorem digitChar_digit {n : Nat} (small : n < 10) :
    UInt8.ofNat (Nat.digitChar n).toNat = digit n := by
  rw [Nat.toNat_digitChar_of_lt_ten small, digit]

theorem intToStr_of_lt {n : Nat} (small : n < 10) : intToStr n = [digit n] := by
  rw [intToStr_natCast, Nat.toDigits_of_lt_base small, List.map_singleton, digitChar_digit small]

/-- The last digit stands behind the others. -/
theorem intToStr_of_le {n : Nat} (large : 10 ≤ n) :
    intToStr n = intToStr ((n / 10 : Nat) : Int) ++ [digit (n % 10)] := by
  rw [intToStr_natCast, intToStr_natCast, Nat.toDigits_of_base_le (by decide) large,
    List.map_append, List.map_singleton, digitChar_digit (Nat.mod_lt n (by decide))]

theorem isDigit_intToStr (n : Nat) : ∀ c ∈ intToStr n, isDigit c = true := by
  induction n using Nat.strongRecOn with
  | ind n ih =>
      intro c among
      rcases Nat.lt_or_ge n 10 with small | large
      · rw [intToStr_of_lt small, List.mem_singleton] at among
        rw [among]
        exact isDigit_digit small
      · rw [intToStr_of_le large, List.mem_append, List.mem_singleton] at among
        rcases among with before | rfl
        · exact ih (n / 10) (by omega) c before
        · exact isDigit_digit (Nat.mod_lt n (by decide))

theorem wordStep_digit {w k n : Nat} (small : n < 10) (fits : w * 10 + n < 65536) :
    wordStep (w, k) (digit n) = (w * 10 + n, k + 1) := by
  rw [wordStep, if_pos (isDigit_digit small), toNat_digit small, Nat.add_sub_cancel_left,
    Nat.mod_eq_of_lt fits]

theorem foldl_intToStr {n : Nat} (fits : n < 65536) (k : Nat) :
    (intToStr n).foldl wordStep (0, k) = (n, k + (intToStr n).length) := by
  induction n using Nat.strongRecOn with
  | ind n ih =>
      rcases Nat.lt_or_ge n 10 with small | large
      · rw [intToStr_of_lt small, List.foldl_cons, wordStep_digit small (by omega), Nat.zero_mul,
          Nat.zero_add]
        rfl
      · rw [intToStr_of_le large, List.foldl_append, ih (n / 10) (by omega) (by omega),
          List.foldl_cons, wordStep_digit (Nat.mod_lt n (by decide)) (by omega), List.foldl_nil,
          List.length_append, List.length_singleton, Nat.div_add_mod', Nat.add_assoc]

theorem length_intToStr_pos (n : Nat) : 0 < (intToStr n).length := by
  rcases Nat.lt_or_ge n 10 with small | large
  · rw [intToStr_of_lt small]
    exact Nat.one_pos
  · rw [intToStr_of_le large, List.length_append]
    exact Nat.succ_pos _

/-- A number is read as it was written, also behind a zero. -/
theorem tryStrToWord_intToStr {n : Nat} (fits : n < 65536) :
    tryStrToWord (intToStr n) = some n := by
  have positive := length_intToStr_pos n
  rw [tryStrToWord, foldl_intToStr fits]
  exact if_neg (by omega)

theorem tryStrToWord_zero_intToStr {n : Nat} (fits : n < 65536) :
    tryStrToWord (48 :: intToStr n) = some n := by
  have zero : wordStep (0, 0) 48 = (0, 1) := by decide
  rw [tryStrToWord, List.foldl_cons, zero, foldl_intToStr fits]
  exact if_neg (by omega)

theorem length_intToStr {n : Nat} (k : Nat) (low : 10 ^ k ≤ n) (high : n < 10 ^ (k + 1)) :
    (intToStr n).length = k + 1 := by
  induction k generalizing n with
  | zero =>
      rw [intToStr_of_lt high]
      rfl
  | succ k ih =>
      rw [Nat.pow_succ] at low high
      have positive := Nat.pow_pos (n := k) (by decide : 0 < 10)
      rw [intToStr_of_le (by omega), List.length_append, ih (by omega) (by omega)]
      rfl

/-! ## Replacement -/

/-- The loop of `StringReplace`, of which more turns have no result. -/
def stringReplaceLoop (strsrc strdst : List Byte) : Nat → List Byte → Nat → Option (List Byte)
  | 0, _, _ => none
  | turns + 1, strBig, pos =>
      match find strBig strsrc pos with
      | none => some strBig
      | some pos =>
          stringReplaceLoop strsrc strdst turns
            (strBig.take pos ++ strdst ++ strBig.drop (pos + strsrc.length)) (pos + strdst.length)

/-- `StringReplace`; each turn but the last uses up a byte of the text. -/
def stringReplace (strBig strsrc strdst : List Byte) : Option (List Byte) :=
  stringReplaceLoop strsrc strdst (strBig.length + 1) strBig 0

/-- From a position on the occurrences are replaced. -/
theorem stringReplaceLoop_eq {strsrc : List Byte} (nonempty : strsrc ≠ []) (strdst : List Byte)
    {turns : Nat} {front rest : List Byte} (enough : rest.length < turns) :
    stringReplaceLoop strsrc strdst turns (front ++ rest) front.length =
      some (front ++ strdst.intercalate (split strsrc rest)) := by
  induction turns generalizing front rest with
  | zero => exact absurd enough (Nat.not_lt_zero _)
  | succ turns ih =>
      have positive := List.length_pos_iff.mpr nonempty
      have inside : front.length ≤ (front ++ rest).length := by
        rw [List.length_append]
        exact Nat.le_add_right ..
      rw [stringReplaceLoop, find, if_pos inside, List.drop_left]
      cases found : firstMatch strsrc rest with
      | none =>
          rw [split_of_none found, List.intercalate_singleton]
          rfl
      | some p =>
          obtain ⟨-, fits⟩ := firstMatch_eq_some found
          have length_eq : front.length + p + strdst.length =
              (front ++ rest.take p ++ strdst).length := by
            rw [List.length_append, List.length_append, List.length_take]
            omega
          obtain ⟨fields, last, split_eq⟩ := exists_split_eq strsrc (rest.drop (p + strsrc.length))
          have ne_nil : split strsrc (rest.drop (p + strsrc.length)) ≠ [] := by
            rw [split_eq]
            exact List.append_ne_nil_of_right_ne_nil _ (List.cons_ne_nil _ _)
          show stringReplaceLoop strsrc strdst turns
            ((front ++ rest).take (front.length + p) ++ strdst ++
              (front ++ rest).drop (front.length + p + strsrc.length))
            (front.length + p + strdst.length) = _
          rw [List.take_length_add_append, Nat.add_assoc front.length p strsrc.length,
            List.drop_length_add_append, length_eq, ih (by rw [List.length_drop]; omega),
            split_of_some found nonempty, List.intercalate_cons_of_ne_nil ne_nil]
          simp only [List.append_assoc]

theorem stringReplace_eq {strsrc : List Byte} (nonempty : strsrc ≠ []) (strBig strdst : List Byte) :
    stringReplace strBig strsrc strdst = some (strdst.intercalate (split strsrc strBig)) :=
  @stringReplaceLoop_eq strsrc nonempty strdst _ [] strBig (Nat.lt_succ_self _)

theorem stringReplace_absent {a : Byte} {strBig : List Byte} (absent : a ∉ strBig)
    (strsrc strdst : List Byte) : stringReplace strBig (a :: strsrc) strdst = some strBig := by
  rw [stringReplace_eq (List.cons_ne_nil _ _), split_of_none (firstMatch_eq_none strsrc absent),
    List.intercalate_singleton]

theorem stringReplace_once {a : Byte} {front rest : List Byte} (before : a ∉ front)
    (behind : a ∉ rest) (strsrc strdst : List Byte) :
    stringReplace (front ++ (a :: strsrc ++ rest)) (a :: strsrc) strdst =
      some (front ++ (strdst ++ rest)) := by
  have nonempty := List.cons_ne_nil a strsrc
  have cut :
      (front ++ (a :: strsrc ++ rest)).drop (front.length + (a :: strsrc).length) = rest := by
    rw [← List.append_assoc, ← List.length_append, List.drop_left]
  rw [stringReplace_eq nonempty, split_of_some (firstMatch_append strsrc before rest) nonempty, cut,
    List.take_left, split_of_none (firstMatch_eq_none strsrc behind)]
  simp

end PasUtils
end CommonLib
