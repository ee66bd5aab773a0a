import Mathlib.Data.Nat.Basic
import Mathlib.Order.Basic
import Mathlib.Order.Lattice
import Mathlib.Tactic.Common

/-!
# Halving an interval of indices

A search for a value in an increasing sequence halves an interval of indices.  It tests the middle,
rounded down, and keeps it as one end of the next interval; it stops when it meets the value or when
the middle is the end it would move.
-/

namespace CommonLib

variable {α : Type*} [LinearOrder α]

/-- How a search ends: at an index that holds the value, or with the interval it cannot shrink. -/
inductive Bisection
  | found (index : Nat)
  | stuck (first last : Nat)

/-- Search between two indices, with `fuel` turns. -/
def bisect (value : Nat → α) (target : α) : Nat → Nat → Nat → Option Bisection
  | 0, _, _ => none
  | fuel + 1, first, last =>
      let middle := (first + last) / 2
      if value middle > target then
        if last = middle then some (.stuck first last) else bisect value target fuel first middle
      else if value middle < target then
        if first = middle then some (.stuck first last) else bisect value target fuel middle last
      else some (.found middle)

/-- The values of the indices between two bounds increase. -/
def Increasing (value : Nat → α) (lo hi : Nat) : Prop :=
  ∀ i j, lo ≤ i → i < j → j ≤ hi → value i < value j

theorem Increasing.le {value : Nat → α} {lo hi : Nat} (increasing : Increasing value lo hi)
    {i j : Nat} (lo_le : lo ≤ i) (le : i ≤ j) (le_hi : j ≤ hi) : value i ≤ value j := by
  rcases Nat.lt_or_eq_of_le le with lt | rfl
  · exact (increasing i j lo_le lt le_hi).le
  · exact le_rfl

/-- What the end of a search says about the value. -/
def Bisection.Sound (value : Nat → α) (target : α) (lo hi : Nat) : Bisection → Prop
  | found index =>
      lo ≤ index ∧ index ≤ hi ∧ (lo < hi → index < hi) ∧ value index = target
  | stuck first last =>
      (first = lo ∧ last = lo ∧ target < value lo) ∨
        (lo = hi ∧ first = hi ∧ last = hi ∧ value hi < target) ∨
        (last = first + 1 ∧ lo ≤ first ∧ last ≤ hi ∧ value first < target ∧
          (target < value last ∨ last = hi))

/-- A search ends, and its end is sound.  The ends of its interval are those of the whole interval
or lie strictly on the two sides of the target; the last index is only tested when it is the
first. -/
theorem bisect_sound (value : Nat → α) (target : α) {lo hi : Nat} {fuel first last : Nat}
    (enough : last - first < fuel) (lo_le : lo ≤ first) (le : first ≤ last) (le_hi : last ≤ hi)
    (low : first = lo ∨ value first < target)
    (high : last = hi ∧ (first < last ∨ lo = hi) ∨ target < value last) :
    ∃ result, bisect value target fuel first last = some result ∧
      result.Sound value target lo hi := by
  induction fuel generalizing first last with
  | zero => omega
  | succ fuel induction =>
      simp only [bisect]
      generalize middle_eq : (first + last) / 2 = middle
      by_cases above : value middle > target
      · rw [if_pos above]
        by_cases stops : last = middle
        · rw [if_pos stops]
          have equal : first = middle := by omega
          rcases low with rfl | low
          · exact ⟨_, rfl, .inl ⟨rfl, by omega, by rwa [equal]⟩⟩
          · rw [equal] at low
            exact absurd low above.asymm
        · rw [if_neg stops]
          exact induction (by omega) lo_le (by omega) (by omega) low (.inr above)
      · rw [if_neg above]
        by_cases below : value middle < target
        · rw [if_pos below]
          by_cases stops : first = middle
          · rw [if_pos stops]
            subst stops
            refine ⟨_, rfl, .inr ?_⟩
            rcases Nat.lt_or_eq_of_le le with lt | rfl
            · exact .inr ⟨by omega, lo_le, le_hi, below, high.symm.imp_right And.left⟩
            · rcases high with ⟨rfl, shrunk | rfl⟩ | high
              · omega
              · exact .inl ⟨rfl, rfl, rfl, below⟩
              · exact absurd high below.asymm
          · rw [if_neg stops]
            refine induction (by omega) (by omega) (by omega) le_hi (.inr below) ?_
            exact high.imp_left fun high => ⟨high.1, .inl (by omega)⟩
        · rw [if_neg below]
          have met : value middle = target := le_antisymm (not_lt.mp above) (not_lt.mp below)
          refine ⟨_, rfl, by omega, by omega, fun long => ?_, met⟩
          rcases high with ⟨rfl, shrunk | rfl⟩ | high
          · omega
          · omega
          · have : middle ≠ last := by
              rintro rfl
              exact high.ne met.symm
            omega

/-! ## Rounding a search -/

namespace Bisection

/-- The index found, or the end of a gap, or `other` if the interval has one index. -/
def roundUp (other : Nat) : Bisection → Nat
  | found index => index
  | stuck first last => if first + 1 = last then last else other

/-- The index found, or the beginning of a gap, or `other` if the interval has one index. -/
def roundDown (other : Nat) : Bisection → Nat
  | found index => index
  | stuck first last => if first + 1 = last then first else other

variable {value : Nat → α} {target : α} {lo hi : Nat} {result : Bisection}

/-- Rounded up, a search stays in its interval. -/
theorem Sound.roundUp_mem (sound : result.Sound value target lo hi) (le : lo ≤ hi) :
    lo ≤ result.roundUp lo ∧ result.roundUp lo ≤ hi := by
  cases result with
  | found index => exact ⟨sound.1, sound.2.1⟩
  | stuck first last =>
      rw [roundUp]
      split
      · rcases sound with ⟨rfl, rfl, -⟩ | ⟨-, rfl, rfl, -⟩ | ⟨rfl, lo_le, le_hi, -⟩ <;> omega
      · exact ⟨le_rfl, le⟩

/-- Rounded up, a search gives the first index whose value reaches the target. -/
theorem Sound.roundUp_spec (sound : result.Sound value target lo hi)
    (increasing : Increasing value lo hi) (le : lo ≤ hi)
    (reached : target ≤ value hi) :
    lo ≤ result.roundUp lo ∧ result.roundUp lo ≤ hi ∧ target ≤ value (result.roundUp lo) ∧
      ∀ i, lo ≤ i → i < result.roundUp lo → value i < target := by
  cases result with
  | found index =>
      obtain ⟨lo_le, le_hi, -, rfl⟩ := sound
      exact ⟨lo_le, le_hi, le_rfl, fun i above below => increasing i index above below le_hi⟩
  | stuck first last =>
      rcases sound with ⟨rfl, rfl, above⟩ | ⟨rfl, rfl, rfl, below⟩ | ⟨rfl, lo_le, le_hi, below, gap⟩
      · rw [roundUp, if_neg (by omega)]
        exact ⟨le_rfl, by omega, above.le, fun i above before => by omega⟩
      · exact absurd reached below.not_ge
      · rw [roundUp, if_pos rfl]
        refine ⟨by omega, le_hi, ?_, fun i above before => ?_⟩
        · rcases gap with gap | rfl
          · exact gap.le
          · exact reached
        · exact (increasing.le above (Nat.le_of_lt_succ before) (by omega)).trans_lt below

/-- Rounded down, a search for a value in the range gives the last index that does not exceed it,
unless that is the last of all. -/
theorem Sound.roundDown_spec (sound : result.Sound value target lo hi)
    (increasing : Increasing value lo hi) (reached : value lo ≤ target) (long : lo < hi) :
    lo ≤ result.roundDown hi ∧ result.roundDown hi < hi ∧ value (result.roundDown hi) ≤ target ∧
      ∀ i, result.roundDown hi < i → i < hi → target < value i := by
  cases result with
  | found index =>
      obtain ⟨lo_le, le_hi, before_hi, rfl⟩ := sound
      exact ⟨lo_le, before_hi long, le_rfl,
        fun i after before => increasing index i lo_le after before.le⟩
  | stuck first last =>
      rcases sound with ⟨rfl, rfl, above⟩ | ⟨rfl, rfl, rfl, below⟩ | ⟨rfl, lo_le, le_hi, below, gap⟩
      · exact absurd reached above.not_ge
      · omega
      · rw [roundDown, if_pos rfl]
        refine ⟨lo_le, by omega, below.le, fun i after before => ?_⟩
        rcases gap with gap | rfl
        · exact gap.trans_le (increasing.le (by omega) after before.le)
        · omega

/-- Below the whole interval a search rounds down to its last index. -/
theorem Sound.roundDown_of_lt (sound : result.Sound value target lo hi)
    (increasing : Increasing value lo hi) (missed : target < value lo) :
    result.roundDown hi = hi := by
  cases result with
  | found index =>
      obtain ⟨lo_le, le_hi, -, rfl⟩ := sound
      exact absurd missed (increasing.le le_rfl lo_le le_hi).not_gt
  | stuck first last =>
      rcases sound with ⟨rfl, rfl, above⟩ | ⟨rfl, rfl, rfl, below⟩ | ⟨rfl, lo_le, le_hi, below, gap⟩
      · rw [roundDown, if_neg (by omega)]
      · rw [roundDown, if_neg (by omega)]
      · exact absurd missed
          ((increasing.le le_rfl lo_le (by omega)).trans below.le).not_gt

/-- In an interval of one index a search rounds down to it. -/
theorem Sound.roundDown_single (sound : result.Sound value target lo lo) :
    result.roundDown lo = lo := by
  cases result with
  | found index => exact le_antisymm sound.2.1 sound.1
  | stuck first last =>
      rcases sound with ⟨rfl, rfl, -⟩ | ⟨-, rfl, rfl, -⟩ | ⟨rfl, lo_le, le_hi, -, -⟩
      · rw [roundDown, if_neg (by omega)]
      · rw [roundDown, if_neg (by omega)]
      · omega

end Bisection

end CommonLib
