import CommonLib.Timer.TimerWheel
import Mathlib.Data.Nat.Bitwise

/-!
# The ticks that `schedule_in_range` chooses

The masks clear low bytes, so the event is put on the latest tick of the range that ends in as many
zero bytes as a tick behind the start of the range can have.
-/

namespace CommonLib.TimerWheel

/-- A mask of high bits clears the low ones. -/
theorem and_high_bits (n : ℕ) {low width : ℕ} (inside : low ≤ width) :
    n &&& (2 ^ width - 2 ^ low) = n % 2 ^ width / 2 ^ low * 2 ^ low := by
  have mask : 2 ^ width - 2 ^ low = (2 ^ (width - low) - 1) <<< low := by
    rw [Nat.shiftLeft_eq, Nat.sub_mul, Nat.one_mul, ← pow_add, Nat.sub_add_cancel inside]
  rw [mask, ← Nat.shiftRight_eq_div_pow, ← Nat.shiftLeft_eq]
  refine Nat.eq_of_testBit_eq fun i => ?_
  rw [Nat.testBit_and, Nat.testBit_shiftLeft, Nat.testBit_shiftLeft, Nat.testBit_shiftRight,
    Nat.testBit_two_pow_sub_one, Nat.testBit_mod_two_pow]
  by_cases above : low ≤ i
  · have same : low + (i - low) = i := Nat.add_sub_cancel' above
    have bound : i - low < width - low ↔ i < width := by omega
    simp [above, same, bound, Bool.and_comm]
  · simp [above]

theorem pow_256 (k : ℕ) : 256 ^ k = 2 ^ (8 * k) := by rw [pow_mul]; rfl

theorem and_mask {n k : ℕ} (small : n < word64) (inside : k ≤ 8) :
    n &&& (word64 - 256 ^ k) = n / 256 ^ k * 256 ^ k := by
  rw [word64] at small ⊢
  rw [pow_256, and_high_bits n (by omega), Nat.mod_eq_of_lt small]

theorem mask_next : ∀ k < 8, (word64 - 256 ^ k) <<< 8 % word64 = word64 - 256 ^ (k + 1) := by
  decide

theorem mask_back : ∀ k < 8, (word64 - 256 ^ (k + 1)) >>> 8 = 2 ^ 56 - 256 ^ k := by decide

theorem div_eq_of_le {first last k l : ℕ} (le : k ≤ l) (same : first / 256 ^ k = last / 256 ^ k) :
    first / 256 ^ l = last / 256 ^ l := by
  obtain ⟨more, rfl⟩ := Nat.exists_eq_add_of_le le
  rw [pow_add, ← Nat.div_div_eq_div_mul, ← Nat.div_div_eq_div_mul, same]

/-- The loop ends at the first mask under which the ends of the range are the same. -/
theorem rangeMask_eq {first last : ℕ} (first_small : first < word64) (last_small : last < word64)
    {fuel k : ℕ} (masks : fuel + k = 8)
    (differ : first / 256 ^ k ≠ last / 256 ^ k) :
    ∃ l, k ≤ l ∧ l < 8 ∧ first / 256 ^ l ≠ last / 256 ^ l ∧
      first / 256 ^ (l + 1) = last / 256 ^ (l + 1) ∧
      rangeMask first last fuel (word64 - 256 ^ k) = word64 - 256 ^ (l + 1) := by
  induction fuel generalizing k with
  | zero =>
      obtain rfl : k = 8 := by omega
      exact absurd ((Nat.div_eq_of_lt first_small).trans (Nat.div_eq_of_lt last_small).symm) differ
  | succ fuel induction =>
      have unequal : first &&& (word64 - 256 ^ k) ≠ last &&& (word64 - 256 ^ k) := by
        rw [and_mask first_small (by omega), and_mask last_small (by omega)]
        exact fun same => differ (Nat.eq_of_mul_eq_mul_right (Nat.pow_pos (by decide)) same)
      rw [rangeMask, if_pos unequal, mask_next k (by omega)]
      by_cases same : first / 256 ^ (k + 1) = last / 256 ^ (k + 1)
      · refine ⟨k, Nat.le_refl _, by omega, differ, same, ?_⟩
        cases fuel with
        | zero => rfl
        | succ fuel =>
            rw [rangeMask, and_mask first_small (by omega), and_mask last_small (by omega), same,
              if_neg (not_not_intro rfl)]
      · obtain ⟨l, le, found⟩ := induction (by omega) same
        exact ⟨l, by omega, found⟩

/-- The chosen tick ends in as many zero bytes as possible. -/
theorem rangeDelta_eq {first last : ℕ} (ordered : first < last) (small : last < 2 ^ 56) :
    ∃ l, rangeDelta first last = last / 256 ^ l * 256 ^ l ∧ first / 256 ^ l < last / 256 ^ l ∧
      first / 256 ^ (l + 1) = last / 256 ^ (l + 1) := by
  have last_small : last < word64 := Nat.lt_of_lt_of_le small (by decide)
  obtain ⟨l, -, inside, differ, same, masked⟩ :=
    rangeMask_eq (Nat.lt_trans ordered last_small) last_small (Nat.add_zero 8)
      (by simpa using Nat.ne_of_lt ordered)
  refine ⟨l, ?_, Nat.lt_of_le_of_ne (Nat.div_le_div_right (Nat.le_of_lt ordered)) differ, same⟩
  rw [pow_zero] at masked
  rw [rangeDelta, masked, mask_back l inside, pow_256, and_high_bits last (by omega),
    Nat.mod_eq_of_lt small]

theorem rangeDelta_mem {first last : ℕ} (ordered : first < last) (small : last < 2 ^ 56) :
    first < rangeDelta first last ∧ rangeDelta first last ≤ last := by
  obtain ⟨l, delta_eq, above, -⟩ := rangeDelta_eq ordered small
  rw [delta_eq]
  refine ⟨?_, Nat.div_mul_le_self _ _⟩
  calc first < (first / 256 ^ l + 1) * 256 ^ l :=
        (Nat.div_lt_iff_lt_mul (Nat.pow_pos (by decide))).mp (Nat.lt_succ_self _)
    _ ≤ last / 256 ^ l * 256 ^ l := Nat.mul_le_mul_right _ above

/-- If some tick behind the start of the range ends in so many zero bytes, the chosen one does. -/
theorem dvd_rangeDelta {first last k : ℕ} (ordered : first < last) (small : last < 2 ^ 56)
    {tick : ℕ} (behind : first < tick) (before : tick ≤ last) (divides : 256 ^ k ∣ tick) :
    256 ^ k ∣ rangeDelta first last := by
  obtain ⟨l, delta_eq, -, same⟩ := rangeDelta_eq ordered small
  have bytes : k ≤ l := by
    by_contra more
    have equal := div_eq_of_le (Nat.lt_of_not_le more) same
    obtain ⟨times, rfl⟩ := divides
    have lower : first / 256 ^ k < times := Nat.div_lt_of_lt_mul behind
    have upper : times ≤ last / 256 ^ k :=
      (Nat.le_div_iff_mul_le (Nat.pow_pos (by decide))).mpr (Nat.mul_comm .. ▸ before)
    omega
  rw [delta_eq]
  exact Dvd.dvd.mul_left (pow_dvd_pow 256 bytes) _

end CommonLib.TimerWheel
