import Mathlib.Order.Bounds.Basic
import Mathlib.Order.Lattice

/-!
# The least value of a list

A minimum is accumulated from a sentinel.  It is the least value of the list unless the sentinel
lies below all of them.
-/

namespace CommonLib

variable {α : Type*} [LinearOrder α]

theorem foldl_min_le (start : α) (values : List α) : values.foldl min start ≤ start := by
  induction values generalizing start with
  | nil => exact le_rfl
  | cons value values induction => exact (induction _).trans (min_le_left start value)

theorem foldl_min_le_of_mem (start : α) {values : List α} {value : α} (among : value ∈ values) :
    values.foldl min start ≤ value := by
  induction values generalizing start with
  | nil => cases among
  | cons first values induction =>
      rcases List.mem_cons.mp among with rfl | among
      · exact (foldl_min_le _ values).trans (min_le_right start value)
      · exact induction _ among

theorem foldl_min_mem (start : α) (values : List α) :
    values.foldl min start = start ∨ values.foldl min start ∈ values := by
  induction values generalizing start with
  | nil => exact .inl rfl
  | cons value values induction =>
      rw [List.foldl_cons]
      rcases induction (min start value) with same | among
      · rw [same]
        rcases le_total start value with le | le
        · exact .inl (min_eq_left le)
        · rw [min_eq_right le]
          exact .inr List.mem_cons_self
      · exact .inr (.tail _ among)

/-- The accumulated minimum is the least value exactly when a value does not exceed the sentinel. -/
theorem isLeast_foldl_min_iff (start : α) (values : List α) :
    IsLeast {value | value ∈ values} (values.foldl min start) ↔ ∃ value ∈ values, value ≤ start := by
  constructor
  · rintro ⟨among, -⟩
    exact ⟨_, among, foldl_min_le start values⟩
  · rintro ⟨value, among, le⟩
    refine ⟨?_, fun other among' => foldl_min_le_of_mem start among'⟩
    rcases foldl_min_mem start values with same | inside
    · have : value = start := le_antisymm le (same ▸ foldl_min_le_of_mem start among)
      rw [same, ← this]
      exact among
    · exact inside

/-- Otherwise the sentinel stays. -/
theorem foldl_min_eq_start {start : α} {values : List α} (above : ∀ value ∈ values, start < value) :
    values.foldl min start = start := by
  rcases foldl_min_mem start values with same | among
  · exact same
  · exact absurd (foldl_min_le start values) (above _ among).not_ge

end CommonLib
