import Mathlib.Tactic.Common

/-!
# The longest suffix within a bound

A buffer that drops its oldest elements until there is room for a new one keeps the longest suffix
of all elements whose total weight is within a bound.
-/

namespace CommonLib

variable {α : Type*} (weight : α → Nat)

/-- The weight of all elements together. -/
def totalWeight : List α → Nat
  | [] => 0
  | a :: rest => weight a + totalWeight rest

theorem totalWeight_append (front back : List α) :
    totalWeight weight (front ++ back) = totalWeight weight front + totalWeight weight back := by
  induction front with
  | nil => exact (Nat.zero_add _).symm
  | cons a front ih => rw [List.cons_append, totalWeight, totalWeight, ih, Nat.add_assoc]

/-- No longer suffix stays within the bound. -/
structure IsLongestSuffix (bound : Nat) (kept all : List α) : Prop where
  isSuffix : kept <:+ all
  fits : totalWeight weight kept ≤ bound
  longest : ∀ other, other <:+ all → totalWeight weight other ≤ bound → other.length ≤ kept.length

/-- Drop elements from the front until the rest stays within a bound. -/
def evict (bound : Nat) : List α → List α
  | [] => []
  | a :: rest => if totalWeight weight (a :: rest) ≤ bound then a :: rest else evict bound rest

variable {weight} {bound : Nat} {kept all : List α}

theorem evict_isLongestSuffix (weight : α → Nat) (bound : Nat) (all : List α) :
    IsLongestSuffix weight bound (evict weight bound all) all := by
  induction all with
  | nil =>
      exact
        { isSuffix := List.suffix_rfl
          fits := Nat.zero_le bound
          longest := fun _ behind _ => behind.length_le }
  | cons a rest ih =>
      rw [evict]
      split
      · rename_i within
        exact
          { isSuffix := List.suffix_rfl
            fits := within
            longest := fun _ behind _ => behind.length_le }
      · rename_i beyond
        refine ⟨ih.isSuffix.trans (List.suffix_cons a rest), ih.fits, fun other behind within => ?_⟩
        rcases List.suffix_cons_iff.mp behind with rfl | later
        · exact absurd within beyond
        · exact ih.longest other later within

theorem isLongestSuffix_nil : IsLongestSuffix weight bound [] [] :=
  evict_isLongestSuffix weight bound []

/-- An element for which room has been made is put behind the others. -/
theorem IsLongestSuffix.concat (longest : IsLongestSuffix weight bound kept all) {a : α}
    (small : weight a ≤ bound) :
    IsLongestSuffix weight bound (evict weight (bound - weight a) kept ++ [a]) (all ++ [a]) := by
  have room := evict_isLongestSuffix weight (bound - weight a) kept
  have single : totalWeight weight [a] = weight a := Nat.add_zero _
  refine ⟨?_, ?_, fun other behind within => ?_⟩
  · exact List.suffix_concat_iff.mpr (.inr ⟨_, rfl, room.isSuffix.trans longest.isSuffix⟩)
  · have fits := room.fits
    rw [totalWeight_append, single]
    omega
  · rcases List.suffix_concat_iff.mp behind with rfl | ⟨front, rfl, earlier⟩
    · exact Nat.zero_le _
    · rw [totalWeight_append, single] at within
      have shorter := longest.longest front earlier (by omega)
      have inside := List.suffix_of_suffix_length_le earlier longest.isSuffix shorter
      have length_le := room.longest front inside (by omega)
      rw [List.length_append, List.length_append]
      omega

end CommonLib
