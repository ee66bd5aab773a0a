import Mathlib.Tactic.Common

/-!
# Splitting at a separator

The fields of a list stand between the occurrences of a separator, which are looked for from the
left and do not overlap.  Joined by the separator the fields make up the list.
-/

namespace CommonLib.Separator

variable {α : Type}

theorem intercalate_concat (sep : List α) {fields : List (List α)} (nonempty : fields ≠ [])
    (last : List α) :
    sep.intercalate (fields ++ [last]) = sep.intercalate fields ++ sep ++ last := by
  induction fields with
  | nil => exact absurd rfl nonempty
  | cons field fields ih =>
      cases fields with
      | nil => simp [List.intercalate_cons_cons]
      | cons next fields =>
          have rest := ih (List.cons_ne_nil _ _)
          simp only [List.cons_append, List.intercalate_cons_cons] at rest ⊢
          rw [rest]
          simp only [List.append_assoc]

variable [DecidableEq α]

/-- The place of the first occurrence of a separator. -/
def firstMatch (sep : List α) (src : List α) : Option Nat :=
  if sep.isPrefixOf src then some 0
  else
    match src with
    | [] => none
    | _ :: rest => (firstMatch sep rest).map (· + 1)

/-- The text is cut at the place of the occurrence. -/
theorem firstMatch_eq_some {sep src : List α} {p : Nat} (found : firstMatch sep src = some p) :
    src = src.take p ++ sep ++ src.drop (p + sep.length) ∧ p + sep.length ≤ src.length := by
  induction src generalizing p with
  | nil =>
      rw [firstMatch] at found
      split at found
      · rename_i here
        obtain rfl := Option.some.inj found
        obtain rfl : sep = [] := by simpa using here
        exact ⟨rfl, Nat.le_refl 0⟩
      · cases found
  | cons a rest ih =>
      rw [firstMatch] at found
      split at found
      · rename_i here
        obtain rfl := Option.some.inj found
        obtain ⟨behind, rest_eq⟩ := List.isPrefixOf_iff_prefix.mp here
        rw [← rest_eq]
        simp
      · obtain ⟨q, later, rfl⟩ := Option.map_eq_some_iff.mp found
        obtain ⟨cut, inside⟩ := ih later
        rw [Nat.add_right_comm, List.take_succ_cons, List.drop_succ_cons, List.length_cons]
        refine ⟨?_, Nat.succ_le_succ inside⟩
        rw [List.cons_append, List.cons_append, ← cut]

/-- A text without the first byte of the separator. -/
theorem firstMatch_eq_none {a : α} (sep : List α) {src : List α} (absent : a ∉ src) :
    firstMatch (a :: sep) src = none := by
  induction src with
  | nil => rfl
  | cons b rest ih =>
      have apart : ¬ (a :: sep).isPrefixOf (b :: rest) = true := by
        rw [List.isPrefixOf_iff_prefix]
        intro here
        rw [List.cons_prefix_cons] at here
        exact absent (here.1 ▸ List.mem_cons_self)
      rw [firstMatch, if_neg apart]
      exact Option.map_eq_none_iff.mpr (ih fun later => absent (List.mem_cons_of_mem b later))

/-- The first occurrence stands behind a text without the first byte of the separator. -/
theorem firstMatch_append {a : α} (sep : List α) {front : List α} (absent : a ∉ front)
    (rest : List α) : firstMatch (a :: sep) (front ++ (a :: sep ++ rest)) = some front.length := by
  induction front with
  | nil =>
      have here : (a :: sep).isPrefixOf (a :: sep ++ rest) = true :=
        List.isPrefixOf_iff_prefix.mpr (List.prefix_append _ rest)
      rw [List.nil_append, firstMatch.eq_def, if_pos here]
      rfl
  | cons b front ih =>
      have apart : ¬ (a :: sep).isPrefixOf (b :: (front ++ (a :: sep ++ rest))) = true := by
        rw [List.isPrefixOf_iff_prefix]
        intro here
        rw [List.cons_prefix_cons] at here
        exact absent (here.1 ▸ List.mem_cons_self)
      rw [List.cons_append, firstMatch, if_neg apart]
      show (firstMatch (a :: sep) (front ++ (a :: sep ++ rest))).map (· + 1) = _
      rw [ih fun later => absent (List.mem_cons_of_mem b later)]
      rfl

/-- The fields of a text; without a separator there is one. -/
def split (sep : List α) (src : List α) : List (List α) :=
  match _found : firstMatch sep src with
  | none => [src]
  | some p =>
      if _positive : 0 < sep.length then src.take p :: split sep (src.drop (p + sep.length))
      else [src]
termination_by src.length
decreasing_by
  have inside := (firstMatch_eq_some _found).2
  rw [List.length_drop]
  omega

theorem split_of_none {sep src : List α} (absent : firstMatch sep src = none) :
    split sep src = [src] := by
  rw [split]
  split
  · rfl
  · rename_i found
    rw [absent] at found
    cases found

theorem split_of_some {sep src : List α} {p : Nat} (found : firstMatch sep src = some p)
    (nonempty : sep ≠ []) :
    split sep src = src.take p :: split sep (src.drop (p + sep.length)) := by
  have positive := List.length_pos_iff.mpr nonempty
  rw [split]
  split
  · rename_i absent
    rw [absent] at found
    cases found
  · rename_i q other
    obtain rfl : q = p := Option.some.inj (other.symm.trans found)
    rw [dif_pos positive]

/-- A text is a list of fields with a separator behind each of them, and a last field. -/
theorem exists_split_eq (sep src : List α) : ∃ fields last, split sep src = fields ++ [last] := by
  have ne_nil : split sep src ≠ [] := by
    rw [split]
    split
    · exact List.cons_ne_nil _ _
    · split <;> exact List.cons_ne_nil _ _
  exact ⟨_, _, (List.dropLast_concat_getLast ne_nil).symm⟩

/-- Joined by the separator, the fields make up the text. -/
theorem intercalate_split (sep src : List α) : sep.intercalate (split sep src) = src := by
  fun_induction split sep src with
  | case1 src absent => exact List.intercalate_singleton
  | case2 src p found positive ih =>
      obtain ⟨fields, last, split_eq⟩ := exists_split_eq sep (src.drop (p + sep.length))
      have ne_nil : split sep (src.drop (p + sep.length)) ≠ [] := by
        rw [split_eq]
        simp
      rw [List.intercalate_cons_of_ne_nil ne_nil, ih]
      exact (firstMatch_eq_some found).1.symm
  | case3 src p found empty => exact List.intercalate_singleton

end CommonLib.Separator
