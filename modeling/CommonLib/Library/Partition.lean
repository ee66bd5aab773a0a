import Mathlib.Data.List.Basic
import Mathlib.Data.List.Nodup
import Mathlib.Data.List.Perm.Subperm

/-!
# Cells distributed over places

The cells `0, …, size - 1` are distributed over lists, one for each place, so that every cell lies
in exactly one of them.  Moving the front of one list to the front of another keeps this.
-/

namespace CommonLib

variable {ι : Type*} {size : Nat} {lists : ι → List Nat}

/-- Every cell below `size` occurs exactly once in all lists together. -/
structure Partition (size : Nat) (lists : ι → List Nat) : Prop where
  inside : ∀ {cell place}, cell ∈ lists place → cell < size
  cover : ∀ {cell}, cell < size → ∃ place, cell ∈ lists place
  single : ∀ {cell place place'}, cell ∈ lists place → cell ∈ lists place' → place = place'
  nodup : ∀ place, (lists place).Nodup

/-- Move the first `count` cells of `source` to the front of `target`. -/
def transfer [DecidableEq ι] (lists : ι → List Nat) (source target : ι) (count : Nat) :
    ι → List Nat :=
  fun place =>
    if place = target then (lists source).take count ++ lists target
    else if place = source then (lists source).drop count
    else lists place

section Transfer

variable [DecidableEq ι] {source target : ι} {count : Nat}

theorem transfer_target :
    transfer lists source target count target = (lists source).take count ++ lists target := by
  simp [transfer]

theorem transfer_source (different : source ≠ target) :
    transfer lists source target count source = (lists source).drop count := by
  simp [transfer, different]

theorem transfer_other {place : ι} (notSource : place ≠ source) (notTarget : place ≠ target) :
    transfer lists source target count place = lists place := by
  simp [transfer, notSource, notTarget]

theorem mem_transfer (different : source ≠ target) {cell : Nat} {place : ι} :
    cell ∈ transfer lists source target count place ↔
      (place = target ∧ cell ∈ (lists source).take count) ∨
        (place = source ∧ cell ∈ (lists source).drop count) ∨
        (place ≠ source ∧ cell ∈ lists place) := by
  by_cases isTarget : place = target
  · subst isTarget
    simp [transfer_target, different.symm]
  · by_cases isSource : place = source
    · subst isSource
      simp [transfer_source different, isTarget]
    · simp [transfer_other isSource isTarget, isTarget, isSource]

/-- A transfer keeps every cell in exactly one list. -/
theorem transfer_partition (partition : Partition size lists) (different : source ≠ target)
    (count : Nat) : Partition size (transfer lists source target count) := by
  have split (cell : Nat) : cell ∈ lists source ↔
      cell ∈ (lists source).take count ∨ cell ∈ (lists source).drop count := by
    rw [← List.mem_append, List.take_append_drop]
  have disjoint {cell : Nat} (taken : cell ∈ (lists source).take count) :
      cell ∉ (lists source).drop count := by
    have nodup := partition.nodup source
    rw [← List.take_append_drop count (lists source)] at nodup
    exact fun left => List.disjoint_of_nodup_append nodup taken left
  constructor
  · intro cell place member
    rcases (mem_transfer different).mp member with ⟨_, taken⟩ | ⟨_, left⟩ | ⟨_, kept⟩
    · exact partition.inside ((split cell).mpr (Or.inl taken))
    · exact partition.inside ((split cell).mpr (Or.inr left))
    · exact partition.inside kept
  · intro cell inside
    obtain ⟨place, member⟩ := partition.cover inside
    by_cases isSource : place = source
    · subst isSource
      rcases (split cell).mp member with taken | left
      · exact ⟨target, (mem_transfer different).mpr (Or.inl ⟨rfl, taken⟩)⟩
      · exact ⟨place, (mem_transfer different).mpr (Or.inr (Or.inl ⟨rfl, left⟩))⟩
    · exact ⟨place, (mem_transfer different).mpr (Or.inr (Or.inr ⟨isSource, member⟩))⟩
  · intro cell place place' member member'
    have origin {place : ι} (member : cell ∈ transfer lists source target count place) :
        cell ∈ lists source ∨ cell ∉ lists source ∧ place ≠ source ∧ cell ∈ lists place := by
      rcases (mem_transfer different).mp member with ⟨_, taken⟩ | ⟨_, left⟩ | ⟨notSource, kept⟩
      · exact Or.inl ((split cell).mpr (Or.inl taken))
      · exact Or.inl ((split cell).mpr (Or.inr left))
      · by_cases fromSource : cell ∈ lists source
        · exact Or.inl fromSource
        · exact Or.inr ⟨fromSource, notSource, kept⟩
    rcases origin member with fromSource | ⟨notSource, _, kept⟩
    · -- the place of a cell of `source` depends on the part of the list it lies in
      have elsewhere {place : ι} (notSource : place ≠ source) : cell ∉ lists place :=
        fun kept => notSource (partition.single kept fromSource)
      rcases (split cell).mp fromSource with taken | left
      · have landed {place : ι} (member : cell ∈ transfer lists source target count place) :
            place = target := by
          rcases (mem_transfer different).mp member with ⟨isTarget, _⟩ | ⟨_, left⟩ | ⟨other, kept⟩
          · exact isTarget
          · exact absurd left (disjoint taken)
          · exact absurd kept (elsewhere other)
        rw [landed member, landed member']
      · have stayed {place : ι} (member : cell ∈ transfer lists source target count place) :
            place = source := by
          rcases (mem_transfer different).mp member with ⟨_, taken⟩ | ⟨isSource, _⟩ | ⟨other, kept⟩
          · exact absurd left (disjoint taken)
          · exact isSource
          · exact absurd kept (elsewhere other)
        rw [stayed member, stayed member']
    · rcases origin member' with fromSource | ⟨_, _, kept'⟩
      · exact absurd fromSource notSource
      · exact partition.single kept kept'
  · intro place
    have nodup := partition.nodup source
    by_cases isTarget : place = target
    · subst isTarget
      rw [transfer_target]
      refine List.Nodup.append (nodup.sublist (List.take_sublist _ _)) (partition.nodup place) ?_
      intro cell taken kept
      exact different (partition.single ((split cell).mpr (Or.inl taken)) kept)
    · by_cases isSource : place = source
      · subst isSource
        rw [transfer_source different]
        exact nodup.sublist (List.drop_sublist _ _)
      · rw [transfer_other isSource isTarget]
        exact partition.nodup place

end Transfer

theorem Partition.length_le (partition : Partition size lists) (place : ι) :
    (lists place).length ≤ size := by
  have inside : lists place ⊆ List.range size :=
    fun _ member => List.mem_range.mpr (partition.inside member)
  simpa using (List.subperm_of_subset (partition.nodup place) inside).length_le

/-- Every cell has exactly one place. -/
theorem Partition.existsUnique (partition : Partition size lists) {cell : Nat}
    (inside : cell < size) : ∃! place, cell ∈ lists place := by
  obtain ⟨place, member⟩ := partition.cover inside
  exact ⟨place, member, fun _ member' => partition.single member' member⟩

end CommonLib
