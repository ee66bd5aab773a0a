import Mathlib.Data.List.Basic

/-!
# Regions of memory blocks

An allocator hands out regions of the blocks that it holds.  A region without bytes lies inside
every block and is apart from every region.
-/

namespace CommonLib

variable {β : Type*}

/-- `size` bytes of a block from `start` on. -/
structure Region (β : Type*) where
  block : β
  start : Nat
  size : Nat
deriving DecidableEq

namespace Region

/-- The region has a byte at this address of this block. -/
def Covers (region : Region β) (block : β) (address : Nat) : Prop :=
  region.block = block ∧ region.start ≤ address ∧ address < region.start + region.size

/-- All bytes of the region are among the first `bytes` of the block. -/
def Inside (region : Region β) (block : β) (bytes : Nat) : Prop :=
  ∀ block' address, region.Covers block' address → block' = block ∧ address < bytes

/-- No byte belongs to both regions. -/
def Apart (region other : Region β) : Prop :=
  ∀ block address, region.Covers block address → ¬ other.Covers block address

variable {region other : Region β} {block : β} {bytes : Nat}

theorem inside_iff :
    region.Inside block bytes ↔
      region.size = 0 ∨ region.block = block ∧ region.start + region.size ≤ bytes := by
  constructor
  · intro inside
    rcases Nat.eq_zero_or_pos region.size with empty | nonempty
    · exact Or.inl empty
    · obtain ⟨same, below⟩ :=
        inside region.block (region.start + region.size - 1) ⟨rfl, by omega, by omega⟩
      exact Or.inr ⟨same, by omega⟩
  · rintro (empty | ⟨same, below⟩) block' address ⟨here, above, before⟩
    · omega
    · exact ⟨here.symm.trans same, by omega⟩

theorem Inside.mono {bytes' : Nat} (inside : region.Inside block bytes) (fewer : bytes ≤ bytes') :
    region.Inside block bytes' := fun block' address covers =>
  (inside block' address covers).imp_right fun below => Nat.lt_of_lt_of_le below fewer

theorem Apart.symm (apart : region.Apart other) : other.Apart region :=
  fun block address covers covers' => apart block address covers' covers

/-- What starts behind the first bytes of a block is apart from what lies inside them. -/
theorem Inside.apart (inside : region.Inside block bytes) (behind : bytes ≤ other.start) :
    region.Apart other := by
  intro block' address covers covers'
  obtain ⟨-, below⟩ := inside block' address covers
  obtain ⟨-, above, -⟩ := covers'
  omega

/-! ## Arrays -/

/-- The element at `index` of an array which starts at `start`. -/
def element (block : β) (start size index : Nat) : Region β where
  block := block
  start := start + size * index
  size := size

theorem element_end (start size index : Nat) :
    (element block start size index).start + size = start + size * (index + 1) := by
  rw [element, Nat.mul_succ, Nat.add_assoc]

theorem element_inside {start size index count : Nat} (low : index < count) :
    (element block start size index).Inside block (start + size * count) := by
  refine inside_iff.mpr (Or.inr ⟨rfl, ?_⟩)
  calc (element block start size index).start + size
      = start + size * (index + 1) := element_end ..
    _ ≤ start + size * count := Nat.add_le_add_left (Nat.mul_le_mul_left size low) start

/-- Different elements of an array are apart. -/
theorem element_apart {start size index index' : Nat} (different : index ≠ index') :
    (element block start size index).Apart (element block start size index') := by
  have ordered : ∀ {low high : Nat}, low < high →
      (element block start size low).Apart (element block start size high) := fun lower =>
    (element_inside (Nat.lt_succ_self _)).apart
      (Nat.add_le_add_left (Nat.mul_le_mul_left size lower) start)
  rcases Nat.lt_or_gt_of_ne different with lower | higher
  · exact ordered lower
  · exact (ordered higher).symm

end Region
end CommonLib
