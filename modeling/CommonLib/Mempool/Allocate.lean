import CommonLib.Hlib.CirBuffer
import CommonLib.Library.Execution
import CommonLib.Library.Region

/-!
# The incremental allocator of `Allocate.cpp`

`IncrementalAllocator` hands out the bytes of one block in order.  A request which does not fit
reallocates the block to the size it is recorded with, doubles the recorded size and tries once
more.
-/

namespace CommonLib

open Execution

/-- How `realloc` answers: with `NULL`, or with a block, moved or not, which has `fill` behind the
bytes that were kept. -/
inductive Realloc where
  | null
  | block (moved : Bool) (fill : Nat → Byte)

/-- The allocator, and the block behind `pool`: it is told apart from the earlier ones by a number,
has `bytes` bytes, and is `live` until it is freed. -/
structure IncrementalAllocator where
  pool : Nat
  bytes : UInt32
  live : Bool
  cells : Nat → Byte
  poolSize : UInt32
  allocationCursor : UInt32

namespace IncrementalAllocator

/-- `Initialize`, with a block of `poolSize` bytes. -/
def initializePool (memory : Nat → Byte) (poolSize : UInt32) : IncrementalAllocator where
  pool := 0
  bytes := poolSize
  live := true
  cells i := if i < poolSize.toNat then 0 else memory i
  poolSize := poolSize
  allocationCursor := 0

/-- `realloc(pool, poolSize)`.  A request for no bytes that is answered with `NULL` has freed the
block. -/
def realloc (memory : IncrementalAllocator) : Realloc → Bool × IncrementalAllocator
  | .null => (false, { memory with live := memory.poolSize != 0 })
  | .block moved fill =>
      (true,
        { memory with
          pool := if moved then memory.pool + 1 else memory.pool
          bytes := memory.poolSize
          cells := fun i => if i < min memory.bytes.toNat memory.poolSize.toNat then memory.cells i
            else fill i })

/-- The `size` bytes at `pool + allocationCursor`. -/
def next (memory : IncrementalAllocator) (size : UInt32) : Region Nat :=
  ⟨memory.pool, memory.allocationCursor.toNat, size.toNat⟩

/-- `allocationCursor += size`. -/
def advance (memory : IncrementalAllocator) (size : UInt32) : IncrementalAllocator :=
  { memory with allocationCursor := memory.allocationCursor + size }

/-- The test against the recorded size, and the result if the request passes it. -/
def take (memory : IncrementalAllocator) (size : UInt32) :
    Option (Region Nat × IncrementalAllocator) :=
  if memory.allocationCursor + size ≤ memory.poolSize then
    some (memory.next size, memory.advance size)
  else none

/-- `Allocate`, with the region that starts at its result.  A block that was freed cannot be
reallocated. -/
def allocate (memory : IncrementalAllocator) (answer : Realloc) (size : UInt32) :
    Option (Option (Region Nat) × IncrementalAllocator) :=
  match memory.take size with
  | some (allocation, memory) => some (some allocation, memory)
  | none =>
      if memory.live then
        match memory.realloc answer with
        | (true, memory) =>
            let memory := { memory with poolSize := memory.poolSize * 2 }
            match memory.take size with
            | some (allocation, memory) => some (some allocation, memory)
            | none => some (none, memory)
        | (false, memory) => some (none, memory)
      else none

/-! ## Sequences of calls -/

/-- An allocator with the regions which it has returned. -/
structure Returned where
  memory : IncrementalAllocator
  regions : List (Region Nat)

/-- A call of `Allocate`, with the answer of `realloc` should it be asked. -/
structure Call where
  size : UInt32
  answer : Realloc

/-- Make a call and note the region it returns. -/
def step (state : Returned) (call : Call) : Option Returned :=
  (state.memory.allocate call.answer call.size).map fun (allocation, memory) =>
    { memory, regions := state.regions ++ allocation.toList }

/-- `pool` holds a block, which contains all returned regions, and these are apart. -/
structure Sound (state : Returned) : Prop where
  live : state.memory.live = true
  inside : ∀ region ∈ state.regions, region.Inside state.memory.pool state.memory.bytes.toNat
  apart : state.regions.Pairwise Region.Apart

/-- The state behind `Initialize`, before the first call. -/
def start (memory : Nat → Byte) (poolSize : UInt32) : Returned where
  memory := initializePool memory poolSize
  regions := []

/-- A reallocation keeps the bytes that are in use where they are. -/
def Keeps (memory : IncrementalAllocator) (moved : Bool) : Prop :=
  memory.allocationCursor = 0 ∨ moved = false ∧ memory.allocationCursor ≤ memory.poolSize

/-- What a call needs.  A request that passes the test fits into the block.  Any other request is
refused: after `NULL` for a positive size, or after a reallocation that keeps what is in use. -/
def Provided (state : Returned) (call : Call) : Prop :=
  let memory := state.memory
  let wanted := memory.allocationCursor + call.size
  if wanted ≤ memory.poolSize then
    memory.allocationCursor.toNat + call.size.toNat ≤ memory.bytes.toNat
  else
    match call.answer with
    | .null => memory.poolSize ≠ 0
    | .block moved _ => memory.poolSize * 2 < wanted ∧ memory.Keeps moved

/-! ## One call -/

section Cases

variable {memory : IncrementalAllocator} {regions : List (Region Nat)} {size : UInt32}
  {answer : Realloc}

/-- The allocator behind a reallocation. -/
def grown (memory : IncrementalAllocator) (moved : Bool) (fill : Nat → Byte) :
    IncrementalAllocator :=
  { (memory.realloc (.block moved fill)).2 with poolSize := memory.poolSize * 2 }

theorem allocate_of_passes (passes : memory.allocationCursor + size ≤ memory.poolSize) :
    memory.allocate answer size = some (some (memory.next size), memory.advance size) := by
  rw [allocate, take, if_pos passes]

theorem step_of_passes (passes : memory.allocationCursor + size ≤ memory.poolSize) :
    step ⟨memory, regions⟩ ⟨size, answer⟩ =
      some ⟨memory.advance size, regions ++ [memory.next size]⟩ := by
  rw [step, allocate_of_passes passes]
  rfl

theorem step_of_null (fails : ¬ memory.allocationCursor + size ≤ memory.poolSize)
    (live : memory.live = true) :
    step ⟨memory, regions⟩ ⟨size, .null⟩ =
      some ⟨{ memory with live := memory.poolSize != 0 }, regions⟩ := by
  simp [step, allocate, take, fails, live, realloc]

theorem step_of_block (fails : ¬ memory.allocationCursor + size ≤ memory.poolSize)
    (live : memory.live = true) (moved : Bool) (fill : Nat → Byte) :
    step ⟨memory, regions⟩ ⟨size, .block moved fill⟩ =
      if memory.allocationCursor + size ≤ memory.poolSize * 2 then
        some ⟨(memory.grown moved fill).advance size,
          regions ++ [(memory.grown moved fill).next size]⟩
      else some ⟨memory.grown moved fill, regions⟩ := by
  by_cases served : memory.allocationCursor + size ≤ memory.poolSize * 2
  · simp [step, allocate, take, fails, live, realloc, grown, next, advance, served]
  · simp [step, allocate, take, fails, live, realloc, grown, served]

theorem Keeps.below {moved : Bool} (kept : memory.Keeps moved) :
    memory.allocationCursor.toNat ≤ memory.poolSize.toNat := by
  rcases kept with zero | ⟨-, below⟩
  · exact zero ▸ Nat.zero_le _
  · exact below

end Cases

/-! ## Regions below the cursor -/

/-- The returned regions lie apart below the cursor, which stands at the end of one of them. -/
structure Packed (state : Returned) : Prop where
  live : state.memory.live = true
  room : state.memory.allocationCursor.toNat ≤ state.memory.bytes.toNat
  inside : ∀ region ∈ state.regions,
    region.Inside state.memory.pool state.memory.allocationCursor.toNat
  apart : state.regions.Pairwise Region.Apart
  tight : state.memory.allocationCursor ≠ 0 → ∃ region ∈ state.regions,
    region.block = state.memory.pool ∧ region.size ≠ 0 ∧
      region.start + region.size = state.memory.allocationCursor.toNat

theorem packed_start (memory : Nat → Byte) (poolSize : UInt32) :
    Packed (start memory poolSize) where
  live := rfl
  room := Nat.zero_le _
  inside := by simp [start]
  apart := List.Pairwise.nil
  tight moved := absurd rfl moved

theorem Packed.sound {state : Returned} (packed : Packed state) : Sound state where
  live := packed.live
  inside region member := (packed.inside region member).mono packed.room
  apart := packed.apart

/-- A returned region with bytes outside the block. -/
theorem not_sound {state : Returned} {region : Region Nat} (member : region ∈ state.regions)
    (nonempty : region.size ≠ 0)
    (outside : region.block = state.memory.pool →
      state.memory.bytes.toNat < region.start + region.size) : ¬ Sound state := by
  intro sound
  rcases Region.inside_iff.mp (sound.inside region member) with empty | ⟨same, below⟩
  · exact nonempty empty
  · exact absurd (outside same) (Nat.not_lt.mpr below)

section Steps

variable {memory : IncrementalAllocator} {regions : List (Region Nat)} {size : UInt32}

/-- A region of bytes of the block behind the cursor. -/
theorem Packed.advance (packed : Packed ⟨memory, regions⟩)
    (fits : memory.allocationCursor.toNat + size.toNat ≤ memory.bytes.toNat) :
    Packed ⟨memory.advance size, regions ++ [memory.next size]⟩ := by
  have unwrapped : (memory.allocationCursor + size).toNat =
      memory.allocationCursor.toNat + size.toNat := by
    rw [UInt32.toNat_add]
    exact Nat.mod_eq_of_lt (Nat.lt_of_le_of_lt fits memory.bytes.toNat_lt)
  constructor
  case live => exact packed.live
  case room => exact Nat.le_trans (Nat.le_of_eq unwrapped) fits
  case inside =>
    intro region member
    have further : memory.allocationCursor.toNat ≤ (memory.advance size).allocationCursor.toNat :=
      unwrapped ▸ Nat.le_add_right ..
    rcases List.mem_append.mp member with earlier | new
    · exact (packed.inside region earlier).mono further
    · obtain rfl := List.mem_singleton.mp new
      exact Region.inside_iff.mpr (Or.inr ⟨rfl, Nat.le_of_eq unwrapped.symm⟩)
  case apart =>
    refine List.pairwise_append.mpr ⟨packed.apart, List.pairwise_singleton .., ?_⟩
    intro region earlier other new
    obtain rfl := List.mem_singleton.mp new
    exact (packed.inside region earlier).apart (Nat.le_refl _)
  case tight =>
    intro moved
    rcases eq_or_ne size 0 with rfl | positive
    · have same : memory.allocationCursor + 0 = memory.allocationCursor := UInt32.add_zero _
      obtain ⟨region, member, here, nonempty, last⟩ := packed.tight (same ▸ moved)
      exact ⟨region, List.mem_append_left _ member, here, nonempty, last.trans unwrapped.symm⟩
    · refine ⟨memory.next size, List.mem_append_right _ (List.mem_singleton_self _), rfl, ?_,
        unwrapped.symm⟩
      exact fun zero => positive (UInt32.toNat_inj.mp zero)

/-- A reallocation which keeps the bytes below the cursor. -/
theorem Packed.grown (packed : Packed ⟨memory, regions⟩) {moved : Bool} (kept : memory.Keeps moved)
    (fill : Nat → Byte) : Packed ⟨memory.grown moved fill, regions⟩ := by
  refine ⟨packed.live, kept.below, fun region member => ?_, packed.apart, fun used => ?_⟩
  · rcases Region.inside_iff.mp (packed.inside region member) with empty | ⟨here, last⟩
    · exact Region.inside_iff.mpr (Or.inl empty)
    · rcases kept with zero | ⟨rfl, -⟩
      · have cursor : memory.allocationCursor.toNat = 0 := zero ▸ rfl
        exact Region.inside_iff.mpr (Or.inl (by dsimp only at last; omega))
      · exact Region.inside_iff.mpr (Or.inr ⟨here, last⟩)
  · rcases kept with zero | ⟨rfl, -⟩
    · exact absurd zero used
    · exact packed.tight used

/-- Any other reallocation loses bytes which were returned. -/
theorem Packed.not_sound_grown (packed : Packed ⟨memory, regions⟩) {moved : Bool}
    (lost : ¬ memory.Keeps moved) {state : Returned}
    (pool : state.memory.pool = if moved then memory.pool + 1 else memory.pool)
    (bytes : state.memory.bytes = memory.poolSize) (returned : regions ⊆ state.regions) :
    ¬ Sound state := by
  obtain ⟨used, lost⟩ := not_or.mp lost
  obtain ⟨region, member, here, nonempty, last⟩ := packed.tight used
  refine not_sound (returned member) nonempty fun same => ?_
  cases moved with
  | false =>
      rw [bytes, last]
      exact UInt32.not_le.mp fun below => lost ⟨rfl, below⟩
  | true =>
      have apart : memory.pool = memory.pool + 1 := here.symm.trans (same.trans pool)
      omega

/-- A request which failed the first test does not fit into the reallocated block. -/
theorem not_sound_served (fails : ¬ memory.allocationCursor + size ≤ memory.poolSize)
    {moved : Bool} (kept : memory.Keeps moved) (fill : Nat → Byte) :
    ¬ Sound ⟨(memory.grown moved fill).advance size,
      regions ++ [(memory.grown moved fill).next size]⟩ := by
  have below := kept.below
  have beyond : memory.poolSize.toNat < memory.allocationCursor.toNat + size.toNat := by
    have wanted : memory.poolSize.toNat < (memory.allocationCursor + size).toNat :=
      UInt32.not_le.mp fails
    rw [UInt32.toNat_add] at wanted
    exact Nat.lt_of_lt_of_le wanted (Nat.mod_le ..)
  have nonempty : size.toNat ≠ 0 := by omega
  exact not_sound (List.mem_append_right _ (List.mem_singleton_self _)) nonempty fun _ => beyond

/-- What a call that is provided for does: it returns the bytes at the cursor, or it returns nothing
and leaves the block, or a block with all that was in use. -/
theorem Packed.step_cases {next : Returned} {answer : Realloc}
    (packed : Packed ⟨memory, regions⟩) (provided : Provided ⟨memory, regions⟩ ⟨size, answer⟩)
    (made : step ⟨memory, regions⟩ ⟨size, answer⟩ = some next) :
    memory.allocationCursor.toNat + size.toNat ≤ memory.bytes.toNat ∧
        next = ⟨memory.advance size, regions ++ [memory.next size]⟩ ∨
      next = ⟨memory, regions⟩ ∨
      ∃ moved fill, memory.Keeps moved ∧ next = ⟨memory.grown moved fill, regions⟩ := by
  by_cases passes : memory.allocationCursor + size ≤ memory.poolSize
  · rw [step_of_passes passes] at made
    have fits : memory.allocationCursor.toNat + size.toNat ≤ memory.bytes.toNat := by
      simpa [Provided, passes] using provided
    exact Or.inl ⟨fits, (Option.some.inj made).symm⟩
  · cases answer with
    | null =>
        have positive : memory.poolSize ≠ 0 := by simpa [Provided, passes] using provided
        have live : memory.live = (memory.poolSize != 0) :=
          packed.live.trans (bne_iff_ne.mpr positive).symm
        rw [step_of_null passes packed.live, ← live] at made
        exact Or.inr (Or.inl (Option.some.inj made).symm)
    | block moved fill =>
        obtain ⟨refused, kept⟩ : memory.poolSize * 2 < memory.allocationCursor + size ∧ _ := by
          simpa only [Provided, if_neg passes] using provided
        rw [step_of_block passes packed.live, if_neg (UInt32.not_le.mpr refused)] at made
        exact Or.inr (Or.inr ⟨moved, fill, kept, (Option.some.inj made).symm⟩)

end Steps

/-- A call that is provided for keeps the regions below the cursor. -/
theorem Packed.kept {state next : Returned} {call : Call} (packed : Packed state)
    (provided : Provided state call) (made : step state call = some next) : Packed next := by
  obtain ⟨fits, rfl⟩ | rfl | ⟨moved, fill, kept, rfl⟩ := packed.step_cases provided made
  · exact packed.advance fits
  · exact packed
  · exact packed.grown kept fill

/-- Any other call that ends leaves a region, or the pool, without its bytes. -/
theorem Packed.broken {state next : Returned} {call : Call} (packed : Packed state)
    (violated : ¬ Provided state call) (made : step state call = some next) : ¬ Sound next := by
  obtain ⟨memory, regions⟩ := state
  obtain ⟨size, answer⟩ := call
  by_cases passes : memory.allocationCursor + size ≤ memory.poolSize
  · have beyond : memory.bytes.toNat < memory.allocationCursor.toNat + size.toNat := by
      simpa [Provided, passes] using violated
    have nonempty : size.toNat ≠ 0 := by
      have room : memory.allocationCursor.toNat ≤ memory.bytes.toNat := packed.room
      omega
    rw [step_of_passes passes] at made
    obtain rfl := Option.some.inj made
    exact not_sound (List.mem_append_right _ (List.mem_singleton_self _)) nonempty fun _ => beyond
  · cases answer with
    | null =>
        have zero : memory.poolSize = 0 := by simpa [Provided, passes] using violated
        rw [step_of_null passes packed.live] at made
        obtain rfl := Option.some.inj made
        intro sound
        have live := sound.live
        simp [zero] at live
    | block moved fill =>
        rw [step_of_block passes packed.live] at made
        by_cases kept : memory.Keeps moved
        · have served : memory.allocationCursor + size ≤ memory.poolSize * 2 := by
            rw [← UInt32.not_lt]
            exact fun refused => violated (by
              simp only [Provided, if_neg passes]
              exact ⟨refused, kept⟩)
          rw [if_pos served] at made
          obtain rfl := Option.some.inj made
          exact not_sound_served passes kept fill
        · split at made
          · obtain rfl := Option.some.inj made
            exact packed.not_sound_grown kept rfl rfl (List.subset_append_left ..)
          · obtain rfl := Option.some.inj made
            exact packed.not_sound_grown kept rfl rfl (List.Subset.refl _)

/-- A call that is provided for keeps the contents of the returned regions. -/
theorem Packed.cells_eq {state next : Returned} {call : Call} (packed : Packed state)
    (provided : Provided state call) (made : step state call = some next) {region : Region Nat}
    (member : region ∈ state.regions) {block i : Nat} (covers : region.Covers block i) :
    next.memory.cells i = state.memory.cells i := by
  obtain ⟨-, below⟩ := packed.inside region member block i covers
  obtain ⟨-, rfl⟩ | rfl | ⟨moved, fill, kept, rfl⟩ := packed.step_cases provided made
  · rfl
  · rfl
  · have further := (packed.grown kept fill).room
    exact if_pos (Nat.lt_min.mpr ⟨Nat.lt_of_lt_of_le below packed.room,
      Nat.lt_of_lt_of_le below further⟩)

/-- The returned regions stay inside the block and apart exactly as long as each call is provided
for. -/
theorem returned_sound_iff (memory : Nat → Byte) (poolSize : UInt32) (calls : List Call) :
    AllStates step Sound (start memory poolSize) calls ↔
      AllSteps step Provided (start memory poolSize) calls :=
  allStates_iff_allSteps Packed Packed.sound Packed.kept Packed.broken
    (packed_start memory poolSize) calls

/-- A pool of 16 bytes returns 17 bytes: its block is reallocated to 16 bytes. -/
theorem not_sound_seventeen :
    ¬ AllStates step Sound (start (fun _ => 0) 16) [⟨17, .block false fun _ => 0⟩] := by
  rintro ⟨-, later⟩
  have sound := later _ rfl
  refine @not_sound _ ⟨0, 0, 17⟩ ?_ (by decide) (fun _ => ?_) sound
  · exact List.mem_singleton_self _
  · decide

end IncrementalAllocator
end CommonLib
