import CommonLib.Mempool.Allocate
import Mathlib.Algebra.Group.Nat.Defs
import Mathlib.Data.List.Nodup
import Mathlib.Data.List.Perm.Basic

/-!
# The buffers of `TAllocate`

`TAllocate` takes an array of `ASize` elements from an incremental allocator and lends its elements.
The indices of free elements wait in a queue: `Allocate` fills it, `GetBuffer` takes the first of
them and `ReleaseBuffer` puts one back at the end, after it has cleared the element.
-/

namespace CommonLib

open Execution

namespace IncrementalAllocator

/-- `data` in the bytes of the region. -/
def overwrite (memory : IncrementalAllocator) (region : Region Nat) (data : Nat → Byte) :
    IncrementalAllocator :=
  { memory with
    cells := fun i =>
      if region.start ≤ i ∧ i < region.start + region.size then data (i - region.start)
      else memory.cells i }

/-- Write `data` to a region of the block; there is no result for a byte outside of it. -/
def store (memory : IncrementalAllocator) (region : Region Nat) (data : Nat → Byte) :
    Option IncrementalAllocator :=
  if region.block = memory.pool ∧ region.start + region.size ≤ memory.bytes.toNat then
    some (memory.overwrite region data)
  else none

/-- All bytes of the region are zero. -/
def Zeroed (memory : IncrementalAllocator) (region : Region Nat) : Prop :=
  ∀ i, region.Covers memory.pool i → memory.cells i = 0

variable {memory written : IncrementalAllocator} {region other : Region Nat} {data : Nat → Byte}

theorem store_eq_some_iff :
    memory.store region data = some written ↔
      (region.block = memory.pool ∧ region.start + region.size ≤ memory.bytes.toNat) ∧
        memory.overwrite region data = written := by
  simp [store]

/-- Writing zeros clears the region. -/
theorem zeroed_overwrite_self (region : Region Nat) :
    (memory.overwrite region fun _ => 0).Zeroed region :=
  fun _ covers => if_pos covers.2

/-- Writing to a region of the block leaves what is apart from it as it is. -/
theorem Zeroed.overwrite (zeroed : memory.Zeroed other) (here : region.block = memory.pool)
    (apart : region.Apart other) (data : Nat → Byte) :
    (memory.overwrite region data).Zeroed other := by
  intro i covers
  have outside : ¬ (region.start ≤ i ∧ i < region.start + region.size) := fun within =>
    apart memory.pool i ⟨here, within⟩ covers
  exact (if_neg outside).trans (zeroed i covers)

end IncrementalAllocator

/-- `TAllocate<T>`; `Context` is the array, and `currentBlock_` and `freeSlots_` are addresses. -/
structure TAllocate where
  aSize : UInt32
  memory : IncrementalAllocator
  context : Region Nat
  currentBlock : Nat
  freeSlots : Nat
  element : List UInt32

namespace TAllocate

/-- The constructor, with the block which `malloc` gave and an uninitialised `Context`. -/
def new (memory : Nat → Byte) (size allocSize : UInt32) (context : Region Nat) : TAllocate where
  aSize := allocSize
  memory := .initializePool memory size
  context := context
  currentBlock := 0
  freeSlots := 0
  element := []

/-- The loop of `Allocate`: `i` is an `int`, which is compared as an unsigned number and must not
overflow. -/
def pushLoop (aSize : UInt32) : Nat → Nat → List UInt32 → Option (List UInt32)
  | 0, _, _ => none
  | fuel + 1, i, element =>
      if UInt32.ofNat i ≤ aSize then
        if i + 1 < 2 ^ 31 then pushLoop aSize fuel (i + 1) (element ++ [UInt32.ofNat i]) else none
      else some element

/-- The bytes of a pointer. -/
def pointerBytes (address i : Nat) : Byte := UInt8.ofNat (address / 256 ^ i)

section Operations

variable (sizeofT : Nat) (address : Nat → Nat) (allocator : TAllocate)

/-- `&Context[id]`. -/
def slot (id : UInt32) : Region Nat :=
  .element allocator.context.block allocator.context.start sizeofT id.toNat

/-- `Allocate`, where block `i` has the address `address i`.  It writes through the result of
`Memory.Allocate` before it compares it with `NULL`. -/
def allocate (answer : Realloc) : Option (Bool × TAllocate) :=
  let wanted := sizeofT * allocator.aSize.toNat % 2 ^ 64
  if wanted ≤ allocator.memory.poolSize.toNat then do
    let (result, memory) ← allocator.memory.allocate answer (UInt32.ofNat wanted)
    let context ← result
    let memory ← memory.store ⟨context.block, context.start, 8⟩
      (pointerBytes allocator.currentBlock)
    let element ← pushLoop allocator.aSize (allocator.aSize.toNat + 2) 0 allocator.element
    let block := address context.block + context.start
    pure (false,
      { allocator with memory, context, currentBlock := block, freeSlots := block, element })
  else some (true, allocator)

/-- `GetBuffer`, with the index that it stores in `id`. -/
def getBuffer : Option (Region Nat × UInt32) × TAllocate :=
  match allocator.element with
  | [] => (none, allocator)
  | id :: element => (some (allocator.slot sizeofT id, id), { allocator with element })

/-- `ReleaseBuffer`. -/
def releaseBuffer (ptr : Region Nat) (id : UInt32) : Option TAllocate :=
  (allocator.memory.store ptr fun _ => 0).map fun memory =>
    { allocator with memory, element := allocator.element ++ [id] }

end Operations

/-! ## The users of the buffers -/

/-- The allocator, the buffers that are lent and the numbers of calls made. -/
structure Lending where
  allocator : TAllocate
  outstanding : List (Region Nat × UInt32)
  gets : Nat
  releases : Nat

/-- Nothing is lent yet. -/
def lend (allocator : TAllocate) : Lending where
  allocator := allocator
  outstanding := []
  gets := 0
  releases := 0

/-- What a user does: it calls `GetBuffer`, writes to a buffer or calls `ReleaseBuffer`. -/
inductive UserOp where
  | get
  | write (buffer : Region Nat × UInt32) (data : Nat → Byte)
  | release (buffer : Region Nat × UInt32)

namespace Lending

/-- One action of a user. -/
def step (sizeofT : Nat) (state : Lending) : UserOp → Option Lending
  | .get =>
      let (result, allocator) := state.allocator.getBuffer sizeofT
      some { state with
        allocator
        outstanding := state.outstanding ++ result.toList
        gets := state.gets + 1 }
  | .write buffer data =>
      (state.allocator.memory.store buffer.1 data).map fun memory =>
        { state with allocator := { state.allocator with memory } }
  | .release buffer =>
      (state.allocator.releaseBuffer buffer.1 buffer.2).map fun allocator =>
        { state with
          allocator
          outstanding := state.outstanding.erase buffer
          releases := state.releases + 1 }

/-- Only buffers that are lent are written to or released. -/
def Legal (state : Lending) : UserOp → Prop
  | .get => True
  | .write buffer _ => buffer ∈ state.outstanding
  | .release buffer => buffer ∈ state.outstanding

/-- The indices of the lent buffers are distinct and below `ASize`. -/
structure Distinct (state : Lending) : Prop where
  distinct : (state.outstanding.map Prod.snd).Nodup
  below : ∀ buffer ∈ state.outstanding, buffer.2 < state.allocator.aSize

/-- A call of `GetBuffer` returns `NULL` if and only if `ASize` buffers are lent, and after a
release it returns a buffer of zeros. -/
def Answers (sizeofT : Nat) (state : Lending) : UserOp → Prop
  | .get =>
      ((state.allocator.getBuffer sizeofT).1 = none ↔
        state.outstanding.length = state.allocator.aSize.toNat) ∧
      (state.releases ≠ 0 → ∀ buffer, (state.allocator.getBuffer sizeofT).1 = some buffer →
        state.allocator.memory.Zeroed buffer.1)
  | _ => True

/-- Fewer than `ASize` calls of `GetBuffer` were made before. -/
def FewGets (state : Lending) : UserOp → Prop
  | .get => state.gets < state.allocator.aSize.toNat
  | _ => True

end Lending

/-! ## The allocated array -/

/-- The indices which the loop of `Allocate` pushes. -/
def ids (aSize : UInt32) : List UInt32 := (List.range (aSize.toNat + 1)).map UInt32.ofNat

theorem ofNat_le_iff {i : Nat} (small : i < 2 ^ 31) (aSize : UInt32) :
    UInt32.ofNat i ≤ aSize ↔ i ≤ aSize.toNat := by
  rw [UInt32.le_iff_toNat_le, UInt32.toNat_ofNat_of_lt' (Nat.lt_trans small (by decide))]

theorem pushLoop_eq {aSize : UInt32} {fuel i : Nat} {element pushed : List UInt32}
    (small : i < 2 ^ 31) (ended : pushLoop aSize fuel i element = some pushed) :
    pushed = element ++ (List.range' i (aSize.toNat + 1 - i)).map UInt32.ofNat := by
  induction fuel generalizing i element with
  | zero => simp [pushLoop] at ended
  | succ fuel induction =>
      rw [pushLoop] at ended
      by_cases low : i ≤ aSize.toNat
      · rw [if_pos ((ofNat_le_iff small aSize).mpr low)] at ended
        split at ended
        · rename_i next_small
          have count : aSize.toNat + 1 - i = aSize.toNat + 1 - (i + 1) + 1 := by omega
          rw [induction next_small ended, count, List.range'_succ, List.map_cons,
            List.append_assoc]
          rfl
        · simp at ended
      · rw [if_neg (mt (ofNat_le_iff small aSize).mp low)] at ended
        have count : aSize.toNat + 1 - i = 0 := by omega
        rw [count, ← Option.some.inj ended]
        simp

/-- What a successful `Allocate` of a new allocator provides. -/
structure Filled (sizeofT : Nat) (allocator : TAllocate) : Prop where
  element : allocator.element = ids allocator.aSize
  home : allocator.context.block = allocator.memory.pool
  room : allocator.context.start + sizeofT * allocator.aSize.toNat % 2 ^ 64 ≤
    allocator.memory.bytes.toNat
  clear : ∀ i < allocator.memory.bytes.toNat, allocator.memory.cells i = 0

/-- The parts of a successful `Allocate`. -/
theorem allocate_eq_some_false {sizeofT : Nat} {address : Nat → Nat} {answer : Realloc}
    {initial allocator : TAllocate}
    (allocated : initial.allocate sizeofT address answer = some (false, allocator)) :
    let wanted := sizeofT * initial.aSize.toNat % 2 ^ 64
    wanted ≤ initial.memory.poolSize.toNat ∧ ∃ context taken memory element,
      initial.memory.allocate answer (UInt32.ofNat wanted) = some (some context, taken) ∧
      taken.store ⟨context.block, context.start, 8⟩ (pointerBytes initial.currentBlock) =
        some memory ∧
      pushLoop initial.aSize (initial.aSize.toNat + 2) 0 initial.element = some element ∧
      allocator =
        { initial with
          memory
          context
          currentBlock := address context.block + context.start
          freeSlots := address context.block + context.start
          element } := by
  intro wanted
  rw [allocate] at allocated
  split at allocated
  · rename_i enough
    simp only [Option.bind_eq_bind, Option.bind_eq_some_iff] at allocated
    obtain ⟨⟨_, taken⟩, result, context, rfl, memory, stored, element, pushed, made⟩ := allocated
    have same := (Prod.mk.inj (Option.some.inj made)).2
    exact ⟨enough, context, taken, memory, element, result, stored, pushed, same.symm⟩
  · simp at allocated

/-- A new allocator serves a request that is not larger than its pool from the start. -/
theorem allocate_initializePool {memory : Nat → Byte} {size : UInt32} {wanted : Nat}
    (enough : wanted ≤ size.toNat) (answer : Realloc) :
    (IncrementalAllocator.initializePool memory size).allocate answer (UInt32.ofNat wanted) =
      some (some ⟨0, 0, wanted⟩,
        (IncrementalAllocator.initializePool memory size).advance (UInt32.ofNat wanted)) := by
  have exactly : (UInt32.ofNat wanted).toNat = wanted :=
    UInt32.toNat_ofNat_of_lt' (Nat.lt_of_le_of_lt enough size.toNat_lt)
  have passes : 0 + UInt32.ofNat wanted ≤ size := by
    rw [UInt32.zero_add, UInt32.le_iff_toNat_le, exactly]
    exact enough
  have region : (IncrementalAllocator.initializePool memory size).next (UInt32.ofNat wanted) =
      ⟨0, 0, wanted⟩ := by
    rw [IncrementalAllocator.next, exactly]
    rfl
  rw [← region]
  exact @IncrementalAllocator.allocate_of_passes (.initializePool memory size)
    (UInt32.ofNat wanted) answer passes

theorem filled_of_allocate {sizeofT : Nat} {address : Nat → Nat} {memory : Nat → Byte}
    {size allocSize : UInt32} {garbage : Region Nat} {answer : Realloc} {allocator : TAllocate}
    (allocated : (new memory size allocSize garbage).allocate sizeofT address answer =
      some (false, allocator)) : Filled sizeofT allocator := by
  obtain ⟨enough, context, taken, written, element, result, stored, pushed, rfl⟩ :=
    allocate_eq_some_false allocated
  have served := result.symm.trans (allocate_initializePool enough answer)
  obtain ⟨here, rfl⟩ := Prod.mk.inj (Option.some.inj served)
  obtain rfl := Option.some.inj here
  obtain ⟨-, rfl⟩ := IncrementalAllocator.store_eq_some_iff.mp stored
  constructor
  case element =>
    rw [pushLoop_eq (by decide) pushed, ids, List.range_eq_range']
    rfl
  case home => rfl
  case room => exact Nat.zero_add _ ▸ enough
  case clear =>
    intro i below
    have zero : (IncrementalAllocator.initializePool memory size).cells i = 0 := if_pos below
    rw [IncrementalAllocator.overwrite]
    dsimp only
    split
    · simp [pointerBytes, new]
    · exact zero

/-! ## The indices in circulation -/

theorem ids_nodup (aSize : UInt32) : (ids aSize).Nodup := by
  refine List.Nodup.map_on (fun i low j low' same => ?_) List.nodup_range
  have small : ∀ k ∈ List.range (aSize.toNat + 1), k < UInt32.size := fun k member =>
    Nat.lt_of_lt_of_le (List.mem_range.mp member) aSize.toNat_lt
  have equal := congrArg UInt32.toNat same
  rwa [UInt32.toNat_ofNat_of_lt' (small i low), UInt32.toNat_ofNat_of_lt' (small j low')] at equal

theorem length_ids (aSize : UInt32) : (ids aSize).length = aSize.toNat + 1 := by simp [ids]

theorem getElem?_ids {aSize : UInt32} {i : Nat} (low : i ≤ aSize.toNat) :
    (ids aSize)[i]? = some (UInt32.ofNat i) := by
  simp [ids, Nat.lt_succ_of_le low]

theorem le_of_mem_ids {aSize id : UInt32} (member : id ∈ ids aSize) :
    id.toNat ≤ aSize.toNat := by
  obtain ⟨i, low, rfl⟩ := List.mem_map.mp member
  rw [UInt32.toNat_ofNat']
  exact Nat.le_trans (Nat.mod_le ..) (Nat.le_of_lt_succ (List.mem_range.mp low))

/-- Next in the queue, before any index that was put back, is the number of calls made. -/
theorem drop_ids {aSize : UInt32} {gets : Nat} (low : gets ≤ aSize.toNat) :
    (ids aSize).drop gets = UInt32.ofNat gets :: (ids aSize).drop (gets + 1) := by
  have bound : gets < (ids aSize).length := by
    rw [length_ids]
    omega
  have first := getElem?_ids low
  rw [List.getElem?_eq_getElem bound] at first
  rw [List.drop_eq_getElem_cons bound, Option.some.inj first]

/-- What is left of a queue after its first element still begins with what was behind it. -/
theorem drop_succ_prefix_tail {queue waiting : List UInt32} {taken : Nat}
    (order : waiting.drop taken <+: queue) : waiting.drop (taken + 1) <+: queue.tail := by
  rw [← List.tail_drop]
  obtain ⟨back, rfl⟩ := order
  cases waiting.drop taken with
  | nil => exact List.nil_prefix
  | cons id rest => exact List.prefix_append rest back

namespace Lending

/-- Every index is lent or in the queue, new indices come first there, and the elements in the queue
are clear. -/
structure Managed (sizeofT : Nat) (state : Lending) : Prop where
  pointers : ∀ buffer ∈ state.outstanding, buffer.1 = state.allocator.slot sizeofT buffer.2
  circulation : (state.outstanding.map Prod.snd ++ state.allocator.element).Perm
    (ids state.allocator.aSize)
  order : (ids state.allocator.aSize).drop state.gets <+: state.allocator.element
  begun : ∀ buffer ∈ state.outstanding, buffer.2.toNat < state.gets
  home : state.allocator.context.block = state.allocator.memory.pool
  room : state.allocator.context.start + sizeofT * state.allocator.aSize.toNat % 2 ^ 64 ≤
    state.allocator.memory.bytes.toNat
  small : state.releases ≠ 0 → sizeofT < 2 ^ 32
  clear : ∀ id ∈ state.allocator.element,
    (state.allocator.slot sizeofT id).Inside state.allocator.memory.pool
      state.allocator.memory.bytes.toNat →
    state.allocator.memory.Zeroed (state.allocator.slot sizeofT id)

variable {sizeofT : Nat} {state next : Lending}

theorem managed_lend {allocator : TAllocate} (filled : Filled sizeofT allocator) :
    Managed sizeofT (lend allocator) where
  pointers _ member := absurd member List.not_mem_nil
  circulation := List.Perm.of_eq filled.element
  order := filled.element ▸ List.prefix_rfl
  begun _ member := absurd member List.not_mem_nil
  home := filled.home
  room := filled.room
  small released := absurd rfl released
  clear _ _ inside i covers := filled.clear i (inside _ i covers).2

theorem getBuffer_of_nil {allocator : TAllocate} (queue : allocator.element = []) :
    allocator.getBuffer sizeofT = (none, allocator) := by
  rw [getBuffer, queue]

theorem getBuffer_of_cons {allocator : TAllocate} {id : UInt32} {rest : List UInt32}
    (queue : allocator.element = id :: rest) :
    allocator.getBuffer sizeofT =
      (some (allocator.slot sizeofT id, id), { allocator with element := rest }) := by
  rw [getBuffer, queue]

theorem Managed.mem_ids (managed : Managed sizeofT state) {id : UInt32}
    (member : id ∈ state.allocator.element) : id ∈ ids state.allocator.aSize :=
  managed.circulation.subset (List.mem_append_right _ member)

/-- An index in the queue is not lent. -/
theorem Managed.ne_of_mem (managed : Managed sizeofT state) {id : UInt32}
    (member : id ∈ state.allocator.element) {buffer : Region Nat × UInt32}
    (lent : buffer ∈ state.outstanding) : buffer.2 ≠ id := by
  have distinct := managed.circulation.nodup_iff.mpr (ids_nodup _)
  exact (List.nodup_append.mp distinct).2.2 buffer.2 (List.mem_map_of_mem lent) id member

/-- The first index of the queue has not been lent before, as long as there are such. -/
theorem Managed.head_eq (managed : Managed sizeofT state) {id : UInt32} {rest : List UInt32}
    (queue : state.allocator.element = id :: rest)
    (low : state.gets ≤ state.allocator.aSize.toNat) : id = UInt32.ofNat state.gets := by
  have order := managed.order
  rw [drop_ids low, queue] at order
  exact (List.cons_prefix_cons.mp order).1.symm

theorem Managed.head_lt (managed : Managed sizeofT state) {id : UInt32} {rest : List UInt32}
    (queue : state.allocator.element = id :: rest) : id.toNat < state.gets + 1 := by
  rcases Nat.lt_or_ge state.allocator.aSize.toNat state.gets with high | low
  · have known := le_of_mem_ids (managed.mem_ids (queue ▸ List.mem_cons_self ..))
    omega
  · rw [managed.head_eq queue low, UInt32.toNat_ofNat']
    exact Nat.lt_succ_of_le (Nat.mod_le ..)

/-- `GetBuffer` on an empty queue. -/
theorem Managed.get_nil (managed : Managed sizeofT state) (queue : state.allocator.element = []) :
    Managed sizeofT { state with gets := state.gets + 1 } where
  pointers := managed.pointers
  circulation := managed.circulation
  order := by
    have order := drop_succ_prefix_tail managed.order
    rwa [queue, List.tail_nil, ← queue] at order
  begun buffer lent := Nat.lt_succ_of_lt (managed.begun buffer lent)
  home := managed.home
  room := managed.room
  small := managed.small
  clear := managed.clear

/-- `GetBuffer` lends the element whose index comes first. -/
theorem Managed.get_cons (managed : Managed sizeofT state) {id : UInt32} {rest : List UInt32}
    (queue : state.allocator.element = id :: rest) :
    Managed sizeofT
      { state with
        allocator := { state.allocator with element := rest }
        outstanding := state.outstanding ++ [(state.allocator.slot sizeofT id, id)]
        gets := state.gets + 1 } where
  pointers buffer lent := by
    rcases List.mem_append.mp lent with earlier | new
    · exact managed.pointers buffer earlier
    · obtain rfl := List.mem_singleton.mp new
      rfl
  circulation := by
    have circulation := managed.circulation
    rw [queue] at circulation
    rwa [List.map_append, List.append_assoc]
  order := by
    have order := drop_succ_prefix_tail managed.order
    rwa [queue] at order
  begun buffer lent := by
    rcases List.mem_append.mp lent with earlier | new
    · exact Nat.lt_succ_of_lt (managed.begun buffer earlier)
    · obtain rfl := List.mem_singleton.mp new
      exact managed.head_lt queue
  home := managed.home
  room := managed.room
  small := managed.small
  clear waiting member := managed.clear waiting (queue ▸ List.mem_cons_of_mem id member)

/-- Overwriting a lent buffer leaves the elements in the queue clear. -/
theorem Managed.zeroed_overwrite (managed : Managed sizeofT state) {buffer : Region Nat × UInt32}
    (lent : buffer ∈ state.outstanding) (data : Nat → Byte) {id : UInt32}
    (member : id ∈ state.allocator.element)
    (inside : (state.allocator.slot sizeofT id).Inside state.allocator.memory.pool
      state.allocator.memory.bytes.toNat) :
    (state.allocator.memory.overwrite buffer.1 data).Zeroed (state.allocator.slot sizeofT id) := by
  have pointer := managed.pointers buffer lent
  have different : buffer.2.toNat ≠ id.toNat := fun same =>
    managed.ne_of_mem member lent (UInt32.toNat_inj.mp same)
  refine (managed.clear id member inside).overwrite ?_ ?_ data
  · rw [pointer]
    exact managed.home
  · rw [pointer]
    exact Region.element_apart different

theorem Managed.write (managed : Managed sizeofT state) {buffer : Region Nat × UInt32}
    (lent : buffer ∈ state.outstanding) (data : Nat → Byte) :
    Managed sizeofT
      { state with
        allocator :=
          { state.allocator with memory := state.allocator.memory.overwrite buffer.1 data } } where
  pointers := managed.pointers
  circulation := managed.circulation
  order := managed.order
  begun := managed.begun
  home := managed.home
  room := managed.room
  small := managed.small
  clear _ member inside := managed.zeroed_overwrite lent data member inside

/-- `ReleaseBuffer` clears the element and puts its index back. -/
theorem Managed.release (managed : Managed sizeofT state) {buffer : Region Nat × UInt32}
    (lent : buffer ∈ state.outstanding)
    (below : buffer.1.start + buffer.1.size ≤ state.allocator.memory.bytes.toNat) :
    Managed sizeofT
      { state with
        allocator :=
          { state.allocator with
            memory := state.allocator.memory.overwrite buffer.1 fun _ => 0
            element := state.allocator.element ++ [buffer.2] }
        outstanding := state.outstanding.erase buffer
        releases := state.releases + 1 } where
  pointers other kept := managed.pointers other (List.mem_of_mem_erase kept)
  circulation := by
    have taken : (state.outstanding.map Prod.snd).Perm
        (buffer.2 :: (state.outstanding.erase buffer).map Prod.snd) :=
      (List.perm_cons_erase lent).map Prod.snd
    have moved : ((state.outstanding.erase buffer).map Prod.snd ++
        (state.allocator.element ++ [buffer.2])).Perm
        (buffer.2 :: (state.outstanding.erase buffer).map Prod.snd ++ state.allocator.element) := by
      rw [← List.append_assoc]
      exact List.perm_append_singleton ..
    exact moved.trans ((taken.symm.append_right _).trans managed.circulation)
  order := managed.order.trans (List.prefix_append ..)
  begun other kept := managed.begun other (List.mem_of_mem_erase kept)
  home := managed.home
  room := managed.room
  small _ := by
    have size : buffer.1.size = sizeofT := by
      rw [managed.pointers buffer lent]
      rfl
    have bounded := state.allocator.memory.bytes.toNat_lt
    omega
  clear id member inside := by
    rcases List.mem_append.mp member with waiting | new
    · exact managed.zeroed_overwrite lent _ waiting inside
    · obtain rfl := List.mem_singleton.mp new
      have cleared := @IncrementalAllocator.zeroed_overwrite_self state.allocator.memory buffer.1
      rwa [managed.pointers buffer lent] at cleared ⊢

/-- What an action does if it ends. -/
theorem step_cases {op : UserOp} (made : step sizeofT state op = some next) :
    op = .get ∧ state.allocator.element = [] ∧ next = { state with gets := state.gets + 1 } ∨
    (∃ id rest, op = .get ∧ state.allocator.element = id :: rest ∧
      next =
        { state with
          allocator := { state.allocator with element := rest }
          outstanding := state.outstanding ++ [(state.allocator.slot sizeofT id, id)]
          gets := state.gets + 1 }) ∨
    (∃ buffer data, op = .write buffer data ∧
      next =
        { state with
          allocator :=
            { state.allocator with memory := state.allocator.memory.overwrite buffer.1 data } }) ∨
    ∃ buffer, op = .release buffer ∧
      buffer.1.start + buffer.1.size ≤ state.allocator.memory.bytes.toNat ∧
      next =
        { state with
          allocator :=
            { state.allocator with
              memory := state.allocator.memory.overwrite buffer.1 fun _ => 0
              element := state.allocator.element ++ [buffer.2] }
          outstanding := state.outstanding.erase buffer
          releases := state.releases + 1 } := by
  cases op with
  | get =>
      cases queue : state.allocator.element with
      | nil =>
          rw [step, getBuffer_of_nil queue] at made
          obtain rfl := Option.some.inj made
          exact Or.inl ⟨rfl, rfl, by simp⟩
      | cons id rest =>
          rw [step, getBuffer_of_cons queue] at made
          obtain rfl := Option.some.inj made
          exact Or.inr (Or.inl ⟨id, rest, rfl, rfl, rfl⟩)
  | write buffer data =>
      obtain ⟨memory, stored, rfl⟩ := Option.map_eq_some_iff.mp made
      obtain ⟨-, rfl⟩ := IncrementalAllocator.store_eq_some_iff.mp stored
      exact Or.inr (Or.inr (Or.inl ⟨buffer, data, rfl, rfl⟩))
  | release buffer =>
      obtain ⟨allocator, released, rfl⟩ := Option.map_eq_some_iff.mp made
      obtain ⟨memory, stored, rfl⟩ := Option.map_eq_some_iff.mp released
      obtain ⟨⟨-, below⟩, rfl⟩ := IncrementalAllocator.store_eq_some_iff.mp stored
      exact Or.inr (Or.inr (Or.inr ⟨buffer, rfl, below, rfl⟩))

/-- Every action that is allowed and ends keeps the indices in circulation. -/
theorem Managed.kept (managed : Managed sizeofT state) {op : UserOp} (legal : Legal state op)
    (made : step sizeofT state op = some next) : Managed sizeofT next := by
  obtain ⟨-, queue, rfl⟩ | ⟨id, rest, -, queue, rfl⟩ | ⟨buffer, data, rfl, rfl⟩ |
    ⟨buffer, rfl, below, rfl⟩ := step_cases made
  · exact managed.get_nil queue
  · exact managed.get_cons queue
  · exact managed.write legal data
  · exact managed.release legal below

/-- While few calls are made, the number of calls made does not exceed `ASize`. -/
theorem gets_le_of_step {op : UserOp} (few : FewGets state op)
    (low : state.gets ≤ state.allocator.aSize.toNat) (made : step sizeofT state op = some next) :
    next.gets ≤ next.allocator.aSize.toNat := by
  obtain ⟨rfl, -, rfl⟩ | ⟨id, rest, rfl, -, rfl⟩ | ⟨buffer, data, -, rfl⟩ |
    ⟨buffer, -, -, rfl⟩ := step_cases made
  · exact few
  · exact few
  · exact low
  · exact low

/-! ## Calls of `GetBuffer` -/

/-- With few calls made, the indices of the lent buffers are below `ASize`. -/
theorem Managed.distinct (managed : Managed sizeofT state)
    (low : state.gets ≤ state.allocator.aSize.toNat) : Distinct state where
  distinct :=
    (List.nodup_append.mp (managed.circulation.nodup_iff.mpr (ids_nodup _))).1
  below buffer lent := Nat.lt_of_lt_of_le (managed.begun buffer lent) low

/-- Elements below `ASize` lie inside the block. -/
theorem Managed.slot_inside (managed : Managed sizeofT state) (released : state.releases ≠ 0)
    {id : UInt32} (low : id < state.allocator.aSize) :
    (state.allocator.slot sizeofT id).Inside state.allocator.memory.pool
      state.allocator.memory.bytes.toNat := by
  have small := managed.small released
  have bounded := state.allocator.aSize.toNat_lt
  have unwrapped : sizeofT * state.allocator.aSize.toNat < 2 ^ 64 :=
    calc sizeofT * state.allocator.aSize.toNat
        ≤ 2 ^ 32 * state.allocator.aSize.toNat := Nat.mul_le_mul_right _ (Nat.le_of_lt small)
      _ < 2 ^ 32 * 2 ^ 32 := by omega
  have room := managed.room
  rw [Nat.mod_eq_of_lt unwrapped] at room
  rw [slot, managed.home]
  exact (Region.element_inside low).mono room

/-- As long as there are new indices, `GetBuffer` lends an element, and not all are lent. -/
theorem Managed.answers (managed : Managed sizeofT state)
    (few : state.gets < state.allocator.aSize.toNat) : Answers sizeofT state .get := by
  have order := managed.order
  have counted := managed.circulation.length_eq
  have waiting := order.length_le
  rw [List.length_append, List.length_map, length_ids] at counted
  rw [List.length_drop, length_ids] at waiting
  cases queue : state.allocator.element with
  | nil =>
      rw [queue, List.length_nil] at waiting
      omega
  | cons id rest =>
      refine ⟨?_, fun released buffer lent => ?_⟩
      · rw [getBuffer_of_cons queue]
        refine iff_of_false (by simp) ?_
        omega
      · rw [getBuffer_of_cons queue] at lent
        obtain rfl := Option.some.inj lent
        have member : id ∈ state.allocator.element := queue ▸ List.mem_cons_self ..
        have low : id.toNat < state.allocator.aSize.toNat :=
          Nat.lt_of_lt_of_le (managed.head_lt queue) few
        exact managed.clear id member (managed.slot_inside released low)

/-- The call after `ASize` others lends the index `ASize`. -/
theorem Managed.not_distinct (managed : Managed sizeofT state)
    (last : state.gets = state.allocator.aSize.toNat)
    (made : step sizeofT state .get = some next) : ¬ Distinct next := by
  have order := managed.order
  rw [drop_ids (Nat.le_of_eq last)] at order
  obtain ⟨rest, queue⟩ := order
  rw [step, getBuffer_of_cons queue.symm] at made
  obtain rfl := Option.some.inj made
  intro distinct
  have below := distinct.below _ (List.mem_append_right _ (List.mem_singleton_self _))
  have same : UInt32.ofNat state.gets = state.allocator.aSize := by
    rw [last]
    exact UInt32.ofNat_toNat
  exact absurd (same ▸ below) (UInt32.lt_irrefl _)

/-- While fewer than `ASize` calls were made before each call, the indices stay distinct and below
`ASize`; the next call breaks this. -/
theorem distinct_iff {allocator : TAllocate} (filled : Filled sizeofT allocator)
    {ops : List UserOp} (allowed : Admissible (step sizeofT) Legal (lend allocator) ops) :
    AllStates (step sizeofT) Distinct (lend allocator) ops ↔
      AllSteps (step sizeofT) FewGets (lend allocator) ops := by
  refine allowed.allStates_iff_allSteps
    (fun state => Managed sizeofT state ∧ state.gets ≤ state.allocator.aSize.toNat)
    (fun ⟨managed, low⟩ => managed.distinct low) ?_ ?_ ⟨managed_lend filled, Nat.zero_le _⟩
  · rintro state next op ⟨managed, low⟩ legal few made
    exact ⟨managed.kept legal made, gets_le_of_step few low made⟩
  · rintro state next op ⟨managed, low⟩ - many made
    cases op with
    | get => exact managed.not_distinct (Nat.le_antisymm low (Nat.not_lt.mp many)) made
    | write buffer data => exact absurd trivial many
    | release buffer => exact absurd trivial many

/-- Such calls answer as they should. -/
theorem answers_of_fewGets {allocator : TAllocate} (filled : Filled sizeofT allocator)
    {ops : List UserOp} (allowed : Admissible (step sizeofT) Legal (lend allocator) ops)
    (few : AllSteps (step sizeofT) FewGets (lend allocator) ops) :
    AllSteps (step sizeofT) (Answers sizeofT) (lend allocator) ops := by
  refine ((allowed.and_allSteps few).allSteps_congr (Managed sizeofT) ?_ ?_
    (managed_lend filled)).mp few
  · rintro state next op managed ⟨-, few⟩ made
    cases op with
    | get => exact iff_of_true (few next made) (managed.answers (few next made))
    | write buffer data => exact Iff.rfl
    | release buffer => exact Iff.rfl
  · rintro state next op managed ⟨legal, -⟩ made
    exact managed.kept legal made

end Lending

section Allocated

variable {sizeofT : Nat} {address : Nat → Nat} {memory : Nat → Byte} {size allocSize : UInt32}
  {garbage : Region Nat} {answer : Realloc} {allocator : TAllocate}

open Lending

/-- After any actions `GetBuffer` returns `NULL` exactly if `ASize + 1` buffers are lent. -/
theorem getBuffer_eq_none_iff
    (allocated : (new memory size allocSize garbage).allocate sizeofT address answer =
      some (false, allocator)) {ops : List UserOp} {final : Lending}
    (allowed : Admissible (step sizeofT) Legal (lend allocator) ops)
    (made : run (step sizeofT) (lend allocator) ops = some final) :
    (final.allocator.getBuffer sizeofT).1 = none ↔
      final.outstanding.length = final.allocator.aSize.toNat + 1 := by
  have managed := allowed.run_invariant (Managed sizeofT) (fun managed => managed.kept)
    (managed_lend (filled_of_allocate allocated)) made
  have counted := managed.circulation.length_eq
  rw [List.length_append, List.length_map, length_ids] at counted
  cases queue : final.allocator.element with
  | nil =>
      rw [queue] at counted
      rw [getBuffer_of_nil queue]
      exact iff_of_true rfl counted
  | cons id rest =>
      rw [queue, List.length_cons] at counted
      rw [getBuffer_of_cons queue]
      refine iff_of_false (by simp) ?_
      omega

/-- `TAllocate` lends distinct elements below `ASize`, returns `NULL` when all are lent and clears
what was released, exactly as long as each call of `GetBuffer` comes after fewer than `ASize`
others. -/
theorem lends_distinct_iff
    (allocated : (new memory size allocSize garbage).allocate sizeofT address answer =
      some (false, allocator)) {ops : List UserOp}
    (allowed : Admissible (step sizeofT) Legal (lend allocator) ops) :
    AllStates (step sizeofT) Distinct (lend allocator) ops ∧
        AllSteps (step sizeofT) (Answers sizeofT) (lend allocator) ops ↔
      AllSteps (step sizeofT) FewGets (lend allocator) ops := by
  have filled := filled_of_allocate allocated
  rw [distinct_iff filled allowed]
  exact ⟨And.left, fun few => ⟨few, answers_of_fewGets filled allowed few⟩⟩

end Allocated

/-- Two elements of 8 bytes: one is lent and released, then the other one is lent. -/
theorem lends_distinct_iff_two_elements :
    ∃ allocator, (new (fun _ => 1) 16 2 ⟨0, 0, 0⟩).allocate 8 (fun _ => 4096) .null =
        some (false, allocator) ∧
      (AllStates (Lending.step 8) Lending.Distinct (lend allocator)
            [.get, .release (⟨0, 0, 8⟩, 0), .get] ∧
          AllSteps (Lending.step 8) (Lending.Answers 8) (lend allocator)
            [.get, .release (⟨0, 0, 8⟩, 0), .get] ↔
        AllSteps (Lending.step 8) Lending.FewGets (lend allocator)
          [.get, .release (⟨0, 0, 8⟩, 0), .get]) := by
  refine ⟨_, rfl, ?_⟩
  apply lends_distinct_iff
    (show (new (fun _ => 1) 16 2 ⟨0, 0, 0⟩).allocate 8 (fun _ => 4096) .null = _ from rfl)
  refine ⟨trivial, fun next made => ⟨?_, fun _ _ => ⟨trivial, fun _ _ => trivial⟩⟩⟩
  obtain rfl := Option.some.inj made
  exact List.mem_singleton.mpr rfl

/-- One element of 8 bytes: the second call of `GetBuffer` lends the index 1. -/
theorem not_distinct_one_element :
    ∃ allocator, (new (fun _ => 1) 8 1 ⟨0, 0, 0⟩).allocate 8 (fun _ => 4096) .null =
        some (false, allocator) ∧
      Admissible (Lending.step 8) Lending.Legal (lend allocator) [.get, .get] ∧
      ¬ AllStates (Lending.step 8) Lending.Distinct (lend allocator) [.get, .get] ∧
      ¬ AllSteps (Lending.step 8) (Lending.Answers 8) (lend allocator) [.get, .get] := by
  refine ⟨_, rfl, ⟨trivial, fun _ _ => ⟨trivial, fun _ _ => trivial⟩⟩, ?_, ?_⟩
  · rintro ⟨-, later⟩
    obtain ⟨-, later⟩ := later _ rfl
    have below := (later _ rfl).below (⟨0, 8, 8⟩, 1) (.tail _ (.head _))
    exact absurd below (by decide)
  · intro all
    obtain ⟨⟨null, -⟩, -⟩ := (all _ rfl).2 _ rfl
    exact absurd (null.mpr rfl) (by rintro ⟨⟩)

end TAllocate
end CommonLib
