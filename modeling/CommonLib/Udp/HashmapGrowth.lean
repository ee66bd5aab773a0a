import Mathlib.Algebra.Group.Nat.Defs
import CommonLib.Udp.Hashmap

/-!
# The growth of the map of `hashmap.c`

`hashmap_put` extends a full table by `hashmap_rehash`, which puts the elements of the old table
into a new one.  The tables are blocks of memory here: an access outside a block or to a released
one is a fault.
-/

namespace CommonLib

open Execution Probing

inductive MapFault
  /-- An element at or beyond the allocated number was used. -/
  | outOfBounds
  /-- A released table was used. -/
  | useAfterFree
  /-- A released table was released. -/
  | doubleFree
  /-- The key of an element in use was `NULL`. -/
  | nullKey
  /-- The calls were nested deeper than the depth that was given. -/
  | depth
  deriving DecidableEq

/-- What `hashmap_put` and `hashmap_rehash` return. -/
inductive PutStatus
  | MAP_OK | MAP_OMEM
  deriving DecidableEq

/-- A block that `calloc` allocated. -/
structure HashmapBlock (κ β : Type) where
  elements : Nat
  data : Nat → HashmapElement κ β
  alive : Bool

/-- The blocks in the order of their allocation. -/
structure HashmapMemory (κ β : Type) where
  blocks : Nat → HashmapBlock κ β
  allocs : Nat

namespace HashmapMemory

variable {κ β : Type} (memory : HashmapMemory κ β)

def load (block index : Nat) : Except MapFault (HashmapElement κ β) :=
  if (memory.blocks block).alive = false then .error .useAfterFree
  else if index < (memory.blocks block).elements then .ok ((memory.blocks block).data index)
  else .error .outOfBounds

def write (block : Nat) (contents : HashmapBlock κ β) : HashmapMemory κ β :=
  { memory with blocks := Function.update memory.blocks block contents }

@[simp] theorem write_self (block : Nat) (contents : HashmapBlock κ β) :
    (memory.write block contents).blocks block = contents :=
  Function.update_self ..

theorem write_of_ne {block other : Nat} {contents : HashmapBlock κ β} (differ : other ≠ block) :
    (memory.write block contents).blocks other = memory.blocks other :=
  Function.update_of_ne differ ..

def store (block index : Nat) (element : HashmapElement κ β) :
    Except MapFault (HashmapMemory κ β) :=
  let here := memory.blocks block
  if here.alive = false then .error .useAfterFree
  else if index < here.elements then
    .ok (memory.write block { here with data := Function.update here.data index element })
  else .error .outOfBounds

def free (block : Nat) : Except MapFault (HashmapMemory κ β) :=
  let here := memory.blocks block
  if here.alive then .ok (memory.write block { here with alive := false })
  else .error .doubleFree

/-- `calloc` of `count` elements, which an `int` counts; `memoryLeft` is whether it succeeds, by the
number of blocks that it has allocated. -/
def calloc (count : Nat) (memoryLeft : Nat → Bool) : Option (Nat × HashmapMemory κ β) :=
  if count < 2 ^ 31 ∧ memoryLeft memory.allocs then
    let cleared : HashmapBlock κ β :=
      { elements := count
        data := fun _ => { key := none, inUse := false, data := none }
        alive := true }
    some (memory.allocs, { memory.write memory.allocs cleared with allocs := memory.allocs + 1 })
  else none

end HashmapMemory

/-- `hashmap_map` with the memory of its tables. -/
structure GrowingMap (κ β : Type) where
  memory : HashmapMemory κ β
  tableSize : Nat
  size : Int
  data : Nat

namespace GrowingMap

variable {κ β : Type}

/-- `hashmap_new`, which allocates `INITIAL_SIZE` elements. -/
def hashmapNew (memory : HashmapMemory κ β) (initSize : Nat) (memoryLeft : Nat → Bool) :
    Option (GrowingMap κ β) :=
  (memory.calloc INITIAL_SIZE memoryLeft).map fun (data, memory) =>
    { memory, tableSize := initSize, size := 0, data }

section Operations

variable [DecidableEq κ] (hashInt : κ → Nat) (map : GrowingMap κ β)

/-- The loop of `hashmap_hash`. -/
def hashFrom (key : κ) : Nat → Nat → Except MapFault (Option Nat)
  | 0, _ => .ok none
  | count + 1, curr => do
      let element ← map.memory.load map.data curr
      if element.inUse = false then .ok (some curr)
      else if element.inUse ∧ element.key = some key then .ok (some curr)
      else hashFrom key count ((curr + 1) % map.tableSize)

/-- `hashmap_hash`; `none` is `MAP_FULL`. -/
def hashmapHash (key : κ) : Except MapFault (Option Nat) :=
  if map.size ≥ map.tableSize then .ok none
  else map.hashFrom key MAX_CHAIN_LENGTH (hashInt key % map.tableSize)

/-- The loop of `hashmap_get`. -/
def getFrom (key : κ) : Nat → Nat → Except MapFault (MapStatus × Option β)
  | 0, _ => .ok (.MAP_MISSING, none)
  | count + 1, curr => do
      let element ← map.memory.load map.data curr
      if element.inUse ∧ element.key = some key then .ok (.MAP_OK, element.data)
      else getFrom key count ((curr + 1) % map.tableSize)

/-- `hashmap_get`. -/
def hashmapGet (key : κ) : Except MapFault (MapStatus × Option β) :=
  map.getFrom key MAX_CHAIN_LENGTH (hashInt key % map.tableSize)

/-- The loop of `hashmap_rehash` over the old table `curr`. -/
def rehashFrom (put : GrowingMap κ β → κ → Option β → Except MapFault (PutStatus × GrowingMap κ β))
    (curr : Nat) : Nat → Nat → GrowingMap κ β → Except MapFault (PutStatus × GrowingMap κ β)
  | 0, _, map => .ok (.MAP_OK, map)
  | count + 1, i, map => do
      let element ← map.memory.load curr i
      if element.inUse = false then rehashFrom put curr count (i + 1) map
      else
        match element.key with
        | none => .error .nullKey
        | some key => do
            let (status, map) ← put map key element.data
            if status ≠ .MAP_OK then .ok (status, map)
            else rehashFrom put curr count (i + 1) map

/-- `hashmap_rehash`, which puts the elements with `put`. -/
def hashmapRehash
    (put : GrowingMap κ β → κ → Option β → Except MapFault (PutStatus × GrowingMap κ β))
    (memoryLeft : Nat → Bool) (map : GrowingMap κ β) :
    Except MapFault (PutStatus × GrowingMap κ β) :=
  match map.memory.calloc (2 * map.tableSize) memoryLeft with
  | none => .ok (.MAP_OMEM, map)
  | some (temp, memory) => do
      let memory ← memory.free map.data
      let (status, grown) ← rehashFrom put map.data map.tableSize 0
        { memory, tableSize := 2 * map.tableSize, size := 0, data := temp }
      if status ≠ .MAP_OK then .ok (status, grown)
      else do
        let memory ← grown.memory.free map.data
        .ok (.MAP_OK, { grown with memory })

/-- The end of `hashmap_put`, which sets the data. -/
def setData (key : κ) (value : Option β) (index : Nat) :
    Except MapFault (PutStatus × GrowingMap κ β) := do
  let memory ← map.memory.store map.data index { key := some key, inUse := true, data := value }
  .ok (.MAP_OK, { map with memory, size := map.size + 1 })

/-- `hashmap_put` after `3 - count` calls of `hashmap_rehash`. -/
def putFrom (rehash : GrowingMap κ β → Except MapFault (PutStatus × GrowingMap κ β)) (key : κ)
    (value : Option β) : Nat → GrowingMap κ β → Except MapFault (PutStatus × GrowingMap κ β)
  | 0, map => do
      match ← map.hashmapHash hashInt key with
      | some index => map.setData key value index
      | none => .ok (.MAP_OMEM, map)
  | count + 1, map => do
      match ← map.hashmapHash hashInt key with
      | some index => map.setData key value index
      | none =>
          let (status, map) ← rehash map
          if status = .MAP_OMEM then .ok (.MAP_OMEM, map)
          else putFrom rehash key value count map

/-- `hashmap_put` with calls nested to the given depth. -/
def hashmapPut (memoryLeft : Nat → Bool) :
    Nat → GrowingMap κ β → κ → Option β → Except MapFault (PutStatus × GrowingMap κ β)
  | 0, _, _, _ => .error .depth
  | depth + 1, map, key, value =>
      putFrom hashInt (hashmapRehash (hashmapPut memoryLeft depth) memoryLeft) key value 3 map

end Operations

end GrowingMap

/-! ## Runs -/

/-- A map with the pairs that were put into it and what the last put returned. -/
structure MapGrowth (κ β : Type) where
  map : GrowingMap κ β
  fault : Option MapFault
  status : PutStatus
  pairs : List (κ × Option β)

/-- A call of `hashmap_put`, and which calls of `calloc` succeed in it. -/
structure MapPut (κ β : Type) where
  key : κ
  value : Option β
  memoryLeft : Nat → Bool

namespace MapGrowth

variable {κ β : Type} [DecidableEq κ] (hashInt : κ → Nat)

def start (map : GrowingMap κ β) : MapGrowth κ β :=
  { map, fault := none, status := .MAP_OK, pairs := [] }

/-- A put with calls nested to the given depth; nothing follows a fault. -/
def step (depth : Nat) (growth : MapGrowth κ β) (op : MapPut κ β) : Option (MapGrowth κ β) :=
  if growth.fault ≠ none then none
  else
    match growth.map.hashmapPut hashInt op.memoryLeft depth op.key op.value with
    | .error fault => some { growth with fault := some fault }
    | .ok (.MAP_OMEM, map) => some { growth with map, status := .MAP_OMEM }
    | .ok (.MAP_OK, map) =>
        some { growth with map, status := .MAP_OK, pairs := (op.key, op.value) :: growth.pairs }

/-- No fault has occurred, and after a successful put each key put so far is found with its
value. -/
structure Lossless (growth : MapGrowth κ β) : Prop where
  fault : growth.fault = none
  found : growth.status = .MAP_OK → ∀ pair ∈ growth.pairs,
    growth.map.hashmapGet hashInt pair.1 = .ok (.MAP_OK, pair.2)

end MapGrowth

namespace GrowingMap

variable {κ β : Type} (hashInt : κ → Nat) (map : GrowingMap κ β)

def table : HashmapBlock κ β := map.memory.blocks map.data

/-- The elements in which a key is looked for. -/
def window (key : κ) : List Nat :=
  cellsFrom map.tableSize MAX_CHAIN_LENGTH (hashInt key % map.tableSize)

/-- The elements up to the first that is not in use are allocated. -/
def Allocated : List Nat → Prop
  | [] => True
  | cell :: cells =>
      cell < map.table.elements ∧ ((map.table.data cell).inUse = true → Allocated cells)

/-- The table has no element for the key. -/
def IsFull (key : κ) : Prop :=
  map.tableSize ≤ map.size ∨ ∀ cell ∈ map.window hashInt key, (map.table.data cell).inUse = true

/-- A put uses allocated elements, and a table of twice the size is not available where the table
has no element for the key. -/
def KeepsTable (op : MapPut κ β) : Prop :=
  (map.size < map.tableSize → map.Allocated (map.window hashInt op.key)) ∧
    (map.IsFull hashInt op.key →
      op.memoryLeft map.memory.allocs = true → 2 ^ 31 ≤ 2 * map.tableSize)

/-! ## Searches -/

section Searches

variable {hashInt map} {key : κ} {value : Option β} {cells : List Nat}

/-- A key is in an element which a search through the cells comes to. -/
def Reached (map : GrowingMap κ β) (key : κ) (value : Option β) (cells : List Nat) : Prop :=
  ∃ before cell after, cells = before ++ cell :: after ∧
    (∀ other ∈ before, other < map.table.elements ∧ (map.table.data other).key ≠ some key) ∧
    cell < map.table.elements ∧
    map.table.data cell = { key := some key, inUse := true, data := value }

theorem load_eq (alive : map.table.alive = true) (index : Nat) :
    map.memory.load map.data index =
      if index < map.table.elements then .ok (map.table.data index) else .error .outOfBounds := by
  have notFreed : ¬ (map.memory.blocks map.data).alive = false := by
    rw [show (map.memory.blocks map.data).alive = true from alive]
    exact Bool.noConfusion
  rw [HashmapMemory.load, if_neg notFreed]
  rfl

theorem load_of_lt (alive : map.table.alive = true) {index : Nat}
    (inside : index < map.table.elements) :
    map.memory.load map.data index = .ok (map.table.data index) := by
  rw [load_eq alive, if_pos inside]

theorem load_of_ge (alive : map.table.alive = true) {index : Nat}
    (outside : ¬ index < map.table.elements) :
    map.memory.load map.data index = .error .outOfBounds := by
  rw [load_eq alive, if_neg outside]

variable [DecidableEq κ]

/-- `hashmap_get` comes to the element of a key. -/
theorem Reached.getFrom_eq (alive : map.table.alive = true) {count curr : Nat}
    (reached : map.Reached key value (cellsFrom map.tableSize count curr)) :
    map.getFrom key count curr = .ok (.MAP_OK, value) := by
  induction count generalizing curr with
  | zero =>
      obtain ⟨before, cell, after, empty, -⟩ := reached
      exact absurd empty.symm
        (List.append_ne_nil_of_right_ne_nil before (List.cons_ne_nil cell after))
  | succ count induction =>
      obtain ⟨before, cell, after, cells_eq, passed, inside, here⟩ := reached
      rw [cellsFrom] at cells_eq
      cases before with
      | nil =>
          obtain ⟨rfl, -⟩ := List.cons_eq_cons.mp cells_eq
          rw [GrowingMap.getFrom, load_of_lt alive inside, here]
          exact if_pos ⟨rfl, rfl⟩
      | cons first before =>
          obtain ⟨rfl, rest_eq⟩ := List.cons_eq_cons.mp cells_eq
          obtain ⟨allocated, other⟩ := passed curr List.mem_cons_self
          rw [GrowingMap.getFrom, load_of_lt alive allocated]
          refine (if_neg fun found => other found.2).trans (induction ?_)
          exact ⟨before, cell, after, rest_eq,
            fun other member => passed other (List.mem_cons_of_mem _ member), inside, here⟩

/-- A key that is not in the table is put in the first element that is not in use. -/
inductive Hashed (map : GrowingMap κ β) (key : κ) (cells : List Nat) :
    Except MapFault (Option Nat) → Prop
  | free (before : List Nat) (cell : Nat) (after : List Nat)
      (cells_eq : cells = before ++ cell :: after)
      (passed : ∀ other ∈ before, other < map.table.elements ∧
        (map.table.data other).inUse = true)
      (inside : cell < map.table.elements) (unused : (map.table.data cell).inUse = false)
      (allocated : map.Allocated cells) : Hashed map key cells (.ok (some cell))
  | full (used : ∀ cell ∈ cells, (map.table.data cell).inUse = true)
      (allocated : map.Allocated cells) : Hashed map key cells (.ok none)
  | outside (outside : ¬ map.Allocated cells) : Hashed map key cells (.error .outOfBounds)

section Step

variable (alive : map.table.alive = true) {curr : Nat} (count : Nat)
include alive

theorem hashFrom_outside (outside : ¬ curr < map.table.elements) :
    map.hashFrom key (count + 1) curr = .error .outOfBounds := by
  rw [hashFrom, load_of_ge alive outside]
  rfl

theorem hashFrom_unused (inside : curr < map.table.elements)
    (unused : (map.table.data curr).inUse = false) :
    map.hashFrom key (count + 1) curr = .ok (some curr) := by
  rw [hashFrom, load_of_lt alive inside]
  exact if_pos unused

theorem hashFrom_used (inside : curr < map.table.elements)
    (used : (map.table.data curr).inUse = true) (other : (map.table.data curr).key ≠ some key) :
    map.hashFrom key (count + 1) curr =
      map.hashFrom key count ((curr + 1) % map.tableSize) := by
  have notUnused : ¬ (map.table.data curr).inUse = false := by
    rw [used]
    exact Bool.noConfusion
  rw [hashFrom, load_of_lt alive inside]
  exact (if_neg notUnused).trans (if_neg fun found => other found.2)

end Step

theorem hashFrom_hashed (alive : map.table.alive = true)
    (fresh : ∀ cell, (map.table.data cell).inUse = true → (map.table.data cell).key ≠ some key)
    (count curr : Nat) :
    Hashed map key (cellsFrom map.tableSize count curr) (map.hashFrom key count curr) := by
  induction count generalizing curr with
  | zero => exact .full (fun cell member => absurd member List.not_mem_nil) trivial
  | succ count induction =>
      by_cases inside : curr < map.table.elements
      case neg =>
        rw [hashFrom_outside alive count inside]
        exact .outside fun allocated => inside allocated.1
      cases used : (map.table.data curr).inUse with
      | false =>
          rw [hashFrom_unused alive count inside used]
          refine .free [] curr _ rfl (fun other member => absurd member List.not_mem_nil) inside
            used ⟨inside, fun inUse => ?_⟩
          rw [used] at inUse
          cases inUse
      | true =>
          rw [hashFrom_used alive count inside used (fresh curr used), cellsFrom]
          have rest := induction ((curr + 1) % map.tableSize)
          generalize map.hashFrom key count ((curr + 1) % map.tableSize) = result at rest ⊢
          cases rest with
          | free before cell after cells_eq passed cellInside unused allocated =>
              refine .free (curr :: before) cell after (congrArg (curr :: ·) cells_eq) ?_ cellInside
                unused ⟨inside, fun _ => allocated⟩
              intro other member
              rcases List.mem_cons.mp member with rfl | later
              · exact ⟨inside, used⟩
              · exact passed other later
          | full allUsed allocated =>
              refine .full (fun cell member => ?_) ⟨inside, fun _ => allocated⟩
              rcases List.mem_cons.mp member with rfl | later
              · exact used
              · exact allUsed cell later
          | outside outside => exact .outside fun allocated => outside (allocated.2 used)

end Searches

/-! ## Puts -/

section Puts

variable {hashInt map} {key : κ} {value : Option β}

/-- The map after a put in an element. -/
def filled (map : GrowingMap κ β) (index : Nat) (key : κ) (value : Option β) : GrowingMap κ β :=
  { map with
    memory := map.memory.write map.data
      { map.table with
        data := Function.update map.table.data index
          { key := some key, inUse := true, data := value } }
    size := map.size + 1 }

theorem table_filled (index : Nat) : (map.filled index key value).table =
    { map.table with
      data := Function.update map.table.data index
        { key := some key, inUse := true, data := value } } :=
  map.memory.write_self ..

@[simp] theorem alive_filled (index : Nat) :
    (map.filled index key value).table.alive = map.table.alive := by
  rw [table_filled]

@[simp] theorem elements_filled (index : Nat) :
    (map.filled index key value).table.elements = map.table.elements := by
  rw [table_filled]

@[simp] theorem data_filled_self (index : Nat) : (map.filled index key value).table.data index =
    { key := some key, inUse := true, data := value } := by
  rw [table_filled]
  exact Function.update_self ..

theorem data_filled_of_ne {index other : Nat} (differ : other ≠ index) :
    (map.filled index key value).table.data other = map.table.data other := by
  rw [table_filled]
  exact Function.update_of_ne differ ..

/-- A put in an element that is not in use leaves the others where they are. -/
theorem Reached.filled {cells : List Nat} (reached : map.Reached key value cells) {index : Nat}
    (unused : (map.table.data index).inUse = false) {key' : κ} (differ : key' ≠ key)
    (value' : Option β) : (map.filled index key' value').Reached key value cells := by
  obtain ⟨before, cell, after, cells_eq, passed, inside, here⟩ := reached
  have cell_ne : cell ≠ index := by
    rintro rfl
    rw [here] at unused
    cases unused
  refine ⟨before, cell, after, cells_eq, fun other member => ?_, ?_, ?_⟩
  · obtain ⟨allocated, other_ne⟩ := passed other member
    rw [elements_filled]
    refine ⟨allocated, ?_⟩
    by_cases same : other = index
    · rw [same, data_filled_self]
      exact fun key_eq => differ (Option.some.inj key_eq)
    · rwa [data_filled_of_ne same]
  · rwa [elements_filled]
  · rwa [data_filled_of_ne cell_ne]

/-- The pair of a put is reached. -/
theorem reached_filled {before after : List Nat} {index : Nat}
    (passed : ∀ other ∈ before, other < map.table.elements ∧
      (map.table.data other).inUse = true ∧ (map.table.data other).key ≠ some key)
    (inside : index < map.table.elements) (unused : (map.table.data index).inUse = false) :
    (map.filled index key value).Reached key value (before ++ index :: after) := by
  refine ⟨before, index, after, rfl, fun other member => ?_, ?_, data_filled_self index⟩
  · obtain ⟨allocated, used, other_ne⟩ := passed other member
    have differ : other ≠ index := by
      rintro rfl
      rw [unused] at used
      cases used
    rw [elements_filled, data_filled_of_ne differ]
    exact ⟨allocated, other_ne⟩
  · rwa [elements_filled]

theorem store_eq (alive : map.table.alive = true) {index : Nat}
    (inside : index < map.table.elements) (element : HashmapElement κ β) :
    map.memory.store map.data index element = .ok (map.memory.write map.data
      { map.table with data := Function.update map.table.data index element }) := by
  have notFreed : ¬ (map.memory.blocks map.data).alive = false := by
    rw [show (map.memory.blocks map.data).alive = true from alive]
    exact Bool.noConfusion
  rw [HashmapMemory.store]
  exact (if_neg notFreed).trans (if_pos inside)

/-- `hashmap_rehash` without memory. -/
theorem hashmapRehash_full
    {put : GrowingMap κ β → κ → Option β → Except MapFault (PutStatus × GrowingMap κ β)}
    {memoryLeft : Nat → Bool}
    (unavailable : memoryLeft map.memory.allocs = true → 2 ^ 31 ≤ 2 * map.tableSize) :
    hashmapRehash put memoryLeft map = .ok (.MAP_OMEM, map) := by
  have failed : map.memory.calloc (2 * map.tableSize) memoryLeft = none := by
    apply if_neg
    rintro ⟨fits, available⟩
    exact absurd (unavailable available) (Nat.not_le_of_lt fits)
  rw [hashmapRehash, failed]

theorem free_eq {memory : HashmapMemory κ β} {block : Nat}
    (alive : (memory.blocks block).alive = true) :
    memory.free block = .ok (memory.write block { memory.blocks block with alive := false }) := by
  rw [HashmapMemory.free]
  exact if_pos alive

theorem load_freed {memory : HashmapMemory κ β} {block index : Nat} {contents : HashmapBlock κ β} :
    (memory.write block { contents with alive := false }).load block index =
      .error .useAfterFree := by
  rw [HashmapMemory.load, HashmapMemory.write_self]
  rfl

theorem rehashFrom_error
    {put : GrowingMap κ β → κ → Option β → Except MapFault (PutStatus × GrowingMap κ β)}
    {curr i : Nat} {fault : MapFault} (failed : map.memory.load curr i = .error fault)
    (count : Nat) : rehashFrom put curr (count + 1) i map = .error fault := by
  rw [rehashFrom, failed]
  rfl

/-- `hashmap_rehash` reads the first element of the table that it has released. -/
theorem hashmapRehash_released
    {put : GrowingMap κ β → κ → Option β → Except MapFault (PutStatus × GrowingMap κ β)}
    {memoryLeft : Nat → Bool} (alive : map.table.alive = true)
    (older : map.data < map.memory.allocs) (positive : 0 < map.tableSize)
    (fits : 2 * map.tableSize < 2 ^ 31) (available : memoryLeft map.memory.allocs = true) :
    hashmapRehash put memoryLeft map = .error .useAfterFree := by
  obtain ⟨temp, made, there⟩ : ∃ temp,
      map.memory.calloc (2 * map.tableSize) memoryLeft = some temp ∧
        (temp.2.blocks map.data).alive = true := by
    refine ⟨_, if_pos ⟨fits, available⟩, ?_⟩
    exact (congrArg HashmapBlock.alive
      (map.memory.write_of_ne (Nat.ne_of_lt older))).trans alive
  obtain ⟨count, count_eq⟩ := Nat.exists_eq_succ_of_ne_zero (Nat.ne_of_gt positive)
  rw [hashmapRehash, made]
  change (temp.2.free map.data).bind _ = _
  rw [free_eq there]
  change (rehashFrom put map.data map.tableSize 0 _).bind _ = _
  rw [count_eq, rehashFrom_error load_freed]
  rfl

variable [DecidableEq κ] {rehash : GrowingMap κ β → Except MapFault (PutStatus × GrowingMap κ β)}

theorem putFrom_error {fault : MapFault} (hashed : map.hashmapHash hashInt key = .error fault)
    (count : Nat) : putFrom hashInt rehash key value count map = .error fault := by
  cases count with
  | zero =>
      rw [putFrom, hashed]
      rfl
  | succ count =>
      rw [putFrom, hashed]
      rfl

theorem putFrom_found (alive : map.table.alive = true) {index : Nat}
    (hashed : map.hashmapHash hashInt key = .ok (some index))
    (inside : index < map.table.elements) (count : Nat) :
    putFrom hashInt rehash key value count map = .ok (.MAP_OK, map.filled index key value) := by
  have setData_eq : map.setData key value index = .ok (.MAP_OK, map.filled index key value) := by
    rw [setData, store_eq alive inside]
    rfl
  cases count with
  | zero =>
      rw [putFrom, hashed]
      exact setData_eq
  | succ count =>
      rw [putFrom, hashed]
      exact setData_eq

theorem putFrom_full (hashed : map.hashmapHash hashInt key = .ok none) (count : Nat) :
    putFrom hashInt rehash key value (count + 1) map = (rehash map).bind fun result =>
      if result.1 = .MAP_OMEM then .ok (.MAP_OMEM, result.2)
      else putFrom hashInt rehash key value count result.2 := by
  rw [putFrom, hashed]
  rfl

end Puts

end GrowingMap

/-! ## The invariant -/

namespace MapGrowth

variable {κ β : Type} [DecidableEq κ] {hashInt : κ → Nat}

/-- The table is allocated, each pair is reached from its hash, and each element in use has the key
of a pair. -/
structure Inv (hashInt : κ → Nat) (growth : MapGrowth κ β) : Prop where
  unfaulted : growth.fault = none
  alive : growth.map.table.alive = true
  older : growth.map.data < growth.map.memory.allocs
  positive : 0 < growth.map.tableSize
  reached : ∀ pair ∈ growth.pairs,
    growth.map.Reached pair.1 pair.2 (growth.map.window hashInt pair.1)
  used : ∀ cell, (growth.map.table.data cell).inUse = true →
    ∃ pair ∈ growth.pairs, (growth.map.table.data cell).key = some pair.1

/-- The key of a put is not that of a pair. -/
def Fresh (growth : MapGrowth κ β) (op : MapPut κ β) : Prop :=
  op.key ∉ growth.pairs.map Prod.fst

theorem Inv.lossless {growth : MapGrowth κ β} (inv : Inv hashInt growth) :
    Lossless hashInt growth :=
  ⟨inv.unfaulted, fun _ pair member => (inv.reached pair member).getFrom_eq inv.alive⟩

section Step

variable {depth : Nat} {growth next : MapGrowth κ β} {op : MapPut κ β}

omit [DecidableEq κ] in
theorem Inv.other_key (inv : Inv hashInt growth) (fresh : growth.Fresh op) (cell : Nat)
    (used : (growth.map.table.data cell).inUse = true) :
    (growth.map.table.data cell).key ≠ some op.key := by
  intro same
  obtain ⟨pair, member, key_eq⟩ := inv.used cell used
  have pair_eq : op.key = pair.1 := Option.some.inj (same.symm.trans key_eq)
  exact fresh (pair_eq ▸ List.mem_map_of_mem member)

omit [DecidableEq κ] in
/-- A put in an element that is not in use leaves the pairs where they are. -/
theorem Inv.filled (inv : Inv hashInt growth) (fresh : growth.Fresh op) {before after : List Nat}
    {cell : Nat} (cells_eq : growth.map.window hashInt op.key = before ++ cell :: after)
    (passed : ∀ other ∈ before, other < growth.map.table.elements ∧
      (growth.map.table.data other).inUse = true)
    (inside : cell < growth.map.table.elements)
    (unused : (growth.map.table.data cell).inUse = false) :
    Inv hashInt { growth with
      map := growth.map.filled cell op.key op.value
      status := .MAP_OK
      pairs := (op.key, op.value) :: growth.pairs } where
  unfaulted := inv.unfaulted
  alive := by
    rw [GrowingMap.alive_filled]
    exact inv.alive
  older := inv.older
  positive := inv.positive
  reached pair member := by
    rcases List.mem_cons.mp member with rfl | old
    · change GrowingMap.Reached _ op.key op.value (growth.map.window hashInt op.key)
      rw [cells_eq]
      refine GrowingMap.reached_filled (fun other earlier => ?_) inside unused
      obtain ⟨allocated, used⟩ := passed other earlier
      exact ⟨allocated, used, inv.other_key fresh other used⟩
    · have differ : op.key ≠ pair.1 := by
        intro same
        exact fresh (same ▸ List.mem_map_of_mem old)
      exact (inv.reached pair old).filled unused differ op.value
  used other inUse := by
    by_cases same : other = cell
    · refine ⟨_, List.mem_cons_self, ?_⟩
      rw [same, GrowingMap.data_filled_self]
    · rw [GrowingMap.data_filled_of_ne same] at inUse ⊢
      obtain ⟨pair, member, key_eq⟩ := inv.used other inUse
      exact ⟨pair, List.mem_cons_of_mem _ member, key_eq⟩

/-- What `hashmap_put` does with a key that is not in the table. -/
inductive Put (hashInt : κ → Nat) (map : GrowingMap κ β) (op : MapPut κ β) :
    Except MapFault (PutStatus × GrowingMap κ β) → Prop
  | stored (before : List Nat) (cell : Nat) (after : List Nat)
      (cells_eq : map.window hashInt op.key = before ++ cell :: after)
      (passed : ∀ other ∈ before, other < map.table.elements ∧
        (map.table.data other).inUse = true)
      (inside : cell < map.table.elements) (unused : (map.table.data cell).inUse = false)
      (keeps : map.KeepsTable hashInt op) :
      Put hashInt map op (.ok (.MAP_OK, map.filled cell op.key op.value))
  | full (keeps : map.KeepsTable hashInt op) : Put hashInt map op (.ok (.MAP_OMEM, map))
  | fault (fault : MapFault) (loses : ¬ map.KeepsTable hashInt op) :
      Put hashInt map op (.error fault)

theorem Inv.put_full (inv : Inv hashInt growth)
    (hashed : growth.map.hashmapHash hashInt op.key = .ok none)
    (isFull : growth.map.IsFull hashInt op.key)
    (allocated : growth.map.size < growth.map.tableSize →
      growth.map.Allocated (growth.map.window hashInt op.key)) :
    Put hashInt growth.map op
      (growth.map.hashmapPut hashInt op.memoryLeft (depth + 1) op.key op.value) := by
  rw [GrowingMap.hashmapPut, GrowingMap.putFrom_full hashed]
  by_cases unavailable : op.memoryLeft growth.map.memory.allocs = true →
      2 ^ 31 ≤ 2 * growth.map.tableSize
  · rw [GrowingMap.hashmapRehash_full unavailable]
    exact .full ⟨allocated, fun _ => unavailable⟩
  · obtain ⟨available, fits⟩ := Classical.not_imp.mp unavailable
    rw [GrowingMap.hashmapRehash_released inv.alive inv.older inv.positive
      (Nat.lt_of_not_le fits) available]
    exact .fault _ fun keeps => unavailable (keeps.2 isFull)

theorem Inv.put (inv : Inv hashInt growth) (depth : Nat) (fresh : growth.Fresh op) :
    Put hashInt growth.map op
      (growth.map.hashmapPut hashInt op.memoryLeft (depth + 1) op.key op.value) := by
  rcases Int.lt_or_le growth.map.size growth.map.tableSize with room | full
  case inr =>
    exact inv.put_full (if_pos full) (.inl full) fun room => absurd room (Int.not_lt.mpr full)
  have searched := GrowingMap.hashFrom_hashed inv.alive (inv.other_key fresh) MAX_CHAIN_LENGTH
    (hashInt op.key % growth.map.tableSize)
  have hashed : growth.map.hashmapHash hashInt op.key =
      growth.map.hashFrom op.key MAX_CHAIN_LENGTH (hashInt op.key % growth.map.tableSize) :=
    if_neg (Int.not_le.mpr room)
  generalize growth.map.hashFrom op.key MAX_CHAIN_LENGTH
    (hashInt op.key % growth.map.tableSize) = result at searched hashed
  cases searched with
  | free before cell after cells_eq passed inside unused allocated =>
      rw [GrowingMap.hashmapPut, GrowingMap.putFrom_found inv.alive hashed inside]
      refine .stored before cell after cells_eq passed inside unused
        ⟨fun _ => allocated, fun isFull => ?_⟩
      rcases isFull with full | used
      · exact absurd room (Int.not_lt.mpr full)
      · have member : cell ∈ growth.map.window hashInt op.key := by
          rw [GrowingMap.window, cells_eq]
          exact List.mem_append_right _ List.mem_cons_self
        have inUse := used cell member
        rw [unused] at inUse
        cases inUse
  | full used allocated => exact inv.put_full hashed (.inr used) fun _ => allocated
  | outside outside =>
      rw [GrowingMap.hashmapPut, GrowingMap.putFrom_error hashed]
      exact .fault _ fun keeps => outside (keeps.1 room)

/-- A put that keeps its table stores its pair or finds no memory. -/
theorem Inv.step (inv : Inv hashInt growth) (fresh : growth.Fresh op)
    (keeps : growth.map.KeepsTable hashInt op)
    (stepped : step hashInt (depth + 1) growth op = some next) : Inv hashInt next := by
  have put := inv.put depth fresh
  rw [MapGrowth.step, if_neg (not_not.mpr inv.unfaulted)] at stepped
  generalize growth.map.hashmapPut hashInt op.memoryLeft (depth + 1) op.key op.value = result
    at put stepped
  cases put with
  | stored before cell after cells_eq passed inside unused keeps =>
      obtain rfl := Option.some.inj stepped
      exact inv.filled fresh cells_eq passed inside unused
  | full keeps =>
      obtain rfl := Option.some.inj stepped
      exact ⟨inv.unfaulted, inv.alive, inv.older, inv.positive, inv.reached, inv.used⟩
  | fault fault loses => exact absurd keeps loses

theorem Inv.broken (inv : Inv hashInt growth) (fresh : growth.Fresh op)
    (loses : ¬ growth.map.KeepsTable hashInt op)
    (stepped : MapGrowth.step hashInt (depth + 1) growth op = some next) :
    ¬ Lossless hashInt next := by
  have put := inv.put depth fresh
  rw [MapGrowth.step, if_neg (not_not.mpr inv.unfaulted)] at stepped
  generalize growth.map.hashmapPut hashInt op.memoryLeft (depth + 1) op.key op.value = result
    at put stepped
  cases put with
  | stored before cell after cells_eq passed inside unused keeps => exact absurd keeps loses
  | full keeps => exact absurd keeps loses
  | fault fault loses =>
      obtain rfl := Option.some.inj stepped
      intro lossless
      cases lossless.fault

/-- A put adds its own pair at most. -/
theorem step_pairs (stepped : MapGrowth.step hashInt depth growth op = some next)
    (pair : κ × Option β) (member : pair ∈ next.pairs) :
    pair.1 = op.key ∨ pair ∈ growth.pairs := by
  unfold MapGrowth.step at stepped
  split at stepped
  · cases stepped
  · split at stepped
    · obtain rfl := Option.some.inj stepped
      exact .inr member
    · obtain rfl := Option.some.inj stepped
      exact .inr member
    · obtain rfl := Option.some.inj stepped
      rcases List.mem_cons.mp member with rfl | old
      · exact .inl rfl
      · exact .inr old

/-- Distinct keys are fresh when they are put. -/
theorem admissible_of_nodup {ops : List (MapPut κ β)} (distinct : (ops.map MapPut.key).Nodup)
    (fresh : ∀ op ∈ ops, growth.Fresh op) :
    Admissible (MapGrowth.step hashInt depth) Fresh growth ops := by
  induction ops generalizing growth with
  | nil => trivial
  | cons op ops induction =>
      rw [List.map_cons, List.nodup_cons] at distinct
      refine ⟨fresh op List.mem_cons_self, fun next stepped => ?_⟩
      apply induction distinct.2
      intro later member stored
      obtain ⟨pair, pair_mem, key_eq⟩ := List.mem_map.mp stored
      rcases step_pairs stepped pair pair_mem with same | old
      · apply distinct.1
        rw [← same, key_eq]
        exact List.mem_map_of_mem member
      · apply fresh later (List.mem_cons_of_mem op member)
        rw [← key_eq]
        exact List.mem_map_of_mem old

end Step

omit [DecidableEq κ] in
theorem Inv.start {memory : HashmapMemory κ β} {initSize : Nat} (positive : 0 < initSize)
    {memoryLeft : Nat → Bool} {map : GrowingMap κ β}
    (made : GrowingMap.hashmapNew memory initSize memoryLeft = some map) :
    Inv hashInt (start map) := by
  obtain ⟨allocated, calloc_eq, rfl⟩ := Option.map_eq_some_iff.mp made
  unfold HashmapMemory.calloc at calloc_eq
  split at calloc_eq
  case isFalse => cases calloc_eq
  obtain rfl := Option.some.inj calloc_eq
  have table_eq := memory.write_self memory.allocs
    { elements := INITIAL_SIZE
      data := fun _ => { key := none, inUse := false, data := none }
      alive := true }
  refine ⟨rfl, congrArg HashmapBlock.alive table_eq, Nat.lt_succ_self _, positive,
    fun pair member => absurd member List.not_mem_nil, fun cell used => ?_⟩
  have unused : (HashmapBlock.data _ cell).inUse = false := congrArg
    (fun block : HashmapBlock κ β => (block.data cell).inUse) table_eq
  cases unused.symm.trans used

/-- However deep its calls may be nested, `hashmap_put` keeps every pair and uses no element that is
not allocated exactly when each put looks at allocated elements only and never gets the memory to
extend the table. -/
theorem lossless_iff_keepsTable (hashInt : κ → Nat) (memory : HashmapMemory κ β) (initSize : Nat)
    (positive : 0 < initSize) (memoryLeft : Nat → Bool) (map : GrowingMap κ β)
    (made : GrowingMap.hashmapNew memory initSize memoryLeft = some map) (depth : Nat)
    (ops : List (MapPut κ β)) (distinct : (ops.map MapPut.key).Nodup) :
    AllStates (step hashInt (depth + 1)) (Lossless hashInt) (start map) ops ↔
      AllSteps (step hashInt (depth + 1)) (fun growth op => growth.map.KeepsTable hashInt op)
        (start map) ops := by
  have fresh : ∀ op ∈ ops, (start map).Fresh op := fun _ _ => List.not_mem_nil
  exact (admissible_of_nodup distinct fresh).allStates_iff_allSteps (Inv hashInt) Inv.lossless
    Inv.step Inv.broken (Inv.start positive made)

instance decidableAllocated (map : GrowingMap κ β) :
    (cells : List Nat) → Decidable (map.Allocated cells)
  | [] => isTrue trivial
  | _ :: cells =>
      have : Decidable (map.Allocated cells) := decidableAllocated map cells
      inferInstanceAs (Decidable (_ ∧ (_ → map.Allocated cells)))

instance (map : GrowingMap κ β) (key : κ) : Decidable (map.IsFull hashInt key) :=
  inferInstanceAs (Decidable (_ ∨ _))

instance (map : GrowingMap κ β) (op : MapPut κ β) : Decidable (map.KeepsTable hashInt op) :=
  inferInstanceAs (Decidable ((_ → map.Allocated _) ∧ (map.IsFull hashInt _ → _)))

/-- No block has been allocated. -/
def noBlocks : HashmapMemory (List UInt8) Nat where
  blocks _ :=
    { elements := 0
      data := fun _ => { key := none, inUse := false, data := none }
      alive := false }
  allocs := 0

/-- `hashmap_new` in that memory. -/
def newMap (initSize : Nat) : GrowingMap (List UInt8) Nat where
  memory :=
    { noBlocks.write 0
        { elements := INITIAL_SIZE
          data := fun _ => { key := none, inUse := false, data := none }
          alive := true } with
      allocs := 1 }
  tableSize := initSize
  size := 0
  data := 0

/-- A table of two elements is filled by keys of one hash, and there is no memory for a third. -/
def collidingPuts : List (MapPut (List UInt8) Nat) :=
  [⟨[97], some 1, fun _ => true⟩, ⟨[99], some 2, fun _ => true⟩, ⟨[100], some 3, fun _ => false⟩]

theorem lossless_iff_keepsTable_colliding :
    AllStates (step hashmapHashInt 1) (Lossless hashmapHashInt) (start (newMap 2)) collidingPuts :=
  (lossless_iff_keepsTable hashmapHashInt noBlocks 2 (by decide) (fun _ => true) (newMap 2) rfl 0
    collidingPuts (by decide)).mpr (by decide)

/-- Two keys for a table of one element. -/
def growingPuts : List (MapPut (List UInt8) Nat) :=
  [⟨[97], some 1, fun _ => true⟩, ⟨[98], some 2, fun _ => true⟩]

/-- A key behind the allocated elements of a table of 4096. -/
def outerPut : List (MapPut (List UInt8) Nat) := [⟨[100], some 1, fun _ => true⟩]

/-- The second put reads the table that it has released, and a put in a larger table uses an element
that is not allocated. -/
theorem growingPuts_not_lossless :
    (run (step hashmapHashInt 1) (start (newMap 1)) growingPuts).map MapGrowth.fault =
        some (some .useAfterFree) ∧
      (run (step hashmapHashInt 1) (start (newMap 4096)) outerPut).map MapGrowth.fault =
        some (some .outOfBounds) ∧
      ¬ ∀ (initSize : Nat) (map : GrowingMap (List UInt8) Nat)
        (ops : List (MapPut (List UInt8) Nat)), 0 < initSize →
        GrowingMap.hashmapNew noBlocks initSize (fun _ => true) = some map →
          (ops.map MapPut.key).Nodup →
            AllStates (step hashmapHashInt 1) (Lossless hashmapHashInt) (start map) ops := by
  have released : (run (step hashmapHashInt 1) (start (newMap 1)) growingPuts).map MapGrowth.fault =
      some (some .useAfterFree) := by
    decide
  have outside : (run (step hashmapHashInt 1) (start (newMap 4096)) outerPut).map MapGrowth.fault =
      some (some .outOfBounds) := by
    decide
  refine ⟨released, outside, fun claimed => ?_⟩
  obtain ⟨final, reached, fault⟩ := Option.map_eq_some_iff.mp released
  have always := claimed 1 (newMap 1) growingPuts (by decide) rfl (by decide)
  cases (always.of_run reached).fault.symm.trans fault

end MapGrowth

end CommonLib
