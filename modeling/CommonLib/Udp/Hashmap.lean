import CommonLib.Library.Execution
import CommonLib.Library.Probing
import Mathlib.Data.List.AList

/-!
# The maps of `hashmap.c` and `hashmapi.c`

A table of `table_size` elements with linear probing; a key is looked for in the
`MAX_CHAIN_LENGTH` elements from its hash on.  `hashmap_remove` empties the element.  The two files
differ in the keys and in the hash function, which is a parameter here.
-/

namespace CommonLib

open Execution Probing

inductive MapStatus
  | MAP_OK | MAP_MISSING
  deriving DecidableEq

/-- The elements which `hashmap_new` allocates, whatever size it is given. -/
def INITIAL_SIZE : Nat := 2048
def MAX_CHAIN_LENGTH : Nat := 16

/-- `hashmap_element`; a `NULL` pointer is `none`. -/
structure HashmapElement (κ β : Type) where
  key : Option κ
  inUse : Bool
  data : Option β

/-- `hashmap_map`, with a table that fits in its memory. -/
structure HashmapMap (κ β : Type) where
  tableSize : Nat
  tableSize_pos : 0 < tableSize
  tableSize_le : tableSize ≤ INITIAL_SIZE
  size : Int
  data : Nat → HashmapElement κ β

namespace HashmapMap

variable {κ β : Type}

/-- `hashmap_new`. -/
def new (initSize : Nat) (positive : 0 < initSize) (inside : initSize ≤ INITIAL_SIZE) :
    HashmapMap κ β where
  tableSize := initSize
  tableSize_pos := positive
  tableSize_le := inside
  size := 0
  data _ := { key := none, inUse := false, data := none }

/-- Write an element and the number of elements. -/
def store (map : HashmapMap κ β) (index : Nat) (element : HashmapElement κ β) (size : Int) :
    HashmapMap κ β :=
  { map with data := Function.update map.data index element, size }

variable [DecidableEq κ] (hashInt : κ → Nat) (map : HashmapMap κ β)

/-- The loop of `hashmap_hash`. -/
def hashFrom (key : κ) : Nat → Nat → Option Nat
  | 0, _ => none
  | count + 1, curr =>
      if (map.data curr).inUse = false then some curr
      else if (map.data curr).inUse ∧ (map.data curr).key = some key then some curr
      else hashFrom key count ((curr + 1) % map.tableSize)

/-- `hashmap_hash`; `none` is `MAP_FULL`. -/
def hash (key : κ) : Option Nat :=
  if map.size ≥ map.tableSize then none
  else map.hashFrom key MAX_CHAIN_LENGTH (hashInt key % map.tableSize)

/-- `hashmap_put`; `none` when it would rehash, which reads the freed table. -/
def put (key : κ) (value : Option β) : Option (HashmapMap κ β) :=
  (map.hash hashInt key).map fun index =>
    map.store index { key := some key, inUse := true, data := value } (map.size + 1)

/-- The loop of `hashmap_get` and `hashmap_remove`. -/
def findFrom (key : κ) : Nat → Nat → Option Nat
  | 0, _ => none
  | count + 1, curr =>
      if (map.data curr).inUse ∧ (map.data curr).key = some key then some curr
      else findFrom key count ((curr + 1) % map.tableSize)

/-- `hashmap_get`: the status and `*arg`. -/
def get (key : κ) : MapStatus × Option β :=
  match map.findFrom key MAX_CHAIN_LENGTH (hashInt key % map.tableSize) with
  | some curr => (.MAP_OK, (map.data curr).data)
  | none => (.MAP_MISSING, none)

/-- `hashmap_remove`. -/
def remove (key : κ) : MapStatus × HashmapMap κ β :=
  match map.findFrom key MAX_CHAIN_LENGTH (hashInt key % map.tableSize) with
  | some curr =>
      (.MAP_OK, map.store curr { key := none, inUse := false, data := none } (map.size - 1))
  | none => (.MAP_MISSING, map)

/-- `hashmap_length`. -/
def length : Int := map.size

end HashmapMap

/-! ## The hash functions -/

/-- The table `crc32_tab`. -/
def crc32Tab : List UInt64 := [
  0x00000000, 0x77073096, 0xee0e612c, 0x990951ba, 0x076dc419, 0x706af48f, 0xe963a535, 0x9e6495a3,
  0x0edb8832, 0x79dcb8a4, 0xe0d5e91e, 0x97d2d988, 0x09b64c2b, 0x7eb17cbd, 0xe7b82d07, 0x90bf1d91,
  0x1db71064, 0x6ab020f2, 0xf3b97148, 0x84be41de, 0x1adad47d, 0x6ddde4eb, 0xf4d4b551, 0x83d385c7,
  0x136c9856, 0x646ba8c0, 0xfd62f97a, 0x8a65c9ec, 0x14015c4f, 0x63066cd9, 0xfa0f3d63, 0x8d080df5,
  0x3b6e20c8, 0x4c69105e, 0xd56041e4, 0xa2677172, 0x3c03e4d1, 0x4b04d447, 0xd20d85fd, 0xa50ab56b,
  0x35b5a8fa, 0x42b2986c, 0xdbbbc9d6, 0xacbcf940, 0x32d86ce3, 0x45df5c75, 0xdcd60dcf, 0xabd13d59,
  0x26d930ac, 0x51de003a, 0xc8d75180, 0xbfd06116, 0x21b4f4b5, 0x56b3c423, 0xcfba9599, 0xb8bda50f,
  0x2802b89e, 0x5f058808, 0xc60cd9b2, 0xb10be924, 0x2f6f7c87, 0x58684c11, 0xc1611dab, 0xb6662d3d,
  0x76dc4190, 0x01db7106, 0x98d220bc, 0xefd5102a, 0x71b18589, 0x06b6b51f, 0x9fbfe4a5, 0xe8b8d433,
  0x7807c9a2, 0x0f00f934, 0x9609a88e, 0xe10e9818, 0x7f6a0dbb, 0x086d3d2d, 0x91646c97, 0xe6635c01,
  0x6b6b51f4, 0x1c6c6162, 0x856530d8, 0xf262004e, 0x6c0695ed, 0x1b01a57b, 0x8208f4c1, 0xf50fc457,
  0x65b0d9c6, 0x12b7e950, 0x8bbeb8ea, 0xfcb9887c, 0x62dd1ddf, 0x15da2d49, 0x8cd37cf3, 0xfbd44c65,
  0x4db26158, 0x3ab551ce, 0xa3bc0074, 0xd4bb30e2, 0x4adfa541, 0x3dd895d7, 0xa4d1c46d, 0xd3d6f4fb,
  0x4369e96a, 0x346ed9fc, 0xad678846, 0xda60b8d0, 0x44042d73, 0x33031de5, 0xaa0a4c5f, 0xdd0d7cc9,
  0x5005713c, 0x270241aa, 0xbe0b1010, 0xc90c2086, 0x5768b525, 0x206f85b3, 0xb966d409, 0xce61e49f,
  0x5edef90e, 0x29d9c998, 0xb0d09822, 0xc7d7a8b4, 0x59b33d17, 0x2eb40d81, 0xb7bd5c3b, 0xc0ba6cad,
  0xedb88320, 0x9abfb3b6, 0x03b6e20c, 0x74b1d29a, 0xead54739, 0x9dd277af, 0x04db2615, 0x73dc1683,
  0xe3630b12, 0x94643b84, 0x0d6d6a3e, 0x7a6a5aa8, 0xe40ecf0b, 0x9309ff9d, 0x0a00ae27, 0x7d079eb1,
  0xf00f9344, 0x8708a3d2, 0x1e01f268, 0x6906c2fe, 0xf762575d, 0x806567cb, 0x196c3671, 0x6e6b06e7,
  0xfed41b76, 0x89d32be0, 0x10da7a5a, 0x67dd4acc, 0xf9b9df6f, 0x8ebeeff9, 0x17b7be43, 0x60b08ed5,
  0xd6d6a3e8, 0xa1d1937e, 0x38d8c2c4, 0x4fdff252, 0xd1bb67f1, 0xa6bc5767, 0x3fb506dd, 0x48b2364b,
  0xd80d2bda, 0xaf0a1b4c, 0x36034af6, 0x41047a60, 0xdf60efc3, 0xa867df55, 0x316e8eef, 0x4669be79,
  0xcb61b38c, 0xbc66831a, 0x256fd2a0, 0x5268e236, 0xcc0c7795, 0xbb0b4703, 0x220216b9, 0x5505262f,
  0xc5ba3bbe, 0xb2bd0b28, 0x2bb45a92, 0x5cb36a04, 0xc2d7ffa7, 0xb5d0cf31, 0x2cd99e8b, 0x5bdeae1d,
  0x9b64c2b0, 0xec63f226, 0x756aa39c, 0x026d930a, 0x9c0906a9, 0xeb0e363f, 0x72076785, 0x05005713,
  0x95bf4a82, 0xe2b87a14, 0x7bb12bae, 0x0cb61b38, 0x92d28e9b, 0xe5d5be0d, 0x7cdcefb7, 0x0bdbdf21,
  0x86d3d2d4, 0xf1d4e242, 0x68ddb3f8, 0x1fda836e, 0x81be16cd, 0xf6b9265b, 0x6fb077e1, 0x18b74777,
  0x88085ae6, 0xff0f6a70, 0x66063bca, 0x11010b5c, 0x8f659eff, 0xf862ae69, 0x616bffd3, 0x166ccf45,
  0xa00ae278, 0xd70dd2ee, 0x4e048354, 0x3903b3c2, 0xa7672661, 0xd06016f7, 0x4969474d, 0x3e6e77db,
  0xaed16a4a, 0xd9d65adc, 0x40df0b66, 0x37d83bf0, 0xa9bcae53, 0xdebb9ec5, 0x47b2cf7f, 0x30b5ffe9,
  0xbdbdf21c, 0xcabac28a, 0x53b39330, 0x24b4a3a6, 0xbad03605, 0xcdd70693, 0x54de5729, 0x23d967bf,
  0xb3667a2e, 0xc4614ab8, 0x5d681b02, 0x2a6f2b94, 0xb40bbe37, 0xc30c8ea1, 0x5a05df1b, 0x2d02ef8d]

/-- `crc32`. -/
def crc32 (s : List UInt8) : UInt64 :=
  s.foldl (fun crc32val byte =>
    crc32Tab.getD ((crc32val ^^^ byte.toUInt64) &&& 0xff).toNat 0 ^^^ (crc32val >>> 8)) 0

/-- `hashmap_hash_int` of `hashmap.c`, before it is reduced to the table; `unsigned long` has 64
bits. -/
def hashmapHashInt (keystring : List UInt8) : Nat :=
  let key := crc32 keystring
  let key := key + (key <<< 12)
  let key := key ^^^ (key >>> 22)
  let key := key + (key <<< 4)
  let key := key ^^^ (key >>> 9)
  let key := key + (key <<< 10)
  let key := key ^^^ (key >>> 2)
  let key := key + (key <<< 7)
  let key := key ^^^ (key >>> 12)
  ((key >>> 3) * 2654435761).toNat

/-- `hashmapi_hash_int` of `hashmapi.c`, likewise. -/
def hashmapiHashInt (key : Int32) : Nat :=
  let key := key.toUInt32
  let key := key + (key <<< 12)
  let key := key ^^^ (key >>> 22)
  let key := key + (key <<< 4)
  let key := key ^^^ (key >>> 9)
  let key := key + (key <<< 10)
  let key := key ^^^ (key >>> 2)
  let key := key + (key <<< 7)
  let key := key ^^^ (key >>> 12)
  ((key >>> 3) * 2654435761).toNat

/-! ## Searches -/

namespace HashmapMap

variable {κ β : Type} {map : HashmapMap κ β}

/-- The key in an element that is in use. -/
def keys (map : HashmapMap κ β) (cell : Nat) : Option κ :=
  if (map.data cell).inUse then (map.data cell).key else none

/-- The elements in which a key is looked for. -/
def window (hashInt : κ → Nat) (map : HashmapMap κ β) (key : κ) : List Nat :=
  cellsFrom map.tableSize MAX_CHAIN_LENGTH (hashInt key % map.tableSize)

theorem keys_eq_some {cell : Nat} {key : κ} :
    map.keys cell = some key ↔ (map.data cell).inUse = true ∧ (map.data cell).key = some key := by
  unfold keys
  split <;> simp_all

theorem keys_store (cell : Nat) (element : HashmapElement κ β) (size : Int) :
    (map.store cell element size).keys =
      Function.update map.keys cell (if element.inUse then element.key else none) := by
  funext other
  by_cases same : other = cell
  · simp [keys, store, same]
  · simp [keys, store, same]

@[simp] theorem data_store (cell other : Nat) (element : HashmapElement κ β) (size : Int) :
    (map.store cell element size).data other =
      if other = cell then element else map.data other := by
  simp [store, Function.update_apply]

@[simp] theorem size_store (cell : Nat) (element : HashmapElement κ β) (size : Int) :
    (map.store cell element size).size = size := rfl

variable [DecidableEq κ]

theorem findFrom_eq (key : κ) (count curr : Nat) :
    map.findFrom key count curr =
      (cellsFrom map.tableSize count curr).find? fun cell => map.keys cell = some key := by
  induction count generalizing curr with
  | zero => rfl
  | succ count induction =>
      rw [findFrom, cellsFrom, List.find?_cons]
      by_cases here : map.keys curr = some key
      · rw [if_pos (keys_eq_some.mp here), decide_eq_true here]
      · rw [if_neg (mt keys_eq_some.mpr here), decide_eq_false here]
        exact induction _

theorem hashFrom_eq (key : κ) (count curr : Nat) :
    map.hashFrom key count curr =
      (cellsFrom map.tableSize count curr).find? fun cell =>
        (map.data cell).inUse = false ∨ map.keys cell = some key := by
  induction count generalizing curr with
  | zero => rfl
  | succ count induction =>
      rw [hashFrom, cellsFrom, List.find?_cons]
      by_cases empty : (map.data curr).inUse = false
      · rw [if_pos empty, decide_eq_true (.inl empty)]
      · by_cases here : map.keys curr = some key
        · rw [if_neg empty, if_pos (keys_eq_some.mp here), decide_eq_true (.inr here)]
        · rw [if_neg empty, if_neg (mt keys_eq_some.mpr here),
            decide_eq_false (not_or.mpr ⟨empty, here⟩)]
          exact induction _

end HashmapMap

/-! ## The finite map -/

/-- A table with the finite map of the calls made on it. -/
structure MapHistory (κ β : Type) where
  table : HashmapMap κ β
  present : AList fun _ : κ => Option β

namespace MapHistory

variable {κ β : Type} [DecidableEq κ]

/-- The calls on a map. -/
inductive Op (κ β : Type)
  | put (key : κ) (value : Option β)
  | get (key : κ)
  | remove (key : κ)

def new (tableSize : Nat) (positive : 0 < tableSize) (inside : tableSize ≤ INITIAL_SIZE) :
    MapHistory κ β where
  table := .new tableSize positive inside
  present := ∅

variable (hashInt : κ → Nat) (history : MapHistory κ β)

def step : Op κ β → Option (MapHistory κ β)
  | .put key value =>
      (history.table.put hashInt key value).map fun table =>
        { table, present := history.present.insert key value }
  | .get _ => some history
  | .remove key =>
      some { table := (history.table.remove hashInt key).2, present := history.present.erase key }

/-- The table answers like the finite map. -/
structure ActsAsMap : Prop where
  get : ∀ key, history.table.get hashInt key =
    match history.present.lookup key with
    | some value => (.MAP_OK, value)
    | none => (.MAP_MISSING, none)
  remove : ∀ key, (history.table.remove hashInt key).1 =
    if key ∈ history.present then .MAP_OK else .MAP_MISSING
  removed : ∀ key,
    (history.table.remove hashInt key).2.get hashInt key = (.MAP_MISSING, none)
  length : history.table.length = history.present.keys.length

/-- A key is put only while it is absent. -/
def PutsAbsent : Op κ β → Prop
  | .put key _ => key ∉ history.present
  | _ => True

instance : (op : Op κ β) → Decidable (PutsAbsent history op)
  | .put key _ => inferInstanceAs (Decidable (key ∉ history.present))
  | .get _ => isTrue trivial
  | .remove _ => isTrue trivial

/-- Each key of the finite map is in one element of its window. -/
structure Inv : Prop where
  placed : Placed (HashmapMap.window hashInt history.table) history.table.keys
  agrees : ∀ key value, history.present.lookup key = some value ↔
    ∃ cell, history.table.keys cell = some key ∧ (history.table.data cell).data = value
  size : history.table.size = history.present.keys.length

variable {hashInt history}

theorem Inv.new (tableSize : Nat) (positive : 0 < tableSize) (inside : tableSize ≤ INITIAL_SIZE) :
    Inv hashInt (new tableSize positive inside : MapHistory κ β) := by
  have empty : (HashmapMap.new tableSize positive inside : HashmapMap κ β).keys = fun _ => none :=
    rfl
  refine ⟨?_, fun key value => ?_, rfl⟩
  · rw [MapHistory.new, empty]
    exact placed_empty
  · simp [MapHistory.new, empty]

section Inv

variable (inv : Inv hashInt history)
include inv

theorem Inv.mem_iff {key : κ} :
    key ∈ history.present ↔ ∃ cell, history.table.keys cell = some key := by
  rw [← AList.lookup_isSome, Option.isSome_iff_exists]
  constructor
  · rintro ⟨value, found⟩
    obtain ⟨cell, stored, -⟩ := (inv.agrees key value).mp found
    exact ⟨cell, stored⟩
  · rintro ⟨cell, stored⟩
    exact ⟨_, (inv.agrees key _).mpr ⟨cell, stored, rfl⟩⟩

/-- The loop of `hashmap_get` and `hashmap_remove` finds the keys of the finite map. -/
theorem Inv.findFrom_eq_some {key : κ} {cell : Nat}
    (stored : history.table.keys cell = some key) :
    history.table.findFrom key MAX_CHAIN_LENGTH (hashInt key % history.table.tableSize) =
      some cell :=
  (HashmapMap.findFrom_eq ..).trans (inv.placed.find stored)

theorem Inv.findFrom_eq_none {key : κ} (absent : key ∉ history.present) :
    history.table.findFrom key MAX_CHAIN_LENGTH (hashInt key % history.table.tableSize) = none :=
  (HashmapMap.findFrom_eq ..).trans
    (find_none (fun cell stored => absent (inv.mem_iff.mpr ⟨cell, stored⟩)) _)

theorem Inv.get_eq (key : κ) : history.table.get hashInt key =
    match history.present.lookup key with
    | some value => (.MAP_OK, value)
    | none => (.MAP_MISSING, none) := by
  cases found : history.present.lookup key with
  | none =>
      rw [HashmapMap.get, inv.findFrom_eq_none (AList.lookup_eq_none.mp found)]
  | some value =>
      obtain ⟨cell, stored, data_eq⟩ := (inv.agrees key value).mp found
      rw [HashmapMap.get, inv.findFrom_eq_some stored]
      exact congrArg _ data_eq

theorem Inv.remove_status (key : κ) : (history.table.remove hashInt key).1 =
    if key ∈ history.present then .MAP_OK else .MAP_MISSING := by
  by_cases member : key ∈ history.present
  · obtain ⟨cell, stored⟩ := inv.mem_iff.mp member
    rw [HashmapMap.remove, inv.findFrom_eq_some stored, if_pos member]
  · rw [HashmapMap.remove, inv.findFrom_eq_none member, if_neg member]

theorem Inv.remove (key : κ) :
    Inv hashInt
      { table := (history.table.remove hashInt key).2, present := history.present.erase key } := by
  by_cases member : key ∈ history.present
  · obtain ⟨cell, stored⟩ := inv.mem_iff.mp member
    have removed : (history.table.remove hashInt key).2 =
        history.table.store cell { key := none, inUse := false, data := none }
          (history.table.size - 1) := by
      rw [HashmapMap.remove, inv.findFrom_eq_some stored]
    have keys_eq : (history.table.store cell { key := none, inUse := false, data := none }
        (history.table.size - 1)).keys = Function.update history.table.keys cell none :=
      HashmapMap.keys_store ..
    rw [removed]
    refine ⟨?_, fun other value => ?_, ?_⟩
    · rw [keys_eq]
      exact inv.placed.erase cell
    · simp only [keys_eq, HashmapMap.data_store]
      by_cases same : other = key
      · subst same
        simp only [AList.lookup_erase, reduceCtorEq, false_iff, not_exists, not_and]
        intro cell' stored'
        by_cases here : cell' = cell
        · simp [here] at stored'
        · rw [Function.update_of_ne here] at stored'
          exact absurd (inv.placed.unique cell' cell other stored' stored) here
      · rw [AList.lookup_erase_ne same, inv.agrees]
        refine exists_congr fun cell' => ?_
        by_cases here : cell' = cell
        · subst here
          have other_ne : ¬ history.table.keys cell' = some other := fun stored' =>
            same (Option.some.inj (stored'.symm.trans stored))
          simp [other_ne]
        · simp [here]
    · have length_pos : 0 < history.present.keys.length :=
        List.length_pos_of_mem (AList.mem_keys.mp member)
      have size := inv.size
      simp only [HashmapMap.size_store, AList.keys_erase,
        List.length_erase_of_mem (AList.mem_keys.mp member)]
      omega
  · have kept : (history.table.remove hashInt key).2 = history.table := by
      rw [HashmapMap.remove, inv.findFrom_eq_none member]
    have same : history.present.erase key = history.present := by
      apply AList.ext
      exact List.kerase_of_notMem_keys member
    rw [kept, same]
    exact inv

/-- A key that is absent is put in an element that is not in use. -/
theorem Inv.put {key : κ} {value : Option β} {table : HashmapMap κ β}
    (absent : key ∉ history.present) (put : history.table.put hashInt key value = some table) :
    Inv hashInt { table, present := history.present.insert key value } := by
  obtain ⟨cell, hashed, rfl⟩ := Option.map_eq_some_iff.mp put
  have absent' : ∀ cell, history.table.keys cell ≠ some key :=
    fun cell stored => absent (inv.mem_iff.mpr ⟨cell, stored⟩)
  rw [HashmapMap.hash, Option.ite_none_left_eq_some, HashmapMap.hashFrom_eq] at hashed
  have member := List.mem_of_find?_eq_some hashed.2
  have empty : (history.table.data cell).inUse = false := by
    simpa [absent' cell] using List.find?_some hashed.2
  have unused : history.table.keys cell = none := by simp [HashmapMap.keys, empty]
  have keys_eq : (history.table.store cell { key := some key, inUse := true, data := value }
      (history.table.size + 1)).keys = Function.update history.table.keys cell (some key) :=
    HashmapMap.keys_store ..
  refine ⟨?_, fun other value' => ?_, ?_⟩
  · rw [keys_eq]
    exact inv.placed.insert absent' member
  · simp only [keys_eq, HashmapMap.data_store]
    by_cases same : other = key
    · subst same
      rw [AList.lookup_insert]
      constructor
      · intro found
        obtain rfl := Option.some.inj found
        exact ⟨cell, by simp, by simp⟩
      · rintro ⟨cell', stored, data_eq⟩
        by_cases here : cell' = cell
        · rw [if_pos here] at data_eq
          rw [← data_eq]
        · rw [Function.update_of_ne here] at stored
          exact absurd stored (absent' cell')
    · rw [AList.lookup_insert_ne same, inv.agrees]
      refine exists_congr fun cell' => ?_
      by_cases here : cell' = cell
      · subst here
        simp [unused, Ne.symm same]
      · simp [here]
  · have size := inv.size
    have absent_keys : key ∉ history.present.keys := absent
    simp only [HashmapMap.size_store, AList.keys_insert, List.erase_of_not_mem absent_keys,
      List.length_cons]
    omega

theorem Inv.actsAsMap : ActsAsMap hashInt history where
  get := inv.get_eq
  remove := inv.remove_status
  removed key := by
    rw [(inv.remove key).get_eq key]
    simp
  length := inv.size

theorem Inv.step {next : MapHistory κ β} {op : Op κ β} (absent : PutsAbsent history op)
    (made : history.step hashInt op = some next) : Inv hashInt next := by
  cases op with
  | put key value =>
      obtain ⟨table, put, rfl⟩ := Option.map_eq_some_iff.mp made
      exact inv.put absent put
  | get key =>
      obtain rfl := Option.some.inj made
      exact inv
  | remove key =>
      obtain rfl := Option.some.inj made
      exact inv.remove key

/-- `hashmap_put` counts a key again that is in the table already. -/
theorem Inv.length_ne {key : κ} {value : Option β} {table : HashmapMap κ β}
    (member : key ∈ history.present) (put : history.table.put hashInt key value = some table) :
    table.length ≠ (history.present.insert key value).keys.length := by
  obtain ⟨cell, -, rfl⟩ := Option.map_eq_some_iff.mp put
  have size := inv.size
  have length_pos : 0 < history.present.keys.length :=
    List.length_pos_of_mem (AList.mem_keys.mp member)
  simp only [HashmapMap.length, HashmapMap.size_store, AList.keys_insert, List.length_cons,
    List.length_erase_of_mem (AList.mem_keys.mp member)]
  omega

end Inv

end MapHistory

end CommonLib
