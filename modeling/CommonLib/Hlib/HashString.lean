import Mathlib.Data.List.Lex
import Mathlib.Order.Lex
import CommonLib.Hlib.HashMap

/-!
# The hash table of `hhmsi.cpp`

The keys are strings.  `Add`, `Remove` and `Find` compute a rotating hash code, and `FindEx` calls
`Hash`, which computes a CRC: the two searches start from one slot only where the two codes agree
under the mask.
-/

namespace CommonLib

/-- A `THHashString` as `hds_HashString` fills it: a string without NUL bytes that leaves room for
its terminator. -/
@[ext]
structure THHashString where
  bytes : List UInt8
  noNul : 0 ∉ bytes
  short : bytes.length < 256

namespace THHashString

/-- `strcmp`, on the bytes before the terminators. -/
def strcmp : List UInt8 → List UInt8 → Int
  | [], [] => 0
  | [], _ :: _ => -1
  | _ :: _, [] => 1
  | a :: as, b :: bs => if a < b then -1 else if b < a then 1 else strcmp as bs

/-- `strcmp` orders strings as lists of unsigned bytes. -/
theorem strcmp_spec (first second : List UInt8) :
    (strcmp first second < 0 ↔ first.map UInt8.toNat < second.map UInt8.toNat) ∧
      (strcmp first second = 0 ↔ first = second) := by
  induction first generalizing second with
  | nil => cases second <;> simp [strcmp]
  | cons a as induction =>
      cases second with
      | nil => simp [strcmp]
      | cons b bs =>
          obtain ⟨neg_iff, zero_iff⟩ := induction bs
          simp only [strcmp, List.map_cons, List.cons_lt_cons_iff, List.cons_eq_cons,
            ← UInt8.toNat_inj, UInt8.lt_iff_toNat_lt]
          rcases lt_trichotomy a.toNat b.toNat with less | same | greater
          · simp [less, less.ne]
          · simp [same, neg_iff, zero_iff]
          · simp [greater, greater.not_gt, greater.ne']

/-- The keys of `hhmsi.hpp` are compared as strings of unsigned bytes. -/
instance : LinearOrder THHashString :=
  LinearOrder.lift' (fun key => key.bytes.map UInt8.toNat) fun _ _ same =>
    THHashString.ext (List.map_injective_iff.mpr (fun _ _ => UInt8.toNat_inj.mp) same)

end THHashString

namespace THHMSI

open HashTable

variable {β : Type}

/-! ## Hash codes -/

/-- `Crc32Table` of `hcrc32.cpp`. -/
def crc32Table : List UInt32 := [
  0x00000000, 0x77073096, 0xee0e612c, 0x990951ba, 0x076dc419, 0x706af48f, 0xe963a535, 0x9e6495a3,
  0x0edb8832, 0x79dcb8a4, 0xe0d5e91e, 0x97d2d988, 0x09b64c2b, 0x7eb17cbd, 0xe7b82d07, 0x90bf1d91,
  0x1db71064, 0x6ab020f2, 0xf3b97148, 0x84be41de, 0x1adad47d, 0x6ddde4eb, 0xf4d4b551, 0x83d385c7,
  0x136c9856, 0x646ba8c0, 0xfd62f97a, 0x8a65c9ec, 0x14015c4f, 0x63066cd9, 0xfa0f3d63, 0x8d080df5,
  0x3b6e20c8, 0x4c69105e, 0xd56041e4, 0xa2677172, 0x3c03e4d1, 0x4b04d447, 0xd20d85fd, 0xa50ab56b,
  0x35b5a8fa, 0x42b2986c, 0xdbbbc9d6, 0xacbcf940, 0x32d86ce3, 0x45df5c75, 0xdcd60dcf, 0xabd13d59,
  0x26d930ac, 0x51de003a, 0xc8d75180, 0xbfd06116, 0x21b4f4b5, 0x56b3c423, 0xcfba9599, 0xb8bda50f,
  0x2802b89e, 0x5f058808, 0xc60cd9b2, 0xb10be924, 0x2f6f7c87, 0x58684c11, 0xc1611dab, 0xb6662d3d,
  0x76dc4190, 0x01db7106, 0x98d220bc, 0xefd5102a, 0x71b18589, 0x06b6b51f, 0x9fbfe4a5, 0xe8b8d433,
  0x7807c9a2, 0x0f00f934, 0x9609a88e, 0xe10e9818, 0x7f6a0dbb, 0x086d3d2d, 0x91646c97, 0xe6635c01,
  0x6b6b51f4, 0x1c6c6162, 0x856530d8, 0xf262004e, 0x6c0695ed, 0x1b01a57b, 0x8208f4c1, 0xf50fc457,
  0x65b0d9c6, 0x12b7e950, 0x8bbeb8ea, 0xfcb9887c, 0x62dd1ddf, 0x15da2d49, 0x8cd37cf3, 0xfbd44c65,
  0x4db26158, 0x3ab551ce, 0xa3bc0074, 0xd4bb30e2, 0x4adfa541, 0x3dd895d7, 0xa4d1c46d, 0xd3d6f4fb,
  0x4369e96a, 0x346ed9fc, 0xad678846, 0xda60b8d0, 0x44042d73, 0x33031de5, 0xaa0a4c5f, 0xdd0d7cc9,
  0x5005713c, 0x270241aa, 0xbe0b1010, 0xc90c2086, 0x5768b525, 0x206f85b3, 0xb966d409, 0xce61e49f,
  0x5edef90e, 0x29d9c998, 0xb0d09822, 0xc7d7a8b4, 0x59b33d17, 0x2eb40d81, 0xb7bd5c3b, 0xc0ba6cad,
  0xedb88320, 0x9abfb3b6, 0x03b6e20c, 0x74b1d29a, 0xead54739, 0x9dd277af, 0x04db2615, 0x73dc1683,
  0xe3630b12, 0x94643b84, 0x0d6d6a3e, 0x7a6a5aa8, 0xe40ecf0b, 0x9309ff9d, 0x0a00ae27, 0x7d079eb1,
  0xf00f9344, 0x8708a3d2, 0x1e01f268, 0x6906c2fe, 0xf762575d, 0x806567cb, 0x196c3671, 0x6e6b06e7,
  0xfed41b76, 0x89d32be0, 0x10da7a5a, 0x67dd4acc, 0xf9b9df6f, 0x8ebeeff9, 0x17b7be43, 0x60b08ed5,
  0xd6d6a3e8, 0xa1d1937e, 0x38d8c2c4, 0x4fdff252, 0xd1bb67f1, 0xa6bc5767, 0x3fb506dd, 0x48b2364b,
  0xd80d2bda, 0xaf0a1b4c, 0x36034af6, 0x41047a60, 0xdf60efc3, 0xa867df55, 0x316e8eef, 0x4669be79,
  0xcb61b38c, 0xbc66831a, 0x256fd2a0, 0x5268e236, 0xcc0c7795, 0xbb0b4703, 0x220216b9, 0x5505262f,
  0xc5ba3bbe, 0xb2bd0b28, 0x2bb45a92, 0x5cb36a04, 0xc2d7ffa7, 0xb5d0cf31, 0x2cd99e8b, 0x5bdeae1d,
  0x9b64c2b0, 0xec63f226, 0x756aa39c, 0x026d930a, 0x9c0906a9, 0xeb0e363f, 0x72076785, 0x05005713,
  0x95bf4a82, 0xe2b87a14, 0x7bb12bae, 0x0cb61b38, 0x92d28e9b, 0xe5d5be0d, 0x7cdcefb7, 0x0bdbdf21,
  0x86d3d2d4, 0xf1d4e242, 0x68ddb3f8, 0x1fda836e, 0x81be16cd, 0xf6b9265b, 0x6fb077e1, 0x18b74777,
  0x88085ae6, 0xff0f6a70, 0x66063bca, 0x11010b5c, 0x8f659eff, 0xf862ae69, 0x616bffd3, 0x166ccf45,
  0xa00ae278, 0xd70dd2ee, 0x4e048354, 0x3903b3c2, 0xa7672661, 0xd06016f7, 0x4969474d, 0x3e6e77db,
  0xaed16a4a, 0xd9d65adc, 0x40df0b66, 0x37d83bf0, 0xa9bcae53, 0xdebb9ec5, 0x47b2cf7f, 0x30b5ffe9,
  0xbdbdf21c, 0xcabac28a, 0x53b39330, 0x24b4a3a6, 0xbad03605, 0xcdd70693, 0x54de5729, 0x23d967bf,
  0xb3667a2e, 0xc4614ab8, 0x5d681b02, 0x2a6f2b94, 0xb40bbe37, 0xc30c8ea1, 0x5a05df1b, 0x2d02ef8d]

/-- The `crc32` of `hcrc32.cpp` that continues from a given code. -/
def crc32 (crc : UInt32) (buf : List UInt8) : UInt32 :=
  buf.foldl (fun crc byte =>
    crc32Table.getD ((crc ^^^ byte.toUInt32) &&& 0xff).toNat 0 ^^^ (crc >>> 8)) crc

/-- `THHMSI::Hash`. -/
def Hash (key : THHashString) : Nat := (crc32 0 key.bytes).toNat

/-- The loop over the key in `Add`, `Remove`, `Find` and `GetValue`, where a `char` has a sign. -/
def hash (key : THHashString) : Nat :=
  UInt32.toNat (key.bytes.foldl (fun hc byte =>
    ((hc <<< 2) ||| (hc >>> 30)) ^^^ byte.toInt8.toInt32.toUInt32) 0)

/-! ## Operations -/

/-- `THHMSI::CompareEx`. -/
def compareEx (key : THHashString) (element : THElement THHashString β) : Int :=
  THHashString.strcmp key.bytes element.key.bytes

theorem compareEx_neg_iff (key : THHashString) (element : THElement THHashString β) :
    compareEx key element < 0 ↔ key < element.key :=
  (THHashString.strcmp_spec ..).1

theorem compareEx_eq_zero_iff (key : THHashString) (element : THElement THHashString β) :
    compareEx key element = 0 ↔ key = element.key := by
  rw [compareEx, (THHashString.strcmp_spec ..).2, THHashString.ext_iff]

/-- The rotate loop of `THHMSI::Add`, which does not expect an equal key. -/
def rebalanceAdded (key : THHashString) :
    Dict THHashString β → List Nat → Option (Dict THHashString β)
  | dict, [] => some dict
  | dict, node :: above =>
      let change := if compareEx key (dict node) < 0 then 1 else -1
      let dict := setBf dict node ((dict node).bf + change)
      let bf := (dict node).bf
      if bf = 0 then some dict
      else if bf = 2 ∨ bf = -2 then (rotateSubTree dict node above bf).map (·.2)
      else rebalanceAdded key dict above

/-- `sizeof(THElement)` of `hhmsi.hpp`. -/
def elementSize : Nat := 304

/-- `THHMSI::THHMSI`. -/
def new (size : Nat) (memory : Dict THHashString β) : Option (HashTable THHashString β) := do
  let dictSize ← normalize size 32 1
  if dictSize * elementSize < 2 ^ 32 then
    some (clear
      { mask := dictSize - 1, dictSize, dict := memory, count := 0,
        freeBuffer := THSP.new (dictSize * 2) })
  else none

/-- `THHMSI::Add`. -/
def add (table : HashTable THHashString β) (key : THHashString) (value : β) :
    Option (THHashAddResult × HashTable THHashString β) :=
  if table.count = UInt32.ofNat table.dictSize then some (.harOverflow, table)
  else
    let node := table.slot (hash key)
    if (table.dict node).isUsing = false then
      some (.harOK,
        { table with
          dict := modify table.dict node (fill key value none)
          count := table.count + 1 })
    else if (table.dict node).parent = none then
      (search table.dict key pathSize .right [] (some node)).bind fun
        | .found _ _ => some (.harDupKey, table)
        | .absent side path => do
            let (current, freeBuffer) ← table.takeFree
            let prev ← path.head?
            let dict := modify table.dict prev fun element => element.setChild side (some current)
            guard (path.length < pathSize)
            let dict := modify dict current (fill key value (some prev))
            let dict ← rebalanceAdded key dict path
            some (.harOK, { table with dict, freeBuffer, count := table.count + 1 })
    else do
      let (current, freeBuffer) ← table.takeFree
      let dict := modify table.dict current (fill key value none)
      let dict ← exchangeElement dict node current
      some (.harOK, { table with dict, freeBuffer, count := table.count + 1 })

/-- `THHMSI::Remove`. -/
def remove (table : HashTable THHashString β) (key : THHashString) :
    Option (Bool × HashTable THHashString β) :=
  HashTable.remove hash table key

/-- `THHMSI::Find`. -/
def find (table : HashTable THHashString β) (key : THHashString) : Option (Option Nat) :=
  HashTable.find hash table key

/-- `THHMSI::FindEx`. -/
def findEx (table : HashTable THHashString β) (key : THHashString) (fr : THHashFindResult) :
    Option (THHashFindResult × Option Nat) :=
  HashTable.findEx Hash table key fr

/-- One call on the table. -/
def step (table : HashTable THHashString β) :
    Op THHashString β → Option (HashTable THHashString β)
  | .add key value => (add table key value).map (·.2)
  | .remove key => (remove table key).map (·.2)
  | .clear => some table.clear

/-- A table that calls of `AddS`, `RemoveS` and `Clear` leave behind. -/
def Reachable (size : Nat) (memory : Dict THHashString β) (table : HashTable THHashString β) :
    Prop :=
  ∃ start, new size memory = some start ∧ Execution.Reachable step start table

variable {size : Nat} {memory : Dict THHashString β} {table table' : HashTable THHashString β}

/-! ## The generic table -/

theorem new_eq (built : new size memory = some table) : HashTable.new size memory = some table := by
  obtain ⟨dictSize, normalized, rest⟩ := Option.bind_eq_some_iff.mp built
  refine Option.bind_eq_some_iff.mpr ⟨dictSize, normalized, ?_⟩
  split at rest
  · rename_i bounded
    rw [elementSize] at bounded
    rw [if_pos (by rw [HashTable.elementSize]; omega)]
    exact rest
  · cases rest

/-- The two rotate loops differ only at a node with the new key. -/
theorem rebalanceAdded_eq {key : THHashString} {dict : Dict THHashString β} {path : List Nat}
    (apart : ∀ a ∈ path, key ≠ (dict a).key) :
    rebalanceAdded key dict path = HashTable.rebalanceAdded key dict path := by
  induction path generalizing dict with
  | nil => rfl
  | cons node above induction =>
      have change : (if compareEx key (dict node) < 0 then (1 : Int) else -1) =
          if key = (dict node).key then 0 else if key < (dict node).key then 1 else -1 := by
        rw [if_neg (apart node (.head _))]
        exact if_congr (compareEx_neg_iff ..) rfl rfl
      have keys (bf : Int) (a : Nat) : (setBf dict node bf a).key = (dict a).key := by
        rw [setBf_apply]
        split <;> rfl
      rw [rebalanceAdded, HashTable.rebalanceAdded, change, induction fun a among => ?_]
      rw [keys]
      exact apart a (.tail _ among)

/-- A search that fails passes used elements with other keys. -/
theorem search_absent (valid : Valid hash table) {key : THHashString}
    (isUsing : (table.dict (table.slot (hash key))).isUsing = true)
    (parent_eq : (table.dict (table.slot (hash key))).parent = none) {side : Side}
    {path : List Nat}
    (search_eq : search table.dict key pathSize .right [] (some (table.slot (hash key))) =
      some (.absent side path)) :
    ∀ a ∈ path, (table.dict a).isUsing = true ∧ key ≠ (table.dict a).key := by
  obtain ⟨trees, forest⟩ := valid.forest
  have i_lt := valid.slot_lt (hash key)
  have stands := forest.stands _ i_lt
  rw [← forest.root_eq (fun key => valid.slot_lt _) i_lt isUsing parent_eq] at search_eq
  have spec : Found table.dict key (Tree.plug [] (trees (table.slot (hash key)))) _ :=
    search_found stands.linked nofun nofun search_eq
  obtain ⟨frames, tree_eq, rfl, -, toward⟩ := spec
  rw [Tree.plug] at tree_eq
  intro a among
  obtain ⟨frame, onPath, rfl⟩ := List.mem_map.mp among
  refine ⟨(stands.inside _ ?_).2.1, ?_⟩
  · rw [tree_eq]
    exact Tree.mem_plug.mpr (.inr ⟨frame, onPath, .inl rfl⟩)
  · have away := toward frame onPath
    cases side_eq : frame.side with
    | left =>
        rw [side_eq] at away
        exact away.ne
    | right =>
        rw [side_eq] at away
        exact away.ne'

theorem add_eq (valid : Valid hash table) (key : THHashString) (value : β) :
    add table key value = HashTable.add hash table key value := by
  rw [add, HashTable.add]
  split
  · rfl
  dsimp only
  split
  · rfl
  rename_i used
  split
  · rename_i parent_eq
    refine Option.bind_congr fun result search_eq => ?_
    cases result with
    | found node above => rfl
    | absent side path =>
        have passed := search_absent valid (by simpa using used) parent_eq search_eq
        refine Option.bind_congr fun taken taken_eq => ?_
        obtain ⟨current, freeBuffer⟩ := taken
        obtain ⟨free, -⟩ := takeFree_some valid.inside taken_eq
        refine Option.bind_congr fun prev _ => Option.bind_congr fun _ _ => ?_
        dsimp only
        rw [rebalanceAdded_eq fun a among => ?_]
        obtain ⟨isUsing, ne⟩ := passed a among
        have notNew : a ≠ current := by
          rintro rfl
          rw [isUsing] at free
          cases free
        rw [modify_of_ne notNew, modify_apply]
        split
        · rwa [THElement.key_setChild]
        · exact ne
  · rfl

/-- On valid tables the calls are those of the table with this hash code. -/
theorem step_eq (valid : Valid hash table) (op : Op THHashString β) :
    step table op = HashTable.step hash table op := by
  cases op with
  | add key value => exact congrArg (Option.map (·.2)) (add_eq valid key value)
  | remove key => rfl
  | clear => rfl

theorem Reachable.valid (reachable : Reachable size memory table) : Valid hash table := by
  obtain ⟨start, built, reach⟩ := reachable
  refine reach.invariant (Valid hash) (Valid.new (new_eq built)) fun valid stepped => ?_
  rw [step_eq valid] at stepped
  exact valid.step stepped

/-! ## The two searches -/

/-- The key is stored. -/
def Stored (table : HashTable THHashString β) (key : THHashString) : Prop :=
  ∃ a < table.dictSize, (table.dict a).isUsing = true ∧ (table.dict a).key = key

/-- `FindEx` finds the key exactly when `Find` does, and returns the same element. -/
def SearchesAgree (table : HashTable THHashString β) (key : THHashString) : Prop :=
  ∀ fr, ∃ result fr', find table key = some result ∧
    findEx table key fr = some (fr', result) ∧ fr'.found = result.isSome

/-- `FindEx` finds a stored key where the two codes choose one slot. -/
theorem findEx_spec (valid : Valid hash table) (key : THHashString) (fr : THHashFindResult) :
    ∃ result fr', findEx table key fr = some (fr', result) ∧ fr'.found = result.isSome ∧
      ∀ a, result = some a ↔
        (table.count ≠ 0 ∧ table.slot (hash key) = table.slot (Hash key)) ∧
          a < table.dictSize ∧ (table.dict a).isUsing = true ∧ (table.dict a).key = key := by
  obtain ⟨trees, forest⟩ := valid.forest
  rcases eq_or_ne table.count 0 with empty | nonempty
  · refine ⟨none, { fr with occupy := false, found := false }, ?_, rfl, fun a => ?_⟩
    · rw [findEx, HashTable.findEx, if_pos empty]
    · exact ⟨fun found => absurd found (Option.some_ne_none a).symm,
        fun here => absurd empty here.1.1⟩
  · obtain ⟨result, find_eq, result_iff⟩ := find_spec_of_hash forest (fun key => valid.slot_lt _)
      (valid.slot_lt (Hash key))
    obtain ⟨fr', findEx_eq, found_eq⟩ := findEx_of_find valid.size_pos nonempty find_eq fr
    refine ⟨result, fr', findEx_eq, found_eq, fun a => ?_⟩
    rw [result_iff, and_iff_right nonempty]

/-- The searches disagree on the stored keys whose two codes choose different slots. -/
theorem searchesAgree_iff (reachable : Reachable size memory table) (key : THHashString) :
    SearchesAgree table key ↔
      (Stored table key → table.count ≠ 0 ∧ table.slot (hash key) = table.slot (Hash key)) := by
  have valid := reachable.valid
  obtain ⟨trees, forest⟩ := valid.forest
  obtain ⟨result, find_eq, find_iff⟩ :=
    HashTable.find_spec forest (fun key => valid.slot_lt _) key
  constructor
  · rintro agree ⟨a, here⟩
    obtain ⟨result', fr', findEx_eq, -, findEx_iff⟩ := findEx_spec valid key ⟨false, false, false⟩
    obtain ⟨same, fr'', find_eq', findEx_eq', -⟩ := agree ⟨false, false, false⟩
    obtain rfl : result = same := Option.some.inj (find_eq.symm.trans find_eq')
    obtain rfl : result' = result :=
      (Prod.mk.inj (Option.some.inj (findEx_eq.symm.trans findEx_eq'))).2
    exact ((findEx_iff a).mp ((find_iff a).mpr here)).1
  · intro sound fr
    obtain ⟨result', fr', findEx_eq, found_eq, findEx_iff⟩ := findEx_spec valid key fr
    obtain rfl : result' = result := Option.ext fun a => by
      rw [findEx_iff, find_iff]
      exact and_iff_right_of_imp fun here => sound ⟨a, here⟩
    exact ⟨result', fr', find_eq, findEx_eq, found_eq⟩

/-- An array as `malloc` may leave it. -/
def blank : Dict THHashString Int := fun _ =>
  { index := 0, isUsing := false, bf := 0, parent := none, left := none, right := none,
    key := ⟨[], List.not_mem_nil, Nat.zero_lt_succ 255⟩, value := 0 }

/-- The table that the operations leave behind. -/
def after (size : Nat) (ops : List (Op THHashString Int)) : Option (HashTable THHashString Int) :=
  (new size blank).bind fun start => Execution.run step start ops

theorem after_reachable {ops : List (Op THHashString Int)} {table : HashTable THHashString Int}
    (after_eq : after size ops = some table) : Reachable size blank table := by
  obtain ⟨start, built, execution⟩ := Option.bind_eq_some_iff.mp after_eq
  exact ⟨start, built, ops, execution⟩

theorem letter_noNul : 0 ∉ ([97] : List UInt8) := by decide

/-- The key `a`, whose codes `0x00000061` and `0x3ab551ce` differ in their last bits. -/
def letter : THHashString := ⟨[97], letter_noNul, Nat.succ_lt_succ (Nat.zero_lt_succ 254)⟩

theorem letter_searchesAgree_iff : ∃ table, after 4 [.add letter 5] = some table ∧
    (SearchesAgree table letter ↔
      (Stored table letter →
        table.count ≠ 0 ∧ table.slot (hash letter) = table.slot (Hash letter))) := by
  obtain ⟨table, after_eq⟩ : ∃ table, after 4 [.add letter 5] = some table :=
    Option.isSome_iff_exists.mp (by decide +kernel)
  exact ⟨table, after_eq, searchesAgree_iff (after_reachable after_eq) letter⟩

theorem letter_not_found : ∃ table, Reachable 4 blank table ∧ ¬ SearchesAgree table letter := by
  have facts : (after 4 [.add letter 5]).any (fun table =>
      decide (find table letter = some (some 1)) &&
        decide ((findEx table letter ⟨false, false, false⟩).map (·.2) = some none)) = true := by
    decide +kernel
  obtain ⟨table, after_eq, here⟩ := (Option.any_eq_true _ _).mp facts
  rw [Bool.and_eq_true, decide_eq_true_iff, decide_eq_true_iff] at here
  refine ⟨table, after_reachable after_eq, fun agree => ?_⟩
  obtain ⟨result, fr', find_eq, findEx_eq, -⟩ := agree ⟨false, false, false⟩
  obtain rfl : some 1 = result := Option.some.inj (here.1.symm.trans find_eq)
  rw [findEx_eq] at here
  cases here.2

end THHMSI
end CommonLib
