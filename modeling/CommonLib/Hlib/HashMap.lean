import Mathlib.Algebra.Ring.Nat
import CommonLib.Hlib.HashAdd
import CommonLib.Hlib.HashRemove
import CommonLib.Library.Execution

/-!
# The hash table as a finite map

Every table which the constructor and the operations build carries a forest.  The `Find` functions,
`Add` and `Remove` then act as on a finite map, up to the shortcut of `FindEx` for an empty table.
-/

namespace CommonLib
namespace HashTable

open CommonLib.Tree

variable {κ β : Type}

/-! ## The constructor -/

theorem normalize_spec {size rounds r mask : Nat} (fits : r + rounds ≤ 32)
    (start : r = 0 ∨ 0 < size) (normalized : normalize size rounds (2 ^ r) = some mask) :
    ∃ k, mask = 2 ^ k := by
  induction rounds generalizing r with
  | zero => cases normalized
  | succ rounds induction =>
      rw [normalize, ← pow_succ] at normalized
      rcases Nat.lt_or_ge (r + 1) 32 with small | large
      · rw [Nat.mod_eq_of_lt (Nat.pow_lt_pow_right (by decide) small)] at normalized
        split at normalized
        · rename_i less
          exact induction (by omega) (.inr (Nat.zero_lt_of_lt less)) normalized
        · exact ⟨r + 1, (Option.some.inj normalized).symm⟩
      · obtain rfl : r = 31 := by omega
        obtain rfl : rounds = 0 := by omega
        have positive := start.resolve_left (by decide)
        rw [Nat.mod_self, if_pos positive] at normalized
        cases normalized

theorem resetRange_apply (dict : Dict κ β) (count a : Nat) :
    resetRange dict count a =
      if a < count then { dict a with index := a, isUsing := false } else dict a := by
  induction count with
  | zero => rfl
  | succ count induction =>
      rw [resetRange, modify_apply, induction]
      by_cases last : a = count
      · subst last
        rw [if_pos rfl, if_neg (lt_irrefl a), if_pos (Nat.lt_succ_self a)]
      · rw [if_neg last]
        by_cases earlier : a < count
        · rw [if_pos earlier, if_pos (Nat.lt_succ_of_lt earlier)]
        · rw [if_neg earlier, if_neg (by omega)]

/-- After `Clear` the stack lists every element. -/
theorem clear_items {table : HashTable κ β}
    (room : table.freeBuffer.size = table.dictSize * 2) :
    table.clear.freeBuffer.items = (List.range table.dictSize).reverse ∧
      table.clear.freeBuffer.size = table.dictSize * 2 := by
  have fits : table.dictSize ≤ table.freeBuffer.clear.size := by
    have : table.freeBuffer.clear.size = table.freeBuffer.size := rfl
    omega
  obtain ⟨items_eq, size_eq⟩ := THSP.pushRange_items rfl fits
  exact ⟨items_eq, size_eq.trans room⟩

/-- The constructor clears a table of a suitable size. -/
theorem new_eq_clear {size : Nat} {memory : Dict κ β} {table : HashTable κ β}
    (built : new size memory = some table) :
    ∃ raw : HashTable κ β, table = raw.clear ∧
      (∃ r, raw.dictSize = 2 ^ r ∧ raw.mask = 2 ^ r - 1) ∧
      raw.dictSize * elementSize < 2 ^ 32 ∧ raw.freeBuffer.size = raw.dictSize * 2 := by
  unfold HashTable.new at built
  obtain ⟨dictSize, normalized, rest⟩ := Option.bind_eq_some_iff.mp built
  split at rest
  · rename_i bounded
    obtain ⟨k, rfl⟩ := @normalize_spec size 32 0 dictSize (by decide) (.inl rfl) normalized
    exact ⟨_, (Option.some.inj rest).symm, ⟨k, rfl, rfl⟩, bounded, rfl⟩
  · cases rest

/-! ## Valid tables -/

variable [LinearOrder κ] {hash : κ → Nat} {table table' : HashTable κ β}

/-- What the constructor builds and every operation keeps. -/
structure Valid (hash : κ → Nat) (table : HashTable κ β) : Prop where
  size_eq : ∃ r, table.dictSize = 2 ^ r ∧ table.mask = 2 ^ r - 1
  bounded : table.dictSize * elementSize < 2 ^ 32
  room : table.freeBuffer.size = table.dictSize * 2
  inside : ∀ q ∈ table.freeBuffer.items, q < table.dictSize
  forest : ∃ trees, Forest table.dict table.dictSize (fun key => table.slot (hash key)) trees

theorem Valid.slot_eq (valid : Valid hash table) (code : Nat) :
    table.slot code = code % table.dictSize := by
  obtain ⟨r, size_eq, mask_eq⟩ := valid.size_eq
  rw [slot, mask_eq, Nat.and_two_pow_sub_one_eq_mod, size_eq]

theorem Valid.slot_lt (valid : Valid hash table) (code : Nat) :
    table.slot code < table.dictSize := by
  obtain ⟨r, size_eq, -⟩ := valid.size_eq
  rw [valid.slot_eq, size_eq]
  exact Nat.mod_lt _ (Nat.two_pow_pos r)

theorem forest_clear (dict : Dict κ β) (size : Nat) (home : κ → Nat) :
    Forest (resetRange dict size) size home fun _ => nil where
  stands := fun i _ =>
    { linked := trivial
      root_eq := .inl rfl
      inside := fun a inside => absurd inside (not_mem_nil a)
      ordered := List.Pairwise.nil
      balanced := trivial }
  covers := fun a a_lt isUsing => by
    rw [resetRange_apply, if_pos a_lt] at isUsing
    cases isUsing
  index := fun a a_lt => by rw [resetRange_apply, if_pos a_lt]

theorem Valid.clear (size_eq : ∃ r, table.dictSize = 2 ^ r ∧ table.mask = 2 ^ r - 1)
    (bounded : table.dictSize * elementSize < 2 ^ 32)
    (room : table.freeBuffer.size = table.dictSize * 2) : Valid hash table.clear where
  size_eq := size_eq
  bounded := bounded
  room := (clear_items room).2
  inside := fun q among => by
    rw [(clear_items room).1] at among
    exact List.mem_range.mp (List.mem_reverse.mp among)
  forest := ⟨_, forest_clear _ _ _⟩

theorem Valid.new {size : Nat} {memory : Dict κ β} (built : new size memory = some table) :
    Valid hash table := by
  obtain ⟨raw, rfl, size_eq, bounded, room⟩ := new_eq_clear built
  exact Valid.clear size_eq bounded room

theorem Valid.addSpec (valid : Valid hash table) {key : κ} {value : β} {result : THHashAddResult}
    (added : table.add hash key value = some (result, table')) :
    AddSpec table (fun key => table.slot (hash key)) key value result table' := by
  obtain ⟨trees, forest⟩ := valid.forest
  rcases add_spec forest (fun key => valid.slot_lt _) valid.inside key value with
    ⟨result', table'', added', spec⟩ | ⟨stuck, -⟩
  · obtain ⟨rfl, rfl⟩ := Prod.mk.inj (Option.some.inj (added.symm.trans added'))
    exact spec
  · rw [stuck] at added
    cases added

theorem Valid.removeSpec (valid : Valid hash table) {key : κ} {removed : Bool}
    (remove_eq : table.remove hash key = some (removed, table')) :
    RemoveSpec table (fun key => table.slot (hash key)) key removed table' := by
  obtain ⟨trees, forest⟩ := valid.forest
  rcases remove_spec forest (fun key => valid.slot_lt _) key with
    ⟨removed', table'', remove_eq', spec⟩ | ⟨stuck, -⟩
  · obtain ⟨rfl, rfl⟩ := Prod.mk.inj (Option.some.inj (remove_eq.symm.trans remove_eq'))
    exact spec
  · rw [stuck] at remove_eq
    cases remove_eq

theorem Valid.added (valid : Valid hash table) {key : κ} {value : β} {result : THHashAddResult}
    (spec : AddSpec table (fun key => table.slot (hash key)) key value result table') :
    Valid hash table' := by
  cases spec with
  | overflow full => exact valid
  | dupKey notFull present => exact valid
  | @ok n dict' freeBuffer notFull absent entered taken =>
      have kept : freeBuffer.size = table.freeBuffer.size ∧
          ∀ q ∈ freeBuffer.items, q < table.dictSize := by
        rcases taken with rfl | taken
        · exact ⟨rfl, valid.inside⟩
        · obtain ⟨-, size_eq, inside⟩ := takeFree_some valid.inside taken
          exact ⟨size_eq, fun q among => inside q (.tail _ among)⟩
      exact
        { size_eq := valid.size_eq
          bounded := valid.bounded
          room := kept.1.trans valid.room
          inside := kept.2
          forest := entered.forest }

theorem Valid.removed (valid : Valid hash table) {key : κ} {removed : Bool}
    (spec : RemoveSpec table (fun key => table.slot (hash key)) key removed table') :
    Valid hash table' := by
  cases spec with
  | absent absent => exact valid
  | @removed p released dict' present same vacated =>
      obtain ⟨size_eq, mask_eq⟩ := releaseNode_size { table with dict := released } p
      refine ⟨?_, ?_, ?_, fun q among => ?_, ?_⟩
      · simp only [size_eq, mask_eq]
        exact valid.size_eq
      · simp only [size_eq]
        exact valid.bounded
      · simp only [size_eq, releaseNode_freeSize]
        exact valid.room
      · simp only [size_eq]
        rcases releaseNode_items among with among | rfl
        · exact valid.inside q among
        · exact vacated.lt
      · simp only [size_eq, slot, mask_eq]
        exact vacated.forest

theorem Valid.step (valid : Valid hash table) {op : Op κ β}
    (stepped : step hash table op = some table') : Valid hash table' := by
  cases op with
  | add key value =>
      obtain ⟨⟨result, next⟩, added, rfl⟩ := Option.map_eq_some_iff.mp stepped
      exact valid.added (valid.addSpec added)
  | remove key =>
      obtain ⟨⟨removed, next⟩, remove_eq, rfl⟩ := Option.map_eq_some_iff.mp stepped
      exact valid.removed (valid.removeSpec remove_eq)
  | clear =>
      obtain rfl := Option.some.inj stepped
      exact Valid.clear valid.size_eq valid.bounded valid.room

/-- A table that calls of `Add`, `Remove` and `Clear` leave behind. -/
def Reachable (hash : κ → Nat) (size : Nat) (memory : Dict κ β) (table : HashTable κ β) : Prop :=
  ∃ start, new size memory = some start ∧ Execution.Reachable (step hash) start table

theorem Reachable.valid {size : Nat} {memory : Dict κ β}
    (reachable : Reachable hash size memory table) : Valid hash table := by
  obtain ⟨start, built, reach⟩ := reachable
  exact reach.invariant (Valid hash) (Valid.new built)
    fun valid stepped => valid.step stepped

/-! ## Representation -/

/-- The used elements without a parent are the roots of trees which share out the used elements by
their slots. -/
structure Represented (hash : κ → Nat) (table : HashTable κ β) (trees : Nat → Tree Nat) : Prop where
  root : ∀ i < table.dictSize, (table.dict i).isUsing = true → (table.dict i).parent = none →
    (trees i).root = some i ∧
      ∀ a, a ∈ trees i ↔ a < table.dictSize ∧ (table.dict a).isUsing = true ∧
        table.slot (hash (table.dict a).key) = i
  unique : ∀ a < table.dictSize, (table.dict a).isUsing = true →
    ∃! i, (i < table.dictSize ∧ (table.dict i).isUsing = true ∧ (table.dict i).parent = none) ∧
      a ∈ trees i
  linked : ∀ i < table.dictSize, Linked table.dict none (trees i)
  ordered : ∀ i < table.dictSize, Ordered table.dict (trees i)
  balanced : ∀ i < table.dictSize, (trees i).Balanced
  index : ∀ a < table.dictSize, (table.dict a).index = a

theorem Valid.represented (valid : Valid hash table) : ∃ trees, Represented hash table trees := by
  obtain ⟨trees, forest⟩ := valid.forest
  have home_lt (key : κ) : table.slot (hash key) < table.dictSize := valid.slot_lt _
  refine ⟨trees, fun i i_lt isUsing parent_eq => ⟨forest.root_eq home_lt i_lt isUsing parent_eq,
    fun a => ⟨fun inside => (forest.stands i i_lt).inside a inside, ?_⟩⟩,
    fun a a_lt isUsing => ?_, fun i i_lt => (forest.stands i i_lt).linked,
    fun i i_lt => (forest.stands i i_lt).ordered, fun i i_lt => (forest.stands i i_lt).balanced,
    forest.index⟩
  · rintro ⟨a_lt, isUsing', rfl⟩
    exact forest.covers a a_lt isUsing'
  · have covered := forest.covers a a_lt isUsing
    have stands := forest.stands _ (home_lt (table.dict a).key)
    have root_eq := stands.root_eq.resolve_left fun empty => by
      rw [empty] at covered
      exact not_mem_nil a covered
    have inside := root_mem root_eq
    refine ⟨_, ⟨⟨home_lt _, (stands.inside _ inside).2.1,
      (stands.linked.parent_eq_none inside).mpr root_eq⟩, covered⟩, ?_⟩
    rintro j ⟨⟨j_lt, -⟩, inside'⟩
    exact forest.unique j_lt (home_lt _) inside' covered

/-! ## Contents -/

/-- The map that the used elements stand for. -/
def contents (table : HashTable κ β) (key : κ) : Option β :=
  ((List.range table.dictSize).find? fun a =>
    (table.dict a).isUsing && decide ((table.dict a).key = key)).map fun a => (table.dict a).value

/-- The value of the element that `Find` returns. -/
def lookup (hash : κ → Nat) (table : HashTable κ β) (key : κ) : Option (Option β) :=
  (table.find hash key).map fun result => result.map fun a => (table.dict a).value

theorem contents_eq_none {key : κ} :
    contents table key = none ↔ ∀ v, ¬ Stores table.dict table.dictSize key v := by
  rw [contents, Option.map_eq_none_iff, List.find?_eq_none]
  constructor
  · rintro none_eq v ⟨a, a_lt, entry_eq⟩
    simp only [THElement.entry, Prod.mk.injEq] at entry_eq
    refine none_eq a (List.mem_range.mpr a_lt) ?_
    rw [entry_eq.1, entry_eq.2.1]
    simp
  · intro absent a among here
    rw [Bool.and_eq_true, decide_eq_true_iff] at here
    refine absent (table.dict a).value ⟨a, List.mem_range.mp among, ?_⟩
    rw [THElement.entry, here.1, here.2]

theorem Valid.contents_eq_some (valid : Valid hash table) {key : κ} {v : β} :
    contents table key = some v ↔ Stores table.dict table.dictSize key v := by
  obtain ⟨trees, forest⟩ := valid.forest
  have stored {v : β} (eq : contents table key = some v) :
      Stores table.dict table.dictSize key v := by
    obtain ⟨a, found, rfl⟩ := Option.map_eq_some_iff.mp eq
    have here := List.find?_some found
    rw [Bool.and_eq_true, decide_eq_true_iff] at here
    refine ⟨a, List.mem_range.mp (List.mem_of_find?_eq_some found), ?_⟩
    rw [THElement.entry, here.1, here.2]
  refine ⟨stored, fun stores => ?_⟩
  cases eq : contents table key with
  | none => exact absurd stores (contents_eq_none.mp eq v)
  | some v' =>
      rw [forest.stores_unique (fun key => valid.slot_lt _) (stored eq) stores]

theorem Valid.lookup_eq (valid : Valid hash table) (key : κ) :
    lookup hash table key = some (contents table key) := by
  obtain ⟨trees, forest⟩ := valid.forest
  obtain ⟨result, find_eq, result_iff⟩ := find_spec forest (fun key => valid.slot_lt _) key
  rw [lookup, find_eq, Option.map_some]
  refine congrArg some ?_
  cases result with
  | none =>
      refine (contents_eq_none.mpr ?_).symm
      rintro v ⟨a, a_lt, entry_eq⟩
      simp only [THElement.entry, Prod.mk.injEq] at entry_eq
      have absurd := (result_iff a).mpr ⟨a_lt, entry_eq.1, entry_eq.2.1⟩
      cases absurd
  | some a =>
      obtain ⟨a_lt, isUsing, key_eq⟩ := (result_iff a).mp rfl
      refine (valid.contents_eq_some.mpr ⟨a, a_lt, ?_⟩).symm
      rw [THElement.entry, isUsing, key_eq]

/-- Two valid tables whose entries differ at one key. -/
theorem Valid.contents_update (valid : Valid hash table) (valid' : Valid hash table') {key : κ}
    {result : Option β}
    (stores : ∀ k v, Stores table'.dict table'.dictSize k v ↔
      k = key ∧ result = some v ∨ k ≠ key ∧ Stores table.dict table.dictSize k v) :
    contents table' = Function.update (contents table) key result := by
  funext k
  refine Option.ext fun v => ?_
  rw [valid'.contents_eq_some, stores]
  by_cases same : k = key
  · subst same
    rw [Function.update_self]
    tauto
  · rw [Function.update_of_ne same, valid.contents_eq_some]
    tauto

theorem AddSpec.contents_eq (valid : Valid hash table) {key : κ} {value : β}
    {result : THHashAddResult}
    (spec : AddSpec table (fun key => table.slot (hash key)) key value result table')
    (result_eq : result = .harOK) :
    contents table key = none ∧
      contents table' = Function.update (contents table) key (some value) := by
  have valid' := valid.added spec
  cases spec with
  | overflow full => cases result_eq
  | dupKey notFull present => cases result_eq
  | @ok n dict' freeBuffer notFull absent entered taken =>
      refine ⟨contents_eq_none.mpr absent, valid.contents_update valid' fun k v => ?_⟩
      have here : k = key → ¬ Stores table.dict table.dictSize k v := by
        rintro rfl
        exact absent v
      refine (entered.stores k v).trans ?_
      rw [Option.some.injEq]
      constructor
      · rintro (⟨rfl, rfl⟩ | stored)
        · exact .inl ⟨rfl, rfl⟩
        · exact .inr ⟨fun same => here same stored, stored⟩
      · rintro (⟨rfl, rfl⟩ | ⟨-, stored⟩)
        · exact .inl ⟨rfl, rfl⟩
        · exact .inr stored

theorem RemoveSpec.contents_eq (valid : Valid hash table) {key : κ} {removed : Bool}
    (spec : RemoveSpec table (fun key => table.slot (hash key)) key removed table') :
    (removed = true ↔ (contents table key).isSome = true) ∧
      contents table' = Function.update (contents table) key none := by
  have valid' := valid.removed spec
  cases spec with
  | absent absent =>
      have none_eq := contents_eq_none.mpr absent
      refine ⟨by rw [none_eq]; simp, ?_⟩
      rw [← none_eq, Function.update_eq_self]
  | @removed p released dict' present same vacated =>
      obtain ⟨v, stored⟩ := present
      refine ⟨by rw [valid.contents_eq_some.mpr stored]; simp,
        valid.contents_update valid' fun k v => ?_⟩
      simp only [(releaseNode_size { table with dict := released } p).1]
      refine (vacated.stores k v).trans ?_
      simp

/-! ## The other searches -/

theorem Valid.size_pos (valid : Valid hash table) : 0 < table.dictSize := by
  obtain ⟨r, size_eq, -⟩ := valid.size_eq
  rw [size_eq]
  exact Nat.two_pow_pos r

theorem findEx_of_find (size_pos : 0 < table.dictSize) (nonempty : table.count ≠ 0) {key : κ}
    {result : Option Nat} (find_eq : table.find hash key = some result) (fr : THHashFindResult) :
    ∃ fr', table.findEx hash key fr = some (fr', result) ∧ fr'.found = result.isSome := by
  rw [find] at find_eq
  rw [findEx, if_neg nonempty]
  by_cases isUsing : (table.dict (table.slot (hash key))).isUsing = false
  · rw [if_pos (.inl isUsing)] at find_eq
    obtain rfl := Option.some.inj find_eq
    exact ⟨_, by rw [if_pos isUsing], rfl⟩
  · by_cases parent_eq : (table.dict (table.slot (hash key))).parent = none
    · rw [if_neg (not_or.mpr ⟨isUsing, not_not.mpr parent_eq⟩)] at find_eq
      by_cases direct : key = (table.dict (table.slot (hash key))).key
      · obtain ⟨steps, size_eq⟩ := Nat.exists_eq_succ_of_ne_zero size_pos.ne'
        rw [size_eq, findNode_succ, if_pos direct] at find_eq
        obtain rfl := Option.some.inj find_eq
        exact ⟨_, by rw [if_neg isUsing, if_neg (not_not.mpr parent_eq), if_pos direct], rfl⟩
      · refine ⟨{ found := result.isSome, occupy := false, direct := false }, ?_, rfl⟩
        rw [if_neg isUsing, if_neg (not_not.mpr parent_eq), if_neg direct, find_eq,
          Option.map_some]
    · rw [if_pos (.inr parent_eq)] at find_eq
      obtain rfl := Option.some.inj find_eq
      exact ⟨_, by rw [if_neg isUsing, if_pos parent_eq], rfl⟩

theorem getValue_of_find [Zero β] {key : κ} {a : Nat}
    (find_eq : table.find hash key = some (some a)) :
    table.getValue hash key = some (table.dict a).value := by
  rw [find] at find_eq
  rw [getValue]
  split at find_eq
  · cases find_eq
  · rename_i here
    rw [if_neg here, find_eq]
    rfl

/-- What it means that the table refines a finite map. -/
structure RefinesMap [Zero β] (hash : κ → Nat) (table : HashTable κ β) : Prop where
  find : ∀ key, lookup hash table key = some (contents table key)
  add_ok : ∀ key value table', table.add hash key value = some (.harOK, table') →
    contents table key = none ∧
      ∀ other, lookup hash table' other =
        some (Function.update (contents table) key (some value) other)
  add_dupKey : ∀ key value table', table.add hash key value = some (.harDupKey, table') →
    (contents table key).isSome = true ∧ table' = table
  remove : ∀ key, ∃ removed table', table.remove hash key = some (removed, table') ∧
    (removed = true ↔ (contents table key).isSome = true) ∧
      ∀ other, lookup hash table' other =
        some (Function.update (contents table) key none other)
  agree : ∀ key fr, ∃ result, table.find hash key = some result ∧
    table.existsKey hash key = some result.isSome ∧
    (∃ fr', table.findEx hash key fr = some (fr', result) ∧ fr'.found = result.isSome) ∧
    ∀ a, result = some a → table.getValue hash key = some (table.dict a).value

end HashTable

/-! ## `THHMII` -/

/-- The keys of `hhmii.hpp` are compared as signed numbers. -/
instance linearOrderInt32 : LinearOrder Int32 where
  le_refl := Int32.le_refl
  le_trans _ _ _ := Int32.le_trans
  lt_iff_le_not_ge _ _ := by
    rw [Int32.lt_iff_toInt_lt, Int32.le_iff_toInt_le, Int32.le_iff_toInt_le]
    omega
  le_antisymm _ _ := Int32.le_antisymm
  le_total := Int32.le_total
  toDecidableLE := inferInstance
  toDecidableEq := inferInstance
  toDecidableLT := inferInstance

/-- `THHMII::Hash`. -/
def THHMII.hash (key : Int32) : Nat := key.toUInt32.toNat

namespace THHMII

open HashTable CommonLib.Tree

variable {β : Type} {size : Nat} {memory : Dict Int32 β} {table : HashTable Int32 β}

theorem hash_injective : Function.Injective hash := by
  intro a b same
  obtain ⟨a⟩ := a
  obtain ⟨b⟩ := b
  exact congrArg Int32.ofUInt32 (UInt32.toNat_inj.mp same)

/-- The keys of one slot are so few that a path in their tree fits into the path array. -/
theorem height_lt_pathSize (valid : Valid hash table) {trees : Nat → Tree Nat}
    (forest : Forest table.dict table.dictSize (fun key => table.slot (hash key)) trees) {i : Nat}
    (i_lt : i < table.dictSize) : (trees i).height < pathSize := by
  have stands := forest.stands i i_lt
  have bySlot := stands.length_le
  obtain ⟨r, size_eq, -⟩ := valid.size_eq
  have r_le : r ≤ 32 := by
    by_contra large
    have less := valid.bounded
    have more : 2 ^ 32 ≤ 2 ^ r := Nat.pow_le_pow_right (by decide) (by omega)
    rw [size_eq, elementSize] at less
    omega
  have byKey : (trees i).labels.length ≤ 2 ^ 32 / 2 ^ r := by
    have nodup : ((trees i).labels.map fun a => hash (table.dict a).key / 2 ^ r).Nodup := by
      refine List.Nodup.map_on (fun a inside b inside' same => ?_) stands.ordered.nodup
      have first := stands.inside a inside
      have second := stands.inside b inside'
      have slot_eq : hash (table.dict a).key % 2 ^ r = hash (table.dict b).key % 2 ^ r := by
        rw [← size_eq, ← valid.slot_eq, ← valid.slot_eq, first.2.2, second.2.2]
      have code_eq : hash (table.dict a).key = hash (table.dict b).key := by
        rw [← Nat.div_add_mod (hash (table.dict a).key) (2 ^ r), same, slot_eq, Nat.div_add_mod]
      exact forest.same (fun key => valid.slot_lt _) first.1 second.1 first.2.1 second.2.1
        (hash_injective code_eq)
    have subset : ((trees i).labels.map fun a => hash (table.dict a).key / 2 ^ r) ⊆
        List.range (2 ^ 32 / 2 ^ r) := by
      intro quotient among
      obtain ⟨a, -, rfl⟩ := List.mem_map.mp among
      rw [List.mem_range, Nat.div_lt_iff_lt_mul (Nat.two_pow_pos r),
        Nat.div_mul_cancel (pow_dvd_pow 2 r_le)]
      exact (table.dict a).key.toUInt32.toNat_lt
    simpa using (nodup.subperm subset).length_le
  have few : (trees i).labels.length ≤ 2 ^ 16 := by
    rcases le_total r 16 with small | large
    · rw [size_eq] at bySlot
      exact bySlot.trans (Nat.pow_le_pow_right (by decide) small)
    · exact byKey.trans (Nat.div_le_div_left (Nat.pow_le_pow_right (by decide) large) (by decide))
  by_contra high
  have fibonacci := stands.balanced.fib_le
  have mono : Nat.fib 34 ≤ Nat.fib ((trees i).height + 2) := Nat.fib_mono (by
    rw [pathSize] at high
    omega)
  have : Nat.fib 34 = 5702887 := by decide
  omega

/-! ### Representation -/

theorem reachable_represented (reachable : Reachable hash size memory table) :
    ∃ trees, Represented hash table trees :=
  reachable.valid.represented

/-- An array as `malloc` may leave it. -/
def blank : Dict Int32 Int := fun _ =>
  { index := 0, isUsing := false, bf := 0, parent := none, left := none, right := none, key := 0,
    value := 0 }

/-- The table that the operations leave behind. -/
def after (size : Nat) (ops : List (Op Int32 Int)) : Option (HashTable Int32 Int) :=
  (new size blank).bind fun start => Execution.run (step hash) start ops

theorem after_reachable {ops : List (Op Int32 Int)} {table : HashTable Int32 Int}
    (after_eq : after size ops = some table) : Reachable hash size blank table := by
  obtain ⟨start, built, execution⟩ := Option.bind_eq_some_iff.mp after_eq
  exact ⟨start, built, ops, execution⟩

/-- Keys 0, 4 and 8 share a slot, and the last key belongs to the slot of an overflow element. -/
def collisions : List (Op Int32 Int) := [.add 0 5, .add 4 6, .add 8 7, .add 3 8]

theorem collisions_represented : ∃ table, after 4 collisions = some table ∧
    ∃ trees, Represented hash table trees := by
  obtain ⟨table, after_eq⟩ : ∃ table, after 4 collisions = some table :=
    Option.isSome_iff_exists.mp (by decide +kernel)
  exact ⟨table, after_eq, reachable_represented (after_reachable after_eq)⟩

/-! ### Refinement -/

theorem remove_returns (valid : Valid hash table) (key : Int32) :
    ∃ removed table', table.remove hash key = some (removed, table') := by
  obtain ⟨trees, forest⟩ := valid.forest
  rcases remove_spec forest (fun key => valid.slot_lt _) key with
    ⟨removed, table', remove_eq, -⟩ | ⟨-, long⟩
  · exact ⟨removed, table', remove_eq⟩
  · exact absurd (height_lt_pathSize valid forest (valid.slot_lt _)) (not_lt.mpr long)

/-- `FindEx` takes a table whose count is zero for an empty one. -/
theorem refinesMap_iff [Zero β] (reachable : Reachable hash size memory table) :
    RefinesMap hash table ↔
      (table.count = 0 → ∀ a < table.dictSize, (table.dict a).isUsing = false) := by
  have valid := reachable.valid
  constructor
  · intro refines empty a a_lt
    by_contra used
    have isUsing : (table.dict a).isUsing = true := by simpa using used
    have stored : contents table (table.dict a).key = some (table.dict a).value :=
      valid.contents_eq_some.mpr ⟨a, a_lt, by rw [THElement.entry, isUsing]⟩
    obtain ⟨result, find_eq, -, ⟨fr, findEx_eq, -⟩, -⟩ :=
      refines.agree (table.dict a).key ⟨false, false, false⟩
    rw [findEx, if_pos empty] at findEx_eq
    obtain ⟨-, rfl⟩ := Prod.mk.inj (Option.some.inj findEx_eq)
    have lookup_eq := valid.lookup_eq (table.dict a).key
    rw [lookup, find_eq, stored] at lookup_eq
    cases lookup_eq
  · intro emptiness
    refine ⟨valid.lookup_eq, fun key value table' added => ?_, fun key value table' added => ?_,
      fun key => ?_, fun key fr => ?_⟩
    · have spec := valid.addSpec added
      obtain ⟨absent, contents_eq⟩ := spec.contents_eq valid rfl
      refine ⟨absent, fun other => ?_⟩
      rw [(valid.added spec).lookup_eq, contents_eq]
    · have spec := valid.addSpec added
      cases spec with
      | dupKey notFull present =>
          obtain ⟨v, stored⟩ := present
          exact ⟨by rw [valid.contents_eq_some.mpr stored]; rfl, rfl⟩
    · obtain ⟨removed, table', remove_eq⟩ := remove_returns valid key
      have spec := valid.removeSpec remove_eq
      obtain ⟨removed_iff, contents_eq⟩ := spec.contents_eq valid
      refine ⟨removed, table', remove_eq, removed_iff, fun other => ?_⟩
      rw [(valid.removed spec).lookup_eq, contents_eq]
    · obtain ⟨trees, forest⟩ := valid.forest
      obtain ⟨result, find_eq, result_iff⟩ := find_spec forest (fun key => valid.slot_lt _) key
      refine ⟨result, find_eq, by rw [existsKey, find_eq]; rfl, ?_, ?_⟩
      · by_cases empty : table.count = 0
        · obtain rfl : result = none := by
            refine Option.eq_none_iff_forall_ne_some.mpr fun a some_eq => ?_
            obtain ⟨a_lt, isUsing, -⟩ := (result_iff a).mp some_eq
            rw [emptiness empty a a_lt] at isUsing
            cases isUsing
          rw [findEx, if_pos empty]
          exact ⟨_, rfl, rfl⟩
        · exact findEx_of_find valid.size_pos empty find_eq fr
      · rintro a rfl
        exact getValue_of_find find_eq

theorem collisions_refinesMap_iff : ∃ table, after 4 collisions = some table ∧
    (RefinesMap hash table ↔
      (table.count = 0 → ∀ a < table.dictSize, (table.dict a).isUsing = false)) := by
  obtain ⟨table, after_eq⟩ : ∃ table, after 4 collisions = some table :=
    Option.isSome_iff_exists.mp (by decide +kernel)
  exact ⟨table, after_eq, refinesMap_iff (after_reachable after_eq)⟩

/-- The last call finds the stack full of unused elements, among them the same one several times. -/
def crowded : List (Op Int32 Int) :=
  [.add 0 5, .remove 0, .add 0 5, .remove 0, .add 0 7, .add 1 8, .remove 1]

theorem crowded_not_refinesMap :
    ∃ table, Reachable hash 2 blank table ∧ ¬ RefinesMap hash table := by
  obtain ⟨table, after_eq⟩ : ∃ table, after 2 crowded = some table :=
    Option.isSome_iff_exists.mp (by decide +kernel)
  have find_eq : (after 2 crowded).bind (fun table => table.find hash 0) = some (some 0) := by
    decide +kernel
  have findEx_eq : ((after 2 crowded).bind fun table =>
      (table.findEx hash 0 ⟨false, false, false⟩).map (·.2)) = some none := by decide +kernel
  rw [after_eq, Option.bind_some] at find_eq findEx_eq
  refine ⟨table, after_reachable after_eq, fun refines => ?_⟩
  obtain ⟨result, find_eq', -, ⟨fr, findEx_eq', -⟩, -⟩ := refines.agree 0 ⟨false, false, false⟩
  rw [findEx_eq', Option.map_some] at findEx_eq
  have result_eq : result = none := Option.some.inj findEx_eq
  rw [find_eq', result_eq] at find_eq
  cases find_eq

end THHMII
end CommonLib
