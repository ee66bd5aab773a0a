import CommonLib.Hlib.DateUtils
import CommonLib.Hlib.HashCount
import CommonLib.Hlib.HashString
import CommonLib.Hlib.PasUtils

/-!
# The names of months in `hdateutils.cpp`

The constructor of `TUnitController` adds the names to a hash table with strings for keys, in which
`TryStrToMonth` looks a name up.
-/

namespace CommonLib

namespace HashTable

variable {κ β : Type} [LinearOrder κ] {hash : κ → Nat} {table : HashTable κ β}

theorem contents_clear (table : HashTable κ β) (key : κ) : contents table.clear key = none := by
  rw [contents_eq_none]
  rintro value ⟨a, a_lt, entry_eq⟩
  have used := (Prod.mk.inj entry_eq).1
  simp only [clear] at a_lt used
  rw [resetRange_apply, if_pos a_lt] at used
  cases used

/-- A small table that is not full takes a new key. -/
theorem Tallied.add_fresh (tallied : Tallied hash table) (small : table.dictSize < pathSize)
    (room : table.count.toNat < table.dictSize) {key : κ} (absent : contents table key = none)
    (value : β) : ∃ table', table.add hash key value = some (.harOK, table') ∧
      Tallied hash table' ∧ contents table' = Function.update (contents table) key (some value) ∧
      table'.dictSize = table.dictSize ∧ table'.count.toNat = table.count.toNat + 1 := by
  rw [tallied.count_eq] at room
  have free := usedCount_lt_iff.mp room
  obtain ⟨trees, forest⟩ := tallied.valid.forest
  have stands := forest.stands _ (tallied.valid.slot_lt (hash key))
  have height_le := (Tree.height_le_length _).trans stands.length_le
  obtain ⟨result, table', added⟩ := tallied.add_some free forest (height_le.trans_lt small) value
  obtain rfl := tallied.accounted.adds free key value absent result table' added
  have spec := tallied.valid.addSpec added
  refine ⟨table', added, tallied.added spec, (spec.contents_eq tallied.valid rfl).2, ?_⟩
  cases spec with
  | ok notFull absent entered taken =>
      have size_lt := tallied.valid.size_lt
      refine ⟨rfl, ?_⟩
      rw [UInt32.toNat_add, tallied.count_eq]
      exact Nat.mod_eq_of_lt (by simp; omega)

end HashTable

namespace THHMSI

open HashTable

variable {β : Type}

/-- `hds_HashString`; a string with a NUL byte or without room in the buffer has no result. -/
def hashString (s : List UInt8) : Option THHashString :=
  if legal : 0 ∉ s ∧ s.length < 256 then some ⟨s, legal.1, legal.2⟩ else none

/-- `THHMSI::AddS`. -/
def addS (table : HashTable THHashString β) (s : List UInt8) (value : β) :
    Option (THHashAddResult × HashTable THHashString β) :=
  (hashString s).bind fun key => add table key value

/-- `THHMSI::FindS`. -/
def findS (table : HashTable THHashString β) (s : List UInt8) : Option (Option Nat) :=
  (hashString s).bind (find table)

end THHMSI

namespace DateUtils

open HashTable PasUtils

def weekDays : List (List Byte) := ["Mon", "Tue", "Wed", "Thu", "Fri", "Sat", "Sun"].map ascii

def months : List (List Byte) :=
  ["Jan", "Feb", "Mar", "Apr", "May", "Jun", "Jul", "Aug", "Sep", "Oct", "Nov", "Dec"].map ascii

/-- The loop that adds names with their places from `i` on. -/
def fillTable (table : HashTable THHashString Int) :
    Int → List (List Byte) → Option (HashTable THHashString Int)
  | _, [] => some table
  | i, name :: names => do
      let (_, table) ← THHMSI.addS table name i
      fillTable table (i + 1) names

/-- `MonthTable` behind the constructor of `TUnitController`, on the memory of the table. -/
def monthTable (memory : Dict THHashString Int) : Option (HashTable THHashString Int) :=
  (THHMSI.new 12 memory).bind fun table => fillTable table 0 months

/-- `TryStrToMonth`; the inner `none` stands for false. -/
def tryStrToMonth (table : HashTable THHashString Int) (s : List Byte) : Option (Option Nat) :=
  (THHMSI.findS table s).map fun p => p.map fun p => toWord ((table.dict p).value + 1)

variable {table : HashTable THHashString Int}

/-- A name that the table takes. -/
def Legal (name : List Byte) : Prop := 0 ∉ name ∧ name.length < 256

theorem hashString_legal {name : List Byte} (legal : Legal name) :
    ∃ key, THHMSI.hashString name = some key ∧ key.bytes = name :=
  ⟨⟨name, legal.1, legal.2⟩, dif_pos legal, rfl⟩

/-- The table holds the names with their places. -/
theorem fillTable_contents {names : List (List Byte)} {i : Int}
    (tallied : Tallied THHMSI.hash table) (small : table.dictSize < pathSize)
    (room : table.count.toNat + names.length ≤ table.dictSize) (legal : ∀ name ∈ names, Legal name)
    (nodup : names.Nodup) (fresh : ∀ key, key.bytes ∈ names → contents table key = none) :
    ∃ table', fillTable table i names = some table' ∧ Tallied THHMSI.hash table' ∧
      ∀ key, contents table' key =
        if key.bytes ∈ names then some (i + (names.idxOf key.bytes : Nat))
        else contents table key := by
  induction names generalizing table i with
  | nil => exact ⟨table, rfl, tallied, fun key => (if_neg List.not_mem_nil).symm⟩
  | cons name names ih =>
      rw [List.nodup_cons] at nodup
      rw [List.length_cons] at room
      obtain ⟨key, key_eq, rfl⟩ := hashString_legal (legal name List.mem_cons_self)
      obtain ⟨next, added, tallied', contents_eq, size_eq, count_eq⟩ :=
        tallied.add_fresh small (by omega) (fresh key List.mem_cons_self) i
      have fresh' (other : THHashString) (later : other.bytes ∈ names) :
          contents next other = none := by
        have apart : other ≠ key := by
          rintro rfl
          exact nodup.1 later
        rw [contents_eq, Function.update_of_ne apart]
        exact fresh other (List.mem_cons_of_mem _ later)
      obtain ⟨table', filled, tallied'', contents_eq'⟩ :=
        ih (i := i + 1) tallied' (size_eq ▸ small) (by omega)
          (fun name later => legal name (List.mem_cons_of_mem _ later)) nodup.2 fresh'
      refine ⟨table', ?_, tallied'', ?_⟩
      · rw [fillTable, THHMSI.addS, key_eq, Option.bind_some, THHMSI.add_eq tallied.valid, added]
        exact filled
      · intro other
        rw [contents_eq', contents_eq]
        rcases eq_or_ne other key with rfl | apart
        · rw [if_neg nodup.1, if_pos List.mem_cons_self, Function.update_self,
            List.idxOf_cons_self, Int.natCast_zero, Int.add_zero]
        · have bytes_ne : other.bytes ≠ key.bytes := fun same => apart (THHashString.ext same)
          have mem_iff : other.bytes ∈ key.bytes :: names ↔ other.bytes ∈ names := by
            rw [List.mem_cons, or_iff_right bytes_ne]
          simp only [mem_iff, Function.update_of_ne apart, List.idxOf_cons_ne names bytes_ne.symm]
          split
          · congr 1
            omega
          · rfl

theorem months_legal : ∀ name ∈ months, Legal name := by
  unfold Legal
  decide

theorem months_nodup : months.Nodup := by decide

/-- The months stand in their table with their places. -/
theorem monthTable_contents (memory : Dict THHashString Int) :
    ∃ table, monthTable memory = some table ∧ Valid THHMSI.hash table ∧
      ∀ key, contents table key =
        if key.bytes ∈ months then some ((months.idxOf key.bytes : Nat) : Int) else none := by
  have size_eq : normalize 12 32 1 = some 16 := by decide
  obtain ⟨start, built, dictSize_eq, count_eq⟩ : ∃ start, THHMSI.new 12 memory = some start ∧
      start.dictSize = 16 ∧ start.count = 0 := by
    rw [THHMSI.new, size_eq]
    exact ⟨_, rfl, rfl, rfl⟩
  obtain ⟨raw, rfl, raw_size, bounded, free⟩ := new_eq_clear (THHMSI.new_eq built)
  obtain ⟨table, filled, tallied, contents_eq⟩ :=
    fillTable_contents (i := 0) (Tallied.clear raw_size bounded free)
      (dictSize_eq ▸ (by decide : 16 < pathSize)) (by rw [dictSize_eq, count_eq]; decide)
      months_legal months_nodup fun key _ => contents_clear raw key
  refine ⟨table, ?_, tallied.valid, ?_⟩
  · rw [monthTable, built]
    exact filled
  · intro key
    rw [contents_eq, contents_clear, Int.zero_add]

/-- `TryStrToMonth` finds the number of a name. -/
theorem tryStrToMonth_eq (memory : Dict THHashString Int) :
    ∃ table, monthTable memory = some table ∧ ∀ name, Legal name → tryStrToMonth table name =
      some (if name ∈ months then some (months.idxOf name + 1) else none) := by
  obtain ⟨table, filled, valid, contents_eq⟩ := monthTable_contents memory
  refine ⟨table, filled, ?_⟩
  intro name legal
  obtain ⟨key, key_eq, rfl⟩ := hashString_legal legal
  have found := valid.lookup_eq key
  rw [lookup, contents_eq] at found
  rw [tryStrToMonth, THHMSI.findS, key_eq, Option.bind_some]
  obtain ⟨p, find_eq, value_eq⟩ := Option.map_eq_some_iff.mp found
  have months_eq : (p.map fun p => toWord ((table.dict p).value + 1)) =
      (p.map fun p => (table.dict p).value).map fun value => toWord (value + 1) := by
    rw [Option.map_map]
    rfl
  rw [THHMSI.find, find_eq, Option.map_some, months_eq, value_eq]
  split
  · rename_i among
    have place := List.idxOf_lt_length_of_mem among
    rw [show months.length = 12 from rfl] at place
    rw [Option.map_some, show toWord (((months.idxOf key.bytes : Nat) : Int) + 1) = _ from
      toWord_eq (by omega : months.idxOf key.bytes + 1 < 65536)]
  · rfl

end DateUtils
end CommonLib
