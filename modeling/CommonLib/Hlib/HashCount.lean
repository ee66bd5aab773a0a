import CommonLib.Hlib.HashMap

/-!
# The element accounting of the hash table

While no element is released onto a full stack, the stack lists every free element and `m_nCount` is
the number of the used ones.  `ReleaseBuffer`, which is called when the stack is full, lowers
`m_nCount` for the entries that it sweeps out of the stack.
-/

namespace CommonLib
namespace HashTable

variable {κ β : Type}

/-! ## Counting -/

/-- The number of used elements. -/
def usedCount (table : HashTable κ β) : Nat :=
  (List.range table.dictSize).countP fun a => (table.dict a).isUsing

theorem countP_insert {first second : Nat → Bool} {n size : Nat} (n_lt : n < size)
    (fresh : first n = false)
    (second_iff : ∀ a < size, second a = true ↔ a = n ∨ first a = true) :
    (List.range size).countP second = (List.range size).countP first + 1 := by
  induction size with
  | zero => cases n_lt
  | succ size induction =>
      have last (f : Nat → Bool) : (List.range (size + 1)).countP f =
          (List.range size).countP f + if f size = true then 1 else 0 := by
        rw [List.range_succ, List.countP_append, List.countP_singleton]
      rw [last, last]
      by_cases same : n = size
      · subst same
        have congr : (List.range n).countP second = (List.range n).countP first :=
          List.countP_congr fun a among => by
            have a_lt := List.mem_range.mp among
            rw [second_iff a (by omega), or_iff_right (by omega)]
        rw [congr, if_pos ((second_iff n n_lt).mpr (.inl rfl)), fresh]
        rfl
      · have earlier := induction (by omega) fun a a_lt => second_iff a (by omega)
        have bit : (if second size = true then 1 else 0) = if first size = true then 1 else 0 := by
          refine if_congr ?_ rfl rfl
          rw [second_iff size (by omega), or_iff_right fun eq => same eq.symm]
        rw [earlier, bit]
        omega

theorem usedCount_le (table : HashTable κ β) : table.usedCount ≤ table.dictSize := by
  rw [usedCount]
  exact List.countP_le_length.trans_eq List.length_range

theorem usedCount_lt_iff {table : HashTable κ β} :
    table.usedCount < table.dictSize ↔
      ∃ a < table.dictSize, (table.dict a).isUsing = false := by
  have full_iff : table.usedCount = table.dictSize ↔
      ∀ a < table.dictSize, (table.dict a).isUsing = true := by
    have all := (List.range table.dictSize).countP_eq_length (p := fun a => (table.dict a).isUsing)
    rw [List.length_range] at all
    rw [usedCount, all]
    exact forall_congr' fun a => by rw [List.mem_range]
  have le := table.usedCount_le
  rw [lt_iff_le_and_ne, and_iff_right le, Ne, full_iff]
  simp only [not_forall, exists_prop, Bool.not_eq_true]

variable [LinearOrder κ] {hash : κ → Nat} {table table' : HashTable κ β}

theorem Valid.size_lt (valid : Valid hash table) : table.dictSize < 2 ^ 31 := by
  have bounded := valid.bounded
  rw [elementSize] at bounded
  omega

/-! ## Accounting -/

/-- What the callers of the table rely on. -/
structure Accounted (hash : κ → Nat) (table : HashTable κ β) : Prop where
  count_eq : table.count.toNat = table.usedCount
  overflow_iff : ∀ key value,
    (∃ table', table.add hash key value = some (.harOverflow, table')) ↔
      table.usedCount = table.dictSize
  obtains : (∃ a < table.dictSize, (table.dict a).isUsing = false) →
    ∃ p freeBuffer, table.takeFree = some (p, freeBuffer) ∧ p < table.dictSize ∧
      (table.dict p).isUsing = false
  adds : (∃ a < table.dictSize, (table.dict a).isUsing = false) →
    ∀ key value, contents table key = none →
      ∀ result table', table.add hash key value = some (result, table') → result = .harOK

/-- The invariant of the calls which find a place on the stack. -/
structure Tallied (hash : κ → Nat) (table : HashTable κ β) : Prop where
  valid : Valid hash table
  listed : table.Listed
  count_eq : table.count.toNat = table.usedCount

theorem Tallied.count_eq_size (tallied : Tallied hash table) :
    table.count = UInt32.ofNat table.dictSize ↔ table.usedCount = table.dictSize := by
  have size_lt := tallied.valid.size_lt
  rw [← UInt32.toNat_inj, tallied.count_eq, UInt32.toNat_ofNat', Nat.mod_eq_of_lt (by omega)]

theorem Tallied.accounted (tallied : Tallied hash table) : Accounted hash table where
  count_eq := tallied.count_eq
  overflow_iff := fun key value => by
    rw [← tallied.count_eq_size]
    constructor
    · rintro ⟨table', added⟩
      cases tallied.valid.addSpec added with
      | overflow full => exact full
    · intro full
      exact ⟨table, by rw [add, if_pos full]⟩
  obtains := fun ⟨a, a_lt, free⟩ => by
    obtain ⟨p, freeBuffer, taken, -⟩ := tallied.listed.takeFree a_lt free
    obtain ⟨free', -, lt⟩ := takeFree_some tallied.valid.inside taken
    exact ⟨p, freeBuffer, taken, lt p (.head _), free'⟩
  adds := fun free key value absent result table' added => by
    have less := usedCount_lt_iff.mpr free
    cases tallied.valid.addSpec added with
    | overflow full => exact absurd (tallied.count_eq_size.mp full) less.ne
    | dupKey notFull present =>
        obtain ⟨v, stored⟩ := present
        exact absurd stored (contents_eq_none.mp absent v)
    | ok => rfl

/-! ## Calls -/

/-- The call does not release an element onto a full stack. -/
def HasPlace (table : HashTable κ β) : Op κ β → Prop
  | .remove key => (contents table key).isSome = true → table.freeBuffer.isFull = false
  | _ => True

instance decidableHasPlace (table : HashTable κ β) : (op : Op κ β) → Decidable (HasPlace table op)
  | .remove key => inferInstanceAs
      (Decidable ((contents table key).isSome = true → table.freeBuffer.isFull = false))
  | .add _ _ => isTrue trivial
  | .clear => isTrue trivial

theorem Tallied.added (tallied : Tallied hash table) {key : κ} {value : β}
    {result : THHashAddResult}
    (spec : AddSpec table (fun key => table.slot (hash key)) key value result table') :
    Tallied hash table' := by
  refine ⟨tallied.valid.added spec, ?_, ?_⟩
  · cases spec with
    | overflow full => exact tallied.listed
    | dupKey notFull present => exact tallied.listed
    | @ok n dict' freeBuffer notFull absent entered taken =>
        intro a a_lt free
        have isUsing_iff := entered.isUsing a a_lt
        rw [show (dict' a).isUsing = false from free] at isUsing_iff
        simp only [Bool.false_eq_true, false_iff, not_or, Bool.not_eq_true] at isUsing_iff
        rcases taken with rfl | taken
        · exact tallied.listed a a_lt isUsing_iff.2
        · obtain ⟨p, freeBuffer', taken', rest⟩ := tallied.listed.takeFree a_lt isUsing_iff.2
          obtain ⟨rfl, rfl⟩ := Prod.mk.inj (Option.some.inj (taken'.symm.trans taken))
          exact rest a a_lt isUsing_iff.2 isUsing_iff.1
  · cases spec with
    | overflow full => exact tallied.count_eq
    | dupKey notFull present => exact tallied.count_eq
    | @ok n dict' freeBuffer notFull absent entered taken =>
        have counted : (List.range table.dictSize).countP (fun a => (dict' a).isUsing) =
            table.usedCount + 1 := countP_insert entered.lt entered.free entered.isUsing
        have le := table.usedCount_le
        have size_lt := tallied.valid.size_lt
        refine Eq.trans ?_ counted.symm
        rw [UInt32.toNat_add, tallied.count_eq]
        exact Nat.mod_eq_of_lt (by simp; omega)

theorem Tallied.removed (tallied : Tallied hash table) {key : κ} {removed : Bool}
    (spec : RemoveSpec table (fun key => table.slot (hash key)) key removed table')
    (place : (contents table key).isSome = true → table.freeBuffer.isFull = false) :
    Tallied hash table' := by
  have valid' := tallied.valid.removed spec
  cases spec with
  | absent absent => exact tallied
  | @removed p released dict' present same vacated =>
      obtain ⟨v, stored⟩ := present
      have notFull := place (by rw [tallied.valid.contents_eq_some.mpr stored]; rfl)
      have notFull' : ({ table with dict := released } : HashTable κ β).freeBuffer.isFull = false :=
        notFull
      obtain ⟨items_eq, count_eq⟩ := releaseNode_of_not_full notFull' p
      have size_eq := (releaseNode_size { table with dict := released } p).1
      refine ⟨valid', fun a a_lt free => ?_, ?_⟩
      · simp only [size_eq] at a_lt
        simp only [items_eq]
        have isUsing_iff := vacated.isUsing a a_lt
        rw [show (dict' a).isUsing = false from free] at isUsing_iff
        by_cases atP : a = p
        · rw [atP]
          exact .head _
        · refine .tail _ (tallied.listed a a_lt ?_)
          simpa [atP] using isUsing_iff
      · have counted : table.usedCount =
            (List.range table.dictSize).countP (fun a => (dict' a).isUsing) + 1 := by
          refine countP_insert vacated.lt ?_ fun a a_lt => ?_
          · simpa using vacated.isUsing p vacated.lt
          · rw [vacated.isUsing a a_lt]
            have used := vacated.used
            by_cases atP : a = p
            · simp [atP, used]
            · simp [atP]
        simp only [count_eq, usedCount, size_eq]
        have le : (1 : UInt32) ≤ table.count := by
          rw [UInt32.le_iff_toNat_le, tallied.count_eq, counted]
          simp
        rw [UInt32.toNat_sub_of_le _ _ le, tallied.count_eq, counted]
        simp

theorem Tallied.clear (size_eq : ∃ r, table.dictSize = 2 ^ r ∧ table.mask = 2 ^ r - 1)
    (bounded : table.dictSize * elementSize < 2 ^ 32)
    (room : table.freeBuffer.size = table.dictSize * 2) : Tallied hash table.clear where
  valid := Valid.clear size_eq bounded room
  listed := fun a a_lt _ => by
    rw [(clear_items room).1]
    exact List.mem_reverse.mpr (List.mem_range.mpr a_lt)
  count_eq := by
    refine (List.countP_eq_zero.mpr fun a among => ?_).symm
    have a_lt := List.mem_range.mp among
    simp only [HashTable.clear] at a_lt ⊢
    rw [resetRange_apply, if_pos a_lt]
    exact Bool.false_ne_true

theorem Tallied.step (tallied : Tallied hash table) {op : Op κ β} (place : HasPlace table op)
    (stepped : step hash table op = some table') : Tallied hash table' := by
  cases op with
  | add key value =>
      obtain ⟨⟨result, next⟩, added, rfl⟩ := Option.map_eq_some_iff.mp stepped
      exact tallied.added (tallied.valid.addSpec added)
  | remove key =>
      obtain ⟨⟨removed, next⟩, remove_eq, rfl⟩ := Option.map_eq_some_iff.mp stepped
      exact tallied.removed (tallied.valid.removeSpec remove_eq) place
  | clear =>
      obtain rfl := Option.some.inj stepped
      exact Tallied.clear tallied.valid.size_eq tallied.valid.bounded tallied.valid.room

/-- With a free element at hand and a path that fits, `Add` returns. -/
theorem Tallied.add_some (tallied : Tallied hash table)
    (free : ∃ a < table.dictSize, (table.dict a).isUsing = false) {trees : Nat → Tree Nat}
    (forest : Forest table.dict table.dictSize (fun key => table.slot (hash key)) trees) {key : κ}
    (fits : (trees (table.slot (hash key))).height < pathSize) (value : β) :
    ∃ result table', table.add hash key value = some (result, table') := by
  rcases add_spec forest (fun key => tallied.valid.slot_lt _) tallied.valid.inside key value with
    ⟨result, table', added, -⟩ | ⟨-, stuck | long⟩
  · exact ⟨result, table', added⟩
  · obtain ⟨p, freeBuffer, taken, -⟩ := tallied.accounted.obtains free
    rw [stuck] at taken
    cases taken
  · exact absurd fits (not_lt.mpr long)

/-- A run which never releases an element onto a full stack keeps the accounts. -/
theorem accounted_of_hasPlace {size : Nat} {memory : Dict κ β} {start : HashTable κ β}
    (built : new size memory = some start) {ops : List (Op κ β)}
    (met : Execution.AllSteps (step hash) HasPlace start ops) :
    Execution.AllStates (step hash) (Accounted hash) start ops := by
  obtain ⟨raw, rfl, size_eq, bounded, room⟩ := new_eq_clear built
  exact Execution.allStates_of_allSteps (Tallied hash) (fun tallied => tallied.accounted)
    (fun tallied place stepped => tallied.step place stepped) (Tallied.clear size_eq bounded room)
    met

end HashTable

namespace THHMII

open HashTable

variable {β : Type} {table : HashTable Int32 β}

/-- With a free element at hand, `Add` returns. -/
theorem add_returns (tallied : Tallied hash table)
    (free : ∃ a < table.dictSize, (table.dict a).isUsing = false) (key : Int32) (value : β) :
    ∃ result table', table.add hash key value = some (result, table') := by
  obtain ⟨trees, forest⟩ := tallied.valid.forest
  have fits := height_lt_pathSize tallied.valid forest (tallied.valid.slot_lt (hash key))
  exact tallied.add_some free forest fits value

/-- A table of four elements. -/
def four : HashTable Int32 Int := (new 4 blank).get (by decide +kernel)

theorem collisions_accounted :
    Execution.AllStates (step hash) (Accounted hash) four
      (collisions ++ [.remove 0, .remove 4, .add 12 1]) :=
  accounted_of_hasPlace (Option.some_get _).symm (by decide +kernel)

theorem crowded_not_accounted :
    ∃ table, Reachable hash 2 blank table ∧ ¬ Accounted hash table := by
  obtain ⟨table, after_eq⟩ : ∃ table, after 2 crowded = some table :=
    Option.isSome_iff_exists.mp (by decide +kernel)
  have counts : (after 2 crowded).map (fun table => (table.count.toNat, table.usedCount)) =
      some (0, 1) := by decide +kernel
  rw [after_eq, Option.map_some, Option.some.injEq, Prod.mk.injEq] at counts
  refine ⟨table, after_reachable after_eq, fun accounted => ?_⟩
  have count_eq := accounted.count_eq
  rw [counts.1, counts.2] at count_eq
  cases count_eq

end THHMII
end CommonLib
