import Mathlib.Algebra.Group.Nat.Defs
import Mathlib.Data.List.Basic
import Mathlib.Data.List.Nodup
import CommonLib.Library.Execution

/-!
# The pointer vector of `vector.c`

A vector of pointers to heap elements stands for a list.  `vector_delete` overwrites one cell as
often as cells should move, and releases the last element in place of the deleted one.
-/

namespace CommonLib
namespace DataStruct

open Execution

/-- `vector`; an element is a block of the heap, and `none` is `NULL`. -/
structure Vector (α : Type) where
  data : Nat → Option α
  size : Nat
  count : Nat

namespace Vector

variable {α : Type}

/-! ## The operations -/

/-- `INITIAL_VECTOR_SIZE`. -/
def initialSize : Nat := 4

/-- `vector_init`; `memory` is behind the cells that are set to zero. -/
def vectorInit (memory : Nat → Option α) : Vector α where
  data := fun i => if i < initialSize then none else memory i
  size := initialSize
  count := 0

def write (v : Vector α) (i : Nat) (e : Option α) : Vector α :=
  { v with data := Function.update v.data i e }

/-- `vector_add`, whose `realloc` is not checked and succeeds; twice the size must be an `int`. -/
def vectorAdd (v : Vector α) (e : α) : Option (Vector α) :=
  if v.size = v.count then
    if v.size * 2 < 2 ^ 31 then
      some { v.write v.count (some e) with size := v.size * 2, count := v.count + 1 }
    else none
  else some { v.write v.count (some e) with count := v.count + 1 }

/-- The test of the other functions. -/
def OutOfRange (v : Vector α) (index : Int) : Prop := index ≥ v.count ∨ index < 0

instance (v : Vector α) (index : Int) : Decidable (v.OutOfRange index) :=
  inferInstanceAs (Decidable (_ ∨ _))

def vectorSet (v : Vector α) (index : Int) (e : α) : Int × Vector α :=
  if v.OutOfRange index then (-1, v) else (index, v.write index.toNat (some e))

def vectorGet (v : Vector α) (index : Int) : Option α :=
  if v.OutOfRange index then none else v.data index.toNat

/-- The loop of `vector_delete`. -/
def deleteLoop (index : Nat) : Nat → Vector α → Vector α
  | 0, v => v
  | turns + 1, v => deleteLoop index turns (v.write index (v.data (index + 1)))

/-- `vector_delete`, with the arguments of `free`. -/
def vectorDelete (v : Vector α) (index : Int) : Vector α × List (Option α) :=
  if v.OutOfRange index then (v, [])
  else
    let v := deleteLoop index.toNat (v.count - 1 - index.toNat) v
    let v := { v with count := v.count - 1 }
    (v, [v.data v.count])

/-- However often the loop writes, one cell is overwritten. -/
theorem deleteLoop_eq (v : Vector α) (index turns : Nat) :
    deleteLoop index turns v = if turns = 0 then v else v.write index (v.data (index + 1)) := by
  induction turns generalizing v with
  | zero => rfl
  | succ turns ih =>
      rw [deleteLoop, ih, if_neg (Nat.succ_ne_zero turns)]
      split
      · rfl
      · have next : (v.write index (v.data (index + 1))).data (index + 1) = v.data (index + 1) :=
          Function.update_of_ne (Nat.succ_ne_self index) ..
        rw [next]
        simp only [write, Function.update_idem]

end Vector

/-! ## Runs -/

/-- A vector beside the list that it should stand for.  `freed` are the arguments of `free` and
`removed` the elements which the list operations delete; `used` are all elements of the run. -/
structure VectorRun (α : Type) where
  vector : Vector α
  freed : List (Option α)
  elements : List α
  removed : List α
  used : List α
  /-- The size went over the largest `int`. -/
  overflow : Bool

namespace VectorRun

variable {α : Type}

inductive Op (α : Type)
  | add (e : α)
  | set (index : Int) (e : α)
  | get (index : Int)
  | delete (index : Int)

/-- The element that a call hands over. -/
def Op.element : Op α → Option α
  | .add e => some e
  | .set _ e => some e
  | .get _ => none
  | .delete _ => none

def start (memory : Nat → Option α) : VectorRun α :=
  { vector := .vectorInit memory, freed := [], elements := [], removed := [], used := [],
    overflow := false }

/-- The element of a list at an index that may be out of range. -/
def listGet (elements : List α) (index : Int) : Option α :=
  if index < 0 then none else elements[index.toNat]?

def listSet (elements : List α) (index : Int) (e : α) : List α :=
  if index < 0 then elements else elements.set index.toNat e

def listDelete (elements : List α) (index : Int) : List α :=
  if index < 0 then elements else elements.eraseIdx index.toNat

/-- A call of the vector and the same operation of the list. -/
def step (state : VectorRun α) : Op α → Option (VectorRun α)
  | .add e =>
      let next :=
        { state with elements := state.elements ++ [e], used := e :: state.used }
      match state.vector.vectorAdd e with
      | some vector => some { next with vector }
      | none => some { next with overflow := true }
  | .set index e => some
      { state with
        vector := (state.vector.vectorSet index e).2
        elements := listSet state.elements index e
        used := e :: state.used }
  | .get _ => some state
  | .delete index =>
      let (vector, freed) := state.vector.vectorDelete index
      some
        { state with
          vector
          freed := state.freed ++ freed
          elements := listDelete state.elements index
          removed := state.removed ++ (listGet state.elements index).toList }

theorem step_delete_eq (state : VectorRun α) (index : Int) :
    state.step (.delete index) = some
      { state with
        vector := (state.vector.vectorDelete index).1
        freed := state.freed ++ (state.vector.vectorDelete index).2
        elements := listDelete state.elements index
        removed := state.removed ++ (listGet state.elements index).toList } :=
  rfl

/-- `vector_get` answers as the list, the elements removed from the list are freed and no others,
and no freed element is in the vector. -/
structure Refines (state : VectorRun α) : Prop where
  defined : state.overflow = false
  get : ∀ index, state.vector.vectorGet index = listGet state.elements index
  freed : state.freed = state.removed.map some
  alive : ∀ index e, state.vector.vectorGet index = some e → some e ∉ state.freed

/-- A delete is out of range or takes the last element, and an element is added to fewer than 2^30
others. -/
def Keeps (state : VectorRun α) : Op α → Prop
  | .add _ => state.vector.count < 2 ^ 30
  | .set _ _ => True
  | .get _ => True
  | .delete index => state.vector.OutOfRange index ∨ index + 1 = state.vector.count

instance decidableKeeps (state : VectorRun α) : (op : Op α) → Decidable (state.Keeps op)
  | .add _ => inferInstanceAs (Decidable (_ < _))
  | .set _ _ => isTrue trivial
  | .get _ => isTrue trivial
  | .delete _ => inferInstanceAs (Decidable (_ ∨ _))

/-- An element that no earlier call handed over. -/
def Fresh (state : VectorRun α) (op : Op α) : Prop := ∀ e, op.element = some e → e ∉ state.used

/-- The cells hold the list, whose elements are distinct and not removed. -/
structure Inv (state : VectorRun α) : Prop where
  defined : state.overflow = false
  count : state.vector.count = state.elements.length
  cells : ∀ i, i < state.elements.length → state.vector.data i = state.elements[i]?
  size : ∃ k, state.vector.size = 2 ^ k ∧ k ≤ 30
  count_le : state.vector.count ≤ state.vector.size
  freed : state.freed = state.removed.map some
  distinct : (state.elements ++ state.removed).Nodup
  used : ∀ e ∈ state.elements ++ state.removed, e ∈ state.used

theorem outOfRange_iff {state : VectorRun α} (count : state.vector.count = state.elements.length)
    (index : Int) :
    state.vector.OutOfRange index ↔ index < 0 ∨ state.elements.length ≤ index.toNat := by
  rw [Vector.OutOfRange, count]
  omega

/-- The lists know the same indices as the vector. -/
theorem listGet_of_outOfRange {elements : List α} {index : Int}
    (outside : index < 0 ∨ elements.length ≤ index.toNat) : listGet elements index = none := by
  rw [listGet]
  split
  · rfl
  · exact List.getElem?_eq_none (by omega)

theorem listSet_of_outOfRange {elements : List α} {index : Int} (e : α)
    (outside : index < 0 ∨ elements.length ≤ index.toNat) :
    listSet elements index e = elements := by
  rw [listSet]
  split
  · rfl
  · exact List.set_eq_of_length_le (by omega)

theorem listDelete_of_outOfRange {elements : List α} {index : Int}
    (outside : index < 0 ∨ elements.length ≤ index.toNat) :
    listDelete elements index = elements := by
  rw [listDelete]
  split
  · rfl
  · exact List.eraseIdx_of_length_le (by omega)

namespace Inv

variable {state next : VectorRun α} {op : Op α}

theorem get (inv : Inv state) (index : Int) :
    state.vector.vectorGet index = listGet state.elements index := by
  rw [Vector.vectorGet]
  split
  · rename_i outside
    rw [outOfRange_iff inv.count] at outside
    exact (listGet_of_outOfRange outside).symm
  · rename_i inside
    rw [outOfRange_iff inv.count, not_or] at inside
    rw [listGet, if_neg inside.1]
    exact inv.cells _ (by omega)

theorem refines (inv : Inv state) : Refines state where
  defined := inv.defined
  get := inv.get
  freed := inv.freed
  alive index e stored := by
    rw [inv.get, listGet] at stored
    rw [inv.freed]
    intro freed
    obtain ⟨removed, among, same⟩ := List.mem_map.mp freed
    obtain rfl := Option.some.inj same
    split at stored
    · cases stored
    · exact (List.nodup_append.mp inv.distinct).2.2 removed (List.mem_of_getElem? stored) removed
        among rfl

/-- A fresh element beside some of the elements and the removed ones leaves all distinct. -/
theorem insert (inv : Inv state) {e : α} (fresh : e ∉ state.used) {elements kept : List α}
    (within : kept.Sublist (state.elements ++ state.removed))
    (placed : (elements ++ state.removed).Perm (e :: kept)) :
    (elements ++ state.removed).Nodup ∧
      ∀ other ∈ elements ++ state.removed, other ∈ e :: state.used := by
  constructor
  · rw [placed.nodup_iff, List.nodup_cons]
    exact ⟨fun stored => fresh (inv.used e (within.subset stored)), inv.distinct.sublist within⟩
  · intro other among
    rcases List.mem_cons.mp (placed.mem_iff.mp among) with rfl | old
    · exact List.mem_cons_self
    · exact List.mem_cons_of_mem _ (inv.used other (within.subset old))

theorem vectorAdd_eq (inv : Inv state) (e : α) :
    (state.vector.count < 2 ^ 30 → ∃ vector, state.vector.vectorAdd e = some vector ∧
      vector.data = Function.update state.vector.data state.vector.count (some e) ∧
      vector.count = state.vector.count + 1 ∧ vector.count ≤ vector.size ∧
      ∃ k, vector.size = 2 ^ k ∧ k ≤ 30) ∧
    (¬ state.vector.count < 2 ^ 30 → state.vector.vectorAdd e = none) := by
  obtain ⟨k, size_eq, k_le⟩ := inv.size
  have count_le := inv.count_le
  have size_le : state.vector.size ≤ 2 ^ 30 := by
    rw [size_eq]
    exact Nat.pow_le_pow_right (by decide) k_le
  rw [Vector.vectorAdd]
  constructor
  · intro room
    split
    · rename_i full
      rw [if_pos (by omega)]
      refine ⟨_, rfl, rfl, rfl, ?_, k + 1, ?_, ?_⟩
      · show state.vector.count + 1 ≤ state.vector.size * 2
        have positive : 0 < state.vector.size := by
          rw [size_eq]
          exact Nat.two_pow_pos k
        omega
      · show state.vector.size * 2 = 2 ^ (k + 1)
        rw [size_eq, Nat.pow_succ]
      · have exponent : 2 ^ k < 2 ^ 30 := by omega
        exact (Nat.pow_lt_pow_iff_right (by decide)).mp exponent
    · rename_i not_full
      refine ⟨_, rfl, rfl, rfl, ?_, k, size_eq, k_le⟩
      show state.vector.count + 1 ≤ state.vector.size
      omega
  · intro crowded
    rw [if_pos (by omega), if_neg (by omega)]

theorem step_add (inv : Inv state) {e : α} (fresh : e ∉ state.used)
    (room : state.vector.count < 2 ^ 30) (stepped : state.step (.add e) = some next) :
    Inv next := by
  obtain ⟨vector, added, data, count, count_le, size⟩ := (inv.vectorAdd_eq e).1 room
  rw [step, added] at stepped
  obtain rfl := Option.some.inj stepped
  have moved : (state.elements ++ [e] ++ state.removed).Perm
      (e :: (state.elements ++ state.removed)) := by
    rw [List.append_assoc]
    exact List.perm_middle
  refine
    { inv with
      count := ?_
      cells := ?_
      size
      count_le
      distinct := (inv.insert fresh (List.Sublist.refl _) moved).1
      used := (inv.insert fresh (List.Sublist.refl _) moved).2 }
  · rw [count, inv.count, List.length_append, List.length_singleton]
  · intro i i_lt
    rw [List.length_append, List.length_singleton] at i_lt
    rw [data, inv.count, Function.update_apply]
    split
    · rename_i last
      rw [last, List.getElem?_concat_length]
    · rw [List.getElem?_append_left (by omega)]
      exact inv.cells i (by omega)

theorem step_set (inv : Inv state) {index : Int} {e : α} (fresh : e ∉ state.used)
    (stepped : state.step (.set index e) = some next) : Inv next := by
  obtain rfl := Option.some.inj stepped
  have range := outOfRange_iff inv.count index
  rcases Decidable.em (state.vector.OutOfRange index) with outside | inside
  · have same : (state.vector.vectorSet index e).2 = state.vector := by
      rw [Vector.vectorSet, if_pos outside]
    rw [same, listSet_of_outOfRange e (range.mp outside)]
    exact { inv with used := fun other among => List.mem_cons_of_mem _ (inv.used other among) }
  · have written : (state.vector.vectorSet index e).2 =
        state.vector.write index.toNat (some e) := by
      rw [Vector.vectorSet, if_neg inside]
    rw [range, not_or, Int.not_lt, Nat.not_le] at inside
    have placed : (state.elements.set index.toNat e ++ state.removed).Perm
        (e :: (state.elements.take index.toNat ++
          (state.elements.drop (index.toNat + 1) ++ state.removed))) := by
      rw [List.set_eq_take_append_cons_drop, if_pos inside.2, List.append_assoc, List.cons_append]
      exact List.perm_middle
    have within : (state.elements.take index.toNat ++
        (state.elements.drop (index.toNat + 1) ++ state.removed)).Sublist
          (state.elements ++ state.removed) := by
      rw [← List.append_assoc, ← List.eraseIdx_eq_take_drop_succ]
      exact (List.eraseIdx_sublist ..).append (List.Sublist.refl _)
    rw [written, listSet, if_neg (Int.not_lt.mpr inside.1)]
    refine
      { inv with
        count := ?_
        cells := ?_
        distinct := (inv.insert fresh within placed).1
        used := (inv.insert fresh within placed).2 }
    · rw [List.length_set]
      exact inv.count
    · intro i i_lt
      rw [List.length_set] at i_lt
      dsimp only [Vector.write]
      rw [Function.update_apply, List.getElem?_set]
      split
      · rename_i here
        rw [if_pos here.symm, if_pos inside.2]
      · rename_i other
        rw [if_neg (Ne.symm other)]
        exact inv.cells i i_lt

/-- Deleting the last element is right: the loop does nothing. -/
theorem step_delete (inv : Inv state) {index : Int}
    (kept : state.vector.OutOfRange index ∨ index + 1 = state.vector.count)
    (stepped : state.step (.delete index) = some next) : Inv next := by
  have range := outOfRange_iff inv.count index
  rcases Decidable.em (state.vector.OutOfRange index) with outside | inside
  · have same : state.vector.vectorDelete index = (state.vector, []) := by
      rw [Vector.vectorDelete, if_pos outside]
    rw [step, same, listDelete_of_outOfRange (range.mp outside),
      listGet_of_outOfRange (range.mp outside)] at stepped
    obtain rfl := Option.some.inj stepped
    simpa using inv
  · have last := kept.resolve_left inside
    have count := inv.count
    have count_le := inv.count_le
    rw [range, not_or, Int.not_lt, Nat.not_le] at inside
    rcases List.eq_nil_or_concat state.elements with empty | ⟨front, e, elements_eq⟩
    · rw [empty] at inside
      exact absurd inside.2 (Nat.not_lt_zero _)
    · rw [List.concat_eq_append] at elements_eq
      have length_eq : state.elements.length = front.length + 1 := by
        rw [elements_eq, List.length_append, List.length_singleton]
      have place : index.toNat = front.length := by omega
      have stored : state.vector.data front.length = some e := by
        rw [inv.cells _ (by omega), elements_eq, List.getElem?_concat_length]
      have deleted : state.vector.vectorDelete index =
          ({ state.vector with count := front.length }, [some e]) := by
        rw [Vector.vectorDelete, if_neg (by rw [range]; omega), Vector.deleteLoop_eq,
          if_pos (by omega)]
        simp only [count, length_eq, Nat.add_sub_cancel, stored]
      have got : listGet state.elements index = some e := by
        rw [listGet, if_neg (by omega), place, elements_eq, List.getElem?_concat_length]
      have shortened : listDelete state.elements index = front := by
        rw [listDelete, if_neg (by omega), place, elements_eq,
          List.eraseIdx_append_of_length_le (Nat.le_refl _), Nat.sub_self]
        exact List.append_nil front
      rw [step, deleted, got, shortened] at stepped
      obtain rfl := Option.some.inj stepped
      have moved : (front ++ (state.removed ++ [e])).Perm (state.elements ++ state.removed) := by
        rw [elements_eq, List.append_assoc]
        exact (List.perm_append_comm).append_left front
      refine
        { inv with
          count := rfl
          cells := ?_
          count_le := ?_
          freed := ?_
          distinct := moved.nodup_iff.mpr inv.distinct
          used := fun other among => inv.used other (moved.mem_iff.mp among) }
      · intro i i_lt
        dsimp only at i_lt ⊢
        rw [inv.cells i (by omega), elements_eq, List.getElem?_append_left i_lt]
      · show front.length ≤ state.vector.size
        omega
      · simp only [inv.freed, Option.toList_some, List.map_append, List.map_cons, List.map_nil]

theorem step (inv : Inv state) (fresh : state.Fresh op) (kept : state.Keeps op)
    (stepped : state.step op = some next) : Inv next := by
  cases op with
  | add e => exact inv.step_add (fresh e rfl) kept stepped
  | set index e => exact inv.step_set (fresh e rfl) stepped
  | get index =>
      obtain rfl := Option.some.inj stepped
      exact inv
  | delete index => exact inv.step_delete kept stepped

/-- An add that needs too large a block is not defined; a delete in front of the last element frees
the last one. -/
theorem broken (inv : Inv state) (violated : ¬ state.Keeps op)
    (stepped : state.step op = some next) : ¬ Refines next := by
  intro refines
  cases op with
  | add e =>
      rw [VectorRun.step, (inv.vectorAdd_eq e).2 violated] at stepped
      obtain rfl := Option.some.inj stepped
      have defined := refines.defined
      cases defined
  | set index e => exact violated trivial
  | get index => exact violated trivial
  | delete index =>
      have count := inv.count
      rw [Keeps, not_or, outOfRange_iff count, not_or, Int.not_lt, Nat.not_le] at violated
      obtain ⟨⟨low, high⟩, not_last⟩ := violated
      have last_lt : state.elements.length - 1 < state.elements.length := by omega
      have last_eq : state.vector.data (state.elements.length - 1) =
          some state.elements[state.elements.length - 1] := by
        rw [inv.cells _ last_lt, List.getElem?_eq_getElem last_lt]
      have deleted : (state.vector.vectorDelete index).2 =
          [some state.elements[state.elements.length - 1]] := by
        rw [Vector.vectorDelete, if_neg (by rw [outOfRange_iff count]; omega), Vector.deleteLoop_eq,
          if_neg (by omega)]
        dsimp only [Vector.write]
        rw [count, Function.update_of_ne (by omega), last_eq]
      have got : listGet state.elements index = some state.elements[index.toNat] := by
        rw [listGet, if_neg (by omega), List.getElem?_eq_getElem high]
      rw [step_delete_eq] at stepped
      obtain rfl := Option.some.inj stepped
      have freed := refines.freed
      rw [deleted, got, inv.freed, List.map_append] at freed
      have same := Option.some.inj (List.singleton_inj.mp (List.append_cancel_left freed))
      have elements_distinct := (List.nodup_append.mp inv.distinct).1
      have index_eq := (elements_distinct.getElem_inj_iff).mp same
      omega

/-- Nothing is stored in a new vector. -/
theorem start (memory : Nat → Option α) : Inv (VectorRun.start memory) where
  defined := rfl
  count := rfl
  cells i i_lt := absurd i_lt (Nat.not_lt_zero i)
  size := ⟨2, rfl, by decide⟩
  count_le := Nat.zero_le _
  freed := rfl
  distinct := List.nodup_nil
  used e among := absurd among List.not_mem_nil

end Inv

/-! ## Distinct elements -/

/-- What a call adds to the elements in use. -/
theorem step_used {state next : VectorRun α} {op : Op α} (stepped : state.step op = some next)
    {e : α} (among : e ∈ next.used) : op.element = some e ∨ e ∈ state.used := by
  cases op with
  | add other =>
      have used : next.used = other :: state.used := by
        rw [step] at stepped
        split at stepped <;> (obtain rfl := Option.some.inj stepped; rfl)
      rw [used] at among
      exact (List.mem_cons.mp among).imp (fun same => congrArg some same.symm) id
  | set index other =>
      obtain rfl := Option.some.inj stepped
      exact (List.mem_cons.mp among).imp (fun same => congrArg some same.symm) id
  | get index =>
      obtain rfl := Option.some.inj stepped
      exact .inr among
  | delete index =>
      obtain rfl := Option.some.inj stepped
      exact .inr among

/-- Distinct elements are fresh when they are handed over. -/
theorem admissible_of_nodup {state : VectorRun α} {ops : List (Op α)}
    (distinct : (ops.filterMap Op.element).Nodup) (fresh : ∀ op ∈ ops, state.Fresh op) :
    Admissible step Fresh state ops := by
  induction ops generalizing state with
  | nil => trivial
  | cons op ops ih =>
      refine ⟨fresh op List.mem_cons_self,
        fun next stepped => ih ?_ fun later among e handed used => ?_⟩
      · exact distinct.sublist ((List.sublist_cons_self op ops).filterMap _)
      · rcases step_used stepped used with same | old
        · rw [List.filterMap_cons_some same, List.nodup_cons] at distinct
          exact distinct.1 (List.mem_filterMap.mpr ⟨later, among, handed⟩)
        · exact fresh later (List.mem_cons_of_mem _ among) e handed old

/-- The vector stands for the list throughout exactly when every delete is out of range or of the
last element and no element is added to 2^30 others. -/
theorem refines_iff_keeps (memory : Nat → Option α) (ops : List (Op α))
    (distinct : (ops.filterMap Op.element).Nodup) :
    AllStates step Refines (VectorRun.start memory) ops ↔
      AllSteps step Keeps (VectorRun.start memory) ops :=
  (admissible_of_nodup distinct fun _ _ _ _ => List.not_mem_nil).allStates_iff_allSteps Inv
    Inv.refines Inv.step (fun inv _ => inv.broken) (Inv.start memory)

/-- After the first of two elements is deleted, the vector holds the second, which is freed. -/
theorem delete_first :
    (run step (VectorRun.start fun _ => none) [.add 7, .add 8, .delete 0]).map
        (fun state => (state.vector.vectorGet 0, state.freed)) = some (some 8, [some 8]) ∧
      ¬ AllStates step Refines (VectorRun.start fun _ => none) [.add 7, .add 8, .delete 0] := by
  have ends : ∃ final, run step (VectorRun.start fun _ => none) [.add 7, .add 8, .delete 0] =
      some final ∧ final.vector.vectorGet 0 = some 8 ∧ final.freed = [some 8] :=
    ⟨_, rfl, rfl, rfl⟩
  obtain ⟨final, execution, got, freed⟩ := ends
  constructor
  · rw [execution, Option.map_some, got, freed]
  · intro throughout
    have dangling := (throughout.of_run execution).alive 0 8 got
    rw [freed] at dangling
    exact dangling List.mem_cons_self

/-- Two elements, of which the second is deleted. -/
theorem refines_delete_last : AllStates step Refines (VectorRun.start fun _ => none)
    [.add 7, .add 8, .delete 1, .get 0] :=
  (refines_iff_keeps (fun _ => none) [.add 7, .add 8, .delete 1, .get 0] (by decide)).mpr
    (by decide)

end VectorRun
end DataStruct
end CommonLib
