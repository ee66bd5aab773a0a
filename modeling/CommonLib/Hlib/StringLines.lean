import CommonLib.Library.Tracking
import CommonLib.Hlib.StringList

/-!
# The lines of a string list of `hclasses.cpp`

The operations of `TStringList` that take an index count through the linked list from its front.
They are compared with a list of strings, on which an index outside the list has no effect.
-/

namespace CommonLib
namespace TStringList

open Execution

/-! ## Operations -/

/-- `TStringList::Add`. -/
def add (list : TStringList) (s : List Byte) : Int × TStringList :=
  let buf := list.buf ++ [s]
  (buf.length, { list with buf })

/-- `TStringList::Insert`. -/
def insert (list : TStringList) (s : List Byte) : Int × TStringList :=
  let buf := s :: list.buf
  (buf.length, { list with buf })

/-- The loop of `IndexOf`. -/
def indexOfLoop (s : List Byte) : Int → List (List Byte) → Int
  | _, [] => -1
  | i, line :: rest => if line = s then i else indexOfLoop s (i + 1) rest

/-- `TStringList::IndexOf`. -/
def indexOf (list : TStringList) (s : List Byte) : Int := indexOfLoop s 0 list.buf

/-- The loop of `Delete`, in which nothing advances `i`. -/
def deleteLoop (index i : Int) : List (List Byte) → List (List Byte)
  | [] => []
  | line :: rest => if i = index then rest else line :: deleteLoop index i rest

/-- `TStringList::Delete`. -/
def delete (list : TStringList) (index : Int) : TStringList :=
  { list with buf := deleteLoop index 0 list.buf }

/-- `TStringList::Clear`. -/
def clear (list : TStringList) : TStringList := { list with buf := [] }

/-- `TStringList::Count`. -/
def count (list : TStringList) : Int := list.buf.length

/-- The loop of `Lines`. -/
def linesLoop (index : Int) : Int → List (List Byte) → List Byte
  | _, [] => []
  | i, line :: rest => if i = index then line else linesLoop index (i + 1) rest

/-- `TStringList::Lines`. -/
def lines (list : TStringList) (index : Int) : List Byte := linesLoop index 0 list.buf

/-- The loop of `SetLines`. -/
def setLinesLoop (index : Int) (s : List Byte) : Int → List (List Byte) → List (List Byte)
  | _, [] => []
  | i, line :: rest =>
      if i = index then s :: rest else line :: setLinesLoop index s (i + 1) rest

/-- `TStringList::SetLines`. -/
def setLines (list : TStringList) (index : Int) (s : List Byte) : TStringList :=
  { list with buf := setLinesLoop index s 0 list.buf }

/-- The loop of `AddStrings`, where `it` has passed so many lines of `AStrings`, which is another
list or, without one, the list that grows. -/
def addStringsLoop (AStrings : Option (List (List Byte))) :
    Nat → Nat → List (List Byte) → Option (List (List Byte))
  | 0, _, _ => none
  | turns + 1, it, buf =>
      match (AStrings.getD buf)[it]? with
      | none => some buf
      | some line => addStringsLoop AStrings turns (it + 1) (buf ++ [line])

/-- `TStringList::AddStrings`; each turn but the last passes a line. -/
def addStrings (list : TStringList) (AStrings : Option TStringList) : Option TStringList :=
  (addStringsLoop (AStrings.map (·.buf)) ((AStrings.getD list).buf.length + 1) 0 list.buf).map
    fun buf => { list with buf }

/-- A call; `AddStrings` gets another list or, without one, the list itself. -/
inductive Op
  | add (s : List Byte)
  | insert (s : List Byte)
  | delete (index : Int)
  | setLines (index : Int) (s : List Byte)
  | addStrings (AStrings : Option TStringList)
  | clear

/-- A call that does not return has no successor. -/
def step (list : TStringList) : Op → Option TStringList
  | .add s => some (list.add s).2
  | .insert s => some (list.insert s).2
  | .delete index => some (list.delete index)
  | .setLines index s => some (list.setLines index s)
  | .addStrings AStrings => list.addStrings AStrings
  | .clear => some list.clear

/-! ## A list of strings -/

/-- The line at an index, empty outside the list. -/
def lineAt (lines : List (List Byte)) (index : Int) : List Byte :=
  if 0 ≤ index then lines.getD index.toNat [] else []

/-- The index of the first line that is equal to a string, or -1. -/
def positionOf (lines : List (List Byte)) (s : List Byte) : Int :=
  if s ∈ lines then lines.idxOf s else -1

/-- What a call should make of a list of strings. -/
def intended (lines : List (List Byte)) : Op → List (List Byte)
  | .add s => lines ++ [s]
  | .insert s => s :: lines
  | .delete index => if 0 ≤ index then lines.eraseIdx index.toNat else lines
  | .setLines index s => if 0 ≤ index then lines.set index.toNat s else lines
  | .addStrings (some AStrings) => lines ++ AStrings.buf
  | .addStrings none => lines ++ lines
  | .clear => []

/-- The observers answer for a list of strings. -/
structure Agrees (list : TStringList) (strings : List (List Byte)) : Prop where
  count : list.count = strings.length
  lines : ∀ index, list.lines index = lineAt strings index
  indexOf : ∀ s, list.indexOf s = positionOf strings s

/-- Every call returns, and after each the list agrees with the strings. -/
def Refines (list : TStringList) (ops : List Op) : Prop :=
  Tracks step intended Agrees list list.buf ops

/-- `Delete` gets the first index or one outside the list, and `AddStrings` only gets the list
itself while that is empty. -/
def Provided (lines : List (List Byte)) : Op → Prop
  | .delete index => index ≤ 0 ∨ lines.length ≤ index
  | .addStrings none => lines = []
  | _ => True

/-! ## Loops -/

theorem indexOfLoop_eq (s : List Byte) (i : Int) (lines : List (List Byte)) :
    indexOfLoop s i lines = if s ∈ lines then i + lines.idxOf s else -1 := by
  induction lines generalizing i with
  | nil => rfl
  | cons line rest ih =>
      rw [indexOfLoop]
      by_cases here : line = s
      · rw [if_pos here, here, if_pos List.mem_cons_self, List.idxOf_cons_self]
        exact (Int.add_zero i).symm
      · rw [if_neg here, ih]
        by_cases later : s ∈ rest
        · rw [if_pos later, if_pos (List.mem_cons_of_mem line later), List.idxOf_cons_ne _ here]
          omega
        · have absent : s ∉ line :: rest := by
            rintro (_ | _)
            · exact here rfl
            · exact later ‹_›
          rw [if_neg later, if_neg absent]

theorem linesLoop_eq (index i : Int) (lines : List (List Byte)) :
    linesLoop index i lines = lineAt lines (index - i) := by
  induction lines generalizing i with
  | nil =>
      rw [linesLoop, lineAt]
      split <;> rfl
  | cons line rest ih =>
      rw [linesLoop, ih]
      by_cases here : i = index
      · rw [if_pos here, here, Int.sub_self]
        rfl
      · rw [if_neg here]
        simp only [lineAt]
        by_cases before : 0 ≤ index - (i + 1)
        · have next : (index - i).toNat = (index - (i + 1)).toNat + 1 := by omega
          rw [if_pos before, if_pos (by omega), next, List.getD_cons_succ]
        · rw [if_neg before, if_neg (by omega)]

theorem setLinesLoop_eq (index i : Int) (s : List Byte) (lines : List (List Byte)) :
    setLinesLoop index s i lines =
      if 0 ≤ index - i then lines.set (index - i).toNat s else lines := by
  induction lines generalizing i with
  | nil => simp [setLinesLoop]
  | cons line rest ih =>
      rw [setLinesLoop, ih]
      by_cases here : i = index
      · rw [if_pos here, here, Int.sub_self]
        rfl
      · rw [if_neg here]
        by_cases before : 0 ≤ index - (i + 1)
        · have next : (index - i).toNat = (index - (i + 1)).toNat + 1 := by omega
          rw [if_pos before, if_pos (by omega), next, List.set_cons_succ]
        · rw [if_neg before, if_neg (by omega)]

/-- The loop of `Delete` finds the first line or none. -/
theorem deleteLoop_eq (index : Int) (lines : List (List Byte)) :
    deleteLoop index 0 lines = if index = 0 then lines.tail else lines := by
  induction lines with
  | nil => simp [deleteLoop]
  | cons line rest ih =>
      rw [deleteLoop, ih]
      by_cases first : index = 0
      · rw [if_pos first.symm, if_pos first]
        rfl
      · rw [if_neg (Ne.symm first), if_neg first, if_neg first]

theorem addStringsLoop_other (other : List (List Byte)) {turns it : Nat}
    (enough : other.length - it < turns) (buf : List (List Byte)) :
    addStringsLoop (some other) turns it buf = some (buf ++ other.drop it) := by
  induction turns generalizing it buf with
  | zero => exact absurd enough (Nat.not_lt_zero _)
  | succ turns ih =>
      rw [addStringsLoop, Option.getD_some]
      cases passed : other[it]? with
      | none =>
          rw [List.drop_eq_nil_of_le (List.getElem?_eq_none_iff.mp passed), List.append_nil]
      | some line =>
          obtain ⟨inside, line_eq⟩ := List.getElem?_eq_some_iff.mp passed
          show addStringsLoop _ turns (it + 1) (buf ++ [line]) = _
          rw [ih (by omega), List.append_assoc, List.singleton_append,
            List.drop_eq_getElem_cons inside, line_eq]

/-- On the list itself the end moves on as fast as `it`. -/
theorem addStringsLoop_self (turns : Nat) {it : Nat} {buf : List (List Byte)}
    (inside : it < buf.length) : addStringsLoop none turns it buf = none := by
  induction turns generalizing it buf with
  | zero => rfl
  | succ turns ih =>
      rw [addStringsLoop, Option.getD_none, List.getElem?_eq_getElem inside]
      exact ih (by simp [inside])

theorem addStrings_other (list other : TStringList) :
    list.addStrings (some other) = some { list with buf := list.buf ++ other.buf } := by
  have run := addStringsLoop_other other.buf (Nat.lt_succ_self (other.buf.length - 0)) list.buf
  simp only [addStrings, Option.map_some, Option.getD_some]
  rw [show other.buf.length + 1 = (other.buf.length - 0).succ from rfl, run]
  rfl

theorem addStrings_self (list : TStringList) :
    list.addStrings none = if list.buf = [] then some list else none := by
  obtain ⟨buf, seperator⟩ := list
  cases buf with
  | nil => rfl
  | cons line rest =>
      have never := @addStringsLoop_self ((line :: rest).length + 1) 0 (line :: rest)
        (Nat.succ_pos rest.length)
      simp only [addStrings, Option.map_none, Option.getD_none, never,
        if_neg (List.cons_ne_nil _ _)]

/-! ## Refinement -/

variable {list : TStringList} {strings : List (List Byte)}

theorem agrees_buf (list : TStringList) : list.Agrees list.buf where
  count := rfl
  lines := fun index => by rw [lines, linesLoop_eq, Int.sub_zero]
  indexOf := fun s => by rw [indexOf, indexOfLoop_eq, Int.zero_add, positionOf]

/-- The observers tell the lines. -/
theorem agrees_iff : list.Agrees strings ↔ list.buf = strings := by
  constructor
  · rintro ⟨count_eq, lines_eq, -⟩
    have length_eq : list.buf.length = strings.length := by
      have := (agrees_buf list).count
      omega
    refine List.ext_getElem length_eq fun i inside inside' => ?_
    have line_eq := ((agrees_buf list).lines i).symm.trans (lines_eq i)
    simpa [lineAt, inside, inside'] using line_eq
  · rintro rfl
    exact agrees_buf list

/-- One call does what it should exactly if it is provided for. -/
theorem step_intended_iff (list : TStringList) (op : Op) :
    (∃ next, step list op = some next ∧ next.buf = intended list.buf op) ↔
      Provided list.buf op := by
  cases op with
  | add s => exact iff_of_true ⟨_, rfl, rfl⟩ trivial
  | insert s => exact iff_of_true ⟨_, rfl, rfl⟩ trivial
  | clear => exact iff_of_true ⟨_, rfl, rfl⟩ trivial
  | setLines index s =>
      refine iff_of_true ⟨_, rfl, ?_⟩ trivial
      simp only [setLines, setLinesLoop_eq, Int.sub_zero, intended]
  | delete index =>
      simp only [step, Option.some.injEq, exists_eq_left', delete, deleteLoop_eq, intended,
        Provided]
      by_cases first : index = 0
      · rw [if_pos first, first, if_pos (Int.le_refl 0)]
        simp
      · rw [if_neg first]
        by_cases positive : 0 ≤ index
        · rw [if_pos positive, eq_comm, List.eraseIdx_eq_self]
          omega
        · rw [if_neg positive]
          exact iff_of_true rfl (.inl (by omega))
  | addStrings AStrings =>
      cases AStrings with
      | some other =>
          exact iff_of_true ⟨_, addStrings_other list other, rfl⟩ trivial
      | none =>
          simp only [step, addStrings_self, intended, Provided]
          by_cases empty : list.buf = []
          · simp [empty]
          · simp [empty]

/-- The list of strings is refined by exactly those runs whose calls are provided for. -/
theorem refines_iff (list : TStringList) (ops : List Op) :
    list.Refines ops ↔ ∀ front op back, ops = front ++ op :: back →
      Provided (front.foldl intended list.buf) op := by
  refine tracks_iff Provided (fun {state strings} op agrees => ?_) (agrees_buf list) ops
  obtain rfl := agrees_iff.mp agrees
  simp only [agrees_iff]
  exact step_intended_iff state op

/-- `Delete(1)` on two lines. -/
theorem delete_keeps_second :
    (delete ⟨[[97], [98]], [61]⟩ 1).count = 2 ∧
      ¬ ∀ (list : TStringList) (ops : List Op), list.Refines ops := by
  refine ⟨rfl, fun refines => ?_⟩
  obtain ⟨state, made, agrees⟩ := refines ⟨[[97], [98]], [61]⟩ [.delete 1] [.delete 1] [] rfl
  obtain rfl : delete ⟨[[97], [98]], [61]⟩ 1 = state := Option.some.inj made
  exact absurd agrees.count (by decide)

end TStringList
end CommonLib
