import Mathlib.Logic.Function.Basic
import CommonLib.Hlib.PasUtils

/-!
# String lists of `hclasses.cpp`

`SetText` splits a text at a separator, and `SaveToFile` and `LoadFromFile` keep the lines in a
file.  Both readers treat what stands behind the last separator apart from the other fields.
-/

namespace CommonLib

open PasUtils Separator

/-- `TStringList`. -/
structure TStringList where
  buf : List (List Byte)
  seperator : List Byte

namespace TStringList

/-! ## Splitting -/

/-- The loop of `SetText`, where `none` stands for the `j` of -1.  A loop that takes more turns has
no result. -/
def setTextLoop (src sep : List Byte) (i : Nat) :
    Nat → Nat → Nat → Option Nat → List (List Byte) → Option (List (List Byte) × Option Nat)
  | 0, _, _, _, _ => none
  | turns + 1, pos, k, j, buf =>
      match find src sep pos with
      | none => some (buf, j)
      | some pos =>
          (substr src k (pos - k)).bind fun field =>
            setTextLoop src sep i turns (pos + i) (pos + i) (some pos) (buf ++ [field])

/-- `TStringList::SetText`; each turn but the last passes a byte of the text or its end. -/
def setText (list : TStringList) (src sep : List Byte) : Option TStringList :=
  let se := if sep = [] then list.seperator else sep
  let i := se.length
  (setTextLoop src sep i (src.length + 2) 0 0 none []).bind fun (buf, j) =>
    match j with
    | none => some { list with buf := buf ++ [src] }
    | some j =>
        let j := j + i
        if src.length > j + 1 then
          (substr src j (src.length - j)).map fun field => { list with buf := buf ++ [field] }
        else some { list with buf }

/-- The loop pushes the fields in front of a separator and finds the end of the last separator. -/
theorem setTextLoop_eq {src sep : List Byte} (nonempty : sep ≠ []) {turns pos : Nat}
    (inside : pos ≤ src.length) (enough : src.length - pos < turns) (j : Option Nat)
    (buf : List (List Byte)) {fields : List (List Byte)} {last : List Byte}
    (split_eq : split sep (src.drop pos) = fields ++ [last]) :
    ∃ j', setTextLoop src sep sep.length turns pos pos j buf = some (buf ++ fields, j') ∧
      (fields = [] → j' = j) ∧
      (fields ≠ [] → ∃ p, j' = some p ∧ p + sep.length ≤ src.length ∧
        src.drop (p + sep.length) = last) := by
  induction turns generalizing pos j buf fields with
  | zero => exact absurd enough (Nat.not_lt_zero _)
  | succ turns ih =>
      have positive := List.length_pos_iff.mpr nonempty
      rw [setTextLoop, find, if_pos inside]
      cases found : firstMatch sep (src.drop pos) with
      | none =>
          rw [split_of_none found] at split_eq
          obtain ⟨rfl, -⟩ := List.append_eq_singleton_iff.mp split_eq.symm |>.resolve_right
            (by simp)
          refine ⟨j, ?_, fun _ => rfl, fun some_field => absurd rfl some_field⟩
          rw [List.append_nil]
          rfl
      | some p =>
          obtain ⟨-, fits⟩ := firstMatch_eq_some found
          rw [List.length_drop] at fits
          obtain ⟨later, last', rest_eq⟩ := exists_split_eq sep (src.drop (pos + p + sep.length))
          have behind : (src.drop pos).drop (p + sep.length) = src.drop (pos + p + sep.length) := by
            rw [List.drop_drop, Nat.add_assoc]
          rw [split_of_some found nonempty, behind, rest_eq, ← List.cons_append] at split_eq
          obtain ⟨rfl, same⟩ := List.append_inj' split_eq rfl
          obtain rfl := List.singleton_inj.mp same
          have rest_inside : pos + p + sep.length ≤ src.length := by omega
          obtain ⟨j', run, unchanged, moved⟩ :=
            ih rest_inside (by omega) (some (pos + p)) (buf ++ [(src.drop pos).take p]) rest_eq
          refine ⟨j', ?_, fun no_field => absurd no_field (List.cons_ne_nil _ _), fun _ => ?_⟩
          · simp only [Option.map_some, substr_eq_some inside, Option.bind_some,
              Nat.add_sub_cancel_left]
            rw [run, List.append_assoc, List.singleton_append]
          · rcases later with _ | ⟨field, later⟩
            · refine ⟨pos + p, unchanged rfl, by omega, ?_⟩
              have alone := intercalate_split sep (src.drop (pos + p + sep.length))
              rw [rest_eq, List.nil_append, List.intercalate_singleton] at alone
              exact alone.symm
            · exact moved (List.cons_ne_nil _ _)

/-- `SetText` keeps the fields, but the last of several only if it has two bytes. -/
theorem setText_eq (list : TStringList) {src sep : List Byte} (nonempty : sep ≠ [])
    {fields : List (List Byte)} {last : List Byte} (split_eq : split sep src = fields ++ [last]) :
    list.setText src sep = some
      { list with buf := if fields = [] ∨ 2 ≤ last.length then fields ++ [last] else fields } := by
  obtain ⟨j', run, unchanged, moved⟩ :=
    setTextLoop_eq nonempty (Nat.zero_le src.length) (by omega : src.length - 0 < src.length + 2)
      none [] split_eq
  rw [List.nil_append] at run
  simp only [setText, if_neg nonempty, run, Option.bind_some]
  rcases fields with _ | ⟨field, fields⟩
  · obtain rfl := unchanged rfl
    have alone := intercalate_split sep src
    rw [split_eq, List.nil_append, List.intercalate_singleton] at alone
    simp [alone]
  · obtain ⟨p, rfl, inside, last_eq⟩ := moved (List.cons_ne_nil _ _)
    have last_length : last.length = src.length - (p + sep.length) := by
      rw [← last_eq, List.length_drop]
    have whole : (src.drop (p + sep.length)).take (src.length - (p + sep.length)) = last := by
      rw [last_eq, ← last_length, List.take_length]
    simp only [List.cons_ne_nil, false_or, substr_eq_some inside, Option.map_some, whole]
    split
    · rw [if_pos (by omega)]
    · rw [if_neg (by omega)]

/-- Joined again, the fields make up the text, but for one separator at its end. -/
def LosesNothing (src sep : List Byte) (result : Option TStringList) : Prop :=
  ∃ list, result = some list ∧
    (sep.intercalate list.buf = src ∨ sep.intercalate list.buf ++ sep = src)

/-- Nothing is lost exactly if there is one field or the last field does not have one byte. -/
theorem setText_losesNothing_iff (list : TStringList) (src : List Byte) {sep : List Byte}
    (nonempty : sep ≠ []) :
    LosesNothing src sep (list.setText src sep) ↔
      (split sep src).length = 1 ∨
        ∀ last, (split sep src).getLast? = some last → last.length ≠ 1 := by
  obtain ⟨fields, last, split_eq⟩ := exists_split_eq sep src
  have joined := intercalate_split sep src
  rw [setText_eq list nonempty split_eq]
  rw [split_eq] at joined ⊢
  simp only [LosesNothing, Option.some.injEq, exists_eq_left', List.getLast?_concat, forall_eq',
    List.length_append, List.length_singleton]
  rcases List.eq_nil_or_concat fields with rfl | ⟨_, _, fields_eq⟩
  · rw [if_pos (.inl rfl)]
    exact ⟨fun _ => .inl rfl, fun _ => .inl joined⟩
  · have several : fields ≠ [] := by
      rw [fields_eq]
      simp
    have count := List.length_pos_iff.mpr several
    rcases Nat.lt_or_ge last.length 2 with short | long
    · rw [if_neg (by rintro (none_left | long) <;> [exact several none_left; omega])]
      rw [intercalate_concat sep several] at joined
      constructor
      · intro kept
        refine .inr fun single => ?_
        have lengths := congrArg List.length joined
        simp only [List.length_append] at lengths
        have positive := List.length_pos_iff.mpr nonempty
        rcases kept with kept | kept
        · have same := congrArg List.length kept
          omega
        · have same := congrArg List.length kept
          rw [List.length_append] at same
          omega
      · rintro (single | not_one)
        · omega
        · obtain rfl : last = [] := List.eq_nil_of_length_eq_zero (by omega)
          rw [List.append_nil] at joined
          exact .inr joined
    · rw [if_pos (.inr long)]
      exact ⟨fun _ => .inr (by omega), fun _ => .inl joined⟩

/-- A text that ends in a separator. -/
theorem setText_losesNothing_trailing :
    LosesNothing [97, 44] [44] (setText ⟨[], [61]⟩ [97, 44] [44]) := by
  have found : firstMatch [44] ([97, 44] : List Byte) = some 1 := rfl
  have absent : firstMatch [44] ([] : List Byte) = none := rfl
  have split_eq : split [44] ([97, 44] : List Byte) = [[97], []] := by
    rw [split_of_some found (by decide), show List.drop _ ([97, 44] : List Byte) = [] from rfl,
      split_of_none absent]
    rfl
  refine (setText_losesNothing_iff ⟨[], [61]⟩ [97, 44] (by decide)).mpr (.inr ?_)
  rw [split_eq]
  simp

/-- The field `b` of `a,b` is lost. -/
theorem setText_loses_field :
    (setText ⟨[], [61]⟩ [97, 44, 98] [44]).map (·.buf) = some [[97]] ∧
      ¬ LosesNothing [97, 44, 98] [44] (setText ⟨[], [61]⟩ [97, 44, 98] [44]) := by
  have stored : setText ⟨[], [61]⟩ [97, 44, 98] [44] = some ⟨[[97]], [61]⟩ := rfl
  refine ⟨by rw [stored]; rfl, ?_⟩
  rintro ⟨list, list_eq, kept⟩
  rw [stored] at list_eq
  obtain rfl := Option.some.inj list_eq
  revert kept
  decide

/-! ## Files -/

/-- The contents of the files, by name. -/
abbrev Files := List Byte → Option (List Byte)

/-- `TStringList::SaveToFile`, where the file can be written. -/
def saveToFile (list : TStringList) (files : Files) (filename : List Byte) : Files :=
  Function.update files filename (some (list.buf.flatMap (· ++ [10])))

/-- One turn of the loop of `LoadFromFile`, on the text in `ss`. -/
def loadChar (ch : Byte) (list : TStringList) (ss : List Byte) : TStringList × List Byte :=
  if ch = 13 then (list, ss)
  else if ch = 10 then ({ list with buf := list.buf ++ [ss] }, [])
  else (list, ss ++ [ch])

/-- The loop of `LoadFromFile`.  `feof` holds only after `fgetc` has found the end, and then `ch` is
the low byte of `EOF`. -/
def loadLoop : List Byte → TStringList → List Byte → TStringList × List Byte
  | [], list, ss => loadChar 0xFF list ss
  | ch :: rest, list, ss =>
      let (list, ss) := loadChar ch list ss
      loadLoop rest list ss

/-- `TStringList::LoadFromFile`, where a file that exists can be read. -/
def loadFromFile (list : TStringList) (files : Files) (filename : List Byte) :
    Bool × TStringList :=
  match files filename with
  | none => (false, list)
  | some content =>
      let (list, cache) := loadLoop content list []
      (true, if cache.length > 0 then { list with buf := list.buf ++ [cache] } else list)

/-- No line holds a CR or LF byte. -/
def Clean (list : TStringList) : Prop := ∀ line ∈ list.buf, 13 ∉ line ∧ 10 ∉ line

/-- A line with its end is read as it was. -/
theorem loadLoop_line {line : List Byte} (clean : 13 ∉ line ∧ 10 ∉ line) (rest : List Byte)
    (list : TStringList) (ss : List Byte) :
    loadLoop (line ++ 10 :: rest) list ss =
      loadLoop rest { list with buf := list.buf ++ [ss ++ line] } [] := by
  induction line generalizing ss with
  | nil =>
      rw [List.append_nil]
      rfl
  | cons ch line ih =>
      obtain ⟨no_return, no_feed⟩ := clean
      simp only [List.mem_cons, not_or] at no_return no_feed
      rw [List.cons_append, loadLoop, loadChar, if_neg (Ne.symm no_return.1),
        if_neg (Ne.symm no_feed.1)]
      have rest_read := ih ⟨no_return.2, no_feed.2⟩ (ss ++ [ch])
      rwa [List.append_assoc, List.singleton_append] at rest_read

theorem loadLoop_lines {lines : List (List Byte)} (clean : ∀ line ∈ lines, 13 ∉ line ∧ 10 ∉ line)
    (list : TStringList) :
    loadLoop (lines.flatMap (· ++ [10])) list [] =
      ({ list with buf := list.buf ++ lines }, [0xFF]) := by
  induction lines generalizing list with
  | nil =>
      rw [List.append_nil]
      rfl
  | cons line lines ih =>
      rw [List.flatMap_cons, List.append_assoc, List.singleton_append,
        loadLoop_line (clean line List.mem_cons_self),
        ih fun other among => clean other (List.mem_cons_of_mem _ among)]
      simp

/-- The list that comes back has one more line, which holds the low byte of `EOF`. -/
theorem loadFromFile_saveToFile (list other : TStringList) (clean : list.Clean)
    (empty : other.buf = []) (files : Files) (filename : List Byte) :
    (other.loadFromFile (list.saveToFile files filename) filename).2.buf =
        list.buf ++ [[0xFF]] ∧
      (other.loadFromFile (list.saveToFile files filename) filename).2.buf ≠ list.buf := by
  have stored : list.saveToFile files filename filename =
      some (list.buf.flatMap (· ++ [10])) := Function.update_self ..
  have loaded : (other.loadFromFile (list.saveToFile files filename) filename).2.buf =
      list.buf ++ [[0xFF]] := by
    simp only [loadFromFile, stored, loadLoop_lines clean, empty]
    rfl
  refine ⟨loaded, ?_⟩
  rw [loaded]
  exact fun same => List.cons_ne_nil _ _ (List.append_right_eq_self.mp same)

theorem loadFromFile_saveToFile_line :
    (loadFromFile ⟨[], [61]⟩ (saveToFile ⟨[[104, 105]], [61]⟩ (fun _ => none) [97]) [97]).2.buf =
      [[104, 105]] ++ [[0xFF]] :=
  (loadFromFile_saveToFile ⟨[[104, 105]], [61]⟩ ⟨[], [61]⟩ (by simp [Clean]) rfl _ _).1

/-- The empty list is read back with a line. -/
theorem loadFromFile_empty :
    (loadFromFile ⟨[], [61]⟩ (saveToFile ⟨[], [61]⟩ (fun _ => none) [97]) [97]).2.buf = [[0xFF]] ∧
      ¬ ∀ list other : TStringList, list.Clean → other.buf = [] → ∀ files filename,
        (other.loadFromFile (list.saveToFile files filename) filename).2.buf = list.buf := by
  have loaded : (loadFromFile ⟨[], [61]⟩ (saveToFile ⟨[], [61]⟩ (fun _ => none) [97]) [97]).2.buf =
      [[0xFF]] := rfl
  refine ⟨loaded, fun inverse => ?_⟩
  have same := inverse ⟨[], [61]⟩ ⟨[], [61]⟩ (by simp [Clean]) rfl (fun _ => none) [97]
  rw [loaded] at same
  exact List.cons_ne_nil _ _ same

end TStringList
end CommonLib
