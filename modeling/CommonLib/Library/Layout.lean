import CommonLib.Library.Circular

/-!
# Entries laid out one after another

`Spells memory start source` says that a memory spells `source` from `start` on.  `offsets` are the
places of the entries of a list that is laid out without gaps.
-/

namespace CommonLib

variable {β : Type*}

/-- The memory spells `source` from `start` on. -/
def Spells (memory : Nat → β) (start : Nat) (source : List β) : Prop :=
  cells memory start source.length = source

theorem spells_append {memory : Nat → β} {start : Nat} {first second : List β} :
    Spells memory start (first ++ second) ↔
      Spells memory start first ∧ Spells memory (start + first.length) second := by
  rw [Spells, List.length_append, cells_add]
  constructor
  · intro both
    exact List.append_inj both (cells_length ..)
  · rintro ⟨left, right⟩
    rw [left, right]

theorem Spells.apply {memory : Nat → β} {start : Nat} {source : List β}
    (spells : Spells memory start source) {i : Nat} (inside : i < source.length) :
    memory (start + i) = source[i] := by
  have read : i < (cells memory start source.length).length := by rwa [cells_length]
  rw [← cells_getElem read]
  exact List.getElem_of_eq spells read

/-- The places of the entries of a list from `start` on. -/
def offsets (start : Nat) : List (List β) → List Nat
  | [] => []
  | entry :: entries => start :: offsets (start + entry.length) entries

@[simp] theorem length_offsets (start : Nat) (entries : List (List β)) :
    (offsets start entries).length = entries.length := by
  induction entries generalizing start with
  | nil => rfl
  | cons entry entries induction => rw [offsets, List.length_cons, induction, List.length_cons]

theorem offsets_append (start : Nat) (first second : List (List β)) :
    offsets start (first ++ second) =
      offsets start first ++ offsets (start + first.flatten.length) second := by
  induction first generalizing start with
  | nil => rfl
  | cons entry first induction =>
      rw [List.cons_append, offsets, induction, offsets, List.flatten_cons, List.length_append,
        Nat.add_assoc, List.cons_append]

/-- An entry stands behind the entries before it. -/
theorem getElem?_offsets (start : Nat) {entries : List (List β)} {i : Nat}
    (inside : i < entries.length) :
    (offsets start entries)[i]? = some (start + (entries.take i).flatten.length) := by
  have split_eq := offsets_append start (entries.take i) (entries.drop i)
  have before : (offsets start (entries.take i)).length = i := by
    rw [length_offsets, List.length_take, Nat.min_eq_left (Nat.le_of_lt inside)]
  rw [List.take_append_drop] at split_eq
  rw [split_eq, List.getElem?_append_right (Nat.le_of_eq before), before, Nat.sub_self,
    List.drop_eq_getElem_cons inside]
  rfl

theorem Spells.entry {memory : Nat → β} {start : Nat} {entries : List (List β)}
    (spells : Spells memory start entries.flatten) {i : Nat} (inside : i < entries.length) :
    Spells memory (start + (entries.take i).flatten.length) entries[i] := by
  rw [← List.take_append_drop i entries, List.flatten_append, spells_append,
    List.drop_eq_getElem_cons inside, List.flatten_cons, spells_append] at spells
  exact spells.2.1

end CommonLib
