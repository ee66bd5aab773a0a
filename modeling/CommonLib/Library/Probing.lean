import Mathlib.Logic.Function.Basic
import Mathlib.Tactic.Common

/-!
# Open addressing

A table has a window of cells for each key and keeps a key in a cell of its window.  A removed key
leaves its cell empty, so a window may have empty cells anywhere; a search has to look at all of it.
-/

namespace CommonLib.Probing

/-- The cells from `start` on, around a table of `size` cells. -/
def cellsFrom (size : Nat) : Nat → Nat → List Nat
  | 0, _ => []
  | count + 1, start => start :: cellsFrom size count ((start + 1) % size)

variable {κ : Type*} {window : κ → List Nat} {keys : Nat → Option κ}
  {key : κ} {cell : Nat}

/-- Every key of the table is in one cell, which belongs to its window. -/
structure Placed (window : κ → List Nat) (keys : Nat → Option κ) : Prop where
  inWindow : ∀ cell key, keys cell = some key → cell ∈ window key
  unique : ∀ cell cell' key, keys cell = some key → keys cell' = some key → cell = cell'

theorem placed_empty : Placed window fun _ => none := by
  constructor
  · intro cell key stored
    cases stored
  · intro cell cell' key stored
    cases stored

/-- A search through its window finds the cell of a key. -/
theorem Placed.find [DecidableEq κ] (placed : Placed window keys) (stored : keys cell = some key) :
    (window key).find? (fun other => keys other = some key) = some cell := by
  obtain ⟨found, found_eq⟩ : ∃ found,
      (window key).find? (fun other => keys other = some key) = some found := by
    apply Option.isSome_iff_exists.mp
    rw [List.find?_isSome]
    exact ⟨cell, placed.inWindow cell key stored, by simpa using stored⟩
  have stored' : keys found = some key := by simpa using List.find?_some found_eq
  rw [found_eq, placed.unique found cell key stored' stored]

theorem find_none [DecidableEq κ] (absent : ∀ cell, keys cell ≠ some key) (cells : List Nat) :
    cells.find? (fun other => keys other = some key) = none := by
  rw [List.find?_eq_none]
  intro cell _
  simpa using absent cell

/-- A key that is not in the table may be put in an empty cell of its window. -/
theorem Placed.insert (placed : Placed window keys) (absent : ∀ cell, keys cell ≠ some key)
    (member : cell ∈ window key) : Placed window (Function.update keys cell (some key)) := by
  have cases_of {cell' : Nat} {key' : κ}
      (stored : Function.update keys cell (some key) cell' = some key') :
      cell' = cell ∧ key' = key ∨ keys cell' = some key' := by
    by_cases same : cell' = cell
    · subst same
      rw [Function.update_self] at stored
      exact .inl ⟨rfl, (Option.some.inj stored).symm⟩
    · rw [Function.update_of_ne same] at stored
      exact .inr stored
  constructor
  · intro cell' key' stored
    rcases cases_of stored with ⟨rfl, rfl⟩ | stored
    · exact member
    · exact placed.inWindow cell' key' stored
  · intro first second key' stored stored'
    rcases cases_of stored with ⟨rfl, rfl⟩ | stored
    · rcases cases_of stored' with ⟨rfl, -⟩ | stored'
      · rfl
      · exact absurd stored' (absent second)
    · rcases cases_of stored' with ⟨-, same⟩ | stored'
      · exact absurd (same ▸ stored) (absent first)
      · exact placed.unique first second key' stored stored'

theorem Placed.erase (placed : Placed window keys) (cell : Nat) :
    Placed window (Function.update keys cell none) := by
  have stored_of {cell' : Nat} {key' : κ}
      (stored : Function.update keys cell none cell' = some key') : keys cell' = some key' := by
    by_cases same : cell' = cell
    · rw [same, Function.update_self] at stored
      cases stored
    · rwa [Function.update_of_ne same] at stored
  constructor
  · intro cell' key' stored
    exact placed.inWindow cell' key' (stored_of stored)
  · intro first second key' stored stored'
    exact placed.unique first second key' (stored_of stored) (stored_of stored')

end CommonLib.Probing
