import Mathlib.Data.List.Basic

/-!
# Circular windows over linear memory

A memory is a function from addresses to cells.  `move` copies a list of cells into it and `cells`
reads a stretch of it back.  `Window memory size start queue` says that the circular stretch of the
first `size` cells which begins at `start` spells `queue`; it may run over the end once.
-/

namespace CommonLib

variable {β : Type*}

/-- Copy `source` to the addresses from `start` on. -/
def move (source : List β) (memory : Nat → β) (start : Nat) : Nat → β := fun address =>
  if start ≤ address then source[address - start]?.getD (memory address) else memory address

/-- The `count` cells from `start` on. -/
def cells (memory : Nat → β) (start count : Nat) : List β :=
  (List.range count).map fun offset => memory (start + offset)

theorem move_inside {source : List β} (memory : Nat → β) (start : Nat) {offset : Nat}
    (inside : offset < source.length) : move source memory start (start + offset) = source[offset] := by
  simp [move, inside]

theorem move_outside {source : List β} {memory : Nat → β} {start address : Nat}
    (outside : address < start ∨ start + source.length ≤ address) :
    move source memory start address = memory address := by
  unfold move
  split
  · rw [List.getElem?_eq_none (by omega)]
    rfl
  · rfl

theorem move_nil (memory : Nat → β) (start : Nat) : move [] memory start = memory := by
  funext address
  exact move_outside (by simp; omega)

theorem move_append (first second : List β) (memory : Nat → β) (start : Nat) :
    move second (move first memory start) (start + first.length) =
      move (first ++ second) memory start := by
  funext address
  rcases Nat.lt_or_ge address (start + first.length) with early | late
  · rw [move_outside (.inl early)]
    simp only [move]
    split
    · rw [List.getElem?_append_left (by omega)]
    · rfl
  · rw [move, if_pos late, move_outside (.inr late), move, if_pos (by omega),
      List.getElem?_append_right (by omega), Nat.sub_sub]

/-- Moves to disjoint places commute. -/
theorem move_comm {first second : List β} (memory : Nat → β) {start start' : Nat}
    (disjoint : start + first.length ≤ start') :
    move first (move second memory start') start = move second (move first memory start) start' := by
  funext address
  rcases Nat.lt_or_ge address start' with early | late
  · rw [move_outside (.inl early)]
    simp only [move]
    rw [if_neg (Nat.not_le.mpr early)]
  · rw [move_outside (.inr (Nat.le_trans disjoint late))]
    simp only [move]
    rw [List.getElem?_eq_none (show first.length ≤ address - start by omega)]
    simp

@[simp] theorem cells_length (memory : Nat → β) (start count : Nat) :
    (cells memory start count).length = count := by
  simp [cells]

@[simp] theorem cells_getElem {memory : Nat → β} {start count offset : Nat}
    (inside : offset < (cells memory start count).length) :
    (cells memory start count)[offset] = memory (start + offset) := by
  simp [cells]

@[simp] theorem cells_zero (memory : Nat → β) (start : Nat) : cells memory start 0 = [] := rfl

theorem cells_add (memory : Nat → β) (start first second : Nat) :
    cells memory start (first + second) =
      cells memory start first ++ cells memory (start + first) second := by
  simp [cells, List.range_add, Function.comp_def, Nat.add_assoc]

theorem cells_drop (memory : Nat → β) (start : Nat) {first count : Nat} (inside : first ≤ count) :
    (cells memory start count).drop first = cells memory (start + first) (count - first) := by
  obtain ⟨second, rfl⟩ := Nat.exists_eq_add_of_le inside
  rw [cells_add, List.drop_left' (cells_length ..), Nat.add_sub_cancel_left]

theorem cells_take (memory : Nat → β) (start : Nat) {first count : Nat} (inside : first ≤ count) :
    (cells memory start count).take first = cells memory start first := by
  obtain ⟨second, rfl⟩ := Nat.exists_eq_add_of_le inside
  rw [cells_add, List.take_left' (cells_length ..)]

theorem cells_congr {memory memory' : Nat → β} {start start' count : Nat} :
    cells memory start count = cells memory' start' count ↔
      ∀ offset < count, memory (start + offset) = memory' (start' + offset) := by
  simp [cells]

/-- Reading back what was moved. -/
theorem cells_move (source : List β) (memory : Nat → β) (start : Nat) :
    cells (move source memory start) start source.length = source := by
  apply List.ext_getElem
  · rw [cells_length]
  · intro offset _ inside
    rw [cells_getElem, move_inside _ _ inside]

/-- Addresses wrap around the end of the first `size` cells at most once. -/
def wrap (size address : Nat) : Nat := if address < size then address else address - size

theorem wrap_of_lt {size address : Nat} (inside : address < size) : wrap size address = address :=
  if_pos inside

theorem wrap_of_le {size address : Nat} (outside : size ≤ address) :
    wrap size address = address - size :=
  if_neg (by omega)

theorem wrap_lt {size address : Nat} (once : address < 2 * size) : wrap size address < size := by
  unfold wrap
  split <;> omega

theorem wrap_eq_mod {size address : Nat} (once : address < 2 * size) :
    wrap size address = address % size := by
  unfold wrap
  split
  · next inside => exact (Nat.mod_eq_of_lt inside).symm
  · rw [Nat.mod_eq_sub_mod (by omega), Nat.mod_eq_of_lt (by omega)]

/-- The circular stretch from `start` spells `queue`. -/
def Window (memory : Nat → β) (size start : Nat) (queue : List β) : Prop :=
  ∀ (offset : Nat) (inside : offset < queue.length),
    memory (wrap size (start + offset)) = queue[offset]

namespace Window

variable {memory : Nat → β} {size start : Nat} {queue : List β}

theorem nil : Window memory size start [] := fun _ inside => absurd inside (by simp)

/-- Only the first `size` cells matter. -/
theorem congr (window : Window memory size start queue) (start_lt : start < size)
    (fits : queue.length ≤ size) {memory' : Nat → β}
    (same : ∀ address < size, memory' address = memory address) :
    Window memory' size start queue := by
  intro offset inside
  rw [same _ (wrap_lt (by omega)), window offset inside]

/-- Advancing the start drops cells from the front. -/
theorem drop (window : Window memory size start queue) (start_lt : start < size)
    (fits : queue.length ≤ size) {count : Nat} (enough : count ≤ queue.length) :
    Window memory size (if size ≤ start + count then start + count - size else start + count)
      (queue.drop count) := by
  intro offset inside
  rw [List.length_drop] at inside
  have := window (count + offset) (by omega)
  rw [List.getElem_drop, ← this]
  congr 1
  unfold wrap
  split <;> split <;> split <;> omega

/-- Copying to the cell after the window, without running over the end, extends the window. -/
theorem append_move (window : Window memory size start queue) (data : List β)
    (fits : queue.length + data.length ≤ size)
    (straight : wrap size (start + queue.length) + data.length ≤ size) :
    Window (move data memory (wrap size (start + queue.length))) size start (queue ++ data) := by
  intro offset inside
  rw [List.length_append] at inside
  by_cases old : offset < queue.length
  · rw [List.getElem_append_left old, ← window offset old]
    refine move_outside ?_
    unfold wrap at straight ⊢
    split at straight <;> split <;> omega
  · rw [List.getElem_append_right (by omega)]
    have address_eq : wrap size (start + offset) =
        wrap size (start + queue.length) + (offset - queue.length) := by
      unfold wrap at straight ⊢
      split at straight <;> split <;> omega
    rw [address_eq, move_inside]

/-- A stretch of the window which does not run over the end is contiguous in memory. -/
theorem cells_eq (window : Window memory size start queue) (first count : Nat)
    (inside : first + count ≤ queue.length)
    (straight : start + first + count ≤ size ∨ size ≤ start + first) :
    cells memory (wrap size (start + first)) count = (queue.drop first).take count := by
  apply List.ext_getElem
  · rw [cells_length, List.length_take, List.length_drop]
    omega
  · intro offset offset_lt _
    rw [cells_length] at offset_lt
    rw [cells_getElem, List.getElem_take, List.getElem_drop,
      ← window (first + offset) (by omega)]
    congr 1
    unfold wrap
    split <;> split <;> omega

end Window
end CommonLib
