import Mathlib.Data.List.Range

/-!
# The pointer stack of `hsp.cpp`

`THSP` is a stack of pointers in an array of `m_nSize` places.
-/

namespace CommonLib

/-- A stack of at most `size` items, the newest first. -/
structure THSP (α : Type*) where
  size : Nat
  items : List α
  length_le : items.length ≤ size

namespace THSP

variable {α : Type*}

/-- `THSP::THSP`. -/
def new (size : Nat) : THSP α := { size, items := [], length_le := Nat.zero_le size }

def isEmpty (stack : THSP α) : Bool := stack.items.isEmpty

def isFull (stack : THSP α) : Bool := stack.items.length == stack.size

def count (stack : THSP α) : Nat := stack.items.length

/-- `THSP::Push`. -/
def push (stack : THSP α) (item : α) : Bool × THSP α :=
  if full : stack.items.length = stack.size then (false, stack)
  else
    (true,
      { stack with
        items := item :: stack.items
        length_le := by
          have := stack.length_le
          rw [List.length_cons]
          omega })

/-- `THSP::PopValue`, also the value behind the pointer which `THSP::Pop` returns. -/
def popValue (stack : THSP α) : Option (α × THSP α) :=
  match stack with
  | ⟨_, [], _⟩ => none
  | ⟨size, item :: items, length_le⟩ =>
      some (item, { size, items, length_le := Nat.le_of_succ_le length_le })

/-- Pop items until one is not skipped; the stack is left below the last popped item. -/
def popWhile (skip : α → Bool) (stack : THSP α) : Option α × THSP α :=
  go stack.items stack.length_le
where
  go : (items : List α) → items.length ≤ stack.size → Option α × THSP α
    | [], length_le => (none, { stack with items := [], length_le })
    | item :: items, length_le =>
        if skip item then go items (Nat.le_of_succ_le length_le)
        else (some item, { stack with items, length_le := Nat.le_of_succ_le length_le })

/-- `THSP::Clear`. -/
def clear (stack : THSP α) : THSP α :=
  { stack with items := [], length_le := Nat.zero_le stack.size }

@[simp] theorem new_items (size : Nat) : (new size : THSP α).items = [] := rfl

@[simp] theorem new_size (size : Nat) : (new size : THSP α).size = size := rfl

@[simp] theorem push_size (stack : THSP α) (item : α) : (stack.push item).2.size = stack.size := by
  unfold push
  split <;> rfl

theorem push_items (stack : THSP α) (item : α) :
    (stack.push item).2.items =
      if stack.items.length = stack.size then stack.items else item :: stack.items := by
  unfold push
  split <;> simp_all

theorem popValue_eq_some {stack rest : THSP α} {item : α} :
    stack.popValue = some (item, rest) ↔
      stack.items = item :: rest.items ∧ rest.size = stack.size := by
  obtain ⟨size, items, length_le⟩ := stack
  obtain ⟨size', items', length_le'⟩ := rest
  cases items with
  | nil => simp [popValue]
  | cons first items =>
      simp only [popValue, Option.some.injEq, Prod.mk.injEq, THSP.mk.injEq, List.cons.injEq]
      constructor
      · rintro ⟨rfl, rfl, rfl⟩
        exact ⟨⟨rfl, rfl⟩, rfl⟩
      · rintro ⟨⟨rfl, rfl⟩, rfl⟩
        exact ⟨rfl, rfl, rfl⟩

/-- Popping ends at the newest item which is not skipped, or with an empty stack. -/
theorem popWhile_spec (skip : α → Bool) (stack : THSP α) :
    (stack.popWhile skip).2.size = stack.size ∧
      (∀ item, (stack.popWhile skip).1 = some item →
        skip item = false ∧ ∃ skipped, (∀ a ∈ skipped, skip a = true) ∧
          stack.items = skipped ++ item :: (stack.popWhile skip).2.items) ∧
      ((stack.popWhile skip).1 = none →
        (∀ a ∈ stack.items, skip a = true) ∧ (stack.popWhile skip).2.items = []) := by
  have loop (items : List α) (length_le : items.length ≤ stack.size) :
      (popWhile.go skip stack items length_le).2.size = stack.size ∧
        (∀ item, (popWhile.go skip stack items length_le).1 = some item →
          skip item = false ∧ ∃ skipped, (∀ a ∈ skipped, skip a = true) ∧
            items = skipped ++ item :: (popWhile.go skip stack items length_le).2.items) ∧
        ((popWhile.go skip stack items length_le).1 = none →
          (∀ a ∈ items, skip a = true) ∧
            (popWhile.go skip stack items length_le).2.items = []) := by
    induction items with
    | nil => exact ⟨rfl, nofun, fun _ => ⟨fun a inside => absurd inside List.not_mem_nil, rfl⟩⟩
    | cons item items induction =>
        rw [popWhile.go]
        by_cases skipped : skip item = true
        · rw [if_pos skipped]
          obtain ⟨size_eq, popped, empty⟩ := induction (Nat.le_of_succ_le length_le)
          refine ⟨size_eq, fun last last_eq => ?_, fun none_eq => ?_⟩
          · obtain ⟨kept, others, allSkipped, items_eq⟩ := popped last last_eq
            refine ⟨kept, item :: others, List.forall_mem_cons.mpr ⟨skipped, allSkipped⟩, ?_⟩
            rw [List.cons_append, ← items_eq]
          · exact ⟨List.forall_mem_cons.mpr ⟨skipped, (empty none_eq).1⟩, (empty none_eq).2⟩
        · rw [if_neg skipped]
          refine ⟨rfl, ?_, nofun⟩
          rintro last ⟨⟩
          exact ⟨Bool.eq_false_iff.mpr skipped, [], fun a inside => absurd inside
            List.not_mem_nil, rfl⟩
  exact loop stack.items stack.length_le

/-- The constructors that own a stack push the first `count` numbers, one after the other. -/
def pushRange (stack : THSP Nat) : Nat → THSP Nat
  | 0 => stack
  | count + 1 => ((pushRange stack count).push count).2

theorem pushRange_items {stack : THSP Nat} (empty : stack.items = []) {count : Nat}
    (fits : count ≤ stack.size) :
    (stack.pushRange count).items = (List.range count).reverse ∧
      (stack.pushRange count).size = stack.size := by
  induction count with
  | zero => simpa [pushRange] using empty
  | succ count induction =>
      obtain ⟨items_eq, size_eq⟩ := induction (Nat.le_of_succ_le fits)
      refine ⟨?_, by rw [pushRange, push_size, size_eq]⟩
      rw [pushRange, push_items, items_eq, size_eq, List.length_reverse, List.length_range,
        if_neg (by omega), List.range_succ, List.reverse_append]
      rfl

end THSP
end CommonLib
