import CommonLib.Library.Chain
import Mathlib.Data.List.Induction

/-!
# Doubly linked cells

A heap links its cells through two fields `next` and `prev`.  `DoubleChain next prev before cells
after` says that `cells` stand side by side in this order, each linked to its neighbours, with
`before` in front of the first and `after` behind the last.
-/

namespace CommonLib

variable {α : Type*} {next next' prev prev' : α → Option α}

/-- The cells between `before` and `after` are linked both ways. -/
def DoubleChain (next prev : α → Option α) : Option α → List α → Option α → Prop
  | _, [], _ => True
  | before, cell :: cells, after =>
      prev cell = before ∧ next cell = cells.head?.or after ∧
        DoubleChain next prev (some cell) cells after

namespace DoubleChain

variable {before before' after after' : Option α} {cell new : α} {cells front back : List α}

@[simp] theorem nil : DoubleChain next prev before [] after := trivial

theorem append_iff :
    DoubleChain next prev before (front ++ back) after ↔
      DoubleChain next prev before front (back.head?.or after) ∧
        DoubleChain next prev (front.getLast?.or before) back after := by
  induction front generalizing before with
  | nil => simp
  | cons cell front induction =>
      simp only [List.cons_append, DoubleChain, induction, and_assoc]
      cases front with
      | nil => simp
      | cons other front => simp [List.getLast?_cons]

/-- Only the links of the listed cells matter. -/
theorem congr (row : DoubleChain next prev before cells after)
    (next_eq : ∀ cell ∈ cells, next' cell = next cell)
    (prev_eq : ∀ cell ∈ cells, prev' cell = prev cell) :
    DoubleChain next' prev' before cells after := by
  induction cells generalizing before with
  | nil => trivial
  | cons cell cells induction =>
      obtain ⟨behind, ahead, tail⟩ := row
      refine ⟨?_, ?_, induction tail (fun other member => next_eq other (by simp [member]))
        fun other member => prev_eq other (by simp [member])⟩
      · rw [prev_eq cell (by simp), behind]
      · rw [next_eq cell (by simp), ahead]

/-- The cells of a row form a chain. -/
theorem chain (row : DoubleChain next prev before cells after) :
    Chain next (cells.head?.or after) cells after := by
  induction cells generalizing before with
  | nil => rfl
  | cons cell cells induction =>
      obtain ⟨-, ahead, tail⟩ := row
      refine ⟨rfl, ?_⟩
      rw [ahead]
      exact induction tail

theorem next_eq (row : DoubleChain next prev before (front ++ cell :: back) after) :
    next cell = back.head?.or after :=
  (append_iff.mp row).2.2.1

theorem prev_eq (row : DoubleChain next prev before (front ++ cell :: back) after) :
    prev cell = front.getLast?.or before :=
  (append_iff.mp row).2.1

/-- Give the last cell another successor. -/
theorem setAfter (row : DoubleChain next prev before cells after)
    (next_last : ∀ last, cells.getLast? = some last → next' last = after')
    (next_eq : ∀ cell ∈ cells.dropLast, next' cell = next cell)
    (prev_eq : ∀ cell ∈ cells, prev' cell = prev cell) :
    DoubleChain next' prev' before cells after' := by
  cases cells using List.reverseRecOn with
  | nil => trivial
  | append_singleton front last =>
      obtain ⟨init, behind, -⟩ := append_iff.mp row
      refine append_iff.mpr ⟨init.congr (fun cell member => next_eq cell (by simp [member]))
        fun cell member => prev_eq cell (by simp [member]), ?_, ?_, trivial⟩
      · rw [prev_eq last (by simp), behind]
      · exact next_last last (by simp)

/-- Give the first cell another predecessor. -/
theorem setBefore (row : DoubleChain next prev before cells after)
    (prev_first : ∀ first, cells.head? = some first → prev' first = before')
    (next_eq : ∀ cell ∈ cells, next' cell = next cell)
    (prev_eq : ∀ cell ∈ cells.tail, prev' cell = prev cell) :
    DoubleChain next' prev' before' cells after := by
  cases cells with
  | nil => trivial
  | cons first cells =>
      obtain ⟨-, ahead, tail⟩ := row
      refine ⟨prev_first first rfl, ?_, tail.congr
        (fun cell member => next_eq cell (by simp [member])) prev_eq⟩
      rw [next_eq first (by simp), ahead]

theorem getLast?_ne_of_mem_dropLast (nodup : cells.Nodup) (member : cell ∈ cells.dropLast) :
    cells.getLast? ≠ some cell := by
  cases cells using List.reverseRecOn with
  | nil => cases member
  | append_singleton front last =>
      rw [List.dropLast_concat] at member
      rw [List.getLast?_concat]
      rintro same
      obtain rfl := Option.some.inj same
      exact (List.nodup_append.mp nodup).2.2 last member last (by simp) rfl

theorem head?_ne_of_mem_tail (nodup : cells.Nodup) (member : cell ∈ cells.tail) :
    cells.head? ≠ some cell := by
  cases cells with
  | nil => cases member
  | cons first cells =>
      rintro same
      obtain rfl := Option.some.inj same
      exact (List.nodup_cons.mp nodup).1 member

/-- Two rows side by side, of which only the inner ends get other links. -/
theorem setInner {mid mid' behind behind' : Option α}
    (init : DoubleChain next prev before front mid) (tail : DoubleChain next prev behind back after)
    (nodup : (front ++ back).Nodup)
    (next_last : ∀ last, front.getLast? = some last → next' last = mid')
    (prev_first : ∀ first, back.head? = some first → prev' first = behind')
    (next_eq : ∀ cell ∈ front ++ back, front.getLast? ≠ some cell → next' cell = next cell)
    (prev_eq : ∀ cell ∈ front ++ back, back.head? ≠ some cell → prev' cell = prev cell) :
    DoubleChain next' prev' before front mid' ∧ DoubleChain next' prev' behind' back after := by
  obtain ⟨nodupFront, nodupBack, apart⟩ := List.nodup_append.mp nodup
  refine ⟨init.setAfter next_last (fun cell member => ?_) fun cell member => ?_,
    tail.setBefore prev_first (fun cell member => ?_) fun cell member => ?_⟩
  · exact next_eq cell (List.mem_append_left _ ((List.dropLast_sublist _).subset member))
      (getLast?_ne_of_mem_dropLast nodupFront member)
  · exact prev_eq cell (List.mem_append_left _ member)
      fun same => apart cell member cell (List.mem_of_mem_head? same) rfl
  · exact next_eq cell (List.mem_append_right _ member)
      fun same => apart cell (List.mem_of_getLast? same) cell member rfl
  · exact prev_eq cell (List.mem_append_right _ (List.mem_of_mem_tail member))
      (head?_ne_of_mem_tail nodupBack member)

/-- Link a new cell between two neighbours. -/
theorem insert (row : DoubleChain next prev before (front ++ back) after)
    (nodup : (front ++ back).Nodup)
    (next_new : next' new = back.head?.or after) (prev_new : prev' new = front.getLast?.or before)
    (next_last : ∀ last, front.getLast? = some last → next' last = some new)
    (prev_first : ∀ first, back.head? = some first → prev' first = some new)
    (next_eq : ∀ cell ∈ front ++ back, front.getLast? ≠ some cell → next' cell = next cell)
    (prev_eq : ∀ cell ∈ front ++ back, back.head? ≠ some cell → prev' cell = prev cell) :
    DoubleChain next' prev' before (front ++ new :: back) after := by
  obtain ⟨init, tail⟩ := append_iff.mp row
  obtain ⟨init', tail'⟩ := setInner init tail nodup next_last prev_first next_eq prev_eq
  exact append_iff.mpr ⟨init', prev_new, next_new, tail'⟩

/-- Link the two neighbours of a cell to each other. -/
theorem remove (row : DoubleChain next prev before (front ++ cell :: back) after)
    (nodup : (front ++ back).Nodup)
    (next_last : ∀ last, front.getLast? = some last → next' last = back.head?.or after)
    (prev_first : ∀ first, back.head? = some first → prev' first = front.getLast?.or before)
    (next_eq : ∀ cell ∈ front ++ back, front.getLast? ≠ some cell → next' cell = next cell)
    (prev_eq : ∀ cell ∈ front ++ back, back.head? ≠ some cell → prev' cell = prev cell) :
    DoubleChain next' prev' before (front ++ back) after := by
  obtain ⟨init, -, -, tail⟩ := append_iff.mp row
  exact append_iff.mpr (setInner init tail nodup next_last prev_first next_eq prev_eq)

end DoubleChain
end CommonLib
