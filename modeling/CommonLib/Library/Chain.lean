import Mathlib.Data.List.Basic

/-!
# Chains of linked cells

A heap links its cells through a field `next : α → Option α`.  `Chain next start cells stop` says
that following `next` from `start` meets exactly `cells`, in this order, and arrives at `stop`.
-/

namespace CommonLib

variable {α : Type*} {next next' : α → Option α}

/-- The chain from `start` consists of `cells` and leads to `stop`. -/
def Chain (next : α → Option α) : Option α → List α → Option α → Prop
  | start, [], stop => start = stop
  | start, cell :: cells, stop => start = some cell ∧ Chain next (next cell) cells stop

namespace Chain

@[simp] theorem nil_iff {start stop : Option α} : Chain next start [] stop ↔ start = stop :=
  Iff.rfl

@[simp] theorem cons_iff {start stop : Option α} {cell : α} {cells : List α} :
    Chain next start (cell :: cells) stop ↔
      start = some cell ∧ Chain next (next cell) cells stop := Iff.rfl

theorem append_iff {start stop : Option α} {front back : List α} :
    Chain next start (front ++ back) stop ↔
      ∃ middle, Chain next start front middle ∧ Chain next middle back stop := by
  induction front generalizing start with
  | nil => simp
  | cons cell front induction => simp [induction, and_assoc]

/-- Only the links of the listed cells matter. -/
theorem congr {start stop : Option α} {cells : List α}
    (chain : Chain next start cells stop) (agree : ∀ cell ∈ cells, next' cell = next cell) :
    Chain next' start cells stop := by
  induction cells generalizing start with
  | nil => exact chain
  | cons cell cells induction =>
      obtain ⟨rfl, tail⟩ := chain
      refine ⟨rfl, induction ?_ fun other member => agree other (by simp [member])⟩
      rwa [agree cell (by simp)]

theorem head?_eq {start : Option α} {cells : List α} (chain : Chain next start cells none) :
    start = cells.head? := by
  cases cells with
  | nil => exact chain
  | cons => exact chain.1

/-- A closed chain is determined by its start. -/
theorem unique {start : Option α} {cells cells' : List α} (chain : Chain next start cells none)
    (chain' : Chain next start cells' none) : cells = cells' := by
  induction cells generalizing start cells' with
  | nil =>
      obtain rfl : start = none := chain
      cases cells' with
      | nil => rfl
      | cons => exact absurd chain'.1 (by simp)
  | cons cell cells induction =>
      obtain ⟨rfl, tail⟩ := chain
      cases cells' with
      | nil => exact absurd chain' (by simp)
      | cons cell' cells' =>
          obtain ⟨same, tail'⟩ := chain'
          obtain rfl := Option.some.inj same
          rw [induction tail tail']

/-- The last cell of a closed chain has no successor. -/
theorem next_last {start : Option α} {front : List α} {last : α}
    (chain : Chain next start (front ++ [last]) none) : next last = none := by
  obtain ⟨_, _, _, tail⟩ := append_iff.mp chain
  exact tail

/-- Giving the last cell a successor appends the chain which starts there. -/
theorem snoc {start stop : Option α} {front back : List α} {last : α}
    (chain : Chain next start (front ++ [last]) none)
    (agree : ∀ cell ∈ front, next' cell = next cell)
    (tail : Chain next' (next' last) back stop) :
    Chain next' start (front ++ last :: back) stop := by
  obtain ⟨middle, first, rfl, _⟩ := append_iff.mp chain
  exact append_iff.mpr ⟨some last, first.congr agree, rfl, tail⟩

/-- Linking the predecessor of a cell to its successor takes the cell out of the chain. -/
theorem unlink {start stop : Option α} {front back : List α} {before cell : α}
    (chain : Chain next start (front ++ before :: cell :: back) stop)
    (agree : ∀ other ∈ front ++ back, next' other = next other)
    (link : next' before = next cell) : Chain next' start (front ++ before :: back) stop := by
  obtain ⟨middle, first, rfl, _, tail⟩ := append_iff.mp chain
  refine append_iff.mpr ⟨some before, ?_, rfl, ?_⟩
  · exact first.congr fun other member => agree other (by simp [member])
  · rw [link]
    exact tail.congr fun other member => agree other (by simp [member])

end Chain
end CommonLib
