import CommonLib.Library.Execution
import Mathlib.Data.Fintype.Basic
import Mathlib.Data.Finset.Card
import Mathlib.Algebra.BigOperators.Group.Finset.Basic
import Mathlib.Tactic.Abel

/-!
# Threads that share a state

Every thread runs the same program over a shared state and its own local state.  A step is one move
of one thread; a list of steps is one interleaving.  The threads at a place of the program are
counted, since locks and semaphores are counts of threads.
-/

namespace CommonLib.Interleaving

variable {σ κ ι ε : Type*}

/-- The shared state and the local state of every thread. -/
structure Config (σ κ ι : Type*) where
  shared : σ
  threads : ι → κ

variable [DecidableEq ι]

/-- Thread `op.1` makes its move `op.2`; a blocked thread has no move. -/
def step (move : σ → κ → ε → Option (σ × κ)) (config : Config σ κ ι) (op : ι × ε) :
    Option (Config σ κ ι) :=
  (move config.shared (config.threads op.1) op.2).map fun after =>
    { shared := after.1, threads := Function.update config.threads op.1 after.2 }

theorem step_eq_some {move : σ → κ → ε → Option (σ × κ)} {config next : Config σ κ ι}
    {op : ι × ε} :
    step move config op = some next ↔
      ∃ shared place, move config.shared (config.threads op.1) op.2 = some (shared, place) ∧
        next = { shared, threads := Function.update config.threads op.1 place } := by
  simp only [step, Option.map_eq_some_iff, Prod.exists]
  exact exists₂_congr fun shared place => and_congr_right' eq_comm

variable [Fintype ι]

/-- The number of threads whose local state satisfies `p`. -/
def count (p : κ → Prop) [DecidablePred p] (threads : ι → κ) : Nat :=
  (Finset.univ.filter fun i => p (threads i)).card

variable {p q : κ → Prop} [DecidablePred p] [DecidablePred q]

/-- A thread that moves leaves the place where it was and is counted where it is now. -/
theorem count_update (p : κ → Prop) [DecidablePred p] (threads : ι → κ) (i : ι) (place : κ) :
    count p (Function.update threads i place) + (if p (threads i) then 1 else 0) =
      count p threads + (if p place then 1 else 0) := by
  have others : ∀ f : ι → κ, count p f =
      ((Finset.univ.erase i).filter fun j => p (f j)).card + (if p (f i) then 1 else 0) := by
    intro f
    rw [count, ← Finset.insert_erase (Finset.mem_univ i), Finset.filter_insert,
      Finset.erase_insert (Finset.notMem_erase i Finset.univ)]
    split
    · rw [Finset.card_insert_of_notMem (by simp)]
    · rfl
  have same : ((Finset.univ.erase i).filter fun j => p (Function.update threads i place j)) =
      (Finset.univ.erase i).filter fun j => p (threads j) := by
    refine Finset.filter_congr fun j member => ?_
    rw [Function.update_of_ne (Finset.ne_of_mem_erase member)]
  rw [others (Function.update threads i place), others threads, same, Function.update_self]
  omega

omit [DecidableEq ι] in
theorem count_eq_zero_iff {threads : ι → κ} : count p threads = 0 ↔ ∀ i, ¬ p (threads i) := by
  simp [count, Finset.card_eq_zero, Finset.filter_eq_empty_iff]

omit [DecidableEq ι] in
theorem count_pos_iff {threads : ι → κ} : 0 < count p threads ↔ ∃ i, p (threads i) := by
  rw [Nat.pos_iff_ne_zero, Ne, count_eq_zero_iff]
  simp

omit [DecidableEq ι] in
/-- Two threads at a place that holds one at most are one thread. -/
theorem eq_of_count_le_one {threads : ι → κ} (one : count p threads ≤ 1) {i j : ι}
    (first : p (threads i)) (second : p (threads j)) : i = j :=
  Finset.card_le_one.mp one i (by simpa using first) j (by simpa using second)

omit [DecidableEq ι] in
theorem count_const {place : κ} (out : ¬ p place) : count p (fun _ : ι => place) = 0 :=
  count_eq_zero_iff.mpr fun _ => out

/-! ## What the threads hold together -/

section

variable {M : Type*} [AddCommMonoid M]

/-- The sum of what the threads hold at their places. -/
def total (held : κ → M) (threads : ι → κ) : M := ∑ i, held (threads i)

theorem total_update (held : κ → M) (threads : ι → κ) (i : ι) (place : κ) :
    total held (Function.update threads i place) + held (threads i) =
      total held threads + held place := by
  have others : ∀ f : ι → κ, total held f = held (f i) + ∑ j ∈ Finset.univ.erase i, held (f j) :=
    fun f => (Finset.add_sum_erase _ (fun j => held (f j)) (Finset.mem_univ i)).symm
  have same : ∑ j ∈ Finset.univ.erase i, held (Function.update threads i place j) =
      ∑ j ∈ Finset.univ.erase i, held (threads j) := by
    refine Finset.sum_congr rfl fun j member => ?_
    rw [Function.update_of_ne (Finset.ne_of_mem_erase member)]
  rw [others (Function.update threads i place), others threads, same, Function.update_self]
  abel

omit [DecidableEq ι] in
theorem total_const {place : κ} {held : κ → M} (none_held : held place = 0) :
    total held (fun _ : ι => place) = 0 := by
  simp [total, none_held]

end

omit [DecidableEq ι] in
theorem total_eq_zero_iff {weight : κ → Nat} {threads : ι → κ} :
    total weight threads = 0 ↔ ∀ i, weight (threads i) = 0 := by
  simp [total, Finset.sum_eq_zero_iff]

end CommonLib.Interleaving

namespace CommonLib.Execution

/-- If some step lowers a rank as long as the goal is not reached, then some run reaches the
goal. -/
theorem exists_run_of_rank {σ ι α : Type*} {step : σ → ι → Option σ} [WellFoundedRelation α]
    (rank : σ → α) (goal invariant : σ → Prop)
    (progress : ∀ state, invariant state → ¬ goal state → ∃ op next, step state op = some next ∧
      invariant next ∧ WellFoundedRelation.rel (rank next) (rank state))
    {initial : σ} (start : invariant initial) :
    ∃ ops final, run step initial ops = some final ∧ invariant final ∧ goal final := by
  induction initial using (InvImage.wf rank WellFoundedRelation.wf).induction with
  | _ initial induction =>
      by_cases reached : goal initial
      · exact ⟨[], initial, rfl, start, reached⟩
      · obtain ⟨op, next, made, kept, lower⟩ := progress initial start reached
        obtain ⟨ops, final, execution, met⟩ := induction next lower kept
        exact ⟨op :: ops, final, run_cons_eq_some.mpr ⟨next, made, execution⟩, met⟩

end CommonLib.Execution
