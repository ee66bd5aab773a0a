import CommonLib.Library.Execution

/-!
# Runs that track an abstract state

An abstract state is advanced by every operation, while the component may fail to complete one.  A
run tracks the abstract state if the component completes each operation and stays related to it.
-/

namespace CommonLib.Execution

variable {σ τ ι : Type*} {step : σ → ι → Option σ} {advance : τ → ι → τ} {related : σ → τ → Prop}

/-- After the first operations, however many, there is a state that is related to the abstract
one. -/
def Tracks (step : σ → ι → Option σ) (advance : τ → ι → τ) (related : σ → τ → Prop) (initial : σ)
    (abstract : τ) (ops : List ι) : Prop :=
  ∀ front back, ops = front ++ back →
    ∃ state, run step initial front = some state ∧ related state (front.foldl advance abstract)

theorem tracks_cons_iff {initial : σ} {abstract : τ} {op : ι} {ops : List ι}
    (start : related initial abstract) :
    Tracks step advance related initial abstract (op :: ops) ↔
      ∃ next, step initial op = some next ∧
        Tracks step advance related next (advance abstract op) ops := by
  constructor
  · intro tracks
    obtain ⟨next, made, -⟩ := tracks [op] ops rfl
    obtain ⟨next', step_eq, -⟩ := run_cons_eq_some.mp made
    refine ⟨next', step_eq, fun front back split => ?_⟩
    obtain ⟨state, made, met⟩ := tracks (op :: front) back (congrArg (op :: ·) split)
    obtain ⟨next'', step_eq', made⟩ := run_cons_eq_some.mp made
    obtain rfl : next' = next'' := Option.some.inj (step_eq.symm.trans step_eq')
    exact ⟨state, made, met⟩
  · rintro ⟨next, step_eq, tracks⟩ front back split
    cases front with
    | nil => exact ⟨initial, rfl, start⟩
    | cons first front =>
        obtain ⟨rfl, behind⟩ := List.cons.inj split
        obtain ⟨state, made, met⟩ := tracks front back behind
        exact ⟨state, run_cons_eq_some.mpr ⟨next, step_eq, made⟩, met⟩

/-- A run tracks the abstract state exactly if every operation meets a condition in the abstract
state before it, provided that condition decides for each operation whether it is tracked. -/
theorem tracks_iff (condition : τ → ι → Prop)
    (decides : ∀ {state abstract} (op : ι), related state abstract →
      ((∃ next, step state op = some next ∧ related next (advance abstract op)) ↔
        condition abstract op))
    {initial : σ} {abstract : τ} (start : related initial abstract) (ops : List ι) :
    Tracks step advance related initial abstract ops ↔
      ∀ front op back, ops = front ++ op :: back →
        condition (front.foldl advance abstract) op := by
  induction ops generalizing initial abstract with
  | nil =>
      refine iff_of_true (fun front back split => ?_) fun front op back split => ?_
      · obtain ⟨rfl, -⟩ := List.append_eq_nil_iff.mp split.symm
        exact ⟨initial, rfl, start⟩
      · exact absurd split.symm (List.append_ne_nil_of_right_ne_nil _ (List.cons_ne_nil _ _))
  | cons op ops induction =>
      rw [tracks_cons_iff start]
      constructor
      · rintro ⟨next, step_eq, tracks⟩ front other back split
        obtain ⟨state, made, met⟩ := tracks [] ops rfl
        obtain rfl : next = state := Option.some.inj made
        cases front with
        | nil =>
            obtain ⟨rfl, -⟩ := List.cons.inj split
            exact (decides op start).mp ⟨next, step_eq, met⟩
        | cons first front =>
            obtain ⟨rfl, behind⟩ := List.cons.inj split
            exact (induction met).mp tracks front other back behind
      · intro all
        obtain ⟨next, step_eq, met⟩ := (decides op start).mpr (all [] op ops rfl)
        exact ⟨next, step_eq, (induction met).mpr fun front other back split =>
          all (op :: front) other back (congrArg (op :: ·) split)⟩

/-- A component which completes each operation and stays related to the abstract state completes
every run. -/
theorem exists_run_related
    (kept : ∀ {state abstract} (op : ι), related state abstract →
      ∃ next, step state op = some next ∧ related next (advance abstract op))
    {initial : σ} {abstract : τ} (start : related initial abstract) (ops : List ι) :
    ∃ final, run step initial ops = some final ∧ related final (ops.foldl advance abstract) := by
  induction ops generalizing initial abstract with
  | nil => exact ⟨initial, rfl, start⟩
  | cons op ops induction =>
      obtain ⟨next, first, met⟩ := kept op start
      obtain ⟨final, rest, related⟩ := induction met
      exact ⟨final, run_cons_eq_some.mpr ⟨next, first, rest⟩, related⟩

end CommonLib.Execution
