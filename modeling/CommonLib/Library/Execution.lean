import Mathlib.Tactic.Common

/-!
# Runs of partial step functions

A deterministic component is a partial step function `step : σ → ι → Option σ`: an operation that
the component does not complete has no successor.  This file runs operation lists and separates two
questions about a run: which states it visits and which conditions its completed steps meet.
-/

namespace CommonLib.Execution

variable {σ ι : Type*} {step : σ → ι → Option σ}

/-- Execute a list of operations from left to right, stopping at the first undefined step. -/
def run (step : σ → ι → Option σ) : σ → List ι → Option σ
  | state, [] => some state
  | state, op :: ops => (step state op).bind fun next => run step next ops

/-- The states which some operation list reaches from `initial`. -/
def Reachable (step : σ → ι → Option σ) (initial final : σ) : Prop :=
  ∃ ops, run step initial ops = some final

/-- Every state visited by the run satisfies `good`. -/
def AllStates (step : σ → ι → Option σ) (good : σ → Prop) : σ → List ι → Prop
  | state, [] => good state
  | state, op :: ops =>
      good state ∧ ∀ next, step state op = some next → AllStates step good next ops

/-- Every completed step of the run meets `condition` in the state before it. -/
def AllSteps (step : σ → ι → Option σ) (condition : σ → ι → Prop) : σ → List ι → Prop
  | _, [] => True
  | state, op :: ops =>
      ∀ next, step state op = some next →
        condition state op ∧ AllSteps step condition next ops

/-- Conditions that can be decided in each state can be decided along a run. -/
instance decidableAllSteps {condition : σ → ι → Prop}
    [∀ state op, Decidable (condition state op)] :
    (state : σ) → (ops : List ι) → Decidable (AllSteps step condition state ops)
  | _, [] => isTrue trivial
  | state, op :: ops =>
      match result : step state op with
      | none => isTrue fun next first => by simp [result] at first
      | some next =>
          have : Decidable (AllSteps step condition next ops) := decidableAllSteps next ops
          decidable_of_iff (condition state op ∧ AllSteps step condition next ops)
            ⟨fun met _ first => Option.some.inj (result.symm.trans first) ▸ met,
              fun met => met next result⟩

@[simp] theorem run_nil (state : σ) : run step state [] = some state := rfl

theorem run_cons_eq_some {state final : σ} {op : ι} {ops : List ι} :
    run step state (op :: ops) = some final ↔
      ∃ next, step state op = some next ∧ run step next ops = some final := by
  simp [run, Option.bind_eq_some_iff]

theorem run_append (state : σ) (first second : List ι) :
    run step state (first ++ second) = (run step state first).bind (run step · second) := by
  induction first generalizing state with
  | nil => rfl
  | cons op ops induction =>
      simp only [List.cons_append, run]
      cases step state op with
      | none => rfl
      | some next => exact induction next

/-- A predicate kept by every completed step is kept by every completed run. -/
theorem run_invariant (invariant : σ → Prop)
    (kept : ∀ {state next op}, invariant state → step state op = some next → invariant next)
    {initial final : σ} {ops : List ι} (start : invariant initial)
    (execution : run step initial ops = some final) : invariant final := by
  induction ops generalizing initial with
  | nil =>
      obtain rfl : initial = final := by simpa using execution
      exact start
  | cons op ops induction =>
      obtain ⟨next, first, rest⟩ := run_cons_eq_some.mp execution
      exact induction (kept start first) rest

theorem Reachable.invariant {initial final : σ} (reach : Reachable step initial final)
    (invariant : σ → Prop) (start : invariant initial)
    (kept : ∀ {state next op}, invariant state → step state op = some next → invariant next) :
    invariant final := by
  obtain ⟨ops, execution⟩ := reach
  exact run_invariant invariant kept start execution

/-- The state a completed run ends in is one of its states. -/
theorem AllStates.of_run {good : σ → Prop} {initial final : σ} {ops : List ι}
    (throughout : AllStates step good initial ops)
    (execution : run step initial ops = some final) : good final := by
  induction ops generalizing initial with
  | nil =>
      obtain rfl : initial = final := by simpa using execution
      exact throughout
  | cons op ops induction =>
      obtain ⟨next, first, rest⟩ := run_cons_eq_some.mp execution
      exact induction (throughout.2 next first) rest

/-- An invariant inside `good` which the steps that meet a condition keep makes `good` hold
throughout a run of such steps. -/
theorem allStates_of_allSteps {good : σ → Prop} {condition : σ → ι → Prop} (invariant : σ → Prop)
    (sound : ∀ {state}, invariant state → good state)
    (kept : ∀ {state next op}, invariant state → condition state op →
      step state op = some next → invariant next)
    {initial : σ} (start : invariant initial) {ops : List ι}
    (met : AllSteps step condition initial ops) : AllStates step good initial ops := by
  induction ops generalizing initial with
  | nil => exact sound start
  | cons op ops induction =>
      refine ⟨sound start, fun next first => ?_⟩
      obtain ⟨here, later⟩ := met next first
      exact induction (kept start here first) later

/-- What follows from an invariant holds throughout every run. -/
theorem allStates_of_invariant {good : σ → Prop} (invariant : σ → Prop)
    (sound : ∀ {state}, invariant state → good state)
    (kept : ∀ {state next op}, invariant state → step state op = some next → invariant next)
    {initial : σ} (start : invariant initial) (ops : List ι) : AllStates step good initial ops := by
  induction ops generalizing initial with
  | nil => exact sound start
  | cons op ops induction => exact ⟨sound start, fun next first => induction (kept start first)⟩

/-- A condition which an invariant implies before every step holds at every step. -/
theorem allSteps_of_invariant {condition : σ → ι → Prop} (invariant : σ → Prop)
    (met : ∀ {state next op}, invariant state → step state op = some next → condition state op)
    (kept : ∀ {state next op}, invariant state → step state op = some next → invariant next)
    {initial : σ} (start : invariant initial) (ops : List ι) :
    AllSteps step condition initial ops := by
  induction ops generalizing initial with
  | nil => trivial
  | cons op ops induction =>
      exact fun next first => ⟨met start first, induction (kept start first)⟩

/-- Under an invariant a condition may be replaced by one that follows from it. -/
theorem AllSteps.imp_of_invariant {condition condition' : σ → ι → Prop} (invariant : σ → Prop)
    (weaker : ∀ {state op}, invariant state → condition state op → condition' state op)
    (kept : ∀ {state next op}, invariant state → step state op = some next → invariant next)
    {initial : σ} (start : invariant initial) {ops : List ι}
    (met : AllSteps step condition initial ops) : AllSteps step condition' initial ops := by
  induction ops generalizing initial with
  | nil => trivial
  | cons op ops induction =>
      intro next first
      obtain ⟨here, later⟩ := met next first
      exact ⟨weaker start here, induction (kept start first) later⟩

/-! ## Runs that the callers may make -/

/-- Every operation is allowed in the state in which it is made. -/
def Admissible (step : σ → ι → Option σ) (legal : σ → ι → Prop) : σ → List ι → Prop
  | _, [] => True
  | state, op :: ops =>
      legal state op ∧ ∀ next, step state op = some next → Admissible step legal next ops

/-- What is allowed can be decided along a run if it can be decided in each state. -/
instance decidableAdmissible {legal : σ → ι → Prop} [∀ state op, Decidable (legal state op)] :
    (state : σ) → (ops : List ι) → Decidable (Admissible step legal state ops)
  | _, [] => isTrue trivial
  | state, op :: ops =>
      match result : step state op with
      | none => decidable_of_iff (legal state op)
          ⟨fun allowed => ⟨allowed, fun next first => by simp [result] at first⟩, And.left⟩
      | some next =>
          have : Decidable (Admissible step legal next ops) := decidableAdmissible next ops
          decidable_of_iff (legal state op ∧ Admissible step legal next ops)
            ⟨fun allowed => ⟨allowed.1, fun _ first =>
              Option.some.inj (result.symm.trans first) ▸ allowed.2⟩,
              fun allowed => ⟨allowed.1, allowed.2 next result⟩⟩

/-- What is allowed in every state is allowed along every run. -/
theorem admissible_of_all {legal : σ → ι → Prop} (all : ∀ state op, legal state op) (initial : σ)
    (ops : List ι) : Admissible step legal initial ops := by
  induction ops generalizing initial with
  | nil => trivial
  | cons op ops induction => exact ⟨all initial op, fun next _ => induction next⟩

/-- A run whose operations are allowed is completed if allowed operations are. -/
theorem exists_run_of_admissible {legal : σ → ι → Prop} (invariant : σ → Prop)
    (total : ∀ {state op}, invariant state → legal state op →
      ∃ next, step state op = some next ∧ invariant next)
    {initial : σ} {ops : List ι} (start : invariant initial)
    (allowed : Admissible step legal initial ops) :
    ∃ final, run step initial ops = some final ∧ invariant final := by
  induction ops generalizing initial with
  | nil => exact ⟨initial, rfl, start⟩
  | cons op ops induction =>
      obtain ⟨next, first, kept⟩ := total start allowed.1
      obtain ⟨final, execution, met⟩ := induction kept (allowed.2 next first)
      exact ⟨final, run_cons_eq_some.mpr ⟨next, first, execution⟩, met⟩

/-- What is known of each operation may be added to what is allowed. -/
theorem Admissible.imp {legal legal' : σ → ι → Prop} {initial : σ} {ops : List ι}
    (weaker : ∀ state, ∀ op ∈ ops, legal state op → legal' state op)
    (allowed : Admissible step legal initial ops) : Admissible step legal' initial ops := by
  induction ops generalizing initial with
  | nil => trivial
  | cons op ops induction =>
      obtain ⟨here, later⟩ := allowed
      exact ⟨weaker initial op (by simp) here, fun next first =>
        induction (fun state op member => weaker state op (by simp [member])) (later next first)⟩

theorem Admissible.append {legal : σ → ι → Prop} {initial : σ} {first second : List ι}
    (allowed : Admissible step legal initial (first ++ second)) :
    Admissible step legal initial first ∧
      ∀ middle, run step initial first = some middle → Admissible step legal middle second := by
  induction first generalizing initial with
  | nil =>
      refine ⟨trivial, fun middle execution => ?_⟩
      obtain rfl : initial = middle := by simpa using execution
      exact allowed
  | cons op ops induction =>
      obtain ⟨here, later⟩ := allowed
      refine ⟨⟨here, fun next step_eq => (induction (later next step_eq)).1⟩,
        fun middle execution => ?_⟩
      obtain ⟨next, step_eq, rest⟩ := run_cons_eq_some.mp execution
      exact (induction (later next step_eq)).2 middle rest

/-- An invariant which allowed operations keep holds behind a completed run of such operations. -/
theorem Admissible.run_invariant {legal : σ → ι → Prop} (invariant : σ → Prop)
    (kept : ∀ {state next op}, invariant state → legal state op →
      step state op = some next → invariant next)
    {initial final : σ} {ops : List ι} (start : invariant initial)
    (allowed : Admissible step legal initial ops) (execution : run step initial ops = some final) :
    invariant final := by
  induction ops generalizing initial with
  | nil =>
      obtain rfl : initial = final := by simpa using execution
      exact start
  | cons op ops induction =>
      obtain ⟨next, first, rest⟩ := run_cons_eq_some.mp execution
      exact induction (kept start allowed.1 first) (allowed.2 next first) rest

/-- The condition which the completed steps of a run meet may be added to what is allowed. -/
theorem Admissible.and_allSteps {legal condition : σ → ι → Prop} {initial : σ} {ops : List ι}
    (allowed : Admissible step legal initial ops) (met : AllSteps step condition initial ops) :
    Admissible step (fun state op => legal state op ∧
      ∀ next, step state op = some next → condition state op) initial ops := by
  induction ops generalizing initial with
  | nil => trivial
  | cons op ops induction =>
      exact ⟨⟨allowed.1, fun next first => (met next first).1⟩, fun next first =>
        induction (allowed.2 next first) (met next first).2⟩

/-- Along allowed operations an invariant makes two conditions agree. -/
theorem Admissible.allSteps_congr {legal condition condition' : σ → ι → Prop}
    (invariant : σ → Prop)
    (agree : ∀ {state next op}, invariant state → legal state op → step state op = some next →
      (condition state op ↔ condition' state op))
    (kept : ∀ {state next op}, invariant state → legal state op →
      step state op = some next → invariant next)
    {initial : σ} (start : invariant initial) {ops : List ι}
    (allowed : Admissible step legal initial ops) :
    AllSteps step condition initial ops ↔ AllSteps step condition' initial ops := by
  induction ops generalizing initial with
  | nil => exact Iff.rfl
  | cons op ops induction =>
      apply forall₂_congr
      intro next first
      exact and_congr (agree start allowed.1 first)
        (induction (kept start allowed.1 first) (allowed.2 next first))

/-- Along allowed operations `good` holds throughout exactly when the steps meet `condition`,
provided the allowed steps that meet it keep an invariant inside `good` and an allowed step that
violates it leaves `good` at once. -/
theorem Admissible.allStates_iff_allSteps {legal good condition} (invariant : σ → Prop)
    (sound : ∀ {state}, invariant state → good state)
    (kept : ∀ {state next op}, invariant state → legal state op → condition state op →
      step state op = some next → invariant next)
    (broken : ∀ {state next op}, invariant state → legal state op → ¬ condition state op →
      step state op = some next → ¬ good next)
    {initial : σ} (start : invariant initial) {ops : List ι}
    (allowed : Admissible step legal initial ops) :
    AllStates step good initial ops ↔ AllSteps step condition initial ops := by
  induction ops generalizing initial with
  | nil => exact ⟨fun _ => trivial, fun _ => sound start⟩
  | cons op ops induction =>
      obtain ⟨legal, laterAllowed⟩ := allowed
      constructor
      · rintro ⟨-, later⟩ next first
        have here : condition initial op := by
          by_contra violated
          refine broken start legal violated first ?_
          cases ops with
          | nil => exact later next first
          | cons => exact (later next first).1
        exact ⟨here, (induction (kept start legal here first) (laterAllowed next first)).mp
          (later next first)⟩
      · refine fun met => ⟨sound start, fun next first => ?_⟩
        obtain ⟨here, later⟩ := met next first
        exact (induction (kept start legal here first) (laterAllowed next first)).mpr later

/-- `good` holds throughout a run exactly when its steps meet `condition`, provided the steps that
meet it keep an invariant inside `good` and a step that violates it leaves `good` at once. -/
theorem allStates_iff_allSteps {good : σ → Prop} {condition : σ → ι → Prop} (invariant : σ → Prop)
    (sound : ∀ {state}, invariant state → good state)
    (kept : ∀ {state next op}, invariant state → condition state op →
      step state op = some next → invariant next)
    (broken : ∀ {state next op}, invariant state → ¬ condition state op →
      step state op = some next → ¬ good next)
    {initial : σ} (start : invariant initial) (ops : List ι) :
    AllStates step good initial ops ↔ AllSteps step condition initial ops :=
  (admissible_of_all (fun _ _ => trivial) initial ops).allStates_iff_allSteps invariant sound
    (fun held _ => kept held) (fun held _ => broken held) start

/-! ## Calls with results -/

/-- Make calls one after the other; collect their results. -/
def replay {ρ : Type*} (call : σ → ι → ρ × σ) : σ → List ι → List ρ × σ
  | state, [] => ([], state)
  | state, op :: ops =>
      let (results, final) := replay call (call state op).2 ops
      ((call state op).1 :: results, final)

/-- A relation under which two components answer each call alike makes them answer all calls
alike. -/
theorem replay_simulates {τ ρ : Type*} {call : σ → ι → ρ × σ} {call' : τ → ι → ρ × τ}
    (related : σ → τ → Prop)
    (alike : ∀ {state state'} (op : ι), related state state' →
      (call state op).1 = (call' state' op).1 ∧ related (call state op).2 (call' state' op).2)
    {initial : σ} {initial' : τ} (start : related initial initial') (ops : List ι) :
    (replay call initial ops).1 = (replay call' initial' ops).1 ∧
      related (replay call initial ops).2 (replay call' initial' ops).2 := by
  induction ops generalizing initial initial' with
  | nil => exact ⟨rfl, start⟩
  | cons op ops induction =>
      obtain ⟨same, next⟩ := alike op start
      obtain ⟨results, final⟩ := induction next
      exact ⟨congrArg₂ List.cons same results, final⟩

end CommonLib.Execution
