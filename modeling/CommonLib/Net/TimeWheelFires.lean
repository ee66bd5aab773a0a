import CommonLib.Net.TimeWheelRange

/-!
# When a time wheel fires

An entry submitted or refreshed with `steps` steps waits in the bucket which the wheel reaches
`steps` steps later.  The distance of its bucket from the position of the wheel counts down.
-/

namespace CommonLib.TimeWheel

open Execution

/-- A call with a live entry that keeps the bucket indices in the wheel. -/
def Proper (wheel : TimeWheel) (op : WheelOp) : Prop :=
  wheel.Legal op ∧ wheel.Suits op

instance (wheel : TimeWheel) (op : WheelOp) : Decidable (wheel.Proper op) :=
  inferInstanceAs (Decidable (_ ∧ _))

/-- A call that neither cancels nor refreshes an entry and whose callback of it returns
`TIME_WHEEL_EXPIRE_LOOP`. -/
def Spares (bucket : Nat) : WheelOp → Prop
  | .submit _ => True
  | .cancel other | .refresh other => other ≠ bucket
  | .step loops => loops bucket = true

/-- The number of calls of `time_wheel_step`. -/
def stepCount (ops : List WheelOp) : Nat :=
  ops.countP fun op => op matches .step _

/-- From here on an entry runs at the step after `steps` steps and then every `steps` steps, and at
no other step, as long as it is left alone and returns `TIME_WHEEL_EXPIRE_LOOP`. -/
def OnTime (wheel : TimeWheel) (bucket steps : Nat) : Prop :=
  ∀ ops loops before after, (∀ op ∈ ops, Spares bucket op) →
    Admissible step Proper wheel ops → run step wheel ops = some before →
    before.Suits (.step loops) → before.stepWheel loops = some after →
    ((∃ turns, 1 ≤ turns ∧ stepCount ops + 1 = 1 + turns * steps) → after.ran.count bucket = 1) ∧
      (¬ (∃ turns, 1 ≤ turns ∧ stepCount ops + 1 = 1 + turns * steps) → bucket ∉ after.ran)

/-- The callback of an entry is run by the `rest`-th step from now. -/
structure Due (wheel : TimeWheel) (bucket steps rest : Nat) : Prop where
  inv : wheel.Inv
  alive : wheel.live bucket = true
  steps_eq : (wheel.steps bucket).toNat = steps
  rest_pos : 1 ≤ rest
  rest_le : rest ≤ wheel.maxSteps
  position : wheel.bucketIndex bucket + (rest - 1) = wheel.index ∨
    wheel.bucketIndex bucket + (rest - 1) = wheel.index + wheel.maxSteps

/-- In a wheel of ordinary size one correction is exact. -/
theorem corrected_of_small {wheel : TimeWheel} {difference : Int}
    (ordinary : wheel.maxSteps ≤ 2 ^ 31) (low : -wheel.maxSteps ≤ difference)
    (high : difference < wheel.maxSteps) :
    wheel.corrected difference =
      if difference < 0 then difference + wheel.maxSteps else difference := by
  have positive := wheel.maxSteps_pos
  unfold corrected toInt
  dsimp only
  split_ifs <;> omega

theorem submitIndex_of_small {wheel : TimeWheel} {steps : UInt32}
    (ordinary : wheel.maxSteps ≤ 2 ^ 31) (index : wheel.index < wheel.maxSteps)
    (fits : steps.toNat ≤ wheel.maxSteps) :
    wheel.submitIndex steps =
      if (wheel.index : Int) - steps.toNat < 0 then
        (wheel.index : Int) - steps.toNat + wheel.maxSteps
      else (wheel.index : Int) - steps.toNat := by
  rw [submitIndex, if_neg (by omega), corrected_of_small ordinary (by omega) (by omega)]

namespace Due

variable {wheel next : TimeWheel} {bucket steps rest : Nat}

/-- Calls that leave the entry and the position alone leave the countdown alone. -/
theorem of_same (due : wheel.Due bucket steps rest) (inv : next.Inv)
    (maxSteps : next.maxSteps = wheel.maxSteps) (index : next.index = wheel.index)
    (alive : next.live bucket = wheel.live bucket)
    (slot : next.bucketIndex bucket = wheel.bucketIndex bucket)
    (steps_same : next.steps bucket = wheel.steps bucket) : next.Due bucket steps rest where
  inv := inv
  alive := alive.trans due.alive
  steps_eq := steps_same ▸ due.steps_eq
  rest_pos := due.rest_pos
  rest_le := maxSteps ▸ due.rest_le
  position := by
    rw [slot, index, maxSteps]
    exact due.position

/-- The entry hangs under the position of the wheel when it is due with the next step. -/
theorem slot_eq_iff (due : wheel.Due bucket steps rest) :
    toInt (wheel.bucketIndex bucket) = wheel.index ↔ rest = 1 := by
  obtain ⟨low, high, same⟩ := due.inv.slots bucket due.alive
  have index := due.inv.index
  have rest_pos := due.rest_pos
  have rest_le := due.rest_le
  have position := due.position
  omega

/-- A step runs the callback of the entry if it is due, and counts down or starts again. -/
theorem stepWheel (due : wheel.Due bucket steps rest) (ordinary : wheel.maxSteps ≤ 2 ^ 31)
    (positive : 1 ≤ steps) (fits : steps ≤ wheel.maxSteps) {loops : Nat → Bool}
    (suits : wheel.Suits (.step loops)) (made : wheel.stepWheel loops = some next) :
    (rest = 1 → next.ran.count bucket = 1) ∧ (rest ≠ 1 → bucket ∉ next.ran) ∧
      (loops bucket = true → next.maxSteps = wheel.maxSteps ∧
        next.Due bucket steps (if rest = 1 then steps else rest - 1)) := by
  obtain ⟨contents, links⟩ := due.inv.links
  obtain ⟨other, contents', step, -, fired⟩ := stepWheel_spec links loops
  obtain rfl : next = other := Option.some.inj (made.symm.trans step)
  obtain ⟨other, added, step, moved, inside⟩ := due.inv.stepWheel loops
  obtain rfl : next = other := Option.some.inj (made.symm.trans step)
  have ran : next.ran = contents wheel.index := by rw [fired.ran, detach_ran, List.nil_append]
  have member : bucket ∈ contents wheel.index ↔ rest = 1 := by
    rw [links.mem, ← due.slot_eq_iff]
    simp [due.alive]
  refine ⟨fun now => ?_, fun later => ?_, fun again => ?_⟩
  · rw [ran]
    exact List.count_eq_one_of_mem (links.nodup _) (member.mpr now)
  · rw [ran]
    exact mt member.mp later
  · have index := due.inv.index
    have next_index : next.index = wheel.nextPosition := by
      rw [fired.index, detach_index, nextIndex_eq index]
    have steps_same : next.steps = wheel.steps := by rw [fired.steps, detach_steps]
    refine ⟨moved.maxSteps, due.inv.of_moved moved (inside.mpr suits), ?_, ?_, ?_, ?_, ?_⟩
    · exact (fired.live bucket).mpr ⟨by rw [detach_live]; exact due.alive, fun _ => again⟩
    · rw [steps_same, due.steps_eq]
    · have rest_pos := due.rest_pos
      split_ifs <;> omega
    · have rest_le := due.rest_le
      rw [moved.maxSteps]
      split_ifs <;> omega
    · have position := due.position
      have rest_pos := due.rest_pos
      have rest_le := due.rest_le
      rw [fired.bucketIndex, next_index, moved.maxSteps, detach_bucketIndex]
      by_cases now : rest = 1
      · rw [if_pos ⟨member.mpr now, again⟩, if_pos now]
        have bound := nextPosition_lt index
        have looped : wheel.detach.loopIndex bucket =
            if (wheel.nextPosition : Int) - steps + 1 < 0 then
              (wheel.nextPosition : Int) - steps + 1 + wheel.maxSteps
            else (wheel.nextPosition : Int) - steps + 1 := by
          rw [detach_loopIndex index, due.steps_eq,
            corrected_of_small ordinary (by omega) (by omega)]
        have slot : (toUnsigned (wheel.detach.loopIndex bucket) : Int) =
            wheel.detach.loopIndex bucket := by
          apply toUnsigned_of_small <;> rw [looped] <;> split_ifs <;> omega
        split_ifs at looped <;> omega
      · rw [if_neg (fun here => now (member.mp here.1)), if_neg now]
        unfold nextPosition
        split_ifs <;> omega

/-- A call that leaves the entry alone: a step counts down, the others do not. -/
theorem step (due : wheel.Due bucket steps rest) (ordinary : wheel.maxSteps ≤ 2 ^ 31)
    (positive : 1 ≤ steps) (fits : steps ≤ wheel.maxSteps) {op : WheelOp}
    (spares : Spares bucket op) (proper : wheel.Proper op) (made : wheel.step op = some next) :
    next.maxSteps = wheel.maxSteps ∧
      next.Due bucket steps
        (if stepCount [op] = 0 then rest else if rest = 1 then steps else rest - 1) := by
  obtain ⟨other, added, step, moved, inside⟩ := due.inv.step proper.1
  obtain rfl : next = other := Option.some.inj (made.symm.trans step)
  have inv := due.inv.of_moved moved (inside.mpr proper.2)
  refine ⟨moved.maxSteps, ?_⟩
  cases op with
  | submit new =>
      obtain ⟨contents, links⟩ := due.inv.links
      obtain rfl : wheel.submit new = next := Option.some.inj made
      have old : bucket ≠ wheel.allocs := Nat.ne_of_lt (links.below bucket due.alive)
      exact due.of_same inv rfl rfl (by simp [submit, push, old]) (by simp [submit, push, old])
        (by simp [submit, push, old])
  | cancel other =>
      obtain rfl : wheel.cancel other = next := Option.some.inj made
      exact due.of_same inv rfl rfl (by simp [cancel, free, unlink, Ne.symm spares]) rfl rfl
  | refresh other =>
      have made : wheel.refresh other = some next := made
      unfold refresh at made
      split_ifs at made
      obtain rfl := Option.some.inj made
      exact due.of_same inv rfl rfl rfl (by simp [push, unlink, Ne.symm spares]) rfl
  | step loops =>
      exact ((due.stepWheel ordinary positive fits proper.2 made).2.2 spares).2

end Due

/-! ## Countdowns along runs -/

/-- After `past` steps the callback is due in `rest` steps, at a step `1 + turns * steps`, and not
earlier at another such step. -/
def Phase (steps past rest : Nat) : Prop :=
  ∃ turns, past + rest = (turns + 1) * steps + 1 ∧ (rest ≤ steps ∨ turns = 0)

theorem phase_start (steps : Nat) : Phase steps 0 (steps + 1) :=
  ⟨0, by omega, .inr rfl⟩

theorem Phase.step {steps past rest : Nat} (phase : Phase steps past rest) (rest_pos : 1 ≤ rest) :
    Phase steps (past + 1) (if rest = 1 then steps else rest - 1) := by
  obtain ⟨turns, sum, first⟩ := phase
  by_cases now : rest = 1
  · rw [if_pos now]
    refine ⟨turns + 1, ?_, .inl (Nat.le_refl steps)⟩
    rw [Nat.add_mul _ 1, Nat.one_mul]
    omega
  · rw [if_neg now]
    exact ⟨turns, by omega, first.imp (fun _ => by omega) id⟩

theorem Phase.rest_eq_one_iff {steps past rest : Nat} (phase : Phase steps past rest)
    (rest_pos : 1 ≤ rest) (positive : 1 ≤ steps) :
    rest = 1 ↔ ∃ turns, 1 ≤ turns ∧ past + 1 = 1 + turns * steps := by
  obtain ⟨turns, sum, first⟩ := phase
  constructor
  · rintro rfl
    exact ⟨turns + 1, by omega, by omega⟩
  · rintro ⟨turns', turns'_pos, fires⟩
    rcases first with within | rfl
    · -- Two multiples of `steps` that are less than `steps` apart are the same.
      have apart : turns' * steps + (rest - 1) = (turns + 1) * steps := by omega
      have same : turns' = turns + 1 := by
        have quotient := congrArg (· / steps) apart
        simp only [Nat.mul_div_cancel _ positive] at quotient
        rw [Nat.mul_comm, Nat.mul_add_div positive, Nat.div_eq_of_lt (by omega)] at quotient
        omega
      rw [same] at apart
      omega
    · have least := Nat.mul_le_mul_right steps turns'_pos
      omega

theorem Due.run {wheel next : TimeWheel} {bucket steps rest past : Nat} {ops : List WheelOp}
    (due : wheel.Due bucket steps rest) (ordinary : wheel.maxSteps ≤ 2 ^ 31)
    (positive : 1 ≤ steps) (fits : steps ≤ wheel.maxSteps)
    (spares : ∀ op ∈ ops, Spares bucket op) (proper : Admissible TimeWheel.step Proper wheel ops)
    (execution : Execution.run TimeWheel.step wheel ops = some next) (phase : Phase steps past rest) :
    next.maxSteps = wheel.maxSteps ∧
      ∃ rest', next.Due bucket steps rest' ∧ Phase steps (past + stepCount ops) rest' := by
  induction ops generalizing wheel past rest with
  | nil =>
      obtain rfl : wheel = next := by simpa using execution
      exact ⟨rfl, rest, due, phase⟩
  | cons op ops induction =>
      obtain ⟨middle, first, execution⟩ := run_cons_eq_some.mp execution
      obtain ⟨maxSteps, due'⟩ := due.step ordinary positive fits (spares op (by simp)) proper.1 first
      have phase' : Phase steps (past + stepCount [op])
          (if stepCount [op] = 0 then rest else if rest = 1 then steps else rest - 1) := by
        cases op with
        | step loops => exact phase.step due.rest_pos
        | submit new => exact phase
        | cancel other => exact phase
        | refresh other => exact phase
      have count : past + stepCount (op :: ops) = past + stepCount [op] + stepCount ops := by
        rw [← List.singleton_append, stepCount, List.countP_append, ← Nat.add_assoc]
        rfl
      obtain ⟨maxSteps', final⟩ := induction due' (by rw [maxSteps]; exact ordinary)
        (by rw [maxSteps]; exact fits) (fun op member => spares op (by simp [member]))
        (proper.2 middle first) execution phase'
      exact ⟨maxSteps'.trans maxSteps, count ▸ final⟩

/-- An entry whose countdown starts with `steps + 1` fires on time. -/
theorem Due.onTime {wheel : TimeWheel} {bucket steps : Nat}
    (due : wheel.Due bucket steps (steps + 1)) (ordinary : wheel.maxSteps ≤ 2 ^ 31)
    (positive : 1 ≤ steps) : wheel.OnTime bucket steps := by
  intro ops loops before after spares proper execution suits made
  have fits : steps ≤ wheel.maxSteps := Nat.le_trans (Nat.le_succ steps) due.rest_le
  obtain ⟨maxSteps, rest, due', phase⟩ :=
    due.run ordinary positive fits spares proper execution (phase_start steps)
  rw [Nat.zero_add] at phase
  obtain ⟨now, later, -⟩ := due'.stepWheel (by rw [maxSteps]; exact ordinary) positive
    (by rw [maxSteps]; exact fits) suits made
  rw [← phase.rest_eq_one_iff due'.rest_pos positive]
  exact ⟨now, later⟩

theorem Inv.due_submit {wheel : TimeWheel} (inv : wheel.Inv) {steps : UInt32}
    (ordinary : wheel.maxSteps ≤ 2 ^ 31) (fits : steps.toNat < wheel.maxSteps) :
    (wheel.submit steps).Due wheel.allocs steps.toNat (steps.toNat + 1) := by
  obtain ⟨moved, inside⟩ := inv.submit steps
  have index := inv.index
  have placed := submitIndex_of_small ordinary index (Nat.le_of_lt fits)
  have landed : 0 ≤ wheel.submitIndex steps ∧ wheel.submitIndex steps < wheel.maxSteps := by
    rw [placed]
    split_ifs <;> omega
  have slot : ((wheel.submit steps).bucketIndex wheel.allocs : Int) = wheel.submitIndex steps := by
    rw [← toUnsigned_of_small landed.1 (by omega)]
    simp [TimeWheel.submit, push]
  refine ⟨inv.of_moved moved ?_, by simp [TimeWheel.submit, push],
    by simp [TimeWheel.submit, push], by omega,
    show steps.toNat + 1 ≤ wheel.maxSteps from fits, ?_⟩
  · simpa [Inside] using landed
  · have index_same : (wheel.submit steps).index = wheel.index := rfl
    have maxSteps_same : (wheel.submit steps).maxSteps = wheel.maxSteps := rfl
    rw [index_same, maxSteps_same]
    split_ifs at placed <;> omega

theorem Inv.due_refresh {wheel next : TimeWheel} (inv : wheel.Inv) {bucket : Nat}
    (ordinary : wheel.maxSteps ≤ 2 ^ 31) (alive : wheel.live bucket = true)
    (fits : (wheel.steps bucket).toNat < wheel.maxSteps)
    (made : wheel.refresh bucket = some next) :
    next.maxSteps = wheel.maxSteps ∧ next.Due bucket (wheel.steps bucket).toNat
      ((wheel.steps bucket).toNat + 1) := by
  obtain ⟨other, step, moved, inside⟩ := inv.refresh alive
  obtain rfl : next = other := Option.some.inj (made.symm.trans step)
  have index := inv.index
  let place := wheel.corrected (wheel.index - (wheel.steps bucket).toNat)
  have placed : place = if (wheel.index : Int) - (wheel.steps bucket).toNat < 0 then
      (wheel.index : Int) - (wheel.steps bucket).toNat + wheel.maxSteps
      else (wheel.index : Int) - (wheel.steps bucket).toNat :=
    corrected_of_small ordinary (by omega) (by omega)
  have landed : 0 ≤ place ∧ place < wheel.maxSteps := by
    rw [placed]
    split_ifs <;> omega
  have next_eq : next = (wheel.unlink bucket).push bucket place := by
    unfold TimeWheel.refresh at made
    split_ifs at made
    exact (Option.some.inj made).symm
  have slot : (next.bucketIndex bucket : Int) = place := by
    rw [← toUnsigned_of_small landed.1 (by omega), next_eq]
    simp [push]
  have index_same : next.index = wheel.index := by simp [next_eq, push, unlink]
  have steps_same : next.steps = wheel.steps := by simp [next_eq, push, unlink]
  refine ⟨moved.maxSteps, inv.of_moved moved ?_, ?_, by rw [steps_same], by omega, ?_, ?_⟩
  · intro used member
    obtain ⟨low, high, -⟩ := inv.slots bucket alive
    rcases List.mem_pair.mp member with old | new
    · rw [old]
      exact ⟨low, high⟩
    · rw [new]
      exact landed
  · rw [next_eq]
    exact alive
  · rw [moved.maxSteps]
    exact fits
  · rw [index_same, moved.maxSteps]
    split_ifs at placed <;> omega

/-! ## Steps that are too long, and wheels that are too large -/

/-- A step at which no callback loops inserts nothing. -/
theorem suits_of_none_loops (wheel : TimeWheel) : wheel.Suits (.step fun _ => false) := by
  intro bucket _ _ _ loops
  cases loops

/-- With as many steps as the wheel has buckets an entry is put under the position of the wheel. -/
theorem Inv.not_onTime_of_full {wheel : TimeWheel} (inv : wheel.Inv) {steps : UInt32}
    (ordinary : wheel.maxSteps ≤ 2 ^ 31) (full : steps.toNat = wheel.maxSteps) :
    ¬ (wheel.submit steps).OnTime wheel.allocs steps.toNat := by
  intro onTime
  obtain ⟨moved, -⟩ := inv.submit steps
  obtain ⟨contents, links⟩ := moved.links
  obtain ⟨after, contents', made, -, fired⟩ := stepWheel_spec links fun _ => false
  have index := inv.index
  have placed : wheel.submitIndex steps = wheel.index := by
    rw [submitIndex_of_small ordinary index (Nat.le_of_eq full), full]
    split_ifs <;> omega
  have slot : toInt ((wheel.submit steps).bucketIndex wheel.allocs) = wheel.index := by
    rw [← placed, ← toInt_toUnsigned (wheel.submitIndex_ge steps) (wheel.submitIndex_lt steps)]
    simp [TimeWheel.submit, push]
  have ran : wheel.allocs ∈ after.ran := by
    rw [fired.ran, detach_ran, List.nil_append, links.mem, slot]
    simp [TimeWheel.submit, push]
  refine (onTime [] (fun _ => false) _ after (by simp) trivial rfl (suits_of_none_loops _) made).2
    ?_ ran
  rintro ⟨turns, turns_pos, fires⟩
  have positive := wheel.maxSteps_pos
  have least := Nat.mul_le_mul turns_pos (full ▸ positive : 1 ≤ steps.toNat)
  simp only [stepCount, List.countP_nil] at fires
  omega

/-- A wheel whose position does not fit in an `int` stays where it is, and an entry in another
bucket stays there.  The callback of the entry would return `TIME_WHEEL_EXPIRE_LOOP`. -/
theorem stuck_step {wheel : TimeWheel} {bucket : Nat} {contents : Int → List Nat}
    (links : wheel.Links contents []) (huge : 2 ^ 31 ≤ wheel.index)
    (top : wheel.index + 1 = wheel.maxSteps) (alive : wheel.live bucket = true) :
    ∃ next contents', wheel.stepWheel (· = bucket) = some next ∧ next.Links contents' [] ∧
      next.index = wheel.index ∧ next.maxSteps = wheel.maxSteps ∧ next.live bucket = true ∧
      next.steps = wheel.steps ∧ next.bucketIndex bucket = wheel.bucketIndex bucket ∧
      bucket ∉ next.ran := by
  obtain ⟨next, contents', made, links', fired⟩ := stepWheel_spec links (· = bucket)
  have elsewhere : bucket ∉ contents wheel.index := fun member => by
    have small := toInt_lt (wheel.bucketIndex bucket)
    have here := ((links.mem bucket wheel.index).mp member).2.2
    omega
  refine ⟨next, contents', made, links', ?_, by rw [fired.maxSteps, detach_maxSteps], ?_,
    by rw [fired.steps, detach_steps], ?_, ?_⟩
  · rw [fired.index, detach_index, nextIndex_eq (by omega), nextPosition]
    split_ifs <;> omega
  · exact (fired.live bucket).mpr
      ⟨by rw [detach_live]; exact alive, fun here => absurd here elsewhere⟩
  · rw [fired.bucketIndex, if_neg (fun here => elsewhere here.1), detach_bucketIndex]
  · rwa [fired.ran, detach_ran, List.nil_append]

theorem stuck_suits {wheel : TimeWheel} {bucket : Nat} (huge : 2 ^ 31 ≤ wheel.index)
    (top : wheel.index + 1 = wheel.maxSteps)
    (lands : wheel.bucketIndex bucket = wheel.index →
      (wheel.steps bucket).toNat = wheel.maxSteps) :
    wheel.Suits (.step (· = bucket)) := by
  intro other _ _ here loops
  obtain rfl : other = bucket := of_decide_eq_true loops
  have full := lands here
  have position : wheel.nextPosition = wheel.index := by
    unfold nextPosition
    split_ifs <;> omega
  rw [position, full, Lands]
  omega

theorem stuck_run {wheel : TimeWheel} {bucket : Nat} {contents : Int → List Nat}
    (links : wheel.Links contents []) (huge : 2 ^ 31 ≤ wheel.index)
    (top : wheel.index + 1 = wheel.maxSteps) (alive : wheel.live bucket = true)
    (lands : wheel.bucketIndex bucket = wheel.index →
      (wheel.steps bucket).toNat = wheel.maxSteps) (count : Nat) :
    ∃ before after, run step wheel (List.replicate count (.step (· = bucket))) = some before ∧
      Admissible step Proper wheel (List.replicate count (.step (· = bucket))) ∧
      before.Suits (.step (· = bucket)) ∧ before.stepWheel (· = bucket) = some after ∧
      bucket ∉ after.ran := by
  induction count generalizing wheel contents with
  | zero =>
      obtain ⟨next, -, made, -, -, -, -, -, -, absent⟩ := stuck_step links huge top alive
      exact ⟨wheel, next, rfl, trivial, stuck_suits huge top lands, made, absent⟩
  | succ count induction =>
      obtain ⟨next, contents', made, links', index, maxSteps, alive', steps, slot, -⟩ :=
        stuck_step links huge top alive
      obtain ⟨before, after, execution, proper, final⟩ := induction links' (by omega) (by omega)
        alive' (by rw [slot, index, steps, maxSteps]; exact lands)
      refine ⟨before, after, run_cons_eq_some.mpr ⟨next, made, execution⟩,
        ⟨⟨trivial, stuck_suits huge top lands⟩, fun other made' => ?_⟩, final⟩
      obtain rfl : next = other := Option.some.inj (made.symm.trans made')
      exact proper

/-- In a wheel of more than `2 ^ 31` buckets the entry never runs. -/
theorem Inv.not_onTime_of_huge {wheel : TimeWheel} (inv : wheel.Inv) {steps : UInt32}
    (positive : 1 ≤ steps.toNat) (fits : steps.toNat ≤ wheel.maxSteps)
    (huge : 2 ^ 31 ≤ wheel.index) (top : wheel.index + 1 = wheel.maxSteps) :
    ¬ (wheel.submit steps).OnTime wheel.allocs steps.toNat := by
  intro onTime
  obtain ⟨moved, -⟩ := inv.submit steps
  obtain ⟨contents, links⟩ := moved.links
  have maxSteps_lt := wheel.maxSteps_lt
  have index : (wheel.submit steps).index = wheel.index := by simp [TimeWheel.submit, push]
  have alive : (wheel.submit steps).live wheel.allocs = true := by simp [TimeWheel.submit, push]
  have steps_eq : (wheel.submit steps).steps wheel.allocs = steps := by
    simp [TimeWheel.submit, push]
  have slot : (wheel.submit steps).bucketIndex wheel.allocs =
      toUnsigned (wheel.submitIndex steps) := by
    simp [TimeWheel.submit, push]
  have lands : (wheel.submit steps).bucketIndex wheel.allocs = (wheel.submit steps).index →
      ((wheel.submit steps).steps wheel.allocs).toNat = (wheel.submit steps).maxSteps := by
    rw [slot, index, steps_eq, moved.maxSteps, submitIndex, if_neg (by omega)]
    unfold toUnsigned corrected toInt
    dsimp only
    split_ifs <;> omega
  obtain ⟨before, after, execution, proper, suits, made, absent⟩ :=
    stuck_run links (by omega) (by rw [moved.maxSteps]; omega) alive lands steps.toNat
  have count : stepCount (List.replicate steps.toNat (.step (· = wheel.allocs))) =
      steps.toNat := by
    simp [stepCount, List.countP_replicate]
  have once := (onTime _ (· = wheel.allocs) before after
    (fun op member => by simp [List.eq_of_mem_replicate member, Spares]) proper execution suits
    made).1 ⟨1, Nat.le_refl 1, by rw [count]; omega⟩
  exact absent (List.count_pos_iff.mp (once ▸ Nat.one_pos))

/-! ## Firing on time -/

theorem Inv.index_step {wheel next : TimeWheel} (inv : wheel.Inv) {op : WheelOp}
    (made : wheel.step op = some next) :
    next.index = wheel.index ∨ next.index = wheel.nextPosition := by
  cases op with
  | submit steps =>
      obtain rfl : wheel.submit steps = next := Option.some.inj made
      exact .inl (by simp [TimeWheel.submit, push])
  | cancel bucket =>
      obtain rfl : wheel.cancel bucket = next := Option.some.inj made
      exact .inl (by simp [TimeWheel.cancel, free, unlink])
  | refresh bucket =>
      have made : wheel.refresh bucket = some next := made
      unfold TimeWheel.refresh at made
      split_ifs at made
      obtain rfl := Option.some.inj made
      exact .inl (by simp [push, unlink])
  | step loops =>
      obtain ⟨contents, links⟩ := inv.links
      obtain ⟨other, -, step, -, fired⟩ := stepWheel_spec links loops
      obtain rfl : next = other := Option.some.inj (made.symm.trans step)
      exact .inr (by rw [fired.index, detach_index, nextIndex_eq inv.index])

/-- What holds of a wheel that proper calls reach; one of more than `2 ^ 31` buckets is always at
its last bucket. -/
structure Reached (maxSteps : UInt32) (wheel : TimeWheel) : Prop where
  inv : wheel.Inv
  maxSteps_eq : wheel.maxSteps = maxSteps.toNat
  top : 2 ^ 31 < wheel.maxSteps → wheel.index + 1 = wheel.maxSteps

theorem reached {maxSteps : UInt32} (positive : 1 ≤ maxSteps.toNat) {ops : List WheelOp}
    {wheel : TimeWheel} (proper : Admissible step Proper (create maxSteps positive) ops)
    (execution : run step (create maxSteps positive) ops = some wheel) :
    Reached maxSteps wheel := by
  have start : Reached maxSteps (create maxSteps positive) :=
    ⟨Inv.create maxSteps positive, rfl, fun _ => Nat.sub_add_cancel positive⟩
  obtain ⟨other, execution', kept⟩ := exists_run_of_admissible (Reached maxSteps)
    (fun {wheel op} reached proper => by
      obtain ⟨next, added, step, moved, inside⟩ := reached.inv.step proper.1
      refine ⟨next, step, reached.inv.of_moved moved (inside.mpr proper.2),
        moved.maxSteps.trans reached.maxSteps_eq, fun huge => ?_⟩
      have top := reached.top (moved.maxSteps ▸ huge)
      have maxSteps_eq := moved.maxSteps
      rcases reached.inv.index_step step with same | moved_on
      · omega
      · rw [moved_on, maxSteps_eq]
        unfold nextPosition
        split_ifs <;> omega) start proper
  obtain rfl : wheel = other := Option.some.inj (execution.symm.trans execution')
  exact kept

/-- In every wheel that is in use, an entry with `steps` steps fires on time after its submission
and after each refresh exactly when `steps` is less than the number of buckets, which has to fit in
an `int`. -/
theorem time_wheel_fires_on_time_iff {maxSteps : UInt32} (positive : 1 ≤ maxSteps.toNat)
    {ops : List WheelOp} {wheel : TimeWheel}
    (proper : Admissible step Proper (create maxSteps positive) ops)
    (execution : run step (create maxSteps positive) ops = some wheel) {steps : UInt32}
    (steps_pos : 1 ≤ steps.toNat) (fits : steps.toNat ≤ maxSteps.toNat) :
    ((wheel.submit steps).OnTime wheel.allocs steps.toNat ∧
      ∀ bucket next, wheel.live bucket = true → wheel.steps bucket = steps →
        wheel.refresh bucket = some next → next.OnTime bucket steps.toNat) ↔
      steps.toNat < maxSteps.toNat ∧ maxSteps.toNat ≤ 2 ^ 31 := by
  have reach := reached positive proper execution
  have inv := reach.inv
  have maxSteps_eq := reach.maxSteps_eq
  constructor
  · rintro ⟨onTime, -⟩
    by_contra late
    rcases Nat.lt_or_ge (2 ^ 31) maxSteps.toNat with huge | ordinary
    · have top := reach.top (by omega)
      exact inv.not_onTime_of_huge steps_pos (by omega) (by omega) top onTime
    · exact inv.not_onTime_of_full (by omega) (by omega) onTime
  · rintro ⟨short, ordinary⟩
    refine ⟨(inv.due_submit (by omega) (by omega)).onTime ?_ steps_pos,
      fun bucket next alive steps_eq made => ?_⟩
    · show wheel.maxSteps ≤ 2 ^ 31
      omega
    · obtain ⟨same, due⟩ := inv.due_refresh (by omega) alive (by rw [steps_eq]; omega) made
      rw [steps_eq] at due
      exact due.onTime (by omega) steps_pos

/-- Three steps in a wheel of four buckets that has moved on. -/
theorem time_wheel_fires_on_time_iff_four :
    ∃ wheel, run step (create 4 (by decide)) [.submit 2, .step fun _ => true] = some wheel ∧
      (wheel.submit 3).OnTime wheel.allocs 3 := by
  have proper : Admissible step Proper (create 4 (by decide))
      [.submit 2, .step fun _ => true] := by decide
  have runs : (run step (create 4 (by decide)) [.submit 2, .step fun _ => true]).isSome := by
    decide
  obtain ⟨wheel, execution⟩ := Option.isSome_iff_exists.mp runs
  have onTime := (time_wheel_fires_on_time_iff (by decide) proper execution
    (by decide : 1 ≤ (3 : UInt32).toNat) (by decide)).mpr (by decide)
  exact ⟨wheel, execution, onTime.1⟩

/-- An entry with four steps in a new wheel of four buckets runs at the next step. -/
theorem full_steps_fire_at_once :
    ¬ ∀ (maxSteps : UInt32) (positive : 1 ≤ maxSteps.toNat) (ops : List WheelOp)
      (wheel : TimeWheel), Admissible step Proper (create maxSteps positive) ops →
      run step (create maxSteps positive) ops = some wheel →
      ∀ steps : UInt32, 1 ≤ steps.toNat → steps.toNat ≤ maxSteps.toNat →
        (wheel.submit steps).OnTime wheel.allocs steps.toNat := by
  intro onTime
  have start := Inv.create 4 (by decide)
  exact start.not_onTime_of_full (by decide) (by decide)
    (onTime 4 (by decide) [] _ trivial rfl 4 (by decide) (by decide))

end CommonLib.TimeWheel
