import CommonLib.Library.Execution
import CommonLib.Net.TimeWheel

/-!
# The bucket indices of a time wheel

Four places of `time_wheel.c` compute a bucket index.  A run uses only indices of the wheel exactly
when the steps of the entries suit the positions at which they are inserted.
-/

namespace CommonLib.TimeWheel

open Execution

/-- Every bucket index used lies in the wheel, and every live entry is linked in exactly the bucket
named by its index field. -/
structure InRange (wheel : TimeWheel) : Prop where
  used : ∀ index ∈ wheel.used, 0 ≤ index ∧ index < wheel.maxSteps
  linked : ∃ contents : Nat → List Nat,
    (∀ index < wheel.maxSteps, wheel.buckets index = (contents index).head? ∧
      DoubleChain wheel.next wheel.prev none (contents index) none) ∧
    ∀ bucket, wheel.live bucket = true → wheel.bucketIndex bucket < wheel.maxSteps ∧
      ∀ index < wheel.maxSteps, bucket ∈ contents index ↔ wheel.bucketIndex bucket = index

/-- A difference that one correction takes into the wheel: it lies there, it is negative and the
correction suffices, or one of the conversions wraps around and it lands there all the same. -/
def Lands (wheel : TimeWheel) (difference : Int) : Prop :=
  (0 ≤ difference ∧ difference < 2 ^ 31 ∧ difference < wheel.maxSteps) ∨
  (-2 ^ 31 ≤ difference ∧ difference < 0 ∧ 0 ≤ difference + wheel.maxSteps ∧
    difference + wheel.maxSteps < 2 ^ 31) ∨
  (difference < -2 ^ 31 ∧ difference + 2 ^ 32 < wheel.maxSteps) ∨
  (2 ^ 31 ≤ difference ∧ 2 ^ 32 ≤ difference + wheel.maxSteps ∧
    difference + wheel.maxSteps < 2 ^ 32 + 2 ^ 31)

/-- The position of the wheel after a step. -/
def nextPosition (wheel : TimeWheel) : Nat :=
  if 0 < wheel.index ∧ wheel.index < 2 ^ 31 then wheel.index - 1 else wheel.maxSteps - 1

/-- The steps of the entry, or of each entry that a step reinserts, suit the position. -/
def Suits (wheel : TimeWheel) : WheelOp → Prop
  | .submit steps =>
      if wheel.maxSteps < steps.toNat then
        wheel.maxSteps ≤ wheel.index + 1 ∨ wheel.index + 1 < 2 ^ 31
      else wheel.Lands (wheel.index - steps.toNat)
  | .cancel _ => True
  | .refresh bucket => wheel.Lands (wheel.index - (wheel.steps bucket).toNat)
  | .step loops =>
      ∀ bucket < wheel.allocs, wheel.live bucket = true →
        wheel.bucketIndex bucket = wheel.index → loops bucket = true →
        wheel.Lands (wheel.nextPosition - (wheel.steps bucket).toNat + 1)

instance (wheel : TimeWheel) (difference : Int) : Decidable (wheel.Lands difference) := by
  unfold Lands
  infer_instance

instance decidableSuits (wheel : TimeWheel) : (op : WheelOp) → Decidable (wheel.Suits op)
  | .submit steps =>
      inferInstanceAs (Decidable (if wheel.maxSteps < steps.toNat then
        wheel.maxSteps ≤ wheel.index + 1 ∨ wheel.index + 1 < 2 ^ 31
      else wheel.Lands (wheel.index - steps.toNat)))
  | .cancel _ => isTrue trivial
  | .refresh _ => inferInstanceAs (Decidable (wheel.Lands _))
  | .step loops =>
      inferInstanceAs (Decidable (∀ bucket < wheel.allocs, wheel.live bucket = true →
        wheel.bucketIndex bucket = wheel.index → loops bucket = true →
        wheel.Lands (wheel.nextPosition - (wheel.steps bucket).toNat + 1)))

/-- When an index lies in the wheel, for the differences that can arise. -/
theorem corrected_inside_iff {wheel : TimeWheel} {difference : Int} (low : -2 ^ 32 < difference)
    (high : difference < 2 ^ 32) :
    (0 ≤ wheel.corrected difference ∧ wheel.corrected difference < wheel.maxSteps) ↔
      wheel.Lands difference := by
  have positive := wheel.maxSteps_pos
  have small := wheel.maxSteps_lt
  unfold corrected Lands toInt
  dsimp only
  split_ifs <;> omega

theorem submitIndex_inside_iff {wheel : TimeWheel} (inside : wheel.index < wheel.maxSteps)
    (steps : UInt32) :
    (0 ≤ wheel.submitIndex steps ∧ wheel.submitIndex steps < wheel.maxSteps) ↔
      wheel.Suits (.submit steps) := by
  have positive := wheel.maxSteps_pos
  have small := wheel.maxSteps_lt
  have steps_lt := steps.toNat_lt
  rw [Suits, submitIndex]
  by_cases long : wheel.maxSteps < steps.toNat
  · rw [if_pos long, if_pos long]
    unfold toInt toUnsigned
    dsimp only
    split_ifs <;> omega
  · rw [if_neg long, if_neg long]
    exact corrected_inside_iff (by omega) (by omega)

theorem nextIndex_eq {wheel : TimeWheel} (inside : wheel.index < wheel.maxSteps) :
    wheel.nextIndex = wheel.nextPosition := by
  have positive := wheel.maxSteps_pos
  have small := wheel.maxSteps_lt
  unfold nextIndex nextPosition toInt toUnsigned
  dsimp only
  split_ifs <;> omega

/-! ## Runs in range -/

/-- The links are sound, and the indices used and the index fields lie in the wheel. -/
structure Inv (wheel : TimeWheel) : Prop where
  links : ∃ contents, wheel.Links contents []
  index : wheel.index < wheel.maxSteps
  used : ∀ index ∈ wheel.used, 0 ≤ index ∧ index < wheel.maxSteps
  slots : ∀ bucket, wheel.live bucket = true →
    0 ≤ toInt (wheel.bucketIndex bucket) ∧ toInt (wheel.bucketIndex bucket) < wheel.maxSteps ∧
      (wheel.bucketIndex bucket : Int) = toInt (wheel.bucketIndex bucket)

namespace Inv

variable {wheel : TimeWheel}

theorem create (maxSteps : UInt32) (positive : 1 ≤ maxSteps.toNat) :
    (create maxSteps positive).Inv where
  links := ⟨_, Links.create positive⟩
  index := Nat.sub_lt positive Nat.one_pos
  used := nofun
  slots bucket alive := by simp [TimeWheel.create] at alive

theorem inRange (inv : wheel.Inv) : wheel.InRange := by
  obtain ⟨contents, links⟩ := inv.links
  refine ⟨inv.used, fun index => contents index, fun index _ => ⟨links.head index, links.row index⟩,
    fun bucket alive => ?_⟩
  obtain ⟨low, high, same⟩ := inv.slots bucket alive
  refine ⟨by omega, fun index _ => ?_⟩
  rw [links.mem, ← same]
  simp [alive]

end Inv

/-- What a call does to the wheel when it uses the indices `added`. -/
structure Moved (wheel next : TimeWheel) (added : List Int) : Prop where
  links : ∃ contents, next.Links contents []
  maxSteps : next.maxSteps = wheel.maxSteps
  index : next.index < wheel.maxSteps
  used : next.used = wheel.used ++ added
  slots : ∀ bucket, next.live bucket = true →
    (wheel.live bucket = true ∧ next.bucketIndex bucket = wheel.bucketIndex bucket) ∨
      ∃ index ∈ added, index < 2 ^ 31 ∧ next.bucketIndex bucket = toUnsigned index

/-- The indices that a call uses lie in the wheel. -/
def Inside (wheel : TimeWheel) (added : List Int) : Prop :=
  ∀ index ∈ added, 0 ≤ index ∧ index < wheel.maxSteps

theorem nextPosition_lt {wheel : TimeWheel} (inside : wheel.index < wheel.maxSteps) :
    wheel.nextPosition < wheel.maxSteps := by
  unfold nextPosition
  split_ifs <;> omega

/-- The bucket index with which a step reinserts an entry. -/
theorem detach_loopIndex {wheel : TimeWheel} (inside : wheel.index < wheel.maxSteps)
    (bucket : Nat) :
    wheel.detach.loopIndex bucket =
      wheel.corrected (wheel.nextPosition - (wheel.steps bucket).toNat + 1) := by
  rw [loopIndex, detach_index, nextIndex_eq inside, detach_steps, corrected, corrected,
    detach_maxSteps]

namespace Inv

variable {wheel next : TimeWheel} {added : List Int}

theorem of_moved (inv : wheel.Inv) (moved : Moved wheel next added)
    (inside : wheel.Inside added) : next.Inv where
  links := moved.links
  index := moved.maxSteps ▸ moved.index
  used index member := by
    rw [moved.maxSteps]
    rcases List.mem_append.mp (moved.used ▸ member) with old | new
    · exact inv.used index old
    · exact inside index new
  slots bucket alive := by
    rw [moved.maxSteps]
    rcases moved.slots bucket alive with ⟨before, same⟩ | ⟨index, member, small, slot⟩
    · rw [same]
      exact inv.slots bucket before
    · obtain ⟨low, high⟩ := inside index member
      rw [slot, toInt_toUnsigned (by omega) small]
      exact ⟨low, high, toUnsigned_of_small low (by omega)⟩

theorem not_inRange_of_moved (moved : Moved wheel next added)
    (outside : ¬ wheel.Inside added) : ¬ next.InRange := by
  refine fun good => outside fun index member => ?_
  have used := good.used index (moved.used ▸ List.mem_append_right _ member)
  rwa [moved.maxSteps] at used

theorem submit (inv : wheel.Inv) (steps : UInt32) :
    Moved wheel (wheel.submit steps) [wheel.submitIndex steps] ∧
      (wheel.Inside [wheel.submitIndex steps] ↔ wheel.Suits (.submit steps)) := by
  obtain ⟨contents, links⟩ := inv.links
  refine ⟨⟨⟨_, (links.allocate steps).push (by simp) (by simp) (wheel.submitIndex_ge steps)
    (wheel.submitIndex_lt steps)⟩, rfl, inv.index, rfl, fun bucket alive => ?_⟩, ?_⟩
  · by_cases is_new : bucket = wheel.allocs
    · subst is_new
      exact .inr ⟨wheel.submitIndex steps, by simp, wheel.submitIndex_lt steps,
        by simp [TimeWheel.submit, push]⟩
    · refine .inl ?_
      simpa [TimeWheel.submit, push, is_new] using alive
  · rw [← submitIndex_inside_iff inv.index]
    simp [Inside]

theorem cancel (inv : wheel.Inv) {bucket : Nat} (alive : wheel.live bucket = true) :
    Moved wheel (wheel.cancel bucket) [toInt (wheel.bucketIndex bucket)] ∧
      wheel.Inside [toInt (wheel.bucketIndex bucket)] := by
  obtain ⟨contents, links⟩ := inv.links
  obtain ⟨contents', links'⟩ := links.unlink alive (by simp)
  refine ⟨⟨⟨_, links'.free⟩, rfl, inv.index, rfl, fun other other_alive => .inl ?_⟩, ?_⟩
  · by_cases same : other = bucket
    · simp [TimeWheel.cancel, free, same] at other_alive
    · simpa [TimeWheel.cancel, free, unlink, same] using other_alive
  · obtain ⟨low, high, -⟩ := inv.slots bucket alive
    simpa [Inside] using ⟨low, high⟩

theorem refresh (inv : wheel.Inv) {bucket : Nat} (alive : wheel.live bucket = true) :
    ∃ next, wheel.refresh bucket = some next ∧
      Moved wheel next [toInt (wheel.bucketIndex bucket),
        wheel.corrected (wheel.index - (wheel.steps bucket).toNat)] ∧
      (wheel.Inside [toInt (wheel.bucketIndex bucket),
        wheel.corrected (wheel.index - (wheel.steps bucket).toNat)] ↔
        wheel.Suits (.refresh bucket)) := by
  obtain ⟨contents, links⟩ := inv.links
  obtain ⟨contents', links'⟩ := links.unlink alive (by simp)
  obtain ⟨low, high, same⟩ := inv.slots bucket alive
  have asserted : wheel.bucketIndex bucket < wheel.maxSteps := by omega
  refine ⟨_, by rw [TimeWheel.refresh, if_pos asserted], ⟨⟨_, links'.push (by simp) alive
    (corrected_ge ..) (corrected_lt ..)⟩, rfl, inv.index, by simp [push, unlink],
    fun other other_alive => ?_⟩, ?_⟩
  · by_cases is_bucket : other = bucket
    · subst is_bucket
      exact .inr ⟨wheel.corrected (wheel.index - (wheel.steps other).toNat), by simp,
        corrected_lt .., by simp [push]⟩
    · refine .inl ?_
      simpa [push, unlink, is_bucket] using other_alive
  · have steps_lt := (wheel.steps bucket).toNat_lt
    have index_lt := inv.index
    have small := wheel.maxSteps_lt
    rw [Suits, ← corrected_inside_iff (by omega) (by omega)]
    simp [Inside, low, high]

theorem stepWheel (inv : wheel.Inv) (loops : Nat → Bool) :
    ∃ next added, wheel.stepWheel loops = some next ∧ Moved wheel next added ∧
      (wheel.Inside added ↔ wheel.Suits (.step loops)) := by
  obtain ⟨contents, links⟩ := inv.links
  obtain ⟨after, contents', step, links', fired⟩ := stepWheel_spec links loops
  have index_lt := inv.index
  have small := wheel.maxSteps_lt
  have member : ∀ bucket, bucket ∈ contents wheel.index ↔
      wheel.live bucket = true ∧ wheel.bucketIndex bucket = wheel.index := by
    intro bucket
    rw [links.mem]
    constructor
    · rintro ⟨alive, -, here⟩
      have same := (inv.slots bucket alive).2.2
      exact ⟨alive, by omega⟩
    · rintro ⟨alive, here⟩
      have same := (inv.slots bucket alive).2.2
      exact ⟨alive, by simp, by omega⟩
  let added := (wheel.index : Int) ::
    ((contents wheel.index).filter loops).map wheel.detach.loopIndex
  refine ⟨after, added, step, ⟨⟨contents', links'⟩, ?_, ?_, ?_, ?_⟩, ?_⟩
  · rw [fired.maxSteps, detach_maxSteps]
  · rw [fired.index]
    rw [detach_index, nextIndex_eq index_lt]
    exact nextPosition_lt index_lt
  · rw [fired.used]
    simp [detach, added]
  · intro bucket alive
    obtain ⟨before, loops_here⟩ := (fired.live bucket).mp alive
    rw [detach_live] at before
    rw [fired.bucketIndex, detach_bucketIndex]
    split_ifs with here
    · refine .inr ⟨wheel.detach.loopIndex bucket, ?_, corrected_lt .., rfl⟩
      exact List.mem_cons_of_mem _
        (List.mem_map_of_mem (List.mem_filter.mpr ⟨here.1, here.2⟩))
    · exact .inl ⟨before, rfl⟩
  · have lands : ∀ bucket, (0 ≤ wheel.detach.loopIndex bucket ∧
        wheel.detach.loopIndex bucket < wheel.maxSteps) ↔
        wheel.Lands (wheel.nextPosition - (wheel.steps bucket).toNat + 1) := by
      intro bucket
      have steps_lt := (wheel.steps bucket).toNat_lt
      have bound := nextPosition_lt index_lt
      rw [← corrected_inside_iff (by omega) (by omega), detach_loopIndex index_lt]
    constructor
    · intro inside bucket _ alive here again
      refine (lands bucket).mp (inside _ (List.mem_cons_of_mem _ (List.mem_map_of_mem ?_)))
      exact List.mem_filter.mpr ⟨(member bucket).mpr ⟨alive, here⟩, again⟩
    · intro suits index used
      rcases List.mem_cons.mp used with rfl | looped
      · omega
      · obtain ⟨bucket, bucket_mem, rfl⟩ := List.mem_map.mp looped
        obtain ⟨listed, again⟩ := List.mem_filter.mp bucket_mem
        obtain ⟨alive, here⟩ := (member bucket).mp listed
        exact (lands bucket).mpr (suits bucket (links.below bucket alive) alive here again)

/-- What a legal call does. -/
theorem step (inv : wheel.Inv) {op : WheelOp} (legal : wheel.Legal op) :
    ∃ next added, wheel.step op = some next ∧ Moved wheel next added ∧
      (wheel.Inside added ↔ wheel.Suits op) := by
  cases op with
  | submit steps => exact ⟨_, _, rfl, inv.submit steps⟩
  | cancel bucket =>
      obtain ⟨moved, inside⟩ := inv.cancel legal
      exact ⟨_, _, rfl, moved, iff_of_true inside trivial⟩
  | refresh bucket =>
      obtain ⟨next, step, rest⟩ := inv.refresh legal
      exact ⟨next, _, step, rest⟩
  | step loops => exact inv.stepWheel loops

end Inv

/-- The calls of a run keep every bucket index in the wheel and every live entry linked in its
bucket exactly when their steps suit the position; then none of them fails. -/
theorem time_wheel_in_range_iff (maxSteps : UInt32) (positive : 1 ≤ maxSteps.toNat)
    (ops : List WheelOp) (legal : Admissible step Legal (create maxSteps positive) ops) :
    (AllStates step InRange (create maxSteps positive) ops ↔
        AllSteps step Suits (create maxSteps positive) ops) ∧
      (AllSteps step Suits (create maxSteps positive) ops →
        ∃ wheel, run step (create maxSteps positive) ops = some wheel) := by
  have start := Inv.create maxSteps positive
  constructor
  · refine legal.allStates_iff_allSteps Inv Inv.inRange ?_ ?_ start
    · intro wheel next op inv legal suits made
      obtain ⟨other, added, step, moved, inside⟩ := inv.step legal
      obtain rfl : next = other := Option.some.inj (made.symm.trans step)
      exact inv.of_moved moved (inside.mpr suits)
    · intro wheel next op inv legal outside made
      obtain ⟨other, added, step, moved, inside⟩ := inv.step legal
      obtain rfl : next = other := Option.some.inj (made.symm.trans step)
      exact Inv.not_inRange_of_moved moved (mt inside.mp outside)
  · intro suits
    obtain ⟨wheel, execution, -⟩ := exists_run_of_admissible (fun wheel => wheel.Inv)
      (fun inv legal => by
        obtain ⟨next, added, step, moved, inside⟩ := inv.step legal.1
        exact ⟨next, step, inv.of_moved moved (inside.mpr (legal.2 next step))⟩)
      start (legal.and_allSteps suits)
    exact ⟨wheel, execution⟩

/-- A wheel of four buckets in which an entry loops, is refreshed and is cancelled. -/
theorem time_wheel_in_range_iff_four :
    AllStates step InRange (create 4 (by decide))
      [.submit 0, .step fun _ => false, .submit 3, .step fun _ => true, .refresh 1, .cancel 1] :=
  (time_wheel_in_range_iff 4 (by decide) _ (by decide)).1.mpr (by decide)

/-- An entry with 100 steps is put next to the index of a wheel of eight buckets; its refresh
subtracts the 100 steps. -/
theorem refresh_leaves_wheel :
    ¬ ∀ (maxSteps : UInt32) (positive : 1 ≤ maxSteps.toNat) (ops : List WheelOp),
      Admissible step Legal (create maxSteps positive) ops →
        AllStates step InRange (create maxSteps positive) ops := by
  intro inRange
  have facts : (run step (create 8 (by decide)) [.submit 100, .refresh 0]).any
      (fun wheel => decide (-85 ∈ wheel.used)) = true := by
    decide
  obtain ⟨wheel, execution, used⟩ := (Option.any_eq_true _ _).mp facts
  have good := (inRange 8 (by decide) _ (by decide)).of_run execution
  exact absurd (good.used _ (of_decide_eq_true used)).1 (by decide)

end CommonLib.TimeWheel
