import CommonLib.Timer.TimerWheelAdvance
import CommonLib.Library.Minimum

/-!
# The time to the next event

`ticks_to_next_event` looks for the first event from the core wheel outwards.  Where a wheel comes
to slot 0 it looks at the next slot of the wheel above it, but not at those further up; so it may
miss an event when two wheels come to slot 0 at one tick.
-/

namespace CommonLib.TimerWheel

variable {ε : Type*}

/-- The ticks up to an event. -/
def distance (wheel : TimerWheel ε) (event : ε) : ℕ :=
  (wheel.scheduledAt event + word64 - wheel.now 0) % word64

/-- The loop over the events of a slot. -/
def slotMin (wheel : TimerWheel ε) (slot : TimerWheelSlot) (least : ℕ) : ℕ :=
  ((wheel.slots slot).map wheel.distance).foldl min least

/-- The look at the next slot of the wheel above, where a wheel comes to slot 0. -/
def lookAbove (wheel : TimerWheel ε) (level index least : ℕ) : ℕ :=
  if index = 0 ∧ level < maxLevel ∧ (0 < level ∨ wheel.slots (level, index) = []) then
    wheel.slotMin (level + 1, (wheel.now (level + 1) + 1) % numSlots) least
  else least

/-- The slots of a wheel from the `i`-th behind the current one on; the fuel is the number of slots
that are left. -/
def scan (wheel : TimerWheel ε) (level : ℕ) : ℕ → ℕ → ℕ → Option ℕ
  | 0, _, _ => none
  | fuel + 1, i, least =>
      let index := (wheel.now level + 1 + i) % numSlots
      let least := wheel.lookAbove level index least
      match wheel.slots (level, index) with
      | [] => scan wheel level fuel (i + 1) least
      | event :: _ =>
          if level = 0 then some (min least (wheel.distance event))
          else some (wheel.slotMin (level, index) least)

/-- `ticks_to_next_event` at the level that has `above` levels above it. -/
def ticksFrom (wheel : TimerWheel ε) (most : ℕ) : ℕ → ℕ
  | 0 =>
      if wheel.ticksPending ≠ 0 then 0 else (wheel.scan maxLevel numSlots 0 most).getD most
  | above + 1 =>
      if wheel.ticksPending ≠ 0 then 0
      else
        let level := maxLevel - (above + 1)
        match wheel.scan level numSlots 0 most with
        | some least => least
        | none => if 0 < most >>> (8 * level + 1) then ticksFrom wheel most above else most

def ticksToNextEvent (wheel : TimerWheel ε) (most : ℕ) : ℕ := wheel.ticksFrom most maxLevel

/-- A time to an event, or the most that the caller asked for. -/
def Answers (wheel : TimerWheel ε) (most least : ℕ) : Prop :=
  least ≤ most ∧ (least = most ∨ ∃ event, wheel.view.due event = some (wheel.now 0 + least))

variable {wheel : TimerWheel ε} {event : ε} {slot : TimerWheelSlot} {most least level : ℕ}

theorem distance_eq (placed : Placed wheel) (place : wheel.slot event = some slot) :
    wheel.now 0 + wheel.distance event = wheel.scheduledAt event := by
  have not_past := (placed.fits event slot place).le
  rw [distance, sub_word (placed.word event slot place) not_past, Nat.add_sub_cancel' not_past]

theorem slotMin_le (wheel : TimerWheel ε) (slot : TimerWheelSlot) (least : ℕ) :
    wheel.slotMin slot least ≤ least :=
  foldl_min_le least _

theorem slotMin_le_distance (placed : Placed wheel) (place : wheel.slot event = some slot)
    (least : ℕ) : wheel.slotMin slot least ≤ wheel.distance event :=
  foldl_min_le_of_mem least
    (List.mem_map_of_mem ((placed.mem_iff event slot).mpr place))

theorem Answers.min_distance (placed : Placed wheel) (answers : Answers wheel most least)
    (place : wheel.slot event = some slot) :
    Answers wheel most (min least (wheel.distance event)) := by
  obtain ⟨bound, found⟩ := answers
  rcases Nat.le_total least (wheel.distance event) with le | le
  · rw [Nat.min_eq_left le]
    exact ⟨bound, found⟩
  · rw [Nat.min_eq_right le]
    refine ⟨Nat.le_trans le bound, .inr ⟨event, ?_⟩⟩
    simp [view, place, distance_eq placed place]

theorem Answers.slotMin (placed : Placed wheel) (answers : Answers wheel most least)
    (slot : TimerWheelSlot) : Answers wheel most (wheel.slotMin slot least) := by
  rcases foldl_min_mem least ((wheel.slots slot).map wheel.distance) with same | among
  · rw [TimerWheel.slotMin, same]
    exact answers
  · obtain ⟨event, member, found⟩ := List.mem_map.mp among
    have place := (placed.mem_iff event slot).mp member
    rw [TimerWheel.slotMin, ← found]
    refine ⟨found ▸ Nat.le_trans (foldl_min_le least _) answers.1, .inr ⟨event, ?_⟩⟩
    simp [view, place, distance_eq placed place]

theorem Answers.lookAbove (placed : Placed wheel) (answers : Answers wheel most least)
    (level index : ℕ) : Answers wheel most (wheel.lookAbove level index least) := by
  unfold TimerWheel.lookAbove
  split
  · exact answers.slotMin placed _
  · exact answers

/-- Whatever the search returns is the time to an event. -/
theorem scan_answers (placed : Placed wheel) {fuel i found : ℕ}
    (answers : Answers wheel most least) (scanned : wheel.scan level fuel i least = some found) :
    Answers wheel most found := by
  induction fuel generalizing i least with
  | zero => cases scanned
  | succ fuel induction =>
      rw [scan] at scanned
      have answers' := answers.lookAbove placed level ((wheel.now level + 1 + i) % numSlots)
      split at scanned
      next => exact induction answers' scanned
      next event rest events =>
        split at scanned
        · obtain rfl := Option.some.inj scanned
          exact answers'.min_distance placed ((placed.mem_iff event _).mp (by rw [events]; simp))
        · obtain rfl := Option.some.inj scanned
          exact answers'.slotMin placed _

theorem div_le_of_le {due now k l : ℕ} (le : k ≤ l) (before : due / 256 ^ k ≤ now / 256 ^ k) :
    due / 256 ^ l ≤ now / 256 ^ l := by
  obtain ⟨more, rfl⟩ := Nat.exists_eq_add_of_le le
  rw [pow_add, ← Nat.div_div_eq_div_mul, ← Nat.div_div_eq_div_mul]
  exact Nat.div_le_div_right before

/-- No wheel from the second to the seventh stands at its last slot, so no tick of the next
rotation is carried by two of them. -/
def CarriesOnce (wheel : TimerWheel ε) : Prop :=
  ∀ level, 0 < level → level < maxLevel → wheel.now 0 / 256 ^ level % numSlots ≠ 255

/-- What the search knows when it comes to the `i`-th slot behind the current one: what lies before
it is empty, and the slot of the wheel above was looked at if this wheel came to slot 0. -/
structure Searched (wheel : TimerWheel ε) (level i least : ℕ) : Prop where
  lower : ∀ event slot, wheel.slot event = some slot → level ≤ slot.1
  passed : ∀ event slot, wheel.slot event = some slot → slot.1 = level →
    wheel.now 0 / 256 ^ level + i < wheel.scheduledAt event / 256 ^ level
  above : 256 ≤ wheel.now 0 / 256 ^ level % 256 + i → level < maxLevel →
    ∀ event, wheel.slot event =
        some (level + 1, (wheel.now 0 / 256 ^ (level + 1) + 1) % numSlots) →
      least ≤ wheel.distance event

/-- An event on a higher wheel is due after the next slots of the wheels in between. -/
theorem later_of_higher (clean : Clean 0 wheel) (once : CarriesOnce wheel)
    (place : wheel.slot event = some slot) (levels : level + 1 < slot.1) (top : slot.1 ≤ maxLevel) :
    wheel.now 0 / 256 ^ (level + 1) + 1 < wheel.scheduledAt event / 256 ^ (level + 1) := by
  have ahead := clean event slot place (Nat.zero_le _)
  have next : wheel.now 0 / 256 ^ (level + 1 + 1) <
      wheel.scheduledAt event / 256 ^ (level + 1 + 1) := by
    by_contra behind
    exact Nat.not_le_of_lt ahead (div_le_of_le levels (Nat.le_of_not_lt behind))
  have inner := once (level + 1) (Nat.succ_pos _) (Nat.lt_of_lt_of_le levels top)
  rw [pow_succ, ← Nat.div_div_eq_div_mul, ← Nat.div_div_eq_div_mul] at next
  simp only [numSlots] at inner
  omega

theorem lookAbove_le (wheel : TimerWheel ε) (level index least : ℕ) :
    wheel.lookAbove level index least ≤ least := by
  unfold lookAbove
  split
  · exact slotMin_le wheel _ least
  · exact Nat.le_refl _

/-- An empty slot. -/
theorem Searched.next {i : ℕ} (placed : Placed wheel) (current : Current wheel)
    (inside : level ≤ maxLevel) (searched : Searched wheel level i least)
    (events : wheel.slots (level, (wheel.now level + 1 + i) % numSlots) = []) :
    Searched wheel level (i + 1)
      (wheel.lookAbove level ((wheel.now level + 1 + i) % numSlots) least) := by
  have level_eq := current level inside
  refine ⟨searched.lower, fun event slot place here => ?_, fun crossed below event place => ?_⟩
  · have fits := placed.fits event slot place
    have later := searched.passed event slot place here
    have different : wheel.scheduledAt event / 256 ^ level ≠
        wheel.now 0 / 256 ^ level + 1 + i := by
      intro same
      have slot_eq : slot = (level, (wheel.now level + 1 + i) % numSlots) :=
        Prod.ext here (by rw [fits.index, here, same, level_eq])
      have member := (placed.mem_iff event slot).mpr place
      simp [slot_eq, events] at member
    omega
  · by_cases before : 256 ≤ wheel.now 0 / 256 ^ level % 256 + i
    · exact Nat.le_trans (lookAbove_le wheel _ _ _) (searched.above before below event place)
    · have zero : (wheel.now level + 1 + i) % numSlots = 0 := by
        rw [level_eq]
        simp only [numSlots]
        omega
      rw [lookAbove, if_pos ⟨zero, below, .inr events⟩, current (level + 1) below]
      exact slotMin_le_distance placed place least

/-- The first event of a slot is not behind those of other slots of the wheel. -/
theorem Searched.first {i : ℕ} (placed : Placed wheel) (current : Current wheel)
    (inside : level ≤ maxLevel) (searched : Searched wheel level i least)
    {first : ε} (place : wheel.slot first =
      some (level, (wheel.now level + 1 + i) % numSlots)) (bound : i < numSlots) :
    wheel.scheduledAt first / 256 ^ level = wheel.now 0 / 256 ^ level + 1 + i := by
  have fits := placed.fits first _ place
  have later := searched.passed first _ place rfl
  have reach := fits.reach
  have index := fits.index
  rw [current level inside] at index
  simp only [numSlots] at later reach index bound
  omega

/-- What is found in the first slot with events is due before the events of other slots. -/
theorem Searched.le_distance {i found : ℕ} (placed : Placed wheel) (current : Current wheel)
    (clean : Clean 0 wheel) (once : CarriesOnce wheel) (inside : level ≤ maxLevel)
    (searched : Searched wheel level i least) (bound : i < numSlots) {first : ε}
    (place : wheel.slot first = some (level, (wheel.now level + 1 + i) % numSlots))
    (above : found ≤ wheel.lookAbove level ((wheel.now level + 1 + i) % numSlots) least)
    (same : ∀ event, wheel.slot event =
      some (level, (wheel.now level + 1 + i) % numSlots) → found ≤ wheel.distance event)
    (place' : wheel.slot event = some slot) : found ≤ wheel.distance event := by
  have tick := searched.first placed current inside place bound
  have fits := placed.fits event slot place'
  have earlier : wheel.scheduledAt first ≤ wheel.scheduledAt event →
      found ≤ wheel.distance event := by
    intro le
    have first_eq := distance_eq placed place
    have event_eq := distance_eq placed place'
    have bound' := same first place
    omega
  rcases Nat.lt_or_eq_of_le (searched.lower event slot place') with higher | here
  · have ahead : wheel.now 0 / 256 ^ (level + 1) < wheel.scheduledAt event / 256 ^ (level + 1) := by
      by_contra behind
      exact Nat.not_le_of_lt (clean event slot place' (Nat.zero_le _))
        (div_le_of_le higher (Nat.le_of_not_lt behind))
    have tick' : wheel.scheduledAt first / 256 ^ (level + 1) =
        (wheel.now 0 / 256 ^ level + 1 + i) / 256 := by
      rw [pow_succ, ← Nat.div_div_eq_div_mul, tick]
    have now_eq : wheel.now 0 / 256 ^ (level + 1) = wheel.now 0 / 256 ^ level / 256 := by
      rw [pow_succ, ← Nat.div_div_eq_div_mul]
    have by_rotation : wheel.scheduledAt first / 256 ^ (level + 1) <
        wheel.scheduledAt event / 256 ^ (level + 1) → found ≤ wheel.distance event :=
      fun less => earlier (Nat.le_of_lt (Nat.lt_of_div_lt_div less))
    have reach := (placed.fits first _ place).reach
    simp only at reach
    by_cases near : wheel.scheduledAt event / 256 ^ (level + 1) =
        wheel.now 0 / 256 ^ (level + 1) + 1
    · by_cases crossed : 256 ≤ wheel.now 0 / 256 ^ level % 256 + (i + 1)
      · have level_eq : slot.1 = level + 1 := by
          by_contra different
          have later := later_of_higher clean once place' (by omega : level + 1 < slot.1)
            fits.level
          omega
        have below : level < maxLevel := by
          have top := fits.level
          omega
        have place_above : wheel.slot event =
            some (level + 1, (wheel.now 0 / 256 ^ (level + 1) + 1) % numSlots) := by
          rw [place', ← near, ← level_eq, ← fits.index]
        by_cases before : 256 ≤ wheel.now 0 / 256 ^ level % 256 + i
        · exact Nat.le_trans above (Nat.le_trans (lookAbove_le wheel _ _ _)
            (searched.above before below event place_above))
        · have zero : (wheel.now level + 1 + i) % numSlots = 0 := by
            rw [current level inside]
            simp only [numSlots]
            omega
          rcases Nat.eq_zero_or_pos level with core | outer
          · -- the tick of slot 0 is the first one of the next slot of the wheel above
            subst core
            simp only [pow_zero, Nat.div_one, Nat.zero_add, pow_one] at *
            exact earlier (by omega)
          · rw [TimerWheel.lookAbove, if_pos ⟨zero, below, .inl outer⟩,
              current (level + 1) below] at above
            exact Nat.le_trans above (slotMin_le_distance placed place_above least)
      · exact by_rotation (by omega)
    · exact by_rotation (by omega)
  · have later := searched.passed event slot place' here.symm
    by_cases equal : wheel.scheduledAt event / 256 ^ level = wheel.now 0 / 256 ^ level + 1 + i
    · refine same event ?_
      rw [place', current level inside, ← equal, ← Prod.eta slot, fits.index, ← here]
    · have less : wheel.scheduledAt first / 256 ^ level <
          wheel.scheduledAt event / 256 ^ level := by omega
      exact earlier (Nat.le_of_lt (Nat.lt_of_div_lt_div less))

/-- The search over one wheel. -/
theorem scan_least (placed : Placed wheel) (current : Current wheel) (clean : Clean 0 wheel)
    (once : CarriesOnce wheel) (inside : level ≤ maxLevel) {fuel i : ℕ}
    (slots : i + fuel = numSlots) (searched : Searched wheel level i least) :
    (∀ found, wheel.scan level fuel i least = some found →
      ∀ event slot, wheel.slot event = some slot → found ≤ wheel.distance event) ∧
    (wheel.scan level fuel i least = none →
      ∀ event slot, wheel.slot event = some slot → level < slot.1) := by
  induction fuel generalizing i least with
  | zero =>
      refine ⟨fun found scanned => (by cases scanned), fun _ event slot place => ?_⟩
      refine Nat.lt_of_le_of_ne (searched.lower event slot place) fun here => ?_
      have later := searched.passed event slot place here.symm
      have reach := (placed.fits event slot place).reach
      rw [← here] at reach
      simp only [numSlots] at slots
      omega
  | succ fuel induction =>
      rw [scan]
      cases events : wheel.slots (level, (wheel.now level + 1 + i) % numSlots) with
      | nil => exact induction (by omega) (searched.next placed current inside events)
      | cons first rest =>
          have place := (placed.mem_iff first _).mp (events ▸ List.mem_cons_self)
          have tick := searched.first placed current inside place (by omega)
          refine ⟨fun found scanned event slot place' => ?_, fun scanned => ?_⟩
          · by_cases core : level = 0
            · simp only [if_pos core] at scanned
              obtain rfl := Option.some.inj scanned
              refine searched.le_distance placed current clean once inside (by omega) place
                (Nat.min_le_left _ _) (fun other other_place => ?_) place'
              have other_tick := searched.first placed current inside other_place (by omega)
              subst core
              rw [pow_zero, Nat.div_one] at tick other_tick
              have first_eq := distance_eq placed place
              have other_eq := distance_eq placed other_place
              exact Nat.le_trans (Nat.min_le_right _ _) (by omega)
            · simp only [if_neg core] at scanned
              obtain rfl := Option.some.inj scanned
              exact searched.le_distance placed current clean once inside (by omega) place
                (slotMin_le wheel _ _)
                (fun other other_place => slotMin_le_distance placed other_place _) place'
          · by_cases core : level = 0
            · simp only [if_pos core, reduceCtorEq] at scanned
            · simp only [if_neg core, reduceCtorEq] at scanned

theorem ticksFrom_answers (placed : Placed wheel) (fresh : wheel.ticksPending = 0) (above : ℕ) :
    Answers wheel most (wheel.ticksFrom most above) := by
  have start : Answers wheel most most := ⟨Nat.le_refl _, .inl rfl⟩
  induction above with
  | zero =>
      rw [ticksFrom, if_neg (not_not_intro fresh)]
      cases scanned : wheel.scan maxLevel numSlots 0 most with
      | none => exact start
      | some found => exact scan_answers placed start scanned
  | succ above induction =>
      rw [ticksFrom, if_neg (not_not_intro fresh)]
      simp only []
      cases scanned : wheel.scan (maxLevel - (above + 1)) numSlots 0 most with
      | none =>
          simp only []
          split
          · exact induction
          · exact start
      | some found => exact scan_answers placed start scanned

theorem ticksFrom_least (placed : Placed wheel) (current : Current wheel) (clean : Clean 0 wheel)
    (fresh : wheel.ticksPending = 0) (once : CarriesOnce wheel) (large : 2 ^ 49 ≤ most) {above : ℕ}
    (inside : above ≤ maxLevel)
    (lower : ∀ event slot, wheel.slot event = some slot → maxLevel - above ≤ slot.1)
    (place : wheel.slot event = some slot) :
    wheel.ticksFrom most above ≤ wheel.distance event := by
  have searched : ∀ above', above' ≤ maxLevel →
      (∀ event slot, wheel.slot event = some slot → maxLevel - above' ≤ slot.1) →
      Searched wheel (maxLevel - above') 0 most := by
    intro above' _ lower'
    refine ⟨lower', fun event slot place here => ?_, fun crossed => ?_⟩
    · rw [← here]
      exact clean event slot place (Nat.zero_le _)
    · have bound := Nat.mod_lt (wheel.now 0 / 256 ^ (maxLevel - above')) (by decide : 0 < 256)
      omega
  induction above with
  | zero =>
      obtain ⟨least, empty⟩ := scan_least placed current clean once (Nat.sub_le _ _)
        (Nat.zero_add numSlots) (searched 0 inside lower)
      rw [ticksFrom, if_neg (not_not_intro fresh)]
      cases scanned : wheel.scan maxLevel numSlots 0 most with
      | none =>
          have beyond := empty scanned event slot place
          have top := (placed.fits event slot place).level
          omega
      | some found => exact least found scanned event slot place
  | succ above induction =>
      obtain ⟨least, empty⟩ := scan_least placed current clean once (Nat.sub_le _ _)
        (Nat.zero_add numSlots) (searched (above + 1) inside lower)
      rw [ticksFrom, if_neg (not_not_intro fresh)]
      simp only []
      cases scanned : wheel.scan (maxLevel - (above + 1)) numSlots 0 most with
      | none =>
          have shifted : 0 < most >>> (8 * (maxLevel - (above + 1)) + 1) := by
            rw [Nat.shiftRight_eq_div_pow]
            refine Nat.div_pos (Nat.le_trans (Nat.pow_le_pow_right (by decide) ?_) large)
              (Nat.pow_pos (by decide))
            simp only [maxLevel]
            omega
          simp only [if_pos shifted]
          refine induction (by omega) fun event slot place => ?_
          have beyond := empty scanned event slot place
          omega
      | some found => exact least found scanned event slot place

/-- In every state of a run the answer is 0 exactly if a call of `advance` stopped early.  Else it
is the time to some event or the most that was asked for, and it is not behind the next event if
each tick is carried once. -/
theorem ticksToNextEvent_answers [DecidableEq ε] {callback : Callback ε} {horizon now : ℕ}
    (legal : LegalCallback horizon callback) (small : horizon + 1 < word64)
    (bounded : now ≤ horizon) {ops : List (Op ε)}
    (allowed : Execution.Admissible (step callback) (LegalOp horizon) (start now) ops)
    (reached : Execution.run (step callback) (start now) ops = some wheel) (positive : 0 < most) :
    (wheel.ticksToNextEvent most = 0 ↔ wheel.ticksPending ≠ 0) ∧
      (wheel.ticksPending = 0 → Answers wheel most (wheel.ticksToNextEvent most) ∧
        (CarriesOnce wheel → 2 ^ 49 ≤ most → ∀ event tick, wheel.view.due event = some tick →
          wheel.now 0 + wheel.ticksToNextEvent most ≤ tick)) := by
  obtain ⟨final, made, good⟩ := run_good legal small bounded allowed
  obtain rfl : wheel = final := Option.some.inj (reached.symm.trans made)
  refine ⟨⟨fun zero fresh => ?_, fun stopped => ?_⟩, fun fresh => ⟨?_, ?_⟩⟩
  · have answers : Answers wheel most (wheel.ticksFrom most maxLevel) :=
      ticksFrom_answers good.toPlaced fresh maxLevel
    obtain ⟨-, same | ⟨event, due⟩⟩ := answers
    · rw [← ticksToNextEvent, zero] at same
      omega
    · obtain ⟨slot, place, now_eq⟩ := Option.map_eq_some_iff.mp due
      have ahead := good.settled fresh event slot place (Nat.zero_le _)
      have later := Nat.lt_of_div_lt_div ahead
      rw [← ticksToNextEvent, zero] at now_eq
      omega
  · rw [ticksToNextEvent, maxLevel, ticksFrom, if_pos stopped]
  · exact ticksFrom_answers good.toPlaced fresh maxLevel
  · intro once large event tick due
    obtain ⟨slot, place, rfl⟩ := Option.map_eq_some_iff.mp due
    have least := ticksFrom_least good.toPlaced good.current (good.settled fresh) fresh once large
      (Nat.le_refl maxLevel) (fun event slot _ => by omega) place
    have sum := distance_eq good.toPlaced place
    rw [ticksToNextEvent]
    omega

theorem next_ring : ∃ wheel, Execution.run (step ringTwice) (start 254)
      [.request (.schedule false 3), .request (.schedule true 700), .advance 2 1] = some wheel ∧
    ((wheel.ticksToNextEvent (2 ^ 64 - 1) = 0 ↔ wheel.ticksPending ≠ 0) ∧
      (wheel.ticksPending = 0 →
        Answers wheel (2 ^ 64 - 1) (wheel.ticksToNextEvent (2 ^ 64 - 1)) ∧
          (CarriesOnce wheel → 2 ^ 49 ≤ 2 ^ 64 - 1 → ∀ event tick,
            wheel.view.due event = some tick →
              wheel.now 0 + wheel.ticksToNextEvent (2 ^ 64 - 1) ≤ tick))) := by
  obtain ⟨wheel, reached⟩ : ∃ wheel, Execution.run (step ringTwice) (start 254)
      [.request (.schedule false 3), .request (.schedule true 700), .advance 2 1] = some wheel :=
    ⟨_, rfl⟩
  exact ⟨wheel, reached, ticksToNextEvent_answers ringTwice_legal (by decide) (by decide)
    (by decide +kernel) reached (by decide)⟩

end CommonLib.TimerWheel
