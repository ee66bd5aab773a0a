import CommonLib.Timer.TimerWheelRun

/-!
# The clock of the timer wheel

A tick carries from a wheel to the next one when it comes to slot 0.  All carries are made before
the first event is executed, so the events see wheels that show one time.
-/

namespace CommonLib.TimerWheel

open Agenda (Entry)

variable {ε : Type*} [DecidableEq ε] {agenda : Agenda ε} {callback : Callback ε}

/-- A tick was carried up to a level; the wheels above it still show the tick before. -/
def Carried (level : ℕ) (wheel : TimerWheel ε) : Prop :=
  0 < wheel.now 0 ∧ ∀ j ≤ maxLevel,
    wheel.now j = if j ≤ level then wheel.now 0 / 256 ^ j else (wheel.now 0 - 1) / 256 ^ j

theorem index_eq_zero_iff {now k : ℕ} (divides : 256 ^ k ∣ now) :
    now / 256 ^ k % numSlots = 0 ↔ 256 ^ (k + 1) ∣ now := by
  obtain ⟨times, rfl⟩ := divides
  rw [Nat.mul_div_cancel_left times (Nat.pow_pos (by decide)), pow_succ,
    Nat.mul_dvd_mul_iff_left (Nat.pow_pos (by decide)), Nat.dvd_iff_mod_eq_zero]
  rfl

theorem pred_div {now : ℕ} (positive : 0 < now) (width : ℕ) :
    now / width = (now - 1) / width + if width ∣ now then 1 else 0 := by
  obtain ⟨before, rfl⟩ := Nat.exists_eq_add_of_lt positive
  simp only [Nat.zero_add, Nat.add_sub_cancel]
  exact Nat.succ_div

omit [DecidableEq ε] in
/-- A wheel that does not come to slot 0 has nothing to carry. -/
theorem Carried.current {level : ℕ} {wheel : TimerWheel ε} (carried : Carried level wheel)
    (last : level = maxLevel ∨ ¬256 ^ (level + 1) ∣ wheel.now 0) : Current wheel := by
  intro j inside
  rw [carried.2 j inside]
  split
  · rfl
  · rw [pred_div carried.1 (256 ^ j), if_neg, Nat.add_zero]
    intro divides
    rcases last with top | stays
    · omega
    · exact stays (Nat.dvd_trans (pow_dvd_pow 256 (by omega)) divides)

omit [DecidableEq ε] in
/-- A carry. -/
theorem Carried.succ {level : ℕ} {wheel : TimerWheel ε} (carried : Carried level wheel)
    (inside : level + 1 ≤ maxLevel) (divides : 256 ^ (level + 1) ∣ wheel.now 0)
    (small : wheel.now 0 < word64) :
    Carried (level + 1) { wheel with
      now := Function.update wheel.now (level + 1) ((wheel.now (level + 1) + 1) % word64) } := by
  have next : (wheel.now (level + 1) + 1) % word64 = wheel.now 0 / 256 ^ (level + 1) := by
    have lower := Nat.div_le_self (wheel.now 0) (256 ^ (level + 1))
    have split := pred_div carried.1 (256 ^ (level + 1))
    rw [if_pos divides] at split
    rw [carried.2 _ inside, if_neg (by omega), ← split, Nat.mod_eq_of_lt (by omega)]
  refine ⟨carried.1, fun j inside' => ?_⟩
  simp only [Function.update_of_ne (Nat.zero_ne_add_one level), Function.update_apply, next]
  by_cases here : j = level + 1
  · simp [here]
  · rw [if_neg here, carried.2 j inside']
    by_cases below : j ≤ level
    · rw [if_pos below, if_pos (by omega)]
    · rw [if_neg below, if_neg (by omega)]

/-- The count of the pending ticks is no part of what is in the slots. -/
theorem Ready.setPending {wheel : TimerWheel ε} (ready : Ready agenda wheel) (ticks : ℕ) :
    Ready agenda { wheel with ticksPending := ticks } :=
  ⟨⟨⟨ready.mem_iff, ready.nodup⟩, ready.fits, ready.word⟩, ready.current, ready.explained⟩

/-- Before a slot is processed: the tick was carried to its level, or the last call stopped in the
middle of a tick. -/
structure Entered (agenda : Agenda ε) (level : ℕ) (wheel : TimerWheel ε) : Prop
    extends Placed wheel where
  explained : Execution.run Agenda.step agenda wheel.trace = some wheel.view
  carry : 256 ^ level ∣ wheel.now 0
  times : wheel.ticksPending = 0 ∧ Carried level wheel ∨ wheel.ticksPending ≠ 0 ∧ Current wheel

/-- Processing returns, and a call that was stopped before leaves the pending ticks alone. -/
def Returns (agenda : Agenda ε) (level maxEvents : ℕ) (wheel : TimerWheel ε)
    (result : Option (Bool × TimerWheel ε)) : Prop :=
  ∃ done wheel', result = some (done, wheel') ∧ Processed agenda level maxEvents wheel wheel' done ∧
    (done = true ∨ wheel.ticksPending ≠ 0 → wheel'.ticksPending = wheel.ticksPending)

theorem Entered.now_level {level : ℕ} {wheel : TimerWheel ε} (entered : Entered agenda level wheel)
    (inside : level ≤ maxLevel) : wheel.now level = wheel.now 0 / 256 ^ level := by
  rcases entered.times with ⟨-, carried⟩ | ⟨-, current⟩
  · rw [carried.2 level inside, if_pos (Nat.le_refl _)]
  · exact current level inside

theorem Entered.ready {level : ℕ} {wheel : TimerWheel ε} (entered : Entered agenda level wheel)
    (last : level = maxLevel ∨ ¬256 ^ (level + 1) ∣ wheel.now 0) :
    Ready agenda wheel ∧ Clean (level + 1) wheel := by
  refine ⟨⟨entered.toPlaced, ?_, entered.explained⟩, fun event slot place above => ?_⟩
  · rcases entered.times with ⟨-, carried⟩ | ⟨-, current⟩
    · exact carried.current last
    · exact current
  · have fits := entered.fits event slot place
    rcases fits.ahead with ahead | ⟨divides, -⟩
    · exact ahead
    · rcases last with top | stays
      · have bound := fits.level
        omega
      · exact absurd (Nat.dvd_trans (pow_dvd_pow 256 above) divides) stays

/-- The call of `advance` for the next wheel. -/
theorem advanceWith_returns {horizon : ℕ} (small : horizon < word64) {level maxEvents : ℕ}
    (inside : level + 1 ≤ maxLevel) {process : TimerWheel ε → Option (Bool × TimerWheel ε)}
    (processed : ∀ wheel, Entered agenda (level + 1) wheel → wheel.now 0 ≤ horizon →
      Returns agenda (level + 1) maxEvents wheel (process wheel))
    {wheel : TimerWheel ε} (entered : Entered agenda level wheel) (bounded : wheel.now 0 ≤ horizon)
    (divides : 256 ^ (level + 1) ∣ wheel.now 0) :
    Returns agenda (level + 1) maxEvents wheel (advanceWith process (level + 1) 1 wheel) := by
  rcases entered.times with ⟨fresh, carried⟩ | ⟨stopped, current⟩
  · let moved := { wheel with
      now := Function.update wheel.now (level + 1) ((wheel.now (level + 1) + 1) % word64) }
    have core : moved.now 0 = wheel.now 0 := by
      simp only [moved, Function.update_of_ne (Nat.zero_ne_add_one level)]
    have entered' : Entered agenda (level + 1) moved := by
      refine ⟨⟨⟨entered.mem_iff, entered.nodup⟩, ?_, entered.word⟩, ?_, core ▸ divides,
        .inl ⟨fresh, carried.succ inside divides (by omega)⟩⟩
      · rw [core]
        exact entered.fits
      · rw [entered.explained]
        exact congrArg some (Agenda.ext core.symm rfl)
    obtain ⟨done, wheel', made, result, pending⟩ := processed moved entered' (core ▸ bounded)
    have result' : Processed agenda (level + 1) maxEvents wheel wheel' done :=
      ⟨result.ready, result.now.trans core, result.clean, result.fired, result.enough⟩
    rw [advanceWith, if_neg (not_not_intro fresh), if_neg Nat.one_ne_zero, advanceLoop,
      if_neg (Nat.succ_ne_zero level), made, Option.bind_some]
    cases done with
    | true => exact ⟨true, wheel', rfl, result', fun _ => pending (.inl rfl)⟩
    | false =>
        refine ⟨false, _, rfl, ⟨result'.ready.setPending _, result'.now,
          (by simp), result'.fired, result'.enough⟩, fun either => ?_⟩
        rcases either with done | stopped
        · cases done
        · exact absurd fresh stopped
  · have entered' : Entered agenda (level + 1) wheel :=
      ⟨entered.toPlaced, entered.explained, divides, .inr ⟨stopped, current⟩⟩
    obtain ⟨done, wheel', made, result, pending⟩ := processed wheel entered' bounded
    rw [advanceWith, if_pos stopped]
    simp only [if_neg (Nat.succ_ne_zero level), made, Option.bind_some]
    cases done with
    | true => exact ⟨true, wheel', rfl, result, pending⟩
    | false => exact ⟨false, wheel', rfl, result, pending⟩

/-- The slots that a tick reaches are processed from the highest wheel down. -/
theorem processCurrentSlot_returns {horizon : ℕ} (legal : LegalCallback horizon callback)
    (small : horizon < word64) {maxEvents : ℕ} (size : maxEvents < word64) {above : ℕ}
    (inside : above ≤ maxLevel) (wheel : TimerWheel ε)
    (entered : Entered agenda (maxLevel - above) wheel) (bounded : wheel.now 0 ≤ horizon) :
    Returns agenda (maxLevel - above) maxEvents wheel
      (processCurrentSlot callback maxEvents above wheel) := by
  induction above generalizing wheel with
  | zero =>
      obtain ⟨ready, clean⟩ := entered.ready (.inl rfl)
      obtain ⟨done, wheel', made, result, pending⟩ := processSlot_ready legal (Nat.le_refl _) ready
        bounded entered.carry clean rfl (Nat.lt_succ_self _) size
      exact ⟨done, wheel', made, result, fun _ => pending⟩
  | succ above induction =>
      let level := maxLevel - (above + 1)
      have level_succ : maxLevel - above = level + 1 := by omega
      have level_le : level ≤ maxLevel := Nat.sub_le _ _
      rw [level_succ] at induction
      have emptied : ∀ {wheel : TimerWheel ε}, Ready agenda wheel → Clean (level + 1) wheel →
          256 ^ level ∣ wheel.now 0 → wheel.now 0 ≤ horizon → ∀ {slot : TimerWheelSlot},
          slot = (level, wheel.now level % numSlots) →
          ∃ done wheel', processSlot callback slot ((wheel.slots slot).length + 1) maxEvents wheel =
              some (done, wheel') ∧ Processed agenda level maxEvents wheel wheel' done ∧
            wheel'.ticksPending = wheel.ticksPending := by
        intro wheel ready clean carry bounded slot here
        exact processSlot_ready legal level_le ready bounded carry clean here
          (Nat.lt_succ_self _) size
      rw [processCurrentSlot]
      simp only []
      by_cases zero : wheel.now level % numSlots = 0
      · have divides : 256 ^ (level + 1) ∣ wheel.now 0 :=
          (index_eq_zero_iff entered.carry).mp (entered.now_level level_le ▸ zero)
        obtain ⟨done, middle, made, outer, pending⟩ := advanceWith_returns small (by omega)
          (induction (Nat.le_of_succ_le inside)) entered bounded divides
        rw [if_pos zero, made, Option.bind_some]
        cases done with
        | false =>
            exact ⟨false, middle, rfl, ⟨outer.ready, outer.now, (by simp),
              outer.fired, outer.enough⟩, pending⟩
        | true =>
            have same_level : middle.now level = wheel.now level := by
              rw [outer.ready.current level level_le, outer.now, entered.now_level level_le]
            obtain ⟨done, final, made', inner, pending'⟩ := emptied outer.ready (outer.clean rfl)
              (outer.now ▸ entered.carry) (outer.now ▸ bounded)
              (congrArg (fun tick => (level, tick % numSlots)) same_level.symm)
            exact ⟨done, final, made', inner.after outer.now outer.fired
              (Nat.add_le_add_right outer.fired _), fun _ => pending'.trans (pending (.inl rfl))⟩
      · have stays : ¬256 ^ (level + 1) ∣ wheel.now 0 := fun divides =>
          zero (entered.now_level level_le ▸ (index_eq_zero_iff entered.carry).mpr divides)
        obtain ⟨ready, clean⟩ := entered.ready (.inr stays)
        obtain ⟨done, wheel', made, result, pending⟩ :=
          emptied ready clean entered.carry bounded rfl
        rw [if_neg zero]
        exact ⟨done, wheel', made, result, fun _ => pending⟩

/-! ## Runs -/

/-- The tick up to which the callers advanced the wheel. -/
def target (wheel : TimerWheel ε) : ℕ := wheel.now 0 + (wheel.ticksPending - 1)

/-- What `advance` leaves. -/
structure Advanced (agenda : Agenda ε) (goal maxEvents : ℕ) (wheel wheel' : TimerWheel ε)
    (done : Bool) : Prop where
  ready : Ready agenda wheel'
  pending : done = true ↔ wheel'.ticksPending = 0
  clean : done = true → Clean 0 wheel'
  target : wheel'.target = goal
  fired : wheel.fired ≤ wheel'.fired
  enough : done = false → wheel.fired + maxEvents ≤ wheel'.fired

/-- A tick passes when no event is left that is due. -/
theorem Ready.tick {wheel : TimerWheel ε} (ready : Ready agenda wheel) (clean : Clean 0 wheel)
    (fresh : wheel.ticksPending = 0) :
    Entered agenda 0
      ({ wheel with now := Function.update wheel.now 0 (wheel.now 0 + 1) }.record .tick) := by
  have past : ∀ event, wheel.view.due event ≠ some wheel.view.clock := by
    intro event due
    obtain ⟨slot, place, now⟩ := Option.map_eq_some_iff.mp due
    have ahead := clean event slot place (Nat.zero_le _)
    rw [now] at ahead
    exact absurd ahead (Nat.lt_irrefl _)
  refine ⟨⟨⟨ready.mem_iff, ready.nodup⟩, fun event slot place => ?_, ready.word⟩, ?_,
    Nat.one_dvd _, .inl ⟨fresh, ?_, fun j inside => ?_⟩⟩
  · simp only [TimerWheel.record, Function.update_self]
    exact (ready.fits event slot place).succ (clean event slot place (Nat.zero_le _))
  · exact Agenda.run_concat ready.explained (Agenda.step_tick past)
  · simp [TimerWheel.record]
  · simp only [TimerWheel.record, Function.update_self, Function.update_apply, Nat.le_zero]
    split
    next zero => simp [zero]
    next => exact ready.current j inside

theorem advanceLoop_ready {horizon : ℕ} (legal : LegalCallback horizon callback)
    (small : horizon < word64) {maxEvents : ℕ} (size : maxEvents < word64) {delta : ℕ}
    {wheel : TimerWheel ε} (ready : Ready agenda wheel) (clean : Clean 0 wheel)
    (fresh : wheel.ticksPending = 0) (bounded : wheel.now 0 + delta ≤ horizon) :
    ∃ done wheel', advanceLoop (processCurrentSlot callback maxEvents maxLevel) 0 delta wheel =
        some (done, wheel') ∧
      Advanced agenda (wheel.now 0 + delta) maxEvents wheel wheel' done := by
  induction delta generalizing wheel with
  | zero =>
      exact ⟨true, wheel, rfl, ready, by simp [fresh], fun _ => clean, by simp [target, fresh],
        Nat.le_refl _, by simp⟩
  | succ delta induction =>
      let ticked := { wheel with now := Function.update wheel.now 0 (wheel.now 0 + 1) }.record .tick
      have now_ticked : ticked.now 0 = wheel.now 0 + 1 := by simp [ticked, record]
      have fired_ticked : ticked.fired = wheel.fired := fired_record ..
      obtain ⟨done, middle, made, processed, pending⟩ := processCurrentSlot_returns legal small size
        (Nat.le_refl maxLevel) ticked (ready.tick clean fresh) (by omega)
      have now_middle := processed.now
      have fired_middle := processed.fired
      rw [advanceLoop, Nat.mod_eq_of_lt (by omega : wheel.now 0 + 1 < word64), if_pos rfl, made,
        Option.bind_some]
      cases done with
      | false =>
          have count : (delta + 1) % word64 = delta + 1 := Nat.mod_eq_of_lt (by omega)
          have enough := processed.enough rfl
          refine ⟨false, _, rfl, processed.ready.setPending _, by simp [count], by simp, ?_,
            fired_ticked ▸ fired_middle, fun _ => fired_ticked ▸ enough⟩
          simp only [target, count]
          omega
      | true =>
          obtain ⟨done, final, looped, result⟩ := induction processed.ready (processed.clean rfl)
            ((pending (.inl rfl)).trans fresh) (by omega)
          refine ⟨done, final, looped, result.ready, result.pending, result.clean, ?_, ?_,
            fun stopped => ?_⟩
          · rw [result.target]
            omega
          · have later := result.fired
            omega
          · have enough := result.enough stopped
            omega

/-- What holds between the calls of the interface. -/
structure Good (horizon : ℕ) (agenda : Agenda ε) (wheel : TimerWheel ε) : Prop
    extends Ready agenda wheel where
  bounded : wheel.target ≤ horizon
  settled : wheel.ticksPending = 0 → Clean 0 wheel

theorem advance_good {horizon : ℕ} (legal : LegalCallback horizon callback)
    (small : horizon + 1 < word64) {maxEvents : ℕ} (size : maxEvents < word64) {delta : ℕ}
    {wheel : TimerWheel ε} (good : Good horizon agenda wheel)
    (moves : 0 < delta ∨ wheel.ticksPending ≠ 0) (bounded : wheel.target + delta ≤ horizon) :
    ∃ done wheel', wheel.advance callback delta maxEvents = some (done, wheel') ∧
      Advanced agenda (wheel.target + delta) maxEvents wheel wheel' done := by
  unfold target at bounded
  by_cases fresh : wheel.ticksPending = 0
  · have positive : delta ≠ 0 := by omega
    have goal : wheel.target = wheel.now 0 := by simp [target, fresh]
    rw [advance, advanceWith, if_neg (not_not_intro fresh), if_neg positive, goal]
    exact advanceLoop_ready legal (Nat.lt_of_succ_lt small) size good.toReady
      (good.settled fresh) fresh (by omega)
  · let waiting := { wheel with ticksPending := wheel.ticksPending + delta }
    have sum_eq : (wheel.ticksPending + delta) % word64 = wheel.ticksPending + delta :=
      Nat.mod_eq_of_lt (by omega)
    have ready : Ready agenda waiting := good.toReady.setPending _
    have entered : Entered agenda (maxLevel - maxLevel) waiting :=
      ⟨ready.toPlaced, ready.explained, Nat.one_dvd _,
        .inr ⟨Nat.ne_of_gt (Nat.add_pos_left (Nat.pos_of_ne_zero fresh) _), ready.current⟩⟩
    obtain ⟨done, middle, made, processed, pending⟩ :=
      processCurrentSlot_returns legal (Nat.lt_of_succ_lt small) size (Nat.le_refl maxLevel) waiting
        entered (show wheel.now 0 ≤ horizon by omega)
    have kept : middle.ticksPending = wheel.ticksPending + delta :=
      pending (.inr (Nat.ne_of_gt (Nat.add_pos_left (Nat.pos_of_ne_zero fresh) _)))
    have now_middle : middle.now 0 = wheel.now 0 := processed.now
    have fired_middle : wheel.fired ≤ middle.fired := processed.fired
    rw [advance, advanceWith, if_pos fresh]
    simp only [if_pos, sum_eq]
    rw [made, Option.bind_some]
    cases done with
    | false =>
        refine ⟨false, middle, rfl, processed.ready, by simp [kept]; omega, by simp, ?_,
          fired_middle, processed.enough⟩
        rw [target, target, now_middle, kept]
        omega
    | true =>
        have left : (middle.ticksPending + word64 - 1) % word64 =
            wheel.ticksPending + delta - 1 := by
          rw [kept, show wheel.ticksPending + delta + word64 - 1 =
            wheel.ticksPending + delta - 1 + word64 by omega, Nat.add_mod_right]
          exact Nat.mod_eq_of_lt (by omega)
        obtain ⟨done, final, looped, result⟩ :=
          advanceLoop_ready legal (Nat.lt_of_succ_lt small) size (processed.ready.setPending 0)
            (processed.clean rfl) rfl
            (show middle.now 0 + (wheel.ticksPending + delta - 1) ≤ horizon by omega)
        refine ⟨done, final, ?_, result.ready, result.pending, result.clean, ?_, ?_,
          fun stopped => ?_⟩
        · simpa [left] using looped
        · rw [result.target, target]
          show middle.now 0 + _ = _
          omega
        · exact Nat.le_trans fired_middle result.fired
        · exact Nat.le_trans (Nat.add_le_add_right fired_middle _) (result.enough stopped)

/-- The calls of the interface that may be made: the clock goes on, at most to the horizon. -/
def LegalOp (horizon : ℕ) (wheel : TimerWheel ε) : Op ε → Prop
  | .request asked => Legal (wheel.now 0) asked
  | .advance delta maxEvents =>
      (0 < delta ∨ wheel.ticksPending ≠ 0) ∧ wheel.target + delta ≤ horizon ∧ maxEvents < word64

instance (now : ℕ) (asked : Request ε) : Decidable (Legal now asked) := by
  cases asked <;> unfold Legal <;> infer_instance

instance (horizon : ℕ) (wheel : TimerWheel ε) (op : Op ε) :
    Decidable (LegalOp horizon wheel op) := by
  cases op <;> unfold LegalOp <;> infer_instance

theorem start_good {horizon now : ℕ} (bounded : now ≤ horizon) :
    Good horizon (Agenda.empty now) (start now : TimerWheel ε) := by
  have core : (start now : TimerWheel ε).now 0 = now := Nat.div_one now
  refine ⟨⟨⟨⟨fun event slot => by simp [start], fun slot => List.nodup_nil⟩,
    fun event slot place => (by cases place), fun event slot place => (by cases place)⟩,
    fun j _ => by rw [core]; rfl, ?_⟩, ?_, fun _ event slot place => (by cases place)⟩
  · exact congrArg some (Agenda.ext core.symm rfl)
  · simpa [target, start] using bounded

theorem step_good {horizon : ℕ} (legal : LegalCallback horizon callback)
    (small : horizon + 1 < word64) {wheel : TimerWheel ε} {op : Op ε}
    (good : Good horizon agenda wheel) (allowed : LegalOp horizon wheel op) :
    ∃ wheel', step callback wheel op = some wheel' ∧ Good horizon agenda wheel' := by
  cases op with
  | request asked =>
      obtain ⟨wheel', made, ready, kept⟩ := request_ready good.toReady allowed
      refine ⟨wheel', made, ready, ?_, fun settled => ?_⟩
      · rw [target, kept.now, kept.ticksPending]
        exact good.bounded
      · exact kept.clean 0 (good.settled (kept.ticksPending ▸ settled))
  | advance delta maxEvents =>
      obtain ⟨moves, bounded, size⟩ := allowed
      obtain ⟨done, wheel', made, result⟩ := advance_good legal small size good moves bounded
      exact ⟨wheel', by rw [step, made]; rfl, result.ready, result.target ▸ bounded,
        fun settled => result.clean (result.pending.mpr settled)⟩

theorem run_good {horizon now : ℕ} (legal : LegalCallback horizon callback)
    (small : horizon + 1 < word64) (bounded : now ≤ horizon) {ops : List (Op ε)}
    (allowed : Execution.Admissible (step callback) (LegalOp horizon) (start now) ops) :
    ∃ wheel, Execution.run (step callback) (start now) ops = some wheel ∧
      Good horizon (Agenda.empty now) wheel :=
  Execution.exists_run_of_admissible (Good horizon (Agenda.empty now)) (step_good legal small)
    (start_good bounded) allowed

/-- An event that schedules another one. -/
def ringTwice : Callback Bool := fun _ event => if event then [] else [.schedule true 300]

theorem ringTwice_legal : LegalCallback 1000 ringTwice := by
  intro wheel event bounded asked member
  cases event with
  | true => simp [ringTwice] at member
  | false =>
      obtain rfl : asked = .schedule true 300 := by simpa [ringTwice] using member
      exact ⟨by decide, by rw [word64]; omega⟩

/-- Every run of the wheel, with events that are scheduled, moved and cancelled by callers and by
callbacks and with calls of `advance` that stop early, is a run of the agenda: each event is
executed at the tick for which it was last scheduled, once, and no tick passes before. -/
theorem trace_is_agenda_run {horizon now : ℕ} (legal : LegalCallback horizon callback)
    (small : horizon + 1 < word64) (bounded : now ≤ horizon) {ops : List (Op ε)}
    (allowed : Execution.Admissible (step callback) (LegalOp horizon) (start now) ops) :
    ∃ wheel, Execution.run (step callback) (start now) ops = some wheel ∧
      Execution.run Agenda.step (Agenda.empty now) wheel.trace = some wheel.view := by
  obtain ⟨wheel, made, good⟩ := run_good legal small bounded allowed
  exact ⟨wheel, made, good.explained⟩

theorem ringTwice_trace : ∃ wheel, Execution.run (step ringTwice) (start 254)
      [.request (.schedule false 3), .advance 4 1, .request (.cancel false), .advance 300 5] =
        some wheel ∧
    Execution.run Agenda.step (Agenda.empty 254) wheel.trace = some wheel.view :=
  trace_is_agenda_run ringTwice_legal (by decide) (by decide) (by decide +kernel)

/-- In every state of a run `advance` returns.  Either the clock went on by all the ticks it was
given since it last caught up and nothing is left that is due, or `max_execute` events were
executed and the ticks that are left are kept. -/
theorem advance_catches_up {horizon now : ℕ} (legal : LegalCallback horizon callback)
    (small : horizon + 1 < word64) (bounded : now ≤ horizon) {ops : List (Op ε)}
    (allowed : Execution.Admissible (step callback) (LegalOp horizon) (start now) ops)
    {wheel : TimerWheel ε} (reached : Execution.run (step callback) (start now) ops = some wheel)
    {delta maxEvents : ℕ} (call : LegalOp horizon wheel (.advance delta maxEvents)) :
    ∃ done wheel', wheel.advance callback delta maxEvents = some (done, wheel') ∧
      (done = true ↔ wheel'.ticksPending = 0) ∧ wheel'.target = wheel.target + delta ∧
      (done = true → ∀ event tick, wheel'.view.due event = some tick → wheel'.now 0 < tick) ∧
      (done = false → wheel.fired + maxEvents ≤ wheel'.fired) := by
  obtain ⟨final, made, good⟩ := run_good legal small bounded allowed
  obtain rfl : wheel = final := Option.some.inj (reached.symm.trans made)
  obtain ⟨done, wheel', advanced, result⟩ :=
    advance_good legal small call.2.2 good call.1 call.2.1
  refine ⟨done, wheel', advanced, result.pending, result.target, fun finished event tick due => ?_,
    result.enough⟩
  obtain ⟨slot, place, rfl⟩ := Option.map_eq_some_iff.mp due
  exact Nat.lt_of_div_lt_div (result.clean finished event slot place (Nat.zero_le _))

theorem ringTwice_catches_up : ∃ wheel done wheel',
    Execution.run (step ringTwice) (start 254) [.request (.schedule false 3), .advance 4 1] =
        some wheel ∧
      wheel.advance ringTwice 0 1 = some (done, wheel') ∧
      (done = true ↔ wheel'.ticksPending = 0) ∧ wheel'.target = wheel.target + 0 ∧
      (done = true → ∀ event tick, wheel'.view.due event = some tick → wheel'.now 0 < tick) ∧
      (done = false → wheel.fired + 1 ≤ wheel'.fired) := by
  obtain ⟨wheel, reached, stopped, goal⟩ : ∃ wheel, Execution.run (step ringTwice) (start 254)
      [.request (.schedule false 3), .advance 4 1] = some wheel ∧ wheel.ticksPending ≠ 0 ∧
        wheel.target = 258 := ⟨_, rfl, by decide +kernel, by decide +kernel⟩
  obtain ⟨done, wheel', result⟩ := advance_catches_up ringTwice_legal (by decide) (by decide)
    (by decide +kernel) reached
    ⟨.inr stopped, (by rw [goal]; decide : wheel.target + 0 ≤ 1000), (by decide : 1 < word64)⟩
  exact ⟨wheel, done, wheel', reached, result⟩

end CommonLib.TimerWheel
