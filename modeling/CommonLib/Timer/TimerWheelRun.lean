import CommonLib.Timer.RangeDelta

/-!
# The runs of the timer wheel

Between two ticks the wheel is an agenda in another form.  A tick moves the lower wheels and the
slots they reach are emptied from the highest wheel down, so that nothing is left behind.
-/

namespace CommonLib.TimerWheel

open Agenda (Entry)

variable {ε : Type*} [DecidableEq ε]

/-! ## Requests -/

/-- All wheels show the present tick. -/
def Current (wheel : TimerWheel ε) : Prop :=
  ∀ k ≤ maxLevel, wheel.now k = wheel.now 0 / 256 ^ k

structure Placed (wheel : TimerWheel ε) : Prop extends Listed wheel where
  fits : ∀ event slot, wheel.slot event = some slot →
    Fits (wheel.now 0) (wheel.scheduledAt event) slot
  word : ∀ event slot, wheel.slot event = some slot → wheel.scheduledAt event < word64

/-- The wheels from a level on did not reach the slots of their events. -/
def Clean (level : ℕ) (wheel : TimerWheel ε) : Prop :=
  ∀ event slot, wheel.slot event = some slot → level ≤ slot.1 →
    Ahead (wheel.now 0) (wheel.scheduledAt event) slot

/-- The agenda that the wheel implements. -/
def view (wheel : TimerWheel ε) : Agenda ε where
  clock := wheel.now 0
  due := fun event => (wheel.slot event).map fun _ => wheel.scheduledAt event

/-- The number of executed events. -/
def fired (wheel : TimerWheel ε) : ℕ := wheel.trace.countP Entry.isFire

omit [DecidableEq ε] in
theorem fired_record (wheel : TimerWheel ε) (entry : Entry ε) :
    (wheel.record entry).fired = wheel.fired + if entry.isFire then 1 else 0 := by
  simp [fired, record, List.countP_append, List.countP_singleton]

/-- The requests that may be made at a tick: no tick after the last one is asked for, and a range
does not reach the bits that `schedule_in_range` loses. -/
def Legal (now : ℕ) : Request ε → Prop
  | .schedule _ delta => 0 < delta ∧ now + delta < word64
  | .scheduleInRange _ first last => first < last ∧ last < 2 ^ 56 ∧ now + last < word64
  | .cancel _ => True

/-- What the slots of a wheel may do between two ticks: the slots at which the wheels stand do not
grow. -/
structure Kept (wheel wheel' : TimerWheel ε) : Prop where
  now : wheel'.now = wheel.now
  ticksPending : wheel'.ticksPending = wheel.ticksPending
  clean : ∀ level, Clean level wheel → Clean level wheel'
  length : ∀ k ≤ maxLevel, (wheel'.slots (k, wheel.now k % numSlots)).length ≤
    (wheel.slots (k, wheel.now k % numSlots)).length
  fired : wheel.fired ≤ wheel'.fired

omit [DecidableEq ε] in
theorem Kept.refl (wheel : TimerWheel ε) : Kept wheel wheel :=
  ⟨rfl, rfl, fun _ clean => clean, fun _ _ => Nat.le_refl _, Nat.le_refl _⟩

omit [DecidableEq ε] in
theorem Kept.trans {wheel wheel' wheel'' : TimerWheel ε} (first : Kept wheel wheel')
    (second : Kept wheel' wheel'') : Kept wheel wheel'' where
  now := second.now.trans first.now
  ticksPending := second.ticksPending.trans first.ticksPending
  clean := fun level clean => second.clean level (first.clean level clean)
  length := fun k inside =>
    Nat.le_trans (first.now ▸ second.length k inside) (first.length k inside)
  fired := Nat.le_trans first.fired second.fired

omit [DecidableEq ε] in
theorem Kept.current {wheel wheel' : TimerWheel ε} (kept : Kept wheel wheel')
    (current : Current wheel) : Current wheel' := by
  intro k inside
  rw [kept.now]
  exact current k inside

/-- An event that was taken out of its slot. -/
theorem unlink_placed {wheel : TimerWheel ε} (placed : Placed wheel) (event : ε) :
    Placed (wheel.unlink event) ∧ Kept wheel (wheel.unlink event) ∧
      (wheel.unlink event).view =
        { wheel.view with due := Function.update wheel.view.due event none } := by
  obtain ⟨now_eq, pending_eq, scheduled_eq, trace_eq⟩ := unlink_frame wheel event
  have remains : ∀ {other slot}, (wheel.unlink event).slot other = some slot →
      wheel.slot other = some slot := by
    intro other slot place
    rw [unlink_slot, Function.update_apply] at place
    split at place
    · cases place
    · exact place
  refine ⟨⟨placed.toListed.unlink event, fun other slot place => ?_, fun other slot place => ?_⟩,
    ⟨now_eq, pending_eq, fun level clean other slot place above => ?_,
      fun k _ => unlink_slots_length wheel event _,
      Nat.le_of_eq (by simp only [fired, trace_eq])⟩, ?_⟩
  · rw [now_eq, scheduled_eq]
    exact placed.fits other slot (remains place)
  · rw [scheduled_eq]
    exact placed.word other slot (remains place)
  · rw [now_eq, scheduled_eq]
    exact clean other slot (remains place) above
  · refine Agenda.ext (congrFun now_eq 0) (funext fun other => ?_)
    simp only [view, unlink_slot, scheduled_eq, Function.update_apply]
    split <;> rfl

/-- An event is put on a slot that no wheel reached. -/
theorem schedule_placed {wheel : TimerWheel ε} (placed : Placed wheel) (current : Current wheel)
    (event : ε) {delta : ℕ} (positive : 0 < delta) (small : wheel.now 0 + delta < word64) :
    ∃ wheel', wheel.schedule event delta = some wheel' ∧ Placed wheel' ∧ Kept wheel wheel' ∧
      wheel'.trace = wheel.trace ∧
      wheel'.view = { wheel.view with
        due := Function.update wheel.view.due event (some (wheel.now 0 + delta)) } := by
  obtain ⟨level, found, inside, later, near⟩ :=
    findLevel_eq current (Nat.le_add_right (wheel.now 0) delta) small
      (Nat.add_zero (maxLevel + 1)) (by simpa using positive)
  have start_delta : (wheel.now 0 + delta) / 256 ^ 0 - wheel.now 0 / 256 ^ 0 = delta := by simp
  rw [start_delta] at found
  let slot : TimerWheelSlot := (level, (wheel.now 0 + delta) / 256 ^ level % numSlots)
  let dated := { wheel with
    scheduledAt := Function.update wheel.scheduledAt event (wheel.now 0 + delta) }
  have made : wheel.schedule event delta = some (dated.relink event slot) := by
    unfold schedule
    rw [if_neg (Nat.ne_of_gt positive)]
    simp only [Nat.mod_eq_of_lt small, found, Option.map_some, current level inside]
    have index : wheel.now 0 / 256 ^ level +
        ((wheel.now 0 + delta) / 256 ^ level - wheel.now 0 / 256 ^ level) =
          (wheel.now 0 + delta) / 256 ^ level := by omega
    rw [index]
  have fits : Fits (wheel.now 0) (wheel.now 0 + delta) slot :=
    ⟨inside, rfl, by simp only [slot]; omega, .inl later⟩
  obtain ⟨now_eq, pending_eq, scheduled_eq, trace_eq⟩ := relink_frame dated event slot
  have moved : ∀ {other slot'}, (dated.relink event slot).slot other = some slot' →
      other = event ∧ slot' = slot ∨ other ≠ event ∧ wheel.slot other = some slot' := by
    intro other slot' place
    rw [relink_slot, Function.update_apply] at place
    split at place
    next same => exact .inl ⟨same, (Option.some.inj place).symm⟩
    next different => exact .inr ⟨different, place⟩
  have dated_same : dated.scheduledAt event = wheel.now 0 + delta := Function.update_self ..
  have dated_other : ∀ {other}, other ≠ event → dated.scheduledAt other = wheel.scheduledAt other :=
    fun different => Function.update_of_ne different ..
  have listed : Listed dated := ⟨placed.mem_iff, placed.nodup⟩
  refine ⟨_, made, ⟨listed.relink event slot,
    fun other slot' place => ?_, fun other slot' place => ?_⟩,
    ⟨now_eq, pending_eq, fun level' clean other slot' place above => ?_, fun k inside' => ?_, ?_⟩,
    trace_eq, ?_⟩
  · rw [now_eq, scheduled_eq]
    rcases moved place with ⟨rfl, rfl⟩ | ⟨different, before⟩
    · rw [dated_same]
      exact fits
    · rw [dated_other different]
      exact placed.fits other slot' before
  · rw [scheduled_eq]
    rcases moved place with ⟨rfl, rfl⟩ | ⟨different, before⟩
    · rw [dated_same]
      exact small
    · rw [dated_other different]
      exact placed.word other slot' before
  · rw [now_eq, scheduled_eq]
    rcases moved place with ⟨rfl, rfl⟩ | ⟨different, before⟩
    · rw [dated_same]
      exact later
    · rw [dated_other different]
      exact clean other slot' before above
  · refine relink_slots_length dated event fun same => ?_
    obtain ⟨rfl, index⟩ := Prod.mk.inj same
    rw [current k inside'] at index
    simp only [numSlots] at index
    omega
  · exact Nat.le_of_eq (by simp only [TimerWheel.fired, trace_eq, dated])
  · refine Agenda.ext (congrFun now_eq 0) (funext fun other => ?_)
    simp only [view, relink_slot, scheduled_eq, Function.update_apply]
    by_cases same : other = event
    · simp [same, dated_same]
    · simp [same, dated]

/-- Between two ticks: the trace explains the wheel as an agenda. -/
structure Ready (agenda : Agenda ε) (wheel : TimerWheel ε) : Prop extends Placed wheel where
  current : Current wheel
  explained : Execution.run Agenda.step agenda wheel.trace = some wheel.view

variable {agenda : Agenda ε} {callback : Callback ε}

theorem Ready.record {wheel wheel' : TimerWheel ε} {entry : Entry ε} (ready : Ready agenda wheel)
    (placed : Placed wheel') (kept : Kept wheel wheel') (same : wheel'.trace = wheel.trace)
    (made : wheel.view.step entry = some wheel'.view) :
    Ready agenda (wheel'.record entry) ∧ Kept wheel (wheel'.record entry) := by
  refine ⟨⟨⟨⟨placed.mem_iff, placed.nodup⟩, placed.fits, placed.word⟩,
    kept.current ready.current, ?_⟩,
    ⟨kept.now, kept.ticksPending, kept.clean, kept.length, ?_⟩⟩
  · exact Agenda.run_concat (same ▸ ready.explained) made
  · rw [fired_record]
    exact Nat.le_add_right_of_le kept.fired

/-- A legal request is met. -/
theorem request_ready {wheel : TimerWheel ε} (ready : Ready agenda wheel) {asked : Request ε}
    (legal : Legal (wheel.now 0) asked) :
    ∃ wheel', wheel.request asked = some wheel' ∧ Ready agenda wheel' ∧ Kept wheel wheel' := by
  have scheduled : ∀ {event : ε} {delta}, 0 < delta → wheel.now 0 + delta < word64 →
      ∃ wheel', (wheel.schedule event delta).map
          (fun wheel => wheel.record (.schedule event delta)) = some wheel' ∧
        Ready agenda wheel' ∧ Kept wheel wheel' := by
    intro event delta positive small
    obtain ⟨wheel', made, placed, kept, same, view_eq⟩ :=
      schedule_placed ready.toPlaced ready.current event positive small
    exact ⟨_, by rw [made]; rfl, ready.record placed kept same (by rw [view_eq]; rfl)⟩
  cases asked with
  | schedule event delta => exact scheduled legal.1 legal.2
  | scheduleInRange event first last =>
      obtain ⟨ordered, small, inside⟩ := legal
      obtain ⟨above, below⟩ := rangeDelta_mem ordered small
      simp only [request, if_neg (Nat.not_le_of_lt ordered)]
      split
      · exact ⟨wheel, rfl, ready, Kept.refl wheel⟩
      · exact scheduled (Nat.zero_lt_of_lt above) (by omega)
  | cancel event =>
      obtain ⟨placed, kept, view_eq⟩ := unlink_placed ready.toPlaced event
      exact ⟨_, rfl, ready.record placed kept (unlink_frame wheel event).2.2.2
        (by rw [cancel, view_eq]; rfl)⟩

/-- A callback makes legal requests up to the horizon. -/
def LegalCallback (horizon : ℕ) (callback : Callback ε) : Prop :=
  ∀ wheel event, wheel.now 0 ≤ horizon →
    ∀ asked ∈ callback wheel event, Legal (wheel.now 0) asked

theorem requests_ready {wheel : TimerWheel ε} (ready : Ready agenda wheel)
    {requests : List (Request ε)} (legal : ∀ asked ∈ requests, Legal (wheel.now 0) asked) :
    ∃ wheel', requests.foldlM request wheel = some wheel' ∧ Ready agenda wheel' ∧
      Kept wheel wheel' := by
  induction requests generalizing wheel with
  | nil => exact ⟨wheel, rfl, ready, Kept.refl wheel⟩
  | cons asked requests induction =>
      obtain ⟨middle, made, ready', kept⟩ := request_ready ready (legal asked (by simp))
      obtain ⟨final, rest, ready'', kept'⟩ := induction ready' fun asked' member =>
        kept.now ▸ legal asked' (List.mem_cons_of_mem asked member)
      refine ⟨final, ?_, ready'', kept.trans kept'⟩
      rw [List.foldlM_cons, made]
      exact rest

/-- An event is executed at its tick. -/
theorem execute_ready {horizon : ℕ} (legal : LegalCallback horizon callback)
    {wheel : TimerWheel ε} (ready : Ready agenda wheel) (bounded : wheel.now 0 ≤ horizon)
    {event : ε} {slot : TimerWheelSlot} (place : wheel.slot event = some slot)
    (now : wheel.scheduledAt event = wheel.now 0) :
    ∃ wheel', execute callback (wheel.unlink event) event = some wheel' ∧ Ready agenda wheel' ∧
      Kept (wheel.unlink event) wheel' ∧ wheel.fired + 1 ≤ wheel'.fired := by
  obtain ⟨placed, kept, view_eq⟩ := unlink_placed ready.toPlaced event
  have due : wheel.view.due event = some wheel.view.clock := by simp [view, place, now]
  have made : wheel.view.step (.fire event) = some (wheel.unlink event).view := by
    rw [Agenda.step_fire due, view_eq]
  obtain ⟨ready', kept'⟩ :=
    ready.record placed kept (unlink_frame wheel event).2.2.2 made
  obtain ⟨wheel', executed, ready'', kept''⟩ := requests_ready ready'
    (legal ((wheel.unlink event).record (.fire event)) event (by rw [kept'.now]; exact bounded))
  have one : ((wheel.unlink event).record (.fire event)).fired = (wheel.unlink event).fired + 1 :=
    fired_record _ _
  have first := kept.fired
  have later := kept''.fired
  refine ⟨wheel', executed, ready'', ⟨kept''.now, kept''.ticksPending, kept''.clean,
    kept''.length, ?_⟩, ?_⟩
  · omega
  · omega

theorem sub_word {now due : ℕ} (small : due < word64) (before : now ≤ due) :
    (due + word64 - now) % word64 = due - now := by
  rw [show due + word64 - now = due - now + word64 by omega, Nat.add_mod_right]
  exact Nat.mod_eq_of_lt (by omega)

/-- An event of a wide slot is put on a lower wheel until its tick. -/
theorem promote_ready {wheel : TimerWheel ε} (ready : Ready agenda wheel) {event : ε}
    {slot : TimerWheelSlot} (place : wheel.slot event = some slot)
    (later : wheel.now 0 < wheel.scheduledAt event) :
    ∃ wheel', (wheel.unlink event).schedule event
        ((wheel.scheduledAt event + word64 - wheel.now 0) % word64) = some wheel' ∧
      Ready agenda wheel' ∧ Kept (wheel.unlink event) wheel' := by
  obtain ⟨placed, kept, view_eq⟩ := unlink_placed ready.toPlaced event
  have small := ready.word event slot place
  have remaining := sub_word small (Nat.le_of_lt later)
  have now_eq : (wheel.unlink event).now 0 = wheel.now 0 := congrFun kept.now 0
  obtain ⟨wheel', made, placed', kept', same, view_eq'⟩ :=
    schedule_placed placed (kept.current ready.current) event (Nat.sub_pos_of_lt later)
      (by omega)
  have view_same : wheel'.view = wheel.view := by
    rw [view_eq', view_eq, now_eq, Nat.add_sub_cancel' (Nat.le_of_lt later)]
    refine Agenda.ext rfl ?_
    simp only [Function.update_idem]
    exact Function.update_eq_self_iff.mpr (by simp [view, place])
  refine ⟨wheel', by rw [remaining]; exact made, ⟨placed', (kept.trans kept').current ready.current,
    ?_⟩, kept'⟩
  rw [same, (unlink_frame wheel event).2.2.2, view_same]
  exact ready.explained

/-! ## The slots that a tick reaches -/

/-- What processing the current slot of a wheel and of those above it leaves. -/
structure Processed (agenda : Agenda ε) (level maxEvents : ℕ) (wheel wheel' : TimerWheel ε)
    (done : Bool) : Prop where
  ready : Ready agenda wheel'
  now : wheel'.now 0 = wheel.now 0
  clean : done = true → Clean level wheel'
  fired : wheel.fired ≤ wheel'.fired
  enough : done = false → wheel.fired + maxEvents ≤ wheel'.fired

/-- The rest of a loop after a part of it. -/
theorem Processed.after {level maxEvents rest : ℕ} {wheel middle final : TimerWheel ε} {done : Bool}
    (processed : Processed agenda level rest middle final done)
    (now : middle.now 0 = wheel.now 0) (fired : wheel.fired ≤ middle.fired)
    (spent : wheel.fired + maxEvents ≤ middle.fired + rest) :
    Processed agenda level maxEvents wheel final done where
  ready := processed.ready
  now := processed.now.trans now
  clean := processed.clean
  fired := Nat.le_trans fired processed.fired
  enough := fun stopped => Nat.le_trans spent (processed.enough stopped)

/-- The loop empties the slot and stops early only when enough events were executed. -/
theorem processSlot_ready {horizon : ℕ} (legal : LegalCallback horizon callback) {k : ℕ}
    (inside : k ≤ maxLevel) {wheel : TimerWheel ε} (ready : Ready agenda wheel)
    (bounded : wheel.now 0 ≤ horizon) (carry : 256 ^ k ∣ wheel.now 0)
    (clean : Clean (k + 1) wheel) {slot : TimerWheelSlot}
    (here : slot = (k, wheel.now k % numSlots)) {fuel maxEvents : ℕ}
    (length : (wheel.slots slot).length < fuel) (size : maxEvents < word64) :
    ∃ done wheel', processSlot callback slot fuel maxEvents wheel = some (done, wheel') ∧
      Processed agenda k maxEvents wheel wheel' done ∧
      wheel'.ticksPending = wheel.ticksPending := by
  induction fuel generalizing wheel maxEvents with
  | zero => exact absurd length (Nat.not_lt_zero _)
  | succ fuel induction =>
      have index : slot.2 = wheel.now 0 / 256 ^ slot.1 % numSlots := by
        rw [here, ready.current k inside]
      cases events : wheel.slots slot with
      | nil =>
          refine ⟨true, wheel, by rw [processSlot, events],
            ⟨ready, rfl, fun _ event other place above => ?_, Nat.le_refl _, (by simp)⟩, rfl⟩
          rcases Nat.lt_or_eq_of_le above with higher | level
          · exact clean event other place higher
          · have fits := ready.fits event other place
            rcases fits.ahead with later | ⟨-, same⟩
            · exact later
            · have level_eq : slot.1 = other.1 := by rw [here]; exact level
              have same_slot : other = slot :=
                Prod.ext level_eq.symm (by rw [fits.index, same, index, level_eq])
              have member := (ready.mem_iff event slot).mpr (same_slot ▸ place)
              simp [events] at member
      | cons event rest =>
          have place : wheel.slot event = some slot :=
            (ready.mem_iff event slot).mp (by simp [events])
          have fits := ready.fits event slot place
          obtain ⟨-, same⟩ := fits.eq_of_index index
          obtain ⟨now_eq, -, scheduled_eq, -⟩ := unlink_frame wheel event
          obtain ⟨-, kept, -⟩ := unlink_placed ready.toPlaced event
          have popped : (wheel.unlink event).slots slot = rest := by
            rw [← ready.popEvent events, popEvent]
            exact Function.update_self ..
          have shorter : ∀ {wheel' : TimerWheel ε}, Kept (wheel.unlink event) wheel' →
              (wheel'.slots slot).length < fuel := by
            intro wheel' kept'
            have bound := kept'.length k inside
            rw [now_eq, ← here, popped] at bound
            rw [events, List.length_cons] at length
            omega
          have aligned : ¬(0 < slot.1 ∧ wheel.now 0 % numSlots ≠ 0) := by
            rintro ⟨positive, odd⟩
            rw [here] at positive
            exact odd (Nat.mod_eq_zero_of_dvd
              (Nat.dvd_trans (dvd_pow_self 256 (Nat.ne_of_gt positive)) carry))
          have continued : ∀ {wheel' : TimerWheel ε} {left : ℕ}, left < word64 →
              Ready agenda wheel' → Kept (wheel.unlink event) wheel' →
              wheel.fired + maxEvents ≤ wheel'.fired + left →
              ∃ done final, processSlot callback slot fuel left wheel' = some (done, final) ∧
                Processed agenda k maxEvents wheel final done ∧
                final.ticksPending = wheel.ticksPending := by
            intro wheel' left small ready' kept' spent
            have whole := kept.trans kept'
            have now_same : wheel'.now 0 = wheel.now 0 := congrFun whole.now 0
            obtain ⟨done, final, processing, processed, pending⟩ := induction ready'
              (by rw [now_same]; exact bounded) (by rw [now_same]; exact carry)
              (whole.clean _ clean) (by rw [whole.now]; exact here) (shorter kept') small
            exact ⟨done, final, processing, processed.after now_same whole.fired spent,
              pending.trans whole.ticksPending⟩
          rw [processSlot, events]
          simp only [ready.popEvent events, now_eq, scheduled_eq, if_neg aligned]
          by_cases later : 0 < slot.1 ∧ wheel.now 0 < wheel.scheduledAt event
          · obtain ⟨wheel', promoted, ready', kept'⟩ := promote_ready ready place later.2
            rw [if_pos later, promoted, Option.bind_some]
            exact continued size ready' kept'
              (Nat.add_le_add_right (Nat.le_trans kept.fired kept'.fired) _)
          · have now : wheel.scheduledAt event = wheel.now 0 := by
              rcases Nat.eq_zero_or_pos slot.1 with core | outer
              · simpa [core] using same
              · exact Nat.le_antisymm (Nat.le_of_not_lt fun less => later ⟨outer, less⟩) fits.le
            obtain ⟨wheel', executed, ready', kept', one⟩ :=
              execute_ready legal ready bounded place now
            rw [if_neg later, executed, Option.bind_some]
            have left : (maxEvents + word64 - 1) % word64 < word64 :=
              Nat.mod_lt _ (by decide)
            have spent : maxEvents ≤ (maxEvents + word64 - 1) % word64 + 1 := by
              rcases Nat.eq_zero_or_pos maxEvents with zero | positive
              · omega
              · rw [show maxEvents + word64 - 1 = maxEvents - 1 + word64 by omega,
                  Nat.add_mod_right, Nat.mod_eq_of_lt (by omega)]
                omega
            by_cases last : (maxEvents + word64 - 1) % word64 = 0
            · rw [if_pos last]
              have whole := kept.trans kept'
              exact ⟨false, wheel', rfl, ⟨ready', congrFun whole.now 0, (by simp), whole.fired,
                fun _ => by omega⟩, whole.ticksPending⟩
            · rw [if_neg last]
              exact continued left ready' kept' (by omega)

end CommonLib.TimerWheel
