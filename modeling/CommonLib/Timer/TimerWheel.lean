import CommonLib.Library.Agenda
import Mathlib.Algebra.Group.Nat.Defs
import Mathlib.Data.List.Nodup

/-!
# The hierarchical timer wheel of ratas

Eight wheels of 256 slots each; the slots of the wheel at level `k` are `256 ^ k` ticks wide.  An
event is put on the lowest wheel on which its tick is less than a rotation away, and is promoted to
a lower one when the wheel reaches its slot.
-/

namespace CommonLib

open Agenda (Entry)

/-- The wheel and the slot on it. -/
abbrev TimerWheelSlot := ℕ × ℕ

/-- `TimerWheel` and the members `scheduled_at_` and `slot_` of the events; the events of a slot
stand in the order of their links. -/
structure TimerWheel (ε : Type*) where
  /-- The time of each wheel. -/
  now : ℕ → ℕ
  ticksPending : ℕ
  slots : TimerWheelSlot → List ε
  scheduledAt : ε → ℕ
  slot : ε → Option TimerWheelSlot
  /-- What the callers asked for, the events that were executed and the ticks that passed. -/
  trace : List (Entry ε)

namespace TimerWheel

variable {ε : Type*} [DecidableEq ε]

/-- Values of type `Tick` and `size_t`. -/
def word64 : ℕ := 2 ^ 64

def numSlots : ℕ := 256

def maxLevel : ℕ := 7

/-- The constructor `TimerWheel(Tick now)`. -/
def start (now : ℕ) : TimerWheel ε where
  now := fun i => now / 256 ^ i
  ticksPending := 0
  slots := fun _ => []
  scheduledAt := fun _ => 0
  slot := fun _ => none
  trace := []

def record (wheel : TimerWheel ε) (entry : Entry ε) : TimerWheel ε :=
  { wheel with trace := wheel.trace ++ [entry] }

/-- `relink` takes an event out of its slot. -/
def unlink (wheel : TimerWheel ε) (event : ε) : TimerWheel ε :=
  match wheel.slot event with
  | none => wheel
  | some slot =>
      { wheel with
        slots := Function.update wheel.slots slot ((wheel.slots slot).erase event)
        slot := Function.update wheel.slot event none }

/-- `relink` puts an event that is in no slot at the head of one. -/
def link (wheel : TimerWheel ε) (event : ε) (slot : TimerWheelSlot) : TimerWheel ε :=
  { wheel with
    slots := Function.update wheel.slots slot (event :: wheel.slots slot)
    slot := Function.update wheel.slot event (some slot) }

/-- `relink` with a slot that is not NULL. -/
def relink (wheel : TimerWheel ε) (event : ε) (slot : TimerWheelSlot) : TimerWheel ε :=
  if wheel.slot event = some slot then wheel else (wheel.unlink event).link event slot

/-- `cancel` with `relink(NULL)`. -/
def cancel (wheel : TimerWheel ε) (event : ε) : TimerWheel ε := wheel.unlink event

/-- The loop of `schedule`: the level and the slots from the current one; the fuel is the number of
wheels from `level` on. -/
def findLevel (now : ℕ → ℕ) : ℕ → ℕ → ℕ → Option (ℕ × ℕ)
  | 0, _, _ => none
  | fuel + 1, level, delta =>
      if numSlots ≤ delta then
        findLevel now fuel (level + 1)
          ((delta + now level % numSlots) % word64 / numSlots)
      else some (level, delta)

def schedule (wheel : TimerWheel ε) (event : ε) (delta : ℕ) : Option (TimerWheel ε) :=
  -- assert(delta > 0)
  if delta = 0 then none
  else
    let wheel := { wheel with
      scheduledAt := Function.update wheel.scheduledAt event ((wheel.now 0 + delta) % word64) }
    (findLevel wheel.now (maxLevel + 1) 0 delta).map fun place =>
      wheel.relink event (place.1, (wheel.now place.1 + place.2) % numSlots)

/-- The loop of `schedule_in_range`; `mask` is 0 when the fuel is out. -/
def rangeMask (first last : ℕ) : ℕ → ℕ → ℕ
  | 0, mask => mask
  | fuel + 1, mask =>
      if first &&& mask ≠ last &&& mask then rangeMask first last fuel (mask <<< 8 % word64)
      else mask

/-- The ticks after which `schedule_in_range` lets an event happen. -/
def rangeDelta (first last : ℕ) : ℕ := last &&& rangeMask first last 8 (word64 - 1) >>> 8

/-- What callers and callbacks ask for. -/
inductive Request (ε : Type*)
  | schedule (event : ε) (delta : ℕ)
  | scheduleInRange (event : ε) (first last : ℕ)
  | cancel (event : ε)

def request (wheel : TimerWheel ε) : Request ε → Option (TimerWheel ε)
  | .schedule event delta =>
      (wheel.schedule event delta).map fun wheel => wheel.record (.schedule event delta)
  | .scheduleInRange event first last =>
      -- assert(end > start)
      if last ≤ first then none
      else
        let current := (wheel.scheduledAt event + word64 - wheel.now 0) % word64
        if wheel.slot event ≠ none ∧ first ≤ current ∧ current ≤ last then some wheel
        else
          (wheel.schedule event (rangeDelta first last)).map fun wheel =>
            wheel.record (.schedule event (rangeDelta first last))
  | .cancel event => some ((wheel.cancel event).record (.cancel event))

/-- The requests that an event makes when it is executed. -/
abbrev Callback (ε : Type*) := TimerWheel ε → ε → List (Request ε)

/-- `execute` of an event. -/
def execute (callback : Callback ε) (wheel : TimerWheel ε) (event : ε) : Option (TimerWheel ε) :=
  let wheel := wheel.record (.fire event)
  (callback wheel event).foldlM request wheel

/-- `pop_event` of a slot that begins with the event. -/
def popEvent (wheel : TimerWheel ε) (slot : TimerWheelSlot) (event : ε) (rest : List ε) :
    TimerWheel ε :=
  { wheel with
    slots := Function.update wheel.slots slot rest
    slot := Function.update wheel.slot event none }

/-- The loop of `process_current_slot`; the fuel exceeds the number of events in the slot. -/
def processSlot (callback : Callback ε) (slot : TimerWheelSlot) :
    ℕ → ℕ → TimerWheel ε → Option (Bool × TimerWheel ε)
  | 0, _, _ => none
  | fuel + 1, maxEvents, wheel =>
      match wheel.slots slot with
      | [] => some (true, wheel)
      | event :: rest =>
          let popped := wheel.popEvent slot event rest
          -- assert((now_[0] & MASK) == 0)
          if 0 < slot.1 ∧ popped.now 0 % numSlots ≠ 0 then none
          else if 0 < slot.1 ∧ popped.now 0 < popped.scheduledAt event then
            let delta := (popped.scheduledAt event + word64 - popped.now 0) % word64
            (popped.schedule event delta).bind (processSlot callback slot fuel maxEvents)
          else
            (execute callback popped event).bind fun wheel =>
              let maxEvents := (maxEvents + word64 - 1) % word64
              if maxEvents = 0 then some (false, wheel)
              else processSlot callback slot fuel maxEvents wheel

/-- The loop of `advance` at a level. -/
def advanceLoop (process : TimerWheel ε → Option (Bool × TimerWheel ε)) (level : ℕ) :
    ℕ → TimerWheel ε → Option (Bool × TimerWheel ε)
  | 0, wheel => some (true, wheel)
  | delta + 1, wheel =>
      let wheel := { wheel with
        now := Function.update wheel.now level ((wheel.now level + 1) % word64) }
      (process (if level = 0 then wheel.record .tick else wheel)).bind fun (done, wheel) =>
        if done then advanceLoop process level delta wheel
        else some (false, { wheel with ticksPending := (delta + 1) % word64 })

/-- `advance` at a level, with the `process_current_slot` of that level. -/
def advanceWith (process : TimerWheel ε → Option (Bool × TimerWheel ε)) (level delta : ℕ)
    (wheel : TimerWheel ε) : Option (Bool × TimerWheel ε) :=
  if wheel.ticksPending ≠ 0 then
    let wheel :=
      if level = 0 then { wheel with ticksPending := (wheel.ticksPending + delta) % word64 }
      else wheel
    (process wheel).bind fun (done, wheel) =>
      if !done then some (false, wheel)
      else if level = 0 then
        advanceLoop process level ((wheel.ticksPending + word64 - 1) % word64)
          { wheel with ticksPending := 0 }
      else some (true, wheel)
  -- assert(delta > 0)
  else if delta = 0 then none
  else advanceLoop process level delta wheel

/-- `process_current_slot` at the level that has `above` levels above it. -/
def processCurrentSlot (callback : Callback ε) (maxEvents : ℕ) :
    ℕ → TimerWheel ε → Option (Bool × TimerWheel ε)
  | 0, wheel =>
      let slot := (maxLevel, wheel.now maxLevel % numSlots)
      processSlot callback slot ((wheel.slots slot).length + 1) maxEvents wheel
  | above + 1, wheel =>
      let level := maxLevel - (above + 1)
      let slot := (level, wheel.now level % numSlots)
      let run := fun wheel : TimerWheel ε =>
        processSlot callback slot ((wheel.slots slot).length + 1) maxEvents wheel
      if slot.2 = 0 then
        (advanceWith (processCurrentSlot callback maxEvents above) (level + 1) 1 wheel).bind
          fun (done, wheel) => if !done then some (false, wheel) else run wheel
      else run wheel

/-- `advance` as callers use it. -/
def advance (callback : Callback ε) (delta maxEvents : ℕ) (wheel : TimerWheel ε) :
    Option (Bool × TimerWheel ε) :=
  advanceWith (processCurrentSlot callback maxEvents maxLevel) 0 delta wheel

inductive Op (ε : Type*)
  | request (request : Request ε)
  | advance (delta maxEvents : ℕ)

def step (callback : Callback ε) (wheel : TimerWheel ε) : Op ε → Option (TimerWheel ε)
  | .request asked => wheel.request asked
  | .advance delta maxEvents => (wheel.advance callback delta maxEvents).map Prod.snd

/-! ## The slot of a tick -/

/-- The slot is the one of the tick `due` on its wheel, and the wheel comes to it within one
rotation.  Only a slot that begins at the present tick may be the current one. -/
structure Fits (now due : ℕ) (slot : TimerWheelSlot) : Prop where
  level : slot.1 ≤ maxLevel
  index : slot.2 = due / 256 ^ slot.1 % numSlots
  reach : due / 256 ^ slot.1 ≤ now / 256 ^ slot.1 + 255
  ahead : now / 256 ^ slot.1 < due / 256 ^ slot.1 ∨
    256 ^ slot.1 ∣ now ∧ due / 256 ^ slot.1 = now / 256 ^ slot.1

/-- The wheel did not reach the slot. -/
def Ahead (now due : ℕ) (slot : TimerWheelSlot) : Prop :=
  now / 256 ^ slot.1 < due / 256 ^ slot.1

theorem Fits.le {now due : ℕ} {slot : TimerWheelSlot} (fits : Fits now due slot) : now ≤ due := by
  rcases fits.ahead with later | ⟨divides, same⟩
  · exact Nat.le_of_lt (Nat.lt_of_div_lt_div later)
  · calc now = now / 256 ^ slot.1 * 256 ^ slot.1 := (Nat.div_mul_cancel divides).symm
      _ = due / 256 ^ slot.1 * 256 ^ slot.1 := by rw [same]
      _ ≤ due := Nat.div_mul_le_self _ _

/-- A slot that the wheel did not reach is at most reached by the next tick. -/
theorem Fits.succ {now due : ℕ} {slot : TimerWheelSlot} (fits : Fits now due slot)
    (ahead : Ahead now due slot) : Fits (now + 1) due slot := by
  have later := fits.reach
  unfold Ahead at ahead
  refine ⟨fits.level, fits.index, ?_, ?_⟩
  · exact Nat.le_trans later
      (Nat.add_le_add_right (Nat.div_le_div_right (Nat.le_succ now)) 255)
  · rw [Nat.succ_div]
    by_cases divides : 256 ^ slot.1 ∣ now + 1
    · rw [if_pos divides]
      rcases Nat.lt_or_eq_of_le ahead with further | here
      · exact .inl further
      · exact .inr ⟨divides, here.symm⟩
    · rw [if_neg divides]
      exact .inl ahead

/-- Among the slots of a wheel only those that are due lie at the current one. -/
theorem Fits.eq_of_index {now due : ℕ} {slot : TimerWheelSlot} (fits : Fits now due slot)
    (current : slot.2 = now / 256 ^ slot.1 % numSlots) :
    256 ^ slot.1 ∣ now ∧ due / 256 ^ slot.1 = now / 256 ^ slot.1 := by
  have same := fits.index.symm.trans current
  have later := fits.reach
  simp only [numSlots] at same
  rcases fits.ahead with ahead | here
  · omega
  · exact here

/-- A step of the loop of `schedule`. -/
theorem sub_div_succ {now due : ℕ} (before : now ≤ due) (level : ℕ) :
    (due / 256 ^ level - now / 256 ^ level + now / 256 ^ level % 256) / 256 =
      due / 256 ^ (level + 1) - now / 256 ^ (level + 1) := by
  have ordered : now / 256 ^ level ≤ due / 256 ^ level := Nat.div_le_div_right before
  rw [pow_succ, ← Nat.div_div_eq_div_mul, ← Nat.div_div_eq_div_mul]
  omega

/-- The loop of `schedule` ends at a wheel on which the tick is less than a rotation away. -/
theorem findLevel_eq {now : ℕ → ℕ} {due : ℕ} (current : ∀ k ≤ maxLevel, now k = now 0 / 256 ^ k)
    (before : now 0 ≤ due) (small : due < word64) {fuel level : ℕ}
    (levels : fuel + level = maxLevel + 1)
    (later : now 0 / 256 ^ level < due / 256 ^ level) :
    ∃ found, findLevel now fuel level (due / 256 ^ level - now 0 / 256 ^ level) =
        some (found, due / 256 ^ found - now 0 / 256 ^ found) ∧ found ≤ maxLevel ∧
      now 0 / 256 ^ found < due / 256 ^ found ∧ due / 256 ^ found < now 0 / 256 ^ found + 256 := by
  induction fuel generalizing level with
  | zero =>
      have top : level = 8 := by simpa [maxLevel] using levels
      have none_left : due / 256 ^ level = 0 :=
        Nat.div_eq_of_lt (Nat.lt_of_lt_of_eq small (by rw [top]; rfl))
      rw [none_left] at later
      exact absurd later (Nat.not_lt_zero _)
  | succ fuel induction =>
      have inside : level ≤ maxLevel := by omega
      rw [findLevel]
      by_cases wide : numSlots ≤ due / 256 ^ level - now 0 / 256 ^ level
      · have unwrapped : due / 256 ^ level - now 0 / 256 ^ level + now 0 / 256 ^ level % 256 <
            word64 := by
          have upper : due / 256 ^ level ≤ due := Nat.div_le_self _ _
          have lower := Nat.mod_le (now 0 / 256 ^ level) 256
          omega
        have further : now 0 / 256 ^ (level + 1) < due / 256 ^ (level + 1) := by
          have next := sub_div_succ before level
          simp only [numSlots] at wide
          omega
        rw [if_pos wide, current level inside]
        simp only [numSlots]
        rw [Nat.mod_eq_of_lt unwrapped, sub_div_succ before level]
        exact induction (by omega) further
      · rw [if_neg wide]
        simp only [numSlots] at wide
        exact ⟨level, rfl, inside, later, by omega⟩

/-! ## The events of the slots -/

/-- The slots and the events agree on where the events are. -/
structure Listed (wheel : TimerWheel ε) : Prop where
  mem_iff : ∀ event slot, event ∈ wheel.slots slot ↔ wheel.slot event = some slot
  nodup : ∀ slot, (wheel.slots slot).Nodup

theorem unlink_slot (wheel : TimerWheel ε) (event : ε) :
    (wheel.unlink event).slot = Function.update wheel.slot event none := by
  unfold unlink
  cases place : wheel.slot event with
  | none => exact (Function.update_eq_self_iff.mpr place.symm).symm
  | some slot => rfl

theorem relink_slot (wheel : TimerWheel ε) (event : ε) (slot : TimerWheelSlot) :
    (wheel.relink event slot).slot = Function.update wheel.slot event (some slot) := by
  unfold relink
  split
  next same => exact (Function.update_eq_self_iff.mpr same.symm).symm
  next => simp [link, unlink_slot]

theorem unlink_frame (wheel : TimerWheel ε) (event : ε) :
    (wheel.unlink event).now = wheel.now ∧
      (wheel.unlink event).ticksPending = wheel.ticksPending ∧
      (wheel.unlink event).scheduledAt = wheel.scheduledAt ∧
      (wheel.unlink event).trace = wheel.trace := by
  unfold unlink
  split <;> exact ⟨rfl, rfl, rfl, rfl⟩

theorem relink_frame (wheel : TimerWheel ε) (event : ε) (slot : TimerWheelSlot) :
    (wheel.relink event slot).now = wheel.now ∧
      (wheel.relink event slot).ticksPending = wheel.ticksPending ∧
      (wheel.relink event slot).scheduledAt = wheel.scheduledAt ∧
      (wheel.relink event slot).trace = wheel.trace := by
  unfold relink
  split
  · exact ⟨rfl, rfl, rfl, rfl⟩
  · exact unlink_frame wheel event

theorem unlink_slots_length (wheel : TimerWheel ε) (event : ε) (slot : TimerWheelSlot) :
    ((wheel.unlink event).slots slot).length ≤ (wheel.slots slot).length := by
  unfold unlink
  split
  · exact Nat.le_refl _
  · simp only [Function.update_apply]
    split
    next same => subst same; exact List.length_erase_le
    next => exact Nat.le_refl _

/-- Only the slot that an event is moved to grows. -/
theorem relink_slots_length (wheel : TimerWheel ε) (event : ε) {slot other : TimerWheelSlot}
    (different : other ≠ slot) :
    ((wheel.relink event slot).slots other).length ≤ (wheel.slots other).length := by
  unfold relink
  split
  · exact Nat.le_refl _
  · simp only [link, Function.update_of_ne different]
    exact unlink_slots_length wheel event other

theorem Listed.unlink {wheel : TimerWheel ε} (listed : Listed wheel) (event : ε) :
    Listed (wheel.unlink event) := by
  unfold TimerWheel.unlink
  cases place : wheel.slot event with
  | none => exact listed
  | some slot =>
      constructor
      · intro other slot'
        simp only [Function.update_apply]
        by_cases same : other = event
        · subst same
          by_cases here : slot' = slot
          · simp [here, (listed.nodup slot).not_mem_erase]
          · simp [here, listed.mem_iff, place, Ne.symm here]
        · by_cases here : slot' = slot
          · simp [here, same, List.mem_erase_of_ne same, listed.mem_iff]
          · simp [here, same, listed.mem_iff]
      · intro slot'
        simp only [Function.update_apply]
        split
        · exact (listed.nodup slot).erase event
        · exact listed.nodup slot'

theorem Listed.link {wheel : TimerWheel ε} (listed : Listed wheel) {event : ε}
    (inactive : wheel.slot event = none) (slot : TimerWheelSlot) :
    Listed (wheel.link event slot) := by
  have absent : ∀ slot', event ∉ wheel.slots slot' := fun slot' member => by
    simp [listed.mem_iff, inactive] at member
  constructor
  · intro other slot'
    simp only [TimerWheel.link, Function.update_apply]
    by_cases same : other = event
    · subst same
      by_cases here : slot' = slot
      · simp [here]
      · simp [here, absent, Ne.symm here]
    · by_cases here : slot' = slot
      · simp [here, same, listed.mem_iff]
      · simp [here, same, listed.mem_iff]
  · intro slot'
    simp only [TimerWheel.link, Function.update_apply]
    split
    · exact List.nodup_cons.mpr ⟨absent slot, listed.nodup slot⟩
    · exact listed.nodup slot'

theorem Listed.relink {wheel : TimerWheel ε} (listed : Listed wheel) (event : ε)
    (slot : TimerWheelSlot) : Listed (wheel.relink event slot) := by
  unfold TimerWheel.relink
  split
  · exact listed
  · exact (listed.unlink event).link (by simp [unlink_slot]) slot

theorem Listed.popEvent {wheel : TimerWheel ε} (listed : Listed wheel) {slot : TimerWheelSlot}
    {event : ε} {rest : List ε} (events : wheel.slots slot = event :: rest) :
    wheel.popEvent slot event rest = wheel.unlink event := by
  have place : wheel.slot event = some slot := (listed.mem_iff event slot).mp (by simp [events])
  simp [TimerWheel.popEvent, TimerWheel.unlink, place, events]

end TimerWheel

end CommonLib
