import CommonLib.Library.Execution
import Mathlib.Logic.Function.Basic

/-!
# An agenda of events

What a timer has to do, without any way to do it: each event is due at one tick at most, the clock
passes a tick only when nothing is left that is due at it, and an event is executed at the tick at
which it is due.  A timer is correct if the trace of what it did is a run of the agenda.
-/

namespace CommonLib

/-- The clock and the ticks at which the events are due. -/
@[ext]
structure Agenda (ε : Type*) where
  clock : ℕ
  due : ε → Option ℕ

namespace Agenda

variable {ε : Type*} [DecidableEq ε]

inductive Entry (ε : Type*)
  /-- The event shall be executed so many ticks from now. -/
  | schedule (event : ε) (delta : ℕ)
  | cancel (event : ε)
  /-- The event is executed. -/
  | fire (event : ε)
  /-- The clock goes on by one tick. -/
  | tick
deriving DecidableEq

/-- The entry executes an event. -/
def Entry.isFire : Entry ε → Bool
  | .fire _ => true
  | _ => false

/-- The agenda on which nothing is due. -/
def empty (clock : ℕ) : Agenda ε where
  clock := clock
  due := fun _ => none

open Classical in
/-- An event is executed only at the tick at which it is due, and no tick passes over one. -/
noncomputable def step (agenda : Agenda ε) : Entry ε → Option (Agenda ε)
  | .schedule event delta =>
      some { agenda with due := Function.update agenda.due event (some (agenda.clock + delta)) }
  | .cancel event => some { agenda with due := Function.update agenda.due event none }
  | .fire event =>
      if agenda.due event = some agenda.clock then
        some { agenda with due := Function.update agenda.due event none }
      else none
  | .tick =>
      if ∀ event, agenda.due event ≠ some agenda.clock then
        some { agenda with clock := agenda.clock + 1 }
      else none

theorem step_fire {agenda : Agenda ε} {event : ε} (now : agenda.due event = some agenda.clock) :
    agenda.step (.fire event) =
      some { agenda with due := Function.update agenda.due event none } :=
  if_pos now

theorem step_tick {agenda : Agenda ε} (past : ∀ event, agenda.due event ≠ some agenda.clock) :
    agenda.step .tick = some { agenda with clock := agenda.clock + 1 } :=
  if_pos past

/-- A trace which leads to an agenda goes on with what the agenda allows. -/
theorem run_concat {agenda middle final : Agenda ε} {trace : List (Entry ε)} {entry : Entry ε}
    (execution : Execution.run step agenda trace = some middle)
    (last : middle.step entry = some final) :
    Execution.run step agenda (trace ++ [entry]) = some final := by
  rw [Execution.run_append, execution, Option.bind_some,
    Execution.run_cons_eq_some.mpr ⟨final, last, rfl⟩]

end Agenda

end CommonLib
