import Mathlib.Logic.Function.Basic
import Mathlib.Tactic.Common

/-!
# The timer queue of `timer_queue.c`

The timers of a loop form a doubly linked list in the order of their timestamps.  A pointer to a
timer is its number in the order of allocation and `NULL` is `none`; an operation that reads or
writes through `NULL` or through a pointer to a freed timer is undefined.  The callbacks are not
part of the queue: `timer_queue_process_inloop` is split at the call of a callback, so that it may
call the queue before it returns.
-/

namespace CommonLib

/-- `struct loop_timer`; its callback and the userdata are known by the number of the timer. -/
structure LoopTimer where
  timestamp : UInt64
  interval : UInt32
  isInCallback : Bool
  isAlive : Bool
  isExpired : Bool
  isInQueue : Bool
  prev : Option Nat
  next : Option Nat
deriving DecidableEq

/-- What happens to a timer. -/
inductive TimerEvent
  | added (timer : Nat) (timestamp : UInt64) (interval : UInt32)
  /-- It is linked into the list. -/
  | inserted (timer : Nat)
  /-- The loop over the expired timers arrives at it. -/
  | turn (timer : Nat)
  /-- Its callback is called. -/
  | called (timer : Nat)
  /-- It is cancelled. -/
  | cancelled (timer : Nat)
  | freed (timer : Nat)
deriving DecidableEq

/-- `struct timer_queue` together with the heap of timers. -/
structure TimerQueue where
  timerList : Option Nat
  timerListEnd : Option Nat
  minTimestamp : UInt64
  /-- The time that `get_current_timestamp` reads. -/
  clock : UInt64
  /-- The timers that are allocated. -/
  timers : Nat → Option LoopTimer
  /-- The number of allocations. -/
  allocs : Nat
  /-- What happened to the timers, the newest event first. -/
  trace : List TimerEvent

namespace TimerQueue

/-- `timer_queue_create`. -/
def create (clock : UInt64) : TimerQueue :=
  { timerList := none, timerListEnd := none, minTimestamp := clock, clock, timers := fun _ => none,
    allocs := 0, trace := [] }

/-! ## Memory -/

def record (queue : TimerQueue) (event : TimerEvent) : TimerQueue :=
  { queue with trace := event :: queue.trace }

def store (queue : TimerQueue) (timer : Nat) (value : LoopTimer) : TimerQueue :=
  { queue with timers := Function.update queue.timers timer (some value) }

/-- Assign fields of an allocated timer. -/
def modify (queue : TimerQueue) (timer : Nat) (change : LoopTimer → LoopTimer) :
    Option TimerQueue :=
  (queue.timers timer).map fun value => queue.store timer (change value)

def free (queue : TimerQueue) (timer : Nat) : Option TimerQueue :=
  (queue.timers timer).map fun _ =>
    { queue with timers := Function.update queue.timers timer none }.record (.freed timer)

/-! ## The list -/

/-- The loops that pass the timers up to a timestamp: `while (NULL != timer &&
timer->timestamp <= timestamp) timer = timer->next`; `fuel` bounds the number of rounds. -/
def skipDue (queue : TimerQueue) (timestamp : UInt64) : Nat → Option Nat → Option (Option Nat)
  | _, none => some none
  | 0, some _ => none
  | fuel + 1, some timer => do
      let value ← queue.timers timer
      if value.timestamp ≤ timestamp then skipDue queue timestamp fuel value.next
      else return some timer

/-- The branch of `insert_timer_inloop` for a timer behind all others. -/
def linkLast (queue : TimerQueue) (timer : Nat) : Option TimerQueue := do
  let last ← queue.timerListEnd
  let queue ← queue.modify last ({ · with next := some timer })
  let queue ← queue.modify timer ({ · with prev := some last })
  return { queue with timerListEnd := some timer }

/-- The branch of `insert_timer_inloop` for a timer in front of the head `iter`. -/
def linkFirst (queue : TimerQueue) (timer iter : Nat) (timestamp : UInt64) :
    Option TimerQueue := do
  let queue ← queue.modify timer ({ · with prev := none, next := some iter })
  let queue ← queue.modify iter ({ · with prev := some timer })
  return { queue with timerList := some timer, minTimestamp := timestamp }

/-- The branch of `insert_timer_inloop` for a timer between `before` and `iter`. -/
def linkBetween (queue : TimerQueue) (timer before iter : Nat) : Option TimerQueue := do
  let queue ← queue.modify before ({ · with next := some timer })
  let queue ← queue.modify timer ({ · with prev := some before, next := some iter })
  queue.modify iter ({ · with prev := some timer })

/-- `insert_timer_inloop` once the links of the timer are cleared, up to its flag. -/
def linkTimer (queue : TimerQueue) (timer : Nat) (timestamp : UInt64) : Option TimerQueue :=
  match queue.timerList with
  | none =>
      return { queue with
        timerList := some timer, timerListEnd := some timer, minTimestamp := timestamp }
  | some head => do
      match ← queue.skipDue timestamp queue.allocs (some head) with
      | none => queue.linkLast timer
      | some iter =>
          let value ← queue.timers iter
          match value.prev with
          | none => queue.linkFirst timer iter timestamp
          | some before => queue.linkBetween timer before iter

/-- `insert_timer_inloop`. -/
def insertTimerInloop (queue : TimerQueue) (timer : Nat) : Option TimerQueue := do
  let queue ← queue.modify timer ({ · with prev := none, next := none })
  let value ← queue.timers timer
  let queue ← queue.linkTimer timer value.timestamp
  let queue ← queue.modify timer ({ · with isInQueue := true })
  return queue.record (.inserted timer)

/-- `remove_timer_inloop`. -/
def removeTimerInloop (queue : TimerQueue) (timer : Nat) : Option TimerQueue := do
  let value ← queue.timers timer
  if queue.timerList = some timer then
    match value.next with
    | some head =>
        let queue ← queue.modify head ({ · with prev := none })
        let first ← queue.timers head
        return { queue with timerList := some head, minTimestamp := first.timestamp }
    | none =>
        return { queue with timerList := none, timerListEnd := none, minTimestamp := queue.clock }
  else if queue.timerListEnd = some timer then
    let last ← value.prev
    let queue ← queue.modify last ({ · with next := none })
    return { queue with timerListEnd := some last }
  else
    let before ← value.prev
    let queue ← queue.modify before ({ · with next := value.next })
    let value ← queue.timers timer
    let after ← value.next
    queue.modify after ({ · with prev := value.prev })

/-! ## Calls -/

/-- `timer_queue_add` up to `loop_run_inloop`: the timer that `malloc` and the assignments make. -/
def alloc (queue : TimerQueue) (timestamp : UInt64) (interval : UInt32) : TimerQueue :=
  { queue.store queue.allocs
      { timestamp, interval, isInCallback := false, isAlive := true, isExpired := false,
        isInQueue := false, prev := none, next := none } with
    allocs := queue.allocs + 1 }.record (.added queue.allocs timestamp interval)

/-- `do_insert_timer`. -/
def doInsertTimer (queue : TimerQueue) (timer : Nat) : Option TimerQueue := do
  let value ← queue.timers timer
  if value.isAlive then queue.insertTimerInloop timer else queue.free timer

/-- `timer_queue_add` in the loop thread. -/
def add (queue : TimerQueue) (timestamp : UInt64) (interval : UInt32) : Option TimerQueue :=
  (queue.alloc timestamp interval).doInsertTimer queue.allocs

/-- `timer_queue_cancel_inloop`. -/
def cancelInloop (queue : TimerQueue) (timer : Nat) : Option TimerQueue := do
  let queue := queue.record (.cancelled timer)
  let value ← queue.timers timer
  if value.isInCallback then queue.modify timer ({ · with isAlive := false })
  else if value.isExpired then queue.modify timer ({ · with isAlive := false })
  else if value.isInQueue then
    let queue ← queue.removeTimerInloop timer
    queue.free timer
  else queue.modify timer ({ · with isAlive := false })

/-- `do_timer_queue_refresh`. -/
def doTimerQueueRefresh (queue : TimerQueue) (timer : Nat) : Option TimerQueue := do
  let queue ← queue.removeTimerInloop timer
  let queue ← queue.modify timer fun value =>
    { value with timestamp := queue.clock + value.interval.toUInt64, prev := none, next := none }
  queue.insertTimerInloop timer

/-- `timer_queue_refresh` in the loop thread. -/
def refresh (queue : TimerQueue) (timer : Nat) : Option TimerQueue := do
  let value ← queue.timers timer
  if value.interval > 0 then queue.doTimerQueueRefresh timer else return queue

/-! ## Expiry -/

/-- The first half of `timer_queue_process_inloop`: cut the expired timers off the list; the second
component is `done_timer`. -/
def cutDue (queue : TimerQueue) : Option (TimerQueue × Option Nat) := do
  match ← queue.skipDue queue.clock queue.allocs queue.timerList with
  | none =>
      let first ← queue.timerList
      let last ← queue.timerListEnd
      let cut ← queue.modify first ({ · with prev := none })
      let cut ← cut.modify last ({ · with next := none })
      return ({ cut with timerList := none, timerListEnd := none, minTimestamp := queue.clock },
        some first)
  | some timer =>
      let value ← queue.timers timer
      match value.prev with
      | none => return (queue, none)
      | some last =>
          let cut ← queue.modify last ({ · with next := none })
          let cut ← cut.modify timer ({ · with prev := none })
          return ({ cut with timerList := some timer, minTimestamp := value.timestamp },
            queue.timerList)

/-- The loop that sets `is_expired` from `timer_iter` on. -/
def markExpired : Nat → TimerQueue → Option Nat → Option TimerQueue
  | _, queue, none => some queue
  | 0, _, some _ => none
  | fuel + 1, queue, some timer => do
      let queue ← queue.modify timer ({ · with isExpired := true })
      let value ← queue.timers timer
      markExpired fuel queue value.next

/-- What the loop over the expired timers does with a timer after its callback, or without one. -/
def retire (queue : TimerQueue) (timer : Nat) : Option TimerQueue := do
  let value ← queue.timers timer
  if value.isAlive ∧ value.interval ≠ 0 then
    let queue ← queue.modify timer fun value =>
      { value with
        timestamp := value.timestamp + value.interval.toUInt64
        isExpired := false, prev := none, next := none }
    queue.insertTimerInloop timer
  else queue.free timer

/-- The variables `timer` and `done_timer` of `timer_queue_process_inloop` while a callback runs. -/
structure Walk where
  timer : Nat
  doneTimer : Option Nat

/-- The loop over the expired timers from `done_timer` on, up to the next call of a callback. -/
def serve : Nat → TimerQueue → Option Nat → Option (TimerQueue × Option Walk)
  | _, queue, none => some (queue, none)
  | 0, _, some _ => none
  | fuel + 1, queue, some timer => do
      let value ← queue.timers timer
      let queue ← (queue.record (.turn timer)).modify timer
        ({ · with prev := none, next := none })
      if value.isAlive then
        let queue ← queue.modify timer ({ · with isInCallback := true })
        return (queue.record (.called timer), some { timer, doneTimer := value.next })
      else
        let queue ← queue.retire timer
        serve fuel queue value.next

/-- `timer_queue_process_inloop` up to the first call of a callback. -/
def processInloop (queue : TimerQueue) : Option (TimerQueue × Option Walk) := do
  if queue.timerList = none then return (queue, none)
  else
    let (queue, doneTimer) ← queue.cutDue
    let queue ← markExpired queue.allocs queue doneTimer
    serve queue.allocs queue doneTimer

/-- `timer_queue_process_inloop` from the return of a callback to the next call. -/
def afterCallback (queue : TimerQueue) (walk : Walk) : Option (TimerQueue × Option Walk) := do
  let queue ← queue.modify walk.timer ({ · with isInCallback := false })
  let queue ← queue.retire walk.timer
  serve queue.allocs queue walk.doneTimer

end TimerQueue

/-! ## The loop thread -/

/-- The queue and, while a callback runs, the local variables of its caller. -/
structure TimerLoop where
  queue : TimerQueue
  walk : Option TimerQueue.Walk

namespace TimerLoop

/-- What happens in the loop thread. -/
inductive Op
  | add (timestamp : UInt64) (interval : UInt32)
  | cancel (timer : Nat)
  | refresh (timer : Nat)
  | process
  /-- The running callback returns. -/
  | callbackReturns
  /-- Time passes. -/
  | tick (clock : UInt64)

def create (clock : UInt64) : TimerLoop := { queue := .create clock, walk := none }

/-- The timer whose callback runs. -/
def current (loop : TimerLoop) : Option Nat := loop.walk.map TimerQueue.Walk.timer

/-- One step of the loop thread; undefined behaviour has no successor. -/
def step (loop : TimerLoop) : Op → Option TimerLoop
  | .add timestamp interval => do
      return { loop with queue := ← loop.queue.add timestamp interval }
  | .cancel timer => do return { loop with queue := ← loop.queue.cancelInloop timer }
  | .refresh timer => do return { loop with queue := ← loop.queue.refresh timer }
  | .process =>
      match loop.walk with
      | none => do
          let (queue, walk) ← loop.queue.processInloop
          return { queue, walk }
      | some _ => none
  | .callbackReturns =>
      match loop.walk with
      | none => none
      | some walk => do
          let (queue, walk) ← loop.queue.afterCallback walk
          return { queue, walk }
  | .tick clock => some { loop with queue := { loop.queue with clock } }

/-- The steps that the callers may make: handles that are not released, no second
`timer_queue_process_inloop` inside a callback, a clock that does not go back. -/
def Legal (loop : TimerLoop) : Op → Prop
  | .add _ _ => True
  | .cancel timer => (loop.queue.timers timer).isSome
  | .refresh timer => (loop.queue.timers timer).isSome
  | .process => loop.walk = none
  | .callbackReturns => loop.walk ≠ none
  | .tick clock => loop.queue.clock ≤ clock

instance decidableLegal (loop : TimerLoop) : (op : Op) → Decidable (loop.Legal op)
  | .add _ _ => isTrue trivial
  | .cancel timer => inferInstanceAs (Decidable ((loop.queue.timers timer).isSome = true))
  | .refresh timer => inferInstanceAs (Decidable ((loop.queue.timers timer).isSome = true))
  | .process => inferInstanceAs (Decidable (loop.walk = none))
  | .callbackReturns => inferInstanceAs (Decidable (¬ loop.walk = none))
  | .tick clock => inferInstanceAs (Decidable (loop.queue.clock ≤ clock))

end TimerLoop
end CommonLib
