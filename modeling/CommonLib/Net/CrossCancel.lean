import CommonLib.Library.Execution
import CommonLib.Net.TimerMoves
import CommonLib.Net.TimerRefine

/-!
# Timers of other threads

A thread that is not the loop's adds and cancels timers through the task queue of
`async_task_queue.c`: the timer is known at once, but it is inserted, or cancelled, when the loop
runs the task.  Between two rounds of its tasks the loop frees the timers that expired.
-/

namespace CommonLib

open TimerQueue

/-- A task of another thread: `do_insert_timer` or `do_timer_queue_cancel`. -/
inductive TimerTask
  | insertTimer (timer : Nat)
  | timerCancel (timer : Nat)
deriving DecidableEq

/-- The timers that tasks insert. -/
def inserts (tasks : List TimerTask) : List Nat :=
  tasks.filterMap fun task =>
    match task with
    | .insertTimer timer => some timer
    | .timerCancel _ => none

/-- The timers that tasks cancel. -/
def cancels (tasks : List TimerTask) : List Nat :=
  tasks.filterMap fun task =>
    match task with
    | .insertTimer _ => none
    | .timerCancel timer => some timer

/-- The loop thread, its task queue and what the other threads did. -/
structure SharedTimers where
  loop : TimerLoop
  /-- The list from `async_task` on. -/
  asyncTask : List TimerTask
  /-- The tasks that `async_task_queue_process` took off the queue and has not run yet. -/
  task : List TimerTask
  /-- The handles on which `loop_cancel` was called. -/
  handles : List Nat

namespace SharedTimers

inductive Op
  /-- A step of the loop thread that is not a task of another thread. -/
  | inloop (op : TimerLoop.Op)
  /-- `timer_queue_add` in another thread. -/
  | add (timestamp : UInt64) (interval : UInt32)
  /-- `loop_cancel` in another thread. -/
  | cancel (timer : Nat)
  /-- `async_task_queue_process` takes the tasks. -/
  | detach
  /-- It runs the next one. -/
  | runTask

def create (clock : UInt64) : SharedTimers :=
  { loop := .create clock, asyncTask := [], task := [], handles := [] }

/-- `do_insert_timer` or `do_timer_queue_cancel`. -/
def callback (queue : TimerQueue) : TimerTask → Option TimerQueue
  | .insertTimer timer => queue.doInsertTimer timer
  | .timerCancel timer => queue.cancelInloop timer

/-- One step; undefined behaviour has no successor. -/
def step (state : SharedTimers) : Op → Option SharedTimers
  | .inloop op => do return { state with loop := ← state.loop.step op }
  | .add timestamp interval =>
      some { state with
        loop := { state.loop with queue := state.loop.queue.alloc timestamp interval }
        asyncTask := state.asyncTask ++ [.insertTimer state.loop.queue.allocs] }
  | .cancel timer =>
      some { state with
        asyncTask := state.asyncTask ++ [.timerCancel timer]
        handles := timer :: state.handles }
  | .detach => some { state with asyncTask := [], task := state.asyncTask }
  | .runTask =>
      match state.task with
      | [] => none
      | first :: rest => do
          let queue ← callback state.loop.queue first
          return { state with loop := { state.loop with queue }, task := rest }

/-- The steps that can be made: the loop thread runs tasks and processes its timers one after the
other, and a handle is cancelled once, before the timer is released. -/
def Legal (state : SharedTimers) : Op → Prop
  | .inloop .process => state.loop.Legal .process ∧ state.task = []
  | .inloop (.refresh _) => False
  | .inloop op => state.loop.Legal op
  | .add _ _ => True
  | .cancel timer => (state.loop.queue.timers timer).isSome ∧ timer ∉ state.handles
  | .detach => state.loop.walk = none ∧ state.task = []
  | .runTask => state.loop.walk = none ∧ state.task ≠ []

/-- The cancel comes before the timer's last expiry: it is called for a timer that is alive and, if
it has expired, periodic; its task runs before the timers are processed if the timer is not periodic
and due; and the loop thread does not cancel the same timer. -/
def Timely (state : SharedTimers) : Op → Prop
  | .inloop .process => ∀ timer ∈ cancels state.asyncTask, ∀ value ∈ state.loop.queue.timers timer,
      value.isInQueue = true → value.interval = 0 → state.loop.queue.clock < value.timestamp
  | .inloop (.cancel timer) => timer ∉ cancels (state.task ++ state.asyncTask)
  | .cancel timer => ∀ value ∈ state.loop.queue.timers timer,
      value.isAlive = true ∧ (value.isExpired = true → value.interval ≠ 0)
  | _ => True

instance (state : SharedTimers) : (op : Op) → Decidable (state.Legal op)
  | .inloop .process => inferInstanceAs (Decidable (_ ∧ _ = []))
  | .inloop (.refresh _) => isFalse id
  | .inloop (.add _ _) => isTrue trivial
  | .inloop (.cancel timer) => inferInstanceAs (Decidable (state.loop.Legal (.cancel timer)))
  | .inloop .callbackReturns => inferInstanceAs (Decidable (state.loop.Legal .callbackReturns))
  | .inloop (.tick clock) => inferInstanceAs (Decidable (state.loop.Legal (.tick clock)))
  | .add _ _ => isTrue trivial
  | .cancel _ => inferInstanceAs (Decidable (_ ∧ _))
  | .detach => inferInstanceAs (Decidable (_ = none ∧ _ = []))
  | .runTask => inferInstanceAs (Decidable (_ = none ∧ ¬ _ = []))

instance (state : SharedTimers) : (op : Op) → Decidable (state.Timely op)
  | .inloop .process => inferInstanceAs (Decidable (∀ timer ∈ cancels state.asyncTask,
      ∀ value ∈ state.loop.queue.timers timer, value.isInQueue = true → value.interval = 0 →
        state.loop.queue.clock < value.timestamp))
  | .inloop (.refresh _) => isTrue trivial
  | .inloop (.add _ _) => isTrue trivial
  | .inloop (.cancel timer) =>
      inferInstanceAs (Decidable (timer ∉ cancels (state.task ++ state.asyncTask)))
  | .inloop .callbackReturns => isTrue trivial
  | .inloop (.tick _) => isTrue trivial
  | .add _ _ => isTrue trivial
  | .cancel timer => inferInstanceAs (Decidable (∀ value ∈ state.loop.queue.timers timer,
      value.isAlive = true ∧ (value.isExpired = true → value.interval ≠ 0)))
  | .detach => isTrue trivial
  | .runTask => isTrue trivial

/-- No queued `do_timer_queue_cancel` names a timer that is freed. -/
def Safe (state : SharedTimers) : Prop :=
  ∀ timer ∈ cancels (state.task ++ state.asyncTask), (state.loop.queue.timers timer).isSome

end SharedTimers

/-! ## Waiting timers -/

namespace TimerLists

variable {lists : TimerLists} {timer : Nat} {value : LoopTimer}

/-- A timer that another thread adds. -/
def allocWaiting (lists : TimerLists) (timestamp : UInt64) (interval : UInt32) : TimerLists :=
  { lists.alloc timestamp interval with waiting := lists.waiting ++ [lists.allocs] }

theorem Settled.allocWaiting (settled : lists.Settled) (timestamp : UInt64) (interval : UInt32) :
    (lists.allocWaiting timestamp interval).Settled := by
  refine ⟨(settled.1.alloc timestamp interval).move ?_ (fun _ => rfl) rfl fun other value found => ?_,
    settled.2⟩
  · refine List.perm_iff_count.mpr fun other => ?_
    simp only [TimerLists.allocWaiting, TimerLists.alloc, held, record_current, record_done,
      record_waiting, record_cells, Option.toList_none, Option.toList_some, List.nil_append,
      List.count_append]
    omega
  · obtain ⟨inCallback, expired, inQueue⟩ :=
      (settled.1.alloc timestamp interval).flags other value found
    refine ⟨inCallback, expired, fun _ => ?_⟩
    by_cases same : other = lists.allocs
    · subst same
      obtain rfl : _ = value := by
        simpa [TimerLists.allocWaiting, TimerLists.alloc] using found
      simp [TimerLists.allocWaiting]
    · rw [inQueue fun loose => same (Option.some.inj loose).symm]
      simp [TimerLists.allocWaiting, TimerLists.alloc, same]

/-- The insertion of a timer is done. -/
theorem WellFormed.takeWaiting {waiting : List Nat} (wellFormed : WellFormed none lists)
    (waiting_eq : lists.waiting = timer :: waiting) :
    WellFormed (some timer) { lists with waiting } := by
  refine wellFormed.move ?_ (fun _ => rfl) rfl fun other value found => ?_
  · refine List.perm_iff_count.mpr fun other => ?_
    simp only [held, waiting_eq, Option.toList_none, Option.toList_some, List.nil_append,
      List.count_append, List.count_cons, List.count_nil]
    omega
  · obtain ⟨inCallback, expired, inQueue⟩ := wellFormed.flags other value found
    refine ⟨inCallback, expired, fun loose => ?_⟩
    rw [inQueue (by simp), waiting_eq]
    have other_ne : other ≠ timer := fun same => loose (congrArg some same.symm)
    simp [other_ne]

/-- What `do_insert_timer` does with the first of the waiting timers. -/
def doInsert (lists : TimerLists) (timer : Nat) (waiting : List Nat) : TimerLists :=
  match lists.timers timer with
  | none => lists
  | some value =>
      if value.isAlive then { lists with waiting }.insert timer else { lists with waiting }.free timer

theorem Settled.doInsert {waiting : List Nat} (settled : lists.Settled)
    (waiting_eq : lists.waiting = timer :: waiting) : (lists.doInsert timer waiting).Settled := by
  have taken := settled.1.takeWaiting waiting_eq
  obtain ⟨value, found⟩ := taken.found (by simp : timer ∈ _)
  have found : lists.timers timer = some value := found
  rw [TimerLists.doInsert, found]
  dsimp only
  split
  · exact ⟨taken.insert, settled.2⟩
  · exact ⟨taken.free, settled.2⟩

/-! ## Timers that are cancelled in time -/

/-- The timer will not be freed by the loop: it is alive and, once expired, periodic. -/
def Spared (timer : Nat) (lists : TimerLists) : Prop :=
  ∃ value, lists.timers timer = some value ∧ value.isAlive = true ∧
    (timer ∈ lists.current.toList ++ lists.done → value.interval ≠ 0)

variable {lists' : TimerLists} {other : Nat}

theorem Spared.frame (spared : Spared other lists) (timers : lists'.timers other = lists.timers other)
    (places : other ∈ lists'.current.toList ++ lists'.done →
      other ∈ lists.current.toList ++ lists.done) : Spared other lists' := by
  obtain ⟨value, found, alive, periodic⟩ := spared
  exact ⟨value, timers.trans found, alive, fun member => periodic (places member)⟩

theorem Spared.lt_allocs (spared : Spared other lists) (wellFormed : WellFormed none lists) :
    other < lists.allocs := by
  obtain ⟨value, found, -⟩ := spared
  exact wellFormed.lt_allocs found

theorem Spared.serve {done : List Nat} (spared : Spared other lists)
    (wellFormed : WellFormed none lists) (idle : lists.current = none) (done_eq : lists.done = done) :
    Spared other (serve done lists) := by
  induction done generalizing lists with
  | nil =>
      have same : TimerLists.serve [] lists = lists := by
        rw [TimerLists.serve, ← done_eq]
      rwa [same]
  | cons timer done induction =>
      obtain ⟨value, found⟩ := wellFormed.found (by simp [held, done_eq] : timer ∈ _)
      have taken := (wellFormed.takeDone done_eq).record (.turn timer)
      cases alive : value.isAlive with
      | false =>
          rw [serve_dead found alive]
          have other_ne : other ≠ timer := by
            rintro rfl
            obtain ⟨value', found', alive', -⟩ := spared
            obtain rfl := Option.some.inj (found.symm.trans found')
            simp [alive] at alive'
          refine induction (spared.frame (Function.update_of_ne other_ne ..) fun member => ?_)
            taken.free idle rfl
          have member : other ∈ lists.current.toList ++ done := member
          rw [idle] at member ⊢
          simp only [Option.toList_none, List.nil_append] at member ⊢
          simp [done_eq, member]
      | true =>
          rw [serve_alive found alive]
          by_cases same : other = timer
          · subst same
            obtain ⟨value', found', -, periodic⟩ := spared
            obtain rfl := Option.some.inj (found.symm.trans found')
            exact ⟨{ value with isInCallback := true }, by simp [found], alive, fun _ =>
              periodic (by simp [done_eq])⟩
          · refine spared.frame (Function.update_of_ne same ..) fun member => ?_
            have member : other ∈ (some timer).toList ++ done := member
            simp only [Option.toList_some, List.singleton_append] at member
            simp [done_eq, member]

theorem Spared.callbackReturns (spared : Spared other lists) (settled : lists.Settled) :
    Spared other lists.callbackReturns := by
  cases running : lists.current with
  | none => rwa [TimerLists.callbackReturns, running]
  | some timer =>
      have apart := settled.1.not_done_of_current running
      have retired := (settled.1.takeCurrent running).retire ⟨apart, by simp [modify]⟩
      obtain ⟨value, found⟩ := settled.1.found (by simp [held, running] : timer ∈ _)
      obtain ⟨current_eq, done_eq, -⟩ := retire_places
        ({ lists with current := none }.modify timer ({ · with isInCallback := false })) timer
      rw [TimerLists.callbackReturns, running]
      refine Spared.serve ?_ retired current_eq done_eq
      rw [callback_returns_eq found]
      by_cases same : other = timer
      · subst same
        obtain ⟨value', found', alive, periodic⟩ := spared
        obtain rfl := Option.some.inj (found.symm.trans found')
        have periodic := periodic (by simp [running])
        rw [if_pos ⟨alive, periodic⟩]
        let value' : LoopTimer := { value with
          timestamp := value.timestamp + value.interval.toUInt64
          isInCallback := false
          isExpired := false
          isInQueue := true }
        exact ⟨value', by simp [found, value'], alive, fun _ => periodic⟩
      · split
        · refine spared.frame (by simp [same]) fun member => ?_
          simp only [insert_current, modify_current, insert_done, modify_done, Option.toList_none,
            List.nil_append] at member
          exact List.mem_append_right _ member
        · refine spared.frame (by simp [same]) fun member => ?_
          simp only [free_current, free_done, Option.toList_none, List.nil_append] at member
          exact List.mem_append_right _ member

theorem Spared.process (spared : Spared other lists) (settled : lists.Settled)
    (idle : lists.current = none) (periodic : ∀ value, lists.timers other = some value →
      other ∈ lists.cells → value.timestamp ≤ lists.clock → value.interval ≠ 0) :
    Spared other lists.process := by
  refine Spared.serve ?_ (settled.1.cutDue idle (settled.2 idle)) idle rfl
  obtain ⟨value, found, alive, -⟩ := spared
  by_cases due : other ∈ early lists.stamp lists.clock lists.cells
  · refine ⟨{ value with isExpired := true }, ?_, alive, fun _ => ?_⟩
    · simp only [TimerLists.cutDue, if_pos due, found, Option.map_some]
    · refine periodic value found (List.takeWhile_subset _ due) ?_
      simpa [stamp, found] using early_le due
  · refine ⟨value, by simp only [TimerLists.cutDue, if_neg due, found], alive, fun member => ?_⟩
    have member : other ∈ lists.current.toList ++ early lists.stamp lists.clock lists.cells := member
    rw [idle] at member
    exact absurd (by simpa using member) due

theorem Spared.cancel (spared : Spared other lists) (other_ne : other ≠ timer) :
    Spared other (lists.cancel timer) := by
  unfold TimerLists.cancel
  split
  · exact spared
  split
  · exact spared.frame (Function.update_of_ne other_ne ..) fun member => member
  · exact spared.frame (Function.update_of_ne other_ne ..) fun member => member

theorem Spared.add (spared : Spared other lists) (wellFormed : WellFormed none lists)
    (timestamp : UInt64) (interval : UInt32) : Spared other (lists.add timestamp interval) := by
  have other_ne : other ≠ lists.allocs := Nat.ne_of_lt (spared.lt_allocs wellFormed)
  exact spared.frame (by simp [TimerLists.add, TimerLists.alloc, other_ne]) fun member => member

theorem Spared.allocWaiting (spared : Spared other lists) (wellFormed : WellFormed none lists)
    (timestamp : UInt64) (interval : UInt32) :
    Spared other (lists.allocWaiting timestamp interval) := by
  have other_ne : other ≠ lists.allocs := Nat.ne_of_lt (spared.lt_allocs wellFormed)
  exact spared.frame (Function.update_of_ne other_ne ..) fun member => member

theorem Spared.doInsert {waiting : List Nat} (spared : Spared other lists)
    (idle : lists.current = none) (settled : lists.Settled) :
    Spared other (lists.doInsert timer waiting) := by
  have resting : other ∉ lists.current.toList ++ lists.done := by
    simp [idle, settled.2 idle]
  unfold TimerLists.doInsert
  split
  · exact spared
  next value found =>
    obtain ⟨value', found', alive, -⟩ := spared
    split
    · by_cases same : other = timer
      · subst same
        exact ⟨{ value with isInQueue := true }, by simp [found], by assumption,
          fun member => absurd member resting⟩
      · exact ⟨value', by simp [same, found'], alive, fun member => absurd member resting⟩
    next dead =>
      have other_ne : other ≠ timer := by
        rintro rfl
        exact dead (Option.some.inj (found.symm.trans found') ▸ alive)
      exact ⟨value', by simp [other_ne, found'], alive, fun member => absurd member resting⟩

open TimerLoop in
/-- The loop thread does not free a timer that is cancelled in time. -/
theorem Spared.step (spared : Spared other lists) (settled : lists.Settled) {op : TimerLoop.Op}
    (noRefresh : ∀ timer, op ≠ .refresh timer) (cancel : op ≠ .cancel other)
    (process : op = .process → lists.current = none ∧ ∀ value, lists.timers other = some value →
      other ∈ lists.cells → value.timestamp ≤ lists.clock → value.interval ≠ 0) :
    Spared other (lists.step op) := by
  cases op with
  | add timestamp interval => exact spared.add settled.1 timestamp interval
  | cancel timer => exact spared.cancel fun same => cancel (same ▸ rfl)
  | refresh timer => exact absurd rfl (noRefresh timer)
  | process => exact spared.process settled (process rfl).1 (process rfl).2
  | callbackReturns => exact spared.callbackReturns settled
  | tick clock => exact spared.frame rfl fun member => member

end TimerLists

/-! ## The steps of the threads -/

section Refinement

variable {loop : TimerLoop} {lists : TimerLists} {timer : Nat}

theorem Agrees.waiting {before : Option Nat} {queue : TimerQueue} (agrees : Agrees before queue lists)
    (waiting : List Nat) : Agrees before queue { lists with waiting } :=
  ⟨agrees.bares, agrees.allocs, agrees.clock, agrees.trace, agrees.holds, agrees.row⟩

theorem Refines.alloc (refines : Refines loop lists) (settled : lists.Settled) (timestamp : UInt64)
    (interval : UInt32) :
    Refines { loop with queue := loop.queue.alloc timestamp interval }
      (lists.allocWaiting timestamp interval) := by
  refine ⟨(refines.agrees.alloc settled.1 timestamp interval).waiting _, refines.current,
    refines.doneTimer, fun other running => ?_⟩
  have running : loop.current = some other := running
  have below := (settled.1.takeCurrent (refines.current ▸ running)).outside.2.2
  have other_ne : other ≠ loop.queue.allocs := by
    rw [refines.agrees.allocs]
    exact Nat.ne_of_lt below
  have kept : (loop.queue.alloc timestamp interval).timers other = loop.queue.timers other :=
    Function.update_of_ne other_ne ..
  obtain ⟨next_eq, prev_eq⟩ := refines.unlinked other running
  exact ⟨by rw [nexts, kept]; exact next_eq, by rw [prevs, kept]; exact prev_eq⟩

theorem Refines.doInsert {waiting : List Nat} (refines : Refines loop lists)
    (settled : lists.Settled) (idle : loop.walk = none)
    (waiting_eq : lists.waiting = timer :: waiting) :
    ∃ queue', loop.queue.doInsertTimer timer = some queue' ∧
      Refines { loop with queue := queue' } (lists.doInsert timer waiting) := by
  have taken := settled.1.takeWaiting waiting_eq
  obtain ⟨queued, expired, fresh⟩ := taken.outside
  obtain ⟨bare, foundBare⟩ := taken.found (by simp : timer ∈ _)
  have agrees := refines.agrees.waiting waiting
  obtain ⟨value, found, rfl⟩ := agrees.found foundBare
  have foundBare : lists.timers timer = some value.bare := foundBare
  have unlinked {queue : TimerQueue} (other : Nat)
      (running : TimerLoop.current { loop with queue } = some other) :
      queue.nexts other = none ∧ queue.prevs other = none := by
    rw [TimerLoop.current, idle] at running
    cases running
  cases alive : value.isAlive with
  | true =>
      obtain ⟨queue', inserted, agrees', -⟩ := agrees.doInsertTimer taken found alive
      refine ⟨queue', inserted, ?_⟩
      rw [TimerLists.doInsert, foundBare]
      dsimp only
      rw [if_pos (show value.bare.isAlive = true from alive)]
      exact ⟨agrees', refines.current, refines.doneTimer, unlinked⟩
  | false =>
      obtain ⟨queue', freed, agrees', -⟩ := agrees.free found queued expired
      refine ⟨queue', ?_, ?_⟩
      · simp only [doInsertTimer, found, Option.bind_eq_bind, Option.bind_some, alive,
          Bool.false_eq_true, if_false]
        exact freed
      · rw [TimerLists.doInsert, foundBare]
        dsimp only
        rw [if_neg (show ¬ value.bare.isAlive = true by simp [LoopTimer.bare, alive])]
        exact ⟨agrees', refines.current, refines.doneTimer, unlinked⟩

end Refinement

namespace SharedTimers

open Execution TimerLists

/-- The lists that a state stands for while every cancel comes in time. -/
structure Shares (state : SharedTimers) (lists : TimerLists) : Prop where
  refines : Refines state.loop lists
  settled : lists.Settled
  waiting : lists.waiting = inserts (state.task ++ state.asyncTask)
  spared : ∀ timer ∈ cancels (state.task ++ state.asyncTask), Spared timer lists
  nodup : (cancels (state.task ++ state.asyncTask)).Nodup
  handles : ∀ timer ∈ cancels (state.task ++ state.asyncTask), timer ∈ state.handles

variable {state : SharedTimers} {lists : TimerLists} {timer : Nat}

theorem Shares.create (clock : UInt64) : Shares (create clock) (.create clock) :=
  ⟨.create clock, .create clock, rfl, by simp [SharedTimers.create, cancels],
    by simp [SharedTimers.create, cancels], by simp [SharedTimers.create, cancels]⟩

theorem Shares.safe (shares : Shares state lists) : state.Safe := by
  intro timer member
  obtain ⟨value, found, -⟩ := shares.spared timer member
  rw [shares.refines.agrees.isSome, found]
  rfl

/-- A step of the loop thread. -/
theorem Shares.inloop (shares : Shares state lists) {op : TimerLoop.Op}
    (legal : state.loop.Legal op) (noRefresh : ∀ timer, op ≠ .refresh timer)
    (cancel : ∀ timer, op = .cancel timer → timer ∉ cancels (state.task ++ state.asyncTask))
    (process : op = .process → ∀ timer ∈ cancels (state.task ++ state.asyncTask),
      ∀ value ∈ state.loop.queue.timers timer, value.isInQueue = true → value.interval = 0 →
        state.loop.queue.clock < value.timestamp) :
    ∃ state' lists', state.step (.inloop op) = some state' ∧ Shares state' lists' := by
  obtain ⟨loop', step_eq, refines⟩ := shares.refines.step shares.settled legal noRefresh
  have idle : op = .process → lists.current = none := by
    rintro rfl
    have idle : state.loop.walk = none := legal
    rw [← shares.refines.current, TimerLoop.current, idle]
    rfl
  refine ⟨{ state with loop := loop' }, lists.step op, ?_, refines,
    shares.settled.step idle noRefresh,
    (shares.settled.step_waiting idle noRefresh).trans shares.waiting, ?_, shares.nodup,
    shares.handles⟩
  · simp [SharedTimers.step, step_eq]
  · intro timer member
    refine (shares.spared timer member).step shares.settled noRefresh
      (fun same => cancel timer same member) fun processes => ⟨idle processes, ?_⟩
    intro bare foundBare queued due last
    obtain ⟨value, found, rfl⟩ := shares.refines.agrees.found foundBare
    have inQueue : value.isInQueue = true := by
      have flags := (shares.settled.1.flags timer _ foundBare).inQueue
      cases marked : value.isInQueue with
      | true => rfl
      | false => exact absurd ((flags (by simp)).mp marked) (shares.settled.1.not_waiting queued)
    have later := process processes timer member value found inQueue last
    rw [shares.refines.agrees.clock] at later
    exact UInt64.lt_irrefl _ (UInt64.lt_of_lt_of_le later due)

/-- Another thread adds a timer. -/
theorem Shares.add (shares : Shares state lists) (timestamp : UInt64) (interval : UInt32) :
    ∃ state', state.step (.add timestamp interval) = some state' ∧
      Shares state' (lists.allocWaiting timestamp interval) := by
  have cancels_eq : cancels (state.task ++
      (state.asyncTask ++ [.insertTimer state.loop.queue.allocs])) =
        cancels (state.task ++ state.asyncTask) := by
    simp [cancels]
  refine ⟨_, rfl, shares.refines.alloc shares.settled timestamp interval,
    shares.settled.allocWaiting timestamp interval, ?_, ?_, ?_, ?_⟩
  · change lists.waiting ++ [lists.allocs] = _
    rw [shares.waiting, ← shares.refines.agrees.allocs]
    simp [inserts]
  · rw [cancels_eq]
    exact fun timer member =>
      (shares.spared timer member).allocWaiting shares.settled.1 timestamp interval
  · rw [cancels_eq]
    exact shares.nodup
  · rw [cancels_eq]
    exact shares.handles

/-- Another thread cancels a timer. -/
theorem Shares.cancel (shares : Shares state lists) (legal : state.Legal (.cancel timer))
    (timely : state.Timely (.cancel timer)) :
    ∃ state', state.step (.cancel timer) = some state' ∧ Shares state' lists := by
  obtain ⟨allocated, once⟩ := legal
  obtain ⟨value, found⟩ := Option.isSome_iff_exists.mp allocated
  obtain ⟨alive, periodic⟩ := timely value found
  have foundBare := shares.refines.agrees.timers_eq found
  have cancels_eq : cancels (state.task ++ (state.asyncTask ++ [.timerCancel timer])) =
      cancels (state.task ++ state.asyncTask) ++ [timer] := by
    simp [cancels]
  refine ⟨_, rfl, shares.refines, shares.settled, ?_, ?_, ?_, ?_⟩
  · rw [shares.waiting]
    simp [inserts]
  · rw [cancels_eq]
    intro other member
    rcases List.mem_append.mp member with before | same
    · exact shares.spared other before
    · obtain rfl := List.mem_singleton.mp same
      refine ⟨value.bare, foundBare, alive, fun expired => periodic ?_⟩
      exact (shares.settled.1.flags other _ foundBare).expired expired
  · rw [cancels_eq]
    refine shares.nodup.append (List.nodup_singleton timer) ?_
    simpa using fun member => once (shares.handles timer member)
  · rw [cancels_eq]
    intro other member
    rcases List.mem_append.mp member with before | same
    · exact List.mem_cons_of_mem _ (shares.handles other before)
    · exact List.mem_cons.mpr (.inl (List.mem_singleton.mp same))

theorem Shares.detach (shares : Shares state lists) (legal : state.Legal .detach) :
    ∃ state', state.step .detach = some state' ∧ Shares state' lists := by
  have same : state.task ++ state.asyncTask = state.asyncTask ++ [] := by
    rw [legal.2, List.nil_append, List.append_nil]
  obtain ⟨refines, settled, waiting, spared, nodup, handles⟩ := shares
  rw [same] at waiting spared nodup handles
  exact ⟨_, rfl, refines, settled, waiting, spared, nodup, handles⟩

/-- The loop thread runs a task. -/
theorem Shares.runTask (shares : Shares state lists) (legal : state.Legal .runTask) :
    ∃ state' lists', state.step .runTask = some state' ∧ Shares state' lists' := by
  obtain ⟨idle, nonempty⟩ := legal
  obtain ⟨refines, settled, waiting, spared, nodup, handles⟩ := shares
  cases tasks : state.task with
  | nil => exact absurd tasks nonempty
  | cons first rest =>
      rw [tasks] at waiting spared nodup handles
      cases first with
      | insertTimer timer =>
          have waiting_eq : lists.waiting = timer :: inserts (rest ++ state.asyncTask) := waiting
          have idle_lists : lists.current = none := by
            rw [← refines.current, TimerLoop.current, idle]
            rfl
          obtain ⟨queue', inserted, refines'⟩ := refines.doInsert settled idle waiting_eq
          refine ⟨{ state with loop := { state.loop with queue := queue' }, task := rest }, _, ?_,
            refines', settled.doInsert waiting_eq, ?_, fun other member => ?_, nodup, handles⟩
          · simp [SharedTimers.step, tasks, callback, inserted]
          · have allocated := (settled.1.takeWaiting waiting_eq).found (by simp : timer ∈ _)
            obtain ⟨value, found⟩ := allocated
            have found : lists.timers timer = some value := found
            rw [TimerLists.doInsert, found]
            dsimp only
            split <;> rfl
          · exact (spared other member).doInsert idle_lists settled
      | timerCancel timer =>
          obtain ⟨value, found, -⟩ := spared timer (List.mem_cons_self ..)
          have legal : state.loop.Legal (.cancel timer) := by
            change (state.loop.queue.timers timer).isSome
            rw [refines.agrees.isSome, found]
            rfl
          obtain ⟨loop', step_eq, refines'⟩ := refines.step settled legal (by simp)
          obtain ⟨queue', cancelled, loop_eq⟩ := Option.bind_eq_some_iff.mp step_eq
          obtain rfl : { state.loop with queue := queue' } = loop' := Option.some.inj loop_eq
          obtain ⟨absent, nodup⟩ : timer ∉ cancels (rest ++ state.asyncTask) ∧
              (cancels (rest ++ state.asyncTask)).Nodup := List.nodup_cons.mp nodup
          have waiting_eq : (lists.step (.cancel timer)).waiting = lists.waiting :=
            settled.step_waiting (by simp) (by simp)
          refine ⟨{ state with loop := { state.loop with queue := queue' }, task := rest },
            lists.cancel timer, ?_, refines', settled.cancel timer, waiting_eq.trans waiting,
            fun other member => ?_, nodup, fun other member => handles other ?_⟩
          · simp [SharedTimers.step, tasks, callback, cancelled]
          · exact (spared other (List.mem_cons_of_mem _ member)).cancel
              (ne_of_mem_of_not_mem member absent)
          · exact List.mem_cons_of_mem _ member

theorem Shares.step (shares : Shares state lists) {op : Op} (legal : state.Legal op)
    (timely : state.Timely op) :
    ∃ state' lists', state.step op = some state' ∧ Shares state' lists' := by
  cases op with
  | inloop op =>
      cases op with
      | process =>
          obtain ⟨idle, ran⟩ := legal
          refine shares.inloop idle (by simp) (by simp) fun _ => ?_
          rw [ran]
          exact timely
      | cancel timer =>
          refine shares.inloop legal (by simp) (fun other same => ?_) (by simp)
          obtain rfl : timer = other := by simpa using same
          exact timely
      | refresh timer => exact absurd legal id
      | add timestamp interval => exact shares.inloop legal (by simp) (by simp) (by simp)
      | callbackReturns => exact shares.inloop legal (by simp) (by simp) (by simp)
      | tick clock => exact shares.inloop legal (by simp) (by simp) (by simp)
  | add timestamp interval =>
      obtain ⟨state', step_eq, shares'⟩ := shares.add timestamp interval
      exact ⟨state', _, step_eq, shares'⟩
  | cancel timer =>
      obtain ⟨state', step_eq, shares'⟩ := shares.cancel legal timely
      exact ⟨state', _, step_eq, shares'⟩
  | detach =>
      obtain ⟨state', step_eq, shares'⟩ := shares.detach legal
      exact ⟨state', _, step_eq, shares'⟩
  | runTask => exact shares.runTask legal

/-- While every cancel comes before the last expiry of its timer, no step is undefined, and no
queued `do_timer_queue_cancel` names a timer that is freed. -/
theorem cancel_safe_of_timely (clock : UInt64) (ops : List Op)
    (legal : Admissible SharedTimers.step (fun state op => state.Legal op ∧ state.Timely op)
      (create clock) ops) :
    ∃ state, Execution.run SharedTimers.step (create clock) ops = some state ∧ state.Safe := by
  have total {state : SharedTimers} {op : Op} (shares : ∃ lists, Shares state lists)
      (allowed : state.Legal op ∧ state.Timely op) :
      ∃ next, state.step op = some next ∧ ∃ lists, Shares next lists := by
    obtain ⟨lists, shares⟩ := shares
    obtain ⟨next, lists', step_eq, shares'⟩ := shares.step allowed.1 allowed.2
    exact ⟨next, step_eq, lists', shares'⟩
  obtain ⟨state, execution, lists, shares⟩ :=
    exists_run_of_admissible _ total ⟨_, Shares.create clock⟩ legal
  exact ⟨state, execution, shares.safe⟩

/-- A one-shot timer of another thread is cancelled before it is due, a periodic one in its
callback. -/
theorem cancel_safe_of_timely_periodic :
    ∃ state, Execution.run SharedTimers.step (create 0)
      [.add 5 0, .inloop (.add 3 4), .detach, .runTask, .inloop (.tick 4), .cancel 0,
        .inloop .process, .cancel 1, .inloop .callbackReturns, .detach, .runTask, .runTask] =
          some state ∧ state.Safe :=
  cancel_safe_of_timely 0
    [.add 5 0, .inloop (.add 3 4), .detach, .runTask, .inloop (.tick 4), .cancel 0,
      .inloop .process, .cancel 1, .inloop .callbackReturns, .detach, .runTask, .runTask]
    (by decide)

/-- A one-shot timer fires while its cancel is queued: the task reads the freed timer. -/
theorem cancel_after_expiry_unsafe :
    ¬ ∀ (clock : UInt64) (ops : List Op) (state : SharedTimers),
      Admissible SharedTimers.step SharedTimers.Legal (create clock) ops →
      Execution.run SharedTimers.step (create clock) ops = some state →
        ∀ timer rest, state.task = .timerCancel timer :: rest →
          (state.loop.queue.timers timer).isSome := by
  intro every
  let ops : List Op := [.inloop (.add 5 0), .cancel 0, .inloop (.tick 5), .inloop .process,
    .inloop .callbackReturns, .detach]
  have facts : (Execution.run SharedTimers.step (create 0) ops).any (fun state =>
      state.task = [.timerCancel 0] ∧ (state.loop.queue.timers 0).isNone) = true := by decide
  obtain ⟨state, execution, here⟩ := (Option.any_eq_true _ _).mp facts
  obtain ⟨queued, freed⟩ := of_decide_eq_true here
  have allocated := every 0 ops state (by decide) execution 0 [] queued
  rw [Option.isNone_iff_eq_none.mp freed] at allocated
  cases allocated

end SharedTimers
end CommonLib
