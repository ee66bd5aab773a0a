import CommonLib.Library.Execution
import CommonLib.Net.TimerHistory
import CommonLib.Net.TimerRefine

/-!
# Runs of the timer queue

Every operation that the callers may make keeps the queue in order and the stories of the timers
consistent, and the callbacks that one `timer_queue_process_inloop` calls are those of the timers
that were due, in their order, except the ones cancelled before their turn.
-/

namespace CommonLib

/-- The timers whose callbacks were called, the first one first. -/
def calls (events : List TimerEvent) : List Nat :=
  events.reverse.filterMap fun event =>
    match event with
    | .called timer => some timer
    | _ => none

/-- When its turn came, the timer was cancelled; the newest event stands first. -/
def missed (events : List TimerEvent) (timer : Nat) : Bool :=
  .cancelled timer ∈ events.dropWhile fun event => event ≠ .turn timer

theorem missed_cons {event : TimerEvent} {timer : Nat} (other : event ≠ .turn timer)
    (events : List TimerEvent) : missed (event :: events) timer = missed events timer := by
  simp [missed, other]

theorem missed_turn (events : List TimerEvent) (timer : Nat) :
    missed (.turn timer :: events) timer = decide (.cancelled timer ∈ events) := by
  simp [missed]

theorem calls_called (events : List TimerEvent) (timer : Nat) :
    calls (.called timer :: events) = calls events ++ [timer] := by
  simp [calls]

theorem calls_other {event : TimerEvent} (other : ∀ timer, event ≠ .called timer)
    (events : List TimerEvent) : calls (event :: events) = calls events := by
  cases event with
  | called timer => exact absurd rfl (other timer)
  | _ => simp [calls]

theorem count_calls (events : List TimerEvent) (timer : Nat) :
    (calls events).count timer = events.count (.called timer) := by
  induction events with
  | nil => simp [calls]
  | cons event events induction =>
      cases event with
      | called other => simp [calls_called, induction, List.count_cons]
      | _ => simp [calls_other, induction]

namespace TimerLists

/-- The loop over the expired timers: those of `due` up to `took` had their turn in the `events`
since the queue was processed. -/
structure Serving (past events : List TimerEvent) (due took : List Nat) (lists : TimerLists) :
    Prop where
  trace : lists.trace = events ++ past
  due_eq : due = took ++ lists.done
  calls_eq : calls events = took.filter fun timer => !missed events timer
  turned : ∀ timer ∈ took, .turn timer ∈ events
  waits : ∀ timer ∈ lists.done, .turn timer ∉ events

variable {lists lists' : TimerLists} {timer : Nat} {value : LoopTimer} {past events : List TimerEvent}
  {due took : List Nat}

/-- An event that is not part of the loop. -/
theorem Serving.other (serving : Serving past events due took lists) (event : TimerEvent)
    (turn : ∀ timer, event ≠ .turn timer) (called : ∀ timer, event ≠ .called timer)
    (done : lists'.done = lists.done) (trace : lists'.trace = event :: lists.trace) :
    Serving past (event :: events) due took lists' := by
  refine ⟨by rw [trace, serving.trace, List.cons_append], done ▸ serving.due_eq, ?_, ?_, ?_⟩
  · rw [calls_other called, serving.calls_eq]
    exact List.filter_congr fun timer _ => by rw [missed_cons (turn timer)]
  · exact fun timer member => List.mem_cons_of_mem _ (serving.turned timer member)
  · rw [done]
    exact fun timer member => List.not_mem_cons_of_ne_of_not_mem (turn timer).symm
      (serving.waits timer member)

/-- The turn of a timer. -/
theorem Serving.turn {done : List Nat} (serving : Serving past events due took lists)
    (nodup : due.Nodup) (done_eq : lists.done = timer :: done) {event : TimerEvent}
    (turn : ∀ timer, event ≠ .turn timer)
    (calls_eq : calls (event :: .turn timer :: events) =
      calls events ++ [timer].filter fun timer => !decide (.cancelled timer ∈ events))
    (done' : lists'.done = done)
    (trace : lists'.trace = event :: .turn timer :: lists.trace) :
    Serving past (event :: .turn timer :: events) due (took ++ [timer]) lists' := by
  have due_eq := serving.due_eq
  rw [done_eq] at due_eq
  have apart : ∀ other ∈ took ++ done, timer ≠ other := by
    rw [due_eq] at nodup
    have nodup := (List.perm_middle.nodup_iff.mp nodup)
    exact fun other member same => (List.nodup_cons.mp nodup).1 (same ▸ member)
  have missed_eq : ∀ other ∈ took,
      missed (event :: .turn timer :: events) other = missed events other := by
    intro other member
    rw [missed_cons (turn other), missed_cons]
    simpa using apart other (List.mem_append_left _ member)
  refine ⟨by rw [trace, serving.trace]; rfl, by simp [due_eq, done'], ?_, ?_, ?_⟩
  · have before := List.filter_congr (p := fun other => !missed events other)
      fun other member => congrArg not (missed_eq other member).symm
    have now : missed (event :: .turn timer :: events) timer =
        decide (.cancelled timer ∈ events) := by
      rw [missed_cons (turn timer), missed_turn]
    rw [calls_eq, serving.calls_eq, List.filter_append, before]
    simp [List.filter_singleton, now]
  · intro other member
    rcases List.mem_append.mp member with member | member
    · simp [serving.turned other member]
    · obtain rfl := List.mem_singleton.mp member
      simp
  · rw [done']
    intro other member
    have waits := serving.waits other (by simp [done_eq, member])
    have other_ne := apart other (List.mem_append_right _ member)
    simp [waits, (turn other).symm, other_ne.symm]

/-- A move that is not part of the loop leaves it where it is. -/
theorem Serving.move (serving : Serving past events due took lists) (nodup : due.Nodup)
    (fresh : ∀ timer ∈ due, .cancelled timer ∉ past) (tales : ∀ timer, Tale lists timer)
    (move : Move lists lists') : ∃ events' took', Serving past events' due took' lists' := by
  cases move with
  | add timestamp interval =>
      have added : Serving past (.added lists.allocs timestamp interval :: events) due took
          (lists.alloc timestamp interval) := serving.other _ (by simp) (by simp) rfl rfl
      exact ⟨_, took, added.other (.inserted lists.allocs) (by simp) (by simp) rfl rfl⟩
  | mark found held => exact ⟨_, took, serving.other _ (by simp) (by simp) rfl rfl⟩
  | @unqueue timer value found member =>
      have cancelled : Serving past (.cancelled timer :: events) due took
          ({ lists with cells := lists.cells.erase timer }.record (.cancelled timer)) :=
        serving.other _ (by simp) (by simp) rfl rfl
      exact ⟨_, took, cancelled.other (.freed timer) (by simp) (by simp) rfl rfl⟩
  | @reinsert timer value running found periodic =>
      exact ⟨_, took, serving.other (.inserted timer) (by simp) (by simp) rfl rfl⟩
  | @release timer value running found last =>
      exact ⟨_, took, serving.other (.freed timer) (by simp) (by simp) rfl rfl⟩
  | @skip timer value done idle done_eq found dead =>
      have cancelled : .cancelled timer ∈ events := by
        have told := ((tales timer).living value found).marked.mp dead
        have known : .cancelled timer ∈ events ++ past := serving.trace ▸ mem_story.mp told
        have member : timer ∈ due := by simp [serving.due_eq, done_eq]
        exact (List.mem_append.mp known).resolve_right (fresh timer member)
      refine ⟨.freed timer :: .turn timer :: events, took ++ [timer],
        serving.turn nodup done_eq (by simp) ?_ rfl rfl⟩
      rw [calls_other (by simp), calls_other (by simp)]
      simp [cancelled]
  | @call timer value done idle done_eq found alive =>
      have waits : .cancelled timer ∉ events := by
        intro member
        have told : .cancelled timer ∈ story lists.trace timer :=
          mem_story.mpr (serving.trace ▸ List.mem_append_left past member)
        have dead := ((tales timer).living value found).marked.mpr told
        simp [alive] at dead
      refine ⟨.called timer :: .turn timer :: events, took ++ [timer],
        serving.turn nodup done_eq (by simp) ?_ rfl rfl⟩
      rw [calls_called, calls_other (by simp)]
      simp [waits]
  | tick clock =>
      exact ⟨events, took, serving.trace, serving.due_eq, serving.calls_eq, serving.turned,
        serving.waits⟩

/-! ## The cut of the due timers -/

theorem Tale.cutDue (tale : Tale lists timer) : Tale lists.cutDue timer := by
  obtain ⟨silent, living, ended, unborn⟩ := tale
  have isNone : lists.cutDue.timers timer = none ↔ lists.timers timer = none := by
    simp only [TimerLists.cutDue]
    split <;> simp
  refine ⟨silent, fun value found => ?_, fun gone below => ended (isNone.mp gone) below, unborn⟩
  by_cases expired : timer ∈ early lists.stamp lists.clock lists.cells
  · simp only [TimerLists.cutDue, if_pos expired, Option.map_eq_some_iff] at found
    obtain ⟨old, foundOld, rfl⟩ := found
    obtain ⟨marked, held, called, oneShot, born, interval, resting, running⟩ := living old foundOld
    exact ⟨marked, held, called, oneShot, born, interval, resting, running⟩
  · simp only [TimerLists.cutDue, if_neg expired] at found
    exact living value found

theorem Queued.cutDue (queued : Queued lists) (wellFormed : WellFormed none lists) :
    Queued lists.cutDue := by
  have parts := early_append_late lists.stamp lists.clock lists.cells
  have nodup : lists.cells.Nodup := wellFormed.nodup.sublist (List.sublist_append_right _ _)
  rw [← parts, List.nodup_append] at nodup
  refine queued.sublist (List.dropWhile_sublist _) (fun timer member => ?_) fun _ _ before => before
  exact if_neg fun expired => nodup.2.2 timer expired timer member rfl

/-- The due timers are those whose timestamps have come. -/
theorem Serving.start (queued : Queued lists) :
    Serving lists.trace [] (lists.cells.filter fun timer => lists.stamp timer ≤ lists.clock) []
      lists.cutDue := by
  refine ⟨rfl, ?_, rfl, by simp, by simp⟩
  rw [← early_eq_filter (queued.sorted.imp And.left)]
  rfl

/-! ## Steps -/

open Relation TimerLoop

/-- What the moves keep beside the places of the timers. -/
structure Told (lists : TimerLists) : Prop where
  queued : Queued lists
  tales : ∀ timer, Tale lists timer
  waiting : lists.waiting = []

theorem Told.create (clock : UInt64) : Told (create clock) :=
  ⟨⟨.nil, by simp [TimerLists.create]⟩, fun timer =>
    ⟨.nil, fun value found => absurd found (by simp [TimerLists.create]),
      fun _ below => absurd below (Nat.not_lt_zero timer), fun _ => rfl⟩, rfl⟩

theorem Told.move (told : Told lists) (wellFormed : WellFormed none lists)
    (move : Move lists lists') : Told lists' :=
  ⟨told.queued.move wellFormed move, Tale.move told.tales wellFormed move,
    move.waiting.trans told.waiting⟩

theorem Told.cutDue (told : Told lists) (wellFormed : WellFormed none lists) :
    Told lists.cutDue :=
  ⟨told.queued.cutDue wellFormed, fun timer => (told.tales timer).cutDue, told.waiting⟩

theorem Told.step (told : Told lists) (settled : lists.Settled) {op : Op}
    (idle : op = .process → lists.current = none) (noRefresh : ∀ timer, op ≠ .refresh timer) :
    Told (lists.step op) := by
  have kept {lists lists' : TimerLists} (wellFormed : WellFormed none lists) (told : Told lists)
      (move : Move lists lists') : Told lists' := told.move wellFormed move
  by_cases process : op = .process
  · subst process
    have cut := settled.1.cutDue (idle rfl) (settled.2 (idle rfl))
    exact (moves_invariant kept (process_moves settled (idle rfl)) cut (told.cutDue settled.1)).2
  · exact (moves_invariant kept (step_moves settled process noRefresh) settled.1 told).2

/-- The turns that were taken while some moves were made. -/
theorem Serving.moves (serving : Serving past events due took lists) (told : Told lists)
    (wellFormed : WellFormed none lists) (nodup : due.Nodup)
    (fresh : ∀ timer ∈ due, .cancelled timer ∉ past) (moves : ReflTransGen Move lists lists') :
    ∃ events' took', Serving past events' due took' lists' := by
  have kept {lists lists' : TimerLists} (wellFormed : WellFormed none lists)
      (before : Told lists ∧ ∃ events took, Serving past events due took lists)
      (move : Move lists lists') :
      Told lists' ∧ ∃ events took, Serving past events due took lists' := by
    obtain ⟨told, events, took, serving⟩ := before
    exact ⟨told.move wellFormed move, serving.move nodup fresh told.tales move⟩
  exact (moves_invariant kept moves wellFormed ⟨told, events, took, serving⟩).2.2

end TimerLists

/-! ## Runs -/

open TimerLoop Execution TimerQueue
open TimerLists (InsertedBefore passed)

/-- The lists that a state of the loop thread stands for. -/
structure Follows (loop : TimerLoop) (lists : TimerLists) : Prop where
  refines : Refines loop lists
  settled : lists.Settled
  told : lists.Told

theorem Follows.create (clock : UInt64) : Follows (.create clock) (.create clock) :=
  ⟨.create clock, .create clock, .create clock⟩

theorem Follows.idle {loop : TimerLoop} {lists : TimerLists} (follows : Follows loop lists)
    (idle : loop.walk = none) : lists.current = none := by
  rw [← follows.refines.current, TimerLoop.current, idle]
  rfl

theorem Follows.step {loop : TimerLoop} {lists : TimerLists} (follows : Follows loop lists) {op : Op}
    (legal : loop.Legal op) (noRefresh : ∀ timer, op ≠ .refresh timer) :
    ∃ loop', loop.step op = some loop' ∧ Follows loop' (lists.step op) := by
  obtain ⟨loop', step_eq, refines⟩ := follows.refines.step follows.settled legal noRefresh
  have idle : op = .process → lists.current = none := by
    rintro rfl
    exact follows.idle legal
  exact ⟨loop', step_eq, refines, follows.settled.step idle noRefresh,
    follows.told.step follows.settled idle noRefresh⟩

/-- What is true of the queue and of the trace between two steps; `cells` are the queued timers. -/
structure WellKept (loop : TimerLoop) (cells : List Nat) : Prop where
  queue : loop.queue.Holds cells
  ties : cells.Pairwise fun first second =>
    loop.queue.timestampOf first = loop.queue.timestampOf second →
      InsertedBefore loop.queue.trace first second
  /-- When no callback runs, no timer is anywhere else. -/
  complete : loop.walk = none → ∀ timer, (loop.queue.timers timer).isSome → timer ∈ cells
  silent : ∀ timer, Silent timer (story loop.queue.trace timer)
  added : ∀ timer value, loop.queue.timers timer = some value →
    ∃ timestamp, .added timer timestamp value.interval ∈ loop.queue.trace
  schedule : ∀ timer timestamp interval value, .added timer timestamp interval ∈ loop.queue.trace →
    loop.queue.timers timer = some value → loop.current ≠ some timer → value.interval = interval ∧
      value.timestamp = passed timestamp interval (loop.queue.trace.count (.called timer))
  freed : ∀ timer timestamp interval, .added timer timestamp interval ∈ loop.queue.trace →
    loop.queue.trace.count (.freed timer) = if (loop.queue.timers timer).isSome then 0 else 1
  released : loop.walk = none → ∀ timer timestamp interval,
    .added timer timestamp interval ∈ loop.queue.trace →
      (loop.queue.timers timer = none ↔ .cancelled timer ∈ loop.queue.trace ∨
        interval = 0 ∧ .called timer ∈ loop.queue.trace)

theorem Follows.wellKept {loop : TimerLoop} {lists : TimerLists} (follows : Follows loop lists) :
    WellKept loop lists.cells := by
  obtain ⟨refines, settled, told⟩ := follows
  have agrees := refines.agrees
  have trace := agrees.trace
  have isSome (timer : Nat) := agrees.isSome timer
  have living {timer : Nat} {value : LoopTimer} (found : loop.queue.timers timer = some value) :=
    (told.tales timer).living value.bare (agrees.timers_eq found)
  have placed {timer : Nat} (idle : loop.walk = none)
      (allocated : (loop.queue.timers timer).isSome) : timer ∈ lists.cells := by
    have idle : lists.current = none := Follows.idle ⟨refines, settled, told⟩ idle
    have member := (settled.1.allocated timer).mp (isSome timer ▸ allocated)
    simpa [TimerLists.held, idle, settled.2 idle, told.waiting] using member
  have below {timer : Nat} {timestamp : UInt64} {interval : UInt32}
      (added : .added timer timestamp interval ∈ loop.queue.trace) : timer < lists.allocs := by
    by_contra fresh
    have member : .added timer timestamp interval ∈ story lists.trace timer :=
      mem_story.mpr (trace ▸ added)
    rw [(told.tales timer).unborn (Nat.le_of_not_lt fresh)] at member
    cases member
  refine ⟨agrees.holds, ?_, fun idle timer => placed idle, ?_, ?_, ?_, ?_, ?_⟩
  · rw [agrees.stamp, trace]
    exact told.queued.sorted.imp And.right
  · rw [trace]
    exact fun timer => (told.tales timer).silent
  · intro timer value found
    obtain ⟨timestamp, born⟩ := (living found).born
    exact ⟨timestamp, trace ▸ mem_story.mp born⟩
  · intro timer timestamp interval value added found resting
    have added : .added timer timestamp interval ∈ story lists.trace timer :=
      mem_story.mpr (trace ▸ added)
    have resting := (living found).resting timestamp interval added (refines.current ▸ resting)
    rw [trace, ← count_story]
    exact ⟨(living found).interval timestamp interval added, resting⟩
  · intro timer timestamp interval added
    have below := below added
    rw [trace, ← count_story]
    cases found : loop.queue.timers timer with
    | some value => simpa [TimerEvent.timer, List.count_eq_zero] using (living found).held
    | none =>
        have gone : lists.timers timer = none := by
          simpa [found] using isSome timer
        exact ((told.tales timer).ended gone below).once
  · intro idle timer timestamp interval added
    have below := below added
    have added : .added timer timestamp interval ∈ story lists.trace timer :=
      mem_story.mpr (trace ▸ added)
    have idle_lists : lists.current = none := Follows.idle ⟨refines, settled, told⟩ idle
    rw [trace]
    constructor
    · intro gone
      have gone : lists.timers timer = none := by
        simpa [gone] using isSome timer
      rcases ((told.tales timer).ended gone below).reason timestamp interval added with
        cancelled | ⟨last, called⟩
      · exact .inl (mem_story.mp cancelled)
      · exact .inr ⟨last, mem_story.mp called⟩
    · intro reason
      by_contra allocated
      obtain ⟨value, found⟩ := Option.ne_none_iff_exists'.mp allocated
      rcases reason with cancelled | ⟨last, called⟩
      · have dead := (living found).marked.mpr (mem_story.mpr cancelled)
        obtain ⟨value', found', alive, -⟩ :=
          told.queued.alive timer (placed idle (by simp [found]))
        obtain rfl := Option.some.inj ((agrees.timers_eq found).symm.trans found')
        simp [alive] at dead
      · have interval_eq := (living found).interval timestamp interval added
        have running := (living found).oneShot (interval_eq.trans last) (mem_story.mpr called)
        simp [idle_lists] at running

/-- What one `timer_queue_process_inloop` did, once its last callback returned: `cells` and `cells'`
are the queued timers before and after it, `events` what happened. -/
structure Served (start final : TimerLoop) (cells cells' : List Nat) (events : List TimerEvent) :
    Prop where
  trace : final.queue.trace = events ++ start.queue.trace
  called : calls events = (cells.filter fun timer =>
    start.queue.timestampOf timer ≤ start.queue.clock).filter fun timer => !missed events timer
  requeued : ∀ timer ∈ calls events, ∀ value, start.queue.timers timer = some value →
    value.interval ≠ 0 → .cancelled timer ∉ events →
      timer ∈ cells' ∧
        final.queue.timestampOf timer = value.timestamp + value.interval.toUInt64

/-- A timer that was called and not cancelled is in the queue again. -/
theorem WellKept.requeued {start final : TimerLoop} {cells cells' : List Nat}
    {events : List TimerEvent} (before : WellKept start cells) (after : WellKept final cells')
    (idle : start.walk = none) (done : final.walk = none)
    (trace : final.queue.trace = events ++ start.queue.trace)
    (called : calls events = (cells.filter fun timer =>
      start.queue.timestampOf timer ≤ start.queue.clock).filter fun timer => !missed events timer)
    {timer : Nat} (member : timer ∈ calls events) {value : LoopTimer}
    (found : start.queue.timers timer = some value) (periodic : value.interval ≠ 0)
    (kept : .cancelled timer ∉ events) :
    timer ∈ cells' ∧ final.queue.timestampOf timer = value.timestamp + value.interval.toUInt64 := by
  obtain ⟨timestamp, added⟩ := before.added timer value found
  have added' : .added timer timestamp value.interval ∈ final.queue.trace := by
    rw [trace]
    exact List.mem_append_right _ added
  have notCancelled : .cancelled timer ∉ start.queue.trace := fun cancelled => by
    have gone := (before.released idle timer timestamp value.interval added).mpr (.inl cancelled)
    simp [found] at gone
  have allocated : final.queue.timers timer ≠ none := by
    intro gone
    rcases (after.released done timer timestamp value.interval added').mp gone with
      cancelled | ⟨last, -⟩
    · rw [trace] at cancelled
      rcases List.mem_append.mp cancelled with now | earlier
      · exact kept now
      · exact notCancelled earlier
    · exact periodic last
  obtain ⟨value', found'⟩ := Option.ne_none_iff_exists'.mp allocated
  have once : events.count (.called timer) = 1 := by
    have nodup : (calls events).Nodup := by
      rw [called]
      exact (before.queue.nodup.filter _).filter _
    rw [← count_calls]
    exact List.count_eq_one_of_mem nodup member
  have resting {loop : TimerLoop} (idle : loop.walk = none) : loop.current ≠ some timer := by
    rw [TimerLoop.current, idle]
    simp
  obtain ⟨-, at_start⟩ :=
    before.schedule timer timestamp value.interval value added found (resting idle)
  obtain ⟨-, at_end⟩ :=
    after.schedule timer timestamp value.interval value' added' found' (resting done)
  refine ⟨after.complete done timer (by simp [found']), ?_⟩
  rw [timestampOf_eq found', at_end, trace, List.count_append, once, Nat.add_comm,
    TimerLists.passed_succ,
    at_start]

/-- The due timers before `timer_queue_process_inloop`. -/
theorem Follows.due {start : TimerLoop} {lists : TimerLists} (follows : Follows start lists) :
    (lists.cells.filter fun timer => lists.stamp timer ≤ lists.clock).Nodup ∧
      ∀ timer ∈ lists.cells.filter fun timer => lists.stamp timer ≤ lists.clock,
        .cancelled timer ∉ lists.trace := by
  refine ⟨follows.refines.agrees.holds.nodup.filter _, fun timer member cancelled => ?_⟩
  obtain ⟨value, found, alive, -⟩ :=
    follows.told.queued.alive timer (List.mem_of_mem_filter member)
  have dead := ((follows.told.tales timer).living value found).marked.mpr (mem_story.mpr cancelled)
  simp [alive] at dead

/-- `timer_queue_process_inloop` up to its first callback. -/
theorem Follows.process {start : TimerLoop} {lists : TimerLists} (follows : Follows start lists)
    (idle : start.walk = none) :
    ∃ loop, start.step .process = some loop ∧ Follows loop lists.process ∧
      ∃ events took, TimerLists.Serving lists.trace events
        (lists.cells.filter fun timer => lists.stamp timer ≤ lists.clock) took lists.process := by
  have idle_lists := follows.idle idle
  obtain ⟨nodup, fresh⟩ := follows.due
  have legal : start.Legal .process := idle
  obtain ⟨loop, step_eq, next⟩ := follows.step legal (by simp)
  refine ⟨loop, step_eq, next, ?_⟩
  have cut := follows.settled.1.cutDue idle_lists (follows.settled.2 idle_lists)
  exact (TimerLists.Serving.start follows.told.queued).moves (follows.told.cutDue follows.settled.1)
    cut nodup fresh (TimerLists.process_moves follows.settled idle_lists)

/-- The operations after a `timer_queue_process_inloop` up to the next one. -/
theorem Serving.run {past : List TimerEvent} {due : List Nat} (nodup : due.Nodup)
    (fresh : ∀ timer ∈ due, .cancelled timer ∉ past) {loop : TimerLoop} {rest : List Op}
    (allowed : Admissible TimerLoop.step (fun loop op =>
      loop.Legal op ∧ (∀ timer, op ≠ .refresh timer) ∧ op ≠ .process) loop rest)
    (start : ∃ lists, Follows loop lists ∧
      ∃ events took, TimerLists.Serving past events due took lists) :
    ∃ final, Execution.run TimerLoop.step loop rest = some final ∧
      ∃ lists, Follows final lists ∧
        ∃ events took, TimerLists.Serving past events due took lists := by
  refine exists_run_of_admissible (fun loop => ∃ lists, Follows loop lists ∧
    ∃ events took, TimerLists.Serving past events due took lists) ?_ start allowed
  rintro state op ⟨lists, follows, events, took, serving⟩ ⟨legal, noRefresh, noProcess⟩
  obtain ⟨next, step_eq, follows'⟩ := follows.step legal noRefresh
  refine ⟨next, step_eq, lists.step op, follows', ?_⟩
  exact serving.moves follows.told follows.settled.1 nodup fresh
    (TimerLists.step_moves follows.settled noProcess noRefresh)

/-- Once no callback runs, all due timers had their turn. -/
theorem Follows.served {start final : TimerLoop} {lists lists' : TimerLists}
    (before : Follows start lists) (after : Follows final lists') {events : List TimerEvent}
    {took : List Nat}
    (serving : TimerLists.Serving lists.trace events
      (lists.cells.filter fun timer => lists.stamp timer ≤ lists.clock) took lists')
    (idle : start.walk = none) (done : final.walk = none) :
    Served start final lists.cells lists'.cells events := by
  have trace : final.queue.trace = events ++ start.queue.trace := by
    rw [after.refines.agrees.trace, before.refines.agrees.trace, serving.trace]
  have settled : lists'.done = [] := after.settled.2 (after.idle done)
  have called : calls events = (lists.cells.filter fun timer =>
      start.queue.timestampOf timer ≤ start.queue.clock).filter fun timer =>
        !missed events timer := by
    rw [before.refines.agrees.stamp, before.refines.agrees.clock, serving.due_eq, settled,
      List.append_nil, serving.calls_eq]
  exact ⟨trace, called, fun timer member value found periodic kept =>
    before.wellKept.requeued after.wellKept idle done trace called member found periodic kept⟩

/-- Whatever the callers and the callbacks do, the queue stays in order, no step is undefined, every
timer lives as it should, and each `timer_queue_process_inloop` calls the timers that are due. -/
theorem timer_queue_keeps_order (clock : UInt64) (ops : List Op)
    (legal : Admissible TimerLoop.step TimerLoop.Legal (.create clock) ops)
    (noRefresh : ∀ timer, Op.refresh timer ∉ ops) :
    ∃ loop cells, Execution.run TimerLoop.step (.create clock) ops = some loop ∧
      WellKept loop cells ∧
      ∀ before rest, ops = before ++ Op.process :: rest → Op.process ∉ rest → loop.walk = none →
        ∃ start cells₀ events, Execution.run TimerLoop.step (.create clock) before = some start ∧
          WellKept start cells₀ ∧ Served start loop cells₀ cells events := by
  have total {state : TimerLoop} {op : Op} (follows : ∃ lists, Follows state lists)
      (allowed : state.Legal op ∧ ∀ timer, op ≠ .refresh timer) :
      ∃ next, state.step op = some next ∧ ∃ lists, Follows next lists := by
    obtain ⟨lists, follows⟩ := follows
    obtain ⟨next, step_eq, follows⟩ := follows.step allowed.1 allowed.2
    exact ⟨next, step_eq, _, follows⟩
  have allowed : Admissible TimerLoop.step
      (fun loop op => loop.Legal op ∧ ∀ timer, op ≠ .refresh timer) (.create clock) ops :=
    legal.imp fun state op member legal => ⟨legal, fun timer same => noRefresh timer (same ▸ member)⟩
  obtain ⟨loop, execution, lists, follows⟩ :=
    exists_run_of_admissible _ total ⟨_, Follows.create clock⟩ allowed
  refine ⟨loop, lists.cells, execution, follows.wellKept, ?_⟩
  rintro before rest rfl noProcess done
  obtain ⟨allowedBefore, allowedRest⟩ := allowed.append
  obtain ⟨start, executionBefore, lists₀, follows₀⟩ :=
    exists_run_of_admissible _ total ⟨_, Follows.create clock⟩ allowedBefore
  obtain ⟨⟨idle, -⟩, later⟩ := allowedRest start executionBefore
  obtain ⟨middle, step_eq, followsMiddle, events, took, serving⟩ := follows₀.process idle
  obtain ⟨nodup, fresh⟩ := follows₀.due
  have allowedLater : Admissible TimerLoop.step (fun loop op =>
      loop.Legal op ∧ (∀ timer, op ≠ .refresh timer) ∧ op ≠ .process) middle rest :=
    (later middle step_eq).imp fun state op member allowed =>
      ⟨allowed.1, allowed.2, fun same => noProcess (same ▸ member)⟩
  obtain ⟨final, executionRest, lists', follows', events', took', serving'⟩ :=
    Serving.run nodup fresh allowedLater ⟨_, followsMiddle, events, took, serving⟩
  have same : final = loop := by
    rw [run_append, executionBefore, Option.bind_some] at execution
    rw [Execution.run, step_eq, Option.bind_some, executionRest] at execution
    exact Option.some.inj execution
  subst same
  have cells_eq : lists'.cells = lists.cells :=
    follows'.refines.agrees.holds.unique follows.refines.agrees.holds
  refine ⟨start, lists₀.cells, events', executionBefore, follows₀.wellKept, ?_⟩
  rw [← cells_eq]
  exact follows₀.served follows' serving' idle done

/-- Three timers; the callback of the first one that is due cancels another. -/
theorem timer_queue_keeps_order_cancelled :
    ∃ loop cells, Execution.run TimerLoop.step (.create 0)
      [.add 5 0, .add 5 10, .add 3 0, .tick 6, .process, .cancel 0, .callbackReturns,
        .callbackReturns] = some loop ∧ WellKept loop cells ∧
      calls loop.queue.trace = [2, 1] := by
  obtain ⟨loop, cells, execution, kept, -⟩ := timer_queue_keeps_order 0
    [.add 5 0, .add 5 10, .add 3 0, .tick 6, .process, .cancel 0, .callbackReturns,
      .callbackReturns] (by decide) (by simp)
  refine ⟨loop, cells, execution, kept, ?_⟩
  have called : (Execution.run TimerLoop.step (.create 0)
      [.add 5 0, .add 5 10, .add 3 0, .tick 6, .process, .cancel 0, .callbackReturns,
        .callbackReturns]).map (fun loop => calls loop.queue.trace) = some [2, 1] := by decide
  rw [execution] at called
  exact Option.some.inj called

end CommonLib
