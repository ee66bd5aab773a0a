import CommonLib.Net.TimerLinks

/-!
# The timer queue refines the lists

Every function of the timer queue, on pointers, does what the function of the same name does on the
lists of timers; in particular it follows no `NULL` and no pointer to a freed timer.
-/

namespace CommonLib

open TimerQueue

/-- The queue holds the timers of the lists; the first expired timer has `before` behind it. -/
structure Agrees (before : Option Nat) (queue : TimerQueue) (lists : TimerLists) : Prop where
  bares : queue.bares = lists.timers
  allocs : queue.allocs = lists.allocs
  clock : queue.clock = lists.clock
  trace : queue.trace = lists.trace
  holds : queue.Holds lists.cells
  row : DoubleChain queue.nexts queue.prevs before lists.done none

namespace Agrees

variable {before : Option Nat} {queue queue' : TimerQueue} {lists : TimerLists} {timer : Nat}
  {value : LoopTimer}

theorem timers_eq (agrees : Agrees before queue lists) (found : queue.timers timer = some value) :
    lists.timers timer = some value.bare := by
  rw [← agrees.bares, TimerQueue.bares, found]
  rfl

/-- A timer of the lists is allocated. -/
theorem found (agrees : Agrees before queue lists) {bare : LoopTimer}
    (found : lists.timers timer = some bare) :
    ∃ value, queue.timers timer = some value ∧ value.bare = bare := by
  rw [← agrees.bares] at found
  exact Option.map_eq_some_iff.mp found

theorem isSome (agrees : Agrees before queue lists) (timer : Nat) :
    (queue.timers timer).isSome = (lists.timers timer).isSome := by
  rw [← isSome_bares, agrees.bares]

theorem stamp (agrees : Agrees before queue lists) : queue.timestampOf = lists.stamp := by
  funext timer
  rw [timestampOf_eq_bares, agrees.bares]
  rfl

theorem record (agrees : Agrees before queue lists) (event : TimerEvent) :
    Agrees before (queue.record event) (lists.record event) :=
  ⟨agrees.bares, agrees.allocs, agrees.clock, congrArg (event :: ·) agrees.trace,
    agrees.holds.frame (fun _ _ => rfl) rfl rfl rfl (Nat.le_refl _), agrees.row⟩

/-- Flags of any timer may change. -/
theorem flag (agrees : Agrees before queue lists) (found : queue.timers timer = some value)
    (change : LoopTimer → LoopTimer) (bare : ∀ value, (change value).bare = change value.bare)
    (prev : (change value).prev = value.prev) (next : (change value).next = value.next)
    (timestamp : (change value).timestamp = value.timestamp) :
    Agrees before (queue.store timer (change value)) (lists.modify timer change) := by
  refine ⟨?_, agrees.allocs, agrees.clock, agrees.trace,
    agrees.holds.store found prev next timestamp, ?_⟩
  · rw [bares_store, agrees.bares, bare, TimerLists.modify, agrees.timers_eq found]
    rfl
  · rw [nexts_store, prevs_store, next, prev, ← nexts_eq found, ← prevs_eq found,
      Function.update_eq_self, Function.update_eq_self]
    exact agrees.row

/-- A timer outside of the lists may change in any way. -/
theorem store (agrees : Agrees before queue lists) (found : queue.timers timer = some value)
    (queued : timer ∉ lists.cells) (expired : timer ∉ lists.done) {value' : LoopTimer}
    {change : LoopTimer → LoopTimer} (bare : value'.bare = change value.bare) :
    Agrees before (queue.store timer value') (lists.modify timer change) := by
  refine ⟨?_, agrees.allocs, agrees.clock, agrees.trace,
    agrees.holds.frame (fun other member => ?_) rfl rfl rfl (Nat.le_refl _),
    agrees.row.congr (fun other member => ?_) fun other member => ?_⟩
  · rw [bares_store, agrees.bares, bare, TimerLists.modify, agrees.timers_eq found]
    rfl
  · rw [store_timers, Function.update_of_ne (ne_of_mem_of_not_mem member queued)]
  · rw [nexts_store, Function.update_of_ne (ne_of_mem_of_not_mem member expired)]
  · rw [prevs_store, Function.update_of_ne (ne_of_mem_of_not_mem member expired)]

/-- The links of a timer outside of the lists do not matter. -/
theorem unlink (agrees : Agrees before queue lists) (found : queue.timers timer = some value)
    (queued : timer ∉ lists.cells) (expired : timer ∉ lists.done) :
    Agrees before (queue.store timer value.bare) lists := by
  have stored : Agrees before (queue.store timer value.bare) (lists.modify timer id) :=
    agrees.store found queued expired rfl
  have same : lists.modify timer id = lists := by
    simp [TimerLists.modify]
  rwa [same] at stored

theorem free (agrees : Agrees before queue lists) (found : queue.timers timer = some value)
    (queued : timer ∉ lists.cells) (expired : timer ∉ lists.done) :
    ∃ queue', queue.free timer = some queue' ∧ Agrees before queue' (lists.free timer) ∧
      ∀ other, other ≠ timer → queue'.timers other = queue.timers other := by
  have others : ∀ other, other ≠ timer →
      Function.update queue.timers timer none other = queue.timers other :=
    fun other other_ne => Function.update_of_ne other_ne ..
  refine ⟨_, free_eq found, ⟨?_, agrees.allocs, agrees.clock, ?_, ?_, ?_⟩, others⟩
  · rw [TimerLists.free, ← agrees.bares]
    funext other
    by_cases same : other = timer
    · subst same
      simp [TimerQueue.bares, TimerQueue.record, TimerLists.record]
    · simp [TimerQueue.bares, TimerQueue.record, TimerLists.record, same]
  · exact congrArg (TimerEvent.freed timer :: ·) agrees.trace
  · exact agrees.holds.frame (fun other member => others other (ne_of_mem_of_not_mem member queued))
      rfl rfl rfl (Nat.le_refl _)
  · refine agrees.row.congr (fun other member => ?_) fun other member => ?_
    · exact congrArg (·.bind LoopTimer.next) (others other (ne_of_mem_of_not_mem member expired))
    · exact congrArg (·.bind LoopTimer.prev) (others other (ne_of_mem_of_not_mem member expired))

theorem insert (agrees : Agrees before queue lists) (found : queue.timers timer = some value)
    (queued : timer ∉ lists.cells) (expired : timer ∉ lists.done) (fresh : timer < queue.allocs)
    (apart : ∀ other ∈ lists.done, other ∉ lists.cells) :
    ∃ queue', queue.insertTimerInloop timer = some queue' ∧
      Agrees before queue' (lists.insert timer) ∧
      ∀ other ∉ timer :: lists.cells, queue'.timers other = queue.timers other := by
  obtain ⟨queue', inserted, holds, bares, others, allocs, clock, trace⟩ :=
    agrees.holds.insertTimerInloop found queued fresh
  have stamp_eq : value.timestamp = lists.stamp timer := by
    rw [← agrees.stamp, timestampOf_eq found]
  rw [agrees.stamp, stamp_eq] at holds
  have outside : ∀ other ∈ lists.done, other ∉ timer :: lists.cells := by
    intro other member
    simp [ne_of_mem_of_not_mem member expired, apart other member]
  refine ⟨queue', inserted, ⟨?_, allocs.trans agrees.allocs, clock.trans agrees.clock, ?_, holds,
    agrees.row.congr (fun other member => ?_) fun other member => ?_⟩, others⟩
  · rw [bares, agrees.bares]
    change _ = Function.update lists.timers timer ((lists.timers timer).map _)
    rw [agrees.timers_eq found]
    rfl
  · rw [trace, agrees.trace]
    rfl
  · rw [nexts, nexts, others other (outside other member)]
  · rw [prevs, prevs, others other (outside other member)]

/-- Take a timer out of the queue. -/
theorem remove (agrees : Agrees before queue lists) (member : timer ∈ lists.cells)
    (apart : ∀ other ∈ lists.done, other ∉ lists.cells) :
    ∃ queue', queue.removeTimerInloop timer = some queue' ∧
      Agrees before queue' { lists with cells := lists.cells.erase timer } ∧
      ∀ other ∉ lists.cells.erase timer, queue'.timers other = queue.timers other := by
  obtain ⟨front, back, cells_eq⟩ := List.append_of_mem member
  have holds := agrees.holds
  rw [cells_eq] at holds
  obtain ⟨absent, -⟩ := List.nodup_cons.mp (List.nodup_middle.mp holds.nodup)
  have erase_eq : lists.cells.erase timer = front ++ back := by
    rw [cells_eq, List.erase_append_right _ (fun member => absent (List.mem_append_left _ member)),
      List.erase_cons_head]
  obtain ⟨queue', removed, holds', relinks⟩ := holds.removeTimerInloop
  have outside : ∀ other ∈ lists.done, other ∉ front ++ back := by
    intro other waits inside
    refine apart other waits ?_
    rw [← erase_eq] at inside
    exact List.mem_of_mem_erase inside
  rw [erase_eq]
  refine ⟨queue', removed, ⟨relinks.bares.trans agrees.bares, relinks.allocs.trans agrees.allocs,
    relinks.clock.trans agrees.clock, relinks.trace.trans agrees.trace, holds',
    agrees.row.congr (fun other waits => ?_) fun other waits => ?_⟩, relinks.timers⟩
  · rw [nexts, nexts, relinks.timers other (outside other waits)]
  · rw [prevs, prevs, relinks.timers other (outside other waits)]

/-! ## Calls -/

theorem alloc (agrees : Agrees before queue lists) (wellFormed : lists.WellFormed none)
    (timestamp : UInt64) (interval : UInt32) :
    Agrees before (queue.alloc timestamp interval) (lists.alloc timestamp interval) := by
  have others : ∀ other, other < lists.allocs →
      (queue.alloc timestamp interval).timers other = queue.timers other := by
    intro other below
    rw [TimerQueue.alloc, agrees.allocs]
    exact Function.update_of_ne (Nat.ne_of_lt below) ..
  have below : ∀ other ∈ lists.held, other < lists.allocs := wellFormed.below
  refine ⟨?_, congrArg (· + 1) agrees.allocs, agrees.clock,
    congrArg₂ (TimerEvent.added · timestamp interval :: ·) agrees.allocs agrees.trace,
    agrees.holds.frame (fun other member => others other (below other ?_)) rfl rfl rfl
      (Nat.le_succ _), agrees.row.congr (fun other member => ?_) fun other member => ?_⟩
  · change (queue.store queue.allocs _).bares = _
    rw [bares_store, agrees.bares, agrees.allocs]
    rfl
  · simp [TimerLists.held, member]
  · rw [nexts, nexts, others other (below other (by simp [TimerLists.held, member]))]
  · rw [prevs, prevs, others other (below other (by simp [TimerLists.held, member]))]

/-- `do_insert_timer` of a timer that is not cancelled. -/
theorem doInsertTimer (agrees : Agrees before queue lists)
    (wellFormed : lists.WellFormed (some timer)) (found : queue.timers timer = some value)
    (alive : value.isAlive = true) :
    ∃ queue', queue.doInsertTimer timer = some queue' ∧
      Agrees before queue' (lists.insert timer) ∧
      ∀ other ∉ timer :: lists.cells, queue'.timers other = queue.timers other := by
  obtain ⟨queued, expired, fresh⟩ := wellFormed.outside
  obtain ⟨queue', inserted, agrees', others⟩ :=
    agrees.insert found queued expired (agrees.allocs ▸ fresh) wellFormed.apart
  refine ⟨queue', ?_, agrees', others⟩
  simp only [TimerQueue.doInsertTimer, found, Option.bind_eq_bind, Option.bind_some, alive, if_true]
  exact inserted

theorem add (agrees : Agrees before queue lists) (wellFormed : lists.WellFormed none)
    (timestamp : UInt64) (interval : UInt32) :
    ∃ queue', queue.add timestamp interval = some queue' ∧
      Agrees before queue' (lists.add timestamp interval) ∧
      ∀ other, other < lists.allocs → other ∉ lists.cells →
        queue'.timers other = queue.timers other := by
  have allocated := agrees.alloc wellFormed timestamp interval
  have found : ∃ value, (queue.alloc timestamp interval).timers queue.allocs = some value ∧
      value.isAlive = true := ⟨_, Function.update_self .., rfl⟩
  obtain ⟨value, found, alive⟩ := found
  have wellFormed' : (lists.alloc timestamp interval).WellFormed (some queue.allocs) :=
    agrees.allocs ▸ wellFormed.alloc timestamp interval
  obtain ⟨queue', inserted, agrees', others⟩ :=
    allocated.doInsertTimer wellFormed' found alive
  refine ⟨queue', inserted, ?_, fun other below absent => ?_⟩
  · rw [agrees.allocs] at agrees'
    exact agrees'
  · have other_ne : other ≠ queue.allocs := agrees.allocs ▸ Nat.ne_of_lt below
    rw [others other (by simp only [List.mem_cons, not_or]; exact ⟨other_ne, absent⟩)]
    exact Function.update_of_ne other_ne ..

theorem cancelInloop (agrees : Agrees before queue lists) (wellFormed : lists.WellFormed none)
    (allocated : (queue.timers timer).isSome) :
    ∃ queue', queue.cancelInloop timer = some queue' ∧
      Agrees before queue' (lists.cancel timer) ∧
      ∀ other ∉ lists.cells,
        queue'.nexts other = queue.nexts other ∧ queue'.prevs other = queue.prevs other := by
  obtain ⟨value, found⟩ := Option.isSome_iff_exists.mp allocated
  have foundBare := agrees.timers_eq found
  have recorded := agrees.record (.cancelled timer)
  have foundRecorded : (queue.record (.cancelled timer)).timers timer = some value := found
  by_cases queued : value.isInCallback = false ∧ value.isExpired = false ∧ value.isInQueue = true
  · obtain ⟨inCallback, expired, inQueue⟩ := queued
    have member := wellFormed.mem_cells foundBare expired inQueue
    obtain ⟨removed, removed_eq, agreesRemoved, othersRemoved⟩ :=
      recorded.remove member wellFormed.apart
    have absent : timer ∉ lists.cells.erase timer := by
      intro member'
      have nodup : lists.cells.Nodup := agrees.holds.nodup
      exact (List.Nodup.mem_erase_iff nodup).mp member' |>.1 rfl
    have foundRemoved : removed.timers timer = some value :=
      (othersRemoved timer absent).trans foundRecorded
    obtain ⟨queue', freed, agrees', others⟩ := agreesRemoved.free foundRemoved absent
      fun waits => wellFormed.apart timer waits member
    refine ⟨queue', ?_, ?_, fun other outside => ?_⟩
    · simp only [TimerQueue.cancelInloop, foundRecorded, Option.bind_eq_bind, Option.bind_some,
        inCallback, expired, inQueue, Bool.false_eq_true, if_false, if_true, removed_eq]
      exact freed
    · rw [TimerLists.cancel_queued foundBare ⟨inCallback, expired, inQueue⟩]
      exact agrees'
    · have other_ne : other ≠ timer := fun same => outside (same ▸ member)
      have kept : queue'.timers other = queue.timers other :=
        (others other other_ne).trans
          (othersRemoved other fun inside => outside (List.mem_of_mem_erase inside))
      exact ⟨by rw [nexts, nexts, kept], by rw [prevs, prevs, kept]⟩
  · let value' : LoopTimer := { value with isAlive := false }
    have marked : Agrees before ((queue.record (.cancelled timer)).store timer value')
        ((lists.record (.cancelled timer)).modify timer ({ · with isAlive := false })) :=
      recorded.flag foundRecorded (fun value => { value with isAlive := false }) (fun _ => rfl) rfl
        rfl rfl
    refine ⟨_, ?_, TimerLists.cancel_held foundBare queued ▸ marked, fun other _ => ⟨?_, ?_⟩⟩
    · simp only [TimerQueue.cancelInloop, foundRecorded, Option.bind_eq_bind, Option.bind_some,
        modify_eq foundRecorded]
      split
      · rfl
      split
      · rfl
      split
      · simp_all
      · rfl
    · rw [nexts_store, show value'.next = queue.nexts timer from (nexts_eq found).symm]
      exact congrFun (Function.update_eq_self timer queue.nexts) other
    · rw [prevs_store, show value'.prev = queue.prevs timer from (prevs_eq found).symm]
      exact congrFun (Function.update_eq_self timer queue.prevs) other

/-- What the loop over the expired timers does after a timer's turn. -/
theorem retire (agrees : Agrees before queue lists) (wellFormed : lists.WellFormed (some timer)) :
    ∃ queue', queue.retire timer = some queue' ∧ Agrees before queue' (lists.retire timer) := by
  obtain ⟨queued, expired, fresh⟩ := wellFormed.outside
  obtain ⟨bare, foundBare⟩ := wellFormed.found (by simp : timer ∈ _)
  obtain ⟨value, found, rfl⟩ := agrees.found foundBare
  by_cases periodic : value.isAlive = true ∧ value.interval ≠ 0
  · let value' : LoopTimer := { value with
      timestamp := value.timestamp + value.interval.toUInt64
      isExpired := false
      prev := none
      next := none }
    have stored : Agrees before (queue.store timer value') (lists.modify timer fun value =>
        { value with
          timestamp := value.timestamp + value.interval.toUInt64
          isExpired := false }) := agrees.store found queued expired rfl
    have foundStored : (queue.store timer value').timers timer = some value' :=
      Function.update_self ..
    obtain ⟨queue', inserted, agrees', -⟩ :=
      stored.insert foundStored queued expired (agrees.allocs ▸ fresh) wellFormed.apart
    refine ⟨queue', ?_, ?_⟩
    · simp only [TimerQueue.retire, found, Option.bind_eq_bind, Option.bind_some, if_pos periodic,
        modify_eq found]
      exact inserted
    · rw [TimerLists.retire_periodic foundBare periodic]
      exact agrees'
  · obtain ⟨queue', freed, agrees', -⟩ := agrees.free found queued expired
    refine ⟨queue', ?_, ?_⟩
    · simp only [TimerQueue.retire, found, Option.bind_eq_bind, Option.bind_some, if_neg periodic]
      exact freed
    · rw [TimerLists.retire_last foundBare periodic]
      exact agrees'

end Agrees

/-! ## The loop thread -/

/-- The queue of the loop thread agrees with the lists, and the variables of
`timer_queue_process_inloop` name the running timer, which is in no list, and the next one. -/
structure Refines (loop : TimerLoop) (lists : TimerLists) : Prop where
  agrees : Agrees loop.current loop.queue lists
  current : loop.current = lists.current
  doneTimer : loop.walk.bind Walk.doneTimer = lists.done.head?
  unlinked : ∀ timer, loop.current = some timer →
    loop.queue.nexts timer = none ∧ loop.queue.prevs timer = none

section Loop

variable {before : Option Nat} {queue : TimerQueue} {lists : TimerLists} {timer : Nat}
  {loop : TimerLoop}

/-- One turn of the loop over the expired timers. -/
theorem TimerQueue.serve_cons {value : LoopTimer} {next : Option Nat} {fuel : Nat}
    (found : queue.timers timer = some value) (next_eq : value.next = next) :
    TimerQueue.serve (fuel + 1) queue (some timer) =
      if value.isAlive then
        (((queue.record (.turn timer)).store timer value.bare).modify timer
          ({ · with isInCallback := true })).bind fun queue =>
            some (queue.record (.called timer), some { timer, doneTimer := next })
      else
        (((queue.record (.turn timer)).store timer value.bare).retire timer).bind
          fun queue => TimerQueue.serve fuel queue next := by
  rw [TimerQueue.serve, found, ← next_eq]
  simp only [Option.bind_eq_bind, Option.bind_some]
  rw [modify_eq (show (queue.record (.turn timer)).timers timer = some value from found)]
  rfl

/-- The loop over the expired timers runs to the next call of a callback. -/
theorem Agrees.serve {done : List Nat} {fuel : Nat} (agrees : Agrees before queue lists)
    (wellFormed : lists.WellFormed none) (idle : lists.current = none) (done_eq : lists.done = done)
    (enough : done.length ≤ fuel) :
    ∃ queue' walk, TimerQueue.serve fuel queue done.head? = some (queue', walk) ∧
      Refines { queue := queue', walk } (TimerLists.serve done lists) := by
  induction done generalizing fuel before queue lists with
  | nil =>
      refine ⟨queue, none, by cases fuel <;> rfl, ⟨agrees.bares, agrees.allocs, agrees.clock,
        agrees.trace, agrees.holds, trivial⟩, idle.symm, rfl, fun timer running => ?_⟩
      cases running
  | cons timer done induction =>
      obtain ⟨fuel, rfl⟩ := Nat.exists_eq_succ_of_ne_zero
        (Nat.ne_of_gt (Nat.lt_of_lt_of_le (Nat.succ_pos done.length) enough))
      have taken := (wellFormed.takeDone done_eq).record (.turn timer)
      obtain ⟨queued, expired, -⟩ := taken.outside
      obtain ⟨bare, foundBare⟩ := taken.found (by simp : timer ∈ _)
      obtain ⟨value, found, rfl⟩ := agrees.found foundBare
      have foundLists : lists.timers timer = some value.bare := foundBare
      have row := agrees.row
      rw [done_eq] at row
      obtain ⟨-, next_eq, tail⟩ := row
      rw [nexts_eq found, Option.or_none] at next_eq
      -- the timer leaves the list before its links are cleared
      have shorter : Agrees (some timer) queue { lists with done } :=
        ⟨agrees.bares, agrees.allocs, agrees.clock, agrees.trace, agrees.holds, tail⟩
      have cleared := (shorter.record (.turn timer)).unlink found queued expired
      have foundCleared : ((queue.record (.turn timer)).store timer value.bare).timers timer =
          some value.bare := Function.update_self ..
      rw [List.head?_cons, serve_cons found next_eq]
      cases alive : value.isAlive with
      | false =>
          obtain ⟨queue', retired, agrees'⟩ := cleared.retire taken
          rw [TimerLists.retire_last foundBare (by simp [LoopTimer.bare, alive])] at agrees'
          obtain ⟨queue'', walk, served, refines⟩ :=
            induction agrees' taken.free idle rfl (by simpa using enough)
          refine ⟨queue'', walk, ?_, ?_⟩
          · rw [if_neg (by simp), retired, Option.bind_some, served]
          · rw [TimerLists.serve_dead foundLists alive]
            exact refines
      | true =>
          let called : LoopTimer := { value.bare with isInCallback := true }
          have stored : Agrees (some timer)
              (((queue.record (.turn timer)).store timer value.bare).store timer called)
              (({ lists with done }.record (.turn timer)).modify timer
                ({ · with isInCallback := true })) :=
            cleared.store foundCleared queued expired rfl
          have recorded := stored.record (.called timer)
          refine ⟨(((queue.record (.turn timer)).store timer value.bare).store timer called).record
            (.called timer), some { timer, doneTimer := done.head? }, ?_, ?_⟩
          · rw [if_pos rfl, modify_eq foundCleared, Option.bind_some]
          · rw [TimerLists.serve_alive foundLists alive]
            refine ⟨⟨recorded.bares, recorded.allocs, recorded.clock, recorded.trace,
              recorded.holds, recorded.row⟩, rfl, rfl, fun other running => ?_⟩
            obtain rfl : timer = other := Option.some.inj running
            have foundCalled : (((queue.record (.turn timer)).store timer value.bare).store timer
                called).timers timer = some called := Function.update_self ..
            exact ⟨nexts_eq foundCalled, prevs_eq foundCalled⟩

/-- The expired timers are marked; nothing else changes. -/
theorem TimerQueue.markExpired_spec {done : List Nat} {fuel : Nat}
    (chain : Chain queue.nexts done.head? done none)
    (allocated : ∀ timer ∈ done, (queue.timers timer).isSome) (enough : done.length ≤ fuel) :
    ∃ queue', markExpired fuel queue done.head? = some queue' ∧
      (queue'.bares = fun timer =>
        if timer ∈ done then (queue.bares timer).map ({ · with isExpired := true })
        else queue.bares timer) ∧
      queue'.nexts = queue.nexts ∧ queue'.prevs = queue.prevs ∧
      (∀ timer ∉ done, queue'.timers timer = queue.timers timer) ∧
      queue'.timerList = queue.timerList ∧ queue'.timerListEnd = queue.timerListEnd ∧
      queue'.minTimestamp = queue.minTimestamp ∧ queue'.allocs = queue.allocs ∧
      queue'.clock = queue.clock ∧ queue'.trace = queue.trace := by
  induction done generalizing fuel queue with
  | nil =>
      refine ⟨queue, by cases fuel <;> rfl, ?_, rfl, rfl, fun _ _ => rfl, rfl, rfl, rfl, rfl, rfl,
        rfl⟩
      simp
  | cons timer done induction =>
      obtain ⟨fuel, rfl⟩ := Nat.exists_eq_succ_of_ne_zero
        (Nat.ne_of_gt (Nat.lt_of_lt_of_le (Nat.succ_pos done.length) enough))
      obtain ⟨value, found⟩ := Option.isSome_iff_exists.mp (allocated timer (by simp))
      let marked : LoopTimer := { value with isExpired := true }
      have foundMarked : (queue.store timer marked).timers timer = some marked :=
        Function.update_self ..
      have nexts_same : (queue.store timer marked).nexts = queue.nexts := by
        rw [nexts_store, show marked.next = queue.nexts timer from (nexts_eq found).symm,
          Function.update_eq_self]
      have prevs_same : (queue.store timer marked).prevs = queue.prevs := by
        rw [prevs_store, show marked.prev = queue.prevs timer from (prevs_eq found).symm,
          Function.update_eq_self]
      obtain ⟨-, tail⟩ := chain
      have next_eq : value.next = done.head? := (nexts_eq found).symm.trans tail.head?_eq
      rw [← nexts_same, nexts_same, nexts_eq found, next_eq, ← nexts_same] at tail
      obtain ⟨queue', rest, bares_eq, nexts_eq', prevs_eq', others, fields⟩ := induction tail
        (fun other member => by
          rw [← isSome_bares, bares_store]
          by_cases same : other = timer
          · simp [same]
          · rw [Function.update_of_ne same, isSome_bares]
            exact allocated other (by simp [member]))
        (by simpa using enough)
      refine ⟨queue', ?_, ?_, nexts_eq'.trans nexts_same, prevs_eq'.trans prevs_same,
        fun other outside => ?_, fields⟩
      · simp only [List.head?_cons, markExpired, modify_eq found, Option.bind_eq_bind,
          Option.bind_some]
        change ((queue.store timer marked).timers timer).bind _ = _
        rw [foundMarked, Option.bind_some]
        exact (congrArg (markExpired fuel _) next_eq).trans rest
      · rw [bares_eq, bares_store]
        funext other
        by_cases same : other = timer
        · subst same
          simp [bares, found, marked, LoopTimer.bare]
        · simp [same]
      · obtain ⟨other_ne, outside⟩ := not_or.mp (mt List.mem_cons.mpr outside)
        rw [others other outside, store_timers, Function.update_of_ne other_ne]

theorem TimerQueue.Holds.prev_of_head? {cells : List Nat} {first : Nat} {value : LoopTimer}
    (holds : queue.Holds cells) (first_eq : cells.head? = some first)
    (found : queue.timers first = some value) : value.prev = none := by
  obtain ⟨back, rfl⟩ : ∃ back, cells = first :: back := by
    cases cells with
    | nil => cases first_eq
    | cons other back => exact ⟨back, by rw [Option.some.inj first_eq]⟩
  rw [← prevs_eq found, holds.row.1]

theorem TimerQueue.Holds.next_of_getLast? {cells : List Nat} {last : Nat} {value : LoopTimer}
    (holds : queue.Holds cells) (last_eq : cells.getLast? = some last)
    (found : queue.timers last = some value) : value.next = none := by
  obtain ⟨front, rfl⟩ := List.getLast?_eq_some_iff.mp last_eq
  rw [← nexts_eq found]
  simpa using holds.row.next_eq

/-- The list falls into two where the links between two neighbours are cleared. -/
theorem TimerQueue.cut_rows {front rest : List Nat} {last timer : Nat}
    {lastValue value : LoopTimer}
    (row : DoubleChain queue.nexts queue.prevs none (front ++ [last] ++ timer :: rest) none)
    (nodup : (front ++ [last] ++ timer :: rest).Nodup)
    (foundLast : queue.timers last = some lastValue)
    (found : (queue.store last { lastValue with next := none }).timers timer = some value) :
    let cut := (queue.store last { lastValue with next := none }).store timer
      { value with prev := none }
    DoubleChain cut.nexts cut.prevs none (front ++ [last]) none ∧
      DoubleChain cut.nexts cut.prevs none (timer :: rest) none := by
  intro cut
  obtain ⟨init, tail⟩ := DoubleChain.append_iff.mp row
  have nexts_same : cut.nexts = Function.update queue.nexts last none := by
    rw [nexts_store, ← nexts_eq found, Function.update_eq_self, nexts_store]
  have prevs_same : cut.prevs = Function.update queue.prevs timer none := by
    rw [prevs_store, prevs_store, ← prevs_eq foundLast, Function.update_eq_self]
  rw [nexts_same, prevs_same]
  refine DoubleChain.setInner init tail nodup (by simp) (by simp) ?_ ?_
  · intro other member other_ne
    have last_ne : other ≠ last := fun same => other_ne (by simp [same])
    rw [Function.update_of_ne last_ne]
  · intro other member other_ne
    have timer_ne : other ≠ timer := fun same => other_ne (by simp [same])
    rw [Function.update_of_ne timer_ne]

/-- The expired timers are cut off the list. -/
theorem TimerQueue.Holds.cutDue {cells : List Nat} (holds : queue.Holds cells)
    (nonempty : cells ≠ []) :
    ∃ queue', queue.cutDue = some (queue',
        (early queue.timestampOf queue.clock cells).head?) ∧
      queue'.Holds (late queue.timestampOf queue.clock cells) ∧
      DoubleChain queue'.nexts queue'.prevs none (early queue.timestampOf queue.clock cells) none ∧
      Relinks queue queue' cells := by
  have parts := early_append_late queue.timestampOf queue.clock cells
  have skipped := skipDue_eq queue.clock holds.row.chain holds.allocated holds.length_le
  rw [Option.or_none, ← holds.head] at skipped
  generalize early queue.timestampOf queue.clock cells = due at parts
  generalize late queue.timestampOf queue.clock cells = rest at parts skipped
  subst parts
  have lookup : ∀ other ∈ due ++ rest, ∃ value, queue.timers other = some value :=
    fun other member => Option.isSome_iff_exists.mp (holds.allocated other member)
  have head := holds.head
  cases rest with
  | nil =>
      rw [List.append_nil] at nonempty holds head lookup
      obtain ⟨first, first_eq⟩ : ∃ first, due.head? = some first :=
        Option.isSome_iff_exists.mp (by simpa using nonempty)
      obtain ⟨last, last_eq⟩ : ∃ last, due.getLast? = some last :=
        Option.isSome_iff_exists.mp (by simpa using nonempty)
      obtain ⟨firstValue, foundFirst⟩ := lookup first (List.mem_of_mem_head? first_eq)
      obtain ⟨lastValue, foundLast⟩ := lookup last (List.mem_of_getLast? last_eq)
      have first_prev := holds.prev_of_head? first_eq foundFirst
      have last_next := holds.next_of_getLast? last_eq foundLast
      refine ⟨{ queue with
          timerList := none
          timerListEnd := none
          minTimestamp := queue.clock },
        ?_, ⟨trivial, rfl, rfl, List.nodup_nil, by simp, by simp, List.Pairwise.nil, by simp⟩,
        holds.row, ⟨rfl, fun _ _ => rfl, rfl, rfl, rfl⟩⟩
      rw [TimerQueue.cutDue, skipped]
      simp only [Option.bind_eq_bind, Option.bind_some, List.head?_nil, head, first_eq, holds.last,
        last_eq]
      rw [modify_same foundFirst (by rw [← first_prev]), Option.bind_some,
        modify_same foundLast (by rw [← last_next])]
      rfl
  | cons timer rest =>
      obtain ⟨value, found⟩ := lookup timer (by simp)
      have behind := holds.row.prev_eq
      rw [Option.or_none, prevs_eq found] at behind
      cases due using List.reverseRecOn with
      | nil =>
          refine ⟨queue, ?_, holds, trivial, Relinks.refl queue _⟩
          rw [TimerQueue.cutDue, skipped]
          simp only [Option.bind_eq_bind, Option.bind_some, List.head?_cons, found, behind,
            List.getLast?_nil]
          rfl
      | append_singleton front last =>
          obtain ⟨lastValue, foundLast⟩ := lookup last (by simp)
          have apart : timer ≠ last := fun same =>
            (List.nodup_append.mp holds.nodup).2.2 last (by simp) timer (by simp) same.symm
          let first := queue.store last { lastValue with next := none }
          have found' : first.timers timer = some value := by
            rw [store_timers, Function.update_of_ne apart, found]
          let second := first.store timer { value with prev := none }
          have one : Relinks queue first (front ++ [last] ++ timer :: rest) :=
            (Relinks.refl queue _).store foundLast rfl (by simp)
          have two : Relinks queue second (front ++ [last] ++ timer :: rest) :=
            one.store found' rfl (by simp)
          have rows := TimerQueue.cut_rows holds.row holds.nodup foundLast found'
          have sublist : (timer :: rest).Sublist (front ++ [last] ++ timer :: rest) :=
            List.sublist_append_right ..
          refine ⟨{ second with timerList := some timer, minTimestamp := value.timestamp }, ?_,
            ⟨rows.2, rfl, ?_, holds.nodup.sublist sublist, fun other member => ?_,
              fun other member => holds.below other (sublist.subset member), ?_, ?_⟩, rows.1,
            ⟨two.bares, two.timers, rfl, rfl, rfl⟩⟩
          · rw [TimerQueue.cutDue, skipped]
            simp only [Option.bind_eq_bind, Option.bind_some, List.head?_cons, found, behind,
              List.getLast?_concat, modify_eq foundLast]
            rw [modify_eq found', head]
            simp [second]
          · obtain ⟨foot, foot_eq⟩ : ∃ foot, (timer :: rest).getLast? = some foot :=
              Option.isSome_iff_exists.mp (by simp)
            change queue.timerListEnd = _
            rw [holds.last, List.getLast?_append, foot_eq]
            rfl
          · exact (two.isSome other).trans (holds.allocated other (sublist.subset member))
          · refine (holds.sorted.sublist sublist).imp fun {first second'} inOrder => ?_
            have same : ∀ other, ({ second with
                timerList := some timer, minTimestamp := value.timestamp } : TimerQueue).timestampOf
                  other = queue.timestampOf other := two.timestampOf
            rwa [same, same]
          · intro first same
            obtain rfl : timer = first := by simpa using same
            exact ((two.timestampOf timer).trans (timestampOf_eq found)).symm

/-- `timer_queue_process_inloop` up to the first callback. -/
theorem Agrees.processInloop (agrees : Agrees before queue lists) (settled : lists.Settled)
    (idle : lists.current = none) :
    ∃ queue' walk, queue.processInloop = some (queue', walk) ∧
      Refines { queue := queue', walk } lists.process := by
  have wellFormed := settled.1.cutDue idle (settled.2 idle)
  by_cases nonempty : lists.cells = []
  · have unchanged : Agrees none queue lists.cutDue := by
      refine ⟨?_, agrees.allocs, agrees.clock, agrees.trace, ?_, ?_⟩
      · simp [TimerLists.cutDue, nonempty, early, agrees.bares]
      · simpa [TimerLists.cutDue, nonempty, late] using agrees.holds
      · simp [TimerLists.cutDue, nonempty, early]
    have done_eq : lists.cutDue.done = [] := by simp [TimerLists.cutDue, nonempty, early]
    obtain ⟨queue', walk, served, refines⟩ :=
      unchanged.serve wellFormed idle done_eq (Nat.zero_le 0)
    obtain ⟨rfl, rfl⟩ : queue = queue' ∧ none = walk := by
      simpa [TimerQueue.serve] using served
    refine ⟨queue, none, ?_, ?_⟩
    · rw [TimerQueue.processInloop, if_pos]
      · rfl
      · rw [agrees.holds.head, nonempty]
        rfl
    · rw [TimerLists.process, done_eq]
      exact refines
  · obtain ⟨cut, cut_eq, holds, row, relinks⟩ := agrees.holds.cutDue nonempty
    rw [agrees.stamp, agrees.clock] at cut_eq holds row
    have allocated : ∀ timer ∈ early lists.stamp lists.clock lists.cells,
        (cut.timers timer).isSome := by
      intro timer due
      rw [relinks.isSome]
      refine agrees.holds.allocated timer ?_
      rw [← early_append_late lists.stamp lists.clock lists.cells]
      exact List.mem_append_left _ due
    have short : (early lists.stamp lists.clock lists.cells).length ≤ cut.allocs := by
      have total := congrArg List.length (early_append_late lists.stamp lists.clock lists.cells)
      rw [List.length_append] at total
      have bound := agrees.holds.length_le
      rw [relinks.allocs]
      omega
    have chain := row.chain
    rw [Option.or_none] at chain
    obtain ⟨marked, marked_eq, bares_eq, nexts_same, prevs_same, others, list_eq, end_eq, min_eq,
      allocs_eq, clock_eq, trace_eq⟩ := markExpired_spec chain allocated short
    have apart : ∀ timer ∈ late lists.stamp lists.clock lists.cells,
        timer ∉ early lists.stamp lists.clock lists.cells := by
      intro timer later due
      exact wellFormed.apart timer due later
    have cutAgrees : Agrees none marked lists.cutDue := by
      refine ⟨?_, allocs_eq.trans (relinks.allocs.trans agrees.allocs),
        clock_eq.trans (relinks.clock.trans agrees.clock),
        trace_eq.trans (relinks.trace.trans agrees.trace), ?_, ?_⟩
      · rw [bares_eq, relinks.bares, agrees.bares]
        rfl
      · exact holds.frame (fun timer member => others timer (apart timer member)) list_eq end_eq
          min_eq (Nat.le_of_eq allocs_eq.symm)
      · rw [nexts_same, prevs_same]
        exact row
    obtain ⟨queue', walk, served, refines⟩ :=
      cutAgrees.serve wellFormed idle rfl (allocs_eq ▸ short)
    refine ⟨queue', walk, ?_, refines⟩
    rw [TimerQueue.processInloop, if_neg]
    · simp only [cut_eq, Option.bind_eq_bind, Option.bind_some, marked_eq]
      exact served
    · rw [agrees.holds.head]
      simpa using nonempty

/-- `timer_queue_process_inloop` from the return of a callback to the next one. -/
theorem Refines.afterCallback (refines : Refines loop lists) (settled : lists.Settled)
    {walk : Walk} (running : loop.walk = some walk) :
    ∃ queue' walk', loop.queue.afterCallback walk = some (queue', walk') ∧
      Refines { queue := queue', walk := walk' } lists.callbackReturns := by
  have current : lists.current = some walk.timer := by
    rw [← refines.current, TimerLoop.current, running]
    rfl
  have apart := settled.1.not_done_of_current current
  have taken := settled.1.takeCurrent current
  obtain ⟨queued, -, -⟩ := taken.outside
  obtain ⟨bare, foundBare⟩ := settled.1.found (by simp [TimerLists.held, current] :
    walk.timer ∈ _)
  obtain ⟨value, found, rfl⟩ := refines.agrees.found foundBare
  let returned : LoopTimer := { value with isInCallback := false }
  have stored : Agrees loop.current (loop.queue.store walk.timer returned)
      (lists.modify walk.timer ({ · with isInCallback := false })) :=
    refines.agrees.store found queued apart rfl
  have storedIdle : Agrees loop.current (loop.queue.store walk.timer returned)
      ({ lists with current := none }.modify walk.timer ({ · with isInCallback := false })) :=
    ⟨stored.bares, stored.allocs, stored.clock, stored.trace, stored.holds, stored.row⟩
  obtain ⟨retired, retired_eq, agrees⟩ := storedIdle.retire taken
  have wellFormed := taken.retire ⟨apart, by simp [TimerLists.modify]⟩
  obtain ⟨current_eq, done_eq, -⟩ := TimerLists.retire_places
    ({ lists with current := none }.modify walk.timer ({ · with isInCallback := false })) walk.timer
  have short := wellFormed.length_done_le
  rw [done_eq, ← agrees.allocs] at short
  obtain ⟨queue', walk', served, refines'⟩ := agrees.serve wellFormed current_eq done_eq short
  refine ⟨queue', walk', ?_, ?_⟩
  · have doneTimer : walk.doneTimer = lists.done.head? := by
      rw [← refines.doneTimer, running]
      rfl
    simp only [TimerQueue.afterCallback, modify_eq found, Option.bind_eq_bind, Option.bind_some,
      doneTimer]
    rw [show loop.queue.store walk.timer { value with isInCallback := false } =
      loop.queue.store walk.timer returned from rfl, retired_eq]
    exact served
  · rw [TimerLists.callbackReturns, current]
    exact refines'

theorem Refines.create (clock : UInt64) :
    Refines (TimerLoop.create clock) (TimerLists.create clock) := by
  refine ⟨⟨rfl, rfl, rfl, rfl, ⟨trivial, rfl, rfl, List.nodup_nil, by simp [TimerLists.create],
    by simp [TimerLists.create], List.Pairwise.nil, by simp [TimerLists.create]⟩, trivial⟩, rfl, rfl,
    fun timer running => ?_⟩
  cases running

/-- Every legal step except a refresh is the step of the lists. -/
theorem Refines.step (refines : Refines loop lists) (settled : lists.Settled) {op : TimerLoop.Op}
    (legal : loop.Legal op) (noRefresh : ∀ timer, op ≠ .refresh timer) :
    ∃ loop', loop.step op = some loop' ∧ Refines loop' (lists.step op) := by
  have agrees := refines.agrees
  have current_lists {timer : Nat} (running : loop.current = some timer) :
      timer ∉ lists.cells ∧ timer < lists.allocs := by
    rw [refines.current] at running
    obtain ⟨queued, -, fresh⟩ := (settled.1.takeCurrent running).outside
    exact ⟨queued, fresh⟩
  cases op with
  | add timestamp interval =>
      obtain ⟨queue', added, agrees', others⟩ := agrees.add settled.1 timestamp interval
      refine ⟨{ loop with queue := queue' }, ?_, agrees', refines.current, refines.doneTimer,
        fun timer running => ?_⟩
      · simp [TimerLoop.step, added]
      · obtain ⟨queued, fresh⟩ := current_lists running
        obtain ⟨next_eq, prev_eq⟩ := refines.unlinked timer running
        have kept := others timer fresh queued
        exact ⟨by rw [nexts, kept]; exact next_eq, by rw [prevs, kept]; exact prev_eq⟩
  | cancel timer =>
      obtain ⟨queue', cancelled, agrees', links⟩ := agrees.cancelInloop settled.1 legal
      have places : (lists.cancel timer).current = lists.current ∧
          (lists.cancel timer).done = lists.done := by
        unfold TimerLists.cancel
        split
        · exact ⟨rfl, rfl⟩
        · split <;> exact ⟨rfl, rfl⟩
      refine ⟨{ loop with queue := queue' }, ?_, agrees', refines.current.trans places.1.symm,
        refines.doneTimer.trans (congrArg List.head? places.2.symm), fun other running => ?_⟩
      · simp [TimerLoop.step, cancelled]
      · obtain ⟨queued, -⟩ := current_lists running
        obtain ⟨next_eq, prev_eq⟩ := refines.unlinked other running
        obtain ⟨next_same, prev_same⟩ := links other queued
        exact ⟨next_same.trans next_eq, prev_same.trans prev_eq⟩
  | refresh timer => exact absurd rfl (noRefresh timer)
  | process =>
      have idle : loop.walk = none := legal
      have current : lists.current = none := by
        rw [← refines.current, TimerLoop.current, idle]
        rfl
      obtain ⟨queue', walk, processed, refines'⟩ := agrees.processInloop settled current
      refine ⟨{ queue := queue', walk }, ?_, refines'⟩
      simp [TimerLoop.step, idle, processed]
  | callbackReturns =>
      obtain ⟨walk, running⟩ := Option.ne_none_iff_exists'.mp legal
      obtain ⟨queue', walk', returned, refines'⟩ := refines.afterCallback settled running
      refine ⟨{ queue := queue', walk := walk' }, ?_, refines'⟩
      simp [TimerLoop.step, running, returned]
  | tick clock =>
      refine ⟨{ loop with queue := { loop.queue with clock } }, rfl, ⟨agrees.bares, agrees.allocs,
        rfl, agrees.trace, agrees.holds.frame (fun _ _ => rfl) rfl rfl rfl (Nat.le_refl _),
        agrees.row⟩, refines.current, refines.doneTimer, refines.unlinked⟩

end Loop
end CommonLib
