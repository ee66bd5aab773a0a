import CommonLib.Library.Execution
import CommonLib.Net.TimerMoves
import CommonLib.Net.TimerRefine

/-!
# Refreshing a timer

`do_timer_queue_refresh` unlinks the timer from the list of the queue, wherever it is.  A timer
between two expired ones leaves their list as well, but the next expired timer, the last one and the
one whose callback runs do not.
-/

namespace CommonLib

open TimerQueue

/-! ## Unlinking -/

namespace TimerQueue

variable {queue : TimerQueue} {timer : Nat} {value : LoopTimer}

/-- Without a link the neighbours of a timer are not defined. -/
theorem removeTimerInloop_dangling (head_ne : queue.timerList ≠ some timer)
    (foot_ne : queue.timerListEnd ≠ some timer) (found : queue.timers timer = some value)
    (next : value.next = none) (prev_ne : value.prev ≠ some timer) :
    queue.removeTimerInloop timer = none := by
  rw [removeTimerInloop]
  simp only [found, Option.bind_eq_bind, Option.bind_some, if_neg head_ne, if_neg foot_ne]
  cases prev : value.prev with
  | none => rfl
  | some before =>
      have other : timer ≠ before := fun same => prev_ne (same ▸ prev)
      rw [Option.bind_some]
      cases foundBefore : queue.timers before with
      | none => simp [modify, foundBefore]
      | some beforeValue =>
          have kept : (queue.store before { beforeValue with next := none }).timers timer =
              some value := by
            rw [store_timers, Function.update_of_ne other, found]
          simp only [modify_eq foundBefore, Option.bind_some, next]
          rw [kept, Option.bind_some, next]
          rfl

end TimerQueue

namespace Agrees

variable {before : Option Nat} {queue : TimerQueue} {lists : TimerLists} {timer : Nat}
  {value : LoopTimer}

/-- A timer that is in none of the two lists gets its new timestamp and is inserted. -/
theorem reinsert (agrees : Agrees before queue lists) (found : queue.timers timer = some value)
    (queued : timer ∉ lists.cells) (expired : timer ∉ lists.done) (fresh : timer < queue.allocs)
    (apart : ∀ other ∈ lists.done, other ∉ lists.cells) :
    ∃ queue', ((queue.modify timer fun value =>
        { value with
          timestamp := queue.clock + value.interval.toUInt64
          prev := none, next := none }).bind fun queue => queue.insertTimerInloop timer) =
        some queue' ∧
      Agrees before queue' ((lists.modify timer fun value =>
        { value with timestamp := lists.clock + value.interval.toUInt64 }).insert timer) ∧
      ∀ other ∉ timer :: lists.cells, queue'.timers other = queue.timers other := by
  let value' : LoopTimer := { value with
    timestamp := queue.clock + value.interval.toUInt64
    prev := none
    next := none }
  have stored : Agrees before (queue.store timer value') (lists.modify timer fun value =>
      { value with timestamp := lists.clock + value.interval.toUInt64 }) := by
    refine agrees.store found queued expired ?_
    simp [value', LoopTimer.bare, agrees.clock]
  have foundStored : (queue.store timer value').timers timer = some value' :=
    Function.update_self ..
  obtain ⟨queue', inserted, agrees', others⟩ :=
    stored.insert foundStored queued expired fresh apart
  refine ⟨queue', ?_, agrees', fun other outside => ?_⟩
  · rw [modify_eq found]
    exact inserted
  · rw [others other outside]
    exact Function.update_of_ne (fun same => outside (by simp [same])) ..

/-- Links of timers outside the queue may change. -/
theorem relink {beforeTimer after : Nat}
    {beforeValue afterValue : LoopTimer} (agrees : Agrees before queue lists)
    (foundBefore : queue.timers beforeTimer = some beforeValue)
    (foundAfter : queue.timers after = some afterValue) (other_ne : after ≠ beforeTimer)
    (beforeOut : beforeTimer ∉ lists.cells) (afterOut : after ∉ lists.cells) {done : List Nat}
    {start : Option Nat}
    (row : DoubleChain
      ((queue.store beforeTimer { beforeValue with next := some after }).store after
        { afterValue with prev := some beforeTimer }).nexts
      ((queue.store beforeTimer { beforeValue with next := some after }).store after
        { afterValue with prev := some beforeTimer }).prevs start done none) :
    Agrees start ((queue.store beforeTimer { beforeValue with next := some after }).store after
      { afterValue with prev := some beforeTimer }) { lists with done } := by
  have foundAfter' : (queue.store beforeTimer { beforeValue with next := some after }).timers
      after = some afterValue := by
    rw [store_timers, Function.update_of_ne other_ne, foundAfter]
  have behind : LoopTimer.bare { afterValue with prev := some beforeTimer } = afterValue.bare := rfl
  have ahead : LoopTimer.bare { beforeValue with next := some after } = beforeValue.bare := rfl
  refine ⟨((bares_relink foundAfter' behind).trans (bares_relink foundBefore ahead)).trans
    agrees.bares, agrees.allocs, agrees.clock, agrees.trace,
    agrees.holds.frame (fun other member => ?_) rfl rfl rfl (Nat.le_refl _), row⟩
  · rw [store_timers, Function.update_of_ne (ne_of_mem_of_not_mem member afterOut), store_timers,
      Function.update_of_ne (ne_of_mem_of_not_mem member beforeOut)]

end Agrees

/-! ## The refresh in the loop thread -/

namespace TimerLoop

/-- Every timer is in one place: in its callback, among the expired timers whose turn is to come, or
in the queue, whose list is in order. -/
def Sound (loop : TimerLoop) : Prop :=
  ∃ done cells, loop.queue.Holds cells ∧ loop.walk.bind Walk.doneTimer = done.head? ∧
    DoubleChain loop.queue.nexts loop.queue.prevs loop.current done none ∧
    (loop.current.toList ++ done ++ cells).Nodup ∧
    ∀ timer, (loop.queue.timers timer).isSome ↔ timer ∈ loop.current.toList ++ done ++ cells

/-- Refreshing a timer is defined and leaves every timer in one place. -/
def RefreshedWell (loop : TimerLoop) (timer : Nat) : Prop :=
  ∃ loop', loop.step (.refresh timer) = some loop' ∧ loop'.Sound ∧
    ∀ other, (loop'.queue.timers other).isSome = (loop.queue.timers other).isSome

/-- The timer is not the one whose callback runs, not the next expired one and, unless it ends the
list of the queue, not without a successor. -/
def Refreshable (loop : TimerLoop) (timer : Nat) : Prop :=
  loop.current ≠ some timer ∧ loop.walk.bind Walk.doneTimer ≠ some timer ∧
    (loop.queue.nexts timer = none → loop.queue.timerListEnd = some timer)

instance (loop : TimerLoop) (timer : Nat) : Decidable (loop.Refreshable timer) :=
  inferInstanceAs (Decidable (_ ∧ _ ∧ (_ → _)))

end TimerLoop

open TimerLoop

/-- The lists that a state of the loop thread stands for when timers may have been refreshed. -/
structure Stands (loop : TimerLoop) (lists : TimerLists) : Prop where
  refines : Refines loop lists
  settled : lists.Settled
  waiting : lists.waiting = []

namespace Stands

variable {loop : TimerLoop} {lists : TimerLists} {timer : Nat} {value : LoopTimer}

theorem held_eq (stands : Stands loop lists) :
    lists.held = loop.current.toList ++ lists.done ++ lists.cells := by
  rw [TimerLists.held, stands.waiting, stands.refines.current, List.append_nil]

theorem sound (stands : Stands loop lists) : loop.Sound := by
  have agrees := stands.refines.agrees
  have nodup := stands.settled.1.nodup
  have allocated := stands.settled.1.allocated
  simp only [Option.toList_none, List.nil_append, stands.held_eq] at nodup allocated
  exact ⟨lists.done, lists.cells, agrees.holds, stands.refines.doneTimer, agrees.row, nodup,
    fun timer => by rw [agrees.isSome, allocated]⟩

/-- Where a timer can be that is refreshed. -/
theorem places (stands : Stands loop lists) (found : loop.queue.timers timer = some value) :
    loop.current = some timer ∨ (∃ front, lists.done = front ++ [timer]) ∨
      (∃ after back, lists.done = timer :: after :: back) ∨
      (∃ front before after back, lists.done = front ++ [before] ++ timer :: after :: back) ∨
      timer ∈ lists.cells := by
  have member := (stands.settled.1.allocated timer).mp
    (by simp [stands.refines.agrees.timers_eq found])
  rw [Option.toList_none, List.nil_append, stands.held_eq] at member
  rcases List.mem_append.mp member with outside | queued
  · rcases List.mem_append.mp outside with running | waits
    · exact .inl (by simpa using running)
    · obtain ⟨front, back, done_eq⟩ := List.append_of_mem waits
      cases back with
      | nil => exact .inr (.inl ⟨front, done_eq⟩)
      | cons after back =>
          cases front using List.reverseRecOn with
          | nil => exact .inr (.inr (.inl ⟨after, back, done_eq⟩))
          | append_singleton front before =>
              exact .inr (.inr (.inr (.inl ⟨front, before, after, back, done_eq⟩)))
  · exact .inr (.inr (.inr (.inr queued)))

theorem refresh_eq (found : loop.queue.timers timer = some value) (periodic : value.interval > 0)
    {removed queue' : TimerQueue} (removed_eq : loop.queue.removeTimerInloop timer = some removed)
    (inserted : ((removed.modify timer fun value =>
      { value with
        timestamp := removed.clock + value.interval.toUInt64
        prev := none, next := none }).bind fun queue => queue.insertTimerInloop timer) =
        some queue') :
    loop.step (.refresh timer) = some { loop with queue := queue' } := by
  simp only [TimerLoop.step, TimerQueue.refresh, found, Option.bind_eq_bind, Option.bind_some,
    if_pos periodic, doTimerQueueRefresh, removed_eq, inserted]
  rfl

theorem refresh_none (found : loop.queue.timers timer = some value) (periodic : value.interval > 0)
    (fails : loop.queue.removeTimerInloop timer = none) : loop.step (.refresh timer) = none := by
  simp only [TimerLoop.step, TimerQueue.refresh, found, Option.bind_eq_bind, Option.bind_some,
    if_pos periodic, doTimerQueueRefresh, fails, Option.bind_none]

/-- Once the timer is out of both lists, it is inserted. -/
theorem refresh_of_removed (stands : Stands loop lists)
    (found : loop.queue.timers timer = some value) (periodic : value.interval > 0)
    (member : timer ∈ lists.done ++ lists.cells) {removed : TimerQueue}
    (removed_eq : loop.queue.removeTimerInloop timer = some removed)
    (agrees : Agrees loop.current removed
      { lists with cells := lists.cells.erase timer, done := lists.done.erase timer })
    (foundRemoved : removed.timers timer = some value)
    (doneTimer : lists.done.head? = (lists.done.erase timer).head?)
    (unlinked : ∀ other, loop.current = some other → removed.timers other = loop.queue.timers other) :
    ∃ loop', loop.step (.refresh timer) = some loop' ∧ Stands loop' (lists.refresh timer) := by
  have taken := stands.settled.1.takeOut member
  obtain ⟨queued, expired, fresh⟩ := taken.outside
  obtain ⟨queue', inserted, agrees', others⟩ := agrees.reinsert foundRemoved queued expired
    (agrees.allocs ▸ fresh) taken.apart
  have foundBare := stands.refines.agrees.timers_eq found
  have lists_eq : lists.refresh timer =
      (({ lists with
        cells := lists.cells.erase timer
        done := lists.done.erase timer }.modify timer fun value =>
          { value with timestamp := lists.clock + value.interval.toUInt64 }).insert timer) := by
    rw [TimerLists.refresh, foundBare]
    dsimp only
    rw [if_pos (show value.bare.interval > 0 from periodic)]
    simp [TimerLists.modify, foundBare]
  have places : (lists.refresh timer).current = lists.current ∧
      (lists.refresh timer).done = lists.done.erase timer ∧ (lists.refresh timer).waiting = [] := by
    rw [lists_eq]
    exact ⟨rfl, rfl, stands.waiting⟩
  rw [← lists_eq] at agrees'
  refine ⟨{ loop with queue := queue' }, refresh_eq found periodic removed_eq inserted,
    ⟨agrees', stands.refines.current.trans places.1.symm, ?_, fun other running => ?_⟩,
    stands.settled.refresh member, places.2.2⟩
  · rw [places.2.1, ← doneTimer]
    exact stands.refines.doneTimer
  · have running : loop.current = some other := running
    have outside : other ∉ timer :: lists.cells.erase timer := by
      have apart := (stands.settled.1.takeCurrent (stands.refines.current ▸ running)).outside
      have other_ne : other ≠ timer := by
        rintro rfl
        exact (List.mem_append.mp member).elim apart.2.1 apart.1
      simp only [List.mem_cons, not_or]
      exact ⟨other_ne, fun inside => apart.1 (List.mem_of_mem_erase inside)⟩
    have kept : queue'.timers other = loop.queue.timers other :=
      (others other outside).trans (unlinked other running)
    obtain ⟨next_eq, prev_eq⟩ := stands.refines.unlinked other running
    exact ⟨by rw [nexts, kept]; exact next_eq, by rw [prevs, kept]; exact prev_eq⟩

/-- A queued timer is refreshed. -/
theorem refresh_queued (stands : Stands loop lists) (found : loop.queue.timers timer = some value)
    (periodic : value.interval > 0) (member : timer ∈ lists.cells) :
    ∃ loop', loop.step (.refresh timer) = some loop' ∧ Stands loop' (lists.refresh timer) := by
  have agrees := stands.refines.agrees
  have apart := stands.settled.1.apart
  have absent : timer ∉ lists.done := fun waits => apart timer waits member
  obtain ⟨removed, removed_eq, agrees', others⟩ := agrees.remove member apart
  have same : lists.done.erase timer = lists.done := List.erase_of_not_mem absent
  have outside : timer ∉ lists.cells.erase timer := fun inside =>
    ((List.Nodup.mem_erase_iff agrees.holds.nodup).mp inside).1 rfl
  refine stands.refresh_of_removed found periodic (List.mem_append_right _ member) removed_eq
    (by rw [same]; exact agrees') ((others timer outside).trans found) (congrArg _ same.symm) ?_
  intro other running
  have apart := (stands.settled.1.takeCurrent (stands.refines.current ▸ running)).outside
  exact others other fun inside => apart.1 (List.mem_of_mem_erase inside)

theorem not_ends (stands : Stands loop lists) (absent : timer ∉ lists.cells) :
    loop.queue.timerList ≠ some timer ∧ loop.queue.timerListEnd ≠ some timer := by
  have holds := stands.refines.agrees.holds
  constructor
  · rw [holds.head]
    exact fun same => absent (List.mem_of_mem_head? same)
  · rw [holds.last]
    exact fun same => absent (List.mem_of_getLast? same)

/-- Unlinking an expired timer with another one behind it; `before` may be the running one. -/
theorem unlink_expired (stands : Stands loop lists) (found : loop.queue.timers timer = some value)
    {front back : List Nat} {before after : Nat}
    (done_eq : lists.done = front ++ timer :: after :: back)
    (before_eq : front.getLast?.or loop.current = some before) :
    ∃ beforeValue afterValue, loop.queue.timers before = some beforeValue ∧
      loop.queue.timers after = some afterValue ∧ (before ≠ timer ∧ after ≠ timer ∧ after ≠ before) ∧
      (before ∉ lists.cells ∧ after ∉ lists.cells) ∧
      loop.queue.removeTimerInloop timer =
        some ((loop.queue.store before { beforeValue with next := some after }).store after
          { afterValue with prev := some before }) := by
  have agrees := stands.refines.agrees
  have apart := stands.settled.1.apart
  have row := agrees.row
  rw [done_eq] at row
  have behind := row.prev_eq
  have ahead := row.next_eq
  rw [prevs_eq found, before_eq] at behind
  rw [nexts_eq found, List.head?_cons, Option.some_or] at ahead
  have nodup : ((loop.current.toList ++ front) ++ timer :: after :: (back ++ lists.cells)).Nodup := by
    have nodup := stands.settled.1.nodup
    rw [Option.toList_none, List.nil_append, stands.held_eq, done_eq] at nodup
    simpa only [List.append_assoc, List.cons_append] using nodup
  obtain ⟨-, tail, across⟩ := List.nodup_append.mp nodup
  have before_mem : before ∈ loop.current.toList ++ front := by
    refine List.mem_of_getLast? ?_
    rw [List.getLast?_append, ← before_eq]
    cases loop.current <;> rfl
  have before_ne {other : Nat} (member : other ∈ timer :: after :: (back ++ lists.cells)) :
      before ≠ other := across before before_mem other member
  obtain ⟨timer_apart, tail⟩ := List.nodup_cons.mp tail
  have after_apart := (List.nodup_cons.mp tail).1
  have beforeOut : before ∉ lists.cells := fun inside => before_ne (by simp [inside]) rfl
  have afterOut : after ∉ lists.cells := fun inside => after_apart (by simp [inside])
  have timerOut : timer ∉ lists.cells := fun inside => timer_apart (by simp [inside])
  have after_ne : after ≠ timer := fun same => timer_apart (by simp [same])
  have other_ne : after ≠ before := (before_ne (by simp)).symm
  have allocated {other : Nat} (member : other ∈ loop.current.toList ++ lists.done) :
      ∃ value, loop.queue.timers other = some value := by
    rw [← Option.isSome_iff_exists, agrees.isSome, stands.settled.1.allocated]
    rw [Option.toList_none, List.nil_append, stands.held_eq]
    exact List.mem_append_left _ member
  have before_done : before ∈ loop.current.toList ++ lists.done := by
    rw [done_eq, ← List.append_assoc]
    exact List.mem_append_left _ before_mem
  have after_done : after ∈ loop.current.toList ++ lists.done := by
    simp [done_eq]
  obtain ⟨beforeValue, foundBefore⟩ := allocated before_done
  obtain ⟨afterValue, foundAfter⟩ := allocated after_done
  obtain ⟨head_ne, foot_ne⟩ := stands.not_ends timerOut
  exact ⟨beforeValue, afterValue, foundBefore, foundAfter,
    ⟨before_ne (by simp), after_ne, other_ne⟩, ⟨beforeOut, afterOut⟩,
    removeTimerInloop_middle head_ne foot_ne found behind ahead foundBefore foundAfter
      (before_ne (by simp)) other_ne⟩

/-- A timer between two expired ones is refreshed. -/
theorem refresh_between (stands : Stands loop lists) (found : loop.queue.timers timer = some value)
    (periodic : value.interval > 0) {front back : List Nat} {before after : Nat}
    (done_eq : lists.done = front ++ [before] ++ timer :: after :: back) :
    ∃ loop', loop.step (.refresh timer) = some loop' ∧ Stands loop' (lists.refresh timer) := by
  have agrees := stands.refines.agrees
  have apart := stands.settled.1.apart
  have before_eq : (front ++ [before]).getLast?.or loop.current = some before := by
    simp
  obtain ⟨beforeValue, afterValue, foundBefore, foundAfter, ⟨before_ne, after_ne, other_ne⟩,
    ⟨beforeOut, afterOut⟩, removed_eq⟩ := stands.unlink_expired found done_eq before_eq
  have nodup : lists.done.Nodup := stands.settled.1.nodup.sublist lists.done_sublist_held
  rw [done_eq] at nodup
  have erase_eq : lists.done.erase timer = front ++ [before] ++ after :: back := by
    obtain ⟨absent, -⟩ := List.nodup_cons.mp (List.nodup_middle.mp nodup)
    rw [done_eq, List.erase_append_right _ (fun member => absent (List.mem_append_left _ member)),
      List.erase_cons_head]
  have member : timer ∈ lists.done := by simp [done_eq]
  have same : lists.cells.erase timer = lists.cells := List.erase_of_not_mem (apart timer member)
  have row := agrees.row
  rw [done_eq] at row
  have sublist : (front ++ [before] ++ after :: back).Sublist
      (front ++ [before] ++ timer :: after :: back) :=
    (List.sublist_cons_self timer (after :: back)).append_left _
  have agrees' := agrees.relink foundBefore foundAfter other_ne beforeOut afterOut
    (unlink_row row (nodup.sublist sublist) foundBefore foundAfter other_ne)
  have kept {other : Nat} (before_ne : other ≠ before) (after_ne : other ≠ after) :
      ((loop.queue.store before { beforeValue with next := some after }).store after
        { afterValue with prev := some before }).timers other = loop.queue.timers other := by
    rw [store_timers, Function.update_of_ne after_ne, store_timers, Function.update_of_ne before_ne]
  refine stands.refresh_of_removed found periodic (List.mem_append_left _ member) removed_eq
    (by rw [same, erase_eq]; exact agrees') ((kept before_ne.symm after_ne.symm).trans found) ?_ ?_
  · rw [erase_eq, done_eq, List.append_assoc, List.append_assoc]
    cases front <;> rfl
  · intro other running
    have outside := stands.settled.1.not_done_of_current (stands.refines.current ▸ running)
    refine kept ?_ ?_
    · rintro rfl
      exact outside (by simp [done_eq])
    · rintro rfl
      exact outside (by simp [done_eq])

/-- The next expired timer leaves the list, but its turn comes all the same. -/
theorem refresh_next (stands : Stands loop lists) (found : loop.queue.timers timer = some value)
    (periodic : value.interval > 0) {back : List Nat} {after : Nat}
    (done_eq : lists.done = timer :: after :: back) : ¬ loop.RefreshedWell timer := by
  have agrees := stands.refines.agrees
  have running : ∃ current, loop.current = some current := by
    cases idle : loop.current with
    | some current => exact ⟨current, rfl⟩
    | none =>
        have settled := stands.settled.2 (stands.refines.current ▸ idle)
        rw [done_eq] at settled
        cases settled
  obtain ⟨current, running⟩ := running
  obtain ⟨currentValue, afterValue, foundCurrent, foundAfter, ⟨current_ne, after_ne, other_ne⟩,
    ⟨currentOut, afterOut⟩, removed_eq⟩ :=
    stands.unlink_expired found (show lists.done = [] ++ timer :: after :: back from done_eq) running
  have removed : Agrees none _ { lists with done := [] } :=
    agrees.relink foundCurrent foundAfter other_ne currentOut afterOut trivial
  have foundRemoved : ((loop.queue.store current { currentValue with next := some after }).store
      after { afterValue with prev := some current }).timers timer = some value := by
    rw [store_timers, Function.update_of_ne after_ne.symm, store_timers,
      Function.update_of_ne current_ne.symm, found]
  have member : timer ∈ lists.done := by simp [done_eq]
  have queued : timer ∉ lists.cells := stands.settled.1.apart timer member
  have fresh : timer < loop.queue.allocs := by
    rw [agrees.allocs]
    exact stands.settled.1.below timer (lists.done_sublist_held.subset member)
  obtain ⟨queue', inserted, agrees', -⟩ :=
    removed.reinsert foundRemoved queued (by simp) fresh (by simp)
  rintro ⟨loop', step_eq, ⟨done, cells, holds, doneTimer, -, nodup, -⟩, -⟩
  obtain rfl := Option.some.inj ((refresh_eq found periodic removed_eq inserted).symm.trans step_eq)
  have inside : timer ∈ cells := by
    rw [holds.unique agrees'.holds, TimerLists.insert_cells]
    simp
  have waits : timer ∈ done := by
    refine List.mem_of_mem_head? (doneTimer.symm.trans ?_)
    exact stands.refines.doneTimer.trans (by rw [done_eq, List.head?_cons])
  exact (List.nodup_append.mp nodup).2.2 timer (List.mem_append_right _ waits) timer inside rfl

/-- The last expired timer has no successor. -/
theorem refresh_last (stands : Stands loop lists) (found : loop.queue.timers timer = some value)
    (periodic : value.interval > 0) {front : List Nat} (done_eq : lists.done = front ++ [timer]) :
    loop.step (.refresh timer) = none := by
  have member : timer ∈ lists.done := by simp [done_eq]
  obtain ⟨head_ne, foot_ne⟩ := stands.not_ends (stands.settled.1.apart timer member)
  have row := stands.refines.agrees.row
  rw [done_eq] at row
  have behind := row.prev_eq
  have ahead := row.next_eq
  rw [prevs_eq found] at behind
  rw [nexts_eq found, List.head?_nil, Option.or_none] at ahead
  refine refresh_none found periodic (removeTimerInloop_dangling head_ne foot_ne found ahead ?_)
  rw [behind]
  have nodup : lists.done.Nodup := stands.settled.1.nodup.sublist lists.done_sublist_held
  rw [done_eq, List.nodup_append] at nodup
  cases last : front.getLast? with
  | some other =>
      rintro same
      obtain rfl := Option.some.inj same
      exact nodup.2.2 other (List.mem_of_getLast? last) other (by simp) rfl
  | none =>
      rintro running
      rw [Option.none_or, stands.refines.current] at running
      exact stands.settled.1.not_done_of_current running member

/-- The timer whose callback runs has no neighbours. -/
theorem refresh_current (stands : Stands loop lists) (found : loop.queue.timers timer = some value)
    (periodic : value.interval > 0) (running : loop.current = some timer) :
    loop.step (.refresh timer) = none := by
  have apart := (stands.settled.1.takeCurrent (stands.refines.current ▸ running)).outside
  obtain ⟨head_ne, foot_ne⟩ := stands.not_ends apart.1
  obtain ⟨next_eq, prev_eq⟩ := stands.refines.unlinked timer running
  rw [nexts_eq found] at next_eq
  rw [prevs_eq found] at prev_eq
  refine refresh_none found periodic (removeTimerInloop_dangling head_ne foot_ne found next_eq ?_)
  simp [prev_eq]

theorem refresh_isSome (lists : TimerLists) (timer other : Nat) :
    ((lists.refresh timer).timers other).isSome = (lists.timers other).isSome := by
  unfold TimerLists.refresh
  split
  · rfl
  split
  · rw [TimerLists.insert, TimerLists.record_timers]
    exact (TimerLists.modify_isSome _ _ _ _).trans (TimerLists.modify_isSome _ _ _ _)
  · rfl

theorem refreshedWell_of_step (stands : Stands loop lists)
    (refreshed : ∃ loop', loop.step (.refresh timer) = some loop' ∧
      Stands loop' (lists.refresh timer)) : loop.RefreshedWell timer := by
  obtain ⟨loop', step_eq, stands'⟩ := refreshed
  refine ⟨loop', step_eq, stands'.sound, fun other => ?_⟩
  rw [stands'.refines.agrees.isSome, stands.refines.agrees.isSome, refresh_isSome]

theorem refreshable_queued (stands : Stands loop lists) (member : timer ∈ lists.cells) :
    loop.Refreshable timer := by
  have holds := stands.refines.agrees.holds
  refine ⟨fun running => ?_, fun next => ?_, fun ends => ?_⟩
  · exact (stands.settled.1.takeCurrent (stands.refines.current ▸ running)).outside.1 member
  · rw [stands.refines.doneTimer] at next
    exact stands.settled.1.apart timer (List.mem_of_mem_head? next) member
  · obtain ⟨front, back, cells_eq⟩ := List.append_of_mem member
    have row := holds.row
    rw [cells_eq] at row
    have ahead := row.next_eq
    rw [ends, Option.or_none] at ahead
    rw [holds.last, cells_eq, List.head?_eq_none_iff.mp ahead.symm]
    simp

theorem refreshable_between (stands : Stands loop lists) {front back : List Nat}
    {before after : Nat} (done_eq : lists.done = front ++ [before] ++ timer :: after :: back) :
    loop.Refreshable timer := by
  have nodup : lists.done.Nodup := stands.settled.1.nodup.sublist lists.done_sublist_held
  have row := stands.refines.agrees.row
  rw [done_eq] at row
  refine ⟨fun running => ?_, fun next => ?_, fun ends => ?_⟩
  · exact stands.settled.1.not_done_of_current (stands.refines.current ▸ running) (by simp [done_eq])
  · rw [stands.refines.doneTimer] at next
    refine DoubleChain.head?_ne_of_mem_tail nodup ?_ next
    rw [done_eq]
    cases front <;> simp
  · have ahead := row.next_eq
    rw [ends] at ahead
    cases ahead

/-- A timer is refreshed well if it is queued or between two expired ones, and not otherwise. -/
theorem refresh_cases (stands : Stands loop lists) (found : loop.queue.timers timer = some value)
    (periodic : value.interval > 0) :
    loop.Refreshable timer ∧
        (∃ loop', loop.step (.refresh timer) = some loop' ∧ Stands loop' (lists.refresh timer)) ∨
      ¬ loop.Refreshable timer ∧ ¬ loop.RefreshedWell timer := by
  have undefined (fails : loop.step (.refresh timer) = none) : ¬ loop.RefreshedWell timer := by
    rintro ⟨loop', step_eq, -⟩
    simp [fails] at step_eq
  rcases stands.places found with running | ⟨front, done_eq⟩ | ⟨after, back, done_eq⟩ |
    ⟨front, before, after, back, done_eq⟩ | member
  · refine .inr ⟨?_, undefined (stands.refresh_current found periodic running)⟩
    exact fun refreshable => refreshable.1 running
  · refine .inr ⟨?_, undefined (stands.refresh_last found periodic done_eq)⟩
    rintro ⟨-, -, ends⟩
    have row := stands.refines.agrees.row
    rw [done_eq] at row
    have absent : timer ∉ lists.cells := stands.settled.1.apart timer (by simp [done_eq])
    exact (stands.not_ends absent).2 (ends row.next_eq)
  · refine .inr ⟨?_, stands.refresh_next found periodic done_eq⟩
    rintro ⟨-, next_ne, -⟩
    exact next_ne (stands.refines.doneTimer.trans (by rw [done_eq, List.head?_cons]))
  · exact .inl ⟨stands.refreshable_between done_eq,
      stands.refresh_between found periodic done_eq⟩
  · exact .inl ⟨stands.refreshable_queued member, stands.refresh_queued found periodic member⟩

theorem refreshedWell_iff (stands : Stands loop lists)
    (found : loop.queue.timers timer = some value) (periodic : value.interval > 0) :
    loop.RefreshedWell timer ↔ loop.Refreshable timer := by
  rcases stands.refresh_cases found periodic with ⟨refreshable, refreshed⟩ | ⟨not_refreshable, bad⟩
  · exact iff_of_true (stands.refreshedWell_of_step refreshed) refreshable
  · exact iff_of_false bad not_refreshable

end Stands

/-! ## Runs -/

open Execution

namespace TimerLoop

/-- A refresh is made only where it is defined. -/
def Careful (loop : TimerLoop) : Op → Prop
  | .refresh timer => loop.Refreshable timer ∨
      ∀ value ∈ loop.queue.timers timer, ¬ value.interval > 0
  | _ => True

instance (loop : TimerLoop) : (op : Op) → Decidable (loop.Careful op)
  | .refresh _ => inferInstanceAs (Decidable (_ ∨ _))
  | .add _ _ => isTrue trivial
  | .cancel _ => isTrue trivial
  | .process => isTrue trivial
  | .callbackReturns => isTrue trivial
  | .tick _ => isTrue trivial

end TimerLoop

theorem Stands.create (clock : UInt64) : Stands (.create clock) (.create clock) :=
  ⟨.create clock, .create clock, rfl⟩

theorem Stands.step {loop : TimerLoop} {lists : TimerLists} (stands : Stands loop lists) {op : Op}
    (legal : loop.Legal op) (careful : loop.Careful op) :
    ∃ loop' lists', loop.step op = some loop' ∧ Stands loop' lists' := by
  by_cases refreshed : ∃ timer, op = .refresh timer
  · obtain ⟨timer, rfl⟩ := refreshed
    obtain ⟨value, found⟩ := Option.isSome_iff_exists.mp legal
    by_cases periodic : value.interval > 0
    · have refreshable : loop.Refreshable timer :=
        careful.resolve_right fun none => none value found periodic
      rcases stands.refresh_cases found periodic with ⟨-, loop', step_eq, stands'⟩ | ⟨bad, -⟩
      · exact ⟨loop', _, step_eq, stands'⟩
      · exact absurd refreshable bad
    · refine ⟨loop, lists, ?_, stands⟩
      simp only [TimerLoop.step, TimerQueue.refresh, found, Option.bind_eq_bind, Option.bind_some,
        if_neg periodic]
      rfl
  · have noRefresh : ∀ timer, op ≠ .refresh timer := fun timer same => refreshed ⟨timer, same⟩
    obtain ⟨loop', step_eq, refines⟩ := stands.refines.step stands.settled legal noRefresh
    have idle : op = .process → lists.current = none := by
      rintro rfl
      have idle : loop.walk = none := legal
      rw [← stands.refines.current, TimerLoop.current, idle]
      rfl
    exact ⟨loop', _, step_eq, refines, stands.settled.step idle noRefresh,
      (stands.settled.step_waiting idle noRefresh).trans stands.waiting⟩

/-- While every refresh is made where it is defined, every timer is in one place, and there a
further refresh is defined and keeps every timer in one place exactly if the timer is neither the
one whose callback runs nor the next nor the last of the expired ones. -/
theorem timer_queue_refresh_iff (clock : UInt64) (ops : List Op)
    (legal : Admissible TimerLoop.step (fun loop op => loop.Legal op ∧ loop.Careful op)
      (.create clock) ops) :
    ∃ loop, Execution.run TimerLoop.step (.create clock) ops = some loop ∧ loop.Sound ∧
      ∀ timer value, loop.queue.timers timer = some value → value.interval > 0 →
        (loop.RefreshedWell timer ↔ loop.Refreshable timer) := by
  have total {state : TimerLoop} {op : Op} (stands : ∃ lists, Stands state lists)
      (allowed : state.Legal op ∧ state.Careful op) :
      ∃ next, state.step op = some next ∧ ∃ lists, Stands next lists := by
    obtain ⟨lists, stands⟩ := stands
    obtain ⟨next, lists', step_eq, stands'⟩ := stands.step allowed.1 allowed.2
    exact ⟨next, step_eq, lists', stands'⟩
  obtain ⟨loop, execution, lists, stands⟩ :=
    exists_run_of_admissible _ total ⟨_, Stands.create clock⟩ legal
  exact ⟨loop, execution, stands.sound, fun timer value found periodic =>
    stands.refreshedWell_iff found periodic⟩

/-- A queued timer is refreshed, then one between two expired ones. -/
theorem timer_queue_refresh_iff_queued :
    ∃ loop, Execution.run TimerLoop.step (.create 0)
      [.add 1 5, .add 2 5, .add 3 5, .add 4 5, .tick 1, .refresh 0, .tick 9, .process,
        .refresh 3] = some loop ∧ loop.Sound := by
  obtain ⟨loop, execution, sound, -⟩ := timer_queue_refresh_iff 0
    [.add 1 5, .add 2 5, .add 3 5, .add 4 5, .tick 1, .refresh 0, .tick 9, .process,
      .refresh 3] (by decide)
  exact ⟨loop, execution, sound⟩

/-- A timer that refreshes itself in its callback has no neighbours. -/
theorem timer_queue_refresh_in_callback :
    ¬ ∀ (clock : UInt64) (ops : List Op) (loop : TimerLoop) (timer : Nat) (value : LoopTimer),
      Admissible TimerLoop.step TimerLoop.Legal (.create clock) ops →
      Execution.run TimerLoop.step (.create clock) ops = some loop →
      loop.queue.timers timer = some value → value.isAlive = true → value.interval > 0 →
        loop.RefreshedWell timer := by
  intro every
  let ops : List Op := [.add 0 5, .process]
  let value : LoopTimer :=
    { timestamp := 0, interval := 5, isInCallback := true, isAlive := true, isExpired := true,
      isInQueue := true, prev := none, next := none }
  have facts : (Execution.run TimerLoop.step (.create 0) ops).any (fun loop =>
      loop.queue.timers 0 = some value ∧ (loop.step (.refresh 0)).isNone) = true := by decide
  obtain ⟨loop, execution, here⟩ := (Option.any_eq_true _ _).mp facts
  obtain ⟨found, fails⟩ := of_decide_eq_true here
  obtain ⟨loop', step_eq, -⟩ := every 0 ops loop 0 value (by decide) execution found rfl (by decide)
  rw [step_eq] at fails
  cases fails

end CommonLib
