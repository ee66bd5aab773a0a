import CommonLib.Net.TimerLists
import Mathlib.Logic.Relation

/-!
# What a step does to the timers

Every step of the loop thread is a sequence of moves of single timers, except for the cut of the due
timers at the start of `timer_queue_process_inloop`.  A property of the lists that every move keeps
is kept by the steps.
-/

namespace CommonLib.TimerLists

open Relation

/-- A timer is added, cancelled, put back or freed after its callback, skipped or called. -/
inductive Move : TimerLists → TimerLists → Prop
  | add (lists : TimerLists) (timestamp : UInt64) (interval : UInt32) :
      Move lists (lists.add timestamp interval)
  | mark {lists : TimerLists} {timer : Nat} {value : LoopTimer}
      (found : lists.timers timer = some value)
      (held : ¬ (value.isInCallback = false ∧ value.isExpired = false ∧ value.isInQueue = true)) :
      Move lists ((lists.record (.cancelled timer)).modify timer ({ · with isAlive := false }))
  | unqueue {lists : TimerLists} {timer : Nat} {value : LoopTimer}
      (found : lists.timers timer = some value) (member : timer ∈ lists.cells) :
      Move lists
        (({ lists with cells := lists.cells.erase timer }.record (.cancelled timer)).free timer)
  | reinsert {lists : TimerLists} {timer : Nat} {value : LoopTimer}
      (running : lists.current = some timer) (found : lists.timers timer = some value)
      (periodic : value.isAlive = true ∧ value.interval ≠ 0) :
      Move lists (({ lists with current := none }.modify timer fun value =>
        { value with
          timestamp := value.timestamp + value.interval.toUInt64
          isInCallback := false
          isExpired := false }).insert timer)
  | release {lists : TimerLists} {timer : Nat} {value : LoopTimer}
      (running : lists.current = some timer) (found : lists.timers timer = some value)
      (last : ¬ (value.isAlive = true ∧ value.interval ≠ 0)) :
      Move lists ({ lists with current := none }.free timer)
  | skip {lists : TimerLists} {timer : Nat} {value : LoopTimer} {done : List Nat}
      (idle : lists.current = none) (done_eq : lists.done = timer :: done)
      (found : lists.timers timer = some value) (dead : value.isAlive = false) :
      Move lists (({ lists with done }.record (.turn timer)).free timer)
  | call {lists : TimerLists} {timer : Nat} {value : LoopTimer} {done : List Nat}
      (idle : lists.current = none) (done_eq : lists.done = timer :: done)
      (found : lists.timers timer = some value) (alive : value.isAlive = true) :
      Move lists ((({ lists with current := some timer, done }.record (.turn timer)).modify timer
        ({ · with isInCallback := true })).record (.called timer))
  | tick (lists : TimerLists) (clock : UInt64) : Move lists { lists with clock }

variable {lists lists' : TimerLists}

theorem modify_modify (lists : TimerLists) (timer : Nat) (change change' : LoopTimer → LoopTimer) :
    (lists.modify timer change).modify timer change' = lists.modify timer (change' ∘ change) := by
  simp [modify, Function.update_idem]

theorem modify_free (lists : TimerLists) (timer : Nat) (change : LoopTimer → LoopTimer) :
    (lists.modify timer change).free timer = lists.free timer := by
  simp [modify, free, record, Function.update_idem]

/-- A move of the current timer is what `retire` does. -/
theorem callback_returns_eq {timer : Nat} {value : LoopTimer}
    (found : lists.timers timer = some value) :
    ({ lists with current := none }.modify timer ({ · with isInCallback := false })).retire timer =
      if value.isAlive = true ∧ value.interval ≠ 0 then
        ({ lists with current := none }.modify timer fun value =>
          { value with
            timestamp := value.timestamp + value.interval.toUInt64
            isInCallback := false
            isExpired := false }).insert timer
      else { lists with current := none }.free timer := by
  have found' : ({ lists with current := none }.modify timer
      ({ · with isInCallback := false })).timers timer =
        some { value with isInCallback := false } := by
    simp [modify, found]
  split
  · next periodic =>
    rw [retire_periodic found' periodic, modify_modify]
    rfl
  · next last => rw [retire_last found' last, modify_free]

theorem Move.wellFormed (wellFormed : WellFormed none lists) (move : Move lists lists') :
    WellFormed none lists' := by
  cases move with
  | add timestamp interval => exact (wellFormed.alloc timestamp interval).insert
  | @mark timer value found held =>
      exact (wellFormed.record (.cancelled timer)).modify timer (fun _ => rfl)
        (fun _ _ marked => marked) fun _ => rfl
  | @unqueue timer value found member =>
      have taken := wellFormed.takeOut (List.mem_append_right lists.done member)
      rw [List.erase_of_not_mem fun waits => wellFormed.apart timer waits member] at taken
      exact (taken.record (.cancelled timer)).free
  | @reinsert timer value running found periodic =>
      have taken := wellFormed.takeCurrent running
      have retired := taken.retire
        ⟨wellFormed.not_done_of_current running, by simp [TimerLists.modify]⟩
      rwa [callback_returns_eq found, if_pos periodic] at retired
  | @release timer value running found last =>
      have taken := wellFormed.takeCurrent running
      have retired := taken.retire
        ⟨wellFormed.not_done_of_current running, by simp [TimerLists.modify]⟩
      rwa [callback_returns_eq found, if_neg last] at retired
  | @skip timer value done idle done_eq found dead =>
      exact ((wellFormed.takeDone done_eq).record (.turn timer)).free
  | @call timer value done idle done_eq found alive =>
      have served := (wellFormed.serve idle done_eq).1
      rwa [serve_alive found alive] at served
  | tick clock =>
      refine ⟨wellFormed.nodup, wellFormed.allocated, wellFormed.below, fun timer value found => ?_⟩
      obtain ⟨inCallback, expired, inQueue⟩ := wellFormed.flags timer value found
      exact ⟨inCallback, expired, inQueue⟩

/-- What every move keeps is kept by a sequence of moves. -/
theorem moves_invariant {invariant : TimerLists → Prop}
    (kept : ∀ {lists lists'}, WellFormed none lists → invariant lists → Move lists lists' →
      invariant lists')
    (moves : ReflTransGen Move lists lists') (wellFormed : WellFormed none lists)
    (start : invariant lists) : WellFormed none lists' ∧ invariant lists' := by
  induction moves with
  | refl => exact ⟨wellFormed, start⟩
  | tail _ last induction =>
      obtain ⟨wellFormed, met⟩ := induction
      exact ⟨last.wellFormed wellFormed, kept wellFormed met last⟩

theorem serve_moves {done : List Nat} (wellFormed : WellFormed none lists)
    (idle : lists.current = none) (done_eq : lists.done = done) :
    ReflTransGen Move lists (serve done lists) := by
  induction done generalizing lists with
  | nil =>
      rw [serve, ← done_eq]
  | cons timer done induction =>
      obtain ⟨value, found⟩ := wellFormed.found (by simp [held, done_eq] : timer ∈ _)
      cases alive : value.isAlive with
      | false =>
          have move := Move.skip idle done_eq found alive
          rw [serve_dead found alive]
          exact .head move (induction (move.wellFormed wellFormed) idle rfl)
      | true =>
          rw [serve_alive found alive]
          exact .single (Move.call idle done_eq found alive)

/-- The loop of `timer_queue_process_inloop` moves the timers that were cut off. -/
theorem process_moves (settled : lists.Settled) (idle : lists.current = none) :
    ReflTransGen Move lists.cutDue lists.process :=
  serve_moves (settled.1.cutDue idle (settled.2 idle)) idle rfl

open TimerLoop in
/-- The other steps are moves. -/
theorem step_moves (settled : lists.Settled) {op : Op} (noProcess : op ≠ .process)
    (noRefresh : ∀ timer, op ≠ .refresh timer) :
    ReflTransGen Move lists (lists.step op) := by
  cases op with
  | add timestamp interval => exact .single (.add lists timestamp interval)
  | cancel timer =>
      change ReflTransGen Move lists (lists.cancel timer)
      cases found : lists.timers timer with
      | none =>
          rw [cancel, found]
      | some value =>
          by_cases queued :
              value.isInCallback = false ∧ value.isExpired = false ∧ value.isInQueue = true
          · rw [cancel_queued found queued]
            exact .single (.unqueue found (settled.1.mem_cells found queued.2.1 queued.2.2))
          · rw [cancel_held found queued]
            exact .single (.mark found queued)
  | refresh timer => exact absurd rfl (noRefresh timer)
  | process => exact absurd rfl noProcess
  | callbackReturns =>
      change ReflTransGen Move lists lists.callbackReturns
      cases running : lists.current with
      | none => rw [callbackReturns, running]
      | some timer =>
          obtain ⟨value, found⟩ := settled.1.found (by simp [held, running] : timer ∈ _)
          have apart := settled.1.not_done_of_current running
          have retired := (settled.1.takeCurrent running).retire ⟨apart, by simp [modify]⟩
          obtain ⟨current_eq, done_eq, -⟩ := retire_places
            ({ lists with current := none }.modify timer ({ · with isInCallback := false })) timer
          have served := serve_moves retired current_eq done_eq
          rw [callbackReturns, running]
          refine .head ?_ served
          rw [callback_returns_eq found]
          split
          · next periodic => exact .reinsert running found periodic
          · next last => exact .release running found last
  | tick clock => exact .single (.tick lists clock)

open TimerLoop in
theorem Settled.step (settled : lists.Settled) {op : Op}
    (idle : op = .process → lists.current = none) (noRefresh : ∀ timer, op ≠ .refresh timer) :
    (lists.step op).Settled := by
  cases op with
  | add timestamp interval => exact settled.add timestamp interval
  | cancel timer => exact settled.cancel timer
  | refresh timer => exact absurd rfl (noRefresh timer)
  | process => exact settled.process (idle rfl)
  | callbackReturns => exact settled.callbackReturns
  | tick clock => exact ⟨(Move.tick lists clock).wellFormed settled.1, settled.2⟩

theorem Move.waiting (move : Move lists lists') : lists'.waiting = lists.waiting := by
  cases move <;> rfl

open TimerLoop in
theorem Settled.step_waiting (settled : lists.Settled) {op : Op}
    (idle : op = .process → lists.current = none) (noRefresh : ∀ timer, op ≠ .refresh timer) :
    (lists.step op).waiting = lists.waiting := by
  have kept {start lists lists' : TimerLists} (_ : WellFormed none lists)
      (same : lists.waiting = start.waiting) (move : Move lists lists') :
      lists'.waiting = start.waiting := move.waiting.trans same
  by_cases process : op = .process
  · subst process
    have cut := settled.1.cutDue (idle rfl) (settled.2 (idle rfl))
    exact (moves_invariant kept (process_moves settled (idle rfl)) cut rfl).2
  · exact (moves_invariant kept (step_moves settled process noRefresh) settled.1 rfl).2

end CommonLib.TimerLists
