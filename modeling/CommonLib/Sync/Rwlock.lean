import CommonLib.Library.Interleaving
import Mathlib.Data.Prod.Lex

/-!
# The spinning lock of rwlock.hpp

`rwlock_rlock` waits until no writer is seen, announces a reader and takes the announcement back if
a writer came meanwhile; `rwlock_wlock` announces a writer and waits until no reader is announced.
A move is one access to the lock; the accesses are full barriers in the source.
-/

namespace CommonLib

open Execution Interleaving

/-- `struct rwlock`. -/
structure Rwlock where
  write : Int
  read : Int
deriving DecidableEq

namespace Rwlock

/-- `rwlock_init`. -/
def init : Rwlock := { write := 0, read := 0 }

/-- Where a thread is. -/
inductive Place
  | idle
  /-- In the loop over `lock->write` of `rwlock_rlock`. -/
  | spinning
  | announcing
  /-- Before the second test of `lock->write`. -/
  | testing
  | withdrawing
  /-- Behind `rwlock_rlock`. -/
  | reading
  /-- In the loop over `__sync_lock_test_and_set` of `rwlock_wlock`. -/
  | setting
  /-- In the loop over `lock->read`. -/
  | draining
  /-- Behind `rwlock_wlock`. -/
  | writing
deriving DecidableEq

inductive Move
  | rlock
  | wlock
  /-- The next access of the function that the thread is in, or of the unlock behind it. -/
  | access
deriving DecidableEq

/-- The moves of a thread. -/
def move (lock : Rwlock) : Place → Move → Option (Rwlock × Place)
  | .idle, .rlock => some (lock, .spinning)
  | .idle, .wlock => some (lock, .setting)
  | .spinning, .access =>
      if lock.write ≠ 0 then some (lock, .spinning) else some (lock, .announcing)
  | .announcing, .access => some ({ lock with read := lock.read + 1 }, .testing)
  | .testing, .access =>
      if lock.write ≠ 0 then some (lock, .withdrawing) else some (lock, .reading)
  | .withdrawing, .access => some ({ lock with read := lock.read - 1 }, .spinning)
  -- rwlock_runlock
  | .reading, .access => some ({ lock with read := lock.read - 1 }, .idle)
  | .setting, .access =>
      if lock.write ≠ 0 then some ({ lock with write := 1 }, .setting)
      else some ({ lock with write := 1 }, .draining)
  | .draining, .access =>
      if lock.read ≠ 0 then some (lock, .draining) else some (lock, .writing)
  -- rwlock_wunlock
  | .writing, .access => some ({ lock with write := 0 }, .idle)
  | _, _ => none

variable {ι : Type*} [DecidableEq ι] [Fintype ι]

/-- The lock before its first use. -/
def start (ι : Type*) : Config Rwlock Place ι := { shared := init, threads := fun _ => .idle }

/-- The number of threads at a place. -/
def at_ (place : Place) (threads : ι → Place) : Nat := count (· = place) threads

theorem at_update (there : Place) (threads : ι → Place) (i : ι) (place : Place) :
    at_ there (Function.update threads i place) + (if threads i = there then 1 else 0) =
      at_ there threads + (if place = there then 1 else 0) :=
  count_update (· = there) threads i place

/-- The counters are the numbers of the threads that announced themselves, and the lock excludes. -/
structure Sound (config : Config Rwlock Place ι) : Prop where
  readers : config.shared.read =
    at_ .testing config.threads + at_ .withdrawing config.threads + at_ .reading config.threads
  writers : config.shared.write = at_ .draining config.threads + at_ .writing config.threads
  one : at_ .draining config.threads + at_ .writing config.threads ≤ 1
  excluded : at_ .writing config.threads = 0 ∨ at_ .reading config.threads = 0

omit [DecidableEq ι] in
theorem sound_start : Sound (start ι) := by
  have none_at : ∀ place, place ≠ .idle → at_ place (fun _ : ι => Place.idle) = 0 :=
    fun place other => count_const fun same => other same.symm
  constructor <;> simp [start, init, none_at]

/-- A move changes the counts of two places at most. -/
theorem Sound.kept {config next : Config Rwlock Place ι} {op : ι × Move} (sound : Sound config)
    (made : step move config op = some next) : Sound next := by
  obtain ⟨lock, place, moved, rfl⟩ := step_eq_some.mp made
  obtain ⟨i, op⟩ := op
  obtain ⟨readers, writers, one, excluded⟩ := sound
  have testing := at_update .testing config.threads i place
  have withdrawing := at_update .withdrawing config.threads i place
  have reading := at_update .reading config.threads i place
  have draining := at_update .draining config.threads i place
  have writing := at_update .writing config.threads i place
  simp only at moved
  generalize config.threads i = here at *
  revert moved
  fun_cases move <;> intro moved <;> cases moved <;>
    simp only [reduceCtorEq, if_true, if_false, ne_eq, not_not] at * <;>
    constructor <;> simp only <;> omega

/-- What is left to do for a thread that writes. -/
def writerWork : Place → Nat
  | .setting => 3
  | .draining => 2
  | .writing => 1
  | _ => 0

/-- What is left to do for a thread that reads.  Beside writers it only gives way. -/
def readerWork (alone : Bool) : Place → Nat
  | .spinning => if alone then 5 else 0
  | .announcing => if alone then 4 else 0
  | .testing => 3
  | .withdrawing => if alone then 6 else 2
  | .reading => 1
  | _ => 0

/-- The writers come first. -/
def rank (config : Config Rwlock Place ι) : Nat ×ₗ Nat :=
  toLex (total writerWork config.threads,
    total (readerWork (total writerWork config.threads = 0)) config.threads)

/-- A thread whose move lowers the work of the writers, or keeps it and lowers that of the readers,
brings the end nearer. -/
theorem rank_lt {config : Config Rwlock Place ι} {i : ι} {lock : Rwlock} {place : Place}
    (moved : move config.shared (config.threads i) .access = some (lock, place))
    (lower : writerWork place < writerWork (config.threads i) ∨
      writerWork place = writerWork (config.threads i) ∧
        readerWork (total writerWork config.threads = 0) place <
          readerWork (total writerWork config.threads = 0) (config.threads i)) :
    ∃ op next, step move config op = some next ∧ rank next < rank config := by
  refine ⟨(i, .access), _, step_eq_some.mpr ⟨lock, place, moved, rfl⟩, ?_⟩
  have writers := total_update writerWork config.threads i place
  have readers :=
    total_update (readerWork (total writerWork config.threads = 0)) config.threads i place
  rw [rank, rank, Prod.Lex.toLex_lt_toLex]
  rcases lower with lower | ⟨same, lower⟩
  · exact Or.inl (by simp only; omega)
  · have unchanged : total writerWork (Function.update config.threads i place) =
        total writerWork config.threads := by omega
    refine Or.inr ⟨unchanged, ?_⟩
    simp only [unchanged]
    omega

omit [DecidableEq ι] in
theorem exists_at_of_ne_zero {place : Place} {threads : ι → Place} (some_at : at_ place threads ≠ 0) :
    ∃ i, threads i = place :=
  count_pos_iff.mp (Nat.pos_of_ne_zero some_at)

/-- As long as some thread is not idle, some move brings the end nearer. -/
theorem Sound.progress {config : Config Rwlock Place ι} (sound : Sound config)
    (busy : ¬ ∀ i, config.threads i = .idle) :
    ∃ op next, step move config op = some next ∧ rank next < rank config := by
  obtain ⟨readers, writers, one, excluded⟩ := sound
  -- first the threads whose move does not depend on the counters
  by_cases reading : at_ .reading config.threads = 0
  case neg =>
    obtain ⟨i, here⟩ := exists_at_of_ne_zero reading
    exact rank_lt (i := i) (by rw [here]; rfl) (by simp [here, writerWork, readerWork])
  by_cases writing : at_ .writing config.threads = 0
  case neg =>
    obtain ⟨i, here⟩ := exists_at_of_ne_zero writing
    exact rank_lt (i := i) (by rw [here]; rfl) (by simp [here, writerWork])
  by_cases withdrawing : at_ .withdrawing config.threads = 0
  case neg =>
    obtain ⟨i, here⟩ := exists_at_of_ne_zero withdrawing
    refine rank_lt (i := i) (by rw [here]; rfl) (Or.inr ?_)
    simp only [here, writerWork, readerWork]
    grind
  by_cases testing : at_ .testing config.threads = 0
  case neg =>
    obtain ⟨i, here⟩ := exists_at_of_ne_zero testing
    by_cases free : config.shared.write = 0
    · exact rank_lt (i := i) (by rw [here, move, if_neg (not_not.mpr free)])
        (by simp [here, writerWork, readerWork])
    · -- some writer is announced, so that the reader gives way
      have announced : at_ .draining config.threads ≠ 0 := by omega
      obtain ⟨j, there⟩ := exists_at_of_ne_zero announced
      have beside : total writerWork config.threads ≠ 0 := by
        intro none_left
        have := total_eq_zero_iff.mp none_left j
        simp [there, writerWork] at this
      exact rank_lt (i := i) (by rw [here, move, if_pos free])
        (by simp [here, writerWork, readerWork, beside])
  have unread : config.shared.read = 0 := by omega
  by_cases draining : at_ .draining config.threads = 0
  case neg =>
    obtain ⟨i, here⟩ := exists_at_of_ne_zero draining
    exact rank_lt (i := i) (by rw [here, move, if_neg (not_not.mpr unread)])
      (by simp [here, writerWork])
  have free : config.shared.write = 0 := by omega
  by_cases setting : at_ .setting config.threads = 0
  case neg =>
    obtain ⟨i, here⟩ := exists_at_of_ne_zero setting
    exact rank_lt (i := i) (by rw [here, move, if_neg (not_not.mpr free)])
      (by simp [here, writerWork])
  -- no writer is left, so that the readers go on
  have out : ∀ {place}, at_ place config.threads = 0 → ∀ i, config.threads i ≠ place :=
    count_eq_zero_iff.mp
  have alone : total writerWork config.threads = 0 := by
    refine total_eq_zero_iff.mpr fun i => ?_
    cases here : config.threads i with
    | setting => exact absurd here (out setting i)
    | draining => exact absurd here (out draining i)
    | writing => exact absurd here (out writing i)
    | _ => rfl
  obtain ⟨i, busy⟩ := not_forall.mp busy
  cases here : config.threads i with
  | idle => exact absurd here busy
  | spinning =>
      exact rank_lt (i := i) (by rw [here, move, if_neg (not_not.mpr free)])
        (by simp [here, writerWork, readerWork, alone])
  | announcing =>
      exact rank_lt (i := i) (by rw [here]; rfl) (by simp [here, writerWork, readerWork, alone])
  | testing => exact absurd here (out testing i)
  | withdrawing => exact absurd here (out withdrawing i)
  | reading => exact absurd here (out reading i)
  | setting => exact absurd here (out setting i)
  | draining => exact absurd here (out draining i)
  | writing => exact absurd here (out writing i)

omit [DecidableEq ι] in
/-- The idle lock is the lock before its first use. -/
theorem Sound.eq_start {config : Config Rwlock Place ι} (sound : Sound config)
    (idle : ∀ i, config.threads i = .idle) : config = start ι := by
  obtain ⟨readers, writers, -, -⟩ := sound
  have none_at : ∀ place, place ≠ .idle → at_ place config.threads = 0 :=
    fun place other => count_eq_zero_iff.mpr fun i same => other (same.symm.trans (idle i))
  obtain ⟨⟨write, read⟩, threads⟩ := config
  simp only [none_at, ne_eq, reduceCtorEq, not_false_eq_true] at readers writers
  obtain rfl : threads = fun _ => Place.idle := funext idle
  simp [start, init, readers, writers]

/-- In every interleaving of any number of threads, a thread behind `rwlock_wlock` is alone behind
the lock, and all threads can still come to an end; then the lock is as `rwlock_init` left it. -/
theorem excludes_and_terminates {config : Config Rwlock Place ι}
    (reach : Reachable (step move) (start ι) config) :
    (∀ i j, config.threads i = .writing →
        config.threads j = .writing ∨ config.threads j = .reading → i = j) ∧
      ∃ ops, run (step move) config ops = some (start ι) := by
  have sound : Sound config := reach.invariant Sound sound_start fun met made => met.kept made
  constructor
  · intro i j writes other
    have one : at_ .writing config.threads ≤ 1 := Nat.le_trans (Nat.le_add_left _ _) sound.one
    rcases other with other | other
    · exact eq_of_count_le_one one writes other
    · have some_writes : 0 < at_ .writing config.threads := count_pos_iff.mpr ⟨i, writes⟩
      have some_reads : 0 < at_ .reading config.threads := count_pos_iff.mpr ⟨j, other⟩
      have := sound.excluded
      omega
  · obtain ⟨ops, final, execution, sound, idle⟩ :=
      exists_run_of_rank rank (fun config => ∀ i, config.threads i = .idle) Sound
        (fun config met busy => by
          obtain ⟨op, next, made, lower⟩ := met.progress busy
          exact ⟨op, next, made, met.kept made, lower⟩) sound
    exact ⟨ops, sound.eq_start idle ▸ execution⟩

/-- One of two threads is behind `rwlock_wlock`. -/
theorem writes_alone : ∃ config : Config Rwlock Place (Fin 2), config.threads 0 = .writing ∧
    ∀ j, config.threads j = .writing ∨ config.threads j = .reading → 0 = j := by
  refine ⟨_, rfl, fun j => (excludes_and_terminates
    ⟨[(0, .wlock), (1, .rlock), (0, .access), (0, .access)], rfl⟩).1 0 j rfl⟩

end Rwlock

end CommonLib
