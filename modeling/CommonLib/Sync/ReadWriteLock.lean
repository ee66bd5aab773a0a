import CommonLib.Library.Interleaving

/-!
# The readers-writers lock of rwlock.c

The first reader takes the semaphore `wrt` for all readers and the last one gives it back; `mtx`
guards the number of readers.  A move is one call of the semaphore functions or one access to
`readcount`.  A signal may interrupt a `sem_wait`, which then returns -1.
-/

namespace CommonLib

open Execution Interleaving

/-- `struct ReadWriteLock_s`; the values of the semaphores. -/
structure ReadWriteLock where
  wrt : Nat
  mtx : Nat
  readcount : Int
deriving DecidableEq

namespace ReadWriteLock

/-- `rwl_init`. -/
def init : ReadWriteLock := { wrt := 1, mtx := 1, readcount := 0 }

/-- Where a thread is. -/
inductive Place
  | idle
  /-- `sem_wait(mtx)` of `rwl_readLock`. -/
  | arriving
  | counting
  /-- The test for the first reader, with `sem_wait(wrt)`. -/
  | entering
  /-- `sem_post(mtx)` behind an interrupted `sem_wait(wrt)`. -/
  | failing
  /-- `sem_post(mtx)`. -/
  | entered
  /-- Behind `rwl_readLock`. -/
  | reading
  /-- `sem_wait(mtx)` of `rwl_readUnlock`. -/
  | leaving
  | uncounting
  /-- The test for the last reader, with `sem_post(wrt)`. -/
  | releasing
  /-- `sem_post(mtx)`. -/
  | left
  /-- `sem_wait(wrt)` of `rwl_writeLock`. -/
  | waiting
  /-- Behind `rwl_writeLock`. -/
  | writing
deriving DecidableEq

inductive Move
  | readLock
  | writeLock
  /-- The next call or access of the function that the thread is in, or of the unlock behind it. -/
  | access
  /-- A signal interrupts the `sem_wait` that the thread is in. -/
  | interrupt
deriving DecidableEq

/-- The moves of a thread; `sem_wait` blocks while the semaphore is 0. -/
def move (lock : ReadWriteLock) : Place → Move → Option (ReadWriteLock × Place)
  | .idle, .readLock => some (lock, .arriving)
  | .idle, .writeLock => some (lock, .waiting)
  | .arriving, .access =>
      if 0 < lock.mtx then some ({ lock with mtx := lock.mtx - 1 }, .counting) else none
  | .arriving, .interrupt => some (lock, .idle)
  | .counting, .access => some ({ lock with readcount := lock.readcount + 1 }, .entering)
  | .entering, .access =>
      if lock.readcount = 1 then
        if 0 < lock.wrt then some ({ lock with wrt := lock.wrt - 1 }, .entered) else none
      else some (lock, .entered)
  | .entering, .interrupt => if lock.readcount = 1 then some (lock, .failing) else none
  | .failing, .access => some ({ lock with mtx := lock.mtx + 1 }, .idle)
  | .entered, .access => some ({ lock with mtx := lock.mtx + 1 }, .reading)
  -- rwl_readUnlock
  | .reading, .access => some (lock, .leaving)
  | .leaving, .access =>
      if 0 < lock.mtx then some ({ lock with mtx := lock.mtx - 1 }, .uncounting) else none
  | .leaving, .interrupt => some (lock, .reading)
  | .uncounting, .access => some ({ lock with readcount := lock.readcount - 1 }, .releasing)
  | .releasing, .access =>
      if lock.readcount = 0 then some ({ lock with wrt := lock.wrt + 1 }, .left)
      else some (lock, .left)
  | .left, .access => some ({ lock with mtx := lock.mtx + 1 }, .idle)
  | .waiting, .access =>
      if 0 < lock.wrt then some ({ lock with wrt := lock.wrt - 1 }, .writing) else none
  | .waiting, .interrupt => some (lock, .idle)
  -- rwl_writeUnlock
  | .writing, .access => some ({ lock with wrt := lock.wrt + 1 }, .idle)
  | _, _ => none

variable {ι : Type*} [DecidableEq ι]

/-- The lock before its first use. -/
def start (ι : Type*) : Config ReadWriteLock Place ι :=
  { shared := init, threads := fun _ => .idle }

/-- The move does not interrupt a reader that waits for the writers. -/
def Uninterrupted (config : Config ReadWriteLock Place ι) (op : ι × Move) : Prop :=
  ¬ (config.threads op.1 = .entering ∧ op.2 = .interrupt)

instance (config : Config ReadWriteLock Place ι) (op : ι × Move) :
    Decidable (Uninterrupted config op) :=
  inferInstanceAs (Decidable (¬ _))

variable [Fintype ι]

/-- The number of threads at a place. -/
def at_ (place : Place) (threads : ι → Place) : Nat := count (· = place) threads

theorem at_update (there : Place) (threads : ι → Place) (i : ι) (place : Place) :
    at_ there (Function.update threads i place) + (if threads i = there then 1 else 0) =
      at_ there threads + (if place = there then 1 else 0) :=
  count_update (· = there) threads i place

/-- The number of threads that hold `mtx`. -/
def guards (threads : ι → Place) : Nat :=
  at_ .counting threads + at_ .entering threads + at_ .entered threads + at_ .uncounting threads +
    at_ .releasing threads + at_ .left threads

/-- The number of readers that rely on `wrt`. -/
def holders (threads : ι → Place) : Nat :=
  at_ .entered threads + at_ .reading threads + at_ .leaving threads + at_ .uncounting threads +
    at_ .releasing threads

/-- The semaphores are taken by the threads that hold them, and the readers hold `wrt` together. -/
structure Sound (config : Config ReadWriteLock Place ι) : Prop where
  never : at_ .failing config.threads = 0
  guarded : config.shared.mtx + guards config.threads = 1
  counted : config.shared.readcount = at_ .entering config.threads + at_ .entered config.threads +
    at_ .reading config.threads + at_ .leaving config.threads + at_ .uncounting config.threads
  free : holders config.threads = 0 → config.shared.wrt + at_ .writing config.threads = 1
  held : holders config.threads ≠ 0 → config.shared.wrt + at_ .writing config.threads = 0

omit [DecidableEq ι] in
theorem sound_start : Sound (start ι) := by
  have none_at : ∀ place, place ≠ .idle → at_ place (fun _ : ι => Place.idle) = 0 :=
    fun place other => count_const fun same => other same.symm
  constructor <;> simp [start, init, guards, holders, none_at]

/-- A move that does not interrupt a waiting reader changes the counts of two places at most. -/
theorem Sound.kept {config next : Config ReadWriteLock Place ι} {op : ι × Move}
    (sound : Sound config) (calm : Uninterrupted config op) (made : step move config op = some next) :
    Sound next := by
  obtain ⟨lock, place, moved, rfl⟩ := step_eq_some.mp made
  obtain ⟨i, op⟩ := op
  obtain ⟨never, guarded, counted, free, held⟩ := sound
  simp only [guards, holders] at guarded free held
  have failing := at_update .failing config.threads i place
  have counting := at_update .counting config.threads i place
  have entering := at_update .entering config.threads i place
  have entered := at_update .entered config.threads i place
  have reading := at_update .reading config.threads i place
  have leaving := at_update .leaving config.threads i place
  have uncounting := at_update .uncounting config.threads i place
  have releasing := at_update .releasing config.threads i place
  have left := at_update .left config.threads i place
  have writing := at_update .writing config.threads i place
  simp only [Uninterrupted] at moved calm
  have within : 0 < at_ (config.threads i) config.threads := count_pos_iff.mpr ⟨i, rfl⟩
  generalize config.threads i = here at *
  revert moved
  fun_cases move <;> intro moved <;> cases moved <;>
    simp only [reduceCtorEq, if_true, if_false, and_false, and_self, not_true, not_false_eq_true] at * <;>
    constructor <;> simp only [guards, holders] <;> omega

/-- The number of moves that are left until the thread is idle. -/
def work : Place → Nat
  | .idle => 0
  | .arriving => 9
  | .counting => 8
  | .entering => 7
  | .failing => 1
  | .entered => 6
  | .reading => 5
  | .leaving => 4
  | .uncounting => 3
  | .releasing => 2
  | .left => 1
  | .waiting => 2
  | .writing => 1

/-- A thread that is not blocked brings the end nearer. -/
theorem work_lt {config : Config ReadWriteLock Place ι} {i : ι} {lock : ReadWriteLock}
    {place : Place} (moved : move config.shared (config.threads i) .access = some (lock, place))
    (lower : work place < work (config.threads i)) :
    ∃ op next, (step move config op = some next ∧ Uninterrupted config op) ∧
      total work next.threads < total work config.threads := by
  refine ⟨(i, .access), _, ⟨step_eq_some.mpr ⟨lock, place, moved, rfl⟩, ?_⟩, ?_⟩
  · exact fun interrupted => by cases interrupted.2
  · have := total_update work config.threads i place
    simp only
    omega

omit [DecidableEq ι] in
theorem exists_at_of_ne_zero {place : Place} {threads : ι → Place}
    (some_at : at_ place threads ≠ 0) : ∃ i, threads i = place :=
  count_pos_iff.mp (Nat.pos_of_ne_zero some_at)

/-- As long as some thread is not idle, some thread is not blocked. -/
theorem Sound.progress {config : Config ReadWriteLock Place ι} (sound : Sound config)
    (busy : ¬ ∀ i, config.threads i = .idle) :
    ∃ op next, (step move config op = some next ∧ Uninterrupted config op) ∧
      total work next.threads < total work config.threads := by
  obtain ⟨never, guarded, counted, free, held⟩ := sound
  simp only [guards, holders] at guarded free held
  -- a thread that never waits goes on
  by_cases waits : ∃ i, config.threads i ∉
      [Place.idle, .arriving, .entering, .leaving, .waiting]
  · obtain ⟨i, moves⟩ := waits
    have within : 0 < at_ (config.threads i) config.threads := count_pos_iff.mpr ⟨i, rfl⟩
    cases here : config.threads i with
    | counting | failing | entered | reading | uncounting | left | writing =>
        exact work_lt (i := i) (by rw [here]; rfl) (by rw [here]; decide)
    | releasing =>
        by_cases last : config.shared.readcount = 0
        · exact work_lt (i := i) (by rw [here, move, if_pos last]) (by rw [here]; decide)
        · exact work_lt (i := i) (by rw [here, move, if_neg last]) (by rw [here]; decide)
    | idle | arriving | entering | leaving | waiting => simp [here] at moves
  have out : ∀ place, place ∉ [Place.idle, .arriving, .entering, .leaving, .waiting] →
      at_ place config.threads = 0 :=
    fun place moves => count_eq_zero_iff.mpr fun i here => waits ⟨i, here ▸ moves⟩
  have counting := out .counting (by decide)
  have entered := out .entered (by decide)
  have reading := out .reading (by decide)
  have uncounting := out .uncounting (by decide)
  have releasing := out .releasing (by decide)
  have left := out .left (by decide)
  have writing := out .writing (by decide)
  -- the reader that holds `mtx` waits for nobody, since no thread writes
  by_cases entering : at_ .entering config.threads = 0
  case neg =>
    obtain ⟨i, here⟩ := exists_at_of_ne_zero entering
    by_cases first : config.shared.readcount = 1
    · have available : 0 < config.shared.wrt := by omega
      exact work_lt (i := i) (by rw [here, move, if_pos first, if_pos available])
        (by rw [here]; decide)
    · exact work_lt (i := i) (by rw [here, move, if_neg first]) (by rw [here]; decide)
  have open_ : 0 < config.shared.mtx := by omega
  by_cases leaving : at_ .leaving config.threads = 0
  case neg =>
    obtain ⟨i, here⟩ := exists_at_of_ne_zero leaving
    exact work_lt (i := i) (by rw [here, move, if_pos open_]) (by rw [here]; decide)
  have available : 0 < config.shared.wrt := by omega
  obtain ⟨i, busy⟩ := not_forall.mp busy
  cases here : config.threads i with
  | arriving => exact work_lt (i := i) (by rw [here, move, if_pos open_]) (by rw [here]; decide)
  | waiting => exact work_lt (i := i) (by rw [here, move, if_pos available]) (by rw [here]; decide)
  | idle => exact absurd here busy
  | entering => exact absurd here (count_eq_zero_iff.mp entering i)
  | leaving => exact absurd here (count_eq_zero_iff.mp leaving i)
  | _ => exact absurd ⟨i, by rw [here]; decide⟩ waits

omit [DecidableEq ι] in
/-- The idle lock is the lock before its first use. -/
theorem Sound.eq_start {config : Config ReadWriteLock Place ι} (sound : Sound config)
    (idle : ∀ i, config.threads i = .idle) : config = start ι := by
  obtain ⟨-, guarded, counted, free, -⟩ := sound
  have none_at : ∀ place, place ≠ .idle → at_ place config.threads = 0 :=
    fun place other => count_eq_zero_iff.mpr fun i same => other (same.symm.trans (idle i))
  obtain ⟨⟨wrt, mtx, readcount⟩, threads⟩ := config
  simp only [guards, holders, none_at, ne_eq, reduceCtorEq, not_false_eq_true] at guarded counted free
  obtain rfl : threads = fun _ => Place.idle := funext idle
  simp at guarded counted free
  simp [start, init, guarded, counted, free]

/-- The failed `rwl_readLock` leaves itself counted, so that the next call of the thread does not
wait for the writer. -/
theorem Sound.interrupt_breaks {config : Config ReadWriteLock Place ι} (sound : Sound config)
    {i j : ι} (waits : config.threads i = .entering) (writes : config.threads j = .writing) :
    ∃ ops final, run (step move) config ((i, .interrupt) :: ops) = some final ∧
      final.threads i = .reading ∧ final.threads j = .writing := by
  obtain ⟨-, guarded, counted, -, held⟩ := sound
  have some_waits : 0 < at_ .entering config.threads := count_pos_iff.mpr ⟨i, waits⟩
  have some_writes : 0 < at_ .writing config.threads := count_pos_iff.mpr ⟨j, writes⟩
  simp only [guards, holders] at guarded held
  have first : config.shared.readcount = 1 := by omega
  have other : j ≠ i := fun same => by rw [same, waits] at writes; cases writes
  refine ⟨[(i, .access), (i, .readLock), (i, .access), (i, .access), (i, .access), (i, .access)],
    { shared := { config.shared with mtx := config.shared.mtx + 1, readcount := 2 },
      threads := Function.update config.threads i .reading }, ?_, ?_, ?_⟩
  · simp [run, step, move, waits, first]
  · simp
  · simpa [Function.update_of_ne other] using writes

/-- In every interleaving in which no signal interrupts a reader that waits for a writer, a thread
behind `rwl_writeLock` is alone behind the lock, and all threads can still come to an end; then the
lock is as `rwl_init` left it.  Every other wait may be interrupted.  As soon as a reader is
interrupted while it waits for a writer, it can join that writer behind the lock. -/
theorem writer_excludes {ops : List (ι × Move)} {config : Config ReadWriteLock Place ι}
    (made : run (step move) (start ι) ops = some config)
    (calm : AllSteps (step move) Uninterrupted (start ι) ops) :
    (∀ i j, config.threads i = .writing →
        config.threads j = .writing ∨ config.threads j = .reading → i = j) ∧
      (∃ ops, run (step move) config ops = some (start ι)) ∧
      ∀ i j, config.threads i = .entering → config.threads j = .writing →
        ∃ ops final, run (step move) config ((i, .interrupt) :: ops) = some final ∧
          final.threads i = .reading ∧ final.threads j = .writing := by
  have sound : Sound config :=
    (allStates_of_allSteps Sound id (fun met condition made => met.kept condition made) sound_start
      calm).of_run made
  refine ⟨fun i j writes other => ?_, ?_, fun i j => sound.interrupt_breaks⟩
  · have some_writes : 0 < at_ .writing config.threads := count_pos_iff.mpr ⟨i, writes⟩
    have free := sound.free
    have held := sound.held
    rcases other with other | other
    · have one : at_ .writing config.threads ≤ 1 := by omega
      exact eq_of_count_le_one one writes other
    · have some_reads : 0 < at_ .reading config.threads := count_pos_iff.mpr ⟨j, other⟩
      have : holders config.threads ≠ 0 := by unfold holders; omega
      omega
  · obtain ⟨ops, final, execution, sound, idle⟩ :=
      exists_run_of_rank (fun config => total work config.threads)
        (fun config => ∀ i, config.threads i = .idle) Sound
        (fun config met busy => by
          obtain ⟨op, next, ⟨made, calm⟩, lower⟩ := met.progress busy
          exact ⟨op, next, made, met.kept calm made, lower⟩) sound
    exact ⟨ops, sound.eq_start idle ▸ execution⟩

/-- One of two threads is behind `rwl_writeLock`, the other one was interrupted while it waited. -/
theorem writes_alone_beside_reader : ∃ config : Config ReadWriteLock Place (Fin 2),
    config.threads 0 = .writing ∧
      ∀ j, config.threads j = .writing ∨ config.threads j = .reading → 0 = j := by
  have made : run (step move) (start (Fin 2))
      [(1, .writeLock), (0, .writeLock), (0, .access), (1, .interrupt), (1, .readLock)] =
        some _ := rfl
  exact ⟨_, rfl, fun j => (writer_excludes made (by decide)).1 0 j rfl⟩

end ReadWriteLock

end CommonLib
