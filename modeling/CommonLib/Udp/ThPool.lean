import CommonLib.Library.Interleaving
import Mathlib.Algebra.Order.Group.Multiset

/-!
# The thread pool of thpool.c

The workers take jobs from a queue under `rwmutex`; the binary semaphore `has_jobs` tells them that
there are some.  `thpool_wait` reads the length of the queue and the number of working threads under
`thcount_lock`.  A move is one access to what the threads share or one critical section without an
unprotected access inside; it ends with the unlock behind it.
-/

namespace CommonLib

open Execution Interleaving

/-- A condition variable: the threads that are blocked on it, and how many of them were woken and
did not yet go on.  It is left open which ones these are. -/
structure Cond where
  blocked : Nat
  woken : Nat
deriving DecidableEq

namespace Cond

/-- `pthread_cond_wait` blocks. -/
def wait (cond : Cond) : Cond := { cond with blocked := cond.blocked + 1 }

/-- `pthread_cond_signal`. -/
def signal (cond : Cond) : Cond := { cond with woken := min (cond.woken + 1) cond.blocked }

/-- `pthread_cond_broadcast`. -/
def broadcast (cond : Cond) : Cond := { cond with woken := cond.blocked }

/-- A woken thread goes on. -/
def wake (cond : Cond) : Cond := { blocked := cond.blocked - 1, woken := cond.woken - 1 }

/-- A thread goes on that nobody woke. -/
def wakeSpurious (cond : Cond) : Cond := { cond with blocked := cond.blocked - 1 }

end Cond

/-- `thpool_` with its job queue and `threads_keepalive`, and what the threads did. -/
structure ThPool (α : Type*) where
  keepalive : Bool
  numThreadsAlive : Int
  numThreadsWorking : Int
  /-- `thcount_lock` is locked. -/
  thcountLock : Bool
  threadsAllIdle : Cond
  /-- `rwmutex` is locked. -/
  rwmutex : Bool
  /-- The jobs from `front` to `rear`; their number is `len`. -/
  jobs : List α
  /-- The value of `has_jobs`. -/
  hasJobs : Nat
  hasJobsCond : Cond
  /-- The jobs that were pushed, the first one first. -/
  added : List α
  /-- The jobs that were pulled. -/
  started : List α
  /-- The jobs whose functions returned. -/
  finished : List α

namespace ThPool

variable {α : Type*}

/-- Where a thread is. -/
inductive Place (α : Type*)
  /-- The test of the loop of `thread_do`. -/
  | testing
  /-- The test of `bsem_wait`. -/
  | waiting
  /-- In `pthread_cond_wait` of `bsem_wait`. -/
  | asleep
  /-- The test behind `bsem_wait`. -/
  | woken
  /-- `num_threads_working++`. -/
  | entering
  /-- `jobqueue_pull`. -/
  | pulling
  /-- `bsem_post` of `jobqueue_pull`. -/
  | reposting (job : α)
  | running (job : α)
  /-- `num_threads_working--`. -/
  | leaving
  /-- `num_threads_alive--`. -/
  | ending
  | ended
  /-- Outside the functions of the pool. -/
  | idle
  /-- `jobqueue_push`. -/
  | adding (job : α)
  /-- `bsem_post` of `jobqueue_push`. -/
  | posting
  /-- `thpool_wait`, called when the jobs `due` were added: before it has `thcount_lock`. -/
  | locking (due : List α)
  | readingLen (due : List α)
  | readingWorking (due : List α)
  /-- In `pthread_cond_wait`. -/
  | blocked (due : List α)
  /-- The loops of `thpool_destroy`. -/
  | destroying
  | destroyed

inductive Move (α : Type*)
  | add (job : α)
  | wait
  | destroy
  /-- The thread goes on. -/
  | access
  /-- The thread goes on in `pthread_cond_wait` though nobody woke it. -/
  | spurious

/-- `bsem_post`. -/
def post (pool : ThPool α) : ThPool α :=
  { pool with hasJobs := 1, hasJobsCond := pool.hasJobsCond.signal }

/-- `bsem_post_all`. -/
def postAll (pool : ThPool α) : ThPool α :=
  { pool with hasJobs := 1, hasJobsCond := pool.hasJobsCond.broadcast }

/-- The moves of a thread; a thread that waits for a lock or for a wake-up has none. -/
def move (pool : ThPool α) : Place α → Move α → Option (ThPool α × Place α)
  -- thread_do
  | .testing, .access => if pool.keepalive then some (pool, .waiting) else some (pool, .ending)
  | .waiting, .access =>
      if pool.hasJobs ≠ 1 then some ({ pool with hasJobsCond := pool.hasJobsCond.wait }, .asleep)
      else some ({ pool with hasJobs := 0 }, .woken)
  | .asleep, .access =>
      if 0 < pool.hasJobsCond.woken then
        some ({ pool with hasJobsCond := pool.hasJobsCond.wake }, .waiting)
      else none
  | .asleep, .spurious =>
      if pool.hasJobsCond.woken < pool.hasJobsCond.blocked then
        some ({ pool with hasJobsCond := pool.hasJobsCond.wakeSpurious }, .waiting)
      else none
  | .woken, .access => if pool.keepalive then some (pool, .entering) else some (pool, .testing)
  | .entering, .access =>
      if pool.thcountLock then none
      else some ({ pool with numThreadsWorking := pool.numThreadsWorking + 1 }, .pulling)
  | .pulling, .access =>
      if pool.rwmutex then none
      else
        match pool.jobs with
        | [] => some (pool, .leaving)
        | [job] => some ({ pool with jobs := [], started := pool.started ++ [job] }, .running job)
        | job :: next :: rest =>
            some ({ pool with
              rwmutex := true, jobs := next :: rest, started := pool.started ++ [job] },
              .reposting job)
  | .reposting job, .access => some ({ pool.post with rwmutex := false }, .running job)
  | .running job, .access => some ({ pool with finished := pool.finished ++ [job] }, .leaving)
  | .leaving, .access =>
      if pool.thcountLock then none
      else if pool.numThreadsWorking - 1 = 0 then
        some ({ pool with
          numThreadsWorking := pool.numThreadsWorking - 1
          threadsAllIdle := pool.threadsAllIdle.signal }, .testing)
      else some ({ pool with numThreadsWorking := pool.numThreadsWorking - 1 }, .testing)
  | .ending, .access =>
      if pool.thcountLock then none
      else some ({ pool with numThreadsAlive := pool.numThreadsAlive - 1 }, .ended)
  -- thpool_add_work
  | .idle, .add job => some (pool, .adding job)
  | .adding job, .access =>
      if pool.rwmutex then none
      else
        some ({ pool with rwmutex := true, jobs := pool.jobs ++ [job], added := pool.added ++ [job] },
          .posting)
  | .posting, .access => some ({ pool.post with rwmutex := false }, .idle)
  -- thpool_wait
  | .idle, .wait => some (pool, .locking pool.added)
  | .locking due, .access =>
      if pool.thcountLock then none else some ({ pool with thcountLock := true }, .readingLen due)
  | .readingLen due, .access =>
      if pool.jobs.length ≠ 0 then
        some ({ pool with thcountLock := false, threadsAllIdle := pool.threadsAllIdle.wait },
          .blocked due)
      else some (pool, .readingWorking due)
  | .readingWorking due, .access =>
      if pool.numThreadsWorking ≠ 0 then
        some ({ pool with thcountLock := false, threadsAllIdle := pool.threadsAllIdle.wait },
          .blocked due)
      else some ({ pool with thcountLock := false }, .idle)
  | .blocked due, .access =>
      if 0 < pool.threadsAllIdle.woken then
        some ({ pool with threadsAllIdle := pool.threadsAllIdle.wake }, .locking due)
      else none
  | .blocked due, .spurious =>
      if pool.threadsAllIdle.woken < pool.threadsAllIdle.blocked then
        some ({ pool with threadsAllIdle := pool.threadsAllIdle.wakeSpurious }, .locking due)
      else none
  -- thpool_destroy
  | .idle, .destroy => some ({ pool with keepalive := false }, .destroying)
  | .destroying, .access =>
      if pool.numThreadsAlive ≠ 0 then some (pool.postAll, .destroying)
      else some (pool, .destroyed)
  | _, _ => none

/-- The places of the workers and of their callers, without what they hold. -/
inductive Kind
  | testing | waiting | asleep | woken | entering | pulling | reposting | running | leaving
  | ending | ended | idle | adding | posting | locking | readingLen | readingWorking | blocked
  | destroying | destroyed
deriving DecidableEq

def Place.kind : Place α → Kind
  | .testing => .testing
  | .waiting => .waiting
  | .asleep => .asleep
  | .woken => .woken
  | .entering => .entering
  | .pulling => .pulling
  | .reposting _ => .reposting
  | .running _ => .running
  | .leaving => .leaving
  | .ending => .ending
  | .ended => .ended
  | .idle => .idle
  | .adding _ => .adding
  | .posting => .posting
  | .locking _ => .locking
  | .readingLen _ => .readingLen
  | .readingWorking _ => .readingWorking
  | .blocked _ => .blocked
  | .destroying => .destroying
  | .destroyed => .destroyed

/-- The job that a worker took and did not finish. -/
def Place.held : Place α → Multiset α
  | .reposting job | .running job => {job}
  | _ => 0

variable {ι : Type*} [DecidableEq ι] [Fintype ι]

/-- The number of threads at places of a kind. -/
def at_ (kind : Kind) (threads : ι → Place α) : Nat := count (fun i => Place.kind i = kind) threads

theorem at_update (kind : Kind) (threads : ι → Place α) (i : ι) (place : Place α) :
    at_ kind (Function.update threads i place) + (if (threads i).kind = kind then 1 else 0) =
      at_ kind threads + (if place.kind = kind then 1 else 0) :=
  count_update (fun place : Place α => place.kind = kind) threads i place

/-- The pool behind `thpool_init`: all workers are alive. -/
def start (worker : ι → Bool) : Config (ThPool α) (Place α) ι where
  shared :=
    { keepalive := true, numThreadsAlive := count (· = true) worker, numThreadsWorking := 0,
      thcountLock := false, threadsAllIdle := { blocked := 0, woken := 0 }, rwmutex := false,
      jobs := [], hasJobs := 0, hasJobsCond := { blocked := 0, woken := 0 }, added := [],
      started := [], finished := [] }
  threads := fun i => if worker i then .testing else .idle

variable {pool pool' : ThPool α} {threads : ι → Place α} {i : ι} {place place' : Place α}
  {act : Move α}

/-- A lock is held by the thread that is in its critical section. -/
structure Locks (pool : ThPool α) (threads : ι → Place α) : Prop where
  queue : pool.rwmutex.toNat = at_ .reposting threads + at_ .posting threads
  counters : pool.thcountLock.toNat = at_ .readingLen threads + at_ .readingWorking threads

theorem Locks.kept (locks : Locks pool threads)
    (moved : move pool (threads i) act = some (pool', place)) :
    Locks pool' (Function.update threads i place) := by
  obtain ⟨queue, counters⟩ := locks
  have reposting := at_update .reposting threads i place
  have posting := at_update .posting threads i place
  have readingLen := at_update .readingLen threads i place
  have readingWorking := at_update .readingWorking threads i place
  have := Bool.toNat_le pool.rwmutex
  have := Bool.toNat_le pool.thcountLock
  generalize threads i = here at moved reposting posting readingLen readingWorking
  revert moved
  fun_cases move <;> intro moved <;> cases moved <;>
    simp only [Place.kind, reduceCtorEq, if_true, if_false, post, postAll, Bool.not_eq_true] at * <;>
    constructor <;> grind

/-- `num_threads_working` is the number of workers between its two updates. -/
def Working (pool : ThPool α) (threads : ι → Place α) : Prop :=
  pool.numThreadsWorking = at_ .pulling threads + at_ .reposting threads + at_ .running threads +
    at_ .leaving threads

theorem Working.kept (working : Working pool threads)
    (moved : move pool (threads i) act = some (pool', place)) :
    Working pool' (Function.update threads i place) := by
  have pulling := at_update .pulling threads i place
  have reposting := at_update .reposting threads i place
  have running := at_update .running threads i place
  have leaving := at_update .leaving threads i place
  generalize threads i = here at moved pulling reposting running leaving
  revert moved
  unfold Working at *
  fun_cases move <;> intro moved <;> cases moved <;>
    simp only [Place.kind, reduceCtorEq, if_true, if_false, post, postAll] at * <;> omega

/-- The condition variables count the threads that are blocked on them. -/
structure Blocked (pool : ThPool α) (threads : ι → Place α) : Prop where
  asleep : pool.hasJobsCond.blocked = at_ .asleep threads
  asleep_woken : pool.hasJobsCond.woken ≤ pool.hasJobsCond.blocked
  blocked : pool.threadsAllIdle.blocked = at_ .blocked threads
  blocked_woken : pool.threadsAllIdle.woken ≤ pool.threadsAllIdle.blocked

theorem Blocked.kept (sound : Blocked pool threads)
    (moved : move pool (threads i) act = some (pool', place)) :
    Blocked pool' (Function.update threads i place) := by
  obtain ⟨asleep, asleep_woken, blocked, blocked_woken⟩ := sound
  have asleep' := at_update .asleep threads i place
  have blocked' := at_update .blocked threads i place
  generalize threads i = here at moved asleep' blocked'
  revert moved
  fun_cases move <;> intro moved <;> cases moved <;>
    simp only [Place.kind, reduceCtorEq, if_true, if_false, post, postAll, Cond.signal, Cond.wait,
      Cond.wake, Cond.wakeSpurious, Cond.broadcast] at * <;>
    constructor <;> grind

/-- A worker that could take a job is on its way to the semaphore, and a job that waits is
announced, or a thread is about to announce it or to take it. -/
structure Announced (pool : ThPool α) (threads : ι → Place α) : Prop where
  called : pool.hasJobs = 1 → pool.hasJobsCond.blocked = 0 ∨ 0 < pool.hasJobsCond.woken ∨
    0 < at_ .waiting threads
  announced : pool.keepalive = true → pool.jobs ≠ [] → pool.hasJobs = 1 ∨
    0 < at_ .posting threads + at_ .reposting threads + at_ .woken threads + at_ .entering threads +
      at_ .pulling threads

theorem Announced.kept (sound : Announced pool threads) (blocked : Blocked pool threads)
    (moved : move pool (threads i) act = some (pool', place)) :
    Announced pool' (Function.update threads i place) := by
  obtain ⟨called, announced⟩ := sound
  have asleep_woken := blocked.asleep_woken
  have waiting := at_update .waiting threads i place
  have posting := at_update .posting threads i place
  have reposting := at_update .reposting threads i place
  have woken := at_update .woken threads i place
  have entering := at_update .entering threads i place
  have pulling := at_update .pulling threads i place
  generalize threads i = here at moved waiting posting reposting woken entering pulling
  revert moved
  fun_cases move <;> intro moved <;> cases moved <;>
    simp only [Place.kind, reduceCtorEq, if_true, if_false, post, postAll, Cond.signal, Cond.wait,
      Cond.wake, Cond.wakeSpurious, Cond.broadcast] at *
  all_goals
    refine ⟨?_, fun alive some_job => ?_⟩ <;> try dsimp only at *
    · omega
    first
      | omega
      | exact absurd rfl some_job
      | exact absurd ‹pool.jobs = []› some_job
      | exact absurd alive ‹_›
      | cases alive
      | have := announced alive ‹_›
        omega

/-- The jobs are pulled in the order in which they were pushed, and those that were pulled are
finished or held by one worker. -/
structure Ordered (pool : ThPool α) (threads : ι → Place α) : Prop where
  fifo : pool.added = pool.started ++ pool.jobs
  once : (pool.started : Multiset α) = pool.finished + total Place.held threads

theorem Ordered.kept (ordered : Ordered pool threads)
    (moved : move pool (threads i) act = some (pool', place)) :
    Ordered pool' (Function.update threads i place) := by
  obtain ⟨fifo, once⟩ := ordered
  have held := total_update Place.held threads i place
  generalize threads i = here at moved held
  revert moved
  fun_cases move <;> intro moved <;> cases moved
  case case15 job free jobs_eq =>
    -- the only job is taken
    simp only [Place.held, add_zero] at held
    refine ⟨by simp [fifo, jobs_eq], ?_⟩
    rw [held, ← Multiset.coe_add, once, add_assoc, Multiset.coe_singleton]
  case case16 job next rest free jobs_eq =>
    simp only [Place.held, add_zero] at held
    refine ⟨by simp [fifo, jobs_eq], ?_⟩
    rw [held, ← Multiset.coe_add, once, add_assoc, Multiset.coe_singleton]
  case case18 job =>
    simp only [Place.held, add_zero] at held
    refine ⟨fifo, ?_⟩
    rw [once, ← held, ← Multiset.coe_add, Multiset.coe_singleton, add_assoc,
      add_comm _ ({job} : Multiset α)]
  all_goals
    simp only [Place.held, add_zero, add_left_inj] at held
    exact ⟨by simp [post, postAll, fifo], by simpa [post, postAll, held] using once⟩

/-- The jobs that had been added when the thread called `thpool_wait`. -/
def Place.due : Place α → List α
  | .locking due | .readingLen due | .readingWorking due | .blocked due => due
  | _ => []

/-- A thread that found the queue empty waits for jobs that were pulled. -/
structure Awaited (pool : ThPool α) (threads : ι → Place α) : Prop where
  added : ∀ i, ∀ job ∈ (threads i).due, job ∈ pool.added
  started : ∀ i due, threads i = .readingWorking due → ∀ job ∈ due, job ∈ pool.started

/-- The lists only grow. -/
theorem lists_grow (moved : move pool place act = some (pool', place')) :
    (∀ job ∈ pool.added, job ∈ pool'.added) ∧ ∀ job ∈ pool.started, job ∈ pool'.started := by
  revert moved
  fun_cases move <;> intro moved <;> cases moved <;>
    exact ⟨fun job member => by simp [post, postAll, member],
      fun job member => by simp [post, postAll, member]⟩

/-- What a thread waits for is set when it calls `thpool_wait`. -/
theorem due_of_move (moved : move pool place act = some (pool', place')) :
    ∀ job ∈ place'.due, job ∈ place.due ∨ job ∈ pool.added := by
  revert moved
  fun_cases move <;> intro moved <;> cases moved <;> intro job member
  case case28 => exact Or.inr member
  all_goals first | exact Or.inl member | cases member

/-- A thread reads the number of working threads behind an empty queue. -/
theorem readingWorking_of_move {due : List α}
    (moved : move pool place act = some (pool', .readingWorking due)) :
    place = .readingLen due ∧ pool' = pool ∧ pool.jobs = [] := by
  obtain ⟨place', there⟩ : ∃ place', place' = Place.readingWorking due := ⟨_, rfl⟩
  rw [← there] at moved
  revert moved
  fun_cases move <;> intro moved <;> cases moved
  case case32 empty =>
    cases there
    exact ⟨rfl, rfl, List.length_eq_zero_iff.mp (not_not.mp empty)⟩
  all_goals cases there

omit [Fintype ι] in
theorem Awaited.kept (awaited : Awaited pool threads) (fifo : pool.added = pool.started ++ pool.jobs)
    (moved : move pool (threads i) act = some (pool', place)) :
    Awaited pool' (Function.update threads i place) := by
  obtain ⟨added, started⟩ := awaited
  obtain ⟨added_grows, started_grows⟩ := lists_grow moved
  constructor
  · intro j
    by_cases same : j = i
    · subst same
      rw [Function.update_self]
      exact fun job member => added_grows job
        ((due_of_move moved job member).elim (added j job) id)
    · rw [Function.update_of_ne same]
      exact fun job member => added_grows job (added j job member)
  · intro j due
    by_cases same : j = i
    · subst same
      rw [Function.update_self]
      rintro rfl job member
      -- the queue is empty, so that all jobs were pulled
      obtain ⟨here, rfl, jobs_nil⟩ := readingWorking_of_move moved
      rw [jobs_nil, List.append_nil] at fifo
      exact fifo ▸ added j job (by rw [here]; exact member)
    · rw [Function.update_of_ne same]
      exact fun there job member => started_grows job (started j due there job member)

/-- A place of `thread_do`. -/
def Kind.works : Kind → Bool
  | .testing | .waiting | .asleep | .woken | .entering | .pulling | .reposting | .running | .leaving
  | .ending | .ended => true
  | _ => false

/-- The place of a worker that did not leave `thread_do`. -/
def Kind.alive : Kind → Bool
  | .ended => false
  | kind => kind.works

/-- The number of living workers. -/
def living (threads : ι → Place α) : Nat := count (fun i => (Place.kind i).alive = true) threads

theorem living_update (threads : ι → Place α) (i : ι) (place : Place α) :
    living (Function.update threads i place) + (if (threads i).kind.alive = true then 1 else 0) =
      living threads + (if place.kind.alive = true then 1 else 0) :=
  count_update (fun place : Place α => place.kind.alive = true) threads i place

theorem works_of_move (moved : move pool place act = some (pool', place')) :
    place'.kind.works = place.kind.works := by
  revert moved
  fun_cases move <;> intro moved <;> cases moved <;> rfl

/-- `num_threads_alive` is the number of living workers, none leaves while the pool is kept alive
and none is left when it is destroyed. -/
structure Lives (pool : ThPool α) (threads : ι → Place α) : Prop where
  alive : pool.numThreadsAlive = living threads
  kept : pool.keepalive = true → at_ .ending threads = 0 ∧ at_ .ended threads = 0
  destroyed : 0 < at_ .destroyed threads → living threads = 0

theorem Lives.step (lives : Lives pool threads)
    (moved : move pool (threads i) act = some (pool', place)) :
    Lives pool' (Function.update threads i place) := by
  obtain ⟨alive, kept, destroyed⟩ := lives
  have alive' := living_update threads i place
  have ending' := at_update .ending threads i place
  have ended' := at_update .ended threads i place
  have destroyed' := at_update .destroyed threads i place
  have within : 0 < at_ (threads i).kind threads := count_pos_iff.mpr ⟨i, rfl⟩
  generalize threads i = here at moved alive' ending' ended' destroyed' within
  revert moved
  fun_cases move <;> intro moved <;> cases moved <;>
    simp only [Place.kind, Kind.alive, Kind.works, reduceCtorEq, if_true, if_false, post,
      postAll] at *
  all_goals
    refine ⟨?_, fun alive => ?_, by omega⟩ <;> try dsimp only at *
    · omega
    first
      | have := kept alive
        omega
      | exact absurd alive ‹_›
      | cases alive

/-- What holds in every interleaving. -/
structure Sound (pool : ThPool α) (threads : ι → Place α) : Prop where
  locks : Locks pool threads
  working : Working pool threads
  blocked : Blocked pool threads
  announced : Announced pool threads
  ordered : Ordered pool threads
  awaited : Awaited pool threads
  lives : Lives pool threads

theorem Sound.kept {config next : Config (ThPool α) (Place α) ι} {op : ι × Move α}
    (sound : Sound config.shared config.threads) (made : step move config op = some next) :
    Sound next.shared next.threads := by
  obtain ⟨pool', place, moved, rfl⟩ := step_eq_some.mp made
  exact
    { locks := sound.locks.kept moved
      working := sound.working.kept moved
      blocked := sound.blocked.kept moved
      announced := sound.announced.kept sound.blocked moved
      ordered := sound.ordered.kept moved
      awaited := sound.awaited.kept sound.ordered.fifo moved
      lives := sound.lives.step moved }

omit [DecidableEq ι] in
theorem at_start {worker : ι → Bool} (kind : Kind) (first : kind ≠ .testing) (second : kind ≠ .idle) :
    at_ kind (start (α := α) worker).threads = 0 := by
  refine count_eq_zero_iff.mpr fun i => ?_
  simp only [start]
  split
  · exact fun same => first same.symm
  · exact fun same => second same.symm

omit [DecidableEq ι] in
theorem sound_start (worker : ι → Bool) :
    Sound (start (α := α) worker).shared (start (α := α) worker).threads := by
  have none_at : ∀ kind, kind ≠ .testing → kind ≠ .idle →
      at_ kind (start (α := α) worker).threads = 0 := at_start
  have held_nil : total Place.held (start (α := α) worker).threads = 0 := by
    refine Finset.sum_eq_zero fun i _ => ?_
    simp only [start]
    split <;> rfl
  have alive_iff : ∀ i, ((start (α := α) worker).threads i).kind.alive = true ↔
      worker i = true := by
    intro i
    simp only [start]
    split <;> simp_all [Place.kind, Kind.alive, Kind.works]
  have outside : ∀ i, (start (α := α) worker).threads i = .testing ∨
      (start (α := α) worker).threads i = .idle := by
    intro i
    simp only [start]
    split
    · exact Or.inl rfl
    · exact Or.inr rfl
  exact
    { locks := by
        constructor <;> rw [none_at _ (by decide) (by decide), none_at _ (by decide) (by decide)] <;>
          rfl
      working := by simp [Working, none_at]; rfl
      blocked := ⟨by simp [none_at]; rfl, Nat.le_refl _, by simp [none_at]; rfl, Nat.le_refl _⟩
      announced := ⟨fun _ => Or.inl rfl, fun _ some_job => absurd rfl some_job⟩
      ordered := ⟨rfl, by rw [held_nil]; rfl⟩
      awaited := by
        constructor
        · intro i job member
          rcases outside i with here | here <;> rw [here] at member <;> cases member
        · intro i due there
          rcases outside i with here | here <;> rw [here] at there <;> cases there
      lives := ⟨congrArg _ (congrArg Finset.card (Finset.filter_congr fun i _ => (alive_iff i).symm)),
        fun _ => ⟨none_at _ (by decide) (by decide), none_at _ (by decide) (by decide)⟩,
        fun some_destroyed => by
          rw [none_at _ (by decide) (by decide)] at some_destroyed
          exact absurd some_destroyed (Nat.lt_irrefl 0)⟩ }

/-! ## One caller of `thpool_wait` -/

/-- A place of `thpool_wait`. -/
def Kind.waits : Kind → Bool
  | .locking | .readingLen | .readingWorking | .blocked => true
  | _ => false

/-- No thread calls `thpool_wait` while another one is in it. -/
def Alone (config : Config (ThPool α) (Place α) ι) (op : ι × Move α) : Prop :=
  match op.2 with
  | .wait => ∀ i, (config.threads i).kind.waits = false
  | _ => True

instance (config : Config (ThPool α) (Place α) ι) (op : ι × Move α) :
    Decidable (Alone config op) := by
  unfold Alone
  split <;> infer_instance

/-- A caller that is blocked alone will be woken. -/
structure Woken (pool : ThPool α) (threads : ι → Place α) : Prop where
  one : at_ .locking threads + at_ .readingLen threads + at_ .readingWorking threads +
    at_ .blocked threads ≤ 1
  woken : pool.threadsAllIdle.blocked ≠ 0 →
    0 < pool.threadsAllIdle.woken ∨ pool.jobs ≠ [] ∨ pool.numThreadsWorking ≠ 0

theorem Woken.kept (sound : Woken pool threads) (working : Working pool threads)
    (blocked : Blocked pool threads)
    (alone : (threads i).kind = .idle → place.kind = .locking →
      at_ .locking threads + at_ .readingLen threads + at_ .readingWorking threads +
        at_ .blocked threads = 0)
    (moved : move pool (threads i) act = some (pool', place)) :
    Woken pool' (Function.update threads i place) := by
  obtain ⟨one, woken⟩ := sound
  obtain ⟨-, -, blocked, blocked_woken⟩ := blocked
  have locking' := at_update .locking threads i place
  have readingLen' := at_update .readingLen threads i place
  have readingWorking' := at_update .readingWorking threads i place
  have blocked' := at_update .blocked threads i place
  have within : 0 < at_ (threads i).kind threads := count_pos_iff.mpr ⟨i, rfl⟩
  unfold Working at working
  generalize threads i = here at moved alone locking' readingLen' readingWorking' blocked' within
  revert moved
  fun_cases move <;> intro moved <;> cases moved <;>
    simp only [Place.kind, reduceCtorEq, if_true, if_false, post, postAll, Cond.signal, Cond.wait,
      Cond.wake, Cond.wakeSpurious, Cond.broadcast] at * <;>
    constructor <;> grind [List.append_eq_nil_iff]

/-- What holds in every interleaving in which calls of `thpool_wait` do not overlap. -/
structure SoundAlone (pool : ThPool α) (threads : ι → Place α) : Prop where
  sound : Sound pool threads
  woken : Woken pool threads

theorem SoundAlone.kept {config next : Config (ThPool α) (Place α) ι} {op : ι × Move α}
    (sound : SoundAlone config.shared config.threads) (alone : Alone config op)
    (made : step move config op = some next) : SoundAlone next.shared next.threads := by
  refine ⟨sound.sound.kept made, ?_⟩
  obtain ⟨pool', place, moved, rfl⟩ := step_eq_some.mp made
  obtain ⟨i, act⟩ := op
  refine sound.woken.kept sound.sound.working sound.sound.blocked ?_ moved
  intro here there
  have none_waits : ∀ j, (config.threads j).kind.waits = false := by
    obtain idle : config.threads i = .idle := by
      cases place : config.threads i <;> simp_all [Place.kind]
    cases act with
    | wait => exact alone
    | add | destroy =>
        simp only [idle, move, Option.some.injEq, Prod.mk.injEq] at moved
        rw [← moved.2] at there
        cases there
    | access | spurious => simp [idle, move] at moved
  have none_at : ∀ kind : Kind, kind.waits = true → at_ kind config.threads = 0 := by
    intro kind waits
    refine count_eq_zero_iff.mpr fun j same => ?_
    have := none_waits j
    rw [same, waits] at this
    cases this
  rw [none_at _ rfl, none_at _ rfl, none_at _ rfl, none_at _ rfl]

/-! ## Results -/

/-- No thread can go on by itself. -/
def Stuck (config : Config (ThPool α) (Place α) ι) : Prop :=
  ∀ i, step move config (i, .access) = none

omit [Fintype ι] in
theorem Stuck.blocked {config : Config (ThPool α) (Place α) ι} (stuck : Stuck config) (i : ι) :
    move config.shared (config.threads i) .access = none := by
  have := stuck i
  simpa [step] using this

/-- The places where a thread may stay. -/
def Kind.rests : Kind → Bool
  | .asleep | .ended | .idle | .blocked | .destroyed => true
  | _ => false

theorem eq_asleep_of_rests (rests : place.kind.rests = true) (works : place.kind.works = true)
    (other : place.kind ≠ .ended) : place = .asleep := by
  cases place with
  | asleep => rfl
  | ended => exact absurd rfl other
  | idle | blocked | destroyed => cases works
  | _ => cases rests

theorem held_of_rests (rests : place.kind.rests = true) : place.held = 0 := by
  cases place with
  | reposting | running => cases rests
  | _ => rfl

theorem waits_of_rests (rests : place.kind.rests = true) (other : place.kind ≠ .blocked) :
    place.kind.waits = false := by
  cases place with
  | blocked => exact absurd rfl other
  | locking | readingLen | readingWorking => cases rests
  | _ => rfl

/-- In a state in which no thread can go on, no lock is held, so that all workers sleep. -/
theorem Stuck.places {config : Config (ThPool α) (Place α) ι} (stuck : Stuck config)
    (locks : Locks config.shared config.threads) (i : ι) :
    (config.threads i).kind.rests = true ∧
      (config.threads i = .asleep → config.shared.hasJobsCond.woken = 0) ∧
      ((config.threads i).kind = .blocked → config.shared.threadsAllIdle.woken = 0) := by
  obtain ⟨queue, counters⟩ := locks
  have free : ∀ kind : Kind, kind ∈ [Kind.reposting, .posting, .readingLen, .readingWorking] →
      at_ kind config.threads = 0 := by
    intro kind member
    refine count_eq_zero_iff.mpr fun j here => ?_
    have blocked := stuck.blocked j
    generalize config.threads j = place at blocked here
    cases place <;> simp_all [Place.kind, move] <;> grind
  rw [free .reposting (by simp), free .posting (by simp)] at queue
  rw [free .readingLen (by simp), free .readingWorking (by simp)] at counters
  have blocked := stuck.blocked i
  generalize config.threads i = place at blocked
  cases place <;> simp_all [Place.kind, Kind.rests, move] <;> grind

omit [Fintype ι] in
/-- A thread that starts as a worker stays one. -/
theorem works_of_run {config final : Config (ThPool α) (Place α) ι} {ops : List (ι × Move α)}
    (made : run (step move) config ops = some final) (i : ι) :
    (final.threads i).kind.works = (config.threads i).kind.works := by
  refine run_invariant (fun state => (state.threads i).kind.works = (config.threads i).kind.works)
    (fun {state next op} same made => ?_) rfl made
  obtain ⟨pool', place, moved, rfl⟩ := step_eq_some.mp made
  by_cases here : i = op.1
  · subst here
    simpa using (works_of_move moved).trans same
  · simpa [Function.update_of_ne here] using same

/-- No wake-up is lost: when no thread can go on by itself while the pool is kept alive and has a
worker, all jobs that were pushed are finished.  If calls of `thpool_wait` did not overlap, none of
them is blocked then. -/
theorem finished_of_stuck {worker : ι → Bool} {ops : List (ι × Move α)}
    {config : Config (ThPool α) (Place α) ι}
    (made : run (step move) (start worker) ops = some config)
    (alive : config.shared.keepalive = true) {w : ι} (some_worker : worker w = true)
    (stuck : Stuck config) :
    config.shared.jobs = [] ∧ config.shared.finished.Perm config.shared.added ∧
      (Admissible (step move) Alone (start worker) ops →
        ∀ i, (config.threads i).kind.waits = false) := by
  have sound : Sound config.shared config.threads :=
    run_invariant (fun config => Sound config.shared config.threads)
      (fun met made => met.kept made) (sound_start worker) made
  have places := stuck.places sound.locks
  have out : ∀ kind : Kind, kind.rests = false → at_ kind config.threads = 0 := by
    refine fun kind other => count_eq_zero_iff.mpr fun i same => ?_
    have rests := (places i).1
    rw [same, other] at rests
    cases rests
  -- the worker sleeps and nobody woke it
  have asleep : config.threads w = .asleep := by
    have works : (config.threads w).kind.works = true := by
      rw [works_of_run made w]
      simp [start, some_worker, Place.kind, Kind.works]
    exact eq_asleep_of_rests (places w).1 works
      (count_eq_zero_iff.mp (sound.lives.kept alive).2 w)
  have some_asleep : 0 < at_ .asleep config.threads := count_pos_iff.mpr ⟨w, by rw [asleep]; rfl⟩
  have unwoken := (places w).2.1 asleep
  have blocked := sound.blocked.asleep
  have waiting := out .waiting rfl
  have not_called : config.shared.hasJobs ≠ 1 := by
    intro called
    have := sound.announced.called called
    omega
  have jobs_nil : config.shared.jobs = [] := by
    by_contra some_job
    have := sound.announced.announced alive some_job
    have := out .posting rfl
    have := out .reposting rfl
    have := out .woken rfl
    have := out .entering rfl
    have := out .pulling rfl
    omega
  have held_nil : total Place.held config.threads = 0 :=
    Finset.sum_eq_zero fun j _ => held_of_rests (places j).1
  refine ⟨jobs_nil, ?_, fun alone i => ?_⟩
  · have once := sound.ordered.once
    have fifo := sound.ordered.fifo
    rw [jobs_nil, List.append_nil] at fifo
    rw [held_nil, add_zero, ← fifo] at once
    exact (Multiset.coe_eq_coe.mp once).symm
  · have woken := (alone.run_invariant
      (fun config : Config (ThPool α) (Place α) ι => SoundAlone config.shared config.threads)
      (fun met allowed made => met.kept allowed made)
      ⟨sound_start worker, by
        constructor
        · rw [at_start _ (by decide) (by decide), at_start _ (by decide) (by decide),
            at_start _ (by decide) (by decide), at_start _ (by decide) (by decide)]
          decide
        · exact fun blocked => absurd rfl blocked⟩ made).woken.woken
    have working := sound.working
    unfold Working at working
    rw [out .pulling rfl, out .reposting rfl, out .running rfl,
      out .leaving rfl] at working
    by_cases here : (config.threads i).kind = .blocked
    · have unwoken := (places i).2.2 here
      have some_blocked : 0 < at_ .blocked config.threads := count_pos_iff.mpr ⟨i, here⟩
      rcases woken (by rw [sound.blocked.blocked]; omega) with woken | some_job | busy
      · omega
      · exact absurd jobs_nil some_job
      · exact absurd working busy
    · exact waits_of_rests (places i).1 here

/-- The worker sleeps again behind its job. -/
theorem job_finishes : ∃ config : Config (ThPool Nat) (Place Nat) (Fin 2),
    config.threads 0 = .asleep ∧ config.shared.finished.Perm config.shared.added := by
  have made : run (step move) (start fun i : Fin 2 => i = 0)
      [(0, .access), (1, .add 7), (1, .access), (1, .access), (0, .access), (0, .access),
        (0, .access), (0, .access), (0, .access), (0, .access), (0, .access), (0, .access)] =
        some _ := rfl
  exact ⟨_, rfl, (finished_of_stuck made rfl (w := 0) rfl (Fin.forall_fin_two.mpr ⟨rfl, rfl⟩)).2.1⟩

end ThPool

end CommonLib
