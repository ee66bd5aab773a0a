import CommonLib.Net.TimerQueue
import Mathlib.Data.List.Nodup
import Mathlib.Data.List.Perm.Subperm
import Mathlib.Data.List.TakeWhile

/-!
# Timers as lists

What the timer queue is for, without pointers: the queued timers are a list in the order of their
timestamps, an expired timer waits in another list for its turn, and one timer may be in its
callback.  The functions of `timer_queue.c` are restated on these lists.
-/

namespace CommonLib

/-! ## Lists sorted by timestamps -/

section Sorted

variable {stamp stamp' : Nat → UInt64} {timestamp : UInt64} {timer : Nat} {cells : List Nat}

/-- The timers of a list up to a timestamp. -/
def early (stamp : Nat → UInt64) (timestamp : UInt64) (cells : List Nat) : List Nat :=
  cells.takeWhile fun timer => stamp timer ≤ timestamp

/-- The timers of a list from the first one behind a timestamp on. -/
def late (stamp : Nat → UInt64) (timestamp : UInt64) (cells : List Nat) : List Nat :=
  cells.dropWhile fun timer => stamp timer ≤ timestamp

theorem early_append_late (stamp : Nat → UInt64) (timestamp : UInt64) (cells : List Nat) :
    early stamp timestamp cells ++ late stamp timestamp cells = cells :=
  List.takeWhile_append_dropWhile

theorem early_le (member : timer ∈ early stamp timestamp cells) : stamp timer ≤ timestamp := by
  simpa using List.mem_takeWhile_imp member

theorem late_lt (sorted : cells.Pairwise fun first second => stamp first ≤ stamp second)
    (member : timer ∈ late stamp timestamp cells) : timestamp < stamp timer := by
  induction cells with
  | nil => cases member
  | cons first cells induction =>
      obtain ⟨first_le, sorted⟩ := List.pairwise_cons.mp sorted
      by_cases passed : stamp first ≤ timestamp
      · rw [late, List.dropWhile_cons_of_pos (by simpa using passed)] at member
        exact induction sorted member
      · rw [late, List.dropWhile_cons_of_neg (by simpa using passed)] at member
        have first_lt : timestamp < stamp first := UInt64.not_le.mp passed
        rcases List.mem_cons.mp member with rfl | later
        · exact first_lt
        · exact UInt64.lt_of_lt_of_le first_lt (first_le timer later)

theorem early_late_congr (timestamp : UInt64) (same : ∀ timer ∈ cells, stamp' timer = stamp timer) :
    early stamp' timestamp cells = early stamp timestamp cells ∧
      late stamp' timestamp cells = late stamp timestamp cells := by
  induction cells with
  | nil => exact ⟨rfl, rfl⟩
  | cons first cells induction =>
      obtain ⟨early_eq, late_eq⟩ := induction fun timer member => same timer (by simp [member])
      unfold early late at *
      by_cases passed : stamp first ≤ timestamp
      · simp [same first (by simp), passed, early_eq, late_eq]
      · simp [same first (by simp), passed]

/-- In a sorted list the timers up to a timestamp stand in front. -/
theorem early_eq_filter (sorted : cells.Pairwise fun first second => stamp first ≤ stamp second) :
    early stamp timestamp cells = cells.filter fun timer => stamp timer ≤ timestamp := by
  conv_rhs => rw [← early_append_late stamp timestamp cells, List.filter_append]
  rw [List.filter_eq_self.mpr, List.filter_eq_nil_iff.mpr, List.append_nil]
  · intro timer member
    simpa using late_lt sorted member
  · intro timer member
    simpa using early_le member

end Sorted

/-! ## The machine -/

/-- The timers without links, and where they are. -/
structure TimerLists where
  timers : Nat → Option LoopTimer
  allocs : Nat
  clock : UInt64
  trace : List TimerEvent
  /-- The timer whose callback runs. -/
  current : Option Nat
  /-- The expired timers whose turn is to come. -/
  done : List Nat
  /-- The timers whose insertion is not yet done. -/
  waiting : List Nat
  /-- The queued timers. -/
  cells : List Nat

namespace TimerLists

def create (clock : UInt64) : TimerLists :=
  { timers := fun _ => none, allocs := 0, clock, trace := [], current := none, done := [],
    waiting := [], cells := [] }

def stamp (lists : TimerLists) (timer : Nat) : UInt64 :=
  ((lists.timers timer).map LoopTimer.timestamp).getD 0

def record (lists : TimerLists) (event : TimerEvent) : TimerLists :=
  { lists with trace := event :: lists.trace }

def modify (lists : TimerLists) (timer : Nat) (change : LoopTimer → LoopTimer) : TimerLists :=
  { lists with timers := Function.update lists.timers timer ((lists.timers timer).map change) }

def free (lists : TimerLists) (timer : Nat) : TimerLists :=
  { lists with timers := Function.update lists.timers timer none }.record (.freed timer)

/-- Put a timer behind those that are not later. -/
def insert (lists : TimerLists) (timer : Nat) : TimerLists :=
  { lists.modify timer ({ · with isInQueue := true }) with
    cells := early lists.stamp (lists.stamp timer) lists.cells ++
      timer :: late lists.stamp (lists.stamp timer) lists.cells }.record (.inserted timer)

/-- A new timer, not yet inserted. -/
def alloc (lists : TimerLists) (timestamp : UInt64) (interval : UInt32) : TimerLists :=
  { lists with
    timers := Function.update lists.timers lists.allocs (some
      { timestamp, interval, isInCallback := false, isAlive := true, isExpired := false,
        isInQueue := false, prev := none, next := none })
    allocs := lists.allocs + 1 }.record (.added lists.allocs timestamp interval)

def add (lists : TimerLists) (timestamp : UInt64) (interval : UInt32) : TimerLists :=
  (lists.alloc timestamp interval).insert lists.allocs

def cancel (lists : TimerLists) (timer : Nat) : TimerLists :=
  match lists.timers timer with
  | none => lists
  | some value =>
      if value.isInCallback ∨ value.isExpired ∨ ¬ value.isInQueue then
        (lists.record (.cancelled timer)).modify timer ({ · with isAlive := false })
      else
        ({ lists with cells := lists.cells.erase timer }.record (.cancelled timer)).free timer

def refresh (lists : TimerLists) (timer : Nat) : TimerLists :=
  match lists.timers timer with
  | none => lists
  | some value =>
      if value.interval > 0 then
        ({ lists with
          cells := lists.cells.erase timer
          done := lists.done.erase timer }.modify timer
            ({ · with timestamp := lists.clock + value.interval.toUInt64 })).insert timer
      else lists

/-- What happens to a timer after its turn. -/
def retire (lists : TimerLists) (timer : Nat) : TimerLists :=
  match lists.timers timer with
  | none => lists
  | some value =>
      if value.isAlive ∧ value.interval ≠ 0 then
        (lists.modify timer fun value =>
          { value with
            timestamp := value.timestamp + value.interval.toUInt64
            isExpired := false }).insert timer
      else lists.free timer

/-- Take the expired timers up to the first one that is alive. -/
def serve : List Nat → TimerLists → TimerLists
  | [], lists => { lists with done := [] }
  | timer :: done, lists =>
      match lists.timers timer with
      | none => lists
      | some value =>
          if value.isAlive then
            ({ lists with current := some timer, done }.record (.turn timer)).modify timer
              ({ · with isInCallback := true }) |>.record (.called timer)
          else serve done (({ lists with done }.record (.turn timer)).free timer)

/-- Move the due timers to the expired ones. -/
def cutDue (lists : TimerLists) : TimerLists :=
  let due := early lists.stamp lists.clock lists.cells
  { lists with
    timers := fun timer =>
      if timer ∈ due then (lists.timers timer).map ({ · with isExpired := true })
      else lists.timers timer
    cells := late lists.stamp lists.clock lists.cells
    done := due }

def process (lists : TimerLists) : TimerLists := serve lists.cutDue.done lists.cutDue

def callbackReturns (lists : TimerLists) : TimerLists :=
  match lists.current with
  | none => lists
  | some timer =>
      serve lists.done
        (({ lists with current := none }.modify timer ({ · with isInCallback := false })).retire
          timer)

open TimerLoop in
def step (lists : TimerLists) : Op → TimerLists
  | .add timestamp interval => lists.add timestamp interval
  | .cancel timer => lists.cancel timer
  | .refresh timer => lists.refresh timer
  | .process => lists.process
  | .callbackReturns => lists.callbackReturns
  | .tick clock => { lists with clock }

section Fields

variable (lists : TimerLists) (event : TimerEvent)

@[simp] theorem record_timers : (lists.record event).timers = lists.timers := rfl

@[simp] theorem record_allocs : (lists.record event).allocs = lists.allocs := rfl

@[simp] theorem record_clock : (lists.record event).clock = lists.clock := rfl

@[simp] theorem record_trace : (lists.record event).trace = event :: lists.trace := rfl

@[simp] theorem record_current : (lists.record event).current = lists.current := rfl

@[simp] theorem record_done : (lists.record event).done = lists.done := rfl

@[simp] theorem record_waiting : (lists.record event).waiting = lists.waiting := rfl

@[simp] theorem record_cells : (lists.record event).cells = lists.cells := rfl

variable (timer : Nat) (change : LoopTimer → LoopTimer)

@[simp] theorem modify_timers : (lists.modify timer change).timers =
    Function.update lists.timers timer ((lists.timers timer).map change) := rfl

@[simp] theorem modify_allocs : (lists.modify timer change).allocs = lists.allocs := rfl

@[simp] theorem modify_trace : (lists.modify timer change).trace = lists.trace := rfl

@[simp] theorem modify_current : (lists.modify timer change).current = lists.current := rfl

@[simp] theorem modify_done : (lists.modify timer change).done = lists.done := rfl

@[simp] theorem modify_cells : (lists.modify timer change).cells = lists.cells := rfl

@[simp] theorem free_timers : (lists.free timer).timers = Function.update lists.timers timer none :=
  rfl

@[simp] theorem free_allocs : (lists.free timer).allocs = lists.allocs := rfl

@[simp] theorem free_trace : (lists.free timer).trace = .freed timer :: lists.trace := rfl

@[simp] theorem free_current : (lists.free timer).current = lists.current := rfl

@[simp] theorem free_done : (lists.free timer).done = lists.done := rfl

@[simp] theorem free_cells : (lists.free timer).cells = lists.cells := rfl

@[simp] theorem insert_timers : (lists.insert timer).timers = Function.update lists.timers timer
    ((lists.timers timer).map ({ · with isInQueue := true })) := rfl

@[simp] theorem insert_allocs : (lists.insert timer).allocs = lists.allocs := rfl

@[simp] theorem insert_trace : (lists.insert timer).trace = .inserted timer :: lists.trace := rfl

@[simp] theorem insert_current : (lists.insert timer).current = lists.current := rfl

@[simp] theorem insert_done : (lists.insert timer).done = lists.done := rfl

theorem insert_cells : (lists.insert timer).cells =
    early lists.stamp (lists.stamp timer) lists.cells ++
      timer :: late lists.stamp (lists.stamp timer) lists.cells := rfl

theorem stamp_congr {lists' : TimerLists} {timer : Nat}
    (same : lists'.timers timer = lists.timers timer) : lists'.stamp timer = lists.stamp timer := by
  rw [stamp, stamp, same]

@[simp] theorem insert_stamp (other : Nat) : (lists.insert timer).stamp other = lists.stamp other := by
  by_cases same : other = timer
  · subst same
    simp [stamp, Function.comp_def]
  · simp [stamp, same]

end Fields

section Equations

variable {lists : TimerLists} {timer : Nat} {value : LoopTimer}

theorem cancel_held (found : lists.timers timer = some value)
    (held : ¬ (value.isInCallback = false ∧ value.isExpired = false ∧ value.isInQueue = true)) :
    lists.cancel timer =
      (lists.record (.cancelled timer)).modify timer ({ · with isAlive := false }) := by
  rw [cancel, found]
  dsimp only
  rw [if_pos]
  simpa [or_iff_not_imp_left] using held

theorem cancel_queued (found : lists.timers timer = some value)
    (queued : value.isInCallback = false ∧ value.isExpired = false ∧ value.isInQueue = true) :
    lists.cancel timer =
      ({ lists with cells := lists.cells.erase timer }.record (.cancelled timer)).free timer := by
  rw [cancel, found]
  dsimp only
  rw [if_neg]
  simpa using queued

theorem retire_periodic (found : lists.timers timer = some value)
    (periodic : value.isAlive = true ∧ value.interval ≠ 0) :
    lists.retire timer = (lists.modify timer fun value =>
      { value with
        timestamp := value.timestamp + value.interval.toUInt64
        isExpired := false }).insert timer := by
  rw [retire, found]
  exact if_pos periodic

theorem retire_last (found : lists.timers timer = some value)
    (last : ¬ (value.isAlive = true ∧ value.interval ≠ 0)) :
    lists.retire timer = lists.free timer := by
  rw [retire, found]
  exact if_neg last

theorem serve_alive {done : List Nat} (found : lists.timers timer = some value)
    (alive : value.isAlive = true) :
    serve (timer :: done) lists =
      (({ lists with current := some timer, done }.record (.turn timer)).modify timer
        ({ · with isInCallback := true })).record (.called timer) := by
  rw [serve, found]
  exact if_pos alive

theorem serve_dead {done : List Nat} (found : lists.timers timer = some value)
    (dead : value.isAlive = false) :
    serve (timer :: done) lists =
      serve done (({ lists with done }.record (.turn timer)).free timer) := by
  rw [serve, found]
  exact if_neg (by simp [dead])

end Equations

/-! ## Where the timers are -/

/-- The timers that are somewhere. -/
def held (lists : TimerLists) : List Nat :=
  lists.current.toList ++ lists.done ++ lists.waiting ++ lists.cells

/-- The flags of a timer say where it is; a queued timer may be marked expired. -/
structure Flags (loose : Option Nat) (lists : TimerLists) (timer : Nat) (value : LoopTimer) :
    Prop where
  inCallback : value.isInCallback = true ↔ lists.current = some timer
  expired : timer ∈ lists.current.toList ++ lists.done → value.isExpired = true
  inQueue : loose ≠ some timer → (value.isInQueue = false ↔ timer ∈ lists.waiting)

/-- The allocated timers are each in one place, which their flags name; only `loose` is on its way
from one place to another. -/
structure WellFormed (loose : Option Nat) (lists : TimerLists) : Prop where
  nodup : (loose.toList ++ lists.held).Nodup
  allocated : ∀ timer, (lists.timers timer).isSome ↔ timer ∈ loose.toList ++ lists.held
  below : ∀ timer ∈ loose.toList ++ lists.held, timer < lists.allocs
  flags : ∀ timer value, lists.timers timer = some value → Flags loose lists timer value

variable {lists lists' : TimerLists} {loose loose' : Option Nat} {timer : Nat} {value : LoopTimer}

/-- Timers that change places. -/
theorem WellFormed.move (wellFormed : WellFormed loose lists)
    (perm : (loose'.toList ++ lists'.held).Perm (loose.toList ++ lists.held))
    (isSome : ∀ timer, (lists'.timers timer).isSome = (lists.timers timer).isSome)
    (allocs : lists'.allocs = lists.allocs)
    (flags : ∀ timer value, lists'.timers timer = some value → Flags loose' lists' timer value) :
    WellFormed loose' lists' where
  nodup := perm.nodup_iff.mpr wellFormed.nodup
  allocated := fun timer => by rw [isSome, wellFormed.allocated, perm.mem_iff]
  below := fun timer member => allocs ▸ wellFormed.below timer (perm.mem_iff.mp member)
  flags := flags

theorem WellFormed.found (wellFormed : WellFormed loose lists)
    (member : timer ∈ loose.toList ++ lists.held) : ∃ value, lists.timers timer = some value :=
  Option.isSome_iff_exists.mp ((wellFormed.allocated timer).mpr member)

theorem WellFormed.lt_allocs (wellFormed : WellFormed loose lists)
    (found : lists.timers timer = some value) : timer < lists.allocs :=
  wellFormed.below timer ((wellFormed.allocated timer).mp (by simp [found]))

theorem WellFormed.apart (wellFormed : WellFormed loose lists) :
    ∀ timer ∈ lists.done, timer ∉ lists.cells := by
  intro timer waits queued
  have once := List.nodup_iff_count_le_one.mp wellFormed.nodup timer
  simp only [held, List.count_append] at once
  have := List.count_pos_iff.mpr waits
  have := List.count_pos_iff.mpr queued
  omega

theorem WellFormed.not_waiting (wellFormed : WellFormed none lists)
    (member : timer ∈ lists.cells) : timer ∉ lists.waiting := by
  have once := List.nodup_iff_count_le_one.mp wellFormed.nodup timer
  have queued := List.count_pos_iff.mpr member
  simp only [held, List.count_append] at once
  exact fun waits => absurd (List.count_pos_iff.mpr waits) (by omega)

theorem done_sublist_held (lists : TimerLists) : lists.done.Sublist lists.held :=
  ((List.sublist_append_right lists.current.toList lists.done).trans
    (List.sublist_append_left _ lists.waiting)).trans (List.sublist_append_left _ lists.cells)

theorem WellFormed.length_done_le (wellFormed : WellFormed none lists) :
    lists.done.length ≤ lists.allocs := by
  have nodup : lists.done.Nodup := wellFormed.nodup.sublist lists.done_sublist_held
  have inside : lists.done ⊆ List.range lists.allocs := fun timer member =>
    List.mem_range.mpr (wellFormed.below timer (lists.done_sublist_held.subset member))
  simpa using (nodup.subperm inside).length_le

theorem WellFormed.outside (wellFormed : WellFormed (some timer) lists) :
    timer ∉ lists.cells ∧ timer ∉ lists.done ∧ timer < lists.allocs := by
  have absent : timer ∉ lists.held := by
    have nodup := wellFormed.nodup
    exact (List.nodup_cons.mp (by simpa using nodup)).1
  exact ⟨fun member => absent (by simp [held, member]),
    fun member => absent (by simp [held, member]), wellFormed.below timer (by simp)⟩

theorem modify_isSome (lists : TimerLists) (timer : Nat) (change : LoopTimer → LoopTimer)
    (other : Nat) :
    ((lists.modify timer change).timers other).isSome = (lists.timers other).isSome := by
  by_cases same : other = timer
  · subst same
    simp [modify]
  · simp [modify, same]

theorem modify_eq_some {change : LoopTimer → LoopTimer} {other : Nat}
    (found : (lists.modify timer change).timers other = some value) :
    (other = timer ∧ ∃ old, lists.timers timer = some old ∧ value = change old) ∨
      (other ≠ timer ∧ lists.timers other = some value) := by
  by_cases same : other = timer
  · subst same
    obtain ⟨old, foundOld, rfl⟩ : ∃ old, lists.timers other = some old ∧ change old = value := by
      simpa [modify] using found
    exact .inl ⟨rfl, old, foundOld, rfl⟩
  · exact .inr ⟨same, by simpa [modify, same] using found⟩

/-- Fields other than the flags do not matter. -/
theorem WellFormed.modify (wellFormed : WellFormed loose lists) (timer : Nat)
    {change : LoopTimer → LoopTimer}
    (inCallback : ∀ value, (change value).isInCallback = value.isInCallback)
    (expired : ∀ value, timer ∈ lists.current.toList ++ lists.done →
      value.isExpired = true → (change value).isExpired = true)
    (inQueue : ∀ value, (change value).isInQueue = value.isInQueue) :
    WellFormed loose (lists.modify timer change) := by
  refine wellFormed.move (.refl _) (modify_isSome lists timer change) rfl ?_
  intro other value found
  rcases modify_eq_some found with ⟨rfl, old, foundOld, rfl⟩ | ⟨-, found⟩
  · obtain ⟨inCallback', expired', inQueue'⟩ := wellFormed.flags _ old foundOld
    exact ⟨inCallback old ▸ inCallback', fun member => expired old member (expired' member),
      inQueue old ▸ inQueue'⟩
  · obtain ⟨inCallback', expired', inQueue'⟩ := wellFormed.flags other value found
    exact ⟨inCallback', expired', inQueue'⟩

theorem WellFormed.record (wellFormed : WellFormed loose lists) (event : TimerEvent) :
    WellFormed loose (lists.record event) := by
  refine wellFormed.move (.refl _) (fun _ => rfl) rfl fun other value found => ?_
  obtain ⟨inCallback, expired, inQueue⟩ := wellFormed.flags other value found
  exact ⟨inCallback, expired, inQueue⟩

theorem WellFormed.insert (wellFormed : WellFormed (some timer) lists) :
    WellFormed none (lists.insert timer) := by
  have parts := early_append_late lists.stamp (lists.stamp timer) lists.cells
  have absent : timer ∉ lists.held := by
    have nodup := wellFormed.nodup
    exact (List.nodup_cons.mp (by simpa using nodup)).1
  refine wellFormed.move ?_ (modify_isSome lists timer _) rfl fun other value found => ?_
  · refine List.perm_iff_count.mpr fun other => ?_
    have counts := congrArg (List.count other) parts
    simp only [List.count_append] at counts
    simp only [TimerLists.insert, held, record_current, record_done, record_waiting, record_cells,
      TimerLists.modify, Option.toList_none,
      List.nil_append, Option.toList_some, List.count_append, List.count_cons, List.count_nil]
    omega
  · rcases modify_eq_some found with ⟨rfl, old, foundOld, rfl⟩ | ⟨other_ne, found⟩
    · obtain ⟨inCallback, expired, -⟩ := wellFormed.flags _ old foundOld
      refine ⟨inCallback, expired, fun _ => ?_⟩
      have apart : other ∉ lists.waiting := fun member => absent (by simp [held, member])
      exact ⟨fun marked => absurd marked (by simp), fun member => absurd member apart⟩
    · obtain ⟨inCallback, expired, inQueue⟩ := wellFormed.flags other value found
      exact ⟨inCallback, expired, fun _ => inQueue fun same => other_ne (Option.some.inj same).symm⟩

theorem WellFormed.free (wellFormed : WellFormed (some timer) lists) :
    WellFormed none (lists.free timer) := by
  obtain ⟨nodup, allocated, below, flags⟩ := wellFormed
  obtain ⟨absent, nodup⟩ : timer ∉ lists.held ∧ lists.held.Nodup := by simpa using nodup
  have found_eq {other : Nat} {value : LoopTimer}
      (found : (lists.free timer).timers other = some value) :
      other ≠ timer ∧ lists.timers other = some value := by
    have other_ne : other ≠ timer := by
      rintro rfl
      simp [TimerLists.free] at found
    exact ⟨other_ne, by simpa [TimerLists.free, other_ne] using found⟩
  refine ⟨nodup, fun other => ?_, fun other member => below other (by simp; exact .inr member),
    fun other value found => ?_⟩
  · by_cases same : other = timer
    · subst same
      have gone : ((lists.free other).timers other).isSome = false := by
        simp [TimerLists.free]
      rw [gone]
      exact ⟨fun impossible => (by cases impossible), fun member => absurd member absent⟩
    · have kept : (lists.free timer).timers other = lists.timers other := by
        simp [TimerLists.free, same]
      rw [kept, allocated]
      simp [same, TimerLists.free, held]
  · obtain ⟨other_ne, found⟩ := found_eq found
    obtain ⟨inCallback, expired, inQueue⟩ := flags other value found
    exact ⟨inCallback, expired, fun _ => inQueue fun same => other_ne (Option.some.inj same).symm⟩

theorem WellFormed.alloc (wellFormed : WellFormed none lists) (timestamp : UInt64)
    (interval : UInt32) :
    WellFormed (some lists.allocs) (lists.alloc timestamp interval) := by
  obtain ⟨nodup, allocated, below, flags⟩ := wellFormed
  have absent : lists.allocs ∉ lists.held := fun member => Nat.lt_irrefl _ (below _ member)
  refine ⟨List.nodup_cons.mpr ⟨absent, nodup⟩, fun other => ?_, fun other member => ?_,
    fun other value found => ?_⟩
  · by_cases same : other = lists.allocs
    · subst same
      simp [TimerLists.alloc]
    · have kept : (lists.alloc timestamp interval).timers other = lists.timers other := by
        simp [TimerLists.alloc, same]
      rw [kept, allocated]
      simp [same, TimerLists.alloc, held]
  · rcases List.mem_cons.mp member with rfl | member
    · exact Nat.lt_succ_self _
    · exact Nat.lt_succ_of_lt (below other member)
  · have outside {places : List Nat} (inside : ∀ timer ∈ places, timer ∈ lists.held) :
        lists.allocs ∉ places := fun member => absent (inside _ member)
    by_cases same : other = lists.allocs
    · subst same
      obtain rfl : _ = value := by simpa [TimerLists.alloc] using found
      refine ⟨⟨fun marked => absurd marked (by simp), fun running => ?_⟩, fun member => ?_,
        fun loose => absurd rfl loose⟩
      · refine absurd ?_ absent
        have running : lists.current = some lists.allocs := running
        simp [held, running]
      · refine absurd ?_ absent
        have member : lists.allocs ∈ lists.current.toList ++ lists.done := member
        rw [held, List.append_assoc]
        exact List.mem_append_left _ member
    · have found : lists.timers other = some value := by
        simpa [TimerLists.alloc, same] using found
      obtain ⟨inCallback, expired, inQueue⟩ := flags other value found
      exact ⟨inCallback, expired, fun _ => inQueue (by simp)⟩

/-- Take a timer out of the queued or the expired ones. -/
theorem WellFormed.takeOut (wellFormed : WellFormed none lists)
    (member : timer ∈ lists.done ++ lists.cells) :
    WellFormed (some timer)
      { lists with cells := lists.cells.erase timer, done := lists.done.erase timer } := by
  have once := List.nodup_iff_count_le_one.mp wellFormed.nodup
  refine wellFormed.move ?_ (fun _ => rfl) rfl fun other value found => ?_
  · refine List.perm_iff_count.mpr fun other => ?_
    have here := List.count_pos_iff.mpr member
    have total := once timer
    simp only [held, Option.toList_none, List.nil_append, List.count_append] at here total
    simp only [held, Option.toList_none, Option.toList_some, List.nil_append, List.count_append,
      List.count_erase, List.count_cons, List.count_nil, beq_iff_eq]
    by_cases same : timer = other
    · subst same
      simp only [if_true]
      omega
    · simp [same]
  · obtain ⟨inCallback, expired, inQueue⟩ := wellFormed.flags other value found
    refine ⟨inCallback, fun member => expired ?_, fun _ => inQueue (by simp)⟩
    rcases List.mem_append.mp member with running | waits
    · exact List.mem_append_left _ running
    · exact List.mem_append_right _ (List.mem_of_mem_erase waits)

/-- Take the first of the expired timers. -/
theorem WellFormed.takeDone {done : List Nat} (wellFormed : WellFormed none lists)
    (done_eq : lists.done = timer :: done) : WellFormed (some timer) { lists with done } := by
  refine wellFormed.move ?_ (fun _ => rfl) rfl fun other value found => ?_
  · refine List.perm_iff_count.mpr fun other => ?_
    simp only [held, done_eq, Option.toList_none, Option.toList_some, List.nil_append,
      List.count_append, List.count_cons, List.count_nil]
    omega
  · obtain ⟨inCallback, expired, inQueue⟩ := wellFormed.flags other value found
    refine ⟨inCallback, fun member => expired ?_, fun _ => inQueue (by simp)⟩
    rw [done_eq]
    rcases List.mem_append.mp member with running | waits
    · exact List.mem_append_left _ running
    · exact List.mem_append_right _ (List.mem_cons_of_mem _ waits)

/-- The callback of the running timer returned. -/
theorem WellFormed.takeCurrent (wellFormed : WellFormed none lists)
    (current_eq : lists.current = some timer) :
    WellFormed (some timer)
      ({ lists with current := none }.modify timer ({ · with isInCallback := false })) := by
  refine wellFormed.move ?_ (modify_isSome _ timer _) rfl fun other value found => ?_
  · exact .of_eq (by simp [held, current_eq, TimerLists.modify])
  · rcases modify_eq_some found with ⟨rfl, old, foundOld, rfl⟩ | ⟨other_ne, found⟩
    · obtain ⟨inCallback, expired, inQueue⟩ := wellFormed.flags _ old foundOld
      refine ⟨by simp [TimerLists.modify], fun _ => expired ?_, fun loose => absurd rfl loose⟩
      simp [current_eq]
    · obtain ⟨inCallback, expired, inQueue⟩ := wellFormed.flags other value found
      refine ⟨?_, fun member => expired ?_, fun _ => inQueue (by simp)⟩
      · rw [inCallback, current_eq]
        simpa [TimerLists.modify] using other_ne.symm
      · exact List.mem_append_right _ (by simpa [TimerLists.modify] using member)

/-- A timer is called. -/
theorem WellFormed.call (wellFormed : WellFormed (some timer) lists) (idle : lists.current = none)
    (expired : ∀ value, lists.timers timer = some value → value.isExpired = true)
    (inQueue : ∀ value, lists.timers timer = some value → value.isInQueue = true) :
    WellFormed none
      ({ lists with current := some timer }.modify timer ({ · with isInCallback := true })) := by
  have absent : timer ∉ lists.held := by
    have nodup := wellFormed.nodup
    exact (List.nodup_cons.mp (by simpa using nodup)).1
  refine wellFormed.move ?_ (modify_isSome _ timer _) rfl fun other value found => ?_
  · exact .of_eq (by simp [held, idle, TimerLists.modify])
  · rcases modify_eq_some found with ⟨rfl, old, foundOld, rfl⟩ | ⟨other_ne, found⟩
    · refine ⟨by simp [TimerLists.modify], fun _ => expired old foundOld, fun _ => ?_⟩
      have apart : other ∉ lists.waiting := fun member => absent (by simp [held, member])
      exact ⟨fun marked => absurd marked (by simp [inQueue old foundOld]),
        fun member => absurd member apart⟩
    · obtain ⟨inCallback, expired, inQueue⟩ := wellFormed.flags other value found
      refine ⟨?_, fun member => expired ?_, fun _ => inQueue ?_⟩
      · rw [inCallback, idle]
        simpa [TimerLists.modify] using other_ne.symm
      · rw [idle]
        simpa [TimerLists.modify, other_ne] using member
      · exact fun same => other_ne (Option.some.inj same).symm

theorem WellFormed.serve {done : List Nat} (wellFormed : WellFormed none lists)
    (idle : lists.current = none) (done_eq : lists.done = done) :
    WellFormed none (serve done lists) ∧
      ((serve done lists).current = none → (serve done lists).done = []) := by
  induction done generalizing lists with
  | nil =>
      have same : TimerLists.serve [] lists = lists := by
        rw [TimerLists.serve, ← done_eq]
      rw [same]
      exact ⟨wellFormed, fun _ => done_eq⟩
  | cons timer done induction =>
      obtain ⟨value, found⟩ := wellFormed.found (by simp [held, done_eq] : timer ∈ _)
      have taken := (wellFormed.takeDone done_eq).record (.turn timer)
      cases alive : value.isAlive with
      | false =>
          rw [serve_dead found alive]
          exact induction taken.free idle rfl
      | true =>
        rw [serve_alive found alive]
        obtain ⟨-, expired, inQueue⟩ := wellFormed.flags timer value found
        refine ⟨(taken.call idle ?_ ?_).record (.called timer), fun running => by cases running⟩
        · rintro value' found'
          obtain rfl := Option.some.inj (found.symm.trans found')
          exact expired (by simp [done_eq])
        · rintro value' found'
          obtain rfl := Option.some.inj (found.symm.trans found')
          have apart : timer ∉ lists.waiting := by
            have nodup := wellFormed.nodup
            simp only [held, done_eq, Option.toList_none, List.nil_append] at nodup
            have := List.nodup_iff_count_le_one.mp nodup timer
            simp only [List.count_append, List.count_cons_self] at this
            exact fun member => absurd (List.count_pos_iff.mpr member) (by omega)
          cases marked : value.isInQueue with
          | true => rfl
          | false => exact absurd ((inQueue (by simp)).mp marked) apart

theorem WellFormed.retire (wellFormed : WellFormed (some timer) lists)
    (apart : timer ∉ lists.done ∧ lists.current ≠ some timer) :
    WellFormed none (lists.retire timer) := by
  obtain ⟨value, found⟩ := wellFormed.found (by simp : timer ∈ _)
  by_cases periodic : value.isAlive = true ∧ value.interval ≠ 0
  · rw [retire_periodic found periodic]
    refine WellFormed.insert (wellFormed.modify timer (fun _ => rfl) ?_ fun _ => rfl)
    intro value member _
    rcases List.mem_append.mp member with running | waits
    · exact absurd (by simpa using running) apart.2
    · exact absurd waits apart.1
  · rw [retire_last found periodic]
    exact wellFormed.free

theorem WellFormed.cutDue (wellFormed : WellFormed none lists) (idle : lists.current = none)
    (settled : lists.done = []) : WellFormed none lists.cutDue := by
  have parts := early_append_late lists.stamp lists.clock lists.cells
  refine wellFormed.move ?_ (fun other => ?_) rfl fun other value found => ?_
  · refine List.perm_iff_count.mpr fun other => ?_
    have counts := congrArg (List.count other) parts
    simp only [List.count_append] at counts
    simp only [TimerLists.cutDue, held, settled, List.count_append, List.count_nil]
    omega
  · simp only [TimerLists.cutDue]
    split <;> simp
  · simp only [TimerLists.cutDue] at found
    by_cases due : other ∈ early lists.stamp lists.clock lists.cells
    · rw [if_pos due] at found
      obtain ⟨old, foundOld, rfl⟩ := Option.map_eq_some_iff.mp found
      obtain ⟨inCallback, -, inQueue⟩ := wellFormed.flags other old foundOld
      exact ⟨inCallback, fun _ => rfl, fun loose => inQueue loose⟩
    · rw [if_neg due] at found
      obtain ⟨inCallback, -, inQueue⟩ := wellFormed.flags other value found
      refine ⟨inCallback, fun member => absurd ?_ due, inQueue⟩
      simpa [TimerLists.cutDue, idle] using member

/-- The places between two steps: expired timers wait only while a callback runs. -/
def Settled (lists : TimerLists) : Prop :=
  WellFormed none lists ∧ (lists.current = none → lists.done = [])

theorem Settled.create (clock : UInt64) : Settled (create clock) :=
  ⟨⟨by simp [held, TimerLists.create], fun timer => by simp [held, TimerLists.create],
    fun timer member => by simp [held, TimerLists.create] at member,
    fun timer value found => by cases found⟩, fun _ => rfl⟩

theorem Settled.process (settled : Settled lists) (idle : lists.current = none) :
    Settled lists.process :=
  (settled.1.cutDue idle (settled.2 idle)).serve idle rfl

theorem retire_places (lists : TimerLists) (timer : Nat) :
    (lists.retire timer).current = lists.current ∧ (lists.retire timer).done = lists.done ∧
      (lists.retire timer).waiting = lists.waiting := by
  unfold retire
  split
  · exact ⟨rfl, rfl, rfl⟩
  · split <;> exact ⟨rfl, rfl, rfl⟩

theorem WellFormed.not_done_of_current (wellFormed : WellFormed none lists)
    (running : lists.current = some timer) : timer ∉ lists.done := by
  have nodup : (timer :: (lists.done ++ (lists.waiting ++ lists.cells))).Nodup := by
    simpa only [held, running, Option.toList_none, Option.toList_some, List.nil_append,
      List.append_assoc, List.singleton_append, List.cons_append] using wellFormed.nodup
  exact fun member => (List.nodup_cons.mp nodup).1 (List.mem_append_left _ member)

theorem Settled.callbackReturns (settled : Settled lists) : Settled lists.callbackReturns := by
  cases running : lists.current with
  | none => rwa [TimerLists.callbackReturns, running]
  | some timer =>
      rw [TimerLists.callbackReturns, running]
      have taken := settled.1.takeCurrent running
      have apart := settled.1.not_done_of_current running
      have retired := taken.retire ⟨apart, by simp [TimerLists.modify]⟩
      obtain ⟨current_eq, done_eq, -⟩ := retire_places
        ({ lists with current := none }.modify timer ({ · with isInCallback := false })) timer
      exact retired.serve current_eq done_eq

/-- A timer that is inserted and not expired is queued. -/
theorem WellFormed.mem_cells (wellFormed : WellFormed none lists)
    (found : lists.timers timer = some value) (expired : value.isExpired = false)
    (inQueue : value.isInQueue = true) : timer ∈ lists.cells := by
  obtain ⟨-, expired_of, queue_iff⟩ := wellFormed.flags timer value found
  have member := (wellFormed.allocated timer).mp (by simp [found])
  have idle : timer ∉ lists.current.toList ++ lists.done := fun member => by
    have marked := expired_of member
    simp [expired] at marked
  have inserted : timer ∉ lists.waiting := fun member => by
    have marked := (queue_iff (by simp)).mpr member
    simp [inQueue] at marked
  simp only [held, Option.toList_none, List.nil_append] at member
  rcases List.mem_append.mp member with other | queued
  · rcases List.mem_append.mp other with gone | waits
    · exact absurd gone idle
    · exact absurd waits inserted
  · exact queued

theorem Settled.cancel (settled : Settled lists) (timer : Nat) :
    Settled (lists.cancel timer) := by
  obtain ⟨wellFormed, idle⟩ := settled
  cases found : lists.timers timer with
  | none =>
      rw [TimerLists.cancel, found]
      exact ⟨wellFormed, idle⟩
  | some value =>
      by_cases queued :
          value.isInCallback = false ∧ value.isExpired = false ∧ value.isInQueue = true
      · rw [cancel_queued found queued]
        obtain ⟨-, expired, inQueue⟩ := queued
        have member := wellFormed.mem_cells found expired inQueue
        have absent : timer ∉ lists.done := fun waits => by
          have marked := (wellFormed.flags timer value found).expired
            (List.mem_append_right _ waits)
          simp [expired] at marked
        have taken := wellFormed.takeOut (List.mem_append_right lists.done member)
        rw [List.erase_of_not_mem absent] at taken
        exact ⟨(taken.record (.cancelled timer)).free, idle⟩
      · rw [cancel_held found queued]
        exact ⟨(wellFormed.record (.cancelled timer)).modify timer (fun _ => rfl)
          (fun _ _ marked => marked) fun _ => rfl, idle⟩

theorem Settled.refresh (settled : Settled lists) (member : timer ∈ lists.done ++ lists.cells) :
    Settled (lists.refresh timer) := by
  obtain ⟨wellFormed, idle⟩ := settled
  obtain ⟨value, found⟩ := wellFormed.found (by
    simp only [held, Option.toList_none, List.nil_append]
    rcases List.mem_append.mp member with waits | queued
    · simp [waits]
    · simp [queued] : timer ∈ _)
  rw [TimerLists.refresh, found]
  dsimp only
  split
  · refine ⟨WellFormed.insert ?_, fun running => ?_⟩
    · exact (wellFormed.takeOut member).modify timer (fun _ => rfl) (fun _ _ marked => marked)
        fun _ => rfl
    · change lists.done.erase timer = []
      rw [idle running]
      rfl
  · exact ⟨wellFormed, idle⟩

theorem Settled.add (settled : Settled lists) (timestamp : UInt64) (interval : UInt32) :
    Settled (lists.add timestamp interval) :=
  ⟨(settled.1.alloc timestamp interval).insert, settled.2⟩

end TimerLists
end CommonLib
