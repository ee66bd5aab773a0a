import CommonLib.Net.TimerMoves
import Mathlib.Tactic.Ring

/-!
# The life of a timer

The events of one timer, in the order in which they happen, follow its life: it is added, called
each time it expires unless it is cancelled, and freed.  The queued timers stand in the order of
their timestamps and, for equal timestamps, in the order in which they were inserted.
-/

namespace CommonLib

/-- The timer to which an event happens. -/
def TimerEvent.timer : TimerEvent → Nat
  | .added timer _ _ => timer
  | .inserted timer => timer
  | .turn timer => timer
  | .called timer => timer
  | .cancelled timer => timer
  | .freed timer => timer

/-- The events of one timer. -/
def story (trace : List TimerEvent) (timer : Nat) : List TimerEvent :=
  trace.filter fun event => event.timer = timer

theorem story_cons (event : TimerEvent) (trace : List TimerEvent) (timer : Nat) :
    story (event :: trace) timer =
      if event.timer = timer then event :: story trace timer else story trace timer := by
  by_cases same : event.timer = timer
  · simp [story, same]
  · simp [story, same]

theorem mem_story {event : TimerEvent} {trace : List TimerEvent} :
    event ∈ story trace event.timer ↔ event ∈ trace := by
  simp [story]

theorem count_story (event : TimerEvent) (trace : List TimerEvent) :
    (story trace event.timer).count event = trace.count event := by
  rw [story, List.count_filter]
  simp

/-- A cancelled timer is not called again; the newest event stands first. -/
def Silent (timer : Nat) (story : List TimerEvent) : Prop :=
  story.Pairwise fun later earlier => earlier = .cancelled timer → later ≠ .called timer

theorem Silent.cons {timer : Nat} {event : TimerEvent} {story : List TimerEvent}
    (silent : Silent timer story)
    (allowed : event = .called timer → .cancelled timer ∉ story) : Silent timer (event :: story) := by
  refine List.pairwise_cons.mpr ⟨?_, silent⟩
  rintro earlier member rfl called
  exact allowed called member

namespace TimerLists

/-- The timestamp of a timer after a number of intervals. -/
def passed (timestamp : UInt64) (interval : UInt32) (calls : Nat) : UInt64 :=
  timestamp + UInt64.ofNat calls * interval.toUInt64

theorem passed_succ (timestamp : UInt64) (interval : UInt32) (calls : Nat) :
    passed timestamp interval (calls + 1) =
      passed timestamp interval calls + interval.toUInt64 := by
  simp only [passed, UInt64.ofNat_add]
  grind

/-- What the story of an allocated timer says about its fields; the interval of a running callback
is added when it returns. -/
structure Living (timer : Nat) (running : Prop) (value : LoopTimer) (story : List TimerEvent) :
    Prop where
  marked : value.isAlive = false ↔ .cancelled timer ∈ story
  held : .freed timer ∉ story
  called : running → .called timer ∈ story
  oneShot : value.interval = 0 → .called timer ∈ story → running
  born : ∃ timestamp, .added timer timestamp value.interval ∈ story
  interval : ∀ timestamp interval, .added timer timestamp interval ∈ story →
    value.interval = interval
  resting : ∀ timestamp interval, .added timer timestamp interval ∈ story → ¬ running →
    value.timestamp = passed timestamp interval (story.count (.called timer))
  running : ∀ timestamp interval, .added timer timestamp interval ∈ story → running →
    value.timestamp + interval.toUInt64 =
      passed timestamp interval (story.count (.called timer))

/-- What the story of a freed timer says. -/
structure Ended (timer : Nat) (story : List TimerEvent) : Prop where
  once : story.count (.freed timer) = 1
  reason : ∀ timestamp interval, .added timer timestamp interval ∈ story →
    .cancelled timer ∈ story ∨ interval = 0 ∧ .called timer ∈ story

structure Tale (lists : TimerLists) (timer : Nat) : Prop where
  silent : Silent timer (story lists.trace timer)
  living : ∀ value, lists.timers timer = some value →
    Living timer (lists.current = some timer) value (story lists.trace timer)
  ended : lists.timers timer = none → timer < lists.allocs → Ended timer (story lists.trace timer)
  unborn : lists.allocs ≤ timer → story lists.trace timer = []

variable {lists lists' : TimerLists} {timer : Nat} {value : LoopTimer}

/-- Nothing happens to a timer. -/
theorem Tale.frame (tale : Tale lists timer) (timers : lists'.timers timer = lists.timers timer)
    (trace : story lists'.trace timer = story lists.trace timer)
    (current : lists'.current = some timer ↔ lists.current = some timer)
    (allocs : timer < lists'.allocs ↔ timer < lists.allocs) : Tale lists' timer := by
  refine ⟨trace ▸ tale.silent, fun value found => ?_, fun gone below => ?_, fun fresh => ?_⟩
  · have living := tale.living value (timers ▸ found)
    rwa [trace, propext current]
  · rw [trace]
    exact tale.ended (timers ▸ gone) (allocs.mp below)
  · rw [trace]
    exact tale.unborn (Nat.le_of_not_lt fun below => absurd (allocs.mpr below) (by omega))

theorem modify_found (found : lists.timers timer = some value) (change : LoopTimer → LoopTimer) :
    (lists.modify timer change).timers timer = some (change value) := by
  simp [found]

/-- The story of a timer that lives on. -/
theorem Tale.of_living (found : lists.timers timer = some value) (below : timer < lists.allocs)
    (silent : Silent timer (story lists.trace timer))
    (living : Living timer (lists.current = some timer) value (story lists.trace timer)) :
    Tale lists timer := by
  refine ⟨silent, fun value' found' => ?_, fun gone => ?_, fun fresh => ?_⟩
  · obtain rfl := Option.some.inj (found.symm.trans found')
    exact living
  · simp [found] at gone
  · omega

/-- The story of a timer that is freed. -/
theorem Tale.of_ended (gone : lists.timers timer = none) (below : timer < lists.allocs)
    (silent : Silent timer (story lists.trace timer))
    (ended : Ended timer (story lists.trace timer)) : Tale lists timer := by
  refine ⟨silent, fun value found => ?_, fun _ _ => ended, fun fresh => ?_⟩
  · simp [gone] at found
  · omega

theorem Tale.add (tales : ∀ timer, Tale lists timer) (wellFormed : WellFormed none lists)
    (timestamp : UInt64) (interval : UInt32) (timer : Nat) :
    Tale (lists.add timestamp interval) timer := by
  by_cases same : timer = lists.allocs
  · subst same
    have idle : ¬ (lists.add timestamp interval).current = some lists.allocs := fun running =>
      absurd (wellFormed.below lists.allocs (by
        change lists.current = _ at running
        simp [held, running])) (by simp)
    have told : story (lists.add timestamp interval).trace lists.allocs =
        [.inserted lists.allocs, .added lists.allocs timestamp interval] := by
      have unborn := (tales lists.allocs).unborn (Nat.le_refl _)
      simp [TimerLists.add, TimerLists.alloc, story_cons, TimerEvent.timer, unborn]
    have found : (lists.add timestamp interval).timers lists.allocs = some
        { timestamp, interval, isInCallback := false, isAlive := true, isExpired := false,
          isInQueue := true, prev := none, next := none } := by
      simp [TimerLists.add, TimerLists.alloc]
    refine .of_living found (Nat.lt_succ_self _) ?_ ?_
    · rw [told]
      exact (List.Pairwise.nil.cons (by simp)).cons (by simp)
    · rw [told]
      have added_eq {timestamp' : UInt64} {interval' : UInt32}
          (added : TimerEvent.added lists.allocs timestamp' interval' ∈
            [TimerEvent.inserted lists.allocs, .added lists.allocs timestamp interval]) :
          timestamp' = timestamp ∧ interval' = interval := by simpa using added
      refine ⟨by simp, by simp, fun running => absurd running idle, by simp, ⟨timestamp, by simp⟩,
        fun timestamp' interval' added => (added_eq added).2.symm,
        fun timestamp' interval' added _ => ?_, fun _ _ _ running => absurd running idle⟩
      obtain ⟨rfl, rfl⟩ := added_eq added
      simp [passed]
  · refine (tales timer).frame ?_ ?_ .rfl ?_
    · simp [TimerLists.add, TimerLists.alloc, same]
    · simp [TimerLists.add, TimerLists.alloc, story_cons, TimerEvent.timer, Ne.symm same]
    · change timer < lists.allocs + 1 ↔ _
      omega

section Story

variable {running running' : Prop} {story : List TimerEvent}

theorem Living.cancel (living : Living timer running value story) :
    Living timer running { value with isAlive := false } (.cancelled timer :: story) :=
  ⟨by simp, by simpa using living.held, by simpa using living.called,
    by simpa using living.oneShot, by simpa using living.born, by simpa using living.interval,
    by simpa using living.resting, by simpa using living.running⟩

/-- The interval is added when the callback of a periodic timer returns. -/
theorem Living.requeue (living : Living timer running value story) (was : running)
    (idle : ¬ running') (periodic : value.interval ≠ 0) :
    Living timer running'
      { value with
        timestamp := value.timestamp + value.interval.toUInt64
        isInCallback := false
        isExpired := false
        isInQueue := true } (.inserted timer :: story) := by
  refine ⟨by simpa using living.marked, by simpa using living.held, fun now => absurd now idle,
    fun last => absurd last periodic, by simpa using living.born, by simpa using living.interval,
    fun timestamp interval added _ => ?_, fun _ _ _ now => absurd now idle⟩
  have added : .added timer timestamp interval ∈ story := by simpa using added
  obtain rfl := living.interval timestamp interval added
  simpa using living.running timestamp value.interval added was

theorem Living.call (living : Living timer running value story) (idle : ¬ running)
    (now : running') :
    Living timer running' { value with isInCallback := true }
      (.called timer :: .turn timer :: story) := by
  refine ⟨by simpa using living.marked, by simpa using living.held, by simp, fun _ _ => now,
    by simpa using living.born, by simpa using living.interval,
    fun _ _ _ rests => absurd now rests, fun timestamp interval added _ => ?_⟩
  have added : .added timer timestamp interval ∈ story := by simpa using added
  have resting := living.resting timestamp interval added idle
  simp [passed_succ, resting]

/-- A timer that is freed has been cancelled or has fired its only time. -/
theorem Living.ended (living : Living timer running value story)
    (last : .cancelled timer ∈ story ∨ value.interval = 0 ∧ .called timer ∈ story) :
    Ended timer (.freed timer :: story) := by
  refine ⟨by simp [List.count_eq_zero.mpr living.held], fun timestamp interval added => ?_⟩
  have added : .added timer timestamp interval ∈ story := by simpa using added
  obtain rfl := living.interval timestamp interval added
  exact last.imp (List.mem_cons_of_mem _)
    fun ⟨oneShot, called⟩ => ⟨oneShot, List.mem_cons_of_mem _ called⟩

/-- A turn does not belong to what is told of the life of a timer. -/
theorem Living.turn (living : Living timer running value story) :
    Living timer running value (.turn timer :: story) :=
  ⟨by simpa using living.marked, by simpa using living.held, by simpa using living.called,
    by simpa using living.oneShot, by simpa using living.born, by simpa using living.interval,
    by simpa using living.resting, by simpa using living.running⟩

end Story

/-- The story of each timer goes on with every move. -/
theorem Tale.move (tales : ∀ timer, Tale lists timer) (wellFormed : WellFormed none lists)
    (move : Move lists lists') (timer : Nat) : Tale lists' timer := by
  have tale := tales timer
  cases move with
  | add timestamp interval => exact Tale.add tales wellFormed timestamp interval timer
  | @mark other value found held =>
      by_cases same : timer = other
      · subst same
        have told : story ((lists.record (.cancelled timer)).modify timer
            ({ · with isAlive := false })).trace timer =
            .cancelled timer :: story lists.trace timer := by
          simp [story_cons, TimerEvent.timer]
        have found' : ((lists.record (.cancelled timer)).modify timer
            ({ · with isAlive := false })).timers timer = some { value with isAlive := false } := by
          simp [found]
        refine .of_living found' (wellFormed.lt_allocs found) ?_ ?_
        · rw [told]
          exact tale.silent.cons (by simp)
        · rw [told]
          exact (tale.living value found).cancel
      · refine tale.frame ?_ ?_ .rfl .rfl
        · simp [same]
        · simp [story_cons, TimerEvent.timer, Ne.symm same]
  | @unqueue other value found member =>
      by_cases same : timer = other
      · subst same
        have told : story (({ lists with cells := lists.cells.erase timer }.record
            (.cancelled timer)).free timer).trace timer =
            .freed timer :: .cancelled timer :: story lists.trace timer := by
          simp [story_cons, TimerEvent.timer]
        refine .of_ended (by simp) (wellFormed.lt_allocs found) ?_ ?_
        · rw [told]
          exact (tale.silent.cons (by simp)).cons (by simp)
        · rw [told]
          exact (tale.living value found).cancel.ended (.inl List.mem_cons_self)
      · refine tale.frame ?_ ?_ .rfl .rfl
        · simp [same]
        · simp [story_cons, TimerEvent.timer, Ne.symm same]
  | @reinsert other value running found periodic =>
      by_cases same : timer = other
      · subst same
        let value' : LoopTimer := { value with
          timestamp := value.timestamp + value.interval.toUInt64
          isInCallback := false
          isExpired := false
          isInQueue := true }
        have found' : (({ lists with current := none }.modify timer fun value =>
            { value with
              timestamp := value.timestamp + value.interval.toUInt64
              isInCallback := false
              isExpired := false }).insert timer).timers timer = some value' := by
          simp [found, value']
        refine .of_living found' (wellFormed.lt_allocs found) ?_ ?_
        · simp only [insert_trace, modify_trace, story_cons, TimerEvent.timer, if_true]
          exact tale.silent.cons (by simp)
        · simp only [insert_trace, modify_trace, story_cons, TimerEvent.timer, if_true,
            insert_current, modify_current]
          exact (tale.living value found).requeue running (by simp) periodic.2
      · refine tale.frame ?_ ?_ ?_ .rfl
        · simp [same]
        · simp [story_cons, TimerEvent.timer, Ne.symm same]
        · simp [running, Ne.symm same]
  | @release other value running found last =>
      by_cases same : timer = other
      · subst same
        have living := tale.living value found
        have told : story ({ lists with current := none }.free timer).trace timer =
            .freed timer :: story lists.trace timer := by
          simp [story_cons, TimerEvent.timer]
        refine .of_ended (by simp) (wellFormed.lt_allocs found) ?_ ?_
        · rw [told]
          exact tale.silent.cons (by simp)
        · rw [told]
          refine living.ended ?_
          cases alive : value.isAlive with
          | false => exact .inl (living.marked.mp alive)
          | true =>
              refine .inr ⟨?_, living.called running⟩
              by_contra periodic
              exact last ⟨alive, periodic⟩
      · refine tale.frame ?_ ?_ ?_ .rfl
        · simp [same]
        · simp [story_cons, TimerEvent.timer, Ne.symm same]
        · simp [running, Ne.symm same]
  | @skip other value done idle done_eq found dead =>
      by_cases same : timer = other
      · subst same
        have living := tale.living value found
        have told : story (({ lists with done }.record (.turn timer)).free timer).trace timer =
            .freed timer :: .turn timer :: story lists.trace timer := by
          simp [story_cons, TimerEvent.timer]
        refine .of_ended (by simp) (wellFormed.lt_allocs found) ?_ ?_
        · rw [told]
          exact (tale.silent.cons (by simp)).cons (by simp)
        · rw [told]
          exact living.turn.ended (.inl (List.mem_cons_of_mem _ (living.marked.mp dead)))
      · refine tale.frame ?_ ?_ .rfl .rfl
        · simp [same]
        · simp [story_cons, TimerEvent.timer, Ne.symm same]
  | @call other value done idle done_eq found alive =>
      by_cases same : timer = other
      · subst same
        have living := tale.living value found
        have notCancelled : .cancelled timer ∉ story lists.trace timer := fun cancelled => by
          have dead := living.marked.mpr cancelled
          simp [alive] at dead
        have told : story ((({ lists with current := some timer, done }.record
            (.turn timer)).modify timer ({ · with isInCallback := true })).record
              (.called timer)).trace timer =
            .called timer :: .turn timer :: story lists.trace timer := by
          simp [story_cons, TimerEvent.timer]
        have found' : ((({ lists with current := some timer, done }.record
            (.turn timer)).modify timer ({ · with isInCallback := true })).record
              (.called timer)).timers timer = some { value with isInCallback := true } := by
          simp [found]
        refine .of_living found' (wellFormed.lt_allocs found) ?_ ?_
        · rw [told]
          exact (tale.silent.cons (by simp)).cons (by simpa using notCancelled)
        · rw [told]
          exact living.call (by simp [idle]) rfl
      · refine tale.frame ?_ ?_ ?_ .rfl
        · simp [same]
        · simp [story_cons, TimerEvent.timer, Ne.symm same]
        · simp [idle, Ne.symm same]
  | tick clock => exact tale.frame rfl rfl .rfl .rfl

/-! ## The order of the queue -/

/-- The latest insertion of one timer is before that of another. -/
def InsertedBefore (trace : List TimerEvent) (first second : Nat) : Prop :=
  trace.idxOf (.inserted second) < trace.idxOf (.inserted first)

/-- The order of the queued timers. -/
def Precedes (lists : TimerLists) (first second : Nat) : Prop :=
  lists.stamp first ≤ lists.stamp second ∧
    (lists.stamp first = lists.stamp second → InsertedBefore lists.trace first second)

/-- The queued timers are in order, alive and not expired. -/
structure Queued (lists : TimerLists) : Prop where
  sorted : lists.cells.Pairwise lists.Precedes
  alive : ∀ timer ∈ lists.cells, ∃ value, lists.timers timer = some value ∧
    value.isAlive = true ∧ value.isExpired = false

theorem InsertedBefore.cons {trace : List TimerEvent} {first second : Nat} {event : TimerEvent}
    (before : InsertedBefore trace first second) (first_ne : event ≠ .inserted first)
    (second_ne : event ≠ .inserted second) : InsertedBefore (event :: trace) first second := by
  rw [InsertedBefore, List.idxOf_cons_ne _ first_ne, List.idxOf_cons_ne _ second_ne]
  exact Nat.succ_lt_succ before

theorem Queued.sublist (queued : Queued lists) (cells : lists'.cells.Sublist lists.cells)
    (timers : ∀ timer ∈ lists'.cells, lists'.timers timer = lists.timers timer)
    (trace : ∀ first second, InsertedBefore lists.trace first second →
      InsertedBefore lists'.trace first second) : Queued lists' := by
  have stamp {timer : Nat} (member : timer ∈ lists'.cells) :
      lists'.stamp timer = lists.stamp timer := stamp_congr lists (timers timer member)
  refine ⟨(queued.sorted.sublist cells).imp_of_mem ?_, fun timer member => ?_⟩
  · rintro first second member member' ⟨le, ties⟩
    rw [Precedes, stamp member, stamp member']
    exact ⟨le, fun same => trace _ _ (ties same)⟩
  · rw [timers timer member]
    exact queued.alive timer (cells.subset member)

theorem mem_insert_cells {other : Nat} :
    other ∈ (lists.insert timer).cells ↔ other = timer ∨ other ∈ lists.cells := by
  have parts := early_append_late lists.stamp (lists.stamp timer) lists.cells
  conv_rhs => rw [← parts]
  rw [insert_cells, List.mem_append, List.mem_cons, List.mem_append, or_left_comm]

theorem Queued.insert (queued : Queued lists) (absent : timer ∉ lists.cells)
    (found : lists.timers timer = some value) (alive : value.isAlive = true)
    (expired : value.isExpired = false) : Queued (lists.insert timer) := by
  have parts := early_append_late lists.stamp (lists.stamp timer) lists.cells
  have sorted : lists.cells.Pairwise fun first second => lists.stamp first ≤ lists.stamp second :=
    queued.sorted.imp And.left
  have other_ne {other : Nat} (member : other ∈ lists.cells) : timer ≠ other :=
    fun same => absent (same ▸ member)
  have kept : lists.cells.Pairwise (lists.insert timer).Precedes := by
    refine queued.sorted.imp_of_mem ?_
    rintro first second member member' ⟨le, ties⟩
    rw [Precedes, insert_stamp, insert_stamp, insert_trace]
    exact ⟨le, fun same => (ties same).cons (by simp [other_ne member])
      (by simp [other_ne member'])⟩
  rw [← parts, List.pairwise_append] at kept
  obtain ⟨keptEarly, keptLate, keptAcross⟩ := kept
  refine ⟨?_, fun other member => ?_⟩
  · rw [insert_cells, List.pairwise_append, List.pairwise_cons]
    refine ⟨keptEarly, ⟨fun other member => ?_, keptLate⟩, fun other member other' member' => ?_⟩
    · have later := late_lt sorted member
      rw [Precedes, insert_stamp, insert_stamp]
      exact ⟨UInt64.le_of_lt later, fun same => absurd (same ▸ later) (UInt64.lt_irrefl _)⟩
    · rcases List.mem_cons.mp member' with rfl | member'
      · have member_cells : other ∈ lists.cells := parts ▸ List.mem_append_left _ member
        rw [Precedes, insert_stamp, insert_stamp, insert_trace, InsertedBefore,
          List.idxOf_cons_self, List.idxOf_cons_ne _ (by simp [other_ne member_cells])]
        exact ⟨early_le member, fun _ => Nat.succ_pos _⟩
      · exact keptAcross other member other' member'
  · by_cases same : other = timer
    · subst same
      exact ⟨{ value with isInQueue := true }, by simp [found], alive, expired⟩
    · rw [insert_timers, Function.update_of_ne same]
      exact queued.alive other ((mem_insert_cells.mp member).resolve_left same)

/-- The queue keeps its order with every move. -/
theorem Queued.move (queued : Queued lists) (wellFormed : WellFormed none lists)
    (move : Move lists lists') : Queued lists' := by
  have current_apart {timer : Nat} (running : lists.current = some timer) :
      timer ∉ lists.cells := by
    obtain ⟨apart, -⟩ := (wellFormed.takeCurrent running).outside
    exact apart
  have others {timer other : Nat} (absent : timer ∉ lists.cells) (member : other ∈ lists.cells) :
      other ≠ timer := fun same => absent (same ▸ member)
  cases move with
  | add timestamp interval =>
      have absent : lists.allocs ∉ lists.cells := fun member =>
        Nat.lt_irrefl _ (wellFormed.below _ (by simp [held, member]))
      have allocated : Queued (lists.alloc timestamp interval) :=
        queued.sublist (.refl _)
          (fun other member => Function.update_of_ne (others absent member) ..)
          fun first second before => before.cons (by simp) (by simp)
      exact allocated.insert absent (Function.update_self ..) rfl rfl
  | @mark timer value found held =>
      have absent : timer ∉ lists.cells := fun member => by
        obtain ⟨value', found', alive, expired⟩ := queued.alive timer member
        obtain rfl := Option.some.inj (found.symm.trans found')
        obtain ⟨inCallback, -, inQueue⟩ := wellFormed.flags timer value found
        refine held ⟨?_, expired, ?_⟩
        · exact Bool.eq_false_iff.mpr fun marked => current_apart (inCallback.mp marked) member
        · cases marked : value.isInQueue with
          | true => rfl
          | false =>
              exact absurd ((inQueue (by simp)).mp marked) (wellFormed.not_waiting member)
      exact queued.sublist (.refl _)
        (fun other member => Function.update_of_ne (others absent member) ..)
        fun first second before => before.cons (by simp) (by simp)
  | @unqueue timer value found member =>
      have nodup : lists.cells.Nodup := wellFormed.nodup.sublist (List.sublist_append_right _ _)
      refine queued.sublist List.erase_sublist (fun other member => ?_)
        fun first second before => (before.cons (by simp) (by simp)).cons (by simp) (by simp)
      exact Function.update_of_ne (nodup.mem_erase_iff.mp member).1 ..
  | @reinsert timer value running found periodic =>
      have absent := current_apart running
      have moved : Queued ({ lists with current := none }.modify timer fun value =>
          { value with
            timestamp := value.timestamp + value.interval.toUInt64
            isInCallback := false
            isExpired := false }) :=
        queued.sublist (.refl _)
          (fun other member => Function.update_of_ne (others absent member) ..)
          fun _ _ before => before
      exact moved.insert absent (modify_found found _) periodic.1 rfl
  | @release timer value running found last =>
      exact queued.sublist (.refl _)
        (fun other member => Function.update_of_ne (others (current_apart running) member) ..)
        fun first second before => before.cons (by simp) (by simp)
  | @skip timer value done idle done_eq found dead =>
      have absent : timer ∉ lists.cells := wellFormed.apart timer (by simp [done_eq])
      exact queued.sublist (.refl _)
        (fun other member => Function.update_of_ne (others absent member) ..)
        fun first second before => (before.cons (by simp) (by simp)).cons (by simp) (by simp)
  | @call timer value done idle done_eq found alive =>
      have absent : timer ∉ lists.cells := wellFormed.apart timer (by simp [done_eq])
      exact queued.sublist (.refl _)
        (fun other member => Function.update_of_ne (others absent member) ..)
        fun first second before => (before.cons (by simp) (by simp)).cons (by simp) (by simp)
  | tick clock => exact queued.sublist (.refl _) (fun _ _ => rfl) fun _ _ before => before

end TimerLists
end CommonLib
