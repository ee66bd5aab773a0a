import CommonLib.Library.Execution
import Mathlib.Data.List.Dedup
import Mathlib.Logic.Function.Basic

/-!
# Channels and the event loop

`channel.c` and the batch of `loop_loop`.  The release of a channel is deferred while its callback
runs or while the batch of ready channels still holds it.  A loop is stepped through what its
thread does: the two passes over the batch, the return of a callback, and the calls which callbacks
make.  A step that dereferences a freed channel has no successor.
-/

namespace CommonLib

open Execution

/-- `struct channel`, without the descriptor and the callback. -/
structure Channel where
  /-- `loop` is not `NULL`. -/
  hasLoop : Bool := true
  isActive : Bool := false
  isInCallback : Bool := false
  isAlive : Bool := true
  event : UInt32 := 0
  revent : UInt32 := 0
  isMonitored : Bool := false
  deriving DecidableEq

/-- What happens to a channel. -/
inductive ChannelEvent
  | called | destroyed | freed
  deriving DecidableEq

/-- `struct loop` and the channels it was given. -/
structure ChannelLoop where
  /-- The channels by address; `none` for memory that is not a channel. -/
  channels : Nat → Option Channel
  /-- The number of channels made so far. -/
  allocs : Nat
  /-- The interest list of `epfd`. -/
  epoll : List Nat
  /-- The part of `events` which the second pass of `loop_loop` has not reached. -/
  pending : List Nat
  /-- The channel whose callback runs. -/
  current : Option Nat
  trace : List (Nat × ChannelEvent)

namespace ChannelLoop

/-- `loop_new`. -/
def empty : ChannelLoop where
  channels _ := none
  allocs := 0
  epoll := []
  pending := []
  current := none
  trace := []

variable (loop : ChannelLoop) (c : Nat)

def store (channel : Channel) : ChannelLoop :=
  { loop with channels := Function.update loop.channels c (some channel) }

/-- `free`. -/
def free : ChannelLoop :=
  { loop with
    channels := Function.update loop.channels c none
    trace := loop.trace ++ [(c, .freed)] }

/-- `channel_new`. -/
def channelNew : ChannelLoop :=
  { loop with
    channels := Function.update loop.channels loop.allocs (some {})
    allocs := loop.allocs + 1 }

/-- `do_loop_update_channel`. -/
def doLoopUpdateChannel (channel : Channel) : ChannelLoop :=
  if channel.event = 0 then
    { loop.store c { channel with isMonitored := false } with
      epoll := loop.epoll.filter (· ≠ c) }
  else if channel.isMonitored then loop.store c channel
  else { loop.store c { channel with isMonitored := true } with epoll := loop.epoll.insert c }

/-- `channel_setevent`. -/
def channelSetevent (event : UInt32) : Option ChannelLoop := do
  let channel ← loop.channels c
  if channel.event &&& event = event then some loop
  else if channel.hasLoop = false then none
  else some (loop.doLoopUpdateChannel c { channel with event := channel.event ||| event })

/-- `channel_clearevent`. -/
def channelClearevent (event : UInt32) : Option ChannelLoop := do
  let channel ← loop.channels c
  if event &&& channel.event = 0 then some loop
  else if channel.hasLoop = false then none
  else some (loop.doLoopUpdateChannel c { channel with event := channel.event &&& ~~~event })

/-- `channel_detach`. -/
def channelDetach : Option ChannelLoop := do
  let channel ← loop.channels c
  if channel.event = 0 then some loop
  else
    -- `loop_update_channel` does nothing without a loop.
    let updated :=
      if channel.hasLoop then loop.doLoopUpdateChannel c { channel with event := 0 } else loop
    let after ← updated.channels c
    some (updated.store c { after with event := channel.event, hasLoop := false })

/-- `channel_destroy`. -/
def channelDestroy : Option ChannelLoop := do
  let channel ← loop.channels c
  if channel.isInCallback then some (loop.store c { channel with isAlive := false })
  else if channel.isActive then some (loop.store c { channel with isAlive := false })
  else some (loop.free c)

/-- `channel_setrevent`. -/
def channelSetrevent (ready : Nat × UInt32) : Option ChannelLoop := do
  let channel ← loop.channels ready.1
  some (loop.store ready.1 { channel with revent := ready.2, isActive := true })

/-- `epoll_wait` and the first pass of `loop_loop` over the events. -/
def firstPass (ready : List (Nat × UInt32)) : Option ChannelLoop := do
  let marked ← ready.foldlM channelSetrevent loop
  some { marked with pending := ready.map Prod.fst }

/-- `channel_onevent` up to the call of the callback. -/
def channelOnevent : Option ChannelLoop := do
  let channel ← loop.channels c
  if channel.isAlive = false then
    (loop.store c { channel with isActive := false }).channelDestroy c
  else
    some { loop.store c { channel with isInCallback := true } with
      current := some c
      trace := loop.trace ++ [(c, .called)] }

/-- One turn of the second pass of `loop_loop`. -/
def secondPass : Option ChannelLoop :=
  match loop.pending with
  | [] => none
  | c :: rest => { loop with pending := rest }.channelOnevent c

/-- `channel_onevent` from the return of the callback on. -/
def callbackReturns : Option ChannelLoop := do
  let c ← loop.current
  let channel ← loop.channels c
  let idle : Channel := { channel with isInCallback := false, revent := 0, isActive := false }
  let after := { loop.store c idle with current := none }
  if idle.isAlive = false then after.channelDestroy c else some after

/-- `channel_detach` followed by `channel_destroy`. -/
def release : Option ChannelLoop := do
  let detached ← { loop with trace := loop.trace ++ [(c, ChannelEvent.destroyed)] }.channelDetach c
  detached.channelDestroy c

/-- What happened to a channel, in order. -/
def history : List ChannelEvent :=
  loop.trace.filterMap fun entry => if entry.1 = c then some entry.2 else none

end ChannelLoop

/-- What the thread of a loop does. -/
inductive ChannelOp
  | new
  | setevent (c : Nat) (event : UInt32)
  | clearevent (c : Nat) (event : UInt32)
  | release (c : Nat)
  | wait (ready : List (Nat × UInt32))
  | turn
  | callbackReturns

namespace ChannelLoop

def step (loop : ChannelLoop) : ChannelOp → Option ChannelLoop
  | .new => some loop.channelNew
  | .setevent c event => loop.channelSetevent c event
  | .clearevent c event => loop.channelClearevent c event
  | .release c => loop.release c
  | .wait ready => loop.firstPass ready
  | .turn => loop.secondPass
  | .callbackReturns => loop.callbackReturns

/-- Channels are used until they are destroyed and destroyed once; `epoll_wait` returns each
monitored channel at most once and is called between two iterations. -/
def Legal (loop : ChannelLoop) : ChannelOp → Prop
  | .new => True
  | .setevent c _ | .clearevent c _ | .release c =>
      c < loop.allocs ∧ ChannelEvent.destroyed ∉ loop.history c
  | .wait ready =>
      loop.pending = [] ∧ loop.current = none ∧ (ready.map Prod.fst).Nodup ∧
        ∀ c ∈ ready.map Prod.fst, c ∈ loop.epoll
  | .turn => loop.pending ≠ [] ∧ loop.current = none
  | .callbackReturns => loop.current ≠ none

instance decidableLegal (loop : ChannelLoop) : (op : ChannelOp) → Decidable (loop.Legal op)
  | .new => isTrue trivial
  | .setevent _ _ | .clearevent _ _ | .release _ => inferInstanceAs (Decidable (_ ∧ _))
  | .wait _ => inferInstanceAs (Decidable (_ ∧ _ ∧ _ ∧ _))
  | .turn => inferInstanceAs (Decidable (_ ∧ _))
  | .callbackReturns => inferInstanceAs (Decidable (_ ≠ _))

/-- No callback of the loop runs or is due. -/
def Idle (loop : ChannelLoop) : Prop :=
  loop.pending = [] ∧ loop.current = none

/-- A channel is called any number of times, then destroyed once, then freed once; between two
iterations every destroyed channel is freed. -/
def Released (loop : ChannelLoop) : Prop :=
  ∀ c, ∃ calls, loop.history c = List.replicate calls .called ∨
    (loop.history c = List.replicate calls .called ++ [.destroyed] ∧ ¬ loop.Idle) ∨
    loop.history c = List.replicate calls .called ++ [.destroyed, .freed]

/-! ## What concerns one channel -/

/-- The state of a loop as far as it concerns one channel. -/
structure View where
  record : Option Channel
  allocated : Prop
  watched : Prop
  waiting : Prop
  running : Prop
  history : List ChannelEvent

def view (loop : ChannelLoop) (c : Nat) : View where
  record := loop.channels c
  allocated := c < loop.allocs
  watched := c ∈ loop.epoll
  waiting := c ∈ loop.pending
  running := loop.current = some c
  history := loop.history c

/-- The stages of the life of a channel. -/
inductive Stage (view : View) : Prop
  | unborn (record : view.record = none) (allocated : ¬ view.allocated)
      (watched : ¬ view.watched) (waiting : ¬ view.waiting)
      (running : ¬ view.running) (history : view.history = [])
  | live (channel : Channel) (calls : Nat) (record : view.record = some channel)
      (allocated : view.allocated) (alive : channel.isAlive = true)
      (attached : channel.hasLoop = true) (watched : view.watched → channel.event ≠ 0)
      (inCallback : channel.isInCallback = true ↔ view.running)
      (active : channel.isActive = true ↔ view.running ∨ view.waiting)
      (history : view.history = List.replicate calls .called)
  | doomed (channel : Channel) (calls : Nat) (record : view.record = some channel)
      (allocated : view.allocated) (alive : channel.isAlive = false)
      (watched : ¬ view.watched) (inCallback : channel.isInCallback = true ↔ view.running)
      (active : channel.isActive = true ↔ view.running ∨ view.waiting)
      (busy : view.running ∨ view.waiting)
      (history : view.history = List.replicate calls .called ++ [.destroyed])
  | gone (calls : Nat) (record : view.record = none) (allocated : view.allocated)
      (watched : ¬ view.watched) (waiting : ¬ view.waiting)
      (running : ¬ view.running)
      (history : view.history = List.replicate calls .called ++ [.destroyed, .freed])

/-- The channels which `loop_loop` holds. -/
def queue (loop : ChannelLoop) : List Nat :=
  loop.current.toList ++ loop.pending

/-- The batch holds a channel once, and not the one whose callback runs. -/
structure Valid (loop : ChannelLoop) : Prop where
  nodup : loop.queue.Nodup
  stage : ∀ c, Stage (loop.view c)

theorem valid_empty : Valid empty where
  nodup := by simp [queue, empty]
  stage c := by
    apply Stage.unborn <;> simp [view, empty, history]

/-- A loop whose channels have all been freed or never been destroyed when it is idle. -/
theorem Valid.released {loop : ChannelLoop} (valid : loop.Valid) : loop.Released := by
  intro c
  cases valid.stage c with
  | unborn record allocated watched waiting running history => exact ⟨0, .inl history⟩
  | live channel calls record allocated alive attached watched inCallback active history =>
      exact ⟨calls, .inl history⟩
  | doomed channel calls record allocated alive watched inCallback active busy history =>
      refine ⟨calls, .inr (.inl ⟨history, fun idle => ?_⟩)⟩
      simp [view, idle.1, idle.2] at busy
  | gone calls record allocated watched waiting running history =>
      exact ⟨calls, .inr (.inr history)⟩

/-! ## The steps -/

section

variable (loop : ChannelLoop) (c : Nat)

@[simp] theorem view_store_self (channel : Channel) :
    (loop.store c channel).view c = { loop.view c with record := some channel } := by
  simp [view, store, history]

@[simp] theorem view_free_self :
    (loop.free c).view c =
      { loop.view c with record := none, history := loop.history c ++ [.freed] } := by
  simp [view, free, history]

theorem view_store_of_ne {c d : Nat} (other : d ≠ c) (channel : Channel) :
    (loop.store c channel).view d = loop.view d := by
  simp [view, store, history, other]

theorem view_free_of_ne {c d : Nat} (other : d ≠ c) : (loop.free c).view d = loop.view d := by
  simp [view, free, history, other, Ne.symm other]

/-- An update of the interest list concerns one channel and leaves it out when it has no event. -/
theorem doLoopUpdateChannel_spec (channel : Channel) :
    (loop.doLoopUpdateChannel c channel).queue = loop.queue ∧
      (∀ d, d ≠ c → (loop.doLoopUpdateChannel c channel).view d = loop.view d) ∧
      ∃ monitored watched, (watched → channel.event ≠ 0) ∧
        (loop.doLoopUpdateChannel c channel).view c =
          { loop.view c with
            record := some { channel with isMonitored := monitored }
            watched := watched } := by
  unfold doLoopUpdateChannel
  split_ifs with unset monitored
  · refine ⟨rfl, fun d other => ?_, false, False, False.elim, ?_⟩
    · simp [view, store, history, other]
    · simp [view, store, history]
  · refine ⟨rfl, fun d other => view_store_of_ne loop other channel, true, (loop.view c).watched,
      fun _ => unset, ?_⟩
    rw [view_store_self, ← monitored]
  · refine ⟨rfl, fun d other => ?_, true, True, fun _ => unset, ?_⟩
    · simp [view, store, history, other]
    · simp [view, store, history]

/-- Detaching a monitored channel takes it out of the interest list. -/
theorem channelDetach_spec {channel : Channel} (here : loop.channels c = some channel)
    (attached : channel.hasLoop = true) (watched : c ∈ loop.epoll → channel.event ≠ 0) :
    ∃ detached hasLoop monitored, loop.channelDetach c = some detached ∧
      detached.queue = loop.queue ∧ (∀ d, d ≠ c → detached.view d = loop.view d) ∧
      detached.view c =
        { loop.view c with
          record := some { channel with hasLoop := hasLoop, isMonitored := monitored }
          watched := False } := by
  by_cases unset : channel.event = 0
  · refine ⟨loop, true, channel.isMonitored, by simp [channelDetach, here, unset], rfl,
      fun _ _ => rfl, ?_⟩
    have unwatched : c ∉ loop.epoll := fun member => watched member unset
    simp [view, here, unwatched, ← attached]
  · obtain ⟨queue, others, monitored, inside, inside_imp, self⟩ :=
      loop.doLoopUpdateChannel_spec c { channel with event := 0 }
    have outside : ¬ inside := fun member => inside_imp member rfl
    have stored : (loop.doLoopUpdateChannel c { channel with event := 0 }).channels c =
        some { channel with event := 0, isMonitored := monitored } := congrArg View.record self
    have detached : loop.channelDetach c =
        some ((loop.doLoopUpdateChannel c { channel with event := 0 }).store c
          { channel with hasLoop := false, isMonitored := monitored }) := by
      simp only [channelDetach, here, Option.bind_eq_bind, Option.bind_some, if_neg unset,
        if_pos attached, stored]
    refine ⟨_, false, monitored, detached, queue, fun d other => ?_, ?_⟩
    · rw [view_store_of_ne _ other, others d other]
    · rw [view_store_self, self]
      simp [outside]

/-- A channel in use is marked, any other channel is freed. -/
theorem channelDestroy_spec {channel : Channel} (here : loop.channels c = some channel) :
    loop.channelDestroy c =
      if channel.isInCallback ∨ channel.isActive then
        some (loop.store c { channel with isAlive := false })
      else some (loop.free c) := by
  by_cases called : channel.isInCallback <;> by_cases active : channel.isActive <;>
    simp [channelDestroy, here, called, active]

end

/-- A step that concerns one channel keeps the invariant if it does so for that channel. -/
theorem Valid.of_others {loop next : ChannelLoop} (valid : loop.Valid) (c : Nat)
    (nodup : next.queue.Nodup) (others : ∀ d, d ≠ c → next.view d = loop.view d)
    (here : Stage (next.view c)) : next.Valid where
  nodup := nodup
  stage d := by
    by_cases same : d = c
    · exact same ▸ here
    · exact others d same ▸ valid.stage d

theorem Stage.of_allocated {view : View} (stage : Stage view) (allocated : view.allocated)
    (undestroyed : ChannelEvent.destroyed ∉ view.history) :
    ∃ channel calls, view.record = some channel ∧ channel.isAlive = true ∧
      channel.hasLoop = true ∧ (view.watched → channel.event ≠ 0) ∧
      (channel.isInCallback = true ↔ view.running) ∧
      (channel.isActive = true ↔ view.running ∨ view.waiting) ∧
      view.history = List.replicate calls .called := by
  cases stage with
  | unborn record absent watched waiting running history => exact absurd allocated absent
  | live channel calls record allocated alive attached watched inCallback active history =>
      exact ⟨channel, calls, record, alive, attached, watched, inCallback, active, history⟩
  | doomed channel calls record allocated alive watched inCallback active busy history =>
      simp [history] at undestroyed
  | gone calls record allocated watched waiting running history => simp [history] at undestroyed

theorem Valid.channelNew {loop : ChannelLoop} (valid : loop.Valid) : loop.channelNew.Valid := by
  refine valid.of_others loop.allocs valid.nodup (fun d other => ?_) ?_
  · have allocated : d < loop.allocs + 1 ↔ d < loop.allocs := by omega
    simp [view, ChannelLoop.channelNew, history, other, allocated]
  · cases valid.stage loop.allocs with
    | unborn record allocated watched waiting running history =>
        refine .live {} 0 (by simp [view, ChannelLoop.channelNew])
          (by simp [view, ChannelLoop.channelNew]) rfl rfl (fun inside => absurd inside watched)
          ?_ ?_ history
        · exact iff_of_false (by simp) running
        · exact iff_of_false (by simp) (not_or.mpr ⟨running, waiting⟩)
    | live channel calls record allocated => exact absurd allocated (Nat.lt_irrefl loop.allocs)
    | doomed channel calls record allocated => exact absurd allocated (Nat.lt_irrefl loop.allocs)
    | gone calls record allocated => exact absurd allocated (Nat.lt_irrefl loop.allocs)

/-- A live channel stays live when its events change. -/
theorem Valid.doLoopUpdateChannel {loop : ChannelLoop} (valid : loop.Valid) {c : Nat}
    {channel : Channel} (here : loop.channels c = some channel) (event : UInt32)
    (allocated : c < loop.allocs) (undestroyed : ChannelEvent.destroyed ∉ loop.history c) :
    (loop.doLoopUpdateChannel c { channel with event := event }).Valid := by
  obtain ⟨old, calls, record, alive, attached, watched, inCallback, active, history⟩ :=
    (valid.stage c).of_allocated allocated undestroyed
  obtain rfl : channel = old := Option.some.inj (here.symm.trans record)
  obtain ⟨queue, others, monitored, inside, inside_imp, self⟩ :=
    loop.doLoopUpdateChannel_spec c { channel with event := event }
  refine valid.of_others c (queue ▸ valid.nodup) others ?_
  rw [self]
  exact .live { channel with event := event, isMonitored := monitored } calls rfl allocated alive
    attached inside_imp inCallback active history

theorem Valid.channelSetevent {loop : ChannelLoop} (valid : loop.Valid) {c : Nat} (event : UInt32)
    (allocated : c < loop.allocs) (undestroyed : ChannelEvent.destroyed ∉ loop.history c) :
    ∃ next, loop.channelSetevent c event = some next ∧ next.Valid := by
  obtain ⟨channel, calls, record, alive, attached, watched, inCallback, active, history⟩ :=
    (valid.stage c).of_allocated allocated undestroyed
  have here : loop.channels c = some channel := record
  by_cases set : channel.event &&& event = event
  · exact ⟨loop, by simp [ChannelLoop.channelSetevent, here, set], valid⟩
  · exact ⟨_, by simp [ChannelLoop.channelSetevent, here, set, attached],
      valid.doLoopUpdateChannel here (channel.event ||| event) allocated undestroyed⟩

theorem Valid.channelClearevent {loop : ChannelLoop} (valid : loop.Valid) {c : Nat}
    (event : UInt32) (allocated : c < loop.allocs)
    (undestroyed : ChannelEvent.destroyed ∉ loop.history c) :
    ∃ next, loop.channelClearevent c event = some next ∧ next.Valid := by
  obtain ⟨channel, calls, record, alive, attached, watched, inCallback, active, history⟩ :=
    (valid.stage c).of_allocated allocated undestroyed
  have here : loop.channels c = some channel := record
  by_cases clear : event &&& channel.event = 0
  · exact ⟨loop, by simp [ChannelLoop.channelClearevent, here, clear], valid⟩
  · exact ⟨_, by simp [ChannelLoop.channelClearevent, here, clear, attached],
      valid.doLoopUpdateChannel here (channel.event &&& ~~~event) allocated undestroyed⟩

theorem Valid.release {loop : ChannelLoop} (valid : loop.Valid) {c : Nat}
    (allocated : c < loop.allocs) (undestroyed : ChannelEvent.destroyed ∉ loop.history c) :
    ∃ next, loop.release c = some next ∧ next.Valid := by
  obtain ⟨channel, calls, record, alive, attached, watched, inCallback, active, history⟩ :=
    (valid.stage c).of_allocated allocated undestroyed
  let noted : ChannelLoop := { loop with trace := loop.trace ++ [(c, ChannelEvent.destroyed)] }
  have noted_self :
      noted.view c = { loop.view c with history := loop.history c ++ [.destroyed] } := by
    simp [noted, view, ChannelLoop.history]
  have noted_other : ∀ d, d ≠ c → noted.view d = loop.view d := fun d other => by
    simp [noted, view, ChannelLoop.history, Ne.symm other]
  obtain ⟨detached, hasLoop, monitored, detach_eq, queue, others, self⟩ :=
    noted.channelDetach_spec c record attached watched
  have here : detached.channels c =
      some { channel with hasLoop := hasLoop, isMonitored := monitored } :=
    congrArg View.record self
  have release_eq : loop.release c = detached.channelDestroy c := by
    rw [ChannelLoop.release, detach_eq, Option.bind_eq_bind, Option.bind_some]
  rw [release_eq, detached.channelDestroy_spec c here]
  by_cases busy : channel.isInCallback ∨ channel.isActive
  · rw [if_pos busy]
    refine ⟨_, rfl, valid.of_others c (queue ▸ valid.nodup) (fun d other => ?_) ?_⟩
    · rw [view_store_of_ne _ other, others d other, noted_other d other]
    · rw [view_store_self, self, noted_self]
      refine .doomed _ calls rfl allocated rfl id inCallback active ?_
        (congrArg (· ++ [ChannelEvent.destroyed]) history)
      cases busy with
      | inl called => exact .inl (inCallback.mp called)
      | inr marked => exact active.mp marked
  · rw [if_neg busy]
    obtain ⟨uncalled, unmarked⟩ := not_or.mp busy
    obtain ⟨notRunning, notWaiting⟩ := not_or.mp (mt active.mpr unmarked)
    refine ⟨_, rfl, valid.of_others c (queue ▸ valid.nodup) (fun d other => ?_) ?_⟩
    · rw [view_free_of_ne _ other, others d other, noted_other d other]
    · have released : detached.history c = loop.history c ++ [.destroyed] :=
        (congrArg View.history self).trans (congrArg View.history noted_self)
      rw [view_free_self, self, noted_self, released]
      have history_eq : loop.history c = List.replicate calls .called := history
      exact .gone calls rfl allocated id notWaiting notRunning (by simp [history_eq])

/-- The first pass marks the channels of the batch. -/
theorem foldlM_channelSetrevent {ready : List (Nat × UInt32)} (loop : ChannelLoop)
    (nodup : (ready.map Prod.fst).Nodup)
    (present : ∀ c ∈ ready.map Prod.fst, ∃ channel, loop.channels c = some channel) :
    ∃ marked, ready.foldlM channelSetrevent loop = some marked ∧
      marked.current = loop.current ∧
      (∀ d, d ∉ ready.map Prod.fst → marked.view d = loop.view d) ∧
      ∀ d ∈ ready.map Prod.fst, ∃ channel revent, loop.channels d = some channel ∧
        marked.view d =
          { loop.view d with
            record := some { channel with revent := revent, isActive := true } } := by
  induction ready generalizing loop with
  | nil => exact ⟨loop, rfl, rfl, fun _ _ => rfl, by simp⟩
  | cons first rest induction =>
      obtain ⟨c, event⟩ := first
      obtain ⟨fresh, nodup⟩ := List.nodup_cons.mp nodup
      obtain ⟨channel, here⟩ := present c (by simp)
      let next := loop.store c { channel with revent := event, isActive := true }
      have next_other : ∀ d, d ≠ c → next.view d = loop.view d := fun d other =>
        view_store_of_ne loop other _
      have next_channels : ∀ d ∈ rest.map Prod.fst, next.channels d = loop.channels d :=
        fun d member =>
          congrArg View.record (next_other d (ne_of_mem_of_not_mem member fresh))
      obtain ⟨marked, fold, current, others, batch⟩ := induction next nodup fun d member => by
        rw [next_channels d member]
        exact present d (List.mem_cons_of_mem c member)
      refine ⟨marked, ?_, current, fun d outside => ?_, fun d member => ?_⟩
      · rw [List.foldlM_cons, channelSetrevent, here]
        exact fold
      · obtain ⟨other, outside⟩ := not_or.mp (mt List.mem_cons.mpr outside)
        rw [others d outside, next_other d other]
      · by_cases same : d = c
        · subst same
          refine ⟨channel, event, here, ?_⟩
          rw [others d fresh]
          exact view_store_self loop d _
        · have inside : d ∈ rest.map Prod.fst := List.mem_of_ne_of_mem same member
          obtain ⟨old, revent, old_eq, marked_eq⟩ := batch d inside
          refine ⟨old, revent, by rw [← next_channels d inside, old_eq], ?_⟩
          rw [marked_eq, next_other d same]

theorem Valid.firstPass {loop : ChannelLoop} (valid : loop.Valid) {ready : List (Nat × UInt32)}
    (pending : loop.pending = []) (idle : loop.current = none)
    (nodup : (ready.map Prod.fst).Nodup) (watched : ∀ c ∈ ready.map Prod.fst, c ∈ loop.epoll) :
    ∃ next, loop.firstPass ready = some next ∧ next.Valid := by
  have notRunning : ∀ c, ¬ (loop.view c).running := fun c => by simp [view, idle]
  have notWaiting : ∀ c, ¬ (loop.view c).waiting := fun c => by simp [view, pending]
  have present : ∀ c ∈ ready.map Prod.fst, ∃ channel, loop.channels c = some channel := by
    intro c member
    cases valid.stage c with
    | unborn record allocated unwatched => exact absurd (watched c member) unwatched
    | live channel calls record => exact ⟨channel, record⟩
    | doomed channel calls record => exact ⟨channel, record⟩
    | gone calls record allocated unwatched => exact absurd (watched c member) unwatched
  obtain ⟨marked, fold, current, others, batch⟩ := foldlM_channelSetrevent loop nodup present
  refine ⟨{ marked with pending := ready.map Prod.fst }, ?_, ?_, fun d => ?_⟩
  · rw [ChannelLoop.firstPass, fold, Option.bind_eq_bind, Option.bind_some]
  · rw [queue, current, idle]
    exact nodup
  · have view_eq : { marked with pending := ready.map Prod.fst }.view d =
        { marked.view d with waiting := d ∈ ready.map Prod.fst } := rfl
    rw [view_eq]
    by_cases member : d ∈ ready.map Prod.fst
    · obtain ⟨channel, revent, here, marked_eq⟩ := batch d member
      rw [marked_eq]
      cases valid.stage d with
      | unborn record allocated unwatched => exact absurd (watched d member) unwatched
      | live old calls record allocated alive attached inside inCallback active history =>
          obtain rfl : channel = old := Option.some.inj (here.symm.trans record)
          exact .live _ calls rfl allocated alive attached inside inCallback
            (iff_of_true rfl (.inr member)) history
      | doomed old calls record allocated alive unwatched => exact absurd (watched d member) unwatched
      | gone calls record allocated unwatched => exact absurd (watched d member) unwatched
    · rw [others d member]
      have same : { loop.view d with waiting := d ∈ ready.map Prod.fst } = loop.view d := by
        simp [view, member, pending]
      exact same ▸ valid.stage d

/-- A channel which the loop holds has not been freed. -/
theorem Stage.of_busy {view : View} (stage : Stage view) (busy : view.running ∨ view.waiting) :
    ∃ channel calls, view.record = some channel ∧ view.allocated ∧
      (channel.isInCallback = true ↔ view.running) ∧ channel.isActive = true ∧
      ((channel.isAlive = true ∧ channel.hasLoop = true ∧ (view.watched → channel.event ≠ 0) ∧
          view.history = List.replicate calls .called) ∨
        (channel.isAlive = false ∧ ¬ view.watched ∧
          view.history = List.replicate calls .called ++ [.destroyed])) := by
  cases stage with
  | unborn record allocated watched waiting running history =>
      exact absurd busy (not_or.mpr ⟨running, waiting⟩)
  | live channel calls record allocated alive attached watched inCallback active history =>
      exact ⟨channel, calls, record, allocated, inCallback, active.mpr busy,
        .inl ⟨alive, attached, watched, history⟩⟩
  | doomed channel calls record allocated alive watched inCallback active busy history =>
      exact ⟨channel, calls, record, allocated, inCallback, active.mpr busy,
        .inr ⟨alive, watched, history⟩⟩
  | gone calls record allocated watched waiting running history =>
      exact absurd busy (not_or.mpr ⟨running, waiting⟩)

theorem Valid.secondPass {loop : ChannelLoop} (valid : loop.Valid) (pending : loop.pending ≠ [])
    (idle : loop.current = none) : ∃ next, loop.secondPass = some next ∧ next.Valid := by
  obtain ⟨c, rest, pending_eq⟩ := List.exists_cons_of_ne_nil pending
  have nodup := valid.nodup
  rw [queue, idle, pending_eq] at nodup
  obtain ⟨fresh, nodup⟩ := List.nodup_cons.mp nodup
  let taken : ChannelLoop := { loop with pending := rest }
  have taken_other : ∀ d, d ≠ c → taken.view d = loop.view d := fun d other => by
    simp [taken, view, pending_eq, history, other]
  have taken_self : taken.view c = { loop.view c with waiting := False } := by
    simp [taken, view, fresh, history]
  have notRunning : ¬ (loop.view c).running := by simp [view, idle]
  have waiting : (loop.view c).waiting := by simp [view, pending_eq]
  have pass_eq : loop.secondPass = taken.channelOnevent c := by
    rw [ChannelLoop.secondPass, pending_eq]
  obtain ⟨channel, calls, record, allocated, inCallback, active, life⟩ :=
    (valid.stage c).of_busy (.inr waiting)
  have here : taken.channels c = some channel := record
  have uncalled : channel.isInCallback = false :=
    Bool.eq_false_iff.mpr (mt inCallback.mp notRunning)
  rcases life with ⟨alive, attached, watched, past⟩ | ⟨dead, unwatched, past⟩
  · let called := { taken.store c { channel with isInCallback := true } with
      current := some c
      trace := taken.trace ++ [(c, ChannelEvent.called)] }
    refine ⟨called, ?_, valid.of_others c ?_ (fun d other => ?_) ?_⟩
    · rw [pass_eq, channelOnevent, here, Option.bind_eq_bind, Option.bind_some,
        if_neg (by simp [alive])]
    · exact List.nodup_cons.mpr ⟨fresh, nodup⟩
    · have called_other : called.view d = taken.view d := by
        simp [called, taken, view, store, history, other, Ne.symm other, idle]
      rw [called_other, taken_other d other]
    · have called_self : called.view c =
          { loop.view c with
            record := some { channel with isInCallback := true }
            waiting := False
            running := True
            history := loop.history c ++ [.called] } := by
        simp [called, taken, view, store, history, fresh]
      rw [called_self]
      refine .live _ (calls + 1) rfl allocated alive attached watched (by simp)
        (iff_of_true active (.inl trivial)) ?_
      have past_eq : loop.history c = List.replicate calls .called := past
      simp [past_eq, List.replicate_succ']
  · let passed : Channel := { channel with isActive := false }
    have passed_here : (taken.store c passed).channels c = some passed := by simp [store]
    have destroy_eq : loop.secondPass = some ((taken.store c passed).free c) := by
      rw [pass_eq, channelOnevent, here, Option.bind_eq_bind, Option.bind_some, if_pos dead,
        channelDestroy_spec _ c passed_here]
      simp [passed, uncalled]
    refine ⟨_, destroy_eq, valid.of_others c ?_ (fun d other => ?_) ?_⟩
    · rw [queue]
      simpa [free, store, taken, idle] using nodup
    · rw [view_free_of_ne _ other, view_store_of_ne _ other, taken_other d other]
    · have past_eq : (taken.store c passed).history c =
          List.replicate calls .called ++ [.destroyed] := past
      rw [view_free_self, view_store_self, taken_self, past_eq]
      exact .gone calls rfl allocated unwatched id notRunning (by simp)

theorem Valid.callbackReturns {loop : ChannelLoop} (valid : loop.Valid)
    (running : loop.current ≠ none) : ∃ next, loop.callbackReturns = some next ∧ next.Valid := by
  obtain ⟨c, current⟩ := Option.ne_none_iff_exists'.mp running
  have nodup := valid.nodup
  rw [queue, current] at nodup
  obtain ⟨fresh, nodup⟩ := List.nodup_cons.mp nodup
  obtain ⟨channel, calls, record, allocated, inCallback, active, life⟩ :=
    (valid.stage c).of_busy (.inl current)
  let idle : Channel := { channel with isInCallback := false, revent := 0, isActive := false }
  let after : ChannelLoop := { loop.store c idle with current := none }
  have after_other : ∀ d, d ≠ c → after.view d = loop.view d := fun d other => by
    simp [after, view, store, history, current, other, Ne.symm other]
  have after_self : after.view c =
      { loop.view c with record := some idle, running := False } := by
    simp [after, view, store, history]
  have after_here : after.channels c = some idle := by simp [after, store]
  have returns_eq : loop.callbackReturns =
      if idle.isAlive = false then after.channelDestroy c else some after := by
    simp only [ChannelLoop.callbackReturns, current, Option.bind_eq_bind, Option.bind_some,
      show loop.channels c = some channel from record, after, idle]
  rw [returns_eq]
  rcases life with ⟨alive, attached, watched, past⟩ | ⟨dead, unwatched, past⟩
  · rw [if_neg (by simp [idle, alive])]
    refine ⟨after, rfl, valid.of_others c nodup after_other ?_⟩
    rw [after_self]
    refine .live idle calls rfl allocated alive attached watched (by simp [idle]) ?_ past
    simpa [idle, view] using fresh
  · rw [if_pos dead, channelDestroy_spec _ c after_here, if_neg (by simp [idle])]
    refine ⟨_, rfl, valid.of_others c nodup (fun d other => ?_) ?_⟩
    · rw [view_free_of_ne _ other, after_other d other]
    · have past_eq : after.history c = List.replicate calls .called ++ [.destroyed] := past
      rw [view_free_self, after_self, past_eq]
      exact .gone calls rfl allocated unwatched fresh id (by simp)

/-- Every legal step is made and keeps the invariant. -/
theorem Valid.step {loop : ChannelLoop} {op : ChannelOp} (valid : loop.Valid)
    (legal : loop.Legal op) : ∃ next, loop.step op = some next ∧ next.Valid := by
  cases op with
  | new => exact ⟨loop.channelNew, rfl, valid.channelNew⟩
  | setevent c event => exact valid.channelSetevent event legal.1 legal.2
  | clearevent c event => exact valid.channelClearevent event legal.1 legal.2
  | release c => exact valid.release legal.1 legal.2
  | wait ready =>
      obtain ⟨pending, idle, nodup, watched⟩ := legal
      exact valid.firstPass pending idle nodup watched
  | turn => exact valid.secondPass legal.1 legal.2
  | callbackReturns => exact valid.callbackReturns legal

/-- Whatever the callbacks do, the loop dereferences no freed channel, calls no destroyed channel,
and has freed every destroyed channel once when an iteration is over. -/
theorem channel_release (ops : List ChannelOp) (legal : Admissible step Legal empty ops) :
    ∃ loop, run step empty ops = some loop ∧ loop.Released := by
  obtain ⟨loop, execution, valid⟩ :=
    exists_run_of_admissible Valid Valid.step valid_empty legal
  exact ⟨loop, execution, valid.released⟩

theorem channel_release_own_and_later :
    ∃ loop, run step empty
      [.new, .new, .setevent 0 1, .setevent 1 1, .wait [(0, 1), (1, 1)], .turn, .release 1,
        .release 0, .callbackReturns, .turn] = some loop ∧ loop.Released :=
  channel_release _ (by decide)

/-- The run above frees both channels and calls the first of them. -/
example : ((run step empty
    [.new, .new, .setevent 0 1, .setevent 1 1, .wait [(0, 1), (1, 1)], .turn, .release 1,
      .release 0, .callbackReturns, .turn]).map ChannelLoop.trace) =
    some [(0, .called), (1, .destroyed), (0, .destroyed), (0, .freed), (1, .freed)] := by
  decide

/-! ## What the steps leave alone -/

/-- What a call on a channel does to the rest of the loop: it runs no callback, makes no channel
and lets nothing happen to another channel. -/
structure Quiet (loop next : ChannelLoop) : Prop where
  current : next.current = loop.current
  allocs : next.allocs = loop.allocs
  history : ∀ c, next.history c = loop.history c

theorem Quiet.refl (loop : ChannelLoop) : Quiet loop loop where
  current := rfl
  allocs := rfl
  history _ := rfl

theorem quiet_doLoopUpdateChannel (loop : ChannelLoop) (c : Nat) (channel : Channel) :
    Quiet loop (loop.doLoopUpdateChannel c channel) := by
  unfold doLoopUpdateChannel
  split_ifs <;> exact ⟨rfl, rfl, fun _ => rfl⟩

theorem quiet_channelSetevent {loop next : ChannelLoop} {c : Nat} {event : UInt32}
    (step : loop.channelSetevent c event = some next) : Quiet loop next := by
  obtain ⟨channel, -, rest⟩ := Option.bind_eq_some_iff.mp step
  split_ifs at rest
  · exact Option.some.inj rest ▸ Quiet.refl loop
  · exact Option.some.inj rest ▸ quiet_doLoopUpdateChannel loop c _

theorem quiet_channelClearevent {loop next : ChannelLoop} {c : Nat} {event : UInt32}
    (step : loop.channelClearevent c event = some next) : Quiet loop next := by
  obtain ⟨channel, -, rest⟩ := Option.bind_eq_some_iff.mp step
  split_ifs at rest
  · exact Option.some.inj rest ▸ Quiet.refl loop
  · exact Option.some.inj rest ▸ quiet_doLoopUpdateChannel loop c _

theorem quiet_channelDetach {loop next : ChannelLoop} {c : Nat}
    (step : loop.channelDetach c = some next) : Quiet loop next := by
  obtain ⟨channel, -, rest⟩ := Option.bind_eq_some_iff.mp step
  split_ifs at rest with unset attached
  · exact Option.some.inj rest ▸ Quiet.refl loop
  · obtain ⟨after, -, rest⟩ := Option.bind_eq_some_iff.mp rest
    have quiet := quiet_doLoopUpdateChannel loop c { channel with event := 0 }
    exact Option.some.inj rest ▸ ⟨quiet.current, quiet.allocs, quiet.history⟩
  · obtain ⟨after, -, rest⟩ := Option.bind_eq_some_iff.mp rest
    exact Option.some.inj rest ▸ ⟨rfl, rfl, fun _ => rfl⟩

theorem quiet_firstPass {loop next : ChannelLoop} {ready : List (Nat × UInt32)}
    (step : loop.firstPass ready = some next) : Quiet loop next := by
  obtain ⟨marked, fold, rest⟩ := Option.bind_eq_some_iff.mp step
  have quiet : Quiet loop marked := by
    clear step rest
    induction ready generalizing loop with
    | nil => exact Option.some.inj fold ▸ Quiet.refl loop
    | cons first ready induction =>
        obtain ⟨one, mark, fold⟩ := Option.bind_eq_some_iff.mp fold
        obtain ⟨channel, -, one_eq⟩ := Option.bind_eq_some_iff.mp mark
        have later := induction fold
        obtain rfl := Option.some.inj one_eq
        exact ⟨later.current, later.allocs, later.history⟩
  exact Option.some.inj rest ▸ ⟨quiet.current, quiet.allocs, quiet.history⟩

/-- What the loop itself does to the channels: it may call or free one, and destroys none. -/
structure Tended (loop next : ChannelLoop) : Prop where
  allocs : next.allocs = loop.allocs
  destroyed : ∀ c, .destroyed ∈ next.history c ↔ .destroyed ∈ loop.history c
  /-- The last thing that happened to a channel whose callback started is its call. -/
  called : ∀ c, next.current = some c →
    loop.current = some c ∨ ∃ past, next.history c = past ++ [.called]

theorem Tended.of_trace {loop next : ChannelLoop} (allocs : next.allocs = loop.allocs)
    (current : next.current = loop.current ∨ next.current = none)
    (trace : next.trace = loop.trace ∨ ∃ c, next.trace = loop.trace ++ [(c, .freed)]) :
    Tended loop next where
  allocs := allocs
  destroyed c := by
    rcases trace with same | ⟨d, freed⟩
    · simp [history, same]
    · by_cases at_d : d = c <;> simp [history, freed, at_d]
  called c running := by
    rcases current with same | stopped
    · exact .inl (same ▸ running)
    · simp [stopped] at running

/-- Destroying a channel frees it or marks it. -/
theorem channelDestroy_frame {loop next : ChannelLoop} {c : Nat}
    (step : loop.channelDestroy c = some next) :
    next.current = loop.current ∧ next.allocs = loop.allocs ∧
      (next.trace = loop.trace ∨ next.trace = loop.trace ++ [(c, .freed)]) := by
  obtain ⟨channel, -, rest⟩ := Option.bind_eq_some_iff.mp step
  split_ifs at rest
  · exact Option.some.inj rest ▸ ⟨rfl, rfl, .inl rfl⟩
  · exact Option.some.inj rest ▸ ⟨rfl, rfl, .inl rfl⟩
  · exact Option.some.inj rest ▸ ⟨rfl, rfl, .inr rfl⟩

theorem tended_secondPass {loop next : ChannelLoop} (step : loop.secondPass = some next) :
    Tended loop next := by
  unfold secondPass at step
  split at step
  · cases step
  · rename_i c rest pending
    obtain ⟨channel, -, onevent⟩ := Option.bind_eq_some_iff.mp step
    split_ifs at onevent with dead
    · obtain ⟨current, allocs, trace⟩ := channelDestroy_frame onevent
      exact .of_trace allocs (.inl current) (trace.imp id fun freed => ⟨c, freed⟩)
    · obtain rfl := Option.some.inj onevent
      refine ⟨rfl, fun d => ?_, fun d running => .inr ?_⟩
      · by_cases at_d : c = d <;> simp [history, at_d]
      · obtain rfl : c = d := Option.some.inj running
        exact ⟨loop.history c, by simp [history]⟩

theorem tended_callbackReturns {loop next : ChannelLoop}
    (step : loop.callbackReturns = some next) : Tended loop next ∧ next.current = none := by
  obtain ⟨c, -, rest⟩ := Option.bind_eq_some_iff.mp step
  obtain ⟨channel, -, rest⟩ := Option.bind_eq_some_iff.mp rest
  dsimp only at rest
  split_ifs at rest with dead
  · obtain ⟨current, allocs, trace⟩ := channelDestroy_frame rest
    exact ⟨.of_trace allocs (.inr current) (trace.imp id fun freed => ⟨c, freed⟩), current⟩
  · obtain rfl := Option.some.inj rest
    exact ⟨.of_trace rfl (.inr rfl) (.inl rfl), rfl⟩

theorem Valid.history_unborn {loop : ChannelLoop} (valid : loop.Valid) :
    loop.history loop.allocs = [] := by
  cases valid.stage loop.allocs with
  | unborn record allocated watched waiting running history => exact history
  | live channel calls record allocated => exact absurd allocated (Nat.lt_irrefl loop.allocs)
  | doomed channel calls record allocated => exact absurd allocated (Nat.lt_irrefl loop.allocs)
  | gone calls record allocated => exact absurd allocated (Nat.lt_irrefl loop.allocs)

/-- A channel that was called last was not destroyed. -/
theorem Valid.record_of_called {loop : ChannelLoop} (valid : loop.Valid) {c : Nat}
    (running : loop.current = some c) (called : ∃ past, loop.history c = past ++ [.called]) :
    ∃ channel, loop.channels c = some channel ∧ .destroyed ∉ loop.history c := by
  obtain ⟨past, past_eq⟩ := called
  obtain ⟨channel, calls, record, -, -, -, life⟩ := (valid.stage c).of_busy (.inl running)
  refine ⟨channel, record, ?_⟩
  rcases life with ⟨-, -, -, history⟩ | ⟨-, -, history⟩
  · have history_eq : loop.history c = List.replicate calls .called := history
    simp [history_eq]
  · have last := congrArg List.getLast? (past_eq.symm.trans history)
    simp at last

/-- A released channel is destroyed; the other channels are left alone. -/
theorem release_frame {loop next : ChannelLoop} {c : Nat} (step : loop.release c = some next) :
    next.current = loop.current ∧ next.allocs = loop.allocs ∧
      .destroyed ∈ next.history c ∧ ∀ d, d ≠ c → next.history d = loop.history d := by
  obtain ⟨detached, detach, destroy⟩ := Option.bind_eq_some_iff.mp step
  have quiet := quiet_channelDetach detach
  obtain ⟨current, allocs, trace⟩ := channelDestroy_frame destroy
  have noted : ∀ d, detached.history d =
      loop.history d ++ if c = d then [.destroyed] else [] := by
    intro d
    rw [quiet.history d]
    by_cases same : c = d <;> simp [history, same]
  refine ⟨current.trans quiet.current, allocs.trans quiet.allocs, ?_, fun d other => ?_⟩
  · have before := noted c
    rcases trace with same | freed
    · simp only [history, same] at before ⊢
      simp [before]
    · simp only [history, freed] at before ⊢
      simp [before]
  · have before := noted d
    rw [if_neg (Ne.symm other), List.append_nil] at before
    rcases trace with same | freed
    · simpa [history, same] using before
    · simpa [history, freed, Ne.symm other] using before

end ChannelLoop

end CommonLib
