import CommonLib.Net.Channel

/-!
# UDP peers and their callbacks

`udp_peer.c` in the thread of its loop.  `udp_peer_onevent` calls the callbacks of the peer inline,
and these may destroy the peer; a read of the peer after that is recorded as a fault.
-/

namespace CommonLib

open Execution

def EPOLLIN : UInt32 := 0x001
def EPOLLOUT : UInt32 := 0x004

/-- `struct udp_peer`, without the socket, the user data and the bytes of `in_buffer`. -/
structure UdpPeer where
  refCount : Int
  /-- `messagecb` is not `NULL`. -/
  messagecb : Bool
  /-- `writecb` is not `NULL`. -/
  writecb : Bool
  chunkCount : Nat

/-- The callback which `udp_peer_onevent` has called. -/
inductive PeerCallback
  | write (event : UInt32)
  | message
  deriving DecidableEq

inductive PeerFault
  /-- `udp_peer_onevent` read a field of a released peer. -/
  | useAfterFree
  /-- `udp_peer_onevent` called a callback that was `NULL`. -/
  | nullCall
  deriving DecidableEq

/-- A loop with a peer. -/
structure PeerLoop where
  loop : ChannelLoop
  /-- The peer; `none` once it is freed. -/
  peer : Option UdpPeer
  /-- `peer->channel`, whose callback is `udp_peer_onevent`. -/
  channel : Nat
  /-- Where `udp_peer_onevent` waits for a callback to return. -/
  running : Option PeerCallback
  /-- How often the peer was freed. -/
  releases : Nat
  fault : Option PeerFault

namespace PeerLoop

variable (state : PeerLoop)

/-- `udp_peer_new` and `init_udp_peer_event` with a message callback. -/
def udpPeerNew (loop : ChannelLoop) (writecb : Bool) : Option PeerLoop := do
  let event := if writecb then EPOLLIN ||| EPOLLOUT else EPOLLIN
  let made ← loop.channelNew.channelSetevent loop.allocs event
  some
    { loop := made
      peer := some { refCount := 1, messagecb := true, writecb, chunkCount := 0 }
      channel := loop.allocs
      running := none
      releases := 0
      fault := none }

/-! ## `udp_peer_onevent` -/

def fail (fault : PeerFault) : PeerLoop :=
  { state with fault := some fault }

/-- `udp_peer_onevent` returns. -/
def finish : Option PeerLoop := do
  let next ← state.loop.callbackReturns
  some { state with loop := next, running := none }

/-- `udp_peer_onevent` from `if (event & EPOLLIN)` on, when the socket holds `datagrams`
datagrams. -/
def receive (event : UInt32) (datagrams : Nat) : Option PeerLoop :=
  if event &&& EPOLLIN = 0 then state.finish
  else
    match state.peer with
    | none => some (state.fail .useAfterFree)
    | some peer =>
        let filled := { state with peer := some { peer with chunkCount := datagrams } }
        if 0 < datagrams ∧ peer.messagecb then some { filled with running := some .message }
        else filled.finish

/-- The message loop from the return of the message callback on. -/
def afterMessage : Option PeerLoop :=
  match state.peer with
  | none => some (state.fail .useAfterFree)
  | some peer =>
      let counted :=
        { state with peer := some { peer with chunkCount := peer.chunkCount - 1 } }
      if 0 < peer.chunkCount - 1 then
        if peer.messagecb then some { counted with running := some .message }
        else some (counted.fail .nullCall)
      else counted.finish

/-- `udp_peer_onevent` up to its first callback. -/
def onevent (event : UInt32) (datagrams : Nat) : Option PeerLoop :=
  if event &&& EPOLLOUT = 0 then state.receive event datagrams
  else
    match state.peer with
    | none => some (state.fail .useAfterFree)
    | some peer =>
        if peer.writecb then some { state with running := some (.write event) }
        else state.receive event datagrams

/-- One turn of the second pass of `loop_loop`. -/
def turn (datagrams : Nat) : Option PeerLoop := do
  let next ← state.loop.secondPass
  if next.current = some state.channel then
    let channel ← next.channels state.channel
    { state with loop := next }.onevent channel.revent datagrams
  else some { state with loop := next }

/-- The return of the running callback, of the peer or of another channel. -/
def callbackReturns (datagrams : Nat) : Option PeerLoop :=
  match state.running with
  | none => state.finish
  | some (.write event) => state.receive event datagrams
  | some .message => state.afterMessage

/-! ## The calls of the callbacks -/

/-- `delete_udp_peer`. -/
def deleteUdpPeer : Option PeerLoop := do
  let next ← state.loop.release state.channel
  some { state with loop := next, peer := none, releases := state.releases + 1 }

/-- `channel_setevent` or `channel_clearevent`. -/
def monitor (isSet : Bool) (event : UInt32) : Option ChannelLoop :=
  if isSet then state.loop.channelSetevent state.channel event
  else state.loop.channelClearevent state.channel event

/-- `do_udp_peer_onmessage` and `do_udp_peer_onwrite` after the callback is set: `atomic_dec` and
the update of the channel. -/
def notified (peer : UdpPeer) (isSet : Bool) (event : UInt32) : Option PeerLoop := do
  let after := { state with peer := some { peer with refCount := peer.refCount - 1 } }
  if peer.refCount > 1 then
    let next ← state.monitor isSet event
    some { after with loop := next }
  else after.deleteUdpPeer

/-- `udp_peer_onmessage`, which counts a reference for `do_udp_peer_onmessage`. -/
def onmessage (messagecb : Bool) : Option PeerLoop := do
  let peer ← state.peer
  state.notified { peer with refCount := peer.refCount + 1, messagecb } messagecb EPOLLIN

/-- `udp_peer_onwrite`. -/
def onwrite (writecb : Bool) : Option PeerLoop := do
  let peer ← state.peer
  state.notified { peer with refCount := peer.refCount + 1, writecb } writecb EPOLLOUT

/-- `udp_peer_destroy`. -/
def destroy : Option PeerLoop := do
  let peer ← state.peer
  let after := { state with peer := some { peer with refCount := peer.refCount - 1 } }
  if peer.refCount = 1 then after.deleteUdpPeer else some after

end PeerLoop

/-- What the thread of the loop does; `datagrams` are those which the socket holds when
`udp_peer_onevent` comes to read it. -/
inductive PeerOp
  | loop (op : ChannelOp)
  | turn (datagrams : Nat)
  | callbackReturns (datagrams : Nat)
  | onmessage (messagecb : Bool)
  | onwrite (writecb : Bool)
  | destroy

namespace PeerLoop

def step (state : PeerLoop) : PeerOp → Option PeerLoop
  | .loop op => (state.loop.step op).map fun next => { state with loop := next }
  | .turn datagrams => state.turn datagrams
  | .callbackReturns datagrams => state.callbackReturns datagrams
  | .onmessage messagecb => state.onmessage messagecb
  | .onwrite writecb => state.onwrite writecb
  | .destroy => state.destroy

/-- The operations of the loop that are not stepped through the peer. -/
def Foreign (state : PeerLoop) : ChannelOp → Prop
  | .new | .wait _ => True
  | .setevent c _ | .clearevent c _ | .release c => c ≠ state.channel
  | .turn | .callbackReturns => False

/-- The peer is used until it is destroyed, its channel only through it, and nothing is done after
a fault. -/
def Legal (state : PeerLoop) (op : PeerOp) : Prop :=
  state.fault = none ∧
    match op with
    | .loop op => state.loop.Legal op ∧ state.Foreign op
    | .turn _ => state.loop.Legal .turn
    | .callbackReturns _ => state.loop.Legal .callbackReturns
    | .onmessage _ | .onwrite _ | .destroy => state.peer.isSome

/-- No field of a released peer is read, and the peer is freed with its channel, once. -/
structure Safe (state : PeerLoop) : Prop where
  fault : state.fault ≠ some .useAfterFree
  released : state.loop.Released
  releases : state.releases = if state.peer.isNone then 1 else 0
  destroyed : ChannelEvent.destroyed ∈ state.loop.history state.channel ↔ state.peer.isNone

/-- A callback that returns has left the peer alone, or it was the write callback for an event
without `EPOLLIN`. -/
def Spared (state : PeerLoop) : PeerOp → Prop
  | .callbackReturns _ =>
      state.peer.isSome ∨ ∀ callback, state.running = some callback →
        ∃ event, callback = .write event ∧ event &&& EPOLLIN = 0
  | _ => True

/-! ## The invariant -/

/-- The peer holds one reference until it is released, and its channel is destroyed with it. -/
structure Inv (state : PeerLoop) : Prop where
  valid : state.loop.Valid
  allocated : state.channel < state.loop.allocs
  present : ∀ peer, state.peer = some peer → peer.refCount = 1 ∧
    ChannelEvent.destroyed ∉ state.loop.history state.channel ∧ state.releases = 0
  absent : state.peer = none →
    ChannelEvent.destroyed ∈ state.loop.history state.channel ∧ state.releases = 1
  running : state.running ≠ none → state.loop.current = some state.channel

namespace Inv

variable {state : PeerLoop}

theorem safe (inv : state.Inv) (unfaulted : state.fault ≠ some .useAfterFree) : state.Safe := by
  refine ⟨unfaulted, inv.valid.released, ?_, ?_⟩
  · cases exists_peer : state.peer with
    | none => exact (inv.absent exists_peer).2
    | some peer => exact (inv.present peer exists_peer).2.2
  · cases exists_peer : state.peer with
    | none => exact iff_of_true (inv.absent exists_peer).1 rfl
    | some peer => exact iff_of_false (inv.present peer exists_peer).2.1 (by simp)

/-- The loop may move on as long as the channel of the peer is left alone. -/
theorem of_loop (inv : state.Inv) {next : ChannelLoop} (valid : next.Valid)
    (allocs : state.loop.allocs ≤ next.allocs)
    (destroyed : .destroyed ∈ next.history state.channel ↔
      .destroyed ∈ state.loop.history state.channel)
    (running : state.running ≠ none → next.current = some state.channel) :
    Inv { state with loop := next } where
  valid := valid
  allocated := Nat.lt_of_lt_of_le inv.allocated allocs
  present peer here := by
    obtain ⟨count, alive, releases⟩ := inv.present peer here
    exact ⟨count, mt destroyed.mp alive, releases⟩
  absent gone := ⟨destroyed.mpr (inv.absent gone).1, (inv.absent gone).2⟩
  running := running

/-- The fields of the peer other than its count, the position in `udp_peer_onevent` and the fault
play no part. -/
theorem of_peer (inv : state.Inv) {peer : UdpPeer} (here : state.peer = some peer)
    (changed : UdpPeer) (count : changed.refCount = peer.refCount) :
    Inv { state with peer := some changed } where
  valid := inv.valid
  allocated := inv.allocated
  present other other_eq := by
    obtain rfl : changed = other := Option.some.inj other_eq
    exact count ▸ inv.present peer here
  absent gone := by cases gone
  running := inv.running

theorem fail (inv : state.Inv) (fault : PeerFault) : (state.fail fault).Inv where
  valid := inv.valid
  allocated := inv.allocated
  present := inv.present
  absent := inv.absent
  running := inv.running

theorem call (inv : state.Inv) (current : state.loop.current = some state.channel)
    (callback : PeerCallback) : Inv { state with running := some callback } where
  valid := inv.valid
  allocated := inv.allocated
  present := inv.present
  absent := inv.absent
  running _ := current

/-! ## `udp_peer_onevent` -/

theorem finish (inv : state.Inv) (busy : state.loop.current ≠ none) :
    ∃ next, state.finish = some next ∧ next.Inv ∧ next.fault = state.fault := by
  obtain ⟨loop, step, valid⟩ := inv.valid.callbackReturns busy
  obtain ⟨tended, -⟩ := ChannelLoop.tended_callbackReturns step
  refine ⟨{ state with loop := loop, running := none }, ?_, ?_, rfl⟩
  · rw [PeerLoop.finish, step, Option.bind_eq_bind, Option.bind_some]
  · have stopped : Inv { state with running := none } :=
      ⟨inv.valid, inv.allocated, inv.present, inv.absent, fun running => absurd rfl running⟩
    exact stopped.of_loop valid (Nat.le_of_eq tended.allocs.symm) (tended.destroyed state.channel)
      fun running => absurd rfl running

theorem receive (inv : state.Inv) (current : state.loop.current = some state.channel)
    (unfaulted : state.fault = none) (event : UInt32) (datagrams : Nat) :
    ∃ next, state.receive event datagrams = some next ∧ next.Inv ∧
      (next.fault = some .useAfterFree ↔ state.peer = none ∧ event &&& EPOLLIN ≠ 0) := by
  have busy : state.loop.current ≠ none := by simp [current]
  by_cases silent : event &&& EPOLLIN = 0
  · obtain ⟨next, finish, kept, fault⟩ := inv.finish busy
    refine ⟨next, by rw [PeerLoop.receive, if_pos silent, finish], kept, ?_⟩
    simp [fault, unfaulted, silent]
  · rw [PeerLoop.receive, if_neg silent]
    cases here : state.peer with
    | none => exact ⟨_, rfl, inv.fail _, by simp [PeerLoop.fail, silent]⟩
    | some peer =>
        have filled := inv.of_peer here { peer with chunkCount := datagrams } rfl
        dsimp only
        split_ifs with called
        · exact ⟨_, rfl, filled.call current .message, by simp [unfaulted]⟩
        · obtain ⟨next, finish, kept, fault⟩ := filled.finish busy
          exact ⟨next, finish, kept, by simp [fault, unfaulted]⟩

theorem afterMessage (inv : state.Inv) (current : state.loop.current = some state.channel)
    (unfaulted : state.fault = none) :
    ∃ next, state.afterMessage = some next ∧ next.Inv ∧
      (next.fault = some .useAfterFree ↔ state.peer = none) := by
  rw [PeerLoop.afterMessage]
  cases here : state.peer with
  | none => exact ⟨_, rfl, inv.fail _, by simp [PeerLoop.fail]⟩
  | some peer =>
      have counted := inv.of_peer here { peer with chunkCount := peer.chunkCount - 1 } rfl
      dsimp only
      split_ifs with more called
      · exact ⟨_, rfl, counted.call current .message, by simp [unfaulted]⟩
      · exact ⟨_, rfl, counted.fail _, by simp [PeerLoop.fail]⟩
      · obtain ⟨next, finish, kept, fault⟩ := counted.finish (by simp [current])
        exact ⟨next, finish, kept, by simp [fault, unfaulted]⟩

theorem onevent (inv : state.Inv) (current : state.loop.current = some state.channel)
    (unfaulted : state.fault = none) {peer : UdpPeer} (here : state.peer = some peer)
    (event : UInt32) (datagrams : Nat) :
    ∃ next, state.onevent event datagrams = some next ∧ next.Inv ∧
      next.fault ≠ some .useAfterFree := by
  obtain ⟨next, receive, kept, fault⟩ := inv.receive current unfaulted event datagrams
  have received : next.fault ≠ some .useAfterFree := by simp [fault, here]
  rw [PeerLoop.onevent, here]
  dsimp only
  split_ifs with silent called
  · exact ⟨next, receive, kept, received⟩
  · refine ⟨_, rfl, ?_, by simp [unfaulted]⟩
    rw [← here]
    exact inv.call current (.write event)
  · exact ⟨next, receive, kept, received⟩

/-! ## The steps -/

theorem turn (inv : state.Inv) (legal : state.loop.Legal .turn) (unfaulted : state.fault = none)
    (datagrams : Nat) :
    ∃ next, state.turn datagrams = some next ∧ next.Inv ∧ next.fault ≠ some .useAfterFree := by
  obtain ⟨pending, idle⟩ := legal
  obtain ⟨loop, step, valid⟩ := inv.valid.secondPass pending idle
  have tended := ChannelLoop.tended_secondPass step
  have kept : Inv { state with loop := loop } :=
    inv.of_loop valid (Nat.le_of_eq tended.allocs.symm) (tended.destroyed state.channel)
      fun running => by simpa [idle] using inv.running running
  by_cases current : loop.current = some state.channel
  · -- A channel that is called was not destroyed, so its peer is there.
    have called : ∃ past, loop.history state.channel = past ++ [.called] := by
      rcases tended.called state.channel current with before | called
      · simp [idle] at before
      · exact called
    obtain ⟨channel, record, undestroyed⟩ := valid.record_of_called current called
    cases here : state.peer with
    | none => exact absurd (kept.absent here).1 undestroyed
    | some peer =>
        obtain ⟨next, onevent, rest⟩ :=
          kept.onevent current unfaulted here channel.revent datagrams
        refine ⟨next, ?_, rest⟩
        simp only [PeerLoop.turn, step, Option.bind_eq_bind, Option.bind_some, if_pos current,
          record]
        exact onevent
  · refine ⟨_, ?_, kept, by simp [unfaulted]⟩
    rw [PeerLoop.turn, step, Option.bind_eq_bind, Option.bind_some, if_neg current]

theorem callbackReturns (inv : state.Inv) (busy : state.loop.current ≠ none)
    (unfaulted : state.fault = none) (datagrams : Nat) :
    ∃ next, state.callbackReturns datagrams = some next ∧ next.Inv ∧
      (next.fault = some .useAfterFree ↔ ¬ state.Spared (.callbackReturns datagrams)) := by
  rw [PeerLoop.callbackReturns, Spared]
  cases running : state.running with
  | none =>
      obtain ⟨next, finish, kept, fault⟩ := inv.finish busy
      exact ⟨next, finish, kept, by simp [fault, unfaulted]⟩
  | some callback =>
      have current := inv.running (by simp [running])
      cases callback with
      | write event =>
          obtain ⟨next, receive, kept, fault⟩ := inv.receive current unfaulted event datagrams
          refine ⟨next, receive, kept, fault.trans ?_⟩
          simp
      | message =>
          obtain ⟨next, after, kept, fault⟩ := inv.afterMessage current unfaulted
          refine ⟨next, after, kept, fault.trans ?_⟩
          simp

/-- What is done to other channels or between two iterations. -/
theorem foreign_frame {op : ChannelOp} (foreign : state.Foreign op) {next : ChannelLoop}
    (step : state.loop.step op = some next) :
    next.current = state.loop.current ∧ state.loop.allocs ≤ next.allocs ∧
      next.history state.channel = state.loop.history state.channel := by
  have of_quiet : ChannelLoop.Quiet state.loop next →
      next.current = state.loop.current ∧ state.loop.allocs ≤ next.allocs ∧
        next.history state.channel = state.loop.history state.channel := fun quiet =>
    ⟨quiet.current, Nat.le_of_eq quiet.allocs.symm, quiet.history state.channel⟩
  cases op with
  | new =>
      obtain rfl : state.loop.channelNew = next := Option.some.inj step
      exact ⟨rfl, Nat.le_succ _, rfl⟩
  | setevent c event => exact of_quiet (ChannelLoop.quiet_channelSetevent step)
  | clearevent c event => exact of_quiet (ChannelLoop.quiet_channelClearevent step)
  | release c =>
      obtain ⟨current, allocs, -, others⟩ := ChannelLoop.release_frame step
      exact ⟨current, Nat.le_of_eq allocs.symm, others state.channel (Ne.symm foreign)⟩
  | wait ready => exact of_quiet (ChannelLoop.quiet_firstPass step)
  | turn => exact foreign.elim
  | callbackReturns => exact foreign.elim

theorem loopStep (inv : state.Inv) {op : ChannelOp} (legal : state.loop.Legal op)
    (foreign : state.Foreign op) :
    ∃ next, state.step (.loop op) = some next ∧ next.Inv ∧ next.fault = state.fault := by
  obtain ⟨loop, step, valid⟩ := inv.valid.step legal
  obtain ⟨current, allocs, history⟩ := foreign_frame foreign step
  refine ⟨{ state with loop := loop }, ?_, ?_, rfl⟩
  · rw [PeerLoop.step, step, Option.map_some]
  · exact inv.of_loop valid allocs (by rw [history]) fun running =>
      current.trans (inv.running running)

/-- The last reference is dropped. -/
theorem deleteUdpPeer (inv : state.Inv) {peer : UdpPeer} (here : state.peer = some peer) :
    ∃ next, state.deleteUdpPeer = some next ∧ next.Inv ∧ next.fault = state.fault := by
  obtain ⟨-, undestroyed, releases⟩ := inv.present peer here
  obtain ⟨loop, step, valid⟩ := inv.valid.release inv.allocated undestroyed
  obtain ⟨current, allocs, destroyed, -⟩ := ChannelLoop.release_frame step
  refine ⟨{ state with loop := loop, peer := none, releases := state.releases + 1 }, ?_, ?_, rfl⟩
  · rw [PeerLoop.deleteUdpPeer, step, Option.bind_eq_bind, Option.bind_some]
  · exact ⟨valid, Nat.lt_of_lt_of_le inv.allocated (Nat.le_of_eq allocs.symm), nofun,
      fun _ => ⟨destroyed, by simp [releases]⟩, fun running => current.trans (inv.running running)⟩

/-- A changed callback: the reference that the task held is dropped, and another one is left. -/
theorem notified (inv : state.Inv) {peer : UdpPeer} (here : state.peer = some peer)
    (changed : UdpPeer) (count : changed.refCount = peer.refCount + 1) (isSet : Bool)
    (event : UInt32) :
    ∃ next, state.notified changed isSet event = some next ∧ next.Inv ∧
      next.fault = state.fault := by
  obtain ⟨one, undestroyed, releases⟩ := inv.present peer here
  have shared : changed.refCount > 1 := by omega
  have after := inv.of_peer here { changed with refCount := changed.refCount - 1 }
    (by simp [count])
  have moved : ∃ loop, state.monitor isSet event = some loop ∧ loop.Valid ∧
      ChannelLoop.Quiet state.loop loop := by
    cases isSet with
    | true =>
        obtain ⟨loop, step, valid⟩ := inv.valid.channelSetevent event inv.allocated undestroyed
        exact ⟨loop, step, valid, ChannelLoop.quiet_channelSetevent step⟩
    | false =>
        obtain ⟨loop, step, valid⟩ := inv.valid.channelClearevent event inv.allocated undestroyed
        exact ⟨loop, step, valid, ChannelLoop.quiet_channelClearevent step⟩
  obtain ⟨loop, step, valid, quiet⟩ := moved
  refine ⟨_, ?_, after.of_loop valid (Nat.le_of_eq quiet.allocs.symm)
    (by rw [quiet.history]) fun running => quiet.current.trans (inv.running running), rfl⟩
  simp only [PeerLoop.notified, if_pos shared, step, Option.bind_eq_bind, Option.bind_some]

theorem destroy (inv : state.Inv) {peer : UdpPeer} (here : state.peer = some peer) :
    ∃ next, state.destroy = some next ∧ next.Inv ∧ next.fault = state.fault := by
  have one := (inv.present peer here).1
  have last : state.destroy = state.deleteUdpPeer := by
    simp only [PeerLoop.destroy, here, Option.bind_eq_bind, Option.bind_some, if_pos one]
    rfl
  rw [last]
  exact inv.deleteUdpPeer here

/-- What a legal step does: it reads a released peer only when a callback returns to such a
read. -/
theorem step (inv : state.Inv) {op : PeerOp} (legal : state.Legal op) :
    ∃ next, state.step op = some next ∧ next.Inv ∧
      (next.fault = some .useAfterFree ↔ ¬ state.Spared op) := by
  obtain ⟨unfaulted, legal⟩ := legal
  cases op with
  | loop op =>
      obtain ⟨next, step, kept, fault⟩ := inv.loopStep legal.1 legal.2
      exact ⟨next, step, kept, by simp [fault, unfaulted, Spared]⟩
  | turn datagrams =>
      obtain ⟨next, step, kept, fault⟩ := inv.turn legal unfaulted datagrams
      exact ⟨next, step, kept, by simp [fault, Spared]⟩
  | callbackReturns datagrams => exact inv.callbackReturns legal unfaulted datagrams
  | onmessage messagecb =>
      obtain ⟨peer, here⟩ := Option.isSome_iff_exists.mp legal
      obtain ⟨next, step, kept, fault⟩ := inv.notified here
        { peer with refCount := peer.refCount + 1, messagecb } rfl messagecb EPOLLIN
      refine ⟨next, ?_, kept, by simp [fault, unfaulted, Spared]⟩
      rw [PeerLoop.step, PeerLoop.onmessage, here, Option.bind_eq_bind, Option.bind_some, step]
  | onwrite writecb =>
      obtain ⟨peer, here⟩ := Option.isSome_iff_exists.mp legal
      obtain ⟨next, step, kept, fault⟩ := inv.notified here
        { peer with refCount := peer.refCount + 1, writecb } rfl writecb EPOLLOUT
      refine ⟨next, ?_, kept, by simp [fault, unfaulted, Spared]⟩
      rw [PeerLoop.step, PeerLoop.onwrite, here, Option.bind_eq_bind, Option.bind_some, step]
  | destroy =>
      obtain ⟨peer, here⟩ := Option.isSome_iff_exists.mp legal
      obtain ⟨next, step, kept, fault⟩ := inv.destroy here
      exact ⟨next, step, kept, by simp [fault, unfaulted, Spared]⟩

theorem udpPeerNew {loop : ChannelLoop} (valid : loop.Valid) (writecb : Bool) :
    ∃ made, PeerLoop.udpPeerNew loop writecb = some made ∧ made.Inv ∧ made.fault = none := by
  have fresh : .destroyed ∉ loop.channelNew.history loop.allocs := by
    have unborn : loop.channelNew.history loop.allocs = [] := valid.history_unborn
    simp [unborn]
  obtain ⟨next, step, kept⟩ := valid.channelNew.channelSetevent
    (if writecb then EPOLLIN ||| EPOLLOUT else EPOLLIN) (Nat.lt_succ_self loop.allocs) fresh
  have quiet := ChannelLoop.quiet_channelSetevent step
  let made : PeerLoop :=
    { loop := next
      peer := some { refCount := 1, messagecb := true, writecb, chunkCount := 0 }
      channel := loop.allocs
      running := none
      releases := 0
      fault := none }
  have made_eq : PeerLoop.udpPeerNew loop writecb = some made := by
    simp only [PeerLoop.udpPeerNew, step, Option.bind_eq_bind, Option.bind_some, made]
  refine ⟨made, made_eq, ⟨kept, ?_, ?_, nofun, fun running => absurd rfl running⟩, rfl⟩
  · exact Nat.lt_of_lt_of_le (Nat.lt_succ_self loop.allocs) (Nat.le_of_eq quiet.allocs.symm)
  · intro peer here
    obtain rfl := Option.some.inj here
    exact ⟨rfl, by rw [quiet.history]; exact fresh, rfl⟩

end Inv

/-! ## Destroying a peer from its callbacks -/

instance decidableSpared (state : PeerLoop) : (op : PeerOp) → Decidable (state.Spared op)
  | .callbackReturns _ =>
      match running : state.running with
      | none => isTrue (.inr fun callback here => by simp [running] at here)
      | some .message =>
          decidable_of_iff (state.peer.isSome = true) (by simp [Spared, running])
      | some (.write event) =>
          decidable_of_iff (state.peer.isSome = true ∨ event &&& EPOLLIN = 0)
            (by simp [Spared, running])
  | .loop _ | .turn _ | .onmessage _ | .onwrite _ | .destroy => isTrue trivial

instance decidableForeign (state : PeerLoop) : (op : ChannelOp) → Decidable (state.Foreign op)
  | .new | .wait _ => isTrue trivial
  | .setevent _ _ | .clearevent _ _ | .release _ => inferInstanceAs (Decidable (_ ≠ _))
  | .turn | .callbackReturns => isFalse id

instance decidableLegal (state : PeerLoop) : (op : PeerOp) → Decidable (state.Legal op)
  | .loop _ => inferInstanceAs (Decidable (_ ∧ _ ∧ _))
  | .turn _ | .callbackReturns _ => inferInstanceAs (Decidable (_ ∧ _))
  | .onmessage _ | .onwrite _ | .destroy => inferInstanceAs (Decidable (_ ∧ _))

/-- Whatever the callbacks do, the loop goes on; a released peer is not read and is freed once with
its channel exactly when no callback returns to a read of the peer which it destroyed. -/
theorem peer_destroy_safe_iff {before : List ChannelOp} {loop : ChannelLoop}
    (prepared : Admissible ChannelLoop.step ChannelLoop.Legal .empty before)
    (reach : run ChannelLoop.step .empty before = some loop) (writecb : Bool) :
    ∃ initial, udpPeerNew loop writecb = some initial ∧
      ∀ ops, Admissible step Legal initial ops →
        (∃ final, run step initial ops = some final) ∧
          (AllStates step Safe initial ops ↔ AllSteps step Spared initial ops) := by
  obtain ⟨other, execution, valid⟩ := exists_run_of_admissible ChannelLoop.Valid
    ChannelLoop.Valid.step ChannelLoop.valid_empty prepared
  obtain rfl : loop = other := Option.some.inj (reach.symm.trans execution)
  obtain ⟨initial, made, inv, unfaulted⟩ := Inv.udpPeerNew valid writecb
  refine ⟨initial, made, fun ops allowed => ⟨?_, ?_⟩⟩
  · obtain ⟨final, execution, -⟩ := exists_run_of_admissible Inv (fun inv legal => by
      obtain ⟨next, step, kept, -⟩ := inv.step legal
      exact ⟨next, step, kept⟩) inv allowed
    exact ⟨final, execution⟩
  · refine allowed.allStates_iff_allSteps
      (fun state => state.Inv ∧ state.fault ≠ some .useAfterFree)
      (fun inv => inv.1.safe inv.2) ?_ ?_ ⟨inv, by simp [unfaulted]⟩
    · intro state next op inv legal spared made
      obtain ⟨other, step, kept, fault⟩ := inv.1.step legal
      obtain rfl : next = other := Option.some.inj (made.symm.trans step)
      exact ⟨kept, fun freed => fault.mp freed spared⟩
    · intro state next op inv legal violated made safe
      obtain ⟨other, step, -, fault⟩ := inv.1.step legal
      obtain rfl : next = other := Option.some.inj (made.symm.trans step)
      exact safe.fault (fault.mpr violated)

/-- A peer that its write callback destroys on an event without `EPOLLIN`. -/
theorem peer_destroy_safe_iff_write :
    ∃ initial, udpPeerNew .empty true = some initial ∧
      AllStates step Safe initial
        [.loop (.wait [(0, EPOLLOUT)]), .turn 0, .destroy, .callbackReturns 0] := by
  have prepared : Admissible ChannelLoop.step ChannelLoop.Legal .empty [] := trivial
  obtain ⟨initial, made, safe⟩ := peer_destroy_safe_iff prepared rfl true
  have facts : (udpPeerNew .empty true).all (fun initial =>
      decide (Admissible step Legal initial
        [.loop (.wait [(0, EPOLLOUT)]), .turn 0, .destroy, .callbackReturns 0] ∧
      AllSteps step Spared initial
        [.loop (.wait [(0, EPOLLOUT)]), .turn 0, .destroy, .callbackReturns 0])) = true := by
    decide
  rw [made, Option.all_some] at facts
  obtain ⟨allowed, spared⟩ := of_decide_eq_true facts
  exact ⟨initial, made, (safe _ allowed).2.mpr spared⟩

/-- A message callback destroys the peer; when it returns, `udp_peer_onevent` reads the size of the
record that it has delivered. -/
theorem message_callback_destroys_peer :
    ¬ ∀ writecb initial, udpPeerNew .empty writecb = some initial →
      ∀ ops, Admissible step Legal initial ops → AllStates step Safe initial ops := by
  intro safe
  let ops : List PeerOp := [.loop (.wait [(0, EPOLLIN)]), .turn 1, .destroy, .callbackReturns 0]
  have facts : (udpPeerNew .empty false).any (fun initial =>
      decide (Admissible step Legal initial ops) &&
        (run step initial ops).any fun final =>
          decide (final.fault = some .useAfterFree)) = true := by
    decide
  obtain ⟨initial, made, facts⟩ := (Option.any_eq_true _ _).mp facts
  obtain ⟨allowed, faulted⟩ := Bool.and_eq_true_iff.mp facts
  obtain ⟨final, execution, faulted⟩ := (Option.any_eq_true _ _).mp faulted
  exact ((safe false initial made ops (of_decide_eq_true allowed)).of_run execution).fault
    (of_decide_eq_true faulted)

end PeerLoop

end CommonLib
