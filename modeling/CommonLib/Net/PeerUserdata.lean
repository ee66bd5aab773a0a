import CommonLib.Net.UdpPeer

/-!
# The user data of a UDP peer

`udp_peer.c` keeps a user datum beside each callback.  The peer of `UdpPeer` is extended by both
pairs, by what was registered last, and by the calls of the callbacks.
-/

namespace CommonLib

open Execution

/-- A callback, or `NULL`, with the user datum, or `NULL`, that is passed to it. -/
@[ext]
structure Registration (Callback Userdata : Type) where
  callback : Option Callback
  userdata : Option Userdata
  deriving DecidableEq

/-- A call of a callback, with the registration in force. -/
structure PeerCall (Callback Userdata : Type) where
  passed : Registration Callback Userdata
  registered : Registration Callback Userdata
  deriving DecidableEq

/-- `struct udp_peer` in its loop with the callbacks and their user data. -/
structure RegisteredPeer (Callback Userdata : Type) where
  base : PeerLoop
  messagecb : Option Callback
  messageUserdata : Option Userdata
  writecb : Option Callback
  writeUserdata : Option Userdata
  /-- The last registration of a message callback. -/
  messageRegistered : Registration Callback Userdata
  /-- The last registration of a write callback. -/
  writeRegistered : Registration Callback Userdata
  calls : List (PeerCall Callback Userdata)

/-- What the thread of the loop does, with the arguments of `udp_peer_onmessage` and
`udp_peer_onwrite`. -/
inductive RegisteredOp (Callback Userdata : Type)
  | loop (op : ChannelOp)
  | turn (datagrams : Nat)
  | callbackReturns (datagrams : Nat)
  | onmessage (messagecb : Option Callback) (userdata : Option Userdata)
  | onwrite (writecb : Option Callback) (userdata : Option Userdata)
  | destroy

/-- The operation without the arguments other than whether the callback is `NULL`. -/
def RegisteredOp.base {Callback Userdata : Type} : RegisteredOp Callback Userdata → PeerOp
  | .loop op => .loop op
  | .turn datagrams => .turn datagrams
  | .callbackReturns datagrams => .callbackReturns datagrams
  | .onmessage messagecb _ => .onmessage messagecb.isSome
  | .onwrite writecb _ => .onwrite writecb.isSome
  | .destroy => .destroy

namespace RegisteredPeer

variable {Callback Userdata : Type}

/-- `udp_peer_new`, which refuses a message callback that is `NULL` and registers one user datum
with both callbacks. -/
def udpPeerNew (loop : ChannelLoop) (messagecb writecb : Option Callback)
    (userdata : Option Userdata) : Option (RegisteredPeer Callback Userdata) :=
  if messagecb.isNone then none
  else (PeerLoop.udpPeerNew loop writecb.isSome).map fun base =>
    { base
      messagecb
      messageUserdata := userdata
      writecb
      writeUserdata := userdata
      messageRegistered := ⟨messagecb, userdata⟩
      writeRegistered := ⟨writecb, userdata⟩
      calls := [] }

variable (state : RegisteredPeer Callback Userdata)

/-- `udp_peer_onmessage` and `do_udp_peer_onmessage`. -/
def onmessage (messagecb : Option Callback) (userdata : Option Userdata) :
    Option (RegisteredPeer Callback Userdata) := do
  let peer ← state.base.peer
  let next ← state.base.onmessage messagecb.isSome
  let after :=
    { state with
      base := next
      messagecb
      messageUserdata := userdata
      messageRegistered := ⟨messagecb, userdata⟩ }
  if peer.refCount + 1 > 1 ∧ messagecb.isNone then some { after with messageUserdata := none }
  else some after

/-- `udp_peer_onwrite` and `do_udp_peer_onwrite`, which resets the user datum of the message
callback. -/
def onwrite (writecb : Option Callback) (userdata : Option Userdata) :
    Option (RegisteredPeer Callback Userdata) := do
  let peer ← state.base.peer
  let next ← state.base.onwrite writecb.isSome
  let after :=
    { state with
      base := next
      writecb
      writeUserdata := userdata
      writeRegistered := ⟨writecb, userdata⟩ }
  if peer.refCount + 1 > 1 ∧ writecb.isNone then some { after with messageUserdata := none }
  else some after

/-- What `udp_peer_onevent` passes to a callback. -/
def call : PeerCallback → PeerCall Callback Userdata
  | .write _ => ⟨⟨state.writecb, state.writeUserdata⟩, state.writeRegistered⟩
  | .message => ⟨⟨state.messagecb, state.messageUserdata⟩, state.messageRegistered⟩

/-- `udp_peer_onevent` up to its next callback. -/
def onevent (next : PeerLoop) : RegisteredPeer Callback Userdata :=
  { state with
    base := next
    calls :=
      if next.fault = none then state.calls ++ (next.running.map state.call).toList
      else state.calls }

def step (state : RegisteredPeer Callback Userdata) :
    RegisteredOp Callback Userdata → Option (RegisteredPeer Callback Userdata)
  | .loop op => (state.base.step (.loop op)).map fun next => { state with base := next }
  | .turn datagrams => (state.base.turn datagrams).map state.onevent
  | .callbackReturns datagrams => (state.base.callbackReturns datagrams).map state.onevent
  | .onmessage messagecb userdata => state.onmessage messagecb userdata
  | .onwrite writecb userdata => state.onwrite writecb userdata
  | .destroy => state.base.destroy.map fun next => { state with base := next }

def Legal (state : RegisteredPeer Callback Userdata) (op : RegisteredOp Callback Userdata) : Prop :=
  state.base.Legal op.base

/-- A callback that is registered stands in the peer with its user datum, and each call of a
callback passed it the user datum that was registered with it. -/
structure Registered (state : RegisteredPeer Callback Userdata) : Prop where
  messagecb : state.messagecb = state.messageRegistered.callback
  messageUserdata : state.messagecb.isSome →
    state.messageUserdata = state.messageRegistered.userdata
  writecb : state.writecb = state.writeRegistered.callback
  writeUserdata : state.writecb.isSome → state.writeUserdata = state.writeRegistered.userdata
  calls : ∀ call ∈ state.calls, call.passed.callback.isSome ∧ call.passed = call.registered

/-- A write callback is removed only while the message callback has no user datum. -/
def KeepsMessage (state : RegisteredPeer Callback Userdata) :
    RegisteredOp Callback Userdata → Prop
  | .onwrite none _ => state.messageUserdata = none
  | _ => True

/-! ## What a step of the peer does to it -/

section Base

/-- Whether the callback that is called is set. -/
def CallbackSet (peer : UdpPeer) : PeerCallback → Prop
  | .write _ => peer.writecb
  | .message => peer.messagecb

/-- The peer keeps its callbacks, and one that is called is set. -/
structure Calls (base next : PeerLoop) : Prop where
  kept : ∀ after, next.peer = some after → ∃ peer, base.peer = some peer ∧
    after.messagecb = peer.messagecb ∧ after.writecb = peer.writecb
  called : next.fault = none → ∀ callback, next.running = some callback →
    ∃ peer, next.peer = some peer ∧ CallbackSet peer callback

variable {base next : PeerLoop} {peer : UdpPeer}

theorem Calls.finish (finished : base.finish = some next) : Calls base next := by
  obtain ⟨loop, -, next_eq⟩ := Option.bind_eq_some_iff.mp finished
  obtain rfl := Option.some.inj next_eq
  refine ⟨fun after here => ⟨after, here, rfl, rfl⟩, ?_⟩
  intro _ callback running
  cases running

theorem Calls.fail {fault : PeerFault} : Calls base (base.fail fault) := by
  refine ⟨fun after here => ⟨after, here, rfl, rfl⟩, ?_⟩
  intro unfaulted
  cases unfaulted

/-- A change of `chunk_count` is not seen. -/
theorem Calls.of_chunkCount (chunkCount : Nat) (here : base.peer = some peer)
    (calls : Calls { base with peer := some { peer with chunkCount } } next) :
    Calls base next := by
  refine ⟨fun after there => ?_, calls.called⟩
  obtain ⟨counted, counted_eq, kept⟩ := calls.kept after there
  obtain rfl := Option.some.inj counted_eq
  exact ⟨peer, here, kept⟩

theorem Calls.call {callback : PeerCallback} (here : base.peer = some peer)
    (isSet : CallbackSet peer callback) :
    Calls base { base with running := some callback } := by
  refine ⟨fun after there => ⟨after, there, rfl, rfl⟩, ?_⟩
  intro _ other other_eq
  obtain rfl := Option.some.inj other_eq
  exact ⟨peer, here, isSet⟩

theorem Calls.receive {event : UInt32} {datagrams : Nat}
    (received : base.receive event datagrams = some next) : Calls base next := by
  unfold PeerLoop.receive at received
  split at received
  · exact .finish received
  · split at received
    · obtain rfl := Option.some.inj received
      exact .fail
    · next peer here =>
        apply Calls.of_chunkCount datagrams here
        dsimp only at received
        split at received
        · next called =>
            obtain rfl := Option.some.inj received
            exact .call rfl called.2
        · exact .finish received

theorem Calls.afterMessage (returned : base.afterMessage = some next) : Calls base next := by
  unfold PeerLoop.afterMessage at returned
  split at returned
  · obtain rfl := Option.some.inj returned
    exact .fail
  · next peer here =>
      apply Calls.of_chunkCount (peer.chunkCount - 1) here
      dsimp only at returned
      split at returned
      · split at returned
        · next called =>
            obtain rfl := Option.some.inj returned
            exact .call rfl called
        · obtain rfl := Option.some.inj returned
          exact .fail
      · exact .finish returned

theorem Calls.onevent {event : UInt32} {datagrams : Nat}
    (ran : base.onevent event datagrams = some next) : Calls base next := by
  unfold PeerLoop.onevent at ran
  split at ran
  · exact .receive ran
  · split at ran
    · obtain rfl := Option.some.inj ran
      exact .fail
    · next peer here =>
        split at ran
        · next called =>
            obtain rfl := Option.some.inj ran
            exact .call here called
        · exact .receive ran

theorem Calls.turn {datagrams : Nat} (idle : base.running = none)
    (turned : base.turn datagrams = some next) : Calls base next := by
  obtain ⟨loop, -, entered⟩ := Option.bind_eq_some_iff.mp turned
  split at entered
  · obtain ⟨channel, -, ran⟩ := Option.bind_eq_some_iff.mp entered
    have calls := Calls.onevent ran
    exact ⟨calls.kept, calls.called⟩
  · obtain rfl := Option.some.inj entered
    refine ⟨fun after here => ⟨after, here, rfl, rfl⟩, ?_⟩
    intro _ callback running
    rw [idle] at running
    cases running

theorem Calls.callbackReturns {datagrams : Nat}
    (returned : base.callbackReturns datagrams = some next) : Calls base next := by
  unfold PeerLoop.callbackReturns at returned
  split at returned
  · exact .finish returned
  · exact .receive returned
  · exact .afterMessage returned

/-- A changed callback. -/
theorem notified_peer {isSet : Bool} {event : UInt32}
    (notified : base.notified peer isSet event = some next) (after : UdpPeer)
    (here : next.peer = some after) :
    after.messagecb = peer.messagecb ∧ after.writecb = peer.writecb := by
  unfold PeerLoop.notified at notified
  split at notified
  · obtain ⟨loop, -, next_eq⟩ := Option.bind_eq_some_iff.mp notified
    obtain rfl := Option.some.inj next_eq
    obtain rfl := Option.some.inj here
    exact ⟨rfl, rfl⟩
  · obtain ⟨loop, -, next_eq⟩ := Option.bind_eq_some_iff.mp notified
    obtain rfl := Option.some.inj next_eq
    cases here

theorem destroy_peer {state : PeerLoop} (destroyed : state.destroy = some next) (after : UdpPeer)
    (here : next.peer = some after) : ∃ peer, state.peer = some peer ∧
      after.messagecb = peer.messagecb ∧ after.writecb = peer.writecb := by
  obtain ⟨peer, there, dropped⟩ := Option.bind_eq_some_iff.mp destroyed
  split at dropped
  · obtain ⟨loop, -, next_eq⟩ := Option.bind_eq_some_iff.mp dropped
    obtain rfl := Option.some.inj next_eq
    cases here
  · obtain rfl := Option.some.inj dropped
    obtain rfl := Option.some.inj here
    exact ⟨peer, there, rfl, rfl⟩

theorem loop_peer {op : ChannelOp} (stepped : base.step (.loop op) = some next) :
    next.peer = base.peer := by
  obtain ⟨loop, -, rfl⟩ := Option.map_eq_some_iff.mp stepped
  rfl

end Base

/-! ## The invariant -/

/-- The peer has the callbacks that are registered, and no user datum without a message callback. -/
structure Inv (state : RegisteredPeer Callback Userdata) : Prop where
  base : state.base.Inv
  callbacks : ∀ peer, state.base.peer = some peer →
    peer.messagecb = state.messagecb.isSome ∧ peer.writecb = state.writecb.isSome
  unset : state.messagecb = none → state.messageUserdata = none
  registered : state.Registered

section Steps

variable {state next : RegisteredPeer Callback Userdata} {op : RegisteredOp Callback Userdata}

/-- A step of the peer is one of the peer without its user data. -/
theorem step_base (stepped : step state op = some next) :
    state.base.step op.base = some next.base := by
  cases op with
  | loop op =>
      obtain ⟨base, base_eq, rfl⟩ := Option.map_eq_some_iff.mp stepped
      exact base_eq
  | turn datagrams =>
      obtain ⟨base, base_eq, rfl⟩ := Option.map_eq_some_iff.mp stepped
      exact base_eq
  | callbackReturns datagrams =>
      obtain ⟨base, base_eq, rfl⟩ := Option.map_eq_some_iff.mp stepped
      exact base_eq
  | destroy =>
      obtain ⟨base, base_eq, rfl⟩ := Option.map_eq_some_iff.mp stepped
      exact base_eq
  | onmessage messagecb userdata =>
      obtain ⟨peer, -, changed⟩ := Option.bind_eq_some_iff.mp stepped
      obtain ⟨base, base_eq, next_eq⟩ := Option.bind_eq_some_iff.mp changed
      split at next_eq
      all_goals
        obtain rfl := Option.some.inj next_eq
        exact base_eq
  | onwrite writecb userdata =>
      obtain ⟨peer, -, changed⟩ := Option.bind_eq_some_iff.mp stepped
      obtain ⟨base, base_eq, next_eq⟩ := Option.bind_eq_some_iff.mp changed
      split at next_eq
      all_goals
        obtain rfl := Option.some.inj next_eq
        exact base_eq

/-- Each step of the peer without its user data is one with them. -/
theorem exists_step {base : PeerLoop} (stepped : state.base.step op.base = some base) :
    ∃ next, step state op = some next := by
  cases op with
  | loop op => exact ⟨_, Option.map_eq_some_iff.mpr ⟨base, stepped, rfl⟩⟩
  | turn datagrams => exact ⟨_, Option.map_eq_some_iff.mpr ⟨base, stepped, rfl⟩⟩
  | callbackReturns datagrams => exact ⟨_, Option.map_eq_some_iff.mpr ⟨base, stepped, rfl⟩⟩
  | destroy => exact ⟨_, Option.map_eq_some_iff.mpr ⟨base, stepped, rfl⟩⟩
  | onmessage messagecb userdata =>
      obtain ⟨peer, here, -⟩ := Option.bind_eq_some_iff.mp stepped
      change state.base.onmessage messagecb.isSome = some base at stepped
      simp only [step, RegisteredPeer.onmessage, here, stepped, Option.bind_eq_bind,
        Option.bind_some]
      split <;> exact ⟨_, rfl⟩
  | onwrite writecb userdata =>
      obtain ⟨peer, here, -⟩ := Option.bind_eq_some_iff.mp stepped
      change state.base.onwrite writecb.isSome = some base at stepped
      simp only [step, RegisteredPeer.onwrite, here, stepped, Option.bind_eq_bind,
        Option.bind_some]
      split <;> exact ⟨_, rfl⟩

/-- The loop goes on. -/
theorem exists_step_of_legal (inv : state.base.Inv) (legal : state.Legal op) :
    ∃ next, step state op = some next ∧ next.base.Inv := by
  obtain ⟨base, stepped, kept, -⟩ := inv.step legal
  obtain ⟨next, made⟩ := exists_step stepped
  obtain rfl := Option.some.inj (stepped.symm.trans (step_base made))
  exact ⟨next, made, kept⟩

theorem base_inv (inv : state.base.Inv) (legal : state.Legal op)
    (stepped : step state op = some next) : next.base.Inv := by
  obtain ⟨other, made, kept⟩ := exists_step_of_legal inv legal
  obtain rfl := Option.some.inj (stepped.symm.trans made)
  exact kept

/-- A callback that is called has its own user datum. -/
theorem Inv.call_eq (inv : state.Inv) {peer : UdpPeer} (here : state.base.peer = some peer)
    {callback : PeerCallback} (isSet : CallbackSet peer callback) :
    (state.call callback).passed.callback.isSome ∧
      (state.call callback).passed = (state.call callback).registered := by
  obtain ⟨message, write⟩ := inv.callbacks peer here
  obtain ⟨messagecb, messageUserdata, writecb, writeUserdata, -⟩ := inv.registered
  cases callback with
  | write event =>
      have some : state.writecb.isSome := write ▸ isSet
      exact ⟨some, Registration.ext writecb (writeUserdata some)⟩
  | message =>
      have some : state.messagecb.isSome := message ▸ isSet
      exact ⟨some, Registration.ext messagecb (messageUserdata some)⟩

theorem Inv.onevent (inv : state.Inv) {base : PeerLoop} (calls : Calls state.base base)
    (kept : base.Inv) : (state.onevent base).Inv := by
  refine ⟨kept, ?_, inv.unset, { inv.registered with calls := ?_ }⟩
  · intro after here
    obtain ⟨peer, there, message, write⟩ := calls.kept after here
    rw [message, write]
    exact inv.callbacks peer there
  · intro call member
    simp only [RegisteredPeer.onevent] at member
    split at member
    case isFalse => exact inv.registered.calls call member
    next unfaulted =>
      rcases List.mem_append.mp member with before | called
      · exact inv.registered.calls call before
      · obtain ⟨callback, running, rfl⟩ := Option.map_eq_some_iff.mp (Option.mem_toList.mp called)
        obtain ⟨after, here, isSet⟩ := calls.called unfaulted callback running
        obtain ⟨peer, there, message, write⟩ := calls.kept after here
        refine inv.call_eq there ?_
        cases callback with
        | write event => exact (congrArg (· = true) write).mp isSet
        | message => exact (congrArg (· = true) message).mp isSet

theorem Inv.of_base (inv : state.Inv) {base : PeerLoop} (kept : base.Inv)
    (same : ∀ after, base.peer = some after → ∃ peer, state.base.peer = some peer ∧
      after.messagecb = peer.messagecb ∧ after.writecb = peer.writecb) :
    Inv { state with base := base } := by
  refine ⟨kept, ?_, inv.unset, { inv.registered with }⟩
  intro after here
  obtain ⟨peer, there, message, write⟩ := same after here
  rw [message, write]
  exact inv.callbacks peer there

/-- `udp_peer_onmessage` registers its callback with its user datum. -/
theorem Inv.onmessage (inv : state.Inv) {messagecb : Option Callback} {userdata : Option Userdata}
    (changed : state.onmessage messagecb userdata = some next) (kept : next.base.Inv) :
    next.Inv := by
  obtain ⟨peer, here, changed⟩ := Option.bind_eq_some_iff.mp changed
  obtain ⟨base, base_eq, next_eq⟩ := Option.bind_eq_some_iff.mp changed
  obtain ⟨other, other_eq, notified⟩ := Option.bind_eq_some_iff.mp base_eq
  obtain rfl := Option.some.inj (here.symm.trans other_eq)
  have shared : peer.refCount + 1 > 1 := by
    have one := (inv.base.present peer here).1
    omega
  have callbacks : ∀ after, base.peer = some after →
      after.messagecb = messagecb.isSome ∧ after.writecb = state.writecb.isSome := by
    intro after there
    obtain ⟨message, write⟩ := notified_peer notified after there
    exact ⟨message, write.trans (inv.callbacks peer here).2⟩
  obtain ⟨-, -, writecb, writeUserdata, calls⟩ := inv.registered
  split at next_eq
  · next reset =>
      obtain rfl := Option.some.inj next_eq
      obtain rfl := Option.isNone_iff_eq_none.mp reset.2
      refine ⟨kept, callbacks, fun _ => rfl, rfl, ?_, writecb, writeUserdata, calls⟩
      intro isSet
      cases isSet
  · next notReset =>
      obtain rfl := Option.some.inj next_eq
      refine ⟨kept, callbacks, ?_, rfl, fun _ => rfl, writecb, writeUserdata, calls⟩
      intro none
      exact absurd ⟨shared, Option.isNone_iff_eq_none.mpr none⟩ notReset

/-- `udp_peer_onwrite` registers its callback, and leaves the other alone unless it removes the
write callback. -/
theorem Inv.onwrite (inv : state.Inv) {writecb : Option Callback} {userdata : Option Userdata}
    (changed : state.onwrite writecb userdata = some next) (kept : next.base.Inv)
    (keeps : state.KeepsMessage (.onwrite writecb userdata)) : next.Inv := by
  obtain ⟨peer, here, changed⟩ := Option.bind_eq_some_iff.mp changed
  obtain ⟨base, base_eq, next_eq⟩ := Option.bind_eq_some_iff.mp changed
  obtain ⟨other, other_eq, notified⟩ := Option.bind_eq_some_iff.mp base_eq
  obtain rfl := Option.some.inj (here.symm.trans other_eq)
  have callbacks : ∀ after, base.peer = some after →
      after.messagecb = state.messagecb.isSome ∧ after.writecb = writecb.isSome := by
    intro after there
    obtain ⟨message, write⟩ := notified_peer notified after there
    exact ⟨message.trans (inv.callbacks peer here).1, write⟩
  obtain ⟨messagecb, messageUserdata, -, -, calls⟩ := inv.registered
  split at next_eq
  · next reset =>
      obtain rfl := Option.some.inj next_eq
      obtain rfl := Option.isNone_iff_eq_none.mp reset.2
      refine ⟨kept, callbacks, fun _ => rfl, messagecb, ?_, rfl, fun _ => rfl, calls⟩
      intro isSet
      exact keeps.symm.trans (messageUserdata isSet)
  · obtain rfl := Option.some.inj next_eq
    exact ⟨kept, callbacks, inv.unset, messagecb, messageUserdata, rfl, fun _ => rfl, calls⟩

/-- Without its callback the message registration loses its user datum. -/
theorem Inv.onwrite_none (inv : state.Inv) {userdata : Option Userdata}
    (changed : state.onwrite none userdata = some next) (some : state.messageUserdata ≠ none) :
    ¬ next.Registered := by
  obtain ⟨peer, here, changed⟩ := Option.bind_eq_some_iff.mp changed
  obtain ⟨base, -, next_eq⟩ := Option.bind_eq_some_iff.mp changed
  have shared : peer.refCount + 1 > 1 := by
    have one := (inv.base.present peer here).1
    omega
  rw [if_pos ⟨shared, rfl⟩] at next_eq
  obtain rfl := Option.some.inj next_eq
  intro kept
  have isSet : state.messagecb.isSome := Option.isSome_iff_ne_none.mpr (mt inv.unset some)
  apply some
  rw [inv.registered.messageUserdata isSet]
  exact (kept.messageUserdata isSet).symm

theorem Inv.step (inv : state.Inv) (legal : state.Legal op) (keeps : state.KeepsMessage op)
    (stepped : step state op = some next) : next.Inv := by
  have kept := base_inv inv.base legal stepped
  cases op with
  | loop op =>
      obtain ⟨base, base_eq, rfl⟩ := Option.map_eq_some_iff.mp stepped
      refine inv.of_base kept fun after here => ⟨after, ?_, rfl, rfl⟩
      rw [← loop_peer base_eq, here]
  | turn datagrams =>
      obtain ⟨base, base_eq, rfl⟩ := Option.map_eq_some_iff.mp stepped
      have idle : state.base.running = none := by
        by_contra busy
        have current := inv.base.running busy
        rw [legal.2.2] at current
        cases current
      exact inv.onevent (.turn idle base_eq) kept
  | callbackReturns datagrams =>
      obtain ⟨base, base_eq, rfl⟩ := Option.map_eq_some_iff.mp stepped
      exact inv.onevent (.callbackReturns base_eq) kept
  | destroy =>
      obtain ⟨base, base_eq, rfl⟩ := Option.map_eq_some_iff.mp stepped
      exact inv.of_base kept (destroy_peer base_eq)
  | onmessage messagecb userdata => exact inv.onmessage stepped kept
  | onwrite writecb userdata => exact inv.onwrite stepped kept keeps

theorem Inv.broken (inv : state.Inv) (resets : ¬ state.KeepsMessage op)
    (stepped : RegisteredPeer.step state op = some next) : ¬ next.Registered := by
  cases op with
  | onwrite writecb userdata =>
      cases writecb with
      | none => exact inv.onwrite_none stepped resets
      | some callback => exact absurd trivial resets
  | _ => exact absurd trivial resets

/-- A new peer has one user datum with both callbacks. -/
theorem exists_udpPeerNew {loop : ChannelLoop} (valid : loop.Valid) (messagecb : Callback)
    (writecb : Option Callback) (userdata : Option Userdata) :
    ∃ initial, udpPeerNew loop (some messagecb) writecb userdata = some initial ∧
      initial.Inv := by
  obtain ⟨base, made, inv, -⟩ := PeerLoop.Inv.udpPeerNew valid writecb.isSome
  refine ⟨_, Option.map_eq_some_iff.mpr ⟨base, made, rfl⟩, inv, ?_,
    fun unset => absurd unset (Option.some_ne_none messagecb), rfl, fun _ => rfl, rfl, fun _ => rfl,
    fun call member => absurd member List.not_mem_nil⟩
  intro peer here
  obtain ⟨loop, -, base_eq⟩ := Option.bind_eq_some_iff.mp made
  obtain rfl := Option.some.inj base_eq
  obtain rfl := Option.some.inj here
  exact ⟨rfl, rfl⟩

end Steps

/-! ## Registering callbacks -/

/-- Every peer has a message callback; whatever callbacks are registered with it, the loop goes on,
and each callback keeps and is passed the user datum that was registered with it exactly when a
write callback is removed only while the message callback has no user datum. -/
theorem registered_iff_keepsMessage {before : List ChannelOp} {loop : ChannelLoop}
    (prepared : Admissible ChannelLoop.step ChannelLoop.Legal .empty before)
    (reach : run ChannelLoop.step .empty before = some loop)
    (messagecb writecb : Option Callback) (userdata : Option Userdata) :
    (udpPeerNew loop messagecb writecb userdata).isSome = messagecb.isSome ∧
      ∀ initial, udpPeerNew loop messagecb writecb userdata = some initial →
        ∀ ops, Admissible step Legal initial ops →
          (∃ final, run step initial ops = some final) ∧
            (AllStates step Registered initial ops ↔ AllSteps step KeepsMessage initial ops) := by
  obtain ⟨other, execution, valid⟩ := exists_run_of_admissible ChannelLoop.Valid
    ChannelLoop.Valid.step ChannelLoop.valid_empty prepared
  obtain rfl := Option.some.inj (reach.symm.trans execution)
  cases messagecb with
  | none =>
      refine ⟨rfl, fun initial made => ?_⟩
      cases made
  | some messagecb =>
      obtain ⟨other, there, inv⟩ := exists_udpPeerNew valid messagecb writecb userdata
      refine ⟨by rw [there]; rfl, fun initial made ops allowed => ?_⟩
      obtain rfl := Option.some.inj (there.symm.trans made)
      constructor
      · obtain ⟨final, execution, -⟩ := exists_run_of_admissible
          (fun state : RegisteredPeer Callback Userdata => state.base.Inv) exists_step_of_legal
          inv.base allowed
        exact ⟨final, execution⟩
      · exact allowed.allStates_iff_allSteps Inv Inv.registered Inv.step
          (fun inv _ resets stepped => inv.broken resets stepped) inv

instance decidableKeepsMessage [DecidableEq Userdata] (state : RegisteredPeer Callback Userdata) :
    (op : RegisteredOp Callback Userdata) → Decidable (state.KeepsMessage op)
  | .onwrite none _ => inferInstanceAs (Decidable (_ = none))
  | .onwrite (some _) _ => isTrue trivial
  | .loop _ | .turn _ | .callbackReturns _ | .onmessage _ _ | .destroy => isTrue trivial

instance (state : RegisteredPeer Callback Userdata) (op : RegisteredOp Callback Userdata) :
    Decidable (state.Legal op) :=
  inferInstanceAs (Decidable (PeerLoop.Legal _ _))

/-- A write callback registers another message callback with its user datum. -/
def reregisterOps : List (RegisteredOp Nat Nat) :=
  [.onwrite (some 2) (some 20), .loop (.wait [(0, EPOLLIN ||| EPOLLOUT)]), .turn 1,
    .onmessage (some 3) (some 30), .callbackReturns 1, .callbackReturns 1]

theorem registered_iff_keepsMessage_reregister :
    ∃ initial, udpPeerNew .empty (some 1) none (some 10) = some initial ∧
      AllStates step Registered initial reregisterOps := by
  have prepared : Admissible ChannelLoop.step ChannelLoop.Legal .empty [] := trivial
  obtain ⟨made, safe⟩ := registered_iff_keepsMessage prepared rfl (some 1) none (some 10)
  obtain ⟨initial, initial_eq⟩ := Option.isSome_iff_exists.mp made
  have facts : (udpPeerNew .empty (some 1) none (some 10)).all (fun initial =>
      decide (Admissible step Legal initial reregisterOps ∧
        AllSteps step KeepsMessage initial reregisterOps)) = true := by
    decide
  rw [initial_eq, Option.all_some] at facts
  obtain ⟨allowed, keeps⟩ := of_decide_eq_true facts
  exact ⟨initial, initial_eq, (safe initial initial_eq _ allowed).2.mpr keeps⟩

/-- The write callback is removed before a message arrives. -/
def removeOps : List (RegisteredOp Nat Nat) :=
  [.onwrite none (some 20), .loop (.wait [(0, EPOLLIN)]), .turn 1]

/-- The message callback is called with `NULL`. -/
theorem removeOps_not_registered :
    ∃ initial, udpPeerNew .empty (some 1) (some 2) (some 10) = some initial ∧
      Admissible step Legal initial removeOps ∧
      (∃ final, run step initial removeOps = some final ∧
        final.calls = [⟨⟨some 1, none⟩, ⟨some 1, some 10⟩⟩]) ∧
      ¬ AllStates step Registered initial removeOps := by
  have facts : (udpPeerNew .empty (some 1) (some 2) (some 10)).any (fun initial =>
      decide (Admissible step Legal initial removeOps ∧
        (run step initial removeOps).map RegisteredPeer.calls =
          some [⟨⟨some 1, none⟩, ⟨some 1, some 10⟩⟩])) = true := by
    decide
  obtain ⟨initial, made, facts⟩ := (Option.any_eq_true _ _).mp facts
  obtain ⟨allowed, called⟩ := of_decide_eq_true facts
  obtain ⟨final, reached, calls⟩ := Option.map_eq_some_iff.mp called
  refine ⟨initial, made, allowed, ⟨final, reached, calls⟩, fun always => ?_⟩
  obtain ⟨-, passed⟩ := (always.of_run reached).calls _ (calls ▸ List.mem_singleton_self _)
  cases passed

end RegisteredPeer

end CommonLib
