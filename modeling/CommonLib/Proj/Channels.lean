import Mathlib.Data.List.Nodup
import CommonLib.Library.Execution
import CommonLib.Proj.Lifecycle

/-!
# The channels of the active client

The client keeps a connection to each of its servers.  `OnEpollExt` starts connections, the event
loop of `hepoll.cpp` hears of their completion and takes a context for each, and `OnClose` marks the
channel of a context for reconnection.  The events of channels, of contexts and of the control
socket are told apart by the 64 bits of `epoll_data`.
-/

namespace CommonLib

open Execution

inductive TServerStat
  | ssUnknown | ssDisconnected | ssConnecting | ssConnected | ssAuthed
  deriving DecidableEq

/-- A `sockaddr_in`, with its fields in network order. -/
structure SockAddr where
  sinAddr : UInt32
  sinPort : UInt16

/-- A channel; `addr` is what `inet_addr` and `htons` make of its address and port. -/
structure THServer where
  addr : SockAddr
  sock : Nat
  stat : TServerStat
  date : UInt32

/-- A context of the pool with its socket and the address of its peer. -/
structure Peer where
  session : Session
  socket : Nat
  peer : SockAddr

namespace Peer

abbrev connected (peer : Peer) : Bool := peer.session.context.connected

abbrev killed (peer : Peer) : Bool := peer.session.context.killed

abbrev tag (peer : Peer) : Int := peer.session.context.tag

end Peer

/-- What the event loop works on: the channels, the contexts by their addresses, the chain of unused
contexts from its head, the open descriptors and the `epoll_data` of those which `kdpfd` watches. -/
structure Channels where
  servers : Nat → THServer
  contexts : UInt64 → Peer
  pool : List UInt64
  isOpen : Nat → Bool
  watched : Nat → Option UInt64

/-- The descriptor in an `epoll_data`. -/
def dataFd (data : UInt64) : Int32 := data.toUInt32.toInt32

/-- The `epoll_data` of a channel, which is its number as a pointer. -/
def channelData (i : Nat) : UInt64 := UInt64.ofNat i

/-- The client with its control socket and the addresses of the contexts of its pool. -/
structure ChannelServer where
  client : TeWiFiClient
  few : client.serverCount ≤ 16
  unixFd : Int32
  contexts : List UInt64
  distinct : contexts.Nodup
  large : ∀ c ∈ contexts, 65535 < c

/-- The results of the calls for a new connection. -/
inductive Attempt
  /-- `socket` failed. -/
  | noSocket
  /-- `connect` failed, and not since it is in progress. -/
  | refused
  /-- `epoll_ctl` failed. -/
  | unwatched
  | pending (sock : Nat)

/-- What `getsockopt` tells of a completed connection. -/
inductive Verdict
  | unknown
  | error
  | ok
  deriving DecidableEq

/-- The branches of the event loop. -/
inductive Route
  | unix
  | context (address : UInt64)
  | channel (m : Nat)
  deriving DecidableEq

namespace Channels

/-- `close`, which also takes the descriptor from `kdpfd`. -/
def closeFd (state : Channels) (fd : Nat) : Channels :=
  { state with
    isOpen := Function.update state.isOpen fd false
    watched := Function.update state.watched fd none }

end Channels

namespace ChannelServer

variable (server : ChannelServer)

/-- The number of channels. -/
abbrev count : Nat := server.client.serverCount

/-- The body of the loop of `THSockServer::OnEpollExt`. -/
def connectChannel (n : UInt32) (attempts : Nat → Attempt) (state : Channels) (i : Nat) :
    Option Channels :=
  let channel := state.servers i
  if channel.stat = .ssDisconnected ∧ n - channel.date > 5000 then
    match attempts i with
    | .pending sock =>
        -- `socket` returns a descriptor that is not in use
        if state.isOpen sock then none
        else
          some { state with
            servers := Function.update state.servers i { channel with sock, stat := .ssConnecting }
            isOpen := Function.update state.isOpen sock true
            watched := Function.update state.watched sock (some (channelData i)) }
    | _ => some state
  else some state

/-- `THSockServer::OnEpollExt`. -/
def onEpollExt (n : UInt32) (attempts : Nat → Attempt) (state : Channels) : Option Channels :=
  (List.range server.count).foldlM (connectChannel n attempts) state

/-- `THSockServer::OnVerify`: the connected socket and its peer, if there is one. -/
def onVerify (m : Nat) (verdict : Verdict) (tick : UInt32) (state : Channels) :
    Option (Nat × SockAddr) × Channels :=
  if m ≥ server.count then (none, state)
  else
    let channel := state.servers m
    let fd := channel.sock
    let state := { state with watched := Function.update state.watched fd none }
    match verdict with
    | .ok =>
        (some (fd, channel.addr),
          { state with
            servers := Function.update state.servers m
              { channel with stat := .ssConnected, date := tick } })
    | _ =>
        (none,
          { state with
            servers := Function.update state.servers m
              { channel with stat := .ssDisconnected, date := tick } }.closeFd fd)

/-- `THContext::KillSocket` with `TeWiFiClient::OnClose`. -/
def killSocket (c : UInt64) (tick : UInt32) (state : Channels) : Channels :=
  let context := state.contexts c
  if context.killed then state
  else
    let tag := context.tag
    { state.closeFd context.socket with
      servers :=
        if tag > -1 ∧ tag < server.count then
          Function.update state.servers tag.toNat
            { state.servers tag.toNat with stat := .ssDisconnected, date := tick }
        else state.servers
      contexts := Function.update state.contexts c
        { context with
          session := { context.session with
            context := server.client.killSocket context.session.context } }
      pool := c :: state.pool }

/-- `THContext::SetSocket`, the tag and `TeWiFiClient::OnNew`. -/
def setSocket (c : UInt64) (socket : Nat) (peer : SockAddr) (tag : Int) (state : Channels) :
    Channels :=
  { state with
    contexts := Function.update state.contexts c
      { session := server.client.connect (state.contexts c).session tag, socket, peer } }

/-- The event of a channel in `THEpollServer::SimpleServerExecute`; `added` tells whether the
context could be registered. -/
def complete (m : Nat) (verdict : Verdict) (added : Bool) (tick : UInt32) (state : Channels) :
    Channels :=
  match server.onVerify m verdict tick state with
  | (none, state) => state
  | (some (newFd, addr), state) =>
      match state.pool with
      -- context full, close
      | [] => state.closeFd newFd
      | c :: pool =>
          let state := server.setSocket c newFd addr m { state with pool }
          if added then
            { state with
              watched := Function.update state.watched newFd (some c) }
          else server.killSocket c tick state

/-- How the loop tells events apart; `m` is unsigned. -/
def route (data : UInt64) : Route :=
  if server.unixFd = dataFd data then .unix
  else if 65535 < data then .context data
  else .channel data.toNat

/-- What happens between two states of the table. -/
inductive Event
  | pass (n : UInt32) (attempts : Nat → Attempt)
  | ready (fd : Nat) (verdict : Verdict) (added : Bool) (tick : UInt32)
  | close (c : UInt64) (tick : UInt32)

/-- One event.  What is read from the control socket or from a context does not change the table;
only contexts that were taken from the pool are closed. -/
def step (state : Channels) : Event → Option Channels
  | .pass n attempts => server.onEpollExt n attempts state
  | .ready fd verdict added tick =>
      (state.watched fd).map fun data =>
        match server.route data with
        | .unix => state
        | .context _ => state
        | .channel m => server.complete m verdict added tick state
  | .close c tick =>
      if (state.contexts c).connected || (state.contexts c).killed then
        some (server.killSocket c tick state)
      else none

/-- The state in which the loop starts.  The control socket is registered by its descriptor, and the
other half of its `epoll_data` is not set. -/
def start (servers : Nat → THServer) (memory : UInt64 → Fin 4 → Nat → Byte)
    (peers : UInt64 → SockAddr) (opened : Nat → Bool) (upper : UInt32) : Channels where
  servers := fun i => { servers i with stat := .ssDisconnected }
  contexts := fun c =>
    { session := TeWiFiClient.newSession (memory c 0) (memory c 1) (memory c 2) (memory c 3)
      socket := 0
      peer := peers c }
  pool := server.contexts
  isOpen := fun fd => opened fd || decide ((fd : Int) = server.unixFd.toInt)
  watched := fun fd =>
    if 0 < server.unixFd ∧ (fd : Int) = server.unixFd.toInt then
      some ((upper.toUInt64 <<< 32) ||| server.unixFd.toUInt32.toUInt64)
    else none

/-! ## What the table should say -/

/-- A descriptor of the kernel is the control socket's. -/
def IsUnix (fd : Nat) : Prop := (fd : Int) = server.unixFd.toInt

/-- A descriptor is an open socket of the channel that waits for its completion. -/
def Pending (state : Channels) (i fd : Nat) : Prop :=
  state.isOpen fd = true ∧ ¬ server.IsUnix fd ∧ state.watched fd = some (channelData i)

/-- A connected context has the tag of the channel. -/
def Holds (state : Channels) (i : Nat) (c : UInt64) : Prop :=
  (state.contexts c).connected = true ∧ (state.contexts c).tag = i

/-- The table, the contexts and `kdpfd` agree on the channels, and the event of a pending socket
reaches its channel. -/
structure Booked (state : Channels) : Prop where
  connected_iff : ∀ i < server.count,
    (state.servers i).stat = .ssConnected ↔ ∃! c, Holds state i c
  connecting_iff : ∀ i < server.count,
    (state.servers i).stat = .ssConnecting ↔ ∃! fd, server.Pending state i fd
  delivered : ∀ i < server.count, ∀ fd data, server.Pending state i fd →
    state.watched fd = some data → server.route data = .channel i

/-- A step does not fall into the two gaps: no channel whose number is that of the control socket is
registered, and where a connection is verified a context is free. -/
def Provided (state : Channels) : Event → Prop
  | .pass n attempts =>
      ∀ i < server.count,
        (state.servers i).stat = .ssDisconnected ∧ n - (state.servers i).date > 5000 →
        (∃ sock, attempts i = .pending sock) → server.unixFd ≠ dataFd (channelData i)
  | .ready fd verdict _ _ =>
      ∀ data m, state.watched fd = some data → server.route data = .channel m →
        verdict = .ok → state.pool ≠ []
  | .close _ _ => True

/-! ## The data of events -/

variable {server}

theorem channelData_toNat {i : Nat} (i_lt : i < server.count) : (channelData i).toNat = i := by
  have few : server.count ≤ 16 := server.few
  exact UInt64.toNat_ofNat_of_lt' (Nat.lt_of_lt_of_le i_lt (Nat.le_trans few (by decide)))

theorem channelData_inj {i j : Nat} (i_lt : i < server.count) (j_lt : j < server.count)
    (same : channelData i = channelData j) : i = j := by
  rw [← channelData_toNat i_lt, ← channelData_toNat j_lt, same]

theorem channelData_le {i : Nat} (i_lt : i < server.count) : channelData i ≤ 65535 := by
  have few : server.count ≤ 16 := server.few
  rw [UInt64.le_iff_toNat_le, channelData_toNat i_lt]
  exact (show i ≤ 65535 by omega)

theorem ne_channelData {i : Nat} (i_lt : i < server.count) {c : UInt64} (large : 65535 < c) :
    c ≠ channelData i := fun same =>
  absurd (same ▸ channelData_le i_lt) (UInt64.not_le.mpr large)

theorem route_channelData {i : Nat} (i_lt : i < server.count)
    (free : server.unixFd ≠ dataFd (channelData i)) :
    server.route (channelData i) = .channel i := by
  rw [route, if_neg free, if_neg (UInt64.not_lt.mpr (channelData_le i_lt)),
    channelData_toNat i_lt]

/-! ## The invariant -/

/-- What the steps keep. -/
structure Consistent (server : ChannelServer) (state : Channels) : Prop where
  pool_nodup : state.pool.Nodup
  large : ∀ c, c ∈ state.pool ∨ (state.contexts c).connected = true → 65535 < c
  idle : ∀ c ∈ state.pool, (state.contexts c).connected = false
  alive : ∀ c, (state.contexts c).connected = true → (state.contexts c).killed = false
  unix_open : ∀ fd, server.IsUnix fd → state.isOpen fd = true
  control : ∀ fd data, state.watched fd = some data → server.IsUnix fd →
    server.unixFd = dataFd data
  watched_open : ∀ fd data, state.watched fd = some data → state.isOpen fd = true
  owned : ∀ fd data, state.watched fd = some data → ¬ server.IsUnix fd →
    (∃ i < server.count, data = channelData i ∧ (state.servers i).stat = .ssConnecting ∧
      (state.servers i).sock = fd) ∨ 65535 < data
  pending : ∀ i < server.count, (state.servers i).stat = .ssConnecting →
    server.Pending state i (state.servers i).sock ∧ server.unixFd ≠ dataFd (channelData i)
  held : ∀ i < server.count, (state.servers i).stat = .ssConnected → ∃ c, Holds state i c
  tagged : ∀ c, (state.contexts c).connected = true →
    ∃ i < server.count, (state.contexts c).tag = i ∧ (state.servers i).stat = .ssConnected
  socket : ∀ c, (state.contexts c).connected = true →
    ¬ server.IsUnix (state.contexts c).socket ∧
      state.watched (state.contexts c).socket = some c
  single : ∀ c d, (state.contexts c).connected = true → (state.contexts d).connected = true →
    (state.contexts c).tag = (state.contexts d).tag → c = d

/-- The invariant says more than the table should. -/
theorem Consistent.booked {state : Channels} (consistent : Consistent server state) :
    server.Booked state where
  connected_iff := fun i i_lt => by
    constructor
    · intro stat_eq
      obtain ⟨c, holds⟩ := consistent.held i i_lt stat_eq
      exact ⟨c, holds, fun d holds' =>
        consistent.single d c holds'.1 holds.1 (holds'.2.trans holds.2.symm)⟩
    · rintro ⟨c, ⟨connected, tag_eq⟩, -⟩
      obtain ⟨j, -, tag_eq', stat_eq⟩ := consistent.tagged c connected
      obtain rfl : i = j := Int.ofNat.inj (tag_eq.symm.trans tag_eq')
      exact stat_eq
  connecting_iff := fun i i_lt => by
    have owner {fd : Nat} (pending : server.Pending state i fd) :
        (state.servers i).stat = .ssConnecting ∧ (state.servers i).sock = fd := by
      obtain ⟨-, notUnix, watched⟩ := pending
      rcases consistent.owned fd _ watched notUnix with ⟨j, j_lt, data_eq, here⟩ | large
      · obtain rfl := channelData_inj i_lt j_lt data_eq
        exact here
      · exact absurd rfl (ne_channelData i_lt large)
    constructor
    · intro stat_eq
      exact ⟨_, (consistent.pending i i_lt stat_eq).1, fun fd pending => (owner pending).2.symm⟩
    · rintro ⟨fd, pending, -⟩
      exact (owner pending).1
  delivered := fun i i_lt fd data pending watched => by
    obtain ⟨-, notUnix, watched'⟩ := pending
    obtain rfl := Option.some.inj (watched.symm.trans watched')
    rcases consistent.owned fd _ watched notUnix with ⟨j, j_lt, data_eq, stat_eq, -⟩ | large
    · obtain rfl := channelData_inj i_lt j_lt data_eq
      exact route_channelData i_lt (consistent.pending i i_lt stat_eq).2
    · exact absurd rfl (ne_channelData i_lt large)

/-- The control socket is found whatever the other half of its `epoll_data` is. -/
theorem dataFd_or (upper : UInt32) (fd : Int32) :
    dataFd ((upper.toUInt64 <<< 32) ||| fd.toUInt32.toUInt64) = fd := by
  apply Int32.toBitVec_inj.mp
  ext bit bit_lt
  simp [dataFd]

/-! ## Effects -/

section Effects

variable {state : Channels}

theorem killSocket_eq {c : UInt64} {i : Nat} (alive : (state.contexts c).killed = false)
    (tag_eq : (state.contexts c).tag = i) (i_lt : i < server.count) (tick : UInt32) :
    server.killSocket c tick state =
      { state.closeFd (state.contexts c).socket with
        servers := Function.update state.servers i
          { state.servers i with stat := .ssDisconnected, date := tick }
        contexts := Function.update state.contexts c
          { state.contexts c with
            session := { (state.contexts c).session with
              context := server.client.killSocket (state.contexts c).session.context } }
        pool := c :: state.pool } := by
  have inside : (i : Int) > -1 ∧ (i : Int) < server.count := by omega
  have notKilled : ¬ (state.contexts c).session.context.killed = true := by simpa using alive
  rw [killSocket, if_neg notKilled]
  simp only [show (state.contexts c).session.context.tag = i from tag_eq, if_pos inside,
    Int.toNat_natCast]

theorem complete_failed {i : Nat} (i_lt : i < server.count) {verdict : Verdict}
    (failed : verdict ≠ .ok) (added : Bool) (tick : UInt32) :
    server.complete i verdict added tick state =
      { state with
        servers := Function.update state.servers i
          { state.servers i with stat := .ssDisconnected, date := tick } }.closeFd
        (state.servers i).sock := by
  rw [complete, onVerify, if_neg (Nat.not_le.mpr i_lt)]
  cases verdict with
  | ok => exact absurd rfl failed
  | unknown => simp only [Channels.closeFd, Function.update_idem]
  | error => simp only [Channels.closeFd, Function.update_idem]

theorem complete_ok {i : Nat} {c : UInt64} {pool : List UInt64} (i_lt : i < server.count)
    (pool_eq : state.pool = c :: pool) (tick : UInt32) :
    server.complete i .ok true tick state =
      { state with
        servers := Function.update state.servers i
          { state.servers i with stat := .ssConnected, date := tick }
        contexts := Function.update state.contexts c
          { session := server.client.connect (state.contexts c).session i
            socket := (state.servers i).sock
            peer := (state.servers i).addr }
        pool := pool
        watched := Function.update state.watched (state.servers i).sock
          (some c) } := by
  rw [complete, onVerify, if_neg (Nat.not_le.mpr i_lt)]
  simp only [pool_eq, setSocket, Function.update_idem, if_true]

theorem connect_context (server : ChannelServer) (session : Session) (tag : Int) :
    (server.client.connect session tag).context.connected = true ∧
      (server.client.connect session tag).context.killed = false ∧
      (server.client.connect session tag).context.tag = tag := by
  rw [TeWiFiClient.connect, TeWiFiClient.buildResponse]
  dsimp only
  split <;> exact ⟨rfl, rfl, rfl⟩

/-- What `OnEpollExt` does for one channel leaves the others and the open descriptors alone. -/
theorem connectChannel_keeps {n : UInt32} {attempts : Nat → Attempt} {next : Channels} {i : Nat}
    (connected : connectChannel n attempts state i = some next) :
    (∀ fd, state.isOpen fd = true → next.isOpen fd = true ∧ next.watched fd = state.watched fd) ∧
      ∀ j ≠ i, next.servers j = state.servers j := by
  have same : (∀ fd, state.isOpen fd = true →
      state.isOpen fd = true ∧ state.watched fd = state.watched fd) ∧
        ∀ j ≠ i, state.servers j = state.servers j :=
    ⟨fun _ isOpen => ⟨isOpen, rfl⟩, fun _ _ => rfl⟩
  rw [connectChannel] at connected
  split at connected
  · split at connected
    · split at connected
      · cases connected
      · rename_i sock _ closed
        obtain rfl := Option.some.inj connected
        constructor
        · intro fd isOpen
          have ne : fd ≠ sock := by
            rintro rfl
            exact closed isOpen
          exact ⟨(Function.update_of_ne ne ..).trans isOpen, Function.update_of_ne ne ..⟩
        · exact fun j ne => Function.update_of_ne ne ..
    · obtain rfl := Option.some.inj connected
      exact same
  · obtain rfl := Option.some.inj connected
    exact same

/-- The same for several channels. -/
theorem connectChannels_keeps {n : UInt32} {attempts : Nat → Attempt} {next : Channels}
    {channels : List Nat}
    (connected : channels.foldlM (connectChannel n attempts) state = some next) :
    (∀ fd, state.isOpen fd = true → next.isOpen fd = true ∧ next.watched fd = state.watched fd) ∧
      ∀ j ∉ channels, next.servers j = state.servers j := by
  induction channels generalizing state with
  | nil =>
      obtain rfl := Option.some.inj connected
      exact ⟨fun _ isOpen => ⟨isOpen, rfl⟩, fun _ _ => rfl⟩
  | cons i channels induction =>
      obtain ⟨middle, first, rest⟩ := Option.bind_eq_some_iff.mp connected
      obtain ⟨opens, others⟩ := connectChannel_keeps first
      obtain ⟨laterOpens, laterOthers⟩ := induction rest
      constructor
      · intro fd isOpen
        obtain ⟨isOpen, watched⟩ := opens fd isOpen
        obtain ⟨isOpen, watched'⟩ := laterOpens fd isOpen
        exact ⟨isOpen, watched'.trans watched⟩
      · intro j notMem
        obtain ⟨ne, notMem⟩ := List.ne_and_not_mem_of_not_mem_cons notMem
        exact (laterOthers j notMem).trans (others j ne)

/-- A context that cannot be registered is closed as if it had been. -/
theorem complete_unwatched {i : Nat} {c : UInt64} {pool : List UInt64} (i_lt : i < server.count)
    (pool_eq : state.pool = c :: pool) (tick : UInt32) :
    server.complete i .ok false tick state =
      server.killSocket c tick (server.complete i .ok true tick state) := by
  obtain ⟨-, alive, -⟩ := connect_context server (state.contexts c).session i
  rw [complete_ok i_lt pool_eq, complete, onVerify, if_neg (Nat.not_le.mpr i_lt)]
  simp only [pool_eq, setSocket, killSocket, Channels.closeFd, Function.update_self,
    Function.update_idem, Peer.killed, Bool.false_eq_true, if_false, alive]

end Effects

/-! ## Steps -/

namespace Consistent

variable {state : Channels}

/-- A pending socket is watched as no context and no other channel is. -/
theorem sock_ne_socket (consistent : Consistent server state) {i : Nat} (i_lt : i < server.count)
    (stat_eq : (state.servers i).stat = .ssConnecting) {c : UInt64}
    (connected : (state.contexts c).connected = true) :
    (state.contexts c).socket ≠ (state.servers i).sock := by
  intro same
  have first := (consistent.pending i i_lt stat_eq).1.2.2
  rw [← same, (consistent.socket c connected).2] at first
  exact ne_channelData i_lt (consistent.large c (.inr connected)) (Option.some.inj first)

theorem sock_ne_sock (consistent : Consistent server state) {i j : Nat} (i_lt : i < server.count)
    (j_lt : j < server.count) (first : (state.servers i).stat = .ssConnecting)
    (second : (state.servers j).stat = .ssConnecting) (ne : i ≠ j) :
    (state.servers i).sock ≠ (state.servers j).sock := by
  intro same
  have here := (consistent.pending i i_lt first).1.2.2
  rw [same, (consistent.pending j j_lt second).1.2.2] at here
  exact ne (channelData_inj i_lt j_lt (Option.some.inj here).symm)

theorem socket_ne_socket (consistent : Consistent server state) {c d : UInt64}
    (first : (state.contexts c).connected = true) (second : (state.contexts d).connected = true)
    (ne : c ≠ d) : (state.contexts c).socket ≠ (state.contexts d).socket := by
  intro same
  have here := (consistent.socket c first).2
  rw [same, (consistent.socket d second).2] at here
  exact ne (Option.some.inj here).symm

/-- The entry of the control socket is not the one that changes. -/
theorem control_update (consistent : Consistent server state) {sock : Nat}
    (notUnix : ¬ server.IsUnix sock) (entry : Option UInt64) (fd : Nat) (data : UInt64)
    (watched : Function.update state.watched sock entry fd = some data)
    (isUnix : server.IsUnix fd) : server.unixFd = dataFd data := by
  have ne : fd ≠ sock := by
    rintro rfl
    exact notUnix isUnix
  rw [Function.update_of_ne ne] at watched
  exact consistent.control fd data watched isUnix

theorem unix_open_close (consistent : Consistent server state) {sock : Nat}
    (notUnix : ¬ server.IsUnix sock) (fd : Nat) (isUnix : server.IsUnix fd) :
    (state.closeFd sock).isOpen fd = true := by
  have ne : fd ≠ sock := by
    rintro rfl
    exact notUnix isUnix
  exact (Function.update_of_ne ne ..).trans (consistent.unix_open fd isUnix)

theorem watched_open_close (consistent : Consistent server state) (sock fd : Nat) (data : UInt64)
    (watched : (state.closeFd sock).watched fd = some data) :
    (state.closeFd sock).isOpen fd = true := by
  simp only [Channels.closeFd] at watched ⊢
  rcases eq_or_ne fd sock with rfl | ne
  · rw [Function.update_self] at watched
    cases watched
  · rw [Function.update_of_ne ne] at watched ⊢
    exact consistent.watched_open fd data watched

/-- One channel and one registration change; the registration is right, and whoever else waits does
so with another channel. -/
theorem owned_update (consistent : Consistent server state) {i sock : Nat} {channel : THServer}
    {entry : Option UInt64}
    (registered : ∀ data, entry = some data →
      (∃ j < server.count, data = channelData j ∧
        (Function.update state.servers i channel j).stat = .ssConnecting ∧
        (Function.update state.servers i channel j).sock = sock) ∨ 65535 < data)
    (others : ∀ j, (state.servers j).stat = .ssConnecting → (state.servers j).sock ≠ sock → j ≠ i)
    (fd : Nat) (data : UInt64) (watched : Function.update state.watched sock entry fd = some data)
    (notUnix : ¬ server.IsUnix fd) :
    (∃ j < server.count, data = channelData j ∧
      (Function.update state.servers i channel j).stat = .ssConnecting ∧
      (Function.update state.servers i channel j).sock = fd) ∨ 65535 < data := by
  rcases eq_or_ne fd sock with rfl | ne
  · rw [Function.update_self] at watched
    exact registered data watched
  · rw [Function.update_of_ne ne] at watched
    apply (consistent.owned fd data watched notUnix).imp_left
    rintro ⟨j, j_lt, data_eq, stat_eq, rfl⟩
    have away := others j stat_eq ne
    rw [← Function.update_of_ne away channel state.servers] at stat_eq
    exact ⟨j, j_lt, data_eq, stat_eq, by rw [Function.update_of_ne away]⟩

/-- One channel and one registration change; the channel no longer waits, and whoever else waits
does so on another socket. -/
theorem pending_update (consistent : Consistent server state) {i sock : Nat} {channel : THServer}
    {entry : Option UInt64} {isOpen : Nat → Bool} (settled : channel.stat ≠ .ssConnecting)
    (elsewhere : ∀ fd, fd ≠ sock → isOpen fd = state.isOpen fd)
    (others : ∀ j < server.count, (state.servers j).stat = .ssConnecting → j ≠ i →
      (state.servers j).sock ≠ sock) (j : Nat) (j_lt : j < server.count)
    (connecting : (Function.update state.servers i channel j).stat = .ssConnecting) :
    (isOpen (Function.update state.servers i channel j).sock = true ∧
      ¬ server.IsUnix (Function.update state.servers i channel j).sock ∧
      Function.update state.watched sock entry (Function.update state.servers i channel j).sock =
        some (channelData j)) ∧ server.unixFd ≠ dataFd (channelData j) := by
  have away : j ≠ i := by
    rintro rfl
    rw [Function.update_self] at connecting
    exact settled connecting
  rw [Function.update_of_ne away] at connecting ⊢
  have sock_ne := others j j_lt connecting away
  rw [elsewhere _ sock_ne, Function.update_of_ne sock_ne]
  exact consistent.pending j j_lt connecting

/-- One channel changes that holds no context afterwards. -/
theorem held_update (consistent : Consistent server state) {i : Nat} {channel : THServer}
    (notHeld : channel.stat ≠ .ssConnected) (j : Nat) (j_lt : j < server.count)
    (connected : (Function.update state.servers i channel j).stat = .ssConnected) :
    ∃ c, Holds state j c := by
  have away : j ≠ i := by
    rintro rfl
    rw [Function.update_self] at connected
    exact notHeld connected
  rw [Function.update_of_ne away] at connected
  exact consistent.held j j_lt connected

/-- A new socket is registered for a disconnected channel. -/
theorem pend (consistent : Consistent server state) {i sock : Nat}
    (stat_eq : (state.servers i).stat = .ssDisconnected) (fresh : state.isOpen sock = false)
    (free : server.unixFd ≠ dataFd (channelData i)) (i_lt : i < server.count) :
    Consistent server
      { state with
        servers := Function.update state.servers i
          { state.servers i with sock, stat := .ssConnecting }
        isOpen := Function.update state.isOpen sock true
        watched := Function.update state.watched sock (some (channelData i)) } := by
  have notUnix : ¬ server.IsUnix sock := fun isUnix => by
    rw [consistent.unix_open sock isUnix] at fresh
    cases fresh
  have watched_ne {fd : Nat} {data : UInt64} (watched : state.watched fd = some data) :
      fd ≠ sock := by
    rintro rfl
    rw [consistent.watched_open fd data watched] at fresh
    cases fresh
  have other {j : Nat} {stat : TServerStat} (here : (state.servers j).stat = stat)
      (ne : stat ≠ .ssDisconnected) : j ≠ i := by
    rintro rfl
    exact ne (here.symm.trans stat_eq)
  exact
    { pool_nodup := consistent.pool_nodup
      large := consistent.large
      idle := consistent.idle
      alive := consistent.alive
      unix_open := fun fd isUnix => by
        dsimp only
        rw [Function.update_apply]
        split
        · rfl
        · exact consistent.unix_open fd isUnix
      control := consistent.control_update notUnix _
      watched_open := fun fd data watched => by
        dsimp only at watched ⊢
        rcases eq_or_ne fd sock with rfl | ne
        · exact Function.update_self ..
        · rw [Function.update_of_ne ne] at watched ⊢
          exact consistent.watched_open fd data watched
      owned := by
        apply consistent.owned_update
        · intro data registered
          exact .inl ⟨i, i_lt, (Option.some.inj registered).symm, by rw [Function.update_self],
            by rw [Function.update_self]⟩
        · exact fun j here _ => other here (by decide)
      pending := fun j j_lt connecting => by
        dsimp only at connecting ⊢
        rcases eq_or_ne j i with rfl | ne
        · rw [Function.update_self]
          exact ⟨⟨Function.update_self .., notUnix, Function.update_self ..⟩, free⟩
        · rw [Function.update_of_ne ne] at connecting ⊢
          obtain ⟨⟨isOpen, away, watched⟩, apart⟩ := consistent.pending j j_lt connecting
          have sock_ne := watched_ne watched
          refine ⟨⟨?_, away, ?_⟩, apart⟩
          · exact (Function.update_of_ne sock_ne ..).trans isOpen
          · exact (Function.update_of_ne sock_ne ..).trans watched
      held := consistent.held_update (by simp)
      tagged := fun c connected => by
        obtain ⟨j, j_lt, tag_eq, here⟩ := consistent.tagged c connected
        have away := other here (by decide)
        exact ⟨j, j_lt, tag_eq, by simpa only [Function.update_of_ne away]⟩
      socket := fun c connected => by
        obtain ⟨away, watched⟩ := consistent.socket c connected
        exact ⟨away, (Function.update_of_ne (watched_ne watched) ..).trans watched⟩
      single := consistent.single }

/-- The connection of a channel has failed. -/
theorem fail (consistent : Consistent server state) {i : Nat}
    (stat_eq : (state.servers i).stat = .ssConnecting) (i_lt : i < server.count) (tick : UInt32) :
    Consistent server
      ({ state with
        servers := Function.update state.servers i
          { state.servers i with stat := .ssDisconnected, date := tick } }.closeFd
        (state.servers i).sock) := by
  obtain ⟨⟨-, notUnix, -⟩, -⟩ := consistent.pending i i_lt stat_eq
  have other {j : Nat} {stat : TServerStat} (here : (state.servers j).stat = stat)
      (ne : stat ≠ .ssConnecting) : j ≠ i := by
    rintro rfl
    exact ne (here.symm.trans stat_eq)
  exact
    { pool_nodup := consistent.pool_nodup
      large := consistent.large
      idle := consistent.idle
      alive := consistent.alive
      unix_open := consistent.unix_open_close notUnix
      control := consistent.control_update notUnix _
      watched_open := consistent.watched_open_close _
      owned := by
        apply consistent.owned_update
        · exact fun data registered => absurd registered.symm (Option.some_ne_none data)
        · rintro j - ne rfl
          exact ne rfl
      pending := by
        apply consistent.pending_update (by simp)
        · exact fun fd ne => Function.update_of_ne ne ..
        · exact fun j j_lt waits ne => consistent.sock_ne_sock j_lt i_lt waits stat_eq ne
      held := consistent.held_update (by simp)
      tagged := fun c connected => by
        obtain ⟨j, j_lt, tag_eq, here⟩ := consistent.tagged c connected
        have away := other here (by decide)
        exact ⟨j, j_lt, tag_eq, by simpa only [Channels.closeFd, Function.update_of_ne away]⟩
      socket := fun c connected => by
        obtain ⟨away, watched⟩ := consistent.socket c connected
        have ne := consistent.sock_ne_socket i_lt stat_eq connected
        exact ⟨away, (Function.update_of_ne ne ..).trans watched⟩
      single := consistent.single }

/-- The context of a channel goes back to the pool. -/
theorem drop (consistent : Consistent server state) {c : UInt64} {i : Nat}
    (holds : Holds state i c) (i_lt : i < server.count) {peer : Peer}
    (closed : peer.connected = false) (tick : UInt32) :
    Consistent server
      { state.closeFd (state.contexts c).socket with
        servers := Function.update state.servers i
          { state.servers i with stat := .ssDisconnected, date := tick }
        contexts := Function.update state.contexts c peer
        pool := c :: state.pool } := by
  obtain ⟨connected, tag_eq⟩ := holds
  have stat_eq : (state.servers i).stat = .ssConnected := by
    obtain ⟨j, -, tag_eq', stat_eq⟩ := consistent.tagged c connected
    obtain rfl : i = j := Int.ofNat.inj (tag_eq.symm.trans tag_eq')
    exact stat_eq
  obtain ⟨notUnix, -⟩ := consistent.socket c connected
  have other {j : Nat} {stat : TServerStat} (here : (state.servers j).stat = stat)
      (ne : stat ≠ .ssConnected) : j ≠ i := by
    rintro rfl
    exact ne (here.symm.trans stat_eq)
  have still {d : UInt64} (connected : (Function.update state.contexts c peer d).connected = true) :
      d ≠ c := by
    rintro rfl
    rw [Function.update_self, closed] at connected
    cases connected
  have used : c ∉ state.pool := fun inside => by
    rw [consistent.idle c inside] at connected
    cases connected
  exact
    { pool_nodup := List.nodup_cons.mpr ⟨used, consistent.pool_nodup⟩
      large := fun d inside => by
        rcases inside with among | connected'
        · rcases List.mem_cons.mp among with rfl | among
          · exact consistent.large d (.inr connected)
          · exact consistent.large d (.inl among)
        · dsimp only at connected'
          rw [Function.update_of_ne (still connected')] at connected'
          exact consistent.large d (.inr connected')
      idle := fun d inside => by
        dsimp only
        rcases eq_or_ne d c with rfl | ne
        · rw [Function.update_self, closed]
        · rw [Function.update_of_ne ne]
          exact consistent.idle d ((List.mem_cons.mp inside).resolve_left ne)
      alive := fun d connected => by
        dsimp only at connected ⊢
        have ne := still connected
        rw [Function.update_of_ne ne] at connected ⊢
        exact consistent.alive d connected
      unix_open := consistent.unix_open_close notUnix
      control := consistent.control_update notUnix _
      watched_open := consistent.watched_open_close _
      owned := by
        apply consistent.owned_update
        · exact fun data registered => absurd registered.symm (Option.some_ne_none data)
        · exact fun j here _ => other here (by decide)
      pending := by
        apply consistent.pending_update (by simp)
        · exact fun fd ne => Function.update_of_ne ne ..
        · exact fun j j_lt waits _ => (consistent.sock_ne_socket j_lt waits connected).symm
      held := fun j j_lt here => by
        dsimp only at here
        rcases eq_or_ne j i with rfl | ne
        · rw [Function.update_self] at here
          cases here
        · rw [Function.update_of_ne ne] at here
          obtain ⟨d, connected', tag_eq'⟩ := consistent.held j j_lt here
          have away : d ≠ c := by
            rintro rfl
            exact ne (Int.ofNat.inj (tag_eq'.symm.trans tag_eq))
          exact ⟨d, by simpa only [Holds, Function.update_of_ne away] using ⟨connected', tag_eq'⟩⟩
      tagged := fun d connected' => by
        dsimp only at connected' ⊢
        have ne := still connected'
        rw [Function.update_of_ne ne] at connected' ⊢
        obtain ⟨j, j_lt, tag_eq', here⟩ := consistent.tagged d connected'
        have away : j ≠ i := by
          rintro rfl
          exact ne (consistent.single d c connected' connected (tag_eq'.trans tag_eq.symm))
        exact ⟨j, j_lt, tag_eq', by rwa [Function.update_of_ne away]⟩
      socket := fun d connected' => by
        simp only [Channels.closeFd] at connected' ⊢
        have ne := still connected'
        rw [Function.update_of_ne ne] at connected' ⊢
        rw [Function.update_of_ne (consistent.socket_ne_socket connected' connected ne)]
        exact consistent.socket d connected'
      single := fun d e first second same => by
        dsimp only at first second same
        have d_ne := still first
        have e_ne := still second
        rw [Function.update_of_ne d_ne] at first same
        rw [Function.update_of_ne e_ne] at second same
        exact consistent.single d e first second same }

/-- A context is taken for a channel whose connection is verified. -/
theorem take (consistent : Consistent server state) {i : Nat}
    (stat_eq : (state.servers i).stat = .ssConnecting) (i_lt : i < server.count) {c : UInt64}
    {pool : List UInt64} (pool_eq : state.pool = c :: pool) {peer : Peer}
    (connected : peer.connected = true) (alive : peer.killed = false) (tag_eq : peer.tag = i)
    (socket_eq : peer.socket = (state.servers i).sock) (tick : UInt32) :
    Consistent server
      { state with
        servers := Function.update state.servers i
          { state.servers i with stat := .ssConnected, date := tick }
        contexts := Function.update state.contexts c peer
        pool := pool
        watched := Function.update state.watched (state.servers i).sock
          (some c) } := by
  obtain ⟨⟨isOpen, notUnix, -⟩, -⟩ := consistent.pending i i_lt stat_eq
  have idle : (state.contexts c).connected = false :=
    consistent.idle c (pool_eq ▸ List.mem_cons_self)
  obtain ⟨notInside, nodup⟩ := List.nodup_cons.mp (pool_eq ▸ consistent.pool_nodup)
  have other {j : Nat} {stat : TServerStat} (here : (state.servers j).stat = stat)
      (ne : stat ≠ .ssConnecting) : j ≠ i := by
    rintro rfl
    exact ne (here.symm.trans stat_eq)
  have tag_ne {d : UInt64} (connected : (state.contexts d).connected = true) :
      (state.contexts d).tag ≠ i := by
    intro same
    obtain ⟨j, -, tag_eq', here⟩ := consistent.tagged d connected
    exact other here (by decide) (Int.ofNat.inj (tag_eq'.symm.trans same))
  exact
    { pool_nodup := nodup
      large := fun d inside => by
        rcases eq_or_ne d c with rfl | ne
        · exact consistent.large d (.inl (pool_eq ▸ List.mem_cons_self))
        · rcases inside with among | connected'
          · exact consistent.large d (.inl (pool_eq ▸ List.mem_cons_of_mem _ among))
          · dsimp only at connected'
            rw [Function.update_of_ne ne] at connected'
            exact consistent.large d (.inr connected')
      idle := fun d inside => by
        have ne : d ≠ c := by
          rintro rfl
          exact notInside inside
        dsimp only
        rw [Function.update_of_ne ne]
        exact consistent.idle d (pool_eq ▸ List.mem_cons_of_mem _ inside)
      alive := fun d connected' => by
        dsimp only at connected' ⊢
        rcases eq_or_ne d c with rfl | ne
        · rw [Function.update_self]
          exact alive
        · rw [Function.update_of_ne ne] at connected' ⊢
          exact consistent.alive d connected'
      unix_open := consistent.unix_open
      control := consistent.control_update notUnix _
      watched_open := fun fd data watched => by
        dsimp only at watched ⊢
        rcases eq_or_ne fd (state.servers i).sock with rfl | ne
        · exact isOpen
        · rw [Function.update_of_ne ne] at watched
          exact consistent.watched_open fd data watched
      owned := by
        apply consistent.owned_update
        · intro data registered
          obtain rfl := Option.some.inj registered
          exact .inr (consistent.large c (.inl (pool_eq ▸ List.mem_cons_self)))
        · rintro j - ne rfl
          exact ne rfl
      pending := by
        apply consistent.pending_update (by simp)
        · exact fun _ _ => rfl
        · exact fun j j_lt waits ne => consistent.sock_ne_sock j_lt i_lt waits stat_eq ne
      held := fun j j_lt here => by
        dsimp only at here
        rcases eq_or_ne j i with rfl | ne
        · exact ⟨c, by simpa only [Holds, Function.update_self] using ⟨connected, tag_eq⟩⟩
        · rw [Function.update_of_ne ne] at here
          obtain ⟨d, connected', tag_eq'⟩ := consistent.held j j_lt here
          have away : d ≠ c := by
            rintro rfl
            rw [idle] at connected'
            cases connected'
          exact ⟨d, by simpa only [Holds, Function.update_of_ne away] using ⟨connected', tag_eq'⟩⟩
      tagged := fun d connected' => by
        dsimp only at connected' ⊢
        rcases eq_or_ne d c with rfl | ne
        · rw [Function.update_self]
          exact ⟨i, i_lt, tag_eq, by rw [Function.update_self]⟩
        · rw [Function.update_of_ne ne] at connected' ⊢
          obtain ⟨j, j_lt, tag_eq', here⟩ := consistent.tagged d connected'
          exact ⟨j, j_lt, tag_eq', by rwa [Function.update_of_ne (other here (by decide))]⟩
      socket := fun d connected' => by
        dsimp only at connected' ⊢
        rcases eq_or_ne d c with rfl | ne
        · rw [Function.update_self, socket_eq, Function.update_self]
          exact ⟨notUnix, rfl⟩
        · rw [Function.update_of_ne ne] at connected' ⊢
          rw [Function.update_of_ne (consistent.sock_ne_socket i_lt stat_eq connected')]
          exact consistent.socket d connected'
      single := fun d e first second same => by
        dsimp only at first second same
        rcases eq_or_ne d c with rfl | d_ne
        · rcases eq_or_ne e d with rfl | e_ne
          · rfl
          · rw [Function.update_of_ne e_ne] at second same
            rw [Function.update_self, tag_eq] at same
            exact absurd same.symm (tag_ne second)
        · rw [Function.update_of_ne d_ne] at first same
          rcases eq_or_ne e c with rfl | e_ne
          · rw [Function.update_self, tag_eq] at same
            exact absurd same (tag_ne first)
          · rw [Function.update_of_ne e_ne] at second same
            exact consistent.single d e first second same }

/-- `KillSocket` on a connected context. -/
theorem killSocket (consistent : Consistent server state) {c : UInt64}
    (connected : (state.contexts c).connected = true) (tick : UInt32) :
    Consistent server (server.killSocket c tick state) := by
  have alive := consistent.alive c connected
  obtain ⟨i, i_lt, tag_eq, -⟩ := consistent.tagged c connected
  rw [killSocket_eq alive tag_eq i_lt]
  refine consistent.drop ⟨connected, tag_eq⟩ i_lt ?_ tick
  change (server.client.killSocket _).connected = false
  rw [TeWiFiClient.killSocket, if_neg (by simpa using alive)]

/-- The loop handles the completion of a connection. -/
theorem complete (consistent : Consistent server state) {i : Nat}
    (stat_eq : (state.servers i).stat = .ssConnecting) (i_lt : i < server.count)
    {verdict : Verdict} (free : verdict = .ok → state.pool ≠ []) (added : Bool) (tick : UInt32) :
    Consistent server (server.complete i verdict added tick state) := by
  rcases eq_or_ne verdict .ok with rfl | failed
  · obtain ⟨c, pool, pool_eq⟩ := List.exists_cons_of_ne_nil (free rfl)
    obtain ⟨connected, alive, tag_eq⟩ :=
      connect_context server (state.contexts c).session i
    have admitted : Consistent server (server.complete i .ok true tick state) := by
      rw [complete_ok i_lt pool_eq]
      exact consistent.take stat_eq i_lt pool_eq connected alive tag_eq rfl tick
    cases added with
    | true => exact admitted
    | false =>
        rw [complete_unwatched i_lt pool_eq]
        refine admitted.killSocket ?_ tick
        rw [complete_ok i_lt pool_eq]
        dsimp only
        rw [Function.update_self]
        exact connected
  · rw [complete_failed i_lt failed]
    exact consistent.fail stat_eq i_lt tick

theorem connectChannel (consistent : Consistent server state) {n : UInt32}
    {attempts : Nat → Attempt} {i : Nat} (i_lt : i < server.count)
    (free : (state.servers i).stat = .ssDisconnected ∧ n - (state.servers i).date > 5000 →
      (∃ sock, attempts i = .pending sock) → server.unixFd ≠ dataFd (channelData i))
    {next : Channels} (connected : connectChannel n attempts state i = some next) :
    Consistent server next := by
  rw [ChannelServer.connectChannel] at connected
  split at connected
  · rename_i due
    split at connected
    · rename_i sock pending
      split at connected
      · cases connected
      · rename_i fresh
        obtain rfl := Option.some.inj connected
        exact consistent.pend due.1 (by simpa using fresh) (free due ⟨sock, pending⟩) i_lt
    · obtain rfl := Option.some.inj connected
      exact consistent
  · obtain rfl := Option.some.inj connected
    exact consistent

/-- The pass leaves the channels it has not come to as they were. -/
theorem onEpollExt (consistent : Consistent server state) {n : UInt32}
    {attempts : Nat → Attempt} {next : Channels}
    (provided : server.Provided state (.pass n attempts))
    (passed : server.onEpollExt n attempts state = some next) : Consistent server next := by
  have loop (channels : List Nat) (nodup : channels.Nodup)
      (inside : ∀ i ∈ channels, i < server.count) (middle : Channels)
      (same : ∀ i ∈ channels, middle.servers i = state.servers i)
      (consistent : Consistent server middle)
      (passed : channels.foldlM (ChannelServer.connectChannel n attempts) middle = some next) :
      Consistent server next := by
    induction channels generalizing middle with
    | nil =>
        obtain rfl := Option.some.inj passed
        exact consistent
    | cons i channels induction =>
        obtain ⟨after, first, rest⟩ := Option.bind_eq_some_iff.mp passed
        obtain ⟨notMem, nodup⟩ := List.nodup_cons.mp nodup
        have i_lt := inside i List.mem_cons_self
        have free := provided i i_lt
        rw [← same i List.mem_cons_self] at free
        apply induction nodup (fun j among => inside j (.tail _ among)) after ?_
          (consistent.connectChannel i_lt free first) rest
        intro j among
        have ne : j ≠ i := by
          rintro rfl
          exact notMem among
        rw [(connectChannel_keeps first).2 j ne]
        exact same j (.tail _ among)
  exact loop _ List.nodup_range (fun i among => List.mem_range.mp among) state
    (fun _ _ => rfl) consistent passed

end Consistent

/-- An event of a channel comes from its pending socket. -/
theorem Consistent.connecting_of_route {state : Channels} (consistent : Consistent server state)
    {fd m : Nat} {data : UInt64} (watched : state.watched fd = some data)
    (route_eq : server.route data = .channel m) :
    m < server.count ∧ (state.servers m).stat = .ssConnecting := by
  by_cases isUnix : server.IsUnix fd
  · rw [route, if_pos (consistent.control fd data watched isUnix)] at route_eq
    cases route_eq
  · rcases consistent.owned fd data watched isUnix with ⟨i, i_lt, rfl, stat_eq, -⟩ | large
    · rw [route_channelData i_lt (consistent.pending i i_lt stat_eq).2] at route_eq
      cases route_eq
      exact ⟨i_lt, stat_eq⟩
    · rw [route, if_pos large] at route_eq
      split at route_eq <;> cases route_eq

/-- A step outside the two gaps keeps the invariant. -/
theorem Consistent.step {state next : Channels} {event : Event}
    (consistent : Consistent server state) (provided : server.Provided state event)
    (stepped : server.step state event = some next) : Consistent server next := by
  cases event with
  | pass n attempts => exact consistent.onEpollExt provided stepped
  | ready fd verdict added tick =>
      obtain ⟨data, watched, rfl⟩ := Option.map_eq_some_iff.mp stepped
      split
      · exact consistent
      · exact consistent
      · rename_i m route_eq
        obtain ⟨m_lt, stat_eq⟩ := consistent.connecting_of_route watched route_eq
        exact consistent.complete stat_eq m_lt (provided _ _ watched route_eq) added tick
  | close c tick =>
      rw [ChannelServer.step] at stepped
      split at stepped
      · obtain rfl := Option.some.inj stepped
        rcases Bool.eq_false_or_eq_true (state.contexts c).killed with killed | alive
        · rwa [ChannelServer.killSocket, if_pos killed]
        · rename_i used
          exact consistent.killSocket (by simpa [alive] using used) tick
      · cases stepped

/-- The events of a registered channel whose number is the control socket's do not reach it. -/
theorem Consistent.not_booked_of_pass {state next : Channels} (consistent : Consistent server state)
    {n : UInt32} {attempts : Nat → Attempt} {i sock : Nat} (i_lt : i < server.count)
    (due : (state.servers i).stat = .ssDisconnected ∧ n - (state.servers i).date > 5000)
    (attempt_eq : attempts i = .pending sock) (same : server.unixFd = dataFd (channelData i))
    (passed : server.onEpollExt n attempts state = some next) : ¬ server.Booked next := by
  obtain ⟨before, after, range_eq⟩ := List.append_of_mem (List.mem_range.mpr i_lt)
  have notBefore : i ∉ before := by
    have nodup : (List.range server.count).Nodup := List.nodup_range
    rw [range_eq, List.nodup_append] at nodup
    exact fun among => nodup.2.2 i among i List.mem_cons_self rfl
  rw [ChannelServer.onEpollExt, range_eq, List.foldlM_append] at passed
  obtain ⟨middle, first, rest⟩ := Option.bind_eq_some_iff.mp passed
  obtain ⟨opened, registered, last⟩ := Option.bind_eq_some_iff.mp rest
  obtain ⟨opens, others⟩ := connectChannels_keeps first
  rw [← others i notBefore] at due
  rw [ChannelServer.connectChannel, if_pos due] at registered
  simp only [attempt_eq] at registered
  split at registered
  · cases registered
  · rename_i closed
    obtain rfl := Option.some.inj registered
    obtain ⟨isOpen, watched⟩ := (connectChannels_keeps last).1 sock (Function.update_self ..)
    replace watched := watched.trans (Function.update_self ..)
    have notUnix : ¬ server.IsUnix sock := fun isUnix =>
      closed (opens sock (consistent.unix_open sock isUnix)).1
    intro booked
    have delivered := booked.delivered i i_lt sock _ ⟨isOpen, notUnix, watched⟩ watched
    rw [route, if_pos same] at delivered
    cases delivered

/-- A channel that is verified while no context is free stays connected without one. -/
theorem Consistent.not_booked_of_ready {state : Channels} (consistent : Consistent server state)
    {m : Nat} (m_lt : m < server.count) (stat_eq : (state.servers m).stat = .ssConnecting)
    (full : state.pool = []) (added : Bool) (tick : UInt32) :
    ¬ server.Booked (server.complete m .ok added tick state) := by
  have next_eq : server.complete m .ok added tick state =
      { state with
        servers := Function.update state.servers m
          { state.servers m with stat := .ssConnected, date := tick } }.closeFd
        (state.servers m).sock := by
    rw [ChannelServer.complete, onVerify, if_neg (Nat.not_le.mpr m_lt)]
    simp only [full, Channels.closeFd, Function.update_idem]
  rw [next_eq]
  intro booked
  obtain ⟨c, ⟨connected, tag_eq⟩, -⟩ := (booked.connected_iff m m_lt).mp <| by
    change (Function.update state.servers m _ m).stat = .ssConnected
    rw [Function.update_self]
  obtain ⟨j, -, tag_eq', stat_eq'⟩ := consistent.tagged c connected
  obtain rfl : m = j := Int.ofNat.inj (tag_eq.symm.trans tag_eq')
  rw [stat_eq] at stat_eq'
  cases stat_eq'

/-- A step into one of the gaps breaks the books. -/
theorem Consistent.not_booked {state next : Channels} {event : Event}
    (consistent : Consistent server state) (gap : ¬ server.Provided state event)
    (stepped : server.step state event = some next) : ¬ server.Booked next := by
  cases event with
  | pass n attempts =>
      simp only [Provided, not_forall, not_not] at gap
      obtain ⟨i, i_lt, due, ⟨sock, attempt_eq⟩, same⟩ := gap
      exact consistent.not_booked_of_pass i_lt due attempt_eq same stepped
  | ready fd verdict added tick =>
      simp only [Provided, not_forall, not_not] at gap
      obtain ⟨data, m, watched, route_eq, rfl, full⟩ := gap
      obtain ⟨m_lt, stat_eq⟩ := consistent.connecting_of_route watched route_eq
      rw [ChannelServer.step, watched, Option.map_some, Option.some.injEq] at stepped
      simp only [route_eq] at stepped
      exact stepped ▸ consistent.not_booked_of_ready m_lt stat_eq full added tick
  | close c tick => exact absurd trivial gap

theorem start_consistent (servers : Nat → THServer)
    (memory : UInt64 → Fin 4 → Nat → Byte) (peers : UInt64 → SockAddr) (opened : Nat → Bool)
    (upper : UInt32) : Consistent server (server.start servers memory peers opened upper) := by
  have unconnected (c : UInt64) :
      ((server.start servers memory peers opened upper).contexts c).connected = false := rfl
  have unix {fd : Nat} {data : UInt64}
      (watched : (server.start servers memory peers opened upper).watched fd = some data) :
      server.IsUnix fd := by
    simp only [start] at watched
    split at watched
    · rename_i here
      exact here.2
    · cases watched
  have isOpen {fd : Nat} (isUnix : server.IsUnix fd) :
      (server.start servers memory peers opened upper).isOpen fd = true := by
    simp only [start, Bool.or_eq_true, decide_eq_true_eq]
    exact .inr isUnix
  exact
    { pool_nodup := server.distinct
      large := fun c inside => server.large c (inside.resolve_right Bool.false_ne_true)
      idle := fun c _ => unconnected c
      alive := fun c connected => by cases connected
      unix_open := fun fd => isOpen
      control := fun fd data watched isUnix => by
        simp only [start] at watched
        split at watched
        · obtain rfl := Option.some.inj watched
          exact (dataFd_or upper server.unixFd).symm
        · cases watched
      watched_open := fun fd data watched => isOpen (unix watched)
      owned := fun fd data watched notUnix => absurd (unix watched) notUnix
      pending := fun i _ connecting => by cases connecting
      held := fun i _ connected => by cases connected
      tagged := fun c connected => by cases connected
      socket := fun c connected => by cases connected
      single := fun c d connected => by cases connected }

/-- The books are right throughout a run exactly when none of its steps falls into a gap. -/
theorem booked_iff_provided (servers : Nat → THServer) (memory : UInt64 → Fin 4 → Nat → Byte)
    (peers : UInt64 → SockAddr) (opened : Nat → Bool) (upper : UInt32) (events : List Event) :
    AllStates server.step server.Booked (server.start servers memory peers opened upper) events ↔
      AllSteps server.step server.Provided (server.start servers memory peers opened upper)
        events := by
  apply allStates_iff_allSteps (Consistent server)
  · exact Consistent.booked
  · exact fun consistent provided stepped => consistent.step provided stepped
  · exact fun consistent gap stepped => consistent.not_booked gap stepped
  · exact start_consistent servers memory peers opened upper

/-- A client of one server without contexts. -/
def fullServer : ChannelServer where
  client :=
    { responders := fun _ => none
      serverCount := 1
      gzDecompress := fun _ => ([], false)
      gzCompress := fun _ => ([], false) }
  few := by decide
  unixFd := 3
  contexts := []
  distinct := List.nodup_nil
  large := List.forall_mem_nil _

def fullStart : Channels :=
  let loopback : SockAddr := { sinAddr := 127, sinPort := 80 }
  fullServer.start (fun _ => { addr := loopback, sock := 0, stat := .ssUnknown, date := 0 })
    (fun _ _ _ => 0) (fun _ => loopback) (fun _ => false) 0

/-- It connects over the descriptor 4. -/
def fullEvents : List Event :=
  [.pass 6000 fun _ => .pending 4, .ready 4 .ok true 6001]

theorem full_not_booked : ¬ AllStates fullServer.step fullServer.Booked fullStart fullEvents := by
  intro booked
  have connected : (run fullServer.step fullStart fullEvents).any (fun state =>
      decide ((state.servers 0).stat = .ssConnected)) = true := by decide +kernel
  obtain ⟨final, execution, stat_eq⟩ := (Option.any_eq_true _ _).mp connected
  have unused : (run fullServer.step fullStart fullEvents).map Channels.contexts =
      some fullStart.contexts := rfl
  rw [execution, Option.map_some, Option.some.injEq] at unused
  obtain ⟨c, ⟨holds, -⟩, -⟩ := ((booked.of_run execution).connected_iff 0 Nat.zero_lt_one).mp
    (of_decide_eq_true stat_eq)
  rw [unused] at holds
  cases holds

end ChannelServer
end CommonLib
