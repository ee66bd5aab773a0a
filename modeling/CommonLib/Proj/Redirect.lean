import CommonLib.Proj.Lifecycle
import CommonLib.Proj.ServerList

/-!
# A redirection

When `conn_resp` names other servers, its handler closes the connections of all contexts of the
pool, forgets the channels and parses the new lists.  Closing a context leads through `KillSocket`
to `OnClose`, which marks the channel of a context for reconnection, and back to the pool.
-/

namespace CommonLib
namespace Redirect

open Execution ServerList

/-- A context of the pool; a connected one has not been closed. -/
structure Pooled where
  context : THSockContext
  live : TeWiFiClient.Live context

namespace Pooled

/-- Whatever happened to a context before, it has its place in the pool. -/
def ofReachable (client : TeWiFiClient) {head body content ring : Nat → Byte} {session : Session}
    (reach : Reachable client.step (TeWiFiClient.newSession head body content ring) session) :
    Pooled where
  context := session.context
  live := by
    obtain ⟨queue, resting⟩ := client.resting_of_reachable reach
    exact resting.parsing.live

/-- `Tag = -1`. -/
def untag (sc : Pooled) : Pooled where
  context := { sc.context with tag := -1 }
  live := sc.live

/-- What `THSockContext::Close` does to the context. -/
def close (client : TeWiFiClient) (sc : Pooled) : Pooled where
  context := client.closeContext sc.context
  live := TeWiFiClient.live_of_not_connected (client.closeContext_spec sc.live).1

end Pooled

/-- The pool, where `NULL` stands for a context that could not be created, and the server list;
`closed` and `marked` note whose sockets `KillSocket` closed and which channels `OnClose` marked. -/
structure State where
  contexts : List (Option Pooled)
  /-- The chain of unused contexts from `Current`. -/
  current : List Nat
  net : THNetOption
  closed : List Nat
  marked : List Nat

/-- `THSockServer::GetContext`. -/
def getContext (state : State) (i : Nat) : Option Pooled :=
  state.contexts[i]?.join.filter (·.context.connected)

/-- `THSockContext::Close` with `CloseSocket`, `KillSocket` and `OnClose`. -/
def close (client : TeWiFiClient) (tick : UInt32) (i : Nat) (sc : Pooled) (state : State) : State :=
  let count := state.net.serverIndex.count
  let contexts := state.contexts.set i (some (sc.close { client with serverCount := count }))
  if sc.context.killed ∨ sc.context.postClose then { state with contexts }
  else
    let tag := sc.context.tag
    let state :=
      { state with
        contexts
        current := i :: state.current
        closed := state.closed ++ [i] }
    if tag > -1 ∧ tag < count then
      let slot := state.net.servers tag.toNat
      { state with
        net :=
          { state.net with
            servers := Function.update state.net.servers tag.toNat
              { slot with stat := .ssDisconnected, date := tick } }
        marked := state.marked ++ [tag.toNat] }
    else state

/-- The loop over the contexts; writing through `NULL` has no result. -/
def disconnectLoop (client : TeWiFiClient) (ticks : Nat → UInt32) :
    Nat → Nat → State → Option State
  | 0, _, state => some state
  | turns + 1, i, state =>
      (getContext state i).bind fun sc =>
        disconnectLoop client ticks turns (i + 1) (close client (ticks i) i sc.untag state)

/-- The branch of `need_reconnect`: the pool and the new list, if the parser stays in the array. -/
def redirect (client : TeWiFiClient) (other : THOtherOption) (ticks clock : Nat → UInt32)
    (state : State) : Option (State × Option THNetOption) :=
  let j := state.contexts.length
  (disconnectLoop client ticks j 0 state).map fun state =>
    (state, (rebuildIndex other clock state.net).map (·.1))

/-- `cmd_conn_req::CommandHandler` for the context `sc` at `self`, whose request is in `memory`. -/
def commandHandler (client : TeWiFiClient) (self : Nat) (sc : Pooled) (memory : Nat → Byte)
    (other : THOtherOption) (ticks clock : Nat → UInt32) (state : State) :
    Option (State × Option THNetOption) :=
  let other := (CommandHandler.connResp other sc.context memory 0).value.1
  if memory 0 = acr_DENIED then
    let state := close client (ticks self) self sc state
    some (state, some state.net)
  else if memory 0 = acr_REDIRECT then redirect client other ticks clock state
  else if memory 0 = acr_OK then
    let sc : Pooled := { context := { sc.context with logined := true }, live := sc.live }
    some ({ state with contexts := state.contexts.set self (some sc) }, some state.net)
  else some (state, some state.net)

/-! ## One turn -/

/-- There is a connected context at a place of the pool. -/
def ConnectedAt (state : State) (i : Nat) : Prop :=
  ∃ sc, state.contexts[i]? = some (some sc) ∧ sc.context.connected = true

theorem getContext_eq_some_iff {state : State} {i : Nat} {sc : Pooled} :
    getContext state i = some sc ↔
      state.contexts[i]? = some (some sc) ∧ sc.context.connected = true := by
  simp [getContext, Option.filter_eq_some_iff, Option.join_eq_some_iff]

theorem connectedAt_iff {state : State} {i : Nat} :
    ConnectedAt state i ↔ ∃ sc, getContext state i = some sc := by
  simp only [ConnectedAt, getContext_eq_some_iff]

theorem connectedAt_lt {state : State} {i : Nat} (connected : ConnectedAt state i) :
    i < state.contexts.length := by
  obtain ⟨_, here, _⟩ := connected
  exact (List.getElem?_eq_some_iff.mp here).1

/-- A connected context without a tag is closed and marks no channel. -/
theorem close_untag (client : TeWiFiClient) (tick : UInt32) {state : State} {i : Nat} {sc : Pooled}
    (connected : sc.context.connected = true) :
    close client tick i sc.untag state =
      { state with
        contexts := state.contexts.set i
          (some (sc.untag.close { client with serverCount := state.net.serverIndex.count }))
        current := i :: state.current
        closed := state.closed ++ [i] } := by
  obtain ⟨alive, opened⟩ := sc.live connected
  have open_context : ¬ (sc.untag.context.killed = true ∨ sc.untag.context.postClose = true) := by
    simp [Pooled.untag, alive, opened]
  have untagged : ¬ (sc.untag.context.tag > -1 ∧
      sc.untag.context.tag < (state.net.serverIndex.count : Int)) :=
    fun tagged => absurd tagged.1 (Int.lt_irrefl (-1))
  simp only [close, if_neg open_context, if_neg untagged]

/-- Closing a context disconnects it and no other. -/
theorem connectedAt_close (client : TeWiFiClient) (tick : UInt32) {state : State} {i : Nat}
    {sc : Pooled} (here : getContext state i = some sc) (j : Nat) :
    ConnectedAt (close client tick i sc.untag state) j ↔ ConnectedAt state j ∧ j ≠ i := by
  obtain ⟨present, connected⟩ := getContext_eq_some_iff.mp here
  have inside := (List.getElem?_eq_some_iff.mp present).1
  rw [close_untag client tick connected]
  by_cases same : j = i
  · obtain rfl := same
    refine ⟨fun ⟨again, held, still⟩ => ?_, fun both => absurd rfl both.2⟩
    rw [List.getElem?_set_self inside, Option.some.injEq, Option.some.injEq] at held
    rw [← held, Pooled.close, (TeWiFiClient.closeContext_spec _ sc.untag.live).1] at still
    cases still
  · rw [and_iff_left same, ConnectedAt, ConnectedAt, List.getElem?_set_ne (Ne.symm same)]

/-! ## The loop -/

theorem disconnectLoop_spec (client : TeWiFiClient) (ticks : Nat → UInt32) {turns i : Nat}
    {state : State} (connected : ∀ j, i ≤ j → j < i + turns → ConnectedAt state j) :
    ∃ state', disconnectLoop client ticks turns i state = some state' ∧
      state'.closed = state.closed ++ List.range' i turns ∧
      state'.marked = state.marked ∧ state'.net = state.net ∧
      ∀ j, ConnectedAt state' j ↔ ConnectedAt state j ∧ (j < i ∨ i + turns ≤ j) := by
  induction turns generalizing i state with
  | zero =>
      exact ⟨state, rfl, (List.append_nil _).symm, rfl, rfl, fun j =>
        (and_iff_left (Nat.lt_or_ge j i)).symm⟩
  | succ turns induction =>
      obtain ⟨sc, here⟩ := connectedAt_iff.mp (connected i (Nat.le_refl i) (by omega))
      have others := connectedAt_close client (ticks i) here
      obtain ⟨state', run, closed, marked, net, rest⟩ :=
        @induction (i + 1) (close client (ticks i) i sc.untag state) fun j after before =>
          (others j).mpr ⟨connected j (by omega) (by omega), by omega⟩
      rw [close_untag client (ticks i) (getContext_eq_some_iff.mp here).2] at closed marked net
      refine ⟨state', ?_, ?_, marked, net, fun j => ?_⟩
      · rw [disconnectLoop, here, Option.bind_some, run]
      · rw [closed, List.append_assoc, List.singleton_append, List.range'_succ]
      · rw [rest, others, and_assoc]
        exact and_congr_right fun _ => by omega

/-- The loop meets a connected context in each of its turns or `NULL`. -/
theorem connectedAt_of_disconnectLoop (client : TeWiFiClient) (ticks : Nat → UInt32)
    {turns i : Nat} {state state' : State}
    (run : disconnectLoop client ticks turns i state = some state') {j : Nat} (after : i ≤ j)
    (before : j < i + turns) : ConnectedAt state j := by
  induction turns generalizing i state with
  | zero => omega
  | succ turns induction =>
      obtain ⟨sc, here, later⟩ := Option.bind_eq_some_iff.mp run
      by_cases same : j = i
      · rw [same]
        exact connectedAt_iff.mpr ⟨sc, here⟩
      · have remains := induction later (by omega) (by omega)
        exact ((connectedAt_close client (ticks i) here j).mp remains).1

/-! ## The handler -/

/-- No `NULL` is dereferenced, the connected contexts and no others are closed, each once, no
channel is marked, and the new list is the one which the parser makes of the old one. -/
def ClosesOld (other : THOtherOption) (clock : Nat → UInt32) (state : State)
    (result : Option (State × Option THNetOption)) : Prop :=
  ∃ state' list, result = some (state', list) ∧
    (∃ closings, state'.closed = state.closed ++ closings ∧ closings.Nodup ∧
      ∀ i, i ∈ closings ↔ ConnectedAt state i) ∧
    (∀ i, ¬ ConnectedAt state' i) ∧
    state'.marked = state.marked ∧
    list = (rebuildIndex other clock state.net).map (·.1)

/-- A redirection closes the old connections exactly if all contexts of the pool are connected. -/
theorem redirection_iff (client : TeWiFiClient) (self : Nat) (sc : Pooled) (memory : Nat → Byte)
    (other : THOtherOption) (ticks clock : Nat → UInt32) (state : State)
    (redirection : memory 0 = acr_REDIRECT) :
    ClosesOld (CommandHandler.connResp other sc.context memory 0).value.1 clock state
        (commandHandler client self sc memory other ticks clock state) ↔
      ∀ i < state.contexts.length, ConnectedAt state i := by
  have other_result : ¬ memory 0 = acr_DENIED := by
    rw [redirection]
    decide
  rw [commandHandler, if_neg other_result, if_pos redirection, redirect]
  constructor
  · rintro ⟨state', list, result, -⟩ i inside
    obtain ⟨last, run, -⟩ := Option.map_eq_some_iff.mp result
    exact connectedAt_of_disconnectLoop client ticks run (Nat.zero_le i) (by omega)
  · intro connected
    obtain ⟨state', run, closed, marked, net, rest⟩ :=
      @disconnectLoop_spec client ticks state.contexts.length 0 state
        fun j _ before => connected j (by omega)
    refine ⟨state', _, by rw [run, Option.map_some], ⟨_, closed, List.nodup_range', fun i => ?_⟩,
      fun i still => ?_, marked, by rw [net]⟩
    · rw [List.mem_range'_1, Nat.zero_add, and_iff_right (Nat.zero_le i)]
      exact ⟨connected i, connectedAt_lt⟩
    · obtain ⟨before, side⟩ := (rest i).mp still
      have inside := connectedAt_lt before
      omega

/-- A new context. -/
def unusedContext : Pooled where
  context := TeWiFiClient.newContext (fun _ => 0) (fun _ => 0) (fun _ => 0) fun _ => 0
  live := TeWiFiClient.live_of_not_connected rfl

/-- A connected context with a tag. -/
def servedContext (tag : Int) : Pooled where
  context := { unusedContext.context with connected := true, tag }
  live := fun _ => ⟨rfl, rfl⟩

/-- A pool with two channels that are both connected. -/
def connectedState (contexts : List (Option Pooled)) : State where
  contexts
  current := []
  net :=
    { servers := fun _ => { blankServer with stat := .ssConnected }
      serverIndex := (ServerIndex.empty.addS [97, 58, 49] 0).addS [98, 58, 50] 1 }
  closed := []
  marked := []

/-- A `conn_resp2` without names. -/
def redirectMessage : Nat → Byte := fun i => if i = 0 then acr_REDIRECT else 0

theorem redirection_iff_both :
    ClosesOld
        (CommandHandler.connResp (onlyAuth []) (servedContext 0).context redirectMessage 0).value.1
        (fun _ => 0) (connectedState [some (servedContext 0), some (servedContext 1)])
        (commandHandler TeWiFiClient.plainClient 0 (servedContext 0) redirectMessage (onlyAuth [])
          (fun _ => 0) (fun _ => 0)
          (connectedState [some (servedContext 0), some (servedContext 1)])) := by
  refine (redirection_iff TeWiFiClient.plainClient 0 (servedContext 0) redirectMessage (onlyAuth [])
    (fun _ => 0) (fun _ => 0) _ rfl).mpr fun i inside => ?_
  rcases i with _ | _ | i
  · exact ⟨servedContext 0, rfl, rfl⟩
  · exact ⟨servedContext 1, rfl, rfl⟩
  · exact absurd inside (by simp [connectedState])

/-- An unused context in the pool stops the handler. -/
theorem commandHandler_unused :
    ¬ ClosesOld
        (CommandHandler.connResp (onlyAuth []) (servedContext 0).context redirectMessage 0).value.1
        (fun _ => 0) (connectedState [some (servedContext 0), some unusedContext])
        (commandHandler TeWiFiClient.plainClient 0 (servedContext 0) redirectMessage (onlyAuth [])
          (fun _ => 0) (fun _ => 0)
          (connectedState [some (servedContext 0), some unusedContext])) := by
  have stopped : (commandHandler TeWiFiClient.plainClient 0 (servedContext 0) redirectMessage
      (onlyAuth []) (fun _ => 0) (fun _ => 0)
      (connectedState [some (servedContext 0), some unusedContext])).isNone = true := by
    decide +kernel
  rintro ⟨state', list, result, -⟩
  rw [result] at stopped
  cases stopped

end Redirect
end CommonLib
