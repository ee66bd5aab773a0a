import CommonLib.Hlib.SendQueue

/-!
# The order of the bytes of one connection

While only the oldest payload of a connection is served, the bytes handed to its socket form a
prefix of the payloads.  `WriteSocket` itself does not see to this: it serves whatever block it is
given, one buffer at a time.
-/

namespace CommonLib.THEpollServer

open Execution

/-- A server together with what happened on the current connection of one context: the payloads
which `SendData` queued, the blocks which hold them, oldest first, and what the socket took. -/
structure SendHistory where
  server : THEpollServer
  payloads : List (List Byte)
  queue : List Nat
  handed : List Outgoing

namespace SendHistory

variable (c : Nat) (history : SendHistory)

/-- A payload is sent on some context; only queued payloads count. -/
def send (postClose : Bool) (context : Nat) (data : List Byte) : Option SendHistory :=
  (history.server.sendChain postClose context data).map fun (added, next) =>
    if added = true ∧ context = c then
      { history with
        server := next
        payloads := history.payloads ++ [data]
        queue := history.queue ++ history.server.cache.fb.toList }
    else { history with server := next }

/-- One call; the record starts again when the context is taken for a new connection. -/
def step : Op → Option SendHistory
  | .connect socket uid =>
      some
        (if history.server.contextMgr.current = some c then
          { server := (history.server.connect socket uid).2, payloads := [], queue := [],
            handed := [] }
        else { history with server := (history.server.connect socket uid).2 })
  | .sendData context data =>
      if context < history.server.contextMgr.size then history.send c false context data else none
  | .sendDataAndPostClose context data =>
      if context < history.server.contextMgr.size then history.send c true context data else none
  | .writeSocket block result =>
      (history.server.step (.writeSocket block result)).map fun next =>
        { history with
          server := next
          queue := history.queue.filter fun other => decide (next.cache.Used other)
          handed := history.handed ++
            (next.outgoing.drop history.server.outgoing.length).filter (·.context = c) }
  | .killSocket context =>
      (history.server.step (.killSocket context)).map fun next => { history with server := next }
  | .closeSocket context =>
      (history.server.step (.closeSocket context)).map fun next => { history with server := next }

variable {c history}

/-- A recorded call is a call of the server. -/
theorem step_server {next : SendHistory} {op : Op} (result : history.step c op = some next) :
    history.server.step op = some next.server := by
  have sent {postClose : Bool} {context : Nat} {data : List Byte}
      (result : history.send c postClose context data = some next) :
      (history.server.sendChain postClose context data).map Prod.snd = some next.server := by
    obtain ⟨⟨added, server⟩, returned, rfl⟩ := Option.map_eq_some_iff.mp result
    rw [returned]
    dsimp only
    split <;> rfl
  cases op with
  | connect socket uid =>
      obtain rfl := Option.some.inj result
      rw [THEpollServer.step]
      split <;> rfl
  | sendData context data =>
      simp only [step, Option.ite_none_right_eq_some] at result
      rw [THEpollServer.step, if_pos result.1]
      exact sent result.2
  | sendDataAndPostClose context data =>
      simp only [step, Option.ite_none_right_eq_some] at result
      rw [THEpollServer.step, if_pos result.1]
      exact sent result.2
  | writeSocket block sendResult =>
      obtain ⟨server, returned, rfl⟩ := Option.map_eq_some_iff.mp result
      exact returned
  | killSocket context =>
      obtain ⟨server, returned, rfl⟩ := Option.map_eq_some_iff.mp result
      exact returned
  | closeSocket context =>
      obtain ⟨server, returned, rfl⟩ := Option.map_eq_some_iff.mp result
      exact returned

/-- The bytes which the socket took, in order. -/
def handedBytes (history : SendHistory) : List Byte := history.handed.flatMap (·.bytes)

/-- The socket of the context took a prefix of the payloads, and nothing went elsewhere. -/
structure InOrder (c : Nat) (history : SendHistory) : Prop where
  prefix_payloads : history.handedBytes <+: history.payloads.flatten
  socket_eq : ∀ outgoing ∈ history.handed,
    outgoing.socket = (history.server.contextMgr.contexts c).socket

/-- When `send` takes bytes of the connection, they are those of its oldest block in use; and a new
connection gets a `UID` which no chain left over from the context's earlier connections carries. -/
def Oldest (c : Nat) (history : SendHistory) : Op → Prop
  | .writeSocket block (.sent (_ + 1)) =>
      ∀ b ∈ (history.server.cache.buf block).data,
        history.server.connectionOf (history.server.bufferMgr.buffers b) = some c →
          history.queue.head? = some block
  | .connect _ uid => history.server.contextMgr.current = some c →
      ∀ block < history.server.cache.size, history.server.cache.Used block →
        ∀ b ∈ (history.server.cache.buf block).data,
          (history.server.bufferMgr.buffers b).context = some c →
            (history.server.bufferMgr.buffers b).uid ≠ uid
  | _ => True

instance (c : Nat) (history : SendHistory) : (op : Op) → Decidable (Oldest c history op)
  | .writeSocket block (.sent (_ + 1)) =>
      inferInstanceAs (Decidable (∀ b ∈ (history.server.cache.buf block).data,
        history.server.connectionOf (history.server.bufferMgr.buffers b) = some c →
          history.queue.head? = some block))
  | .connect _ uid =>
      inferInstanceAs (Decidable (history.server.contextMgr.current = some c →
        ∀ block < history.server.cache.size, history.server.cache.Used block →
          ∀ b ∈ (history.server.cache.buf block).data,
            (history.server.bufferMgr.buffers b).context = some c →
              (history.server.bufferMgr.buffers b).uid ≠ uid))
  | .writeSocket _ (.sent 0) => inferInstanceAs (Decidable True)
  | .writeSocket _ .again => inferInstanceAs (Decidable True)
  | .writeSocket _ .failed => inferInstanceAs (Decidable True)
  | .sendData _ _ => inferInstanceAs (Decidable True)
  | .sendDataAndPostClose _ _ => inferInstanceAs (Decidable True)
  | .killSocket _ => inferInstanceAs (Decidable True)
  | .closeSocket _ => inferInstanceAs (Decidable True)

/-- The bytes of the queued payloads that remain to be sent. -/
def remaining (view : Nat → Option Pending) (queue : List Nat) : List Byte :=
  queue.flatMap fun block => ((view block).map (·.bytes)).getD []

/-- The queue lists the entries of the connection, and while it lasts, what was handed over and what
remains make up the payloads. -/
structure Ordered (c : Nat) (history : SendHistory) (lists : Place → List Nat)
    (view : Nat → Option Pending) : Prop where
  viewed : history.server.Viewed lists view
  mine : ∀ block ∈ history.queue, ∃ entry, view block = some entry ∧ entry.context = c ∧
    entry.uid = (history.server.contextMgr.contexts c).uid ∧
    entry.socket = (history.server.contextMgr.contexts c).socket
  complete : (history.server.contextMgr.contexts c).connected = true →
    ∀ {block entry}, view block = some entry → entry.context = c →
      entry.uid = (history.server.contextMgr.contexts c).uid → block ∈ history.queue
  nodup : history.queue.Nodup
  bytes : (history.server.contextMgr.contexts c).connected = true →
    history.handedBytes ++ remaining view history.queue = history.payloads.flatten
  inOrder : history.InOrder c

variable {lists lists' : Place → List Nat} {view : Nat → Option Pending}

theorem remaining_congr {view' : Nat → Option Pending} {queue : List Nat}
    (agree : ∀ block ∈ queue, view' block = view block) :
    remaining view' queue = remaining view queue :=
  List.flatMap_congr fun block member => by rw [agree block member]

/-- What is left of the oldest block, which is in the queue as long as something is left. -/
theorem remaining_head {block : Nat} {later : List Nat} (absent : block ∉ later)
    {entry : Pending} {left : Option Pending} {rest : List Byte}
    (left_eq : left = some { entry with bytes := rest } ∨ left = none ∧ rest = []) :
    remaining (Function.update view block left) (if left.isSome then block :: later else later) =
      rest ++ remaining view later := by
  have agree : ∀ other ∈ later, Function.update view block left other = view other :=
    fun other member => Function.update_of_ne (ne_of_mem_of_not_mem member absent) _ _
  rcases left_eq with rfl | ⟨rfl, rfl⟩
  · rw [Option.isSome_some, if_pos rfl]
    have kept := remaining_congr agree
    simp only [remaining, List.flatMap_cons, Function.update_self, Option.map_some,
      Option.getD_some] at kept ⊢
    rw [kept]
  · rw [Option.isSome_none, if_neg Bool.false_ne_true, remaining_congr agree]
    rfl

/-- The context keeps its identity and is at most disconnected. -/
structure SameContext (c : Nat) (server next : THEpollServer) : Prop where
  uid : (next.contextMgr.contexts c).uid = (server.contextMgr.contexts c).uid
  socket : (next.contextMgr.contexts c).socket = (server.contextMgr.contexts c).socket
  connected : (next.contextMgr.contexts c).connected = true →
    (server.contextMgr.contexts c).connected = true

theorem sameContext_of_connections {server next : THEpollServer}
    (same : SameConnections server next) : SameContext c server next :=
  ⟨same.uid c, same.socket c, same.connected c⟩

/-- Entries of other connections come and go without effect on the record. -/
theorem Ordered.update_other (ordered : Ordered c history lists view) {next : THEpollServer}
    {block : Nat} {entry : Option Pending}
    (viewed : next.Viewed lists' (Function.update view block entry))
    (same : SameContext c history.server next) (outside : block ∉ history.queue)
    (foreign : ∀ found, entry = some found → found.context ≠ c) :
    Ordered c { history with server := next } lists' (Function.update view block entry) := by
  have agree : ∀ other ∈ history.queue, Function.update view block entry other = view other := by
    intro other member
    refine Function.update_of_ne ?_ _ _
    rintro rfl
    exact outside member
  refine ⟨viewed, ?_, ?_, ordered.nodup, ?_, ordered.inOrder.prefix_payloads, ?_⟩
  · intro other member
    obtain ⟨found, found_eq, mine⟩ := ordered.mine other member
    rw [agree other member, same.uid, same.socket]
    exact ⟨found, found_eq, mine⟩
  · intro connected other found found_eq context_eq uid_eq
    by_cases isBlock : other = block
    · subst isBlock
      rw [Function.update_self] at found_eq
      exact absurd context_eq (foreign found found_eq)
    · rw [Function.update_of_ne isBlock] at found_eq
      exact ordered.complete (same.connected connected) found_eq context_eq
        (uid_eq.trans same.uid)
  · intro connected
    have split := ordered.bytes (same.connected connected)
    rwa [← remaining_congr agree] at split
  · intro outgoing member
    rw [same.socket]
    exact ordered.inOrder.socket_eq outgoing member

/-- Nothing changes for the connection while the view stays. -/
theorem Ordered.same_view (ordered : Ordered c history lists view) {next : THEpollServer}
    (viewed : next.Viewed lists' view) (same : SameContext c history.server next) :
    Ordered c { history with server := next } lists' view := by
  refine ⟨viewed, ?_, ?_, ordered.nodup, ?_, ordered.inOrder.prefix_payloads, ?_⟩
  · intro other member
    obtain ⟨found, found_eq, mine⟩ := ordered.mine other member
    rw [same.uid, same.socket]
    exact ⟨found, found_eq, mine⟩
  · intro connected other found found_eq context_eq uid_eq
    exact ordered.complete (same.connected connected) found_eq context_eq (uid_eq.trans same.uid)
  · exact fun connected => ordered.bytes (same.connected connected)
  · intro outgoing member
    rw [same.socket]
    exact ordered.inOrder.socket_eq outgoing member

/-! ## Calls that do not write -/

theorem connect_other (server : THEpollServer) (socket uid : Int)
    (different : server.contextMgr.current ≠ some c) :
    (server.connect socket uid).2.contextMgr.contexts c = server.contextMgr.contexts c := by
  unfold connect THContextMgr.getContext
  cases current : server.contextMgr.current with
  | none => rfl
  | some ret =>
      have apart : c ≠ ret := by
        rintro rfl
        exact different current
      simp [setSocket, THContextMgr.set, apart]

theorem connect_uid (server : THEpollServer) (socket uid : Int)
    (current : server.contextMgr.current = some c) :
    ((server.connect socket uid).2.contextMgr.contexts c).uid = uid := by
  simp [connect, THContextMgr.getContext, current, setSocket, THContextMgr.set]

/-- Taking a context for a new connection. -/
theorem Ordered.connect (ordered : Ordered c history lists view) {next : SendHistory}
    {socket uid : Int} (oldest : Oldest c history (.connect socket uid))
    (result : history.step c (.connect socket uid) = some next) : Ordered c next lists view := by
  have viewed := ordered.viewed.of_sameBuffers (history.server.sameBuffers_connect socket uid)
  obtain rfl := Option.some.inj result
  split
  · next current =>
      refine ⟨viewed, ?_, ?_, List.nodup_nil, fun _ => rfl, ⟨List.prefix_rfl, ?_⟩⟩
      · intro block member
        simp at member
      · intro _ block entry found context_eq uid_eq
        obtain ⟨b, rest, _, used, data_eq, context_eq', uid_eq', _⟩ := ordered.viewed.head found
        rw [connect_uid _ _ _ current] at uid_eq
        exact absurd (uid_eq'.trans uid_eq)
          (oldest current block used.lt used b data_eq (context_eq ▸ context_eq'))
      · intro outgoing member
        simp at member
  · next other =>
      have context_eq := connect_other history.server socket uid other
      exact ordered.same_view viewed ⟨by rw [context_eq], by rw [context_eq],
        fun connected => by rwa [context_eq] at connected⟩

/-- Sending a payload on some context. -/
theorem Ordered.send (ordered : Ordered c history lists view) {next : SendHistory}
    {postClose : Bool} {context : Nat} {data : List Byte}
    (result : history.send c postClose context data = some next) :
    ∃ lists' view', Ordered c next lists' view' := by
  obtain ⟨added, server, returned, outcome⟩ :=
    ordered.viewed.conserved.sendChain postClose context data
  simp only [SendHistory.send, returned, Option.map_some, Option.some.injEq] at result
  have contexts_same (same : server.contextMgr = history.server.contextMgr) :
      SameContext c history.server server :=
    ⟨by rw [same], by rw [same], fun connected => by rwa [same] at connected⟩
  cases added with
  | false =>
      have refused : Refused history.server server lists := outcome
      subst result
      exact ⟨lists, view, ordered.same_view (ordered.viewed.refused refused)
        (contexts_same refused.contextMgr)⟩
  | true =>
      obtain ⟨block, count, queued⟩ := outcome
      obtain ⟨absent, viewed⟩ := ordered.viewed.queued queued
      have outside : block ∉ history.queue := by
        intro member
        obtain ⟨entry, found, _⟩ := ordered.mine block member
        simp [absent] at found
      have same := contexts_same queued.contextMgr
      by_cases ours : context = c
      · subst ours
        simp only [and_self, if_true, queued.free, Option.toList_some] at result
        subst result
        have agree : ∀ other ∈ history.queue, Function.update view block
            (some
              { context, uid := (history.server.contextMgr.contexts context).uid
                socket := (history.server.contextMgr.contexts context).socket
                bytes := data }) other = view other := by
          intro other member
          refine Function.update_of_ne ?_ _ _
          rintro rfl
          exact outside member
        refine ⟨_, _, viewed, ?_, ?_, ?_, ?_, ?_, ?_⟩
        · intro other member
          rw [same.uid, same.socket]
          rcases List.mem_append.mp member with old | new
          · obtain ⟨found, found_eq, mine⟩ := ordered.mine other old
            exact ⟨found, (agree other old).trans found_eq, mine⟩
          · obtain rfl : other = block := by simpa using new
            exact ⟨_, Function.update_self .., rfl, rfl, rfl⟩
        · intro connected other found found_eq context_eq uid_eq
          by_cases isBlock : other = block
          · simp [isBlock]
          · rw [Function.update_of_ne isBlock] at found_eq
            exact List.mem_append_left _ (ordered.complete (same.connected connected) found_eq
              context_eq (uid_eq.trans same.uid))
        · exact List.nodup_append.mpr ⟨ordered.nodup, List.nodup_singleton _, by
            rintro x member y member' rfl
            exact outside (by simpa [List.mem_singleton.mp member'] using member)⟩
        · intro connected
          have split := ordered.bytes (same.connected connected)
          simp only [remaining, List.flatMap_append, List.flatten_append] at split ⊢
          rw [← List.append_assoc]
          have kept := remaining_congr agree
          simp only [remaining] at kept
          rw [kept]
          have handed_eq : handedBytes
              { history with
                server
                payloads := history.payloads ++ [data]
                queue := history.queue ++ [block] } = history.handedBytes := rfl
          rw [handed_eq, split]
          simp
        · rw [List.flatten_append]
          exact List.prefix_append_of_prefix ordered.inOrder.prefix_payloads
        · intro outgoing member
          rw [same.socket]
          exact ordered.inOrder.socket_eq outgoing member
      · rw [if_neg (by simp [ours])] at result
        subst result
        exact ⟨_, _, ordered.update_other viewed same outside fun found found_eq =>
          (Option.some.inj found_eq) ▸ ours⟩

/-! ## `WriteSocket` -/

theorem filter_used {next : THEpollServer} {view' : Nat → Option Pending}
    (viewed : next.Viewed lists' view') (queue : List Nat)
    (present : ∀ block ∈ queue, (view' block).isSome) :
    (queue.filter fun block => decide (next.cache.Used block)) = queue := by
  refine List.filter_eq_self.mpr fun block member => ?_
  simpa [viewed.used] using present block member

/-- What `WriteSocket` does to a block that is not the connection's. -/
theorem Ordered.write_other (ordered : Ordered c history lists view) {next : THEpollServer}
    {block : Nat} {entry : Option Pending}
    (viewed : next.Viewed lists' (Function.update view block entry))
    (same : SameContext c history.server next) (outside : block ∉ history.queue)
    (foreign : ∀ found, entry = some found → found.context ≠ c)
    (unlogged : (next.outgoing.drop history.server.outgoing.length).filter (·.context = c) = []) :
    Ordered c
      { history with
        server := next
        queue := history.queue.filter fun other => decide (next.cache.Used other)
        handed := history.handed ++
          (next.outgoing.drop history.server.outgoing.length).filter (·.context = c) }
      lists' (Function.update view block entry) := by
  have kept := filter_used viewed history.queue fun other member => by
    obtain ⟨found, found_eq, _⟩ := ordered.mine other member
    have different : other ≠ block := by
      rintro rfl
      exact outside member
    rw [Function.update_of_ne different, found_eq]
    rfl
  rw [kept, unlogged, List.append_nil]
  exact ordered.update_other viewed same outside foreign

/-- Bytes are taken from the connection's oldest block. -/
theorem Ordered.write_oldest (ordered : Ordered c history lists view) {next : THEpollServer}
    {block : Nat} {entry : Pending} {left : Option Pending} {bytes rest : List Byte}
    (found : view block = some entry) (ours : entry.context = c)
    (connected : (history.server.contextMgr.contexts c).connected = true)
    (first : history.queue.head? = some block)
    (viewed : next.Viewed lists' (Function.update view block left))
    (same : SameContext c history.server next)
    (outgoing : next.outgoing = history.server.outgoing ++
      [{ context := entry.context, socket := entry.socket, bytes }])
    (split : entry.bytes = bytes ++ rest)
    (left_eq : left = some { entry with bytes := rest } ∨ left = none ∧ rest = []) :
    Ordered c
      { history with
        server := next
        queue := history.queue.filter fun other => decide (next.cache.Used other)
        handed := history.handed ++
          (next.outgoing.drop history.server.outgoing.length).filter (·.context = c) }
      lists' (Function.update view block left) := by
  obtain ⟨later, queue_eq⟩ : ∃ later, history.queue = block :: later := by
    cases queue_eq : history.queue with
    | nil => simp [queue_eq] at first
    | cons head later => exact ⟨later, by simpa [queue_eq] using first⟩
  have nodup := ordered.nodup
  rw [queue_eq, List.nodup_cons] at nodup
  have mine (other : Nat) (member : other ∈ history.queue) := ordered.mine other member
  have logged : (next.outgoing.drop history.server.outgoing.length).filter (·.context = c) =
      [{ context := entry.context, socket := entry.socket, bytes }] := by
    rw [outgoing, List.drop_left]
    simp [ours]
  have balance := ordered.bytes connected
  have remaining_eq : remaining view history.queue = bytes ++ rest ++ remaining view later := by
    rw [queue_eq]
    simp [remaining, found, split]
  have kept_later := filter_used viewed later fun other member => by
    obtain ⟨found', found_eq, _⟩ := mine other (by simp [queue_eq, member])
    rw [Function.update_of_ne (ne_of_mem_of_not_mem member nodup.1), found_eq]
    rfl
  -- the block stays at the front of the queue exactly when something is left of its entry
  have queue_eq' : (history.queue.filter fun other => decide (next.cache.Used other)) =
      if left.isSome then history.queue else later := by
    rw [queue_eq, List.filter_cons]
    simp only [viewed.used block, Function.update_self, kept_later, decide_eq_true_eq]
  have remaining_eq' : remaining (Function.update view block left)
      (if left.isSome then history.queue else later) = rest ++ remaining view later := by
    rw [queue_eq]
    exact remaining_head nodup.1 left_eq
  have subset {other : Nat} (member : other ∈ if left.isSome then history.queue else later) :
      other ∈ history.queue ∧ (other = block → left.isSome = true) := by
    split at member
    · next isSome => exact ⟨member, fun _ => isSome⟩
    · refine ⟨by simp [queue_eq, member], ?_⟩
      rintro rfl
      exact absurd member nodup.1
  have handed_eq : handedBytes
      { history with
        server := next
        queue := if left.isSome then history.queue else later
        handed := history.handed ++
          [{ context := entry.context, socket := entry.socket, bytes }] } =
      history.handedBytes ++ bytes := by
    simp [handedBytes]
  rw [queue_eq', logged]
  refine ⟨viewed, ?_, ?_, ?_, ?_, ?_, ?_⟩
  · intro other member
    obtain ⟨member', present⟩ := subset member
    rw [same.uid, same.socket]
    obtain ⟨found', found_eq, ours'⟩ := mine other member'
    by_cases isBlock : other = block
    · subst isBlock
      obtain rfl := Option.some.inj (found.symm.trans found_eq)
      rcases left_eq with rfl | ⟨rfl, _⟩
      · exact ⟨_, Function.update_self .., ours'⟩
      · simp at present
    · exact ⟨found', by rw [Function.update_of_ne isBlock, found_eq], ours'⟩
  · intro connected' other found' found_eq context_eq uid_eq
    by_cases isBlock : other = block
    · subst isBlock
      rw [Function.update_self] at found_eq
      rw [found_eq]
      simp [queue_eq]
    · rw [Function.update_of_ne isBlock] at found_eq
      have member := ordered.complete connected found_eq context_eq (uid_eq.trans same.uid)
      rw [queue_eq, List.mem_cons] at member
      have member' := member.resolve_left isBlock
      dsimp only
      split
      · simp [queue_eq, member']
      · exact member'
  · dsimp only
    split
    · exact ordered.nodup
    · exact nodup.2
  · intro _
    rw [handed_eq, remaining_eq', ← balance, remaining_eq]
    simp
  · rw [handed_eq, ← balance, remaining_eq]
    simp
  · intro entry' member
    rw [same.socket]
    rcases List.mem_append.mp member with old | new
    · exact ordered.inOrder.socket_eq entry' old
    · obtain ⟨found', found_eq, _, _, socket_eq⟩ := mine block (by simp [queue_eq])
      obtain rfl := Option.some.inj (found.symm.trans found_eq)
      rw [List.mem_singleton.mp new]
      exact socket_eq

/-- `WriteSocket` on a used block, which is the oldest one when the connection's bytes are taken. -/
theorem Ordered.write (ordered : Ordered c history lists view) {next : SendHistory} {block : Nat}
    {sendResult : SendResult} (oldest : Oldest c history (.writeSocket block sendResult))
    (result : history.step c (.writeSocket block sendResult) = some next) :
    ∃ lists' view', Ordered c next lists' view' := by
  obtain ⟨server, returned, rfl⟩ := Option.map_eq_some_iff.mp result
  simp only [THEpollServer.step, Option.ite_none_right_eq_some] at returned
  obtain ⟨⟨used, offered⟩, returned⟩ := returned
  obtain ⟨entry, found⟩ := Option.isSome_iff_exists.mp ((ordered.viewed.used block).mp used)
  obtain ⟨i, server', lists', view', written, viewed, effect⟩ :=
    ordered.viewed.writeSocket found offered
  rw [written] at returned
  obtain rfl : server' = server := Option.some.inj returned
  have mine (member : block ∈ history.queue) : entry.context = c ∧
      entry.uid = (history.server.contextMgr.contexts c).uid := by
    obtain ⟨found', found_eq, context_eq, uid_eq, _⟩ := ordered.mine block member
    obtain rfl := Option.some.inj (found.symm.trans found_eq)
    exact ⟨context_eq, uid_eq⟩
  have unlogged (same : server'.outgoing = history.server.outgoing) :
      (server'.outgoing.drop history.server.outgoing.length).filter (·.context = c) = [] := by
    rw [same, List.drop_length]
    rfl
  refine ⟨lists', view', ?_⟩
  cases effect with
  | discarded gone contexts outgoing =>
      have same : SameContext c history.server server' :=
        ⟨by rw [contexts], by rw [contexts], fun connected => by rwa [contexts] at connected⟩
      by_cases member : block ∈ history.queue
      · -- the connection is closed, so that only its identity matters
        obtain ⟨context_eq, uid_eq⟩ := mine member
        have closed : (server'.contextMgr.contexts c).connected ≠ true := by
          rw [contexts]
          intro connected
          exact gone ⟨context_eq ▸ connected, context_eq ▸ uid_eq⟩
        refine ⟨viewed, ?_, fun connected => absurd connected closed,
          ordered.nodup.sublist List.filter_sublist, fun connected => absurd connected closed, ?_⟩
        · intro other member'
          obtain ⟨queued, isUsed⟩ := List.mem_filter.mp member'
          obtain ⟨found', found_eq, rest⟩ := ordered.mine other queued
          have different : other ≠ block := by
            rintro rfl
            simp [viewed.used] at isUsed
          rw [same.uid, same.socket]
          exact ⟨found', by rw [Function.update_of_ne different, found_eq], rest⟩
        · rw [unlogged outgoing, List.append_nil]
          refine ⟨ordered.inOrder.prefix_payloads, fun taken member' => ?_⟩
          rw [same.socket]
          exact ordered.inOrder.socket_eq taken member'
      · exact ordered.write_other viewed same member (by simp) (unlogged outgoing)
  | unsent connections outgoing =>
      have kept := filter_used viewed history.queue fun other member => by
        obtain ⟨found', found_eq, _⟩ := ordered.mine other member
        rw [found_eq]
        rfl
      rw [kept, unlogged outgoing, List.append_nil]
      exact ordered.same_view viewed (sameContext_of_connections connections)
  | taken serves count result_eq bytes rest split connections outgoing left left_eq =>
      have same := sameContext_of_connections (c := c) connections
      by_cases ours : entry.context = c
      · subst result_eq
        obtain ⟨b, _, _, _, data_eq, context_eq, uid_eq, _⟩ := ordered.viewed.head found
        have connection : history.server.connectionOf (history.server.bufferMgr.buffers b) =
            some c := by
          rcases connectionOf_eq context_eq uid_eq with ⟨connection, _⟩ | ⟨_, gone⟩
          · rw [connection, ours]
          · exact absurd serves gone
        exact ordered.write_oldest found ours (ours ▸ serves.1) (oldest b data_eq connection)
          viewed same outgoing split left_eq
      · have outside : block ∉ history.queue := fun member => ours (mine member).1
        refine ordered.write_other viewed same outside ?_ ?_
        · rintro found' rfl
          rcases left_eq with left_eq | ⟨left_eq, _⟩
          · rw [Option.some.inj left_eq]
            exact ours
          · simp at left_eq
        · rw [outgoing, List.drop_left]
          simp [ours]

/-! ## Runs -/

/-- Every call that meets the condition keeps the record in order. -/
theorem Ordered.step (ordered : Ordered c history lists view) {next : SendHistory} {op : Op}
    (oldest : Oldest c history op) (result : history.step c op = some next) :
    ∃ lists' view', Ordered c next lists' view' := by
  cases op with
  | connect socket uid => exact ⟨_, _, ordered.connect oldest result⟩
  | sendData context data =>
      simp only [SendHistory.step, Option.ite_none_right_eq_some] at result
      exact ordered.send result.2
  | sendDataAndPostClose context data =>
      simp only [SendHistory.step, Option.ite_none_right_eq_some] at result
      exact ordered.send result.2
  | writeSocket block sendResult => exact ordered.write oldest result
  | killSocket context =>
      obtain ⟨server, returned, rfl⟩ := Option.map_eq_some_iff.mp result
      simp only [THEpollServer.step, Option.ite_none_right_eq_some, Option.some.injEq] at returned
      obtain ⟨_, rfl⟩ := returned
      exact ⟨_, _, ordered.same_view
        (ordered.viewed.of_sameBuffers (history.server.sameBuffers_killSocket context))
        (sameContext_of_connections (sameConnections_killSocket _ context).1)⟩
  | closeSocket context =>
      obtain ⟨server, returned, rfl⟩ := Option.map_eq_some_iff.mp result
      simp only [THEpollServer.step, Option.ite_none_right_eq_some, Option.some.injEq] at returned
      obtain ⟨_, rfl⟩ := returned
      exact ⟨_, _, ordered.same_view
        (ordered.viewed.of_sameBuffers (history.server.sameBuffers_closeSocket context))
        (sameContext_of_connections (sameConnections_closeSocket _ context).1)⟩

/-- A server before any call. -/
def start (server : THEpollServer) : SendHistory :=
  { server, payloads := [], queue := [], handed := [] }

theorem startServer_not_used {bufLen connection buffer sendCache : Nat} {one_lt : 1 < bufLen}
    {blocks : Nat → THCacheBlock Nat} {buffers : Nat → THBuffer} {contexts : Nat → THContext}
    {server : THEpollServer}
    (started : startServer bufLen one_lt connection buffer sendCache blocks buffers contexts =
      some server) (block : Nat) : ¬ server.cache.Used block := by
  simp only [startServer] at started
  split at started
  · simp at started
  · obtain rfl := Option.some.inj started
    exact THQCache.new_not_used sendCache blocks block

theorem start_ordered {server : THEpollServer} (conserved : server.Conserved lists)
    (unused : ∀ block, ¬ server.cache.Used block) :
    Ordered c (start server) lists fun _ => none where
  viewed := ⟨conserved, by simpa [start] using unused, by simp, by simp⟩
  mine := by simp [start]
  complete := by simp
  nodup := List.nodup_nil
  bytes _ := rfl
  inOrder := ⟨List.prefix_rfl, by simp [start]⟩

/-- In a run from the start of the server whose calls take a connection's bytes from its oldest block
only, what the socket took is a prefix of the payloads throughout. -/
theorem inOrder_of_oldest {bufLen connection buffer sendCache : Nat} {one_lt : 1 < bufLen}
    {blocks : Nat → THCacheBlock Nat} {buffers : Nat → THBuffer} {contexts : Nat → THContext}
    {server : THEpollServer}
    (started : startServer bufLen one_lt connection buffer sendCache blocks buffers contexts =
      some server) (c : Nat) (ops : List Op)
    (met : AllSteps (step c) (Oldest c) (start server) ops) :
    AllStates (step c) (InOrder c) (start server) ops := by
  obtain ⟨lists, conserved⟩ := startServer_conserved started
  exact allStates_of_allSteps (fun history => ∃ lists view, Ordered c history lists view)
    (fun ⟨_, _, ordered⟩ => ordered.inOrder)
    (fun ⟨_, _, ordered⟩ oldest result => ordered.step oldest result)
    ⟨lists, _, start_ordered conserved (startServer_not_used started)⟩ met

/-- Two payloads are queued and sent one after the other, the first one in two parts. -/
def fullOps : List Op :=
  [.connect 5 77, .sendData 0 [1, 2], .sendData 0 [3], .writeSocket 1 (.sent 1),
    .writeSocket 1 (.sent 1), .writeSocket 0 (.sent 1)]

theorem fullOps_inOrder :
    ∃ server, smallServer = some server ∧ AllStates (step 0) (InOrder 0) (start server) fullOps := by
  have completes : smallServer.isSome = true := by decide +kernel
  have met : ∀ server ∈ smallServer, AllSteps (step 0) (Oldest 0) (start server) fullOps := by
    decide +kernel
  obtain ⟨server, started⟩ := Option.isSome_iff_exists.mp completes
  exact ⟨server, started, inOrder_of_oldest started 0 fullOps (met server started)⟩

/-- After two calls of `SendData`, `send` takes one byte of the first payload and then all of the
second one. -/
def partOps : List Op :=
  [.connect 5 77, .sendData 0 [1, 2], .sendData 0 [3], .writeSocket 1 (.sent 1),
    .writeSocket 0 (.sent 1)]

-- the last two calls are what one pass of `Loop` makes when `send` returns 1 twice
example :
    (smallServer.bind fun server =>
      (run THEpollServer.step server (partOps.take 3)).bind fun server =>
        (server.pass 2 [.sent 1, .sent 1]).map fun state => state.1.1.outgoing) =
      smallServer.bind fun server =>
        (run THEpollServer.step server partOps).map fun server => server.outgoing := by
  decide +kernel

theorem partOps_handed :
    (smallServer.bind fun server => (run (step 0) (start server) partOps).map fun history =>
      (history.handedBytes, history.payloads)) = some ([1, 3], [[1, 2], [3]]) := by
  decide +kernel

/-- The bytes taken, 1 and 3, are no prefix of the payloads 1, 2 and 3. -/
theorem partOps_not_inOrder :
    ¬ ∀ (server : THEpollServer), smallServer = some server → ∀ (c : Nat) (ops : List Op),
      AllStates (step c) (InOrder c) (start server) ops := by
  intro promised
  obtain ⟨server, started, result⟩ := Option.bind_eq_some_iff.mp partOps_handed
  obtain ⟨final, execution, seen⟩ := Option.map_eq_some_iff.mp result
  obtain ⟨handed_eq, payloads_eq⟩ := Prod.mk.inj seen
  have inOrder := (promised server started 0 partOps).of_run execution
  have isPrefix := inOrder.prefix_payloads
  rw [handed_eq, payloads_eq] at isPrefix
  exact absurd isPrefix (by decide)

end SendHistory
end CommonLib.THEpollServer
