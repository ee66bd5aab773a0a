import CommonLib.Hlib.Conservation

/-!
# The queued payloads

A used cache block stands for a payload that is being sent: the connection for which it was queued
and the bytes that remain.  `Viewed` reads this off the buffers, and the calls of the epoll server
act on single entries of the view.
-/

namespace CommonLib.THEpollServer

/-- What remains to be sent of a payload, and for which connection it was queued. -/
structure Pending where
  context : Nat
  uid : Int
  socket : Int
  bytes : List Byte

/-- The used blocks are those with an entry, and each entry describes the block's chain. -/
structure Viewed (server : THEpollServer) (lists : Place → List Nat) (view : Nat → Option Pending) :
    Prop where
  conserved : server.Conserved lists
  used : ∀ block, server.cache.Used block ↔ (view block).isSome
  filled : ∀ {block entry}, view block = some entry → ∀ buf ∈ lists (.chain block),
    (server.bufferMgr.buffers buf).context = some entry.context ∧
      (server.bufferMgr.buffers buf).uid = entry.uid ∧
      (server.bufferMgr.buffers buf).socket = entry.socket
  bytes : ∀ {block entry}, view block = some entry →
    (lists (.chain block)).flatMap (fun buf => (server.bufferMgr.buffers buf).pending) = entry.bytes

/-- Connections are at most closed. -/
structure SameConnections (server next : THEpollServer) : Prop where
  uid : ∀ c, (next.contextMgr.contexts c).uid = (server.contextMgr.contexts c).uid
  socket : ∀ c, (next.contextMgr.contexts c).socket = (server.contextMgr.contexts c).socket
  connected : ∀ c, (next.contextMgr.contexts c).connected = true →
    (server.contextMgr.contexts c).connected = true

variable {server next : THEpollServer} {lists lists' : Place → List Nat}
  {view : Nat → Option Pending}

theorem SameConnections.rfl' (same : next.contextMgr = server.contextMgr) :
    SameConnections server next :=
  ⟨fun _ => by rw [same], fun _ => by rw [same], fun _ connected => by rwa [same] at connected⟩

theorem SameConnections.trans {last : THEpollServer} (first : SameConnections server next)
    (second : SameConnections next last) : SameConnections server last where
  uid c := (second.uid c).trans (first.uid c)
  socket c := (second.socket c).trans (first.socket c)
  connected c connected := first.connected c (second.connected c connected)

theorem sameConnections_killSocket (server : THEpollServer) (c : Nat) :
    SameConnections server (server.killSocket c) ∧
      (server.killSocket c).outgoing = server.outgoing := by
  unfold killSocket
  dsimp only
  split
  · exact ⟨SameConnections.rfl' rfl, rfl⟩
  · refine ⟨⟨fun other => ?_, fun other => ?_, fun other => ?_⟩, rfl⟩ <;>
      by_cases same : other = c <;>
      simp [THContextMgr.putContext, THContextMgr.set, same]

theorem sameConnections_closeSocket (server : THEpollServer) (c : Nat) :
    SameConnections server (server.closeSocket c) ∧
      (server.closeSocket c).outgoing = server.outgoing := by
  unfold closeSocket
  dsimp only
  split
  · exact ⟨SameConnections.rfl' rfl, rfl⟩
  · let marked : THEpollServer :=
      { server with
        contextMgr :=
          server.contextMgr.set c { server.contextMgr.contexts c with postClose := true } }
    obtain ⟨killed, same_outgoing⟩ := sameConnections_killSocket marked c
    refine ⟨SameConnections.trans ⟨fun other => ?_, fun other => ?_, fun other => ?_⟩ killed,
      same_outgoing⟩ <;>
      by_cases same : other = c <;>
      simp [marked, THContextMgr.set, same]

/-- The view only depends on the buffers and the cache. -/
theorem Viewed.of_sameBuffers (viewed : server.Viewed lists view)
    (same : SameBuffers server next) : next.Viewed lists view where
  conserved := same.conserved viewed.conserved
  used block := by rw [same.cache, viewed.used]
  filled found := by
    rw [same.bufferMgr]
    exact viewed.filled found
  bytes found := by
    rw [same.bufferMgr]
    exact viewed.bytes found

/-- The first buffer of a used block. -/
theorem Viewed.head (viewed : server.Viewed lists view) {block : Nat} {entry : Pending}
    (found : view block = some entry) :
    ∃ b rest, lists (.chain block) = b :: rest ∧ server.cache.Used block ∧
      (server.cache.buf block).data = some b ∧
      (server.bufferMgr.buffers b).context = some entry.context ∧
      (server.bufferMgr.buffers b).uid = entry.uid ∧
      (server.bufferMgr.buffers b).socket = entry.socket := by
  have used : server.cache.Used block := (viewed.used block).mpr (by rw [found]; rfl)
  obtain ⟨b, rest, chain_eq, data_eq⟩ := viewed.conserved.first used
  exact ⟨b, rest, chain_eq, used, data_eq, viewed.filled found b (by simp [chain_eq])⟩

/-- One entry changes with the chain of its block; the buffers of all other chains stay. -/
theorem Viewed.update (viewed : server.Viewed lists view) (conserved : next.Conserved lists')
    {block : Nat} {entry : Option Pending}
    (used : ∀ other, next.cache.Used other ↔
      if other = block then entry.isSome = true else server.cache.Used other)
    (lists_eq : ∀ other, other ≠ block → lists' (.chain other) = lists (.chain other))
    (others : ∀ other, other ≠ block → ∀ buf ∈ lists (.chain other),
      ∃ link, next.bufferMgr.buffers buf = { server.bufferMgr.buffers buf with next := link })
    (filled : ∀ found, entry = some found → ∀ buf ∈ lists' (.chain block),
      (next.bufferMgr.buffers buf).context = some found.context ∧
        (next.bufferMgr.buffers buf).uid = found.uid ∧
        (next.bufferMgr.buffers buf).socket = found.socket)
    (bytes : ∀ found, entry = some found → (lists' (.chain block)).flatMap
      (fun buf => (next.bufferMgr.buffers buf).pending) = found.bytes) :
    next.Viewed lists' (Function.update view block entry) := by
  refine ⟨conserved, fun other => ?_, ?_, ?_⟩
  · rw [used]
    by_cases same : other = block
    · subst same
      simp
    · rw [if_neg same, Function.update_of_ne same, viewed.used]
  · intro other found found_eq
    by_cases same : other = block
    · subst same
      rw [Function.update_self] at found_eq
      exact filled found found_eq
    · rw [Function.update_of_ne same] at found_eq
      rw [lists_eq other same]
      intro buf member
      obtain ⟨link, buffer_eq⟩ := others other same buf member
      rw [buffer_eq]
      exact viewed.filled found_eq buf member
  · intro other found found_eq
    by_cases same : other = block
    · subst same
      rw [Function.update_self] at found_eq
      exact bytes found found_eq
    · rw [Function.update_of_ne same] at found_eq
      rw [lists_eq other same, ← viewed.bytes found_eq]
      refine List.flatMap_congr fun buf member => ?_
      obtain ⟨link, buffer_eq⟩ := others other same buf member
      rw [buffer_eq]
      rfl

/-! ## The calls on the view -/

/-- A refused payload leaves the view as it is. -/
theorem Viewed.refused (viewed : server.Viewed lists view) (refused : Refused server next lists) :
    next.Viewed lists view := by
  have untouched {block : Nat} {buf : Nat} (member : buf ∈ lists (.chain block)) :
      next.bufferMgr.buffers buf = server.bufferMgr.buffers buf := by
    refine refused.others buf fun isFree => ?_
    have := viewed.conserved.partition.single member isFree
    simp at this
  refine ⟨refused.conserved, fun block => by rw [refused.cache, viewed.used], ?_, ?_⟩
  · intro block entry found buf member
    rw [untouched member]
    exact viewed.filled found buf member
  · intro block entry found
    rw [← viewed.bytes found]
    exact List.flatMap_congr fun buf member => by rw [untouched member]

/-- A queued payload becomes the entry of a block that had none. -/
theorem Viewed.queued (viewed : server.Viewed lists view) {c block count : Nat} {data : List Byte}
    (queued : Queued server next lists c data block count) :
    view block = none ∧
      next.Viewed (transfer lists .free (.chain block) count) (Function.update view block
        (some
          { context := c
            uid := (server.contextMgr.contexts c).uid
            socket := (server.contextMgr.contexts c).socket
            bytes := data })) := by
  have linked := viewed.conserved.linked
  have unused : ¬ server.cache.Used block := by
    intro used
    have := (linked.fb_unused queued.free).2
    simp [used.2] at this
  have empty : lists (.chain block) = [] := viewed.conserved.unused unused
  have target_eq : transfer lists .free (.chain block) count (.chain block) =
      (lists .free).take count := by
    rw [transfer_target, empty, List.append_nil]
  obtain ⟨value, cache_eq⟩ := queued.cache
  refine ⟨by simpa [viewed.used] using unused, viewed.update queued.conserved ?_ ?_ ?_ ?_ ?_⟩
  · intro other
    rw [cache_eq, linked.add_used queued.free]
    by_cases same : other = block <;> simp [same]
  · intro other same
    exact transfer_other (by simp) (by simpa using same)
  · intro other same buf member
    refine ⟨(server.bufferMgr.buffers buf).next, queued.others buf fun isFree => ?_⟩
    have := viewed.conserved.partition.single member isFree
    simp at this
  · intro found found_eq buf member
    obtain rfl := Option.some.inj found_eq
    rw [target_eq] at member
    have filledFor := queued.filledFor buf member
    exact ⟨filledFor.context_eq, filledFor.uid_eq, filledFor.socket_eq⟩
  · intro found found_eq
    obtain rfl := Option.some.inj found_eq
    rw [target_eq]
    exact queued.bytes

/-- A discarded chain loses its entry. -/
theorem Viewed.discard (viewed : server.Viewed lists view) {block : Nat} {entry : Pending}
    (found : view block = some entry) {b : Nat} (data_eq : (server.cache.buf block).data = some b) :
    ∃ bufferMgr lists',
      server.discard block b =
        some (0, { server with bufferMgr, cache := server.cache.release block }) ∧
      ({ server with bufferMgr, cache := server.cache.release block } : THEpollServer).Viewed lists'
        (Function.update view block none) := by
  have used : server.cache.Used block := (viewed.used block).mpr (by rw [found]; rfl)
  obtain ⟨bufferMgr, discarded, conserved, sameData⟩ := viewed.conserved.discard used data_eq
  refine ⟨bufferMgr, _, discarded, viewed.update conserved ?_ ?_ ?_ ?_ ?_⟩
  · intro other
    rw [THQCache.release_used]
    by_cases same : other = block <;> simp [same]
  · intro other same
    exact transfer_other (by simpa using same) (by simp)
  · intro other _ buf _
    exact sameData.2 buf
  · simp
  · simp

/-- The bytes of an entry start with those of the first buffer of its chain. -/
theorem Viewed.bytes_head (viewed : server.Viewed lists view) {block b : Nat} {rest : List Nat}
    {entry : Pending} (found : view block = some entry) (chain_eq : lists (.chain block) = b :: rest) :
    entry.bytes = (server.bufferMgr.buffers b).pending ++
      rest.flatMap (fun buf => (server.bufferMgr.buffers buf).pending) := by
  rw [← viewed.bytes found, chain_eq, List.flatMap_cons]

/-- A partial send drops bytes from the front of the entry. -/
theorem Viewed.sentPart (viewed : server.Viewed lists view) {block b count : Nat}
    {rest : List Nat} {entry : Pending} (found : view block = some entry)
    (chain_eq : lists (.chain block) = b :: rest)
    (inside : count ≤ (server.bufferMgr.buffers b).size) :
    (server.sentPart b count).Viewed lists (Function.update view block
      (some { entry with bytes := entry.bytes.drop count })) := by
  have used : server.cache.Used block := (viewed.used block).mpr (by rw [found]; rfl)
  have nodup := viewed.conserved.partition.nodup (.chain block)
  rw [chain_eq, List.nodup_cons] at nodup
  have kept {buf : Nat} (different : buf ≠ b) :
      (server.sentPart b count).bufferMgr.buffers buf = server.bufferMgr.buffers buf := by
    simp [THEpollServer.sentPart, different]
  refine viewed.update (viewed.conserved.sentPart b count) ?_ (fun _ _ => rfl) ?_ ?_ ?_
  · intro other
    by_cases same : other = block
    · subst same
      rw [if_pos rfl]
      exact iff_of_true used rfl
    · rw [if_neg same]
      rfl
  · intro other same buf member
    refine ⟨(server.bufferMgr.buffers buf).next, kept fun isHead => same ?_⟩
    subst isHead
    simpa using viewed.conserved.partition.single member
      (show buf ∈ lists (.chain block) by simp [chain_eq])
  · intro found' found_eq buf member
    obtain rfl := Option.some.inj found_eq
    by_cases same : buf = b
    · subst same
      simpa [THEpollServer.sentPart] using viewed.filled found buf member
    · rw [kept same]
      exact viewed.filled found buf member
  · intro found' found_eq
    obtain rfl := Option.some.inj found_eq
    have rest_eq : rest.flatMap
        (fun buf => ((server.sentPart b count).bufferMgr.buffers buf).pending) =
          rest.flatMap (fun buf => (server.bufferMgr.buffers buf).pending) :=
      List.flatMap_congr fun buf member => by
        rw [kept fun same => nodup.1 (same ▸ member)]
    rw [chain_eq, List.flatMap_cons, rest_eq, viewed.bytes_head found chain_eq,
      List.drop_append_of_le_length (by simpa using inside)]
    simp only [THEpollServer.sentPart, Function.update_self, THBuffer.pending_drop]

/-- The entry of a block once its first buffer is sent. -/
def afterFirst (entry : Pending) (count : Nat) (rest : List Nat) : Option Pending :=
  match rest with
  | [] => none
  | _ :: _ => some { entry with bytes := entry.bytes.drop count }

/-- Giving the first buffer back drops its bytes from the entry, or the entry with the block. -/
theorem Viewed.giveFirst (viewed : server.Viewed lists view) {block b : Nat} {rest : List Nat}
    {entry : Pending} (found : view block = some entry)
    (chain_eq : lists (.chain block) = b :: rest) :
    (server.giveFirst block b).Viewed (transfer lists (.chain block) .free 1)
      (Function.update view block
        (afterFirst entry (server.bufferMgr.buffers b).size rest)) := by
  have used : server.cache.Used block := (viewed.used block).mpr (by rw [found]; rfl)
  have chain := viewed.conserved.chain used
  rw [chain_eq] at chain
  have link : (server.bufferMgr.buffers b).next = rest.head? := chain.2.head?_eq
  have nodup := viewed.conserved.partition.nodup (.chain block)
  rw [chain_eq, List.nodup_cons] at nodup
  have source_eq : transfer lists (.chain block) .free 1 (.chain block) = rest := by
    rw [transfer_source (by simp), chain_eq, List.drop_one, List.tail_cons]
  have kept {buf : Nat} (different : buf ≠ b) :
      (server.giveFirst block b).bufferMgr.buffers buf = server.bufferMgr.buffers buf :=
    THBufferMgr.setNext_buffers_of_ne different _
  refine viewed.update (viewed.conserved.giveFirst used chain_eq) ?_ ?_ ?_ ?_ ?_
  · intro other
    simp only [THEpollServer.giveFirst, link]
    cases rest with
    | nil =>
        simp only [List.head?_nil, THQCache.release_used, afterFirst]
        by_cases same : other = block <;> simp [same]
    | cons first rest =>
        simp only [List.head?_cons, THQCache.setData_used, afterFirst, Option.isSome_some]
        by_cases same : other = block
        · subst same
          simpa using used
        · rw [if_neg same]
  · intro other same
    exact transfer_other (by simpa using same) (by simp)
  · intro other same buf member
    refine ⟨(server.bufferMgr.buffers buf).next, kept fun isHead => same ?_⟩
    subst isHead
    simpa using viewed.conserved.partition.single member
      (show buf ∈ lists (.chain block) by simp [chain_eq])
  · intro found' found_eq buf member
    rw [source_eq] at member
    rw [kept fun same => nodup.1 (same ▸ member)]
    have filled := viewed.filled found buf (by simp [chain_eq, member])
    cases rest with
    | nil => simp at member
    | cons first rest =>
        obtain rfl := Option.some.inj found_eq
        exact filled
  · intro found' found_eq
    rw [source_eq]
    have rest_eq : rest.flatMap
        (fun buf => ((server.giveFirst block b).bufferMgr.buffers buf).pending) =
          rest.flatMap (fun buf => (server.bufferMgr.buffers buf).pending) :=
      List.flatMap_congr fun buf member => by
        rw [kept fun same => nodup.1 (same ▸ member)]
    rw [rest_eq]
    cases rest with
    | nil => simp [afterFirst] at found_eq
    | cons first rest =>
        obtain rfl := Option.some.inj found_eq
        rw [viewed.bytes_head found chain_eq, List.drop_left' (THBuffer.pending_length _)]

theorem Viewed.clearPostClose (viewed : server.Viewed lists view) (b : Nat) :
    (server.clearPostClose b).Viewed lists view := by
  have same_data (buf : Nat) : ∃ postClose, (server.clearPostClose b).bufferMgr.buffers buf =
      { server.bufferMgr.buffers buf with postClose } := by
    by_cases same : buf = b
    · subst same
      exact ⟨false, by simp [THEpollServer.clearPostClose]⟩
    · exact ⟨(server.bufferMgr.buffers buf).postClose, by
        simp [THEpollServer.clearPostClose, same]⟩
  refine ⟨viewed.conserved.clearPostClose b, viewed.used, ?_, ?_⟩
  · intro block entry found buf member
    obtain ⟨postClose, buffer_eq⟩ := same_data buf
    rw [buffer_eq]
    exact viewed.filled found buf member
  · intro block entry found
    rw [← viewed.bytes found]
    refine List.flatMap_congr fun buf _ => ?_
    obtain ⟨postClose, buffer_eq⟩ := same_data buf
    rw [buffer_eq]
    rfl

/-- A whole send acts on the view like giving the first buffer back. -/
theorem Viewed.sentWhole (viewed : server.Viewed lists view) {block b : Nat} {rest : List Nat}
    {entry : Pending} (found : view block = some entry)
    (chain_eq : lists (.chain block) = b :: rest) (c : Nat) :
    (server.sentWhole block b c).Viewed (transfer lists (.chain block) .free 1)
        (Function.update view block
          (afterFirst entry (server.bufferMgr.buffers b).size rest)) ∧
      SameConnections server (server.sentWhole block b c) ∧
      (server.sentWhole block b c).outgoing = server.outgoing := by
  unfold THEpollServer.sentWhole
  split
  · have same := server.sameBuffers_closeSocket c
    obtain ⟨closed, closed_outgoing⟩ := sameConnections_closeSocket server c
    have given := (viewed.of_sameBuffers same).giveFirst found chain_eq
    rw [same.bufferMgr] at given
    have given_same : SameConnections server
        (((server.closeSocket c).giveFirst block b).clearPostClose b) :=
      ⟨closed.uid, closed.socket, closed.connected⟩
    obtain ⟨killed, killed_outgoing⟩ := sameConnections_killSocket
      (((server.closeSocket c).giveFirst block b).clearPostClose b) c
    exact ⟨(given.clearPostClose b).of_sameBuffers (sameBuffers_killSocket _ c),
      given_same.trans killed, killed_outgoing.trans closed_outgoing⟩
  · exact ⟨viewed.giveFirst found chain_eq, SameConnections.rfl' rfl, rfl⟩

/-! ## `WriteSocket` on the view -/

/-- The context still serves the connection for which the payload was queued. -/
def Serves (server : THEpollServer) (entry : Pending) : Prop :=
  (server.contextMgr.contexts entry.context).connected = true ∧
    entry.uid = (server.contextMgr.contexts entry.context).uid

theorem connectionOf_eq {buf : THBuffer} {entry : Pending}
    (context_eq : buf.context = some entry.context) (uid_eq : buf.uid = entry.uid) :
    server.connectionOf buf = some entry.context ∧ server.Serves entry ∨
      server.connectionOf buf = none ∧ ¬ server.Serves entry := by
  by_cases serves : server.Serves entry
  · refine Or.inl ⟨?_, serves⟩
    simp [connectionOf, context_eq, uid_eq, serves.1, ← serves.2]
  · refine Or.inr ⟨?_, serves⟩
    simpa [connectionOf, context_eq, uid_eq, Serves] using serves

/-- What one call of `WriteSocket` does to the entry of its block. -/
inductive Written (server next : THEpollServer) (view : Nat → Option Pending) (block : Nat)
    (entry : Pending) (result : SendResult) : (Nat → Option Pending) → Prop
  /-- The connection is gone: the chain is discarded. -/
  | discarded (gone : ¬ server.Serves entry) (contexts : next.contextMgr = server.contextMgr)
      (outgoing : next.outgoing = server.outgoing) :
      Written server next view block entry result (Function.update view block none)
  /-- Nothing was sent. -/
  | unsent (connections : SameConnections server next)
      (outgoing : next.outgoing = server.outgoing) :
      Written server next view block entry result view
  /-- The socket took the first bytes of the entry. -/
  | taken (serves : server.Serves entry) (count : Nat) (result_eq : result = .sent (count + 1))
      (bytes rest : List Byte) (split : entry.bytes = bytes ++ rest)
      (connections : SameConnections server next)
      (outgoing : next.outgoing = server.outgoing ++
        [{ context := entry.context, socket := entry.socket, bytes }])
      (left : Option Pending)
      (left_eq : left = some { entry with bytes := rest } ∨ left = none ∧ rest = []) :
      Written server next view block entry result (Function.update view block left)

/-- `WriteSocket` on a used block returns, and acts on the entry of that block only. -/
theorem Viewed.writeSocket (viewed : server.Viewed lists view) {block : Nat} {entry : Pending}
    (found : view block = some entry) {result : SendResult}
    (offered : server.Offered block result) :
    ∃ i next lists' view', server.writeSocket block result = some (i, next) ∧
      next.Viewed lists' view' ∧ Written server next view block entry result view' := by
  obtain ⟨b, rest, chain_eq, used, data_eq, context_eq, uid_eq, socket_eq⟩ := viewed.head found
  have killed := viewed.of_sameBuffers (server.sameBuffers_killSocket entry.context)
  obtain ⟨closes, closed_outgoing⟩ := sameConnections_killSocket server entry.context
  simp only [THEpollServer.writeSocket, data_eq]
  rcases connectionOf_eq context_eq uid_eq with ⟨connection, serves⟩ | ⟨connection, gone⟩
  · rw [connection]
    cases result with
    | sent count =>
        cases count with
        | zero => exact ⟨_, _, _, _, rfl, killed, .unsent closes closed_outgoing⟩
        | succ count =>
            let buf := server.bufferMgr.buffers b
            let outgoing := server.outgoing ++
              [{ context := entry.context, socket := buf.socket,
                 bytes := buf.pending.take (count + 1) }]
            have inside : count + 1 ≤ buf.size := offered b data_eq
            let sending : THEpollServer := { server with outgoing }
            have logged : sending.Viewed lists view :=
              ⟨viewed.conserved.congr rfl rfl rfl (fun _ => rfl) rfl rfl fun _ => rfl, viewed.used,
                viewed.filled, viewed.bytes⟩
            have outgoing_eq : outgoing = server.outgoing ++
                [{ context := entry.context, socket := entry.socket,
                   bytes := entry.bytes.take (count + 1) }] := by
              rw [viewed.bytes_head found chain_eq,
                List.take_append_of_le_length (by simpa using inside)]
              simp only [outgoing, buf, socket_eq]
            have split := (List.take_append_drop (count + 1) entry.bytes).symm
            dsimp only
            by_cases whole : count + 1 = buf.size
            · rw [if_pos whole]
              obtain ⟨viewed', connections, same_outgoing⟩ :=
                logged.sentWhole found chain_eq entry.context
              refine ⟨_, _, _, _, rfl, viewed', .taken serves count rfl _ _ split
                ⟨connections.uid, connections.socket, connections.connected⟩
                (same_outgoing.trans outgoing_eq) _ ?_⟩
              have size_eq : (server.bufferMgr.buffers b).size = count + 1 := whole.symm
              change afterFirst entry (server.bufferMgr.buffers b).size rest = _ ∨ _
              rw [size_eq]
              cases rest with
              | nil =>
                  refine Or.inr ⟨rfl, ?_⟩
                  rw [viewed.bytes_head found chain_eq, List.flatMap_nil, List.append_nil,
                    List.drop_of_length_le
                      (Nat.le_of_eq ((THBuffer.pending_length _).trans size_eq))]
              | cons first rest => exact Or.inl rfl
            · rw [if_neg whole]
              have part := logged.sentPart found chain_eq inside
              have same : SameConnections server (sending.sentPart b (count + 1)) :=
                SameConnections.rfl' rfl
              exact ⟨_, sending.sentPart b (count + 1), _, _, rfl, part,
                .taken serves count rfl _ _ split same outgoing_eq _ (Or.inl rfl)⟩
    | again => exact ⟨_, _, _, _, rfl, viewed, .unsent (SameConnections.rfl' rfl) rfl⟩
    | failed => exact ⟨_, _, _, _, rfl, killed, .unsent closes closed_outgoing⟩
  · rw [connection]
    obtain ⟨bufferMgr, lists', discarded, viewed'⟩ := viewed.discard found data_eq
    exact ⟨_, _, _, _, discarded, viewed', .discarded gone rfl rfl⟩

end CommonLib.THEpollServer
