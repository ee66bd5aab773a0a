import CommonLib.Proj.Lifecycle

/-!
# Chunks and the ring of a connection

A connection receives its stream in chunks.  While every chunk finds room in the ring, the requests
dispatched do not depend on how the stream was cut.  `RecvCompletedEvent` ignores that
`WriteCirBuffer` refused a chunk, so nothing of the kind holds in general, and a head which
announces a packet larger than the ring is waited for without end.
-/

namespace CommonLib.TeWiFiClient

open MsgHead2 Execution

variable (client : TeWiFiClient)

/-! ## Connections at rest -/

/-- A connection with an empty ring which waits for a head. -/
structure Fresh (session : Session) : Prop where
  empty : session.ring.Holds []
  size_eq : session.ring.bufSize = H_BUFFER_LEN
  live : Live session.context
  waiting : session.status = .ssWaitHead

theorem Fresh.parsing {session : Session} (fresh : Fresh session) : Parsing session [] :=
  ⟨fresh.empty, fresh.size_eq, fresh.live, Or.inl fresh.waiting⟩

/-- Chunks received one after the other, each by `RecvCompletedEvent`. -/
theorem recv_chunks {session : Session} {queue : List Byte} (parsing : Parsing session queue)
    (chunks : List (List Byte)) :
    ∃ next, run client.toTHSockServer.recvCompletedEvent session chunks = some next ∧
      client.Delivers session next (client.framing.receiveAll H_BUFFER_LEN queue chunks).1
        (client.framing.receiveAll H_BUFFER_LEN queue chunks).2 := by
  induction chunks generalizing session queue with
  | nil => exact ⟨session, rfl, parsing, (List.append_nil _).symm, (Bool.and_true _).symm⟩
  | cons chunk chunks induction =>
      obtain ⟨middle, received, delivers⟩ := client.recvCompletedEvent_spec parsing chunk
      obtain ⟨last, execution, delivers'⟩ := induction delivers.parsing
      exact ⟨last, run_cons_eq_some.mpr ⟨middle, received, execution⟩, delivers.trans delivers'⟩

/-- The ring has room for the chunk. -/
def HasRoom (session : Session) (chunk : List Byte) : Prop :=
  chunk.length ≤ session.ring.bufferCount

theorem hasRoom_iff {session : Session} {queue : List Byte} (parsing : Parsing session queue)
    (chunk : List Byte) : HasRoom session chunk ↔ queue.length + chunk.length ≤ H_BUFFER_LEN := by
  have room := parsing.holds.room
  rw [HasRoom, ← parsing.size_eq]
  omega

theorem fits_of_hasRoom {session : Session} {queue : List Byte} (parsing : Parsing session queue)
    {chunks : List (List Byte)}
    (room : AllSteps client.toTHSockServer.recvCompletedEvent HasRoom session chunks) :
    client.framing.Fits H_BUFFER_LEN queue chunks := by
  induction chunks generalizing session queue with
  | nil => trivial
  | cons chunk chunks induction =>
      obtain ⟨next, received, delivers⟩ := client.recvCompletedEvent_spec parsing chunk
      obtain ⟨here, later⟩ := room next received
      exact ⟨(hasRoom_iff parsing chunk).mp here, induction delivers.parsing later⟩

/-! ## A stream which is cut badly -/

/-- A server which answers every command. -/
def echoClient : TeWiFiClient where
  responders _ := some fun _ =>
    { response :=
        { responseCode := 200, responseStream := [], abortGZIP := false,
          autoAcknowledge := false }
      logined := true
      closes := false
      throws := false }
  serverCount := 1
  gzDecompress _ := ([], false)
  gzCompress _ := ([], false)

/-- A context whose arrays are all zero. -/
def zeroContext : Session := newSession (fun _ => 0) (fun _ => 0) (fun _ => 0) (fun _ => 0)

/-- Its first connection. -/
def zeroSession : Session := echoClient.connect zeroContext 0

theorem zeroSession_fresh : Fresh zeroSession := by
  have resting := echoClient.newSession_resting (fun _ => 0) (fun _ => 0) (fun _ => 0) (fun _ => 0)
  obtain ⟨⟨empty, size_eq, live, _⟩, _⟩ := echoClient.connect_spec resting.parsing 0
  exact ⟨empty, size_eq, live, rfl⟩

/-- A frame of command 1 without a body. -/
def emptyFrame : List Byte := [0x73, 0x77, 2, 0, 0, 1, 0, 0, 0, 0, 0, 0, 0, 0, 0, 0]

/-- A chunk as large as the ring, which starts with a frame. -/
def largeChunk : List Byte := emptyFrame ++ List.replicate 4080 0

theorem largeChunk_length : largeChunk.length = H_BUFFER_LEN := by
  rw [largeChunk, List.length_append, List.length_replicate]
  rfl

/-- One stray byte before the frame is enough for the large chunk to be refused. -/
def strayChunks : List (List Byte) := [[0x73], largeChunk]

/-- The request in `emptyFrame`. -/
def emptyPacket : Packet := { head := emptyFrame, body := [], content := [] }

theorem emptyFrame_parse : client.framing.parse emptyFrame = ([emptyPacket], []) := by
  have long : ¬ emptyFrame.length < H_HEAD_LEN2 := by decide
  have accepted : acceptHead (memory emptyFrame) = some 16 := by decide
  have complete : ¬ emptyFrame.length < 16 := by decide
  have bodyless : len (memory ((emptyFrame.take 16).take H_HEAD_LEN2)) = 0 := by decide
  have moves : client.framing.advance emptyFrame = some ([emptyPacket], []) := by
    simp only [client.advance_eq, if_neg long, accepted, if_neg complete, deliver, if_pos bodyless]
    rfl
  rw [Framing.parse_of_move moves, Framing.parse_of_stuck client.advance_nil]
  rfl

theorem strayFrame_parse : client.framing.parse (0x73 :: emptyFrame) = ([emptyPacket], []) := by
  have long : ¬ (0x73 :: emptyFrame).length < H_HEAD_LEN2 := by decide
  have refused : acceptHead (memory (0x73 :: emptyFrame)) = none := by decide
  have moves : client.framing.advance (0x73 :: emptyFrame) = some ([], emptyFrame) := by
    simp only [client.advance_eq, if_neg long, refused]
    rfl
  rw [Framing.parse_of_move moves, client.emptyFrame_parse]
  rfl

theorem strayChunks_flatten : strayChunks.flatten = 0x73 :: largeChunk := by
  simp only [strayChunks, List.flatten_cons, List.flatten_nil, List.append_nil, List.cons_append,
    List.nil_append]

theorem largeChunk_parse :
    ∃ later, (client.framing.parse (0x73 :: largeChunk)).1 = emptyPacket :: later := by
  have whole := client.framing.parse_append (0x73 :: emptyFrame)
    (List.replicate 4080 0)
  rw [client.strayFrame_parse, List.cons_append] at whole
  rw [largeChunk, whole]
  exact ⟨_, List.singleton_append⟩

/-- The large chunk is lost when it arrives after a byte, and only then. -/
theorem strayChunks_receive :
    client.framing.receiveAll H_BUFFER_LEN [] strayChunks = ([], [0x73]) ∧
      ∃ later, (client.framing.receiveAll H_BUFFER_LEN []
        (strayChunks.flatten.map ([·]))).1 = emptyPacket :: later := by
  have stuck : client.framing.advance [0x73] = none := by
    rw [client.advance_eq]
    rfl
  constructor
  · have refused : ¬ [(0x73 : Byte)].length + largeChunk.length ≤ H_BUFFER_LEN := by
      rw [largeChunk_length, List.length_singleton]
      omega
    have first : ([] : List Byte).length + [(0x73 : Byte)].length ≤ H_BUFFER_LEN := by decide
    have receive_first : client.framing.receive H_BUFFER_LEN [] [0x73] = ([], [0x73]) := by
      rw [client.framing.receive_of_fits first, List.nil_append, Framing.parse_of_stuck stuck]
    have receive_second : client.framing.receive H_BUFFER_LEN [0x73] largeChunk = ([], [0x73]) := by
      rw [Framing.receive, if_neg refused, Framing.parse_of_stuck stuck]
    simp only [strayChunks, Framing.receiveAll, receive_first, receive_second, List.append_nil]
  · -- cut after the frame, the same bytes fit
    have flatten_eq : strayChunks.flatten =
        [0x73 :: emptyFrame, List.replicate 4080 0].flatten := by
      simp only [strayChunks_flatten, largeChunk, List.flatten_cons, List.flatten_nil,
        List.append_nil, List.cons_append]
    have fits : client.framing.Fits H_BUFFER_LEN []
        [0x73 :: emptyFrame, List.replicate 4080 0] := by
      have first : ([] : List Byte).length + (0x73 :: emptyFrame).length ≤ H_BUFFER_LEN := by
        decide
      refine ⟨first, ?_, trivial⟩
      rw [client.framing.receive_of_fits first, List.nil_append, client.strayFrame_parse,
        List.length_replicate]
      decide
    rw [flatten_eq, ← Framing.receiveAll_eq_bytewise client.advance_nil fits,
      Framing.receiveAll_of_fits client.advance_nil fits, ← flatten_eq,
      strayChunks_flatten, List.nil_append]
    exact client.largeChunk_parse

/-! ## Independence of chunking -/

/-- While every chunk finds room, the stream dispatches what it dispatches byte by byte. -/
theorem dispatched_eq_bytewise {session : Session} (fresh : Fresh session)
    (chunks : List (List Byte))
    (room : AllSteps client.toTHSockServer.recvCompletedEvent HasRoom session chunks) :
    ∃ chunked bytewise,
      run client.toTHSockServer.recvCompletedEvent session chunks = some chunked ∧
      run client.toTHSockServer.recvCompletedEvent session (chunks.flatten.map ([·])) =
        some bytewise ∧
      chunked.dispatched = bytewise.dispatched := by
  have fits := client.fits_of_hasRoom fresh.parsing room
  obtain ⟨chunked, execution, delivers⟩ := client.recv_chunks fresh.parsing chunks
  obtain ⟨bytewise, execution', delivers'⟩ :=
    client.recv_chunks fresh.parsing (chunks.flatten.map ([·]))
  refine ⟨chunked, bytewise, execution, execution', ?_⟩
  rw [delivers.dispatched, delivers'.dispatched,
    Framing.receiveAll_eq_bytewise client.advance_nil fits]

theorem emptyFrame_eq_bytewise :
    ∃ chunked bytewise,
      run echoClient.toTHSockServer.recvCompletedEvent zeroSession [emptyFrame] = some chunked ∧
      run echoClient.toTHSockServer.recvCompletedEvent zeroSession
        ([emptyFrame].flatten.map ([·])) = some bytewise ∧
      chunked.dispatched = bytewise.dispatched :=
  echoClient.dispatched_eq_bytewise zeroSession_fresh [emptyFrame] fun _ _ =>
    ⟨(hasRoom_iff zeroSession_fresh.parsing emptyFrame).mpr (by decide), trivial⟩

/-- On `strayChunks` nothing is dispatched, byte by byte a request is. -/
theorem strayChunks_lost :
    Fresh zeroSession ∧ (∀ chunk ∈ strayChunks, chunk.length ≤ H_BUFFER_LEN) ∧
      ¬ ∃ chunked bytewise,
        run echoClient.toTHSockServer.recvCompletedEvent zeroSession strayChunks = some chunked ∧
        run echoClient.toTHSockServer.recvCompletedEvent zeroSession
          (strayChunks.flatten.map ([·])) = some bytewise ∧
        chunked.dispatched = bytewise.dispatched := by
  refine ⟨zeroSession_fresh, ?_, ?_⟩
  · intro chunk mem
    simp only [strayChunks, List.mem_cons, List.not_mem_nil, or_false] at mem
    rcases mem with rfl | rfl
    · decide
    · exact Nat.le_of_eq largeChunk_length
  · rintro ⟨chunked, bytewise, execution, execution', same⟩
    obtain ⟨chunked', found, delivers⟩ :=
      echoClient.recv_chunks zeroSession_fresh.parsing strayChunks
    obtain ⟨bytewise', found', delivers'⟩ :=
      echoClient.recv_chunks zeroSession_fresh.parsing (strayChunks.flatten.map ([·]))
    obtain rfl : chunked' = chunked := Option.some.inj (found.symm.trans execution)
    obtain rfl : bytewise' = bytewise := Option.some.inj (found'.symm.trans execution')
    obtain ⟨lost, later, dispatched⟩ := echoClient.strayChunks_receive
    rw [delivers.dispatched, delivers'.dispatched, lost, dispatched] at same
    simp at same

/-! ## Packets larger than the ring -/

/-- After these chunks, all accepted by the ring, some round of the loop has left `ssWaitForm`. -/
def Leaves : Session → List (List Byte) → Prop
  | _, [] => False
  | session, chunk :: chunks =>
      (session.ring.writeCirBuffer chunk).1 = true ∧
        ((∃ round, Reachable (fun state (_ : Unit) => client.toTHSockServer.recvStep state)
            (THSockServer.recvWrite session chunk) round ∧ round.status ≠ .ssWaitForm) ∨
          ∃ next, client.toTHSockServer.recvCompletedEvent session chunk = some next ∧
            Leaves next chunks)

/-- A chunk which the ring accepts fits behind the bytes waiting there. -/
theorem fits_of_accepted {session : Session} {queue : List Byte} (parsing : Parsing session queue)
    {chunk : List Byte} (accepted : (session.ring.writeCirBuffer chunk).1 = true) :
    queue.length + chunk.length ≤ H_BUFFER_LEN := by
  by_contra full
  have refused := parsing.holds.writeCirBuffer_refused chunk (by rw [parsing.size_eq]; omega)
  simp [refused] at accepted

/-- A packet larger than the ring is never complete. -/
theorem not_leaves {session : Session} {queue : List Byte} (parsing : Parsing session queue)
    (waiting : session.status = .ssWaitForm)
    (large : H_BUFFER_LEN < session.context.request.packetLength) (chunks : List (List Byte)) :
    ¬ client.Leaves session chunks := by
  induction chunks generalizing session queue with
  | nil => exact id
  | cons chunk chunks induction =>
      rintro ⟨accepted, leaves⟩
      have fits := fits_of_accepted parsing accepted
      have written := recvWrite_parsing parsing chunk
      rw [if_pos fits] at written
      have round := client.recvStep_waitForm written waiting
      have short : (queue ++ chunk).length < session.context.request.packetLength := by
        rw [List.length_append]
        omega
      have stops : client.toTHSockServer.recvStep (THSockServer.recvWrite session chunk) = none := by
        rw [if_pos (show (queue ++ chunk).length <
          (THSockServer.recvWrite session chunk).context.request.packetLength from short)] at round
        exact round.1
      rcases leaves with ⟨round, ⟨ops, execution⟩, left⟩ | ⟨next, received, leaves⟩
      · cases ops with
        | nil =>
            obtain rfl : THSockServer.recvWrite session chunk = round := by
              simpa using execution
            exact left waiting
        | cons op ops => simp [run, stops] at execution
      · obtain rfl : THSockServer.recvWrite session chunk = next := by
          simpa [THSockServer.recvCompletedEvent, THSockServer.recvLoop, stops] using received
        exact induction written waiting large leaves

/-- Zeros up to the length of a packet that fits in the ring complete it. -/
theorem leaves_of_fits {session : Session} {queue : List Byte} (parsing : Parsing session queue)
    (waiting : session.status = .ssWaitForm)
    (small : session.context.request.packetLength ≤ H_BUFFER_LEN) :
    client.Leaves session
      [List.replicate (session.context.request.packetLength - queue.length) 0] := by
  let chunk : List Byte :=
    List.replicate (session.context.request.packetLength - queue.length) 0
  have length_le := parsing.holds.length_le
  rw [parsing.size_eq] at length_le
  have fits : queue.length + chunk.length ≤ H_BUFFER_LEN := by
    rw [List.length_replicate]
    omega
  have written := recvWrite_parsing parsing chunk
  rw [if_pos fits] at written
  have round := client.recvStep_waitForm written waiting
  have complete : ¬ (queue ++ chunk).length <
      (THSockServer.recvWrite session chunk).context.request.packetLength := by
    show ¬ (queue ++ chunk).length < session.context.request.packetLength
    rw [List.length_append, List.length_replicate]
    omega
  rw [if_neg complete] at round
  obtain ⟨next, _, _, steps, _, left, _⟩ := round
  refine ⟨(parsing.holds.writeCirBuffer (by rw [parsing.size_eq]; exact fits)).1,
    Or.inl ⟨next, ⟨[()], by simpa [run] using steps⟩, ?_⟩⟩
  rw [left]
  decide

theorem Parsing.packetLength_eq {session : Session} {queue : List Byte}
    (parsing : Parsing session queue) (waiting : session.status = .ssWaitForm) :
    session.context.request.packetLength = len session.context.request.head + H_HEAD_LEN2 := by
  rcases parsing.status with other | ⟨_, _, _, accepted, _⟩
  · simp [waiting] at other
  · simp only [acceptHead, Option.ite_none_right_eq_some, Option.some.injEq] at accepted
    exact accepted.2.symm

/-- In every reachable state that waits for a packet, some accepted continuation leads out exactly
when the announced body leaves room for the head in the ring. -/
theorem leaves_iff_len_le {head body content ring : Nat → Byte} {session : Session}
    (reach : Reachable client.step (newSession head body content ring) session)
    (waiting : session.status = .ssWaitForm) :
    ((∃ chunks, client.Leaves session chunks) ∧
      session.context.request.packetLength ≤ session.ring.bufSize) ↔
        len session.context.request.head ≤ H_BUFFER_LEN - H_HEAD_LEN2 := by
  obtain ⟨queue, parsing, _⟩ := client.resting_of_reachable reach
  have length_eq := parsing.packetLength_eq waiting
  have ring_eq : H_BUFFER_LEN = 4096 := rfl
  have head_eq : H_HEAD_LEN2 = 16 := rfl
  constructor
  · rintro ⟨⟨chunks, leaves⟩, _⟩
    by_contra large
    exact client.not_leaves parsing waiting (by omega) chunks leaves
  · intro small
    exact ⟨⟨_, client.leaves_of_fits parsing waiting (by omega)⟩,
      by rw [parsing.size_eq]; omega⟩

/-- A head which announces a body of `bodyLength` bytes arrives on the first connection of a zero
context. -/
def headEvents (bodyLength : Nat) : List Event :=
  [.connect 0,
    .recv [0x73, 0x77, 2, 0, 0, 1, UInt8.ofNat (bodyLength / 256), UInt8.ofNat bodyLength,
      0, 0, 0, 0, 0, 0, 0, 0]]

theorem headEvents_status :
    (run echoClient.step zeroContext (headEvents 4080)).map
        (fun session => (session.status, len session.context.request.head)) =
      some (.ssWaitForm, 4080) ∧
    (run echoClient.step zeroContext (headEvents 4096)).map
        (fun session => (session.status, len session.context.request.head)) =
      some (.ssWaitForm, 4096) := by
  decide +kernel

/-- The largest body that fits behind its head leads out. -/
theorem headEvents_leave :
    ∃ session, run echoClient.step zeroContext (headEvents 4080) = some session ∧
      (∃ chunks, echoClient.Leaves session chunks) ∧
      session.context.request.packetLength ≤ session.ring.bufSize := by
  obtain ⟨session, execution, seen⟩ := Option.map_eq_some_iff.mp headEvents_status.1
  obtain ⟨waiting, len_eq⟩ := Prod.mk.inj seen
  refine ⟨session, execution, (echoClient.leaves_iff_len_le ⟨_, execution⟩ waiting).mpr ?_⟩
  rw [len_eq]
  decide

/-- A body of the maximal length 4096 is waited for without end. -/
theorem headEvents_stay :
    ¬ ∀ (session : Session), Reachable echoClient.step zeroContext session →
      session.status = .ssWaitForm →
        (∃ chunks, echoClient.Leaves session chunks) ∧
          session.context.request.packetLength ≤ session.ring.bufSize := by
  intro promised
  obtain ⟨session, execution, seen⟩ := Option.map_eq_some_iff.mp headEvents_status.2
  obtain ⟨waiting, len_eq⟩ := Prod.mk.inj seen
  obtain ⟨⟨chunks, leaves⟩, _⟩ := promised session ⟨_, execution⟩ waiting
  obtain ⟨queue, parsing, _⟩ := echoClient.resting_of_reachable ⟨_, execution⟩
  refine echoClient.not_leaves parsing waiting ?_ chunks leaves
  rw [parsing.packetLength_eq waiting, len_eq]
  decide

end CommonLib.TeWiFiClient
