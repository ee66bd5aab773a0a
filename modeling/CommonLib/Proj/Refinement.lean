import CommonLib.Library.Framing
import CommonLib.Proj.EWiFiClient

/-!
# The parser of `RecvCompletedEvent` refines a framing

Between two rounds the parser state is determined by the bytes in the ring: in `ssWaitForm` the
cached head is the one at the front of the ring.  Under this invariant a round either only notes an
accepted head or makes exactly one move of the framing `TeWiFiClient.framing`.
-/

namespace CommonLib

namespace MsgHead2

theorem word_congr {head head' : Nat → Byte} {offset : Nat}
    (agree : ∀ index < H_HEAD_LEN2, head index = head' index) (inside : offset + 1 < H_HEAD_LEN2) :
    word head offset = word head' offset := by
  rw [word, word, agree offset (by omega), agree (offset + 1) inside]

end MsgHead2

namespace TeWiFiClient

open MsgHead2

/-- The packet length which `OnCheckPacketHead` derives from an acceptable head. -/
def acceptHead (head : Nat → Byte) : Option Nat :=
  if logo head = H_PROTO_LOGO ∧ ver head ≤ H_PROTO_NEO_VER ∧ len head ≤ H_PROTO_MAX_LEN then
    some (len head + H_HEAD_LEN2)
  else none

/-- The memory that starts with `bytes`. -/
def memory (bytes : List Byte) : Nat → Byte := move bytes (fun _ => 0) 0

variable (client : TeWiFiClient)

/-- The request in a complete packet, if its checksum is right. -/
def deliver (packet : List Byte) : Option Packet :=
  let head := packet.take H_HEAD_LEN2
  let body := packet.drop H_HEAD_LEN2
  if len (memory head) = 0 then some { head, body := [], content := [] }
  else if crc32c 0 body ≠ crc (memory head) then none
  else
    let (output, ok) := client.gzDecompress body
    let expanded := flag (memory head) &&& mhf_GZIP ≠ 0 ∧ ok = true
    some { head, body, content := if expanded then output else body }

/-- The framing which the checks of `TeWiFiClient` describe. -/
def framing : Framing Byte Packet where
  headLen := H_HEAD_LEN2
  headLen_pos := by decide
  accept head := acceptHead (memory head)
  headLen_le := by
    intro head len accepted
    simp only [acceptHead, Option.ite_none_right_eq_some, Option.some.injEq] at accepted
    omega
  deliver := client.deliver

theorem memory_apply {bytes : List Byte} {index : Nat} (inside : index < bytes.length) :
    memory bytes index = bytes[index] := by
  simpa [memory] using move_inside (fun _ => (0 : Byte)) 0 inside

theorem acceptHead_congr {head head' : Nat → Byte}
    (agree : ∀ index < H_HEAD_LEN2, head index = head' index) :
    acceptHead head = acceptHead head' := by
  have logo_eq : logo head = logo head' := word_congr agree (by decide)
  have len_eq : len head = len head' := word_congr agree (by decide)
  have ver_eq : ver head = ver head' := by rw [ver, ver, agree 2 (by decide)]
  simp only [acceptHead, logo_eq, len_eq, ver_eq]

theorem onCheckPacketHead_eq (req : THRequest) :
    onCheckPacketHead req =
      match acceptHead req.head with
      | none => (false, req)
      | some packetLength =>
          (true, { req with formLength := len req.head, packetLength }) := by
  by_cases logo_eq : logo req.head = H_PROTO_LOGO <;>
    by_cases ver_le : ver req.head ≤ H_PROTO_NEO_VER <;>
    by_cases len_le : len req.head ≤ H_PROTO_MAX_LEN <;>
    simp [onCheckPacketHead, acceptHead, logo_eq, ver_le, len_le]

/-! ## What a dispatch does to the session -/

/-- The connection is closed while the last request of the log is processed. -/
def closes (log : List Packet) : Bool :=
  match log.getLast? with
  | none => false
  | some packet =>
      match client.responders (cmd (memory packet.head)) with
      | none => true
      | some responder => (responder log).closes || (responder log).throws

/-- The connection stays open while the requests `packets` are dispatched after `log`. -/
def survives : List Packet → List Packet → Bool
  | _, [] => true
  | log, packet :: packets =>
      !client.closes (log ++ [packet]) && survives (log ++ [packet]) packets

theorem survives_append (log first second : List Packet) :
    client.survives log (first ++ second) =
      (client.survives log first && client.survives (log ++ first) second) := by
  induction first generalizing log with
  | nil => simp [survives]
  | cons packet packets induction => simp [survives, induction, Bool.and_assoc]

/-- A connected context is neither killed nor waiting to be closed. -/
def Live (context : THSockContext) : Prop :=
  context.connected = true → context.killed = false ∧ context.postClose = false

theorem closeContext_spec {context : THSockContext} (live : Live context) :
    (client.closeContext context).connected = false ∧
      (client.closeContext context).request = context.request := by
  unfold closeContext closeSocket killSocket
  cases connected : context.connected with
  | false =>
      split
      · exact ⟨rfl, rfl⟩
      · split <;> simp_all [onClose]
  | true =>
      obtain ⟨alive, open_⟩ := live connected
      simp [alive, open_, onClose]

theorem live_of_not_connected {context : THSockContext} (closed : context.connected = false) :
    Live context := by
  intro connected
  simp [closed] at connected

/-- Answering touches neither the ring nor the log nor the connection. -/
theorem buildResponse_spec (session : Session) (safe : Bool) :
    (client.buildResponse session safe).ring = session.ring ∧
      (client.buildResponse session safe).dispatched = session.dispatched ∧
      (client.buildResponse session safe).context.connected = session.context.connected ∧
      (client.buildResponse session safe).context.killed = session.context.killed ∧
      (client.buildResponse session safe).context.postClose = session.context.postClose := by
  unfold buildResponse
  dsimp only
  split <;> split <;> exact ⟨rfl, rfl, rfl, rfl, rfl⟩

theorem memory_cells {head : Nat → Byte} {count index : Nat} (inside : index < count) :
    memory (cells head 0 count) index = head index := by
  rw [memory_apply (by simpa using inside)]
  simp

/-- The request which `ProcessRequest` dispatches. -/
def currentPacket (req : THRequest) : Packet where
  head := cells req.head 0 H_HEAD_LEN2
  body := cells req.body 0 req.formLength
  content := req.dataBytes

/-- Dispatching a command keeps ring and log; only a responder may close the connection here. -/
theorem dispatchCommand_spec (session : Session) (live : Live session.context) (command : Nat) :
    (client.dispatchCommand session command).2.ring = session.ring ∧
      (client.dispatchCommand session command).2.dispatched = session.dispatched ∧
      Live (client.dispatchCommand session command).2.context ∧
      (client.dispatchCommand session command).2.context.connected =
        (session.context.connected &&
          (client.responders command).all fun responder =>
            !(responder session.dispatched).closes) ∧
      (client.dispatchCommand session command).1 =
        (client.responders command).any fun responder =>
          !(responder session.dispatched).throws := by
  cases found : client.responders command with
  | none =>
      simp only [dispatchCommand, found]
      exact ⟨trivial, trivial, live, by simp, rfl⟩
  | some responder =>
      let result := responder session.dispatched
      let answered : THSockContext :=
        { session.context with response := result.response, logined := result.logined }
      have live' : Live answered := live
      have closed := client.closeContext_spec live'
      have closed_live := live_of_not_connected closed.1
      simp only [dispatchCommand, found]
      cases closing : result.closes <;> cases throwing : result.throws <;>
        simp_all [result, answered, Session.ring, Live]

/-- `ProcessRequest` logs the current request, keeps the ring and closes the connection exactly
when the responder does or when the command is not handled. -/
theorem processRequest_spec {session : Session} (live : Live session.context) :
    (client.processRequest session).ring = session.ring ∧
      (client.processRequest session).dispatched =
        session.dispatched ++ [currentPacket session.context.request] ∧
      (client.processRequest session).context.connected =
        (session.context.connected &&
          !client.closes (session.dispatched ++ [currentPacket session.context.request])) ∧
      Live (client.processRequest session).context := by
  let log := session.dispatched ++ [currentPacket session.context.request]
  let command := cmd session.context.request.head
  have cmd_eq : cmd (memory (currentPacket session.context.request).head) = command :=
    word_congr (fun index inside => memory_cells inside) (by decide)
  have closes_eq : client.closes log = (client.responders command).all fun responder =>
      (responder log).closes || (responder log).throws := by
    simp only [closes, log, List.getLast?_concat, cmd_eq]
    cases client.responders command <;> rfl
  obtain ⟨ring_eq, log_eq, live', connected_eq, handled_eq⟩ :=
    client.dispatchCommand_spec { session with dispatched := log } live command
  have process_eq : client.processRequest session =
      if (client.dispatchCommand { session with dispatched := log } command).1 then
        client.buildResponse (client.dispatchCommand { session with dispatched := log } command).2
          false
      else
        { (client.dispatchCommand { session with dispatched := log } command).2 with
          context := client.closeContext
            (client.dispatchCommand { session with dispatched := log } command).2.context } := rfl
  rw [process_eq]
  split
  · next handled =>
      obtain ⟨ring_eq', log_eq', connected_eq', killed_eq, postClose_eq⟩ := client.buildResponse_spec
        (client.dispatchCommand { session with dispatched := log } command).2 false
      refine ⟨ring_eq'.trans ring_eq, log_eq'.trans log_eq, ?_, ?_⟩
      · rw [connected_eq', connected_eq, closes_eq]
        rw [handled_eq] at handled
        cases found : client.responders command with
        | none => simp [found] at handled
        | some responder =>
            simp only [found, Option.any_some, Bool.not_eq_true'] at handled
            simp [handled]
      · intro connected
        rw [connected_eq'] at connected
        rw [killed_eq, postClose_eq]
        exact live' connected
  · next unhandled =>
      have closed := client.closeContext_spec live'
      refine ⟨?_, log_eq, ?_, live_of_not_connected closed.1⟩
      · rw [Session.ring, closed.2]
        exact ring_eq
      · rw [closed.1, closes_eq]
        rw [handled_eq] at unhandled
        cases found : client.responders command with
        | none => simp
        | some responder =>
            simp only [found, Option.any_some, Bool.not_eq_true', Bool.not_eq_false] at unhandled
            simp [unhandled]

/-! ## One round -/

/-- The parser state agrees with the bytes `queue` waiting in the ring. -/
structure Parsing (session : Session) (queue : List Byte) : Prop where
  holds : session.ring.Holds queue
  size_eq : session.ring.bufSize = H_BUFFER_LEN
  live : Live session.context
  status : session.status = .ssWaitHead ∨
    session.status = .ssWaitForm ∧ H_HEAD_LEN2 ≤ queue.length ∧
      (∀ index < H_HEAD_LEN2, session.context.request.head index = memory queue index) ∧
      acceptHead session.context.request.head = some session.context.request.packetLength ∧
      session.context.request.formLength = len session.context.request.head

theorem head_of_fetch {req : THRequest} {queue : List Byte} (holds : req.buffer.Holds queue)
    (long : H_HEAD_LEN2 ≤ queue.length) {index : Nat} (inside : index < H_HEAD_LEN2) :
    req.fetch req.head H_HEAD_LEN2 0 index = memory queue index := by
  have fetched : cells (req.fetch req.head H_HEAD_LEN2 0) 0 H_HEAD_LEN2 = queue.take H_HEAD_LEN2 :=
    THRequest.cells_fetch holds req.head (by decide) (by omega)
  have shorter : index < (queue.take H_HEAD_LEN2).length := by
    rw [List.length_take]
    omega
  rw [← @memory_cells (req.fetch _ _ _) _ _ inside, fetched, memory_apply shorter,
    memory_apply (by omega), List.getElem_take]

theorem body_of_fetch {req : THRequest} {queue : List Byte} (holds : req.buffer.Holds queue)
    {count : Nat} (positive : 0 < count) (long : H_HEAD_LEN2 + count ≤ queue.length) :
    cells (req.fetch req.body count H_HEAD_LEN2) 0 count =
      (queue.take (count + H_HEAD_LEN2)).drop H_HEAD_LEN2 := by
  rw [THRequest.cells_fetch holds req.body positive long, List.drop_take, Nat.add_sub_cancel]

theorem advance_eq (queue : List Byte) :
    client.framing.advance queue =
      if queue.length < H_HEAD_LEN2 then none
      else match acceptHead (memory queue) with
        | none => some ([], queue.drop 1)
        | some packetLength =>
            if queue.length < packetLength then none
            else match client.deliver (queue.take packetLength) with
              | none => some ([], queue.drop 1)
              | some packet => some ([packet], queue.drop packetLength) := by
  simp only [Framing.advance, framing]
  by_cases short : queue.length < H_HEAD_LEN2
  · simp [short]
  · have accept_eq : acceptHead (memory (queue.take H_HEAD_LEN2)) = acceptHead (memory queue) := by
      refine acceptHead_congr fun index inside => ?_
      rw [memory_apply (by rw [List.length_take]; omega), memory_apply (by omega)]
      simp
    simp only [if_neg short, accept_eq]
    cases acceptHead (memory queue) with
    | none => rfl
    | some packetLength =>
        by_cases partly : queue.length < packetLength
        · simp only [if_pos partly]
        · simp only [if_neg partly]
          cases client.deliver (queue.take packetLength) <;> rfl

theorem cells_of_agree {head : Nat → Byte} {queue : List Byte} (long : H_HEAD_LEN2 ≤ queue.length)
    (agree : ∀ index < H_HEAD_LEN2, head index = memory queue index) :
    cells head 0 H_HEAD_LEN2 = queue.take H_HEAD_LEN2 := by
  apply List.ext_getElem
  · rw [cells_length, List.length_take]
    omega
  · intro index inside _
    rw [cells_length] at inside
    rw [cells_getElem, Nat.zero_add, agree index inside, memory_apply (by omega)]
    simp

/-- The body check passes exactly the deliverable packets, and leaves the request to dispatch. -/
theorem onCheckPacketBody_spec {req : THRequest} {queue : List Byte}
    (holds : req.buffer.Holds queue)
    (agree : ∀ index < H_HEAD_LEN2, req.head index = memory queue index)
    (form_eq : req.formLength = len req.head)
    (complete : req.formLength + H_HEAD_LEN2 ≤ queue.length) :
    (client.onCheckPacketBody (req.loadBody H_HEAD_LEN2)).2.buffer = req.buffer ∧
      (client.onCheckPacketBody (req.loadBody H_HEAD_LEN2)).2.packetLength = req.packetLength ∧
      match client.deliver (queue.take (req.formLength + H_HEAD_LEN2)) with
      | none => (client.onCheckPacketBody (req.loadBody H_HEAD_LEN2)).1 = false
      | some packet =>
          (client.onCheckPacketBody (req.loadBody H_HEAD_LEN2)).1 = true ∧
            currentPacket (client.onCheckPacketBody (req.loadBody H_HEAD_LEN2)).2 = packet := by
  have long : H_HEAD_LEN2 ≤ queue.length := by omega
  have head_eq : (queue.take (req.formLength + H_HEAD_LEN2)).take H_HEAD_LEN2 =
      queue.take H_HEAD_LEN2 := by
    rw [List.take_take, Nat.min_eq_left (by omega)]
  have agree' : ∀ index < H_HEAD_LEN2,
      memory (queue.take H_HEAD_LEN2) index = req.head index := by
    intro index inside
    rw [agree index inside, memory_apply (by rw [List.length_take]; omega),
      memory_apply (by omega)]
    simp
  have len_eq : len (memory (queue.take H_HEAD_LEN2)) = len req.head :=
    word_congr agree' (by decide)
  have crc_eq : crc (memory (queue.take H_HEAD_LEN2)) = crc req.head := by
    simp only [crc]
    rw [word_congr agree' (by decide), word_congr agree' (by decide)]
  have flag_eq : flag (memory (queue.take H_HEAD_LEN2)) = flag req.head := agree' 3 (by decide)
  have headCells := cells_of_agree long agree
  simp only [deliver, head_eq, len_eq, crc_eq, flag_eq]
  have body_drop : (queue.take (req.formLength + H_HEAD_LEN2)).drop H_HEAD_LEN2 =
      (queue.drop H_HEAD_LEN2).take req.formLength := by
    rw [List.drop_take, Nat.add_sub_cancel]
  by_cases empty : req.formLength < 1
  · have zero : req.formLength = 0 := by omega
    have len_zero : len req.head = 0 := by omega
    cases pointer : req.data <;>
      simp [THRequest.loadBody, zero, onCheckPacketBody, len_zero, currentPacket, headCells,
        THRequest.dataBytes, pointer, cells_zero]
  · have positive : 0 < req.formLength := by omega
    have len_ne : len req.head ≠ 0 := by omega
    have body_eq := body_of_fetch holds positive (by omega)
    rw [← body_eq]
    have loaded : req.loadBody H_HEAD_LEN2 =
        { req with
          body := req.fetch req.body req.formLength H_HEAD_LEN2
          contentLength := req.formLength } := by
      rw [THRequest.loadBody, if_neg empty]
    rw [loaded]
    simp only [onCheckPacketBody, if_neg len_ne]
    by_cases mismatch : crc32c 0 (cells (req.fetch req.body req.formLength H_HEAD_LEN2) 0
        req.formLength) ≠ crc req.head
    · simp [mismatch]
    · simp only [if_neg mismatch]
      by_cases zipped : flag req.head &&& mhf_GZIP ≠ 0
      · cases expanded : client.gzDecompress
            (cells (req.fetch req.body req.formLength H_HEAD_LEN2) 0 req.formLength) with
        | mk output ok =>
            cases ok <;>
              simp [zipped, expanded, currentPacket, headCells, THRequest.dataBytes, cells_move]
      · simp [zipped, currentPacket, headCells, THRequest.dataBytes]

/-- From `session` the parser has dispatched `packets` and kept `rest`. -/
structure Delivers (session next : Session) (packets : List Packet) (rest : List Byte) : Prop where
  parsing : Parsing next rest
  dispatched : next.dispatched = session.dispatched ++ packets
  connected : next.context.connected =
    (session.context.connected && client.survives session.dispatched packets)

variable {client} in
theorem Delivers.trans {first second third : Session} {packets packets' : List Packet}
    {rest rest' : List Byte} (before : client.Delivers first second packets rest)
    (after : client.Delivers second third packets' rest') :
    client.Delivers first third (packets ++ packets') rest' where
  parsing := after.parsing
  dispatched := by rw [after.dispatched, before.dispatched, List.append_assoc]
  connected := by
    rw [after.connected, before.connected, before.dispatched, survives_append, Bool.and_assoc]

/-- Dropping the byte at the front starts the search for a head again. -/
theorem delivers_skip {session : Session} {queue : List Byte} {req : THRequest}
    (parsing : Parsing session queue) (same : req.buffer = session.ring)
    (nonempty : 1 ≤ queue.length) :
    client.Delivers session ((session.withRequest (req.skip 1)).withStatus .ssWaitHead) []
      (queue.drop 1) where
  parsing :=
    { holds := by
        have skipped := parsing.holds.headSafePosInc nonempty
        rw [← same] at skipped
        exact skipped.2
      size_eq := by
        simpa [Session.ring, Session.withRequest, Session.withStatus, THRequest.skip, same] using
          parsing.size_eq
      live := parsing.live
      status := Or.inl rfl }
  dispatched := (List.append_nil _).symm
  connected := (Bool.and_true _).symm

/-- In `ssWaitHead` a round waits for a head, notes an accepted one or drops a byte. -/
theorem recvStep_waitHead {session : Session} {queue : List Byte} (parsing : Parsing session queue)
    (waiting : session.status = .ssWaitHead) :
    if queue.length < H_HEAD_LEN2 then client.toTHSockServer.recvStep session = none
    else match acceptHead (memory queue) with
      | none => ∃ next, client.toTHSockServer.recvStep session = some next ∧
          next.status = .ssWaitHead ∧ client.Delivers session next [] (queue.drop 1)
      | some _ => ∃ next, client.toTHSockServer.recvStep session = some next ∧
          next.status = .ssWaitForm ∧ client.Delivers session next [] queue := by
  have valid := parsing.holds.valid
  by_cases short : queue.length < H_HEAD_LEN2
  · rw [if_pos short]
    exact THSockServer.recvStep_head_short waiting (valid ▸ short)
  · rw [if_neg short]
    have long : H_HEAD_LEN2 ≤ queue.length := by omega
    have enough : client.toTHSockServer.headLen ≤ session.ring.validCount := valid ▸ long
    let req := client.toTHSockServer.loadHead session
    have head_eq : ∀ index < H_HEAD_LEN2, req.head index = memory queue index :=
      fun index inside => head_of_fetch parsing.holds long inside
    have accept_eq : acceptHead req.head = acceptHead (memory queue) := acceptHead_congr head_eq
    have checked := onCheckPacketHead_eq req
    rw [accept_eq] at checked
    cases accepted : acceptHead (memory queue) with
    | none =>
        rw [accepted] at checked
        exact ⟨_, THSockServer.recvStep_head_refused waiting enough checked, rfl,
          client.delivers_skip parsing rfl (Nat.le_trans (by decide) long)⟩
    | some packetLength =>
        rw [accepted] at checked
        refine ⟨_, THSockServer.recvStep_head_accepted waiting enough checked, rfl, ?_⟩
        exact
          { parsing :=
              { holds := parsing.holds
                size_eq := parsing.size_eq
                live := parsing.live
                status := Or.inr ⟨rfl, long, head_eq, accept_eq.trans accepted, rfl⟩ }
            dispatched := (List.append_nil _).symm
            connected := (Bool.and_true _).symm }

/-- In `ssWaitForm` a round waits for the packet or makes one move of the framing. -/
theorem recvStep_waitForm {session : Session} {queue : List Byte} (parsing : Parsing session queue)
    (waiting : session.status = .ssWaitForm) :
    if queue.length < session.context.request.packetLength then
      client.toTHSockServer.recvStep session = none ∧ client.framing.advance queue = none
    else ∃ next packets rest, client.toTHSockServer.recvStep session = some next ∧
      client.framing.advance queue = some (packets, rest) ∧
      next.status = .ssWaitHead ∧ client.Delivers session next packets rest := by
  have valid := parsing.holds.valid
  obtain ⟨long, agree, accepted, form_eq⟩ : H_HEAD_LEN2 ≤ queue.length ∧ _ := by
    rcases parsing.status with other | found
    · simp [waiting] at other
    · exact found.2
  have accepted' : acceptHead (memory queue) = some session.context.request.packetLength :=
    (acceptHead_congr agree).symm.trans accepted
  have length_eq : session.context.request.packetLength =
      session.context.request.formLength + H_HEAD_LEN2 := by
    simp only [acceptHead, Option.ite_none_right_eq_some, Option.some.injEq] at accepted
    omega
  have notShort : ¬ queue.length < H_HEAD_LEN2 := by omega
  simp only [client.advance_eq, if_neg notShort, accepted']
  by_cases short : queue.length < session.context.request.packetLength
  · simp only [if_pos short]
    exact ⟨THSockServer.recvStep_form_short waiting (valid ▸ short), trivial⟩
  · simp only [if_neg short]
    have complete : session.context.request.packetLength ≤ queue.length := by omega
    have enough : session.context.request.packetLength ≤ session.ring.validCount :=
      valid ▸ complete
    obtain ⟨buffer_eq, packet_eq, checked⟩ := client.onCheckPacketBody_spec parsing.holds agree
      form_eq (length_eq ▸ complete)
    rw [← length_eq] at checked
    generalize result : client.onCheckPacketBody
      (session.context.request.loadBody H_HEAD_LEN2) = outcome at *
    obtain ⟨passed, req⟩ := outcome
    dsimp only at buffer_eq packet_eq checked
    cases delivered : client.deliver (queue.take session.context.request.packetLength) with
    | none =>
        rw [delivered] at checked
        obtain rfl : passed = false := checked
        exact ⟨_, [], _, THSockServer.recvStep_form_failed waiting enough result, rfl, rfl,
          client.delivers_skip parsing buffer_eq (Nat.le_trans (by decide) long)⟩
    | some packet =>
        rw [delivered] at checked
        obtain ⟨rfl, current⟩ : passed = true ∧ currentPacket req = packet := checked
        let taken := (session.withRequest (req.skip req.packetLength)).withStatus .ssProcessing
        have live : Live taken.context := parsing.live
        obtain ⟨ring_eq, log_eq, connected_eq, live'⟩ := client.processRequest_spec live
        have current' : currentPacket taken.context.request = packet := current
        rw [current'] at log_eq connected_eq
        refine ⟨_, [packet], _, THSockServer.recvStep_form_passed waiting enough result, rfl, rfl,
          ?_⟩
        have taken_holds : taken.ring.Holds
            (queue.drop session.context.request.packetLength) := by
          have skipped := (parsing.holds.headSafePosInc complete).2
          rw [Session.ring, ← buffer_eq, ← packet_eq] at skipped
          rw [← packet_eq]
          exact skipped
        have taken_size : taken.ring.bufSize = H_BUFFER_LEN := by
          simpa [taken, Session.ring, Session.withRequest, Session.withStatus, THRequest.skip,
            buffer_eq] using parsing.size_eq
        exact
          { parsing :=
              { holds := (congrArg (THCB.Holds · _) ring_eq).mpr taken_holds
                size_eq := (congrArg THCB.bufSize ring_eq).trans taken_size
                live := live'
                status := Or.inl rfl }
            dispatched := log_eq
            connected := by
              rw [survives, survives, Bool.and_true]
              exact connected_eq }

/-! ## The loop and the event -/

/-- The rounds still to come: two for each byte, one of them spent once a head is noted. -/
def roundsLeft (session : Session) (queue : List Byte) : Nat :=
  2 * queue.length + if session.status = .ssWaitHead then 1 else 0

theorem roundsLeft_le (session : Session) (queue : List Byte) :
    roundsLeft session queue ≤ 2 * queue.length + 1 := by
  unfold roundsLeft
  split <;> omega

/-- Either the parser waits for more bytes, or a round notes a head or makes one move. -/
theorem recvStep_delivers {session : Session} {queue : List Byte}
    (parsing : Parsing session queue) :
    (client.toTHSockServer.recvStep session = none ∧
        client.framing.parse queue = ([], queue)) ∨
      ∃ next packets rest, client.toTHSockServer.recvStep session = some next ∧
        client.Delivers session next packets rest ∧
        client.framing.parse queue =
          (packets ++ (client.framing.parse rest).1, (client.framing.parse rest).2) ∧
        packets.length ≤ 1 ∧ roundsLeft next rest < roundsLeft session queue := by
  have move {next : Session} {packets : List Packet} {rest : List Byte}
      (steps : client.toTHSockServer.recvStep session = some next)
      (moves : client.framing.advance queue = some (packets, rest))
      (waiting : next.status = .ssWaitHead)
      (delivers : client.Delivers session next packets rest) :
      ∃ next packets rest, client.toTHSockServer.recvStep session = some next ∧
        client.Delivers session next packets rest ∧
        client.framing.parse queue =
          (packets ++ (client.framing.parse rest).1, (client.framing.parse rest).2) ∧
        packets.length ≤ 1 ∧ roundsLeft next rest < roundsLeft session queue := by
    have shorter := Framing.advance_shorter moves
    refine ⟨next, packets, rest, steps, delivers, Framing.parse_of_move moves,
      Framing.advance_length_le moves, ?_⟩
    simp only [roundsLeft, waiting, if_true]
    split <;> omega
  rcases parsing.status with waiting | ⟨waiting, _⟩
  · have round := client.recvStep_waitHead parsing waiting
    have advance := client.advance_eq queue
    by_cases short : queue.length < H_HEAD_LEN2
    · simp only [if_pos short] at round advance
      exact .inl ⟨round, Framing.parse_of_stuck advance⟩
    · simp only [if_neg short] at round advance
      right
      cases accepted : acceptHead (memory queue) with
      | none =>
          rw [accepted] at round advance
          obtain ⟨next, steps, waiting', delivers⟩ := round
          exact move steps advance waiting' delivers
      | some packetLength =>
          rw [accepted] at round
          obtain ⟨next, steps, noted, delivers⟩ := round
          refine ⟨next, [], queue, steps, delivers, rfl, Nat.zero_le _, ?_⟩
          simp only [roundsLeft, waiting, noted, reduceCtorEq, if_true, if_false]
          omega
  · have round := client.recvStep_waitForm parsing waiting
    split at round
    · exact .inl ⟨round.1, Framing.parse_of_stuck round.2⟩
    · obtain ⟨next, packets, rest, steps, moves, waiting', delivers⟩ := round
      exact .inr (move steps moves waiting' delivers)

/-- With enough fuel the loop ends, having parsed the whole ring. -/
theorem recvLoop_spec (fuel : Nat) {session : Session} {queue : List Byte}
    (parsing : Parsing session queue) (enough : roundsLeft session queue < fuel) :
    ∃ next, client.toTHSockServer.recvLoop fuel session = some next ∧
      client.Delivers session next (client.framing.parse queue).1
        (client.framing.parse queue).2 := by
  induction fuel generalizing session queue with
  | zero => omega
  | succ fuel induction =>
      rcases client.recvStep_delivers parsing with ⟨stops, parsed⟩ |
        ⟨next, packets, rest, steps, delivers, parsed, -, fewer⟩
      · refine ⟨session, THSockServer.recvLoop_of_stop _ stops, ?_⟩
        rw [parsed]
        exact ⟨parsing, (List.append_nil _).symm, (Bool.and_true _).symm⟩
      · obtain ⟨last, loops, delivers'⟩ := induction delivers.parsing (by omega)
        refine ⟨last, (THSockServer.recvLoop_of_step _ steps).trans loops, ?_⟩
        rw [parsed]
        exact delivers.trans delivers'

/-- Writing a chunk to the ring: it is appended if it fits and lost otherwise. -/
theorem recvWrite_parsing {session : Session} {queue : List Byte} (parsing : Parsing session queue)
    (chunk : List Byte) :
    Parsing (THSockServer.recvWrite session chunk)
      (if queue.length + chunk.length ≤ H_BUFFER_LEN then queue ++ chunk else queue) := by
  obtain ⟨holds, size_eq, live, status⟩ := parsing
  split
  · next fits =>
      refine ⟨(holds.writeCirBuffer (by omega)).2, ?_, live, ?_⟩
      · rw [← size_eq]
        exact THCB.writeCirBuffer_bufSize _ _
      · rcases status with waiting | ⟨waiting, long, agree, rest⟩
        · exact Or.inl waiting
        · refine Or.inr ⟨waiting, by rw [List.length_append]; omega, fun index inside => ?_, rest⟩
          rw [memory_apply (by rw [List.length_append]; omega),
            List.getElem_append_left (by omega)]
          exact (agree index inside).trans (memory_apply (by omega))
  · next full =>
      have refused := holds.writeCirBuffer_refused chunk (by omega)
      have same : THSockServer.recvWrite session chunk = session := by
        rw [THSockServer.recvWrite, refused]
        rfl
      rw [same]
      exact ⟨holds, size_eq, live, status⟩

/-- `RecvCompletedEvent` returns and does what the framing does on a bounded buffer. -/
theorem recvCompletedEvent_spec {session : Session} {queue : List Byte}
    (parsing : Parsing session queue) (chunk : List Byte) :
    ∃ next, client.toTHSockServer.recvCompletedEvent session chunk = some next ∧
      client.Delivers session next (client.framing.receive H_BUFFER_LEN queue chunk).1
        (client.framing.receive H_BUFFER_LEN queue chunk).2 := by
  have written := recvWrite_parsing parsing chunk
  obtain ⟨next, loops, delivers⟩ := client.recvLoop_spec
    (2 * (THSockServer.recvWrite session chunk).ring.validCount + 2) written (by
      rw [written.holds.valid]
      exact Nat.lt_succ_of_le (roundsLeft_le _ _))
  exact ⟨next, loops, delivers.parsing, delivers.dispatched, delivers.connected⟩

end TeWiFiClient
end CommonLib
