import CommonLib.Library.ByteOrder
import CommonLib.Proj.Refinement

/-!
# The frames of `client.cpp`

`Client` speaks the `msg_head1` protocol: three 32-bit fields, no logo, no checksum and no
compression on the receiving side.  It has one decoder and two encoders, `BuildResponse` and
`SendMsg`.  `SendMsg` writes what the decoder reads; `BuildResponse` converts the 32-bit type with
`htons`, so that the decoder finds the command in the upper half of the field.
-/

namespace CommonLib

/-! ## The protocol of `head_type.hpp` -/

/-- `sizeof(msg_head1)`. -/
def H_HEAD_LEN1 : Nat := 12

namespace MsgHead1

/-- A 32-bit value at `offset` in the memory of a little-endian machine. -/
def load (head : Nat → Byte) (offset : Nat) : Nat :=
  (head offset).toNat + (head (offset + 1)).toNat * 256 + (head (offset + 2)).toNat * 65536 +
    (head (offset + 3)).toNat * 16777216

/-- Store a 32-bit value at `offset`, lowest byte first. -/
def store (head : Nat → Byte) (offset value : Nat) : Nat → Byte :=
  move [UInt8.ofNat value, UInt8.ofNat (value / 256), UInt8.ofNat (value / 65536),
    UInt8.ofNat (value / 16777216)] head offset

def type (head : Nat → Byte) : Nat := load head 0
def len (head : Nat → Byte) : Nat := load head 4
def sequence (head : Nat → Byte) : Nat := load head 8
def setType (head : Nat → Byte) (value : Nat) : Nat → Byte := store head 0 value
def setLen (head : Nat → Byte) (value : Nat) : Nat → Byte := store head 4 value
def setSequence (head : Nat → Byte) (value : Nat) : Nat → Byte := store head 8 value

theorem store_apply (head : Nat → Byte) (offset value : Nat) {index : Nat} (inside : index < 4) :
    store head offset value (offset + index) =
      [UInt8.ofNat value, UInt8.ofNat (value / 256), UInt8.ofNat (value / 65536),
        UInt8.ofNat (value / 16777216)][index] :=
  move_inside head offset inside

theorem load_lt (head : Nat → Byte) (offset : Nat) : load head offset < 4294967296 := by
  have first := (head offset).toNat_lt
  have second := (head (offset + 1)).toNat_lt
  have third := (head (offset + 2)).toNat_lt
  have fourth := (head (offset + 3)).toNat_lt
  rw [load]
  omega

/-- What was stored is loaded. -/
theorem load_store (head : Nat → Byte) (offset : Nat) {value : Nat} (small : value < 4294967296) :
    load (store head offset value) offset = value := by
  have first := store_apply head offset value (show 0 < 4 by decide)
  have second := store_apply head offset value (show 1 < 4 by decide)
  have third := store_apply head offset value (show 2 < 4 by decide)
  have fourth := store_apply head offset value (show 3 < 4 by decide)
  simp only [Nat.add_zero, List.getElem_cons_zero, List.getElem_cons_succ] at first second third fourth
  rw [load, first, second, third, fourth]
  simp only [UInt8.toNat_ofNat']
  omega

/-- A store leaves the other fields alone. -/
theorem load_store_of_ne (head : Nat → Byte) {offset other : Nat} (value : Nat)
    (apart : offset + 4 ≤ other ∨ other + 4 ≤ offset) :
    load (store head offset value) other = load head other := by
  have outside (index : Nat) (inside : index < 4) :
      store head offset value (other + index) = head (other + index) := by
    apply move_outside
    simp only [List.length_cons, List.length_nil]
    omega
  have first := outside 0 (by decide)
  rw [Nat.add_zero] at first
  rw [load, load, first, outside 1 (by decide), outside 2 (by decide), outside 3 (by decide)]

/-- A field depends only on the bytes of the head. -/
theorem load_cells (head : Nat → Byte) {offset : Nat} (inside : offset + 3 < H_HEAD_LEN1) :
    load (TeWiFiClient.memory (cells head 0 H_HEAD_LEN1)) offset = load head offset := by
  rw [load, load, TeWiFiClient.memory_cells (by omega), TeWiFiClient.memory_cells (by omega),
    TeWiFiClient.memory_cells (by omega), TeWiFiClient.memory_cells inside]

end MsgHead1

/-- The parameters of the server. -/
structure Client where
  /-- The responders registered with `RegisterCommandHandler`. -/
  responders : Nat → Option THCmdResponder
  /-- `Option.Net.ServerIndex->Count()`. -/
  serverCount : Nat
  /-- `GZCompress`: the bytes written and whether it succeeded. -/
  gzCompress : List Byte → List Byte × Bool

namespace Client

open MsgHead1 Execution
open TeWiFiClient (memory sendData)

variable (client : Client)

/-- `DispatchCommand` of `business.cpp`, `CloseContext` and what `OnClose` does to a context are
shared with `TeWiFiClient`. -/
def business : TeWiFiClient where
  responders := client.responders
  serverCount := client.serverCount
  gzDecompress _ := ([], false)
  gzCompress := client.gzCompress

/-! ## Checks -/

/-- `Client::OnCheckPacketHead`. -/
def onCheckPacketHead (req : THRequest) : Bool × THRequest :=
  let hl := htonl (len req.head)
  if hl ≤ H_PROTO_MAX_LEN then
    (true, { req with formLength := hl, packetLength := hl + H_HEAD_LEN1 })
  else (false, req)

/-- `Client::OnCheckPacketBody`, without the part under `CRC`. -/
def onCheckPacketBody (req : THRequest) : Bool × THRequest :=
  if len req.head = 0 then (true, req)
  else (true, { req with contentLength := req.formLength, data := .body })

/-! ## Answering -/

/-- `Client::Acknoledge`.  It hands over `sizeof(msg_head2)` bytes, four more than the head has. -/
def acknoledge (session : Session) : Session :=
  let req := session.context.request
  let head := setType req.head 1
  let head := setSequence head (htons msg_cmd_ack2)
  let head := setLen head 0
  sendData (session.withRequest { req with head }) (cells head 0 H_HEAD_LEN2)

/-- `Client::BuildResponse`.  With `safe` the head is a local one, else the request's own. -/
def buildResponse (session : Session) (safe : Bool) : Session :=
  let resp := session.context.response
  let session := if resp.autoAcknowledge then acknoledge session else session
  if resp.responseCode = msg_cmd_unknown then session
  else
    let req := session.context.request
    -- `memset` clears `sizeof(msg_head2)` bytes, so also the four behind the local head
    let head := if safe then fun _ => 0 else req.head
    let head := setType head (htons resp.responseCode)
    -- `data_len` has 16 bits
    let data := resp.responseStream.take (resp.responseStream.length % 65536)
    let head := setLen head (htonl data.length)
    let req := { req with head := if safe then req.head else head }
    let context := { session.context with
      request := req
      response := { resp with responseStream := [] }
      sessionStatus := .ssWaitHead }
    sendData (sendData { session with context } (cells head 0 H_HEAD_LEN1)) data

/-- `Client::SendMsg`.  After a successful compression `data` and `data_len` are never set; `unset`
is what they happen to describe. -/
def sendMsg (session : Session) (cmd : Byte) (buf : List Byte) (compress : Bool)
    (unset : List Byte) : Session :=
  let head := setSequence (fun _ => 0) (htonl session.context.localSeq.toNat)
  let head := setType head (htonl cmd.toNat)
  let source :=
    if compress && decide (buf.length > 0) && (client.gzCompress buf).2 then unset else buf
  let data := source.take (source.length % 65536)
  let head := setLen head (htonl data.length)
  let context := { session.context with
    localSeq := session.context.localSeq + 1
    sessionStatus := .ssWaitHead }
  sendData (sendData { session with context } (cells head 0 H_HEAD_LEN1)) data

/-- `Client::ProcessRequest`; the request is recorded before it is dispatched. -/
def processRequest (session : Session) : Session :=
  let req := session.context.request
  let packet : Packet :=
    { head := cells req.head 0 H_HEAD_LEN1
      body := cells req.body 0 req.formLength
      content := req.dataBytes }
  let session := { session with dispatched := session.dispatched ++ [packet] }
  let (handled, session) := client.business.dispatchCommand session (htonl (type req.head))
  if handled then buildResponse session false
  else { session with context := client.business.closeContext session.context }

/-- The virtual methods of `Client`. -/
def toTHSockServer : THSockServer where
  headLen := H_HEAD_LEN1
  onCheckPacketHead := onCheckPacketHead
  onCheckPacketBody := onCheckPacketBody
  processRequest := client.processRequest

/-! ## What a dispatch does to the session -/

theorem closeContext_request (server : TeWiFiClient) (context : THSockContext) :
    (server.closeContext context).request = context.request := by
  simp only [TeWiFiClient.closeContext, TeWiFiClient.closeSocket, TeWiFiClient.killSocket]
  split
  · rfl
  · split <;> rfl

/-- Dispatching a command touches neither the ring nor the log. -/
theorem dispatchCommand_keeps (server : TeWiFiClient) (session : Session) (command : Nat) :
    (server.dispatchCommand session command).2.ring = session.ring ∧
      (server.dispatchCommand session command).2.dispatched = session.dispatched := by
  cases found : server.responders command with
  | none =>
      simp only [TeWiFiClient.dispatchCommand, found]
      exact ⟨trivial, trivial⟩
  | some responder =>
      have request_eq := closeContext_request server
        { session.context with
          response := (responder session.dispatched).response
          logined := (responder session.dispatched).logined }
      simp only [TeWiFiClient.dispatchCommand, found]
      cases (responder session.dispatched).closes <;>
        cases (responder session.dispatched).throws <;>
        simp [Session.ring, request_eq]

theorem buildResponse_keeps (session : Session) (safe : Bool) :
    (buildResponse session safe).ring = session.ring ∧
      (buildResponse session safe).dispatched = session.dispatched := by
  simp only [buildResponse]
  split <;> split <;> exact ⟨rfl, rfl⟩

/-- The request which `ProcessRequest` dispatches. -/
def currentPacket (req : THRequest) : Packet where
  head := cells req.head 0 H_HEAD_LEN1
  body := cells req.body 0 req.formLength
  content := req.dataBytes

theorem processRequest_spec (session : Session) :
    (client.processRequest session).ring = session.ring ∧
      (client.processRequest session).dispatched =
        session.dispatched ++ [currentPacket session.context.request] := by
  let logged : Session :=
    { session with dispatched := session.dispatched ++ [currentPacket session.context.request] }
  let outcome := client.business.dispatchCommand logged (htonl (type session.context.request.head))
  obtain ⟨ring_eq, log_eq⟩ : outcome.2.ring = session.ring ∧ outcome.2.dispatched =
      session.dispatched ++ [currentPacket session.context.request] :=
    dispatchCommand_keeps client.business logged _
  have process_eq : client.processRequest session =
      if outcome.1 then buildResponse outcome.2 false
      else { outcome.2 with context := client.business.closeContext outcome.2.context } := rfl
  rw [process_eq]
  split
  · obtain ⟨ring_eq', log_eq'⟩ := buildResponse_keeps outcome.2 false
    exact ⟨ring_eq'.trans ring_eq, log_eq'.trans log_eq⟩
  · constructor
    · rw [Session.ring, closeContext_request]
      exact ring_eq
    · exact log_eq

theorem processRequest_log (session : Session) :
    session.dispatched <+: (client.toTHSockServer.processRequest session).dispatched := by
  show _ <+: (client.processRequest session).dispatched
  rw [(client.processRequest_spec session).2]
  exact List.prefix_append _ _

/-! ## One frame -/

/-- The head announces a body of `size` bytes, which the receiver accepts. -/
structure Announces (head : List Byte) (size : Nat) : Prop where
  length_eq : head.length = H_HEAD_LEN1
  len_eq : htonl (len (memory head)) = size
  size_le : size ≤ H_PROTO_MAX_LEN

theorem Announces.frame_length {head body : List Byte} (announces : Announces head body.length) :
    (head ++ body).length = body.length + H_HEAD_LEN1 := by
  rw [List.length_append, announces.length_eq, Nat.add_comm]

theorem Announces.frame_pos {head body : List Byte} (announces : Announces head body.length) :
    0 < (head ++ body).length := by
  rw [announces.frame_length]
  exact Nat.succ_pos _

/-- The request in a frame. -/
def framePacket (head body : List Byte) : Packet where
  head := head
  body := body
  content := body

/-- The parser waits for the frame of `head` with `size` bytes of body, `queue` being in the ring. -/
structure Receiving (head : List Byte) (size : Nat) (log : List Packet) (session : Session)
    (queue : List Byte) : Prop where
  holds : session.ring.Holds queue
  size_eq : session.ring.bufSize = H_BUFFER_LEN
  dispatched : session.dispatched = log
  status : session.status = .ssWaitHead ∨
    session.status = .ssWaitForm ∧ cells session.context.request.head 0 H_HEAD_LEN1 = head ∧
      session.context.request.formLength = size ∧
      session.context.request.packetLength = size + H_HEAD_LEN1

variable {head body queue : List Byte} {size : Nat} {log : List Packet} {session : Session}

theorem Receiving.write (receiving : Receiving head size log session queue) (chunk : List Byte)
    (fits : (queue ++ chunk).length ≤ H_BUFFER_LEN) :
    Receiving head size log (THSockServer.recvWrite session chunk) (queue ++ chunk) where
  holds := by
    rw [List.length_append, ← receiving.size_eq] at fits
    exact (receiving.holds.writeCirBuffer fits).2
  size_eq := by
    rw [← receiving.size_eq]
    exact THCB.writeCirBuffer_bufSize _ _
  dispatched := receiving.dispatched
  status := receiving.status

/-- In `ssWaitHead` the head of the frame is noted. -/
theorem Receiving.note (receiving : Receiving head size log session queue)
    (waiting : session.status = .ssWaitHead) (announces : Announces head size)
    (begins : head <+: queue) :
    ∃ next, client.toTHSockServer.recvStep session = some next ∧ next.status = .ssWaitForm ∧
      Receiving head size log next queue := by
  obtain ⟨length_eq, len_eq, size_le⟩ := announces
  have long : H_HEAD_LEN1 ≤ queue.length := length_eq ▸ begins.length_le
  have enough : client.toTHSockServer.headLen ≤ session.ring.validCount := by
    rw [receiving.holds.valid]
    exact long
  let req := client.toTHSockServer.loadHead session
  have head_eq : cells req.head 0 H_HEAD_LEN1 = head := by
    have fetched := THRequest.cells_fetch receiving.holds session.context.request.head
      (show 0 < H_HEAD_LEN1 by decide) (Nat.zero_add H_HEAD_LEN1 ▸ long)
    rw [List.drop_zero, ← length_eq, ← List.prefix_iff_eq_take.mp begins, length_eq] at fetched
    exact fetched
  have announced : htonl (len req.head) = size := by
    rw [← len_eq, ← head_eq]
    exact congrArg htonl (load_cells req.head (by decide)).symm
  have checked : client.toTHSockServer.onCheckPacketHead req =
      (true, { req with formLength := size, packetLength := size + H_HEAD_LEN1 }) := by
    show onCheckPacketHead req = _
    simp only [onCheckPacketHead, announced, if_pos size_le]
  refine ⟨_, THSockServer.recvStep_head_accepted waiting enough checked, rfl, ?_⟩
  exact
    { holds := receiving.holds
      size_eq := receiving.size_eq
      dispatched := receiving.dispatched
      status := Or.inr ⟨rfl, head_eq, rfl, rfl⟩ }

/-- The body check passes and leaves the request of the frame. -/
theorem onCheckPacketBody_spec {req : THRequest} (holds : req.buffer.Holds queue)
    (head_eq : cells req.head 0 H_HEAD_LEN1 = head) (form_eq : req.formLength = body.length)
    (announces : Announces head body.length) (whole : head ++ body <+: queue) :
    ∃ checked, onCheckPacketBody (req.loadBody H_HEAD_LEN1) = (true, checked) ∧
      checked.buffer = req.buffer ∧ checked.packetLength = req.packetLength ∧
      currentPacket checked = framePacket head body := by
  obtain ⟨length_eq, len_eq, _⟩ := announces
  have len_congr : len (memory head) = len req.head := by
    rw [← head_eq]
    exact load_cells req.head (by decide)
  rw [len_congr] at len_eq
  by_cases empty : body = []
  · subst empty
    have zero : len req.head = 0 := by
      have bytes := MsgHead1.load_lt req.head 4
      rw [← htonl_htonl (show len req.head < 4294967296 from bytes), len_eq]
      rfl
    have loaded : req.loadBody H_HEAD_LEN1 = { req with contentLength := 0 } := by
      rw [THRequest.loadBody, if_pos (by rw [form_eq]; decide)]
    refine ⟨{ req with contentLength := 0 }, ?_, rfl, rfl, ?_⟩
    · rw [loaded, onCheckPacketBody, if_pos (show len req.head = 0 from zero)]
    · cases pointer : req.data <;>
        simp [currentPacket, framePacket, head_eq, form_eq, THRequest.dataBytes]
  · have positive : 0 < body.length := List.length_pos_iff.mpr empty
    have nonzero : len req.head ≠ 0 := by
      intro zero
      rw [zero] at len_eq
      exact absurd len_eq.symm (Nat.ne_of_gt positive)
    have long := whole.length_le
    rw [List.length_append, length_eq] at long
    have body_eq : cells (req.fetch req.body body.length H_HEAD_LEN1) 0 body.length = body := by
      rw [THRequest.cells_fetch holds req.body positive long]
      obtain ⟨rest, rfl⟩ := whole
      rw [← length_eq, List.append_assoc, List.drop_left, List.take_left]
    have loaded : req.loadBody H_HEAD_LEN1 =
        { req with
          body := req.fetch req.body body.length H_HEAD_LEN1
          contentLength := body.length } := by
      rw [THRequest.loadBody, form_eq, if_neg (Nat.not_lt.mpr positive)]
    rw [loaded]
    refine ⟨_, if_neg nonzero, rfl, rfl, ?_⟩
    simp [currentPacket, framePacket, head_eq, form_eq, THRequest.dataBytes, body_eq]

/-- In `ssWaitForm` the complete frame is dispatched. -/
theorem Receiving.complete (receiving : Receiving head body.length log session queue)
    (waiting : session.status = .ssWaitForm) (announces : Announces head body.length)
    (whole : head ++ body <+: queue) :
    ∃ next, client.toTHSockServer.recvStep session = some next ∧ next.status = .ssWaitHead ∧
      Receiving head body.length (log ++ [framePacket head body]) next
        (queue.drop (head ++ body).length) := by
  obtain ⟨head_eq, form_eq, packet_eq⟩ : cells session.context.request.head 0 H_HEAD_LEN1 = head ∧
      session.context.request.formLength = body.length ∧
      session.context.request.packetLength = body.length + H_HEAD_LEN1 := by
    rcases receiving.status with other | found
    · simp [waiting] at other
    · exact found.2
  have frame_length := announces.frame_length
  have long := whole.length_le
  have enough : session.context.request.packetLength ≤ session.ring.validCount := by
    rw [receiving.holds.valid, packet_eq, ← frame_length]
    exact long
  obtain ⟨checked, result, buffer_eq, packet_eq', current⟩ :=
    onCheckPacketBody_spec receiving.holds head_eq form_eq announces whole
  let taken := (session.withRequest (checked.skip checked.packetLength)).withStatus .ssProcessing
  obtain ⟨ring_eq, log_eq⟩ := client.processRequest_spec taken
  have taken_eq : taken.ring = (session.ring.headSafePosInc (head ++ body).length).2 := by
    show (checked.buffer.headSafePosInc checked.packetLength).2 = _
    rw [buffer_eq, packet_eq', packet_eq, frame_length]
  refine ⟨_, THSockServer.recvStep_form_passed waiting enough result, rfl, ?_⟩
  exact
    { holds := by
        show (client.processRequest taken).ring.Holds _
        rw [ring_eq, taken_eq]
        exact (receiving.holds.headSafePosInc long).2
      size_eq := by
        show (client.processRequest taken).ring.bufSize = _
        rw [ring_eq, taken_eq, THCB.headSafePosInc_bufSize]
        exact receiving.size_eq
      dispatched := by
        show (client.processRequest taken).dispatched = _
        rw [log_eq]
        exact congrArg₂ (· ++ [·]) receiving.dispatched current
      status := Or.inl rfl }

/-! ## The loop and the event -/

/-- On a part of the frame the loop stops and waits for more. -/
theorem Receiving.loop_part (receiving : Receiving head body.length log session queue)
    (announces : Announces head body.length) (begins : queue <+: head ++ body)
    (part : queue.length < (head ++ body).length) {fuel : Nat} (enough : 2 ≤ fuel) :
    ∃ next, client.toTHSockServer.recvLoop fuel session = some next ∧
      Receiving head body.length log next queue := by
  obtain ⟨fuel, rfl⟩ := Nat.exists_eq_add_of_le' enough
  have frame_length := announces.frame_length
  have stops {session : Session} (receiving : Receiving head body.length log session queue)
      (waiting : session.status = .ssWaitForm) :
      client.toTHSockServer.recvStep session = none := by
    apply THSockServer.recvStep_form_short waiting
    rcases receiving.status with other | ⟨_, _, _, packet_eq⟩
    · simp [waiting] at other
    · rw [receiving.holds.valid, packet_eq, ← frame_length]
      exact part
  rcases receiving.status with waiting | ⟨waiting, _⟩
  · by_cases short : queue.length < H_HEAD_LEN1
    · have none_left : client.toTHSockServer.recvStep session = none :=
        THSockServer.recvStep_head_short waiting (receiving.holds.valid ▸ short)
      exact ⟨session, THSockServer.recvLoop_of_stop _ none_left, receiving⟩
    · have begins' : head <+: queue := by
        apply List.prefix_of_prefix_length_le (List.prefix_append head body) begins
        rw [announces.length_eq]
        omega
      obtain ⟨next, steps, noted, receiving'⟩ := receiving.note client waiting announces
        begins'
      exact ⟨next, (THSockServer.recvLoop_of_step _ steps).trans
        (THSockServer.recvLoop_of_stop _ (stops receiving' noted)), receiving'⟩
  · exact ⟨session, THSockServer.recvLoop_of_stop _ (stops receiving waiting), receiving⟩

/-- Once the frame is complete the loop dispatches it and goes on with what follows. -/
theorem Receiving.loop_whole (receiving : Receiving head body.length log session queue)
    (announces : Announces head body.length) (whole : head ++ body <+: queue) :
    ∃ middle rounds, rounds ≤ 2 ∧
      (∀ fuel, client.toTHSockServer.recvLoop (fuel + rounds) session =
        client.toTHSockServer.recvLoop fuel middle) ∧
      Receiving head body.length (log ++ [framePacket head body]) middle
        (queue.drop (head ++ body).length) := by
  rcases receiving.status with waiting | ⟨waiting, _⟩
  · obtain ⟨noted, steps, waiting', receiving'⟩ := receiving.note client waiting
      announces ((List.prefix_append head body).trans whole)
    obtain ⟨next, steps', _, complete⟩ := receiving'.complete client waiting' announces
      whole
    refine ⟨next, 2, Nat.le_refl 2, fun fuel => ?_, complete⟩
    exact (THSockServer.recvLoop_of_step _ steps).trans (THSockServer.recvLoop_of_step _ steps')
  · obtain ⟨next, steps, _, complete⟩ := receiving.complete client waiting announces
      whole
    exact ⟨next, 1, by decide, fun fuel => THSockServer.recvLoop_of_step _ steps, complete⟩

/-- A chunk after which the frame is still not complete. -/
theorem Receiving.recv_part (receiving : Receiving head body.length log session queue)
    (announces : Announces head body.length) (small : (head ++ body).length ≤ H_BUFFER_LEN)
    {chunk : List Byte} (begins : queue ++ chunk <+: head ++ body)
    (part : (queue ++ chunk).length < (head ++ body).length) :
    ∃ next, client.toTHSockServer.recvCompletedEvent session chunk = some next ∧
      Receiving head body.length log next (queue ++ chunk) := by
  have written := receiving.write chunk (by omega)
  exact written.loop_part client announces begins part (by omega)

/-- The chunk which ends the frame. -/
theorem Receiving.recv_whole (receiving : Receiving head body.length log session queue)
    (announces : Announces head body.length) (small : (head ++ body).length ≤ H_BUFFER_LEN)
    {chunk : List Byte} (whole : queue ++ chunk = head ++ body) :
    ∃ next, client.toTHSockServer.recvCompletedEvent session chunk = some next ∧
      Receiving head body.length (log ++ [framePacket head body]) next [] := by
  have written := receiving.write chunk (by rw [whole]; exact small)
  obtain ⟨middle, rounds, few, loops, dispatched⟩ :=
    written.loop_whole client announces (whole ▸ List.prefix_refl _)
  rw [whole, List.drop_length] at dispatched
  have valid := written.holds.valid
  rw [whole] at valid
  have frame_pos := announces.frame_pos
  obtain ⟨next, ends, receiving'⟩ := dispatched.loop_part client announces
    List.nil_prefix frame_pos
    (show 2 ≤ 2 * (THSockServer.recvWrite session chunk).ring.validCount + 2 - rounds by omega)
  refine ⟨next, ?_, receiving'⟩
  rw [← ends, ← loops]
  show client.toTHSockServer.recvLoop _ _ = _
  congr 1
  omega

/-- Empty chunks change nothing. -/
theorem Receiving.recv_nothing (receiving : Receiving head body.length log session [])
    (announces : Announces head body.length) (small : (head ++ body).length ≤ H_BUFFER_LEN)
    {chunks : List (List Byte)} (nothing : chunks.flatten = []) :
    ∃ next, run client.toTHSockServer.recvCompletedEvent session chunks = some next ∧
      Receiving head body.length log next [] := by
  induction chunks generalizing session with
  | nil => exact ⟨session, rfl, receiving⟩
  | cons chunk chunks induction =>
      rw [List.flatten_cons, List.append_eq_nil_iff] at nothing
      obtain ⟨rfl, nothing⟩ := nothing
      obtain ⟨middle, received, receiving'⟩ := receiving.recv_part client announces small
        (List.nil_prefix : [] ++ [] <+: head ++ body) announces.frame_pos
      obtain ⟨next, execution, receiving''⟩ := induction receiving' nothing
      exact ⟨next, run_cons_eq_some.mpr ⟨middle, received, execution⟩, receiving''⟩

/-- However the frame is cut into chunks, it is dispatched once. -/
theorem Receiving.recv_frame (receiving : Receiving head body.length log session queue)
    (announces : Announces head body.length) (small : (head ++ body).length ≤ H_BUFFER_LEN)
    {chunks : List (List Byte)} (split : queue ++ chunks.flatten = head ++ body)
    (part : queue.length < (head ++ body).length) :
    ∃ next, run client.toTHSockServer.recvCompletedEvent session chunks = some next ∧
      Receiving head body.length (log ++ [framePacket head body]) next [] := by
  induction chunks generalizing session queue with
  | nil =>
      rw [List.flatten_nil, List.append_nil] at split
      exact absurd (congrArg List.length split) (Nat.ne_of_lt part)
  | cons chunk chunks induction =>
      rw [List.flatten_cons, ← List.append_assoc] at split
      have begins : queue ++ chunk <+: head ++ body := ⟨chunks.flatten, split⟩
      rcases Nat.lt_or_ge (queue ++ chunk).length (head ++ body).length with part' | whole
      · obtain ⟨middle, received, receiving'⟩ := receiving.recv_part client announces
          small begins part'
        obtain ⟨next, execution, receiving''⟩ := induction receiving' split part'
        exact ⟨next, run_cons_eq_some.mpr ⟨middle, received, execution⟩, receiving''⟩
      · have equal : queue ++ chunk = head ++ body := begins.eq_of_length_le whole
        rw [equal] at split
        have nothing : chunks.flatten = [] := List.append_right_eq_self.mp split
        obtain ⟨middle, received, receiving'⟩ := receiving.recv_whole client announces
          small equal
        obtain ⟨next, execution, receiving''⟩ := receiving'.recv_nothing client announces
          small nothing
        exact ⟨next, run_cons_eq_some.mpr ⟨middle, received, execution⟩, receiving''⟩

/-! ## The two encoders -/

/-- An empty ring in `ssWaitHead`. -/
structure Waiting (receiver : Session) : Prop where
  holds : receiver.ring.Holds []
  size_eq : receiver.ring.bufSize = H_BUFFER_LEN
  status : receiver.status = .ssWaitHead

theorem Waiting.receiving {receiver : Session} (waiting : Waiting receiver) (head : List Byte)
    (size : Nat) : Receiving head size receiver.dispatched receiver [] where
  holds := waiting.holds
  size_eq := waiting.size_eq
  dispatched := rfl
  status := Or.inl waiting.status

/-- However the bytes are cut into chunks, exactly one request is dispatched, with this command and
this data, and nothing is left in the ring. -/
def Agrees (receiver : Session) (bytes : List Byte) (command : Nat) (data : List Byte) : Prop :=
  ∀ chunks : List (List Byte), chunks.flatten = bytes →
    ∃ next packet, run client.toTHSockServer.recvCompletedEvent receiver chunks = some next ∧
      next.dispatched = receiver.dispatched ++ [packet] ∧
      htonl (type (memory packet.head)) = command ∧ packet.content = data ∧
      next.ring.validCount = 0

theorem agrees_of_announces {receiver : Session} (waiting : Waiting receiver)
    (announces : Announces head body.length) (small : (head ++ body).length ≤ H_BUFFER_LEN) :
    client.Agrees receiver (head ++ body) (htonl (type (memory head))) body := by
  intro chunks split
  have start := waiting.receiving head body.length
  obtain ⟨next, execution, receiving⟩ := start.recv_frame client announces small
    (split.trans rfl) announces.frame_pos
  exact ⟨next, framePacket head body, execution, receiving.dispatched, rfl, rfl,
    receiving.holds.valid⟩

/-- Whatever follows it, the first frame decides which command can be agreed on. -/
theorem command_of_agrees {receiver : Session} (waiting : Waiting receiver)
    (announces : Announces head body.length) (rest : List Byte) {command : Nat} {data : List Byte}
    (small : (head ++ body ++ rest).length ≤ H_BUFFER_LEN)
    (agrees : client.Agrees receiver (head ++ body ++ rest) command data) :
    htonl (type (memory head)) = command := by
  obtain ⟨next, packet, execution, log_eq, command_eq, _⟩ :=
    agrees [head ++ body ++ rest] List.flatten_singleton
  obtain ⟨last, received, ended⟩ := run_cons_eq_some.mp execution
  obtain rfl : last = next := Option.some.inj ended
  have written := (waiting.receiving head body.length).write (head ++ body ++ rest)
    (by rw [List.nil_append]; exact small)
  obtain ⟨middle, rounds, few, loops, dispatched⟩ :=
    written.loop_whole client announces (List.prefix_append _ _)
  let fuel := 2 * (THSockServer.recvWrite receiver (head ++ body ++ rest)).ring.validCount + 2
  have enough : fuel - rounds + rounds = fuel := by omega
  have grows : client.toTHSockServer.recvLoop (fuel - rounds) middle = some last := by
    rw [← loops, enough]
    exact received
  obtain ⟨more, log_eq'⟩ := client.toTHSockServer.recvLoop_log client.processRequest_log _ grows
  rw [dispatched.dispatched, log_eq, List.append_assoc, List.append_cancel_left_eq] at log_eq'
  obtain ⟨rfl, _⟩ := List.cons.inj log_eq'
  exact command_eq

/-- The head which `SendMsg` hands over. -/
def messageHead (session : Session) (cmd : Byte) (size : Nat) : List Byte :=
  cells (setLen (setType (setSequence (fun _ => 0) (htonl session.context.localSeq.toNat))
    (htonl cmd.toNat)) (htonl size)) 0 H_HEAD_LEN1

/-- The head which `BuildResponse` hands over. -/
def responseHead (responseCode size : Nat) : List Byte :=
  cells (setLen (setType (fun _ => 0) (htons responseCode)) (htonl size)) 0 H_HEAD_LEN1

theorem messageHead_announces (session : Session) (cmd : Byte) {size : Nat}
    (size_le : size ≤ H_PROTO_MAX_LEN) : Announces (messageHead session cmd size) size where
  length_eq := cells_length _ _ _
  len_eq := by
    have bound : size ≤ 4096 := size_le
    rw [messageHead, len, load_cells _ (by decide), setLen, load_store _ _ (htonl_lt size),
      htonl_htonl (by omega)]
  size_le := size_le

theorem messageHead_type (session : Session) (cmd : Byte) (size : Nat) :
    htonl (type (memory (messageHead session cmd size))) = cmd.toNat := by
  have bound := cmd.toNat_lt
  rw [messageHead, type, load_cells _ (by decide), setLen,
    load_store_of_ne _ _ (Or.inr (by decide)), setType, load_store _ _ (htonl_lt _),
    htonl_htonl (by omega)]

theorem responseHead_announces (responseCode : Nat) {size : Nat}
    (size_le : size ≤ H_PROTO_MAX_LEN) : Announces (responseHead responseCode size) size where
  length_eq := cells_length _ _ _
  len_eq := by
    have bound : size ≤ 4096 := size_le
    rw [responseHead, len, load_cells _ (by decide), setLen, load_store _ _ (htonl_lt size),
      htonl_htonl (by omega)]
  size_le := size_le

/-- The decoder finds the response code in the upper half of the type. -/
theorem responseHead_type {responseCode : Nat} (small : responseCode < 65536) (size : Nat) :
    htonl (type (memory (responseHead responseCode size))) = responseCode * 65536 := by
  have bound := htons_lt responseCode
  rw [responseHead, type, load_cells _ (by decide), setLen,
    load_store_of_ne _ _ (Or.inr (by decide)), setType, load_store _ _ (by omega),
    htonl_htons small]

/-- The head of an acknowledgement. -/
def ackHead (head : Nat → Byte) : Nat → Byte :=
  setLen (setSequence (setType head 1) (htons msg_cmd_ack2)) 0

theorem ackHead_announces (head : Nat → Byte) :
    Announces (cells (ackHead head) 0 H_HEAD_LEN1) 0 where
  length_eq := cells_length _ _ _
  len_eq := by
    rw [len, load_cells _ (by decide), ackHead, setLen, load_store _ _ (by decide)]
    rfl
  size_le := by decide

theorem ackHead_type (head : Nat → Byte) :
    htonl (type (memory (cells (ackHead head) 0 H_HEAD_LEN1))) = 16777216 := by
  rw [type, load_cells _ (by decide), ackHead, setLen, load_store_of_ne _ _ (Or.inr (by decide)),
    setSequence, load_store_of_ne _ _ (Or.inr (by decide)), setType, load_store _ _ (by decide)]
  rfl

/-- A call of one of the two encoders. -/
inductive Encoder
  /-- `BuildResponse(safe = true)` on the response of the sender. -/
  | buildResponse
  /-- `SendMsg` with `compress = false`. -/
  | sendMsg (cmd : Byte) (buf : List Byte)

namespace Encoder

variable (sender : Session)

def send : Encoder → Session
  | buildResponse => Client.buildResponse sender true
  | sendMsg cmd buf => client.sendMsg sender cmd buf false []

/-- The bytes which the call passes to `SendData`. -/
def bytes (encoder : Encoder) : List Byte :=
  ((encoder.send client sender).sent.drop sender.sent.length).flatten

def command : Encoder → Nat
  | buildResponse => sender.context.response.responseCode
  | sendMsg cmd _ => cmd.toNat

def data : Encoder → List Byte
  | buildResponse => sender.context.response.responseStream
  | sendMsg _ buf => buf

/-- The values of the call: a code of 16 bits that is not `msg_cmd_unknown`, and 1 to 4000 bytes. -/
structure InRange (encoder : Encoder) : Prop where
  command_pos : encoder = buildResponse → 1 ≤ encoder.command sender
  command_le : encoder.command sender ≤ 65535
  data_pos : 1 ≤ (encoder.data sender).length
  data_le : (encoder.data sender).length ≤ 4000

end Encoder

/-! ## Agreement -/

theorem sendMsg_bytes (sender : Session) (cmd : Byte) {buf : List Byte} (short : buf.length < 65536) :
    Encoder.bytes client sender (.sendMsg cmd buf) = messageHead sender cmd buf.length ++ buf := by
  have data_eq : buf.take (buf.length % 65536) = buf := by
    rw [Nat.mod_eq_of_lt short, List.take_length]
  simp only [Encoder.bytes, Encoder.send, sendMsg, Bool.false_and, Bool.false_eq_true, if_false,
    data_eq, sendData, List.append_assoc, List.drop_left, messageHead]
  simp

/-- Any body which the receiver accepts and its ring can hold. -/
theorem sendMsg_agrees {receiver : Session} (waiting : Waiting receiver) (sender : Session)
    (cmd : Byte) {buf : List Byte} (fits : buf.length + H_HEAD_LEN1 ≤ H_BUFFER_LEN) :
    client.Agrees receiver (Encoder.bytes client sender (.sendMsg cmd buf)) cmd.toNat buf := by
  have bound : buf.length + 12 ≤ 4096 := fits
  have announces := messageHead_announces sender cmd
    (show buf.length ≤ H_PROTO_MAX_LEN from Nat.le_of_add_right_le fits)
  have agrees := client.agrees_of_announces waiting announces (announces.frame_length ▸ fits)
  rw [messageHead_type] at agrees
  rw [client.sendMsg_bytes sender cmd (by omega)]
  exact agrees

/-- What `BuildResponse` hands over: an acknowledgement if it is asked for, then the frame. -/
theorem buildResponse_bytes (sender : Session)
    (known : sender.context.response.responseCode ≠ msg_cmd_unknown)
    (short : sender.context.response.responseStream.length < 65536) :
    Encoder.bytes client sender .buildResponse =
      (if sender.context.response.autoAcknowledge then
        cells (ackHead sender.context.request.head) 0 H_HEAD_LEN2 else []) ++
      (responseHead sender.context.response.responseCode
          sender.context.response.responseStream.length ++
        sender.context.response.responseStream) := by
  have data_eq : sender.context.response.responseStream.take
      (sender.context.response.responseStream.length % 65536) =
        sender.context.response.responseStream := by
    rw [Nat.mod_eq_of_lt short, List.take_length]
  simp only [Encoder.bytes, Encoder.send, buildResponse, if_neg known, data_eq, if_true]
  cases sender.context.response.autoAcknowledge with
  | false => simp [sendData, responseHead]
  | true => simp [sendData, responseHead, acknoledge, ackHead, Session.withRequest]

/-- No response is agreed on: the decoder finds another command. -/
theorem buildResponse_disagrees {receiver : Session} (waiting : Waiting receiver) {sender : Session}
    (inRange : Encoder.InRange sender .buildResponse) :
    ¬ client.Agrees receiver (Encoder.bytes client sender .buildResponse)
      (Encoder.command sender .buildResponse) (Encoder.data sender .buildResponse) := by
  intro agrees
  have code_pos : 1 ≤ sender.context.response.responseCode := inRange.command_pos rfl
  have code_le : sender.context.response.responseCode ≤ 65535 := inRange.command_le
  have data_le : sender.context.response.responseStream.length ≤ 4000 := inRange.data_le
  have head_length : (responseHead sender.context.response.responseCode
      sender.context.response.responseStream.length).length = 12 := cells_length _ _ _
  rw [client.buildResponse_bytes sender (Nat.ne_of_gt code_pos) (by omega)] at agrees
  cases acknowledges : sender.context.response.autoAcknowledge with
  | false =>
      simp only [acknowledges, Bool.false_eq_true, if_false, List.nil_append] at agrees
      have announces := responseHead_announces sender.context.response.responseCode
        (show sender.context.response.responseStream.length ≤ H_PROTO_MAX_LEN by
          exact Nat.le_trans data_le (by decide))
      have command := client.command_of_agrees waiting announces [] (by
        rw [List.append_nil, announces.frame_length]
        exact Nat.le_trans (Nat.add_le_add_right data_le _) (by decide))
        (by rw [List.append_nil]; exact agrees)
      rw [responseHead_type (by omega)] at command
      change sender.context.response.responseCode * 65536 =
        sender.context.response.responseCode at command
      omega
  | true =>
      have cut : cells (ackHead sender.context.request.head) 0 H_HEAD_LEN2 =
          cells (ackHead sender.context.request.head) 0 H_HEAD_LEN1 ++ [] ++
            cells (ackHead sender.context.request.head) 12 4 := by
        rw [List.append_nil]
        exact cells_add _ 0 H_HEAD_LEN1 4
      simp only [acknowledges, if_true, cut] at agrees
      rw [List.append_assoc _ (cells _ 12 4)] at agrees
      have command := client.command_of_agrees waiting
        (ackHead_announces sender.context.request.head) _ (by
          simp only [List.length_append, cells_length, head_length, List.length_nil]
          show _ ≤ 4096
          have head_len : H_HEAD_LEN1 = 12 := rfl
          omega) agrees
      rw [ackHead_type] at command
      change 16777216 = sender.context.response.responseCode at command
      omega

/-- The frame agreement holds of the frames of `SendMsg` and of no frame of `BuildResponse`. -/
theorem frame_agrees_iff {receiver : Session} (waiting : Waiting receiver) (sender : Session)
    {encoder : Encoder} (inRange : encoder.InRange sender) :
    client.Agrees receiver (encoder.bytes client sender) (encoder.command sender)
        (encoder.data sender) ↔
      ∃ cmd buf, encoder = .sendMsg cmd buf := by
  constructor
  · intro agrees
    cases encoder with
    | buildResponse => exact absurd agrees (client.buildResponse_disagrees waiting inRange)
    | sendMsg cmd buf => exact ⟨cmd, buf, rfl⟩
  · rintro ⟨cmd, buf, rfl⟩
    apply client.sendMsg_agrees waiting sender cmd
    exact Nat.le_trans (Nat.add_le_add_right inRange.data_le _) (by decide)

/-! ## A frame of each encoder -/

/-- A server without responders. -/
def idleClient : Client where
  responders _ := none
  serverCount := 1
  gzCompress _ := ([], false)

/-- A new context which is about to answer with these values. -/
def answering (responseCode : Nat) (responseStream : List Byte) : Session where
  context :=
    { TeWiFiClient.newContext (fun _ => 0) (fun _ => 0) (fun _ => 0) (fun _ => 0) with
      response :=
        { responseCode, responseStream, abortGZIP := false, autoAcknowledge := false } }
  dispatched := []
  sent := []

theorem answering_waiting (responseCode : Nat) (responseStream : List Byte) :
    Waiting (answering responseCode responseStream) where
  holds := THCB.new_holds (by decide) _
  size_eq := rfl
  status := rfl

theorem frame_agrees_iff_heartbeat :
    idleClient.Agrees (answering 200 [])
        (Encoder.bytes idleClient (answering 200 []) (.sendMsg 11 [1, 2, 3])) 11 [1, 2, 3] ↔
      ∃ cmd buf, Encoder.sendMsg 11 [1, 2, 3] = .sendMsg cmd buf :=
  idleClient.frame_agrees_iff (answering_waiting 200 []) (answering 200 [])
    ⟨by simp, by decide, by decide, by decide⟩

/-- Code 1 with one byte is dispatched as command 65536. -/
theorem response_misread :
    Encoder.InRange (answering 1 [7]) .buildResponse ∧ Waiting (answering 200 []) ∧
      ¬ idleClient.Agrees (answering 200 [])
        (Encoder.bytes idleClient (answering 1 [7]) .buildResponse) 1 [7] := by
  have inRange : Encoder.InRange (answering 1 [7]) .buildResponse :=
    ⟨fun _ => by decide, by decide, by decide, by decide⟩
  exact ⟨inRange, answering_waiting 200 [],
    idleClient.buildResponse_disagrees (answering_waiting 200 []) inRange⟩

end Client
end CommonLib
