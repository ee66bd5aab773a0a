import CommonLib.Hlib.CirBuffer

/-!
# Sessions of the socket server of `scksvr.cpp`

A `THSockContext` carries the parser state of one connection and is reused for later connections.
`RecvCompletedEvent` appends a received chunk to the context's ring and runs the parser until it
needs more bytes.  The checks and the request handling are virtual methods; `THSockServer` is the
record of those which a derived server supplies.
-/

namespace CommonLib

inductive THSessionStatus
  | ssWaitHead | ssWaitForm | ssProcessing | ssWaitOutput | ssWaitClose
  deriving DecidableEq, Repr

/-- What the pointer `Request->Data` refers to. -/
inductive DataPointer
  | body | content
  deriving DecidableEq

/-- The request under construction; `head`, `body` and `content` are its allocated arrays. -/
structure THRequest where
  contentLength : Nat
  formLength : Nat
  packetLength : Nat
  head : Nat → Byte
  body : Nat → Byte
  data : DataPointer
  content : Nat → Byte
  buffer : THCB

structure THResponse where
  responseCode : Nat
  responseStream : List Byte
  abortGZIP : Bool
  autoAcknowledge : Bool

structure THSockContext where
  tag : Int
  postClose : Bool
  connected : Bool
  killed : Bool
  sessionStatus : THSessionStatus
  request : THRequest
  response : THResponse
  localSeq : UInt32
  peerSeq : UInt32
  logined : Bool

/-- A request as `ProcessRequest` finds it: the head, the body and the (expanded) content. -/
structure Packet where
  head : List Byte
  body : List Byte
  content : List Byte
  deriving DecidableEq

/-- A context together with the requests dispatched on its current connection and the payloads
handed to `SendData`. -/
structure Session where
  context : THSockContext
  dispatched : List Packet
  sent : List (List Byte)

/-- The virtual methods of a derived server which the parser calls. -/
structure THSockServer where
  headLen : Nat
  onCheckPacketHead : THRequest → Bool × THRequest
  onCheckPacketBody : THRequest → Bool × THRequest
  processRequest : Session → Session

namespace Session

/-- The bytes waiting in the ring. -/
abbrev ring (session : Session) : THCB := session.context.request.buffer

abbrev status (session : Session) : THSessionStatus := session.context.sessionStatus

/-- Update the request of the session's context. -/
def withRequest (session : Session) (request : THRequest) : Session :=
  { session with context := { session.context with request } }

def withStatus (session : Session) (sessionStatus : THSessionStatus) : Session :=
  { session with context := { session.context with sessionStatus } }

@[simp] theorem withStatus_dispatched (session : Session) (sessionStatus : THSessionStatus) :
    (session.withStatus sessionStatus).dispatched = session.dispatched := rfl

end Session

namespace THRequest

/-- Copy ring bytes `pos, …, pos + len - 1` to an array; nothing is copied when they are missing. -/
def fetch (request : THRequest) (array : Nat → Byte) (len pos : Nat) : Nat → Byte :=
  match request.buffer.getBufferData len pos with
  | some bytes => move bytes array 0
  | none => array

/-- Bytes which the ring holds are copied to the front of the array. -/
theorem cells_fetch {request : THRequest} {queue : List Byte}
    (holds : request.buffer.Holds queue) (array : Nat → Byte) {len pos : Nat} (positive : 0 < len)
    (inside : pos + len ≤ queue.length) :
    cells (request.fetch array len pos) 0 len = (queue.drop pos).take len := by
  have fetched := holds.getBufferData len pos positive inside
  have length_eq : ((queue.drop pos).take len).length = len := by
    rw [List.length_take, List.length_drop]
    omega
  have moved := cells_move ((queue.drop pos).take len) array 0
  rw [length_eq] at moved
  simp only [fetch, fetched]
  exact moved

/-- Copy the body of a complete packet, which follows the head in the ring. -/
def loadBody (request : THRequest) (headLen : Nat) : THRequest :=
  if request.formLength < 1 then { request with contentLength := 0 }
  else
    { request with
      body := request.fetch request.body request.formLength headLen
      contentLength := request.formLength }

/-- `Request->Buffer->HeadSafePosInc`. -/
def skip (request : THRequest) (step : Nat) : THRequest :=
  { request with buffer := (request.buffer.headSafePosInc step).2 }

/-- The bytes behind `Request->Data`. -/
def dataBytes (request : THRequest) : List Byte :=
  match request.data with
  | .body => cells request.body 0 request.contentLength
  | .content => cells request.content 0 request.contentLength

end THRequest

namespace THSockServer

variable (server : THSockServer)

/-- One round of the loop in `RecvCompletedEvent`; `none` when `checksign` stays `false`. -/
def recvStep (session : Session) : Option Session :=
  let req := session.context.request
  let j := req.buffer.validCount
  match session.status with
  | .ssWaitHead =>
      if j ≥ server.headLen then
        let req := { req with head := req.fetch req.head server.headLen 0 }
        let (accepted, req) := server.onCheckPacketHead req
        if accepted then
          some ((session.withRequest req).withStatus .ssWaitForm)
        else
          some (session.withRequest (req.skip 1))
      else none
  | .ssWaitForm =>
      if j ≥ req.packetLength then
        let (passed, req) := server.onCheckPacketBody (req.loadBody server.headLen)
        if passed then
          let session := session.withRequest (req.skip req.packetLength)
          let session := server.processRequest (session.withStatus .ssProcessing)
          -- whatever the request handler left in the status is overwritten
          some (session.withStatus .ssWaitHead)
        else
          some ((session.withRequest (req.skip 1)).withStatus .ssWaitHead)
      else none
  | _ => none

section

variable {server} {session : Session} {req : THRequest}

theorem recvStep_head_short (waiting : session.status = .ssWaitHead)
    (short : session.ring.validCount < server.headLen) : server.recvStep session = none := by
  have few : ¬ session.context.request.buffer.validCount ≥ server.headLen := by
    simpa using short
  simp only [recvStep, waiting, if_neg few]

/-- The head under construction once `headLen` bytes are there. -/
def loadHead (server : THSockServer) (session : Session) : THRequest :=
  { session.context.request with
    head := session.context.request.fetch session.context.request.head server.headLen 0 }

theorem recvStep_head_accepted (waiting : session.status = .ssWaitHead)
    (enough : server.headLen ≤ session.ring.validCount)
    (checked : server.onCheckPacketHead (server.loadHead session) = (true, req)) :
    server.recvStep session = some ((session.withRequest req).withStatus .ssWaitForm) := by
  have enough' : session.context.request.buffer.validCount ≥ server.headLen := enough
  rw [loadHead] at checked
  simp only [recvStep, waiting, if_pos enough', checked, if_true]

theorem recvStep_head_refused (waiting : session.status = .ssWaitHead)
    (enough : server.headLen ≤ session.ring.validCount)
    (checked : server.onCheckPacketHead (server.loadHead session) = (false, req)) :
    server.recvStep session = some ((session.withRequest (req.skip 1)).withStatus .ssWaitHead) := by
  have enough' : session.context.request.buffer.validCount ≥ server.headLen := enough
  have same : (session.withRequest (req.skip 1)).withStatus .ssWaitHead =
      session.withRequest (req.skip 1) := by
    rw [← waiting]
    rfl
  rw [loadHead] at checked
  simp [recvStep, waiting, enough', checked, same]

theorem recvStep_form_short (waiting : session.status = .ssWaitForm)
    (short : session.ring.validCount < session.context.request.packetLength) :
    server.recvStep session = none := by
  have few : ¬ session.context.request.buffer.validCount ≥
      session.context.request.packetLength := by
    simpa using short
  simp only [recvStep, waiting, if_neg few]

theorem recvStep_form_passed (waiting : session.status = .ssWaitForm)
    (enough : session.context.request.packetLength ≤ session.ring.validCount)
    (checked : server.onCheckPacketBody (session.context.request.loadBody server.headLen) =
      (true, req)) :
    server.recvStep session = some ((server.processRequest
      ((session.withRequest (req.skip req.packetLength)).withStatus .ssProcessing)).withStatus
        .ssWaitHead) := by
  have enough' : session.context.request.buffer.validCount ≥
      session.context.request.packetLength := enough
  simp only [recvStep, waiting, if_pos enough', checked, if_true]

theorem recvStep_form_failed (waiting : session.status = .ssWaitForm)
    (enough : session.context.request.packetLength ≤ session.ring.validCount)
    (checked : server.onCheckPacketBody (session.context.request.loadBody server.headLen) =
      (false, req)) :
    server.recvStep session = some ((session.withRequest (req.skip 1)).withStatus .ssWaitHead) := by
  have enough' : session.context.request.buffer.validCount ≥
      session.context.request.packetLength := enough
  simp [recvStep, waiting, enough', checked]

end

/-- The loop of `RecvCompletedEvent`; `fuel` bounds the number of rounds. -/
def recvLoop : Nat → Session → Option Session
  | 0, _ => none
  | fuel + 1, session =>
      match server.recvStep session with
      | none => some session
      | some next => recvLoop fuel next

theorem recvLoop_of_step {fuel : Nat} {session next : Session}
    (steps : server.recvStep session = some next) :
    server.recvLoop (fuel + 1) session = server.recvLoop fuel next := by
  rw [recvLoop, steps]

theorem recvLoop_of_stop {fuel : Nat} {session : Session}
    (stops : server.recvStep session = none) :
    server.recvLoop (fuel + 1) session = some session := by
  rw [recvLoop, stops]

/-- Append the received chunk to the ring; the result of `WriteCirBuffer` is ignored. -/
def recvWrite (session : Session) (chunk : List Byte) : Session :=
  session.withRequest
    { session.context.request with buffer := (session.ring.writeCirBuffer chunk).2 }

/-- `THSockServer::RecvCompletedEvent`.  A byte in the ring costs at most two rounds. -/
def recvCompletedEvent (session : Session) (chunk : List Byte) : Option Session :=
  let session := recvWrite session chunk
  server.recvLoop (2 * session.ring.validCount + 2) session

/-! ## The log of requests -/

/-- A round only adds to the log if the request handling does. -/
theorem recvStep_log
    (grows : ∀ session, session.dispatched <+: (server.processRequest session).dispatched)
    {session next : Session} (steps : server.recvStep session = some next) :
    session.dispatched <+: next.dispatched := by
  cases status : session.status with
  | ssWaitHead =>
      simp only [recvStep, status] at steps
      split at steps
      · split at steps <;> obtain rfl := Option.some.inj steps <;> exact List.prefix_refl _
      · exact absurd steps (by simp)
  | ssWaitForm =>
      simp only [recvStep, status] at steps
      split at steps
      · split at steps
        · obtain rfl := Option.some.inj steps
          rw [Session.withStatus_dispatched]
          apply List.IsPrefix.trans _ (grows _)
          exact List.prefix_refl _
        · obtain rfl := Option.some.inj steps
          exact List.prefix_refl _
      · exact absurd steps (by simp)
  | ssProcessing => simp [recvStep, status] at steps
  | ssWaitOutput => simp [recvStep, status] at steps
  | ssWaitClose => simp [recvStep, status] at steps

theorem recvLoop_log
    (grows : ∀ session, session.dispatched <+: (server.processRequest session).dispatched)
    (fuel : Nat) {session next : Session} (loops : server.recvLoop fuel session = some next) :
    session.dispatched <+: next.dispatched := by
  induction fuel generalizing session with
  | zero => simp [recvLoop] at loops
  | succ fuel induction =>
      cases steps : server.recvStep session with
      | none =>
          rw [server.recvLoop_of_stop steps] at loops
          obtain rfl := Option.some.inj loops
          exact List.prefix_refl _
      | some middle =>
          rw [server.recvLoop_of_step steps] at loops
          exact (server.recvStep_log grows steps).trans (induction loops)

end THSockServer
end CommonLib
