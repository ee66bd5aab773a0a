import CommonLib.Hlib.Crc32c
import CommonLib.Hlib.SockServer

/-!
# The client server of `ewifi_client.cpp`

`TeWiFiClient` supplies the head and body checks of the `msg_head2` protocol, dispatches commands to
registered responders and answers through `SendData`.  Fields of the head are big-endian; the
decompressor, the compressor and the registered responders are parameters.
-/

namespace CommonLib

/-! ## The protocol of `ap_type2s.hpp` -/

/-- The two bytes `"sw"`. -/
def H_PROTO_LOGO : Nat := 29559
def H_PROTO_VER : Nat := 1
def H_PROTO_NEO_VER : Nat := 2
def H_PROTO_MAX_LEN : Nat := 4096
/-- `sizeof(msg_head2)`. -/
def H_HEAD_LEN2 : Nat := 16
/-- The size of a context's ring. -/
def H_BUFFER_LEN : Nat := 4096
def mhf_NONE : Byte := 0
def mhf_GZIP : Byte := 1
def msg_cmd_unknown : Nat := 0
def msg_cmd_ack2 : Nat := 11

namespace MsgHead2

/-- The big-endian 16-bit field at `offset`. -/
def word (head : Nat → Byte) (offset : Nat) : Nat :=
  (head offset).toNat * 256 + (head (offset + 1)).toNat

def logo (head : Nat → Byte) : Nat := word head 0
def ver (head : Nat → Byte) : Nat := (head 2).toNat
def flag (head : Nat → Byte) : Byte := head 3
def cmd (head : Nat → Byte) : Nat := word head 4
def len (head : Nat → Byte) : Nat := word head 6
def crc (head : Nat → Byte) : UInt32 :=
  UInt32.ofNat (word head 8 * 65536 + word head 10)

/-- Store a 16-bit value in network order. -/
def setWord (head : Nat → Byte) (offset value : Nat) : Nat → Byte :=
  move [UInt8.ofNat (value / 256), UInt8.ofNat value] head offset

/-- Store a 32-bit value in network order. -/
def setLong (head : Nat → Byte) (offset : Nat) (value : UInt32) : Nat → Byte :=
  setWord (setWord head offset (value.toNat / 65536)) (offset + 2) (value.toNat % 65536)

end MsgHead2

/-- What a command responder does to the context it serves. -/
structure CmdResult where
  response : THResponse
  logined : Bool
  /-- The responder called `CloseContext`. -/
  closes : Bool
  /-- The responder threw an exception, which `DispatchCommand` catches. -/
  throws : Bool

/-- A responder sees the requests dispatched on the connection, the current one last. -/
abbrev THCmdResponder := List Packet → CmdResult

/-- The parameters of the server. -/
structure TeWiFiClient where
  /-- The responders registered with `RegisterCommandHandler`. -/
  responders : Nat → Option THCmdResponder
  /-- `Option.Net.ServerIndex->Count()`. -/
  serverCount : Nat
  /-- `GZDecompress`: the bytes written and whether it succeeded. -/
  gzDecompress : List Byte → List Byte × Bool
  /-- `GZCompress`: the bytes written and whether it succeeded. -/
  gzCompress : List Byte → List Byte × Bool

namespace TeWiFiClient

variable (client : TeWiFiClient)

/-! ## Checks -/

/-- `TeWiFiClient::OnCheckPacketHead`. -/
def onCheckPacketHead (req : THRequest) : Bool × THRequest :=
  if MsgHead2.logo req.head = H_PROTO_LOGO then
    if MsgHead2.ver req.head ≤ H_PROTO_NEO_VER then
      let hl := MsgHead2.len req.head
      if hl ≤ H_PROTO_MAX_LEN then
        (true, { req with formLength := hl, packetLength := hl + H_HEAD_LEN2 })
      else (false, req)
    else (false, req)
  else (false, req)

/-- `TeWiFiClient::OnCheckPacketBody`. -/
def onCheckPacketBody (req : THRequest) : Bool × THRequest :=
  if MsgHead2.len req.head = 0 then (true, req)
  else
    let crc := crc32c 0 (cells req.body 0 req.formLength)
    if crc ≠ MsgHead2.crc req.head then (false, req)
    else if MsgHead2.flag req.head &&& mhf_GZIP ≠ 0 then
      let (output, ok) := client.gzDecompress (cells req.body 0 req.formLength)
      let req := { req with content := move output req.content 0 }
      if ok then (true, { req with contentLength := output.length, data := .content })
      else (true, { req with contentLength := req.formLength, data := .body })
    else (true, { req with contentLength := req.formLength, data := .body })

/-! ## Closing and opening a connection -/

/-- `TeWiFiClient::OnClose`, on the context; the channel table is left to the channel bookkeeping. -/
def onClose (context : THSockContext) : THSockContext :=
  { context with
    sessionStatus := .ssWaitHead
    response := { context.response with responseCode := 200, abortGZIP := false,
                                        responseStream := [] }
    connected := false
    logined := false
    tag := if context.tag > -1 ∧ context.tag < client.serverCount then -1 else context.tag }

/-- `THContext::KillSocket`, on the context. -/
def killSocket (context : THSockContext) : THSockContext :=
  if context.killed then context
  else { client.onClose { context with killed := true, postClose := false } with
    connected := false }

/-- `THContext::CloseSocket`. -/
def closeSocket (context : THSockContext) : THSockContext :=
  if context.killed ∨ context.postClose then context
  else client.killSocket { context with postClose := true }

/-- `THSockServer::CloseContext`. -/
def closeContext (context : THSockContext) : THSockContext :=
  client.closeSocket { context with sessionStatus := .ssWaitClose }

/-! ## Answering -/

/-- `THContext::SendData`, as far as the session goes: the payload is handed over. -/
def sendData (session : Session) (payload : List Byte) : Session :=
  { session with sent := session.sent ++ [payload] }

/-- `TeWiFiClient::Acknoledge`. -/
def acknoledge (session : Session) : Session :=
  let req := session.context.request
  let head := Function.update req.head 2 (UInt8.ofNat H_PROTO_NEO_VER)
  let head := Function.update head 3 mhf_NONE
  let head := MsgHead2.setWord head 4 msg_cmd_ack2
  let head := MsgHead2.setWord head 6 0
  sendData (session.withRequest { req with head }) (cells head 0 H_HEAD_LEN2)

/-- `TeWiFiClient::BuildResponse`.  With `safe` the head is a local one, else the request's own. -/
def buildResponse (session : Session) (safe : Bool) : Session :=
  let resp := session.context.response
  let session := if resp.autoAcknowledge then acknoledge session else session
  if resp.responseCode = msg_cmd_unknown then session
  else
    let req := session.context.request
    let head := if safe then MsgHead2.setWord (fun _ => 0) 0 H_PROTO_LOGO else req.head
    let head := Function.update head 2 (UInt8.ofNat H_PROTO_NEO_VER)
    let head := Function.update head 3 mhf_NONE
    let head := MsgHead2.setLong head 12 session.context.localSeq
    let head := MsgHead2.setWord head 4 resp.responseCode
    let (output, zipped) :=
      if !resp.abortGZIP && decide (resp.responseStream.length > 1000) then
        client.gzCompress resp.responseStream
      else ([], false)
    let content := move output req.content 0
    let head := if zipped then Function.update head 3 (mhf_NONE ||| mhf_GZIP) else head
    let source := if zipped then output else resp.responseStream
    -- `data_len` has 16 bits
    let data := source.take (source.length % 65536)
    let head := MsgHead2.setWord head 6 data.length
    let head := MsgHead2.setLong head 8 (crc32c 0 data)
    let req := { req with content, head := if safe then req.head else head }
    let context := { session.context with
      request := req
      localSeq := session.context.localSeq + 1
      response := { resp with responseStream := [] }
      sessionStatus := .ssWaitHead }
    sendData (sendData { session with context } (cells head 0 H_HEAD_LEN2)) data

/-- `TeWiFiClient::SendMsg`.  Every byte of the local head is set. -/
def sendMsg (session : Session) (cmd : Byte) (buf : List Byte) (compress : Bool) : Session :=
  let head := MsgHead2.setWord (fun _ => 0) 0 H_PROTO_LOGO
  let head := Function.update head 2 (UInt8.ofNat H_PROTO_VER)
  let head := Function.update head 3 mhf_NONE
  let head := MsgHead2.setLong head 12 session.context.localSeq
  let head := MsgHead2.setWord head 4 cmd.toNat
  let (output, zipped) :=
    if compress && decide (buf.length > 0) then client.gzCompress buf else ([], false)
  let head := if zipped then Function.update head 3 (mhf_NONE ||| mhf_GZIP) else head
  let source := if zipped then output else buf
  -- `data_len` has 16 bits
  let data := source.take (source.length % 65536)
  let head := MsgHead2.setWord head 6 data.length
  let head := MsgHead2.setLong head 8 (crc32c 0 data)
  let context := { session.context with
    localSeq := session.context.localSeq + 1
    sessionStatus := .ssWaitHead }
  sendData (sendData { session with context } (cells head 0 H_HEAD_LEN2)) data

/-- `DispatchCommand` for command `cmd`: whether the command was handled. -/
def dispatchCommand (session : Session) (cmd : Nat) : Bool × Session :=
  let context := session.context
  let unknown (context : THSockContext) : THSockContext :=
    { context with response := { context.response with responseCode := msg_cmd_unknown } }
  match client.responders cmd with
  | none => (false, { session with context := unknown context })
  | some responder =>
      let result := responder session.dispatched
      let context := { context with response := result.response, logined := result.logined }
      let context := if result.closes then client.closeContext context else context
      if result.throws then (false, { session with context := unknown context })
      else (true, { session with context })

/-- `TeWiFiClient::ProcessRequest`; the request is recorded before it is dispatched. -/
def processRequest (session : Session) : Session :=
  let req := session.context.request
  let packet : Packet :=
    { head := cells req.head 0 H_HEAD_LEN2
      body := cells req.body 0 req.formLength
      content := req.dataBytes }
  let session := { session with dispatched := session.dispatched ++ [packet] }
  let (handled, session) := client.dispatchCommand session (MsgHead2.cmd req.head)
  if handled then client.buildResponse session false
  else { session with context := client.closeContext session.context }

/-- The virtual methods of `TeWiFiClient`. -/
def toTHSockServer : THSockServer where
  headLen := H_HEAD_LEN2
  onCheckPacketHead := onCheckPacketHead
  onCheckPacketBody := client.onCheckPacketBody
  processRequest := client.processRequest

/-! ## The life of a context -/

/-- `THSockContext::THSockContext`, on arbitrary contents of the allocated arrays. -/
def newContext (head body content ring : Nat → Byte) : THSockContext where
  tag := -1
  postClose := false
  connected := false
  killed := false
  sessionStatus := .ssWaitHead
  request :=
    { contentLength := 0, formLength := 0, packetLength := 0, head, body, data := .body, content
      buffer := THCB.new H_BUFFER_LEN ring }
  response :=
    { responseCode := 200, responseStream := [], abortGZIP := false, autoAcknowledge := false }
  localSeq := 0
  peerSeq := 0
  logined := false

/-- `THContext::SetSocket`, the channel tag of the server loop and `TeWiFiClient::OnNew`; the log of
requests starts again. -/
def connect (session : Session) (tag : Int) : Session :=
  let context := { session.context with
    tag
    postClose := false
    killed := false
    localSeq := 0
    peerSeq := 0
    response := { session.context.response with autoAcknowledge := false, abortGZIP := false }
    connected := true
    logined := false }
  client.buildResponse { context, dispatched := [], sent := [] } true

/-- What happens to a context between its creation and its last use. -/
inductive Event
  /-- The context is taken for a new connection. -/
  | connect (tag : Int)
  /-- `recv` returned a chunk. -/
  | recv (chunk : List Byte)
  /-- The peer closed the connection, `recv` failed or the server killed the socket. -/
  | kill
  /-- The server closes the context, as `ClearConnection` does. -/
  | close

/-- One event; only connected contexts are polled, closed and killed, only others are reused. -/
def step (session : Session) : Event → Option Session
  | .connect tag =>
      if session.context.connected then none else some (client.connect session tag)
  | .recv chunk =>
      if session.context.connected ∧ 0 < chunk.length ∧ chunk.length ≤ H_BUFFER_LEN then
        client.toTHSockServer.recvCompletedEvent session chunk
      else none
  | .kill =>
      if session.context.connected then
        some { session with context := client.killSocket session.context }
      else none
  | .close =>
      if session.context.connected then
        some { session with context := client.closeContext session.context }
      else none

end TeWiFiClient
end CommonLib
