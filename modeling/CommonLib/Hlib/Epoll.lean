import CommonLib.Hlib.BufferMgr
import CommonLib.Hlib.Cache

/-!
# The send side of the epoll server of `hepoll.cpp`

`SendData` cuts a payload into a chain of transfer buffers and adds the chain to the send cache;
each pass of `cache->Loop` offers every queued chain to `WriteSocket`, which sends its first buffer.
Contexts and cache blocks are referred to by their indices, and what the kernel takes from `send` is
recorded in `outgoing`.
-/

namespace CommonLib

open Execution

structure THContext where
  next : Option Nat
  uid : Int
  socket : Int
  isUsing : Bool
  postClose : Bool
  connected : Bool
  killed : Bool
  recvBuf : Nat

/-- The pool of contexts; `current` heads the chain of unused ones. -/
structure THContextMgr where
  size : Nat
  count : Int
  current : Option Nat
  contexts : Nat → THContext

/-- Bytes of a context which `send` took on a socket. -/
structure Outgoing where
  context : Nat
  socket : Int
  bytes : List Byte
  deriving DecidableEq

structure THEpollServer where
  /-- `H_BUF_LEN`, 4096 unless it is configured. -/
  bufLen : Nat
  one_lt : 1 < bufLen
  bufferMgr : THBufferMgr
  contextMgr : THContextMgr
  cache : THQCache Nat
  outgoing : List Outgoing

/-- What `send` returns: a byte count, or `SOCKET_ERROR` with `EAGAIN` or another error. -/
inductive SendResult
  | sent (count : Nat)
  | again
  | failed

namespace THContextMgr

/-- `THContextMgr::GetContext`. -/
def getContext (mgr : THContextMgr) : Option Nat × THContextMgr :=
  match mgr.current with
  | none => (none, mgr)
  | some ret =>
      (some ret,
        { mgr with
          count := mgr.count - 1
          current := (mgr.contexts ret).next
          contexts := Function.update mgr.contexts ret { mgr.contexts ret with isUsing := true } })

/-- `THContextMgr::PutContext`. -/
def putContext (mgr : THContextMgr) (context : Nat) : THContextMgr :=
  { mgr with
    count := mgr.count + 1
    current := some context
    contexts := Function.update mgr.contexts context
      { mgr.contexts context with next := mgr.current, isUsing := false } }

/-- Replace the fields of a context. -/
def set (mgr : THContextMgr) (context : Nat) (fields : THContext) : THContextMgr :=
  { mgr with contexts := Function.update mgr.contexts context fields }

/-- The loop of `THContextMgr::THContextMgr` after `count` rounds, each of which runs
`THContext::THContext`; `none` when there is no buffer to receive into. -/
def create (memory : Nat → THContext) (bufferMgr : THBufferMgr) :
    Nat → Option (THContextMgr × THBufferMgr)
  | 0 => some ({ size := 0, count := 0, current := none, contexts := memory }, bufferMgr)
  | count + 1 =>
      match create memory bufferMgr count with
      | none => none
      | some (mgr, bufferMgr) =>
          match bufferMgr.getBuffer with
          | (none, _) => none
          | (some recvBuf, bufferMgr) =>
              let buffers := Function.update bufferMgr.buffers recvBuf
                (bufferMgr.buffers recvBuf).init
              let context : THContext := { mgr.contexts count with
                next := mgr.current
                socket := 0
                isUsing := false
                postClose := false
                killed := false
                recvBuf }
              some
                ({ mgr.set count context with
                    size := mgr.size + 1, count := mgr.count + 1, current := some count },
                  { bufferMgr with buffers })

end THContextMgr

namespace THEpollServer

/-! ## Starting -/

/-- The managers which `THEpollServer::StartServer` builds. -/
def startServer (bufLen : Nat) (one_lt : 1 < bufLen) (connection buffer sendCache : Nat)
    (blocks : Nat → THCacheBlock Nat) (buffers : Nat → THBuffer) (contexts : Nat → THContext) :
    Option THEpollServer :=
  match THContextMgr.create contexts (THBufferMgr.new buffer buffers) connection with
  | none => none
  | some (contextMgr, bufferMgr) =>
      some
        { bufLen, one_lt, bufferMgr, contextMgr, cache := THQCache.new sendCache blocks
          outgoing := [] }

/-! ## Contexts -/

/-- `THContext::SetSocket`. -/
def setSocket (server : THEpollServer) (c : Nat) (socket uid : Int) : THEpollServer :=
  { server with
    contextMgr := server.contextMgr.set c
      { server.contextMgr.contexts c with
        uid, socket, postClose := false, connected := true, killed := false } }

/-- A connection is accepted: a context is taken for it, if there is one. -/
def connect (server : THEpollServer) (socket uid : Int) : Option Nat × THEpollServer :=
  match server.contextMgr.getContext with
  | (none, _) => (none, server)
  | (some c, contextMgr) => (some c, { server with contextMgr }.setSocket c socket uid)

/-- `THContext::KillSocket`; `OnDisconnected` touches neither buffers nor the cache. -/
def killSocket (server : THEpollServer) (c : Nat) : THEpollServer :=
  let context := server.contextMgr.contexts c
  if context.killed then server
  else
    let context := { context with killed := true, postClose := false, connected := false }
    { server with contextMgr := (server.contextMgr.set c context).putContext c }

/-- `THContext::CloseSocket`. -/
def closeSocket (server : THEpollServer) (c : Nat) : THEpollServer :=
  let context := server.contextMgr.contexts c
  if context.killed ∨ context.postClose then server
  else
    { server with contextMgr := server.contextMgr.set c { context with postClose := true } }.killSocket
      c

/-! ## Sending -/

/-- Prepare a buffer for a context and add data. -/
def load (buf : THBuffer) (c : Nat) (context : THContext) (postClose : Bool) (data : List Byte) :
    THBuffer :=
  { buf.init with socket := context.socket, context := some c, uid := context.uid, postClose }.addData
    data

/-- The rest of the loop over the chain from buffer `b`, `rounds` buffers before the last one; the
last buffer gets `lastLen` bytes.  `none` when the chain ends too early. -/
def fill (bufLen lastLen : Nat) (c : Nat) (context : THContext) (postClose : Bool) :
    Nat → (Nat → THBuffer) → Nat → List Byte → Option ((Nat → THBuffer) × Nat)
  | 0, buffers, b, data =>
      some
        (Function.update buffers b (load (buffers b) c context postClose (data.take lastLen)), b)
  | rounds + 1, buffers, b, data =>
      let buffers := Function.update buffers b
        (load (buffers b) c context false (data.take bufLen))
      match (buffers b).next with
      | none => none
      | some b => fill bufLen lastLen c context postClose rounds buffers b (data.drop bufLen)

/-- `SendData` and `SendDataAndPostClose`, which differ in the last buffer's `PostClose`. -/
def sendChain (postClose : Bool) (server : THEpollServer) (c : Nat) (data : List Byte) :
    Option (Bool × THEpollServer) :=
  let len : Int := data.length
  let j := (len - 1).tdiv server.bufLen + 1
  match server.bufferMgr.getBufferEx j with
  | none => none
  | some (none, _) => some (false, server)
  | some (some b, bufferMgr) =>
      let lastLen := ((len - 1).tmod server.bufLen + 1).toNat
      match fill server.bufLen lastLen c (server.contextMgr.contexts c) postClose (j - 1).toNat
          bufferMgr.buffers b data with
      | none => none
      | some (buffers, last) =>
          let bufferMgr := { bufferMgr with buffers }
          match server.cache.add (some b) with
          | (true, cache) => some (true, { server with bufferMgr, cache })
          | (false, _) =>
              some (false, { server with bufferMgr := bufferMgr.putBufferEx b last j })

/-- `THContext::SendData`. -/
def sendData := sendChain false

/-- `THContext::SendDataAndPostClose`. -/
def sendDataAndPostClose := sendChain true

/-- The loop `while (x->Next) { x = x->Next; Inc(ret); }`. -/
def chainEnd (buffers : Nat → THBuffer) : Nat → Nat → Nat → Option (Nat × Nat)
  | 0, _, _ => none
  | fuel + 1, x, ret =>
      match (buffers x).next with
      | none => some (x, ret)
      | some y => chainEnd buffers fuel y (ret + 1)

/-- Put the chain from `b` back and release its block; no chain is longer than the pool. -/
def discard (server : THEpollServer) (block b : Nat) : Option (Int × THEpollServer) :=
  match chainEnd server.bufferMgr.buffers server.bufferMgr.size b 1 with
  | none => none
  | some (x, ret) =>
      some (0,
        { server with
          bufferMgr := server.bufferMgr.putBufferEx b x ret
          cache := server.cache.release block })

/-- Put the first buffer `b` of a block's chain back; the block goes with its last buffer. -/
def giveFirst (server : THEpollServer) (block b : Nat) : THEpollServer :=
  let x := (server.bufferMgr.buffers b).next
  { server with
    bufferMgr := server.bufferMgr.putBuffer b
    cache := match x with
      | none => server.cache.release block
      | some x => server.cache.setData block (some x) }

/-- `buf->PostClose = false`. -/
def clearPostClose (server : THEpollServer) (b : Nat) : THEpollServer :=
  { server with
    bufferMgr := { server.bufferMgr with
      buffers := Function.update server.bufferMgr.buffers b
        { server.bufferMgr.buffers b with postClose := false } } }

/-- `send` has taken all of buffer `b`, the first one of the block's chain. -/
def sentWhole (server : THEpollServer) (block b c : Nat) : THEpollServer :=
  if (server.bufferMgr.buffers b).postClose then
    (((server.closeSocket c).giveFirst block b).clearPostClose b).killSocket c
  else server.giveFirst block b

/-- `send` has taken `count` bytes of buffer `b`, but not all. -/
def sentPart (server : THEpollServer) (b count : Nat) : THEpollServer :=
  let buf := server.bufferMgr.buffers b
  let buf := { buf with position := buf.position + count, size := buf.size - count }
  { server with
    bufferMgr := { server.bufferMgr with
      buffers := Function.update server.bufferMgr.buffers b buf } }

/-- The connection for which the buffer was filled, if the context still serves it. -/
def connectionOf (server : THEpollServer) (buf : THBuffer) : Option Nat :=
  buf.context.filter fun c =>
    (server.contextMgr.contexts c).connected && buf.uid == (server.contextMgr.contexts c).uid

/-- `THEpollServer::WriteSocket`, where `result` is what `send` returns if it is called. -/
def writeSocket (server : THEpollServer) (block : Nat) (result : SendResult) :
    Option (Int × THEpollServer) :=
  match (server.cache.buf block).data with
  | none => some (0, server)
  | some b =>
      let buf := server.bufferMgr.buffers b
      match server.connectionOf buf with
      | none => server.discard block b
      | some c =>
          match result with
          | .sent (count + 1) =>
              let taken : Outgoing :=
                { context := c, socket := buf.socket, bytes := buf.pending.take (count + 1) }
              let server := { server with outgoing := server.outgoing ++ [taken] }
              if count + 1 = buf.size then some (1, server.sentWhole block b c)
              else some (0, server.sentPart b (count + 1))
          | .again => some (0, server)
          | _ => some (0, server.killSocket c)

/-! ## Runs -/

/-- The calls which touch the buffers, and those which open and close connections. -/
inductive Op
  | connect (socket uid : Int)
  | sendData (context : Nat) (data : List Byte)
  | sendDataAndPostClose (context : Nat) (data : List Byte)
  | writeSocket (block : Nat) (result : SendResult)
  | killSocket (context : Nat)
  | closeSocket (context : Nat)

/-- `send` takes at most the bytes it is offered. -/
def Offered (server : THEpollServer) (block : Nat) : SendResult → Prop
  | .sent count => ∀ b ∈ (server.cache.buf block).data, count ≤ (server.bufferMgr.buffers b).size
  | _ => True

instance (server : THEpollServer) (block : Nat) :
    (result : SendResult) → Decidable (server.Offered block result)
  | .sent count => inferInstanceAs (Decidable (∀ b ∈ (server.cache.buf block).data, count ≤ _))
  | .again => inferInstanceAs (Decidable True)
  | .failed => inferInstanceAs (Decidable True)

/-- One call on an existing context or a block in use. -/
def step (server : THEpollServer) : Op → Option THEpollServer
  | .connect socket uid => some (server.connect socket uid).2
  | .sendData c data =>
      if c < server.contextMgr.size then (server.sendData c data).map Prod.snd else none
  | .sendDataAndPostClose c data =>
      if c < server.contextMgr.size then (server.sendDataAndPostClose c data).map Prod.snd else none
  | .writeSocket block result =>
      if server.cache.Used block ∧ server.Offered block result then
        (server.writeSocket block result).map Prod.snd
      else none
  | .killSocket c => if c < server.contextMgr.size then some (server.killSocket c) else none
  | .closeSocket c => if c < server.contextMgr.size then some (server.closeSocket c) else none

/-- One pass of `cache->Loop(this, &cbWriteSocket)`; each call of `WriteSocket` takes the next result
of a list. -/
def pass (server : THEpollServer) (fuel : Nat) (results : List SendResult) :
    Option ((THEpollServer × List SendResult) × Int) :=
  THQCache.loop (fun state => state.1.cache)
    (fun (server, results) block =>
      (server.writeSocket block (results.headD .again)).map fun (i, next) =>
        ((next, results.tail), i))
    fuel (server, results)

end THEpollServer
end CommonLib
