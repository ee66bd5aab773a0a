import CommonLib.Hlib.SendSpare
import CommonLib.Proj.FrameAgreement

/-!
# Queueing the frames of `TeWiFiClient`

`BuildResponse` and `SendMsg` hand a frame to `SendData` in two payloads, the head and the body, and
look at neither result.  Each payload is queued or refused on its own, so that the frame is queued
whole exactly when the two pools have enough for both or too little for either.
-/

namespace CommonLib.TeWiFiClient

open MsgHead2 Execution THEpollServer

variable (client : TeWiFiClient)

/-! ## Frames -/

/-- A head together with as many bytes as it announces. -/
def Complete (frame : List Byte) : Prop :=
  ∃ head body, frame = head ++ body ∧ head.length = H_HEAD_LEN2 ∧ len (memory head) = body.length

/-- A call of `BuildResponse` or `SendMsg` with the session it is made in. -/
inductive Call
  | buildResponse (session : Session) (safe : Bool)
  | sendMsg (session : Session) (cmd : Byte) (buf : List Byte) (compress : Bool)

namespace Call

/-- The payloads which the call hands to `SendData`, in order. -/
def payloads : Call → List (List Byte)
  | buildResponse session safe =>
      (client.buildResponse session safe).sent.drop session.sent.length
  | sendMsg session cmd buf compress =>
      (client.sendMsg session cmd buf compress).sent.drop session.sent.length

/-- The number of acknowledgements before the frame. -/
def ackCount : Call → Nat
  | buildResponse session _ => if session.context.response.autoAcknowledge then 1 else 0
  | sendMsg _ _ _ _ => 0

/-- The payloads of `Acknoledge`, each a frame of its own. -/
def acks (call : Call) : List (List Byte) := (call.payloads client).take call.ackCount

/-- The head and the body of the frame, or nothing for `msg_cmd_unknown`. -/
def frame (call : Call) : List (List Byte) := (call.payloads client).drop call.ackCount

theorem acks_append_frame (call : Call) :
    call.acks client ++ call.frame client = call.payloads client :=
  List.take_append_drop _ _

end Call

/-- The length is the last but one field to be written. -/
theorem len_sealed (head : Nat → Byte) {size : Nat} (small : size < 65536) (crc : UInt32) :
    len (memory (cells (setLong (setWord head 6 size) 8 crc) 0 H_HEAD_LEN2)) = size := by
  rw [len, field_of_memory (by decide), setLong, word_setWord_of_ne _ _ (Or.inr (by decide)),
    word_setWord_of_ne _ _ (Or.inr (by decide)), word_setWord _ _ small]

/-- A head which was written for this body, its length and its checksum last. -/
def Sealed (head data : List Byte) : Prop :=
  ∃ memory crc, head = cells (setLong (setWord memory 6 data.length) 8 crc) 0 H_HEAD_LEN2 ∧
    data.length < 65536

theorem Sealed.length_eq {head data : List Byte} (sealed : Sealed head data) :
    head.length = H_HEAD_LEN2 := by
  obtain ⟨_, _, rfl, _⟩ := sealed
  exact cells_length _ _ _

theorem Sealed.complete {head data : List Byte} (sealed : Sealed head data) :
    Complete (head ++ data) := by
  obtain ⟨memory, crc, rfl, small⟩ := sealed
  exact ⟨_, data, rfl, cells_length _ _ _, len_sealed memory small crc⟩

theorem take_length_lt (source : List Byte) :
    (source.take (source.length % 65536)).length < 65536 := by
  rw [List.length_take]
  exact Nat.lt_of_le_of_lt (Nat.min_le_left _ _) (Nat.mod_lt _ (by decide))

/-- `Acknoledge` hands over one complete frame without a body. -/
theorem acknoledge_sent (session : Session) :
    ∃ ack, (acknoledge session).sent = session.sent ++ [ack] ∧ Complete ack := by
  refine ⟨_, rfl, _, [], (List.append_nil _).symm, cells_length _ _ _, ?_⟩
  rw [len, field_of_memory (by decide), word_setWord _ _ (by decide)]
  rfl

/-- What `BuildResponse` hands over after the acknowledgement. -/
theorem buildResponse_sent (session : Session) (safe : Bool) :
    ∃ frame, (client.buildResponse session safe).sent =
        (if session.context.response.autoAcknowledge then acknoledge session else session).sent ++
          frame ∧
      (frame = [] ∨ ∃ head data, frame = [head, data] ∧ Sealed head data) := by
  by_cases unknown : session.context.response.responseCode = msg_cmd_unknown
  · refine ⟨[], ?_, Or.inl rfl⟩
    rw [buildResponse, if_pos unknown, List.append_nil]
  · simp only [buildResponse, if_neg unknown, sendData, List.append_assoc]
    exact ⟨_, rfl, Or.inr ⟨_, _, rfl, _, _, rfl, take_length_lt _⟩⟩

theorem sendMsg_sent (session : Session) (cmd : Byte) (buf : List Byte) (compress : Bool) :
    ∃ head data, (client.sendMsg session cmd buf compress).sent =
        session.sent ++ [head, data] ∧ Sealed head data := by
  simp only [sendMsg, sendData, List.append_assoc]
  exact ⟨_, _, rfl, _, _, rfl, take_length_lt _⟩

/-- The payloads of a call: complete acknowledgements, then nothing or a frame in two payloads. -/
theorem Call.shape (call : Call) :
    (∀ ack ∈ call.acks client, Complete ack) ∧
      (call.frame client = [] ∨
        ∃ head data, call.frame client = [head, data] ∧ Sealed head data) := by
  cases call with
  | buildResponse session safe =>
      obtain ⟨frame, sent_eq, cases_eq⟩ := client.buildResponse_sent session safe
      cases asked : session.context.response.autoAcknowledge with
      | false =>
          rw [asked] at sent_eq
          simp only [Call.acks, Call.frame, Call.payloads, Call.ackCount, asked, sent_eq,
            Bool.false_eq_true, if_false, List.drop_left, List.take_zero, List.drop_zero]
          exact ⟨by simp, cases_eq⟩
      | true =>
          obtain ⟨ack, ack_eq, complete⟩ := acknoledge_sent session
          rw [asked, if_pos rfl, ack_eq, List.append_assoc] at sent_eq
          simp only [Call.acks, Call.frame, Call.payloads, Call.ackCount, asked, sent_eq,
            if_true, List.drop_left, List.singleton_append, List.take_succ_cons, List.take_zero,
            List.drop_succ_cons, List.drop_zero, List.mem_singleton]
          exact ⟨fun _ same => same ▸ complete, cases_eq⟩
  | sendMsg session cmd buf compress =>
      obtain ⟨head, data, sent_eq, sealed⟩ := client.sendMsg_sent session cmd buf compress
      simp only [Call.acks, Call.frame, Call.payloads, Call.ackCount, sent_eq, List.drop_left,
        List.take_zero, List.drop_zero]
      exact ⟨by simp, Or.inr ⟨head, data, rfl, sealed⟩⟩

/-! ## Whole or nothing -/

/-- The bytes of the frame are queued all, or none of them is. -/
def Call.Whole (server : THEpollServer) (c : Nat) (call : Call) : Prop :=
  ∃ acked middle queued next, sendAll c server (call.acks client) = some (acked, middle) ∧
    sendAll c middle (call.frame client) = some (queued, next) ∧
    (queued.flatten = [] ∨ queued.flatten = (call.frame client).flatten)

/-- A head and a body find enough for both, or too little for either, or the body is empty. -/
def RoomFor (bufLen : Nat) (spare : Spare) : List (List Byte) → Prop
  | [head, data] =>
      data = [] ∨
        ((needed bufLen head.length + needed bufLen data.length : Nat) ≤ spare.buffers ∧
          2 ≤ spare.blocks) ∨
        spare.blocks ≤ 0 ∨
        (spare.buffers < needed bufLen head.length ∧ spare.buffers < needed bufLen data.length)
  | _ => True

/-- The frame finds room after the acknowledgement. -/
def Call.Room (server : THEpollServer) (call : Call) : Prop :=
  RoomFor server.bufLen (server.spare.offer server.bufLen (call.acks client)).2 (call.frame client)

theorem roomFor_iff {head data : List Byte} (head_pos : 0 < head.length) (bufLen : Nat)
    (spare : Spare) :
    RoomFor bufLen spare [head, data] ↔
      (spare.offer bufLen [head, data]).1.flatten = [] ∨
        (spare.offer bufLen [head, data]).1.flatten = head ++ data := by
  have head_ne : head ≠ [] := List.length_pos_iff.mp head_pos
  have shorter : data ≠ head ++ data := by
    intro same
    have lengths := congrArg List.length same
    rw [List.length_append] at lengths
    omega
  rw [RoomFor, ← Spare.takes_both_iff, ← Spare.takes_neither_iff]
  by_cases takes : spare.Takes (needed bufLen head.length) <;>
    by_cases takes' : (spare.after (needed bufLen head.length)).Takes (needed bufLen data.length) <;>
    simp [Spare.offer, takes, takes', head_ne, shorter, eq_comm]

/-- A call queues its frame whole exactly when the two pools have room for it. -/
theorem Call.whole_iff_room {server : THEpollServer} {lists : Place → List Nat}
    (conserved : server.Conserved lists) (c : Nat) (call : Call) :
    call.Whole client server c ↔ call.Room client server := by
  obtain ⟨middle, lists', sent, conserved', bufLen_eq, spare_eq⟩ :=
    conserved.sendAll c (call.acks client)
  obtain ⟨next, _, sent', _⟩ := conserved'.sendAll c (call.frame client)
  have whole_iff : call.Whole client server c ↔
      ((middle.spare.offer middle.bufLen (call.frame client)).1.flatten = [] ∨
        (middle.spare.offer middle.bufLen (call.frame client)).1.flatten =
          (call.frame client).flatten) := by
    constructor
    · rintro ⟨_, middle', queued, next', sent₁, sent₂, outcome⟩
      obtain ⟨rfl, rfl⟩ := Prod.mk.inj (Option.some.inj (sent.symm.trans sent₁))
      obtain ⟨rfl, rfl⟩ := Prod.mk.inj (Option.some.inj (sent'.symm.trans sent₂))
      exact outcome
    · exact fun outcome => ⟨_, middle, _, next, sent, sent', outcome⟩
  rw [whole_iff, Call.Room, ← spare_eq, ← bufLen_eq]
  rcases (call.shape client).2 with none_left | ⟨head, data, frame_eq, sealed⟩
  · rw [none_left]
    simp [RoomFor, Spare.offer]
  · have head_pos : 0 < head.length := by
      rw [sealed.length_eq]
      decide
    rw [frame_eq, roomFor_iff head_pos, List.flatten_cons, List.flatten_singleton]

/-! ## Runs -/

/-- What happens to the connections; all bytes are sent by calls. -/
inductive QueueEvent
  | call (context : Nat) (call : Call)
  | connect (socket uid : Int)
  | writeSocket (block : Nat) (result : SendResult)
  | killSocket (context : Nat)
  | closeSocket (context : Nat)

namespace QueueEvent

/-- Hand payloads to `SendData` on a context. -/
def sendPayloads (c context : Nat) : SendHistory → List (List Byte) → Option SendHistory
  | history, [] => some history
  | history, payload :: payloads =>
      (history.send c false context payload).bind (sendPayloads c context · payloads)

/-- One event, on the record of the current connection of context `c`. -/
def step (c : Nat) (history : SendHistory) : QueueEvent → Option SendHistory
  | .call context made =>
      if context < history.server.contextMgr.size then
        sendPayloads c context history (made.payloads client)
      else none
  | connect socket uid => history.step c (.connect socket uid)
  | writeSocket block result => history.step c (.writeSocket block result)
  | killSocket context => history.step c (.killSocket context)
  | closeSocket context => history.step c (.closeSocket context)

/-- A call queues its frame whole or not at all. -/
def Whole (history : SendHistory) : QueueEvent → Prop
  | .call context made => made.Whole client history.server context
  | _ => True

/-- A call finds room for its frame. -/
def Room (history : SendHistory) : QueueEvent → Prop
  | .call _ made => made.Room client history.server
  | _ => True

end QueueEvent

/-- The bytes queued on the connection are a concatenation of complete frames. -/
def Framed (history : SendHistory) : Prop :=
  ∃ frames : List (List Byte), (∀ frame ∈ frames, Complete frame) ∧
    history.payloads.flatten = frames.flatten

theorem Framed.append {history next : SendHistory} (framed : Framed history)
    {queued : List (List Byte)} (payloads_eq : next.payloads = history.payloads ++ queued)
    (frames : List (List Byte)) (complete : ∀ frame ∈ frames, Complete frame)
    (same : queued.flatten = frames.flatten) : Framed next := by
  obtain ⟨before, before_complete, before_eq⟩ := framed
  refine ⟨before ++ frames, ?_, ?_⟩
  · intro frame mem
    rcases List.mem_append.mp mem with earlier | now
    · exact before_complete frame earlier
    · exact complete frame now
  · rw [payloads_eq, List.flatten_append, List.flatten_append, before_eq, same]

/-- The record of a connection gets the payloads which the counters offer. -/
theorem sendPayloads_spec (c context : Nat) (payloads : List (List Byte)) {history : SendHistory}
    {lists : Place → List Nat} (conserved : history.server.Conserved lists) :
    ∃ next lists', QueueEvent.sendPayloads c context history payloads = some next ∧
      next.server.Conserved lists' ∧
      next.payloads = history.payloads ++
        if context = c then (history.server.spare.offer history.server.bufLen payloads).1
        else [] := by
  induction payloads generalizing history lists with
  | nil => exact ⟨history, lists, rfl, conserved, by simp [Spare.offer]⟩
  | cons payload payloads induction =>
      obtain ⟨server, lists', sent, conserved', bufLen_eq, spare_eq⟩ :=
        conserved.sendChain_spare false context payload
      let takes : Bool :=
        decide (history.server.spare.Takes (needed history.server.bufLen payload.length))
      obtain ⟨middle, sent_eq, server_eq, middle_eq⟩ :
          ∃ middle, history.send c false context payload = some middle ∧
            middle.server = server ∧ middle.payloads = history.payloads ++
              if takes = true ∧ context = c then [payload] else [] := by
        rw [SendHistory.send, sent, Option.map_some]
        refine ⟨_, rfl, ?_, ?_⟩
        · dsimp only
          split <;> rfl
        · dsimp only [takes]
          split <;> simp
      obtain ⟨next, lists'', rest, conserved'', payloads_eq⟩ := induction (server_eq ▸ conserved')
      refine ⟨next, lists'', ?_, conserved'', ?_⟩
      · rw [QueueEvent.sendPayloads, sent_eq, Option.bind_some, rest]
      · rw [payloads_eq, middle_eq, server_eq, spare_eq, bufLen_eq, Spare.offer, List.append_assoc]
        congr 1
        by_cases mine : context = c <;> by_cases taken :
          history.server.spare.Takes (needed history.server.bufLen payload.length) <;>
          simp [takes, mine, taken]

/-- A call with room for its frame adds complete frames. -/
theorem Call.framed {history next : SendHistory} {c context : Nat} {call : Call}
    (framed : Framed history) (room : call.Room client history.server)
    (payloads_eq : next.payloads = history.payloads ++
      if context = c then
        (history.server.spare.offer history.server.bufLen (call.payloads client)).1
      else []) : Framed next := by
  obtain ⟨acks_complete, frame_cases⟩ := call.shape client
  split at payloads_eq
  · rw [← call.acks_append_frame client, Spare.offer_append] at payloads_eq
    let acked := (history.server.spare.offer history.server.bufLen (call.acks client)).1
    have acked_complete : ∀ frame ∈ acked, Complete frame := fun frame mem =>
      acks_complete frame (Spare.mem_of_mem_offer mem)
    rcases frame_cases with none_left | ⟨head, data, frame_eq, sealed⟩
    · rw [none_left] at payloads_eq
      exact framed.append payloads_eq acked acked_complete (by simp [Spare.offer, acked])
    · have head_pos : 0 < head.length := by
        rw [sealed.length_eq]
        decide
      rw [Call.Room, frame_eq, roomFor_iff head_pos] at room
      rw [frame_eq] at payloads_eq
      rcases room with nothing | whole
      · apply framed.append payloads_eq acked acked_complete
        rw [List.flatten_append, nothing, List.append_nil]
      · apply framed.append payloads_eq (acked ++ [head ++ data])
        · intro frame mem
          rcases List.mem_append.mp mem with earlier | now
          · exact acked_complete frame earlier
          · rw [List.mem_singleton.mp now]
            exact sealed.complete
        · rw [List.flatten_append, whole, List.flatten_append, List.flatten_singleton]
  · exact framed.append payloads_eq [] (by simp) rfl

/-- Every event keeps the partition of the buffers. -/
theorem QueueEvent.conserved_step {c : Nat} {history next : SendHistory} {event : QueueEvent}
    {lists : Place → List Nat} (conserved : history.server.Conserved lists)
    (result : event.step client c history = some next) :
    ∃ lists', next.server.Conserved lists' := by
  have kept (op : Op) (result : history.step c op = some next) :
      ∃ lists', next.server.Conserved lists' :=
    conserved.step (SendHistory.step_server result)
  cases event with
  | call context made =>
      rw [QueueEvent.step, Option.ite_none_right_eq_some] at result
      obtain ⟨found, lists', sent, conserved', _⟩ :=
        sendPayloads_spec c context (made.payloads client) conserved
      obtain rfl := Option.some.inj (sent.symm.trans result.2)
      exact ⟨lists', conserved'⟩
  | connect socket uid => exact kept (.connect socket uid) result
  | writeSocket block sendResult => exact kept (.writeSocket block sendResult) result
  | killSocket context => exact kept (.killSocket context) result
  | closeSocket context => exact kept (.closeSocket context) result

/-- An event with room for its frame leaves complete frames. -/
theorem QueueEvent.framed_step {c : Nat} {history next : SendHistory} {event : QueueEvent}
    {lists : Place → List Nat} (conserved : history.server.Conserved lists)
    (framed : Framed history) (room : event.Room client history)
    (result : event.step client c history = some next) : Framed next := by
  have same (payloads_eq : next.payloads = history.payloads) : Framed next := by
    rw [Framed, payloads_eq]
    exact framed
  cases event with
  | call context made =>
      rw [QueueEvent.step, Option.ite_none_right_eq_some] at result
      obtain ⟨found, _, sent, _, payloads_eq⟩ :=
        sendPayloads_spec c context (made.payloads client) conserved
      obtain rfl := Option.some.inj (sent.symm.trans result.2)
      exact Call.framed client framed room payloads_eq
  | connect socket uid =>
      obtain rfl := Option.some.inj result
      split
      · exact ⟨[], by simp, rfl⟩
      · exact framed
  | writeSocket block sendResult =>
      obtain ⟨server, _, rfl⟩ := Option.map_eq_some_iff.mp result
      exact same rfl
  | killSocket context =>
      obtain ⟨server, _, rfl⟩ := Option.map_eq_some_iff.mp result
      exact same rfl
  | closeSocket context =>
      obtain ⟨server, _, rfl⟩ := Option.map_eq_some_iff.mp result
      exact same rfl

/-- In a run from the start of the server, the calls queue their frames whole exactly as far as they
find room; and if all do, the bytes queued on a connection are complete frames throughout. -/
theorem frames_whole_iff {bufLen connection buffer sendCache : Nat} {one_lt : 1 < bufLen}
    {blocks : Nat → THCacheBlock Nat} {buffers : Nat → THBuffer} {contexts : Nat → THContext}
    {server : THEpollServer}
    (started : startServer bufLen one_lt connection buffer sendCache blocks buffers contexts =
      some server) (c : Nat) (events : List QueueEvent) :
    (AllSteps (QueueEvent.step client c) (QueueEvent.Whole client) (SendHistory.start server) events ↔
      AllSteps (QueueEvent.step client c) (QueueEvent.Room client) (SendHistory.start server)
        events) ∧
      (AllSteps (QueueEvent.step client c) (QueueEvent.Room client) (SendHistory.start server)
          events →
        AllStates (QueueEvent.step client c) Framed (SendHistory.start server) events) := by
  have conserved := startServer_conserved started
  let invariant : SendHistory → Prop := fun history => ∃ lists, history.server.Conserved lists
  have kept {history next : SendHistory} {event : QueueEvent} (held : invariant history)
      (result : event.step client c history = some next) : invariant next := by
    obtain ⟨lists, conserved⟩ := held
    exact QueueEvent.conserved_step client conserved result
  have same {history : SendHistory} {event : QueueEvent} (held : invariant history) :
      event.Whole client history ↔ event.Room client history := by
    obtain ⟨lists, conserved⟩ := held
    cases event with
    | call context made => exact made.whole_iff_room client conserved context
    | connect socket uid => exact Iff.rfl
    | writeSocket block result => exact Iff.rfl
    | killSocket context => exact Iff.rfl
    | closeSocket context => exact Iff.rfl
  refine ⟨⟨?_, ?_⟩, ?_⟩
  · exact AllSteps.imp_of_invariant invariant (fun held => (same held).mp) kept conserved
  · exact AllSteps.imp_of_invariant invariant (fun held => (same held).mpr) kept conserved
  · apply allStates_of_allSteps (fun history => invariant history ∧ Framed history)
    · exact fun held => held.2
    · rintro history next event ⟨⟨lists, conserved⟩, framed⟩ room result
      exact ⟨kept ⟨lists, conserved⟩ result,
        QueueEvent.framed_step client conserved framed room result⟩
    · exact ⟨conserved, [], by simp, rfl⟩

/-! ## A pool that is too small -/

/-- A message of one byte on a new connection. -/
def messageEvents : List QueueEvent :=
  [.connect 5 77, .call 0 (.sendMsg zeroSession 11 [7] false)]

theorem frames_whole_iff_message :
    ∃ server, smallServer = some server ∧
      (AllSteps (QueueEvent.step echoClient 0) (QueueEvent.Whole echoClient)
          (SendHistory.start server) messageEvents ↔
        AllSteps (QueueEvent.step echoClient 0) (QueueEvent.Room echoClient)
          (SendHistory.start server) messageEvents) ∧
      (AllSteps (QueueEvent.step echoClient 0) (QueueEvent.Room echoClient)
          (SendHistory.start server) messageEvents →
        AllStates (QueueEvent.step echoClient 0) Framed (SendHistory.start server)
          messageEvents) := by
  have completes : smallServer.isSome = true := by decide +kernel
  obtain ⟨server, started⟩ := Option.isSome_iff_exists.mp completes
  exact ⟨server, started, echoClient.frames_whole_iff started 0 messageEvents⟩

theorem one_lt_bufLen : 1 < 4096 := by decide

/-- A server with one context and two buffers, one of which it receives into. -/
def scarceServer : Option THEpollServer :=
  startServer 4096 one_lt_bufLen 1 2 2
    (fun _ => { prev := none, next := none, data := none, used := false })
    (fun _ => { next := none, uid := 0, socket := 0, context := none, buffer := fun _ => 0,
                position := 0, size := 0, postClose := false })
    (fun _ => { next := none, uid := 0, socket := 0, isUsing := false, postClose := false,
                connected := false, killed := false, recvBuf := 0 })

/-- A head alone is no concatenation of frames if it announces a body. -/
theorem not_framed_of_head {history : SendHistory}
    (length_eq : history.payloads.flatten.length = H_HEAD_LEN2)
    (announces : 0 < len (memory history.payloads.flatten)) : ¬ Framed history := by
  rintro ⟨frames, complete, same⟩
  rw [same] at length_eq announces
  cases frames with
  | nil => exact absurd length_eq (by decide)
  | cons frame frames =>
      obtain ⟨head, body, rfl, head_length, len_eq⟩ := complete frame List.mem_cons_self
      rw [List.flatten_cons, List.length_append, List.length_append, head_length] at length_eq
      have body_eq : body = [] := List.length_eq_zero_iff.mp (by omega)
      have rest_eq : frames.flatten = [] := List.length_eq_zero_iff.mp (by omega)
      rw [List.flatten_cons, rest_eq, List.append_nil, body_eq, List.append_nil, len_eq,
        body_eq] at announces
      exact absurd announces (by decide)

/-- The only free buffer takes the head, and `SendData` refuses the body. -/
theorem message_head_alone :
    ∃ server history, scarceServer = some server ∧
      run (QueueEvent.step echoClient 0) (SendHistory.start server) messageEvents =
        some history ∧ ¬ Framed history := by
  have facts : (scarceServer.bind fun server =>
      (run (QueueEvent.step echoClient 0) (SendHistory.start server) messageEvents)).any
        (fun history => decide (history.payloads.flatten.length = H_HEAD_LEN2 ∧
          0 < len (memory history.payloads.flatten))) = true := by
    decide +kernel
  obtain ⟨history, result, found⟩ := (Option.any_eq_true _ _).mp facts
  obtain ⟨server, started, execution⟩ := Option.bind_eq_some_iff.mp result
  obtain ⟨length_eq, announces⟩ := of_decide_eq_true found
  exact ⟨server, history, started, execution, not_framed_of_head length_eq announces⟩

end CommonLib.TeWiFiClient
