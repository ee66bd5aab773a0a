import CommonLib.Library.Execution
import CommonLib.Network.Crb3Packet

/-!
# Requests with direct input and output

`RequestDio` takes a socket from `DioList`, sends its request from it, receives one datagram and
puts the socket back.  The network may lose, delay and duplicate datagrams; one that reached a
socket stays there until it is received.  `_ProcessDioResponse` does not compare the sequence and
the id of what it receives.
-/

namespace CommonLib

/-- The fields of a datagram that `_ProcessDioResponse` looks at. -/
structure DioResponse where
  hdrId : UInt16
  hdrStatus : UInt32
  respNum : UInt16
  crSeq : UInt32
  crId : UInt32
  /-- The parameters do not overrun the packet. -/
  fits : Bool
  /-- What the constructor makes of the parameters. -/
  param : CRB3Param

/-- `CRB3Client::_ProcessDioResponse` on the fields of a datagram. -/
def processDioResponse (response : DioResponse) : Option CRB3Param :=
  if response.hdrId ≠ CRB3_PKT_CR_RSP then none
  else if response.hdrStatus ≠ CRB3_OK then none
  else if response.respNum > 1 then none
  else if response.fits then some response.param
  else none

/-- The header of a successful response. -/
def DioResponse.Success (response : DioResponse) : Prop :=
  response.hdrId = CRB3_PKT_CR_RSP ∧ response.hdrStatus = CRB3_OK

instance (response : DioResponse) : Decidable response.Success :=
  inferInstanceAs (Decidable (_ ∧ _))

theorem processDioResponse_eq_some {response : DioResponse} {param : CRB3Param}
    (accepted : processDioResponse response = some param) :
    response.Success ∧ response.param = param := by
  unfold processDioResponse at accepted
  split at accepted
  · cases accepted
  next packet =>
  split at accepted
  · cases accepted
  next ok =>
  split at accepted
  · cases accepted
  split at accepted
  · exact ⟨⟨not_not.mp packet, not_not.mp ok⟩, Option.some.inj accepted⟩
  · cases accepted

namespace DioResponse

open CRB3Param

/-- `CRB3Client::_ProcessDioResponse` on the bytes of a datagram. -/
def processPacket (ntohl_64 : Int64 → Int64) (packetSize : Nat) :
    Fetch Byte (Option CRB3Param) := do
  let _hdrLen ← fetchInt16
  let hdrId ← fetchInt16
  let hdrStatus ← fetchInt32
  if hdrId ≠ CRB3_PKT_CR_RSP then return none
  else if hdrStatus ≠ CRB3_OK then return none
  else
    let respNum ← fetchInt16
    let _respFlag ← fetchInt16
    if respNum > 1 then return none
    else
      let head ← fetchCrHead
      let ptr ← Fetch.position
      if ptr + head.paramSize.toNat > packetSize then return none
      else if head.paramNum > 0 then
        return some (← CRB3Param.fetch ntohl_64 head.paramNum.toNat head.paramSize.toInt32)
      else return some (CRB3Param.new 0)

/-- The fields of a packet whose first byte is the cell 0. -/
def ofPacket (ntohl_64 : Int64 → Int64) (packetSize : Nat) (memory : Nat → Byte) : DioResponse :=
  let head := (fetchCrHead memory 12).value
  { hdrId := (fetchInt16 memory 2).value
    hdrStatus := (fetchInt32 memory 4).value
    respNum := (fetchInt16 memory 8).value
    crSeq := head.crSeq
    crId := head.crId
    fits := 28 + head.paramSize.toNat ≤ packetSize
    param :=
      if head.paramNum > 0 then
        (CRB3Param.fetch ntohl_64 head.paramNum.toNat head.paramSize.toInt32 memory 28).value
      else CRB3Param.new 0 }

/-- The bytes matter through the fields only. -/
theorem processPacket_value (ntohl_64 : Int64 → Int64) (packetSize : Nat) (memory : Nat → Byte) :
    (processPacket ntohl_64 packetSize memory 0).value =
      processDioResponse (ofPacket ntohl_64 packetSize memory) := by
  simp only [processPacket, processDioResponse, ofPacket, Fetch.value_bind, Fetch.value_ite,
    Fetch.value_pure, Fetch.value_position, Fetch.ptr_position, fetchInt16_ptr, fetchInt32_ptr,
    fetchCrHead_ptr, Nat.zero_add, Nat.reduceAdd, decide_eq_true_eq]
  refine if_congr Iff.rfl rfl (if_congr Iff.rfl rfl (if_congr Iff.rfl rfl ?_))
  refine (Fetch.value_ite _ _).trans ?_
  by_cases fits : 28 + (fetchCrHead memory 12).value.paramSize.toNat ≤ packetSize
  · refine (if_neg (Nat.not_lt.mpr fits)).trans (Eq.trans ?_ (if_pos fits).symm)
    split <;> rfl
  · exact (if_pos (Nat.lt_of_not_le fits)).trans (if_neg fits).symm

end DioResponse

/-! ## Requests -/

/-- A call of `RequestDio`; `number` is its place among all calls. -/
structure DioCall where
  number : Nat
  crId : UInt32
  socket : Nat
  /-- The request was sent. -/
  sent : Bool
deriving DecidableEq

/-- The field `CR-Seq` of the request, from the counter `DioSequence`. -/
def DioCall.sequence (call : DioCall) : UInt32 := UInt32.ofNat call.number

/-- A datagram of the server, with the request that it answers. -/
structure DioDatagram where
  request : DioCall
  response : DioResponse

structure DioClient where
  dioSequence : Nat
  dioList : List Nat
  /-- The calls that have not returned. -/
  calls : List DioCall
  /-- The requests that were sent. -/
  requests : List DioCall
  /-- The answers of the server to them. -/
  answered : List DioDatagram
  /-- What reached each socket and was not received. -/
  queues : Nat → List DioDatagram
  /-- The calls that returned `CRB3_OK`, with their parameters. -/
  returned : List (DioCall × CRB3Param)

namespace DioClient

def new (sockets : List Nat) : DioClient :=
  { dioSequence := 0, dioList := sockets, calls := [], requests := [], answered := [],
    queues := fun _ => [], returned := [] }

inductive Op
  /-- A thread calls `RequestDio`. -/
  | request (crId : UInt32)
  /-- `sendto` of a call succeeds. -/
  | send (number : Nat)
  /-- A call could not send in time. -/
  | giveUp (number : Nat)
  /-- The server answers a request, perhaps not for the first time. -/
  | answer (number : Nat) (response : DioResponse)
  /-- A copy of an answer reaches its socket. -/
  | deliver (index : Nat)
  /-- A call receives what is on its socket. -/
  | receive (number : Nat)
  /-- `select` of a call times out. -/
  | timeout (number : Nat)

/-- The call returns and puts its socket back. -/
def finish (client : DioClient) (call : DioCall) : DioClient :=
  { client with calls := client.calls.erase call, dioList := client.dioList ++ [call.socket] }

/-- One step; a step that cannot be made has no successor. -/
def step (client : DioClient) : Op → Option DioClient
  | .request crId =>
      let next := { client with dioSequence := client.dioSequence + 1 }
      match client.dioList with
      -- `CRB3_EMPTY_QUEUE`
      | [] => some next
      | socket :: dioList =>
          some { next with
            dioList, calls := ⟨client.dioSequence, crId, socket, false⟩ :: client.calls }
  | .send number =>
      (client.calls.find? fun call => call.number = number ∧ ¬ call.sent).map fun call =>
        { client with
          calls := { call with sent := true } :: client.calls.erase call
          requests := { call with sent := true } :: client.requests }
  | .giveUp number =>
      (client.calls.find? fun call => call.number = number ∧ ¬ call.sent).map client.finish
  | .answer number response =>
      (client.requests.find? fun request => request.number = number ∧
        response.crSeq = request.sequence ∧ response.crId = request.crId).map fun request =>
          { client with answered := client.answered ++ [⟨request, response⟩] }
  | .deliver index =>
      client.answered[index]?.map fun datagram =>
        { client with
          queues := Function.update client.queues datagram.request.socket
            (client.queues datagram.request.socket ++ [datagram]) }
  | .receive number =>
      (client.calls.find? fun call => call.number = number ∧ call.sent).bind fun call =>
        match client.queues call.socket with
        | [] => none
        | datagram :: rest =>
            let client :=
              { client with queues := Function.update client.queues call.socket rest }.finish call
            match processDioResponse datagram.response with
            | some param => some { client with returned := client.returned ++ [(call, param)] }
            | none => some client
  | .timeout number =>
      (client.calls.find? fun call => call.number = number ∧ call.sent ∧
        (client.queues call.socket).isEmpty).map client.finish

/-- Each call that returned `CRB3_OK` has the parameters of an answer to its own request. -/
def Own (client : DioClient) : Prop :=
  ∀ result ∈ client.returned, ∃ datagram ∈ client.answered,
    datagram.request.number = result.1.number ∧ datagram.response.crSeq = result.1.sequence ∧
      datagram.response.crId = result.1.crId ∧ datagram.response.param = result.2

/-- A socket is taken from the list when no successful response is queued on it, and while a call
uses it, no successful response to another request reaches it. -/
def Undisturbed (client : DioClient) : Op → Prop
  | .request _ =>
      ∀ socket ∈ client.dioList.head?, ∀ datagram ∈ client.queues socket,
        ¬ datagram.response.Success
  | .deliver index =>
      ∀ datagram ∈ client.answered[index]?, datagram.response.Success →
        ∀ call ∈ client.calls, call.socket = datagram.request.socket →
          call.number = datagram.request.number
  | _ => True

instance (client : DioClient) : (op : Op) → Decidable (Undisturbed client op)
  | .request _ => inferInstanceAs (Decidable (∀ _ ∈ _, ∀ _ ∈ _, _))
  | .deliver _ => inferInstanceAs (Decidable (∀ _ ∈ _, _ → ∀ _ ∈ _, _ → _))
  | .send _ => isTrue trivial
  | .giveUp _ => isTrue trivial
  | .answer _ _ => isTrue trivial
  | .receive _ => isTrue trivial
  | .timeout _ => isTrue trivial

/-- A successful response that is queued for a call answers its request. -/
structure Inv (client : DioClient) : Prop where
  agree : ∀ first ∈ client.calls ++ client.requests, ∀ second ∈ client.calls ++ client.requests,
    first.number = second.number → first.crId = second.crId
  bounded : ∀ call ∈ client.calls ++ client.requests, call.number < client.dioSequence
  echoed : ∀ datagram ∈ client.answered, datagram.request ∈ client.requests ∧
    datagram.response.crSeq = datagram.request.sequence ∧
      datagram.response.crId = datagram.request.crId
  made : ∀ socket, ∀ datagram ∈ client.queues socket, datagram ∈ client.answered
  queued : ∀ call ∈ client.calls, ∀ datagram ∈ client.queues call.socket,
    datagram.response.Success → datagram.request.number = call.number
  own : client.Own

theorem Inv.new (sockets : List Nat) : Inv (new sockets) := by
  constructor <;> simp [DioClient.new, Own]

section Step

variable {client client' : DioClient} {call : DioCall} {number : Nat}

/-- A call that returns leaves the others as they were. -/
theorem Inv.finish (inv : Inv client) (call : DioCall) : Inv (client.finish call) := by
  have subset : client.calls.erase call ++ client.requests ⊆ client.calls ++ client.requests :=
    List.append_subset.mpr ⟨fun other member => List.mem_append_left _ (List.mem_of_mem_erase member),
      List.subset_append_right ..⟩
  exact ⟨fun first first_member second second_member =>
      inv.agree first (subset first_member) second (subset second_member),
    fun other member => inv.bounded other (subset member), inv.echoed, inv.made,
    fun other member => inv.queued other (List.mem_of_mem_erase member), inv.own⟩

/-- A new call has a number of its own and no successful response queued for it. -/
theorem Inv.request (inv : Inv client) {crId : UInt32}
    (undisturbed : Undisturbed client (.request crId))
    (made : client.step (.request crId) = some client') : Inv client' := by
  have later : ∀ call ∈ client.calls ++ client.requests, call.number < client.dioSequence + 1 :=
    fun call member => Nat.lt_succ_of_lt (inv.bounded call member)
  simp only [DioClient.step] at made
  split at made
  · cases made
    exact ⟨inv.agree, later, inv.echoed, inv.made, inv.queued, inv.own⟩
  · next socket dioList pool =>
    cases made
    have unanswered := undisturbed socket (by simp [pool])
    refine ⟨fun first first_member second second_member same => ?_, ?_, inv.echoed, inv.made, ?_,
      inv.own⟩
    · rcases List.mem_cons.mp first_member with rfl | first_member
      · rcases List.mem_cons.mp second_member with rfl | second_member
        · rfl
        · exact absurd (inv.bounded second second_member) (by rw [← same]; exact Nat.lt_irrefl _)
      · rcases List.mem_cons.mp second_member with rfl | second_member
        · exact absurd (inv.bounded first first_member) (by rw [same]; exact Nat.lt_irrefl _)
        · exact inv.agree first first_member second second_member same
    · exact List.forall_mem_cons.mpr ⟨Nat.lt_succ_self _, later⟩
    · refine List.forall_mem_cons.mpr ⟨fun datagram queued success => ?_, inv.queued⟩
      exact absurd success (unanswered datagram queued)

/-- A request that is sent agrees with its call. -/
theorem Inv.send (inv : Inv client) (made : client.step (.send number) = some client') :
    Inv client' := by
  obtain ⟨call, found, rfl⟩ := Option.map_eq_some_iff.mp made
  have called := List.mem_of_find?_eq_some found
  have known : ∀ other ∈ { call with sent := true } :: client.calls.erase call ++
      { call with sent := true } :: client.requests,
      ∃ old ∈ client.calls ++ client.requests, old.number = other.number ∧ old.crId = other.crId := by
    intro other member
    have old_call : call ∈ client.calls ++ client.requests := List.mem_append_left _ called
    rcases List.mem_append.mp member with member | member
    · rcases List.mem_cons.mp member with rfl | member
      · exact ⟨call, old_call, rfl, rfl⟩
      · exact ⟨other, List.mem_append_left _ (List.mem_of_mem_erase member), rfl, rfl⟩
    · rcases List.mem_cons.mp member with rfl | member
      · exact ⟨call, old_call, rfl, rfl⟩
      · exact ⟨other, List.mem_append_right _ member, rfl, rfl⟩
  refine ⟨fun first first_member second second_member same => ?_, fun other member => ?_,
    fun datagram answered => ?_, inv.made, ?_, inv.own⟩
  · obtain ⟨old, old_member, number_eq, crId_eq⟩ := known first first_member
    obtain ⟨old', old_member', number_eq', crId_eq'⟩ := known second second_member
    rw [← crId_eq, ← crId_eq']
    exact inv.agree old old_member old' old_member' (by rw [number_eq, number_eq', same])
  · obtain ⟨old, old_member, number_eq, -⟩ := known other member
    rw [← number_eq]
    exact inv.bounded old old_member
  · obtain ⟨member, echoed⟩ := inv.echoed datagram answered
    exact ⟨List.mem_cons_of_mem _ member, echoed⟩
  · refine List.forall_mem_cons.mpr ⟨inv.queued call called, fun other member => ?_⟩
    exact inv.queued other (List.mem_of_mem_erase member)

theorem Inv.answer (inv : Inv client) {response : DioResponse}
    (made : client.step (.answer number response) = some client') : Inv client' := by
  obtain ⟨request, found, rfl⟩ := Option.map_eq_some_iff.mp made
  have member := List.mem_of_find?_eq_some found
  obtain ⟨-, crSeq, crId⟩ : request.number = number ∧ response.crSeq = request.sequence ∧
      response.crId = request.crId := by simpa using List.find?_some found
  refine ⟨inv.agree, inv.bounded, ?_, ?_, inv.queued, ?_⟩
  · exact List.forall_mem_append.mpr ⟨inv.echoed, by simpa using ⟨member, crSeq, crId⟩⟩
  · exact fun socket datagram queued => List.mem_append_left _ (inv.made socket datagram queued)
  · intro result returned
    obtain ⟨datagram, answered, same⟩ := inv.own result returned
    exact ⟨datagram, List.mem_append_left _ answered, same⟩

theorem Inv.deliver (inv : Inv client) {index : Nat}
    (undisturbed : Undisturbed client (.deliver index))
    (made : client.step (.deliver index) = some client') : Inv client' := by
  obtain ⟨datagram, found, rfl⟩ := Option.map_eq_some_iff.mp made
  have answered := List.mem_of_getElem? found
  have mem_queue : ∀ socket other,
      other ∈ Function.update client.queues datagram.request.socket
        (client.queues datagram.request.socket ++ [datagram]) socket →
      other ∈ client.queues socket ∨ socket = datagram.request.socket ∧ other = datagram := by
    intro socket other member
    by_cases same : socket = datagram.request.socket
    · rw [same, Function.update_self] at member
      simpa [same] using member
    · rw [Function.update_of_ne same] at member
      exact .inl member
  refine ⟨inv.agree, inv.bounded, inv.echoed, fun socket other member => ?_,
    fun call called other member success => ?_, inv.own⟩
  · rcases mem_queue socket other member with queued | ⟨-, rfl⟩
    · exact inv.made socket other queued
    · exact answered
  · rcases mem_queue call.socket other member with queued | ⟨same, rfl⟩
    · exact inv.queued call called other queued success
    · exact (undisturbed other found success call called same).symm

/-- A successful response that a call receives answers its request. -/
theorem Inv.receive (inv : Inv client) (made : client.step (.receive number) = some client') :
    Inv client' := by
  obtain ⟨call, found, made⟩ := Option.bind_eq_some_iff.mp made
  have called := List.mem_of_find?_eq_some found
  split at made
  · cases made
  next datagram rest queue =>
  have head : datagram ∈ client.queues call.socket := by simp [queue]
  have shorter : ∀ socket, ∀ other ∈ Function.update client.queues call.socket rest socket,
      other ∈ client.queues socket := by
    intro socket other member
    by_cases same : socket = call.socket
    · rw [same, Function.update_self] at member
      rw [same, queue]
      exact List.mem_cons_of_mem _ member
    · rwa [Function.update_of_ne same] at member
  have read : Inv { client with queues := Function.update client.queues call.socket rest } :=
    ⟨inv.agree, inv.bounded, inv.echoed,
      fun socket other member => inv.made socket other (shorter socket other member),
      fun other member datagram queued =>
        inv.queued other member datagram (shorter other.socket datagram queued), inv.own⟩
  have finished := read.finish call
  split at made
  · next param accepted =>
    cases made
    refine ⟨finished.agree, finished.bounded, finished.echoed, finished.made, finished.queued, ?_⟩
    refine List.forall_mem_append.mpr ⟨inv.own, List.forall_mem_singleton.mpr ?_⟩
    have answered := inv.made call.socket datagram head
    obtain ⟨success, param_eq⟩ := processDioResponse_eq_some accepted
    have number_eq := inv.queued call called datagram head success
    obtain ⟨requested, crSeq, crId⟩ := inv.echoed datagram answered
    refine ⟨datagram, answered, number_eq, ?_, ?_, param_eq⟩
    · rw [crSeq, DioCall.sequence, number_eq]
      rfl
    · rw [crId]
      exact inv.agree _ (List.mem_append_right _ requested) _ (List.mem_append_left _ called)
        number_eq
  · cases made
    exact finished

theorem Inv.step (inv : Inv client) {op : Op} (undisturbed : Undisturbed client op)
    (made : client.step op = some client') : Inv client' := by
  cases op with
  | request crId => exact inv.request undisturbed made
  | send number => exact inv.send made
  | giveUp number =>
      obtain ⟨call, -, rfl⟩ := Option.map_eq_some_iff.mp made
      exact inv.finish call
  | answer number response => exact inv.answer made
  | deliver index => exact inv.deliver undisturbed made
  | receive number => exact inv.receive made
  | timeout number =>
      obtain ⟨call, -, rfl⟩ := Option.map_eq_some_iff.mp made
      exact inv.finish call

end Step

open Execution

/-- While the sockets are undisturbed, a call that returns `CRB3_OK` has the parameters of an answer
to its own request. -/
theorem requestDio_own_of_undisturbed (sockets : List Nat) (ops : List Op)
    (undisturbed : AllSteps step Undisturbed (new sockets) ops) :
    AllStates step Own (new sockets) ops :=
  allStates_of_allSteps Inv (fun inv => inv.own) (fun inv met made => inv.step met made)
    (Inv.new sockets) undisturbed

/-- The late answer waits on the socket 3 while the next call uses the socket 4. -/
theorem requestDio_own_of_undisturbed_late :
    AllStates step Own (new [3, 4])
      [.request 7, .send 0, .timeout 0, .request 7, .send 1,
        .answer 0 ⟨CRB3_PKT_CR_RSP, CRB3_OK, 1, 0, 7, true, CRB3Param.new 0⟩, .deliver 0,
        .answer 1 ⟨CRB3_PKT_CR_RSP, CRB3_OK, 1, 1, 7, true, CRB3Param.new 0⟩, .deliver 1,
        .receive 1] :=
  requestDio_own_of_undisturbed [3, 4] _ (by decide)

/-- With the socket 3 alone, the second call returns `CRB3_OK` with the late answer to the first
one. -/
theorem requestDio_returns_late_answer :
    ¬ ∀ sockets ops, AllStates step Own (new sockets) ops := by
  intro own
  have facts : (run step (new [3])
      [.request 7, .send 0, .timeout 0,
        .answer 0 ⟨CRB3_PKT_CR_RSP, CRB3_OK, 1, 0, 7, true, CRB3Param.new 0⟩, .deliver 0,
        .request 8, .send 1, .receive 1]).any (fun client =>
          decide (∃ result ∈ client.returned, ∀ datagram ∈ client.answered,
            datagram.request.number ≠ result.1.number)) = true := by
    decide
  obtain ⟨client, execution, here⟩ := (Option.any_eq_true _ _).mp facts
  obtain ⟨result, returned, other⟩ := of_decide_eq_true here
  obtain ⟨datagram, answered, same, -⟩ := (own _ _).of_run execution result returned
  exact other datagram answered same

end DioClient

end CommonLib
