import CommonLib.Network.Crb3Param

/-!
# Packets of `crb3_server.cpp` and `crb3_client.cpp`

`_PacketProcess` of the server and of the client walk over a received packet, whose first byte is
the cell 0, and hand the parameters of each request or response to the constructor of `CRB3Param`.
What the services and callbacks do with them does not touch the packet.
-/

namespace CommonLib

open CRB3Param

def CRB3_PKT_STATUS_RSP : UInt16 := 0x8001
def CRB3_PKT_CR_REQ : UInt16 := 0x0002
def CRB3_PKT_CR_RSP : UInt16 := 0x8002
def CRB3_PKT_ALIVE_REQ : UInt16 := 0x0003
def CRB3_OK : UInt32 := 0

/-- A request handed to `DoService`, or a response handed to `_Response`. -/
structure CrMessage where
  crSeq : UInt32
  crId : UInt32
  crFlag : UInt16
  param : CRB3Param

/-- The fields before the parameters of a request or response. -/
structure CrHead where
  crSeq : UInt32
  crId : UInt32
  crFlag : UInt16
  paramNum : UInt16
  paramSize : UInt32

def fetchCrHead : Fetch Byte CrHead := do
  let crSeq ← fetchInt32
  let crId ← fetchInt32
  let crFlag ← fetchInt16
  let paramNum ← fetchInt16
  return ⟨crSeq, crId, crFlag, paramNum, ← fetchInt32⟩

/-! ## The server -/

namespace CRB3Server

/-- The loop over the requests of a packet. -/
def fetchRequests (ntohl_64 : Int64 → Int64) (ptrEnd : Nat) : Nat → Fetch Byte (List CrMessage)
  | 0 => return []
  | count + 1 => do
      let head ← fetchCrHead
      let ptr ← Fetch.position
      if ptr + head.paramSize.toNat ≤ ptrEnd then
        let paramIn ← Fetch.peek
          (CRB3Param.fetch ntohl_64 head.paramNum.toNat head.paramSize.toInt32)
        Fetch.skip head.paramSize.toNat
        return ⟨head.crSeq, head.crId, head.crFlag, paramIn⟩ ::
          (← fetchRequests ntohl_64 ptrEnd count)
      else return []

/-- `CRB3Server::_PacketProcess`: the requests served. -/
def packetProcess (ntohl_64 : Int64 → Int64) (packetSize : Nat) : Fetch Byte (List CrMessage) := do
  let _hdrLen ← fetchInt16
  let hdrId ← fetchInt16
  let _hdrStatus ← fetchInt32
  if hdrId = CRB3_PKT_CR_REQ then
    let reqNum ← fetchInt16
    let _reqFlag ← fetchInt16
    fetchRequests ntohl_64 packetSize reqNum.toNat
  else return []

end CRB3Server

/-! ## The client -/

namespace CRB3Client

/-- What a packet makes the client do. -/
inductive Action
  | aliveResponse
  | statusNotify (status weight : UInt32)
  | response (message : CrMessage)

/-- The loop over the responses of a packet; the pointer stays before the parameters. -/
def fetchResponses (ntohl_64 : Int64 → Int64) (ptrEnd : Nat) : Nat → Fetch Byte (List Action)
  | 0 => return []
  | count + 1 => do
      let head ← fetchCrHead
      let ptr ← Fetch.position
      if ptr + head.paramSize.toNat > ptrEnd then return []
      else
        let param ←
          if head.paramNum > 0 then
            Fetch.peek (CRB3Param.fetch ntohl_64 head.paramNum.toNat head.paramSize.toInt32)
          else pure (CRB3Param.new 0)
        return .response ⟨head.crSeq, head.crId, head.crFlag, param⟩ ::
          (← fetchResponses ntohl_64 ptrEnd count)

def fetchStatusNotify : Fetch Byte Action := do
  let status ← fetchInt32
  return .statusNotify status (← fetchInt32)

/-- What follows the head of a `CRB3_PKT_CR_RSP` packet. -/
def fetchCrResponse (ntohl_64 : Int64 → Int64) (packetSize : Nat) : Fetch Byte (List Action) := do
  let respNum ← fetchInt16
  let respFlag ← fetchInt16
  if respFlag &&& 0x0001 ≠ 0 then
    let notify ← fetchStatusNotify
    return notify :: (← fetchResponses ntohl_64 packetSize respNum.toNat)
  else fetchResponses ntohl_64 packetSize respNum.toNat

/-- `CRB3Client::_PacketProcess`. -/
def packetProcess (ntohl_64 : Int64 → Int64) (packetSize : Nat) : Fetch Byte (List Action) := do
  let _hdrLen ← fetchInt16
  let hdrId ← fetchInt16
  let hdrStatus ← fetchInt32
  if hdrId = CRB3_PKT_ALIVE_REQ then return [.aliveResponse]
  else if hdrId = CRB3_PKT_STATUS_RSP then return [← fetchStatusNotify]
  else if hdrId = CRB3_PKT_CR_RSP then
    if hdrStatus ≠ CRB3_OK then return []
    else fetchCrResponse ntohl_64 packetSize
  else return []

end CRB3Client

/-! ## Packets whose contents fit

The fields of a packet are read off its bytes; a packet fits if everything its fields announce
lies before its end.
-/

/-- The 16-bit field at `offset`. -/
def word (bytes : List Byte) (offset : Nat) : UInt16 :=
  UInt16.ofNat (ofBigEndian ((bytes.drop offset).take 2))

/-- The 32-bit field at `offset`. -/
def long (bytes : List Byte) (offset : Nat) : UInt32 :=
  UInt32.ofNat (ofBigEndian ((bytes.drop offset).take 4))

/-- The bytes which the value of a parameter takes. -/
def valueSize (type len : UInt16) : Nat :=
  if type = CRB3P_TYPE_INT8 then 1
  else if type = CRB3P_TYPE_INT16 then 2
  else if type = CRB3P_TYPE_INT32 then 4
  else if type = CRB3P_TYPE_INT64 then 8
  else if type = CRB3P_TYPE_STRING ∨ type = CRB3P_TYPE_OCTOR then len.toNat
  else 0

/-- The head and the value of a parameter. -/
def slotSize (bytes : List Byte) : Nat := 4 + valueSize (word bytes 0) (word bytes 2)

/-- Each of `count` parameters whose head lies in the first `room` bytes has its value in
`bytes`. -/
def ParamsFit : Nat → Nat → List Byte → Prop
  | 0, _, _ => True
  | count + 1, room, bytes =>
      4 ≤ room → slotSize bytes ≤ bytes.length ∧
        ParamsFit count (room - slotSize bytes) (bytes.drop (slotSize bytes))

/-- `count` requests lie in `bytes`, up to one whose parameters overrun them. -/
def RequestsFit : Nat → List Byte → Prop
  | 0, _ => True
  | count + 1, bytes =>
      16 ≤ bytes.length ∧
        ((long bytes 12).toNat ≤ bytes.length - 16 →
          ParamsFit (word bytes 10).toNat (long bytes 12).toNat (bytes.drop 16) ∧
            RequestsFit count (bytes.drop (16 + (long bytes 12).toNat)))

/-- `count` responses lie in `bytes`, up to one whose parameters overrun them; each head follows
the one before it. -/
def ResponsesFit : Nat → List Byte → Prop
  | 0, _ => True
  | count + 1, bytes =>
      16 ≤ bytes.length ∧
        ((long bytes 12).toNat ≤ bytes.length - 16 →
          ParamsFit (word bytes 10).toNat (long bytes 12).toNat (bytes.drop 16) ∧
            ResponsesFit count (bytes.drop 16))

/-- What a packet for the server announces lies in it. -/
def ServerFits (packet : List Byte) : Prop :=
  word packet 2 = CRB3_PKT_CR_REQ →
    12 ≤ packet.length ∧ RequestsFit (word packet 8).toNat (packet.drop 12)

/-- Where the responses of a packet begin: behind the status, if the packet carries one. -/
def responsesStart (packet : List Byte) : Nat :=
  if word packet 10 &&& 0x0001 ≠ 0 then 20 else 12

/-- What a packet for the client announces lies in it. -/
def ClientFits (packet : List Byte) : Prop :=
  (word packet 2 = CRB3_PKT_STATUS_RSP → 16 ≤ packet.length) ∧
    (word packet 2 = CRB3_PKT_CR_RSP → long packet 4 = CRB3_OK →
      12 ≤ packet.length ∧ responsesStart packet ≤ packet.length ∧
        ResponsesFit (word packet 8).toNat (packet.drop (responsesStart packet)))

/-! ## The reads of a parameter table -/

section Reads

variable {ntohl_64 : Int64 → Int64} {memory : Nat → Byte} {bound ptr : Nat}

theorem fetchInt16_value {offset count : Nat} (inside : offset + 2 ≤ count) :
    (fetchInt16 memory (ptr + offset)).value = word (cells memory ptr count) offset := by
  rw [word, cells_drop _ _ (by omega), cells_take _ _ (by omega)]
  rfl

theorem fetchInt32_value {offset count : Nat} (inside : offset + 4 ≤ count) :
    (fetchInt32 memory (ptr + offset)).value = long (cells memory ptr count) offset := by
  rw [long, cells_drop _ _ (by omega), cells_take _ _ (by omega)]
  rfl

@[simp] theorem fetchInt16_ptr : (fetchInt16 memory ptr).ptr = ptr + 2 := rfl

@[simp] theorem fetchInt32_ptr : (fetchInt32 memory ptr).ptr = ptr + 4 := rfl

theorem fetchInt16_within : fetchInt16.Within memory bound ptr ↔ ptr + 2 ≤ bound := by
  rw [fetchInt16, Fetch.within_map, Fetch.within_take, or_iff_right (by decide)]

theorem fetchInt32_within : fetchInt32.Within memory bound ptr ↔ ptr + 4 ≤ bound := by
  rw [fetchInt32, Fetch.within_map, Fetch.within_take, or_iff_right (by decide)]

theorem fetchValue_within (type len : UInt16) :
    (fetchValue ntohl_64 type len).Within memory bound ptr ↔
      valueSize type len = 0 ∨ ptr + valueSize type len ≤ bound := by
  unfold fetchValue valueSize
  split
  · rw [Fetch.within_map, Fetch.within_take]
  split
  · rw [Fetch.within_map, fetchInt16_within]
    simp
  split
  · rw [Fetch.within_map, fetchInt32_within]
    simp
  split
  · rw [Fetch.within_map, fetchInt64, Fetch.within_map, Fetch.within_take]
  split
  · next string => rw [Fetch.within_map, Fetch.within_take, if_pos (.inl string)]
  split
  · next octor => rw [Fetch.within_map, Fetch.within_take, if_pos (.inr octor)]
  · next string octor => simp [string, octor]

theorem fetchValue_ptr (type len : UInt16) :
    (fetchValue ntohl_64 type len memory ptr).ptr = ptr + valueSize type len := by
  unfold fetchValue valueSize
  (repeat' split) <;> first | rfl | grind

theorem fetchSlot_ptr (head : ptr + 4 ≤ bound) :
    (fetchSlot ntohl_64 memory ptr).ptr = ptr + slotSize (cells memory ptr (bound - ptr)) := by
  simp only [fetchSlot, Fetch.ptr_bind, Fetch.ptr_pure, fetchInt16_ptr, fetchValue_ptr]
  rw [slotSize, ← fetchInt16_value (by omega : 0 + 2 ≤ bound - ptr),
    ← fetchInt16_value (by omega : 2 + 2 ≤ bound - ptr), Nat.add_zero ptr]
  omega

theorem fetchSlot_within (head : ptr + 4 ≤ bound) :
    (fetchSlot ntohl_64).Within memory bound ptr ↔
      slotSize (cells memory ptr (bound - ptr)) ≤ bound - ptr := by
  rw [fetchSlot, Fetch.within_bind, Fetch.within_bind, Fetch.within_map, fetchInt16_within,
    fetchInt16_ptr, fetchInt16_within, fetchInt16_ptr, fetchValue_within, slotSize,
    ← fetchInt16_value (by omega : 0 + 2 ≤ bound - ptr),
    ← fetchInt16_value (by omega : 2 + 2 ≤ bound - ptr), Nat.add_zero ptr]
  omega

/-- The loop over the parameters reads inside the packet when their values lie in it. -/
theorem fetchSlots_within {stop : Int} (stop_le : stop ≤ bound) (count : Nat) :
    (fetchSlots ntohl_64 stop count).Within memory bound ptr ↔
      ParamsFit count (stop - ptr).toNat (cells memory ptr (bound - ptr)) := by
  induction count generalizing ptr with
  | zero => simp [fetchSlots, ParamsFit]
  | succ count induction =>
      rw [fetchSlots, Fetch.within_bind, and_iff_right Fetch.within_position, Fetch.value_position,
        Fetch.ptr_position, ParamsFit]
      by_cases room : (ptr : Int) + 4 ≤ stop
      · have head : ptr + 4 ≤ bound := by omega
        rw [if_pos room, Fetch.within_bind, fetchSlot_within head, Fetch.within_map,
          fetchSlot_ptr head, induction, cells_length, forall_prop_of_true (by omega)]
        refine and_congr_right fun inside => ?_
        rw [cells_drop _ _ inside, show bound - (ptr + slotSize (cells memory ptr (bound - ptr))) =
            bound - ptr - slotSize (cells memory ptr (bound - ptr)) by omega,
          show (stop - ((ptr + slotSize (cells memory ptr (bound - ptr)) : Nat) : Int)).toNat =
            (stop - ptr).toNat - slotSize (cells memory ptr (bound - ptr)) by omega]
      · rw [if_neg room]
        simp only [Fetch.within_pure, true_iff]
        intro enough
        omega

/-- The size of the parameters as the `int` that the constructor takes. -/
theorem bufSize_toInt {psize : UInt32} (size_lt : psize.toNat < 2 ^ 31) :
    psize.toInt32.toInt = psize.toNat := by
  have cast_eq : psize.toInt32 = Int32.ofNat psize.toNat := by
    rw [← UInt32.toInt32_ofNat', UInt32.ofNat_toNat]
  rw [cast_eq, Int32.toInt_ofNat_of_lt (by omega)]

theorem fetch_within (paramCnt : Nat) {psize : UInt32} (size_lt : bound < 2 ^ 31)
    (inside : ptr + psize.toNat ≤ bound) :
    (CRB3Param.fetch ntohl_64 paramCnt psize.toInt32).Within memory bound ptr ↔
      ParamsFit paramCnt psize.toNat (cells memory ptr (bound - ptr)) := by
  have exact_eq : psize.toInt32.toInt = psize.toNat := bufSize_toInt (by omega)
  rw [CRB3Param.fetch, Fetch.within_bind, and_iff_right Fetch.within_position, Fetch.within_map,
    Fetch.value_position, Fetch.ptr_position, exact_eq, fetchSlots_within (by omega)]
  congr!
  omega

/-! ## The reads of a packet -/

theorem fetchCrHead_ptr : (fetchCrHead memory ptr).ptr = ptr + 16 := rfl

theorem fetchCrHead_within : fetchCrHead.Within memory bound ptr ↔ ptr + 16 ≤ bound := by
  simp only [fetchCrHead, Fetch.within_bind, Fetch.within_pure, fetchInt16_within,
    fetchInt32_within, fetchInt16_ptr, fetchInt32_ptr, and_true]
  omega

theorem fetchCrHead_paramNum {count : Nat} (inside : 16 ≤ count) :
    (fetchCrHead memory ptr).value.paramNum = word (cells memory ptr count) 10 := by
  rw [← fetchInt16_value (by omega : 10 + 2 ≤ count)]
  rfl

theorem fetchCrHead_paramSize {count : Nat} (inside : 16 ≤ count) :
    (fetchCrHead memory ptr).value.paramSize = long (cells memory ptr count) 12 := by
  rw [← fetchInt32_value (by omega : 12 + 4 ≤ count)]
  rfl

theorem CRB3Server.fetchRequests_within (bound_lt : bound < 2 ^ 31) (count : Nat) :
    (fetchRequests ntohl_64 bound count).Within memory bound ptr ↔
      RequestsFit count (cells memory ptr (bound - ptr)) := by
  induction count generalizing ptr with
  | zero => simp [fetchRequests, RequestsFit]
  | succ count induction =>
      rw [fetchRequests, Fetch.within_bind, fetchCrHead_within, RequestsFit, cells_length,
        show ptr + 16 ≤ bound ↔ 16 ≤ bound - ptr by omega]
      refine and_congr_right fun head => ?_
      rw [Fetch.within_bind, and_iff_right Fetch.within_position, Fetch.value_position,
        Fetch.ptr_position, fetchCrHead_ptr, fetchCrHead_paramNum head, fetchCrHead_paramSize head]
      by_cases room : (long (cells memory ptr (bound - ptr)) 12).toNat ≤ bound - ptr - 16
      · have inside : ptr + 16 + (long (cells memory ptr (bound - ptr)) 12).toNat ≤ bound := by omega
        rw [if_pos inside, forall_prop_of_true room, Fetch.within_bind, Fetch.within_peek,
          fetch_within _ bound_lt inside, Fetch.within_bind, and_iff_right (Fetch.within_skip _),
          Fetch.within_map, Fetch.ptr_peek, Fetch.ptr_skip, induction, cells_drop _ _ head,
          cells_drop _ _ (by omega)]
        simp only [Nat.sub_sub, Nat.add_assoc]
      · rw [if_neg (by omega)]
        simp [room]

theorem CRB3Client.fetchResponses_within (bound_lt : bound < 2 ^ 31) (count : Nat) :
    (fetchResponses ntohl_64 bound count).Within memory bound ptr ↔
      ResponsesFit count (cells memory ptr (bound - ptr)) := by
  induction count generalizing ptr with
  | zero => simp [fetchResponses, ResponsesFit]
  | succ count induction =>
      rw [fetchResponses, Fetch.within_bind, fetchCrHead_within, ResponsesFit, cells_length,
        show ptr + 16 ≤ bound ↔ 16 ≤ bound - ptr by omega]
      refine and_congr_right fun head => ?_
      rw [Fetch.within_bind, and_iff_right Fetch.within_position, Fetch.value_position,
        Fetch.ptr_position, fetchCrHead_ptr, fetchCrHead_paramNum head, fetchCrHead_paramSize head]
      by_cases room : (long (cells memory ptr (bound - ptr)) 12).toNat ≤ bound - ptr - 16
      · have inside : ptr + 16 + (long (cells memory ptr (bound - ptr)) 12).toNat ≤ bound := by omega
        rw [if_neg (by omega), forall_prop_of_true room, cells_drop _ _ head, Nat.sub_sub]
        by_cases some : word (cells memory ptr (bound - ptr)) 10 > 0
        · rw [if_pos some, Fetch.within_bind, Fetch.within_peek, fetch_within _ bound_lt inside,
            Fetch.within_map, Fetch.ptr_peek, induction]
        · have none : word (cells memory ptr (bound - ptr)) 10 = 0 := by
            simpa using some
          rw [if_neg some, Fetch.within_bind, and_iff_right (Fetch.within_pure _), Fetch.within_map,
            Fetch.ptr_pure, induction, none]
          simp [ParamsFit]
      · rw [if_pos (by omega)]
        simp [room]

/-- The server reads inside the packet exactly when what the packet announces lies in it. -/
theorem CRB3Server.within_iff (size_ge : 8 ≤ bound) (bound_lt : bound < 2 ^ 31) :
    (packetProcess ntohl_64 bound).Within memory bound 0 ↔ ServerFits (cells memory 0 bound) := by
  have hdrId : (fetchInt16 memory (0 + 2)).value = word (cells memory 0 bound) 2 :=
    fetchInt16_value (by omega)
  simp only [packetProcess, Fetch.within_bind, fetchInt16_within, fetchInt32_within,
    fetchInt16_ptr, fetchInt32_ptr, hdrId, ServerFits, cells_length]
  by_cases request : word (cells memory 0 bound) 2 = CRB3_PKT_CR_REQ
  · simp only [if_pos request, forall_prop_of_true request, Fetch.within_bind, fetchInt16_within,
      fetchInt16_ptr, fetchRequests_within bound_lt]
    by_cases enough : 12 ≤ bound
    · have reqNum : (fetchInt16 memory (0 + 8)).value = word (cells memory 0 bound) 8 :=
        fetchInt16_value (by omega)
      rw [cells_drop _ _ enough, ← reqNum]
      simp only [Nat.zero_add, Nat.reduceAdd]
      grind
    · grind
  · simp only [if_neg request, Fetch.within_pure]
    grind

theorem CRB3Client.fetchStatusNotify_within :
    fetchStatusNotify.Within memory bound ptr ↔ ptr + 8 ≤ bound := by
  simp only [fetchStatusNotify, Fetch.within_bind, Fetch.within_pure, fetchInt32_within,
    fetchInt32_ptr, and_true]
  omega

theorem CRB3Client.fetchStatusNotify_ptr : (fetchStatusNotify memory ptr).ptr = ptr + 8 := rfl

theorem CRB3Client.fetchCrResponse_within (bound_lt : bound < 2 ^ 31) :
    (fetchCrResponse ntohl_64 bound).Within memory bound 8 ↔
      12 ≤ bound ∧ responsesStart (cells memory 0 bound) ≤ bound ∧
        ResponsesFit (word (cells memory 0 bound) 8).toNat
          ((cells memory 0 bound).drop (responsesStart (cells memory 0 bound))) := by
  simp only [fetchCrResponse, Fetch.within_bind, fetchInt16_within, fetchInt16_ptr]
  rw [← and_assoc, show (8 + 2 ≤ bound ∧ 8 + 2 + 2 ≤ bound) ↔ 12 ≤ bound by omega]
  refine and_congr_right fun enough => ?_
  have respNum : (fetchInt16 memory (0 + 8)).value = word (cells memory 0 bound) 8 :=
    fetchInt16_value (by omega)
  have respFlag : (fetchInt16 memory (0 + 10)).value = word (cells memory 0 bound) 10 :=
    fetchInt16_value (by omega)
  rw [Nat.zero_add] at respNum respFlag
  rw [respNum, respFlag, responsesStart]
  by_cases status : word (cells memory 0 bound) 10 &&& 0x0001 ≠ 0
  · rw [if_pos status, if_pos status, Fetch.within_bind, fetchStatusNotify_within,
      Fetch.within_map, fetchStatusNotify_ptr, fetchResponses_within bound_lt]
    refine and_congr_right fun room => ?_
    rw [cells_drop _ _ room, Nat.zero_add]
  · rw [if_neg status, if_neg status, fetchResponses_within bound_lt, cells_drop _ _ enough,
      Nat.zero_add, and_iff_right enough]

/-- The client reads inside the packet exactly when what the packet announces lies in it. -/
theorem CRB3Client.within_iff (size_ge : 8 ≤ bound) (bound_lt : bound < 2 ^ 31) :
    (packetProcess ntohl_64 bound).Within memory bound 0 ↔ ClientFits (cells memory 0 bound) := by
  have hdrId : (fetchInt16 memory (0 + 2)).value = word (cells memory 0 bound) 2 :=
    fetchInt16_value (by omega)
  have hdrStatus : (fetchInt32 memory (0 + 4)).value = long (cells memory 0 bound) 4 :=
    fetchInt32_value (by omega)
  simp only [packetProcess, Fetch.within_bind, fetchInt16_within, fetchInt32_within,
    fetchInt16_ptr, fetchInt32_ptr, hdrId, hdrStatus, ClientFits, cells_length]
  rw [and_iff_right (by omega), and_iff_right (by omega), and_iff_right (by omega)]
  by_cases alive : word (cells memory 0 bound) 2 = CRB3_PKT_ALIVE_REQ
  · rw [if_pos alive, alive]
    simp [CRB3_PKT_ALIVE_REQ, CRB3_PKT_STATUS_RSP, CRB3_PKT_CR_RSP]
  rw [if_neg alive]
  by_cases status : word (cells memory 0 bound) 2 = CRB3_PKT_STATUS_RSP
  · rw [if_pos status, status, Fetch.within_map, fetchStatusNotify_within]
    simp [CRB3_PKT_STATUS_RSP, CRB3_PKT_CR_RSP]
  rw [if_neg status]
  by_cases response : word (cells memory 0 bound) 2 = CRB3_PKT_CR_RSP
  · rw [if_pos response]
    by_cases ok : long (cells memory 0 bound) 4 = CRB3_OK
    · rw [if_neg (not_not.mpr ok), fetchCrResponse_within bound_lt,
        and_iff_right (absurd · status), forall_prop_of_true response, forall_prop_of_true ok]
    · simp [status, ok]
  · simp [status, response]

end Reads

/-- Every byte of a packet that `_PacketProcess` reads lies in it exactly when what the packet
announces does. -/
theorem packetProcess_within_iff (ntohl_64 : Int64 → Int64) (memory : Nat → Byte)
    {packetSize : Nat} (size_ge : 8 ≤ packetSize) (size_lt : packetSize < 2 ^ 31) :
    ((CRB3Server.packetProcess ntohl_64 packetSize).Within memory packetSize 0 ↔
        ServerFits (cells memory 0 packetSize)) ∧
      ((CRB3Client.packetProcess ntohl_64 packetSize).Within memory packetSize 0 ↔
        ClientFits (cells memory 0 packetSize)) :=
  ⟨CRB3Server.within_iff size_ge size_lt, CRB3Client.within_iff size_ge size_lt⟩

/-- An alive request is read inside its eight bytes by both sides. -/
theorem aliveRequest_within :
    (CRB3Server.packetProcess id 8).Within ([0, 8, 0, 3, 0, 0, 0, 0].getD · 0) 8 0 ∧
      (CRB3Client.packetProcess id 8).Within ([0, 8, 0, 3, 0, 0, 0, 0].getD · 0) 8 0 := by
  obtain ⟨server, client⟩ :=
    packetProcess_within_iff id ([0, 8, 0, 3, 0, 0, 0, 0].getD · 0) (Nat.le_refl 8) (by decide)
  constructor
  · exact server.mpr fun request => absurd request (by decide)
  · exact client.mpr ⟨fun status => absurd status (by decide),
      fun response => absurd response (by decide)⟩

/-- A request packet that ends behind its head is read behind its end. -/
theorem truncatedRequest_not_within :
    ¬ (CRB3Server.packetProcess id 8).Within ([0, 8, 0, 2, 0, 0, 0, 0].getD · 0) 8 0 := by
  intro within
  exact absurd (within 8 (by decide)) (by decide)

end CommonLib
