import CommonLib.Network.Crb3Packet

/-!
# Responses of a packet

The client walks over the responses of a packet without passing their parameters: it looks for each
response right behind the head of the one before it.
-/

namespace CommonLib

open CRB3Param

/-- A response as a packet carries it; `PSize` is the length of `tlv`. -/
structure CrResponse where
  crSeq : UInt32
  crId : UInt32
  crFlag : UInt16
  paramNum : UInt16
  tlv : List Byte

/-- The bytes hold `count` parameters and nothing else. -/
def ParamsFill : Nat → List Byte → Prop
  | 0, bytes => bytes = []
  | count + 1, bytes =>
      4 ≤ bytes.length ∧ slotSize bytes ≤ bytes.length ∧
        ParamsFill count (bytes.drop (slotSize bytes))

instance decidableParamsFill : ∀ count bytes, Decidable (ParamsFill count bytes)
  | 0, bytes => inferInstanceAs (Decidable (bytes = []))
  | count + 1, bytes =>
      have := decidableParamsFill count (bytes.drop (slotSize bytes))
      inferInstanceAs (Decidable (4 ≤ bytes.length ∧ slotSize bytes ≤ bytes.length ∧
        ParamsFill count (bytes.drop (slotSize bytes))))

namespace CrResponse

def head (response : CrResponse) : List Byte :=
  bigEndian 4 response.crSeq.toNat ++ (bigEndian 4 response.crId.toNat ++
    (bigEndian 2 response.crFlag.toNat ++ (bigEndian 2 response.paramNum.toNat ++
      bigEndian 4 response.tlv.length)))

def bytes (response : CrResponse) : List Byte := response.head ++ response.tlv

/-- `PSize` holds the length of the parameters. -/
theorem psize_toNat {response : CrResponse} (size_lt : response.tlv.length < 2 ^ 32) :
    (UInt32.ofNat response.tlv.length).toNat = response.tlv.length :=
  UInt32.toNat_ofNat_of_lt' size_lt

/-- The parameters that the constructor makes of the bytes. -/
def param (ntohl_64 : Int64 → Int64) (response : CrResponse) : CRB3Param :=
  (CRB3Param.fetch ntohl_64 response.paramNum.toNat (UInt32.ofNat response.tlv.length).toInt32
    (response.tlv.getD · 0) 0).value

/-- What `_Response` should be called with. -/
def message (ntohl_64 : Int64 → Int64) (response : CrResponse) : CrMessage :=
  ⟨response.crSeq, response.crId, response.crFlag, response.param ntohl_64⟩

end CrResponse

/-- A `CRB3_PKT_CR_RSP` packet with status 0. -/
def responsePacket (hdrLen respFlag : UInt16) (status weight : UInt32)
    (responses : List CrResponse) : List Byte :=
  bigEndian 2 hdrLen.toNat ++ (bigEndian 2 CRB3_PKT_CR_RSP.toNat ++
    (bigEndian 4 CRB3_OK.toNat ++ (bigEndian 2 responses.length ++ (bigEndian 2 respFlag.toNat ++
      ((if respFlag &&& 0x0001 ≠ 0 then bigEndian 4 status.toNat ++ bigEndian 4 weight.toNat
        else []) ++ responses.flatMap CrResponse.bytes)))))

/-! ## Parameters that stand elsewhere -/

section Congr

variable {ntohl_64 : Int64 → Int64} {memory memory' : Nat → Byte} {ptr ptr' : Nat}

theorem fetchValue_congr {type len : UInt16}
    (same : cells memory ptr (valueSize type len) = cells memory' ptr' (valueSize type len)) :
    (fetchValue ntohl_64 type len memory ptr).value =
      (fetchValue ntohl_64 type len memory' ptr').value := by
  unfold valueSize at same
  unfold fetchValue
  split
  · next int8 =>
    rw [if_pos int8] at same
    simp only [Fetch.value_bind, Fetch.value_take, Fetch.value_pure, same]
  next int8 =>
  rw [if_neg int8] at same
  split
  · next int16 =>
    rw [if_pos int16] at same
    simp only [fetchInt16, Fetch.value_bind, Fetch.value_take, Fetch.value_pure, same]
  next int16 =>
  rw [if_neg int16] at same
  split
  · next int32 =>
    rw [if_pos int32] at same
    simp only [fetchInt32, Fetch.value_bind, Fetch.value_take, Fetch.value_pure, same]
  next int32 =>
  rw [if_neg int32] at same
  split
  · next int64 =>
    rw [if_pos int64] at same
    simp only [fetchInt64, Fetch.value_bind, Fetch.value_take, Fetch.value_pure, same]
  next int64 =>
  rw [if_neg int64] at same
  split
  · next string =>
    rw [if_pos (.inl string)] at same
    simp only [Fetch.value_bind, Fetch.value_take, Fetch.value_pure, same]
  split
  · next octor =>
    rw [if_pos (.inr octor)] at same
    simp only [Fetch.value_bind, Fetch.value_take, Fetch.value_pure, same]
  · rfl

theorem fetchSlot_congr {count : Nat} (same : cells memory ptr count = cells memory' ptr' count)
    (head : 4 ≤ count) (whole : slotSize (cells memory ptr count) ≤ count) :
    (fetchSlot ntohl_64 memory ptr).value = (fetchSlot ntohl_64 memory' ptr').value := by
  have type_eq : (fetchInt16 memory ptr).value = (fetchInt16 memory' ptr').value := by
    rw [← Nat.add_zero ptr, ← Nat.add_zero ptr', fetchInt16_value (by omega : 0 + 2 ≤ count),
      fetchInt16_value (by omega : 0 + 2 ≤ count), same]
  have len_eq : (fetchInt16 memory (ptr + 2)).value = (fetchInt16 memory' (ptr' + 2)).value := by
    rw [fetchInt16_value (by omega : 2 + 2 ≤ count), fetchInt16_value (by omega : 2 + 2 ≤ count),
      same]
  have type_word : (fetchInt16 memory ptr).value = word (cells memory ptr count) 0 := by
    rw [← fetchInt16_value (by omega : 0 + 2 ≤ count), Nat.add_zero]
  have len_word : (fetchInt16 memory (ptr + 2)).value = word (cells memory ptr count) 2 :=
    fetchInt16_value (by omega)
  rw [slotSize, ← type_word, ← len_word] at whole
  have value_eq : (fetchValue ntohl_64 (fetchInt16 memory ptr).value
      (fetchInt16 memory (ptr + 2)).value memory (ptr + 4)).value =
      (fetchValue ntohl_64 (fetchInt16 memory ptr).value
        (fetchInt16 memory (ptr + 2)).value memory' (ptr' + 4)).value := by
    refine fetchValue_congr (cells_congr.mpr fun offset inside => ?_)
    rw [Nat.add_assoc, Nat.add_assoc]
    exact cells_congr.mp same (4 + offset) (by omega)
  simp only [fetchSlot, Fetch.value_bind, Fetch.value_pure, fetchInt16_ptr, Nat.add_assoc,
    Nat.reduceAdd]
  rw [value_eq, len_eq, type_eq]

/-- Parameters that fill a buffer are read alike wherever it stands. -/
theorem fetchSlots_congr {count size : Nat} (same : cells memory ptr size = cells memory' ptr' size)
    (filled : ParamsFill count (cells memory ptr size)) :
    (fetchSlots ntohl_64 (ptr + size : Nat) count memory ptr).value =
      (fetchSlots ntohl_64 (ptr' + size : Nat) count memory' ptr').value := by
  induction count generalizing ptr ptr' size with
  | zero => rfl
  | succ count induction =>
      obtain ⟨head, whole, rest⟩ := filled
      rw [cells_length] at head whole
      have room : (ptr : Int) + 4 ≤ (ptr + size : Nat) := by omega
      have room' : (ptr' : Int) + 4 ≤ (ptr' + size : Nat) := by omega
      have ptr_eq : (fetchSlot ntohl_64 memory ptr).ptr =
          ptr + slotSize (cells memory ptr size) := by
        rw [fetchSlot_ptr (show ptr + 4 ≤ ptr + size by omega), Nat.add_sub_cancel_left]
      have ptr_eq' : (fetchSlot ntohl_64 memory' ptr').ptr =
          ptr' + slotSize (cells memory ptr size) := by
        rw [fetchSlot_ptr (show ptr' + 4 ≤ ptr' + size by omega), Nat.add_sub_cancel_left, same]
      have behind : cells memory (ptr + slotSize (cells memory ptr size))
          (size - slotSize (cells memory ptr size)) =
          cells memory' (ptr' + slotSize (cells memory ptr size))
            (size - slotSize (cells memory ptr size)) := by
        rw [← cells_drop _ _ whole, ← cells_drop _ _ whole, same]
      have tail := induction behind (by rwa [← cells_drop _ _ whole])
      rw [Nat.add_assoc, Nat.add_assoc, Nat.add_sub_cancel' whole] at tail
      rw [fetchSlots, fetchSlots, Fetch.value_bind, Fetch.value_bind, Fetch.value_position,
        Fetch.value_position, Fetch.ptr_position, Fetch.ptr_position, if_pos room, if_pos room']
      simp only [Fetch.value_bind, Fetch.value_pure, fetchSlot_congr same head whole, ptr_eq,
        ptr_eq', tail]

end Congr

namespace CRB3Client

/-- The calls of `_Response`. -/
def answers (actions : List Action) : List CrMessage :=
  actions.filterMap fun action =>
    match action with
    | .response message => some message
    | _ => none

@[simp] theorem answers_nil : answers [] = [] := rfl

@[simp] theorem answers_response (message : CrMessage) (actions : List Action) :
    answers (.response message :: actions) = message :: answers actions := rfl

@[simp] theorem answers_statusNotify (status weight : UInt32) (actions : List Action) :
    answers (.statusNotify status weight :: actions) = answers actions := rfl

/-- Each response can be read at `ptr` and 16 bytes behind the one before it. -/
def Aligned (ntohl_64 : Int64 → Int64) (memory : Nat → Byte) (ptrEnd : Nat) :
    Nat → List CrResponse → Prop
  | _, [] => True
  | ptr, response :: responses =>
      let head := (fetchCrHead memory ptr).value
      (head.crSeq = response.crSeq ∧ head.crId = response.crId ∧ head.crFlag = response.crFlag) ∧
        ptr + 16 + head.paramSize.toNat ≤ ptrEnd ∧
        (CRB3Param.fetch ntohl_64 head.paramNum.toNat head.paramSize.toInt32 memory
          (ptr + 16)).value = response.param ntohl_64 ∧
        Aligned ntohl_64 memory ptrEnd (ptr + 16) responses

section Loop

variable {ntohl_64 : Int64 → Int64} {memory : Nat → Byte} {ptr ptrEnd : Nat}

/-- One turn of the loop over the responses. -/
theorem fetchResponses_succ (count : Nat) :
    (fetchResponses ntohl_64 ptrEnd (count + 1) memory ptr).value =
      if ptr + 16 + (fetchCrHead memory ptr).value.paramSize.toNat > ptrEnd then []
      else .response ⟨(fetchCrHead memory ptr).value.crSeq, (fetchCrHead memory ptr).value.crId,
          (fetchCrHead memory ptr).value.crFlag,
          (CRB3Param.fetch ntohl_64 (fetchCrHead memory ptr).value.paramNum.toNat
            (fetchCrHead memory ptr).value.paramSize.toInt32 memory (ptr + 16)).value⟩ ::
        (fetchResponses ntohl_64 ptrEnd count memory (ptr + 16)).value := by
  rw [fetchResponses, Fetch.value_bind, Fetch.value_bind, Fetch.value_position, Fetch.ptr_position,
    fetchCrHead_ptr]
  split
  · rfl
  · by_cases some : (fetchCrHead memory ptr).value.paramNum > 0
    · rw [if_pos some]
      rfl
    · have none : (fetchCrHead memory ptr).value.paramNum = 0 := by
        simpa using some
      rw [if_neg some, none]
      rfl

/-- The loop finds the responses if they stand one head apart. -/
theorem answers_fetchResponses (responses : List CrResponse) :
    answers (fetchResponses ntohl_64 ptrEnd responses.length memory ptr).value =
        responses.map (CrResponse.message ntohl_64) ↔
      Aligned ntohl_64 memory ptrEnd ptr responses := by
  induction responses generalizing ptr with
  | nil => simp [fetchResponses, answers, Aligned]
  | cons response responses induction =>
      rw [List.length_cons, fetchResponses_succ, Aligned]
      by_cases outside : ptr + 16 + (fetchCrHead memory ptr).value.paramSize.toNat > ptrEnd
      · rw [if_pos outside]
        simp only [answers_nil, List.map_cons, List.nil_eq, reduceCtorEq, false_iff]
        rintro ⟨-, inside, -⟩
        omega
      · rw [if_neg outside, ← induction]
        simp only [answers_response, List.map_cons, List.cons.injEq, CrResponse.message,
          CrMessage.mk.injEq]
        have inside : ptr + 16 + (fetchCrHead memory ptr).value.paramSize.toNat ≤ ptrEnd := by omega
        tauto

end Loop
section Packet

variable {ntohl_64 : Int64 → Int64} {memory : Nat → Byte} {hdrLen respFlag : UInt16}
  {status weight : UInt32} {responses : List CrResponse}

/-- The fields before the responses of a packet. -/
theorem packet_fields
    (stored : cells memory 0 (responsePacket hdrLen respFlag status weight responses).length =
      responsePacket hdrLen respFlag status weight responses) (count : responses.length < 2 ^ 16) :
    (fetchInt16 memory 2).value = CRB3_PKT_CR_RSP ∧ (fetchInt32 memory 4).value = CRB3_OK ∧
      (fetchInt16 memory 8).value.toNat = responses.length ∧
      (fetchInt16 memory 10).value = respFlag := by
  have length_eq : (responsePacket hdrLen respFlag status weight responses).length =
      2 + (2 + (4 + (2 + (2 + ((if respFlag &&& 0x0001 ≠ 0 then
        bigEndian 4 status.toNat ++ bigEndian 4 weight.toNat else []) ++
          responses.flatMap CrResponse.bytes).length)))) := by
    simp [responsePacket]
  rw [length_eq, cells_add, cells_add, cells_add, cells_add, cells_add] at stored
  obtain ⟨-, stored⟩ := List.append_inj stored (by simp)
  obtain ⟨hdrId, stored⟩ := List.append_inj stored (by simp)
  obtain ⟨hdrStatus, stored⟩ := List.append_inj stored (by simp)
  obtain ⟨respNum, stored⟩ := List.append_inj stored (by simp)
  obtain ⟨flag, -⟩ := List.append_inj stored (by simp)
  have respNum : cells memory 8 2 = bigEndian 2 (UInt16.ofNat responses.length).toNat := by
    rw [UInt16.toNat_ofNat_of_lt' count]
    exact respNum
  refine ⟨(fetchInt16_yields _ hdrId).1, (fetchInt32_yields _ hdrStatus).1, ?_,
    (fetchInt16_yields _ flag).1⟩
  rw [(fetchInt16_yields _ respNum).1, UInt16.toNat_ofNat_of_lt' count]

/-- The responses are read from the place where they start. -/
theorem packetProcess_answers
    (stored : cells memory 0 (responsePacket hdrLen respFlag status weight responses).length =
      responsePacket hdrLen respFlag status weight responses)
    (count : responses.length < 2 ^ 16) (packetSize : Nat) :
    answers (packetProcess ntohl_64 packetSize memory 0).value =
      answers (fetchResponses ntohl_64 packetSize responses.length memory
        (if respFlag &&& 0x0001 ≠ 0 then 20 else 12)).value := by
  obtain ⟨hdrId, hdrStatus, respNum, flag⟩ := packet_fields stored count
  simp only [packetProcess, Fetch.value_bind, fetchInt16_ptr, fetchInt32_ptr, Nat.zero_add,
    Nat.reduceAdd, hdrId, hdrStatus]
  rw [if_neg (by decide), if_neg (by decide), if_pos trivial, if_neg (by simp), fetchCrResponse]
  simp only [Fetch.value_bind, fetchInt16_ptr, Nat.reduceAdd, flag]
  rw [respNum]
  by_cases carried : respFlag &&& 0x0001 ≠ 0
  · rw [if_pos carried, if_pos carried]
    rfl
  · rw [if_neg carried, if_neg carried]

/-- The fields of a response are read off its head. -/
theorem fetchCrHead_head {response : CrResponse} {ptr : Nat}
    (stored : cells memory ptr 16 = response.head) (size_lt : response.tlv.length < 2 ^ 32) :
    (fetchCrHead memory ptr).value = ⟨response.crSeq, response.crId, response.crFlag,
      response.paramNum, UInt32.ofNat response.tlv.length⟩ := by
  rw [show 16 = 4 + (4 + (2 + (2 + 4))) from rfl, CrResponse.head, cells_add, cells_add, cells_add,
    cells_add] at stored
  obtain ⟨crSeq, stored⟩ := List.append_inj stored (by simp)
  obtain ⟨crId, stored⟩ := List.append_inj stored (by simp)
  obtain ⟨crFlag, stored⟩ := List.append_inj stored (by simp)
  obtain ⟨paramNum, paramSize⟩ := List.append_inj stored (by simp)
  have paramSize : cells memory (ptr + 4 + 4 + 2 + 2) 4 =
      bigEndian 4 (UInt32.ofNat response.tlv.length).toNat := by
    rw [CrResponse.psize_toNat size_lt]
    exact paramSize
  simp only [fetchCrHead, Fetch.value_bind, Fetch.value_pure, fetchInt16_ptr, fetchInt32_ptr,
    (fetchInt32_yields _ crSeq).1, (fetchInt32_yields _ crId).1, (fetchInt16_yields _ crFlag).1,
    (fetchInt16_yields _ paramNum).1, (fetchInt32_yields _ paramSize).1]

/-- Parameters that fill their buffer are read off it. -/
theorem fetch_tlv {response : CrResponse} {ptr : Nat}
    (stored : cells memory ptr response.tlv.length = response.tlv)
    (size_lt : response.tlv.length < 2 ^ 31)
    (filled : ParamsFill response.paramNum.toNat response.tlv) :
    (CRB3Param.fetch ntohl_64 response.paramNum.toNat (UInt32.ofNat response.tlv.length).toInt32
      memory ptr).value = response.param ntohl_64 := by
  have size_eq : (UInt32.ofNat response.tlv.length).toInt32.toInt = response.tlv.length := by
    have psize_eq : (UInt32.ofNat response.tlv.length).toNat = response.tlv.length :=
      CrResponse.psize_toNat (by omega)
    rw [bufSize_toInt (by rwa [psize_eq]), psize_eq]
  have same : cells memory ptr response.tlv.length =
      cells (response.tlv.getD · 0) 0 response.tlv.length := by
    rw [stored]
    apply List.ext_getElem
    · simp
    · intro offset inside _
      simp [cells_getElem, inside]
  have slots : (fetchSlots ntohl_64 (ptr + response.tlv.length : Nat) response.paramNum.toNat
      memory ptr).value = (fetchSlots ntohl_64 (0 + response.tlv.length : Nat)
        response.paramNum.toNat (response.tlv.getD · 0) 0).value :=
    fetchSlots_congr same (by rwa [stored])
  simp only [CrResponse.param, CRB3Param.fetch, Fetch.value_bind, Fetch.value_position,
    Fetch.ptr_position, Fetch.value_pure, size_eq]
  exact congrArg CRB3Param.mk slots

/-- Responses of which only the last one has parameters stand one head apart. -/
theorem aligned_of_empty {ptr ptrEnd : Nat}
    (stored : cells memory ptr (responses.flatMap CrResponse.bytes).length =
      responses.flatMap CrResponse.bytes)
    (inside : ptr + (responses.flatMap CrResponse.bytes).length ≤ ptrEnd)
    (size_lt : ∀ response ∈ responses, response.tlv.length < 2 ^ 31)
    (filled : ∀ response ∈ responses, ParamsFill response.paramNum.toNat response.tlv)
    (empty : ∀ response ∈ responses.dropLast, response.tlv = []) :
    Aligned ntohl_64 memory ptrEnd ptr responses := by
  induction responses generalizing ptr with
  | nil => trivial
  | cons response responses induction =>
      have short := size_lt response List.mem_cons_self
      have split : ((response :: responses).flatMap CrResponse.bytes).length =
          16 + (response.tlv.length + (responses.flatMap CrResponse.bytes).length) := by
        simp [CrResponse.bytes, CrResponse.head]
        omega
      rw [split] at stored inside
      rw [cells_add, cells_add, List.flatMap_cons, CrResponse.bytes, List.append_assoc] at stored
      obtain ⟨head, stored⟩ := List.append_inj stored (by simp [CrResponse.head])
      obtain ⟨tlv, stored⟩ := List.append_inj stored (by simp)
      rw [Aligned, fetchCrHead_head head (by omega)]
      refine ⟨⟨rfl, rfl, rfl⟩, ?_, fetch_tlv tlv short (filled response List.mem_cons_self), ?_⟩
      · rw [CrResponse.psize_toNat (by omega)]
        omega
      · cases responses with
        | nil => trivial
        | cons next responses =>
            have none : response.tlv.length = 0 := by
              rw [empty response List.mem_cons_self, List.length_nil]
            rw [none] at stored inside
            refine induction stored (by omega)
              (fun response member => size_lt response (List.mem_cons_of_mem _ member))
              (fun response member => filled response (List.mem_cons_of_mem _ member))
              (fun response member => empty response (List.mem_cons_of_mem _ member))

/-- Behind a response with parameters the client takes their first bytes for a sequence. -/
theorem Aligned.crSeq_eq {response next : CrResponse} {ptr ptrEnd : Nat}
    (aligned : Aligned ntohl_64 memory ptrEnd ptr (response :: next :: responses))
    (params : 4 ≤ response.tlv.length)
    (stored : cells memory (ptr + 16) response.tlv.length = response.tlv) :
    next.crSeq = long response.tlv 0 := by
  obtain ⟨-, -, -, ⟨crSeq, -, -⟩, -⟩ := aligned
  calc next.crSeq = (fetchInt32 memory (ptr + 16 + 0)).value := crSeq.symm
    _ = long (cells memory (ptr + 16) response.tlv.length) 0 := fetchInt32_value params
    _ = long response.tlv 0 := by rw [stored]

end Packet

/-- A response with a parameter of type `CRB3P_TYPE_INT8`. -/
def int8Response (crSeq : UInt32) (value : UInt8) : CrResponse :=
  ⟨crSeq, 7, 0, 1, [0, 1, 0, 1, value]⟩

/-- A response without parameters before one with a parameter. -/
def emptyFirst : List CrResponse := [⟨1, 7, 0, 0, []⟩, int8Response 2 20]

/-- Two responses with a parameter each. -/
def paramFirst : List CrResponse := [int8Response 1 10, int8Response 2 20]

end CRB3Client
end CommonLib
