import Mathlib.Algebra.Group.Int.Defs
import CommonLib.Network.Crb3Length
import CommonLib.Network.CrlHeader

/-!
# Packets that the client sends

`Request`, `RequestAsync`, `RequestDio` and `CRSend` each fill an array of `CRB3_MAX_PACKET_SIZE`
bytes with a head of 8 bytes, the fields of a request and its parameters.  Each checks the size of
the parameters in its own way.
-/

namespace CommonLib

open CRB3Param

/-- The array after a packet was filled in and the size with which it is sent. -/
structure RequestPacket where
  packetBuf : Nat → Byte
  size : Int32

/-- What the four calls find in the client. -/
structure RequestState (γ : Type) where
  map : CRLMap γ
  refusedKey : UInt32 → UInt32
  /-- `DioEnable`. -/
  dioEnable : Bool
  /-- `DioList` has a node. -/
  dioFree : Bool
  dioSequence : UInt32
  /-- The CR-Id which `_AddCRL` reads from its entry. -/
  entryCrId : UInt32

namespace CRB3Client

variable {γ : Type}

/-- The head of a packet. -/
def submitHead (length : UInt16) (out : Output) : Output :=
  let out := submit (bigEndian 2 length.toNat) out
  let out := submit (bigEndian 2 CRB3_PKT_CR_REQ.toNat) out
  submit (bigEndian 4 CRB3_OK.toNat) out

/-- `_AddCRL` on the array behind the head, and the head after it. -/
def crlPacket (htonl_64 : Int64 → Int64) (state : RequestState γ) (ifType : UInt16)
    (call : AddCall γ) (packetBuf : Nat → Byte) : Option RequestPacket :=
  let call := { call with ifType, bufSize := 4000 - 8 }
  if (state.map.addCRL state.refusedKey call).1 = .CRB3_OK then
    let body := submitRequest htonl_64 state.map.crlSequence state.entryCrId 0 call.paramIn
      (packetBuf, 8)
    let bufSize := call.paramIn.getTLVLength + CRB3_PARAM_RESERVE_LEN
    let out := submitHead (8 + bufSize).toInt16.toUInt16 (body.1, 0)
    some ⟨out.1, 8 + bufSize⟩
  else none

/-- `CRB3Client::RequestDio`, up to the packet. -/
def requestDio (htonl_64 : Int64 → Int64) (state : RequestState γ) (call : AddCall γ)
    (packetBuf : Nat → Byte) : Option RequestPacket :=
  let tlvLen := call.paramIn.getTLVLength
  let bufSize := tlvLen + 8 + CRB3_PARAM_RESERVE_LEN
  if tlvLen + CRB3_PARAM_RESERVE_LEN > 4000 then none
  else if ¬ state.dioFree then none
  else
    let out := submitHead bufSize.toInt16.toUInt16 (packetBuf, 0)
    let out := submitRequest htonl_64 state.dioSequence call.crId 0 call.paramIn out
    some ⟨out.1, bufSize⟩

/-- `CRB3Client::CRSend`, up to the packet. -/
def crSend (htonl_64 : Int64 → Int64) (crSeq : UInt32) (call : AddCall γ)
    (packetBuf : Nat → Byte) : Option RequestPacket :=
  let tlvLen := call.paramIn.getTLVLength
  let pktLen := 8 + CRB3_PARAM_RESERVE_LEN + tlvLen
  if pktLen > 4000 then none
  else
    let out := submitHead pktLen.toInt16.toUInt16 (packetBuf, 0)
    let out := submitRequest htonl_64 crSeq call.crId 1 call.paramIn out
    some ⟨out.1, pktLen⟩

inductive Entry
  | request
  | requestAsync
  | requestDio
  | crSend (crSeq : UInt32)

/-- The packet of a call, if the call does not reject its parameters. -/
def packet (htonl_64 : Int64 → Int64) (state : RequestState γ) (call : AddCall γ)
    (packetBuf : Nat → Byte) : Entry → Option RequestPacket
  | .request =>
      if state.dioEnable then requestDio htonl_64 state call packetBuf
      else crlPacket htonl_64 state 0 call packetBuf
  | .requestAsync => crlPacket htonl_64 state 1 call packetBuf
  | .requestDio => requestDio htonl_64 state call packetBuf
  | .crSend crSeq => crSend htonl_64 crSeq call packetBuf

/-- A packet was filled in inside the array, and its fields say how much is sent. -/
structure Fits (packetBuf : Nat → Byte) (sent : RequestPacket) : Prop where
  inside : ∀ cell ≥ CRB3_MAX_PACKET_SIZE, sent.packetBuf cell = packetBuf cell
  length : (fetchInt16 sent.packetBuf 0).value.toNat = sent.size.toInt
  psize : 28 + (fetchInt32 sent.packetBuf 24).value.toNat = sent.size.toInt

/-- A call rejects its parameters or fits them into its packet, whatever the array held. -/
def PacketFits (htonl_64 : Int64 → Int64) (state : RequestState γ) (call : AddCall γ)
    (entry : Entry) : Prop :=
  ∀ packetBuf sent, packet htonl_64 state call packetBuf entry = some sent → Fits packetBuf sent

/-! ## The conditions -/

/-- The call rejects its parameters, or finds no entry or node for them. -/
def Rejects (state : RequestState γ) (call : AddCall γ) : Entry → Prop
  | .request => if state.dioEnable then RejectsDio else RejectsCrl 0
  | .requestAsync => RejectsCrl 1
  | .requestDio => RejectsDio
  | .crSend _ => 8 + CRB3_PARAM_RESERVE_LEN + call.paramIn.getTLVLength > 4000
where
  RejectsCrl (ifType : UInt16) : Prop :=
    (state.map.addCRL state.refusedKey { call with ifType, bufSize := 4000 - 8 }).1 ≠ .CRB3_OK
  RejectsDio : Prop :=
    call.paramIn.getTLVLength + CRB3_PARAM_RESERVE_LEN > 4000 ∨ ¬ state.dioFree

/-- Where the last byte that is written for a table ends. -/
def writtenEnd : List CRB3_TLV → Nat
  | [] => 0
  | [tlv] => slotExtent tlv
  | tlv :: table => slotExtent tlv + slotGap tlv + writtenEnd table

/-- The size of the parameters is no overflown `int`, and they lie behind the head of 28 bytes. -/
def HasRoom (param : CRB3Param) : Prop :=
  0 ≤ param.getTLVLength.toInt ∧ param.getTLVLength.toInt ≤ CRB3_MAX_PACKET_SIZE ∧
    28 + writtenEnd param.paramTbl ≤ CRB3_MAX_PACKET_SIZE

/-! ## The layout of a packet -/

/-- The fields of a packet, and its parameters behind the head. -/
structure Layout (htonl_64 : Int64 → Int64) (length : UInt16) (psize : UInt32)
    (table : List CRB3_TLV) (before after : Nat → Byte) : Prop where
  length : (fetchInt16 after 0).value = length
  psize : (fetchInt32 after 24).value = psize
  params : ∀ cell ≥ 28, after cell = (table.foldl (outputSlot htonl_64) (before, 28)).1 cell

section Layout

variable {htonl_64 : Int64 → Int64} {length : UInt16} {psize sequence crId : UInt32}
  {crFlag : UInt16} {param : CRB3Param} {table : List CRB3_TLV} {packetBuf : Nat → Byte}

/-- The bytes of the head of a packet. -/
def headBytes (length : UInt16) : List Byte :=
  bigEndian 2 length.toNat ++ (bigEndian 2 CRB3_PKT_CR_REQ.toNat ++ bigEndian 4 CRB3_OK.toNat)

@[simp] theorem headBytes_length : (headBytes length).length = 8 := by
  simp [headBytes]

theorem submitHead_eq_submit (out : Output) :
    submitHead length out = submit (headBytes length) out := by
  simp only [submitHead, headBytes, submit_submit, List.append_assoc]

/-- The length field reads back as long as the head is not overwritten. -/
theorem fetchInt16_headBytes {after : Nat → Byte}
    (head : ∀ cell < 8, after cell = move (headBytes length) packetBuf 0 cell) :
    (fetchInt16 after 0).value = length := by
  have stored : cells after 0 8 = headBytes length := by
    have moved := cells_move (headBytes length) packetBuf 0
    rw [headBytes_length] at moved
    rw [← moved, cells_congr]
    intro offset inside
    exact head _ (by omega)
  rw [show 8 = 2 + 6 from rfl, cells_add, headBytes] at stored
  exact (fetchInt16_yields length (List.append_inj stored (by simp)).1).1

/-- `RequestDio` and `CRSend` write the head first. -/
theorem layout_headFirst (backed : ∀ tlv ∈ param.paramTbl, Backed tlv) :
    Layout htonl_64 length param.getTLVLength.toUInt32 param.paramTbl packetBuf
      (submitRequest htonl_64 sequence crId crFlag param (submitHead length (packetBuf, 0))).1 := by
  have head_eq : submitHead length (packetBuf, 0) = (move (headBytes length) packetBuf 0, 8) := by
    rw [submitHead_eq_submit, submit, headBytes_length]
  rw [head_eq]
  constructor
  · apply fetchInt16_headBytes
    intro cell inside
    exact submitRequest_before inside
  · exact (fetch_submitRequest htonl_64 sequence crId crFlag param _ 8).2.2
  · intro cell behind
    rw [submitRequest_eq, submit, requestHead_length]
    apply foldl_outputSlot_congr backed
    calc
      move (requestHead sequence crId crFlag param) (move (headBytes length) packetBuf 0) 8 cell
      _ = move (headBytes length) packetBuf 0 cell := by
        apply move_outside
        rw [requestHead_length]
        exact .inr behind
      _ = packetBuf cell := by
        apply move_outside
        rw [headBytes_length]
        omega

/-- `Request` and `RequestAsync` write the head last. -/
theorem layout_headLast (backed : ∀ tlv ∈ param.paramTbl, Backed tlv) :
    Layout htonl_64 length param.getTLVLength.toUInt32 param.paramTbl packetBuf
      (submitHead length
        ((submitRequest htonl_64 sequence crId crFlag param (packetBuf, 8)).1, 0)).1 := by
  have kept (memory : Nat → Byte) {cell : Nat} (behind : 8 ≤ cell) :
      (submitHead length (memory, 0)).1 cell = memory cell := by
    simp only [submitHead_eq_submit, submit]
    apply move_outside
    rw [headBytes_length]
    exact .inr behind
  constructor
  · apply fetchInt16_headBytes
    intro cell inside
    rw [submitHead_eq_submit]
    rfl
  · rw [← (fetch_submitRequest htonl_64 sequence crId crFlag param packetBuf 8).2.2]
    have same := cells_congr.mpr fun offset (_ : offset < 4) =>
      kept (submitRequest htonl_64 sequence crId crFlag param (packetBuf, 8)).1
        (show 8 ≤ 24 + offset by omega)
    exact congrArg (fun bytes => UInt32.ofNat (ofBigEndian bytes)) same
  · intro cell behind
    rw [kept _ (by omega), submitRequest_eq, submit, requestHead_length]
    apply foldl_outputSlot_congr backed
    apply move_outside
    rw [requestHead_length]
    exact .inr behind

theorem slotExtent_pos (tlv : CRB3_TLV) : 0 < slotExtent tlv :=
  Nat.lt_of_lt_of_le (by omega) (Nat.le_add_right 4 _)

/-- Where the written cells of a table end. -/
theorem written_lt_iff {ptr bound : Nat} (ptr_le : ptr ≤ bound) :
    (∀ cell, Written ptr table cell → cell < bound) ↔ ptr + writtenEnd table ≤ bound := by
  induction table using writtenEnd.induct generalizing ptr with
  | case1 => simpa [Written, writtenEnd] using ptr_le
  | case2 tlv =>
      have extent_pos := slotExtent_pos tlv
      simp only [Written, or_false, writtenEnd]
      constructor
      · intro before
        have last := before (ptr + slotExtent tlv - 1) (by omega)
        omega
      · intro fits cell inside
        omega
  | case3 tlv table more induction =>
      simp only [Written, writtenEnd]
      constructor
      · intro before
        have next_lt : ptr + (slotExtent tlv + slotGap tlv) < bound := by
          apply before
          cases table with
          | nil => exact absurd rfl more
          | cons next rest =>
              exact .inr (.inl ⟨Nat.le_refl _, Nat.lt_add_of_pos_right (slotExtent_pos next)⟩)
        have later := (induction (Nat.le_of_lt next_lt)).mp fun cell written =>
          before cell (.inr written)
        omega
      · rintro fits cell (inside | written)
        · omega
        · exact (induction (by omega)).mpr (by omega) cell written

/-- A packet fits when its size is that of its fields and its last parameter ends in the array. -/
theorem fits_iff (backed : ∀ tlv ∈ table, Backed tlv) {size : Int32}
    {after : (Nat → Byte) → Nat → Byte}
    (layout : ∀ packetBuf, Layout htonl_64 length psize table packetBuf (after packetBuf)) :
    (∀ packetBuf, Fits packetBuf ⟨after packetBuf, size⟩) ↔
      (length.toNat : Int) = size.toInt ∧ 28 + (psize.toNat : Int) = size.toInt ∧
        28 + writtenEnd table ≤ CRB3_MAX_PACKET_SIZE := by
  have limit : CRB3_MAX_PACKET_SIZE = 4000 := rfl
  rw [← written_lt_iff (by omega)]
  constructor
  · intro fits
    refine ⟨?_, ?_, fun cell written => ?_⟩
    · rw [← (layout fun _ => 0).length]
      exact (fits fun _ => 0).length
    · rw [← (layout fun _ => 0).psize]
      exact (fits fun _ => 0).psize
    · by_contra outside
      have behind : 28 ≤ cell := written_ge written
      have kept (byte : Byte) : (table.foldl (outputSlot htonl_64) (fun _ => byte, 28)).1 cell =
          byte := by
        rw [← (layout fun _ => byte).params cell behind]
        exact (fits fun _ => byte).inside cell (by omega)
      have same : (table.foldl (outputSlot htonl_64) (fun _ => 0, 28)).1 cell =
          (table.foldl (outputSlot htonl_64) (fun _ => 1, 28)).1 cell :=
        foldl_outputSlot_inside backed _ _ written
      rw [kept, kept] at same
      exact absurd same (by decide)
  · rintro ⟨length_eq, psize_eq, inside⟩ packetBuf
    refine ⟨fun cell above => ?_, ?_, ?_⟩
    · refine ((layout packetBuf).params cell (by omega)).trans ?_
      exact foldl_outputSlot_outside backed packetBuf fun written =>
        absurd (inside cell written) (by omega)
    · rwa [← (layout packetBuf).length] at length_eq
    · rwa [← (layout packetBuf).psize] at psize_eq

theorem int32_toUInt32_toNat (val : Int32) : (val.toUInt32.toNat : Int) = val.toInt % 2 ^ 32 := by
  have signed : val.toInt = (val.toUInt32.toNat : Int).bmod (2 ^ 32) :=
    BitVec.toInt_eq_toNat_bmod val.toBitVec
  have val_lt := val.toUInt32.toNat_lt
  rw [signed, Int.bmod_def]
  split <;> omega

theorem int16_toUInt16_toNat (val : Int16) : (val.toUInt16.toNat : Int) = val.toInt % 2 ^ 16 := by
  have signed : val.toInt = (val.toUInt16.toNat : Int).bmod (2 ^ 16) :=
    BitVec.toInt_eq_toNat_bmod val.toBitVec
  have val_lt := val.toUInt16.toNat_lt
  rw [signed, Int.bmod_def]
  split <;> omega

/-- What passes a check is short, or so long that the sum in the check overflows. -/
def Passes (tlvLen : Int32) : Prop := tlvLen.toInt ≤ 4000 ∨ 2 ^ 30 < tlvLen.toInt

theorem passes_of_not_gt {tlvLen reserve limit : Int32} (checked : ¬ tlvLen + reserve > limit)
    (reserve_ge : 0 ≤ reserve.toInt) (reserve_le : reserve.toInt ≤ 28)
    (limit_le : limit.toInt ≤ 4000) : Passes tlvLen := by
  have upper := tlvLen.toInt_lt
  have sum_le : (tlvLen.toInt + reserve.toInt).bmod (2 ^ 32) ≤ limit.toInt := by
    rw [← Int32.toInt_add]
    exact Int32.le_iff_toInt_le.mp (Int32.not_lt.mp checked)
  rw [Int.bmod_def] at sum_le
  unfold Passes
  split at sum_le <;> omega

/-- The fields say the size exactly when it is that of a packet. -/
theorem fields_iff {tlvLen : Int32} (passes : Passes tlvLen) :
    (((tlvLen + 28).toInt16.toUInt16.toNat : Int) = (tlvLen + 28).toInt ∧
        28 + (tlvLen.toUInt32.toNat : Int) = (tlvLen + 28).toInt) ↔
      0 ≤ tlvLen.toInt ∧ tlvLen.toInt ≤ 4000 := by
  have lower := tlvLen.le_toInt
  have upper := tlvLen.toInt_lt
  have sum_eq : (tlvLen + 28).toInt = (tlvLen.toInt + 28).bmod (2 ^ 32) := Int32.toInt_add tlvLen 28
  have cut_eq (size : Int) : size.bmod (2 ^ 16) % 2 ^ 16 = size % 2 ^ 16 := by
    rw [Int.bmod_def]
    split <;> omega
  unfold Passes at passes
  rw [int16_toUInt16_toNat, int32_toUInt32_toNat, Int32.toInt_toInt16, cut_eq, sum_eq,
    Int.bmod_def]
  split <;> omega

/-- A packet that passes the check fits exactly when its parameters have room. -/
theorem hasRoom_iff (backed : ∀ tlv ∈ param.paramTbl, Backed tlv)
    (passes : Passes param.getTLVLength) {after : (Nat → Byte) → Nat → Byte}
    (layout : ∀ packetBuf, Layout htonl_64 (param.getTLVLength + 28).toInt16.toUInt16
      param.getTLVLength.toUInt32 param.paramTbl packetBuf (after packetBuf)) :
    (∀ packetBuf, Fits packetBuf ⟨after packetBuf, param.getTLVLength + 28⟩) ↔ HasRoom param := by
  rw [fits_iff backed layout, ← and_assoc, fields_iff passes, HasRoom, and_assoc]
  rfl

end Layout

/-! ## The calls -/

/-- A call that sends one packet, unless it rejects its parameters. -/
theorem sends_iff {rejects room : Prop} {make : (Nat → Byte) → Option RequestPacket}
    {after : (Nat → Byte) → Nat → Byte} {size : Int32}
    (rejected : rejects → ∀ packetBuf, make packetBuf = none)
    (sends : ¬ rejects → ∀ packetBuf, make packetBuf = some ⟨after packetBuf, size⟩)
    (fits : ¬ rejects → ((∀ packetBuf, Fits packetBuf ⟨after packetBuf, size⟩) ↔ room)) :
    (∀ packetBuf sent, make packetBuf = some sent → Fits packetBuf sent) ↔ rejects ∨ room := by
  by_cases reject : rejects
  · refine iff_of_true (fun packetBuf sent sending => ?_) (.inl reject)
    rw [rejected reject] at sending
    cases sending
  · rw [or_iff_right reject, ← fits reject]
    simp only [sends reject, Option.some.injEq, forall_eq']

section Calls

variable {htonl_64 : Int64 → Int64} {state : RequestState γ} {call : AddCall γ}

theorem addCRL_size {refusedKey : UInt32 → UInt32} {map : CRLMap γ}
    (accepted : (map.addCRL refusedKey call).1 = .CRB3_OK) :
    ¬ call.paramIn.getTLVLength + CRB3_PARAM_RESERVE_LEN > call.bufSize := by
  intro large
  rw [CRLMap.addCRL, if_pos large] at accepted
  cases accepted

theorem crlPacket_fits_iff (backed : ∀ tlv ∈ call.paramIn.paramTbl, Backed tlv)
    (ifType : UInt16) :
    (∀ packetBuf sent, crlPacket htonl_64 state ifType call packetBuf = some sent →
      Fits packetBuf sent) ↔ Rejects.RejectsCrl state call ifType ∨ HasRoom call.paramIn := by
  have size_eq : 8 + (call.paramIn.getTLVLength + CRB3_PARAM_RESERVE_LEN) =
      call.paramIn.getTLVLength + 28 := by
    rw [Int32.add_comm, Int32.add_assoc]
    rfl
  apply sends_iff
  · exact fun rejects packetBuf => if_neg rejects
  · exact fun accepted packetBuf => if_pos (not_not.mp accepted)
  · intro accepted
    have small := addCRL_size (not_not.mp accepted)
    rw [size_eq]
    refine hasRoom_iff backed (passes_of_not_gt small (by decide) (by decide) ?_)
      fun packetBuf => layout_headLast backed
    change (4000 - 8 : Int32).toInt ≤ 4000
    decide

theorem requestDio_fits_iff (backed : ∀ tlv ∈ call.paramIn.paramTbl, Backed tlv) :
    (∀ packetBuf sent, requestDio htonl_64 state call packetBuf = some sent →
      Fits packetBuf sent) ↔ Rejects.RejectsDio state call ∨ HasRoom call.paramIn := by
  have size_eq : call.paramIn.getTLVLength + 8 + CRB3_PARAM_RESERVE_LEN =
      call.paramIn.getTLVLength + 28 := Int32.add_assoc ..
  apply sends_iff
  · rintro (large | busy) packetBuf
    · exact if_pos large
    · rw [requestDio, if_pos busy, ite_self]
  · intro accepted packetBuf
    obtain ⟨small, free⟩ := not_or.mp accepted
    rw [requestDio, if_neg small, if_neg free]
  · intro accepted
    rw [size_eq]
    refine hasRoom_iff backed (passes_of_not_gt (not_or.mp accepted).1 ?_ ?_ ?_)
      fun packetBuf => layout_headFirst backed
    all_goals decide

theorem crSend_fits_iff (backed : ∀ tlv ∈ call.paramIn.paramTbl, Backed tlv) (crSeq : UInt32) :
    (∀ packetBuf sent, crSend htonl_64 crSeq call packetBuf = some sent →
      Fits packetBuf sent) ↔
      8 + CRB3_PARAM_RESERVE_LEN + call.paramIn.getTLVLength > 4000 ∨ HasRoom call.paramIn := by
  have size_eq : 8 + CRB3_PARAM_RESERVE_LEN + call.paramIn.getTLVLength =
      call.paramIn.getTLVLength + 28 := by
    rw [Int32.add_comm]
    rfl
  apply sends_iff
  · exact fun large packetBuf => if_pos large
  · exact fun accepted packetBuf => if_neg accepted
  · rw [size_eq]
    intro accepted
    refine hasRoom_iff backed (passes_of_not_gt accepted ?_ ?_ ?_)
      fun packetBuf => layout_headFirst backed
    all_goals decide

end Calls

/-- Whatever a call of the client is given, its packet lies in the array and its fields say how much
is sent exactly when the call rejects the parameters or they have room. -/
theorem packetFits_iff (htonl_64 ntohl_64 : Int64 → Int64) (state : RequestState γ)
    (call : AddCall γ) (entry : Entry) (made : Constructible ntohl_64 call.paramIn) :
    PacketFits htonl_64 state call entry ↔ Rejects state call entry ∨ HasRoom call.paramIn := by
  cases entry with
  | request =>
      by_cases dio : state.dioEnable
      · simpa only [PacketFits, packet, Rejects, if_pos dio] using requestDio_fits_iff made.backed
      · simpa only [PacketFits, packet, Rejects, if_neg dio] using crlPacket_fits_iff made.backed 0
  | requestAsync => exact crlPacket_fits_iff made.backed 1
  | requestDio => exact requestDio_fits_iff made.backed
  | crSend crSeq => exact crSend_fits_iff made.backed crSeq

/-! ## Tables that the setters fill -/

theorem writtenEnd_of_gapless {table : List CRB3_TLV} (gapless : Gapless table) :
    writtenEnd table = writtenSize table := by
  induction table using writtenEnd.induct with
  | case1 => rfl
  | case2 tlv => rfl
  | case3 tlv table more induction =>
      have closed : slotGap tlv = 0 := by
        unfold slotGap
        split
        · next null => rw [gapless.1 more null]; rfl
        · rfl
      rw [writtenEnd, induction gapless.2, closed]
      · rfl
      · exact more

theorem hasRoom_iff_of_sized {param : CRB3Param} (sized : ∀ tlv ∈ param.paramTbl, Sized tlv) :
    HasRoom param ↔ 28 + tableSize param.paramTbl ≤ CRB3_MAX_PACKET_SIZE := by
  have limit : CRB3_MAX_PACKET_SIZE = 4000 := rfl
  rw [HasRoom, writtenEnd_of_gapless (gapless_of_sized sized), writtenSize_of_sized sized]
  constructor
  · exact fun room => room.2.2
  · intro fits
    have length_eq : param.getTLVLength.toInt = tableSize param.paramTbl := by
      rw [getTLVLength_eq sized, Int32.toInt_ofNat_of_lt (by omega)]
    omega

/-- A request with one octet. -/
def octetCall (pOctet : List Byte) : AddCall Unit :=
  { crId := 1, paramIn := build 1 [(0, .octet pOctet)], ifType := 0, cb := (), cbTimeoutMS := 0,
    bufSize := 0, clock := ⟨1, 0, Nat.one_pos⟩, slot := 0 }

def dioState : RequestState Unit :=
  { map := .start 1 (fun _ => ⟨0, 0, 0, 0, none, ()⟩) 0, refusedKey := id, dioEnable := true,
    dioFree := true, dioSequence := 0, entryCrId := 0 }

section Octet

variable (pOctet : List Byte)

theorem octetCall_made : Constructible id (octetCall pOctet).paramIn :=
  .call 0 (.octet pOctet) (.new 1)

theorem octetCall_sized : ∀ tlv ∈ (octetCall pOctet).paramIn.paramTbl, Sized tlv :=
  build_sized 1 [(0, .octet pOctet)]

variable {pOctet}

theorem octetCall_tableSize (some : 0 < pOctet.length) (short : pOctet.length ≤ 0xffff) :
    tableSize (octetCall pOctet).paramIn.paramTbl = 4 + pOctet.length :=
  CRB3Server.tableSize_octet pOctet some short

/-- `RequestDio` lets 3969 bytes pass. -/
theorem octetCall_passes (length_eq : pOctet.length = 3969) :
    ¬ Rejects.RejectsDio dioState (octetCall pOctet) := by
  have tlvLen_eq : (octetCall pOctet).paramIn.getTLVLength = Int32.ofNat (4 + 3969) := by
    rw [getTLVLength_eq (octetCall_sized pOctet),
      octetCall_tableSize (by omega) (by omega), length_eq]
  rintro (large | busy)
  · rw [tlvLen_eq] at large
    exact absurd large (by decide)
  · exact busy rfl

end Octet

theorem packetFits_iff_octet : PacketFits id dioState (octetCall [1, 2, 3]) .request := by
  refine (packetFits_iff id id dioState _ .request (octetCall_made [1, 2, 3])).mpr (.inr ?_)
  rw [hasRoom_iff_of_sized (octetCall_sized _)]
  decide

/-- The check of `RequestDio` counts 20 bytes for the head of 28. -/
theorem octetCall_not_packetFits :
    ¬ ∀ (htonl_64 ntohl_64 : Int64 → Int64) (state : RequestState Unit) (call : AddCall Unit)
      (entry : Entry), Constructible ntohl_64 call.paramIn →
      PacketFits htonl_64 state call entry := by
  intro all
  obtain ⟨pOctet, length_eq⟩ : ∃ pOctet : List Byte, pOctet.length = 3969 :=
    ⟨List.replicate 3969 0, List.length_replicate⟩
  have made := octetCall_made pOctet
  rcases (requestDio_fits_iff made.backed).mp
    (all id id dioState (octetCall pOctet) .requestDio made) with rejects | room
  · exact octetCall_passes length_eq rejects
  · rw [hasRoom_iff_of_sized (octetCall_sized pOctet),
      octetCall_tableSize (by omega) (by omega), length_eq] at room
    exact absurd room (by decide)

end CRB3Client

end CommonLib
