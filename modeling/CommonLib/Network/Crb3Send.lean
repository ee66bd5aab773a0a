import CommonLib.Network.Crb3Packet

/-!
# Sending a response

`CRB3Server::_SendCRResponse` writes a packet with one response into an array of
`CRB3_MAX_PACKET_SIZE` bytes.  It does not look at the size of the parameters before it lets
`OutputTLV` write them.
-/

namespace CommonLib

open CRB3Param

def CRB3_MAX_PACKET_SIZE : Nat := 4000

/-! ## Tables that calls of the setters make -/

namespace CRB3Param

theorem set_sized {param : CRB3Param} (sized : ∀ tlv ∈ param.paramTbl, Sized tlv) (index : Nat)
    {slot : CRB3_TLV} (sound : Sound slot) : ∀ tlv ∈ (param.set index slot).paramTbl, Sized tlv := by
  intro tlv member
  rcases List.mem_or_eq_of_mem_set member with old | rfl
  · exact sized tlv old
  · exact .inl sound

/-- The setters keep the length of every slot. -/
theorem call_sized {param : CRB3Param} (sized : ∀ tlv ∈ param.paramTbl, Sized tlv) (index : Nat)
    (setting : Setting) : ∀ tlv ∈ (param.call index setting).paramTbl, Sized tlv := by
  cases setting with
  | string pStr => exact set_sized sized index (Setting.sound_string pStr)
  | octet pOctet =>
      by_cases accepted : 0 < pOctet.length ∧ pOctet.length ≤ 0xffff
      · have valid : (Setting.octet pOctet).Valid := accepted
        rw [call_eq param index valid]
        exact set_sized sized index (Setting.sound_slot valid)
      · rw [call, setOctet, if_neg accepted]
        exact sized
  | _ => exact set_sized sized index rfl

theorem build_sized (paramCnt : Nat) (calls : List (Nat × Setting)) :
    ∀ tlv ∈ (build paramCnt calls).paramTbl, Sized tlv := by
  have kept : ∀ param : CRB3Param, (∀ tlv ∈ param.paramTbl, Sized tlv) →
      ∀ tlv ∈ (calls.foldl fill param).paramTbl, Sized tlv := by
    induction calls with
    | nil => exact fun param sized => sized
    | cons call calls induction =>
        exact fun param sized => induction _ (call_sized sized call.1 call.2)
  exact kept _ fun tlv member => .inr (List.eq_of_mem_replicate member)

end CRB3Param

/-! ## The server -/

/-- The array `packet_buf`, the bytes of it that were written and the bytes that are sent. -/
structure SentPacket where
  packetBuf : Nat → Byte
  written : Nat
  size : Nat

namespace CRB3Server

/-- The field `PNum`. -/
def pnum : Option CRB3Param → UInt16
  | some param => UInt16.ofNat param.paramTbl.length
  | none => 0

/-- The field `PSize`, the length of the parameters cut to 16 bits. -/
def psize : Option CRB3Param → UInt16
  | some param => param.getTLVLength.toInt16.toUInt16
  | none => 0

/-- The fields before the parameters. -/
def submitHead (crseq crid : UInt32) (crflag : UInt16) (param : Option CRB3Param)
    (packetBuf : Nat → Byte) : Output :=
  let out := submit (bigEndian 2 (28 + (psize param).toNat)) (packetBuf, 0)
  let out := submit (bigEndian 2 CRB3_PKT_CR_RSP.toNat) out
  let out := submit (bigEndian 4 0) out
  let out := submit (bigEndian 2 1) out
  let out := submit (bigEndian 2 0) out
  let out := submit (bigEndian 4 crseq.toNat) out
  let out := submit (bigEndian 4 crid.toNat) out
  let out := submit (bigEndian 2 crflag.toNat) out
  let out := submit (bigEndian 2 (pnum param).toNat) out
  submit (bigEndian 4 (psize param).toNat) out

/-- `CRB3Server::_SendCRResponse`, up to the call that sends `packet_buf`. -/
def sendCRResponse (htonl_64 : Int64 → Int64) (crseq crid : UInt32) (crflag : UInt16)
    (param : Option CRB3Param) (packetBuf : Nat → Byte) : SentPacket :=
  let head := submitHead crseq crid crflag param packetBuf
  let out :=
    match param with
    | some table =>
        -- `OutputTLV`, with the cursor where it stops
        if psize param > 0 then table.paramTbl.foldl (outputSlot htonl_64) head else head
    | none => head
  ⟨out.1, out.2, 28 + (psize param).toNat⟩

/-- The packet lies in `packet_buf`, and its fields say what was written and sent. -/
structure Consistent (param : CRB3Param) (sent : SentPacket) : Prop where
  inside : sent.written ≤ CRB3_MAX_PACKET_SIZE
  length : (fetchInt16 sent.packetBuf 0).value.toNat = sent.size
  pnum : (fetchInt16 sent.packetBuf 22).value.toNat = param.paramTbl.length
  psize : 28 + (fetchInt32 sent.packetBuf 24).value.toNat = sent.written

/-- The head of the packet and of its response. -/
def responseHead (crseq crid : UInt32) (crflag : UInt16) (param : Option CRB3Param) : List Byte :=
  bigEndian 2 (28 + (psize param).toNat) ++ (bigEndian 2 CRB3_PKT_CR_RSP.toNat ++ (bigEndian 4 0 ++
    (bigEndian 2 1 ++ (bigEndian 2 0 ++ (bigEndian 4 crseq.toNat ++ (bigEndian 4 crid.toNat ++
      (bigEndian 2 crflag.toNat ++ (bigEndian 2 (pnum param).toNat ++
        bigEndian 4 (psize param).toNat))))))))

section Send

variable {htonl_64 : Int64 → Int64} {crseq crid : UInt32} {crflag : UInt16} {param : CRB3Param}
  {packetBuf : Nat → Byte}

theorem responseHead_length (param : Option CRB3Param) :
    (responseHead crseq crid crflag param).length = 28 := by
  simp [responseHead]

theorem psize_toNat (sized : ∀ tlv ∈ param.paramTbl, Sized tlv) :
    (psize (some param)).toNat = tableSize param.paramTbl % 2 ^ 16 := by
  rw [psize, getTLVLength_eq sized, Int32.toInt16_ofNat', Int16.toUInt16_ofNat',
    UInt16.toNat_ofNat']

/-- The bytes that are written for the parameters. -/
def paramBytes (htonl_64 : Int64 → Int64) (param : CRB3Param) : List Byte :=
  if psize (some param) > 0 then param.paramTbl.flatMap (slotBytes htonl_64) else []

theorem submitHead_eq (param : Option CRB3Param) :
    submitHead crseq crid crflag param packetBuf =
      submit (responseHead crseq crid crflag param) (packetBuf, 0) := by
  simp only [submitHead, responseHead, submit_submit, List.append_assoc]

/-- The packet is written in one piece. -/
theorem sendCRResponse_eq (sized : ∀ tlv ∈ param.paramTbl, Sized tlv) :
    sendCRResponse htonl_64 crseq crid crflag (some param) packetBuf =
      ⟨move (responseHead crseq crid crflag (some param) ++ paramBytes htonl_64 param) packetBuf 0,
        28 + (paramBytes htonl_64 param).length, 28 + (psize (some param)).toNat⟩ := by
  have written : (if psize (some param) > 0 then param.paramTbl.foldl (outputSlot htonl_64)
        (submitHead crseq crid crflag (some param) packetBuf)
      else submitHead crseq crid crflag (some param) packetBuf) =
      submit (responseHead crseq crid crflag (some param) ++ paramBytes htonl_64 param)
        (packetBuf, 0) := by
    rw [← submit_submit, ← submitHead_eq, paramBytes]
    split
    · rw [foldl_outputSlot sized]
    · simp [submit, move_nil]
  simp only [sendCRResponse, written]
  simp [submit, responseHead_length]

theorem fetchInt16_toNat {memory : Nat → Byte} {ptr value : Nat}
    (stored : cells memory ptr 2 = bigEndian 2 value) :
    (fetchInt16 memory ptr).value.toNat = value % 2 ^ 16 := by
  change (UInt16.ofNat (ofBigEndian (cells memory ptr 2))).toNat = value % 2 ^ 16
  rw [stored, ofBigEndian_bigEndian, UInt16.toNat_ofNat']
  exact Nat.mod_mod _ _

variable (htonl_64 crseq crid crflag packetBuf) in
/-- The fields of the packet read back. -/
theorem sendCRResponse_fields (sized : ∀ tlv ∈ param.paramTbl, Sized tlv) :
    let sent := sendCRResponse htonl_64 crseq crid crflag (some param) packetBuf
    (fetchInt16 sent.packetBuf 0).value.toNat = (28 + (psize (some param)).toNat) % 2 ^ 16 ∧
      (fetchInt16 sent.packetBuf 22).value.toNat = param.paramTbl.length % 2 ^ 16 ∧
      (fetchInt32 sent.packetBuf 24).value.toNat = (psize (some param)).toNat := by
  intro sent
  have stored : cells sent.packetBuf 0 28 = responseHead crseq crid crflag (some param) := by
    have whole := cells_move (responseHead crseq crid crflag (some param) ++
      paramBytes htonl_64 param) packetBuf 0
    have buf_eq : sent.packetBuf = move (responseHead crseq crid crflag (some param) ++
        paramBytes htonl_64 param) packetBuf 0 :=
      congrArg SentPacket.packetBuf (sendCRResponse_eq sized)
    rw [← buf_eq, List.length_append, responseHead_length, cells_add] at whole
    exact (List.append_inj whole (by rw [cells_length, responseHead_length])).1
  rw [show 28 = 2 + (2 + (4 + (2 + (2 + (4 + (4 + (2 + (2 + 4)))))))) from rfl, responseHead,
    cells_add, cells_add, cells_add, cells_add, cells_add, cells_add, cells_add, cells_add,
    cells_add] at stored
  obtain ⟨length, stored⟩ := List.append_inj stored (by simp)
  obtain ⟨-, stored⟩ := List.append_inj stored (by simp)
  obtain ⟨-, stored⟩ := List.append_inj stored (by simp)
  obtain ⟨-, stored⟩ := List.append_inj stored (by simp)
  obtain ⟨-, stored⟩ := List.append_inj stored (by simp)
  obtain ⟨-, stored⟩ := List.append_inj stored (by simp)
  obtain ⟨-, stored⟩ := List.append_inj stored (by simp)
  obtain ⟨-, stored⟩ := List.append_inj stored (by simp)
  obtain ⟨count, size⟩ := List.append_inj stored (by simp)
  have size : cells sent.packetBuf 24 4 =
      bigEndian 4 (UInt32.ofNat (psize (some param)).toNat).toNat := by
    have small := (psize (some param)).toNat_lt
    rw [UInt32.toNat_ofNat_of_lt' (by change _ < 2 ^ 32; omega)]
    exact size
  refine ⟨fetchInt16_toNat length, ?_, ?_⟩
  · rw [fetchInt16_toNat count, pnum, UInt16.toNat_ofNat']
    exact Nat.mod_mod _ _
  · have small := (psize (some param)).toNat_lt
    rw [(fetchInt32_yields _ size).1, UInt32.toNat_ofNat_of_lt' (by change _ < 2 ^ 32; omega)]

/-- The bytes written for the parameters are those of the table, unless their number is cut to
0. -/
theorem paramBytes_length (sized : ∀ tlv ∈ param.paramTbl, Sized tlv) :
    (paramBytes htonl_64 param).length =
      if tableSize param.paramTbl % 2 ^ 16 = 0 then 0 else tableSize param.paramTbl := by
  have positive : psize (some param) > 0 ↔ tableSize param.paramTbl % 2 ^ 16 ≠ 0 := by
    rw [← psize_toNat sized, ← Nat.pos_iff_ne_zero]
    exact UInt16.lt_iff_toNat_lt
  rw [paramBytes]
  by_cases zero : tableSize param.paramTbl % 2 ^ 16 = 0
  · rw [if_neg (positive.not.mpr (not_not_intro zero)), if_pos zero]
    rfl
  · rw [if_pos (positive.mpr zero), if_neg zero, flatMap_slotBytes_length sized]

/-- A slot takes four bytes at least. -/
theorem length_le_tableSize (table : List CRB3_TLV) : 4 * table.length ≤ tableSize table := by
  induction table with
  | nil => simp [tableSize]
  | cons tlv table induction =>
      simp only [tableSize, List.map_cons, List.sum_cons, List.length_cons] at induction ⊢
      omega

/-- A packet is consistent if its parameters fit it, or if their length is cut to 0. -/
theorem consistent_iff (sized : ∀ tlv ∈ param.paramTbl, Sized tlv) :
    Consistent param (sendCRResponse htonl_64 crseq crid crflag (some param) packetBuf) ↔
      28 + tableSize param.paramTbl ≤ CRB3_MAX_PACKET_SIZE ∨
        tableSize param.paramTbl % 2 ^ 16 = 0 ∧ param.paramTbl.length < 2 ^ 16 := by
  have written_eq : (sendCRResponse htonl_64 crseq crid crflag (some param) packetBuf).written =
      28 + if tableSize param.paramTbl % 2 ^ 16 = 0 then 0 else tableSize param.paramTbl := by
    rw [sendCRResponse_eq sized, paramBytes_length sized]
  have size_eq : (sendCRResponse htonl_64 crseq crid crflag (some param) packetBuf).size =
      28 + tableSize param.paramTbl % 2 ^ 16 := by
    rw [sendCRResponse_eq sized, psize_toNat sized]
  have slots := length_le_tableSize param.paramTbl
  obtain ⟨length, count, size⟩ :=
    sendCRResponse_fields htonl_64 crseq crid crflag packetBuf sized
  rw [psize_toNat sized] at length size
  constructor
  · rintro ⟨inside, -, count', -⟩
    rw [count] at count'
    rw [written_eq] at inside
    split at inside
    · next zero => exact .inr ⟨zero, by omega⟩
    · exact .inl inside
  · intro fits
    have limit : CRB3_MAX_PACKET_SIZE = 4000 := rfl
    refine ⟨?_, ?_, ?_, ?_⟩
    · rw [written_eq]
      split <;> omega
    · rw [length, size_eq]
      omega
    · rw [count]
      omega
    · rw [size, written_eq]
      split <;> omega

end Send

/-- The packet of a response lies in `packet_buf` and its fields say what was written and sent
exactly when its parameters fit the array, or when their length is cut to 0. -/
theorem sendCRResponse_consistent_iff (htonl_64 : Int64 → Int64) (crseq crid : UInt32)
    (crflag : UInt16) (packetBuf : Nat → Byte) (paramCnt : Nat) (calls : List (Nat × Setting)) :
    let param := build paramCnt calls
    Consistent param (sendCRResponse htonl_64 crseq crid crflag (some param) packetBuf) ↔
      28 + tableSize param.paramTbl ≤ CRB3_MAX_PACKET_SIZE ∨
        tableSize param.paramTbl % 2 ^ 16 = 0 ∧ param.paramTbl.length < 2 ^ 16 :=
  consistent_iff (build_sized paramCnt calls)

theorem tableSize_octet (pOctet : List Byte) (some : 0 < pOctet.length)
    (short : pOctet.length ≤ 0xffff) :
    tableSize (build 1 [(0, .octet pOctet)]).paramTbl = 4 + pOctet.length := by
  have filled : Filled 1 [(0, .octet pOctet)] := by
    refine ⟨List.Perm.refl _, fun call called => ?_⟩
    obtain rfl := List.mem_singleton.mp called
    exact ⟨some, short⟩
  rw [filled.tableSize_eq]
  · rfl
  · intro call called
    obtain rfl := List.mem_singleton.mp called
    exact short

/-- An octet of 3969 bytes needs one byte more than `packet_buf` has. -/
theorem sendCRResponse_overruns :
    ¬ ∀ (htonl_64 : Int64 → Int64) (crseq crid : UInt32) (crflag : UInt16)
      (packetBuf : Nat → Byte) (paramCnt : Nat) (calls : List (Nat × Setting)),
      Consistent (build paramCnt calls)
        (sendCRResponse htonl_64 crseq crid crflag (some (build paramCnt calls)) packetBuf) := by
  intro all
  have length_eq : (List.replicate 3969 (0 : Byte)).length = 3969 := List.length_replicate
  have size_eq := tableSize_octet (List.replicate 3969 0) (by omega) (by omega)
  have consistent := all id 0 0 0 (fun _ => 0) 1 [(0, .octet (List.replicate 3969 0))]
  rw [consistent_iff (build_sized _ _), size_eq, length_eq] at consistent
  rcases consistent with fits | ⟨cut, -⟩
  · exact absurd fits (by decide)
  · exact absurd cut (by decide)

end CRB3Server

end CommonLib
