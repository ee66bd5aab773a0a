import CommonLib.Network.Crb3Send

/-!
# The argument of an asynchronous response

When the service answers asynchronously, `_PacketProcess` packs the sequence number, the flag and
the protocol of a request into one word, and `DoServiceResponse` takes them out of it again.
-/

namespace CommonLib
namespace CRB3Server

/-- `rsp_arg` in `CRB3Server::_PacketProcess`; the flag is shifted as an `int`. -/
def rspArg (crSeq : UInt32) (crFlag : UInt16) (protocol : Int32) : UInt64 :=
  (crSeq.toUInt64 <<< 32) ||| (crFlag.toUInt32.toInt32 <<< 16).toInt64.toUInt64 |||
    (protocol &&& 0xffff).toInt64.toUInt64

/-- The calls of `DoServiceAsync` for a packet, with their argument. -/
def serviceAsync (ntohl_64 : Int64 → Int64) (packetSize : Nat) (protocol : Int32) :
    Fetch Byte (List (CrMessage × UInt64)) := do
  let requests ← packetProcess ntohl_64 packetSize
  return requests.map fun request => (request, rspArg request.crSeq request.crFlag protocol)

def responseProtocol (rspArg : UInt64) : Int32 := (rspArg &&& 0xffff).toUInt32.toInt32

def responseSeq (rspArg : UInt64) : UInt32 := (rspArg >>> 32).toUInt32

def responseFlag (rspArg : UInt64) : UInt16 := ((rspArg >>> 16) &&& 0xffff).toUInt16

/-- `CRB3Server::DoServiceResponse`: the protocol and the packet with which `_SendCRResponse`
answers. -/
def doServiceResponse (htonl_64 : Int64 → Int64) (crId : UInt32) (paramOut : Option CRB3Param)
    (rspArg : UInt64) (packetBuf : Nat → Byte) : Int32 × SentPacket :=
  (responseProtocol rspArg,
    sendCRResponse htonl_64 (responseSeq rspArg) crId (responseFlag rspArg) paramOut packetBuf)

/-- `DoServiceResponse` finds the fields of the request. -/
structure ReturnsFields (crSeq : UInt32) (crFlag : UInt16) (protocol : Int32) : Prop where
  seq_eq : responseSeq (rspArg crSeq crFlag protocol) = crSeq
  flag_eq : responseFlag (rspArg crSeq crFlag protocol) = crFlag
  protocol_eq : responseProtocol (rspArg crSeq crFlag protocol) = protocol

section Fields

variable (crSeq : UInt32) (crFlag : UInt16) (protocol : Int32)

/-- The bits of the argument; those of the flag go on with its sign. -/
theorem rspArg_bit {bit : Nat} (inside : bit < 64) :
    (rspArg crSeq crFlag protocol).toBitVec.getLsbD bit =
      (decide (32 ≤ bit) && crSeq.toBitVec.getLsbD (bit - 32) ||
        decide (16 ≤ bit) && crFlag.toBitVec.getLsbD (min bit 31 - 16) ||
        decide (bit < 16) && protocol.toBitVec.getLsbD bit) := by
  have seq_bit : (crSeq.toUInt64 <<< 32).toBitVec.getLsbD bit =
      (decide (32 ≤ bit) && crSeq.toBitVec.getLsbD (bit - 32)) := by
    have shifted : (crSeq.toUInt64 <<< 32).toBitVec = crSeq.toBitVec.setWidth 64 <<< 32 := rfl
    rw [shifted, BitVec.getLsbD_shiftLeft, BitVec.getLsbD_setWidth]
    grind
  have flag_bit : (crFlag.toUInt32.toInt32 <<< 16).toInt64.toUInt64.toBitVec.getLsbD bit =
      (decide (16 ≤ bit) && crFlag.toBitVec.getLsbD (min bit 31 - 16)) := by
    have shifted : (crFlag.toUInt32.toInt32 <<< 16).toInt64.toUInt64.toBitVec =
        (crFlag.toBitVec.setWidth 32 <<< 16).signExtend 64 := rfl
    rw [shifted, BitVec.getLsbD_signExtend, BitVec.msb_eq_getLsbD_last, BitVec.getLsbD_shiftLeft,
      BitVec.getLsbD_shiftLeft, BitVec.getLsbD_setWidth, BitVec.getLsbD_setWidth]
    grind
  have protocol_bit : (protocol &&& 0xffff).toInt64.toUInt64.toBitVec.getLsbD bit =
      (decide (bit < 16) && protocol.toBitVec.getLsbD bit) := by
    have masked : (protocol &&& 0xffff).toInt64.toUInt64.toBitVec =
        (protocol.toBitVec &&& (BitVec.allOnes 16).setWidth 32).signExtend 64 := rfl
    rw [masked, BitVec.getLsbD_signExtend, BitVec.msb_eq_getLsbD_last, BitVec.getLsbD_and,
      BitVec.getLsbD_and, BitVec.getLsbD_setWidth, BitVec.getLsbD_setWidth, BitVec.getLsbD_allOnes,
      BitVec.getLsbD_allOnes]
    grind
  rw [← seq_bit, ← flag_bit, ← protocol_bit, ← BitVec.getLsbD_or, ← BitVec.getLsbD_or]
  rfl

theorem responseFlag_rspArg : responseFlag (rspArg crSeq crFlag protocol) = crFlag := by
  have cut (word : UInt64) : (responseFlag word).toBitVec =
      ((word.toBitVec >>> 16) &&& (BitVec.allOnes 16).setWidth 64).setWidth 16 := rfl
  apply UInt16.toBitVec_inj.mp
  apply BitVec.eq_of_getLsbD_eq
  intro bit inside
  rw [cut, BitVec.getLsbD_setWidth, BitVec.getLsbD_and, BitVec.getLsbD_ushiftRight,
    rspArg_bit _ _ _ (by omega), BitVec.getLsbD_setWidth, BitVec.getLsbD_allOnes]
  grind

theorem responseProtocol_rspArg (nonneg : 0 ≤ protocol.toInt) (below : protocol.toInt < 65536) :
    responseProtocol (rspArg crSeq crFlag protocol) = protocol := by
  have cut (word : UInt64) : (responseProtocol word).toBitVec =
      (word.toBitVec &&& (BitVec.allOnes 16).setWidth 64).setWidth 32 := rfl
  have small : protocol.toBitVec.toNat < 2 ^ 16 := by
    have signed : protocol.toInt = (protocol.toBitVec.toNat : Int).bmod (2 ^ 32) :=
      BitVec.toInt_eq_toNat_bmod protocol.toBitVec
    rw [Int.bmod_def] at signed
    split at signed <;> omega
  have high (bit : Nat) (above : 16 ≤ bit) : protocol.toBitVec.getLsbD bit = false := by
    apply Nat.testBit_lt_two_pow
    exact Nat.lt_of_lt_of_le small (Nat.pow_le_pow_right (by decide) above)
  apply Int32.toBitVec_inj.mp
  apply BitVec.eq_of_getLsbD_eq
  intro bit inside
  rw [cut, BitVec.getLsbD_setWidth, BitVec.getLsbD_and, rspArg_bit _ _ _ (by omega),
    BitVec.getLsbD_setWidth, BitVec.getLsbD_allOnes]
  grind

/-- A set sign of the flag sets every bit of the sequence number. -/
theorem responseSeq_bit {bit : Nat} (inside : bit < 32) :
    (responseSeq (rspArg crSeq crFlag protocol)).toBitVec.getLsbD bit =
      (crSeq.toBitVec.getLsbD bit || crFlag.toBitVec.msb) := by
  have cut (word : UInt64) : (responseSeq word).toBitVec = (word.toBitVec >>> 32).setWidth 32 := rfl
  rw [cut, BitVec.getLsbD_setWidth, BitVec.getLsbD_ushiftRight, rspArg_bit _ _ _ (by omega),
    BitVec.msb_eq_getLsbD_last]
  grind

theorem responseSeq_rspArg_iff :
    responseSeq (rspArg crSeq crFlag protocol) = crSeq ↔ crFlag < 0x8000 ∨ crSeq = 0xffffffff := by
  have sign : crFlag < 0x8000 ↔ crFlag.toBitVec.msb = false := by
    rw [BitVec.msb_eq_decide, decide_eq_false_iff_not, Nat.not_le]
    exact UInt16.lt_iff_toNat_lt
  rw [sign, ← UInt32.toBitVec_inj, ← UInt32.toBitVec_inj]
  cases signed : crFlag.toBitVec.msb with
  | false =>
      refine iff_of_true (BitVec.eq_of_getLsbD_eq fun bit inside => ?_) (.inl rfl)
      rw [responseSeq_bit _ _ _ inside, signed, Bool.or_false]
  | true =>
      have ones : (responseSeq (rspArg crSeq crFlag protocol)).toBitVec = BitVec.allOnes 32 := by
        apply BitVec.eq_of_getLsbD_eq
        intro bit inside
        rw [responseSeq_bit _ _ _ inside, signed, Bool.or_true, BitVec.getLsbD_allOnes,
          decide_eq_true inside]
      rw [ones, eq_comm]
      exact (or_iff_right (by decide)).symm

variable {crFlag} in
/-- The asynchronous response is the one which a synchronous service sends. -/
theorem doServiceResponse_eq (htonl_64 : Int64 → Int64) (crId : UInt32)
    (paramOut : Option CRB3Param) (packetBuf : Nat → Byte) (nonneg : 0 ≤ protocol.toInt)
    (below : protocol.toInt < 65536) (unsigned : crFlag < 0x8000) :
    doServiceResponse htonl_64 crId paramOut (rspArg crSeq crFlag protocol) packetBuf =
      (protocol, sendCRResponse htonl_64 crSeq crId crFlag paramOut packetBuf) := by
  rw [doServiceResponse, responseProtocol_rspArg _ _ _ nonneg below, responseFlag_rspArg,
    (responseSeq_rspArg_iff crSeq crFlag protocol).mpr (.inl unsigned)]

/-- Each request of a packet is answered with its own fields, unless its flag has the sign set. -/
theorem doServiceResponse_of_serviceAsync (htonl_64 ntohl_64 : Int64 → Int64) {packetSize ptr : Nat}
    {memory : Nat → Byte} {call : CrMessage × UInt64}
    (called : call ∈ (serviceAsync ntohl_64 packetSize protocol memory ptr).value)
    (nonneg : 0 ≤ protocol.toInt) (below : protocol.toInt < 65536)
    (unsigned : call.1.crFlag < 0x8000) (paramOut : Option CRB3Param) (packetBuf : Nat → Byte) :
    doServiceResponse htonl_64 call.1.crId paramOut call.2 packetBuf =
      (protocol, sendCRResponse htonl_64 call.1.crSeq call.1.crId call.1.crFlag paramOut
        packetBuf) := by
  rw [serviceAsync, Fetch.value_bind, Fetch.value_pure] at called
  obtain ⟨request, -, rfl⟩ := List.mem_map.mp called
  exact doServiceResponse_eq _ _ htonl_64 _ paramOut packetBuf nonneg below unsigned

end Fields

/-- `DoServiceResponse` finds the fields of the request exactly when its flag, as an `int` of 16
bits, is not negative, or every bit of its sequence number is set. -/
theorem returnsFields_iff (crSeq : UInt32) (crFlag : UInt16) (protocol : Int32)
    (nonneg : 0 ≤ protocol.toInt) (below : protocol.toInt < 65536) :
    ReturnsFields crSeq crFlag protocol ↔ crFlag < 0x8000 ∨ crSeq = 0xffffffff := by
  rw [← responseSeq_rspArg_iff crSeq crFlag protocol]
  constructor
  · exact ReturnsFields.seq_eq
  · intro seq_eq
    exact ⟨seq_eq, responseFlag_rspArg .., responseProtocol_rspArg _ _ _ nonneg below⟩

theorem returnsFields_iff_stream : ReturnsFields 7 1 17 :=
  (returnsFields_iff 7 1 17 (by decide) (by decide)).mpr (.inl (by decide))

/-- A flag with its sign set loses the sequence number. -/
theorem signedFlag_not_returnsFields :
    ¬ ∀ (crSeq : UInt32) (crFlag : UInt16) (protocol : Int32), 0 ≤ protocol.toInt →
      protocol.toInt < 65536 → ReturnsFields crSeq crFlag protocol := by
  intro all
  have seq_eq := (all 1 0x8000 1 (by decide) (by decide)).seq_eq
  exact absurd seq_eq (by decide)

end CRB3Server
end CommonLib
