import Mathlib.Data.List.Sort
import CommonLib.Network.Crb3Param

/-!
# The hash of the parameters in a mask

With the algorithm `ALG_TYPE_PMASK` the loop of `_NCHAlgCalc` hashes the parameters whose bit is set
in a mask of 64 bits.  It clears the bits of the mask with an expression of 32 bits.
-/

namespace CommonLib
namespace CRB3Param

/-! ## Raw values -/

/-- The bytes of a value as they lie in memory. -/
def rawBytes (tlv : CRB3_TLV) : List Byte :=
  match tlv.value with
  | .null => []
  | .i8 val => [val.toUInt8]
  | .i16 val => littleEndian 2 val.toUInt16.toNat
  | .i32 val => littleEndian 4 val.toUInt32.toNat
  | .i64 val => littleEndian 8 val.toUInt64.toNat
  | .str block => block.take tlv.len.toNat
  | .oct block => block.take tlv.len.toNat

/-- `CRB3Param::GetRaw`: the bytes that are copied, if the index lies in the table. -/
def getRaw (param : CRB3Param) (index bufLen : Nat) : Option (List Byte) :=
  param.paramTbl[index]?.map fun tlv =>
    let cpBytes := if bufLen ≥ tlv.len.toNat then tlv.len.toNat else bufLen
    match tlv.value with
    | .oct block => block.take cpBytes
    | .str block => block.take cpBytes
    | .i64 val => littleEndian 8 val.toUInt64.toNat
    | .i32 val => littleEndian 4 val.toUInt32.toNat
    | .i16 val => littleEndian 2 val.toUInt16.toNat
    | .i8 val => [val.toUInt8]
    | .null => []

end CRB3Param

open CRB3Param

namespace CRB3Client

/-! ## The loop -/

/-- `hash = hash * 131 + data[off]` over the bytes. -/
def hashBytes (hash : UInt64) (data : List Byte) : UInt64 :=
  data.foldl (fun hash byte => hash * 131 + byte.toUInt64) hash

/-- `qword & ~(1 << idx)`, with an `int` on the right. -/
def clearBit (qword : BitVec 64) (idx : Nat) : BitVec 64 :=
  qword &&& (~~~(1#32 <<< (idx % 32))).signExtend 64

/-- The variables of the loop, and the parameters it has gone through. -/
structure MaskLoop where
  qword : BitVec 64
  hash : UInt64
  visited : List Nat

/-- One turn of the loop. -/
def maskTurn (param : CRB3Param) (state : MaskLoop) : MaskLoop :=
  let idx := state.qword.ctz.toNat
  let data := (param.getRaw idx 256).getD []
  { qword := clearBit state.qword idx
    hash := hashBytes state.hash data
    visited := state.visited ++ [idx] }

/-- The `while` loop of `CRB3Client::_NCHAlgCalc`; `none` if `fuel` turns are too few. -/
def maskLoop (param : CRB3Param) : Nat → MaskLoop → Option MaskLoop
  | 0, _ => none
  | fuel + 1, state =>
      if state.qword ≠ 0 ∧ state.qword.ctz.toNat < param.paramTbl.length then
        maskLoop param fuel (maskTurn param state)
      else some state

/-- The bits of a mask that belong to parameters, in ascending order. -/
def maskBits (mask : BitVec 64) (paramCount : Nat) : List Nat :=
  (List.range 64).filter fun idx => mask.getLsbD idx && decide (idx < paramCount)

/-- The hash over the first 256 bytes of each of some parameters. -/
def hashParams (param : CRB3Param) (idxs : List Nat) : UInt64 :=
  idxs.foldl (fun hash idx =>
    hashBytes hash ((rawBytes (param.paramTbl.getD idx .zero)).take 256)) 0

/-- The loop ends after the parameters in the mask, each once and in order, with their hash. -/
def HashesMask (mask : BitVec 64) (param : CRB3Param) : Prop :=
  ∃ fuel state, maskLoop param fuel ⟨mask, 0, []⟩ = some state ∧
    state.visited = maskBits mask param.paramTbl.length ∧
    state.hash = hashParams param (maskBits mask param.paramTbl.length)

/-- Of the upper bits that belong to parameters only the last one is set, and then bit 31 is not. -/
def UpperClear (mask : BitVec 64) (paramCount : Nat) : Prop :=
  ∀ idx, 32 ≤ idx → idx < 64 → idx < paramCount → mask.getLsbD idx = true →
    idx = 63 ∧ mask.getLsbD 31 = false

/-! ## The bits -/

section Bits

variable {qword next : BitVec 64} {paramCount idx bit : Nat}

/-- Above bit 31 the sign of the `int` decides. -/
theorem getLsbD_clearBit (inside : bit < 64) :
    (clearBit qword idx).getLsbD bit =
      (qword.getLsbD bit && decide (min bit 31 ≠ idx % 32)) := by
  have bit_of (low : Nat) (low_lt : low < 32) :
      (~~~(1#32 <<< (idx % 32))).getLsbD low = decide (low ≠ idx % 32) := by
    rw [BitVec.getLsbD_not, BitVec.getLsbD_shiftLeft, BitVec.getLsbD_one]
    grind
  rw [clearBit, BitVec.getLsbD_and, BitVec.getLsbD_signExtend, BitVec.msb_eq_getLsbD_last]
  split
  · next low =>
      rw [bit_of bit low, Nat.min_eq_left (by omega), decide_eq_true inside, Bool.true_and]
  · next high =>
      rw [bit_of (32 - 1) (by omega), Nat.min_eq_right (by omega), decide_eq_true inside,
        Bool.true_and]

theorem mem_maskBits :
    bit ∈ maskBits qword paramCount ↔ bit < 64 ∧ bit < paramCount ∧ qword.getLsbD bit = true := by
  simp [maskBits, and_comm]

theorem maskBits_pairwise : (maskBits qword paramCount).Pairwise (· < ·) :=
  List.pairwise_lt_range.filter _

/-- The least bit comes first. -/
theorem maskBits_eq_cons (here : idx ∈ maskBits qword paramCount)
    (least : ∀ bit < idx, qword.getLsbD bit = false)
    (cleared : ∀ bit ∈ maskBits qword paramCount,
      (clearBit qword idx).getLsbD bit = true ↔ bit ≠ idx) :
    maskBits qword paramCount = idx :: maskBits (clearBit qword idx) paramCount := by
  have later {bit : Nat} (member : bit ∈ maskBits (clearBit qword idx) paramCount) :
      bit ∈ maskBits qword paramCount ∧ bit ≠ idx := by
    obtain ⟨inside, below, set⟩ := mem_maskBits.mp member
    have old : qword.getLsbD bit = true := by
      rw [getLsbD_clearBit inside] at set
      exact (Bool.and_eq_true_iff.mp set).1
    have member : bit ∈ maskBits qword paramCount := mem_maskBits.mpr ⟨inside, below, old⟩
    exact ⟨member, (cleared bit member).mp set⟩
  apply maskBits_pairwise.eq_of_mem_iff
  · refine List.pairwise_cons.mpr ⟨fun bit member => ?_, maskBits_pairwise⟩
    obtain ⟨old, differs⟩ := later member
    by_contra notAbove
    have unset := least bit (by omega)
    rw [(mem_maskBits.mp old).2.2] at unset
    cases unset
  · intro bit
    rw [List.mem_cons]
    constructor
    · intro member
      obtain ⟨inside, below, set⟩ := mem_maskBits.mp member
      by_cases first : bit = idx
      · exact .inl first
      · exact .inr (mem_maskBits.mpr ⟨inside, below, (cleared bit member).mpr first⟩)
    · rintro (rfl | member)
      · exact here
      · exact (later member).1

/-- What `ctz` finds in a mask. -/
theorem ctz_spec (nonzero : qword ≠ 0) :
    qword.ctz.toNat < 64 ∧ qword.getLsbD qword.ctz.toNat = true ∧
      ∀ bit < qword.ctz.toNat, qword.getLsbD bit = false := by
  have set := BitVec.getLsbD_true_ctz_of_ne_zero nonzero
  exact ⟨BitVec.lt_of_getLsbD set, set, fun bit below => BitVec.getLsbD_false_of_lt_ctz below⟩

/-- The loop ends when no bit is left. -/
theorem maskBits_eq_nil_iff :
    maskBits qword paramCount = [] ↔ ¬ (qword ≠ 0 ∧ qword.ctz.toNat < paramCount) := by
  constructor
  · rintro nothing ⟨nonzero, below⟩
    obtain ⟨inside, set, -⟩ := ctz_spec nonzero
    have member := mem_maskBits.mpr ⟨inside, below, set⟩
    rw [nothing] at member
    cases member
  · intro ended
    apply List.eq_nil_iff_forall_not_mem.mpr
    intro bit member
    obtain ⟨inside, below, set⟩ := mem_maskBits.mp member
    have nonzero : qword ≠ 0 := by
      rintro rfl
      simp at set
    have unset := (ctz_spec nonzero).2.2 bit (by_contra fun above => ended ⟨nonzero, by omega⟩)
    rw [set] at unset
    cases unset

theorem UpperClear.clearBit (upperClear : UpperClear qword paramCount) :
    UpperClear (clearBit qword idx) paramCount := by
  intro bit upper inside below set
  rw [getLsbD_clearBit inside, Bool.and_eq_true_iff] at set
  obtain ⟨last, unset⟩ := upperClear bit upper inside below set.1
  refine ⟨last, ?_⟩
  rw [getLsbD_clearBit (by omega), unset, Bool.false_and]

/-- A turn clears the bit of its parameter alone. -/
theorem UpperClear.maskBits_eq_cons (upperClear : UpperClear qword paramCount)
    (nonzero : qword ≠ 0) (below : qword.ctz.toNat < paramCount) :
    maskBits qword paramCount =
      qword.ctz.toNat :: maskBits (CRB3Client.clearBit qword qword.ctz.toNat) paramCount := by
  obtain ⟨inside, set, least⟩ := ctz_spec nonzero
  apply CRB3Client.maskBits_eq_cons (mem_maskBits.mpr ⟨inside, below, set⟩) least
  intro bit member
  obtain ⟨bit_lt, bit_below, bit_set⟩ := mem_maskBits.mp member
  rw [getLsbD_clearBit bit_lt, bit_set, Bool.true_and, decide_eq_true_iff]
  by_cases upper : 32 ≤ bit
  · obtain ⟨rfl, unset⟩ := upperClear bit upper bit_lt bit_below bit_set
    have not31 : qword.ctz.toNat ≠ 31 := by
      intro same
      rw [same, unset] at set
      cases set
    by_cases low : qword.ctz.toNat < 32
    · omega
    · have := (upperClear _ (by omega) inside below set).1
      omega
  · have first : qword.ctz.toNat ≤ bit := by
      by_contra after
      rw [least bit (by omega)] at bit_set
      cases bit_set
    omega

/-- A turn at a bit below the sign clears it alone. -/
theorem clearBit_of_low (nonzero : qword ≠ 0) (below : qword.ctz.toNat < paramCount)
    (low : qword.ctz.toNat < 31) :
    maskBits qword paramCount =
        qword.ctz.toNat :: maskBits (clearBit qword qword.ctz.toNat) paramCount ∧
      ∀ bit, 31 ≤ bit → bit < 64 →
        (clearBit qword qword.ctz.toNat).getLsbD bit = qword.getLsbD bit := by
  obtain ⟨inside, set, least⟩ := ctz_spec nonzero
  constructor
  · apply maskBits_eq_cons (mem_maskBits.mpr ⟨inside, below, set⟩) least
    intro bit member
    obtain ⟨bit_lt, -, bit_set⟩ := mem_maskBits.mp member
    rw [getLsbD_clearBit bit_lt, bit_set, Bool.true_and, decide_eq_true_iff]
    omega
  · intro bit bit_ge bit_lt
    have differs : min bit 31 ≠ qword.ctz.toNat % 32 := by omega
    rw [getLsbD_clearBit bit_lt, decide_eq_true differs, Bool.and_true]

/-- A turn at the sign clears all bits. -/
theorem clearBit_of_sign (nonzero : qword ≠ 0) (sign : qword.ctz.toNat = 31) :
    clearBit qword qword.ctz.toNat = 0 := by
  obtain ⟨-, -, least⟩ := ctz_spec nonzero
  apply BitVec.eq_of_getLsbD_eq
  intro bit bit_lt
  rw [getLsbD_clearBit bit_lt]
  refine Eq.trans ?_ BitVec.getLsbD_zero.symm
  by_cases above : 31 ≤ bit
  · rw [decide_eq_false (by omega), Bool.and_false]
  · rw [least bit (by omega), Bool.false_and]

/-- A turn at an upper bit other than the last clears nothing. -/
theorem clearBit_of_high (nonzero : qword ≠ 0) (high : 31 < qword.ctz.toNat)
    (notLast : qword.ctz.toNat ≠ 63) : clearBit qword qword.ctz.toNat = qword := by
  obtain ⟨inside, -, least⟩ := ctz_spec nonzero
  apply BitVec.eq_of_getLsbD_eq
  intro bit bit_lt
  rw [getLsbD_clearBit bit_lt]
  by_cases above : qword.ctz.toNat ≤ bit
  · rw [decide_eq_true (by omega), Bool.and_true]
  · rw [least bit (by omega), Bool.false_and]

end Bits

/-! ## The runs of the loop -/

section Loop

variable {param : CRB3Param}

theorem getRaw_eq {index : Nat} (inside : index < param.paramTbl.length) :
    (param.getRaw index 256).getD [] =
      (rawBytes (param.paramTbl.getD index .zero)).take 256 := by
  rw [getRaw, List.getD_eq_getElem?_getD, List.getElem?_eq_getElem inside]
  obtain ⟨len, value⟩ := param.paramTbl[index]
  have whole (bytes : List Byte) (short : bytes.length ≤ 256) : bytes = bytes.take 256 :=
    (List.take_of_length_le short).symm
  have cut (block : List Byte) :
      block.take (if 256 ≥ len.toNat then len.toNat else 256) =
        (block.take len.toNat).take 256 := by
    rw [List.take_take]
    congr 1
    split <;> omega
  cases value with
  | null => rfl
  | i8 val => rfl
  | i16 val => exact whole _ (by simp)
  | i32 val => exact whole _ (by simp)
  | i64 val => exact whole _ (by simp)
  | str block => exact cut block
  | oct block => exact cut block

/-- The loop goes through the parameters in the mask. -/
theorem UpperClear.maskLoop (bits : List Nat) (state : MaskLoop)
    (upperClear : UpperClear state.qword param.paramTbl.length)
    (bits_eq : maskBits state.qword param.paramTbl.length = bits) :
    ∃ final, CRB3Client.maskLoop param (bits.length + 1) state = some final ∧
      final.visited = state.visited ++ bits ∧
      final.hash = bits.foldl (fun hash idx =>
        hashBytes hash ((rawBytes (param.paramTbl.getD idx .zero)).take 256)) state.hash := by
  induction bits generalizing state with
  | nil =>
      refine ⟨state, if_neg (maskBits_eq_nil_iff.mp bits_eq), ?_, rfl⟩
      rw [List.append_nil]
  | cons idx bits induction =>
      have turns : state.qword ≠ 0 ∧ state.qword.ctz.toNat < param.paramTbl.length := by
        by_contra ended
        rw [maskBits_eq_nil_iff.mpr ended] at bits_eq
        cases bits_eq
      rw [upperClear.maskBits_eq_cons turns.1 turns.2] at bits_eq
      obtain ⟨rfl, later_eq⟩ := List.cons.inj bits_eq
      obtain ⟨final, ends, visited_eq, hash_eq⟩ :=
        induction (maskTurn param state) upperClear.clearBit later_eq
      refine ⟨final, ?_, ?_, ?_⟩
      · rw [List.length_cons, CRB3Client.maskLoop, if_pos turns]
        exact ends
      · rw [visited_eq, maskTurn, List.append_assoc]
        rfl
      · rw [hash_eq, maskTurn, getRaw_eq turns.2]
        rfl

/-- The loop does not end at an upper bit which it does not clear. -/
theorem maskLoop_stuck (fuel : Nat) {state : MaskLoop}
    (turns : state.qword ≠ 0 ∧ state.qword.ctz.toNat < param.paramTbl.length)
    (stuck : clearBit state.qword state.qword.ctz.toNat = state.qword) :
    maskLoop param fuel state = none := by
  induction fuel generalizing state with
  | zero => rfl
  | succ fuel induction =>
      rw [maskLoop, if_pos turns]
      have same : (maskTurn param state).qword = state.qword := stuck
      apply induction
      · rw [same]
        exact turns
      · rw [same]
        exact stuck

/-- The loop ends when a turn has cleared all bits. -/
theorem maskLoop_cleared {fuel : Nat} {state final : MaskLoop}
    (turns : state.qword ≠ 0 ∧ state.qword.ctz.toNat < param.paramTbl.length)
    (cleared : clearBit state.qword state.qword.ctz.toNat = 0)
    (ends : maskLoop param fuel state = some final) : final = maskTurn param state := by
  cases fuel with
  | zero => cases ends
  | succ fuel =>
      rw [maskLoop, if_pos turns] at ends
      cases fuel with
      | zero => cases ends
      | succ fuel =>
          have ended : ¬ ((maskTurn param state).qword ≠ 0 ∧
              (maskTurn param state).qword.ctz.toNat < param.paramTbl.length) :=
            fun more => more.1 cleared
          rw [maskLoop, if_neg ended] at ends
          exact (Option.some.inj ends).symm

/-- A loop that ends after the parameters in the mask has found the upper bits clear. -/
theorem upperClear_of_maskLoop {fuel : Nat} {state final : MaskLoop}
    (ends : maskLoop param fuel state = some final)
    (visited_eq : final.visited =
      state.visited ++ maskBits state.qword param.paramTbl.length) :
    UpperClear state.qword param.paramTbl.length := by
  induction fuel generalizing state with
  | zero => cases ends
  | succ fuel induction =>
      intro bit upper inside below bit_set
      have member := mem_maskBits.mpr ⟨inside, below, bit_set⟩
      by_cases turns : state.qword ≠ 0 ∧ state.qword.ctz.toNat < param.paramTbl.length
      case neg =>
        rw [maskBits_eq_nil_iff.mpr turns] at member
        cases member
      obtain ⟨-, -, least⟩ := ctz_spec turns.1
      have first : state.qword.ctz.toNat ≤ bit := by
        by_contra after
        rw [least bit (by omega)] at bit_set
        cases bit_set
      rcases Nat.lt_trichotomy state.qword.ctz.toNat 31 with low | sign | high
      · -- the upper bits are those of the next turn
        obtain ⟨bits_eq, kept⟩ := clearBit_of_low turns.1 turns.2 low
        rw [maskLoop, if_pos turns] at ends
        have next_upperClear := induction ends <| by
          rw [visited_eq, bits_eq]
          exact List.append_cons ..
        rw [← kept bit (by omega) inside] at bit_set
        rw [← kept 31 (by omega) (by omega)]
        exact next_upperClear bit upper inside below bit_set
      · have final_eq := maskLoop_cleared turns (clearBit_of_sign turns.1 sign) ends
        rw [final_eq, maskTurn, List.append_cancel_left_eq] at visited_eq
        rw [← visited_eq] at member
        have same := List.mem_singleton.mp member
        omega
      · by_cases last : state.qword.ctz.toNat = 63
        · exact ⟨by omega, least 31 (by omega)⟩
        · rw [maskLoop_stuck _ turns (clearBit_of_high turns.1 high last)] at ends
          cases ends

end Loop

/-- The loop ends with the hash of the parameters in the mask exactly when their upper bits are
clear. -/
theorem hashesMask_iff (mask : BitVec 64) (param : CRB3Param) :
    HashesMask mask param ↔ UpperClear mask param.paramTbl.length := by
  constructor
  · rintro ⟨fuel, state, ends, visited_eq, -⟩
    exact upperClear_of_maskLoop ends visited_eq
  · intro upperClear
    obtain ⟨final, ends, visited_eq, hash_eq⟩ := upperClear.maskLoop _ ⟨mask, 0, []⟩ rfl
    exact ⟨_, final, ends, visited_eq, hash_eq⟩

/-- With bit 32 set the loop does not end on 33 parameters. -/
theorem bit32_not_hashesMask :
    ¬ ∀ (mask : BitVec 64) (param : CRB3Param), HashesMask mask param := by
  intro all
  obtain ⟨fuel, state, ends, visited_eq, -⟩ := all (BitVec.twoPow 64 32) (.new 33)
  have upperClear := upperClear_of_maskLoop ends visited_eq
  have := (upperClear 32 (by omega) (by omega) (by decide) (by decide)).1
  omega

end CRB3Client
end CommonLib
