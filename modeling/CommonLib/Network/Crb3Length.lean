import CommonLib.Network.Crb3Send

/-!
# The predicted size of a parameter table

`GetTLVLength` adds up the fields `Len`, and `OutputTLV` writes what the types of the values need.
A table that was decoded may have any `Len` with any type.
-/

namespace CommonLib
namespace CRB3Param

/-! ## Tables -/

/-- A slot that the copy constructor copies. -/
def copySlot (tlv : CRB3_TLV) : CRB3_TLV :=
  match tlv.value with
  | .str block => ⟨tlv.len, .str (block.take tlv.len.toNat)⟩
  | .oct block => ⟨tlv.len, .oct (block.take tlv.len.toNat)⟩
  | value => ⟨tlv.len, value⟩

/-- `CRB3Param::CRB3Param(param)`. -/
def copy (param : CRB3Param) : CRB3Param := ⟨param.paramTbl.map copySlot⟩

/-- `CRB3Param::AddParamCount`; `malloc` refuses a negative size. -/
def addParamCount (param : CRB3Param) (paramCntInc : Int32) : CRB3Param :=
  let newParamCount := (param.paramTbl.length : Int) + paramCntInc.toInt
  if newParamCount < 0 then param
  else
    ⟨param.paramTbl.take newParamCount.toNat ++
      List.replicate (newParamCount.toNat - param.paramTbl.length) .zero⟩

/-- The tables which the constructors, the setters and `AddParamCount` make. -/
inductive Constructible (ntohl_64 : Int64 → Int64) : CRB3Param → Prop
  | new (paramCnt : Nat) : Constructible ntohl_64 (new paramCnt)
  | fetch (memory : Nat → Byte) (tlvBuf paramCnt : Nat) (bufSize : Int32) :
      Constructible ntohl_64 (fetch ntohl_64 paramCnt bufSize memory tlvBuf).value
  | copy {param : CRB3Param} : Constructible ntohl_64 param → Constructible ntohl_64 param.copy
  | call {param : CRB3Param} (index : Nat) (setting : Setting) :
      Constructible ntohl_64 param → Constructible ntohl_64 (param.call index setting)
  | addParamCount {param : CRB3Param} (paramCntInc : Int32) :
      Constructible ntohl_64 param → Constructible ntohl_64 (param.addParamCount paramCntInc)

/-! ## Writes -/

/-- `OutputTLV` writes the cell: what is in it afterwards does not depend on the buffer. -/
def Writes (htonl_64 : Int64 → Int64) (param : CRB3Param) (tlvBuf cell : Nat) : Prop :=
  ∀ memory memory', param.outputTLV htonl_64 memory tlvBuf cell =
    param.outputTLV htonl_64 memory' tlvBuf cell

/-- `OutputTLV` writes `GetTLVLength()` bytes, those from `TLVBuf` on. -/
def WritesPredicted (htonl_64 : Int64 → Int64) (param : CRB3Param) : Prop :=
  ∀ tlvBuf cell, Writes htonl_64 param tlvBuf cell ↔
    tlvBuf ≤ cell ∧ (cell : Int) < tlvBuf + param.getTLVLength.toInt

/-- The bytes which the head and the value of a slot take. -/
def slotExtent (tlv : CRB3_TLV) : Nat := 4 + valueSize tlv.type tlv.len

/-- The bytes which `GetTLVLength` counts for a slot. -/
def slotCount (tlv : CRB3_TLV) : Nat :=
  4 + if tlv.type ≠ CRB3P_TYPE_NULL then tlv.len.toNat else 0

def writtenSize (table : List CRB3_TLV) : Nat := (table.map slotExtent).sum

def countedSize (table : List CRB3_TLV) : Nat := (table.map slotCount).sum

/-- No slot leaves a gap before another one. -/
def Gapless : List CRB3_TLV → Prop
  | [] => True
  | tlv :: table => (table ≠ [] → tlv.type = CRB3P_TYPE_NULL → tlv.len = 0) ∧ Gapless table

/-- An empty slot has no length, the last one excepted, and the lengths add up to what the values
take, which an `int` can hold. -/
structure SizesAgree (param : CRB3Param) : Prop where
  gapless : Gapless param.paramTbl
  total : countedSize param.paramTbl % 2 ^ 32 = writtenSize param.paramTbl
  short : writtenSize param.paramTbl < 2 ^ 31

/-- The block of a string or of octets has the bytes which `Len` promises. -/
def Backed (tlv : CRB3_TLV) : Prop :=
  match tlv.value with
  | .str block => tlv.len.toNat ≤ block.length
  | .oct block => tlv.len.toNat ≤ block.length
  | _ => True

/-! ## Tables that are made -/

section Made

variable {ntohl_64 : Int64 → Int64} {memory : Nat → Byte} {ptr : Nat}

theorem backed_zero : Backed .zero := trivial

theorem backed_copySlot {tlv : CRB3_TLV} (backed : Backed tlv) : Backed (copySlot tlv) := by
  obtain ⟨len, value⟩ := tlv
  cases value with
  | str block => exact Nat.le_of_eq (List.length_take_of_le backed).symm
  | oct block => exact Nat.le_of_eq (List.length_take_of_le backed).symm
  | _ => trivial

theorem backed_of_sized {tlv : CRB3_TLV} (sized : Sized tlv) : Backed tlv := by
  rcases sized with sound | rfl
  · obtain ⟨len, value⟩ := tlv
    cases value with
    | str block => exact Nat.le_of_eq (Eq.symm sound)
    | oct block => exact Nat.le_of_eq (Eq.symm sound)
    | _ => trivial
  · exact backed_zero

theorem backed_fetchSlot : Backed (fetchSlot ntohl_64 memory ptr).value := by
  simp only [fetchSlot, fetchValue, Fetch.value_bind, Fetch.value_pure]
  split_ifs <;> simp [Backed]

theorem backed_fetchSlots (stop : Int) (count : Nat) :
    ∀ tlv ∈ (fetchSlots ntohl_64 stop count memory ptr).value, Backed tlv := by
  induction count generalizing ptr with
  | zero => simp [fetchSlots]
  | succ count induction =>
      rw [fetchSlots, Fetch.value_bind, Fetch.value_position, Fetch.ptr_position]
      split
      · simp only [Fetch.value_bind, Fetch.value_pure, List.forall_mem_cons]
        exact ⟨backed_fetchSlot, induction⟩
      · intro tlv member
        rw [List.eq_of_mem_replicate member]
        exact backed_zero

theorem backed_set {param : CRB3Param} (backed : ∀ tlv ∈ param.paramTbl, Backed tlv) (index : Nat)
    {slot : CRB3_TLV} (here : Backed slot) :
    ∀ tlv ∈ (param.set index slot).paramTbl, Backed tlv := by
  intro tlv member
  rcases List.mem_or_eq_of_mem_set member with old | rfl
  · exact backed tlv old
  · exact here

theorem backed_call {param : CRB3Param} (backed : ∀ tlv ∈ param.paramTbl, Backed tlv) (index : Nat)
    (setting : Setting) : ∀ tlv ∈ (param.call index setting).paramTbl, Backed tlv := by
  cases setting with
  | string pStr =>
      exact backed_set backed index (backed_of_sized (.inl (Setting.sound_string pStr)))
  | octet pOctet =>
      by_cases accepted : 0 < pOctet.length ∧ pOctet.length ≤ 0xffff
      · have valid : (Setting.octet pOctet).Valid := accepted
        rw [call_eq param index valid]
        exact backed_set backed index (backed_of_sized (.inl (Setting.sound_slot valid)))
      · rw [call, setOctet, if_neg accepted]
        exact backed
  | _ => exact backed_set backed index trivial

theorem Constructible.backed {param : CRB3Param} (made : Constructible ntohl_64 param) :
    ∀ tlv ∈ param.paramTbl, Backed tlv := by
  induction made with
  | new paramCnt =>
      intro tlv member
      rw [List.eq_of_mem_replicate member]
      exact backed_zero
  | fetch memory tlvBuf paramCnt bufSize => exact backed_fetchSlots _ paramCnt
  | copy _ induction =>
      intro tlv member
      obtain ⟨old, old_member, rfl⟩ := List.mem_map.mp member
      exact backed_copySlot (induction old old_member)
  | call index setting _ induction => exact backed_call induction index setting
  | addParamCount paramCntInc _ induction =>
      rw [CRB3Param.addParamCount]
      split
      · exact induction
      · intro tlv member
        rcases List.mem_append.mp member with old | added
        · exact induction tlv (List.mem_of_mem_take old)
        · rw [List.eq_of_mem_replicate added]
          exact backed_zero

end Made

/-! ## The written cells -/

/-- The bytes over which `OutputTLV` passes behind an empty slot. -/
def slotGap (tlv : CRB3_TLV) : Nat := if tlv.type = CRB3P_TYPE_NULL then tlv.len.toNat else 0

/-- The cells written when the cursor comes to a table. -/
def Written : Nat → List CRB3_TLV → Nat → Prop
  | _, [], _ => False
  | ptr, tlv :: table, cell =>
      ptr ≤ cell ∧ cell < ptr + slotExtent tlv ∨
        Written (ptr + (slotExtent tlv + slotGap tlv)) table cell

section Written

variable {htonl_64 : Int64 → Int64} {tlv : CRB3_TLV} {table : List CRB3_TLV} {ptr cell : Nat}

theorem valueBytes_length_of_backed (backed : Backed tlv) :
    (valueBytes htonl_64 tlv.len tlv.value).length = valueSize tlv.type tlv.len := by
  obtain ⟨len, value⟩ := tlv
  cases value with
  | str block => exact List.length_take_of_le backed
  | oct block => exact List.length_take_of_le backed
  | _ => simp [valueBytes, CRB3_TLV.type, CRB3_VALUE.type, valueSize, CRB3P_TYPE_NULL,
      CRB3P_TYPE_INT8, CRB3P_TYPE_INT16, CRB3P_TYPE_INT32, CRB3P_TYPE_INT64, CRB3P_TYPE_STRING,
      CRB3P_TYPE_OCTOR]

theorem slotBytes_length_of_backed (backed : Backed tlv) :
    (slotBytes htonl_64 tlv).length = slotExtent tlv := by
  rw [slotBytes, List.length_append, List.length_append, valueBytes_length_of_backed backed,
    bigEndian_length, bigEndian_length, slotExtent]
  omega

/-- The head and the value of a slot are written in one piece. -/
theorem outputSlot_eq_move (backed : Backed tlv) (memory : Nat → Byte) (ptr : Nat) :
    outputSlot htonl_64 (memory, ptr) tlv =
      (move (slotBytes htonl_64 tlv) memory ptr, ptr + (slotExtent tlv + slotGap tlv)) := by
  have whole : (slotBytes htonl_64 tlv).length = slotExtent tlv := slotBytes_length_of_backed backed
  have written : submit (slotBytes htonl_64 tlv) (memory, ptr) =
      submit (valueBytes htonl_64 tlv.len tlv.value) (submit (bigEndian 2 tlv.len.toNat)
        (submit (bigEndian 2 tlv.type.toNat) (memory, ptr))) := by
    rw [submit_submit, submit_submit, slotBytes]
  have moved : submit (slotBytes htonl_64 tlv) (memory, ptr) =
      (move (slotBytes htonl_64 tlv) memory ptr, ptr + slotExtent tlv) := by
    rw [submit, whole]
  rw [moved] at written
  obtain ⟨len, value⟩ := tlv
  cases value with
  | null =>
      have nothing (out : Output) : submit [] out = out := by simp [submit, move_nil]
      rw [valueBytes, nothing] at written
      simp only [outputSlot, ← written, slotGap, Nat.add_assoc]
      rfl
  | _ =>
      simp only [outputSlot, ← written, slotGap]
      rfl

theorem written_ge (written : Written ptr table cell) : ptr ≤ cell := by
  induction table generalizing ptr with
  | nil => exact absurd written not_false
  | cons tlv table induction =>
      rcases written with ⟨above, -⟩ | written
      · exact above
      · exact Nat.le_trans (Nat.le_add_right ..) (induction written)

/-- The other cells keep what is in them. -/
theorem foldl_outputSlot_outside (backed : ∀ tlv ∈ table, Backed tlv) (memory : Nat → Byte)
    (outside : ¬ Written ptr table cell) :
    (table.foldl (outputSlot htonl_64) (memory, ptr)).1 cell = memory cell := by
  induction table generalizing memory ptr with
  | nil => rfl
  | cons tlv table induction =>
      obtain ⟨here, later⟩ := List.forall_mem_cons.mp backed
      rw [Written, not_or] at outside
      rw [List.foldl_cons, outputSlot_eq_move here, induction later _ outside.2]
      apply move_outside
      rw [slotBytes_length_of_backed here]
      omega

theorem foldl_outputSlot_congr (backed : ∀ tlv ∈ table, Backed tlv) {memory memory' : Nat → Byte}
    (same : memory cell = memory' cell) :
    (table.foldl (outputSlot htonl_64) (memory, ptr)).1 cell =
      (table.foldl (outputSlot htonl_64) (memory', ptr)).1 cell := by
  induction table generalizing memory memory' ptr with
  | nil => exact same
  | cons tlv table induction =>
      obtain ⟨here, later⟩ := List.forall_mem_cons.mp backed
      rw [List.foldl_cons, List.foldl_cons, outputSlot_eq_move here, outputSlot_eq_move here]
      apply induction later
      simp only [move, same]

/-- The written cells lose what is in them. -/
theorem foldl_outputSlot_inside (backed : ∀ tlv ∈ table, Backed tlv) (memory memory' : Nat → Byte)
    (inside : Written ptr table cell) :
    (table.foldl (outputSlot htonl_64) (memory, ptr)).1 cell =
      (table.foldl (outputSlot htonl_64) (memory', ptr)).1 cell := by
  induction table generalizing memory memory' ptr with
  | nil => exact absurd inside not_false
  | cons tlv table induction =>
      obtain ⟨here, later⟩ := List.forall_mem_cons.mp backed
      rw [List.foldl_cons, List.foldl_cons, outputSlot_eq_move here, outputSlot_eq_move here]
      rcases inside with ⟨above, below⟩ | inside
      · apply foldl_outputSlot_congr later
        obtain ⟨offset, rfl⟩ := Nat.exists_eq_add_of_le above
        have offset_lt : offset < (slotBytes htonl_64 tlv).length := by
          rw [slotBytes_length_of_backed here]
          omega
        rw [move_inside _ _ offset_lt, move_inside _ _ offset_lt]
      · exact induction later _ _ inside

theorem writes_iff {param : CRB3Param} (backed : ∀ tlv ∈ param.paramTbl, Backed tlv)
    {tlvBuf : Nat} : Writes htonl_64 param tlvBuf cell ↔ Written tlvBuf param.paramTbl cell := by
  constructor
  · intro writes
    by_contra outside
    have differ := writes (fun _ => 0) fun _ => 1
    rw [outputTLV, outputTLV, foldl_outputSlot_outside backed _ outside,
      foldl_outputSlot_outside backed _ outside] at differ
    exact absurd differ (by decide)
  · exact fun inside memory memory' => foldl_outputSlot_inside backed memory memory' inside

/-- Without gaps the written cells lie one behind the other. -/
theorem written_iff (gapless : Gapless table) :
    Written ptr table cell ↔ ptr ≤ cell ∧ cell < ptr + writtenSize table := by
  induction table generalizing ptr with
  | nil =>
      rw [writtenSize, List.map_nil, List.sum_nil]
      exact iff_of_false not_false (by omega)
  | cons tlv table induction =>
      obtain ⟨here, later⟩ := gapless
      have size_eq : writtenSize (tlv :: table) = slotExtent tlv + writtenSize table := rfl
      rw [Written, induction later, size_eq]
      cases table with
      | nil =>
          simp only [writtenSize, List.map_nil, List.sum_nil]
          omega
      | cons next rest =>
          have closed : slotGap tlv = 0 := by
            unfold slotGap
            split
            · next null => rw [here (List.cons_ne_nil next rest) null]; rfl
            · rfl
          omega

/-- A gap is followed by a written cell. -/
theorem exists_gap (ptr : Nat) (notGapless : ¬ Gapless table) :
    ∃ gap later, ptr ≤ gap ∧ gap < later ∧ ¬ Written ptr table gap ∧ Written ptr table later := by
  induction table generalizing ptr with
  | nil => exact absurd trivial notGapless
  | cons tlv table induction =>
      by_cases closed : Gapless table
      · have here : ¬ (table ≠ [] → tlv.type = CRB3P_TYPE_NULL → tlv.len = 0) :=
          fun here => notGapless ⟨here, closed⟩
        rw [Classical.not_imp, Classical.not_imp] at here
        obtain ⟨more, null, len_ne⟩ := here
        have size_eq : slotExtent tlv = 4 := by
          rw [slotExtent, null]
          rfl
        have gap_eq : slotGap tlv = tlv.len.toNat := if_pos null
        have gap_pos : 0 < tlv.len.toNat :=
          Nat.pos_of_ne_zero fun zero => len_ne (UInt16.toNat_inj.mp zero)
        refine ⟨ptr + 4, ptr + (slotExtent tlv + slotGap tlv), by omega, by omega, ?_, .inr ?_⟩
        · rw [Written, not_or]
          refine ⟨by omega, fun inside => ?_⟩
          have := written_ge inside
          omega
        · cases table with
          | nil => exact absurd rfl more
          | cons next rest =>
              refine .inl ⟨Nat.le_refl _, ?_⟩
              unfold slotExtent
              omega
      · obtain ⟨gap, later, above, before, outside, inside⟩ := induction _ closed
        refine ⟨gap, later, by omega, before, ?_, .inr inside⟩
        rw [Written, not_or]
        exact ⟨by omega, outside⟩

theorem getTLVLength_eq_count (param : CRB3Param) :
    param.getTLVLength = Int32.ofNat (countedSize param.paramTbl) := by
  obtain ⟨table⟩ := param
  have counted : ∀ start : Nat, table.foldl
      (fun len tlv =>
        if tlv.type ≠ CRB3P_TYPE_NULL then len + (4 + Int32.ofNat tlv.len.toNat) else len + 4)
      (Int32.ofNat start) = Int32.ofNat (start + countedSize table) := by
    induction table with
    | nil =>
        intro start
        rfl
    | cons tlv table induction =>
        intro start
        have turn : (if tlv.type ≠ CRB3P_TYPE_NULL then
            Int32.ofNat start + (4 + Int32.ofNat tlv.len.toNat) else Int32.ofNat start + 4) =
            Int32.ofNat (start + slotCount tlv) := by
          unfold slotCount
          split
          · rw [Int32.ofNat_add, Int32.ofNat_add]
            rfl
          · rw [Int32.ofNat_add]
            rfl
        have count_eq : start + countedSize (tlv :: table) =
            start + slotCount tlv + countedSize table := (Nat.add_assoc ..).symm
        rw [List.foldl_cons, turn, count_eq, ← induction]
  simpa [getTLVLength] using counted 0

theorem getTLVLength_toInt (param : CRB3Param) :
    param.getTLVLength.toInt = (countedSize param.paramTbl : Int).bmod (2 ^ 32) := by
  rw [getTLVLength_eq_count, Int32.toInt_ofNat']
  rfl

theorem SizesAgree.length_eq {param : CRB3Param} (agree : SizesAgree param) :
    param.getTLVLength.toInt = writtenSize param.paramTbl := by
  have total := agree.total
  have short := agree.short
  rw [getTLVLength_toInt, Int.bmod_def]
  split <;> omega

end Written

/-- Slots which only the setters have filled count what they take. -/
theorem sized_slot {tlv : CRB3_TLV} (sized : Sized tlv) :
    slotExtent tlv = 4 + tlv.len.toNat ∧ slotCount tlv = 4 + tlv.len.toNat ∧
      (tlv.type = CRB3P_TYPE_NULL → tlv.len = 0) := by
  have whole : (slotBytes id tlv).length = slotExtent tlv :=
    slotBytes_length_of_backed (backed_of_sized sized)
  have size_eq : slotExtent tlv = 4 + tlv.len.toNat := by
    rw [← whole, slotBytes_length sized]
  rcases sized with sound | rfl
  · refine ⟨size_eq, ?_, fun null => absurd null sound.type_ne⟩
    rw [slotCount, if_pos sound.type_ne]
  · exact ⟨size_eq, rfl, fun _ => rfl⟩

theorem writtenSize_of_sized {table : List CRB3_TLV} (sized : ∀ tlv ∈ table, Sized tlv) :
    writtenSize table = tableSize table :=
  congrArg List.sum (List.map_congr_left fun tlv member => (sized_slot (sized tlv member)).1)

theorem gapless_of_sized {table : List CRB3_TLV} (sized : ∀ tlv ∈ table, Sized tlv) :
    Gapless table := by
  induction table with
  | nil => trivial
  | cons tlv table induction =>
      obtain ⟨here, later⟩ := List.forall_mem_cons.mp sized
      exact ⟨fun _ => (sized_slot here).2.2, induction later⟩

/-- Tables which only the setters have filled agree, as long as an `int` holds their size. -/
theorem sizesAgree_of_sized {param : CRB3Param} (sized : ∀ tlv ∈ param.paramTbl, Sized tlv)
    (short : tableSize param.paramTbl < 2 ^ 31) : SizesAgree param := by
  have size_eq := writtenSize_of_sized sized
  have count_eq : countedSize param.paramTbl = tableSize param.paramTbl :=
    congrArg List.sum (List.map_congr_left fun tlv member => (sized_slot (sized tlv member)).2.1)
  refine ⟨gapless_of_sized sized, ?_, ?_⟩
  · rw [count_eq, size_eq]
    omega
  · rw [size_eq]
    exact short

section Predicted

variable {htonl_64 ntohl_64 : Int64 → Int64} {param : CRB3Param}

/-- A gap before a slot is not written, and what is predicted has no gap. -/
theorem gapless_of_writesPredicted (made : Constructible ntohl_64 param)
    (predicted : WritesPredicted htonl_64 param) : Gapless param.paramTbl := by
  by_contra notGapless
  obtain ⟨gap, later, above, before, outside, inside⟩ := exists_gap 0 notGapless
  have bound := ((predicted 0 later).mp ((writes_iff made.backed).mpr inside)).2
  exact outside ((writes_iff made.backed).mp ((predicted 0 gap).mpr ⟨above, by omega⟩))

theorem countedSize_eq_zero {table : List CRB3_TLV} (zero : writtenSize table = 0) :
    countedSize table = 0 := by
  cases table with
  | nil => rfl
  | cons tlv table =>
      simp only [writtenSize, List.map_cons, List.sum_cons, slotExtent] at zero
      omega

theorem sizesAgree_of_writesPredicted (made : Constructible ntohl_64 param)
    (predicted : WritesPredicted htonl_64 param) : SizesAgree param := by
  have gapless := gapless_of_writesPredicted made predicted
  have agrees (cell : Nat) :
      cell < writtenSize param.paramTbl ↔ (cell : Int) < param.getTLVLength.toInt := by
    have here := predicted 0 cell
    rw [writes_iff made.backed, written_iff gapless] at here
    simpa using here
  rw [getTLVLength_toInt, Int.bmod_def] at agrees
  have last := agrees (writtenSize param.paramTbl)
  have first := agrees (writtenSize param.paramTbl - 1)
  have count_zero : writtenSize param.paramTbl = 0 → countedSize param.paramTbl = 0 :=
    countedSize_eq_zero
  refine ⟨gapless, ?_, ?_⟩ <;> split at last <;> omega

theorem SizesAgree.writesPredicted (made : Constructible ntohl_64 param)
    (agree : SizesAgree param) : WritesPredicted htonl_64 param := by
  intro tlvBuf cell
  rw [writes_iff made.backed, written_iff agree.gapless, agree.length_eq]
  omega

end Predicted

/-- The bytes which `OutputTLV` writes are those which `GetTLVLength` predicts exactly when the
lengths of the slots agree with the types of their values. -/
theorem writesPredicted_iff (htonl_64 ntohl_64 : Int64 → Int64) (param : CRB3Param)
    (made : Constructible ntohl_64 param) :
    WritesPredicted htonl_64 param ↔ SizesAgree param := by
  constructor
  · exact sizesAgree_of_writesPredicted made
  · exact SizesAgree.writesPredicted made

theorem writesPredicted_iff_octet :
    WritesPredicted Filled.swap_64 (build 2 [(0, .octet [1, 2, 3]), (1, .int16 7)]) := by
  have made : Constructible Filled.swap_64 (build 2 [(0, .octet [1, 2, 3]), (1, .int16 7)]) :=
    .call 1 (.int16 7) (.call 0 (.octet [1, 2, 3]) (.new 2))
  exact (writesPredicted_iff Filled.swap_64 Filled.swap_64 _ made).mpr
    (sizesAgree_of_sized (build_sized 2 _) (by decide))

/-- The encoding of one byte with the length 3. -/
def wideByte : Nat → Byte := fun address => [0, 1, 0, 3, 97, 0, 0].getD address 0

/-- `OutputTLV` writes five of the seven bytes which the length 3 of a decoded byte promises. -/
theorem wideByte_not_writesPredicted :
    ¬ ∀ (htonl_64 ntohl_64 : Int64 → Int64) (param : CRB3Param), Constructible ntohl_64 param →
      WritesPredicted htonl_64 param := by
  intro all
  have made : Constructible Filled.swap_64 (fetch Filled.swap_64 1 7 wideByte 0).value := .fetch ..
  have agree := sizesAgree_of_writesPredicted made (all Filled.swap_64 Filled.swap_64 _ made)
  exact absurd agree.total (by decide)

end CRB3Param
end CommonLib
