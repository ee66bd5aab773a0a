import CommonLib.Hlib.CirBuffer
import CommonLib.Library.Fetch

/-!
# The parameter tables of `crb3_param.cpp`

A `CRB3Param` is a table of typed slots, written to a buffer by `OutputTLV` and read back by the
constructor that takes a buffer.  Integers of 16 and 32 bits travel in network order; the macros for
64 bits call `htonl_64` and `ntohl_64`, which are parameters, and copy the result as it lies in
memory.
-/

namespace CommonLib

/-! ## Slots -/

def CRB3P_TYPE_NULL : UInt16 := 0x0000
def CRB3P_TYPE_INT8 : UInt16 := 0x0001
def CRB3P_TYPE_INT16 : UInt16 := 0x0002
def CRB3P_TYPE_INT32 : UInt16 := 0x0003
def CRB3P_TYPE_INT64 : UInt16 := 0x0004
def CRB3P_TYPE_STRING : UInt16 := 0x0005
def CRB3P_TYPE_OCTOR : UInt16 := 0x0006

/-- The union `CRB3_VALUE` together with the field `Type` that selects its member; `str` and `oct`
carry the block which the pointer refers to. -/
inductive CRB3_VALUE
  | null
  | i8 (val : Int8)
  | i16 (val : Int16)
  | i32 (val : Int32)
  | i64 (val : Int64)
  | str (block : List Byte)
  | oct (block : List Byte)

def CRB3_VALUE.type : CRB3_VALUE → UInt16
  | null => CRB3P_TYPE_NULL
  | i8 _ => CRB3P_TYPE_INT8
  | i16 _ => CRB3P_TYPE_INT16
  | i32 _ => CRB3P_TYPE_INT32
  | i64 _ => CRB3P_TYPE_INT64
  | str _ => CRB3P_TYPE_STRING
  | oct _ => CRB3P_TYPE_OCTOR

structure CRB3_TLV where
  /-- Byte size of the value. -/
  len : UInt16
  value : CRB3_VALUE

namespace CRB3_TLV

def type (tlv : CRB3_TLV) : UInt16 := tlv.value.type

/-- A slot after `memset`. -/
def zero : CRB3_TLV := ⟨0, .null⟩

end CRB3_TLV

/-- `ParamCount` is the length of the table. -/
structure CRB3Param where
  paramTbl : List CRB3_TLV

namespace CRB3Param

/-- `CRB3Param::CRB3Param(ParamCnt)`. -/
def new (paramCnt : Nat) : CRB3Param := ⟨List.replicate paramCnt .zero⟩

/-! ## Setters -/

/-- Store a slot, if the index lies in the table. -/
def set (param : CRB3Param) (index : Nat) (tlv : CRB3_TLV) : CRB3Param :=
  ⟨param.paramTbl.set index tlv⟩

def setInt8 (param : CRB3Param) (index : Nat) (cVal : Int8) : CRB3Param :=
  param.set index ⟨1, .i8 cVal⟩

def setInt16 (param : CRB3Param) (index : Nat) (sVal : Int16) : CRB3Param :=
  param.set index ⟨2, .i16 sVal⟩

def setInt32 (param : CRB3Param) (index : Nat) (iVal : Int32) : CRB3Param :=
  param.set index ⟨4, .i32 iVal⟩

def setInt64 (param : CRB3Param) (index : Nat) (lVal : Int64) : CRB3Param :=
  param.set index ⟨8, .i64 lVal⟩

/-- The field `Len` that `SetString` computes: `(uint16_t)len + 1`, stored in 16 bits. -/
def stringLen (pStr : List Byte) : UInt16 := UInt16.ofNat pStr.length + 1

/-- `CRB3Param::SetString` on the characters of a string, without its terminator. -/
def setString (param : CRB3Param) (index : Nat) (pStr : List Byte) : CRB3Param :=
  param.set index ⟨stringLen pStr, .str ((pStr ++ [0]).take (stringLen pStr).toNat)⟩

def setOctet (param : CRB3Param) (index : Nat) (pOctet : List Byte) : CRB3Param :=
  if 0 < pOctet.length ∧ pOctet.length ≤ 0xffff then
    param.set index ⟨UInt16.ofNat pOctet.length, .oct pOctet⟩
  else param

/-! ## Encoding -/

/-- A buffer and the cursor of `OutputTLV`. -/
abbrev Output := (Nat → Byte) × Nat

/-- `CRB3_SUBMIT_BYTE`, and the copying which the other macros do. -/
def submit (bytes : List Byte) (out : Output) : Output :=
  (move bytes out.1 out.2, out.2 + bytes.length)

/-- The bytes of a value, as the switch of `OutputTLV` submits them. -/
def valueBytes (htonl_64 : Int64 → Int64) (len : UInt16) : CRB3_VALUE → List Byte
  | .null => []
  | .i8 val => [val.toUInt8]
  | .i16 val => bigEndian 2 val.toUInt16.toNat
  | .i32 val => bigEndian 4 val.toUInt32.toNat
  | .i64 val => littleEndian 8 (htonl_64 val).toUInt64.toNat
  | .str block => block.take len.toNat
  | .oct block => block.take len.toNat

/-- One turn of the loop of `OutputTLV`; a slot without a value leaves its bytes as they are. -/
def outputSlot (htonl_64 : Int64 → Int64) (out : Output) (tlv : CRB3_TLV) : Output :=
  let out := submit (bigEndian 2 tlv.type.toNat) out
  let out := submit (bigEndian 2 tlv.len.toNat) out
  match tlv.value with
  | .null => (out.1, out.2 + tlv.len.toNat)
  | value => submit (valueBytes htonl_64 tlv.len value) out

/-- `CRB3Param::OutputTLV`: the buffer after the table was written at `tlvBuf`. -/
def outputTLV (htonl_64 : Int64 → Int64) (param : CRB3Param) (memory : Nat → Byte)
    (tlvBuf : Nat) : Nat → Byte :=
  (param.paramTbl.foldl (outputSlot htonl_64) (memory, tlvBuf)).1

/-- `CRB3Param::GetTLVLength`. -/
def getTLVLength (param : CRB3Param) : Int32 :=
  param.paramTbl.foldl
    (fun len tlv =>
      if tlv.type ≠ CRB3P_TYPE_NULL then len + (4 + Int32.ofNat tlv.len.toNat) else len + 4)
    0

/-! ## Decoding -/

/-- `CRB3_FETCH_INT16` into an unsigned variable. -/
def fetchInt16 : Fetch Byte UInt16 := do
  return UInt16.ofNat (ofBigEndian (← Fetch.take 2))

/-- `CRB3_FETCH_INT32` into an unsigned variable. -/
def fetchInt32 : Fetch Byte UInt32 := do
  return UInt32.ofNat (ofBigEndian (← Fetch.take 4))

/-- `CRB3_FETCH_INT64`. -/
def fetchInt64 (ntohl_64 : Int64 → Int64) : Fetch Byte Int64 := do
  return ntohl_64 (UInt64.ofNat (ofLittleEndian (← Fetch.take 8))).toInt64

/-- The switch of the constructor. -/
def fetchValue (ntohl_64 : Int64 → Int64) (type len : UInt16) : Fetch Byte CRB3_VALUE :=
  if type = CRB3P_TYPE_INT8 then do
    return .i8 (UInt8.ofNat (ofBigEndian (← Fetch.take 1))).toInt8
  else if type = CRB3P_TYPE_INT16 then do
    return .i16 (← fetchInt16).toInt16
  else if type = CRB3P_TYPE_INT32 then do
    return .i32 (← fetchInt32).toInt32
  else if type = CRB3P_TYPE_INT64 then do
    return .i64 (← fetchInt64 ntohl_64)
  else if type = CRB3P_TYPE_STRING then do
    return .str ((← Fetch.take len.toNat) ++ [0])
  else if type = CRB3P_TYPE_OCTOR then do
    return .oct (← Fetch.take len.toNat)
  else
    return .null

/-- One turn of the loop of the constructor. -/
def fetchSlot (ntohl_64 : Int64 → Int64) : Fetch Byte CRB3_TLV := do
  let type ← fetchInt16
  let len ← fetchInt16
  return ⟨len, ← fetchValue ntohl_64 type len⟩

/-- The loop of the constructor for the last slots of the table, up to the pointer `stop`. -/
def fetchSlots (ntohl_64 : Int64 → Int64) (stop : Int) : Nat → Fetch Byte (List CRB3_TLV)
  | 0 => return []
  | count + 1 => do
      let ptr ← Fetch.position
      if (ptr : Int) + 4 ≤ stop then
        let tlv ← fetchSlot ntohl_64
        return tlv :: (← fetchSlots ntohl_64 stop count)
      else return List.replicate (count + 1) .zero

/-- `CRB3Param::CRB3Param(ParamCnt, TLVBuf, BufSize)`, with `TLVBuf` the cursor. -/
def fetch (ntohl_64 : Int64 → Int64) (paramCnt : Nat) (bufSize : Int32) :
    Fetch Byte CRB3Param := do
  let tlvBuf ← Fetch.position
  return ⟨← fetchSlots ntohl_64 (tlvBuf + bufSize.toInt) paramCnt⟩

/-! ## What is set in a slot -/

/-- The call that fills a slot. -/
inductive Setting
  | int8 (cVal : Int8)
  | int16 (sVal : Int16)
  | int32 (iVal : Int32)
  | int64 (lVal : Int64)
  | string (pStr : List Byte)
  | octet (pOctet : List Byte)

/-- Make the call on the slot `index`. -/
def call (param : CRB3Param) (index : Nat) : Setting → CRB3Param
  | .int8 cVal => param.setInt8 index cVal
  | .int16 sVal => param.setInt16 index sVal
  | .int32 iVal => param.setInt32 index iVal
  | .int64 lVal => param.setInt64 index lVal
  | .string pStr => param.setString index pStr
  | .octet pOctet => param.setOctet index pOctet

/-- The characters before the terminator. -/
def cString (block : List Byte) : List Byte := block.takeWhile (· ≠ 0)

namespace Setting

/-- What the setters accept: strings without NUL and octets of 1 to 65535 bytes. -/
def Valid : Setting → Prop
  | string pStr => 0 ∉ pStr
  | octet pOctet => 0 < pOctet.length ∧ pOctet.length ≤ 0xffff
  | _ => True

/-- The number of bytes which the value needs, the terminator of a string included. -/
def size : Setting → Nat
  | int8 _ => 1
  | int16 _ => 2
  | int32 _ => 4
  | int64 _ => 8
  | string pStr => pStr.length + 1
  | octet pOctet => pOctet.length

/-- The length of the value fits the field `Len`. -/
def Fits (setting : Setting) : Prop := setting.size ≤ 0xffff

/-- A value read back is the one that was set. -/
def Agrees : Setting → CRB3_VALUE → Prop
  | int8 cVal, value => value = .i8 cVal
  | int16 sVal, value => value = .i16 sVal
  | int32 iVal, value => value = .i32 iVal
  | int64 lVal, value => value = .i64 lVal
  | string pStr, value => ∃ block, value = .str block ∧ cString block = pStr
  | octet pOctet, value => value = .oct pOctet

/-- The slot that the call stores. -/
def slot : Setting → CRB3_TLV
  | int8 cVal => ⟨1, .i8 cVal⟩
  | int16 sVal => ⟨2, .i16 sVal⟩
  | int32 iVal => ⟨4, .i32 iVal⟩
  | int64 lVal => ⟨8, .i64 lVal⟩
  | string pStr => ⟨stringLen pStr, .str ((pStr ++ [0]).take (stringLen pStr).toNat)⟩
  | octet pOctet => ⟨UInt16.ofNat pOctet.length, .oct pOctet⟩

end Setting

theorem call_eq (param : CRB3Param) (index : Nat) {setting : Setting} (valid : setting.Valid) :
    param.call index setting = param.set index setting.slot := by
  cases setting with
  | octet pOctet => exact if_pos valid
  | _ => rfl

def fill (param : CRB3Param) (call : Nat × Setting) : CRB3Param := param.call call.1 call.2

/-- A table of `paramCnt` slots after calls on its slots. -/
def build (paramCnt : Nat) (calls : List (Nat × Setting)) : CRB3Param :=
  calls.foldl fill (new paramCnt)

/-- Writing the table at `tlvBuf` and reading it back gives every slot its type, its length and
the value that was set. -/
def RoundTrips (htonl_64 ntohl_64 : Int64 → Int64) (memory : Nat → Byte) (tlvBuf paramCnt : Nat)
    (calls : List (Nat × Setting)) : Prop :=
  let param := build paramCnt calls
  let decoded := (fetch ntohl_64 paramCnt param.getTLVLength
    (param.outputTLV htonl_64 memory tlvBuf) tlvBuf).value
  ∀ index setting, (index, setting) ∈ calls →
    ∃ sent got, param.paramTbl[index]? = some sent ∧ decoded.paramTbl[index]? = some got ∧
      got.type = sent.type ∧ got.len = sent.len ∧ setting.Agrees got.value

/-! ## Slots whose length is that of their value -/

/-- The field `Len` is the byte size of the value, which is not null. -/
def Sound (tlv : CRB3_TLV) : Prop :=
  match tlv.value with
  | .null => False
  | .i8 _ => tlv.len = 1
  | .i16 _ => tlv.len = 2
  | .i32 _ => tlv.len = 4
  | .i64 _ => tlv.len = 8
  | .str block => block.length = tlv.len.toNat
  | .oct block => block.length = tlv.len.toNat

/-- The field `Len` is the number of bytes which the value takes; a null slot has none. -/
def Sized (tlv : CRB3_TLV) : Prop := Sound tlv ∨ tlv = .zero

theorem stringLen_toNat (pStr : List Byte) :
    (stringLen pStr).toNat = (pStr.length + 1) % 65536 := by
  rw [stringLen, UInt16.toNat_add, UInt16.toNat_ofNat']
  exact Nat.mod_add_mod _ _ _

theorem Sound.type_ne {tlv : CRB3_TLV} (sound : Sound tlv) : tlv.type ≠ CRB3P_TYPE_NULL := by
  obtain ⟨len, value⟩ := tlv
  cases value with
  | null => cases sound
  | _ =>
      simp only [CRB3_TLV.type, CRB3_VALUE.type]
      decide

theorem Setting.sound_string (pStr : List Byte) : Sound (Setting.string pStr).slot := by
  have len_le : (stringLen pStr).toNat ≤ pStr.length + 1 := by
    rw [stringLen_toNat]
    exact Nat.mod_le _ _
  simp [Sound, Setting.slot, Nat.min_eq_left len_le]

theorem Setting.sound_slot {setting : Setting} (valid : setting.Valid) : Sound setting.slot := by
  cases setting with
  | string pStr => exact sound_string pStr
  | octet pOctet =>
      obtain ⟨-, fits⟩ := valid
      simp only [Sound, Setting.slot, UInt16.toNat_ofNat']
      omega
  | _ => rfl

/-- The bytes of a slot. -/
def slotBytes (htonl_64 : Int64 → Int64) (tlv : CRB3_TLV) : List Byte :=
  bigEndian 2 tlv.type.toNat ++ (bigEndian 2 tlv.len.toNat ++ valueBytes htonl_64 tlv.len tlv.value)

variable {htonl_64 ntohl_64 : Int64 → Int64}

theorem valueBytes_length {tlv : CRB3_TLV} (sized : Sized tlv) :
    (valueBytes htonl_64 tlv.len tlv.value).length = tlv.len.toNat := by
  rcases sized with sound | rfl
  swap
  · rfl
  obtain ⟨len, value⟩ := tlv
  cases value with
  | null => cases sound
  | str block => exact List.length_take_of_le (Nat.le_of_eq (Eq.symm sound))
  | oct block => exact List.length_take_of_le (Nat.le_of_eq (Eq.symm sound))
  | _ =>
      obtain rfl := sound
      simp [valueBytes]

theorem slotBytes_length {tlv : CRB3_TLV} (sized : Sized tlv) :
    (slotBytes htonl_64 tlv).length = 4 + tlv.len.toNat := by
  rw [slotBytes, List.length_append, List.length_append, valueBytes_length sized]
  simp
  omega

theorem submit_submit (first second : List Byte) (out : Output) :
    submit second (submit first out) = submit (first ++ second) out := by
  simp only [submit, move_append, List.length_append, Nat.add_assoc]

theorem outputSlot_eq {tlv : CRB3_TLV} (sized : Sized tlv) (out : Output) :
    outputSlot htonl_64 out tlv = submit (slotBytes htonl_64 tlv) out := by
  rw [slotBytes, ← submit_submit, ← submit_submit]
  rcases sized with sound | rfl
  · obtain ⟨len, value⟩ := tlv
    cases value with
    | null => cases sound
    | _ => rfl
  · simp [outputSlot, CRB3_TLV.zero, valueBytes, submit, move_nil]

/-- Slots are written one behind the other. -/
theorem foldl_outputSlot {table : List CRB3_TLV} (sized : ∀ tlv ∈ table, Sized tlv) (out : Output) :
    table.foldl (outputSlot htonl_64) out = submit (table.flatMap (slotBytes htonl_64)) out := by
  induction table generalizing out with
  | nil => simp [submit, move_nil]
  | cons tlv table induction =>
      rw [List.foldl_cons, outputSlot_eq (sized tlv List.mem_cons_self),
        induction fun other member => sized other (List.mem_cons_of_mem _ member),
        submit_submit, List.flatMap_cons]

theorem outputTLV_eq {param : CRB3Param} (sized : ∀ tlv ∈ param.paramTbl, Sized tlv)
    (memory : Nat → Byte) (tlvBuf : Nat) :
    param.outputTLV htonl_64 memory tlvBuf =
      move (param.paramTbl.flatMap (slotBytes htonl_64)) memory tlvBuf := by
  rw [outputTLV, foldl_outputSlot sized]
  rfl

/-! ## Reading a slot back -/

/-- What the constructor makes of a slot: a string gets one more terminator. -/
def received (tlv : CRB3_TLV) : CRB3_TLV :=
  match tlv.value with
  | .str block => ⟨tlv.len, .str (block ++ [0])⟩
  | value => ⟨tlv.len, value⟩

variable {memory : Nat → Byte} {ptr : Nat}

theorem fetchInt16_yields (val : UInt16)
    (stored : cells memory ptr 2 = bigEndian 2 val.toNat) :
    fetchInt16.Yields memory ptr (bigEndian 2 val.toNat) val := by
  have taken : (Fetch.take 2).Yields memory ptr (bigEndian 2 val.toNat) (bigEndian 2 val.toNat) :=
    ⟨stored, by simp⟩
  have both := taken.map fun bytes => UInt16.ofNat (ofBigEndian bytes)
  have bound : val.toNat < 256 ^ 2 := val.toNat_lt
  rwa [ofBigEndian_bigEndian, Nat.mod_eq_of_lt bound, UInt16.ofNat_toNat] at both

theorem fetchInt32_yields (val : UInt32)
    (stored : cells memory ptr 4 = bigEndian 4 val.toNat) :
    fetchInt32.Yields memory ptr (bigEndian 4 val.toNat) val := by
  have taken : (Fetch.take 4).Yields memory ptr (bigEndian 4 val.toNat) (bigEndian 4 val.toNat) :=
    ⟨stored, by simp⟩
  have both := taken.map fun bytes => UInt32.ofNat (ofBigEndian bytes)
  have bound : val.toNat < 256 ^ 4 := val.toNat_lt
  rwa [ofBigEndian_bigEndian, Nat.mod_eq_of_lt bound, UInt32.ofNat_toNat] at both

theorem fetchInt64_yields (inverse : ∀ val, ntohl_64 (htonl_64 val) = val) (val : Int64)
    (stored : cells memory ptr 8 = littleEndian 8 (htonl_64 val).toUInt64.toNat) :
    (fetchInt64 ntohl_64).Yields memory ptr (littleEndian 8 (htonl_64 val).toUInt64.toNat) val := by
  have taken : (Fetch.take 8).Yields memory ptr (littleEndian 8 (htonl_64 val).toUInt64.toNat)
      (littleEndian 8 (htonl_64 val).toUInt64.toNat) := ⟨stored, by simp⟩
  have both := taken.map fun bytes => ntohl_64 (UInt64.ofNat (ofLittleEndian bytes)).toInt64
  have bound : (htonl_64 val).toUInt64.toNat < 256 ^ 8 := (htonl_64 val).toUInt64.toNat_lt
  rwa [ofLittleEndian_littleEndian, Nat.mod_eq_of_lt bound, UInt64.ofNat_toNat,
    Int64.toInt64_toUInt64, inverse] at both

theorem fetchValue_yields (inverse : ∀ val, ntohl_64 (htonl_64 val) = val) {tlv : CRB3_TLV}
    (sound : Sound tlv)
    (stored : cells memory ptr tlv.len.toNat = valueBytes htonl_64 tlv.len tlv.value) :
    (fetchValue ntohl_64 tlv.type tlv.len).Yields memory ptr
      (valueBytes htonl_64 tlv.len tlv.value) (received tlv).value := by
  obtain ⟨len, value⟩ := tlv
  cases value with
  | null => cases sound
  | i8 val =>
      obtain rfl := sound
      have taken : (Fetch.take 1).Yields memory ptr [val.toUInt8] [val.toUInt8] := ⟨stored, rfl⟩
      have both := taken.map fun bytes => CRB3_VALUE.i8 (UInt8.ofNat (ofBigEndian bytes)).toInt8
      rwa [show (UInt8.ofNat (ofBigEndian [val.toUInt8])).toInt8 = val by
        simp [ofBigEndian, ofLittleEndian]] at both
  | i16 val =>
      obtain rfl := sound
      have both := (fetchInt16_yields val.toUInt16 stored).map fun val => CRB3_VALUE.i16 val.toInt16
      rwa [Int16.toInt16_toUInt16] at both
  | i32 val =>
      obtain rfl := sound
      have both := (fetchInt32_yields val.toUInt32 stored).map fun val => CRB3_VALUE.i32 val.toInt32
      rwa [Int32.toInt32_toUInt32] at both
  | i64 val =>
      obtain rfl := sound
      exact (fetchInt64_yields inverse val stored).map CRB3_VALUE.i64
  | str block =>
      have whole : block.take len.toNat = block := List.take_of_length_le (Nat.le_of_eq sound)
      rw [valueBytes, whole] at stored ⊢
      have taken : (Fetch.take len.toNat).Yields memory ptr block block :=
        ⟨stored, congrArg _ (Eq.symm sound)⟩
      exact taken.map fun bytes => CRB3_VALUE.str (bytes ++ [0])
  | oct block =>
      have whole : block.take len.toNat = block := List.take_of_length_le (Nat.le_of_eq sound)
      rw [valueBytes, whole] at stored ⊢
      have taken : (Fetch.take len.toNat).Yields memory ptr block block :=
        ⟨stored, congrArg _ (Eq.symm sound)⟩
      exact taken.map CRB3_VALUE.oct

/-- The constructor reads back a slot which stands at its pointer. -/
theorem fetchSlot_yields (inverse : ∀ val, ntohl_64 (htonl_64 val) = val) {tlv : CRB3_TLV}
    (sound : Sound tlv)
    (stored : cells memory ptr (4 + tlv.len.toNat) = slotBytes htonl_64 tlv) :
    (fetchSlot ntohl_64).Yields memory ptr (slotBytes htonl_64 tlv) (received tlv) := by
  rw [slotBytes, show 4 + tlv.len.toNat = 2 + (2 + tlv.len.toNat) by omega, cells_add,
    cells_add] at stored
  obtain ⟨typeStored, stored⟩ := List.append_inj stored (by simp)
  obtain ⟨lenStored, valueStored⟩ := List.append_inj stored (by simp)
  have value := (fetchValue_yields inverse sound valueStored).map fun value =>
    (⟨tlv.len, value⟩ : CRB3_TLV)
  have slot : (⟨tlv.len, (received tlv).value⟩ : CRB3_TLV) = received tlv := by
    unfold received
    split <;> rfl
  rw [slot] at value
  refine (fetchInt16_yields tlv.type typeStored).bind ?_
  rw [bigEndian_length]
  refine (fetchInt16_yields tlv.len lenStored).bind ?_
  rw [bigEndian_length]
  exact value

/-! ## Reading a table back -/

/-- The bytes that the slots of a table need. -/
def tableSize (table : List CRB3_TLV) : Nat := (table.map fun tlv => 4 + tlv.len.toNat).sum

theorem flatMap_slotBytes_length {table : List CRB3_TLV} (sized : ∀ tlv ∈ table, Sized tlv) :
    (table.flatMap (slotBytes htonl_64)).length = tableSize table := by
  rw [List.length_flatMap, tableSize]
  exact congrArg List.sum (List.map_congr_left fun tlv member => slotBytes_length (sized tlv member))

/-- A slot is read back if its head lies before the end of the buffer, and is left empty
otherwise. -/
theorem fetchSlots_getElem (inverse : ∀ val, ntohl_64 (htonl_64 val) = val) (stop : Int)
    {table : List CRB3_TLV} (sound : ∀ tlv ∈ table, Sound tlv)
    (stored : cells memory ptr (tableSize table) = table.flatMap (slotBytes htonl_64))
    {index : Nat} {tlv : CRB3_TLV} (found : table[index]? = some tlv) :
    (fetchSlots ntohl_64 stop table.length memory ptr).value[index]? =
      some (if (ptr : Int) + tableSize (table.take index) + 4 ≤ stop then received tlv
        else .zero) := by
  induction table generalizing ptr index with
  | nil => cases found
  | cons first table induction =>
      have soundFirst := sound first List.mem_cons_self
      have size_eq : tableSize (first :: table) = (4 + first.len.toNat) + tableSize table := rfl
      rw [size_eq, cells_add, List.flatMap_cons] at stored
      obtain ⟨storedFirst, storedRest⟩ := List.append_inj stored
        (by rw [cells_length, slotBytes_length (.inl soundFirst)])
      obtain ⟨value_eq, ptr_eq⟩ := fetchSlot_yields inverse soundFirst storedFirst
      rw [slotBytes_length (.inl soundFirst)] at ptr_eq
      rw [List.length_cons, fetchSlots, Fetch.value_bind, Fetch.value_position, Fetch.ptr_position]
      by_cases room : (ptr : Int) + 4 ≤ stop
      · rw [if_pos room]
        simp only [Fetch.value_bind, Fetch.value_pure, value_eq, ptr_eq]
        cases index with
        | zero =>
            obtain rfl := Option.some.inj found
            simp [tableSize, room]
        | succ index =>
            have rest := induction (fun other member => sound other (List.mem_cons_of_mem _ member))
              storedRest found
            have prefix_eq : ((ptr + (4 + first.len.toNat) : Nat) : Int) +
                tableSize (table.take index) =
                  ptr + tableSize ((first :: table).take (index + 1)) := by
              simp [tableSize]
              omega
            rw [List.getElem?_cons_succ, rest, prefix_eq]
      · rw [if_neg room, if_neg (by omega)]
        have inside : index < table.length + 1 := by
          simpa using (List.getElem?_eq_some_iff.mp found).1
        simp [inside]

theorem getTLVLength_eq {param : CRB3Param} (sized : ∀ tlv ∈ param.paramTbl, Sized tlv) :
    param.getTLVLength = Int32.ofNat (tableSize param.paramTbl) := by
  obtain ⟨table⟩ := param
  have counted : ∀ start : Nat, table.foldl
      (fun len tlv =>
        if tlv.type ≠ CRB3P_TYPE_NULL then len + (4 + Int32.ofNat tlv.len.toNat) else len + 4)
      (Int32.ofNat start) = Int32.ofNat (start + tableSize table) := by
    induction table with
    | nil =>
        intro start
        rfl
    | cons tlv table induction =>
        intro start
        have turn : (if tlv.type ≠ CRB3P_TYPE_NULL then
            Int32.ofNat start + (4 + Int32.ofNat tlv.len.toNat) else Int32.ofNat start + 4) =
            Int32.ofNat (start + (4 + tlv.len.toNat)) := by
          rw [Int32.ofNat_add, Int32.ofNat_add]
          rcases sized tlv List.mem_cons_self with sound | rfl
          · rw [if_pos sound.type_ne]
            rfl
          · simp [CRB3_TLV.zero, CRB3_TLV.type, CRB3_VALUE.type]
        have size_eq : start + tableSize (tlv :: table) =
            (start + (4 + tlv.len.toNat)) + tableSize table := (Nat.add_assoc ..).symm
        rw [List.foldl_cons, turn, size_eq,
          ← induction fun other member => sized other (List.mem_cons_of_mem _ member)]
  simpa [getTLVLength] using counted 0

/-! ## The round trip -/

theorem Setting.agrees_received {setting : Setting} (valid : setting.Valid) :
    setting.Agrees (received setting.slot).value ↔ setting.Fits := by
  cases setting with
  | string pStr =>
      have len_eq := stringLen_toNat pStr
      change (∃ block, CRB3_VALUE.str _ = .str block ∧ cString block = pStr) ↔
        pStr.length + 1 ≤ 0xffff
      constructor
      · rintro ⟨block, block_eq, string_eq⟩
        obtain rfl := CRB3_VALUE.str.inj block_eq
        -- the terminator added by the constructor ends the string at the latest
        have short : (cString ((pStr ++ [0]).take (stringLen pStr).toNat ++ [0])).length ≤
            ((pStr ++ [0]).take (stringLen pStr).toNat).length := by
          rw [cString, List.takeWhile_append]
          split
          · simp
          · exact (List.takeWhile_sublist _).length_le
        rw [string_eq, List.length_take] at short
        omega
      · intro fits
        rw [len_eq, Nat.mod_eq_of_lt (by omega), List.take_of_length_le (by simp)]
        refine ⟨_, rfl, ?_⟩
        rw [cString, List.append_assoc, List.takeWhile_append_of_pos]
        · simp
        · intro byte member
          simpa using ne_of_mem_of_not_mem member valid
  | octet pOctet => exact ⟨fun _ => valid.2, fun _ => rfl⟩
  | _ => exact ⟨fun _ => by simp [Fits, size], fun _ => rfl⟩

theorem Setting.slot_len {setting : Setting} (fits : setting.Fits) :
    setting.slot.len.toNat = setting.size := by
  cases setting with
  | string pStr =>
      change pStr.length + 1 ≤ 0xffff at fits
      change (stringLen pStr).toNat = pStr.length + 1
      rw [stringLen_toNat, Nat.mod_eq_of_lt (by omega)]
  | octet pOctet =>
      change pOctet.length ≤ 0xffff at fits
      exact UInt16.toNat_ofNat_of_lt' (by change _ < 65536; omega)
  | _ => rfl

theorem Setting.not_agrees_zero (setting : Setting) :
    ¬ setting.Agrees CRB3_TLV.zero.value := by
  cases setting with
  | string pStr =>
      rintro ⟨block, block_eq, -⟩
      cases block_eq
  | _ =>
      intro agrees
      cases agrees

@[simp] theorem received_type (tlv : CRB3_TLV) : (received tlv).type = tlv.type := by
  obtain ⟨len, value⟩ := tlv
  cases value <;> rfl

@[simp] theorem received_len (tlv : CRB3_TLV) : (received tlv).len = tlv.len := by
  obtain ⟨len, value⟩ := tlv
  cases value <;> rfl

/-- Each of the calls on different slots of a table shows in its slot. -/
theorem foldl_call (param : CRB3Param) {calls : List (Nat × Setting)}
    (once : (calls.map Prod.fst).Nodup) (valid : ∀ call ∈ calls, call.2.Valid)
    (inside : ∀ call ∈ calls, call.1 < param.paramTbl.length) :
    (calls.foldl fill param).paramTbl.length = param.paramTbl.length ∧
      (∀ call ∈ calls, (calls.foldl fill param).paramTbl[call.1]? = some call.2.slot) ∧
      ∀ index ∉ calls.map Prod.fst,
        (calls.foldl fill param).paramTbl[index]? = param.paramTbl[index]? := by
  induction calls generalizing param with
  | nil => simp
  | cons call calls induction =>
      obtain ⟨index, setting⟩ := call
      simp only [List.map_cons, List.nodup_cons, List.forall_mem_cons] at once valid inside
      rw [List.foldl_cons, fill, call_eq param index valid.1]
      obtain ⟨length_eq, stored, others⟩ := induction (param.set index setting.slot) once.2 valid.2
        (by simpa [set] using inside.2)
      refine ⟨by simpa [set] using length_eq, ?_, ?_⟩
      · rw [List.forall_mem_cons]
        refine ⟨?_, stored⟩
        rw [others index once.1]
        exact List.getElem?_set_self inside.1
      · intro other absent
        simp only [List.map_cons, List.mem_cons, not_or] at absent
        rw [others other absent.2]
        simp [set, Ne.symm absent.1]

/-- The bytes which the calls ask for. -/
def encodedLength (calls : List (Nat × Setting)) : Nat :=
  (calls.map fun call => 4 + call.2.size).sum

/-- The table after a call on each of its slots. -/
structure Filled (paramCnt : Nat) (calls : List (Nat × Setting)) : Prop where
  each : (calls.map Prod.fst).Perm (List.range paramCnt)
  valid : ∀ call ∈ calls, call.2.Valid

namespace Filled

variable {paramCnt : Nat} {calls : List (Nat × Setting)}

theorem build_spec (filled : Filled paramCnt calls) :
    (build paramCnt calls).paramTbl.length = paramCnt ∧
      ∀ call ∈ calls, (build paramCnt calls).paramTbl[call.1]? = some call.2.slot := by
  have once : (calls.map Prod.fst).Nodup := filled.each.nodup_iff.mpr List.nodup_range
  have inside : ∀ call ∈ calls, call.1 < (new paramCnt).paramTbl.length := by
    intro call member
    have := filled.each.mem_iff.mp (List.mem_map_of_mem member)
    simpa [new] using this
  obtain ⟨length_eq, stored, -⟩ := foldl_call (new paramCnt) once filled.valid inside
  exact ⟨length_eq.trans (by simp [new]), stored⟩

theorem perm (filled : Filled paramCnt calls) :
    (calls.map fun call => call.2.slot).Perm (build paramCnt calls).paramTbl := by
  obtain ⟨length_eq, stored⟩ := filled.build_spec
  have slots : (calls.map fun call => some call.2.slot) =
      (calls.map Prod.fst).map fun index => (build paramCnt calls).paramTbl[index]? := by
    rw [List.map_map]
    exact List.map_congr_left fun call member => (stored call member).symm
  have table : (List.range paramCnt).map (fun index => (build paramCnt calls).paramTbl[index]?) =
      (build paramCnt calls).paramTbl.map some := by
    apply List.ext_getElem
    · simp [length_eq]
    · intro index inside inside'
      simp
  have permuted := filled.each.map fun index => (build paramCnt calls).paramTbl[index]?
  rw [← slots, table] at permuted
  have unwrapped := permuted.filterMap id
  simpa [List.filterMap_map, Function.comp_def] using unwrapped

theorem sound (filled : Filled paramCnt calls) :
    ∀ tlv ∈ (build paramCnt calls).paramTbl, Sound tlv := by
  intro tlv member
  obtain ⟨call, called, rfl⟩ := List.mem_map.mp (filled.perm.mem_iff.mpr member)
  exact Setting.sound_slot (filled.valid call called)

theorem sized (filled : Filled paramCnt calls) :
    ∀ tlv ∈ (build paramCnt calls).paramTbl, Sized tlv :=
  fun tlv member => .inl (filled.sound tlv member)

theorem tableSize_eq (filled : Filled paramCnt calls) (fits : ∀ call ∈ calls, call.2.Fits) :
    tableSize (build paramCnt calls).paramTbl = encodedLength calls := by
  rw [tableSize, ← (filled.perm.map _).sum_nat, List.map_map, encodedLength]
  refine congrArg List.sum (List.map_congr_left fun call member => ?_)
  exact congrArg (4 + ·) (Setting.slot_len (fits call member))

section RoundTrip

variable {paramCnt : Nat} {calls : List (Nat × Setting)}

/-- What the constructor reads at a slot on which a call was made. -/
theorem decoded_getElem (inverse : ∀ val, ntohl_64 (htonl_64 val) = val)
    (filled : Filled paramCnt calls) (memory : Nat → Byte) (tlvBuf : Nat) {call : Nat × Setting}
    (called : call ∈ calls) :
    (fetch ntohl_64 paramCnt (build paramCnt calls).getTLVLength
      ((build paramCnt calls).outputTLV htonl_64 memory tlvBuf) tlvBuf).value.paramTbl[call.1]? =
      some (if (tableSize ((build paramCnt calls).paramTbl.take call.1) : Int) + 4 ≤
        (tableSize (build paramCnt calls).paramTbl : Int).bmod Int32.size
        then received call.2.slot else .zero) := by
  obtain ⟨length_eq, stored⟩ := filled.build_spec
  have written := cells_move ((build paramCnt calls).paramTbl.flatMap (slotBytes htonl_64)) memory
    tlvBuf
  rw [← outputTLV_eq filled.sized, flatMap_slotBytes_length filled.sized] at written
  have read := fetchSlots_getElem inverse
    (tlvBuf + (build paramCnt calls).getTLVLength.toInt) filled.sound written (stored call called)
  rw [getTLVLength_eq filled.sized, Int32.toInt_ofNat', length_eq] at read
  simp only [fetch, Fetch.value_bind, Fetch.value_pure, Fetch.value_position, Fetch.ptr_position,
    getTLVLength_eq filled.sized, Int32.toInt_ofNat']
  rw [read]
  simp only [Int.add_assoc, Int.add_le_add_iff_left]

/-- A slot keeps its type, length and value if its length fits and its head is read. -/
theorem roundTrips_iff_read (inverse : ∀ val, ntohl_64 (htonl_64 val) = val)
    (filled : Filled paramCnt calls) (memory : Nat → Byte) (tlvBuf : Nat) :
    RoundTrips htonl_64 ntohl_64 memory tlvBuf paramCnt calls ↔
      ∀ call ∈ calls, call.2.Fits ∧
        (tableSize ((build paramCnt calls).paramTbl.take call.1) : Int) + 4 ≤
          (tableSize (build paramCnt calls).paramTbl : Int).bmod Int32.size := by
  constructor
  · intro trips call called
    obtain ⟨sent, got, -, got_eq, -, -, agrees⟩ := trips call.1 call.2 called
    rw [decoded_getElem inverse filled memory tlvBuf called] at got_eq
    obtain rfl := Option.some.inj got_eq
    split at agrees
    · next read => exact ⟨(Setting.agrees_received (filled.valid call called)).mp agrees, read⟩
    · exact absurd agrees call.2.not_agrees_zero
  · intro reads index setting called
    obtain ⟨fits, read⟩ := reads (index, setting) called
    refine ⟨_, _, filled.build_spec.2 (index, setting) called,
      decoded_getElem inverse filled memory tlvBuf called, ?_⟩
    rw [if_pos read]
    exact ⟨received_type _, received_len _,
      (Setting.agrees_received (filled.valid (index, setting) called)).mpr fits⟩

theorem tableSize_take_lt {table : List CRB3_TLV} {index : Nat} {tlv : CRB3_TLV}
    (found : table[index]? = some tlv) :
    tableSize (table.take index) + (4 + tlv.len.toNat) ≤ tableSize table := by
  obtain ⟨inside, rfl⟩ := List.getElem?_eq_some_iff.mp found
  have whole : table = table.take index ++ (table[index] :: table.drop (index + 1)) := by
    rw [← List.drop_eq_getElem_cons inside, List.take_append_drop]
  conv_rhs => rw [whole]
  simp only [tableSize, List.map_append, List.map_cons, List.sum_append, List.sum_cons]
  omega

theorem tableSize_le (table : List CRB3_TLV) : tableSize table ≤ table.length * 65539 := by
  induction table with
  | nil => simp [tableSize]
  | cons tlv table induction =>
      have := tlv.len.toNat_lt
      simp only [tableSize, List.map_cons, List.sum_cons, List.length_cons] at induction ⊢
      omega

/-- A table with a setting in each slot survives the round trip exactly when the length of every
value fits the field `Len` and the length of the whole encoding fits an `int`. -/
theorem roundTrips_iff (inverse : ∀ val, ntohl_64 (htonl_64 val) = val)
    (filled : Filled paramCnt calls) (count_le : paramCnt ≤ 65535) (memory : Nat → Byte)
    (tlvBuf : Nat) :
    RoundTrips htonl_64 ntohl_64 memory tlvBuf paramCnt calls ↔
      (∀ call ∈ calls, call.2.Fits) ∧ encodedLength calls ≤ 2 ^ 31 - 1 := by
  rw [roundTrips_iff_read inverse filled memory tlvBuf]
  obtain ⟨length_eq, stored⟩ := filled.build_spec
  constructor
  · intro reads
    have fits : ∀ call ∈ calls, call.2.Fits := fun call called => (reads call called).1
    refine ⟨fits, ?_⟩
    rw [← filled.tableSize_eq fits]
    by_contra large
    have size_le := tableSize_le (build paramCnt calls).paramTbl
    rw [length_eq] at size_le
    -- the last slot begins behind the end that the wrapped length gives
    have positive : 0 < paramCnt := by
      rcases Nat.eq_zero_or_pos paramCnt with zero | positive
      · omega
      · exact positive
    obtain ⟨call, called, last⟩ := List.mem_map.mp
      (filled.each.mem_iff.mpr (List.mem_range.mpr (Nat.sub_lt positive Nat.zero_lt_one)))
    have read := (reads call called).2
    have found := stored call called
    have size_eq : tableSize (build paramCnt calls).paramTbl =
        tableSize ((build paramCnt calls).paramTbl.take call.1) + (4 + call.2.slot.len.toNat) := by
      obtain ⟨inside, slot_eq⟩ := List.getElem?_eq_some_iff.mp found
      have whole : (build paramCnt calls).paramTbl =
          (build paramCnt calls).paramTbl.take call.1 ++ [call.2.slot] := by
        rw [← slot_eq, List.take_append_getElem inside, List.take_of_length_le (by omega)]
      conv_lhs => rw [whole]
      simp [tableSize]
    have short := call.2.slot.len.toNat_lt
    have wrapped : (tableSize (build paramCnt calls).paramTbl : Int).bmod Int32.size =
        tableSize (build paramCnt calls).paramTbl - 2 ^ 32 := by
      rw [Int.bmod_def, show Int32.size = 4294967296 from rfl]
      split <;> omega
    omega
  · rintro ⟨fits, total⟩ call called
    refine ⟨fits call called, ?_⟩
    have before := tableSize_take_lt (stored call called)
    have size_eq := filled.tableSize_eq fits
    have exact_eq : (tableSize (build paramCnt calls).paramTbl : Int).bmod Int32.size =
        tableSize (build paramCnt calls).paramTbl := by
      have size_val : Int32.size = 2 ^ 32 := rfl
      apply Int.bmod_eq_of_le <;> omega
    omega

/-- `htonl_64` and `ntohl_64` on a little-endian machine. -/
def swap_64 (val : Int64) : Int64 :=
  (UInt64.ofNat (ofBigEndian (littleEndian 8 val.toUInt64.toNat))).toInt64

theorem swap_64_swap_64 (val : Int64) : swap_64 (swap_64 val) = val := by
  have reversed := littleEndian_ofLittleEndian (littleEndian 8 val.toUInt64.toNat).reverse
  have bound := ofBigEndian_lt (littleEndian 8 val.toUInt64.toNat)
  have value : val.toUInt64.toNat < 256 ^ 8 := val.toUInt64.toNat_lt
  simp only [List.length_reverse, littleEndian_length] at reversed bound
  rw [swap_64, swap_64, UInt64.toUInt64_toInt64, UInt64.toNat_ofNat_of_lt' bound, ofBigEndian,
    ofBigEndian, reversed, List.reverse_reverse, ofLittleEndian_littleEndian,
    Nat.mod_eq_of_lt value, UInt64.ofNat_toNat, Int64.toInt64_toUInt64]

/-- A string in the second slot, set before the integer in the first one. -/
def shortCalls : List (Nat × Setting) := [(1, .string [104, 105]), (0, .int64 (-5))]

theorem shortCalls_roundTrip :
    RoundTrips swap_64 swap_64 (fun _ => 0) 0 2 shortCalls := by
  have filled : Filled 2 shortCalls :=
    ⟨by decide, by simp [shortCalls, Setting.Valid]⟩
  exact (roundTrips_iff swap_64_swap_64 filled (by decide) (fun _ => 0) 0).mpr
    ⟨by simp [shortCalls, Setting.Fits, Setting.size], by decide⟩

/-- A string that fills the field `Len` without its terminator is not read back. -/
theorem not_roundTrips_string {pStr : List Byte} (filled : Filled 1 [(0, .string pStr)])
    (long : 65535 ≤ pStr.length) :
    ¬ RoundTrips swap_64 swap_64 (fun _ => 0) 0 1 [(0, .string pStr)] := by
  intro trips
  obtain ⟨fits, -⟩ :=
    (roundTrips_iff_read swap_64_swap_64 filled _ _).mp trips _ List.mem_cons_self
  have short : pStr.length + 1 ≤ 65535 := fits
  omega

/-- A string of 65535 characters, whose length with the terminator does not fit 16 bits. -/
def longStringCalls : List (Nat × Setting) := [(0, .string (List.replicate 65535 97))]

theorem longStringCalls_lost :
    Filled 1 longStringCalls ∧ ¬ RoundTrips swap_64 swap_64 (fun _ => 0) 0 1 longStringCalls := by
  have filled : Filled 1 longStringCalls := by
    refine ⟨List.Perm.refl _, fun call called => ?_⟩
    obtain rfl := List.mem_singleton.mp called
    intro zero
    exact absurd (List.eq_of_mem_replicate zero) (by decide)
  exact ⟨filled, not_roundTrips_string filled (Nat.le_of_eq List.length_replicate.symm)⟩

end RoundTrip

end Filled

end CRB3Param

end CommonLib
