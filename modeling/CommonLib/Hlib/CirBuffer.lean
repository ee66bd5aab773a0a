import CommonLib.Library.Circular
import CommonLib.Library.Execution

/-!
# The circular byte buffer of `hpcb.cpp`

`THCB` is a ring of `m_nBufSize` bytes with separate read and write counters.  Pointers into
`m_pBuffer` are offsets from it; a chunk to write is the list of its bytes, so that the source's
tests for negative lengths have nothing to reject.
-/

namespace CommonLib

abbrev Byte := UInt8

/-- The ring buffer; `readPos` and `writePos` are the pointers `m_pReadPos` and `m_pWritePos`. -/
structure THCB where
  buffer : Nat → Byte
  readPos : Nat
  writePos : Nat
  bufSize : Nat
  readCounter : Nat
  writeCounter : Nat
  validCount : Nat
  bufferCount : Nat

namespace THCB

/-! ## Operations -/

/-- `THCB::SetEmpty`. -/
def setEmpty (ring : THCB) : THCB :=
  { ring with
    validCount := 0
    bufferCount := ring.bufSize
    readPos := 0
    writePos := 0
    readCounter := 0
    writeCounter := 0 }

/-- `THCB::THCB`, on the contents `memory` of the allocated array. -/
def new (size : Nat) (memory : Nat → Byte) : THCB :=
  setEmpty
    { buffer := memory, readPos := 0, writePos := 0, bufSize := size, readCounter := 0,
      writeCounter := 0, validCount := 0, bufferCount := 0 }

/-- `THCB::HeadSafePosInc`. -/
def headSafePosInc (ring : THCB) (step : Int) : Bool × THCB :=
  if step > ring.validCount ∨ step < 0 then (false, ring)
  else
    let step := step.toNat
    let readCounter := ring.readCounter + step
    let readPos := ring.readPos + step
    let wraps := readCounter ≥ ring.bufSize
    (true,
      { ring with
        validCount := ring.validCount - step
        readPos := if wraps then readPos - ring.bufSize else readPos
        readCounter := if wraps then readCounter - ring.bufSize else readCounter
        bufferCount := ring.bufferCount + step })

/-- `THCB::WriteCirBuffer`. -/
def writeCirBuffer (ring : THCB) (data : List Byte) : Bool × THCB :=
  if data.length > ring.bufferCount then (false, ring)
  else
    let i := ring.bufSize - ring.writeCounter
    let (buffer, writeCounter, writePos) :=
      if i ≥ data.length then -- direct copy
        (move data ring.buffer ring.writePos, ring.writeCounter + data.length,
          ring.writePos + data.length)
      else -- copy twice
        let j := data.length - i
        (move (data.drop i) (move (data.take i) ring.buffer ring.writePos) 0, j, j)
    let atEnd := writeCounter = ring.bufSize
    (true,
      { ring with
        buffer
        writeCounter := if atEnd then 0 else writeCounter
        writePos := if atEnd then 0 else writePos
        validCount := ring.validCount + data.length
        bufferCount := ring.bufferCount - data.length })

/-- `THCB::GetBufferData`: the bytes copied out, or `none` when nothing is copied. -/
def getBufferData (ring : THCB) (len pos : Nat) : Option (List Byte) :=
  let i := pos + len
  if i > ring.validCount then none
  else
    let j := pos + ring.readCounter
    let k := i + ring.readCounter
    let m := j % ring.bufSize
    if decide (j ≥ ring.bufSize) = decide (k > ring.bufSize) then -- copy once
      some (cells ring.buffer m len)
    else -- copy twice
      let l := ring.bufSize - m
      some (cells ring.buffer m l ++ cells ring.buffer 0 (len - l))

@[simp] theorem headSafePosInc_bufSize (ring : THCB) (step : Int) :
    (ring.headSafePosInc step).2.bufSize = ring.bufSize := by
  unfold headSafePosInc
  split <;> rfl

@[simp] theorem writeCirBuffer_bufSize (ring : THCB) (data : List Byte) :
    (ring.writeCirBuffer data).2.bufSize = ring.bufSize := by
  unfold writeCirBuffer
  split <;> rfl

/-! ## The ring as a byte queue -/

/-- The ring holds the bytes of `queue`, oldest first. -/
structure Holds (ring : THCB) (queue : List Byte) : Prop where
  valid : ring.validCount = queue.length
  room : ring.bufferCount + queue.length = ring.bufSize
  read_lt : ring.readCounter < ring.bufSize
  write_eq : ring.writeCounter = wrap ring.bufSize (ring.readCounter + queue.length)
  readPos_eq : ring.readPos = ring.readCounter
  writePos_eq : ring.writePos = ring.writeCounter
  window : Window ring.buffer ring.bufSize ring.readCounter queue

variable {ring : THCB} {queue : List Byte}

theorem Holds.length_le (holds : ring.Holds queue) : queue.length ≤ ring.bufSize := by
  have := holds.room
  omega

theorem setEmpty_holds (size_pos : 0 < ring.bufSize) : ring.setEmpty.Holds [] where
  valid := rfl
  room := rfl
  read_lt := size_pos
  write_eq := by simp [setEmpty, wrap_of_lt size_pos]
  readPos_eq := rfl
  writePos_eq := rfl
  window := Window.nil

theorem new_holds {size : Nat} (size_pos : 0 < size) (memory : Nat → Byte) :
    (new size memory).Holds [] :=
  setEmpty_holds size_pos

/-- `HeadSafePosInc` within the queue removes that many bytes from its front. -/
theorem Holds.headSafePosInc (holds : ring.Holds queue) {step : Nat}
    (enough : step ≤ queue.length) :
    (ring.headSafePosInc step).1 = true ∧
      (ring.headSafePosInc step).2.Holds (queue.drop step) := by
  have valid := holds.valid
  have room := holds.room
  have read_lt := holds.read_lt
  have inside : ¬ ((step : Int) > ring.validCount ∨ (step : Int) < 0) := by omega
  simp only [THCB.headSafePosInc, if_neg inside, Int.toNat_natCast]
  refine ⟨trivial, ?_, ?_, ?_, ?_, ?_, ?_, ?_⟩
  · simp [valid]
  · simp only [List.length_drop]
    omega
  · dsimp only
    split <;> omega
  · simp only [List.length_drop, holds.write_eq]
    unfold wrap
    split <;> split <;> split <;> omega
  · simp [holds.readPos_eq]
  · exact holds.writePos_eq
  · exact holds.window.drop read_lt holds.length_le enough

/-- `HeadSafePosInc` beyond the queue is refused. -/
theorem Holds.headSafePosInc_refused (holds : ring.Holds queue) {step : Int}
    (outside : step > queue.length ∨ step < 0) : ring.headSafePosInc step = (false, ring) := by
  rw [← holds.valid] at outside
  simp [THCB.headSafePosInc, outside]

/-- `WriteCirBuffer` refuses a chunk which does not fit. -/
theorem Holds.writeCirBuffer_refused (holds : ring.Holds queue) (data : List Byte)
    (full : ring.bufSize < queue.length + data.length) :
    ring.writeCirBuffer data = (false, ring) := by
  have := holds.room
  simp only [THCB.writeCirBuffer]
  rw [if_pos (by omega)]

/-- `WriteCirBuffer` appends a chunk which fits. -/
theorem Holds.writeCirBuffer (holds : ring.Holds queue) {data : List Byte}
    (fits : queue.length + data.length ≤ ring.bufSize) :
    (ring.writeCirBuffer data).1 = true ∧
      (ring.writeCirBuffer data).2.Holds (queue ++ data) := by
  obtain ⟨valid, room, read_lt, write_eq, readPos_eq, writePos_eq, window⟩ := holds
  have write_lt : ring.writeCounter < ring.bufSize := by
    rw [write_eq]
    exact wrap_lt (by omega)
  have notFull : ¬ data.length > ring.bufferCount := by omega
  simp only [THCB.writeCirBuffer, if_neg notFull]
  by_cases straight : ring.bufSize - ring.writeCounter ≥ data.length
  · have window' := window.append_move data fits (by omega)
    rw [← write_eq, ← writePos_eq] at window'
    simp only [if_pos straight, writePos_eq]
    refine ⟨trivial, ?_, ?_, read_lt, ?_, readPos_eq, rfl, writePos_eq ▸ window'⟩
    · simp [valid]
    · simp only [List.length_append]
      omega
    · simp only [List.length_append]
      unfold wrap at write_eq ⊢
      split at write_eq <;> split <;> split <;> omega
  · -- the chunk runs over the end, so the queue does not
    have unwrapped : ring.writeCounter = ring.readCounter + queue.length := by
      unfold wrap at write_eq
      split at write_eq <;> omega
    let i := ring.bufSize - ring.writeCounter
    have take_length : (data.take i).length = i := by
      rw [List.length_take]
      omega
    have first := window.append_move (data.take i) (by omega) (by omega)
    have second := first.append_move (data.drop i)
      (by simp only [List.length_append, List.length_drop, take_length]; omega)
      (by
        rw [List.length_append, take_length, wrap_of_le (by omega), List.length_drop]
        omega)
    rw [← write_eq, List.append_assoc, List.take_append_drop, List.length_append, take_length,
      wrap_of_le (by omega)] at second
    have zero : ring.readCounter + (queue.length + i) - ring.bufSize = 0 := by omega
    rw [zero, ← writePos_eq] at second
    simp only [if_neg straight]
    refine ⟨trivial, ?_, ?_, read_lt, ?_, readPos_eq, rfl, second⟩
    · simp [valid]
    · simp only [List.length_append]
      omega
    · simp only [List.length_append]
      rw [wrap_of_le (by omega), if_neg (by omega)]
      omega

/-- `GetBufferData` within the queue copies out the bytes asked for. -/
theorem Holds.getBufferData (holds : ring.Holds queue) (len pos : Nat) (len_pos : 0 < len)
    (inside : pos + len ≤ queue.length) :
    ring.getBufferData len pos = some ((queue.drop pos).take len) := by
  obtain ⟨valid, room, read_lt, _, _, _, window⟩ := holds
  have notOutside : ¬ pos + len > ring.validCount := by omega
  have m_eq : (pos + ring.readCounter) % ring.bufSize =
      wrap ring.bufSize (ring.readCounter + pos) := by
    rw [Nat.add_comm, wrap_eq_mod (by omega)]
  simp only [THCB.getBufferData, if_neg notOutside, m_eq]
  split
  · next once =>
      simp only [ge_iff_le, gt_iff_lt, decide_eq_decide] at once
      rw [window.cells_eq pos len inside (by omega)]
  · next twice =>
      simp only [ge_iff_le, gt_iff_lt, decide_eq_decide] at twice
      have unwrapped : ring.readCounter + pos < ring.bufSize := by omega
      rw [wrap_of_lt unwrapped]
      let l := ring.bufSize - (ring.readCounter + pos)
      have first := window.cells_eq pos l (by omega) (by omega)
      have second := window.cells_eq (pos + l) (len - l) (by omega) (by omega)
      have zero : ring.readCounter + (pos + l) - ring.bufSize = 0 := by omega
      rw [wrap_of_lt unwrapped] at first
      rw [wrap_of_le (by omega), zero] at second
      rw [first, second, ← List.drop_drop, ← List.take_add]
      congr 2
      omega

/-! ## Histories of calls -/

inductive Op
  | writeCirBuffer (data : List Byte)
  | headSafePosInc (step : Int)
  | setEmpty

/-- One call with its result. -/
def call (ring : THCB) : Op → Bool × THCB
  | .writeCirBuffer data => ring.writeCirBuffer data
  | .headSafePosInc step => ring.headSafePosInc step
  | .setEmpty => (true, ring.setEmpty)

/-- The purpose of the ring: a byte queue of at most `size` bytes. -/
def queueCall (size : Nat) (queue : List Byte) : Op → Bool × List Byte
  | .writeCirBuffer data =>
      if queue.length + data.length ≤ size then (true, queue ++ data) else (false, queue)
  | .headSafePosInc step =>
      if 0 ≤ step ∧ step ≤ queue.length then (true, queue.drop step.toNat) else (false, queue)
  | .setEmpty => (true, [])

/-- One call answers as the queue does, and the ring holds the new queue. -/
theorem Holds.call {size : Nat} (size_pos : 0 < size) (op : Op)
    (holds : ring.Holds queue ∧ ring.bufSize = size) :
    (ring.call op).1 = (queueCall size queue op).1 ∧
      (ring.call op).2.Holds (queueCall size queue op).2 ∧ (ring.call op).2.bufSize = size := by
  obtain ⟨holds, rfl⟩ := holds
  cases op with
  | writeCirBuffer data =>
      simp only [THCB.call, queueCall, writeCirBuffer_bufSize]
      by_cases fits : queue.length + data.length ≤ ring.bufSize
      · obtain ⟨accepted, holds'⟩ := holds.writeCirBuffer fits
        rw [if_pos fits]
        exact ⟨accepted, holds', trivial⟩
      · rw [if_neg fits, holds.writeCirBuffer_refused data (by omega)]
        exact ⟨rfl, holds, trivial⟩
  | headSafePosInc step =>
      simp only [THCB.call, queueCall, headSafePosInc_bufSize]
      by_cases inside : 0 ≤ step ∧ step ≤ queue.length
      · obtain ⟨count, rfl⟩ := Int.eq_ofNat_of_zero_le inside.1
        obtain ⟨accepted, holds'⟩ := holds.headSafePosInc (by omega : count ≤ queue.length)
        rw [if_pos inside]
        exact ⟨accepted, holds', trivial⟩
      · rw [if_neg inside, holds.headSafePosInc_refused (by omega)]
        exact ⟨rfl, holds, trivial⟩
  | setEmpty => exact ⟨rfl, setEmpty_holds size_pos, rfl⟩

/-- A refused call changes nothing. -/
theorem call_refused {op : Op} (refused : (ring.call op).1 = false) : (ring.call op).2 = ring := by
  cases op with
  | writeCirBuffer data =>
      simp only [THCB.call, writeCirBuffer] at refused ⊢
      split at refused
      · rw [if_pos (by assumption)]
      · cases refused
  | headSafePosInc step =>
      simp only [THCB.call, headSafePosInc] at refused ⊢
      split at refused
      · rw [if_pos (by assumption)]
      · cases refused
  | setEmpty => cases refused

def wrapOps : List Op := [.writeCirBuffer [1, 2], .headSafePosInc 1, .writeCirBuffer [3, 4]]

end THCB
end CommonLib
