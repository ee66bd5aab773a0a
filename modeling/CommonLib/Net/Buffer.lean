import Mathlib.Algebra.Group.Nat.Defs
import CommonLib.Hlib.CirBuffer
import CommonLib.Library.Execution

/-!
# The byte buffer of `buffer.c`

The readable bytes lie between two indices into a block that grows.  `ensure_space` makes room
behind them: the room is there, or the bytes are moved to the front, or the block is extended.
-/

namespace CommonLib

open Execution

/-- `buffer_t`. -/
structure Buffer where
  data : Nat → Byte
  len : UInt32
  readIndex : UInt32
  writeIndex : UInt32
  /-- A copy ran over the end of the block. -/
  overrun : Bool

/-- Bytes whose number is an `unsigned`. -/
abbrev Chunk := { bytes : List Byte // bytes.length < 2 ^ 32 }

def Chunk.size (chunk : Chunk) : UInt32 := UInt32.ofNat chunk.1.length

namespace Buffer

/-! ## The operations -/

/-- `buffer_new`, with the memory that it asks for. -/
def bufferNew (size : UInt32) : Option Buffer :=
  if size = 0 then none
  else some { data := fun _ => 0, len := size, readIndex := 0, writeIndex := 0, overrun := false }

/-- `ensure_space`; `memoryLeft` is whether `realloc` succeeds, which is asserted. -/
def ensureSpace (buffer : Buffer) (size : UInt32) (memoryLeft : Bool) : Option Buffer :=
  if buffer.len - buffer.writeIndex ≥ size then some buffer
  else if buffer.len - (buffer.writeIndex - buffer.readIndex) > size then
    let readable := buffer.writeIndex - buffer.readIndex
    let moved := cells buffer.data buffer.readIndex.toNat readable.toNat
    some { buffer with data := move moved buffer.data 0, writeIndex := readable, readIndex := 0 }
  else
    let expand := ((size + 1023) >>> 10) <<< 10
    if memoryLeft then some { buffer with len := buffer.len + expand } else none

/-- `memcpy` behind the readable bytes. -/
def memcpy (buffer : Buffer) (bytes : List Byte) : Buffer :=
  { buffer with
    data := move bytes buffer.data buffer.writeIndex.toNat
    overrun := buffer.overrun ||
      decide (buffer.len.toNat < buffer.writeIndex.toNat + bytes.length) }

/-- `buffer_append`, which returns 0 in any case. -/
def append (buffer : Buffer) (chunk : Chunk) (memoryLeft : Bool) : Option Buffer :=
  if chunk.size = 0 then some buffer
  else (buffer.ensureSpace chunk.size memoryLeft).map fun buffer =>
    { buffer.memcpy chunk.1 with writeIndex := buffer.writeIndex + chunk.size }

/-- `buffer_readFd`, with the bytes that `readv` returns unless it fails. -/
def readFd (buffer : Buffer) (received : Option (List Byte)) (memoryLeft : Bool) :
    Option (UInt32 × Buffer) :=
  match received with
  | none => some (0, buffer)
  | some bytes =>
      let room := buffer.len - buffer.writeIndex
      let filled := buffer.memcpy (bytes.take room.toNat)
      let n := Int32.ofNat bytes.length
      if n < 0 then some (0, filled)
      else if n.toUInt32 ≤ room then
        some (n.toUInt32, { filled with writeIndex := buffer.writeIndex + n.toUInt32 })
      else
        let extra := bytes.drop room.toNat
        let extraBytes := n.toUInt32 - room
        let chunk : Chunk := ⟨extra.take extraBytes.toNat,
          Nat.lt_of_le_of_lt (List.length_take_le ..) extraBytes.toNat_lt⟩
        ({ filled with writeIndex := buffer.len }.append chunk memoryLeft).map (n.toUInt32, ·)

/-- `buffer_retrieve`, which asserts that the bytes are there. -/
def retrieve (buffer : Buffer) (size : UInt32) : Option Buffer :=
  let readableBytes := buffer.writeIndex - buffer.readIndex
  if size ≤ readableBytes then
    if size < readableBytes then some { buffer with readIndex := buffer.readIndex + size }
    else some { buffer with readIndex := 0, writeIndex := 0 }
  else none

/-- `buffer_retrieveall`. -/
def retrieveAll (buffer : Buffer) : Buffer := { buffer with readIndex := 0, writeIndex := 0 }

/-- The readable bytes. -/
def contents (buffer : Buffer) : List Byte :=
  cells buffer.data buffer.readIndex.toNat (buffer.writeIndex - buffer.readIndex).toNat

end Buffer

/-! ## Runs -/

/-- A buffer with the bytes that were put into it and not taken out. -/
structure Traffic where
  buffer : Buffer
  queue : List Byte

namespace Traffic

inductive Op
  | append (chunk : Chunk) (memoryLeft : Bool)
  | readFd (received : Option (List Byte)) (memoryLeft : Bool)
  | retrieve (size : UInt32)
  | retrieveAll

/-- The bytes that `readv` is offered: the room in the buffer and 4096 others. -/
def offered (buffer : Buffer) : Nat := (buffer.len - buffer.writeIndex).toNat + 4096

def step (traffic : Traffic) : Op → Option Traffic
  | .append chunk memoryLeft =>
      (traffic.buffer.append chunk memoryLeft).map (⟨·, traffic.queue ++ chunk.1⟩)
  | .readFd received memoryLeft =>
      if (received.getD []).length ≤ offered traffic.buffer then
        (traffic.buffer.readFd received memoryLeft).map
          (⟨·.2, traffic.queue ++ received.getD []⟩)
      else none
  | .retrieve size =>
      (traffic.buffer.retrieve size).map (⟨·, traffic.queue.drop size.toNat⟩)
  | .retrieveAll => some ⟨traffic.buffer.retrieveAll, []⟩

/-- The indices are in order, the readable bytes are those put in and not taken out, and no copy has
left the block. -/
structure Faithful (traffic : Traffic) : Prop where
  ordered : traffic.buffer.readIndex ≤ traffic.buffer.writeIndex
  inside : traffic.buffer.writeIndex ≤ traffic.buffer.len
  contents : traffic.buffer.contents = traffic.queue
  within : traffic.buffer.overrun = false

/-- If the block has to grow for `size` more bytes, its new length is an `unsigned`. -/
def GrowthFits (buffer : Buffer) (size : Nat) : Prop :=
  buffer.len.toNat - buffer.writeIndex.toNat < size →
    buffer.len.toNat - (buffer.writeIndex.toNat - buffer.readIndex.toNat) ≤ size →
      buffer.len.toNat + (size + 1023) / 1024 * 1024 < 2 ^ 32

/-- No length overflows: that of the block, or the result of `readv` as an `int`. -/
def Fits (traffic : Traffic) : Op → Prop
  | .append chunk _ => GrowthFits traffic.buffer chunk.1.length
  | .readFd (some bytes) _ =>
      let room := traffic.buffer.len.toNat - traffic.buffer.writeIndex.toNat
      bytes.length < 2 ^ 31 ∧ (room < bytes.length →
        GrowthFits { traffic.buffer with writeIndex := traffic.buffer.len } (bytes.length - room))
  | _ => True

/-! ## Room -/

section Room

variable {buffer grown : Buffer} {queue bytes : List Byte} {size added : UInt32}
  {memoryLeft : Bool}

theorem Faithful.indices (faithful : Faithful ⟨buffer, queue⟩) :
    buffer.readIndex.toNat ≤ buffer.writeIndex.toNat ∧
      buffer.writeIndex.toNat ≤ buffer.len.toNat :=
  ⟨UInt32.le_iff_toNat_le.mp faithful.ordered, UInt32.le_iff_toNat_le.mp faithful.inside⟩

theorem Faithful.room_eq (faithful : Faithful ⟨buffer, queue⟩) :
    (buffer.len - buffer.writeIndex).toNat = buffer.len.toNat - buffer.writeIndex.toNat :=
  UInt32.toNat_sub_of_le _ _ faithful.inside

theorem Faithful.readable_eq (faithful : Faithful ⟨buffer, queue⟩) :
    (buffer.writeIndex - buffer.readIndex).toNat =
      buffer.writeIndex.toNat - buffer.readIndex.toNat :=
  UInt32.toNat_sub_of_le _ _ faithful.ordered

theorem Faithful.cells_eq (faithful : Faithful ⟨buffer, queue⟩) :
    cells buffer.data buffer.readIndex.toNat
      (buffer.writeIndex.toNat - buffer.readIndex.toNat) = queue := by
  rw [← faithful.readable_eq]
  exact faithful.contents

/-- The room that a compaction leaves. -/
theorem Faithful.free_eq (faithful : Faithful ⟨buffer, queue⟩) :
    (buffer.len - (buffer.writeIndex - buffer.readIndex)).toNat =
      buffer.len.toNat - (buffer.writeIndex.toNat - buffer.readIndex.toNat) := by
  obtain ⟨ordered, inside⟩ := faithful.indices
  rw [UInt32.toNat_sub_of_le, faithful.readable_eq]
  rw [UInt32.le_iff_toNat_le, faithful.readable_eq]
  omega

/-- Bytes that have room are put behind the others. -/
theorem Faithful.push (faithful : Faithful ⟨buffer, queue⟩) (added_eq : added.toNat = bytes.length)
    (room : bytes.length ≤ buffer.len.toNat - buffer.writeIndex.toNat) :
    Faithful ⟨{ buffer.memcpy bytes with writeIndex := buffer.writeIndex + added },
      queue ++ bytes⟩ := by
  obtain ⟨ordered, inside⟩ := faithful.indices
  have len_lt := buffer.len.toNat_lt
  have write_eq : (buffer.writeIndex + added).toNat = buffer.writeIndex.toNat + bytes.length := by
    rw [UInt32.toNat_add, added_eq, Nat.mod_eq_of_lt (by omega)]
  have later : buffer.readIndex ≤ buffer.writeIndex + added := by
    rw [UInt32.le_iff_toNat_le, write_eq]
    omega
  refine ⟨later, ?_, ?_, ?_⟩
  · rw [UInt32.le_iff_toNat_le]
    change (buffer.writeIndex + added).toNat ≤ buffer.len.toNat
    omega
  · have readable_eq : (buffer.writeIndex + added - buffer.readIndex).toNat =
        buffer.writeIndex.toNat - buffer.readIndex.toNat + bytes.length := by
      rw [UInt32.toNat_sub_of_le _ _ later, write_eq]
      omega
    have old : cells (move bytes buffer.data buffer.writeIndex.toNat) buffer.readIndex.toNat
        (buffer.writeIndex.toNat - buffer.readIndex.toNat) = queue := by
      rw [← faithful.cells_eq, cells_congr]
      exact fun offset below => move_outside (.inl (by omega))
    change cells (move bytes buffer.data buffer.writeIndex.toNat) buffer.readIndex.toNat
      (buffer.writeIndex + added - buffer.readIndex).toNat = queue ++ bytes
    rw [readable_eq, cells_add, old, Nat.add_sub_cancel' ordered, cells_move]
  · have within : buffer.overrun = false := faithful.within
    have short : ¬ buffer.len.toNat < buffer.writeIndex.toNat + bytes.length := by omega
    simp only [Buffer.memcpy, within, decide_eq_false short, Bool.or_false]

/-- The rounded size by which the block grows. -/
theorem expand_toNat (size : UInt32) :
    (((size + 1023) >>> 10) <<< 10).toNat = (size.toNat + 1023) % 2 ^ 32 / 1024 * 1024 := by
  have size_lt := size.toNat_lt
  have shift : (10 : UInt32).toNat % 32 = 10 := rfl
  have small : (1023 : UInt32).toNat = 1023 := rfl
  rw [UInt32.toNat_shiftLeft, UInt32.toNat_shiftRight, UInt32.toNat_add, shift, small,
    Nat.shiftLeft_eq, Nat.shiftRight_eq_div_pow, Nat.mod_eq_of_lt]
  omega

/-- The bytes are moved to the front. -/
theorem Faithful.compact (faithful : Faithful ⟨buffer, queue⟩) :
    Faithful ⟨{ buffer with
      data := move (cells buffer.data buffer.readIndex.toNat
        (buffer.writeIndex - buffer.readIndex).toNat) buffer.data 0
      writeIndex := buffer.writeIndex - buffer.readIndex
      readIndex := 0 }, queue⟩ := by
  obtain ⟨ordered, inside⟩ := faithful.indices
  have readable_eq := faithful.readable_eq
  refine ⟨UInt32.le_iff_toNat_le.mpr (Nat.zero_le _), ?_, ?_, faithful.within⟩
  · rw [UInt32.le_iff_toNat_le]
    dsimp only
    omega
  · have moved := cells_move (cells buffer.data buffer.readIndex.toNat
      (buffer.writeIndex - buffer.readIndex).toNat) buffer.data 0
    rw [cells_length] at moved
    change cells _ 0 (buffer.writeIndex - buffer.readIndex - 0).toNat = queue
    rw [UInt32.sub_zero, moved]
    exact faithful.contents

/-- The block is extended. -/
theorem Faithful.extend (faithful : Faithful ⟨buffer, queue⟩) {len : UInt32}
    (longer : buffer.len.toNat ≤ len.toNat) : Faithful ⟨{ buffer with len := len }, queue⟩ := by
  refine ⟨faithful.ordered, ?_, faithful.contents, faithful.within⟩
  exact UInt32.le_iff_toNat_le.mpr (Nat.le_trans faithful.indices.2 longer)

/-- What `ensure_space` leaves: the same bytes, and room for more. -/
theorem Faithful.ensureSpace (faithful : Faithful ⟨buffer, queue⟩)
    (fits : GrowthFits buffer size.toNat)
    (ensured : buffer.ensureSpace size memoryLeft = some grown) :
    Faithful ⟨grown, queue⟩ ∧ size.toNat ≤ grown.len.toNat - grown.writeIndex.toNat := by
  obtain ⟨ordered, inside⟩ := faithful.indices
  unfold Buffer.ensureSpace at ensured
  split at ensured
  · next room =>
      obtain rfl := Option.some.inj ensured
      rw [← faithful.room_eq]
      exact ⟨faithful, UInt32.le_iff_toNat_le.mp room⟩
  next tight =>
  rw [ge_iff_le, UInt32.le_iff_toNat_le, faithful.room_eq] at tight
  split at ensured
  · next room =>
      obtain rfl := Option.some.inj ensured
      rw [gt_iff_lt, UInt32.lt_iff_toNat_lt, faithful.free_eq] at room
      have readable_eq := faithful.readable_eq
      refine ⟨faithful.compact, ?_⟩
      dsimp only
      omega
  · next noRoom =>
      rw [gt_iff_lt, UInt32.lt_iff_toNat_lt, faithful.free_eq] at noRoom
      split at ensured
      case isFalse => cases ensured
      obtain rfl := Option.some.inj ensured
      have grows := fits (by omega) (by omega)
      have len_eq : (buffer.len + ((size + 1023) >>> 10) <<< 10).toNat =
          buffer.len.toNat + (size.toNat + 1023) / 1024 * 1024 := by
        rw [UInt32.toNat_add, expand_toNat]
        omega
      refine ⟨faithful.extend (by omega), ?_⟩
      dsimp only
      omega

/-- A block that does not grow as it should is overrun. -/
theorem Faithful.ensureSpace_short (faithful : Faithful ⟨buffer, queue⟩)
    (overflows : ¬ GrowthFits buffer size.toNat)
    (ensured : buffer.ensureSpace size memoryLeft = some grown) :
    grown.len.toNat < grown.writeIndex.toNat + size.toNat := by
  obtain ⟨ordered, inside⟩ := faithful.indices
  simp only [GrowthFits, Classical.not_imp, Nat.not_lt] at overflows
  obtain ⟨tight, noRoom, large⟩ := overflows
  have notRoom : ¬ buffer.len - buffer.writeIndex ≥ size := by
    rw [ge_iff_le, UInt32.le_iff_toNat_le, faithful.room_eq]
    omega
  have notFree : ¬ buffer.len - (buffer.writeIndex - buffer.readIndex) > size := by
    rw [gt_iff_lt, UInt32.lt_iff_toNat_lt, faithful.free_eq]
    omega
  rw [Buffer.ensureSpace, if_neg notRoom, if_neg notFree] at ensured
  dsimp only at ensured
  split at ensured
  case isFalse => cases ensured
  obtain rfl := Option.some.inj ensured
  have len_lt := buffer.len.toNat_lt
  have size_lt := size.toNat_lt
  dsimp only
  rw [UInt32.toNat_add, expand_toNat]
  omega

theorem Faithful.length_eq (faithful : Faithful ⟨buffer, queue⟩) :
    queue.length = buffer.writeIndex.toNat - buffer.readIndex.toNat := by
  rw [← faithful.cells_eq, cells_length]

end Room

/-! ## The operations -/

section Operations

variable {buffer after : Buffer} {queue bytes : List Byte} {chunk : Chunk} {size : UInt32}
  {memoryLeft : Bool} {result : UInt32 × Buffer}

theorem size_toNat (chunk : Chunk) : chunk.size.toNat = chunk.1.length :=
  UInt32.toNat_ofNat_of_lt' chunk.2

theorem size_eq_zero_iff : chunk.size = 0 ↔ chunk.1 = [] := by
  rw [← UInt32.toNat_inj, size_toNat]
  exact List.length_eq_zero_iff

theorem Faithful.append (faithful : Faithful ⟨buffer, queue⟩)
    (fits : GrowthFits buffer chunk.1.length)
    (appended : buffer.append chunk memoryLeft = some after) :
    Faithful ⟨after, queue ++ chunk.1⟩ := by
  unfold Buffer.append at appended
  split at appended
  · next empty =>
      obtain rfl := Option.some.inj appended
      rw [size_eq_zero_iff.mp empty, List.append_nil]
      exact faithful
  · obtain ⟨grown, ensured, rfl⟩ := Option.map_eq_some_iff.mp appended
    rw [← size_toNat] at fits
    obtain ⟨same, room⟩ := faithful.ensureSpace fits ensured
    exact same.push (size_toNat chunk) (size_toNat chunk ▸ room)

theorem Faithful.append_overruns (faithful : Faithful ⟨buffer, queue⟩)
    (overflows : ¬ GrowthFits buffer chunk.1.length)
    (appended : buffer.append chunk memoryLeft = some after) : after.overrun = true := by
  have some : chunk.size ≠ 0 := by
    intro empty
    apply overflows
    rw [size_eq_zero_iff.mp empty]
    exact fun tight => absurd tight (Nat.not_lt_zero _)
  rw [Buffer.append, if_neg some] at appended
  obtain ⟨grown, ensured, rfl⟩ := Option.map_eq_some_iff.mp appended
  rw [← size_toNat] at overflows
  have short := faithful.ensureSpace_short overflows ensured
  rw [size_toNat] at short
  simp only [Buffer.memcpy, decide_eq_true short, Bool.or_true]

/-- A buffer whose indices start anew. -/
theorem Faithful.cleared (faithful : Faithful ⟨buffer, queue⟩) :
    Faithful ⟨{ buffer with readIndex := 0, writeIndex := 0 }, []⟩ := by
  have nothing : (0 - 0 : UInt32).toNat = 0 := rfl
  refine ⟨UInt32.le_refl _, UInt32.le_iff_toNat_le.mpr (Nat.zero_le _), ?_, faithful.within⟩
  rw [Buffer.contents, nothing, cells_zero]

theorem Faithful.retrieve (faithful : Faithful ⟨buffer, queue⟩)
    (retrieved : buffer.retrieve size = some after) :
    Faithful ⟨after, queue.drop size.toNat⟩ := by
  obtain ⟨ordered, inside⟩ := faithful.indices
  have readable_eq := faithful.readable_eq
  simp only [Buffer.retrieve] at retrieved
  split at retrieved
  case isFalse => cases retrieved
  next enough =>
    rw [UInt32.le_iff_toNat_le, readable_eq] at enough
    split at retrieved
    · next part =>
        obtain rfl := Option.some.inj retrieved
        rw [UInt32.lt_iff_toNat_lt, readable_eq] at part
        have write_lt := buffer.writeIndex.toNat_lt
        have read_eq : (buffer.readIndex + size).toNat = buffer.readIndex.toNat + size.toNat := by
          rw [UInt32.toNat_add, Nat.mod_eq_of_lt (by omega)]
        have later : buffer.readIndex + size ≤ buffer.writeIndex := by
          rw [UInt32.le_iff_toNat_le, read_eq]
          omega
        refine ⟨later, faithful.inside, ?_, faithful.within⟩
        change cells buffer.data (buffer.readIndex + size).toNat
          (buffer.writeIndex - (buffer.readIndex + size)).toNat = queue.drop size.toNat
        rw [UInt32.toNat_sub_of_le _ _ later, read_eq, ← faithful.cells_eq,
          cells_drop _ _ enough, Nat.sub_sub]
    · next all =>
        obtain rfl := Option.some.inj retrieved
        rw [UInt32.lt_iff_toNat_lt, readable_eq] at all
        have empty : queue.drop size.toNat = [] := by
          rw [List.drop_eq_nil_iff, faithful.length_eq]
          omega
        rw [empty]
        exact faithful.cleared

/-- The result of `readv` as an `int`. -/
theorem readv_nonneg_iff (count : Nat) : ¬ Int32.ofNat count < 0 ↔ count % 2 ^ 32 < 2 ^ 31 := by
  have size_eq : Int32.size = 2 ^ 32 := rfl
  rw [Int32.lt_iff_toInt_lt, Int32.toInt_zero, Int32.toInt_ofNat', Int.bmod_def, size_eq]
  omega

theorem readv_toNat (count : Nat) : (Int32.ofNat count).toUInt32.toNat = count % 2 ^ 32 := by
  rw [Int32.toUInt32_ofNat', UInt32.toNat_ofNat']

/-- The bytes that `readv` puts behind the others fill the block. -/
theorem Faithful.full (faithful : Faithful ⟨buffer, queue⟩)
    (more : buffer.len.toNat - buffer.writeIndex.toNat ≤ bytes.length) :
    Faithful ⟨{ buffer.memcpy (bytes.take (buffer.len - buffer.writeIndex).toNat) with
        writeIndex := buffer.len },
      queue ++ bytes.take (buffer.len - buffer.writeIndex).toNat⟩ := by
  have room_eq := faithful.room_eq
  have taken : (bytes.take (buffer.len - buffer.writeIndex).toNat).length =
      buffer.len.toNat - buffer.writeIndex.toNat := by
    rw [List.length_take, room_eq]
    omega
  have pushed := faithful.push (room_eq.trans taken.symm) (Nat.le_of_eq taken)
  have filled : buffer.writeIndex + (buffer.len - buffer.writeIndex) = buffer.len := by
    rw [UInt32.add_comm, UInt32.sub_add_cancel]
  rwa [filled] at pushed

section Received

variable (faithful : Faithful ⟨buffer, queue⟩)
  (received : buffer.readFd (some bytes) memoryLeft = some result)
include faithful received

/-- A result of `readv` that has room. -/
theorem Faithful.readFd_inside (short : bytes.length < 2 ^ 31)
    (room : bytes.length ≤ buffer.len.toNat - buffer.writeIndex.toNat) :
    Faithful ⟨result.2, queue ++ bytes⟩ := by
  have nonneg := (readv_nonneg_iff bytes.length).mpr (by omega)
  have count := readv_toNat bytes.length
  rw [Nat.mod_eq_of_lt (by omega)] at count
  have below : (Int32.ofNat bytes.length).toUInt32 ≤ buffer.len - buffer.writeIndex := by
    rwa [UInt32.le_iff_toNat_le, count, faithful.room_eq]
  simp only [Buffer.readFd, if_neg nonneg, if_pos below, faithful.room_eq,
    List.take_of_length_le room] at received
  obtain rfl := Option.some.inj received
  exact faithful.push count room

/-- A result of `readv` that has no room is appended in part. -/
theorem Faithful.readFd_split (short : bytes.length < 2 ^ 31)
    (tight : buffer.len.toNat - buffer.writeIndex.toNat < bytes.length) :
    ∃ chunk : Chunk, bytes.drop (buffer.len - buffer.writeIndex).toNat = chunk.1 ∧
      { buffer.memcpy (bytes.take (buffer.len - buffer.writeIndex).toNat) with
        writeIndex := buffer.len }.append chunk memoryLeft = some result.2 := by
  have nonneg := (readv_nonneg_iff bytes.length).mpr (by omega)
  have count := readv_toNat bytes.length
  rw [Nat.mod_eq_of_lt (by omega)] at count
  have room_eq := faithful.room_eq
  have above : buffer.len - buffer.writeIndex < (Int32.ofNat bytes.length).toUInt32 := by
    rwa [UInt32.lt_iff_toNat_lt, count, room_eq]
  simp only [Buffer.readFd, if_neg nonneg, if_neg (UInt32.not_le.mpr above)] at received
  obtain ⟨after, appended, rfl⟩ := Option.map_eq_some_iff.mp received
  refine ⟨_, (List.take_of_length_le ?_).symm, appended⟩
  exact Nat.le_of_eq <| by
    rw [List.length_drop, UInt32.toNat_sub_of_le _ _ (UInt32.le_of_lt above), count]

theorem Faithful.readFd (fits : Fits ⟨buffer, queue⟩ (.readFd (some bytes) memoryLeft)) :
    Faithful ⟨result.2, queue ++ bytes⟩ := by
  obtain ⟨short, grows⟩ := fits
  rcases Nat.lt_or_ge (buffer.len.toNat - buffer.writeIndex.toNat) bytes.length with tight | room
  · obtain ⟨chunk, rest, appended⟩ := faithful.readFd_split received short tight
    have extra : chunk.1.length =
        bytes.length - (buffer.len.toNat - buffer.writeIndex.toNat) := by
      rw [← rest, List.length_drop, faithful.room_eq]
    have done := (faithful.full (Nat.le_of_lt tight)).append (extra ▸ grows tight) appended
    rwa [← rest, List.append_assoc, List.take_append_drop] at done
  · exact faithful.readFd_inside received short room

/-- A result of `readv` that is not an `int` loses its bytes. -/
theorem Faithful.readFd_long (long : 2 ^ 31 ≤ bytes.length)
    (offered : bytes.length ≤ offered buffer) : ¬ Faithful ⟨result.2, queue ++ bytes⟩ := by
  intro kept
  obtain ⟨ordered, inside⟩ := faithful.indices
  have before := faithful.length_eq
  have now := kept.length_eq
  have room_eq := faithful.room_eq
  have count := readv_toNat bytes.length
  have len_lt := buffer.len.toNat_lt
  rw [List.length_append] at now
  simp only [Traffic.offered, room_eq] at offered
  simp only [Buffer.readFd] at received
  split at received
  · obtain rfl := Option.some.inj received
    simp only [Buffer.memcpy] at now
    omega
  · next nonneg =>
      rw [readv_nonneg_iff] at nonneg
      split at received
      · next below =>
          obtain rfl := Option.some.inj received
          rw [UInt32.le_iff_toNat_le, count, room_eq] at below
          simp only [Buffer.memcpy, UInt32.toNat_add, count] at now
          omega
      · next above =>
          rw [UInt32.le_iff_toNat_le, count, room_eq] at above
          omega

theorem Faithful.readFd_broken
    (overflows : ¬ Fits ⟨buffer, queue⟩ (.readFd (some bytes) memoryLeft))
    (offered : bytes.length ≤ offered buffer) : ¬ Faithful ⟨result.2, queue ++ bytes⟩ := by
  rcases Nat.lt_or_ge bytes.length (2 ^ 31) with short | long
  · simp only [Fits, not_and, Classical.not_imp] at overflows
    obtain ⟨tight, grows⟩ := overflows short
    obtain ⟨chunk, rest, appended⟩ := faithful.readFd_split received short tight
    have extra : chunk.1.length =
        bytes.length - (buffer.len.toNat - buffer.writeIndex.toNat) := by
      rw [← rest, List.length_drop, faithful.room_eq]
    have overrun := (faithful.full (Nat.le_of_lt tight)).append_overruns (extra ▸ grows) appended
    intro kept
    have within := kept.within
    rw [overrun] at within
    cases within
  · exact faithful.readFd_long received long offered

end Received

end Operations

section Steps

variable {traffic next : Traffic} {op : Op}

theorem Faithful.step (faithful : Faithful traffic) (fits : Fits traffic op)
    (stepped : step traffic op = some next) : Faithful next := by
  cases op with
  | append chunk memoryLeft =>
      obtain ⟨after, appended, rfl⟩ := Option.map_eq_some_iff.mp stepped
      exact faithful.append fits appended
  | readFd received memoryLeft =>
      simp only [Traffic.step] at stepped
      split at stepped
      case isFalse => cases stepped
      obtain ⟨result, readDone, rfl⟩ := Option.map_eq_some_iff.mp stepped
      cases received with
      | none =>
          obtain rfl := Option.some.inj readDone
          rw [Option.getD_none, List.append_nil]
          exact faithful
      | some bytes => exact faithful.readFd readDone fits
  | retrieve size =>
      obtain ⟨after, retrieved, rfl⟩ := Option.map_eq_some_iff.mp stepped
      exact faithful.retrieve retrieved
  | retrieveAll =>
      obtain rfl := Option.some.inj stepped
      exact faithful.cleared

theorem Faithful.not_faithful (faithful : Faithful traffic) (overflows : ¬ Fits traffic op)
    (stepped : Traffic.step traffic op = some next) : ¬ Faithful next := by
  cases op with
  | append chunk memoryLeft =>
      obtain ⟨after, appended, rfl⟩ := Option.map_eq_some_iff.mp stepped
      intro kept
      have within := kept.within
      rw [faithful.append_overruns overflows appended] at within
      cases within
  | readFd received memoryLeft =>
      simp only [Traffic.step] at stepped
      split at stepped
      case isFalse => cases stepped
      next offered =>
        obtain ⟨result, readDone, rfl⟩ := Option.map_eq_some_iff.mp stepped
        cases received with
        | none => exact absurd trivial overflows
        | some bytes => exact faithful.readFd_broken readDone overflows offered
  | _ => exact absurd trivial overflows

end Steps

theorem faithful_bufferNew {size : UInt32} {buffer : Buffer}
    (made : Buffer.bufferNew size = some buffer) : Faithful ⟨buffer, []⟩ := by
  unfold Buffer.bufferNew at made
  split at made
  · cases made
  · obtain rfl := Option.some.inj made
    refine ⟨UInt32.le_refl _, UInt32.le_iff_toNat_le.mpr (Nat.zero_le _), ?_, rfl⟩
    have nothing : (0 - 0 : UInt32).toNat = 0 := rfl
    rw [Buffer.contents, nothing, cells_zero]

/-- Whatever is put into a new buffer and taken out of it, the readable bytes are those put in and
not taken out, and the indices lie in the block, exactly when no length overflows. -/
theorem faithful_iff_fits (size : UInt32) (buffer : Buffer)
    (made : Buffer.bufferNew size = some buffer) (ops : List Op) :
    AllStates step Faithful ⟨buffer, []⟩ ops ↔ AllSteps step Fits ⟨buffer, []⟩ ops :=
  allStates_iff_allSteps Faithful id Faithful.step Faithful.not_faithful
    (faithful_bufferNew made) ops

instance {buffer : Buffer} {size : Nat} : Decidable (GrowthFits buffer size) :=
  inferInstanceAs (Decidable (_ → _ → _))

instance decidableFits (traffic : Traffic) : (op : Op) → Decidable (Fits traffic op)
  | .append _ _ => inferInstanceAs (Decidable (GrowthFits _ _))
  | .readFd (some _) _ => inferInstanceAs (Decidable (_ ∧ (_ → GrowthFits _ _)))
  | .readFd none _ | .retrieve _ | .retrieveAll => isTrue trivial

/-- A block of four bytes that is filled, emptied in part, compacted and extended. -/
def smallOps : List Op :=
  [.append ⟨[1, 2, 3], by decide⟩ true, .retrieve 2, .append ⟨[4, 5], by decide⟩ true,
    .readFd (some [6, 7, 8]) true, .retrieveAll]

def smallBuffer : Buffer :=
  { data := fun _ => 0, len := 4, readIndex := 0, writeIndex := 0, overrun := false }

theorem faithful_iff_fits_small : AllStates step Faithful ⟨smallBuffer, []⟩ smallOps :=
  (faithful_iff_fits 4 smallBuffer rfl smallOps).mpr (by decide)

/-! ## A size that cannot be rounded up -/

/-- The bytes that an operation puts in. -/
def Op.size : Op → Nat
  | .append chunk _ => chunk.1.length
  | .readFd received _ => (received.getD []).length
  | .retrieve _ | .retrieveAll => 0

def totalSize : List Op → Nat
  | [] => 0
  | op :: ops => op.size + totalSize ops

theorem totalSize_append (chunk : Chunk) (memoryLeft : Bool) :
    totalSize [.append chunk memoryLeft] = chunk.1.length := Nat.add_zero _

/-- The smallest number of bytes that, with 1023 more, is no `unsigned`. -/
def hugeChunk : Chunk :=
  ⟨List.replicate (2 ^ 32 - 1023) 0, by rw [List.length_replicate]; omega⟩

theorem hugeChunk_length : hugeChunk.1.length = 2 ^ 32 - 1023 := List.length_replicate

theorem append_completes (buffer : Buffer) (chunk : Chunk) :
    ∃ after, buffer.append chunk true = some after := by
  unfold Buffer.append Buffer.ensureSpace
  split
  · exact ⟨_, rfl⟩
  · split
    · exact ⟨_, rfl⟩
    · split <;> exact ⟨_, rfl⟩

theorem Faithful.append_not_faithful {buffer : Buffer} {queue : List Byte} {chunk : Chunk}
    (faithful : Faithful ⟨buffer, queue⟩) (overflows : ¬ GrowthFits buffer chunk.1.length) :
    ¬ AllStates Traffic.step Faithful ⟨buffer, queue⟩ [.append chunk true] := by
  intro always
  obtain ⟨after, appended⟩ := append_completes buffer chunk
  have stepped : Traffic.step ⟨buffer, queue⟩ (.append chunk true) =
      some ⟨after, queue ++ chunk.1⟩ := Option.map_eq_some_iff.mpr ⟨after, appended, rfl⟩
  have broken : ¬ Fits ⟨buffer, queue⟩ (.append chunk true) := overflows
  exact faithful.not_faithful broken stepped (always.2 _ stepped)

/-- The sizes stay below 2 ^ 32, and the copy leaves a block that has not grown. -/
theorem hugeChunk_not_faithful :
    ¬ ∀ (size : UInt32) (buffer : Buffer) (ops : List Op),
      Buffer.bufferNew size = some buffer → size.toNat + totalSize ops < 2 ^ 32 →
        AllStates step Faithful ⟨buffer, []⟩ ops := by
  intro claimed
  have below : (1 : UInt32).toNat + totalSize [.append hugeChunk true] < 2 ^ 32 := by
    have one : (1 : UInt32).toNat = 1 := rfl
    rw [totalSize_append, hugeChunk_length, one]
    omega
  have always := claimed 1 { smallBuffer with len := 1 } [.append hugeChunk true] rfl below
  have fresh : Buffer.bufferNew 1 = some { smallBuffer with len := 1 } := rfl
  refine (faithful_bufferNew fresh).append_not_faithful ?_ always
  intro fits
  have len_eq : (1 : UInt32).toNat = 1 := rfl
  have index_eq : (0 : UInt32).toNat = 0 := rfl
  rw [hugeChunk_length] at fits
  simp only [GrowthFits, smallBuffer, len_eq, index_eq] at fits
  omega

end Traffic

end CommonLib
