import CommonLib.Hlib.CirBuffer

/-!
# The virtual buffer of `hvcb.cpp`

`THVCB` keeps the bytes left over from earlier chunks in an inner buffer of its own and borrows the
last chunk as an outer buffer, until `Defrag` moves what is left of it into the inner one.  A read
over both buffers first caches bytes of the outer one behind the inner ones.
-/

namespace CommonLib

/-- A pointer into the inner buffer or into the borrowed chunk. -/
inductive VcbPointer
  | inner (offset : Nat)
  | outer (offset : Nat)
  deriving DecidableEq

/-- A stretch of the inner buffer that was written. -/
structure VcbCopy where
  start : Nat
  length : Nat
  deriving DecidableEq

/-- The copy stays inside an inner buffer of this size. -/
def VcbCopy.Inside (copy : VcbCopy) (size : Nat) : Prop :=
  0 < copy.length → copy.start + copy.length ≤ size

theorem VcbCopy.inside_empty (start size : Nat) : (VcbCopy.mk start 0).Inside size :=
  fun copied => absurd copied (Nat.lt_irrefl 0)

/-- The buffer; `cacheTail` points into the inner buffer, `cacheHead` into the chunk `outer`. -/
structure THVCB where
  inner : Nat → Byte
  outer : List Byte
  bufSize : Nat
  head : VcbPointer
  cacheHead : Nat
  cacheTail : Nat
  smartCache : Nat
  freeCacheSize : Int
  innerValid : Nat
  outerValid : Nat
  validCount : Nat

namespace THVCB

/-- `sizeof(THItemType)`: `Defrag` measures the way to `m_pHead` in pointers. -/
def itemSize : Nat := 8

/-- Advance a pointer; before the start of its buffer there is nothing to point at. -/
def advance (pointer : VcbPointer) (step : Int) : Option VcbPointer :=
  match pointer with
  | .inner offset => if offset + step < 0 then none else some (.inner (offset + step).toNat)
  | .outer offset => if offset + step < 0 then none else some (.outer (offset + step).toNat)

/-- The `len` bytes at a pointer. -/
def bytesAt (vcb : THVCB) (pointer : VcbPointer) (len : Nat) : List Byte :=
  match pointer with
  | .inner offset => cells vcb.inner offset len
  | .outer offset => (vcb.outer.drop offset).take len

/-- `THVCB::SetEmpty`. -/
def setEmpty (vcb : THVCB) : THVCB :=
  { vcb with
    freeCacheSize := vcb.bufSize
    head := .inner 0
    cacheTail := 0
    cacheHead := 0
    outer := []
    innerValid := 0
    outerValid := 0
    smartCache := 0
    validCount := 0 }

/-- `THVCB::THVCB`, on the contents `memory` of the allocated array. -/
def new (size : Nat) (memory : Nat → Byte) : THVCB :=
  setEmpty
    { inner := memory, outer := [], bufSize := size, head := .inner 0, cacheHead := 0,
      cacheTail := 0, smartCache := 0, freeCacheSize := 0, innerValid := 0, outerValid := 0,
      validCount := 0 }

/-- `THVCB::HeadSafePosInc`, which unlike its siblings does not refuse a negative step. -/
def headSafePosInc (vcb : THVCB) (step : Int) : Option (Bool × THVCB) :=
  if step < vcb.innerValid then -- only move on inner buffer
    (advance vcb.head step).map fun head =>
      let innerValid := (vcb.innerValid - step).toNat
      (true, { vcb with head, innerValid, validCount := innerValid + vcb.outerValid })
  else if step > vcb.validCount then some (false, vcb)
  else if vcb.innerValid > 0 then -- have inner buffer, but moved onto outer buffer
    let step := step.toNat - vcb.innerValid
    let outerValid := vcb.outerValid - step
    some (true,
      { vcb with head := .outer step, outerValid, innerValid := 0, validCount := outerValid })
  else -- only move on outer buffer
    (advance vcb.head step).map fun head =>
      let outerValid := vcb.outerValid - step.toNat
      (true, { vcb with head, outerValid, validCount := outerValid })

/-- `THVCB::WriteCirBuffer`. -/
def writeCirBuffer (vcb : THVCB) (data : List Byte) : Bool × THVCB :=
  if data.length < 1 then (false, vcb)
  else
    (true,
      { vcb with
        outerValid := data.length
        outer := data
        cacheHead := 0
        head := if vcb.innerValid = 0 then .outer 0 else vcb.head
        validCount := data.length + vcb.innerValid })

/-- `THVCB::GetBufferData`: the pointer returned, the bytes cached and the buffer after that.  A
negative number of bytes to copy ends the program. -/
def getBufferData (vcb : THVCB) (len pos : Nat) :
    Option (Option VcbPointer × VcbCopy × THVCB) :=
  let tail := pos + len
  let none' : VcbCopy := ⟨0, 0⟩
  if len < 1 ∨ pos > vcb.validCount ∨ tail > vcb.validCount then some (none, none', vcb)
  else if vcb.innerValid = 0 ∨ vcb.outerValid = 0 ∨ tail ≤ vcb.innerValid then
    some (advance vcb.head pos, none', vcb)
  else if pos ≥ vcb.innerValid then
    some (some (.outer (pos - vcb.innerValid)), none', vcb)
  else
    let cz : Int := tail - vcb.innerValid - vcb.smartCache
    if cz > 0 then
      let i := min vcb.freeCacheSize cz
      if i < 0 then none
      else
        some (advance vcb.head pos, ⟨vcb.cacheTail, i.toNat⟩,
          { vcb with
            inner := move ((vcb.outer.drop vcb.cacheHead).take i.toNat) vcb.inner vcb.cacheTail
            cacheTail := vcb.cacheTail + i.toNat
            cacheHead := vcb.cacheHead + i.toNat
            smartCache := vcb.smartCache + i.toNat
            freeCacheSize := vcb.freeCacheSize - i })
    else some (advance vcb.head pos, none', vcb)

/-- The offset of `m_pHead` in the inner buffer, when it points there. -/
def headOffset (vcb : THVCB) : Option Nat :=
  match vcb.head with
  | .inner offset => some offset
  | .outer _ => none

/-- `THVCB::Defrag`: the bytes copied and the buffer after that.  A cache tail which would leave the
inner buffer for the chunk is not followed. -/
def defrag (vcb : THVCB) : Option (VcbCopy × THVCB) :=
  if vcb.innerValid = 0 then
    if vcb.outerValid > 0 then -- only outer
      some (⟨0, vcb.outerValid⟩,
        { vcb with
          innerValid := vcb.outerValid
          validCount := vcb.outerValid
          inner := move (vcb.bytesAt vcb.head vcb.outerValid) vcb.inner 0
          freeCacheSize := vcb.bufSize - vcb.outerValid
          head := .inner 0
          cacheTail := vcb.outerValid
          outerValid := 0
          smartCache := 0 })
    else some (⟨0, 0⟩, vcb.setEmpty)
  else
    vcb.headOffset.map fun offset =>
      if vcb.outerValid > 0 then -- all have
        let bcopy := min vcb.freeCacheSize vcb.outerValid
        let i := if vcb.smartCache < vcb.outerValid then bcopy - vcb.smartCache else 0
        let innerValid := vcb.innerValid + vcb.outerValid
        (⟨vcb.cacheTail, i.toNat⟩,
          { vcb with
            inner := move ((vcb.outer.drop vcb.cacheHead).take i.toNat) vcb.inner vcb.cacheTail
            innerValid
            freeCacheSize := vcb.freeCacheSize - vcb.outerValid
            cacheTail := offset + innerValid
            smartCache := 0
            outerValid := 0
            validCount := innerValid })
      else -- only inner
        (⟨0, 0⟩,
          { vcb with
            cacheTail := offset + vcb.innerValid
            freeCacheSize := vcb.bufSize - vcb.innerValid - (offset / itemSize : Nat)
            smartCache := 0
            validCount := vcb.innerValid })

/-! ## The undelivered stream -/

/-- The buffer holds the bytes of `stream`. -/
inductive Holds (vcb : THVCB) : List Byte → Prop
  | empty (inner_eq : vcb.innerValid = 0) (outer_eq : vcb.outerValid = 0)
      (valid : vcb.validCount = 0) : Holds vcb []
  | direct {offset : Nat} (inner_eq : vcb.innerValid = 0) (outer_pos : 0 < vcb.outerValid)
      (valid : vcb.validCount = vcb.outerValid) (head_eq : vcb.head = .outer offset)
      (length_eq : offset + vcb.outerValid = vcb.outer.length) :
      Holds vcb (vcb.outer.drop offset)
  | kept {offset : Nat} (inner_pos : 0 < vcb.innerValid) (outer_eq : vcb.outerValid = 0)
      (valid : vcb.validCount = vcb.innerValid) (head_eq : vcb.head = .inner offset)
      (cache_eq : vcb.smartCache = 0) (tail_eq : vcb.cacheTail = offset + vcb.innerValid) :
      Holds vcb (cells vcb.inner offset vcb.innerValid)
  | lent {offset : Nat} (inner_pos : 0 < vcb.innerValid) (outer_pos : 0 < vcb.outerValid)
      (valid : vcb.validCount = vcb.innerValid + vcb.outerValid)
      (head_eq : vcb.head = .inner offset) (length_eq : vcb.outer.length = vcb.outerValid)
      (cacheHead_eq : vcb.cacheHead = vcb.smartCache) (cache_le : vcb.smartCache ≤ vcb.outerValid)
      (tail_eq : vcb.cacheTail = offset + vcb.innerValid + vcb.smartCache)
      (cached : cells vcb.inner (offset + vcb.innerValid) vcb.smartCache =
        vcb.outer.take vcb.smartCache) :
      Holds vcb (cells vcb.inner offset vcb.innerValid ++ vcb.outer)

/-- Between `Defrag` and the next chunk nothing is borrowed or cached. -/
structure Settled (vcb : THVCB) : Prop where
  outer_eq : vcb.outerValid = 0
  cache_eq : vcb.smartCache = 0

variable {vcb : THVCB} {stream : List Byte}

@[simp] theorem advance_inner (offset step : Nat) :
    advance (.inner offset) step = some (.inner (offset + step)) := by
  simp only [advance]
  rw [if_neg (by omega)]
  norm_cast

@[simp] theorem advance_outer (offset step : Nat) :
    advance (.outer offset) step = some (.outer (offset + step)) := by
  simp only [advance]
  rw [if_neg (by omega)]
  norm_cast

theorem Holds.length_eq (holds : vcb.Holds stream) : stream.length = vcb.validCount := by
  cases holds with
  | empty inner_eq outer_eq valid => exact valid.symm
  | direct inner_eq outer_pos valid head_eq length_eq =>
      rw [List.length_drop]
      omega
  | kept inner_pos outer_eq valid => rw [cells_length, valid]
  | lent inner_pos outer_pos valid head_eq length_eq =>
      rw [List.length_append, cells_length, length_eq, valid]

theorem new_holds (size : Nat) (memory : Nat → Byte) :
    (new size memory).Holds [] ∧ (new size memory).Settled :=
  ⟨.empty rfl rfl rfl, rfl, rfl⟩

theorem writeCirBuffer_bufSize (vcb : THVCB) (data : List Byte) :
    (vcb.writeCirBuffer data).2.bufSize = vcb.bufSize := by
  unfold THVCB.writeCirBuffer
  split <;> rfl

/-- `WriteCirBuffer` lends a chunk to a settled buffer. -/
theorem Holds.writeCirBuffer (holds : vcb.Holds stream) (settled : vcb.Settled)
    (data : List Byte) : (vcb.writeCirBuffer data).2.Holds (stream ++ data) := by
  obtain ⟨outer_eq, cache_eq⟩ := settled
  unfold THVCB.writeCirBuffer
  by_cases short : data.length < 1
  · obtain rfl : data = [] := List.eq_nil_of_length_eq_zero (by omega)
    rw [if_pos short, List.append_nil]
    exact holds
  · have data_pos : 0 < data.length := by omega
    rw [if_neg short]
    cases holds with
    | empty inner_eq => 
        exact @Holds.direct _ 0 inner_eq data_pos (by simp [inner_eq]) (if_pos inner_eq)
          (Nat.zero_add _)
    | direct inner_eq outer_pos => omega
    | kept inner_pos _ valid head_eq _ tail_eq =>
        refine .lent inner_pos data_pos (Nat.add_comm _ _) ?_ rfl cache_eq.symm ?_ ?_ ?_
        · rw [if_neg (by omega), head_eq]
        · simp [cache_eq]
        · simpa [cache_eq] using tail_eq
        · simp [cache_eq]
    | lent inner_pos outer_pos => omega

/-- `HeadSafePosInc` within the stream removes that many bytes from its front. -/
theorem Holds.headSafePosInc (holds : vcb.Holds stream) {step : Nat}
    (enough : step ≤ stream.length) :
    ∃ vcb', vcb.headSafePosInc step = some (true, vcb') ∧ vcb'.Holds (stream.drop step) ∧
      vcb'.bufSize = vcb.bufSize := by
  have length_eq' := holds.length_eq
  cases holds with
  | empty inner_eq outer_eq valid =>
      obtain rfl : step = 0 := by simpa using enough
      have not_lt : ¬ ((0 : Nat) : Int) < vcb.innerValid := by omega
      have not_gt : ¬ ((0 : Nat) : Int) > vcb.validCount := by omega
      simp only [THVCB.headSafePosInc, if_neg not_lt, if_neg not_gt,
        if_neg (by omega : ¬ vcb.innerValid > 0)]
      refine ⟨{ vcb with validCount := vcb.outerValid }, ?_, .empty inner_eq outer_eq outer_eq, rfl⟩
      cases vcb.head <;> simp only [advance_inner, advance_outer] <;> simp
  | @direct offset inner_eq outer_pos valid head_eq length_eq =>
      have not_lt : ¬ (step : Int) < vcb.innerValid := by omega
      have not_gt : ¬ (step : Int) > vcb.validCount := by omega
      simp only [THVCB.headSafePosInc, if_neg not_lt, if_neg not_gt,
        if_neg (by omega : ¬ vcb.innerValid > 0), head_eq, advance_outer, Option.map_some,
        Int.toNat_natCast, Option.some.injEq, Prod.mk.injEq, true_and, exists_eq_left', and_true]
      rw [List.drop_drop]
      by_cases all : step = vcb.outerValid
      · rw [List.drop_eq_nil_of_le (by omega)]
        exact .empty inner_eq (by dsimp only; omega) (by dsimp only; omega)
      · exact .direct inner_eq (by dsimp only; omega) rfl rfl (by dsimp only; omega)
  | @kept offset inner_pos outer_eq valid head_eq cache_eq tail_eq =>
      by_cases before : (step : Int) < vcb.innerValid
      · simp only [THVCB.headSafePosInc, if_pos before, head_eq, advance_inner, Option.map_some,
          Option.some.injEq, Prod.mk.injEq, true_and, exists_eq_left', and_true]
        rw [cells_drop _ _ (by omega)]
        have inner_eq : ((vcb.innerValid : Int) - step).toNat = vcb.innerValid - step := by omega
        rw [inner_eq]
        exact .kept (by dsimp only; omega) outer_eq (by dsimp only; omega) rfl cache_eq
          (by dsimp only; omega)
      · have not_gt : ¬ (step : Int) > vcb.validCount := by omega
        simp only [THVCB.headSafePosInc, if_neg before, if_neg not_gt, if_pos inner_pos,
          Option.some.injEq, Prod.mk.injEq, true_and, exists_eq_left', and_true]
        rw [List.drop_eq_nil_of_le (by rw [cells_length]; omega)]
        exact .empty rfl (by dsimp only; omega) (by dsimp only; omega)
  | @lent offset inner_pos outer_pos valid head_eq length_eq cacheHead_eq cache_le tail_eq cached =>
      by_cases before : (step : Int) < vcb.innerValid
      · simp only [THVCB.headSafePosInc, if_pos before, head_eq, advance_inner, Option.map_some,
          Option.some.injEq, Prod.mk.injEq, true_and, exists_eq_left', and_true]
        rw [List.drop_append_of_le_length (by rw [cells_length]; omega), cells_drop _ _ (by omega)]
        have inner_eq : ((vcb.innerValid : Int) - step).toNat = vcb.innerValid - step := by omega
        have end_eq : offset + step + (vcb.innerValid - step) = offset + vcb.innerValid := by omega
        rw [inner_eq]
        exact .lent (by dsimp only; omega) outer_pos rfl rfl length_eq cacheHead_eq cache_le
          (by dsimp only; omega) (by dsimp only; rw [end_eq, cached])
      · have not_gt : ¬ (step : Int) > vcb.validCount := by omega
        simp only [THVCB.headSafePosInc, if_neg before, if_neg not_gt, if_pos inner_pos,
          Int.toNat_natCast, Option.some.injEq, Prod.mk.injEq, true_and, exists_eq_left', and_true]
        rw [List.drop_append, cells_length, List.drop_eq_nil_of_le (by rw [cells_length]; omega),
          List.nil_append]
        by_cases all : step - vcb.innerValid = vcb.outerValid
        · rw [List.drop_eq_nil_of_le (by omega)]
          exact .empty rfl (by dsimp only; omega) (by dsimp only; omega)
        · exact .direct rfl (by dsimp only; omega) rfl rfl (by dsimp only; omega)

/-- `HeadSafePosInc` beyond the stream is refused. -/
theorem Holds.headSafePosInc_refused (holds : vcb.Holds stream) {step : Nat}
    (outside : stream.length < step) : vcb.headSafePosInc step = some (false, vcb) := by
  have length_eq := holds.length_eq
  have valid_ge : vcb.innerValid ≤ vcb.validCount := by
    cases holds <;> omega
  have not_lt : ¬ (step : Int) < vcb.innerValid := by omega
  have gt : (step : Int) > vcb.validCount := by omega
  simp only [THVCB.headSafePosInc, if_neg not_lt, if_pos gt]

/-! ## Room in the inner buffer -/

/-- The bytes that a read has to cache: none, unless it runs from the inner buffer into the chunk. -/
def missing (vcb : THVCB) (len pos : Nat) : Nat :=
  if 0 < vcb.innerValid ∧ 0 < vcb.outerValid ∧ pos < vcb.innerValid then
    pos + len - vcb.innerValid - vcb.smartCache
  else 0

/-- The cache has room for that many further bytes, and so has the inner buffer. -/
def HasRoom (vcb : THVCB) (count : Nat) : Prop :=
  0 < count → count ≤ vcb.freeCacheSize ∧ vcb.cacheTail + count ≤ vcb.bufSize


/-- Caching the next `count` bytes of the chunk. -/
theorem cached_move {inner : Nat → Byte} {outer : List Byte} {start cache count : Nat}
    (enough : cache + count ≤ outer.length)
    (cached : cells inner start cache = outer.take cache) :
    cells (move ((outer.drop cache).take count) inner (start + cache)) start (cache + count) =
      outer.take (cache + count) := by
  have length_eq : ((outer.drop cache).take count).length = count := by
    rw [List.length_take, List.length_drop]
    omega
  have before : cells (move ((outer.drop cache).take count) inner (start + cache)) start cache =
      outer.take cache := by
    rw [← cached, cells_congr]
    exact fun offset offset_lt => move_outside (.inl (by omega))
  have behind := cells_move ((outer.drop cache).take count) inner (start + cache)
  rw [length_eq] at behind
  rw [cells_add, before, behind, List.take_add]

theorem take_slice {first second : List Byte} {cache len pos : Nat}
    (inside : pos + len ≤ first.length + cache) :
    ((first ++ second.take cache).drop pos).take len = ((first ++ second).drop pos).take len := by
  rw [show first ++ second.take cache = (first ++ second).take (first.length + cache) by
    rw [List.take_length_add_append], List.drop_take, List.take_take, Nat.min_eq_left (by omega)]

/-- What is cached of a chunk continues the inner bytes. -/
theorem lent_slice {offset count len pos : Nat} {inner : Nat → Byte} {outer : List Byte}
    {cache : Nat} (cached : cells inner (offset + count) cache = outer.take cache)
    (inside : pos + len ≤ count + cache) :
    cells inner (offset + pos) len = ((cells inner offset count ++ outer).drop pos).take len := by
  rw [← take_slice (by rwa [cells_length]), ← cached, ← cells_add, cells_drop _ _ (by omega),
    cells_take _ _ (by omega)]

/-- A read with room finds the bytes of the stream at the returned pointer. -/
theorem Holds.getBufferData (holds : vcb.Holds stream) {len pos : Nat} (len_pos : 1 ≤ len)
    (inside : pos + len ≤ vcb.validCount) (room : vcb.HasRoom (vcb.missing len pos)) :
    ∃ pointer copy vcb', vcb.getBufferData len pos = some (some pointer, copy, vcb') ∧
      vcb'.Holds stream ∧ vcb'.bufSize = vcb.bufSize ∧
      vcb'.bytesAt pointer len = (stream.drop pos).take len ∧ copy.Inside vcb.bufSize := by
  have early : ¬ (len < 1 ∨ pos > vcb.validCount ∨ pos + len > vcb.validCount) := by omega
  have holds' := holds
  cases holds with
  | empty inner_eq outer_eq valid => omega
  | @direct offset inner_eq outer_pos valid head_eq length_eq =>
      refine ⟨.outer (offset + pos), ⟨0, 0⟩, vcb, ?_, holds', rfl, ?_, VcbCopy.inside_empty _ _⟩
      · simp only [THVCB.getBufferData, if_neg early, inner_eq, true_or, if_true, head_eq,
          advance_outer]
      · simp only [bytesAt, List.drop_drop]
  | @kept offset inner_pos outer_eq valid head_eq cache_eq tail_eq =>
      refine ⟨.inner (offset + pos), ⟨0, 0⟩, vcb, ?_, holds', rfl, ?_, VcbCopy.inside_empty _ _⟩
      · simp only [THVCB.getBufferData, if_neg early, outer_eq, true_or, or_true, if_true, head_eq,
          advance_inner]
      · rw [bytesAt, cells_drop _ _ (by omega), cells_take _ _ (by omega)]
  | @lent offset inner_pos outer_pos valid head_eq length_eq cacheHead_eq cache_le tail_eq cached =>
      by_cases inner : pos + len ≤ vcb.innerValid
      · refine ⟨.inner (offset + pos), ⟨0, 0⟩, vcb, ?_, holds', rfl, ?_, VcbCopy.inside_empty _ _⟩
        · simp only [THVCB.getBufferData, if_neg early, inner, or_true, if_true, head_eq,
            advance_inner]
        · exact lent_slice cached (by omega)
      have both : ¬ (vcb.innerValid = 0 ∨ vcb.outerValid = 0 ∨ pos + len ≤ vcb.innerValid) := by
        omega
      by_cases outer : pos ≥ vcb.innerValid
      · refine ⟨.outer (pos - vcb.innerValid), ⟨0, 0⟩, vcb, ?_, holds', rfl, ?_,
          VcbCopy.inside_empty _ _⟩
        · simp only [THVCB.getBufferData, if_neg early, if_neg both, if_pos outer]
        · have passed : (cells vcb.inner offset vcb.innerValid).drop pos = [] :=
            List.drop_eq_nil_of_le (by rwa [cells_length])
          rw [bytesAt, List.drop_append, cells_length, passed, List.nil_append]
      have missing_eq : vcb.missing len pos = pos + len - vcb.innerValid - vcb.smartCache :=
        if_pos ⟨inner_pos, outer_pos, by omega⟩
      rw [missing_eq] at room
      by_cases missing : pos + len - vcb.innerValid - vcb.smartCache = 0
      · have cz_le : ¬ ((pos + len : Nat) : Int) - vcb.innerValid - vcb.smartCache > 0 := by omega
        refine ⟨.inner (offset + pos), ⟨0, 0⟩, vcb, ?_, holds', rfl, ?_, VcbCopy.inside_empty _ _⟩
        · simp only [THVCB.getBufferData, if_neg early, if_neg both, if_neg outer, if_neg cz_le,
            head_eq, advance_inner]
        · exact lent_slice cached (by omega)
      · obtain ⟨free, fits⟩ := room (Nat.pos_of_ne_zero missing)
        let cz := pos + len - vcb.innerValid - vcb.smartCache
        have cz_eq : ((pos + len : Nat) : Int) - vcb.innerValid - vcb.smartCache = (cz : Int) := by
          omega
        have cz_pos : (cz : Int) > 0 := by omega
        have i_eq : min vcb.freeCacheSize (cz : Int) = cz := by omega
        have cached' := cached_move (by omega : vcb.smartCache + cz ≤ vcb.outer.length) cached
        have before : cells (move ((vcb.outer.drop vcb.smartCache).take cz) vcb.inner
            (offset + vcb.innerValid + vcb.smartCache)) offset vcb.innerValid =
              cells vcb.inner offset vcb.innerValid :=
          cells_congr.mpr fun i i_lt => move_outside (.inl (by omega))
        refine ⟨.inner (offset + pos), ⟨vcb.cacheTail, cz⟩,
          { vcb with
            inner := move ((vcb.outer.drop vcb.smartCache).take cz) vcb.inner vcb.cacheTail
            cacheTail := vcb.cacheTail + cz
            cacheHead := vcb.smartCache + cz
            smartCache := vcb.smartCache + cz
            freeCacheSize := vcb.freeCacheSize - cz }, ?_, ?_, rfl, ?_, fun _ => fits⟩
        · simp only [THVCB.getBufferData, if_neg early, if_neg both, if_neg outer, cz_eq,
            if_pos cz_pos, i_eq, if_neg (by omega : ¬ (cz : Int) < 0), Int.toNat_natCast, head_eq,
            advance_inner, cacheHead_eq]
        · rw [← before, ← tail_eq]
          refine .lent inner_pos outer_pos valid head_eq length_eq rfl ?_ ?_ ?_
          · show vcb.smartCache + cz ≤ vcb.outerValid
            omega
          · show vcb.cacheTail + cz = offset + vcb.innerValid + (vcb.smartCache + cz)
            omega
          · rw [← tail_eq] at cached'
            exact cached'
        · rw [← before]
          rw [← tail_eq] at cached' ⊢
          exact lent_slice cached' (by omega)

/-- `Defrag` has room for the bytes of the chunk that are not cached yet. -/
def DefragRoom (vcb : THVCB) : Prop :=
  0 < vcb.innerValid → vcb.smartCache < vcb.outerValid →
    vcb.outerValid ≤ vcb.freeCacheSize ∧
      vcb.cacheTail + (vcb.outerValid - vcb.smartCache) ≤ vcb.bufSize

/-- `Defrag` with room keeps the stream and settles the buffer. -/
theorem Holds.defrag (holds : vcb.Holds stream) (fits : stream.length ≤ vcb.bufSize)
    (room : vcb.DefragRoom) :
    ∃ copy vcb', vcb.defrag = some (copy, vcb') ∧ vcb'.Holds stream ∧ vcb'.Settled ∧
      vcb'.bufSize = vcb.bufSize ∧ copy.Inside vcb.bufSize := by
  have length_eq' := holds.length_eq
  cases holds with
  | empty inner_eq outer_eq valid =>
      refine ⟨⟨0, 0⟩, vcb.setEmpty, ?_, .empty rfl rfl rfl, ⟨rfl, rfl⟩, rfl,
        VcbCopy.inside_empty _ _⟩
      simp only [THVCB.defrag, inner_eq, if_true, outer_eq, gt_iff_lt, Nat.lt_irrefl, if_false]
  | @direct offset inner_eq outer_pos valid head_eq length_eq =>
      have bytes_eq : vcb.bytesAt vcb.head vcb.outerValid = vcb.outer.drop offset := by
        rw [head_eq, bytesAt, List.take_of_length_le]
        rw [List.length_drop]
        omega
      simp only [THVCB.defrag, if_pos inner_eq, if_pos outer_pos, bytes_eq, Option.some.injEq,
        Prod.mk.injEq]
      refine ⟨_, _, ⟨rfl, rfl⟩, ?_, ⟨rfl, rfl⟩, rfl, ?_⟩
      · have stored := cells_move (vcb.outer.drop offset) vcb.inner 0
        rw [length_eq', valid] at stored
        conv_rhs => rw [← stored]
        exact .kept outer_pos rfl rfl rfl rfl (Nat.zero_add _).symm
      · show 0 < vcb.outerValid → 0 + vcb.outerValid ≤ vcb.bufSize
        omega
  | @kept offset inner_pos outer_eq valid head_eq cache_eq tail_eq =>
      simp only [THVCB.defrag, if_neg (Nat.ne_of_gt inner_pos), headOffset, head_eq,
        Option.map_some, outer_eq, gt_iff_lt, Nat.lt_irrefl, if_false, Option.some.injEq,
        Prod.mk.injEq]
      refine ⟨_, _, ⟨rfl, rfl⟩, ?_, ⟨rfl, rfl⟩, rfl, VcbCopy.inside_empty _ _⟩
      exact .kept inner_pos rfl rfl rfl rfl rfl
  | @lent offset inner_pos outer_pos valid head_eq length_eq cacheHead_eq cache_le tail_eq cached =>
      have i_eq : (if vcb.smartCache < vcb.outerValid then
          min vcb.freeCacheSize vcb.outerValid - (vcb.smartCache : Int) else 0).toNat =
            vcb.outerValid - vcb.smartCache := by
        split
        · next partly =>
            have := (room inner_pos partly).1
            omega
        · omega
      simp only [THVCB.defrag, if_neg (Nat.ne_of_gt inner_pos), headOffset, head_eq,
        Option.map_some, if_pos outer_pos, i_eq, Option.some.injEq, Prod.mk.injEq]
      refine ⟨_, _, ⟨rfl, rfl⟩, ?_, ⟨rfl, rfl⟩, rfl, ?_⟩
      · have all_eq : vcb.smartCache + (vcb.outerValid - vcb.smartCache) = vcb.outerValid := by omega
        have cached' := cached_move
          (by omega : vcb.smartCache + (vcb.outerValid - vcb.smartCache) ≤ vcb.outer.length) cached
        have before : cells (move ((vcb.outer.drop vcb.smartCache).take
            (vcb.outerValid - vcb.smartCache)) vcb.inner vcb.cacheTail) offset vcb.innerValid =
              cells vcb.inner offset vcb.innerValid :=
          cells_congr.mpr fun i i_lt => move_outside (.inl (by omega))
        have whole : vcb.outer.take vcb.outerValid = vcb.outer :=
          List.take_of_length_le (by omega)
        rw [all_eq, whole, ← tail_eq] at cached'
        have stream_eq : cells vcb.inner offset vcb.innerValid ++ vcb.outer =
            cells (move ((vcb.outer.drop vcb.smartCache).take
              (vcb.outerValid - vcb.smartCache)) vcb.inner vcb.cacheTail) offset
                (vcb.innerValid + vcb.outerValid) := by
          rw [cells_add, before, cached']
        rw [stream_eq, cacheHead_eq]
        exact .kept (by dsimp only; omega) rfl rfl rfl rfl rfl
      · intro copied
        have partly : vcb.smartCache < vcb.outerValid := Nat.lt_of_sub_pos copied
        exact (room inner_pos partly).2

/-! ## Cycles of calls -/

inductive Op
  | writeCirBuffer (data : List Byte)
  | getBufferData (len pos : Nat)
  | headSafePosInc (step : Int)
  | defrag

/-- What a call returns and copies inside the buffer. -/
structure Outcome where
  pointer : Option VcbPointer
  done : Bool
  copy : VcbCopy

def call (vcb : THVCB) : Op → Option (Outcome × THVCB)
  | .writeCirBuffer data =>
      let (done, vcb) := vcb.writeCirBuffer data
      some (⟨none, done, ⟨0, 0⟩⟩, vcb)
  | .getBufferData len pos =>
      (vcb.getBufferData len pos).map fun (pointer, copy, vcb) => (⟨pointer, true, copy⟩, vcb)
  | .headSafePosInc step =>
      (vcb.headSafePosInc step).map fun (done, vcb) => (⟨none, done, ⟨0, 0⟩⟩, vcb)
  | .defrag => vcb.defrag.map fun (copy, vcb) => (⟨none, true, copy⟩, vcb)

/-- A buffer and the bytes which it was given and has not delivered; `lent` holds from a chunk to
the next `Defrag`. -/
structure History where
  vcb : THVCB
  stream : List Byte
  lent : Bool

namespace History

/-- The undelivered bytes after a call. -/
def streamAfter (history : History) : Op → List Byte
  | .writeCirBuffer data => history.stream ++ data
  | .headSafePosInc step =>
      if 0 ≤ step ∧ step ≤ history.stream.length then history.stream.drop step.toNat
      else history.stream
  | _ => history.stream

/-- The order of the calls in a cycle, with at most `m_nBufSize` undelivered bytes. -/
def Allows (history : History) : Op → Prop
  | .writeCirBuffer data =>
      history.lent = false ∧ history.stream.length + data.length ≤ history.vcb.bufSize
  | _ => history.lent = true

instance (history : History) : (op : Op) → Decidable (history.Allows op)
  | .writeCirBuffer _ => inferInstanceAs (Decidable (_ ∧ _))
  | .getBufferData _ _ => inferInstanceAs (Decidable (_ = _))
  | .headSafePosInc _ => inferInstanceAs (Decidable (_ = _))
  | .defrag => inferInstanceAs (Decidable (_ = _))

def lentAfter : Op → Bool
  | .defrag => false
  | _ => true

/-- One call of a cycle. -/
def step (history : History) (op : Op) : Option History :=
  if history.Allows op then
    (history.vcb.call op).map fun (_, vcb) =>
      { vcb, stream := history.streamAfter op, lent := lentAfter op }
  else none

def start (size : Nat) (memory : Nat → Byte) : History :=
  { vcb := new size memory, stream := [], lent := false }

/-- The free cache size and the inner buffer have room for what the call copies. -/
def Room (history : History) : Op → Prop
  | .writeCirBuffer _ => True
  | .getBufferData len pos =>
      1 ≤ len → pos + len ≤ history.vcb.validCount →
        history.vcb.HasRoom (history.vcb.missing len pos)
  | .headSafePosInc step => 0 ≤ step
  | .defrag => history.vcb.DefragRoom

/-- A read of valid bytes finds them at the returned pointer. -/
def Finds (history : History) (outcome : Outcome) (vcb : THVCB) : Op → Prop
  | .getBufferData len pos =>
      1 ≤ len → pos + len ≤ history.vcb.validCount →
        ∃ pointer, outcome.pointer = some pointer ∧
          vcb.bytesAt pointer len = (history.stream.drop pos).take len
  | _ => True

/-- The call completes and answers from the undelivered bytes. -/
def Answers (history : History) (op : Op) : Prop :=
  ∃ outcome vcb, history.vcb.call op = some (outcome, vcb) ∧
    outcome.copy.Inside history.vcb.bufSize ∧
    vcb.validCount = (history.streamAfter op).length ∧ history.Finds outcome vcb op

/-- The buffer holds the undelivered bytes, and only those between two cycles. -/
structure Streams (history : History) : Prop where
  holds : history.vcb.Holds history.stream
  fits : history.stream.length ≤ history.vcb.bufSize
  settled : history.lent = false → history.vcb.Settled

/-- A read outside the valid bytes is left alone. -/
theorem getBufferData_outside {vcb : THVCB} {len pos : Nat}
    (outside : ¬ (1 ≤ len ∧ pos + len ≤ vcb.validCount)) :
    vcb.getBufferData len pos = some (none, ⟨0, 0⟩, vcb) := by
  have early : len < 1 ∨ pos > vcb.validCount ∨ pos + len > vcb.validCount := by omega
  simp only [THVCB.getBufferData, if_pos early]

variable {history next : History}

/-- A call with room completes and the buffer holds the bytes undelivered after it. -/
theorem Streams.call (streams : history.Streams) {op : Op} (allowed : history.Allows op)
    (room : history.Room op) :
    ∃ outcome vcb, history.vcb.call op = some (outcome, vcb) ∧
      outcome.copy.Inside history.vcb.bufSize ∧ vcb.Holds (history.streamAfter op) ∧
      vcb.bufSize = history.vcb.bufSize ∧ (lentAfter op = false → vcb.Settled) ∧
      history.Finds outcome vcb op := by
  obtain ⟨holds, fits, settled⟩ := streams
  cases op with
  | writeCirBuffer data =>
      exact ⟨_, _, rfl, VcbCopy.inside_empty _ _, holds.writeCirBuffer (settled allowed.1) data,
        writeCirBuffer_bufSize .., nofun, trivial⟩
  | getBufferData len pos =>
      by_cases inside : 1 ≤ len ∧ pos + len ≤ history.vcb.validCount
      · obtain ⟨pointer, copy, vcb, call_eq, holds', size_eq, bytes_eq, copied⟩ :=
          holds.getBufferData inside.1 inside.2 (room inside.1 inside.2)
        exact ⟨⟨some pointer, true, copy⟩, vcb, by rw [THVCB.call, call_eq]; rfl, copied, holds',
          size_eq, nofun, fun _ _ => ⟨pointer, rfl, bytes_eq⟩⟩
      · exact ⟨⟨none, true, ⟨0, 0⟩⟩, history.vcb,
          by rw [THVCB.call, getBufferData_outside inside]; rfl, VcbCopy.inside_empty _ _, holds,
          rfl, nofun, fun len_pos valid => absurd ⟨len_pos, valid⟩ inside⟩
  | headSafePosInc step =>
      obtain ⟨count, rfl⟩ := Int.eq_ofNat_of_zero_le room
      by_cases enough : count ≤ history.stream.length
      · obtain ⟨vcb, call_eq, holds', size_eq⟩ := holds.headSafePosInc enough
        refine ⟨⟨none, true, ⟨0, 0⟩⟩, vcb, by rw [THVCB.call, call_eq]; rfl,
          VcbCopy.inside_empty _ _, ?_, size_eq, nofun, trivial⟩
        rw [streamAfter, if_pos ⟨by omega, by omega⟩]
        exact holds'
      · refine ⟨⟨none, false, ⟨0, 0⟩⟩, history.vcb,
          by rw [THVCB.call, holds.headSafePosInc_refused (by omega)]; rfl,
          VcbCopy.inside_empty _ _, ?_, rfl, nofun, trivial⟩
        rw [streamAfter, if_neg (by omega)]
        exact holds
  | defrag =>
      obtain ⟨copy, vcb, call_eq, holds', settled', size_eq, copied⟩ := holds.defrag fits room
      exact ⟨⟨none, true, copy⟩, vcb, by rw [THVCB.call, call_eq]; rfl, copied, holds', size_eq,
        fun _ => settled', trivial⟩

theorem streamAfter_length_le (fits : history.stream.length ≤ history.vcb.bufSize) {op : Op}
    (allowed : history.Allows op) : (history.streamAfter op).length ≤ history.vcb.bufSize := by
  cases op with
  | writeCirBuffer data =>
      rw [streamAfter, List.length_append]
      exact allowed.2
  | getBufferData len pos => exact fits
  | headSafePosInc step =>
      rw [streamAfter]
      split
      · rw [List.length_drop]
        omega
      · exact fits
  | defrag => exact fits

theorem Streams.step (streams : history.Streams) {op : Op} (room : history.Room op)
    (stepped : history.step op = some next) :
    next.Streams ∧ next.vcb.bufSize = history.vcb.bufSize := by
  unfold History.step at stepped
  split at stepped
  · next allowed =>
      obtain ⟨outcome, vcb, call_eq, -, holds, size_eq, settled, -⟩ := streams.call allowed room
      rw [call_eq] at stepped
      obtain rfl := Option.some.inj stepped
      refine ⟨⟨holds, ?_, settled⟩, size_eq⟩
      rw [size_eq]
      exact streamAfter_length_le streams.fits allowed
  · cases stepped

theorem start_streams (size : Nat) (memory : Nat → Byte) : (start size memory).Streams :=
  ⟨(new_holds size memory).1, Nat.zero_le _, fun _ => (new_holds size memory).2⟩

/-- After any cycles of calls that had room, the next call with room answers from the undelivered
bytes. -/
theorem answers_of_room (size : Nat) (memory : Nat → Byte) (ops : List Op)
    (execution : Execution.run History.step (start size memory) ops = some history)
    (rooms : Execution.AllSteps History.step Room (start size memory) ops) {op : Op}
    (allowed : history.Allows op) (room : history.Room op) : history.Answers op := by
  have throughout := Execution.allStates_of_allSteps Streams id
    (fun streams room stepped => (streams.step room stepped).1) (start_streams size memory) rooms
  have streams : history.Streams := throughout.of_run execution
  obtain ⟨outcome, vcb, call_eq, copied, holds, -, -, bytes⟩ := streams.call allowed room
  exact ⟨outcome, vcb, call_eq, copied, holds.length_eq.symm, bytes⟩

/-- A chunk of two bytes follows one byte, is read and defragmented; then one more byte is read. -/
def crowdedOps : List Op :=
  [.writeCirBuffer [1], .defrag, .writeCirBuffer [2, 3], .getBufferData 2 0, .defrag,
    .writeCirBuffer [4]]

/-- Cycles of reads and steps with room for each copy. -/
def roomyOps : List Op :=
  [.writeCirBuffer [1, 2], .headSafePosInc 1, .defrag, .writeCirBuffer [3, 4]]

instance (history : History) : (op : Op) → Decidable (history.Room op)
  | .writeCirBuffer _ => isTrue trivial
  | .getBufferData _ _ => by unfold Room HasRoom; infer_instance
  | .headSafePosInc _ => inferInstanceAs (Decidable (_ ≤ _))
  | .defrag => by unfold Room DefragRoom; infer_instance

theorem answers_roomyOps :
    ∃ history, Execution.run History.step (start 8 fun _ => 0) roomyOps = some history ∧
      Execution.AllSteps History.step Room (start 8 fun _ => 0) roomyOps ∧
      history.Allows (.getBufferData 3 0) ∧ history.Room (.getBufferData 3 0) ∧
      history.Answers (.getBufferData 3 0) := by
  refine ⟨_, rfl, by decide, by decide, by decide, ?_⟩
  exact answers_of_room 8 (fun _ => 0) roomyOps rfl (by decide) (by decide) (by decide)

/-- The last of the four undelivered bytes is not the one found there. -/
theorem crowdedOps_lost :
    ∃ history, Execution.run History.step (start 4 fun _ => 0) crowdedOps = some history ∧
      history.Allows (.getBufferData 4 0) ∧ ¬ history.Answers (.getBufferData 4 0) := by
  refine ⟨_, rfl, by decide, ?_⟩
  rintro ⟨outcome, vcb, call_eq, -, -, finds⟩
  obtain ⟨pointer, pointer_eq, bytes⟩ := finds (by decide) (by decide)
  obtain ⟨rfl, rfl⟩ := Prod.mk.inj (Option.some.inj call_eq.symm)
  obtain rfl := Option.some.inj pointer_eq.symm
  revert bytes
  decide

end History

end THVCB
end CommonLib
