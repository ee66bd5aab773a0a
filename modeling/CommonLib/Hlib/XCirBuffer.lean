import CommonLib.Hlib.CirBuffer

/-!
# The mirrored ring of `hxcb.cpp`

`THXCB` is the ring of `THCB` in an array of twice its size.  `GetBufferData` returns a pointer into
the array instead of a copy; when the bytes run over the end of the ring, the first bytes of the
ring are to be mirrored behind it.
-/

namespace CommonLib

structure THXCB extends THCB where
  smartCache : Nat

namespace THXCB

/-- `THXCB::SetEmpty`. -/
def setEmpty (xcb : THXCB) : THXCB := { toTHCB := xcb.toTHCB.setEmpty, smartCache := 0 }

/-- `THXCB::THXCB`, on the contents `memory` of the allocated array. -/
def new (size : Nat) (memory : Nat → Byte) : THXCB :=
  { toTHCB := THCB.new size memory, smartCache := 0 }

/-- `THXCB::HeadSafePosInc`: that of `THCB`, which also drops the mirror when the head wraps. -/
def headSafePosInc (xcb : THXCB) (step : Int) : Bool × THXCB :=
  let (done, ring) := xcb.toTHCB.headSafePosInc step
  let wraps := done ∧ xcb.readCounter + step.toNat ≥ xcb.bufSize
  (done, { toTHCB := ring, smartCache := if wraps then 0 else xcb.smartCache })

/-- `THXCB::WriteCirBuffer`: that of `THCB`. -/
def writeCirBuffer (xcb : THXCB) (data : List Byte) : Bool × THXCB :=
  let (done, ring) := xcb.toTHCB.writeCirBuffer data
  (done, { xcb with toTHCB := ring })

/-- `THXCB::GetBufferData`: the pointer returned, or `none` when it is left alone. -/
def getBufferData (xcb : THXCB) (len pos : Nat) : Option Nat × THXCB :=
  let i := pos + len
  if i > xcb.validCount then (none, xcb)
  else
    let j := pos + xcb.readCounter
    let k := i + xcb.readCounter
    let m := j % xcb.bufSize
    if decide (j ≥ xcb.bufSize) = decide (k > xcb.bufSize) then (some m, xcb) -- copy once
    else -- copy twice
      let k : Int := len - (xcb.bufSize - m)
      let l := k - xcb.smartCache
      if l < 0 then (some m, xcb) -- in smartcache
      else
        (some m,
          { xcb with
            buffer := move (cells xcb.buffer 0 l.toNat) xcb.buffer (xcb.bufSize + l.toNat)
            smartCache := k.toNat })

/-! ## Both rings under one history -/

inductive Op
  | writeCirBuffer (data : List Byte)
  | headSafePosInc (step : Int)
  | getBufferData (len pos : Nat)

/-- The two kinds of ring after the same calls. -/
structure Rings where
  xcb : THXCB
  cb : THCB

namespace Rings

/-- The same call on both rings; `THCB::GetBufferData` writes nothing. -/
def step (rings : Rings) : Op → Option Rings
  | .writeCirBuffer data =>
      some ⟨(rings.xcb.writeCirBuffer data).2, (rings.cb.writeCirBuffer data).2⟩
  | .headSafePosInc step =>
      some ⟨(rings.xcb.headSafePosInc step).2, (rings.cb.headSafePosInc step).2⟩
  | .getBufferData len pos => some ⟨(rings.xcb.getBufferData len pos).2, rings.cb⟩

/-- A read inside the valid bytes finds at the returned pointer what `THCB` copies out. -/
def Agrees (rings : Rings) : Op → Prop
  | .getBufferData len pos =>
      1 ≤ len → pos + len ≤ rings.xcb.validCount →
        ∃ pointer, (rings.xcb.getBufferData len pos).1 = some pointer ∧
          some (cells (rings.xcb.getBufferData len pos).2.buffer pointer len) =
            rings.cb.getBufferData len pos
  | _ => True

/-- The bytes asked for run over the end of the ring. -/
def Straddles (rings : Rings) (len pos : Nat) : Prop :=
  rings.xcb.readCounter + pos < rings.xcb.bufSize ∧
    rings.xcb.bufSize < rings.xcb.readCounter + pos + len

/-- The number of bytes of such a read that stand at the front of the ring. -/
def overrun (rings : Rings) (len pos : Nat) : Nat :=
  rings.xcb.readCounter + pos + len - rings.xcb.bufSize

/-- What will stand `i` bytes behind the ring: the copy goes to `l` instead of `m_nSmartCache`. -/
def mirrored (rings : Rings) (overrun i : Nat) : Byte :=
  let l := overrun - rings.xcb.smartCache
  if rings.xcb.smartCache ≤ overrun ∧ l ≤ i ∧ i < l + l then rings.xcb.buffer (i - l)
  else rings.xcb.buffer (rings.xcb.bufSize + i)

/-- The read stays inside the ring, or the bytes behind the ring happen to be right. -/
def Served (rings : Rings) : Op → Prop
  | .getBufferData len pos =>
      1 ≤ len → pos + len ≤ rings.xcb.validCount → rings.Straddles len pos →
        ∀ i < rings.overrun len pos,
          rings.mirrored (rings.overrun len pos) i = rings.xcb.buffer i
  | _ => True

/-- Both rings hold the same bytes. -/
def HoldSame (rings : Rings) : Prop :=
  ∃ queue, rings.xcb.toTHCB.Holds queue ∧ rings.cb.Holds queue ∧
    rings.xcb.bufSize = rings.cb.bufSize

variable {rings next : Rings}

/-- A read writes nothing inside the ring. -/
theorem getBufferData_holds {xcb : THXCB} {queue : List Byte} (holds : xcb.toTHCB.Holds queue)
    (len pos : Nat) :
    (xcb.getBufferData len pos).2.toTHCB.Holds queue ∧
      (xcb.getBufferData len pos).2.bufSize = xcb.bufSize := by
  have length_le := holds.length_le
  unfold getBufferData
  dsimp only
  split
  · exact ⟨holds, rfl⟩
  split
  · exact ⟨holds, rfl⟩
  split
  · exact ⟨holds, rfl⟩
  · refine ⟨{ holds with window := ?_ }, rfl⟩
    refine holds.window.congr holds.read_lt length_le fun address inside => ?_
    exact move_outside (.inl (by omega))

theorem HoldSame.step (same : rings.HoldSame) {op : Op} (stepped : rings.step op = some next) :
    next.HoldSame := by
  obtain ⟨queue, holds, holds', size_eq⟩ := same
  cases op with
  | writeCirBuffer data =>
      obtain rfl := Option.some.inj stepped
      have size_eq' : (rings.xcb.writeCirBuffer data).2.bufSize =
          (rings.cb.writeCirBuffer data).2.bufSize := by
        simpa [writeCirBuffer] using size_eq
      by_cases fits : queue.length + data.length ≤ rings.xcb.bufSize
      · exact ⟨queue ++ data, (holds.writeCirBuffer fits).2,
          (holds'.writeCirBuffer (size_eq ▸ fits)).2, size_eq'⟩
      · refine ⟨queue, ?_, ?_, size_eq'⟩
        · simpa only [writeCirBuffer, holds.writeCirBuffer_refused data (by omega)] using holds
        · simpa only [holds'.writeCirBuffer_refused data (by omega)] using holds'
  | headSafePosInc step =>
      obtain rfl := Option.some.inj stepped
      have size_eq' : (rings.xcb.headSafePosInc step).2.bufSize =
          (rings.cb.headSafePosInc step).2.bufSize := by
        simpa [headSafePosInc] using size_eq
      by_cases inside : 0 ≤ step ∧ step ≤ queue.length
      · obtain ⟨count, rfl⟩ := Int.eq_ofNat_of_zero_le inside.1
        exact ⟨queue.drop count, (holds.headSafePosInc (by omega)).2,
          (holds'.headSafePosInc (by omega)).2, size_eq'⟩
      · have outside : step > queue.length ∨ step < 0 := by omega
        refine ⟨queue, ?_, ?_, size_eq'⟩
        · simpa only [headSafePosInc, holds.headSafePosInc_refused outside] using holds
        · simpa only [holds'.headSafePosInc_refused outside] using holds'
  | getBufferData len pos =>
      obtain rfl := Option.some.inj stepped
      obtain ⟨kept, size_eq'⟩ := getBufferData_holds holds len pos
      exact ⟨queue, kept, holds', size_eq'.trans size_eq⟩

/-- A read over the end of the ring leaves the mirrored bytes behind it. -/
theorem getBufferData_straddling {len pos : Nat} (inside : pos + len ≤ rings.xcb.validCount)
    (straddles : rings.Straddles len pos) :
    (rings.xcb.getBufferData len pos).1 = some (rings.xcb.readCounter + pos) ∧
      (∀ address < rings.xcb.bufSize,
        (rings.xcb.getBufferData len pos).2.buffer address = rings.xcb.buffer address) ∧
      ∀ i, (rings.xcb.getBufferData len pos).2.buffer (rings.xcb.bufSize + i) =
        rings.mirrored (rings.overrun len pos) i := by
  obtain ⟨before, beyond⟩ := straddles
  have notOnce : ¬ decide (pos + rings.xcb.readCounter ≥ rings.xcb.bufSize) =
      decide (pos + len + rings.xcb.readCounter > rings.xcb.bufSize) := by
    rw [decide_eq_decide]
    omega
  have m_eq : (pos + rings.xcb.readCounter) % rings.xcb.bufSize = rings.xcb.readCounter + pos := by
    rw [Nat.mod_eq_of_lt (by omega), Nat.add_comm]
  have k_eq : (len : Int) - (rings.xcb.bufSize - (rings.xcb.readCounter + pos : Nat)) =
      (rings.overrun len pos : Int) := by
    unfold overrun
    omega
  simp only [getBufferData, if_neg (by omega : ¬ pos + len > rings.xcb.validCount), if_neg notOnce,
    m_eq, k_eq]
  by_cases cached : (rings.overrun len pos : Int) - rings.xcb.smartCache < 0
  · rw [if_pos cached]
    refine ⟨rfl, fun _ _ => rfl, fun i => ?_⟩
    simp only [mirrored]
    rw [if_neg (by omega)]
  · rw [if_neg cached]
    obtain ⟨l, l_eq⟩ : ∃ l : Nat, (rings.overrun len pos : Int) - rings.xcb.smartCache = l :=
      Int.eq_ofNat_of_zero_le (by omega)
    have l_eq' : rings.overrun len pos - rings.xcb.smartCache = l := by omega
    rw [l_eq, Int.toNat_natCast]
    refine ⟨rfl, fun address below => move_outside (.inl (by omega)), fun i => ?_⟩
    simp only [mirrored, l_eq']
    by_cases copied : l ≤ i ∧ i < l + l
    · rw [if_pos ⟨by omega, copied⟩]
      have offset_lt : i - l < (cells rings.xcb.buffer 0 l).length := by
        rw [cells_length]
        omega
      have := move_inside rings.xcb.buffer (rings.xcb.bufSize + l) offset_lt
      rw [cells_getElem, Nat.zero_add] at this
      rw [← this]
      congr 1
      omega
    · rw [if_neg (by tauto)]
      refine move_outside ?_
      rw [cells_length]
      omega

/-- A read agrees with `THCB` exactly when it is served. -/
theorem HoldSame.agrees_iff (same : rings.HoldSame) (op : Op) :
    rings.Agrees op ↔ rings.Served op := by
  obtain ⟨queue, holds, holds', size_eq⟩ := same
  cases op with
  | writeCirBuffer data => exact Iff.rfl
  | headSafePosInc step => exact Iff.rfl
  | getBufferData len pos =>
      refine forall_congr' fun len_pos => forall_congr' fun inside => ?_
      have inside' : pos + len ≤ queue.length := by rwa [← holds.valid]
      have length_le := holds.length_le
      have read_lt := holds.read_lt
      rw [holds'.getBufferData len pos len_pos inside']
      by_cases straddles : rings.Straddles len pos
      · obtain ⟨pointer_eq, below, behind⟩ := getBufferData_straddling inside straddles
        obtain ⟨before, beyond⟩ := straddles
        let first := rings.xcb.bufSize - (rings.xcb.readCounter + pos)
        have len_eq : len = first + rings.overrun len pos := by
          unfold overrun
          omega
        have wrapped : rings.xcb.readCounter + (pos + first) - rings.xcb.bufSize = 0 := by omega
        have front := holds.window.cells_eq pos first (by omega) (by omega)
        have back := holds.window.cells_eq (pos + first) (rings.overrun len pos) (by omega)
          (by omega)
        rw [wrap_of_lt before] at front
        rw [wrap_of_le (by omega), wrapped, ← List.drop_drop] at back
        have slice : (queue.drop pos).take len =
            cells rings.xcb.buffer (rings.xcb.readCounter + pos) first ++
              cells rings.xcb.buffer 0 (rings.overrun len pos) := by
          rw [front, back, ← List.take_add, ← len_eq]
        have read : cells (rings.xcb.getBufferData len pos).2.buffer
            (rings.xcb.readCounter + pos) len =
              cells rings.xcb.buffer (rings.xcb.readCounter + pos) first ++
                cells (rings.xcb.getBufferData len pos).2.buffer rings.xcb.bufSize
                  (rings.overrun len pos) := by
          have same : cells (rings.xcb.getBufferData len pos).2.buffer
              (rings.xcb.readCounter + pos) first =
                cells rings.xcb.buffer (rings.xcb.readCounter + pos) first :=
            cells_congr.mpr fun offset offset_lt => below _ (by omega)
          have behind_eq : rings.xcb.readCounter + pos + first = rings.xcb.bufSize := by omega
          have split (memory : Nat → Byte) (start : Nat) : cells memory start len =
              cells memory start first ++ cells memory (start + first) (rings.overrun len pos) := by
            rw [← cells_add, ← len_eq]
          rw [split, same, behind_eq]
        simp only [pointer_eq, Option.some.injEq, exists_eq_left', read, slice,
          List.append_cancel_left_eq, cells_congr, behind, Nat.zero_add]
        exact ⟨fun agree _ => agree, fun agree => agree ⟨before, beyond⟩⟩
      · have once : decide (pos + rings.xcb.readCounter ≥ rings.xcb.bufSize) =
            decide (pos + len + rings.xcb.readCounter > rings.xcb.bufSize) := by
          unfold Straddles at straddles
          rw [decide_eq_decide]
          omega
        have m_eq : (pos + rings.xcb.readCounter) % rings.xcb.bufSize =
            wrap rings.xcb.bufSize (rings.xcb.readCounter + pos) := by
          rw [Nat.add_comm, wrap_eq_mod (by omega)]
        simp only [getBufferData, if_neg (by omega : ¬ pos + len > rings.xcb.validCount),
          if_pos once, m_eq]
        refine ⟨fun _ straddles' => absurd straddles' straddles, fun _ => ⟨_, rfl, ?_⟩⟩
        unfold Straddles at straddles
        rw [holds.window.cells_eq pos len inside' (by omega)]

/-- The read asks for two bytes of which the second one stands at the front of the ring. -/
def overrunOps : List Op :=
  [.writeCirBuffer [1, 2, 3, 4], .headSafePosInc 3, .writeCirBuffer [5, 6], .getBufferData 2 0]

end Rings
end THXCB
end CommonLib
