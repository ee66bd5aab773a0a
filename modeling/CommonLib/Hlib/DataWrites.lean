import CommonLib.Hlib.DataQuery

/-!
# The entries that `GetF` writes

`GetF` computes the number of ticks from the dates of its caller and writes an entry for each,
whatever the arrays of a `THDataArray` hold.  Here it writes to arrays without an end, so that one
can tell which of the entries lie inside.
-/

namespace CommonLib
namespace THDataRec

/-! ## `GetF` on arrays without an end -/

/-- The first tick of a query. -/
def firstTick (recorder : THDataRec) (ps : THParticleSize) (startDate endDate : Int) : Int :=
  recorder.formatTimeStamp ps (if startDate > endDate then endDate else startDate)

/-- An interval shorter than `nstep` is extended. -/
def fixFlag (ps : THParticleSize) (startDate endDate : Int) : Bool :=
  let d1 := if startDate > endDate then endDate else startDate
  let d2 := if startDate > endDate then startDate else endDate
  decide (d2 - d1 < unit ps)

/-- The end of the ticks of a query. -/
def endTick (recorder : THDataRec) (ps : THParticleSize) (startDate endDate : Int) : Int :=
  let d1 := if startDate > endDate then endDate else startDate
  let d2 := if startDate > endDate then startDate else endDate
  recorder.formatTimeStamp ps (if fixFlag ps startDate endDate then d1 + unit ps else d2)

/-- The loop of `GetF` that writes `data->Count` empty entries. -/
def emptyEntries (nstep d1 count : Int) : List Sample :=
  (List.range count.toNat).map fun (p : Nat) => (d1 + nstep * p, .zero)

/-- `THDataRec::GetF`: the value of `data->Count`, which is an `int`, and the entries that are
written from index 0 on. -/
def getFWrites (recorder : THDataRec) (ps : THParticleSize) (startDate endDate : Int) :
    Option (Int × List Sample) :=
  let d1 := recorder.firstTick ps startDate endDate
  let d2 := recorder.endTick ps startDate endDate
  let nstep := unit ps
  let count := (d2.tdiv nstep - d1.tdiv nstep + 1).bmod (2 ^ 32)
  let ring := recorder.ring ps
  if ring.count = 0 then some (count, emptyEntries nstep d1 count)
  else if ring.outside (capacity ps) (recorder.formatTimeStamp ps) d1 d2 then
    some (count, emptyEntries nstep d1 count)
  else do
    let lp ← ring.searchLeft (capacity ps) d1
    let _ ← ring.searchRight (capacity ps) d2 lp
    -- a turn of the loop for each tick, of which there are no more than seconds
    let entries ← ring.fetch (capacity ps) (recorder.compare · · ps)
      (recorder.incTimestamp · ps) d2 (d2 - d1 + 1).toNat d1 lp
    -- step 100
    if fixFlag ps startDate endDate && count == 2 &&
        (entries[1]?.map fun entry => entry.2.count) == some 0 then some (1, entries)
    else some (count, entries)

/-- `GetF` returns, writes entries of the arrays only and reports no more than they hold. -/
def StaysInside (recorder : THDataRec) (ps : THParticleSize) (startDate endDate : Int) : Prop :=
  ∃ count entries, recorder.getFWrites ps startDate endDate = some (count, entries) ∧
    (∀ index < entries.length, index < H_MAX) ∧ count ≤ H_MAX

/-! ## The number of ticks -/

/-- There is nothing to fetch. -/
def Misses (recorder : THDataRec) (ps : THParticleSize) (startDate endDate : Int) : Prop :=
  (recorder.ring ps).count = 0 ∨
    (recorder.ring ps).outside (capacity ps) (recorder.formatTimeStamp ps)
      (recorder.firstTick ps startDate endDate) (recorder.endTick ps startDate endDate)

/-- The steps of `nstep` seconds from the first tick to the last are so few that their number, as an
`int`, is inside the arrays, and where there are records to fetch so are the units of the size that
`psDefault` stands for. -/
def TicksFit (recorder : THDataRec) (ps : THParticleSize) (startDate endDate : Int) : Prop :=
  let span := recorder.endTick ps startDate endDate - recorder.firstTick ps startDate endDate
  (span / unit ps + 1).bmod (2 ^ 32) ≤ H_MAX ∧
    (¬ recorder.Misses ps startDate endDate → span / unit (recorder.resolve ps) < H_MAX)

theorem length_emptyEntries (nstep d1 count : Int) :
    (emptyEntries nstep d1 count).length = count.toNat := by
  rw [emptyEntries, List.length_map, List.length_range]

theorem unit_dvd_resolve (recorder : THDataRec) (ps : THParticleSize) :
    unit ps ∣ unit (recorder.resolve ps) := by
  rcases eq_or_ne ps .psDefault with rfl | explicit
  · exact Int.one_dvd _
  · rw [recorder.resolve_eq explicit]

/-- The ticks of a query are multiples of the unit, in order. -/
theorem exists_ticks (recorder : THDataRec) (ps : THParticleSize) (startDate endDate : Int) :
    ∃ first last : Int, first ≤ last ∧
      recorder.firstTick ps startDate endDate = unit (recorder.resolve ps) * first ∧
      recorder.endTick ps startDate endDate = unit (recorder.resolve ps) * last := by
  refine ⟨_, _, Int.tdiv_le_tdiv (unit_pos _) ?_, recorder.formatTimeStamp_eq_resolve ps _,
    recorder.formatTimeStamp_eq_resolve ps _⟩
  have positive := unit_pos ps
  simp only [fixFlag, decide_eq_true_eq]
  split_ifs <;> omega

theorem count_eq (recorder : THDataRec) (ps : THParticleSize) (startDate endDate : Int) :
    (recorder.endTick ps startDate endDate).tdiv (unit ps) -
        (recorder.firstTick ps startDate endDate).tdiv (unit ps) =
      (recorder.endTick ps startDate endDate - recorder.firstTick ps startDate endDate) /
        unit ps := by
  obtain ⟨first, last, -, first_eq, last_eq⟩ := recorder.exists_ticks ps startDate endDate
  obtain ⟨factor, unit_eq⟩ := recorder.unit_dvd_resolve ps
  have nonzero := (unit_pos ps).ne'
  rw [first_eq, last_eq, unit_eq, Int.mul_assoc, Int.mul_assoc, ← Int.mul_sub,
    Int.mul_tdiv_cancel_left _ nonzero, Int.mul_tdiv_cancel_left _ nonzero,
    Int.mul_ediv_cancel_left _ nonzero]

end THDataRec

namespace THDataRing

variable {capacity : Nat} {ring : THDataRing}

theorem add_count_le (count_le : ring.count ≤ capacity) (addMethod : THAddMethod)
    (same : Int → Int → Bool) (data : THData) (lastDate : Int) :
    (ring.add capacity addMethod same data lastDate).count ≤ capacity := by
  rw [add]
  split
  · exact count_le
  · dsimp only
    split <;> omega

/-- With enough room the loop of step 2.5 writes one entry for each tick. -/
theorem fetch_length {same : Int → Int → Bool} {inc : Int → Int} {unit : Int}
    (unit_pos : 0 < unit) (inc_eq : ∀ d, inc d = d + unit) {last tick : Int} {room p : Nat}
    (fits : (last - tick + 1).toNat ≤ room) :
    ∃ entries, ring.fetch capacity same inc (unit * last) room (unit * tick) p = some entries ∧
      entries.length = (last - tick + 1).toNat := by
  induction room generalizing tick p with
  | zero =>
      refine ⟨[], ?_, by rw [List.length_nil]; omega⟩
      rw [fetch, if_neg (by rw [Int.mul_le_mul_left unit_pos]; omega)]
  | succ room induction =>
      rw [fetch]
      rcases Int.lt_or_le last tick with beyond | inside
      · refine ⟨[], ?_, by rw [List.length_nil]; omega⟩
        rw [if_neg (by rw [Int.mul_le_mul_left unit_pos]; omega)]
      · have next_eq : inc (unit * tick) = unit * (tick + 1) := by
          rw [inc_eq, Int.mul_add, Int.mul_one]
        rw [if_pos ((Int.mul_le_mul_left unit_pos).mpr inside), next_eq]
        have enough : (last - (tick + 1) + 1).toNat ≤ room := by omega
        split
        · obtain ⟨entries, fetched, length_eq⟩ := induction (p := p + 1) enough
          refine ⟨_, by rw [fetched]; rfl, ?_⟩
          rw [List.length_cons, length_eq]
          omega
        · obtain ⟨entries, fetched, length_eq⟩ := induction (p := p) enough
          refine ⟨_, by rw [fetched]; rfl, ?_⟩
          rw [List.length_cons, length_eq]
          omega

/-- Without enough room the loop runs past the arrays. -/
theorem fetch_eq_none {same : Int → Int → Bool} {inc : Int → Int} {unit : Int}
    (unit_pos : 0 < unit) (inc_eq : ∀ d, inc d = d + unit) {last tick : Int} {room p : Nat}
    (short : room < (last - tick + 1).toNat) :
    ring.fetch capacity same inc (unit * last) room (unit * tick) p = none := by
  have inside : unit * tick ≤ unit * last := (Int.mul_le_mul_left unit_pos).mpr (by omega)
  induction room generalizing tick p with
  | zero => rw [fetch, if_pos inside]
  | succ room induction =>
      have next_eq : inc (unit * tick) = unit * (tick + 1) := by
        rw [inc_eq, Int.mul_add, Int.mul_one]
      have inside' : unit * (tick + 1) ≤ unit * last :=
        (Int.mul_le_mul_left unit_pos).mpr (by omega)
      have rest (p : Nat) :
          ring.fetch capacity same inc (unit * last) room (unit * (tick + 1)) p = none :=
        induction (by omega) inside'
      rw [fetch, if_pos inside, next_eq, rest, rest, Option.map_none, Option.map_none, ite_self]

/-- Room for the entries is enough. -/
theorem fetch_of_length {same : Int → Int → Bool} {inc : Int → Int} {d2 ms : Int}
    {room room' p : Nat} {entries : List Sample}
    (fetched : ring.fetch capacity same inc d2 room ms p = some entries)
    (fits : entries.length ≤ room') :
    ring.fetch capacity same inc d2 room' ms p = some entries := by
  induction room generalizing room' ms p entries with
  | zero =>
      rw [fetch] at fetched
      split at fetched
      · cases fetched
      · rename_i beyond
        cases room' <;> rw [fetch, if_neg beyond, fetched]
  | succ room induction =>
      rw [fetch] at fetched
      split at fetched
      · rename_i inside
        split at fetched
        · obtain ⟨later, later_eq, rfl⟩ := Option.map_eq_some_iff.mp fetched
          obtain ⟨left, rfl⟩ := Nat.exists_eq_add_of_le' (Nat.one_le_of_lt fits)
          rename_i here
          rw [fetch, if_pos inside, if_pos here, induction later_eq (Nat.le_of_succ_le_succ fits),
            Option.map_some]
        · obtain ⟨later, later_eq, rfl⟩ := Option.map_eq_some_iff.mp fetched
          obtain ⟨left, rfl⟩ := Nat.exists_eq_add_of_le' (Nat.one_le_of_lt fits)
          rename_i elsewhere
          rw [fetch, if_pos inside, if_neg elsewhere,
            induction later_eq (Nat.le_of_succ_le_succ fits), Option.map_some]
      · rename_i beyond
        cases room' <;> rw [fetch, if_neg beyond, fetched]

/-- The searches in a ring end. -/
theorem searches_return (count_le : ring.count ≤ capacity) (filled : ring.count ≠ 0) (d1 d2 : Int) :
    ∃ lp rp, ring.searchLeft capacity d1 = some lp ∧ ring.searchRight capacity d2 lp = some rp := by
  have range : ring.sp capacity ≤ ring.ep capacity ∧
      ring.ep capacity - ring.sp capacity < capacity := by
    rw [sp, ep]
    omega
  obtain ⟨left, left_eq, sound⟩ := bisect_sound (ring.dateAt capacity) d1 range.2 le_rfl range.1
    le_rfl (.inl rfl) (.inl ⟨rfl, by omega⟩)
  obtain ⟨after, before⟩ := sound.roundUp_mem range.1
  have rest : ring.ep capacity - left.roundUp (ring.sp capacity) < capacity := by omega
  obtain ⟨right, right_eq, -⟩ := bisect_sound (ring.dateAt capacity) d2 rest le_rfl before le_rfl
    (.inl rfl) (.inl ⟨rfl, by omega⟩)
  exact ⟨_, _, by rw [searchLeft, left_eq, Option.map_some],
    by rw [searchRight, right_eq, Option.map_some]⟩

end THDataRing

namespace THDataRec

/-! ## Where the entries fit -/

/-- The loop of step 2.5 makes as many turns as there are units between the ticks. -/
theorem fetch_ticks (recorder : THDataRec) (ps : THParticleSize) (startDate endDate : Int)
    (p : Nat) :
    ∃ entries, (recorder.ring ps).fetch (capacity ps) (recorder.compare · · ps)
        (recorder.incTimestamp · ps) (recorder.endTick ps startDate endDate)
        (recorder.endTick ps startDate endDate - recorder.firstTick ps startDate endDate + 1).toNat
        (recorder.firstTick ps startDate endDate) p = some entries ∧
      (entries.length : Int) =
        (recorder.endTick ps startDate endDate - recorder.firstTick ps startDate endDate) /
          unit (recorder.resolve ps) + 1 := by
  obtain ⟨first, last, le, first_eq, last_eq⟩ := recorder.exists_ticks ps startDate endDate
  have positive := unit_pos (recorder.resolve ps)
  have seconds : 1 * (last - first) ≤ unit (recorder.resolve ps) * (last - first) :=
    Int.mul_le_mul_of_nonneg_right positive (Int.sub_nonneg.mpr le)
  rw [first_eq, last_eq, ← Int.mul_sub, Int.mul_ediv_cancel_left _ positive.ne']
  have enough : (last - first + 1).toNat ≤
      (unit (recorder.resolve ps) * (last - first) + 1).toNat := by
    omega
  obtain ⟨entries, fetched, length_eq⟩ :=
    THDataRing.fetch_length positive (recorder.incTimestamp_eq_resolve ps) enough
  exact ⟨entries, fetched, by omega⟩

/-- What `GetF` writes and reports. -/
theorem getFWrites_spec (recorder : THDataRec) {ps : THParticleSize}
    (count_le : (recorder.ring ps).count ≤ capacity ps) (startDate endDate : Int) :
    let span := recorder.endTick ps startDate endDate - recorder.firstTick ps startDate endDate
    let count := (span / unit ps + 1).bmod (2 ^ 32)
    ∃ reported entries, recorder.getFWrites ps startDate endDate = some (reported, entries) ∧
      (reported = count ∨ reported = 1 ∧ count = 2) ∧
      (recorder.Misses ps startDate endDate → entries.length = count.toNat) ∧
      (¬ recorder.Misses ps startDate endDate →
        (entries.length : Int) = span / unit (recorder.resolve ps) + 1) := by
  intro span count
  simp only [getFWrites, recorder.count_eq ps startDate endDate]
  split_ifs with empty outer
  · have misses : recorder.Misses ps startDate endDate := .inl empty
    exact ⟨_, _, rfl, .inl rfl, fun _ => length_emptyEntries .., fun meets => absurd misses meets⟩
  · have misses : recorder.Misses ps startDate endDate := .inr outer
    exact ⟨_, _, rfl, .inl rfl, fun _ => length_emptyEntries .., fun meets => absurd misses meets⟩
  · have meets : ¬ recorder.Misses ps startDate endDate := not_or.mpr ⟨empty, outer⟩
    obtain ⟨lp, rp, left_eq, right_eq⟩ := THDataRing.searches_return count_le empty
      (recorder.firstTick ps startDate endDate) (recorder.endTick ps startDate endDate)
    obtain ⟨entries, fetched, length_eq⟩ := recorder.fetch_ticks ps startDate endDate lp
    simp only [left_eq, right_eq, fetched, Option.bind_eq_bind, Option.bind_some]
    split_ifs with trims
    · simp only [Bool.and_eq_true, beq_iff_eq] at trims
      exact ⟨_, _, rfl, .inr ⟨rfl, trims.1.2⟩, fun misses => absurd misses meets,
        fun _ => length_eq⟩
    · exact ⟨_, _, rfl, .inl rfl, fun misses => absurd misses meets, fun _ => length_eq⟩

/-- `GetF` stays inside the arrays exactly when the ticks of its query fit. -/
theorem staysInside_iff (recorder : THDataRec) {ps : THParticleSize}
    (count_le : (recorder.ring ps).count ≤ capacity ps) (startDate endDate : Int) :
    recorder.StaysInside ps startDate endDate ↔ recorder.TicksFit ps startDate endDate := by
  obtain ⟨reported, entries, writes, reported_eq, missed, met⟩ :=
    recorder.getFWrites_spec count_le startDate endDate
  have below : (∀ index < entries.length, index < H_MAX) ↔ entries.length ≤ H_MAX :=
    ⟨fun inside => not_lt.mp fun beyond => absurd (inside H_MAX beyond) (lt_irrefl H_MAX),
      fun le index lt => lt.trans_le le⟩
  have returns : recorder.StaysInside ps startDate endDate ↔
      entries.length ≤ H_MAX ∧ reported ≤ H_MAX := by
    rw [StaysInside, writes]
    constructor
    · rintro ⟨_, _, equal, inside, reported_le⟩
      cases equal
      exact ⟨below.mp inside, reported_le⟩
    · rintro ⟨le, reported_le⟩
      exact ⟨_, _, rfl, below.mpr le, reported_le⟩
  have small : (2 : Int) ≤ H_MAX := by decide
  rw [returns, TicksFit]
  by_cases misses : recorder.Misses ps startDate endDate
  · have length_eq := missed misses
    constructor
    · rintro ⟨-, reported_le⟩
      exact ⟨by omega, fun meets => absurd misses meets⟩
    · rintro ⟨count_le, -⟩
      omega
  · have length_eq := met misses
    constructor
    · rintro ⟨le, reported_le⟩
      exact ⟨by omega, fun _ => by omega⟩
    · rintro ⟨count_le, fits⟩
      have := fits misses
      omega

/-- A recorder of seconds without records. -/
def freshRecorder : THDataRec :=
  new (fun _ _ _ dst => dst) .dmByte .cmTotal .psSecond false 0 fun _ _ => 0

theorem freshRecorder_staysInside_iff :
    freshRecorder.StaysInside .psSecond 0 729 ↔ freshRecorder.TicksFit .psSecond 0 729 :=
  staysInside_iff freshRecorder (by decide) 0 729

theorem freshRecorder_writes_past : ¬ freshRecorder.StaysInside .psSecond 0 730 := by
  have writes : freshRecorder.getFWrites .psSecond 0 730 = some (731, emptyEntries 1 0 731) := rfl
  rintro ⟨count, entries, equal, -, count_le⟩
  rw [writes] at equal
  cases equal
  exact absurd count_le (by decide)

/-! ## Relation to the query with arrays -/

theorem getF_eq (recorder : THDataRec) (ps : THParticleSize) (startDate endDate : Int) :
    recorder.getF ps startDate endDate =
      (let d1 := recorder.firstTick ps startDate endDate
      let d2 := recorder.endTick ps startDate endDate
      let count := (d2.tdiv (unit ps) - d1.tdiv (unit ps) + 1).toNat
      let ring := recorder.ring ps
      if ring.count = 0 then (emptyTicks (unit ps) d1 count).map (THDataArray.mk count)
      else if ring.outside (capacity ps) (recorder.formatTimeStamp ps) d1 d2 then
        (emptyTicks (unit ps) d1 count).map (THDataArray.mk count)
      else do
        let lp ← ring.searchLeft (capacity ps) d1
        let _ ← ring.searchRight (capacity ps) d2 lp
        let entries ← ring.fetch (capacity ps) (recorder.compare · · ps)
          (recorder.incTimestamp · ps) d2 H_MAX d1 lp
        if fixFlag ps startDate endDate && count == 2 &&
            (entries[1]?.map fun entry => entry.2.count) == some 0 then some ⟨1, entries⟩
        else some ⟨count, entries⟩) :=
  rfl

/-- Where the entries fit and their number is not cut off, the query returns them. -/
theorem getF_eq_of_writes (recorder : THDataRec) {ps : THParticleSize}
    (count_le : (recorder.ring ps).count ≤ capacity ps) {startDate endDate : Int}
    (fits : recorder.TicksFit ps startDate endDate)
    (short : (recorder.endTick ps startDate endDate - recorder.firstTick ps startDate endDate) /
      unit ps + 1 < 2 ^ 31) :
    ∃ count entries, recorder.getFWrites ps startDate endDate = some (count, entries) ∧
      recorder.getF ps startDate endDate = some ⟨count.toNat, entries⟩ := by
  obtain ⟨bounded, met⟩ := fits
  obtain ⟨first, last, le, first_eq, last_eq⟩ := recorder.exists_ticks ps startDate endDate
  have nonneg : 0 ≤ (recorder.endTick ps startDate endDate -
      recorder.firstTick ps startDate endDate) / unit ps := by
    refine Int.ediv_nonneg ?_ (unit_pos ps).le
    rw [first_eq, last_eq, ← Int.mul_sub]
    exact Int.mul_nonneg (unit_pos _).le (Int.sub_nonneg.mpr le)
  have uncut : ((recorder.endTick ps startDate endDate - recorder.firstTick ps startDate endDate) /
      unit ps + 1).bmod (2 ^ 32) = (recorder.endTick ps startDate endDate -
        recorder.firstTick ps startDate endDate) / unit ps + 1 :=
    Int.bmod_eq_of_le (by omega) (by omega)
  rw [uncut] at bounded
  simp only [getF_eq, getFWrites, recorder.count_eq ps startDate endDate, uncut]
  generalize (recorder.endTick ps startDate endDate - recorder.firstTick ps startDate endDate) /
    unit ps + 1 = count at bounded nonneg ⊢
  have ticks_eq : emptyTicks (unit ps) (recorder.firstTick ps startDate endDate) count.toNat =
      some (emptyEntries (unit ps) (recorder.firstTick ps startDate endDate) count) :=
    if_pos (by omega)
  split_ifs with empty outer
  · exact ⟨_, _, rfl, by rw [ticks_eq, Option.map_some]⟩
  · exact ⟨_, _, rfl, by rw [ticks_eq, Option.map_some]⟩
  · obtain ⟨lp, rp, left_eq, right_eq⟩ := THDataRing.searches_return count_le empty
      (recorder.firstTick ps startDate endDate) (recorder.endTick ps startDate endDate)
    obtain ⟨entries, fetched, length_eq⟩ := recorder.fetch_ticks ps startDate endDate lp
    have bound := met (not_or.mpr ⟨empty, outer⟩)
    have fetched' := THDataRing.fetch_of_length fetched (by omega : entries.length ≤ H_MAX)
    have two_iff : (count.toNat == 2) = (count == 2) := by
      rw [Bool.eq_iff_iff, beq_iff_eq, beq_iff_eq]
      omega
    simp only [left_eq, right_eq, fetched, fetched', Option.bind_eq_bind, Option.bind_some, two_iff]
    split_ifs
    · exact ⟨_, _, rfl, rfl⟩
    · exact ⟨_, _, rfl, rfl⟩

/-! ## Reachable recorders -/

/-- A recorder that calls of `Put` leave behind. -/
inductive Reachable : THDataRec → Prop
  | new (floating : THDataMode → THCollectMode → THAddMethod) (dm : THDataMode)
      (cm : THCollectMode) (ps : THParticleSize) (writeToDisk : Bool) (clock : Int)
      (memory : THParticleSize → Nat → Int) :
      Reachable (new floating dm cm ps writeToDisk clock memory)
  | put {ν : Type} [DecidableEq ν] {recorder : THDataRec} (reachable : Reachable recorder)
      (archiveName : Int → ν) (data : THData) (time clock clock' : Int) (files : DataFiles ν) :
      Reachable (recorder.put archiveName data time clock clock' files).1

/-- No ring counts more records than it has slots. -/
theorem Reachable.count_le {recorder : THDataRec} (reachable : Reachable recorder)
    (ps : THParticleSize) : (recorder.ring ps).count ≤ capacity ps := by
  induction reachable with
  | new floating dm cm size writeToDisk clock memory => cases ps <;> exact Nat.zero_le _
  | @put ν _ recorder reachable archiveName data time clock clock' files induction =>
      obtain ⟨ring_eq, -, -⟩ :=
        put_alike archiveName recorder ⟨data, time, clock, clock'⟩ files
      have added := ring_eq ps
      rw [ring_add] at added
      rw [added]
      split
      · exact THDataRing.add_count_le induction ..
      · exact induction

end THDataRec
end CommonLib
