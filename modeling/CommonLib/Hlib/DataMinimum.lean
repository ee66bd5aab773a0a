import Mathlib.Algebra.Order.Floor.Ring
import Mathlib.Data.Rat.Floor
import CommonLib.Hlib.DataWrites
import CommonLib.Library.Minimum

/-!
# The minimum that `GetF` reports

The loop of step 2.5 keeps the least value and the least `Count` of the records that it copies, and
`GetF` writes them to `min`.  The variable `pp` is a `double`, whose numbers are rational here; the
floating point modes are left out.
-/

namespace CommonLib

/-! ## The loop -/

/-- The variables `s` and `pp` of `GetF`. -/
structure Least where
  s : Int
  pp : Rat

namespace Least

/-- Their values before the loop. -/
def start : Least := ⟨99999999, 99999999⟩

/-- What the loop does with a copied record. -/
def take (field : DataField) (least : Least) (data : THData) : Least :=
  { s := if least.s > data.count.toInt then data.count.toInt else least.s
    pp := if least.pp > field.get data.data then field.get data.data else least.pp }

/-- The conversion of a `double` to an integer, which truncates. -/
def truncate (value : Rat) : Int := if 0 ≤ value then ⌊value⌋ else ⌈value⌉

/-- The assignments to `min` behind the loop. -/
def store (field : DataField) (least : Least) (min : THData) : THData :=
  { count := Int32.ofInt least.s
    data := field.set min.data (truncate (least.pp + 1 / 10)) }

end Least

namespace THDataRing

/-- The loop of step 2.5 of `GetF` with the minimum that it keeps. -/
def fetchMin (capacity : Nat) (same : Int → Int → Bool) (inc : Int → Int) (field : DataField)
    (ring : THDataRing) (d2 : Int) : Nat → Int → Nat → Least → Option (List Sample × Least)
  | room, ms, p, least =>
      if ms ≤ d2 then
        match room with
        | 0 => none
        | room + 1 =>
            if same (ring.dateAt capacity p) ms then
              let data := (ring.entryAt capacity p).2
              (ring.fetchMin capacity same inc field d2 room (inc ms) (p + 1)
                (least.take field data)).map fun (entries, least) => ((ms, data) :: entries, least)
            else
              (ring.fetchMin capacity same inc field d2 room (inc ms) p least).map
                fun (entries, least) => ((ms, .zero) :: entries, least)
      else some ([], least)

/-- The records that the loop copies to the output. -/
def copied (capacity : Nat) (same : Int → Int → Bool) (inc : Int → Int) (ring : THDataRing)
    (d2 : Int) : Nat → Int → Nat → List THData
  | 0, _, _ => []
  | room + 1, ms, p =>
      if ms ≤ d2 then
        if same (ring.dateAt capacity p) ms then
          (ring.entryAt capacity p).2 :: ring.copied capacity same inc d2 room (inc ms) (p + 1)
        else ring.copied capacity same inc d2 room (inc ms) p
      else []

end THDataRing

namespace THDataRec

/-- `THDataRec::GetF` in an integer mode, with the record `min`. -/
def getFMin (recorder : THDataRec) (ps : THParticleSize) (startDate endDate : Int) (min : THData) :
    Option (THDataArray × THData) := do
  let field ← dataField recorder.dataMode
  let d1 := recorder.firstTick ps startDate endDate
  let d2 := recorder.endTick ps startDate endDate
  let nstep := unit ps
  let count := (d2.tdiv nstep - d1.tdiv nstep + 1).toNat
  let ring := recorder.ring ps
  if ring.count = 0 then
    (emptyTicks nstep d1 count).map fun entries => (⟨count, entries⟩, .zero)
  else if ring.outside (capacity ps) (recorder.formatTimeStamp ps) d1 d2 then
    (emptyTicks nstep d1 count).map fun entries => (⟨count, entries⟩, .zero)
  else
    let lp ← ring.searchLeft (capacity ps) d1
    let _ ← ring.searchRight (capacity ps) d2 lp
    let (entries, least) ← ring.fetchMin (capacity ps) (recorder.compare · · ps)
      (recorder.incTimestamp · ps) field d2 H_MAX d1 lp .start
    let min := least.store field min
    if fixFlag ps startDate endDate && count == 2 &&
        (entries[1]?.map fun entry => entry.2.count) == some 0 then some (⟨1, entries⟩, min)
    else some (⟨count, entries⟩, min)

/-- The records that a query copies, on arrays without an end. -/
def copied (recorder : THDataRec) (ps : THParticleSize) (startDate endDate : Int) : List THData :=
  let d1 := recorder.firstTick ps startDate endDate
  let d2 := recorder.endTick ps startDate endDate
  let ring := recorder.ring ps
  if ring.count = 0 ∨ ring.outside (capacity ps) (recorder.formatTimeStamp ps) d1 d2 then []
  else
    match ring.searchLeft (capacity ps) d1 with
    | none => []
    | some lp => ring.copied (capacity ps) (recorder.compare · · ps)
        (recorder.incTimestamp · ps) d2 (d2 - d1 + 1).toNat d1 lp

/-- `GetF` returns and reports the least value and the least `Count` of the copied records. -/
def ReportsLeast (recorder : THDataRec) (field : DataField) (ps : THParticleSize)
    (startDate endDate : Int) (min : THData) : Prop :=
  let records := recorder.copied ps startDate endDate
  ∃ array min', recorder.getFMin ps startDate endDate min = some (array, min') ∧
    IsLeast {value | value ∈ records.map fun record => field.get record.data}
      (field.get min'.data) ∧
    IsLeast {count | count ∈ records.map fun record => record.count.toInt} min'.count.toInt

end THDataRec

/-! ## What the loop keeps -/

namespace THDataRing

variable {capacity : Nat} {ring : THDataRing} {same : Int → Int → Bool} {inc : Int → Int}

/-- The minimum is accumulated from the copied records. -/
theorem fetchMin_eq (field : DataField) (d2 : Int) (room : Nat) (ms : Int) (p : Nat)
    (least : Least) :
    ring.fetchMin capacity same inc field d2 room ms p least =
      (ring.fetch capacity same inc d2 room ms p).map fun entries =>
        (entries, (ring.copied capacity same inc d2 room ms p).foldl (Least.take field) least) := by
  induction room generalizing ms p least with
  | zero =>
      rw [fetchMin, fetch]
      split <;> rfl
  | succ room induction =>
      rw [fetchMin, fetch, copied]
      split
      · split
        · simp only [induction, Option.map_map, Function.comp_def, List.foldl_cons]
        · simp only [induction, Option.map_map, Function.comp_def]
      · rfl

/-- Room for the entries is enough for the records. -/
theorem copied_of_length {d2 ms : Int} {room room' p : Nat} {entries : List Sample}
    (fetched : ring.fetch capacity same inc d2 room ms p = some entries)
    (fits : entries.length ≤ room') :
    ring.copied capacity same inc d2 room' ms p = ring.copied capacity same inc d2 room ms p := by
  induction room generalizing room' ms p entries with
  | zero =>
      rw [fetch] at fetched
      split at fetched
      · cases fetched
      · rename_i beyond
        cases room' with
        | zero => rfl
        | succ room' => rw [copied, copied, if_neg beyond]
  | succ room induction =>
      rw [fetch] at fetched
      split at fetched
      · rename_i inside
        split at fetched
        · obtain ⟨later, later_eq, rfl⟩ := Option.map_eq_some_iff.mp fetched
          obtain ⟨left, rfl⟩ := Nat.exists_eq_add_of_le' (Nat.one_le_of_lt fits)
          rename_i here
          rw [copied, copied, if_pos inside, if_pos inside, if_pos here, if_pos here,
            induction later_eq (Nat.le_of_succ_le_succ fits)]
        · obtain ⟨later, later_eq, rfl⟩ := Option.map_eq_some_iff.mp fetched
          obtain ⟨left, rfl⟩ := Nat.exists_eq_add_of_le' (Nat.one_le_of_lt fits)
          rename_i elsewhere
          rw [copied, copied, if_pos inside, if_pos inside, if_neg elsewhere, if_neg elsewhere,
            induction later_eq (Nat.le_of_succ_le_succ fits)]
      · rename_i beyond
        cases room' with
        | zero => rw [copied, copied, if_neg beyond]
        | succ room' => rw [copied, copied, if_neg beyond, if_neg beyond]

end THDataRing

namespace Least

/-- Both variables accumulate a minimum. -/
theorem foldl_take (field : DataField) (records : List THData) (s v : Int) :
    records.foldl (take field) ⟨s, v⟩ =
      ⟨(records.map fun record => record.count.toInt).foldl min s,
        ((records.map fun record => field.get record.data).foldl min v : Int)⟩ := by
  induction records generalizing s v with
  | nil => rfl
  | cons record records induction =>
      have count_eq : (if s > record.count.toInt then record.count.toInt else s) =
          min s record.count.toInt := by
        split <;> omega
      have value_eq : (if (v : Rat) > field.get record.data then (field.get record.data : Rat)
          else v) = (min v (field.get record.data) : Int) := by
        split
        · rename_i less
          rw [min_eq_right (Int.cast_lt.mp less).le]
        · rename_i not_less
          rw [min_eq_left (Int.cast_le.mp (not_lt.mp not_less))]
      rw [List.foldl_cons, take, count_eq, value_eq, induction]
      rfl

/-- The offset keeps a natural number and raises a negative one. -/
theorem truncate_add (value : Int) :
    truncate ((value : Rat) + 1 / 10) = if 0 ≤ value then value else value + 1 := by
  rw [truncate]
  rcases Int.lt_or_le value 0 with negative | nonneg
  · have below : (value : Rat) ≤ -1 := by exact_mod_cast Int.le_sub_one_of_lt negative
    rw [if_neg (by linarith), if_neg (by omega), Int.ceil_eq_iff]
    push_cast
    constructor <;> linarith
  · have above : (0 : Rat) ≤ value := by exact_mod_cast nonneg
    rw [if_pos (by linarith), if_pos nonneg, Int.floor_eq_iff]
    constructor <;> linarith

end Least

namespace DataField

theorem wrap_get (field : DataField) (data : UInt64) :
    field.wrap (field.get data) = field.get data :=
  field.wrap_congr (field.wrap_emod _)

theorem wrap_le (field : DataField) {value : Int} (nonneg : 0 ≤ value) :
    field.wrap value ≤ value := by
  have quotient : 0 ≤ 2 ^ field.bits * (value / 2 ^ field.bits) :=
    Int.mul_nonneg (Int.pow_pos (by decide)).le
      (Int.ediv_nonneg nonneg (Int.pow_pos (by decide)).le)
  have reduced : value % 2 ^ field.bits ≤ value := by
    have := Int.mul_ediv_add_emod value (2 ^ field.bits)
    omega
  rw [wrap]
  split
  · have modulus : (0 : Int) < (2 ^ field.bits : Nat) := by exact_mod_cast Nat.two_pow_pos _
    rw [Int.bmod_def]
    push_cast at modulus ⊢
    split <;> omega
  · exact reduced

/-- Consecutive numbers are different in a member that has a bit. -/
theorem wrap_succ_ne (field : DataField) (positive : 0 < field.bits) (value : Int) :
    field.wrap (value + 1) ≠ field.wrap value := by
  intro same
  have residues := congrArg (· % 2 ^ field.bits) same
  rw [field.wrap_emod, field.wrap_emod] at residues
  have even : (2 : Int) ∣ 2 ^ field.bits := dvd_pow_self 2 positive.ne'
  have parity := congrArg (· % 2) residues
  simp only [Int.emod_emod_of_dvd _ even] at parity
  omega

end DataField

theorem dataField_pos {dm : THDataMode} {field : DataField}
    (integer : dataField dm = some field) : 0 < field.bits := by
  cases dm <;> cases integer <;> decide

namespace Least

/-- What the loop keeps of some records. -/
theorem foldl_start (field : DataField) (records : List THData) :
    records.foldl (take field) start =
      ⟨(records.map fun record => record.count.toInt).foldl min 99999999,
        ((records.map fun record => field.get record.data).foldl min 99999999 : Int)⟩ :=
  foldl_take field records 99999999 99999999

/-- `min->Count` is right unless all counts lie above the sentinel. -/
theorem store_count_iff (field : DataField) (records : List THData) (min : THData) :
    IsLeast {count | count ∈ records.map fun record => record.count.toInt}
        ((records.foldl (take field) start).store field min).count.toInt ↔
      ∃ record ∈ records, record.count.toInt ≤ 99999999 := by
  rw [foldl_start, store]
  have upper := foldl_min_le 99999999 (records.map fun record => record.count.toInt)
  have lower : -2 ^ 31 ≤ (records.map fun record => record.count.toInt).foldl Min.min 99999999 := by
    rcases foldl_min_mem 99999999 (records.map fun record => record.count.toInt) with same | among
    · omega
    · obtain ⟨record, -, equal⟩ := List.mem_map.mp among
      rw [← equal]
      exact record.count.le_toInt
  rw [Int32.toInt_ofInt_of_le lower (by omega), isLeast_foldl_min_iff]
  simp only [List.mem_map, exists_exists_and_eq_and]

/-- `min->Data` is right unless all values lie above the sentinel or one is negative. -/
theorem store_data_iff {dm : THDataMode} {field : DataField} (integer : dataField dm = some field)
    (records : List THData) (min : THData) :
    IsLeast {value | value ∈ records.map fun record => field.get record.data}
        (field.get ((records.foldl (take field) start).store field min).data) ↔
      (∃ record ∈ records, field.get record.data ≤ 99999999) ∧
        ∀ record ∈ records, 0 ≤ field.get record.data := by
  rw [foldl_start, store, field.get_set (dataField_bits integer), truncate_add]
  obtain ⟨values, values_eq⟩ : ∃ values, values = records.map fun record => field.get record.data :=
    ⟨_, rfl⟩
  have wrapped : ∀ value ∈ values, field.wrap value = value := by
    rw [values_eq]
    intro value among
    obtain ⟨record, -, rfl⟩ := List.mem_map.mp among
    exact field.wrap_get _
  have condition : ((∃ record ∈ records, field.get record.data ≤ 99999999) ∧
      ∀ record ∈ records, 0 ≤ field.get record.data) ↔
      (∃ value ∈ values, value ≤ 99999999) ∧ ∀ value ∈ values, 0 ≤ value := by
    rw [values_eq, List.forall_mem_map]
    simp only [List.mem_map, exists_exists_and_eq_and]
  rw [condition, ← values_eq, ← isLeast_foldl_min_iff]
  constructor
  · intro least
    have reached : ∃ value ∈ values, value ≤ 99999999 := by
      by_contra none
      push Not at none
      rw [foldl_min_eq_start none, if_pos (by decide)] at least
      exact absurd (field.wrap_le (by decide)) (none _ least.1).not_ge
    have minimum := (isLeast_foldl_min_iff 99999999 values).mpr reached
    have same := least.unique minimum
    refine ⟨minimum, fun value among => ?_⟩
    split at same
    · rename_i nonneg
      exact nonneg.trans (minimum.2 among)
    · exact absurd (same.trans (wrapped _ minimum.1).symm)
        (field.wrap_succ_ne (dataField_pos integer) _)
  · rintro ⟨minimum, nonneg⟩
    rw [if_pos (nonneg _ minimum.1), wrapped _ minimum.1]
    exact minimum

end Least

/-! ## What a query reports -/

namespace THDataRec

/-- The query has a number of ticks that the arrays hold, its records hold no negative value, and
neither all of their values nor all of their counts exceed the sentinel. -/
structure MinimumFits (recorder : THDataRec) (field : DataField) (ps : THParticleSize)
    (startDate endDate : Int) : Prop where
  ticks : (recorder.endTick ps startDate endDate - recorder.firstTick ps startDate endDate) /
    unit (recorder.resolve ps) < H_MAX
  value : ∃ record ∈ recorder.copied ps startDate endDate, field.get record.data ≤ 99999999
  nonneg : ∀ record ∈ recorder.copied ps startDate endDate, 0 ≤ field.get record.data
  count : ∃ record ∈ recorder.copied ps startDate endDate, record.count.toInt ≤ 99999999

/-- A query that meets the ring returns the minimum of the copied records, if its entries fit. -/
theorem getFMin_spec {recorder : THDataRec} {ps : THParticleSize}
    (count_le : (recorder.ring ps).count ≤ capacity ps) {field : DataField}
    (integer : dataField recorder.dataMode = some field) {startDate endDate : Int}
    (meets : ¬ recorder.Misses ps startDate endDate) (min : THData) :
    let records := recorder.copied ps startDate endDate
    let fits := (recorder.endTick ps startDate endDate -
      recorder.firstTick ps startDate endDate) / unit (recorder.resolve ps) < H_MAX
    (fits → ∃ array, recorder.getFMin ps startDate endDate min =
      some (array, (records.foldl (Least.take field) .start).store field min)) ∧
      (¬ fits → recorder.getFMin ps startDate endDate min = none) := by
  intro records fits
  obtain ⟨filled, inner⟩ := not_or.mp meets
  obtain ⟨lp, rp, left_eq, right_eq⟩ := THDataRing.searches_return count_le filled
    (recorder.firstTick ps startDate endDate) (recorder.endTick ps startDate endDate)
  obtain ⟨entries, fetched, length_eq⟩ := recorder.fetch_ticks ps startDate endDate lp
  have records_eq : records = (recorder.ring ps).copied (capacity ps) (recorder.compare · · ps)
      (recorder.incTimestamp · ps) (recorder.endTick ps startDate endDate)
      (recorder.endTick ps startDate endDate - recorder.firstTick ps startDate endDate + 1).toNat
      (recorder.firstTick ps startDate endDate) lp := by
    simp only [records, copied, left_eq]
    exact if_neg meets
  simp only [getFMin, integer, left_eq, right_eq, Option.bind_eq_bind, Option.bind_some,
    THDataRing.fetchMin_eq]
  rw [if_neg filled, if_neg inner]
  constructor
  · intro few
    have fetched' := THDataRing.fetch_of_length fetched (by omega : entries.length ≤ H_MAX)
    rw [fetched', Option.map_some, Option.bind_some, records_eq,
      ← THDataRing.copied_of_length fetched (by omega : entries.length ≤ H_MAX)]
    split <;> exact ⟨_, rfl⟩
  · intro many
    obtain ⟨first, last, -, first_eq, last_eq⟩ := recorder.exists_ticks ps startDate endDate
    have positive := unit_pos (recorder.resolve ps)
    have long : H_MAX < (last - first + 1).toNat := by
      simp only [fits, first_eq, last_eq, ← Int.mul_sub,
        Int.mul_ediv_cancel_left _ positive.ne'] at many
      omega
    rw [first_eq, last_eq,
      THDataRing.fetch_eq_none positive (recorder.incTimestamp_eq_resolve ps) long]
    rfl

/-- The minimum is right exactly when it fits the accumulator and its offset. -/
theorem reportsLeast_iff {recorder : THDataRec} (reachable : Reachable recorder)
    {field : DataField} (integer : dataField recorder.dataMode = some field) (ps : THParticleSize)
    (startDate endDate : Int) (min : THData) :
    recorder.ReportsLeast field ps startDate endDate min ↔
      recorder.MinimumFits field ps startDate endDate := by
  by_cases misses : recorder.Misses ps startDate endDate
  · have none_copied : recorder.copied ps startDate endDate = [] := if_pos misses
    constructor
    · rintro ⟨array, min', -, -, least⟩
      rw [none_copied] at least
      exact absurd least.1 List.not_mem_nil
    · intro fits
      obtain ⟨record, among, -⟩ := fits.value
      rw [none_copied] at among
      exact absurd among List.not_mem_nil
  · obtain ⟨returns, fails⟩ := getFMin_spec (reachable.count_le ps) integer misses min
    constructor
    · rintro ⟨array, min', min_eq, data_least, count_least⟩
      have ticks := not_not.mp fun many => by
        rw [fails many] at min_eq
        cases min_eq
      obtain ⟨array', min_eq'⟩ := returns ticks
      obtain rfl := (Prod.mk.inj (Option.some.inj (min_eq.symm.trans min_eq'))).2
      obtain ⟨value, nonneg⟩ := (Least.store_data_iff integer _ min).mp data_least
      exact ⟨ticks, value, nonneg, (Least.store_count_iff field _ min).mp count_least⟩
    · intro fits
      obtain ⟨array, min_eq⟩ := returns fits.ticks
      exact ⟨array, _, min_eq,
        (Least.store_data_iff integer _ min).mpr ⟨fits.value, fits.nonneg⟩,
        (Least.store_count_iff field _ min).mpr fits.count⟩

/-- A recorder of signed numbers with one record, of the value in the low bits of `data`. -/
def gauge (data : UInt64) : THDataRec :=
  ((new (fun _ _ _ dst => dst) .dmInt .cmTotal .psSecond false 0 fun _ _ => 0).put id ⟨1, data⟩
    86400 0 0 ⟨none, []⟩).1

theorem gauge_reachable (data : UInt64) : Reachable (gauge data) :=
  .put (.new ..) ..

theorem gauge_reportsLeast_iff :
    (gauge 5).ReportsLeast .aInt .psSecond 86400 86400 .zero ↔
      (gauge 5).MinimumFits .aInt .psSecond 86400 86400 :=
  reportsLeast_iff (gauge_reachable 5) rfl .psSecond 86400 86400 .zero

/-- The value -5 is reported as -4. -/
theorem gauge_not_reportsLeast :
    (gauge 4294967291).copied .psSecond 86400 86400 = [⟨1, 4294967291⟩] ∧
      ¬ (gauge 4294967291).ReportsLeast .aInt .psSecond 86400 86400 .zero := by
  have copied_eq : (gauge 4294967291).copied .psSecond 86400 86400 = [⟨1, 4294967291⟩] := by
    decide +kernel
  refine ⟨copied_eq, ?_⟩
  rintro ⟨array, min', min_eq, least, -⟩
  have reported : ((gauge 4294967291).getFMin .psSecond 86400 86400 .zero).map
      (fun result => DataField.aInt.get result.2.data) = some (-4) := by
    decide +kernel
  rw [min_eq, Option.map_some, Option.some.injEq] at reported
  rw [copied_eq, reported] at least
  have lower : (-4 : Int) ≤ DataField.aInt.get 4294967291 := least.2 List.mem_cons_self
  exact absurd lower (by decide +kernel)

/-! ## Relation to the query without the minimum -/

theorem getFMin_fst {recorder : THDataRec} {field : DataField}
    (integer : dataField recorder.dataMode = some field) (ps : THParticleSize)
    (startDate endDate : Int) (min : THData) :
    (recorder.getFMin ps startDate endDate min).map Prod.fst =
      recorder.getF ps startDate endDate := by
  simp only [getFMin, integer, getF_eq, Option.bind_eq_bind, Option.bind_some,
    THDataRing.fetchMin_eq]
  split_ifs with empty outer
  · rw [Option.map_map]
    rfl
  · rw [Option.map_map]
    rfl
  · rw [Option.map_bind]
    refine Option.bind_congr fun lp _ => ?_
    rw [Function.comp_apply, Option.map_bind]
    refine Option.bind_congr fun rp _ => ?_
    rw [Function.comp_apply, Option.map_bind, Option.bind_map]
    refine Option.bind_congr fun entries _ => ?_
    rw [Function.comp_apply, Function.comp_apply]
    split <;> rfl

end THDataRec
end CommonLib
