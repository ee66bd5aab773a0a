import Mathlib.Data.List.Intervals
import CommonLib.Hlib.DataRings
import CommonLib.Library.Bisect

/-!
# Queries of a recorder

`THDataRec::Get` returns the records of a ring between two dates, and `THDataRec::GetF` one record
for each second, minute, hour or day between them.  In the source each of them has one copy for
every particle size, all alike; here they depend on the ring, its capacity and its unit.
-/

namespace CommonLib

/-- The result of a query: the fields `Count`, and `Dates` and `Data` as far as they are written. -/
structure THDataArray where
  count : Nat
  entries : List Sample
  deriving DecidableEq

namespace THDataRing

/-- The date at a position, which counts on past the end of the ring. -/
def dateAt (capacity : Nat) (ring : THDataRing) (position : Nat) : Int :=
  ring.dates (position % capacity)

/-- The record at a position, with its date. -/
def entryAt (capacity : Nat) (ring : THDataRing) (position : Nat) : Sample :=
  (ring.dateAt capacity position, ring.data (position % capacity))

/-- The position `ep` of the newest record. -/
def ep (capacity : Nat) (ring : THDataRing) : Nat := ring.index + capacity

/-- The position `sp` of the oldest record. -/
def sp (capacity : Nat) (ring : THDataRing) : Nat := ring.ep capacity - ring.count + 1

/-- Steps 2.1 and 2.2: the position `lp` of the first record that is not before `d1`. -/
def searchLeft (capacity : Nat) (ring : THDataRing) (d1 : Int) : Option Nat :=
  (bisect (ring.dateAt capacity) d1 capacity (ring.sp capacity) (ring.ep capacity)).map
    (Bisection.roundUp (ring.sp capacity))

/-- Steps 2.3 and 2.4: the position `rp`, searched for from `lp` on. -/
def searchRight (capacity : Nat) (ring : THDataRing) (d2 : Int) (lp : Nat) : Option Nat :=
  (bisect (ring.dateAt capacity) d2 capacity lp (ring.ep capacity)).map
    (Bisection.roundDown (ring.ep capacity))

/-- The interval lies outside the formatted dates of the ring. -/
def outside (capacity : Nat) (format : Int → Int) (ring : THDataRing) (d1 d2 : Int) : Prop :=
  d1 > format (ring.dateAt capacity (ring.ep capacity)) ∨
    d2 < format (ring.dateAt capacity (ring.sp capacity))

instance (capacity : Nat) (format : Int → Int) (ring : THDataRing) (d1 d2 : Int) :
    Decidable (ring.outside capacity format d1 d2) :=
  inferInstanceAs (Decidable (_ ∨ _))

/-- A branch of `Get`. -/
def get (capacity : Nat) (format : Int → Int) (ring : THDataRing) (d1 d2 : Int) :
    Option THDataArray :=
  if ring.count = 0 then some ⟨0, []⟩
  else if ring.outside capacity format d1 d2 then some ⟨0, []⟩
  else do
    let lp ← ring.searchLeft capacity d1
    let rp ← ring.searchRight capacity d2 lp
    some
      { count := rp + 1 - lp
        entries := (List.Ico lp (rp + 1)).map (ring.entryAt capacity) }

/-- The loop of step 2.5 of `GetF` from the time `ms` and the position `p` on, with `room` entries
left in the arrays; it is `none` if they do not suffice. -/
def fetch (capacity : Nat) (same : Int → Int → Bool) (inc : Int → Int) (ring : THDataRing)
    (d2 : Int) : Nat → Int → Nat → Option (List Sample)
  | room, ms, p =>
      if ms ≤ d2 then
        match room with
        | 0 => none
        | room + 1 =>
            if same (ring.dateAt capacity p) ms then
              (ring.fetch capacity same inc d2 room (inc ms) (p + 1)).map
                ((ms, (ring.entryAt capacity p).2) :: ·)
            else (ring.fetch capacity same inc d2 room (inc ms) p).map ((ms, .zero) :: ·)
      else some []

end THDataRing

/-- The loop of `GetF` where there is nothing to fetch. -/
def emptyTicks (unit d1 : Int) (count : Nat) : Option (List Sample) :=
  if count ≤ H_MAX then some ((List.range count).map fun (p : Nat) => (d1 + unit * p, .zero))
  else none

namespace THDataRec

/-- `THDataRec::Get`. -/
def get (recorder : THDataRec) (ps : THParticleSize) (startDate endDate : Int) :
    Option THDataArray :=
  let d1 := if startDate > endDate then endDate else startDate
  let d2 := if startDate > endDate then startDate else endDate
  (recorder.ring ps).get (capacity ps) (recorder.formatTimeStamp ps) d1 d2

/-- `THDataRec::GetF` without the minimum that it also computes.  It is `none` if the entries do not
fit into the arrays. -/
def getF (recorder : THDataRec) (ps : THParticleSize) (startDate endDate : Int) :
    Option THDataArray :=
  let d1 := if startDate > endDate then endDate else startDate
  let d2 := if startDate > endDate then startDate else endDate
  let nstep := unit ps
  let fixFlag : Bool := decide (d2 - d1 < nstep)
  let d2 := if fixFlag then d1 + nstep else d2
  let d1 := recorder.formatTimeStamp ps d1
  let d2 := recorder.formatTimeStamp ps d2
  let count := (d2.tdiv nstep - d1.tdiv nstep + 1).toNat
  let ring := recorder.ring ps
  if ring.count = 0 then (emptyTicks nstep d1 count).map (THDataArray.mk count)
  else if ring.outside (capacity ps) (recorder.formatTimeStamp ps) d1 d2 then
    (emptyTicks nstep d1 count).map (THDataArray.mk count)
  else do
    let lp ← ring.searchLeft (capacity ps) d1
    let _ ← ring.searchRight (capacity ps) d2 lp
    let entries ← ring.fetch (capacity ps) (recorder.compare · · ps)
      (recorder.incTimestamp · ps) d2 H_MAX d1 lp
    -- step 100: an interval within one unit was extended
    if fixFlag && count == 2 && (entries[1]?.map fun entry => entry.2.count) == some 0 then
      some ⟨1, entries⟩
    else some ⟨count, entries⟩

end THDataRec

/-! ## Rings in order of time -/

/-- The records of a ring are of increasing buckets, and a slot without a record is empty. -/
structure Chronological (capacity : Nat) (unit : Int) (ring : THDataRing) : Prop where
  unit_pos : 0 < unit
  count_le : ring.count ≤ capacity
  late : ∀ record ∈ ring.records capacity, 86400 ≤ record.1
  increasing : (ring.records capacity).Pairwise fun earlier later =>
    bucketOf unit earlier < bucketOf unit later
  held : ∀ slot < capacity,
    (ring.dates slot, ring.data slot) ∈ ring.records capacity ∨ ring.data slot = .zero

theorem THDataRing.Tracks.chronological {capacity : Nat} {ring : THDataRing} {unit : Int}
    {buckets : List (Int × Sample)} (tracks : ring.Tracks capacity buckets)
    (unit_pos : 0 < unit) (dated : Dated unit buckets)
    (increasing : (buckets.map Prod.fst).Pairwise (· < ·)) :
    Chronological capacity unit ring where
  unit_pos := unit_pos
  count_le := by
    rw [tracks.count_eq]
    exact Nat.min_le_right _ _
  late := by
    rw [tracks.records_eq]
    intro record member
    obtain ⟨bucket, bucket_mem, rfl⟩ := List.mem_map.mp member
    exact (dated bucket (List.mem_of_mem_drop bucket_mem)).2
  increasing := by
    rw [tracks.records_eq, List.pairwise_map]
    refine List.Pairwise.imp_of_mem ?_
      ((List.pairwise_map.mp increasing).sublist (List.drop_sublist _ _))
    intro earlier later earlier_mem later_mem lt
    rw [← (dated earlier (List.mem_of_mem_drop earlier_mem)).1,
      ← (dated later (List.mem_of_mem_drop later_mem)).1]
    exact lt
  held := by
    intro slot inside
    rcases Nat.lt_or_ge slot buckets.length with used | unused
    · left
      -- the newest bucket that the slot has held
      obtain ⟨round, below, above⟩ : ∃ round, round * capacity ≤ buckets.length - 1 - slot ∧
          buckets.length - 1 - slot < round * capacity + capacity :=
        ⟨_, Nat.div_mul_le_self _ _, Nat.lt_div_mul_add (Nat.zero_lt_of_lt inside)⟩
      have number_lt : slot + round * capacity < buckets.length := by omega
      have here := tracks.stored (slot + round * capacity) number_lt (by omega)
      rw [Nat.add_mul_mod_self_right, Nat.mod_eq_of_lt inside] at here
      rw [here, tracks.records_eq]
      refine List.mem_map_of_mem ?_
      rw [List.mem_drop_iff_getElem]
      refine ⟨slot + round * capacity - (buckets.length - capacity), by omega, ?_⟩
      congr 1
      omega
    · exact .inr (tracks.fresh slot unused inside)

namespace Chronological

variable {capacity : Nat} {unit : Int} {ring : THDataRing}

/-- The records of a ring lie at the positions from `sp` to `ep`. -/
theorem records_eq (chronological : Chronological capacity unit ring) :
    ring.records capacity =
      (List.Ico (ring.sp capacity) (ring.ep capacity + 1)).map (ring.entryAt capacity) := by
  have count_le := chronological.count_le
  have length_eq : ring.ep capacity + 1 - ring.sp capacity = ring.count := by
    simp only [THDataRing.sp, THDataRing.ep]
    omega
  rw [List.Ico, length_eq, List.range'_eq_map_range, List.map_map, THDataRing.records]
  refine List.map_congr_left fun age member => ?_
  have age_lt := List.mem_range.mp member
  have position_eq : ring.sp capacity + age = ring.index + capacity - (ring.count - 1) + age := by
    simp only [THDataRing.sp, THDataRing.ep]
    omega
  rw [Function.comp_apply, position_eq]
  rfl

theorem sp_le (chronological : Chronological capacity unit ring) (filled : ring.count ≠ 0) :
    ring.sp capacity ≤ ring.ep capacity := by
  have count_le := chronological.count_le
  simp only [THDataRing.sp, THDataRing.ep]
  omega

theorem ep_sub_lt (chronological : Chronological capacity unit ring) (filled : ring.count ≠ 0)
    {position : Nat} (after : ring.sp capacity ≤ position) :
    ring.ep capacity - position < capacity := by
  have count_le := chronological.count_le
  simp only [THDataRing.sp, THDataRing.ep] at after ⊢
  omega

theorem mem_records (chronological : Chronological capacity unit ring) {record : Sample} :
    record ∈ ring.records capacity ↔ ∃ position, ring.sp capacity ≤ position ∧
      position ≤ ring.ep capacity ∧ ring.entryAt capacity position = record := by
  rw [chronological.records_eq, List.mem_map]
  simp only [List.Ico.mem, Nat.lt_succ_iff, and_assoc]

theorem late_at (chronological : Chronological capacity unit ring) {position : Nat}
    (after : ring.sp capacity ≤ position) (before : position ≤ ring.ep capacity) :
    86400 ≤ ring.dateAt capacity position :=
  chronological.late _ (chronological.mem_records.mpr ⟨position, after, before, rfl⟩)

theorem bucket_lt (chronological : Chronological capacity unit ring) {first second : Nat}
    (after : ring.sp capacity ≤ first) (lt : first < second)
    (before : second ≤ ring.ep capacity) :
    (ring.dateAt capacity first).tdiv unit < (ring.dateAt capacity second).tdiv unit := by
  have increasing := chronological.increasing
  rw [chronological.records_eq, List.pairwise_map, List.Ico,
    List.pairwise_iff_getElem] at increasing
  have here := increasing (first - ring.sp capacity) (second - ring.sp capacity)
    (by rw [List.length_range']; omega) (by rw [List.length_range']; omega) (by omega)
  simp only [List.getElem_range', Nat.one_mul] at here
  rwa [Nat.add_sub_cancel' after, Nat.add_sub_cancel' (by omega)] at here

theorem dateAt_increasing (chronological : Chronological capacity unit ring) :
    Increasing (ring.dateAt capacity) (ring.sp capacity) (ring.ep capacity) := by
  intro first second after lt before
  have bucket_lt := chronological.bucket_lt after lt before
  have first_late := chronological.late_at after (by omega)
  have second_late := chronological.late_at (by omega) before
  rw [Int.tdiv_eq_ediv_of_nonneg (by omega), Int.tdiv_eq_ediv_of_nonneg (by omega)] at bucket_lt
  by_contra not_lt
  have := Int.ediv_le_ediv chronological.unit_pos (Int.not_lt.mp not_lt)
  omega

theorem dates_increasing (chronological : Chronological capacity unit ring) :
    (ring.records capacity).Pairwise fun earlier later => earlier.1 < later.1 := by
  rw [chronological.records_eq, List.pairwise_map]
  refine (List.Ico.pairwise_lt _ _).imp_of_mem fun first_mem second_mem lt => ?_
  exact chronological.dateAt_increasing _ _ (List.Ico.mem.mp first_mem).1 lt
    (Nat.le_of_lt_succ (List.Ico.mem.mp second_mem).2)

/-- A record is not before a tick exactly when its bucket is not. -/
theorem tick_le_iff (chronological : Chronological capacity unit ring) {position : Nat}
    (after : ring.sp capacity ≤ position) (before : position ≤ ring.ep capacity) (tick : Int) :
    unit * tick ≤ ring.dateAt capacity position ↔
      tick ≤ (ring.dateAt capacity position).tdiv unit := by
  have late := chronological.late_at after before
  rw [Int.tdiv_eq_ediv_of_nonneg (by omega), Int.le_ediv_iff_mul_le chronological.unit_pos,
    Int.mul_comm]

/-! ### The two searches -/

theorem searchLeft_spec (chronological : Chronological capacity unit ring)
    (filled : ring.count ≠ 0) {d1 : Int}
    (reached : d1 ≤ ring.dateAt capacity (ring.ep capacity)) :
    ∃ lp, ring.searchLeft capacity d1 = some lp ∧ ring.sp capacity ≤ lp ∧
      lp ≤ ring.ep capacity ∧ d1 ≤ ring.dateAt capacity lp ∧
      ∀ position, ring.sp capacity ≤ position → position < lp →
        ring.dateAt capacity position < d1 := by
  have sp_le := chronological.sp_le filled
  have long : ring.sp capacity < ring.ep capacity ∨ ring.sp capacity = ring.ep capacity := by omega
  obtain ⟨result, ended, sound⟩ :=
    bisect_sound (ring.dateAt capacity) d1 (chronological.ep_sub_lt filled le_rfl)
      le_rfl sp_le le_rfl (.inl rfl) (.inl ⟨rfl, long⟩)
  obtain ⟨after, before, here, earlier⟩ :=
    sound.roundUp_spec chronological.dateAt_increasing sp_le reached
  exact ⟨_, by rw [THDataRing.searchLeft, ended, Option.map_some], after, before, here, earlier⟩

theorem searchRight_spec (chronological : Chronological capacity unit ring)
    (filled : ring.count ≠ 0) (d2 : Int) {lp : Nat} (after : ring.sp capacity ≤ lp)
    (before : lp ≤ ring.ep capacity) :
    ∃ result : Bisection,
      ring.searchRight capacity d2 lp = some (result.roundDown (ring.ep capacity)) ∧
      result.Sound (ring.dateAt capacity) d2 lp (ring.ep capacity) := by
  have long : lp < ring.ep capacity ∨ lp = ring.ep capacity := by omega
  obtain ⟨result, ended, sound⟩ :=
    bisect_sound (ring.dateAt capacity) d2 (chronological.ep_sub_lt filled after)
      le_rfl before le_rfl (.inl rfl) (.inl ⟨rfl, long⟩)
  exact ⟨result, by rw [THDataRing.searchRight, ended, Option.map_some], sound⟩

end Chronological

/-! ## The records between two dates -/

/-- The records of a ring with dates from `d1` to `d2`. -/
def THDataRing.inside (capacity : Nat) (ring : THDataRing) (d1 d2 : Int) : List Sample :=
  (ring.records capacity).filter fun record => d1 ≤ record.1 ∧ record.1 ≤ d2

/-- `get` returns the records between the dates. -/
def THDataRing.GetsExactly (capacity : Nat) (format : Int → Int) (ring : THDataRing)
    (d1 d2 : Int) : Prop :=
  ring.get capacity format d1 d2 =
    some ⟨(ring.inside capacity d1 d2).length, ring.inside capacity d1 d2⟩

/-- The dates from `d1` to `d2` end before the oldest bucket; or they begin after the newest bucket
has begun, and the newest record is not among them; or they begin earlier and hold a record, and
hold the newest record only if they hold no other. -/
def THDataRing.Answers (capacity : Nat) (format : Int → Int) (ring : THDataRing) (d1 d2 : Int) :
    Prop :=
  ∀ oldest newest, (ring.records capacity).head? = some oldest →
    (ring.records capacity).getLast? = some newest →
      d2 < format oldest.1 ∨
        (format newest.1 < d1 ∧ newest ∉ ring.inside capacity d1 d2) ∨
        (d1 ≤ format newest.1 ∧ ring.inside capacity d1 d2 ≠ [] ∧
          (newest ∈ ring.inside capacity d1 d2 → ring.inside capacity d1 d2 = [newest]))

namespace Chronological

variable {capacity : Nat} {unit : Int} {ring : THDataRing} {format : Int → Int}

theorem head_eq (chronological : Chronological capacity unit ring) (filled : ring.count ≠ 0) :
    (ring.records capacity).head? = some (ring.entryAt capacity (ring.sp capacity)) := by
  have sp_le := chronological.sp_le filled
  rw [chronological.records_eq, List.Ico.eq_cons (by omega)]
  rfl

theorem getLast_eq (chronological : Chronological capacity unit ring) (filled : ring.count ≠ 0) :
    (ring.records capacity).getLast? = some (ring.entryAt capacity (ring.ep capacity)) := by
  have sp_le := chronological.sp_le filled
  rw [chronological.records_eq, List.Ico.succ_top sp_le, List.map_append]
  simp

/-- The records between the dates lie at the positions between two bounds. -/
theorem inside_eq (chronological : Chronological capacity unit ring) {d1 d2 : Int} {lp rp : Nat}
    (after : ring.sp capacity ≤ lp) (le : lp ≤ rp) (before : rp ≤ ring.ep capacity + 1)
    (early : ∀ position, ring.sp capacity ≤ position → position < lp →
      ring.dateAt capacity position < d1)
    (between : ∀ position, lp ≤ position → position < rp →
      d1 ≤ ring.dateAt capacity position ∧ ring.dateAt capacity position ≤ d2)
    (late : ∀ position, rp ≤ position → position ≤ ring.ep capacity →
      d2 < ring.dateAt capacity position) :
    ring.inside capacity d1 d2 = (List.Ico lp rp).map (ring.entryAt capacity) := by
  rw [THDataRing.inside, chronological.records_eq, List.filter_map,
    ← List.Ico.append_consecutive (after.trans le) before, ← List.Ico.append_consecutive after le,
    List.filter_append, List.filter_append]
  have early_nil : (List.Ico (ring.sp capacity) lp).filter
      ((fun record : Sample => decide (d1 ≤ record.1 ∧ record.1 ≤ d2)) ∘ ring.entryAt capacity) =
        [] := by
    rw [List.filter_eq_nil_iff]
    intro position member
    rw [Function.comp_apply, decide_eq_true_eq]
    rintro ⟨le, -⟩
    exact absurd le (early position (List.Ico.mem.mp member).1 (List.Ico.mem.mp member).2).not_ge
  have between_self : (List.Ico lp rp).filter
      ((fun record : Sample => decide (d1 ≤ record.1 ∧ record.1 ≤ d2)) ∘ ring.entryAt capacity) =
        List.Ico lp rp := by
    rw [List.filter_eq_self]
    intro position member
    rw [Function.comp_apply, decide_eq_true_eq]
    exact between position (List.Ico.mem.mp member).1 (List.Ico.mem.mp member).2
  have late_nil : (List.Ico rp (ring.ep capacity + 1)).filter
      ((fun record : Sample => decide (d1 ≤ record.1 ∧ record.1 ≤ d2)) ∘ ring.entryAt capacity) =
        [] := by
    rw [List.filter_eq_nil_iff]
    intro position member
    rw [Function.comp_apply, decide_eq_true_eq]
    rintro ⟨-, le⟩
    exact absurd le (late position (List.Ico.mem.mp member).1
      (Nat.le_of_lt_succ (List.Ico.mem.mp member).2)).not_ge
  rw [early_nil, between_self, late_nil, List.nil_append, List.append_nil]

theorem newest_mem_inside (chronological : Chronological capacity unit ring)
    (filled : ring.count ≠ 0) (d1 d2 : Int) :
    ring.entryAt capacity (ring.ep capacity) ∈ ring.inside capacity d1 d2 ↔
      d1 ≤ ring.dateAt capacity (ring.ep capacity) ∧
        ring.dateAt capacity (ring.ep capacity) ≤ d2 := by
  rw [THDataRing.inside, List.mem_filter, decide_eq_true_eq]
  exact and_iff_right
    (chronological.mem_records.mpr ⟨_, chronological.sp_le filled, le_rfl, rfl⟩)

/-- What `get` returns, and the records between the dates: they differ when the dates hold no
record, and when they hold the newest record and others. -/
theorem get_cases (chronological : Chronological capacity unit ring) (filled : ring.count ≠ 0)
    {d1 d2 : Int} (inner : ¬ ring.outside capacity format d1 d2)
    (reached : d1 ≤ ring.dateAt capacity (ring.ep capacity)) :
    ∃ lp rp stop,
      ring.get capacity format d1 d2 =
        some ⟨rp + 1 - lp, (List.Ico lp (rp + 1)).map (ring.entryAt capacity)⟩ ∧
      ring.inside capacity d1 d2 = (List.Ico lp stop).map (ring.entryAt capacity) ∧
      ring.sp capacity ≤ lp ∧ lp ≤ rp ∧
      (stop = lp ∧ rp = ring.ep capacity ∨
        stop = rp + 1 ∧ rp ≤ ring.ep capacity ∧ (rp = ring.ep capacity → lp = rp) ∨
        stop = ring.ep capacity + 1 ∧ rp < ring.ep capacity ∧ lp < ring.ep capacity) := by
  obtain ⟨lp, left_eq, after, before, here, early⟩ := chronological.searchLeft_spec filled reached
  obtain ⟨result, right_eq, sound⟩ := chronological.searchRight_spec filled d2 after before
  have increasing : Increasing (ring.dateAt capacity) lp (ring.ep capacity) :=
    fun first second le lt le' =>
      chronological.dateAt_increasing first second (after.trans le) lt le'
  refine ⟨lp, result.roundDown (ring.ep capacity), ?_⟩
  have get_eq : ring.get capacity format d1 d2 =
      some ⟨result.roundDown (ring.ep capacity) + 1 - lp,
        (List.Ico lp (result.roundDown (ring.ep capacity) + 1)).map (ring.entryAt capacity)⟩ := by
    rw [THDataRing.get, if_neg filled, if_neg inner, left_eq]
    simp only [Option.bind_eq_bind, Option.bind_some, right_eq]
  rcases Int.lt_or_le d2 (ring.dateAt capacity lp) with gap | within
  · have rp_eq := sound.roundDown_of_lt increasing gap
    refine ⟨lp, get_eq, ?_, after, by omega, .inl ⟨rfl, rp_eq⟩⟩
    exact chronological.inside_eq after le_rfl (by omega) early
      (fun position le lt => by omega)
      (fun position le le' => gap.trans_le (increasing.le le_rfl le le'))
  · rcases Nat.lt_or_eq_of_le before with long | single
    · obtain ⟨lp_le, rp_lt, rp_within, late⟩ := sound.roundDown_spec increasing within long
      rcases Int.lt_or_le d2 (ring.dateAt capacity (ring.ep capacity)) with newer | newest
      · refine ⟨_, get_eq, ?_, after, lp_le, .inr (.inl ⟨rfl, rp_lt.le, by omega⟩)⟩
        refine chronological.inside_eq after (by omega) (by omega) early
          (fun position le lt => ⟨here.trans (increasing.le le_rfl le (by omega)),
            (increasing.le le (by omega) rp_lt.le).trans rp_within⟩)
          (fun position le le' => ?_)
        rcases Nat.lt_or_eq_of_le le' with lt | rfl
        · exact late position le lt
        · exact newer
      · refine ⟨_, get_eq, ?_, after, lp_le, .inr (.inr ⟨rfl, rp_lt, long⟩)⟩
        exact chronological.inside_eq after (by omega) le_rfl early
          (fun position le lt => ⟨here.trans (increasing.le le_rfl le (by omega)),
            (increasing.le le (by omega) le_rfl).trans newest⟩)
          (fun position le le' => by omega)
    · subst single
      have rp_eq := sound.roundDown_single
      refine ⟨ring.ep capacity + 1, get_eq, ?_, after, by omega,
        .inr (.inl ⟨by omega, by omega, by omega⟩)⟩
      exact chronological.inside_eq after (by omega) le_rfl early
        (fun position le lt => by
          obtain rfl : position = ring.ep capacity := by omega
          exact ⟨here, within⟩)
        (fun position le le' => by omega)

theorem answers_iff (chronological : Chronological capacity unit ring)
    (filled : ring.count ≠ 0) {d1 d2 : Int} :
    ring.Answers capacity format d1 d2 ↔
      d2 < format (ring.dateAt capacity (ring.sp capacity)) ∨
        (format (ring.dateAt capacity (ring.ep capacity)) < d1 ∧
          ring.entryAt capacity (ring.ep capacity) ∉ ring.inside capacity d1 d2) ∨
        (d1 ≤ format (ring.dateAt capacity (ring.ep capacity)) ∧
          ring.inside capacity d1 d2 ≠ [] ∧
          (ring.entryAt capacity (ring.ep capacity) ∈ ring.inside capacity d1 d2 →
            ring.inside capacity d1 d2 = [ring.entryAt capacity (ring.ep capacity)])) := by
  rw [THDataRing.Answers, chronological.head_eq filled, chronological.getLast_eq filled]
  constructor
  · intro answers
    exact answers _ _ rfl rfl
  · rintro answers _ _ rfl' rfl''
    obtain rfl := Option.some.inj rfl'
    obtain rfl := Option.some.inj rfl''
    exact answers

/-- A date with its format: the beginning of its bucket, which is later than the buckets before. -/
theorem format_le (chronological : Chronological capacity unit ring)
    (formats : ∀ d, format d = unit * d.tdiv unit) {position : Nat}
    (after : ring.sp capacity ≤ position) (before : position ≤ ring.ep capacity) :
    format (ring.dateAt capacity position) ≤ ring.dateAt capacity position := by
  rw [formats, chronological.tick_le_iff after before]

theorem lt_format (chronological : Chronological capacity unit ring)
    (formats : ∀ d, format d = unit * d.tdiv unit) {first second : Nat}
    (after : ring.sp capacity ≤ first) (lt : first < second)
    (before : second ≤ ring.ep capacity) :
    ring.dateAt capacity first < format (ring.dateAt capacity second) := by
  rw [formats, ← Int.not_le, chronological.tick_le_iff after (by omega), Int.not_le]
  exact chronological.bucket_lt after lt before

/-- Outside its formatted dates the ring has at most its newest record between the dates. -/
theorem inside_eq_nil_iff (chronological : Chronological capacity unit ring)
    (filled : ring.count ≠ 0) (formats : ∀ d, format d = unit * d.tdiv unit) {d1 d2 : Int}
    (outer : ring.outside capacity format d1 d2) :
    ring.inside capacity d1 d2 = [] ↔
      d2 < format (ring.dateAt capacity (ring.sp capacity)) ∨
        ring.entryAt capacity (ring.ep capacity) ∉ ring.inside capacity d1 d2 := by
  have sp_le := chronological.sp_le filled
  constructor
  · intro empty
    rw [empty]
    exact .inr List.not_mem_nil
  · intro missed
    rw [List.eq_nil_iff_forall_not_mem]
    intro record member
    have newest_mem := chronological.newest_mem_inside filled d1 d2
    obtain ⟨held, between⟩ := List.mem_filter.mp member
    rw [decide_eq_true_eq] at between
    obtain ⟨position, after, before, rfl⟩ := chronological.mem_records.mp held
    have oldest_le := chronological.format_le formats le_rfl sp_le
    have le_position := chronological.dateAt_increasing.le le_rfl after before
    simp only [THDataRing.entryAt] at between
    rcases missed with missed | missed
    · omega
    · rcases Nat.lt_or_eq_of_le before with lt | rfl
      · have lt_newest := chronological.lt_format formats after lt le_rfl
        rcases outer with outer | outer <;> omega
      · exact missed member

/-- `get` is exact under the condition. -/
theorem getsExactly_iff (chronological : Chronological capacity unit ring)
    (formats : ring.count ≠ 0 → ∀ d, format d = unit * d.tdiv unit) {d1 d2 : Int} :
    ring.GetsExactly capacity format d1 d2 ↔ ring.Answers capacity format d1 d2 := by
  by_cases filled : ring.count = 0
  · have empty : ring.records capacity = [] := by
      rw [THDataRing.records, filled]
      rfl
    refine iff_of_true ?_ ?_
    · rw [THDataRing.GetsExactly, THDataRing.get, if_pos filled, THDataRing.inside, empty]
      rfl
    · intro oldest newest oldest_eq
      rw [empty] at oldest_eq
      cases oldest_eq
  · specialize formats filled
    have oldest_le := chronological.format_le formats le_rfl (chronological.sp_le filled)
    have newest_le := chronological.format_le formats (chronological.sp_le filled) le_rfl
    rw [chronological.answers_iff filled]
    by_cases outer : ring.outside capacity format d1 d2
    · have exact_iff : ring.GetsExactly capacity format d1 d2 ↔
          ring.inside capacity d1 d2 = [] := by
        rw [THDataRing.GetsExactly, THDataRing.get, if_neg filled, if_pos outer]
        constructor
        · intro equal
          exact (congrArg THDataArray.entries (Option.some.inj equal)).symm
        · intro empty
          rw [empty]
          rfl
      rw [exact_iff, chronological.inside_eq_nil_iff filled formats outer]
      unfold THDataRing.outside at outer
      constructor
      · rintro (early | missed)
        · exact .inl early
        · exact outer.symm.imp_right fun late => .inl ⟨late, missed⟩
      · rintro (early | ⟨-, missed⟩ | ⟨le, -⟩)
        · exact .inl early
        · exact .inr missed
        · exact .inl (outer.resolve_left le.not_gt)
    · have inner := outer
      simp only [THDataRing.outside, not_or, not_lt, gt_iff_lt] at outer
      obtain ⟨lp, rp, stop, get_eq, inside_eq, after, le, ends⟩ :=
        chronological.get_cases filled inner (outer.1.trans newest_le)
      have length_eq := congrArg List.length inside_eq
      rw [List.length_map, List.Ico.length] at length_eq
      have exact_iff : ring.GetsExactly capacity format d1 d2 ↔ stop = rp + 1 := by
        rw [THDataRing.GetsExactly, get_eq]
        constructor
        · intro equal
          have := congrArg THDataArray.count (Option.some.inj equal)
          dsimp only at this
          omega
        · rintro rfl
          rw [inside_eq, List.length_map, List.Ico.length]
      have newest_mem := chronological.newest_mem_inside filled d1 d2
      rw [exact_iff, or_iff_right outer.2.not_gt, or_iff_right (fun late => outer.1.not_gt late.1),
        and_iff_right outer.1]
      rcases ends with ⟨rfl, rfl⟩ | ⟨rfl, rp_le, single⟩ | ⟨rfl, rp_lt, lp_lt⟩
      · -- the dates hold no record
        refine iff_of_false (by omega) fun answers => answers.1 ?_
        rw [inside_eq, List.Ico.self_empty]
        rfl
      · refine iff_of_true rfl ⟨?_, fun member => ?_⟩
        · rw [ne_eq, ← List.length_eq_zero_iff]
          omega
        · obtain ⟨position, position_mem, equal⟩ := List.mem_map.mp (inside_eq ▸ member)
          obtain ⟨position_ge, position_lt⟩ := List.Ico.mem.mp position_mem
          have rp_eq : rp = ring.ep capacity := by
            by_contra different
            have := chronological.dateAt_increasing position (ring.ep capacity) (by omega)
              (by omega) le_rfl
            exact this.ne (congrArg Prod.fst equal)
          rw [inside_eq, single rp_eq, rp_eq, List.Ico.succ_singleton]
          rfl
      · -- the dates hold the newest record and others
        refine iff_of_false (by omega) fun answers => ?_
        have member : ring.entryAt capacity (ring.ep capacity) ∈ ring.inside capacity d1 d2 := by
          rw [inside_eq]
          exact List.mem_map_of_mem (List.Ico.mem.mpr ⟨by omega, by omega⟩)
        rw [answers.2 member, List.length_singleton] at length_eq
        omega

end Chronological

/-! ## Queries after calls of `Put` -/

namespace THDataRec

variable {ν : Type} [DecidableEq ν]

/-- Dates are formatted to multiples of the unit that the particle size stands for. -/
theorem formatTimeStamp_eq_resolve (recorder : THDataRec) (ps : THParticleSize) (d : Int) :
    recorder.formatTimeStamp ps d =
      unit (recorder.resolve ps) * d.tdiv (unit (recorder.resolve ps)) := by
  rw [formatTimeStamp]
  cases recorder.resolve ps with
  | psDefault => simp [unit]
  | psSecond => simp [unit]
  | psMinute => exact (Int.mul_tdiv_self ..).symm
  | psHour => exact (Int.mul_tdiv_self ..).symm
  | psDay => exact (Int.mul_tdiv_self ..).symm

theorem incTimestamp_eq_resolve (recorder : THDataRec) (ps : THParticleSize) (d : Int) :
    recorder.incTimestamp d ps = d + unit (recorder.resolve ps) := by
  rw [incTimestamp]
  cases recorder.resolve ps <;> rfl

theorem resolve_eq (recorder : THDataRec) {ps : THParticleSize} (explicit : ps ≠ .psDefault) :
    recorder.resolve ps = ps :=
  if_neg explicit

theorem formatTimeStamp_eq (recorder : THDataRec) {ps : THParticleSize}
    (explicit : ps ≠ .psDefault) (d : Int) :
    recorder.formatTimeStamp ps d = unit ps * d.tdiv (unit ps) := by
  rw [formatTimeStamp_eq_resolve, recorder.resolve_eq explicit]

theorem incTimestamp_eq (recorder : THDataRec) {ps : THParticleSize}
    (explicit : ps ≠ .psDefault) (d : Int) : recorder.incTimestamp d ps = d + unit ps := by
  rw [incTimestamp_eq_resolve, recorder.resolve_eq explicit]

/-- The default size formats as its ring does, for recorders by seconds. -/
theorem formatTimeStamp_default (recorder : THDataRec)
    (seconds : level recorder.particleSize ≤ level .psDefault) (d : Int) :
    recorder.formatTimeStamp .psDefault d = unit .psDefault * d.tdiv (unit .psDefault) := by
  have format_eq : recorder.formatTimeStamp .psDefault d = d := by
    unfold formatTimeStamp resolve
    rw [if_pos rfl]
    revert seconds
    cases recorder.particleSize <;> simp [level]
  rw [format_eq]
  simp [unit]

/-- After calls of `Put` in order of time every ring is in order of time, and a ring that holds
records is reached by the recorder's particle size. -/
theorem putAll_chronological (archiveName : Int → ν)
    (floating : THDataMode → THCollectMode → THAddMethod) (dm : THDataMode) (cm : THCollectMode)
    (particleSize : THParticleSize) (writeToDisk : Bool) (clock : Int)
    (memory : THParticleSize → Nat → Int) (files : DataFiles ν) {calls : List PutCall}
    (sorted : calls.Pairwise fun earlier later => earlier.time ≤ later.time)
    (late : ∀ call ∈ calls, 86400 ≤ call.time) {recorder : THDataRec}
    (recorder_eq : (putAll archiveName
      (new floating dm cm particleSize writeToDisk clock memory, files) calls).1 = recorder)
    (ps : THParticleSize) :
    Chronological (capacity ps) (unit ps) (recorder.ring ps) ∧
      ((recorder.ring ps).count ≠ 0 → level recorder.particleSize ≤ level ps) := by
  obtain ⟨records, -, -⟩ :=
    putAll_records archiveName floating dm cm particleSize writeToDisk clock memory files late
  rw [recorder_eq] at records
  obtain ⟨tracks, dated⟩ := records ps
  unfold buckets at tracks dated
  split at tracks
  · next reached =>
      rw [if_pos reached] at dated
      have aggregates := aggregates_of_dates (unit_pos ps) recorder.addMethod
        (List.pairwise_map.mpr sorted) (samplesOf_late late)
      exact ⟨tracks.chronological (unit_pos ps) dated aggregates.increasing, fun _ => reached⟩
  · next unreached =>
      rw [if_neg unreached] at dated
      refine ⟨tracks.chronological (unit_pos ps) dated .nil, fun filled => ?_⟩
      rw [tracks.count_eq, List.length_nil, Nat.zero_min] at filled
      exact absurd rfl filled

/-- `Get` returns the records between two dates, in order, exactly under the condition. -/
theorem get_exactly_iff (archiveName : Int → ν)
    (floating : THDataMode → THCollectMode → THAddMethod) (dm : THDataMode) (cm : THCollectMode)
    (particleSize : THParticleSize) (writeToDisk : Bool) (clock : Int)
    (memory : THParticleSize → Nat → Int) (files : DataFiles ν) {calls : List PutCall}
    (sorted : calls.Pairwise fun earlier later => earlier.time ≤ later.time)
    (late : ∀ call ∈ calls, 86400 ≤ call.time) {recorder : THDataRec}
    (recorder_eq : (putAll archiveName
      (new floating dm cm particleSize writeToDisk clock memory, files) calls).1 = recorder)
    (ps : THParticleSize) (startDate endDate : Int) :
    let inside := (recorder.ring ps).inside (capacity ps) (min startDate endDate)
      (max startDate endDate)
    inside.Pairwise (fun earlier later => earlier.1 < later.1) ∧
      (recorder.get ps startDate endDate = some ⟨inside.length, inside⟩ ↔
        (recorder.ring ps).Answers (capacity ps) (recorder.formatTimeStamp ps)
          (min startDate endDate) (max startDate endDate)) := by
  obtain ⟨chronological, reached⟩ := putAll_chronological archiveName floating dm cm particleSize
    writeToDisk clock memory files sorted late recorder_eq ps
  refine ⟨chronological.dates_increasing.filter _, ?_⟩
  have d1_eq : (if startDate > endDate then endDate else startDate) = min startDate endDate := by
    split <;> omega
  have d2_eq : (if startDate > endDate then startDate else endDate) = max startDate endDate := by
    split <;> omega
  rw [get, d1_eq, d2_eq]
  refine chronological.getsExactly_iff fun filled d => ?_
  by_cases default : ps = .psDefault
  · subst default
    exact recorder.formatTimeStamp_default (reached filled) d
  · exact recorder.formatTimeStamp_eq default d

/-- Two samples in consecutive seconds. -/
def twoPuts : List PutCall := [⟨⟨1, 5⟩, 86400, 0, 0⟩, ⟨⟨1, 6⟩, 86401, 0, 0⟩]

/-- A recorder of bytes with two samples. -/
def twoPutsRecorder : THDataRec :=
  (putAll id (new (fun _ _ _ dst => dst) .dmByte .cmTotal .psSecond false 0 fun _ _ => 0,
    ⟨none, []⟩) twoPuts).1

theorem twoPuts_get_exactly :
    twoPutsRecorder.get .psSecond 86400 86400 = some ⟨1, [(86400, ⟨1, 5⟩)]⟩ := by
  obtain ⟨-, exactly_iff⟩ :=
    get_exactly_iff id (fun _ _ _ dst => dst) .dmByte .cmTotal .psSecond false 0 (fun _ _ => 0)
      ⟨none, []⟩ (by decide : twoPuts.Pairwise fun earlier later => earlier.time ≤ later.time)
      (by decide) (rfl : _ = twoPutsRecorder) .psSecond 86400 86400
  have inside_eq : (twoPutsRecorder.ring .psSecond).inside (capacity .psSecond)
      (min 86400 86400) (max 86400 86400) = [(86400, ⟨1, 5⟩)] := by
    decide
  have records_eq : (twoPutsRecorder.ring .psSecond).records (capacity .psSecond) =
      [(86400, ⟨1, 5⟩), (86401, ⟨1, 6⟩)] := by
    decide
  rw [inside_eq] at exactly_iff
  refine exactly_iff.mpr fun oldest newest oldest_eq newest_eq => .inr (.inr ?_)
  rw [records_eq] at newest_eq
  obtain rfl := Option.some.inj newest_eq
  rw [inside_eq]
  decide

/-- The search for the last record never tests the newest one. -/
theorem twoPuts_get_not_exactly :
    ¬ twoPutsRecorder.get .psSecond 86400 86401 =
      some ⟨2, [(86400, ⟨1, 5⟩), (86401, ⟨1, 6⟩)]⟩ ∧
    (twoPutsRecorder.ring .psSecond).inside (capacity .psSecond) 86400 86401 =
      [(86400, ⟨1, 5⟩), (86401, ⟨1, 6⟩)] := by
  decide

end THDataRec

/-! ## One entry for each tick -/

/-- The entry of a tick: the record of the bucket, or zero if there is none. -/
def tickEntry (unit : Int) (records : List Sample) (tick : Int) : Sample :=
  (unit * tick,
    ((records.find? fun record => bucketOf unit record = tick).map Prod.snd).getD .zero)

/-- The entries of consecutive ticks. -/
def tickEntries (unit : Int) (records : List Sample) (tick : Int) (count : Nat) : List Sample :=
  (List.range count).map fun (number : Nat) => tickEntry unit records (tick + number)

theorem tickEntries_succ (unit : Int) (records : List Sample) (tick : Int) (count : Nat) :
    tickEntries unit records tick (count + 1) =
      tickEntry unit records tick :: tickEntries unit records (tick + 1) count := by
  rw [tickEntries, List.range_succ_eq_map, List.map_cons, List.map_map, tickEntries]
  congr 1
  · simp
  · refine List.map_congr_left fun number _ => ?_
    rw [Function.comp_apply, Int.natCast_succ, ← Int.add_assoc, Int.add_right_comm]

theorem tickEntry_eq_zero {unit : Int} {records : List Sample} {tick : Int}
    (missing : ∀ record ∈ records, bucketOf unit record ≠ tick) :
    tickEntry unit records tick = (unit * tick, .zero) := by
  have none_eq : (records.find? fun record => bucketOf unit record = tick) = none := by
    rw [List.find?_eq_none]
    intro record member
    simpa using missing record member
  rw [tickEntry, none_eq]
  rfl

theorem tickEntry_eq_record {unit : Int} {records : List Sample} {record : Sample}
    (increasing : records.Pairwise fun earlier later => bucketOf unit earlier < bucketOf unit later)
    (member : record ∈ records) :
    tickEntry unit records (bucketOf unit record) = (unit * bucketOf unit record, record.2) := by
  have some_eq : (records.find? fun other => bucketOf unit other = bucketOf unit record) =
      some record := by
    induction increasing with
    | nil => cases member
    | cons earlier _ induction =>
        rcases List.mem_cons.mp member with rfl | later
        · exact List.find?_cons_of_pos (by simp)
        · rw [List.find?_cons_of_neg (by simpa using (earlier record later).ne)]
          exact induction later
  rw [tickEntry, some_eq]
  rfl

namespace Chronological

variable {capacity : Nat} {unit : Int} {ring : THDataRing}

/-- The position `p` is at the first record whose bucket is not before the tick, if there is one. -/
def Aligned (capacity : Nat) (unit : Int) (ring : THDataRing) (tick : Int) (p : Nat) : Prop :=
  (ring.sp capacity ≤ p ∧ p ≤ ring.ep capacity ∧ tick ≤ (ring.dateAt capacity p).tdiv unit ∧
      ∀ position, ring.sp capacity ≤ position → position < p →
        (ring.dateAt capacity position).tdiv unit < tick) ∨
    ∀ record ∈ ring.records capacity, bucketOf unit record < tick

/-- No record is of the tick if the position is not at one. -/
theorem Aligned.missing (chronological : Chronological capacity unit ring) {tick : Int} {p : Nat}
    (aligned : Aligned capacity unit ring tick p)
    (other : (ring.dateAt capacity p).tdiv unit ≠ tick) :
    ∀ record ∈ ring.records capacity, bucketOf unit record ≠ tick := by
  intro record member same
  rcases aligned with ⟨after, before, reached, earlier⟩ | past
  · obtain ⟨position, position_after, position_before, rfl⟩ := chronological.mem_records.mp member
    simp only [bucketOf, THDataRing.entryAt] at same
    rcases Nat.lt_trichotomy position p with lt | rfl | gt
    · exact (earlier position position_after lt).ne same
    · exact other same
    · have := chronological.bucket_lt after gt position_before
      omega
  · exact (past record member).ne same

/-- A position that is not at a record of the tick is aligned with the next tick. -/
theorem Aligned.skip {tick : Int} {p : Nat} (aligned : Aligned capacity unit ring tick p)
    (other : (ring.dateAt capacity p).tdiv unit ≠ tick) :
    Aligned capacity unit ring (tick + 1) p := by
  rcases aligned with ⟨after, before, reached, earlier⟩ | past
  · refine .inl ⟨after, before, by omega, fun position position_after lt => ?_⟩
    have := earlier position position_after lt
    omega
  · exact .inr fun record member => (past record member).trans (by omega)

/-- Behind a record of the tick the position is aligned with the next tick. -/
theorem Aligned.advance (chronological : Chronological capacity unit ring) {tick : Int} {p : Nat}
    (aligned : Aligned capacity unit ring tick p)
    (same : (ring.dateAt capacity p).tdiv unit = tick) :
    Aligned capacity unit ring (tick + 1) (p + 1) := by
  rcases aligned with ⟨after, before, reached, earlier⟩ | past
  · have through : ∀ position, ring.sp capacity ≤ position → position < p + 1 →
        (ring.dateAt capacity position).tdiv unit < tick + 1 := by
      intro position position_after lt
      rcases Nat.lt_succ_iff_lt_or_eq.mp lt with lt | rfl
      · have := earlier position position_after lt
        omega
      · omega
    rcases Nat.lt_or_eq_of_le before with lt | rfl
    · have := chronological.bucket_lt after (Nat.lt_add_one p) lt
      exact .inl ⟨by omega, lt, by omega, through⟩
    · refine .inr fun record member => ?_
      obtain ⟨position, position_after, position_before, rfl⟩ :=
        chronological.mem_records.mp member
      exact through position position_after (Nat.lt_succ_of_le position_before)
  · exact .inr fun record member => (past record member).trans (by omega)

/-- At a record of the tick, or at a slot whose date is of the tick, is the data of its entry. -/
theorem Aligned.entry_eq (chronological : Chronological capacity unit ring)
    (capacity_pos : 0 < capacity) {tick : Int} {p : Nat}
    (aligned : Aligned capacity unit ring tick p)
    (same : (ring.dateAt capacity p).tdiv unit = tick) :
    tickEntry unit (ring.records capacity) tick =
      (unit * tick, (ring.entryAt capacity p).2) := by
  rcases aligned with ⟨after, before, reached, earlier⟩ | past
  · have member : ring.entryAt capacity p ∈ ring.records capacity :=
      chronological.mem_records.mpr ⟨p, after, before, rfl⟩
    rw [← same]
    exact tickEntry_eq_record chronological.increasing member
  · -- behind the newest record the date is of a slot that was never written
    rw [tickEntry_eq_zero fun record member => (past record member).ne]
    rcases chronological.held (p % capacity) (Nat.mod_lt _ capacity_pos) with held | zero
    · exact absurd same (past _ held).ne
    · rw [THDataRing.entryAt, zero]

/-- The loop fetches the entries of the ticks that are left. -/
theorem fetch_eq (chronological : Chronological capacity unit ring) (capacity_pos : 0 < capacity)
    {same : Int → Int → Bool} {inc : Int → Int}
    (same_iff : ∀ d1 d2, same d1 d2 = true ↔ d1.tdiv unit = d2.tdiv unit)
    (inc_eq : ∀ d, inc d = d + unit) {last : Int} {room count : Nat} {tick : Int} {p : Nat}
    (aligned : Aligned capacity unit ring tick p) (count_eq : count = (last - tick + 1).toNat)
    (fits : count ≤ room) :
    ring.fetch capacity same inc (unit * last) room (unit * tick) p =
      some (tickEntries unit (ring.records capacity) tick count) := by
  have unit_pos := chronological.unit_pos
  induction room generalizing count tick p with
  | zero =>
      rw [THDataRing.fetch, if_neg (by rw [Int.mul_le_mul_left unit_pos]; omega)]
      obtain rfl : count = 0 := by omega
      rfl
  | succ room induction =>
      rw [THDataRing.fetch]
      by_cases inside : tick ≤ last
      · obtain ⟨left, rfl⟩ : ∃ left, count = left + 1 := ⟨count - 1, by omega⟩
        have next_eq : inc (unit * tick) = unit * (tick + 1) := by
          rw [inc_eq, Int.mul_add, Int.mul_one]
        have tick_eq : (unit * tick).tdiv unit = tick := Int.mul_tdiv_cancel_left _ unit_pos.ne'
        rw [if_pos ((Int.mul_le_mul_left unit_pos).mpr inside), tickEntries_succ, next_eq]
        have left_eq : left = (last - (tick + 1) + 1).toNat := by omega
        by_cases here : (ring.dateAt capacity p).tdiv unit = tick
        · have rest := induction (aligned.advance chronological here) left_eq (by omega)
          rw [if_pos ((same_iff _ _).mpr (here.trans tick_eq.symm)), rest,
            aligned.entry_eq chronological capacity_pos here]
          rfl
        · have rest := induction (aligned.skip here) left_eq (by omega)
          rw [if_neg fun equal => here (((same_iff _ _).mp equal).trans tick_eq), rest,
            tickEntry_eq_zero (aligned.missing chronological here)]
          rfl
      · rw [if_neg (by rw [Int.mul_le_mul_left unit_pos]; omega)]
        obtain rfl : count = 0 := by omega
        rfl

end Chronological

/-! ## Resampling after calls of `Put` -/

/-- The last tick of `GetF`: that of the end date, or for an interval shorter than a unit the tick
one unit after the start. -/
def lastTick (unit d1 d2 : Int) : Int :=
  (if d2 - d1 < unit then d1 + unit else d2).tdiv unit

theorem tdiv_add_unit_le {unit : Int} (unit_pos : 0 < unit) (d : Int) :
    (d + unit).tdiv unit ≤ d.tdiv unit + 1 := by
  have nonzero := unit_pos.ne'
  have dvd_iff : unit ∣ d + unit ↔ unit ∣ d := Int.dvd_add_left (Int.dvd_refl unit)
  rw [Int.tdiv_eq_ediv, Int.tdiv_eq_ediv, Int.add_ediv_of_dvd_right (Int.dvd_refl unit),
    Int.ediv_self nonzero, Int.sign_eq_one_of_pos unit_pos]
  simp only [dvd_iff]
  split_ifs <;> omega

/-- An interval that meets two ticks is not changed. -/
theorem lastTick_eq {unit d1 d2 : Int} (unit_pos : 0 < unit) (le : d1 ≤ d2)
    (different : d1.tdiv unit ≠ d2.tdiv unit) : lastTick unit d1 d2 = d2.tdiv unit := by
  unfold lastTick
  split
  · have first_le := Int.tdiv_le_tdiv unit_pos le
    have second_le := Int.tdiv_le_tdiv unit_pos (by omega : d2 ≤ d1 + unit)
    have := tdiv_add_unit_le unit_pos d1
    omega
  · rfl

theorem first_le_lastTick {unit d1 d2 : Int} (unit_pos : 0 < unit) (le : d1 ≤ d2) :
    d1.tdiv unit ≤ lastTick unit d1 d2 := by
  refine Int.tdiv_le_tdiv unit_pos ?_
  split <;> omega

/-- Without records among them all ticks are empty. -/
theorem emptyTicks_eq {unit : Int} {records : List Sample} {first last : Int} {count : Nat}
    (missing : ∀ record ∈ records, bucketOf unit record < first ∨ last < bucketOf unit record)
    (count_eq : count = (last - first + 1).toNat) (fits : count ≤ H_MAX) :
    emptyTicks unit (unit * first) count = some (tickEntries unit records first count) := by
  rw [emptyTicks, if_pos fits, tickEntries]
  congr 1
  refine List.map_congr_left fun number member => ?_
  have number_lt := List.mem_range.mp member
  rw [tickEntry_eq_zero fun record held => ?_, Int.mul_add]
  have := missing record held
  omega

/-- Outside the formatted dates of a ring there is no record of a tick. -/
theorem Chronological.outside_missing {capacity : Nat} {unit : Int} {ring : THDataRing}
    {format : Int → Int} (chronological : Chronological capacity unit ring)
    (formats : ∀ d, format d = unit * d.tdiv unit) {first last : Int}
    (outer : ring.outside capacity format (unit * first) (unit * last)) :
    ∀ record ∈ ring.records capacity,
      bucketOf unit record < first ∨ last < bucketOf unit record := by
  have unit_pos := chronological.unit_pos
  intro record member
  obtain ⟨position, after, before, rfl⟩ := chronological.mem_records.mp member
  simp only [THDataRing.outside, formats, gt_iff_lt, Int.mul_lt_mul_left unit_pos] at outer
  rw [bucketOf]
  rcases outer with newest | oldest
  · left
    rcases Nat.lt_or_eq_of_le before with lt | rfl
    · exact (chronological.bucket_lt after lt le_rfl).trans newest
    · exact newest
  · right
    rcases Nat.lt_or_eq_of_le after with lt | rfl
    · exact oldest.trans (chronological.bucket_lt le_rfl lt before)
    · exact oldest

namespace THDataRec

variable {ν : Type} [DecidableEq ν]

/-- `GetF` returns one entry for each tick.  Only for an interval shorter than a unit it leaves out
the second of two ticks if that has no values. -/
theorem getF_resamples (archiveName : Int → ν)
    (floating : THDataMode → THCollectMode → THAddMethod) (dm : THDataMode) (cm : THCollectMode)
    (particleSize : THParticleSize) (writeToDisk : Bool) (clock : Int)
    (memory : THParticleSize → Nat → Int) (files : DataFiles ν) {calls : List PutCall}
    (sorted : calls.Pairwise fun earlier later => earlier.time ≤ later.time)
    (late : ∀ call ∈ calls, 86400 ≤ call.time) {recorder : THDataRec}
    (recorder_eq : (putAll archiveName
      (new floating dm cm particleSize writeToDisk clock memory, files) calls).1 = recorder)
    {ps : THParticleSize} (explicit : ps ≠ .psDefault) {startDate endDate d1 d2 first last : Int}
    (d1_eq : d1 = min startDate endDate) (d2_eq : d2 = max startDate endDate)
    (first_eq : first = d1.tdiv (unit ps)) (last_eq : last = lastTick (unit ps) d1 d2)
    (fits : last - first + 1 ≤ H_MAX) :
    let ticks := tickEntries (unit ps) ((recorder.ring ps).records (capacity ps)) first
      (last - first + 1).toNat
    (first ≠ d2.tdiv (unit ps) → last = d2.tdiv (unit ps)) ∧
      ∃ count, recorder.getF ps startDate endDate = some ⟨count, ticks⟩ ∧
        (count = ticks.length ∨
          count = 1 ∧ ticks.length = 2 ∧ d2 - d1 < unit ps ∧
            ∀ second, ticks[1]? = some second → second.2.count = 0) := by
  intro ticks
  have unit_pos := unit_pos ps
  have le : d1 ≤ d2 := by omega
  have first_le := first_le_lastTick unit_pos le
  refine ⟨fun different => ?_, ?_⟩
  · rw [last_eq]
    exact lastTick_eq unit_pos le (first_eq ▸ different)
  obtain ⟨chronological, -⟩ := putAll_chronological archiveName floating dm cm particleSize
    writeToDisk clock memory files sorted late recorder_eq ps
  have formats := recorder.formatTimeStamp_eq explicit
  have d1_eq' : (if startDate > endDate then endDate else startDate) = d1 := by
    split <;> omega
  have d2_eq' : (if startDate > endDate then startDate else endDate) = d2 := by
    split <;> omega
  have last_eq' : (if d2 - d1 < unit ps then d1 + unit ps else d2).tdiv (unit ps) = last :=
    last_eq.symm
  have tick_eq : ∀ tick : Int, (unit ps * tick).tdiv (unit ps) = tick :=
    fun tick => Int.mul_tdiv_cancel_left _ unit_pos.ne'
  have length_eq : ticks.length = (last - first + 1).toNat := by
    simp [ticks, tickEntries]
  simp only [getF, d1_eq', d2_eq', decide_eq_true_eq, formats, last_eq', ← first_eq, tick_eq]
  have fits' : (last - first + 1).toNat ≤ H_MAX := by omega
  split_ifs with empty outer
  · have records_nil : (recorder.ring ps).records (capacity ps) = [] := by
      rw [THDataRing.records, empty]
      rfl
    have missing : ∀ record ∈ (recorder.ring ps).records (capacity ps),
        bucketOf (unit ps) record < first ∨ last < bucketOf (unit ps) record := by
      rw [records_nil]
      exact fun record member => absurd member List.not_mem_nil
    refine ⟨_, ?_, .inl length_eq.symm⟩
    rw [emptyTicks_eq missing rfl fits', Option.map_some]
  · have formats' : ∀ d, recorder.formatTimeStamp ps d = unit ps * d.tdiv (unit ps) := formats
    refine ⟨_, ?_, .inl length_eq.symm⟩
    rw [emptyTicks_eq (chronological.outside_missing formats' outer) rfl fits', Option.map_some]
  · have reached : unit ps * first ≤
        (recorder.ring ps).dateAt (capacity ps) ((recorder.ring ps).ep (capacity ps)) := by
      have newest_le := chronological.format_le formats (chronological.sp_le empty) le_rfl
      simp only [THDataRing.outside, not_or, gt_iff_lt, Int.not_lt] at outer
      exact outer.1.trans newest_le
    obtain ⟨lp, left_eq, after, before, here, early⟩ := chronological.searchLeft_spec empty reached
    obtain ⟨result, right_eq, -⟩ :=
      chronological.searchRight_spec empty (unit ps * last) after before
    have aligned : Chronological.Aligned (capacity ps) (unit ps) (recorder.ring ps) first lp := by
      refine .inl ⟨after, before, (chronological.tick_le_iff after before first).mp here, ?_⟩
      intro position position_after lt
      have := early position position_after lt
      rwa [← Int.not_le, chronological.tick_le_iff position_after (by omega), Int.not_le] at this
    have fetched := chronological.fetch_eq (capacity_pos ps)
      (recorder.compare_iff explicit) (recorder.incTimestamp_eq explicit) aligned rfl fits'
    simp only [left_eq, right_eq, fetched, Option.bind_eq_bind, Option.bind_some]
    split
    · next trims =>
        simp only [Bool.and_eq_true, decide_eq_true_eq, beq_iff_eq] at trims
        obtain ⟨⟨short, two⟩, zero⟩ := trims
        refine ⟨1, rfl, .inr ⟨rfl, length_eq.trans two, short, fun second second_eq => ?_⟩⟩
        rw [second_eq, Option.map_some, Option.some.injEq] at zero
        exact zero
    · exact ⟨_, rfl, .inl length_eq.symm⟩

theorem twoPuts_getF_resamples :
    ∃ count, twoPutsRecorder.getF .psSecond 86402 86399 =
      some ⟨count, tickEntries 1 [(86400, ⟨1, 5⟩), (86401, ⟨1, 6⟩)] 86399 4⟩ := by
  obtain ⟨-, count, resampled, -⟩ :=
    getF_resamples id (fun _ _ _ dst => dst) .dmByte .cmTotal .psSecond false 0 (fun _ _ => 0)
      ⟨none, []⟩ (by decide : twoPuts.Pairwise fun earlier later => earlier.time ≤ later.time)
      (by decide) (rfl : _ = twoPutsRecorder) (by decide : THParticleSize.psSecond ≠ .psDefault)
      (by decide : (86399 : Int) = min 86402 86399) (by decide : (86402 : Int) = max 86402 86399)
      (by decide : (86399 : Int) = _) (by decide : (86402 : Int) = _) (by decide)
  refine ⟨count, ?_⟩
  have records_eq : (twoPutsRecorder.ring .psSecond).records (capacity .psSecond) =
      [(86400, ⟨1, 5⟩), (86401, ⟨1, 6⟩)] := by
    decide
  rw [records_eq] at resampled
  exact resampled

end THDataRec

end CommonLib
