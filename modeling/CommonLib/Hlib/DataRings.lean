import Mathlib.Data.Nat.ModEq
import CommonLib.Hlib.DataRec
import CommonLib.Library.Aggregate

/-!
# What the rings of a recorder hold

Each ring of a `THDataRec` holds the newest buckets of the stream of samples, where a bucket merges
the samples of one second, minute, hour or day.
-/

namespace CommonLib

open Aggregate

/-! ## A ring and its buckets -/

/-- A sample with its date. -/
abbrev Sample := Int × THData

/-- The number of the bucket of a sample. -/
def bucketOf (unit : Int) (sample : Sample) : Int := sample.1.tdiv unit

/-- Merge a sample into a record; the record keeps its date. -/
def mergeSample (addMethod : THAddMethod) (sample record : Sample) : Sample :=
  (record.1, addMethod sample.2 record.2)

/-- The records of a ring with their dates, from the oldest to the one at the field `index`. -/
def THDataRing.records (capacity : Nat) (ring : THDataRing) : List Sample :=
  (List.range ring.count).map fun age =>
    let slot := (ring.index + capacity - (ring.count - 1) + age) % capacity
    (ring.dates slot, ring.data slot)

/-- The ring holds the newest of `buckets`. -/
structure THDataRing.Tracks (capacity : Nat) (ring : THDataRing) (buckets : List (Int × Sample)) :
    Prop where
  count_eq : ring.count = min buckets.length capacity
  index_eq : ring.index = (buckets.length - 1) % capacity
  date_eq : ring.date = (buckets.getLast?.map fun bucket => bucket.2.1).getD 0
  stored : ∀ (number : Nat) (inside : number < buckets.length),
    buckets.length ≤ number + capacity →
      (ring.dates (number % capacity), ring.data (number % capacity)) = buckets[number].2
  fresh : ∀ slot, buckets.length ≤ slot → slot < capacity → ring.data slot = .zero

/-- The buckets bear the numbers of their dates, which are not in the first day. -/
def Dated (unit : Int) (buckets : List (Int × Sample)) : Prop :=
  ∀ bucket ∈ buckets, bucket.1 = bucketOf unit bucket.2 ∧ 86400 ≤ bucket.2.1

theorem mod_ne_mod {capacity first second : Nat} (before : first < second)
    (near : second < first + capacity) : first % capacity ≠ second % capacity := by
  intro same
  have multiple : capacity ∣ second - first := (Nat.modEq_iff_dvd' (Nat.le_of_lt before)).mp same
  have := Nat.le_of_dvd (by omega) multiple
  omega

namespace THDataRing

variable {capacity : Nat} {ring : THDataRing} {buckets : List (Int × Sample)}
  {addMethod : THAddMethod} {same : Int → Int → Bool} {unit : Int}

theorem new_tracks (capacity : Nat) (dates : Nat → Int) : (new dates).Tracks capacity [] := by
  constructor <;> simp [new]

/-- A record of a new time takes the slot behind the newest one. -/
theorem Tracks.append (tracks : ring.Tracks capacity buckets)
    (dated : Dated unit buckets) {data : THData} {lastDate : Int}
    (other : same ring.date lastDate = false) (key : Int) :
    (ring.add capacity addMethod same data lastDate).Tracks capacity
      (buckets ++ [(key, lastDate, data)]) := by
  have index_eq : (if ring.date ≠ 0 then (ring.index + 1) % capacity else ring.index) =
      buckets.length % capacity := by
    rcases List.eq_nil_or_concat buckets with rfl | ⟨older, newest, rfl⟩
    · rw [tracks.date_eq, tracks.index_eq]
      simp
    · rw [List.concat_eq_append] at *
      have late := (dated newest (by simp)).2
      have date_ne : ring.date ≠ 0 := by
        rw [tracks.date_eq]
        simp only [List.getLast?_append, List.getLast?_singleton, Option.some_or, Option.map_some,
          Option.getD_some]
        omega
      rw [if_pos date_ne, tracks.index_eq, Nat.mod_add_mod]
      simp
  simp only [add, other, Bool.false_eq_true, if_false, index_eq]
  exact
    { count_eq := by
        simp only [tracks.count_eq, List.length_append, List.length_singleton]
        split <;> omega
      index_eq := by simp
      date_eq := by simp
      stored := by
        intro number inside recent
        rw [List.length_append, List.length_singleton] at inside recent
        rcases Nat.lt_or_eq_of_le (Nat.le_of_lt_succ inside) with earlier | rfl
        · have different := mod_ne_mod earlier (by omega : buckets.length < number + capacity)
          simp only [Function.update_of_ne different, List.getElem_append_left earlier]
          exact tracks.stored number earlier (by omega)
        · simp
      fresh := by
        intro slot beyond inside
        rw [List.length_append, List.length_singleton] at beyond
        have different : slot ≠ buckets.length % capacity := by
          rw [Nat.mod_eq_of_lt (by omega)]
          omega
        simp only [Function.update_of_ne different]
        exact tracks.fresh slot (by omega) inside }

/-- A record of the same time is merged into the newest one. -/
theorem Tracks.merge {older : List (Int × Sample)} {newest : Int} {record : Sample}
    (tracks : ring.Tracks capacity (older ++ [(newest, record)])) (capacity_pos : 0 < capacity)
    {data : THData} {lastDate : Int} (merges : same ring.date lastDate = true) :
    (ring.add capacity addMethod same data lastDate).Tracks capacity
      (older ++ [(newest, mergeSample addMethod (lastDate, data) record)]) := by
  have index_eq : ring.index = older.length % capacity := by
    rw [tracks.index_eq]
    simp
  have here := tracks.stored older.length (by simp) (by simp; omega)
  rw [List.getElem_concat_length rfl] at here
  simp only [add, merges, if_true]
  exact
    { count_eq := by
        rw [tracks.count_eq]
        simp
      index_eq := by
        rw [tracks.index_eq]
        simp
      date_eq := by
        rw [tracks.date_eq]
        simp [mergeSample]
      stored := by
        intro number inside recent
        rw [List.length_append, List.length_singleton] at inside recent
        rcases Nat.lt_or_eq_of_le (Nat.le_of_lt_succ inside) with earlier | rfl
        · have different := mod_ne_mod earlier (by omega : older.length < number + capacity)
          simp only [index_eq, Function.update_of_ne different, List.getElem_append_left earlier]
          have before := tracks.stored number (by simp; omega) (by simp; omega)
          rwa [List.getElem_append_left earlier] at before
        · simp only [index_eq, Function.update_self, List.getElem_concat_length, mergeSample]
          rw [← show _ = record from here]
      fresh := by
        intro slot beyond inside
        rw [List.length_append, List.length_singleton] at beyond
        have different : slot ≠ older.length % capacity := by
          rw [Nat.mod_eq_of_lt (by omega)]
          omega
        simp only [index_eq, Function.update_of_ne different]
        exact tracks.fresh slot (by simpa using beyond) inside }

/-- What `add` does at a level is what a sample does to the buckets. -/
theorem Tracks.add (tracks : ring.Tracks capacity buckets) (capacity_pos : 0 < capacity)
    (dated : Dated unit buckets) {sample : Sample} (late : 86400 ≤ sample.1)
    (same_iff : ∀ date, same date sample.1 = true ↔ date.tdiv unit = sample.1.tdiv unit)
    (coarse : (0 : Int).tdiv unit ≠ sample.1.tdiv unit) :
    (ring.add capacity addMethod same sample.2 sample.1).Tracks capacity
        (collect (bucketOf unit) id (mergeSample addMethod) buckets sample) ∧
      Dated unit (collect (bucketOf unit) id (mergeSample addMethod) buckets sample) := by
  have new : bucketOf unit sample = bucketOf unit sample ∧ 86400 ≤ sample.1 := ⟨rfl, late⟩
  rcases List.eq_nil_or_concat buckets with rfl | ⟨older, ⟨newest, record⟩, rfl⟩
  · have other : same ring.date sample.1 = false := by
      rw [tracks.date_eq, Bool.eq_false_iff, ne_eq, same_iff]
      exact coarse
    refine ⟨tracks.append dated other _, fun bucket member => ?_⟩
    obtain rfl := List.mem_singleton.mp member
    exact new
  · rw [List.concat_eq_append] at *
    have date_eq : ring.date = record.1 := by
      rw [tracks.date_eq]
      simp
    obtain ⟨number_eq, record_late⟩ := dated (newest, record) (by simp)
    rw [collect_append]
    by_cases merges : newest = bucketOf unit sample
    · have merges' : same ring.date sample.1 = true := by
        rw [same_iff, date_eq]
        exact number_eq.symm.trans merges
      rw [if_pos merges]
      refine ⟨tracks.merge capacity_pos merges', fun bucket member => ?_⟩
      rcases List.mem_append.mp member with member | member
      · exact dated bucket (List.mem_append_left _ member)
      · obtain rfl := List.mem_singleton.mp member
        exact ⟨number_eq, record_late⟩
    · have other : same ring.date sample.1 = false := by
        rw [Bool.eq_false_iff, ne_eq, same_iff, date_eq]
        exact fun equal => merges (number_eq.trans equal)
      rw [if_neg merges, List.append_cons]
      refine ⟨tracks.append dated other _, fun bucket member => ?_⟩
      rcases List.mem_append.mp member with member | member
      · exact dated bucket member
      · obtain rfl := List.mem_singleton.mp member
        exact new

/-- The records of a ring are its newest buckets. -/
theorem Tracks.records_eq (tracks : ring.Tracks capacity buckets) :
    ring.records capacity =
      (buckets.drop (buckets.length - capacity)).map Prod.snd := by
  apply List.ext_getElem
  · simp [records, tracks.count_eq]
    omega
  · intro age inside inside'
    simp only [records, List.length_map, List.length_range, tracks.count_eq] at inside
    have number_lt : buckets.length - capacity + age < buckets.length := by omega
    have slot_eq : (ring.index + capacity - (ring.count - 1) + age) % capacity =
        (buckets.length - capacity + age) % capacity := by
      rw [tracks.index_eq, tracks.count_eq]
      rcases Nat.le_total buckets.length capacity with few | many
      · rw [Nat.min_eq_left few, Nat.mod_eq_of_lt (by omega : buckets.length - 1 < capacity),
          show buckets.length - 1 + capacity - (buckets.length - 1) + age = age + capacity by omega,
          Nat.add_mod_right, Nat.sub_eq_zero_of_le few, Nat.zero_add]
      · rw [Nat.min_eq_right many, show (buckets.length - 1) % capacity + capacity -
            (capacity - 1) + age = (buckets.length - 1) % capacity + (1 + age) by omega,
          Nat.mod_add_mod, show buckets.length - 1 + (1 + age) =
            buckets.length - capacity + age + capacity by omega, Nat.add_mod_right]
    have here := tracks.stored _ number_lt (by omega)
    simp only [records, List.getElem_map, List.getElem_range, slot_eq, List.getElem_drop, here]

end THDataRing

/-! ## The rings of a recorder -/

namespace THDataRec

/-- The ring that `Get` and `GetF` use for a particle size. -/
def ring (recorder : THDataRec) : THParticleSize → THDataRing
  | .psMinute => recorder.m
  | .psHour => recorder.h
  | .psDay => recorder.d
  | _ => recorder.s

def capacity : THParticleSize → Nat
  | .psMinute => H_MINUTES
  | .psHour => H_HOURS
  | .psDay => H_DAYS
  | _ => H_SECONDS

/-- The level of a particle size in the loop of `Add`. -/
def level : THParticleSize → Nat
  | .psMinute => 1
  | .psHour => 2
  | .psDay => 3
  | _ => 0

theorem capacity_pos (ps : THParticleSize) : 0 < capacity ps := by
  cases ps <;> decide

theorem unit_pos (ps : THParticleSize) : 0 < unit ps := by
  cases ps <;> decide

/-- Each size compares by its own unit. -/
theorem compare_iff (recorder : THDataRec) {ps : THParticleSize} (explicit : ps ≠ .psDefault)
    (d1 d2 : Int) :
    recorder.compare d1 d2 ps = true ↔ d1.tdiv (unit ps) = d2.tdiv (unit ps) := by
  cases ps <;> simp_all [compare, resolve, unit]

theorem zero_tdiv_ne (ps : THParticleSize) {time : Int} (late : 86400 ≤ time) :
    (0 : Int).tdiv (unit ps) ≠ time.tdiv (unit ps) := by
  rw [Int.zero_tdiv, Int.tdiv_eq_ediv_of_nonneg (by omega)]
  cases ps <;> simp only [unit] <;> omega

/-- A sample goes to the rings from the level of the recorder's particle size up. -/
theorem ring_add (recorder : THDataRec) (data : THData) (time : Int) (ps : THParticleSize) :
    (recorder.add data time .psDefault).ring ps =
      if level recorder.particleSize ≤ level ps then
        (recorder.ring ps).add (capacity ps) recorder.addMethod
          (recorder.compare · · (if ps = .psDefault then .psSecond else ps)) data time
      else recorder.ring ps := by
  unfold add resolve
  rw [if_pos rfl]
  cases recorder.particleSize <;> cases ps <;> rfl

theorem addMethod_add (recorder : THDataRec) (data : THData) (time : Int) (ps : THParticleSize) :
    (recorder.add data time ps).addMethod = recorder.addMethod := by
  unfold add
  split <;> rfl

theorem particleSize_add (recorder : THDataRec) (data : THData) (time : Int)
    (ps : THParticleSize) : (recorder.add data time ps).particleSize = recorder.particleSize := by
  unfold add
  split <;> rfl

/-! ## Sequences of calls -/

/-- The arguments of a call of `Put`, with the readings of the clock. -/
structure PutCall where
  data : THData
  time : Int
  clock : Int
  clock' : Int

/-- The sample that a call records. -/
def PutCall.sample (call : PutCall) : Sample :=
  (if call.time = 0 then call.clock else call.time, call.data)

section Puts

variable {ν : Type} [DecidableEq ν]

/-- A sequence of calls of `Put`. -/
def putAll (archiveName : Int → ν) (state : THDataRec × DataFiles ν) (calls : List PutCall) :
    THDataRec × DataFiles ν :=
  calls.foldl
    (fun state call => state.1.put archiveName call.data call.time call.clock call.clock' state.2)
    state

variable (archiveName : Int → ν)

/-- The recorders hold the same rings and aggregate in the same way. -/
structure Alike (first second : THDataRec) : Prop where
  ring_eq : ∀ ps, second.ring ps = first.ring ps
  addMethod_eq : second.addMethod = first.addMethod
  particleSize_eq : second.particleSize = first.particleSize

theorem write_fst (recorder : THDataRec) (clock : Int) (files : DataFiles ν) :
    (recorder.write archiveName clock files).1 =
      if recorder.bData.length = 0 then recorder
      else { recorder with wDate := clock, bData := [] } := by
  simp only [write]
  split_ifs <;> rfl

/-- `Put` changes the rings as `Add` does. -/
theorem put_alike (recorder : THDataRec) (call : PutCall) (files : DataFiles ν) :
    Alike (recorder.add call.data call.sample.1 .psDefault)
      (recorder.put archiveName call.data call.time call.clock call.clock' files).1 := by
  simp only [put, PutCall.sample]
  generalize (if call.time = 0 then call.clock else call.time) = time
  generalize recorder.add call.data time .psDefault = added
  split
  · split
    · rw [write_fst]
      split <;> exact ⟨fun ps => by cases ps <;> rfl, rfl, rfl⟩
    · exact ⟨fun ps => by cases ps <;> rfl, rfl, rfl⟩
  · exact ⟨fun ps => by cases ps <;> rfl, rfl, rfl⟩

/-- The samples that reach the ring of a particle size, in buckets. -/
def buckets (recorder : THDataRec) (ps : THParticleSize) (samples : List Sample) :
    List (Int × Sample) :=
  if level recorder.particleSize ≤ level ps then
    aggregate (bucketOf (unit ps)) id (mergeSample recorder.addMethod) samples
  else []

/-- Every ring holds the newest buckets of the samples. -/
def Records (recorder : THDataRec) (samples : List Sample) : Prop :=
  ∀ ps, (recorder.ring ps).Tracks (capacity ps) (recorder.buckets ps samples) ∧
    Dated (unit ps) (recorder.buckets ps samples)

theorem new_records (floating : THDataMode → THCollectMode → THAddMethod) (dm : THDataMode)
    (cm : THCollectMode) (ps : THParticleSize) (writeToDisk : Bool) (clock : Int)
    (memory : THParticleSize → Nat → Int) :
    (new floating dm cm ps writeToDisk clock memory).Records [] := by
  intro size
  have empty : (new floating dm cm ps writeToDisk clock memory).buckets size [] = [] := by
    unfold buckets
    split <;> rfl
  rw [empty]
  constructor
  · cases size <;> exact THDataRing.new_tracks _ _
  · intro bucket member
    cases member

theorem Records.put {recorder : THDataRec} {samples : List Sample}
    (records : recorder.Records samples) {call : PutCall} (late : 86400 ≤ call.sample.1)
    (files : DataFiles ν) :
    (recorder.put archiveName call.data call.time call.clock call.clock' files).1.Records
      (samples ++ [call.sample]) := by
  obtain ⟨ring_eq, addMethod_eq, particleSize_eq⟩ :=
    put_alike archiveName recorder call files
  intro ps
  obtain ⟨tracks, dated⟩ := records ps
  rw [ring_eq, ring_add]
  unfold buckets at tracks dated ⊢
  rw [particleSize_eq, addMethod_eq, particleSize_add, addMethod_add]
  split
  · next reached =>
      rw [if_pos reached] at tracks dated
      rw [aggregate, List.foldl_append]
      refine tracks.add (capacity_pos ps) dated late (fun date => ?_) (zero_tdiv_ne ps late)
      split
      · next default =>
          rw [compare_iff _ (by decide), default]
          rfl
      · next explicit => rw [compare_iff _ explicit]
  · next unreached =>
      rw [if_neg unreached] at tracks dated
      exact ⟨tracks, dated⟩

/-- After calls of `Put` every ring holds the newest buckets of the samples recorded. -/
theorem Records.putAll {recorder : THDataRec} {samples : List Sample}
    (records : recorder.Records samples) (calls : List PutCall)
    (late : ∀ call ∈ calls, 86400 ≤ call.sample.1) (files : DataFiles ν) :
    (THDataRec.putAll archiveName (recorder, files) calls).1.Records
        (samples ++ calls.map PutCall.sample) ∧
      (THDataRec.putAll archiveName (recorder, files) calls).1.addMethod = recorder.addMethod ∧
      (THDataRec.putAll archiveName (recorder, files) calls).1.particleSize =
        recorder.particleSize := by
  induction calls generalizing recorder samples files with
  | nil => exact ⟨by simpa [THDataRec.putAll] using records, rfl, rfl⟩
  | cons call calls induction =>
      obtain ⟨-, addMethod_eq, particleSize_eq⟩ :=
        put_alike archiveName recorder call files
      obtain ⟨later, addMethod_eq', particleSize_eq'⟩ := induction
        (records.put archiveName (late call List.mem_cons_self) files)
        (fun other member => late other (List.mem_cons_of_mem _ member))
        (recorder.put archiveName call.data call.time call.clock call.clock' files).2
      refine ⟨?_, ?_, ?_⟩
      · rwa [List.map_cons, List.append_cons]
      · exact addMethod_eq'.trans (addMethod_eq.trans (addMethod_add ..))
      · exact particleSize_eq'.trans (particleSize_eq.trans (particleSize_add ..))

end Puts

end THDataRec

/-! ## Merged records of the integer modes -/

namespace DataField

theorem wrap_congr (field : DataField) {first second : Int}
    (same : first % 2 ^ field.bits = second % 2 ^ field.bits) :
    field.wrap first = field.wrap second := by
  unfold wrap
  split
  · rw [Int.bmod_def, Int.bmod_def]
    push_cast
    rw [same]
  · exact same

theorem wrap_emod (field : DataField) (value : Int) : field.wrap value % 2 ^ field.bits =
    value % 2 ^ field.bits := by
  unfold wrap
  split
  · exact_mod_cast Int.bmod_emod (x := value) (m := 2 ^ field.bits)
  · exact Int.emod_emod _ _

theorem wrap_wrap_add (field : DataField) (first second : Int) :
    field.wrap (field.wrap first + second) = field.wrap (first + second) := by
  apply field.wrap_congr
  rw [Int.add_emod, field.wrap_emod, ← Int.add_emod]

theorem get_set (field : DataField) (narrow : field.bits ≤ 64) (data : UInt64) (value : Int) :
    field.get (field.set data value) = field.wrap value := by
  have split_eq : (2 : Nat) ^ 64 = 2 ^ (64 - field.bits) * 2 ^ field.bits := by
    rw [← Nat.pow_add, Nat.sub_add_cancel narrow]
  have high : data.toNat / 2 ^ field.bits < 2 ^ (64 - field.bits) := by
    rw [Nat.div_lt_iff_lt_mul (Nat.two_pow_pos _), ← split_eq]
    exact data.toNat_lt
  have positive : (0 : Int) < 2 ^ field.bits := Int.pow_pos (by decide)
  have low_nonneg := Int.emod_nonneg value positive.ne'
  have low_lt := Int.emod_lt_of_pos value positive
  have low : (value % 2 ^ field.bits).toNat < 2 ^ field.bits := by
    rw [Int.toNat_lt low_nonneg]
    exact_mod_cast low_lt
  have fits : data.toNat / 2 ^ field.bits * 2 ^ field.bits + (value % 2 ^ field.bits).toNat <
      2 ^ 64 := by
    rw [split_eq]
    calc
      _ < data.toNat / 2 ^ field.bits * 2 ^ field.bits + 2 ^ field.bits := by omega
      _ = (data.toNat / 2 ^ field.bits + 1) * 2 ^ field.bits := (Nat.succ_mul _ _).symm
      _ ≤ _ := Nat.mul_le_mul_right _ high
  rw [get, set, UInt64.toNat_ofNat_of_lt' fits]
  apply field.wrap_congr
  push_cast
  rw [Int.toNat_of_nonneg low_nonneg]
  simp

end DataField

/-- The member of the union that an integer mode uses. -/
def dataField : THDataMode → Option DataField
  | .dmByte => some .aByte
  | .dmWord => some .aWord
  | .dmCardinal => some .aDWord
  | .dmInt64 => some .aInt64
  | .dmInt => some .aInt
  | _ => none

/-- How a collect mode combines the value of a sample with that of a record. -/
def combine : THCollectMode → Option (Int → Int → Int)
  | .cmReplace => some fun src _ => src
  | .cmMax => some max
  | .cmMin => some min
  | .cmTotal => some fun src dst => dst + src
  | .cmAverage => none

theorem chooseAddMethod_eq (floating : THDataMode → THCollectMode → THAddMethod)
    {dm : THDataMode} {cm : THCollectMode} {field : DataField} {op : Int → Int → Int}
    (integer : dataField dm = some field) (exact_op : combine cm = some op) :
    chooseAddMethod floating dm cm = addWith field op := by
  cases dm <;> cases cm <;> cases integer <;> cases exact_op <;> rfl

theorem dataField_bits {dm : THDataMode} {field : DataField}
    (integer : dataField dm = some field) : field.bits ≤ 64 := by
  cases dm <;> cases integer <;> decide

/-- The counts of merged samples add up. -/
theorem gather_count (field : DataField) (op : Int → Int → Int) (samples : List Sample)
    {record : Sample}
    (merged : gather id (mergeSample (addWith field op)) samples = some record) :
    record.2.count = (samples.map fun sample => sample.2.count).sum := by
  induction samples using List.reverseRecOn generalizing record with
  | nil => cases merged
  | append_singleton samples sample induction =>
      rw [gather_append, Option.some.injEq] at merged
      rw [List.map_append, List.sum_append]
      split at merged
      · next before before_eq =>
          rw [← merged, mergeSample, addWith, ← induction before_eq]
          simp
      · next empty =>
          obtain rfl := gather_eq_none empty
          rw [← merged]
          simp

/-- The total of merged samples is their sum, reduced to the range of the member. -/
theorem gather_total {field : DataField} (narrow : field.bits ≤ 64) (samples : List Sample)
    {record : Sample}
    (merged : gather id (mergeSample (addWith field fun src dst => dst + src)) samples =
      some record) :
    field.get record.2.data =
      field.wrap (samples.map fun sample => field.get sample.2.data).sum := by
  induction samples using List.reverseRecOn generalizing record with
  | nil => cases merged
  | append_singleton samples sample induction =>
      rw [gather_append, Option.some.injEq] at merged
      rw [List.map_append, List.sum_append]
      split at merged
      · next before before_eq =>
          rw [← merged, mergeSample, addWith, field.get_set narrow, induction before_eq,
            field.wrap_wrap_add]
          simp
      · next empty =>
          obtain rfl := gather_eq_none empty
          rw [← merged]
          simp only [List.map_nil, List.sum_nil, List.map_cons, List.sum_cons, id_eq, Int.zero_add,
            Int.add_zero]
          exact (field.wrap_congr (field.wrap_emod _)).symm

/-! ## The retained buckets -/

/-- The samples of a bucket, in order. -/
def bucketSamples (unit : Int) (samples : List Sample) (number : Int) : List Sample :=
  samples.filter fun sample => bucketOf unit sample = number

/-- The ring holds the newest of the buckets `numbers`, up to its capacity, and the record of each
is the fold of the add method over its samples. -/
structure Recent (capacity : Nat) (unit : Int) (addMethod : THAddMethod) (ring : THDataRing)
    (samples : List Sample) (numbers : List Int) : Prop where
  increasing : numbers.Pairwise (· < ·)
  covers : ∀ number, number ∈ numbers ↔ ∃ sample ∈ samples, bucketOf unit sample = number
  index_lt : ring.index < capacity
  count_eq : ring.count = min capacity numbers.length
  records_eq : (ring.records capacity).map some =
    (numbers.drop (numbers.length - capacity)).map fun number =>
      gather id (mergeSample addMethod) (bucketSamples unit samples number)
  bucket_eq : (ring.records capacity).map (bucketOf unit) =
    numbers.drop (numbers.length - capacity)
  newest_eq : ring.count ≠ 0 →
    (ring.records capacity).getLast? = some (ring.dates ring.index, ring.data ring.index)

/-- The last record of a ring is in the slot at `index`. -/
theorem THDataRing.records_getLast {capacity : Nat} {ring : THDataRing}
    (filled : ring.count ≠ 0) (count_le : ring.count ≤ capacity)
    (index_lt : ring.index < capacity) :
    (ring.records capacity).getLast? = some (ring.dates ring.index, ring.data ring.index) := by
  obtain ⟨older, count_eq⟩ := Nat.exists_eq_succ_of_ne_zero filled
  have slot_eq : (ring.index + capacity - (ring.count - 1) + older) % capacity = ring.index := by
    rw [show ring.index + capacity - (ring.count - 1) + older = ring.index + capacity by omega,
      Nat.add_mod_right, Nat.mod_eq_of_lt index_lt]
  rw [records, count_eq, List.range_succ, List.map_append, List.map_singleton, List.getLast?_concat,
    ← count_eq]
  simp only [slot_eq]

/-- The buckets of a sorted stream are those of its sorted dates. -/
theorem aggregates_of_dates {unit : Int} (unit_pos : 0 < unit) (addMethod : THAddMethod)
    {samples : List Sample} (sorted : samples.Pairwise fun earlier later => earlier.1 ≤ later.1)
    (late : ∀ sample ∈ samples, 86400 ≤ sample.1) :
    Aggregates (bucketOf unit) id (mergeSample addMethod) samples
      (aggregate (bucketOf unit) id (mergeSample addMethod) samples) := by
  refine aggregates_of_sorted (sorted.imp_of_mem fun {earlier later} first second le => ?_)
  have first_late := late earlier first
  have second_late := late later second
  rw [bucketOf, bucketOf, Int.tdiv_eq_ediv_of_nonneg (by omega),
    Int.tdiv_eq_ediv_of_nonneg (by omega)]
  exact Int.ediv_le_ediv unit_pos le

theorem THDataRing.Tracks.recent {capacity : Nat} {ring : THDataRing} {unit : Int}
    {addMethod : THAddMethod} {samples : List Sample} {buckets : List (Int × Sample)}
    (tracks : ring.Tracks capacity buckets) (capacity_pos : 0 < capacity)
    (dated : Dated unit buckets)
    (aggregates : Aggregates (bucketOf unit) id (mergeSample addMethod) samples buckets) :
    Recent capacity unit addMethod ring samples (buckets.map Prod.fst) where
  increasing := aggregates.increasing
  covers := aggregates.covers
  index_lt := by
    rw [tracks.index_eq]
    exact Nat.mod_lt _ capacity_pos
  count_eq := by rw [tracks.count_eq, List.length_map, Nat.min_comm]
  records_eq := by
    rw [tracks.records_eq, List.length_map, ← List.map_drop, List.map_map, List.map_map]
    refine List.map_congr_left fun bucket member => ?_
    exact (aggregates.merged bucket (List.mem_of_mem_drop member)).symm
  bucket_eq := by
    rw [tracks.records_eq, List.length_map, ← List.map_drop, List.map_map]
    exact List.map_congr_left fun bucket member =>
      (dated bucket (List.mem_of_mem_drop member)).1.symm
  newest_eq := by
    intro filled
    refine THDataRing.records_getLast filled ?_ ?_
    · rw [tracks.count_eq]
      exact Nat.min_le_right _ _
    · rw [tracks.index_eq]
      exact Nat.mod_lt _ capacity_pos

namespace THDataRec

variable {ν : Type} [DecidableEq ν]

/-- The samples that calls with their own times record. -/
def samplesOf (calls : List PutCall) : List Sample := calls.map fun call => (call.time, call.data)

theorem samplesOf_late {calls : List PutCall} (late : ∀ call ∈ calls, 86400 ≤ call.time) :
    ∀ sample ∈ samplesOf calls, 86400 ≤ sample.1 := by
  intro sample member
  obtain ⟨call, called, rfl⟩ := List.mem_map.mp member
  exact late call called

/-- After calls of `Put` the rings hold the newest buckets of the samples. -/
theorem putAll_records (archiveName : Int → ν)
    (floating : THDataMode → THCollectMode → THAddMethod) (dm : THDataMode) (cm : THCollectMode)
    (ps : THParticleSize) (writeToDisk : Bool) (clock : Int) (memory : THParticleSize → Nat → Int)
    (files : DataFiles ν) {calls : List PutCall} (late : ∀ call ∈ calls, 86400 ≤ call.time) :
    (putAll archiveName (new floating dm cm ps writeToDisk clock memory, files) calls).1.Records
        (samplesOf calls) ∧
      (putAll archiveName (new floating dm cm ps writeToDisk clock memory, files)
          calls).1.addMethod = chooseAddMethod floating dm cm ∧
      (putAll archiveName (new floating dm cm ps writeToDisk clock memory, files)
          calls).1.particleSize = ps := by
  have sample_eq : ∀ call ∈ calls, call.sample = (call.time, call.data) := by
    intro call member
    have := late call member
    rw [PutCall.sample, if_neg (by omega)]
  have records := (new_records floating dm cm ps writeToDisk clock memory).putAll
    archiveName calls
    (fun call member => by rw [sample_eq call member]; exact late call member) files
  rwa [List.nil_append, List.map_congr_left sample_eq] at records

/-- A recorder by seconds holds in each of its rings the newest buckets of the samples put into
it; counts add up, and totals are sums modulo the width of the field. -/
theorem put_recent (archiveName : Int → ν)
    (floating : THDataMode → THCollectMode → THAddMethod) {dm : THDataMode}
    {cm : THCollectMode} {field : DataField} {op : Int → Int → Int}
    (integer : dataField dm = some field) (exact_op : combine cm = some op) (clock : Int)
    (memory : THParticleSize → Nat → Int) (files : DataFiles ν) {calls : List PutCall}
    (sorted : calls.Pairwise fun earlier later => earlier.time ≤ later.time)
    (late : ∀ call ∈ calls, 86400 ≤ call.time) (ps : THParticleSize) :
    ∃ numbers,
      Recent (capacity ps) (unit ps) (addWith field op)
        ((putAll archiveName (new floating dm cm .psSecond false clock memory, files) calls).1.ring
          ps)
        (samplesOf calls) numbers ∧
      ∀ number ∈ numbers, ∀ record,
        gather id (mergeSample (addWith field op))
            (bucketSamples (unit ps) (samplesOf calls) number) = some record →
        record.2.count =
            ((bucketSamples (unit ps) (samplesOf calls) number).map
              fun sample => sample.2.count).sum ∧
          (cm = .cmTotal → field.get record.2.data =
            field.wrap
              ((bucketSamples (unit ps) (samplesOf calls) number).map
                fun sample => field.get sample.2.data).sum) := by
  obtain ⟨records, addMethod_eq, particleSize_eq⟩ :=
    putAll_records archiveName floating dm cm .psSecond false clock memory files late
  obtain ⟨tracks, dated⟩ := records ps
  unfold buckets at tracks dated
  rw [particleSize_eq, addMethod_eq, chooseAddMethod_eq floating integer exact_op,
    if_pos (show level .psSecond ≤ level ps from Nat.zero_le _)] at tracks dated
  refine ⟨_, tracks.recent (capacity_pos ps) dated
    (aggregates_of_dates (unit_pos ps) _ (List.pairwise_map.mpr sorted) (samplesOf_late late)),
    fun number _ record merged => ⟨gather_count field op _ merged, ?_⟩⟩
  rintro rfl
  obtain rfl := Option.some.inj exact_op
  exact gather_total (dataField_bits integer) _ merged

/-- Two samples of one second, whose sum leaves the byte, and one of the next minute. -/
def threePuts : List PutCall :=
  [⟨⟨1, 200⟩, 86400, 0, 0⟩, ⟨⟨1, 100⟩, 86400, 0, 0⟩, ⟨⟨2, 7⟩, 86460, 0, 0⟩]

theorem threePuts_recent :
    ∃ numbers, Recent (capacity .psMinute) (unit .psMinute)
      (addWith .aByte fun src dst => dst + src)
      ((putAll id (new (fun _ _ _ dst => dst) .dmByte .cmTotal .psSecond false 0 fun _ _ => 0,
        ⟨none, []⟩) threePuts).1.ring .psMinute) (samplesOf threePuts) numbers := by
  obtain ⟨numbers, recent, -⟩ :=
    put_recent id (fun _ _ _ dst => dst) (rfl : dataField .dmByte = _)
      (rfl : combine .cmTotal = _) 0 (fun _ _ => 0) ⟨none, []⟩
      (by decide : threePuts.Pairwise fun earlier later => earlier.time ≤ later.time)
      (by decide) .psMinute
  exact ⟨numbers, recent⟩

end THDataRec

end CommonLib
