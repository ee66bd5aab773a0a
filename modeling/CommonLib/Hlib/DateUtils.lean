import Mathlib.Data.Rat.Floor
import Mathlib.Tactic.NormNum
import CommonLib.Library.Calendar

/-!
# Dates in `hdateutils.cpp`

A `double` that holds a date is an exact rational number, counted in days from 30 December 1899.
`DecodeDateFully` peels off cycles of 400, 100, 4 and 1 years; `TryEncodeDate` has a closed formula.
-/

namespace CommonLib
namespace DateUtils

open Calendar

def D1 : Nat := 365

def D4 : Nat := D1 * 4 + 1

def D100 : Nat := D4 * 25 - 1

def D400 : Nat := D100 * 4 + 1

def dateDelta : Int := 693594

def monthDays : List (List Nat) :=
  [[31, 28, 31, 30, 31, 30, 31, 31, 30, 31, 30, 31],
   [31, 29, 31, 30, 31, 30, 31, 31, 30, 31, 30, 31]]

/-- The conversion to a `Word`. -/
def toWord (value : Int) : Nat := (value % 65536).toNat

/-- The conversion of a `double` to an `int`. -/
def truncate (value : ℚ) : Int := if 0 ≤ value then ⌊value⌋ else ⌈value⌉

def isLeapYear (year : Nat) : Bool := year % 4 = 0 && (year % 100 ≠ 0 || year % 400 = 0)

/-- The row of `MonthDays` for a year. -/
def dayTable (leap : Bool) : List Nat := monthDays.getD (if leap then 1 else 0) []

/-- `DivMod`: the quotient and the remainder as `Word`s. -/
def divMod (T : Int) (D : Nat) : Nat × Nat :=
  let I := toWord (T.tdiv D)
  (I, toWord (T - D * I))

structure TTimeStamp where
  time : Int
  date : Int

def dateTimeToTimeStamp (d : ℚ) : TTimeStamp where
  time := truncate ((d - ⌊d⌋) * (1 / (1 / 24 / 60 / 60 / 1000)) + 1 / 10)
  date := ⌊d⌋ + dateDelta

/-- The fields that `DecodeDateFully` fills in, and its result. -/
structure DecodedDate where
  year : Nat
  month : Nat
  day : Nat
  dow : Nat
  leap : Bool
  deriving DecidableEq

/-- The loop that peels off the cycles of 400 years. -/
def peelD400 (T : Int) (Y : Nat) : Int × Nat :=
  if D400 ≤ T then peelD400 (T - D400) (toWord (Y + 400)) else (T, Y)
termination_by T.toNat
decreasing_by
  have positive : (0 : Int) < D400 := by decide
  omega

/-- The last turn back if the quotient is 4. -/
def endOfCycle (cycle : Nat) (parts : Nat × Nat) : Nat × Nat :=
  if parts.1 = 4 then (parts.1 - 1, toWord (parts.2 + cycle)) else parts

/-- The loop over the months; there is no row behind the last. -/
def findMonth : List Nat → Nat → Nat → Option (Nat × Nat)
  | [], _, _ => none
  | I :: rest, M, D => if D < I then some (M, D) else findMonth rest (M + 1) (toWord (D - I))

/-- `DecodeDateFully`. -/
def decodeDateFully (dateTime : ℚ) : Option DecodedDate :=
  let T := (dateTimeToTimeStamp dateTime).date
  if T ≤ 0 then some { year := 0, month := 0, day := 0, dow := 0, leap := false }
  else
    let dow := toWord (T.tmod 7 + 1)
    let (T, Y) := peelD400 (T - 1) 1
    let (I, D) := endOfCycle D100 (divMod T D100)
    let Y := toWord (Y + I * 100)
    let (I, D) := divMod D D4
    let Y := toWord (Y + I * 4)
    let (I, D) := endOfCycle D1 (divMod D D1)
    let Y := toWord (Y + I)
    let leap := isLeapYear Y
    (findMonth (dayTable leap) 1 D).map fun (M, D) =>
      { year := Y, month := M, day := toWord (D + 1), dow, leap }

/-- `TryEncodeDate`; without a result it returns false. -/
def tryEncodeDate (year month day : Nat) : Option Int :=
  let table := dayTable (isLeapYear year)
  if 1 ≤ year ∧ year ≤ 9999 ∧ 1 ≤ month ∧ month ≤ 12 ∧ 1 ≤ day ∧ day ≤ table.getD (month - 1) 0 then
    let day := (table.take (month - 1)).foldl (fun (day days : Nat) => toWord (day + days)) day
    let i : Int := year - 1
    some (i * 365 + i / 4 - i / 100 + i / 400 + day - dateDelta)
  else none

/-! ## The parts of the decoder -/

theorem toWord_eq {value : Nat} (small : value < 65536) : toWord value = value := by
  unfold toWord
  omega

theorem isLeapYear_eq (year : Nat) : isLeapYear year = isLeap year := rfl

theorem dayTable_eq (leap : Bool) : dayTable leap = monthLengths leap := by
  cases leap <;> rfl

theorem divMod_eq {T D : Nat} (quotient : T / D < 65536) (remainder : T % D < 65536) :
    divMod T D = (T / D, T % D) := by
  have divided : toWord (Int.tdiv T D) = T / D := by
    rw [Int.tdiv_eq_ediv_of_nonneg (Int.natCast_nonneg T), ← Int.natCast_ediv]
    exact toWord_eq quotient
  have rest : (T : Int) - D * (T / D : Nat) = (T % D : Nat) := by
    rw [Int.natCast_emod, Int.natCast_ediv, Int.emod_def]
  simp only [divMod, divided, rest, toWord_eq remainder]

theorem peelD400_eq {T Y : Nat} (small : Y + T / 146097 * 400 < 65536) :
    peelD400 T Y = (((T % 146097 : Nat) : Int), Y + T / 146097 * 400) := by
  induction T using Nat.strong_induction_on generalizing Y with
  | h T ih =>
      have cycle : D400 = 146097 := rfl
      rw [peelD400, cycle]
      split
      · rename_i long
        have fewer : (T : Int) - (146097 : Nat) = (T - 146097 : Nat) := by omega
        have year : toWord ((Y : Int) + 400) = Y + 400 := by
          exact toWord_eq (by omega : Y + 400 < 65536)
        have rest : (T - 146097) % 146097 = T % 146097 := by omega
        have cycles : Y + 400 + (T - 146097) / 146097 * 400 = Y + T / 146097 * 400 := by omega
        rw [fewer, year, ih (T - 146097) (by omega) (by omega), rest, cycles]
      · rename_i short
        have small_T : T < 146097 := by omega
        rw [Nat.mod_eq_of_lt small_T, Nat.div_eq_of_lt small_T, Nat.zero_mul, Nat.add_zero]

theorem endOfCycle_eq {cycle I D : Nat} (small : I = 4 → D + cycle < 65536) :
    endOfCycle cycle (I, D) = if I = 4 then (3, D + cycle) else (I, D) := by
  unfold endOfCycle
  dsimp only
  split
  · rename_i four
    have day : toWord ((D : Int) + cycle) = D + cycle := toWord_eq (small four)
    rw [four, day]
  · rfl

/-- With the turn back at its end a cycle has four parts, and only the last may have a day more. -/
theorem endOfCycle_divMod {cycle t : Nat} (positive : 0 < cycle) (small : cycle < 65536)
    (within : t ≤ cycle * 4) : ∃ c rest, endOfCycle cycle (divMod t cycle) = (c, rest) ∧ c ≤ 3 ∧
      t = c * cycle + rest ∧ rest ≤ cycle ∧ (rest = cycle → c = 3) := by
  have quotient_le : t / cycle ≤ 4 := Nat.div_le_of_le_mul within
  have rest_lt := Nat.mod_lt t positive
  have parts := Nat.div_add_mod t cycle
  rw [Nat.mul_comm] at parts
  have last (four : t / cycle = 4) : t % cycle = 0 := by
    rw [four] at parts
    omega
  rw [divMod_eq (by omega) (by omega),
    endOfCycle_eq fun four => by rw [last four, Nat.zero_add]; exact small]
  split
  · rename_i four
    rw [four] at parts
    have rest_eq := last four
    exact ⟨3, _, rfl, Nat.le_refl 3, by omega, by omega, fun _ => rfl⟩
  · exact ⟨_, _, rfl, by omega, parts.symm, Nat.le_of_lt rest_lt, fun same => by omega⟩

/-- The month loop stops in the month that holds the day. -/
theorem findMonth_spec {lengths : List Nat} {M D : Nat} (inside : D < total lengths)
    (small : D < 65536) : ∃ k < lengths.length,
      findMonth lengths M D = some (M + k, D - total (lengths.take k)) ∧
        total (lengths.take k) ≤ D ∧ D - total (lengths.take k) < lengths.getD k 0 := by
  induction lengths generalizing M D with
  | nil => exact absurd inside (Nat.not_lt_zero D)
  | cons days rest ih =>
      rw [total] at inside
      rw [findMonth]
      split
      · rename_i here
        exact ⟨0, Nat.succ_pos _, rfl, Nat.zero_le D, here⟩
      · rename_i later
        have left : toWord ((D : Int) - days) = D - days := by
          rw [← Int.ofNat_sub (by omega)]
          exact toWord_eq (by omega)
        obtain ⟨k, k_lt, found, low, high⟩ :=
          ih (M := M + 1) (by omega : D - days < total rest) (by omega)
        refine ⟨k + 1, Nat.succ_lt_succ k_lt, ?_, ?_, ?_⟩
        · rw [left, found, List.take_succ_cons, total]
          congr 2
          · omega
          · omega
        · rw [List.take_succ_cons, total]
          omega
        · rw [List.take_succ_cons, total, List.getD_cons_succ]
          omega

/-- What the peeled cycles make up: a year and a day in it. -/
theorem year_of_cycles {a c q y t hundred four day : Nat} (c_le : c ≤ 3)
    (t_eq : t = c * 36524 + hundred) (hundred_le : hundred ≤ 36524)
    (last_hundred : hundred = 36524 → c = 3) (hundred_eq : hundred = q * 1461 + four)
    (four_lt : four < 1461) (y_le : y ≤ 3) (four_eq : four = y * 365 + day) (day_le : day ≤ 365)
    (last_day : day = 365 → y = 3) :
    daysBefore (1 + a * 400 + c * 100 + q * 4 + y) + day = a * 146097 + t ∧
      day < yearLength (1 + a * 400 + c * 100 + q * 4 + y) := by
  have q_le : q ≤ 24 := by omega
  have closed := daysBefore_eq (a * 400 + c * 100 + q * 4 + y)
  have fours : (a * 400 + c * 100 + q * 4 + y) / 4 = a * 100 + c * 25 + q := by omega
  have hundreds : (a * 400 + c * 100 + q * 4 + y) / 100 = a * 4 + c := by omega
  have cycles : (a * 400 + c * 100 + q * 4 + y) / 400 = a := by omega
  rw [show a * 400 + c * 100 + q * 4 + y + 1 = 1 + a * 400 + c * 100 + q * 4 + y by omega, fours,
    hundreds, cycles] at closed
  refine ⟨by omega, ?_⟩
  rw [yearLength]
  split
  · omega
  · rename_i common
    rw [isLeap_iff] at common
    omega

/-! ## Decoding and encoding -/

/-- The fields of a date. -/
def fieldsOf (date : Date) : DecodedDate where
  year := date.year
  month := date.month
  day := date.day
  dow := date.number % 7 + 1
  leap := isLeap date.year

theorem date_number_le {date : Date} (year_le : date.year ≤ 9999) : date.number ≤ 3652059 := by
  have within := date.number_within.2
  have last : daysBefore (date.year + 1) ≤ daysBefore (9999 + 1) := daysBefore_mono (by omega)
  have closed := daysBefore_eq 9999
  omega

/-- The cycles in a day number, with the year and the day of the year that they make up. -/
theorem exists_cycles (t : Nat) : ∃ c hundred y day,
    endOfCycle D100 (divMod (t % 146097 : Nat) D100) = (c, hundred) ∧
      divMod hundred D4 = (hundred / 1461, hundred % 1461) ∧
      endOfCycle D1 (divMod (hundred % 1461 : Nat) D1) = (y, day) ∧
      daysBefore (1 + t / 146097 * 400 + c * 100 + hundred / 1461 * 4 + y) + day = t ∧
      day < yearLength (1 + t / 146097 * 400 + c * 100 + hundred / 1461 * 4 + y) := by
  have d100 : D100 = 36524 := rfl
  have d4 : D4 = 1461 := rfl
  have d1 : D1 = 365 := rfl
  obtain ⟨c, hundred, hundred_parts, c_le, t_eq, hundred_le, last_hundred⟩ :=
    endOfCycle_divMod (by decide : 0 < D100) (by decide) (by omega : t % 146097 ≤ D100 * 4)
  rw [d100] at t_eq hundred_le last_hundred
  have four_lt : hundred % 1461 < 1461 := Nat.mod_lt _ (by decide)
  obtain ⟨y, day, day_parts, y_le, four_eq, day_le, last_day⟩ :=
    endOfCycle_divMod (by decide : 0 < D1) (by decide) (by omega : hundred % 1461 ≤ D1 * 4)
  rw [d1] at four_eq day_le last_day
  have four_parts : divMod hundred D4 = (hundred / 1461, hundred % 1461) :=
    divMod_eq (by rw [d4]; omega) (by rw [d4]; omega)
  obtain ⟨day_number, day_lt⟩ := year_of_cycles (a := t / 146097) c_le t_eq hundred_le last_hundred
    (Nat.div_add_mod' hundred 1461).symm four_lt y_le four_eq day_le last_day
  exact ⟨c, hundred, y, day, hundred_parts, four_parts, day_parts, by omega, day_lt⟩

/-- A day of a year is found in the month loop as the day of its date. -/
theorem findMonth_date {date : Date} {Y day : Nat} (positive : 1 ≤ Y)
    (number_eq : daysBefore Y + day + 1 = date.number) (day_lt : day < yearLength Y) :
    Y = date.year ∧
      findMonth (monthLengths (isLeap Y)) 1 day = some (date.month, date.day - 1) := by
  rw [← total_monthLengths] at day_lt
  have length_le : yearLength Y ≤ 366 := by
    rw [yearLength]
    split <;> decide
  obtain ⟨k, k_lt, month_found, low, high⟩ :=
    findMonth_spec (M := 1) day_lt (by rw [total_monthLengths] at day_lt; omega)
  have k_lt : k < 12 := k_lt
  let found : Date :=
    { year := Y
      month := 1 + k
      day := day - total ((monthLengths (isLeap Y)).take k) + 1
      year_pos := positive
      month_pos := Nat.le_add_right ..
      month_le := by omega
      day_pos := Nat.le_add_left ..
      day_le := by rwa [Nat.add_sub_cancel_left] }
  have same : found.number = date.number := by
    show daysBefore Y + daysBeforeMonth (isLeap Y) (1 + k) +
      (day - total ((monthLengths (isLeap Y)).take k) + 1) = date.number
    rw [daysBeforeMonth, Nat.add_sub_cancel_left]
    omega
  rw [← Date.number_injective same]
  exact ⟨rfl, month_found⟩

/-- `DecodeDateFully` finds the date whose number the day has. -/
theorem decodeDateFully_eq {date : Date} (year_le : date.year ≤ 9999) {dateTime : ℚ}
    (floor_eq : ⌊dateTime⌋ + dateDelta = date.number) :
    decodeDateFully dateTime = some (fieldsOf date) := by
  have number_le := date_number_le year_le
  have number_pos : 1 ≤ date.number := Nat.le_add_left_of_le date.day_pos
  have stamp : (dateTimeToTimeStamp dateTime).date = date.number := floor_eq
  have dow : toWord (Int.tmod date.number 7 + 1) = date.number % 7 + 1 := by
    rw [Int.tmod_eq_emod_of_nonneg (Int.natCast_nonneg _)]
    exact toWord_eq (by omega : date.number % 7 + 1 < 65536)
  have peeled : peelD400 ((date.number : Int) - 1) 1 =
      ((((date.number - 1) % 146097 : Nat) : Int), 1 + (date.number - 1) / 146097 * 400) := by
    rw [show (date.number : Int) - 1 = (date.number - 1 : Nat) by omega]
    exact peelD400_eq (by omega)
  obtain ⟨c, hundred, y, day, hundred_parts, four_parts, day_parts, day_number, day_lt⟩ :=
    exists_cycles (date.number - 1)
  have number_eq : daysBefore (1 + (date.number - 1) / 146097 * 400 + c * 100 +
      hundred / 1461 * 4 + y) + day + 1 = date.number := by omega
  obtain ⟨year_eq, month_found⟩ := findMonth_date (by omega) number_eq day_lt
  rw [year_eq] at month_found
  -- no word overflows in front of the year 10000
  have word {value : Int} {result : Nat} (eq : value = result) (small : result ≤ 9999) :
      toWord value = result := by
    rw [eq]
    exact toWord_eq (by omega)
  have hundreds : toWord ((1 + (date.number - 1) / 146097 * 400 : Nat) + (c : Int) * 100) =
      1 + (date.number - 1) / 146097 * 400 + c * 100 := word (by omega) (by omega)
  have fours : toWord ((1 + (date.number - 1) / 146097 * 400 + c * 100 : Nat) +
      (hundred / 1461 : Nat) * (4 : Int)) =
      1 + (date.number - 1) / 146097 * 400 + c * 100 + hundred / 1461 * 4 :=
    word (by omega) (by omega)
  have years : toWord ((1 + (date.number - 1) / 146097 * 400 + c * 100 + hundred / 1461 * 4 : Nat) +
      (y : Int)) = date.year := word (by omega) year_le
  have months : findMonth (dayTable (isLeapYear date.year)) 1 day =
      some (date.month, date.day - 1) := by
    rw [dayTable_eq, isLeapYear_eq]
    exact month_found
  have day_pos := date.day_pos
  have day_le := date.day_le_longest
  have day_word : toWord ((date.day - 1 : Nat) + (1 : Int)) = date.day :=
    word (by omega) (by omega)
  simp only [decodeDateFully, stamp, dow, peeled, hundred_parts, four_parts, day_parts, hundreds,
    fours, years, months, Option.map_some, day_word]
  rw [if_neg (by omega)]
  rfl

theorem foldl_days {lengths : List Nat} {day : Nat} (small : day + total lengths < 65536) :
    lengths.foldl (fun (day days : Nat) => toWord (day + days)) day = day + total lengths := by
  induction lengths generalizing day with
  | nil => rfl
  | cons days rest ih =>
      rw [total] at small ⊢
      have next : toWord ((day : Int) + days) = day + days := toWord_eq (by omega)
      rw [List.foldl_cons, next, ih (by omega), Nat.add_assoc]

/-- `TryEncodeDate` gives the number of a date. -/
theorem tryEncodeDate_eq {date : Date} (year_le : date.year ≤ 9999) :
    tryEncodeDate date.year date.month date.day = some ((date.number : Int) - dateDelta) := by
  have year_pos := date.year_pos
  have day_le := date.day_le
  have month_end := daysBeforeMonth_succ (isLeap date.year) date.month_pos date.month_le
  have year_end : daysBeforeMonth (isLeap date.year) (date.month + 1) ≤
      daysBeforeMonth (isLeap date.year) 13 :=
    daysBeforeMonth_mono (isLeap date.year) (Nat.succ_le_succ date.month_le)
  have length_le : yearLength date.year ≤ 366 := by
    rw [yearLength]
    split <;> decide
  rw [daysBeforeMonth_end] at year_end
  have closed := daysBefore_eq (date.year - 1)
  rw [Nat.sub_add_cancel year_pos] at closed
  simp only [tryEncodeDate, dayTable_eq, isLeapYear_eq]
  rw [if_pos ⟨year_pos, year_le, date.month_pos, date.month_le, date.day_pos, day_le⟩,
    foldl_days (by rw [← daysBeforeMonth]; omega), ← daysBeforeMonth, Date.number]
  congr 1
  push_cast
  omega

/-- Only dates are encoded. -/
theorem tryEncodeDate_eq_some {year month day : Nat} {value : Int}
    (encoded : tryEncodeDate year month day = some value) : ∃ date : Date,
      date.year = year ∧ date.month = month ∧ date.day = day ∧ year ≤ 9999 ∧
        value = (date.number : Int) - dateDelta := by
  have valid := encoded
  simp only [tryEncodeDate, dayTable_eq, isLeapYear_eq] at valid
  split at valid
  · rename_i inside
    obtain ⟨year_pos, year_le, month_day⟩ := inside
    let date := Date.ofFields year month day ⟨year_pos, month_day⟩
    have same : tryEncodeDate year month day = some ((date.number : Int) - dateDelta) :=
      @tryEncodeDate_eq date year_le
    exact ⟨date, rfl, rfl, rfl, year_le, Option.some.inj (encoded.symm.trans same)⟩
  · cases valid

def DecodedDate.ymd (fields : DecodedDate) : Nat × Nat × Nat :=
  (fields.year, fields.month, fields.day)

/-- 31 December 9999. -/
def lastDay : Date := Date.ofFields 9999 12 31 (by decide)

theorem exists_date {T : Nat} (first : 1 ≤ T) (last : T ≤ lastDay.number) :
    ∃ date : Date, date.number = T ∧ date.year ≤ 9999 := by
  obtain ⟨date, number_eq⟩ := Date.exists_number first
  have earlier : date.number ≤ lastDay.number := number_eq ▸ last
  exact ⟨date, number_eq, Date.year_mono earlier⟩

theorem decodeDateFully_day {date : Date} (year_le : date.year ≤ 9999) :
    decodeDateFully (((date.number : Int) - dateDelta : Int) : ℚ) = some (fieldsOf date) := by
  apply decodeDateFully_eq year_le
  rw [Int.floor_intCast]
  omega

/-- Decoding and encoding invert each other, and the days in order are the dates in order. -/
theorem calendar_round_trip :
    (∀ date : Date, date.year ≤ 9999 → ∃ day : Int,
      tryEncodeDate date.year date.month date.day = some day ∧
        (decodeDateFully day).map DecodedDate.ymd = some (date.year, date.month, date.day)) ∧
    (∀ T : Nat, 1 ≤ T → T ≤ lastDay.number → ∃ fields,
      decodeDateFully (((T : Int) - dateDelta : Int) : ℚ) = some fields ∧
        tryEncodeDate fields.year fields.month fields.day = some ((T : Int) - dateDelta)) ∧
    ∀ T : Nat, 1 ≤ T → T < lastDay.number → ∃ date : Date,
      (decodeDateFully (((T : Int) - dateDelta : Int) : ℚ)).map DecodedDate.ymd =
          some (date.year, date.month, date.day) ∧
        (decodeDateFully ((((T + 1 : Nat) : Int) - dateDelta : Int) : ℚ)).map DecodedDate.ymd =
          some (date.next.year, date.next.month, date.next.day) := by
  refine ⟨?_, ?_, ?_⟩
  · intro date year_le
    refine ⟨_, tryEncodeDate_eq year_le, ?_⟩
    rw [decodeDateFully_day year_le]
    rfl
  · intro T first last
    obtain ⟨date, rfl, year_le⟩ := exists_date first last
    exact ⟨_, decodeDateFully_day year_le, tryEncodeDate_eq year_le⟩
  · intro T first last
    obtain ⟨date, rfl, year_le⟩ := exists_date first (Nat.le_of_lt last)
    obtain ⟨later, number_eq, later_le⟩ := exists_date (Nat.le_add_left 1 date.number) last
    have next_eq : later = date.next :=
      Date.number_injective (number_eq.trans date.number_next.symm)
    refine ⟨date, ?_, ?_⟩
    · rw [decodeDateFully_day year_le]
      rfl
    · rw [← number_eq, decodeDateFully_day later_le, next_eq]
      rfl

/-- The leap day of 2000. -/
def leapDay : Date := Date.ofFields 2000 2 29 (by decide)

theorem calendar_round_trip_leapDay : ∃ day : Int, tryEncodeDate 2000 2 29 = some day ∧
    (decodeDateFully day).map DecodedDate.ymd = some (2000, 2, 29) :=
  calendar_round_trip.1 leapDay (by decide)

end DateUtils
end CommonLib
