import CommonLib.Hlib.DateUtils

/-!
# Weeks in `hdateutils.cpp`

`DecodeDateWeek` counts from the Monday of the first week.  In front of that Monday it asks for the
last day of the year before, and behind the year's last Thursday it turns to the next year.
-/

namespace CommonLib
namespace DateUtils

open Calendar

/-- `EncodeDate`. -/
def encodeDate (year month day : Nat) : Int := (tryEncodeDate year month day).getD 0

def cDayMap : List Nat := [7, 1, 2, 3, 4, 5, 6]

/-- `DayOfTheWeek`. -/
def dayOfTheWeek (value : ℚ) : Nat :=
  toWord (((dateTimeToTimeStamp value).date - 1).tmod 7 + 1)

/-- `LDayOfYear` behind the correction by `LStartDayOfWeek`. -/
def dayOfWeeks (dayOfYear : Int) (startDayOfWeek : Nat) : Int :=
  if startDayOfWeek > 4 then dayOfYear - (8 - startDayOfWeek) else dayOfYear + (startDayOfWeek - 1)

def endDayOfWeek (startDayOfWeek : Nat) (leap : Bool) : Nat :=
  if leap then if startDayOfWeek = 7 then 1 else toWord (startDayOfWeek + 1) else startDayOfWeek

/-- The last branch: the year and the week for a day from the first Monday on. -/
def weekOfYear (year : Nat) (dayOfYear : Int) (startDayOfWeek : Nat) (leap : Bool) : Nat × Nat :=
  let week := toWord (dayOfYear.tdiv 7)
  let week := if dayOfYear.tmod 7 ≠ 0 then toWord (week + 1) else week
  if week > 52 ∧ endDayOfWeek startDayOfWeek leap < 4 then (toWord (year + 1), 1) else (year, week)

/-- `DecodeDateWeek`: the year, the week and the day of the week.  There is no result where it
indexes `CDayMap` in front of its start. -/
def decodeDateWeek : Nat → ℚ → Option (Nat × Nat × Nat)
  | 0, _ => none
  | fuel + 1, value => do
      let fields ← decodeDateFully value
      guard (1 ≤ fields.dow)
      let dayOfWeek ← cDayMap[fields.dow - 1]?
      let start : ℚ := encodeDate fields.year 1 1
      let startDayOfWeek := dayOfTheWeek start
      let dayOfYear := dayOfWeeks (truncate (value - start + 1)) startDayOfWeek
      if dayOfYear ≤ 0 then
        -- the day of the week that the call finds goes to `LDay`
        let (year, week, _) ← decodeDateWeek fuel (start - 1)
        return (year, week, dayOfWeek)
      else
        let (year, week) := weekOfYear fields.year dayOfYear startDayOfWeek fields.leap
        return (year, week, dayOfWeek)

/-! ## The parts of the decoder -/

theorem cDayMap_eq {n : Nat} (positive : 1 ≤ n) : cDayMap[n % 7]? = some (weekday n) := by
  have row : ∀ r < 7, cDayMap[r]? = some ((r + 6) % 7 + 1) := by decide
  rw [row _ (Nat.mod_lt n (by decide)), weekday]
  congr 1
  omega

theorem dayOfTheWeek_eq {n : Nat} (positive : 1 ≤ n) :
    dayOfTheWeek (((n : Int) - dateDelta : Int) : ℚ) = weekday n := by
  have stamp : (dateTimeToTimeStamp (((n : Int) - dateDelta : Int) : ℚ)).date = n := by
    show ⌊(((n : Int) - dateDelta : Int) : ℚ)⌋ + dateDelta = n
    rw [Int.floor_intCast]
    omega
  rw [dayOfTheWeek, stamp, show (n : Int) - 1 = (n - 1 : Nat) by omega,
    Int.tmod_eq_emod_of_nonneg (Int.natCast_nonneg _), weekday]
  exact toWord_eq (by omega : (n - 1) % 7 + 1 < 65536)

/-- A whole number of days from a day on. -/
theorem truncate_sub {value : ℚ} {day : Int} (later : day ≤ ⌊value⌋) :
    truncate (value - day + 1) = ⌊value⌋ - day + 1 := by
  have floor_eq : ⌊value - day + 1⌋ = ⌊value⌋ - day + 1 := by
    rw [Int.floor_add_one, Int.floor_sub_intCast]
  have nonneg : 0 ≤ ⌊value - day + 1⌋ := by
    rw [floor_eq]
    omega
  rw [truncate, if_pos (Int.floor_nonneg.mp nonneg), floor_eq]

theorem encodeDate_newYear {year : Nat} (positive : 1 ≤ year) (year_le : year ≤ 9999) :
    encodeDate year 1 1 = ((daysBefore year + 1 : Nat) : Int) - dateDelta := by
  have encoded : tryEncodeDate year 1 1 =
      some (((Date.newYear year positive).number : Int) - dateDelta) :=
    @tryEncodeDate_eq (Date.newYear year positive) year_le
  rw [encodeDate, encoded, Option.getD_some, Date.number_newYear]

/-! ## The weeks of a year -/

/-- The corrected day counts from the Monday of the first week. -/
theorem dayOfWeeks_eq (year n : Nat) :
    dayOfWeeks ((n : Int) - daysBefore year) (weekday (daysBefore year + 1)) =
      (n : Int) + 4 - firstThursday year := by
  rw [dayOfWeeks, weekday, firstThursday, thursday]
  split
  · omega
  · omega

/-- The days in front of that Monday are in the last week of the year before. -/
theorem thursday_before {year n : Nat} (inside : daysBefore year < n)
    (early : n + 4 ≤ firstThursday year) : thursday (daysBefore year) = thursday n := by
  rw [firstThursday, thursday] at early
  rw [thursday, thursday]
  omega

/-- The last day of a year against its first. -/
theorem endDayOfWeek_eq {year : Nat} (positive : 1 ≤ year) :
    endDayOfWeek (weekday (daysBefore year + 1)) (isLeap year) =
      weekday (daysBefore (year + 1)) := by
  have within := weekday_within (daysBefore year + 1)
  rw [daysBefore_succ positive, yearLength, endDayOfWeek]
  split
  · rw [weekday, Nat.add_sub_cancel] at within ⊢
    split
    · rw [weekday]
      omega
    · rw [show toWord (((daysBefore year) % 7 + 1 : Nat) + (1 : Int)) = daysBefore year % 7 + 1 + 1
        from toWord_eq (by omega : daysBefore year % 7 + 1 + 1 < 65536), weekday]
      omega
  · rw [weekday, weekday]
    omega

theorem yearLength_cases (year : Nat) : yearLength year = 365 ∨ yearLength year = 366 := by
  rw [yearLength]
  split
  · exact .inr rfl
  · exact .inl rfl

/-- The branch of the weeks, with the week rounded up. -/
theorem weekOfYear_eq {year day start : Nat} (year_le : year ≤ 9998) (day_le : day ≤ 400)
    (leap : Bool) :
    weekOfYear year day start leap =
      if (day + 6) / 7 > 52 ∧ endDayOfWeek start leap < 4 then (year + 1, 1)
      else (year, (day + 6) / 7) := by
  have quotient : toWord (Int.tdiv day 7) = day / 7 := by
    rw [Int.tdiv_eq_ediv_of_nonneg (Int.natCast_nonneg day)]
    exact toWord_eq (by omega : day / 7 < 65536)
  have next_week : toWord ((day / 7 : Nat) + (1 : Int)) = day / 7 + 1 :=
    toWord_eq (by omega : day / 7 + 1 < 65536)
  have next_year : toWord ((year : Int) + 1) = year + 1 :=
    toWord_eq (by omega : year + 1 < 65536)
  have week : (if Int.tmod day 7 ≠ 0 then day / 7 + 1 else day / 7) = (day + 6) / 7 := by
    rw [Int.tmod_eq_emod_of_nonneg (Int.natCast_nonneg day)]
    split
    · omega
    · omega
  simp only [weekOfYear, quotient, next_week, next_year, week]

/-- A day from the first Monday on lies in the week that the branch finds. -/
theorem weekOfYear_isIsoWeek {year n : Nat} (positive : 1 ≤ year) (year_le : year ≤ 9998)
    (inside : daysBefore year < n ∧ n ≤ daysBefore (year + 1)) (late : firstThursday year < n + 4) :
    IsIsoWeek n
      (weekOfYear year ((n : Int) + 4 - firstThursday year) (weekday (daysBefore year + 1))
        (isLeap year)).1
      (weekOfYear year ((n : Int) + 4 - firstThursday year) (weekday (daysBefore year + 1))
        (isLeap year)).2 := by
  have year_end := daysBefore_succ positive
  have next_end := daysBefore_succ (Nat.le_add_left 1 year)
  have length := yearLength_cases year
  have next_length := yearLength_cases (year + 1)
  have first_after := (isFirstThursday year).after
  have first_le := (isFirstThursday year).within
  rw [show (n : Int) + 4 - firstThursday year = (n + 4 - firstThursday year : Nat) by omega,
    weekOfYear_eq year_le (by omega), endDayOfWeek_eq positive]
  have counted : thursday n + 7 =
      firstThursday year + 7 * ((n + 4 - firstThursday year + 6) / 7) := by
    rw [firstThursday, thursday] at late ⊢
    rw [thursday]
    omega
  split
  · rename_i spill
    show IsIsoWeek n (year + 1) 1
    rw [firstThursday, thursday, weekday] at spill
    refine ⟨?_, ?_, firstThursday (year + 1), isFirstThursday (year + 1), ?_⟩
    · rw [thursday]
      omega
    · rw [thursday]
      omega
    · rw [firstThursday, thursday, thursday]
      omega
  · rename_i stay
    show IsIsoWeek n year ((n + 4 - firstThursday year + 6) / 7)
    refine ⟨?_, ?_, firstThursday year, isFirstThursday year, counted⟩
    · omega
    · rw [firstThursday, thursday, thursday] at counted
      rw [firstThursday, thursday, weekday] at stay
      rw [thursday]
      omega

/-! ## The ISO week -/

/-- What `DecodeDateWeek` does on a day of a year. -/
theorem decodeDateWeek_succ {date : Date} (year_le : date.year ≤ 9999) {value : ℚ}
    (floor_eq : ⌊value⌋ + dateDelta = date.number) (fuel : Nat) :
    decodeDateWeek (fuel + 1) value =
      if (date.number : Int) + 4 - firstThursday date.year ≤ 0 then
        (decodeDateWeek fuel (((daysBefore date.year : Int) - dateDelta : Int) : ℚ)).map
          fun found => (found.1, found.2.1, weekday date.number)
      else
        some ((weekOfYear date.year ((date.number : Int) + 4 - firstThursday date.year)
            (weekday (daysBefore date.year + 1)) (isLeap date.year)).1,
          (weekOfYear date.year ((date.number : Int) + 4 - firstThursday date.year)
            (weekday (daysBefore date.year + 1)) (isLeap date.year)).2, weekday date.number) := by
  have within := date.number_within.1
  have start := encodeDate_newYear date.year_pos year_le
  have dayOfYear : truncate
      (value - ((((daysBefore date.year + 1 : Nat) : Int) - dateDelta : Int) : ℚ) + 1) =
        (date.number : Int) - daysBefore date.year := by
    rw [truncate_sub (by omega)]
    omega
  have before : ((((daysBefore date.year + 1 : Nat) : Int) - dateDelta : Int) : ℚ) - 1 =
      (((daysBefore date.year : Int) - dateDelta : Int) : ℚ) := by
    push_cast
    ring
  have guarded : (guard (1 ≤ (fieldsOf date).dow) : Option Unit) = some () :=
    if_pos (Nat.le_add_left 1 _)
  have mapped : cDayMap[(fieldsOf date).dow - 1]? = some (weekday date.number) :=
    cDayMap_eq (by omega)
  simp only [decodeDateWeek, decodeDateFully_eq year_le floor_eq, Option.bind_eq_bind,
    Option.bind_some, guarded, mapped]
  rw [show (fieldsOf date).year = date.year from rfl,
    show (fieldsOf date).leap = isLeap date.year from rfl, start,
    dayOfTheWeek_eq (Nat.le_add_left 1 _), dayOfYear, dayOfWeeks_eq, before]
  split
  · cases decodeDateWeek fuel (((daysBefore date.year : Int) - dateDelta : Int) : ℚ)
    · rfl
    · rfl
  · rfl

/-- From the first Monday of its year on the week of a day is found without a further call. -/
theorem decodeDateWeek_late {date : Date} (year_le : date.year ≤ 9998) {value : ℚ}
    (floor_eq : ⌊value⌋ + dateDelta = date.number)
    (late : firstThursday date.year < date.number + 4) (fuel : Nat) :
    ∃ year week, decodeDateWeek (fuel + 1) value = some (year, week, weekday date.number) ∧
      IsIsoWeek date.number year week := by
  have later : ¬ (date.number : Int) + 4 - firstThursday date.year ≤ 0 := by omega
  refine ⟨_, _, ?_, weekOfYear_isIsoWeek date.year_pos year_le date.number_within late⟩
  rw [decodeDateWeek_succ (Nat.le_succ_of_le year_le) floor_eq, if_neg later]

/-- From the year's first day on there may be a call for the year before. -/
theorem decodeDateWeek_eq {date : Date} (year_le : date.year ≤ 9998) {value : ℚ}
    (floor_eq : ⌊value⌋ + dateDelta = date.number) {fuel : Nat} (enough : 2 ≤ fuel) :
    ∃ year week, decodeDateWeek fuel value = some (year, week, weekday date.number) ∧
      IsIsoWeek date.number year week := by
  obtain ⟨fuel, rfl⟩ := Nat.exists_eq_add_of_le' enough
  rcases Nat.lt_or_ge (firstThursday date.year) (date.number + 4) with late | early
  · exact decodeDateWeek_late year_le floor_eq late (fuel + 1)
  · -- the call for the last day of the year before, which is in the same week
    have inside := date.number_within.1
    have week_eq := thursday_before inside early
    have not_first : 1 ≤ daysBefore date.year := by
      rw [firstThursday, thursday] at early
      omega
    obtain ⟨last, last_eq⟩ := Date.exists_number not_first
    have last_le : last.year ≤ date.year := Date.year_mono (by omega)
    have last_within := last.number_within
    have last_late : firstThursday last.year < last.number + 4 := by
      have year_lt : last.year < date.year := by
        apply Nat.lt_of_le_of_ne last_le
        intro same
        rw [same] at last_within
        omega
      have year_end : daysBefore (last.year + 1) ≤ daysBefore date.year := daysBefore_mono year_lt
      have length := yearLength_cases last.year
      have first_le := (isFirstThursday last.year).within
      rw [daysBefore_succ last.year_pos] at year_end
      omega
    have last_floor : ⌊(((daysBefore date.year : Int) - dateDelta : Int) : ℚ)⌋ + dateDelta =
        last.number := by
      rw [Int.floor_intCast]
      omega
    obtain ⟨year, week, found, iso⟩ :=
      decodeDateWeek_late (Nat.le_trans last_le year_le) last_floor last_late fuel
    refine ⟨year, week, ?_, iso.of_thursday (by rw [last_eq, week_eq])⟩
    rw [decodeDateWeek_succ (Nat.le_succ_of_le year_le) floor_eq, if_pos (by omega), found]
    rfl

/-- `DecodeDateWeek` returns the ISO week of a day and its day of the week, from 1 for a Monday. -/
theorem decodeDateWeek_isIsoWeek {date : Date} (year_le : date.year ≤ 9998) {value : ℚ}
    (floor_eq : ⌊value⌋ + dateDelta = date.number) {fuel : Nat} (enough : 2 ≤ fuel) :
    ∃ year week dayOfWeek, decodeDateWeek fuel value = some (year, week, dayOfWeek) ∧
      IsIsoWeek date.number year week ∧ dayOfWeek = weekday date.number ∧
        1 ≤ dayOfWeek ∧ dayOfWeek ≤ 7 := by
  obtain ⟨year, week, found, iso⟩ := decodeDateWeek_eq year_le floor_eq enough
  exact ⟨year, week, _, found, iso, rfl, weekday_within date.number⟩

/-- 1 January of the year 5, a Saturday. -/
def saturday : Date := Date.newYear 5 (by decide)

theorem decodeDateWeek_saturday :
    ∃ year week dayOfWeek, decodeDateWeek 2 ((-692132 : Int) : ℚ) = some (year, week, dayOfWeek) ∧
      IsIsoWeek 1462 year week ∧ dayOfWeek = 6 ∧ 1 ≤ dayOfWeek ∧ dayOfWeek ≤ 7 :=
  decodeDateWeek_isIsoWeek (show saturday.year ≤ 9998 by decide) (by rw [Int.floor_intCast]; rfl)
    (Nat.le_refl 2)

end DateUtils
end CommonLib
