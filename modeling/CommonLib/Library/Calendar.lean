import Mathlib.Order.Monotone.Basic
import Mathlib.Tactic.Common

/-!
# The Gregorian calendar

The days are numbered from 1, which is 1 January of the year 1.  A date is valid by construction,
and the dates in order have the numbers in order.  A week belongs to the year in which its Thursday
lies.
-/

namespace CommonLib.Calendar

/-! ## Years and months -/

def isLeap (year : Nat) : Bool := year % 4 = 0 && (year % 100 ≠ 0 || year % 400 = 0)

theorem isLeap_iff (year : Nat) :
    isLeap year = true ↔ year % 4 = 0 ∧ (year % 100 ≠ 0 ∨ year % 400 = 0) := by
  simp [isLeap]

def yearLength (year : Nat) : Nat := if isLeap year then 366 else 365

/-- The days in front of a year; there is no year 0. -/
def daysBefore : Nat → Nat
  | 0 => 0
  | year + 1 => if year = 0 then 0 else daysBefore year + yearLength year

theorem daysBefore_succ {year : Nat} (positive : 1 ≤ year) :
    daysBefore (year + 1) = daysBefore year + yearLength year := by
  rw [daysBefore, if_neg (by omega)]

theorem daysBefore_le_succ (year : Nat) : daysBefore year ≤ daysBefore (year + 1) := by
  rw [daysBefore]
  split
  · rename_i zero
    rw [zero, daysBefore]
  · exact Nat.le_add_right ..

theorem daysBefore_mono : Monotone daysBefore := monotone_nat_of_le_succ daysBefore_le_succ

/-- The closed formula for the days in front of a year. -/
theorem daysBefore_eq (past : Nat) :
    daysBefore (past + 1) + past / 100 = past * 365 + past / 4 + past / 400 := by
  induction past with
  | zero => rfl
  | succ past ih =>
      rw [daysBefore_succ (by omega), yearLength]
      split
      · rename_i leap
        rw [isLeap_iff] at leap
        obtain ⟨by_four, not_hundred | by_four_hundred⟩ := leap
        · have no_cycle : (past + 1) / 400 = past / 400 := by omega
          omega
        · omega
      · rename_i common
        rw [isLeap_iff] at common
        rcases Nat.eq_zero_or_pos ((past + 1) % 4) with by_four | not_four
        · have by_hundred : (past + 1) % 100 = 0 := by
            by_contra not_hundred
            exact common ⟨by_four, .inl not_hundred⟩
          have no_cycle : (past + 1) / 400 = past / 400 := by omega
          omega
        · omega

def monthLengths (leap : Bool) : List Nat :=
  [31, if leap then 29 else 28, 31, 30, 31, 30, 31, 31, 30, 31, 30, 31]

def total : List Nat → Nat
  | [] => 0
  | days :: rest => days + total rest

theorem total_take_succ (lengths : List Nat) {i : Nat} (inside : i < lengths.length) :
    total (lengths.take (i + 1)) = total (lengths.take i) + lengths.getD i 0 := by
  induction lengths generalizing i with
  | nil => exact absurd inside (Nat.not_lt_zero i)
  | cons days rest ih =>
      cases i with
      | zero => simp [total]
      | succ i =>
          rw [List.take_succ_cons, List.take_succ_cons, total, total,
            ih (Nat.lt_of_succ_lt_succ inside), List.getD_cons_succ, Nat.add_assoc]

theorem total_monthLengths (year : Nat) : total (monthLengths (isLeap year)) = yearLength year := by
  rw [yearLength]
  cases isLeap year <;> rfl

theorem monthLength_pos (leap : Bool) {i : Nat} (inside : i < 12) :
    1 ≤ (monthLengths leap).getD i 0 := by
  revert i
  cases leap <;> decide

theorem monthLength_le (leap : Bool) {i : Nat} (inside : i < 12) :
    (monthLengths leap).getD i 0 ≤ 31 := by
  revert i
  cases leap <;> decide

/-- The days of a year in front of a month. -/
def daysBeforeMonth (leap : Bool) (month : Nat) : Nat :=
  total ((monthLengths leap).take (month - 1))

theorem daysBeforeMonth_succ (leap : Bool) {month : Nat} (positive : 1 ≤ month)
    (within : month ≤ 12) :
    daysBeforeMonth leap (month + 1) =
      daysBeforeMonth leap month + (monthLengths leap).getD (month - 1) 0 := by
  have inside : month - 1 < (monthLengths leap).length := by
    show month - 1 < 12
    omega
  rw [daysBeforeMonth, daysBeforeMonth, ← total_take_succ _ inside]
  congr 2
  omega

theorem daysBeforeMonth_end (year : Nat) :
    daysBeforeMonth (isLeap year) 13 = yearLength year := by
  rw [← total_monthLengths]
  rfl

theorem daysBeforeMonth_mono (leap : Bool) : Monotone (daysBeforeMonth leap) := by
  apply monotone_nat_of_le_succ
  intro month
  rcases Nat.eq_zero_or_pos month with rfl | positive
  · exact Nat.le_refl _
  · rcases Nat.lt_or_ge 12 month with beyond | within
    · rw [daysBeforeMonth, daysBeforeMonth, List.take_of_length_le, List.take_of_length_le]
      · show 12 ≤ month + 1 - 1
        omega
      · show 12 ≤ month - 1
        omega
    · rw [daysBeforeMonth_succ leap positive within]
      exact Nat.le_add_right ..

/-! ## Dates -/

@[ext]
structure Date where
  year : Nat
  month : Nat
  day : Nat
  year_pos : 1 ≤ year
  month_pos : 1 ≤ month
  month_le : month ≤ 12
  day_pos : 1 ≤ day
  day_le : day ≤ (monthLengths (isLeap year)).getD (month - 1) 0

namespace Date

def number (date : Date) : Nat :=
  daysBefore date.year + daysBeforeMonth (isLeap date.year) date.month + date.day

/-- The date of fields that make up one. -/
def ofFields (year month day : Nat) (valid : 1 ≤ year ∧ 1 ≤ month ∧ month ≤ 12 ∧ 1 ≤ day ∧
    day ≤ (monthLengths (isLeap year)).getD (month - 1) 0) : Date where
  year := year
  month := month
  day := day
  year_pos := valid.1
  month_pos := valid.2.1
  month_le := valid.2.2.1
  day_pos := valid.2.2.2.1
  day_le := valid.2.2.2.2

/-- The first day of a year. -/
def newYear (year : Nat) (positive : 1 ≤ year) : Date where
  year := year
  month := 1
  day := 1
  year_pos := positive
  month_pos := Nat.le_refl 1
  month_le := by decide
  day_pos := Nat.le_refl 1
  day_le := monthLength_pos _ (by decide)

theorem number_newYear (year : Nat) (positive : 1 ≤ year) :
    (newYear year positive).number = daysBefore year + 1 := rfl

/-- The day behind a date. -/
def next (date : Date) : Date :=
  if more : date.day < (monthLengths (isLeap date.year)).getD (date.month - 1) 0 then
    { date with day := date.day + 1, day_pos := Nat.le_add_left .., day_le := more }
  else if months : date.month < 12 then
    { date with
      month := date.month + 1
      day := 1
      month_pos := Nat.le_add_left ..
      month_le := months
      day_pos := Nat.le_refl 1
      day_le := monthLength_pos _ months }
  else newYear (date.year + 1) (Nat.le_add_left ..)

theorem day_le_longest (date : Date) : date.day ≤ 31 := by
  have month_le := date.month_le
  exact date.day_le.trans (monthLength_le _ (by omega))

theorem number_next (date : Date) : date.next.number = date.number + 1 := by
  have month_le := date.month_le
  have day_le := date.day_le
  have month_end := daysBeforeMonth_succ (isLeap date.year) date.month_pos month_le
  rw [next]
  split
  · rfl
  · split
    · simp only [number]
      omega
    · have year_end : daysBeforeMonth (isLeap date.year) (date.month + 1) =
          yearLength date.year := by
        rw [show date.month = 12 by omega]
        exact daysBeforeMonth_end date.year
      rw [number_newYear, daysBefore_succ date.year_pos, number]
      omega

/-- The days of a year are those between it and the next one. -/
theorem number_within (date : Date) :
    daysBefore date.year < date.number ∧ date.number ≤ daysBefore (date.year + 1) := by
  have day_pos := date.day_pos
  have day_le := date.day_le
  have month_le := date.month_le
  have month_end := daysBeforeMonth_succ (isLeap date.year) date.month_pos month_le
  have year_end := daysBeforeMonth_mono (isLeap date.year) (by omega : date.month + 1 ≤ 13)
  rw [daysBeforeMonth_end] at year_end
  rw [daysBefore_succ date.year_pos, number]
  omega

end Date

/-- A number lies in one of the intervals between the values of a monotone function. -/
theorem interval_unique {bound : Nat → Nat} (mono : Monotone bound) {n a b : Nat}
    (in_a : bound a < n ∧ n ≤ bound (a + 1)) (in_b : bound b < n ∧ n ≤ bound (b + 1)) : a = b := by
  rcases lt_trichotomy a b with less | same | greater
  · have apart : bound (a + 1) ≤ bound b := mono less
    omega
  · exact same
  · have apart : bound (b + 1) ≤ bound a := mono greater
    omega

namespace Date

theorem number_injective {first second : Date} (same : first.number = second.number) :
    first = second := by
  have year_eq : first.year = second.year :=
    interval_unique daysBefore_mono first.number_within (same ▸ second.number_within)
  have first_day := first.day_le
  have second_day := second.day_le
  have first_end := daysBeforeMonth_succ (isLeap first.year) first.month_pos first.month_le
  have second_end := daysBeforeMonth_succ (isLeap second.year) second.month_pos second.month_le
  have first_pos := first.day_pos
  have second_pos := second.day_pos
  rw [number, number, year_eq, Nat.add_assoc, Nat.add_assoc] at same
  have days_eq := Nat.add_left_cancel same
  rw [year_eq] at first_day first_end
  have month_eq : first.month = second.month :=
    interval_unique (daysBeforeMonth_mono (isLeap second.year))
      (n := daysBeforeMonth (isLeap second.year) first.month + first.day) (by omega) (by omega)
  rw [month_eq] at days_eq
  exact Date.ext year_eq month_eq (Nat.add_left_cancel days_eq)

/-- Every number from 1 on is that of a date. -/
theorem exists_number {n : Nat} (positive : 1 ≤ n) : ∃ date : Date, date.number = n := by
  induction n, positive using Nat.le_induction with
  | base => exact ⟨newYear 1 (Nat.le_refl 1), rfl⟩
  | succ n _ ih =>
      obtain ⟨date, number_eq⟩ := ih
      exact ⟨date.next, by rw [number_next, number_eq]⟩

theorem year_mono {first second : Date} (le : first.number ≤ second.number) :
    first.year ≤ second.year := by
  by_contra later
  have apart : daysBefore (second.year + 1) ≤ daysBefore first.year :=
    daysBefore_mono (Nat.lt_of_not_le later)
  have in_first := first.number_within
  have in_second := second.number_within
  omega

end Date

/-! ## Weeks -/

/-- The day of the week, from 1 for a Monday; day 1 is a Monday. -/
def weekday (n : Nat) : Nat := (n - 1) % 7 + 1

/-- The Thursday in the week of a day. -/
def thursday (n : Nat) : Nat := 7 * ((n - 1) / 7) + 4

theorem weekday_within (n : Nat) : 1 ≤ weekday n ∧ weekday n ≤ 7 := by
  rw [weekday]
  omega

/-- The Thursday among the first seven days of a year. -/
structure IsFirstThursday (year n : Nat) : Prop where
  is_thursday : weekday n = 4
  after : daysBefore year < n
  within : n ≤ daysBefore year + 7

/-- The Thursday in the week of 4 January. -/
def firstThursday (year : Nat) : Nat := thursday (daysBefore year + 4)

theorem isFirstThursday (year : Nat) : IsFirstThursday year (firstThursday year) where
  is_thursday := by
    rw [weekday, firstThursday, thursday]
    omega
  after := by
    rw [firstThursday, thursday]
    omega
  within := by
    rw [firstThursday, thursday]
    omega

/-- A day lies in a week of a year: its Thursday is one of the year, and the weeks are counted from
the year's first Thursday. -/
structure IsIsoWeek (n year week : Nat) : Prop where
  after : daysBefore year < thursday n
  within : thursday n ≤ daysBefore (year + 1)
  counted : ∃ first, IsFirstThursday year first ∧ thursday n + 7 = first + 7 * week

theorem IsIsoWeek.year_unique {n first second week week' : Nat} (in_first : IsIsoWeek n first week)
    (in_second : IsIsoWeek n second week') : first = second :=
  interval_unique daysBefore_mono ⟨in_first.after, in_first.within⟩
    ⟨in_second.after, in_second.within⟩

/-- A week is one from a Monday to a Sunday. -/
theorem IsIsoWeek.of_thursday {n m year week : Nat} (iso : IsIsoWeek n year week)
    (same : thursday m = thursday n) : IsIsoWeek m year week :=
  ⟨same ▸ iso.after, same ▸ iso.within, same ▸ iso.counted⟩

end CommonLib.Calendar
