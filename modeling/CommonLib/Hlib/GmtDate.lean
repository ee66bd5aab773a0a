import CommonLib.Hlib.DateNames
import CommonLib.Hlib.DateTimes
import CommonLib.Hlib.DateWeek

/-!
# GMT date strings in `hdateutils.cpp`

`DateToGMTStr` fills in the year that `DecodeDateWeek` leaves behind, and writes a small day with
one digit.  `TryGMTStrToDate` wants at least 29 characters.
-/

namespace CommonLib
namespace DateUtils

open Calendar HashTable PasUtils

/-! ## The formatter and the parser -/

def localTimeDelta : ℚ := 1 / 3

/-- The `sprintf` of `DateToGMTStr`. -/
def gmtText (week : List Byte) (d : Nat) (month : List Byte) (y : Nat) (t : List Byte) :
    List Byte :=
  week ++ (ascii ", " ++ (intToStr d ++ (ascii " " ++ (month ++ (ascii " " ++ (intToStr y ++
    (ascii " " ++ (t ++ ascii " GMT"))))))))

/-- The instant whose fields are written. -/
def fixed (dt : ℚ) (gmtFix : Bool) : ℚ := if gmtFix then dt - localTimeDelta else dt

/-- The instant that is returned for the fields that were read. -/
def unfixed (dt : ℚ) (gmtFix : Bool) : ℚ := if gmtFix then dt + localTimeDelta else dt

/-- `DateToGMTStr`; `behind` is what the format of the time finds behind a buffer. -/
def dateToGMTStr (fuel : Nat) (behind : List Byte) (dt : ℚ) (gmtFix : Bool) :
    Option (List Byte) := do
  let dt := fixed dt gmtFix
  let fields ← decodeDateFully dt
  -- the year of the date is overwritten
  let (y, _, x) ← decodeDateWeek fuel dt
  let t ← formatDateTime behind (ascii "hh:nn:ss") dt
  let week ← weekDays[x - 1]?
  let month ← months[fields.month - 1]?
  return gmtText week fields.day month y t

/-- The variables that the loop of `TryGMTStrToDate` sets. -/
structure GmtFields where
  y : Option Nat := none
  m : Option Nat := none
  d : Option Nat := none
  h : Option Nat := none
  n : Option Nat := none
  z : Option Nat := none

/-- The `switch` over the fields; the inner `none` stands for false. -/
def storeField (table : HashTable THHashString Int) (j : Nat) (text : List Byte)
    (fields : GmtFields) : Option (Option GmtFields) :=
  match j with
  | 1 => some ((tryStrToWord text).map fun d => { fields with d := some d })
  | 2 => (tryStrToMonth table text).map fun m => m.map fun m => { fields with m := some m }
  | 3 => some ((tryStrToWord text).map fun y => { fields with y := some y })
  | 4 => some ((tryStrToWord text).map fun h => { fields with h := some h })
  | 5 => some ((tryStrToWord text).map fun n => { fields with n := some n })
  | 6 => some ((tryStrToWord text).map fun z => { fields with z := some z })
  | _ => some (some fields)

/-- The loop over the positions, with `turns` of it to go. -/
def scanFields (table : HashTable THHashString Int) (s : List Byte) :
    Nat → Nat → Nat → Nat → GmtFields → Option (Option GmtFields)
  | 0, _, _, _, fields => some (some fields)
  | turns + 1, i, j, k, fields =>
      s[i - 1]?.bind fun c =>
        if c = 32 ∨ c = 58 then
          (substr s (k - 1) (i - k)).bind fun text =>
            (storeField table (j + 1) text fields).bind fun stored =>
              stored.elim (some none) fun fields =>
                scanFields table s turns (i + 1) (j + 1) (i + 1) fields
        else scanFields table s turns (i + 1) j k fields

/-- The call of `EncodeDateTime` behind the loop; a variable that was not set has no value. -/
def encodeFields (fields : GmtFields) : Option ℚ := do
  let y ← fields.y
  let m ← fields.m
  let d ← fields.d
  let h ← fields.h
  let n ← fields.n
  let z ← fields.z
  return encodeDateTime y m d h n z 0

/-- `TryGMTStrToDate`; the inner `none` stands for false. -/
def tryGMTStrToDate (table : HashTable THHashString Int) (s : List Byte) (gmtFix : Bool) :
    Option (Option ℚ) :=
  let l := s.length
  if l > 28 ∧ l < 31 then
    if (s.drop 3).take 2 ≠ ascii ", " then some none
    else if (s.drop (l - 4)).take 4 ≠ ascii " GMT" then some none
    else
      (scanFields table s (l - 8) 6 0 6 {}).bind fun scanned =>
        scanned.elim (some none) fun fields =>
          (encodeFields fields).map fun dt => some (unfixed dt gmtFix)
  else some none

/-- The string of an instant, read again. -/
def gmtRoundTrip (memory : Dict THHashString Int) (fuel : Nat) (behind : List Byte) (dt : ℚ)
    (gmtFix : Bool) : Option (Option ℚ) := do
  let table ← monthTable memory
  let text ← dateToGMTStr fuel behind dt gmtFix
  tryGMTStrToDate table text gmtFix

/-! ## Scanning -/

variable {table : HashTable THHashString Int} {s text rest : List Byte} {sep : Byte}
  {fields fields' : GmtFields}

/-- The loop runs over a field to its separator. -/
theorem scanFields_run {field : List Byte} {i : Nat} (cut : s.drop i = field ++ sep :: rest)
    (is_sep : sep = 32 ∨ sep = 58) (plain : ∀ c ∈ field, c ≠ 32 ∧ c ≠ 58) (turns j k : Nat)
    (text_eq : substr s (k - 1) (i + field.length + 1 - k) = some text)
    (stored : storeField table (j + 1) text fields = some (some fields')) :
    scanFields table s (turns + field.length + 1) (i + 1) j k fields =
      scanFields table s turns (i + field.length + 2) (j + 1) (i + field.length + 2) fields' := by
  induction field generalizing i with
  | nil =>
      have here : s[i]? = some sep := by
        rw [← List.head?_drop, cut]
        rfl
      rw [List.length_nil, Nat.add_zero] at text_eq
      rw [List.length_nil, Nat.add_zero, Nat.add_zero, scanFields, Nat.add_sub_cancel, here,
        Option.bind_some, if_pos is_sep, text_eq, Option.bind_some, stored]
      rfl
  | cons c field ih =>
      have here : s[i]? = some c := by
        rw [← List.head?_drop, cut]
        rfl
      have later : s.drop (i + 1) = field ++ sep :: rest := by
        rw [← List.drop_drop, cut]
        rfl
      have not_sep : ¬ (c = 32 ∨ c = 58) := by
        obtain ⟨not_space, not_colon⟩ := plain c List.mem_cons_self
        exact not_or.mpr ⟨not_space, not_colon⟩
      have moved : i + (c :: field).length = i + 1 + field.length := by
        rw [List.length_cons, Nat.add_right_comm, Nat.add_assoc]
      rw [moved] at text_eq
      rw [moved, List.length_cons, ← Nat.add_assoc, scanFields, Nat.add_sub_cancel, here,
        Option.bind_some, if_neg not_sep]
      exact ih later (fun c among => plain c (List.mem_cons_of_mem _ among)) text_eq

/-- A field from its start on. -/
theorem scanFields_field {field : List Byte} {k : Nat} (cut : s.drop k = field ++ sep :: rest)
    (is_sep : sep = 32 ∨ sep = 58) (plain : ∀ c ∈ field, c ≠ 32 ∧ c ≠ 58) (turns j : Nat)
    (stored : storeField table (j + 1) field fields = some (some fields')) :
    scanFields table s (turns + field.length + 1) (k + 1) j (k + 1) fields =
        scanFields table s turns (k + field.length + 2) (j + 1) (k + field.length + 2) fields' ∧
      s.drop (k + field.length + 1) = rest := by
  have inside : k ≤ s.length := by
    by_contra beyond
    rw [List.drop_of_length_le (by omega)] at cut
    exact absurd cut.symm (by simp)
  have text_eq : substr s (k + 1 - 1) (k + field.length + 1 - (k + 1)) = some field := by
    rw [Nat.add_sub_cancel, substr_eq_some inside, cut, Nat.add_sub_add_right,
      Nat.add_sub_cancel_left, List.take_left]
  refine ⟨scanFields_run cut is_sep plain turns j (k + 1) text_eq stored, ?_⟩
  rw [Nat.add_assoc, ← List.drop_drop, cut, ← List.drop_drop, List.drop_left]
  rfl

/-! ## Reading what was written -/

theorem plain_of_isDigit {field : List Byte} (digits : ∀ c ∈ field, isDigit c = true) :
    ∀ c ∈ field, c ≠ 32 ∧ c ≠ 58 := by
  intro c among
  have digit := digits c among
  refine ⟨?_, ?_⟩
  · rintro rfl
    cases digit
  · rintro rfl
    cases digit

/-- What the parser needs to know of the name of a month. -/
structure IsMonth (m : Nat) (month : List Byte) : Prop where
  number : months.idxOf month + 1 = m
  among : month ∈ months
  length : month.length = 3
  plain : ∀ c ∈ month, c ≠ 32 ∧ c ≠ 58

theorem exists_isMonth {m : Nat} (positive : 1 ≤ m) (within : m ≤ 12) :
    ∃ month, months[m - 1]? = some month ∧ IsMonth m month := by
  have inside : m - 1 < months.length := by
    show m - 1 < 12
    omega
  have names : ∀ month ∈ months, month.length = 3 ∧ ∀ c ∈ month, c ≠ 32 ∧ c ≠ 58 := by
    decide +kernel
  have among := List.getElem_mem inside
  obtain ⟨length, plain⟩ := names _ among
  have place := months_nodup.idxOf_getElem (m - 1) inside
  exact ⟨_, List.getElem?_eq_getElem inside, by omega, among, length, plain⟩

theorem length_gmtText {week month t : List Byte} (d y : Nat) (week_length : week.length = 3)
    (month_length : month.length = 3) (t_length : t.length = 8) :
    (gmtText week d month y t).length = (intToStr d).length + (intToStr y).length + 23 := by
  have comma : (ascii ", ").length = 2 := rfl
  have blank : (ascii " ").length = 1 := rfl
  have gmt : (ascii " GMT").length = 4 := rfl
  simp only [gmtText, List.length_append, week_length, month_length, t_length, comma, blank, gmt]
  omega

/-- What stands at the fixed places. -/
theorem gmtText_places {week : List Byte} (month t : List Byte) (d y : Nat)
    (week_length : week.length = 3) :
    ((gmtText week d month y t).drop 3).take 2 = ascii ", " ∧
      ((gmtText week d month y t).drop ((gmtText week d month y t).length - 4)).take 4 =
        ascii " GMT" := by
  refine ⟨?_, ?_⟩
  · rw [gmtText, ← week_length, List.drop_left]
    rfl
  · have behind : ∃ front, gmtText week d month y t = front ++ ascii " GMT" := by
      rw [gmtText]
      simp only [← List.append_assoc]
      exact ⟨_, rfl⟩
    obtain ⟨front, text_eq⟩ := behind
    have length_eq : (front ++ ascii " GMT").length - 4 = front.length := by
      rw [List.length_append]
      exact Nat.add_sub_cancel front.length 4
    rw [text_eq, length_eq, List.drop_left]
    rfl

theorem length_timeText {time : DecodedTime} (hour_lt : time.hour < 100) (min_lt : time.min < 100)
    (sec_lt : time.sec < 100) : (timeText time).length = 8 := by
  simp only [timeText, List.length_append, length_twoDigits hour_lt, length_twoDigits min_lt,
    length_twoDigits sec_lt]
  rfl

/-- The parts of a text stand where the parser looks for them. -/
structure InPlace (table : HashTable THHashString Int) (week : List Byte) (d : Nat)
    (month : List Byte) (m y : Nat) (time : DecodedTime) : Prop where
  week_length : week.length = 3
  d_length : (intToStr d).length = 2
  d_word : d < 65536
  month_length : month.length = 3
  month_plain : ∀ c ∈ month, c ≠ 32 ∧ c ≠ 58
  found : tryStrToMonth table month = some (some m)
  y_length : (intToStr y).length = 4
  y_word : y < 65536
  hour_lt : time.hour < 100
  min_lt : time.min < 100
  sec_lt : time.sec < 100

variable {week month : List Byte} {d m y : Nat} {time : DecodedTime}

/-- A text with its parts in place is read field by field. -/
theorem InPlace.scanFields_gmtText (inPlace : InPlace table week d month m y time) :
    scanFields table (gmtText week d month y (timeText time)) 21 6 0 6 {} = some (some
      { y := some y, m := some m, d := some d, h := some time.hour, n := some time.min,
        z := some time.sec }) := by
  have from_day : (gmtText week d month y (timeText time)).drop 5 = intToStr d ++ 32 :: (month ++
      32 :: (intToStr y ++ 32 :: (twoDigits (intToStr time.hour) ++
        58 :: (twoDigits (intToStr time.min) ++
          58 :: (twoDigits (intToStr time.sec) ++ 32 :: ascii "GMT"))))) := by
    have comma : ascii ", " = [44, 32] := rfl
    have blank : ascii " " = [32] := rfl
    have colon : ascii ":" = [58] := rfl
    have gmt : ascii " GMT" = 32 :: ascii "GMT" := rfl
    rw [gmtText, show 5 = week.length + 2 by rw [inPlace.week_length], ← List.drop_drop,
      List.drop_left, timeText]
    simp only [comma, blank, colon, gmt, List.append_assoc, List.cons_append, List.nil_append,
      List.drop_succ_cons, List.drop_zero]
  have d_stored : storeField table 1 (intToStr d) {} = some (some { d := some d }) := by
    rw [storeField, tryStrToWord_intToStr inPlace.d_word]
    rfl
  have m_stored : storeField table 2 month { d := some d } =
      some (some { m := some m, d := some d }) := by
    rw [storeField, inPlace.found]
    rfl
  have y_stored : storeField table 3 (intToStr y) { m := some m, d := some d } =
      some (some { y := some y, m := some m, d := some d }) := by
    rw [storeField, tryStrToWord_intToStr inPlace.y_word]
    rfl
  have h_stored : storeField table 4 (twoDigits (intToStr time.hour))
      { y := some y, m := some m, d := some d } =
        some (some { y := some y, m := some m, d := some d, h := some time.hour }) := by
    rw [storeField, tryStrToWord_twoDigits inPlace.hour_lt]
    rfl
  have n_stored : storeField table 5 (twoDigits (intToStr time.min))
      { y := some y, m := some m, d := some d, h := some time.hour } = some (some
        { y := some y, m := some m, d := some d, h := some time.hour, n := some time.min }) := by
    rw [storeField, tryStrToWord_twoDigits inPlace.min_lt]
    rfl
  have z_stored : storeField table 6 (twoDigits (intToStr time.sec))
      { y := some y, m := some m, d := some d, h := some time.hour, n := some time.min } =
        some (some
          { y := some y, m := some m, d := some d, h := some time.hour, n := some time.min,
            z := some time.sec }) := by
    rw [storeField, tryStrToWord_twoDigits inPlace.sec_lt]
    rfl
  obtain ⟨d_step, from_month⟩ := scanFields_field from_day (.inl rfl)
    (plain_of_isDigit (isDigit_intToStr d)) 18 0 d_stored
  rw [inPlace.d_length] at d_step from_month
  obtain ⟨m_step, from_year⟩ := scanFields_field from_month (.inl rfl) inPlace.month_plain 14 1
    m_stored
  rw [inPlace.month_length] at m_step from_year
  obtain ⟨y_step, from_hour⟩ := scanFields_field from_year (.inl rfl)
    (plain_of_isDigit (isDigit_intToStr y)) 9 2 y_stored
  rw [inPlace.y_length] at y_step from_hour
  obtain ⟨h_step, from_min⟩ := scanFields_field from_hour (.inr rfl)
    (plain_of_isDigit (isDigit_twoDigits time.hour)) 6 3 h_stored
  rw [length_twoDigits inPlace.hour_lt] at h_step from_min
  obtain ⟨n_step, from_sec⟩ := scanFields_field from_min (.inr rfl)
    (plain_of_isDigit (isDigit_twoDigits time.min)) 3 4 n_stored
  rw [length_twoDigits inPlace.min_lt] at n_step from_sec
  obtain ⟨z_step, -⟩ := scanFields_field from_sec (.inl rfl)
    (plain_of_isDigit (isDigit_twoDigits time.sec)) 0 5 z_stored
  rw [length_twoDigits inPlace.sec_lt] at z_step
  exact d_step.trans (m_step.trans (y_step.trans (h_step.trans (n_step.trans z_step))))

/-- The parser takes a text with its parts in place. -/
theorem InPlace.tryGMTStrToDate_gmtText (inPlace : InPlace table week d month m y time)
    (gmtFix : Bool) :
    tryGMTStrToDate table (gmtText week d month y (timeText time)) gmtFix =
      some (some (unfixed (encodeDateTime y m d time.hour time.min time.sec 0) gmtFix)) := by
  have length := length_gmtText d y inPlace.week_length inPlace.month_length
    (length_timeText inPlace.hour_lt inPlace.min_lt inPlace.sec_lt)
  rw [inPlace.d_length, inPlace.y_length] at length
  obtain ⟨comma, gmt⟩ := gmtText_places month (timeText time) d y inPlace.week_length
  rw [length] at gmt
  simp only [tryGMTStrToDate, length, comma, gmt, inPlace.scanFields_gmtText]
  rfl

/-- A text with a day of one digit is too short. -/
theorem tryGMTStrToDate_short {t : List Byte} (week_length : week.length = 3)
    (month_length : month.length = 3) (t_length : t.length = 8)
    (y_length : (intToStr y).length = 4) (small : d < 10) (gmtFix : Bool) :
    tryGMTStrToDate table (gmtText week d month y t) gmtFix = some none := by
  have d_length : (intToStr d).length = 1 := by
    rw [intToStr_of_lt small]
    rfl
  have length := length_gmtText d y week_length month_length t_length
  rw [d_length, y_length] at length
  rw [tryGMTStrToDate, length]
  rfl

/-! ## Round trips -/

/-- The text of an instant in an ISO week. -/
theorem dateToGMTStr_eq {date : Date} (year_le : date.year ≤ 9998) {dt : ℚ} {gmtFix : Bool}
    (floor_eq : ⌊fixed dt gmtFix⌋ + dateDelta = date.number) {fuel : Nat} (enough : 2 ≤ fuel)
    (behind : List Byte) :
    ∃ y w week month, IsIsoWeek date.number y w ∧ week.length = 3 ∧ IsMonth date.month month ∧
      dateToGMTStr fuel behind dt gmtFix =
        some (gmtText week date.day month y (timeText (decodeTime (fixed dt gmtFix)))) := by
  obtain ⟨y, w, found, iso⟩ := decodeDateWeek_eq year_le floor_eq enough
  obtain ⟨month, month_eq, isMonth⟩ := exists_isMonth date.month_pos date.month_le
  obtain ⟨week, week_eq, week_length⟩ : ∃ week, weekDays[weekday date.number - 1]? = some week ∧
      week.length = 3 := by
    have names : ∀ i < 7, weekDays[i]? = some (weekDays.getD i []) ∧
        (weekDays.getD i []).length = 3 := by decide
    have within := weekday_within date.number
    exact ⟨_, names _ (by omega)⟩
  have decoded := decodeDateFully_eq (Nat.le_succ_of_le year_le) floor_eq
  refine ⟨y, w, week, month, iso, week_length, isMonth, ?_⟩
  simp only [dateToGMTStr, decoded, found, formatDateTime, replaceAll_hms, Option.bind_eq_bind,
    Option.bind_some, week_eq]
  rw [show (fieldsOf date).month = date.month from rfl, month_eq]
  rfl

theorem unfixed_eq_iff (value dt : ℚ) (gmtFix : Bool) :
    unfixed value gmtFix = dt ↔ value = fixed dt gmtFix := by
  cases gmtFix with
  | false => exact Iff.rfl
  | true => exact eq_sub_iff_add_eq.symm

theorem IsWholeSecond.fixed {dt : ℚ} (whole : IsWholeSecond dt) (gmtFix : Bool) :
    IsWholeSecond (fixed dt gmtFix) := by
  obtain ⟨seconds, seconds_eq⟩ := whole
  cases gmtFix with
  | false => exact ⟨seconds, seconds_eq⟩
  | true =>
      refine ⟨seconds - 28800, ?_⟩
      show (dt - 1 / 3) * 86400 = _
      push_cast
      linarith

/-- 30 December 1899, from which the days of a date-time are counted. -/
def epoch : Date := Date.ofFields 1899 12 30 (by decide)

theorem number_epoch : (epoch.number : Int) = dateDelta := by
  have closed := daysBefore_eq 1898
  have year_eq : epoch.year = 1898 + 1 := rfl
  have days : daysBeforeMonth (isLeap epoch.year) epoch.month = 334 := by decide
  have day_eq : epoch.day = 30 := rfl
  rw [Date.number, days, day_eq, year_eq, dateDelta]
  omega

/-- The day before New Year's Eve is one of each year. -/
theorem tryEncodeDate_epoch {y : Nat} (y_pos : 1 ≤ y) (y_le : y ≤ 9999) :
    tryEncodeDate y epoch.month epoch.day ≠ none := by
  have inside : 30 ≤ (monthLengths (isLeap y)).getD 11 0 := by
    cases isLeap y <;> decide
  let date := Date.ofFields y 12 30 ⟨y_pos, by decide, by decide, by decide, inside⟩
  have valid : tryEncodeDate y epoch.month epoch.day = some ((date.number : Int) - dateDelta) :=
    @tryEncodeDate_eq date y_le
  rw [valid]
  exact Option.some_ne_none _

/-- The fields of a date in another year encode another instant. -/
theorem encodeDateTime_eq_iff {date : Date} (year_le : date.year ≤ 9999) {y second : Nat}
    (y_pos : 1 ≤ y) (y_le : y ≤ 9999) (second_lt : second < 86400) :
    encodeDateTime y date.month date.day (timeOf second).hour (timeOf second).min
        (timeOf second).sec 0 = ((date.number : Int) - dateDelta : Int) + (second : ℚ) / 86400 ↔
      y = date.year := by
  have fraction : ⌊(second : ℚ) / 86400⌋ = 0 := by
    have scaled : (second : ℚ) < 86400 := by exact_mod_cast second_lt
    rw [Int.floor_eq_zero_iff, Set.mem_Ico]
    exact ⟨by positivity, (div_lt_one (by norm_num)).mpr scaled⟩
  rw [encodeDateTime, tryEncodeDateTime, tryEncodeTime_eq second_lt]
  constructor
  · intro same
    cases encoded : tryEncodeDate y date.month date.day with
    | none =>
        -- the parser falls back to the epoch, and that is a date of every year
        rw [encoded] at same
        have at_zero : (0 : ℚ) =
            ((date.number : Int) - dateDelta : Int) + (second : ℚ) / 86400 := same
        have floor_eq := congrArg Int.floor at_zero
        rw [Int.floor_zero, Int.floor_intCast_add, fraction] at floor_eq
        have number_eq : date.number = epoch.number := by
          have epoch_eq := number_epoch
          omega
        rw [Date.number_injective number_eq] at encoded
        exact absurd encoded (tryEncodeDate_epoch y_pos y_le)
    | some value =>
        obtain ⟨other, rfl, -, -, -, rfl⟩ := tryEncodeDate_eq_some encoded
        rw [encoded] at same
        have days_eq : (((other.number : Int) - dateDelta : Int) : ℚ) =
            ((date.number : Int) - dateDelta : Int) := add_right_cancel same
        have number_eq : other.number = date.number := by
          have equal := Int.cast_injective days_eq
          omega
        rw [Date.number_injective number_eq]
  · rintro rfl
    rw [tryEncodeDate_eq year_le]
    rfl

/-- The fix moves an instant by less than a day. -/
theorem floor_fixed (dt : ℚ) (gmtFix : Bool) :
    ⌊fixed dt gmtFix⌋ ≤ ⌊dt⌋ ∧ ⌊dt⌋ ≤ ⌊fixed dt gmtFix⌋ + 1 := by
  cases gmtFix with
  | false => exact ⟨le_refl _, Int.le_add_one (le_refl _)⟩
  | true =>
      have upper : fixed dt true ≤ dt := by
        show dt - 1 / 3 ≤ dt
        linarith
      have lower : dt - 1 ≤ fixed dt true := by
        show dt - 1 ≤ dt - 1 / 3
        linarith
      have floor_lower := Int.floor_mono lower
      rw [Int.floor_sub_one] at floor_lower
      exact ⟨Int.floor_mono upper, by omega⟩

/-- The year of the week of a day has four digits, also just in front of the year 1000. -/
theorem isoYear_within {date : Date} (number_le : daysBefore 1000 ≤ date.number)
    (year_le : date.year ≤ 9998) {y w : Nat} (iso : IsIsoWeek date.number y w) :
    1000 ≤ y ∧ y < 10000 := by
  have after := iso.after
  have within := iso.within
  rw [thursday] at after within
  refine ⟨?_, ?_⟩
  · have closed : daysBefore 1000 + 999 / 100 = 999 * 365 + 999 / 4 + 999 / 400 :=
      daysBefore_eq 999
    by_contra early
    have year_end : daysBefore (y + 1) ≤ daysBefore 1000 := daysBefore_mono (by omega)
    omega
  · by_contra late
    have year_end : daysBefore (date.year + 1 + 1) ≤ daysBefore y := daysBefore_mono (by omega)
    have number_within := date.number_within.2
    have length := yearLength_cases (date.year + 1)
    rw [daysBefore_succ (Nat.le_add_left 1 _)] at year_end
    omega

/-- The string of an instant is refused if its day has one digit, and otherwise read with the year
of its ISO week. -/
theorem gmtRoundTrip_eq {dt : ℚ} (whole : IsWholeSecond dt) {given date : Date}
    (given_eq : ⌊dt⌋ + dateDelta = given.number) (first : 1000 ≤ given.year)
    (last : given.year ≤ 9998) {gmtFix : Bool}
    (floor_eq : ⌊fixed dt gmtFix⌋ + dateDelta = date.number) {fuel : Nat} (enough : 2 ≤ fuel)
    (memory : Dict THHashString Int) (behind : List Byte) :
    ∃ (y w second : Nat), IsIsoWeek date.number y w ∧ 1000 ≤ y ∧ y < 10000 ∧ second < 86400 ∧
      fixed dt gmtFix = ((date.number : Int) - dateDelta : Int) + (second : ℚ) / 86400 ∧
        gmtRoundTrip memory fuel behind dt gmtFix = some (if date.day < 10 then none else
          some (unfixed (encodeDateTime y date.month date.day (timeOf second).hour
            (timeOf second).min (timeOf second).sec 0) gmtFix)) := by
  obtain ⟨moved_low, moved_high⟩ := floor_fixed dt gmtFix
  have earlier : date.number ≤ given.number := by omega
  have year_le : date.year ≤ 9998 := (Date.year_mono earlier).trans last
  have number_le : daysBefore 1000 ≤ date.number := by
    have given_within := given.number_within.1
    have from_first : daysBefore 1000 ≤ daysBefore given.year := daysBefore_mono first
    omega
  obtain ⟨second, second_lt, second_eq⟩ := (whole.fixed gmtFix).exists_second
  have time_eq := decodeTime_eq second_lt second_eq
  obtain ⟨y, w, week, month, iso, week_length, isMonth, text_eq⟩ :=
    dateToGMTStr_eq year_le floor_eq enough behind
  obtain ⟨y_low, y_high⟩ := isoYear_within number_le year_le iso
  obtain ⟨table, filled, months_eq⟩ := tryStrToMonth_eq memory
  have found : tryStrToMonth table month = some (some date.month) := by
    rw [months_eq month (months_legal month isMonth.among), if_pos isMonth.among, isMonth.number]
  have hour_lt : (timeOf second).hour < 100 := by
    show second / 3600 < 100
    omega
  have min_lt : (timeOf second).min < 100 := by
    show second / 60 % 60 < 100
    omega
  have sec_lt : (timeOf second).sec < 100 := by
    show second % 60 < 100
    omega
  have day_le := date.day_le_longest
  have y_length : (intToStr y).length = 4 := length_intToStr 3 y_low (by omega)
  have floor_days : ⌊fixed dt gmtFix⌋ = (date.number : Int) - dateDelta := by omega
  refine ⟨y, w, second, iso, y_low, y_high, second_lt, floor_days ▸ second_eq, ?_⟩
  simp only [gmtRoundTrip, filled, text_eq, time_eq, Option.bind_eq_bind, Option.bind_some]
  split
  · rename_i small
    exact tryGMTStrToDate_short week_length isMonth.length (length_timeText hour_lt min_lt sec_lt)
      y_length small gmtFix
  · rename_i large
    have inPlace : InPlace table week date.day month date.month y (timeOf second) :=
      { week_length
        d_length := length_intToStr 1 (Nat.le_of_not_lt large) (by omega)
        d_word := by omega
        month_length := isMonth.length
        month_plain := isMonth.plain
        found
        y_length
        y_word := by omega
        hour_lt
        min_lt
        sec_lt }
    exact inPlace.tryGMTStrToDate_gmtText gmtFix

/-- A date-time comes back from its string if and only if the instant that is written has a day of
two digits and lies in a week of its own year. -/
theorem gmtRoundTrip_iff {dt : ℚ} (whole : IsWholeSecond dt) {given date : Date}
    (given_eq : ⌊dt⌋ + dateDelta = given.number) (first : 1000 ≤ given.year)
    (last : given.year ≤ 9998) {gmtFix : Bool}
    (floor_eq : ⌊fixed dt gmtFix⌋ + dateDelta = date.number) {fuel : Nat} (enough : 2 ≤ fuel)
    (memory : Dict THHashString Int) (behind : List Byte) :
    gmtRoundTrip memory fuel behind dt gmtFix = some (some dt) ↔
      10 ≤ date.day ∧ ∃ week, IsIsoWeek date.number date.year week := by
  obtain ⟨y, w, second, iso, y_low, y_high, second_lt, fixed_eq, trip_eq⟩ :=
    gmtRoundTrip_eq whole given_eq first last floor_eq enough memory behind
  have moved := (floor_fixed dt gmtFix).1
  have earlier : date.number ≤ given.number := by omega
  have year_le : date.year ≤ 9998 := (Date.year_mono earlier).trans last
  have same_week : y = date.year ↔ ∃ week, IsIsoWeek date.number date.year week := by
    constructor
    · rintro rfl
      exact ⟨w, iso⟩
    · rintro ⟨week, own⟩
      exact iso.year_unique own
  rw [trip_eq, ← same_week]
  split
  · rename_i small
    exact ⟨fun wrong => (by cases wrong), fun large => absurd large.1 (Nat.not_le.mpr small)⟩
  · rename_i large
    rw [Option.some.injEq, Option.some.injEq, unfixed_eq_iff, fixed_eq,
      encodeDateTime_eq_iff (Nat.le_succ_of_le year_le) (by omega) (by omega) second_lt,
      and_iff_right (Nat.le_of_not_lt large)]

/-- 14 January 2011, the date of the example beside the parser. -/
def friday : Date := Date.ofFields 2011 1 14 (by decide)

theorem number_january {date : Date} (january : date.month = 1) :
    date.number = daysBefore date.year + date.day := by
  rw [Date.number, january]
  rfl

theorem daysBefore_2011 : daysBefore 2011 = 734137 ∧ daysBefore 2012 = 734502 := by
  have closed : daysBefore 2011 + 2010 / 100 = 2010 * 365 + 2010 / 4 + 2010 / 400 :=
    daysBefore_eq 2010
  have closed' : daysBefore 2012 + 2011 / 100 = 2011 * 365 + 2011 / 4 + 2011 / 400 :=
    daysBefore_eq 2011
  omega

theorem number_friday : friday.number = 734151 := by
  have january : friday.number = daysBefore friday.year + friday.day := number_january rfl
  have year_eq : friday.year = 2011 := rfl
  have day_eq : friday.day = 14 := rfl
  rw [january, year_eq, day_eq, daysBefore_2011.1]

theorem isIsoWeek_friday : IsIsoWeek friday.number friday.year 2 := by
  obtain ⟨closed, next_closed⟩ := daysBefore_2011
  have year_eq : friday.year = 2011 := rfl
  have next_eq : friday.year + 1 = 2012 := rfl
  refine ⟨?_, ?_, firstThursday friday.year, isFirstThursday friday.year, ?_⟩
  · rw [number_friday, year_eq, closed]
    decide
  · rw [number_friday, next_eq, next_closed]
    decide
  · rw [number_friday, firstThursday, year_eq, closed]
    decide

theorem floor_friday : ⌊fixed (4055721 / 100) false⌋ + dateDelta = friday.number := by
  have floor_eq : ⌊(4055721 / 100 : ℚ)⌋ = 40557 := by
    rw [Int.floor_eq_iff]
    norm_num
  show ⌊(4055721 / 100 : ℚ)⌋ + dateDelta = friday.number
  rw [floor_eq, number_friday]
  rfl

theorem gmtRoundTrip_friday :
    gmtRoundTrip THHMSI.blank 2 [] (4055721 / 100) false = some (some (4055721 / 100)) :=
  have whole : IsWholeSecond (4055721 / 100) := ⟨3504142944, by norm_num⟩
  (gmtRoundTrip_iff whole floor_friday (by decide) (by decide) floor_friday (Nat.le_refl 2)
    THHMSI.blank []).mpr ⟨by decide, 2, isIsoWeek_friday⟩

/-- 5 January 2011. -/
def wednesday : Date := Date.ofFields 2011 1 5 (by decide)

theorem floor_wednesday : ⌊fixed 40548 false⌋ + dateDelta = wednesday.number := by
  have january : wednesday.number = daysBefore wednesday.year + wednesday.day := number_january rfl
  have year_eq : wednesday.year = 2011 := rfl
  have day_eq : wednesday.day = 5 := rfl
  show ⌊(40548 : ℚ)⌋ + dateDelta = wednesday.number
  rw [january, year_eq, day_eq, daysBefore_2011.1, Int.floor_ofNat]
  rfl

theorem gmtRoundTrip_wednesday :
    gmtRoundTrip THHMSI.blank 2 [] 40548 false ≠ some (some 40548) := by
  have whole : IsWholeSecond 40548 := ⟨3503347200, by norm_num⟩
  obtain ⟨y, w, second, -, -, -, -, -, trip_eq⟩ :=
    gmtRoundTrip_eq whole floor_wednesday (by decide) (by decide) floor_wednesday (Nat.le_refl 2)
      THHMSI.blank []
  rw [trip_eq, if_pos (by decide)]
  simp

end DateUtils
end CommonLib
