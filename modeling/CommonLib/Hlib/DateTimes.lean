import CommonLib.Hlib.DateUtils
import CommonLib.Hlib.PasText

/-!
# Times of day in `hdateutils.cpp`

A time of day is the fraction of a day.  `DecodeTime` counts it in milliseconds, and
`FormatDateTime` puts the fields of a date and its time in the places of a format.
-/

namespace CommonLib
namespace DateUtils

open PasUtils

/-! ## Fields of a time -/

structure DecodedTime where
  hour : Nat
  min : Nat
  sec : Nat
  msec : Nat
  deriving DecidableEq

def decodeTime (dateTime : ℚ) : DecodedTime :=
  let (minCount, mSecCount) := divMod (dateTimeToTimeStamp dateTime).time (60 * 1000)
  let (hour, min) := divMod minCount 60
  let (sec, msec) := divMod mSecCount 1000
  { hour, min, sec, msec }

/-- `TryEncodeTime`; without a result it returns false. -/
def tryEncodeTime (hour min sec mSec : Nat) : Option ℚ :=
  if hour < 24 ∧ min < 60 ∧ sec < 60 ∧ mSec < 1000 then
    some ((hour * (60 * 60 * 1000) + min * (60 * 1000) + sec * 1000 + mSec) / 86400000)
  else none

/-- `TryEncodeDateTime`; without a result it returns false. -/
def tryEncodeDateTime (year month day hour minute second milliSecond : Nat) : Option ℚ := do
  let date ← tryEncodeDate year month day
  let time ← tryEncodeTime hour minute second milliSecond
  return date + time

def encodeDateTime (year month day hour minute second milliSecond : Nat) : ℚ :=
  (tryEncodeDateTime year month day hour minute second milliSecond).getD 0

/-! ## Whole seconds -/

def IsWholeSecond (dateTime : ℚ) : Prop := ∃ seconds : Int, dateTime * 86400 = seconds

theorem IsWholeSecond.exists_second {dateTime : ℚ} (whole : IsWholeSecond dateTime) :
    ∃ second : Nat, second < 86400 ∧ dateTime = ⌊dateTime⌋ + (second : ℚ) / 86400 := by
  obtain ⟨seconds, seconds_eq⟩ := whole
  have low := Int.floor_le dateTime
  have high := Int.lt_floor_add_one dateTime
  have nonneg : 0 ≤ seconds - ⌊dateTime⌋ * 86400 := by
    have scaled : (0 : ℚ) ≤ seconds - ⌊dateTime⌋ * 86400 := by
      rw [← seconds_eq]
      linarith
    exact_mod_cast scaled
  have within : seconds - ⌊dateTime⌋ * 86400 < 86400 := by
    have scaled : (seconds : ℚ) - ⌊dateTime⌋ * 86400 < 86400 := by
      rw [← seconds_eq]
      linarith
    exact_mod_cast scaled
  obtain ⟨second, second_eq⟩ := Int.eq_ofNat_of_zero_le nonneg
  refine ⟨second, by omega, ?_⟩
  have scaled : (second : ℚ) = seconds - ⌊dateTime⌋ * 86400 := by exact_mod_cast second_eq.symm
  rw [scaled, ← seconds_eq]
  ring

/-- The fields of a second of the day. -/
def timeOf (second : Nat) : DecodedTime where
  hour := second / 3600
  min := second / 60 % 60
  sec := second % 60
  msec := 0

theorem timeStamp_time {dateTime : ℚ} {second : Nat}
    (dateTime_eq : dateTime = ⌊dateTime⌋ + (second : ℚ) / 86400) :
    (dateTimeToTimeStamp dateTime).time = (second * 1000 : Nat) := by
  have fraction : dateTime - ⌊dateTime⌋ = (second : ℚ) / 86400 := by linarith
  have time : (second : ℚ) / 86400 * (1 / (1 / 24 / 60 / 60 / 1000)) + 1 / 10 =
      ((second * 1000 : Nat) : ℚ) + 1 / 10 := by
    push_cast
    ring
  have floor_eq : ⌊((second * 1000 : Nat) : ℚ) + 1 / 10⌋ = (second * 1000 : Nat) := by
    rw [Int.floor_eq_iff]
    refine ⟨?_, ?_⟩
    · push_cast
      linarith
    · push_cast
      linarith
  rw [dateTimeToTimeStamp, fraction, time]
  show truncate _ = _
  rw [truncate, if_pos (by positivity), floor_eq]

/-- `DecodeTime` on a whole second. -/
theorem decodeTime_eq {dateTime : ℚ} {second : Nat} (second_lt : second < 86400)
    (dateTime_eq : dateTime = ⌊dateTime⌋ + (second : ℚ) / 86400) :
    decodeTime dateTime = timeOf second := by
  have minutes : second * 1000 / 60000 = second / 60 := by omega
  have millis : second * 1000 % 60000 = second % 60 * 1000 := by omega
  have hours : second / 60 / 60 = second / 3600 := by omega
  rw [decodeTime, timeStamp_time dateTime_eq, divMod_eq (by omega) (by omega)]
  simp only [minutes, millis]
  rw [divMod_eq (by omega) (by omega), divMod_eq (by omega) (by omega), hours,
    Nat.mul_div_cancel _ (by decide), Nat.mul_mod_left, timeOf]

/-- The time is encoded exactly. -/
theorem tryEncodeTime_eq {second : Nat} (second_lt : second < 86400) :
    tryEncodeTime (timeOf second).hour (timeOf second).min (timeOf second).sec 0 =
      some ((second : ℚ) / 86400) := by
  have sum : second / 3600 * 3600 + second / 60 % 60 * 60 + second % 60 = second := by omega
  have sum_rat : ((second / 3600 : Nat) : ℚ) * 3600 + ((second / 60 % 60 : Nat) : ℚ) * 60 +
      ((second % 60 : Nat) : ℚ) = second := by exact_mod_cast sum
  have inside : second / 3600 < 24 ∧ second / 60 % 60 < 60 ∧ second % 60 < 60 ∧ 0 < 1000 := by
    omega
  rw [timeOf, tryEncodeTime, if_pos inside, ← sum_rat]
  congr 1
  push_cast
  ring

/-! ## Formats -/

/-- A field with a zero in front of a single digit. -/
def twoDigits (field : List Byte) : List Byte :=
  if field.length = 1 then ascii "0" ++ field else field

/-- The calls of `StringReplace` one behind the other. -/
def replaceAll : List Byte → List (List Byte × List Byte) → Option (List Byte)
  | x, [] => some x
  | x, (strsrc, strdst) :: rest =>
      (stringReplace x strsrc strdst).bind fun x => replaceAll x rest

/-- What `FormatDateTime` puts in for the letters of a format.  The `zzz` is read from a buffer
without a terminator, and `behind` stands behind that buffer. -/
def formatFields (behind : List Byte) (date : DecodedDate) (time : DecodedTime) :
    List (List Byte × List Byte) :=
  let z := intToStr time.msec
  [(ascii "yyyy", intToStr date.year),
    (ascii "yy", intToStr (date.year % 100 : Nat)),
    (ascii "mm", twoDigits (intToStr date.month)),
    (ascii "m", intToStr date.month),
    (ascii "dd", twoDigits (intToStr date.day)),
    (ascii "d", intToStr date.day),
    (ascii "hh", twoDigits (intToStr time.hour)),
    (ascii "h", intToStr time.hour),
    (ascii "nn", twoDigits (intToStr time.min)),
    (ascii "n", intToStr time.min),
    (ascii "ss", twoDigits (intToStr time.sec)),
    (ascii "s", intToStr time.sec),
    (ascii "zzz", (ascii "000").take (3 - z.length) ++ z ++ behind),
    (ascii "z", z)]

/-- `FormatDateTime`. -/
def formatDateTime (behind formatString : List Byte) (dateTime : ℚ) : Option (List Byte) :=
  (decodeDateFully dateTime).bind fun date =>
    replaceAll formatString (formatFields behind date (decodeTime dateTime))

theorem isDigit_twoDigits (n : Nat) : ∀ c ∈ twoDigits (intToStr n), isDigit c = true := by
  intro c among
  rw [twoDigits] at among
  split at among
  · rcases List.mem_append.mp among with zero | later
    · rw [List.mem_singleton.mp zero]
      decide
    · exact isDigit_intToStr n c later
  · exact isDigit_intToStr n c among

theorem not_mem_twoDigits {a : Byte} (letter : isDigit a = false) (n : Nat) :
    a ∉ twoDigits (intToStr n) := by
  intro among
  rw [isDigit_twoDigits n a among] at letter
  cases letter

theorem length_twoDigits {n : Nat} (small : n < 100) : (twoDigits (intToStr n)).length = 2 := by
  rw [twoDigits]
  rcases Nat.lt_or_ge n 10 with single | double
  · rw [intToStr_of_lt single]
    rfl
  · have two : (intToStr n).length = 1 + 1 := length_intToStr 1 double small
    rw [if_neg (by omega), two]

theorem tryStrToWord_twoDigits {n : Nat} (small : n < 100) :
    tryStrToWord (twoDigits (intToStr n)) = some n := by
  rw [twoDigits]
  split
  · exact tryStrToWord_zero_intToStr (by omega)
  · exact tryStrToWord_intToStr (by omega)

/-- The text of a time. -/
def timeText (time : DecodedTime) : List Byte :=
  twoDigits (intToStr time.hour) ++ ascii ":" ++ twoDigits (intToStr time.min) ++ ascii ":" ++
    twoDigits (intToStr time.sec)

theorem replaceAll_absent {a : Byte} (key : List Byte) {strsrc : List Byte}
    (key_eq : key = a :: strsrc) {x : List Byte} (absent : a ∉ x) (value : List Byte)
    (more : List (List Byte × List Byte)) :
    replaceAll x ((key, value) :: more) = replaceAll x more := by
  rw [replaceAll, key_eq, stringReplace_absent absent, Option.bind_some]

theorem replaceAll_once {a : Byte} (key : List Byte) {strsrc : List Byte}
    (key_eq : key = a :: strsrc) {front rest : List Byte} (before : a ∉ front) (after : a ∉ rest)
    (value : List Byte) (more : List (List Byte × List Byte)) :
    replaceAll (front ++ (key ++ rest)) ((key, value) :: more) =
      replaceAll (front ++ (value ++ rest)) more := by
  rw [replaceAll, key_eq, stringReplace_once before after, Option.bind_some]

/-- The text of a time has none of the letters of a format. -/
theorem not_mem_timeText {a : Byte} (letter : isDigit a = false) (not_colon : a ∉ ascii ":")
    (time : DecodedTime) : a ∉ timeText time := by
  have field (n : Nat) := not_mem_twoDigits letter n
  have hours := List.not_mem_append (field time.hour) not_colon
  have minutes := List.not_mem_append (List.not_mem_append hours (field time.min)) not_colon
  exact List.not_mem_append minutes (field time.sec)

/-- The format of a time: no letter of it is a digit, so that each is replaced once. -/
theorem replaceAll_hms (behind : List Byte) (date : DecodedDate) (time : DecodedTime) :
    replaceAll (ascii "hh:nn:ss") (formatFields behind date time) = some (timeText time) := by
  have no_y : 121 ∉ ascii "hh:nn:ss" := by decide
  have no_m : 109 ∉ ascii "hh:nn:ss" := by decide
  have no_d : 100 ∉ ascii "hh:nn:ss" := by decide
  have no_h : 104 ∉ ascii ":nn:ss" := by decide
  have no_n : 110 ∉ ascii ":ss" := by decide
  have hours : ascii "hh:nn:ss" = [] ++ (ascii "hh" ++ ascii ":nn:ss") := by decide
  have minutes : ascii ":nn:ss" = ascii ":" ++ (ascii "nn" ++ ascii ":ss") := by decide
  have seconds : ascii ":ss" = ascii ":" ++ (ascii "ss" ++ []) := by decide
  rw [formatFields, replaceAll_absent (ascii "yyyy") rfl no_y,
    replaceAll_absent (ascii "yy") rfl no_y, replaceAll_absent (ascii "mm") rfl no_m,
    replaceAll_absent (ascii "m") rfl no_m, replaceAll_absent (ascii "dd") rfl no_d,
    replaceAll_absent (ascii "d") rfl no_d, hours,
    replaceAll_once (ascii "hh") rfl List.not_mem_nil no_h, List.nil_append]
  generalize hour_eq : twoDigits (intToStr time.hour) = hour
  generalize min_eq : twoDigits (intToStr time.min) = min
  have no_hour (a : Byte) (letter : isDigit a = false) : a ∉ hour :=
    hour_eq ▸ not_mem_twoDigits letter _
  have no_min (a : Byte) (letter : isDigit a = false) : a ∉ min :=
    min_eq ▸ not_mem_twoDigits letter _
  have left_h := List.not_mem_append (no_hour 104 rfl) no_h
  have before_n := List.not_mem_append (no_hour 110 rfl) (by decide : 110 ∉ ascii ":")
  have left_n := List.not_mem_append before_n (List.not_mem_append (no_min 110 rfl) no_n)
  have before_min := List.not_mem_append (no_hour 115 rfl) (by decide : 115 ∉ ascii ":")
  have before_s := List.not_mem_append (List.not_mem_append before_min (no_min 115 rfl))
    (by decide : 115 ∉ ascii ":")
  rw [replaceAll_absent (ascii "h") rfl left_h, minutes, ← List.append_assoc hour,
    replaceAll_once (ascii "nn") rfl before_n no_n, replaceAll_absent (ascii "n") rfl left_n,
    seconds, ← List.append_assoc min, ← List.append_assoc (hour ++ ascii ":"),
    ← List.append_assoc (hour ++ ascii ":"),
    replaceAll_once (ascii "ss") rfl before_s List.not_mem_nil, List.append_nil, ← hour_eq,
    ← min_eq, ← timeText, replaceAll_absent (ascii "s") rfl (not_mem_timeText rfl (by decide) time),
    replaceAll_absent (ascii "zzz") rfl (not_mem_timeText rfl (by decide) time),
    replaceAll_absent (ascii "z") rfl (not_mem_timeText rfl (by decide) time), replaceAll]

end DateUtils
end CommonLib
