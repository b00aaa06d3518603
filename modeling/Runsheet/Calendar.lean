import Runsheet.Text.Blank

/-!
# Points of time

A point of time is a number of seconds since the beginning of 1970, and its fields are those of the
Gregorian calendar at Greenwich.  A format is a text in which a percent sign and a letter stand for
a field.
-/

namespace Runsheet

/-- A point of time. -/
structure Instant where
  seconds : Nat

namespace Instant

/-- The days since the beginning of 1970. -/
def dayNumber (t : Instant) : Nat :=
  t.seconds / 86400

/-- Is the year a leap year? -/
def isLeap (year : Nat) : Bool :=
  year % 4 = 0 && (year % 100 != 0 || year % 400 = 0)

/-- The number of days of a year. -/
def yearLength (year : Nat) : Nat :=
  if isLeap year then 366 else 365

/-- The year of a day that is counted from the beginning of `year`, and the day within it; `fuel`
bounds the number of years. -/
def yearAndDay (fuel year day : Nat) : Nat × Nat :=
  match fuel with
  | 0 => (year, day)
  | fuel + 1 =>
    if day < yearLength year then (year, day)
    else yearAndDay fuel (year + 1) (day - yearLength year)

/-- The lengths of the months of a year. -/
def monthLengths (year : Nat) : List Nat :=
  [31, if isLeap year then 29 else 28, 31, 30, 31, 30, 31, 31, 30, 31, 30, 31]

/-- The month of a day of the year and the day within it, both from one on. -/
def monthAndDay (month day : Nat) : List Nat → Nat × Nat
  | [] => (month, day + 1)
  | n :: rest => if day < n then (month, day + 1) else monthAndDay (month + 1) (day - n) rest

/-- The fields of a point of time. -/
structure Fields where
  year : Nat
  dayOfYear : Nat
  month : Nat
  day : Nat
  weekday : Nat
  hour : Nat
  minute : Nat
  second : Nat

/-- The fields of a point of time; days of the year and weekdays count from zero, and the week
begins on Sunday. -/
def fields (t : Instant) : Fields :=
  let (year, dayOfYear) := yearAndDay (t.dayNumber / 365 + 1) 1970 t.dayNumber
  let (month, day) := monthAndDay 1 dayOfYear (monthLengths year)
  { year, dayOfYear, month, day, weekday := (t.dayNumber + 4) % 7,
    hour := t.seconds / 3600 % 24, minute := t.seconds / 60 % 60, second := t.seconds % 60 }

/-- A number with at least `width` digits. -/
def padded (fill : Char) (width n : Nat) : List Char :=
  let digits := (toString n).toList
  List.replicate (width - digits.length) fill ++ digits

/-- The names of the months. -/
def monthNames : List String :=
  ["January", "February", "March", "April", "May", "June", "July", "August", "September",
    "October", "November", "December"]

/-- The names of the days of the week. -/
def weekdayNames : List String :=
  ["Sunday", "Monday", "Tuesday", "Wednesday", "Thursday", "Friday", "Saturday"]

/-- The hour on a dial of twelve. -/
def dialHour (f : Fields) : Nat :=
  (f.hour + 11) % 12 + 1

/-- A weekday counted from Monday. -/
def fromMonday (f : Fields) : Nat :=
  (f.weekday + 6) % 7

/-- The number of weeks of a year in which weeks belong to the year of their Thursday; `offset` is
the weekday of its first day, from Monday. -/
def weeksOf (year offset : Nat) : Nat :=
  if offset = 3 || (offset = 2 && isLeap year) then 53 else 52

/-- The year and the number of the week, where weeks begin on Monday and belong to the year of their
Thursday. -/
def weekOfYear (f : Fields) : Nat × Nat :=
  let offset := (fromMonday f + 371 - f.dayOfYear) % 7
  let week := (f.dayOfYear + 10 - fromMonday f) / 7
  if week = 0 then
    let before := f.year - 1
    (before, weeksOf before ((offset + 7 * 53 - yearLength before) % 7))
  else if weeksOf f.year offset < week then (f.year + 1, 1)
  else (f.year, week)

/-- The text of a field by its letter, or none if no field has the letter. -/
def field? (t : Instant) (f : Fields) (c : Char) : Option (List Char) :=
  let two := padded '0' 2
  let spaced := padded ' ' 2
  let monthName := (monthNames.getD (f.month - 1) "").toList
  let weekdayName := (weekdayNames.getD f.weekday "").toList
  let clock := two f.hour ++ ':' :: two f.minute ++ ':' :: two f.second
  let date := padded '0' 4 f.year ++ '-' :: two f.month ++ '-' :: two f.day
  let shortDate := two f.month ++ '/' :: two f.day ++ '/' :: two (f.year % 100)
  let half := if f.hour < 12 then "AM" else "PM"
  let dialClock := two (dialHour f) ++ ':' :: two f.minute ++ ':' :: two f.second
  match c with
  | 'Y' => some (padded '0' 4 f.year)
  | 'C' => some (two (f.year / 100))
  | 'y' => some (two (f.year % 100))
  | 'm' => some (two f.month)
  | 'b' | 'h' => some (monthName.take 3)
  | 'B' => some monthName
  | 'd' => some (two f.day)
  | 'e' => some (spaced f.day)
  | 'a' => some (weekdayName.take 3)
  | 'A' => some weekdayName
  | 'w' => some (toString f.weekday).toList
  | 'u' => some (toString (fromMonday f + 1)).toList
  | 'U' => some (two ((f.dayOfYear + 7 - f.weekday) / 7))
  | 'W' => some (two ((f.dayOfYear + 7 - fromMonday f) / 7))
  | 'G' => some (padded '0' 4 (weekOfYear f).1)
  | 'g' => some (two ((weekOfYear f).1 % 100))
  | 'V' => some (two (weekOfYear f).2)
  | 'j' => some (padded '0' 3 (f.dayOfYear + 1))
  | 'q' => some (toString ((f.month + 2) / 3)).toList
  | 'D' | 'x' => some shortDate
  | 'F' => some date
  | 'v' => some (spaced f.day ++ '-' :: monthName.take 3 ++ '-' :: padded '0' 4 f.year)
  | 'H' => some (two f.hour)
  | 'k' => some (spaced f.hour)
  | 'I' => some (two (dialHour f))
  | 'l' => some (spaced (dialHour f))
  | 'P' => some (half.map Char.toLower).toList
  | 'p' => some half.toList
  | 'M' => some (two f.minute)
  | 'S' => some (two f.second)
  | 'f' => some (padded '0' 9 0)
  | 'R' => some (two f.hour ++ ':' :: two f.minute)
  | 'T' | 'X' => some clock
  | 'r' => some (dialClock ++ ' ' :: half.toList)
  | 'c' =>
    some (weekdayName.take 3 ++ ' ' :: monthName.take 3 ++ ' ' :: spaced f.day ++ ' ' :: clock ++
      ' ' :: padded '0' 4 f.year)
  | 'Z' => some "UTC".toList
  | 'z' => some "+0000".toList
  | '+' => some (date ++ 'T' :: clock ++ "+00:00".toList)
  | 's' => some (toString t.seconds).toList
  | 't' => some ['\t']
  | 'n' => some ['\n']
  | '%' => some ['%']
  | _ => none

/-- Replaces the fields of a format; none if a percent sign stands before no field's letter. -/
def formatFrom (t : Instant) (f : Fields) : List Char → Option (List Char)
  | [] => some []
  | '%' :: c :: rest => do
    let text ← field? t f c
    let more ← formatFrom t f rest
    pure (text ++ more)
  | c :: rest => if c = '%' then none else (c :: ·) <$> formatFrom t f rest

/-- The text of a point of time in a format. -/
def format? (t : Instant) (format : String) : Option String :=
  (formatFrom t t.fields format.toList).map String.ofList

/-- The format of a date with the time of day. -/
def dateAndTime : String :=
  "%Y-%m-%d %H:%M:%S"

end Instant

end Runsheet
