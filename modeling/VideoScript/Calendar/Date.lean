/-!
# Dates

The days of the Gregorian calendar, carried back before its start and through the year zero, are
counted from the first of March of the year zero: with the leap day at the end of each counted year,
the length of a month depends on its place alone. `dayNumber` counts the days before a date, and
`dateOfDay` finds the date of a day.
-/

set_option autoImplicit false

namespace VideoScript.Calendar

/-- A date. -/
structure Date where
  year : Int
  month : Nat
  day : Nat
  deriving DecidableEq, Repr

/-- Whether a year has a leap day. -/
def isLeapYear (year : Int) : Bool := year % 4 = 0 && (year % 100 ≠ 0 || year % 400 = 0)

/-- The number of days in a month. -/
def monthLength (year : Int) (month : Nat) : Nat :=
  if month = 2 then (if isLeapYear year then 29 else 28)
  else if [4, 6, 9, 11].contains month then 30
  else 31

/-- The years that dates may lie in. -/
def isYear (year : Int) : Bool := -262143 ≤ year && year ≤ 262142

/-- The date with a year, a month and a day, when the calendar has it. -/
def date? (year : Int) (month day : Nat) : Option Date :=
  if isYear year && 1 ≤ month && month ≤ 12 && 1 ≤ day && day ≤ monthLength year month then
    some ⟨year, month, day⟩
  else none

/-- The days from the first of March to the first of the month that is `place` months later. -/
def daysBeforeMonth (place : Nat) : Nat := (153 * place + 2) / 5

/-- The number of days from the first of March of the year zero to a date. -/
def dayNumber (d : Date) : Int :=
  let year := if d.month ≤ 2 then d.year - 1 else d.year
  let place := (d.month + 9) % 12
  365 * year + year / 4 - year / 100 + year / 400 + daysBeforeMonth place + d.day - 1

/-- The date of a day. -/
def dateOfDay (n : Int) : Date :=
  let era := n / 146097
  let dayOfEra := n % 146097
  let yearOfEra :=
    (dayOfEra - dayOfEra / 1460 + dayOfEra / 36524 - dayOfEra / 146096) / 365
  let dayOfYear := dayOfEra - (365 * yearOfEra + yearOfEra / 4 - yearOfEra / 100)
  let place := (5 * dayOfYear + 2) / 153
  let day := dayOfYear - (153 * place + 2) / 5 + 1
  let month := if place < 10 then place + 3 else place - 9
  let year := yearOfEra + 400 * era
  ⟨if month ≤ 2 then year + 1 else year, month.toNat, day.toNat⟩

end VideoScript.Calendar
