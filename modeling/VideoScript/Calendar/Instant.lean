import VideoScript.Calendar.Date
import VideoScript.Text.Ascii
import VideoScript.Text.Blank
import VideoScript.Text.Lines

/-!
# Points in time

A point in time is written as a date, a time of day and the distance from universal time, as in
`2024-03-01T10:00:00+02:00`. Reading is generous: blanks may stand before each part, the letter
between date and time may be small or a blank, parts may lack their leading zeros, the distance may
lack its colon or its minutes, and `Z` or `UTC` stands for none. Writing always gives universal
time.

The second 60 is a leap second: it is kept as a second in excess of the fifty-ninth.
-/

set_option autoImplicit false

namespace VideoScript.Calendar

open Text

/-- A point in time: a day, the seconds of that day in universal time, and the nanoseconds, which
count past one second in a leap second. -/
structure Instant where
  day : Int
  second : Nat
  nanosecond : Nat
  deriving DecidableEq, Repr

/-- Why a text is no point in time. -/
inductive InstantError where
  | outOfRange
  | impossible
  | invalid
  | tooShort
  | tooLong
  deriving DecidableEq, Repr

/-- The wording of an error. -/
def InstantError.message : InstantError → String
  | .outOfRange => "input is out of range"
  | .impossible => "no possible date and time matching input"
  | .invalid => "input contains invalid characters"
  | .tooShort => "premature end of input"
  | .tooLong => "trailing input"

/-- Reads a number of at most `most` digits; `none` sets no limit. -/
def readDigits (most : Option Nat) (s : List Char) : Except InstantError (Nat × List Char) :=
  let digits := s.takeWhile isDigit
  let digits := match most with
    | some n => digits.take n
    | none => digits
  if s.isEmpty then .error .tooShort
  else if digits.isEmpty then .error .invalid
  else .ok (naturalOfDigits digits, s.drop digits.length)

/-- Reads a number of at most two digits that lies between two bounds, after blanks. -/
def readPart (low high : Nat) (s : List Char) : Except InstantError (Nat × List Char) := do
  let (n, rest) ← readDigits (some 2) (trimStartChars s)
  if low ≤ n ∧ n ≤ high then return (n, rest) else throw .outOfRange

/-- The greatest magnitude of a year that is read. -/
def maxYear : Nat := Nat.pow 2 31 - 1

/-- Reads a year, after blanks: four digits, or any number of digits after a sign. -/
def readYear (s : List Char) : Except InstantError (Int × List Char) := do
  let (year, rest) ← match trimStartChars s with
    | '-' :: rest => do
      let (n, rest) ← readDigits none rest
      pure (-(n : Int), rest)
    | '+' :: rest => do
      let (n, rest) ← readDigits none rest
      pure ((n : Int), rest)
    | s => do
      let (n, rest) ← readDigits (some 4) s
      pure ((n : Int), rest)
  if year.natAbs ≤ maxYear then return (year, rest) else throw .outOfRange

/-- Passes over a mark, after blanks. -/
def readMark (mark : Char) (s : List Char) : Except InstantError (List Char) :=
  match trimStartChars s with
  | [] => .error .tooShort
  | c :: rest => if c = mark then .ok rest else .error .invalid

/-- Reads the fraction of a second, if there is one, as nanoseconds. Digits after the ninth are
dropped. -/
def readFractionOfSecond (s : List Char) : Except InstantError (Nat × List Char) :=
  match s with
  | '.' :: rest => do
    let (n, after) ← readDigits (some 9) rest
    let count := rest.length - after.length
    return (n * Nat.pow 10 (9 - count), after.dropWhile isDigit)
  | _ => .ok (0, s)

/-- Reads two digits at the very start of a text. -/
def readTwoDigits (s : List Char) : Except InstantError (Nat × List Char) :=
  match s with
  | a :: b :: rest =>
    if isDigit a && isDigit b then .ok (10 * digitValue a + digitValue b, rest)
    else .error .invalid
  | _ => if byteCount s < 2 then .error .tooShort else .error .invalid

/-- Reads the minutes of a distance, which may be missing. -/
def readOffsetMinutes (s : List Char) : Except InstantError (Nat × List Char) :=
  if byteCount s < 2 then (if s.isEmpty then .ok (0, []) else .error .tooShort)
  else do
    let (n, rest) ← readTwoDigits s
    if n < 60 then return (n, rest) else throw .outOfRange

/-- A colon or a blank, as they stand between the hours and the minutes of a distance. -/
def isOffsetGap (c : Char) : Bool := c = ':' || isBlank c

/-- Reads the distance from universal time in seconds. -/
def readOffset (s : List Char) : Except InstantError (Int × List Char) :=
  match s with
  | [] => .error .tooShort
  | c :: rest =>
    if c = 'Z' ∨ c = 'z' then .ok (0, rest)
    else if (s.take 3).map lowerAscii = ['u', 't', 'c'] then .ok (0, s.drop 3)
    else if c = '+' ∨ c = '-' ∨ c = '\u2212' then do
      let (hours, rest) ← readTwoDigits rest
      let (minutes, rest) ← readOffsetMinutes (rest.dropWhile isOffsetGap)
      let seconds : Int := hours * 3600 + minutes * 60
      return (if c = '+' then seconds else -seconds, rest)
    else .error .invalid

/-- The number of seconds in a day. -/
def daySeconds : Nat := 86400

/-- The point in time with a date, a time of day and a distance from universal time. -/
def instant? (date : Date) (second nanosecond : Nat) (offset : Int) :
    Except InstantError Instant := do
  if (daySeconds : Int) ≤ offset.natAbs then throw .outOfRange
  let total : Int := second - offset
  let day := dayNumber date + total / daySeconds
  if isYear (dateOfDay day).year then
    return ⟨day, (total % daySeconds).toNat, nanosecond⟩
  else throw .impossible

/-- The point in time that a text writes. -/
def readInstant (s : List Char) : Except InstantError Instant := do
  let (year, s) ← readYear s
  let s ← readMark '-' s
  let (month, s) ← readPart 1 12 s
  let s ← readMark '-' s
  let (day, s) ← readPart 1 31 s
  let s ← match s with
    | [] => throw .tooShort
    | c :: rest => if c = 'T' ∨ c = 't' ∨ c = ' ' then pure rest else throw .invalid
  let (hour, s) ← readPart 0 23 s
  let s ← readMark ':' s
  let (minute, s) ← readPart 0 59 s
  let s ← readMark ':' s
  let (second, s) ← readPart 0 60 s
  let (fraction, s) ← readFractionOfSecond s
  let (offset, s) ← readOffset (trimStartChars s)
  if !(trimStartChars s).isEmpty then throw .tooLong
  let some date := date? year month day | throw .outOfRange
  let leap := if second = 60 then 1 else 0
  instant? date (hour * 3600 + minute * 60 + (second - leap)) (fraction + leap * Nat.pow 10 9)
    offset

/-! ## Writing -/

/-- The digits of a number with zeros before them up to a width. -/
def zeroPadded (width n : Nat) : String :=
  let digits := digitsOfNatural n
  .ofList (List.replicate (width - digits.length) '0' ++ digits)

/-- The text of a year: four digits, with a sign outside of the years 0 to 9999. -/
def yearText (year : Int) : String :=
  if 0 ≤ year ∧ year ≤ 9999 then zeroPadded 4 year.toNat
  else (if year < 0 then "-" else "+") ++ zeroPadded 4 year.natAbs

/-- The text of the fraction of a second, in three, six or nine digits. -/
def fractionText (nanosecond : Nat) : String :=
  if nanosecond = 0 then ""
  else if nanosecond % Nat.pow 10 6 = 0 then "." ++ zeroPadded 3 (nanosecond / Nat.pow 10 6)
  else if nanosecond % Nat.pow 10 3 = 0 then "." ++ zeroPadded 6 (nanosecond / Nat.pow 10 3)
  else "." ++ zeroPadded 9 nanosecond

/-- The text of a point in time in universal time. -/
def Instant.text (t : Instant) : String :=
  let date := dateOfDay t.day
  let leap := t.nanosecond / Nat.pow 10 9
  yearText date.year ++ "-" ++ zeroPadded 2 date.month ++ "-" ++ zeroPadded 2 date.day ++ "T"
    ++ zeroPadded 2 (t.second / 3600) ++ ":" ++ zeroPadded 2 (t.second / 60 % 60) ++ ":"
    ++ zeroPadded 2 (t.second % 60 + leap) ++ fractionText (t.nanosecond % Nat.pow 10 9) ++ "+00:00"

end VideoScript.Calendar
