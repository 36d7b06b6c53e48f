import VideoScript.Calendar.Date
import VideoScript.Decimal.Reading
import VideoScript.Toml.Basic
import VideoScript.Text.Lines

/-!
# Numbers, dates and times in TOML

A number has digits with single underscores between them. It is an integer, which 64 bits must hold
with a sign, unless it has a point or an exponent. A date has four, two and two digits, a time two,
two and two with a fraction; a day that the calendar does not have is refused.
-/

set_option autoImplicit false

namespace VideoScript.Toml

open Text

/-! ## Numbers -/

/-- Reads the digits after a first digit. An underscore must stand between two digits. -/
def readMoreDigits (ok : Char → Bool) : List Char → Option (List Char × List Char)
  | '_' :: c :: rest =>
    if ok c then (readMoreDigits ok rest).map fun (digits, rest) => (c :: digits, rest) else none
  | c :: rest =>
    if ok c then (readMoreDigits ok rest).map fun (digits, rest) => (c :: digits, rest)
    else if c = '_' then none
    else some ([], c :: rest)
  | [] => some ([], [])

/-- Reads at least one digit. -/
def readDigits (ok : Char → Bool) (s : List Char) : Option (List Char × List Char) :=
  match s with
  | c :: rest =>
    if ok c then (readMoreDigits ok rest).map fun (digits, rest) => (c :: digits, rest) else none
  | [] => none

/-- Reads a sign, if there is one. -/
def readSign (s : List Char) : List Char × List Char :=
  match s with
  | '-' :: rest => (['-'], rest)
  | '+' :: rest => (['+'], rest)
  | _ => ([], s)

/-- Reads the digits of a decimal integer, in which no zero stands before another digit. -/
def readWhole (s : List Char) : Option (List Char × List Char) :=
  match s with
  | '0' :: rest => some (['0'], rest)
  | _ => readDigits isDigit s

/-- Reads an exponent after its mark. -/
def readExponent (s : List Char) : Option (List Char × List Char) := do
  let (sign, rest) := readSign s
  let (digits, rest) ← readDigits isDigit rest
  return ('e' :: (sign ++ digits), rest)

/-- Reads what follows the whole part of a number and makes it a float: a fraction, an exponent or
both. -/
def readFloatPart (s : List Char) : Option (List Char × List Char) :=
  match s with
  | '.' :: rest => do
    let (digits, rest) ← readDigits isDigit rest
    match rest with
    | c :: more =>
      if c = 'e' ∨ c = 'E' then
        let (exponent, rest) ← readExponent more
        return ('.' :: digits ++ exponent, rest)
      else return ('.' :: digits, rest)
    | [] => return ('.' :: digits, [])
  | c :: rest => if c = 'e' ∨ c = 'E' then readExponent rest else none
  | [] => none

/-- Whether a number goes on with a fraction or an exponent. -/
def startsFloatPart (s : List Char) : Bool :=
  match s with
  | c :: _ => c = '.' || c = 'e' || c = 'E'
  | [] => false

/-- The greatest integer. -/
def maxInteger : Nat := Nat.pow 2 63 - 1

/-- The integer with a sign and a magnitude. -/
def integerOf? (sign : List Char) (magnitude : Nat) : Option Toml :=
  if sign = ['-'] then if magnitude ≤ maxInteger + 1 then some (.integer (-magnitude)) else none
  else if magnitude ≤ maxInteger then some (.integer magnitude)
  else none

/-- The float that a text without underscores writes. One that is too big is refused. -/
def floatOf? (s : List Char) : Option Toml := do
  let x ← Decimal.readFloat? s
  if x.isInf && 0 < x then none else some (.float x)

/-- Reads an integer to a base after its mark. -/
def readBased (base : Nat) (s : List Char) : Option (Toml × List Char) := do
  let ok (c : Char) : Bool := match hexValue? c with
    | some d => d < base
    | none => false
  let (digits, rest) ← readDigits ok s
  let n := digits.foldl (fun n c => base * n + (hexValue? c).getD 0) 0
  return (← integerOf? [] n, rest)

/-- Reads a decimal number, or an infinity or a float that is no number by its word. -/
def readDecimal (s : List Char) : Option (Toml × List Char) := do
  let (sign, rest) := readSign s
  match rest with
  | 'i' :: 'n' :: 'f' :: more =>
    return (.float (if sign = ['-'] then -1.0 / 0.0 else 1.0 / 0.0), more)
  | 'n' :: 'a' :: 'n' :: more => return (.float (0.0 / 0.0), more)
  | _ =>
    let (whole, rest) ← readWhole rest
    if startsFloatPart rest then
      let (part, rest) ← readFloatPart rest
      return (← floatOf? (sign ++ whole ++ part), rest)
    else return (← integerOf? sign (naturalOfDigits whole), rest)

/-- Reads a number. -/
def readNumber (s : List Char) : Option (Toml × List Char) :=
  match s with
  | '0' :: 'x' :: rest => readBased 16 rest
  | '0' :: 'o' :: rest => readBased 8 rest
  | '0' :: 'b' :: rest => readBased 2 rest
  | _ => readDecimal s

/-! ## Dates and times -/

/-- Reads a number of exactly so many digits. -/
def readExactly (count : Nat) (s : List Char) : Option (Nat × List Char) :=
  let digits := s.take count
  if digits.length = count && digits.all isDigit then some (naturalOfDigits digits, s.drop count)
  else none

/-- Reads a number of two digits that is at most so great. -/
def readTwo (most : Nat) (s : List Char) : Option (Nat × List Char) := do
  let (n, rest) ← readExactly 2 s
  if n ≤ most then return (n, rest) else none

/-- The text after a date at its start. -/
def dropDate? (s : List Char) : Option (List Char) := do
  let (year, rest) ← readExactly 4 s
  let (month, rest) ← (dropStart? ['-'] rest).bind (readTwo 12)
  let (day, rest) ← (dropStart? ['-'] rest).bind (readTwo 31)
  if 1 ≤ month ∧ 1 ≤ day ∧ day ≤ Calendar.monthLength year month then return rest else none

/-- The text after a fraction of a second at its start, if there is one. -/
def dropFraction (s : List Char) : Option (List Char) :=
  match s with
  | '.' :: c :: rest => if isDigit c then some (rest.dropWhile isDigit) else none
  | '.' :: [] => none
  | _ => some s

/-- The text after a time of day at its start. -/
def dropTime? (s : List Char) : Option (List Char) := do
  let (_, rest) ← readTwo 23 s
  let (_, rest) ← (dropStart? [':'] rest).bind (readTwo 59)
  let (_, rest) ← (dropStart? [':'] rest).bind (readTwo 60)
  dropFraction rest

/-- The text after a distance from universal time at its start, if there is one. -/
def dropOffset (s : List Char) : Option (List Char) :=
  match s with
  | c :: rest =>
    if c = 'Z' ∨ c = 'z' then some rest
    else if c = '+' ∨ c = '-' then do
      let (_, rest) ← readTwo 23 rest
      let (_, rest) ← (dropStart? [':'] rest).bind (readTwo 59)
      return rest
    else some s
  | [] => some []

/-- The text after a date, a time or both at its start. -/
def dropMoment? (s : List Char) : Option (List Char) :=
  match dropDate? s with
  | some rest =>
    match rest with
    | c :: more =>
      if c = 'T' ∨ c = 't' ∨ c = ' ' then
        match dropTime? more with
        | some rest => dropOffset rest
        | none => some rest
      else some rest
    | [] => some []
  | none => dropTime? s

/-- Whether a text starts as a date or a time does, with digits and a mark after them. -/
def startsMoment (s : List Char) : Bool :=
  let count := (s.takeWhile isDigit).length
  match s.drop count with
  | '-' :: _ => count = 4
  | ':' :: _ => count = 2
  | _ => false

/-- Reads a number, a date or a time. -/
def readScalar (s : List Char) : Option (Toml × List Char) :=
  if startsMoment s then
    (dropMoment? s).map fun rest =>
      (.moment (.ofList (s.take (s.length - rest.length))), rest)
  else readNumber s

end VideoScript.Toml
