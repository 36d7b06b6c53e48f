import VideoScript.Decimal.Reading
import VideoScript.Decimal.Shortest
import VideoScript.Json.Basic
import VideoScript.Text.Blank
import VideoScript.Text.Lines

/-!
# Durations and times

A duration is a number of seconds, with `s` after it or not, or a number of milliseconds with `ms`
after it. A time is minutes and seconds, or hours, minutes and seconds, with colons between them.
Both give seconds. A number of seconds is written as a whole number where it is one.
-/

set_option autoImplicit false

namespace VideoScript.ShotList

open Text Decimal

/-- The seconds of a duration. -/
def duration? (s : List Char) : Option Float :=
  let s := (trimChars s).map lowerAscii
  match dropEnd? "ms".toList s with
  | some number => (readFloat? (trimChars number)).map (· / 1000.0)
  | none =>
    match dropEnd? "s".toList s with
    | some number => readFloat? (trimChars number)
    | none => readFloat? s

/-- The seconds of hours, minutes and seconds. Seconds are not negative. -/
def clockTime? (hours minutes seconds : List Char) : Option Float := do
  let h ← natural? maxWord (trimChars hours)
  let m ← natural? maxWord (trimChars minutes)
  let s ← readFloat? (trimChars seconds)
  if s < 0.0 then none else some (floatOfNat (h * 3600 + m * 60) + s)

/-- The seconds of a time. -/
def time? (s : List Char) : Option Float :=
  match splitAt ':' (trimChars s) with
  | [m, sec] => clockTime? ['0'] m sec
  | [h, m, sec] => clockTime? h m sec
  | _ => none

/-- The magnitude from which on whole numbers are written as floats. -/
def wholeLimit : Nat := Nat.pow 10 15

/-- A number in a document: a whole number where the float is one and not too big. -/
def seconds (x : Float) : Json :=
  match whole? x with
  | some n => if n.natAbs < wholeLimit then .number (.whole n) else .ofFloat x
  | none => .ofFloat x

end VideoScript.ShotList
