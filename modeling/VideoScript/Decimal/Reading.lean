import VideoScript.Text.Ascii

/-!
# Reading decimals as floats

`readFloat?` reads a decimal literal and rounds it once: the result is the float nearest to what is
written. `scale?` scales a whole number by a power of ten in floating point, which rounds at each
step: this is how numbers in documents are read, where speed counts more than the last bit.
-/

set_option autoImplicit false

namespace VideoScript.Decimal

open Text

/-- The float with the value of a natural number, rounded to nearest. -/
def floatOfNat (n : Nat) : Float := (UInt64.ofNat n).toFloat

/-- The float that stands for ten to a power. -/
def powerOfTen (k : Nat) : Float := Float.ofScientific 1 false k

/-- The greatest power of ten that a float can hold. -/
def mostTens : Nat := 308

/-- Multiplies or divides a float by a power of ten. Powers beyond `mostTens` are taken in steps;
`none` says that the result is too big for a float. A float other than zero vanishes after three
steps down, so four steps suffice. -/
def scaleFloat? (x : Float) (exponent : Int) : Nat → Option Float
  | 0 => some x
  | steps + 1 =>
    if exponent.natAbs ≤ mostTens then
      if 0 ≤ exponent then
        let y := x * powerOfTen exponent.natAbs
        if y.isInf then none else some y
      else some (x / powerOfTen exponent.natAbs)
    else if x == 0.0 then some x
    else if 0 ≤ exponent then none
    else scaleFloat? (x / powerOfTen mostTens) (exponent + mostTens) steps

/-- The float for `significand * 10 ^ exponent`, when it is not too big. -/
def scale? (significand : Nat) (exponent : Int) : Option Float :=
  scaleFloat? (floatOfNat significand) exponent 4

/-- The float nearest to `coefficient * 10 ^ exponent`. -/
def nearest (coefficient : Nat) (exponent : Int) : Float :=
  let magnitude := (Nat.toDigits 10 coefficient).length + exponent
  if coefficient = 0 ∨ magnitude < -400 then 0.0
  else if 400 < magnitude then 1.0 / 0.0
  else if 0 ≤ exponent then Float.ofScientific (coefficient * Nat.pow 10 exponent.toNat) false 0
  else Float.ofScientific coefficient true (-exponent).toNat

/-- The exponent after the mark of a decimal literal: digits with at most one sign. -/
def readExponent? (s : List Char) : Option Int :=
  let (negative, digits) := match s with
    | '-' :: rest => (true, rest)
    | '+' :: rest => (false, rest)
    | _ => (false, s)
  if digits.isEmpty || !digits.all isDigit then none
  else
    let n : Int := naturalOfDigits digits
    some (if negative then -n else n)

/-- The magnitude of a decimal literal without a sign: digits with at most one point among, before
or after them, and an exponent. -/
def readMagnitude? (s : List Char) : Option Float :=
  let whole := s.takeWhile isDigit
  let afterWhole := s.dropWhile isDigit
  let (part, rest) := match afterWhole with
    | '.' :: more => (more.takeWhile isDigit, more.dropWhile isDigit)
    | _ => ([], afterWhole)
  if whole.isEmpty && part.isEmpty then none
  else
    let coefficient := naturalOfDigits (whole ++ part)
    match rest with
    | [] => some (nearest coefficient (-part.length))
    | c :: more =>
      if c = 'e' ∨ c = 'E' then
        (readExponent? more).map fun e => nearest coefficient (e - part.length)
      else none

/-- The float that a text writes: a decimal literal, `inf`, `infinity` or `nan` in any case, each
with at most one sign before it. -/
def readFloat? (s : List Char) : Option Float :=
  let (negative, rest) := match s with
    | '-' :: more => (true, more)
    | '+' :: more => (false, more)
    | _ => (false, s)
  let word := String.ofList (rest.map lowerAscii)
  let magnitude :=
    if word = "inf" ∨ word = "infinity" then some (1.0 / 0.0)
    else if word = "nan" then some (0.0 / 0.0)
    else readMagnitude? rest
  magnitude.map fun x => if negative then -x else x

end VideoScript.Decimal
