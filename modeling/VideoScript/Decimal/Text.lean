import VideoScript.Decimal.Shortest

/-!
# Floats as text

A float is written with its shortest decimal, in positional notation from 10^-5 up to 10^16 and
with an exponent outside that range. Positional notation always has a point. `FloatStyle` names
the decisions, and `FloatStyle.render` carries them out.
-/

set_option autoImplicit false

namespace VideoScript.Decimal

/-- The decisions on how a float is written. -/
structure FloatStyle where
  /-- Positional notation needs at most this many digits before the point. -/
  mostDigitsBefore : Int
  /-- Positional notation needs fewer than this many zeros between the point and the first
  digit. -/
  mostZerosAfter : Int
  /-- The sign before an exponent that is not negative. -/
  exponentPlus : String

/-- Documents write floats positionally from 10^-5 up to 10^16, and a plus sign before other
exponents. -/
def documentStyle : FloatStyle := ⟨16, 5, "+"⟩

/-- The decimal digits of a coefficient with `places` digits after the point, for a point that lies
inside the digits. -/
def withPoint (digits : List Char) (before : Nat) : List Char :=
  digits.take before ++ '.' :: digits.drop before

/-- The text of a positive decimal. -/
def FloatStyle.renderScaled (style : FloatStyle) (d : Scaled) : List Char :=
  let digits := Nat.toDigits 10 d.coefficient
  let count : Int := digits.length
  -- The number of digits before the point.
  let before := count + d.exponent
  if 0 ≤ d.exponent ∧ before ≤ style.mostDigitsBefore then
    digits ++ List.replicate d.exponent.toNat '0' ++ ['.', '0']
  else if 0 < before ∧ before ≤ style.mostDigitsBefore then
    withPoint digits before.toNat
  else if -style.mostZerosAfter < before ∧ before ≤ 0 then
    '0' :: '.' :: (List.replicate (-before).toNat '0' ++ digits)
  else
    let power := before - 1
    let sign := if power < 0 then "-" else style.exponentPlus
    let head := if digits.length = 1 then digits else withPoint digits 1
    head ++ 'e' :: (sign.toList ++ Nat.toDigits 10 power.natAbs)

/-- The text of a finite float; zero keeps its sign. A float without a decimal has no text. -/
def FloatStyle.render? (style : FloatStyle) (x : Float) : Option (List Char) :=
  let negative := Nat.pow 2 63 ≤ x.toBits.toNat
  let magnitude :=
    if x.toBits.toNat % Nat.pow 2 63 = 0 then some ['0', '.', '0']
    else (shortest? x).map style.renderScaled
  magnitude.map fun text => if negative then '-' :: text else text

end VideoScript.Decimal
