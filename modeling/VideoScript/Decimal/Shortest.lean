/-!
# The shortest decimal of a binary number

A finite binary number stands for every real that rounds to it. Its shortest decimal has the
fewest digits among the decimals in that interval, and is the nearest of those. A decimal is a
pair of a coefficient and a power of ten.

`shortest?` looks at grids of one digit, of two, and so on: on each grid only the two neighbours
of the number can lie in the interval, because the interval holds the number itself. Seventeen
digits are always enough.
-/

set_option autoImplicit false

namespace VideoScript.Decimal

/-- A positive binary number `mantissa * 2 ^ exponent`, with the fact whether the gap to the number
below it is half as wide as the gap above it. -/
structure Binary where
  mantissa : Nat
  exponent : Int
  narrowBelow : Bool
  deriving DecidableEq, Repr

/-- A decimal `coefficient * 10 ^ exponent`. -/
structure Scaled where
  coefficient : Nat
  exponent : Int
  deriving DecidableEq, Repr

/-- The magnitude of a finite float that is not zero. -/
def Binary.ofFloat? (x : Float) : Option Binary :=
  let bits : Nat := x.toBits.toNat % Nat.pow 2 63
  let field : Nat := bits / Nat.pow 2 52
  let fraction : Nat := bits % Nat.pow 2 52
  if field = 2047 then none
  else if field = 0 then
    if fraction = 0 then none else some ⟨fraction, -1074, false⟩
  else some ⟨Nat.pow 2 52 + fraction, (field : Int) - 1075, fraction = 0 && 1 < field⟩

/-- Whether a float is below zero, minus zero included. -/
def isNegative (x : Float) : Bool := Nat.pow 2 63 ≤ x.toBits.toNat

/-- The whole number that a float is exactly, when it is one. -/
def whole? (x : Float) : Option Int :=
  if x.toBits.toNat % Nat.pow 2 63 = 0 then some 0
  else do
    let b ← Binary.ofFloat? x
    let magnitude ←
      if 0 ≤ b.exponent then some (b.mantissa * Nat.pow 2 b.exponent.toNat)
      else
        let unit := Nat.pow 2 (-b.exponent).toNat
        if b.mantissa % unit = 0 then some (b.mantissa / unit) else none
    return if isNegative x then -(magnitude : Int) else magnitude

/-- The power of two with a sign, as a fraction. -/
def twoTo (e : Int) : Nat × Nat :=
  if 0 ≤ e then (Nat.pow 2 e.toNat, 1) else (1, Nat.pow 2 (-e).toNat)

/-- The power of ten with a sign, as a fraction. -/
def tenTo (e : Int) : Nat × Nat :=
  if 0 ≤ e then (Nat.pow 10 e.toNat, 1) else (1, Nat.pow 10 (-e).toNat)

/-- Whether the decimal lies in the interval that rounds to the binary number. The ends belong to
the interval when the mantissa is even. -/
def Binary.covers (b : Binary) (d : Scaled) : Bool :=
  -- Both sides are compared in quarters of the last binary place.
  let (twos, twosBelow) := twoTo (b.exponent - 2)
  let (tens, tensBelow) := tenTo d.exponent
  let decimal := d.coefficient * tens * twosBelow
  let low := (4 * b.mantissa - (if b.narrowBelow then 1 else 2)) * twos * tensBelow
  let high := (4 * b.mantissa + 2) * twos * tensBelow
  if b.mantissa % 2 = 0 then low ≤ decimal && decimal ≤ high else low < decimal && decimal < high

/-- The neighbours of the number on the grid of a power of ten, the nearer one first; of two
equally near ones the even one. -/
def Binary.neighbours (b : Binary) (exponent : Int) : List Scaled :=
  let (twos, twosBelow) := twoTo b.exponent
  let (tens, tensBelow) := tenTo exponent
  let numerator := b.mantissa * twos * tensBelow
  let denominator := twosBelow * tens
  let below := numerator / denominator
  let rest := numerator % denominator
  let lower : Scaled := ⟨below, exponent⟩
  let upper : Scaled := ⟨below + 1, exponent⟩
  if 2 * rest < denominator ∨ (2 * rest = denominator ∧ below % 2 = 0) then [lower, upper]
  else [upper, lower]

/-- The number of decimal digits before the point, which is negative or zero for small numbers:
the `e` with `10 ^ (e - 1) ≤ x < 10 ^ e`. -/
def Binary.magnitude (b : Binary) : Int :=
  let (twos, twosBelow) := twoTo b.exponent
  let numerator := b.mantissa * twos
  if twosBelow ≤ numerator then ((Nat.toDigits 10 (numerator / twosBelow)).length : Int)
  else
    -- The number is below one: scale it up by a power of ten that is surely enough.
    let lift := (Nat.toDigits 10 twosBelow).length
    ((Nat.toDigits 10 (numerator * Nat.pow 10 lift / twosBelow)).length : Int) - lift

/-- The nearest neighbour in the interval, on the first grid of at least `digits` digits that has
one. -/
def Binary.shortestFrom (b : Binary) (digits : Nat) : Nat → Option Scaled
  | 0 => none
  | fuel + 1 =>
    match (b.neighbours (b.magnitude - digits)).find? b.covers with
    | some d => some d
    | none => b.shortestFrom (digits + 1) fuel

/-- The decimal without zeros at the end of its coefficient. -/
def Scaled.trimZeros (d : Scaled) : Nat → Scaled
  | 0 => d
  | fuel + 1 =>
    if d.coefficient % 10 = 0 ∧ d.coefficient ≠ 0 then
      Scaled.trimZeros ⟨d.coefficient / 10, d.exponent + 1⟩ fuel
    else d

/-- The shortest decimal that reads back as the float, for a finite float other than zero. -/
def shortest? (x : Float) : Option Scaled := do
  let b ← Binary.ofFloat? x
  let d ← b.shortestFrom 1 17
  return d.trimZeros 20

end VideoScript.Decimal
