import VideoScript.Text.Ascii

/-!
# Names of any characters in ASCII letters

A label of a domain name with characters outside of ASCII is written with its ASCII characters
first, then a hyphen, and then, in order of their numbers, where each other character is to be put
in. Each distance is a number of variable length to the base 36, whose digits are bounded by a
threshold that follows the distances seen so far.
-/

set_option autoImplicit false

namespace VideoScript.Web.Punycode

open Text

/-- The digit for a number below 36. -/
def digit (n : Nat) : Char := Char.ofNat (if n < 26 then 97 + n else 22 + n)

/-- The number that a digit of either case stands for. -/
def digitOf? (c : Char) : Option Nat :=
  if isLetter c then some ((lowerAscii c).toNat - 97)
  else if isDigit c then some (digitValue c + 26)
  else none

/-- The threshold for the digit at a position that is counted in steps of 36. -/
def threshold (bias position : Nat) : Nat := max 1 (min 26 (position - bias))

theorem threshold_pos (bias position : Nat) : 0 < threshold bias position := by
  unfold threshold
  omega

/-- Divides until the distance is small, and counts the divisions in steps of 36. -/
def shrink (delta steps : Nat) : Nat :=
  if 455 < delta then shrink (delta / 35) (steps + 36) else steps + 36 * delta / (delta + 38)
termination_by delta
decreasing_by exact Nat.div_lt_self (by omega) (by omega)

/-- The bias after a distance, when the text has so many characters. -/
def adapt (delta count : Nat) (first : Bool) : Nat :=
  let delta := if first then delta / 700 else delta / 2
  shrink (delta + delta / count) 0

/-! ## Writing -/

/-- The digits of a distance. -/
def writeNumber (bias position n : Nat) : List Char :=
  let t := threshold bias position
  if n < t then [digit n]
  else digit (t + (n - t) % (36 - t)) :: writeNumber bias (position + 36) ((n - t) / (36 - t))
termination_by n
decreasing_by
  have h := threshold_pos bias position
  exact Nat.lt_of_le_of_lt (Nat.div_le_self _ _) (by omega)

/-- Where the writing stands: the text so far, the distance since the last character that was put
in, the bias, and the number of characters that are written. -/
structure Writing where
  text : List Char
  delta : Nat
  bias : Nat
  count : Nat

/-- Passes a character of the label while the characters with one number are put in. -/
def pass (basic number : Nat) (w : Writing) (c : Char) : Writing :=
  if c.toNat < number then { w with delta := w.delta + 1 }
  else if c.toNat = number then
    ⟨w.text ++ writeNumber w.bias 36 w.delta, 0, adapt w.delta (w.count + 1) (w.count = basic),
      w.count + 1⟩
  else w

/-- Puts in the characters with the given numbers, which go up; `last` is one more than the number
before them. -/
def writeAll (label : List Char) (basic : Nat) : Nat → List Nat → Writing → Writing
  | _, [], w => w
  | last, number :: numbers, w =>
    let w := { w with delta := w.delta + (number - last) * (w.count + 1) }
    let w := label.foldl (pass basic number) w
    writeAll label basic (number + 1) numbers { w with delta := w.delta + 1 }

/-- Puts a number into a list that goes up, unless it is there. -/
def insertNumber (n : Nat) : List Nat → List Nat
  | [] => [n]
  | m :: rest =>
    if n < m then n :: m :: rest else if n = m then m :: rest else m :: insertNumber n rest

/-- A label in ASCII letters. -/
def write (label : List Char) : List Char :=
  let basic := label.filter fun c => c.toNat < 128
  let numbers := (label.filter fun c => 128 ≤ c.toNat).foldr (fun c l => insertNumber c.toNat l) []
  let start := if basic.isEmpty then [] else basic ++ ['-']
  (writeAll label basic.length 128 numbers ⟨start, 0, 72, basic.length⟩).text

/-! ## Reading -/

/-- Reads a distance; `weight` is that of the next digit and `n` the sum so far. -/
def readNumber (bias : Nat) : Nat → Nat → Nat → List Char → Option (Nat × List Char)
  | _, _, _, [] => none
  | position, weight, n, c :: rest => do
    let d ← digitOf? c
    let t := threshold bias position
    if d < t then return (n + d * weight, rest)
    else readNumber bias (position + 36) (weight * (36 - t)) (n + d * weight) rest

/-- Puts in the characters that the digits tell; `number` is that of the last one, and `place` where
the next one may stand at the earliest. -/
def readAll : Nat → Nat → Nat → Nat → List Char → List Char → Option (List Char)
  | 0, _, _, _, _, _ => none
  | fuel + 1, bias, number, place, text, s =>
    if s.isEmpty then some text
    else do
      let (reached, rest) ← readNumber bias 36 1 place s
      let count := text.length + 1
      let number := number + reached / count
      if h : number.isValidChar then
        let bias := adapt (reached - place) count (place = 0)
        let place := reached % count
        let text := text.take place ++ Char.ofNatAux number h :: text.drop place
        readAll fuel bias number (place + 1) text rest
      else none

/-- The label that ASCII letters write. -/
def read? (s : List Char) : Option (List Char) :=
  let tail := (s.reverse.takeWhile (· ≠ '-')).reverse
  let basic := s.take (s.length - tail.length - 1)
  if basic.any fun c => 128 ≤ c.toNat then none
  else readAll (s.length + 1) 72 128 0 basic tail

end VideoScript.Web.Punycode
