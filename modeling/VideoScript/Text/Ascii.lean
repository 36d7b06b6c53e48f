/-!
# ASCII letters and digits

Case is folded on the letters A to Z alone: every other character, accented letters included,
stands for itself. Hexadecimal digits are read in either case and written in lower case.
-/

set_option autoImplicit false

namespace VideoScript.Text

/-- The ASCII lower-case form of a character. -/
def lowerAscii (c : Char) : Char := if 'A' ≤ c ∧ c ≤ 'Z' then Char.ofNat (c.toNat + 32) else c

/-- The text with its letters A to Z in lower case. -/
def lowerCase (s : String) : String := .ofList (s.toList.map lowerAscii)

/-- Two texts agree up to the case of the letters A to Z. -/
def sameIgnoringCase (s t : String) : Bool := s.toList.map lowerAscii == t.toList.map lowerAscii

/-- A decimal digit, 0 to 9. -/
def isDigit (c : Char) : Bool := '0' ≤ c && c ≤ '9'

/-- A letter of A to Z in either case. -/
def isLetter (c : Char) : Bool := ('a' ≤ c && c ≤ 'z') || ('A' ≤ c && c ≤ 'Z')

/-- A letter of A to Z or a decimal digit. -/
def isLetterOrDigit (c : Char) : Bool := isLetter c || isDigit c

/-- The number that a decimal digit stands for. -/
def digitValue (c : Char) : Nat := c.toNat - '0'.toNat

/-- The number that a hexadecimal digit of either case stands for. -/
def hexValue? (c : Char) : Option Nat :=
  if isDigit c then some (c.toNat - '0'.toNat)
  else if 'a' ≤ c ∧ c ≤ 'f' then some (c.toNat - 'a'.toNat + 10)
  else if 'A' ≤ c ∧ c ≤ 'F' then some (c.toNat - 'A'.toNat + 10)
  else none

/-- The hexadecimal digit for a number below 16. -/
def hexDigit (n : Nat) : Char := if n < 10 then Char.ofNat (48 + n) else Char.ofNat (87 + n)

/-- The number written by a run of decimal digits, most significant first. -/
def naturalOfDigits (digits : List Char) : Nat :=
  digits.foldl (fun n c => 10 * n + digitValue c) 0

/-- The decimal digits of a number, most significant first. -/
def digitsOfNatural (n : Nat) : List Char := Nat.toDigits 10 n

/-- The number written by a text of decimal digits, with at most one plus sign before them, when
it is at most `limit`. -/
def natural? (limit : Nat) (s : List Char) : Option Nat :=
  let digits := match s with
    | '+' :: rest => rest
    | _ => s
  if digits.isEmpty || !digits.all isDigit then none
  else
    let n := naturalOfDigits digits
    if n ≤ limit then some n else none

/-- The greatest number that 64 bits hold without a sign. -/
def maxWord : Nat := Nat.pow 2 64 - 1

end VideoScript.Text
