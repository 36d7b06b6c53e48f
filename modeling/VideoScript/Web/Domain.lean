import VideoScript.Text.Lines
import VideoScript.Web.Percent
import VideoScript.Web.Punycode

/-!
# Domain names

A domain name is a list of labels with points between them. Its characters are brought to a common
form first: small letters for capitals, plain ones for full-width ones. A label with characters
outside of ASCII is then written in ASCII letters behind `xn--`. A name with a character that no
domain name may have is refused. The forms are known for the letters of common scripts only.
-/

set_option autoImplicit false

namespace VideoScript.Web

open Text

/-- A character of ASCII that no domain name may have. -/
def isForbidden (c : Char) : Bool :=
  c.toNat ≤ 0x20 || c.toNat = 0x7F || "%#/:<>?@[\\]^`\x7b|\x7d".toList.contains c

/-- Whether a number lies in one of some ranges. -/
def inRanges (ranges : List (Nat × Nat)) (n : Nat) : Bool :=
  ranges.any fun (low, high) => low ≤ n && n ≤ high

/-- The characters outside of ASCII that do not count in a domain name. -/
def ignoredRanges : List (Nat × Nat) :=
  [(0xAD, 0xAD), (0x34F, 0x34F), (0x180B, 0x180F), (0x200B, 0x200B), (0x2060, 0x2060),
   (0x2064, 0x2064), (0xFE00, 0xFE0F), (0xFEFF, 0xFEFF), (0xE0100, 0xE01EF)]

/-- The characters outside of ASCII that no domain name may have: controls, blanks, marks of
direction, joiners, private ones and those that are no characters. -/
def refusedRanges : List (Nat × Nat) :=
  [(0x80, 0xA0), (0xA8, 0xA8), (0xAF, 0xAF), (0xB4, 0xB4), (0xB8, 0xB8), (0x61C, 0x61C),
   (0x1680, 0x1680), (0x2000, 0x200A), (0x200C, 0x200F), (0x2028, 0x202F), (0x205F, 0x205F),
   (0x2061, 0x2063), (0x2065, 0x206F), (0x3000, 0x3000), (0xE000, 0xF8FF), (0xFDD0, 0xFDEF),
   (0xFFF0, 0xFFFF), (0x1FFFE, 0x1FFFF), (0x2FFFE, 0x2FFFF), (0x3FFFE, 0xE00FF),
   (0xE01F0, 0x10FFFF)]

/-- The capitals whose small letters come a fixed number of places later. -/
def shiftedCapitals : List (Nat × Nat × Nat) :=
  [(0xC0, 0xD6, 32), (0xD8, 0xDE, 32), (0x391, 0x3A1, 32), (0x3A3, 0x3AB, 32), (0x400, 0x40F, 80),
   (0x410, 0x42F, 32), (0x531, 0x556, 48)]

/-- The ranges in which each capital comes right before its small letter, at an even or at an odd
number. -/
def pairedCapitals : List (Nat × Nat × Nat) :=
  [(0x100, 0x12F, 0), (0x132, 0x137, 0), (0x139, 0x148, 1), (0x14A, 0x177, 0), (0x179, 0x17E, 1),
   (0x460, 0x481, 0), (0x48A, 0x4BF, 0), (0x4D0, 0x52F, 0), (0x1E00, 0x1E95, 0),
   (0x1EA0, 0x1EFF, 0)]

/-- The small letter for a letter outside of ASCII. -/
def smallLetter (n : Nat) : Nat :=
  match shiftedCapitals.find? fun (low, high, _) => low ≤ n && n ≤ high with
  | some (_, _, shift) => n + shift
  | none =>
    if pairedCapitals.any fun (low, high, parity) => low ≤ n && n ≤ high && n % 2 = parity
    then n + 1
    else if n = 0x178 then 0xFF
    else n

/-- The point between labels in scripts with characters of full width. -/
def fullPoints : List Nat := [0x3002, 0xFF0E, 0xFF61]

/-- The common form of a character, which may be no character at all; none for one that is
refused. -/
def commonForm? (c : Char) : Option (List Char) :=
  let n := c.toNat
  if n < 0x80 then some [lowerAscii c]
  else if inRanges ignoredRanges n then some []
  else if inRanges refusedRanges n then none
  else if fullPoints.contains n then some ['.']
  else if 0xFF01 ≤ n ∧ n ≤ 0xFF5E then some [lowerAscii (Char.ofNat (n - 0xFEE0))]
  else if n = 0x2026 then some ['.', '.', '.']
  else some [Char.ofNat (smallLetter n)]

/-- Whether a character changes the one before it. -/
def isCombining (c : Char) : Bool := 0x300 ≤ c.toNat && c.toNat ≤ 0x36F

/-- Whether a label of characters in their common form is written behind `xn--`. -/
def isForeign (label : List Char) : Bool := label.any fun c => 0x80 ≤ c.toNat

/-- Whether what stands behind `xn--` is a label that must stand there. -/
def isEncodedLabel (s : List Char) : Bool :=
  match Punycode.read? s with
  | some label =>
    isForeign label && label.all (fun c => commonForm? c = some [c])
      && !(label.head?.any isCombining)
  | none => false

/-- The ASCII form of a label of characters in their common form. -/
def asciiLabel? (label : List Char) : Option (List Char) :=
  if label.any (fun c => c.toNat < 0x80 && isForbidden c) then none
  else if isForeign label then
    if label.head?.any isCombining then none else some ("xn--".toList ++ Punycode.write label)
  else match dropStart? "xn--".toList label with
    | some encoded => if isEncodedLabel encoded then some label else none
    | none => some label

/-- The ASCII form of a domain name. -/
def asciiDomain? (name : List Char) : Option (List Char) := do
  let forms ← name.mapM commonForm?
  let labels ← (splitAt '.' forms.flatten).mapM asciiLabel?
  return (['.'] : List Char).intercalate labels

end VideoScript.Web
