import VideoScript.Text.Ascii
import VideoScript.Text.Utf8

/-!
# Bytes behind percent signs

In a URL a byte may be written as a percent sign and two hexadecimal digits. Each part of a URL has
its own set of characters that must be written so; characters outside of ASCII are always in it.
-/

set_option autoImplicit false

namespace VideoScript.Web

open Text

/-- The bytes of a text in which percent signs with two hexadecimal digits stand for bytes. -/
def unescapeBytes : List UInt8 → List UInt8
  | b :: c :: d :: rest =>
    match hexValue? (Char.ofNat c.toNat), hexValue? (Char.ofNat d.toNat) with
    | some high, some low =>
      if b = 0x25 then UInt8.ofNat (16 * high + low) :: unescapeBytes rest
      else b :: unescapeBytes (c :: d :: rest)
    | _, _ => b :: unescapeBytes (c :: d :: rest)
  | b :: rest => b :: unescapeBytes rest
  | [] => []

/-- The text behind the percent signs, when its bytes encode one. -/
def unescape? (s : List Char) : Option (List Char) :=
  (decode? ⟨(unescapeBytes (encode (.ofList s)).toList).toArray⟩).map String.toList

/-- A byte behind a percent sign. -/
def escapeByte (b : UInt8) : List Char :=
  ['%', (hexDigit (b.toNat / 16)).toUpper, (hexDigit (b.toNat % 16)).toUpper]

/-- A character, behind percent signs when it must be. -/
def escapeChar (must : Char → Bool) (c : Char) : List Char :=
  if must c || 0x7F ≤ c.toNat then (encode (.ofList [c])).toList.flatMap escapeByte else [c]

/-- A text with all characters of a set behind percent signs. -/
def escape (must : Char → Bool) (s : List Char) : List Char := s.flatMap (escapeChar must)

/-- The control characters. -/
def isControl (c : Char) : Bool := c.toNat < 0x20

/-- What must be behind percent signs in a fragment. -/
def inFragment (c : Char) : Bool := isControl c || [' ', '"', '<', '>', '`'].contains c

/-- What must be behind percent signs in a query of a web address. -/
def inQuery (c : Char) : Bool := isControl c || [' ', '"', '#', '<', '>', '\''].contains c

/-- What must be behind percent signs in a path. -/
def inPath (c : Char) : Bool := inFragment c || ['#', '?', '\x7b', '\x7d'].contains c

/-- What must be behind percent signs in the name and the password of a user. -/
def inUser (c : Char) : Bool :=
  inPath c || ['/', ':', ';', '=', '@', '[', '\\', ']', '^', '|'].contains c

end VideoScript.Web
