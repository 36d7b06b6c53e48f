import VideoScript.Text.Ascii
import VideoScript.Text.Blank
import VideoScript.Text.Lines

/-!
# Headers of a shot list

A header is a line `## key: value`. Keys are letters and underscores, in any case; the first line
with a key counts, and a header without a value counts as missing.
-/

set_option autoImplicit false

namespace VideoScript.ShotList

open Text

/-- A header with the number of its line. -/
structure Header where
  key : String
  value : String
  line : Nat
  deriving DecidableEq, Repr

/-- A blank or a tab. -/
def isSpace (c : Char) : Bool := c = ' ' || c = '\t'

/-- A character of a key. -/
def isKeyChar (c : Char) : Bool := isLetter c || c = '_'

/-- The key and the value of a line without blanks at its ends. -/
def headerParts? (s : List Char) : Option (List Char × List Char) := do
  let rest ← dropStart? ['#', '#'] s
  let rest := rest.dropWhile isSpace
  let key := rest.takeWhile isKeyChar
  if key.isEmpty then none
  match (rest.dropWhile isKeyChar).dropWhile isSpace with
  | ':' :: value => some (key, ((value.dropWhile isSpace).reverse.dropWhile isSpace).reverse)
  | _ => none

/-- The header in a line, when there is one. -/
def header? (line : Nat) (s : List Char) : Option Header :=
  (headerParts? (trimChars s)).map fun (key, value) =>
    ⟨.ofList (key.map lowerAscii), .ofList value, line⟩

/-- The lines of a text with their numbers, from one. -/
def numberedLines (text : List Char) : List (Nat × List Char) :=
  (lines text).zipIdx.map fun (s, i) => (i + 1, s)

/-- The headers of a text, in order. -/
def headers (text : List Char) : List Header :=
  (numberedLines text).filterMap fun (line, s) => header? line s

/-- The first header with a key. -/
def firstHeader? (hs : List Header) (key : String) : Option Header := hs.find? fun h => h.key = key

/-- The value of the first header with a key, unless it is empty. -/
def headerValue? (hs : List Header) (key : String) : Option String := do
  let h ← firstHeader? hs key
  if h.value.isEmpty then none else some h.value

end VideoScript.ShotList
