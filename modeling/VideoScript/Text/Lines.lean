/-!
# Lines and pieces of a text

A line ends at a line feed; a carriage return right before it belongs to the end of the line. The
last line needs no end, and no line follows the last line feed.
-/

set_option autoImplicit false

namespace VideoScript.Text

/-- The pieces between the occurrences of a separator: always at least one. -/
def splitAt (separator : Char) : List Char → List (List Char)
  | [] => [[]]
  | c :: rest =>
    if c = separator then [] :: splitAt separator rest
    else match splitAt separator rest with
      | [] => [[c]]
      | piece :: pieces => (c :: piece) :: pieces

/-- The text without one carriage return at its end. -/
def dropReturn (line : List Char) : List Char :=
  match line.reverse with
  | '\r' :: before => before.reverse
  | _ => line

/-- The lines of a text, without their ends. A carriage return goes only together with a line
feed. -/
def lines (s : List Char) : List (List Char) :=
  let pieces := splitAt '\n' s
  let last := pieces.getLast?.getD []
  pieces.dropLast.map dropReturn ++ (if last.isEmpty then [] else [last])

/-- The number of bytes of a text in UTF-8. -/
def byteCount (s : List Char) : Nat := s.foldr (fun c n => c.utf8Size + n) 0

/-- Whether a text stands at the start of another. -/
def startsWith (start s : List Char) : Bool := start.isPrefixOf s

/-- The rest of a text after a given start. -/
def dropStart? (start s : List Char) : Option (List Char) :=
  if start.isPrefixOf s then some (s.drop start.length) else none

/-- The rest of a text before a given end. -/
def dropEnd? (tail s : List Char) : Option (List Char) :=
  if tail.isSuffixOf s then some (s.take (s.length - tail.length)) else none

/-! ## Small laws -/

/-- Splitting always gives a piece. -/
theorem splitAt_ne_nil (separator : Char) (s : List Char) : splitAt separator s ≠ [] := by
  cases s with
  | nil => simp [splitAt]
  | cons c rest =>
    rw [splitAt]
    split
    · simp
    · split <;> simp

end VideoScript.Text
