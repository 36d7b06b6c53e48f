/-!
# Blank characters

The blank characters are those with the Unicode property White_Space. Trimming a text takes blank
characters, and nothing else, off its ends.

**Main statements.** `trimStartChars_cons_of_not_blank` and `trimEndChars_append_of_not_blank` say
which ends trimming leaves alone; `trimChars_eq_self` puts the two together.
-/

set_option autoImplicit false

namespace VideoScript.Text

/-- The code points with the property White_Space, as closed ranges. -/
def blankRanges : List (Nat × Nat) :=
  [(0x09, 0x0D), (0x20, 0x20), (0x85, 0x85), (0xA0, 0xA0), (0x1680, 0x1680), (0x2000, 0x200A),
   (0x2028, 0x2029), (0x202F, 0x202F), (0x205F, 0x205F), (0x3000, 0x3000)]

/-- A character is blank when its code point lies in one of `blankRanges`. -/
def isBlank (c : Char) : Bool :=
  blankRanges.any fun (low, high) => low ≤ c.toNat && c.toNat ≤ high

/-- The text without the blank characters at its start. -/
def trimStartChars (s : List Char) : List Char := s.dropWhile isBlank

/-- The text without the blank characters at its end. -/
def trimEndChars (s : List Char) : List Char := (s.reverse.dropWhile isBlank).reverse

/-- The text without the blank characters at both ends. -/
def trimChars (s : List Char) : List Char := trimEndChars (trimStartChars s)

/-- `trimChars` on strings. -/
def trim (s : String) : String := .ofList (trimChars s.toList)

/-- A text is blank when trimming leaves nothing of it. -/
def isBlankText (s : String) : Bool := s.toList.all isBlank

/-! ## Small laws -/

/-- A text that starts with no blank is left alone at its start. -/
theorem trimStartChars_cons_of_not_blank {c : Char} {s : List Char} (h : isBlank c = false) :
    trimStartChars (c :: s) = c :: s := by
  simp [trimStartChars, h]

/-- A text that ends with no blank is left alone at its end. -/
theorem trimEndChars_append_of_not_blank {c : Char} {s : List Char} (h : isBlank c = false) :
    trimEndChars (s ++ [c]) = s ++ [c] := by
  simp [trimEndChars, h]

/-- A text without blanks at its two ends is its own trimmed form. -/
theorem trimChars_eq_self {s : List Char} (hs : trimStartChars s = s) (he : trimEndChars s = s) :
    trimChars s = s := by
  rw [trimChars, hs, he]

end VideoScript.Text
