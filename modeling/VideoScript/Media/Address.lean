import VideoScript.Text.Ascii
import VideoScript.Text.Lines

/-!
# Addresses of media

A media source is a URL or a path on this machine. A text is a URL when it starts with a scheme and
`://`. A scheme has at least two characters, so that a drive letter is no scheme. The scheme `file`
stands for this machine.
-/

set_option autoImplicit false

namespace VideoScript.Media

open Text

/-- The text before the first `://`. -/
def beforeScheme? : List Char → Option (List Char)
  | [] => none
  | ':' :: '/' :: '/' :: _ => some []
  | c :: rest => (beforeScheme? rest).map (c :: ·)

/-- Whether a character may stand in a scheme. -/
def isSchemeChar (c : Char) : Bool := isLetterOrDigit c || c = '+' || c = '-' || c = '.'

/-- Whether a text is a scheme: a letter, then letters, digits and `+`, `-`, `.`, at least two
characters in all. -/
def isScheme (s : List Char) : Bool :=
  match s with
  | c :: rest => isLetter c && !rest.isEmpty && s.all isSchemeChar
  | [] => false

/-- Whether a text starts with a scheme and `://`. -/
def isRemote (s : List Char) : Bool :=
  match beforeScheme? s with
  | some scheme => isScheme scheme
  | none => false

/-- The path on this machine that a text names: what follows `file://`, or the text itself unless
it is another URL. -/
def diskPath? (s : List Char) : Option (List Char) :=
  match dropStart? "file://".toList s with
  | some path => some path
  | none => if isRemote s then none else some s

end VideoScript.Media
