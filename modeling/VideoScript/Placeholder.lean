import VideoScript.Text.Blank

/-!
# Placeholders in a text

A placeholder is `{{name}}`: two opening braces, a name without closing braces, two closing braces.
Blanks around the name do not count, and a name of blanks alone is none. Every other brace is a
problem: `pieces` splits a text into placeholders and problems from left to right, and between two
pieces there is no brace at all.
-/

set_option autoImplicit false

namespace VideoScript.Placeholder

open Text

/-- What is wrong with a brace that belongs to no placeholder. -/
inductive Problem where
  /-- Nothing between the braces of a placeholder. -/
  | empty
  /-- A name in single braces. -/
  | singleBraces
  /-- Two opening braces that no two closing braces answer. -/
  | unterminated
  /-- An opening brace that nothing closes. -/
  | unmatchedOpen
  /-- Closing braces that nothing opens. -/
  | unmatchedClose
  deriving DecidableEq, Repr

/-- A placeholder with its name, or a problem with the characters that it is about. -/
inductive Piece where
  | token (name : List Char)
  | problem (kind : Problem) (text : List Char)
  deriving DecidableEq, Repr

/-- An opening or a closing brace. -/
def isBrace (c : Char) : Bool := c = '{' || c = '}'

/-- A character that does not close a placeholder. -/
def isInner (c : Char) : Bool := c ≠ '}'

/-- A character that is no brace. -/
def isPlain (c : Char) : Bool := !isBrace c

/-- What stands between the braces of a placeholder: its name, or an empty placeholder. -/
def bodyPiece (body : List Char) : Piece :=
  match trimChars body with
  | [] => .problem .empty ('{' :: '{' :: (body ++ ['}', '}']))
  | name => .token name

theorem length_dropWhile_le {α : Type} (p : α → Bool) (s : List α) :
    (s.dropWhile p).length ≤ s.length := by
  induction s with
  | nil => simp
  | cons a s ih =>
    rw [List.dropWhile_cons]
    split
    · exact Nat.le_succ_of_le ih
    · exact Nat.le_refl _

/-- The placeholders and the problems of a text, from left to right. -/
def pieces (s : List Char) : List Piece :=
  match s with
  | [] => []
  | '{' :: '{' :: rest =>
    let body := rest.takeWhile isInner
    match _h : rest.dropWhile isInner with
    | [] => [.problem .unterminated ('{' :: '{' :: rest)]
    | _ :: '}' :: more => bodyPiece body :: pieces more
    | close :: more =>
      .problem .unterminated ('{' :: '{' :: (body ++ [close])) :: pieces more
  | '{' :: rest =>
    let body := rest.takeWhile isPlain
    match _h : rest.dropWhile isPlain with
    | '}' :: '}' :: more => .problem .singleBraces ('{' :: (body ++ ['}', '}'])) :: pieces more
    | '}' :: more => .problem .singleBraces ('{' :: (body ++ ['}'])) :: pieces more
    | _ => .problem .unmatchedOpen ['{'] :: pieces rest
  | '}' :: '}' :: rest => .problem .unmatchedClose ['}', '}'] :: pieces rest
  | '}' :: rest => .problem .unmatchedClose ['}'] :: pieces rest
  | _ :: rest => pieces rest
termination_by s.length
decreasing_by
  all_goals
    first
      | have h := length_dropWhile_le isInner rest
        simp_all
        omega
      | have h := length_dropWhile_le isPlain rest
        simp_all
        omega
      | simp_all

/-- The name of a piece that is a placeholder. -/
def Piece.token? : Piece → Option (List Char)
  | .token name => some name
  | .problem _ _ => none

/-- Whether a text has a placeholder. -/
def containsToken (s : List Char) : Bool := (pieces s).any fun piece => piece.token?.isSome

/-- The name of the placeholder that makes up a whole text. -/
def soleToken? (s : List Char) : Option (List Char) :=
  match s with
  | '{' :: '{' :: rest =>
    match rest.reverse with
    | '}' :: '}' :: inner =>
      let inner := inner.reverse
      match trimChars inner with
      | [] => none
      | name => if inner.all isInner then some name else none
    | _ => none
  | _ => none

end VideoScript.Placeholder
