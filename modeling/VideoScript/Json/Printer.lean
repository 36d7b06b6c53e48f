import VideoScript.Json.Basic
import VideoScript.Decimal.Text

/-!
# Writing JSON

Two layouts: `compact` has no blank outside strings, and `pretty` puts each item and each member on
a line of its own, indented by two blanks a level, with empty arrays and objects in one piece. In a
string only the quotation mark, the backslash and the control characters are escaped.
-/

set_option autoImplicit false

namespace VideoScript.Json

open Text Decimal

/-- How a character stands in a written string. -/
def escaped (c : Char) : List Char :=
  if c = '"' then ['\\', '"']
  else if c = '\\' then ['\\', '\\']
  else if c = '\x08' then ['\\', 'b']
  else if c = '\x0c' then ['\\', 'f']
  else if c = '\n' then ['\\', 'n']
  else if c = '\r' then ['\\', 'r']
  else if c = '\t' then ['\\', 't']
  else if c.toNat < 32 then
    ['\\', 'u', '0', '0', hexDigit (c.toNat / 16), hexDigit (c.toNat % 16)]
  else [c]

/-- A string in quotation marks. -/
def quoted (s : String) : List Char := '"' :: (s.toList.flatMap escaped ++ ['"'])

/-- The text of a whole number. -/
def wholeText (n : Int) : List Char :=
  if n < 0 then '-' :: digitsOfNatural n.natAbs else digitsOfNatural n.natAbs

/-- The text of a number. -/
def Number.text : Number → List Char
  | .whole n => wholeText n
  | .float x => (documentStyle.render? x).getD "null".toList

mutual

/-- The characters of a value without blanks. -/
def compactChars : Json → List Char
  | null => "null".toList
  | bool true => "true".toList
  | bool false => "false".toList
  | number n => n.text
  | string s => quoted s
  | array items => '[' :: (compactItems items ++ [']'])
  | object members => '{' :: (compactMembers members ++ ['}'])

/-- The items of an array with commas between them. -/
def compactItems : List Json → List Char
  | [] => []
  | [value] => compactChars value
  | value :: rest => compactChars value ++ ',' :: compactItems rest

/-- The members of an object with commas between them. -/
def compactMembers : List (String × Json) → List Char
  | [] => []
  | [(key, value)] => quoted key ++ ':' :: compactChars value
  | (key, value) :: rest => quoted key ++ ':' :: (compactChars value ++ ',' :: compactMembers rest)

end

/-- The blanks at the start of a line at a level. -/
def indentation (level : Nat) : List Char := '\n' :: List.replicate (2 * level) ' '

mutual

/-- The characters of a value laid out over lines; `level` counts the arrays and objects around
it. -/
def prettyChars (level : Nat) : Json → List Char
  | null => "null".toList
  | bool true => "true".toList
  | bool false => "false".toList
  | number n => n.text
  | string s => quoted s
  | array items =>
    if items.isEmpty then ['[', ']']
    else '[' :: (prettyItems (level + 1) items ++ indentation level ++ [']'])
  | object members =>
    if members.isEmpty then ['{', '}']
    else '{' :: (prettyMembers (level + 1) members ++ indentation level ++ ['}'])

/-- The items of an array, each on its own line. -/
def prettyItems (level : Nat) : List Json → List Char
  | [] => []
  | [value] => indentation level ++ prettyChars level value
  | value :: rest => indentation level ++ prettyChars level value ++ ',' :: prettyItems level rest

/-- The members of an object, each on its own line. -/
def prettyMembers (level : Nat) : List (String × Json) → List Char
  | [] => []
  | [(key, value)] =>
    indentation level ++ quoted key ++ ':' :: ' ' :: prettyChars level value
  | (key, value) :: rest =>
    indentation level ++ quoted key ++ ':' :: ' ' :: (prettyChars level value ++
      ',' :: prettyMembers level rest)

end

/-- The text of a value on one line. -/
def compact (value : Json) : String := .ofList (compactChars value)

/-- The text of a value over lines. -/
def pretty (value : Json) : String := .ofList (prettyChars 0 value)

end VideoScript.Json
