import VideoScript.Text.Ascii
import VideoScript.Toml.Basic

/-!
# Texts and keys in TOML

A text stands in double quotes, where a backslash begins an escape, or in single quotes, where
nothing does. In three quotes of a kind it may have line ends, and the first of them does not count
when it stands right after the quotes. A carriage return counts only together with a line feed, and
both then count as a line feed.
-/

set_option autoImplicit false

namespace VideoScript.Toml

open Text

/-- A blank inside a line. -/
def isGap (c : Char) : Bool := c = ' ' || c = '\t'

/-- The text after the blanks at its start. -/
def skipGaps (s : List Char) : List Char := s.dropWhile isGap

/-- A character that may stand in a comment or a text: no control character but the tab. -/
def isPrintable (c : Char) : Bool := c = '\t' || (0x20 ≤ c.toNat && c.toNat ≠ 0x7F)

/-- The text after a line end at its start. -/
def dropNewline? (s : List Char) : Option (List Char) :=
  match s with
  | '\n' :: rest => some rest
  | '\r' :: '\n' :: rest => some rest
  | _ => none

/-- The text after a line end at its start, if there is one. -/
def dropNewline (s : List Char) : List Char := (dropNewline? s).getD s

/-- Puts a character before a text that has been read. -/
def before (c : Char) (r : Option (List Char × List Char)) : Option (List Char × List Char) :=
  r.map fun (str, rest) => (c :: str, rest)

/-! ## Escapes -/

/-- The character for a letter after a backslash. -/
def escaped? (c : Char) : Option Char :=
  match c with
  | 'b' => some '\x08'
  | 't' => some '\t'
  | 'n' => some '\n'
  | 'f' => some '\x0c'
  | 'r' => some '\r'
  | '"' => some '"'
  | '\\' => some '\\'
  | _ => none

/-- The character with a number in hexadecimal digits. -/
def charOfHex? (digits : List Char) : Option Char := do
  let values ← digits.mapM hexValue?
  let n := values.foldl (fun n d => 16 * n + d) 0
  if h : n.isValidChar then some (Char.ofNatAux n h) else none

/-- The character that an escape stands for, read after its backslash. -/
def readEscape (s : List Char) : Option (Char × List Char) :=
  match s with
  | 'u' :: rest =>
    if rest.length < 4 then none
    else (charOfHex? (rest.take 4)).map fun c => (c, rest.drop 4)
  | 'U' :: rest =>
    if rest.length < 8 then none
    else (charOfHex? (rest.take 8)).map fun c => (c, rest.drop 8)
  | c :: rest => (escaped? c).map fun c => (c, rest)
  | [] => none

/-! ## Texts on one line -/

/-- Reads a text up to its closing double quote. -/
def readBasic : Nat → List Char → Option (List Char × List Char)
  | 0, _ => none
  | fuel + 1, s =>
    match s with
    | '"' :: rest => some ([], rest)
    | '\\' :: rest => do
      let (c, rest) ← readEscape rest
      before c (readBasic fuel rest)
    | c :: rest => if isPrintable c then before c (readBasic fuel rest) else none
    | [] => none

/-- Reads a text up to its closing single quote. -/
def readLiteral : List Char → Option (List Char × List Char)
  | '\'' :: rest => some ([], rest)
  | c :: rest => if isPrintable c then before c (readLiteral rest) else none
  | [] => none

/-! ## Texts on several lines -/

/-- The text after all blanks and line ends at its start. -/
def skipLineGaps : List Char → List Char
  | '\n' :: rest => skipLineGaps rest
  | '\r' :: '\n' :: rest => skipLineGaps rest
  | c :: rest => if isGap c then skipLineGaps rest else c :: rest
  | [] => []

/-- Reads a run of quotes in a text that three of them close. Fewer than three belong to the text;
of more, up to two stand before the closing three. The text after the run comes with whether the
run closes. -/
def readQuotes (quote : Char) (s : List Char) : List Char × Bool × List Char :=
  let count := (s.takeWhile (· = quote)).length
  if count < 3 then (s.take count, false, s.drop count)
  else
    let taken := min count 5
    (s.take (taken - 3), true, s.drop taken)

/-- Reads a text up to three closing quotes; `escapes` tells whether a backslash begins an
escape. -/
def readLines (quote : Char) (escapes : Bool) : Nat → List Char → Option (List Char × List Char)
  | 0, _ => none
  | fuel + 1, s =>
    match s with
    | [] => none
    | c :: rest =>
      if c = quote then
        let (quotes, closes, rest) := readQuotes quote (c :: rest)
        if closes then some (quotes, rest)
        else (readLines quote escapes fuel rest).map fun (str, rest) => (quotes ++ str, rest)
      else if c = '\\' ∧ escapes = true then
        match dropNewline? (skipGaps rest) with
        | some rest => readLines quote escapes fuel (skipLineGaps rest)
        | none => do
          let (c, rest) ← readEscape rest
          before c (readLines quote escapes fuel rest)
      else
        match dropNewline? (c :: rest) with
        | some rest => before '\n' (readLines quote escapes fuel rest)
        | none => if isPrintable c then before c (readLines quote escapes fuel rest) else none

/-- Reads a text in quotes of any kind. -/
def readText (s : List Char) : Option (String × List Char) :=
  let fuel := s.length + 1
  let read := match s with
    | '"' :: '"' :: '"' :: rest => readLines '"' true fuel (dropNewline rest)
    | '\'' :: '\'' :: '\'' :: rest => readLines '\'' false fuel (dropNewline rest)
    | '"' :: rest => readBasic fuel rest
    | '\'' :: rest => readLiteral rest
    | _ => none
  read.map fun (str, rest) => (.ofList str, rest)

/-! ## Keys -/

/-- A character of a key without quotes. -/
def isKeyChar (c : Char) : Bool := isLetterOrDigit c || c = '-' || c = '_'

/-- Reads a part of a key. -/
def readKeyPart (s : List Char) : Option (String × List Char) :=
  match s with
  | '"' :: rest => (readBasic (rest.length + 1) rest).map fun (key, rest) => (.ofList key, rest)
  | '\'' :: rest => (readLiteral rest).map fun (key, rest) => (.ofList key, rest)
  | _ =>
    let key := s.takeWhile isKeyChar
    if key.isEmpty then none else some (.ofList key, s.drop key.length)

/-- Reads the parts of a key with points between them; blanks may stand around each part. -/
def readKeyParts : Nat → List Char → Option (List String × List Char)
  | 0, _ => none
  | fuel + 1, s => do
    let (part, rest) ← readKeyPart (skipGaps s)
    match skipGaps rest with
    | '.' :: rest =>
      let (parts, rest) ← readKeyParts fuel rest
      return (part :: parts, rest)
    | rest => return ([part], rest)

/-- How many parts a key may have, and how many levels of brackets and braces a value: fewer than
this. -/
def levelLimit : Nat := 80

/-- Reads a key as the path to its table and its last part. -/
def readKey (s : List Char) : Option ((List String × String) × List Char) := do
  let (parts, rest) ← readKeyParts (s.length + 1) s
  let last ← parts.getLast?
  if parts.length < levelLimit then return ((parts.dropLast, last), rest) else none

end VideoScript.Toml
