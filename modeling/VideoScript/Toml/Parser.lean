import VideoScript.Toml.Basic
import VideoScript.Toml.Scalar
import VideoScript.Toml.Text

/-!
# Reading TOML

A text is read line by line: an entry, a header or nothing, and a comment at the end. `Toml.parse`
gives the entries of the root table, or nothing when a line is not well formed or an entry or a
header goes against what stands before it.
-/

set_option autoImplicit false

namespace VideoScript.Toml

open Text

/-! ## Gaps -/

/-- The text after a comment at its start, if there is one. -/
def skipComment (s : List Char) : List Char :=
  match s with
  | '#' :: rest => rest.dropWhile isPrintable
  | _ => s

/-- The text after the rest of a line on which nothing but a comment stands. -/
def endLine (s : List Char) : Option (List Char) :=
  match skipComment (skipGaps s) with
  | [] => some []
  | rest => dropNewline? rest

/-- The text after blanks, line ends and whole comments. -/
def skipSpace : Nat → List Char → List Char
  | 0, s => s
  | fuel + 1, s =>
    let s := skipGaps s
    match dropNewline? (skipComment s) with
    | some rest => skipSpace fuel rest
    | none => s

/-! ## Values -/

/-- Reads the items of an array after its bracket or a comma, and the closing bracket. -/
def readItems (read : List Char → Option (Toml × List Char)) :
    Nat → List Char → Option (List Toml × List Char)
  | 0, _ => none
  | fuel + 1, s =>
    match skipSpace s.length s with
    | ']' :: rest => some ([], rest)
    | s => do
      let (item, rest) ← read s
      match skipSpace rest.length rest with
      | ',' :: rest =>
        let (items, rest) ← readItems read fuel rest
        return (item :: items, rest)
      | ']' :: rest => return ([item], rest)
      | _ => none

/-- Reads a key and its value with an equals sign between them. -/
def readEntry (read : List Char → Option (Toml × List Char)) (s : List Char) :
    Option ((List String × String) × Toml × List Char) := do
  let (key, rest) ← readKey s
  match rest with
  | '=' :: rest =>
    let (value, rest) ← read (skipGaps rest)
    return (key, value, skipGaps rest)
  | _ => none

/-- Reads the entries of an inline table after its brace or a comma, and the closing brace. -/
def readEntries (read : List Char → Option (Toml × List Char)) :
    Nat → Entries → List Char → Option (Entries × List Char)
  | 0, _, _ => none
  | fuel + 1, entries, s => do
    let ((path, key), value, rest) ← readEntry read s
    let entries ← addValue entries path key value
    match rest with
    | ',' :: rest => readEntries read fuel entries rest
    | '}' :: rest => return (entries, rest)
    | _ => none

/-- Reads an inline table after its brace. -/
def readInline (read : List Char → Option (Toml × List Char)) (s : List Char) :
    Option (Toml × List Char) :=
  match skipGaps s with
  | '}' :: rest => some (.table .inline [], rest)
  | s => do
    let (entries, rest) ← readEntries read (s.length + 1) [] s
    return (.table .inline entries, rest)

/-- Reads a value; `levels` is one more than the number of brackets and braces that may still
open. -/
def readValue : Nat → List Char → Option (Toml × List Char)
  | 0, _ => none
  | levels + 1, s =>
    match s with
    | '"' :: _ => (readText s).map fun (str, rest) => (.text str, rest)
    | '\'' :: _ => (readText s).map fun (str, rest) => (.text str, rest)
    | '[' :: rest =>
      if levels = 0 then none
      else (readItems (readValue levels) (rest.length + 1) rest).map fun (items, rest) =>
        (.array items, rest)
    | '{' :: rest => if levels = 0 then none else readInline (readValue levels) rest
    | 't' :: 'r' :: 'u' :: 'e' :: rest => some (.bool true, rest)
    | 'f' :: 'a' :: 'l' :: 's' :: 'e' :: rest => some (.bool false, rest)
    | _ => readScalar s

/-! ## Lines -/

/-- What has been read of a text: the root table and the table that entries go to. -/
structure Draft where
  root : Entries
  here : List String

/-- Takes a header and the rest of its line. -/
def readHeader (draft : Draft) (s : List Char) : Option (Draft × List Char) :=
  match s with
  | '[' :: rest => do
    let ((path, key), rest) ← readKey rest
    let rest ← dropStart? [']', ']'] rest
    let rest ← endLine rest
    let root ← changeAt .implied (openItem key) draft.root path
    return (⟨root, path ++ [key]⟩, rest)
  | _ => do
    let ((path, key), rest) ← readKey s
    let rest ← dropStart? [']'] rest
    let rest ← endLine rest
    let root ← changeAt .implied (openTable key) draft.root path
    return (⟨root, path ++ [key]⟩, rest)

/-- Takes a line, which is not blank. -/
def readLine (draft : Draft) (s : List Char) : Option (Draft × List Char) :=
  match s with
  | '[' :: rest => readHeader draft rest
  | _ => do
    let ((path, key), value, rest) ← readEntry (readValue levelLimit) s
    let rest ← endLine rest
    let root ← changeAt .implied (fun here => addValue here path key value) draft.root draft.here
    return (⟨root, draft.here⟩, rest)

/-- Takes all lines. -/
def readDocument : Nat → Draft → List Char → Option Entries
  | 0, _, _ => none
  | fuel + 1, draft, s =>
    match skipGaps s with
    | [] => some draft.root
    | '#' :: rest => (endLine ('#' :: rest)).bind (readDocument fuel draft)
    | '\n' :: rest => readDocument fuel draft rest
    | '\r' :: rest => (dropNewline? ('\r' :: rest)).bind (readDocument fuel draft)
    | s => do
      let (draft, rest) ← readLine draft s
      readDocument fuel draft rest

/-- The root table that a text writes. A byte order mark at its start is passed over. -/
def parse (text : String) : Option Entries :=
  let s := match text.toList with
    | '\uFEFF' :: rest => rest
    | s => s
  readDocument (s.length + 1) ⟨[], []⟩ s

end VideoScript.Toml
