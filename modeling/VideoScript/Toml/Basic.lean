/-!
# TOML values

A table keeps the way in which it came to be, because that decides what may still be added to it:
an inline table is closed, a table made by dotted keys takes more dotted keys but no header, and a
table that a longer header implied may still get a header of its own.
-/

set_option autoImplicit false

namespace VideoScript

/-- How a table came to be. -/
inductive Toml.Origin where
  /-- It is written in braces. -/
  | inline
  /-- It has a header. -/
  | header
  /-- The header of a table inside it implies it. -/
  | implied
  /-- Dotted keys make it. -/
  | dotted
  deriving DecidableEq, Repr

/-- A TOML value. -/
inductive Toml where
  | text (s : String)
  | integer (n : Int)
  | float (x : Float)
  | bool (b : Bool)
  /-- A date, a time or both, as it is written. -/
  | moment (s : String)
  | array (items : List Toml)
  | table (origin : Toml.Origin) (entries : List (String × Toml))
  /-- Tables that are written one by one under headers in double brackets. -/
  | tables (items : List (List (String × Toml)))

namespace Toml

/-- The entries of a table. -/
abbrev Entries := List (String × Toml)

/-- Sets the value of a key: a key that is there keeps its place. -/
def setEntry (entries : Entries) (key : String) (value : Toml) : Entries :=
  match entries with
  | [] => [(key, value)]
  | (k, v) :: rest => if k = key then (k, value) :: rest else (k, v) :: setEntry rest key value

/-! ## Adding to tables -/

/-- Changes the entries at the end of a path. Tables that are missing on the way are made with an
origin; of tables written one by one, the last is meant. By dotted keys nothing can be added to a
table with a header. -/
def changeAt (made : Origin) (change : Entries → Option Entries) (entries : Entries) :
    List String → Option Entries
  | [] => change entries
  | key :: path =>
    match entries.lookup key with
    | none => do
      let inner ← changeAt made change [] path
      return setEntry entries key (.table made inner)
    | some (.table .inline _) => none
    | some (.table origin inner) =>
      if made = .dotted ∧ origin = .header then none
      else do
        let inner ← changeAt made change inner path
        return setEntry entries key (.table origin inner)
    | some (.tables items) =>
      match items.getLast? with
      | none => none
      | some last => do
        let last ← changeAt made change last path
        return setEntry entries key (.tables (items.dropLast ++ [last]))
    | some _ => none

/-- The origin of the table at the end of a path, if there is one. -/
def originAt? (entries : Entries) : List String → Option Origin
  | [] => none
  | [key] =>
    match entries.lookup key with
    | some (.table origin _) => some origin
    | _ => none
  | key :: path =>
    match entries.lookup key with
    | some (.table _ inner) => originAt? inner path
    | some (.tables items) => (items.getLast?).bind fun last => originAt? last path
    | _ => none

/-- Adds a new entry. -/
def addNew (key : String) (value : Toml) (entries : Entries) : Option Entries :=
  if (entries.lookup key).isSome then none else some (setEntry entries key value)

/-- Adds a value under a dotted key. The tables on the way are made by this key or by dotted keys
before it. -/
def addValue (entries : Entries) (path : List String) (key : String) (value : Toml) :
    Option Entries := do
  let changed ← changeAt .dotted (addNew key value) entries path
  if path.isEmpty || originAt? changed path = some .dotted then return changed else none

/-- Gives a table its header. -/
def openTable (key : String) (entries : Entries) : Option Entries :=
  match entries.lookup key with
  | none => some (setEntry entries key (.table .header []))
  | some (.table .implied inner) => some (setEntry entries key (.table .header inner))
  | some _ => none

/-- Starts one more of the tables that are written one by one. -/
def openItem (key : String) (entries : Entries) : Option Entries :=
  match entries.lookup key with
  | none => some (setEntry entries key (.tables [[]]))
  | some (.tables items) => some (setEntry entries key (.tables (items ++ [[]])))
  | some _ => none

end Toml

end VideoScript
