import VideoScript.Json.Printer
import VideoScript.Text.Visible

/-!
# Values of the wrong kind

When a value is read as a record, a choice or a number and is something else, the reader says what
it found and what it expected. `Mismatch.message` gives the wording.
-/

set_option autoImplicit false

namespace VideoScript.Json

/-- What a reader found in place of the value it expected. -/
inductive Found where
  | null
  | bool (b : Bool)
  | number (n : Number)
  | text (s : String)
  | sequence
  | map

/-- Why a value cannot be read as what was expected. -/
inductive Mismatch where
  | wrongType (found : Found) (expected : String)
  | wrongValue (found : Found) (expected : String)
  | wrongLength (length : Nat) (expected : String)
  | unknownVariant (name : String) (known : List String)
  | missingMember (name : String)
  | repeatedMember (name : String)
  | refused (reason : String)

/-- What stands in a value. -/
def found : Json → Found
  | null => .null
  | bool b => .bool b
  | number n => .number n
  | string s => .text s
  | array _ => .sequence
  | object _ => .map

/-- The words for what was found. -/
def Found.words : Found → String
  | .null => "null"
  | .bool true => "boolean `true`"
  | .bool false => "boolean `false`"
  | .number (.whole n) => "integer `" ++ String.ofList (wholeText n) ++ "`"
  | .number (.float x) => "floating point `" ++ String.ofList (Number.text (.float x)) ++ "`"
  | .text s => "string " ++ Text.shown s
  | .sequence => "sequence"
  | .map => "map"

/-- The words for a choice among names. -/
def choiceWords : List String → String
  | [] => "there are no variants"
  | [a] => "expected `" ++ a ++ "`"
  | [a, b] => "expected `" ++ a ++ "` or `" ++ b ++ "`"
  | names => "expected one of " ++ ", ".intercalate (names.map fun name => "`" ++ name ++ "`")

/-- The wording of a mismatch. -/
def Mismatch.message : Mismatch → String
  | .wrongType found expected => "invalid type: " ++ found.words ++ ", expected " ++ expected
  | .wrongValue found expected => "invalid value: " ++ found.words ++ ", expected " ++ expected
  | .wrongLength length expected => s!"invalid length {length}, expected {expected}"
  | .unknownVariant name known => "unknown variant `" ++ name ++ "`, " ++ choiceWords known
  | .missingMember name => "missing field `" ++ name ++ "`"
  | .repeatedMember name => "duplicate field `" ++ name ++ "`"
  | .refused reason => reason

/-! ## Reading choices, texts and lists out of values -/

/-- The text of a string. -/
def asText : Json → Except Mismatch String
  | string s => .ok s
  | value => .error (.wrongType value.found "a string")

/-- The text of a string, or nothing for null. -/
def asOptionalText : Json → Except Mismatch (Option String)
  | null => .ok none
  | value => value.asText.map some

/-- The texts of an array of strings. -/
def asTexts : Json → Except Mismatch (List String)
  | array items => items.mapM asText
  | value => .error (.wrongType value.found "a sequence")

/-- The choice that a name makes among named things. -/
def choose {α : Type} (choices : List (String × α)) (name : String) : Except Mismatch α :=
  match choices.lookup name with
  | some a => .ok a
  | none => .error (.unknownVariant name (choices.map (·.1)))

/-- A choice written as its name, or as an object with the name as its only key and null under
it. -/
def asChoice {α : Type} (choices : List (String × α)) : Json → Except Mismatch α
  | string name => choose choices name
  | object [(name, value)] => do
    let a ← choose choices name
    match value with
    | null => return a
    | other => throw (.wrongType other.found "unit")
  | object _ => .error (.wrongValue .map "map with a single key")
  | value => .error (.wrongType value.found "string or map")

end VideoScript.Json
