import VideoScript.Json.Mismatch

/-!
# Findings

A finding says what is wrong, or worth knowing, at a place in a document. `Finding.toJson` writes a
finding as a record without the parts that it lacks, and `Finding.ofJson` reads such a record back.
-/

set_option autoImplicit false

namespace VideoScript

open Json

/-- How much a finding weighs. -/
inductive Severity where
  | error
  | warning
  | info
  deriving DecidableEq, Repr

/-- What kind of problem a finding is about. -/
inductive Category where
  /-- The text is not JSON. -/
  | malformed
  /-- A required part is missing or has the wrong type. -/
  | structural
  /-- Braces that make no placeholder, or an empty one. -/
  | placeholder
  /-- The merge array does not fit the placeholders. -/
  | merge
  /-- A value that the service does not know. -/
  | field
  /-- A media file that is not there. -/
  | file
  deriving DecidableEq, Repr

/-- One finding. -/
structure Finding where
  severity : Severity
  category : Category
  /-- The path of the place, as it is shown to readers. -/
  field : String
  message : String
  suggestion : Option String
  /-- The paths of all places, where the finding names them. -/
  locations : List String
  deriving DecidableEq, Repr

/-- The severities with their names in records. -/
def Severity.byName : List (String × Severity) :=
  [("error", error), ("warning", warning), ("info", info)]

/-- The categories with their names in records. -/
def Category.byName : List (String × Category) :=
  [("syntax", malformed), ("structure", structural), ("placeholder", placeholder),
   ("merge", merge), ("field", field), ("file", file)]

/-- The name of a severity in records. -/
def Severity.name : Severity → String
  | error => "error"
  | warning => "warning"
  | info => "info"

/-- The name of a severity in messages. -/
def Severity.label : Severity → String
  | error => "ERROR"
  | warning => "WARNING"
  | info => "INFO"

/-- The name of a category in records. -/
def Category.name : Category → String
  | malformed => "syntax"
  | structural => "structure"
  | placeholder => "placeholder"
  | merge => "merge"
  | field => "field"
  | file => "file"

/-- The name of a category in messages. -/
def Category.label : Category → String
  | malformed => "Syntax"
  | structural => "Structure"
  | placeholder => "Placeholder"
  | merge => "Merge"
  | field => "Field"
  | file => "File"

namespace Finding

/-- A finding with a place and a message alone. -/
def plain (severity : Severity) (category : Category) (field message : String) : Finding :=
  ⟨severity, category, field, message, none, []⟩

/-- An error. -/
def error (category : Category) (field message : String) : Finding :=
  plain .error category field message

/-- A warning. -/
def warning (category : Category) (field message : String) : Finding :=
  plain .warning category field message

/-- A piece of information. -/
def info (category : Category) (field message : String) : Finding :=
  plain .info category field message

/-- The finding with a suggestion. -/
def suggest (f : Finding) (suggestion : String) : Finding :=
  { f with suggestion := some suggestion }

/-- The finding with all its places. -/
def seenAt (f : Finding) (locations : List String) : Finding := { f with locations := locations }

/-- Whether a finding is an error. -/
def isError (f : Finding) : Bool := f.severity = .error

/-- Findings of which none is an error have none with that severity. -/
theorem not_error_of_mem {findings : List Finding} (h : ∀ f ∈ findings, f.isError = false)
    {f : Finding} (hf : f ∈ findings) : f.severity ≠ .error := by
  have hno := h f hf
  rw [isError, decide_eq_false_iff_not] at hno
  exact hno

/-- Whether a finding is a warning. -/
def isWarning (f : Finding) : Bool := f.severity = .warning

/-- The finding on one line. -/
def line (f : Finding) : String := f.severity.label ++ " " ++ f.field ++ ": " ++ f.message

/-- The finding as a record. -/
def toJson (f : Finding) : Json :=
  .object <|
    [("severity", .string f.severity.name), ("category", .string f.category.name),
     ("field", .string f.field), ("message", .string f.message)]
    ++ (match f.suggestion with
      | some suggestion => [("suggestion", .string suggestion)]
      | none => [])
    ++ (if f.locations.isEmpty then [] else [("locations", .array (f.locations.map .string))])

/-- The number of members of a record. -/
def memberCount : Nat := 6

/-- What has been read of a record. -/
structure Draft where
  severity : Option Severity
  category : Option Category
  field : Option String
  message : Option String
  suggestion : Option String
  locations : List String

/-- A record of which nothing has been read. -/
def Draft.blank : Draft := ⟨none, none, none, none, none, []⟩

/-- Reads one member of a record. Members with other names are passed over. -/
def Draft.read (draft : Draft) (name : String) (value : Json) : Except Mismatch Draft :=
  match name with
  | "severity" => return { draft with severity := some (← value.asChoice Severity.byName) }
  | "category" => return { draft with category := some (← value.asChoice Category.byName) }
  | "field" => return { draft with field := some (← value.asText) }
  | "message" => return { draft with message := some (← value.asText) }
  | "suggestion" => return { draft with suggestion := ← value.asOptionalText }
  | "locations" => return { draft with locations := ← value.asTexts }
  | _ => return draft

/-- The finding of a record that has been read; `missing` gives the mismatch for the member that
is lacking, by its place and its name. -/
def Draft.finish (draft : Draft) (missing : Nat → String → Mismatch) : Except Mismatch Finding := do
  let some severity := draft.severity | throw (missing 0 "severity")
  let some category := draft.category | throw (missing 1 "category")
  let some field := draft.field | throw (missing 2 "field")
  let some message := draft.message | throw (missing 3 "message")
  return ⟨severity, category, field, message, draft.suggestion, draft.locations⟩

/-- The finding that a value writes, by name or by position. -/
def ofJson (value : Json) : Except Mismatch Finding :=
  match value with
  | .object members => do
    let draft ← members.foldlM (fun draft (name, value) => draft.read name value) Draft.blank
    draft.finish fun _ name => .missingMember name
  | .array items => do
    let names := ["severity", "category", "field", "message", "suggestion", "locations"]
    let draft ← (names.zip items).foldlM (fun draft (name, value) => draft.read name value)
      Draft.blank
    let finding ← draft.finish fun place _ =>
      .wrongLength place s!"struct Finding with {memberCount} elements"
    if items.length ≤ memberCount then return finding
    else throw (.wrongLength items.length "fewer elements in array")
  | other => .error (.wrongType other.found "struct Finding")

/-- The findings that an array writes. -/
def listOfJson : Json → Except Mismatch (List Finding)
  | .array items => items.mapM ofJson
  | other => .error (.wrongType other.found "a sequence")

end Finding

end VideoScript
