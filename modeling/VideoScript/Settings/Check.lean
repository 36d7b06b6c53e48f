import VideoScript.Json.Record

/-!
# Settings of a check

What a check looks at, what counts against a document, and how media files are looked up. The
record form has all members by name; only the directory of the media files may be missing.
-/

set_option autoImplicit false

namespace VideoScript

open Json

/-- The settings of a check. -/
structure CheckSettings where
  /-- Warnings count against a document. -/
  strict : Bool
  /-- Media files are not looked up. -/
  skipFiles : Bool
  /-- Nothing but the JSON is looked at. -/
  skipChecks : Bool
  /-- How many files may be looked up at once; none leaves it to the machine. -/
  maxWorkers : Option Nat
  /-- From how many distinct files on they are looked up side by side. -/
  parallelThreshold : Nat
  /-- Each distinct file is looked up once. -/
  cache : Bool
  /-- Information is shown. -/
  verbose : Bool
  /-- The directory of the media files, before the one that a document names. -/
  resourcesDir : Option String
  deriving DecidableEq, Repr

namespace CheckSettings

/-- The settings where nothing is set. -/
def standard : CheckSettings := ⟨false, false, false, none, 5, true, false, none⟩

/-- The settings with a number of files to look up at once, which is at least one. -/
def limitWorkers (settings : CheckSettings) (n : Nat) : CheckSettings :=
  { settings with maxWorkers := some (max 1 n) }

/-- The number of files to look up at once when nothing is set, on a machine with a number of
processors, if it tells. -/
def standardWorkers (processors : Option Nat) : Nat := min (2 * processors.getD 4) 8

/-- The number of files to look up at once. -/
def workers (settings : CheckSettings) (processors : Option Nat) : Nat :=
  settings.maxWorkers.getD (standardWorkers processors)

/-- A member that is required. -/
def required {α : Type} (name : String) (read : Decoder α)
    (set : α → CheckSettings → CheckSettings) : Member CheckSettings :=
  ⟨name, .required, fun depth s => (read depth s).map fun (a, rest) => (set a, rest)⟩

/-- The record form. -/
def shape : RecordShape CheckSettings where
  name := "ValidationConfig"
  blank := standard
  members :=
    [required "strict_mode" boolDecoder fun b c => { c with strict := b },
     required "skip_file_validation" boolDecoder fun b c => { c with skipFiles := b },
     required "skip_validate" boolDecoder fun b c => { c with skipChecks := b },
     required "max_workers" countDecoder fun n c => { c with maxWorkers := some n },
     required "parallel_threshold" countDecoder fun n c => { c with parallelThreshold := n },
     required "enable_cache" boolDecoder fun b c => { c with cache := b },
     required "verbose" boolDecoder fun b c => { c with verbose := b },
     { required "resources_dir" (optionDecoder (textDecoder "path string"))
        (fun dir c => { c with resourcesDir := dir }) with presence := .optional }]

/-- The settings that a text writes. -/
def decode (text : String) : Except ReadError CheckSettings :=
  Json.decode (recordDecoder shape) text

/-- The settings as a record; `workers` stands for the number of files to look up at once. -/
def toJson (settings : CheckSettings) (workers : Json) : Json :=
  .object <|
    [("strict_mode", .bool settings.strict), ("skip_file_validation", .bool settings.skipFiles),
     ("skip_validate", .bool settings.skipChecks), ("max_workers", workers),
     ("parallel_threshold", .ofNat settings.parallelThreshold),
     ("enable_cache", .bool settings.cache), ("verbose", .bool settings.verbose)]
    ++ (match settings.resourcesDir with
      | some dir => [("resources_dir", .string dir)]
      | none => [])

end CheckSettings

end VideoScript
