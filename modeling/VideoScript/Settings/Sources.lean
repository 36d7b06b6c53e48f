import VideoScript.Disk.Basic
import VideoScript.Disk.Path
import VideoScript.Settings.Options
import VideoScript.Toml.Parser

/-!
# Where options come from

Options come from a settings file, which is named or found in the directories around a script, and
from the environment, which goes before the file. In the end they must make sense.
-/

set_option autoImplicit false

namespace VideoScript.Options

open Text Disk

/-- Why there are no options. -/
inductive SourceError where
  | unreadable (path : String) (failure : Failure)
  /-- The file is not TOML, or one of its values has the wrong type. -/
  | malformed (path : String)
  | notBool (name value : String)
  | notCount (name value : String)
  | senseless (problem : Problem)
  deriving DecidableEq, Repr

/-- The wording of an error. -/
def SourceError.message : SourceError → String
  | .unreadable path failure => s!"Failed to read config file {path}: {failure.message}"
  | .malformed path =>
    s!"Failed to parse config file {path}: invalid TOML or a value of the wrong type"
  | .notBool name value => s!"{name} must be a boolean, got '{value}'"
  | .notCount name value => s!"{name} must be a non-negative integer, got '{value}'"
  | .senseless problem => problem.message

/-- The options, when they make sense. -/
def checked [Web.UrlReader] (o : Options) : Except SourceError Options :=
  match o.problem? with
  | none => .ok o
  | some problem => .error (.senseless problem)

/-! ## Files -/

/-- The options with the directory of the media files as seen from the root of the disk; in the file
at a path it is seen from there. -/
def fromFileAt (workingDirectory path : String) (o : Options) : Options :=
  let absoluteDir (dir : String) : String :=
    absolute workingDirectory (join ((parent? path).getD "") dir)
  { o with check := { o.check with resourcesDir := o.check.resourcesDir.map absoluteDir } }

/-- The options of the file at a path. -/
def load [Web.UrlReader] (disk : Disk) (workingDirectory path : String) :
    Except SourceError Options := do
  let text ← (disk.readText path).mapError (.unreadable path)
  let some o := (Toml.parse text).bind ofEntries? | throw (.malformed path)
  checked (o.fromFileAt workingDirectory path)

/-- The names of a settings file. -/
def fileNames : List String := [".validation.toml", "validation.toml"]

/-- The places where the settings file for a directory may stand, the nearest first. -/
def filePlaces (dir : String) : List String :=
  (ancestors dir).flatMap fun dir => fileNames.map (join dir)

/-- The settings file nearest to a directory, on the way from it to the root. -/
def discover? (disk : Disk) (dir : String) : Option String := (filePlaces dir).find? disk.hasFile

/-! ## The environment -/

/-- The truth value that a word in the environment stands for. -/
def readBool (name value : String) : Except SourceError Bool :=
  let word := lowerCase (trim value)
  if ["1", "true", "yes", "on"].contains word then .ok true
  else if ["0", "false", "no", "off"].contains word then .ok false
  else .error (.notBool name value)

/-- The number that a word in the environment stands for. -/
def readCount (name value : String) : Except SourceError Nat :=
  match natural? maxWord (trim value).toList with
  | some n => .ok n
  | none => .error (.notCount name value)

/-- The options with a variable of the environment. Other variables change nothing. -/
def withVariable (o : Options) (name value : String) : Except SourceError Options :=
  let c := o.check
  let s := o.service
  match name with
  | "VALIDATION_STRICT_MODE" =>
    (readBool name value).map fun b => { o with check := { c with strict := some b } }
  | "VALIDATION_SKIP_FILE_VALIDATION" =>
    (readBool name value).map fun b => { o with check := { c with skipFiles := some b } }
  | "VALIDATION_ENABLE_CACHE" =>
    (readBool name value).map fun b => { o with check := { c with cache := some b } }
  | "VALIDATION_VERBOSE" =>
    (readBool name value).map fun b => { o with check := { c with verbose := some b } }
  | "VALIDATION_MAX_WORKERS" =>
    (readCount name value).map fun n => { o with check := { c with maxWorkers := some n } }
  | "VALIDATION_PARALLEL_THRESHOLD" =>
    (readCount name value).map fun n => { o with check := { c with parallelThreshold := some n } }
  | "SHOTSTACK_API_KEY" => .ok { o with service := { s with apiKey := some value } }
  | "SHOTSTACK_INGEST_URL" => .ok { o with service := { s with ingestUrl := some value } }
  | "SHOTSTACK_EDIT_URL" => .ok { o with service := { s with editUrl := some value } }
  | _ => .ok o

/-- The names of the variables that change something. -/
def variableNames : List String :=
  ["SHOTSTACK_API_KEY", "SHOTSTACK_EDIT_URL", "SHOTSTACK_INGEST_URL", "VALIDATION_ENABLE_CACHE",
   "VALIDATION_MAX_WORKERS", "VALIDATION_PARALLEL_THRESHOLD", "VALIDATION_SKIP_FILE_VALIDATION",
   "VALIDATION_STRICT_MODE", "VALIDATION_VERBOSE"]

/-- The options with the variables up to the first bad one, and what is wrong with that. -/
def applyEnvironment (o : Options) : List (String × String) → Options × Except SourceError Unit
  | [] => (o, .ok ())
  | (name, value) :: rest =>
    match o.withVariable name value with
    | .ok o => o.applyEnvironment rest
    | .error e => (o, .error e)

/-- The options with all variables. -/
def withEnvironment (o : Options) (environment : List (String × String)) :
    Except SourceError Options :=
  match o.applyEnvironment environment with
  | (o, .ok ()) => .ok o
  | (_, .error e) => .error e

/-! ## All together -/

/-- The options for a script in a directory: those of the named file, or of the nearest one, and the
environment's before them. -/
def resolve [Web.UrlReader] (disk : Disk) (workingDirectory : String)
    (environment : List (String × String)) (named : Option String) (dir : String) :
    Except SourceError Options := do
  let o ← match named.or (discover? disk dir) with
    | some path => load disk workingDirectory path
    | none => pure unset
  checked (← o.withEnvironment environment)

end VideoScript.Options
