import VideoScript.Text.Ascii
import VideoScript.Text.Lines

/-!
# Command lines

A command line names a command and gives it places and options. An option has a long name behind
two hyphens and may have a letter behind one; a value follows it after an equals sign or as the next
argument, and with a letter also without anything between them. Letters without a value may stand
together. After two hyphens alone everything is a place. No option stands twice.

`Arguments.scan` takes a command line apart by the options that a command has; the readers of the
commands then look only at its parts.
-/

set_option autoImplicit false

namespace VideoScript.Command

open Text

/-- Why a command line is refused. -/
inductive UsageError where
  | noCommand
  | unknownCommand (name : String)
  | unknownOption (name : String)
  | missingValue (option : String)
  | needlessValue (option : String)
  | repeated (option : String)
  | badValue (option value : String)
  | missingPlace (name : String)
  | needlessPlace (value : String)
  deriving DecidableEq, Repr

/-- The wording of an error. -/
def UsageError.message : UsageError → String
  | .noCommand => "a command is required"
  | .unknownCommand name => s!"unrecognized command '{name}'"
  | .unknownOption name => s!"unexpected argument '{name}'"
  | .missingValue option => s!"a value is required for '--{option}'"
  | .needlessValue option => s!"unexpected value for '--{option}'"
  | .repeated option => s!"'--{option}' cannot be used multiple times"
  | .badValue option value => s!"invalid value '{value}' for '{option}'"
  | .missingPlace name => s!"<{name}> is required"
  | .needlessPlace value => s!"unexpected argument '{value}'"

/-- An option that a command has. -/
structure OptionForm where
  name : String
  letter : Option Char
  takesValue : Bool
  deriving DecidableEq, Repr

/-- The parts of a command line. -/
structure Arguments where
  flags : List String
  values : List (String × String)
  places : List String
  deriving DecidableEq, Repr

namespace Arguments

/-- A command line without parts. -/
def empty : Arguments := ⟨[], [], []⟩

/-- Whether an option has been given. -/
def has (a : Arguments) (name : String) : Bool :=
  a.flags.contains name || (a.values.lookup name).isSome

/-- The value of an option. -/
def value? (a : Arguments) (name : String) : Option String := a.values.lookup name

/-- Adds an option without a value. -/
def addFlag (a : Arguments) (name : String) : Except UsageError Arguments :=
  if a.has name then .error (.repeated name) else .ok { a with flags := a.flags ++ [name] }

/-- Adds an option with its value. -/
def addValue (a : Arguments) (name value : String) : Except UsageError Arguments :=
  if a.has name then .error (.repeated name)
  else .ok { a with values := a.values ++ [(name, value)] }

/-- Adds a place. -/
def addPlace (a : Arguments) (value : String) : Arguments :=
  { a with places := a.places ++ [value] }

/-- Takes an option by its long name. When its value is still to come, the name of the option comes
with the parts. -/
def takeLong (forms : List OptionForm) (a : Arguments) (s : List Char) :
    Except UsageError (Arguments × Option String) :=
  let name := s.takeWhile (· ≠ '=')
  let given := match s.drop name.length with
    | _ :: value => some (String.ofList value)
    | [] => none
  let name := String.ofList name
  match forms.find? fun form => form.name = name, given with
  | none, _ => .error (.unknownOption ("--" ++ name))
  | some form, some value =>
    if form.takesValue then (a.addValue name value).map fun a => (a, none)
    else .error (.needlessValue name)
  | some form, none =>
    if form.takesValue then
      if a.has name then .error (.repeated name) else .ok (a, some name)
    else (a.addFlag name).map fun a => (a, none)

/-- Takes options by their letters. -/
def takeLetters (forms : List OptionForm) (a : Arguments) :
    List Char → Except UsageError (Arguments × Option String)
  | [] => .ok (a, none)
  | c :: rest =>
    match forms.find? fun form => form.letter = some c with
    | none => .error (.unknownOption (.ofList ['-', c]))
    | some form =>
      if form.takesValue then
        match rest with
        | [] => if a.has form.name then .error (.repeated form.name) else .ok (a, some form.name)
        | '=' :: value => (a.addValue form.name (.ofList value)).map fun a => (a, none)
        | value => (a.addValue form.name (.ofList value)).map fun a => (a, none)
      else
        match a.addFlag form.name with
        | .ok a => takeLetters forms a rest
        | .error e => .error e

/-- Takes the arguments in turn; `open?` is the option whose value comes next. -/
def scan (forms : List OptionForm) (open? : Option String) (a : Arguments) :
    List String → Except UsageError Arguments
  | [] =>
    match open? with
    | none => .ok a
    | some name => .error (.missingValue name)
  | arg :: rest =>
    match open?, arg.toList with
    | none, ['-', '-'] => .ok { a with places := a.places ++ rest }
    | none, '-' :: '-' :: s =>
      match takeLong forms a s with
      | .ok (a, next?) => scan forms next? a rest
      | .error e => .error e
    | none, '-' :: c :: s =>
      match takeLetters forms a (c :: s) with
      | .ok (a, next?) => scan forms next? a rest
      | .error e => .error e
    | none, _ => scan forms none (a.addPlace arg) rest
    | some name, '-' :: _ :: _ => .error (.missingValue name)
    | some name, _ =>
      match a.addValue name arg with
      | .ok a => scan forms none a rest
      | .error e => .error e

/-! ## Reading values -/

/-- The path that an option gives. -/
def path? (a : Arguments) (name : String) : Except UsageError (Option String) :=
  match a.value? name with
  | some "" => .error (.badValue ("--" ++ name) "")
  | value => .ok value

/-- The number that an option gives. -/
def count? (a : Arguments) (name : String) : Except UsageError (Option Nat) :=
  match a.value? name with
  | none => .ok none
  | some value =>
    match natural? maxWord value.toList with
    | some n => .ok (some n)
    | none => .error (.badValue ("--" ++ name) value)

/-- The place with a number, when it is there. -/
def placeAt? (a : Arguments) (i : Nat) : Except UsageError (Option String) :=
  match a.places[i]? with
  | some "" => .error (.badValue "place" "")
  | place => .ok place

/-- The place with a number, which must be there. -/
def placeAt (a : Arguments) (i : Nat) (name : String) : Except UsageError String := do
  match ← a.placeAt? i with
  | some place => return place
  | none => throw (.missingPlace name)

/-- Refuses places from a number on. -/
def noPlaceFrom (a : Arguments) (i : Nat) : Except UsageError Unit :=
  match a.places[i]? with
  | some place => .error (.needlessPlace place)
  | none => .ok ()

end Arguments

/-! ## Commands -/

/-- How a report is shown. -/
inductive ReportForm where
  | text
  | json
  deriving DecidableEq, Repr

/-- What a check is asked to do. -/
structure CheckCommand where
  script : String
  strict : Bool
  skipFiles : Bool
  skipChecks : Bool
  noCache : Bool
  maxWorkers : Option Nat
  parallelThreshold : Option Nat
  resourcesDir : Option String
  config : Option String
  verbose : Bool
  quiet : Bool
  form : ReportForm
  deriving DecidableEq, Repr

/-- What a conversion is asked to do. -/
structure ConvertCommand where
  input : String
  output : Option String
  template : Bool
  deriving DecidableEq, Repr

/-- What an assembly is asked to do. -/
structure AssembleCommand where
  script : String
  output : Option String
  skipChecks : Bool
  strict : Bool
  config : Option String
  deriving DecidableEq, Repr

/-- An option without a value. -/
def flag (name : String) (letter : Option Char) : OptionForm := ⟨name, letter, false⟩

/-- An option with a value. -/
def valued (name : String) (letter : Option Char) : OptionForm := ⟨name, letter, true⟩

/-- The options of a check. -/
def checkForms : List OptionForm :=
  [flag "strict" none, flag "skip-files" none, flag "skip-validate" none, flag "no-cache" none,
   valued "max-workers" none, valued "parallel-threshold" none, valued "resources-dir" none,
   valued "config" (some 'c'), flag "verbose" (some 'v'), flag "quiet" (some 'q'),
   valued "format" none]

/-- The options of a conversion. -/
def convertForms : List OptionForm := [flag "template" none, flag "verbose" (some 'v')]

/-- The options of an assembly. -/
def assembleForms : List OptionForm :=
  [valued "output" (some 'o'), flag "skip-validate" none, flag "strict" none,
   valued "config" (some 'c'), flag "verbose" (some 'v')]

/-- The form of the report that a check is asked for. -/
def reportForm (a : Arguments) : Except UsageError ReportForm :=
  match a.value? "format" with
  | none => .ok .text
  | some "text" => .ok .text
  | some "json" => .ok .json
  | some value => .error (.badValue "--format" value)

/-- The check that the parts of a command line ask for. -/
def CheckCommand.ofArguments (a : Arguments) : Except UsageError CheckCommand := do
  let script ← a.placeAt 0 "SCRIPT"
  a.noPlaceFrom 1
  return {
    script
    strict := a.has "strict"
    skipFiles := a.has "skip-files"
    skipChecks := a.has "skip-validate"
    noCache := a.has "no-cache"
    maxWorkers := ← a.count? "max-workers"
    parallelThreshold := ← a.count? "parallel-threshold"
    resourcesDir := ← a.path? "resources-dir"
    config := ← a.path? "config"
    verbose := a.has "verbose"
    quiet := a.has "quiet"
    form := ← reportForm a }

/-- The conversion that the parts of a command line ask for. -/
def ConvertCommand.ofArguments (a : Arguments) : Except UsageError ConvertCommand := do
  let input ← a.placeAt 0 "INPUT"
  let output ← a.placeAt? 1
  a.noPlaceFrom 2
  return ⟨input, output, a.has "template"⟩

/-- The assembly that the parts of a command line ask for. -/
def AssembleCommand.ofArguments (a : Arguments) : Except UsageError AssembleCommand := do
  let script ← a.placeAt 0 "SCRIPT"
  a.noPlaceFrom 1
  return ⟨script, ← a.path? "output", a.has "skip-validate", a.has "strict", ← a.path? "config"⟩

end Command

/-- A command with what it is asked to do. -/
inductive Command where
  | check (c : Command.CheckCommand)
  | convert (c : Command.ConvertCommand)
  | assemble (c : Command.AssembleCommand)
  deriving DecidableEq, Repr

namespace Command

/-- The command of a command line. -/
def parse (args : List String) : Except UsageError Command := do
  match args with
  | [] => throw .noCommand
  | name :: rest =>
    match name with
    | "check" =>
      let given ← Arguments.scan checkForms none .empty rest
      return .check (← CheckCommand.ofArguments given)
    | "convert" =>
      let given ← Arguments.scan convertForms none .empty rest
      return .convert (← ConvertCommand.ofArguments given)
    | "assemble" =>
      let given ← Arguments.scan assembleForms none .empty rest
      return .assemble (← AssembleCommand.ofArguments given)
    | _ => throw (.unknownCommand name)

end Command

end VideoScript
