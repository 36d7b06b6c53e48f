import VideoScript.Assembly.Run
import VideoScript.Command.Arguments
import VideoScript.Render.Client
import VideoScript.Settings.Sources
import VideoScript.ShotList.File
import VideoScript.Web.Standard

/-!
# Running a command

A command runs on a machine: a tree of files, an environment and a network. It gives the texts that
it shows, what went wrong, whether it succeeds, and the machine as it leaves it. What went wrong is
shown apart from everything else; a check that finds faults shows them and fails, but nothing went
wrong.
-/

set_option autoImplicit false

namespace VideoScript.Command

open Json Disk Text Render

/-- What goes wrong while a command runs. -/
inductive RunError where
  | options (e : Options.SourceError)
  | check (e : CheckFailure)
  | convert (e : ShotList.FileError)
  | noKey
  | assembly (e : Assembly.AssemblyError)

/-- The wording of an error. -/
def RunError.message : RunError → String
  | .options e => e.message
  | .check e => e.message
  | .convert e => e.message
  | .noKey => "no API key configured: set SHOTSTACK_API_KEY or [shotstack] api_key"
  | .assembly e => e.message

/-- Where a command runs. -/
structure Machine (ν : Type) where
  tree : FileTree
  environment : List (String × String)
  network : Web.Network ν

/-- What comes of a command. -/
structure Result (ν : Type) where
  shown : List String
  error : Option RunError
  succeeds : Bool
  online : Online ν

namespace Result

variable {ν : Type}

/-- The text that is shown. -/
def output (r : Result ν) : String := String.join (r.shown.map (· ++ "\n"))

/-- The text that tells what went wrong. -/
def errorOutput (r : Result ν) : String :=
  match r.error with
  | some e => "error: " ++ e.message ++ "\n"
  | none => ""

/-- The number with which the program ends. -/
def code (r : Result ν) : Nat := if r.succeeds then 0 else 1

end Result

/-- The number with which the program ends when its command line is refused. -/
def usageCode : Nat := 2

section

variable {ν : Type}

/-- A command that something keeps from its work. -/
def failed (online : Online ν) (e : RunError) : Result ν := ⟨[], some e, false, online⟩

/-! ## Checking -/

/-- The settings of a check with what the command line says. -/
def CheckCommand.settings (c : CheckCommand) (workingDirectory : String) (s : CheckSettings) :
    CheckSettings :=
  { s with
    strict := s.strict || c.strict
    skipFiles := s.skipFiles || c.skipFiles
    skipChecks := s.skipChecks || c.skipChecks
    cache := s.cache && !c.noCache
    maxWorkers := (c.maxWorkers.map (max 1)).or s.maxWorkers
    parallelThreshold := c.parallelThreshold.getD s.parallelThreshold
    resourcesDir := (c.resourcesDir.map (absolute workingDirectory)).or s.resourcesDir
    verbose := s.verbose || c.verbose }

/-- The options for a script on a machine. -/
def optionsFor [Web.UrlReader] (m : Machine ν) (config : Option String) (script : String) :
    Except Options.SourceError Options :=
  Options.resolve m.tree.disk m.tree.workingDirectory m.environment config
    (scriptDirectory m.tree.workingDirectory script)

/-- The texts that show a report. -/
def CheckCommand.show (c : CheckCommand) (verbose : Bool) (report : Report) : List String :=
  if c.quiet then []
  else match c.form with
    | .json => [(report.summary c.script).pretty]
    | .text => report.lines c.script verbose

/-- Runs a check. -/
def CheckCommand.run [Web.UrlReader] (c : CheckCommand) (m : Machine ν) (online : Online ν) :
    Result ν :=
  match optionsFor m c.config c.script with
  | .error e => failed online (.options e)
  | .ok o =>
    let settings := c.settings m.tree.workingDirectory o.checkSettings
    match checkFile (.ofTree m.tree) settings c.script with
    | .error e => failed online (.check e)
    | .ok report => ⟨c.show settings.verbose report, none, report.passed, online⟩

/-! ## Converting -/

/-- The texts that show a conversion. -/
def showConverted (input : String) (made : ShotList.Converted) : List String :=
  (made.conversion.skipped.map fun r => s!"  skipped line {r.line}: {r.reason.message}")
  ++ (made.conversion.dropped.map fun d =>
    s!"  dropped line {d.line}: unknown {d.kind.words} '{d.value}'")
  ++ [s!"converted {input} -> {made.path}  {made.conversion.clips} clip(s)"]

/-- Runs a conversion. -/
def ConvertCommand.run (c : ConvertCommand) (m : Machine ν) (online : Online ν) : Result ν :=
  let mode : ShotList.Mode := if c.template then .template else .legacy
  match ShotList.convertAt m.tree c.input c.output mode with
  | .error e => failed online (.convert e)
  | .ok (made, tree) => ⟨showConverted c.input made, none, true, { online with tree }⟩

/-! ## Assembling -/

/-- The texts that show what an assembly has made. -/
def showOutcome (o : Assembly.Outcome) : List String :=
  [s!"saved {o.path}  {o.bytes} bytes, render {o.render}"]

/-- Runs an assembly. -/
def AssembleCommand.run [Web.Library] (c : AssembleCommand) (m : Machine ν) (online : Online ν) :
    Result ν :=
  match optionsFor m c.config c.script with
  | .error e => failed online (.options e)
  | .ok o =>
    match o.serviceSettings? with
    | none => failed online .noKey
    | some settings =>
      let check := o.checkSettings
      let workshop : Assembly.Workshop (Online ν) :=
        { here := .ofTree m.tree
          check := { check with strict := check.strict || c.strict }
          settings
          service := (Client.mk settings m.network).service }
      let (result, progress) := Assembly.run workshop ⟨c.script, c.output, c.skipChecks⟩ online
      match result with
      | .ok outcome => ⟨showOutcome outcome, none, true, progress.service⟩
      | .error (.failedCheck report) =>
        ⟨report.lines c.script false, none, false, progress.service⟩
      | .error e => failed progress.service (.assembly e)

/-- Runs a command. -/
def run [Web.Library] (m : Machine ν) (network : ν) (command : Command) : Result ν :=
  let online : Online ν := ⟨network, m.tree, []⟩
  match command with
  | .check c => c.run m online
  | .convert c => c.run m online
  | .assemble c => c.run m online

end

end VideoScript.Command
