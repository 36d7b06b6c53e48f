import VideoScript.Assembly.Destination
import VideoScript.Assembly.Edit
import VideoScript.Assembly.Event
import VideoScript.Check
import VideoScript.Render.Service
import VideoScript.Settings.Service

/-!
# Assembling a video

A script is read and checked, its media files are uploaded one after the other, its edit is
submitted, and the video is saved once it is rendered. The service may do anything at all; an
assembly stops at the first error.

`Progress` holds what an assembly has done so far: the calls that it made with their times, the
events that it told, and the clock, which moves while the service answers and while the assembly
pauses. All of it outlives an error.
-/

set_option autoImplicit false

namespace VideoScript.Assembly

open Json Disk Media Render

/-! ## Errors -/

/-- Why a script is no script that can be rendered. -/
inductive ScriptProblem where
  | malformed (e : ReadError)
  | notObject
  | missing (part : MissingPart)

/-- The wording of a problem. -/
def ScriptProblem.message : ScriptProblem → String
  | .malformed e => e.message
  | .notObject => "root must be an object"
  | .missing part => part.message

/-- Why an assembly stops. -/
inductive AssemblyError where
  | unreadable (path : String) (failure : Failure)
  | invalidScript (problem : ScriptProblem)
  | unchecked (e : CheckFailure)
  | failedCheck (report : Report)
  | missingMedia (raw looked : String)
  | service (e : ServiceError)
  | sourceFailed (id path : String)
  /-- The service was not done with a file after a time in milliseconds. -/
  | sourceLate (id : String) (waited : Nat)
  | renderFailed (id reason : String)
  | renderLate (id : String) (waited : Nat)
  | noVideo (id : String)

/-- The wording of an error. -/
def AssemblyError.message : AssemblyError → String
  | .unreadable path failure => s!"cannot read script {path}: {failure.message}"
  | .invalidScript problem => s!"invalid script: {problem.message}"
  | .unchecked e => e.message
  | .failedCheck report =>
    s!"validation failed with {report.count .error} error(s) and {report.count .warning} warning(s)"
  | .missingMedia raw looked => "media file not found: '" ++ raw ++ "' (looked in " ++ looked ++ ")"
  | .service e => e.message
  | .sourceFailed id path => s!"processing failed for uploaded source {id} ({path})"
  | .sourceLate id waited => s!"source {id} not ready after {waited / 1000}s"
  | .renderFailed id reason => s!"render {id} failed: {reason}"
  | .renderLate id waited => s!"render {id} not finished after {waited / 1000}s"
  | .noVideo id => s!"render {id} finished without an output URL"

/-! ## Steps -/

/-- What an assembly needs: its surroundings, its settings and the service. -/
structure Workshop (σ : Type) where
  here : Surroundings
  check : CheckSettings
  settings : ServiceSettings
  service : Service σ

/-- What an assembly has done so far. -/
structure Progress (σ : Type) where
  /-- The state of the service. -/
  service : σ
  /-- The time since the start in milliseconds. -/
  clock : Nat
  /-- The calls with the times at which they were made, in order. -/
  calls : List (Nat × Call)
  events : List Event

/-- Nothing done yet. -/
def Progress.start {σ : Type} (service : σ) : Progress σ := ⟨service, 0, [], []⟩

/-- A part of an assembly. -/
abbrev Step (σ α : Type) := ExceptT AssemblyError (StateM (Progress σ)) α

section

variable {σ : Type}

/-- Tells an event. -/
def tell (event : Event) : Step σ Unit :=
  modify fun p => { p with events := p.events ++ [event] }

/-- Lets a time in milliseconds pass. -/
def pause (time : Nat) : Step σ Unit := modify fun p => { p with clock := p.clock + time }

/-- Calls the service. -/
def ask (a : Workshop σ) (call : Call) : Step σ call.Answer := do
  let p ← get
  let (answer, service) := a.service.answer call p.service
  let clock := p.clock + a.service.duration call p.service
  set { p with service, clock, calls := p.calls ++ [(p.clock, call)] }
  match answer with
  | .ok answer => return answer
  | .error e => throw (.service e)

/-- Stops with an error of another kind. -/
def orStop {ε α : Type} (wrap : ε → AssemblyError) (r : Except ε α) : Step σ α :=
  match r with
  | .ok a => return a
  | .error e => throw (wrap e)

/-! ## Waiting -/

/-- What a look at the service says: the waiting is over, or it goes on with something to remember
for the next look. -/
inductive Look (β α : Type) where
  | settled (a : α)
  | pending (memory : β)

/-- The pause between two looks. The timer goes in milliseconds, and a pause ends when it moves on:
even an empty one takes one of them. -/
def pauseBetween (interval : Nat) : Nat := max interval 1

theorem pauseBetween_pos (interval : Nat) : 0 < pauseBetween interval :=
  Nat.lt_of_lt_of_le Nat.one_pos (Nat.le_max_right _ _)

/-- Looks until the waiting is over, with a pause after each look. The look after which the time is
over is the last one. -/
def lookUntil {β α : Type} (interval timeout : Nat) (late : AssemblyError) (started : Nat)
    (look : β → Step σ (Look β α)) : Nat → β → Step σ α
  | 0, _ => throw late
  | looks + 1, memory => do
    match ← look memory with
    | .settled a => return a
    | .pending memory =>
      if timeout ≤ (← get).clock - started then throw late
      pause (pauseBetween interval)
      lookUntil interval timeout late started look looks memory

/-- A number of looks after which the time is over, also when answers take none. -/
def lookLimit (interval timeout : Nat) : Nat := timeout / pauseBetween interval + 2

/-- Looks until the waiting is over, from now on. -/
def await {β α : Type} (interval timeout : Nat) (late : AssemblyError)
    (look : β → Step σ (Look β α)) (memory : β) : Step σ α := do
  lookUntil interval timeout late (← get).clock look (lookLimit interval timeout) memory

/-- Looks at the state of an uploaded file. -/
def lookAtSource (a : Workshop σ) (id path : String) (memory : Unit) :
    Step σ (Look Unit String) := do
  match ← ask a (.sourceState id) with
  | .ready url => return .settled url
  | .failed => throw (.sourceFailed id path)
  | .pending _ => return .pending memory

/-- Waits until an uploaded file is ready and gives its address. -/
def awaitSource (a : Workshop σ) (id path : String) : Step σ String :=
  await a.settings.pollInterval a.settings.sourceTimeout (.sourceLate id a.settings.sourceTimeout)
    (lookAtSource a id path) ()

/-- A text that is there and not empty. -/
def nonEmpty? (s : Option String) : Option String := s.filter fun s => !s.isEmpty

/-- Looks at the state of a render and tells it when it is not the last one. -/
def lookAtRender (a : Workshop σ) (id : String) (last : Option State) :
    Step σ (Look (Option State) String) := do
  let status ← ask a (.renderState id)
  if last ≠ some status.state then tell (.status id status.state)
  match status.state with
  | .done =>
    match nonEmpty? status.url with
    | some url => return .settled url
    | none => throw (.noVideo id)
  | .failed => throw (.renderFailed id ((nonEmpty? status.error).getD "unknown error"))
  | state => return .pending (some state)

/-- Waits until a render is done and gives the address of the video. -/
def awaitRender (a : Workshop σ) (id : String) : Step σ String :=
  await a.settings.pollInterval a.settings.renderTimeout (.renderLate id a.settings.renderTimeout)
    (lookAtRender a id) none

/-! ## Uploads -/

/-- The distinct media paths of references, in the order of their first references. -/
def distinctRaws (refs : List Reference) : List String := (grouped refs).map (·.1)

/-- Uploads the `index`th of `total` files. -/
def upload (a : Workshop σ) (shelf : Shelf) (total index : Nat) (raw : String) :
    Step σ Upload := do
  let some path := shelf.resolve? a.here.disk raw
    | throw (.missingMedia raw ((shelf.candidates raw).head?.getD ""))
  tell (.uploading index total path)
  let target ← ask a .reserveUpload
  let () ← ask a (.sendFile target path)
  let url ← awaitSource a target.id path
  tell (.uploaded path url)
  return ⟨raw, path, url⟩

/-- Uploads files one after the other; `index` is the number of the first. -/
def uploadEach (a : Workshop σ) (shelf : Shelf) (total : Nat) :
    Nat → List String → Step σ (List Upload)
  | _, [] => return []
  | index, raw :: rest => do
    let first ← upload a shelf total index raw
    let others ← uploadEach a shelf total (index + 1) rest
    return first :: others

/-! ## The whole -/

/-- What an assembly is asked to do. -/
structure Order where
  script : String
  /-- The file for the video, or a directory for it. -/
  output : Option String
  skipChecks : Bool

/-- What an assembly has made. -/
structure Outcome where
  render : String
  path : String
  url : String
  bytes : Nat
  uploads : List Upload
  /-- The report on the script, if it was checked. -/
  report : Option Report

/-- Checks a script, unless the order or the settings say otherwise. -/
def checkStep (a : Workshop σ) (order : Order) (text baseDir : String) :
    Step σ (Option Report) := do
  if order.skipChecks || a.check.skipChecks then
    tell .validationSkipped
    return none
  else
    let report ← orStop .unchecked (checkText a.here a.check text baseDir)
    if report.passed then
      tell (.validated (report.count .warning))
      return some report
    else throw (.failedCheck report)

/-- The document that a text writes. -/
def readDocument (text : String) : Except ScriptProblem Document := do
  let value ← (parse text).mapError .malformed
  match Document.ofJson? value with
  | some doc => return doc
  | none => throw .notObject

/-- Renders a document whose script stands in a directory and saves the video. -/
def renderStep (a : Workshop σ) (order : Order) (doc : Document) (baseDir : String)
    (report : Option Report) : Step σ Outcome := do
  let refs := references doc
  let raws := distinctRaws refs
  let uploads ← uploadEach a (shelfOf a.check baseDir doc) raws.length 1 raws
  let edit ← orStop (fun part => .invalidScript (.missing part)) (edit doc refs uploads)
  let id ← ask a (.submit edit)
  tell (.submitted id)
  let url ← awaitRender a id
  let path := destination a.here.disk doc order.script baseDir order.output
  tell (.downloading url)
  let bytes ← ask a (.download url path)
  tell (.finished path bytes)
  return ⟨id, path, url, bytes, uploads, report⟩

/-- Assembles the video of a script. -/
def assemble (a : Workshop σ) (order : Order) : Step σ Outcome := do
  let text ← orStop (.unreadable order.script) (a.here.disk.readText order.script)
  let baseDir := scriptDirectory a.here.workingDirectory order.script
  let report ← checkStep a order text baseDir
  let doc ← orStop .invalidScript (readDocument text)
  renderStep a order doc baseDir report

/-- The result of an assembly, with what it did. -/
def run (a : Workshop σ) (order : Order) (service : σ) :
    Except AssemblyError Outcome × Progress σ :=
  (assemble a order).run.run (.start service)

end

end VideoScript.Assembly
