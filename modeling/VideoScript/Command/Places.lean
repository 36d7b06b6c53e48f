import VideoScript.Command.Run

/-!
# The places that a command needs

A command reads a few files and looks whether others are there. `filesRead` names the first, which
follow from the command alone; `placesSeen` names the second, for a machine that holds the first.
-/

set_option autoImplicit false

namespace VideoScript.Command

open Disk

/-- The places where the settings for a script may stand. -/
def settingsPlaces (workingDirectory : String) (config : Option String) (script : String) :
    List String :=
  match config with
  | some path => [path]
  | none => Options.filePlaces (scriptDirectory workingDirectory script)

/-- The files that a command reads, as far as they are there. -/
def filesRead (workingDirectory : String) : Command → List String
  | .check c => c.script :: settingsPlaces workingDirectory c.config c.script
  | .convert c => [c.input]
  | .assemble c => c.script :: settingsPlaces workingDirectory c.config c.script

section

variable {ν : Type}

/-- The places where the media files of a script are looked for. -/
def mediaPlaces (m : Machine ν) (settings : CheckSettings) (script : String) : List String :=
  match m.tree.disk.readText script with
  | .error _ => []
  | .ok text =>
    match Assembly.readDocument text with
    | .error _ => []
    | .ok doc =>
      let shelf := shelfOf settings (scriptDirectory m.tree.workingDirectory script) doc
      (Media.references doc).flatMap fun r => shelf.candidates r.raw

/-- The places that a command looks at. -/
def placesSeen [Web.UrlReader] (m : Machine ν) : Command → List String
  | .check c =>
    match optionsFor m c.config c.script with
    | .ok o => mediaPlaces m (c.settings m.tree.workingDirectory o.checkSettings) c.script
    | .error _ => []
  | .convert c => ((parent? (c.output.getD c.input)).filter fun dir => !dir.isEmpty).toList
  | .assemble c =>
    match optionsFor m c.config c.script with
    | .ok o => c.output.toList ++ mediaPlaces m o.checkSettings c.script
    | .error _ => []

end

end VideoScript.Command
