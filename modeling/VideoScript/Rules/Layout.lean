import VideoScript.Finding
import VideoScript.Placeholder.Scan

/-!
# The layout of a document

A document needs a timeline with at least one track, clips with the parts that a render needs, and
output settings with a format. Each part that is missing or has the wrong type gives one error at
its own path. A value with a placeholder in it is not judged here: what stands there is known only
once the placeholder has been replaced.
-/

set_option autoImplicit false

namespace VideoScript.Rules

open Json Placeholder

/-- An error about the layout. -/
def layoutError (path : Path) (message : String) : Finding :=
  .error .structural path.shown message

/-- The error for a part that is not there. -/
def missing (path : Path) (name : String) : Finding :=
  layoutError path ("Missing required field: '" ++ name ++ "'")

/-- Whether a value is a string with a placeholder, which has its value only later. -/
def isDeferred (value : Json) : Bool :=
  match value with
  | .string s => containsToken s.toList
  | _ => false

/-- The member with a key, unless its value has a placeholder. -/
def settled? (members : Members) (key : String) : Option Json :=
  match members.get? key with
  | some value => if isDeferred value then none else some value
  | none => none

/-- A member that must be a text with more than blanks in it. -/
def textFindings (members : Members) (path : Path) (key : String) : List Finding :=
  match members.get? key with
  | none => [missing (path.key key) key]
  | some (.string s) =>
    if Text.isBlankText s then [layoutError (path.key key) (key ++ " must not be empty")] else []
  | some _ => [layoutError (path.key key) (key ++ " must be a string")]

/-- The type of an asset, when it is a string. -/
def assetType? (asset : Members) : Option String := (asset.get? "type").bind text?

/-- The member that an asset of a type must have. -/
def contentKey? (type : String) : Option String :=
  if ["video", "image", "audio"].contains type then some "src"
  else if ["text", "title"].contains type then some "text"
  else none

/-- What is wrong with the type of an asset. -/
def typeFindings (asset : Members) (path : Path) : List Finding :=
  match asset.get? "type" with
  | none => [missing (path.key "type") "type"]
  | some (.string _) => []
  | some _ => [layoutError (path.key "type") "asset type must be a string"]

/-- What is wrong with the content of an asset. -/
def contentFindings (asset : Members) (path : Path) : List Finding :=
  match (assetType? asset).bind contentKey? with
  | some key => textFindings asset path key
  | none => []

/-- What is wrong with the volume of an asset. -/
def volumeFindings (asset : Members) (path : Path) : List Finding :=
  match settled? asset "volume" with
  | none => []
  | some value =>
    match value.float? with
    | some v =>
      if 0.0 ≤ v && v ≤ 1.0 then []
      else [layoutError (path.key "volume") "volume must be between 0 and 1"]
    | none => [layoutError (path.key "volume") "volume must be a number"]

/-- What is wrong with the trim of an asset. -/
def trimFindings (asset : Members) (path : Path) : List Finding :=
  match settled? asset "trim" with
  | none => []
  | some value =>
    match value.float? with
    | some t =>
      if 0.0 ≤ t then [] else [layoutError (path.key "trim") "trim must not be negative"]
    | none => [layoutError (path.key "trim") "trim must be a number"]

/-- What is wrong inside an asset. -/
def assetFindings (asset : Members) (path : Path) : List Finding :=
  typeFindings asset path ++ contentFindings asset path ++ volumeFindings asset path
    ++ trimFindings asset path

/-- What is wrong with the start of a clip. -/
def startFindings (clip : Members) (path : Path) : List Finding :=
  match clip.get? "start" with
  | none => [missing (path.key "start") "start"]
  | some value =>
    let fits := match value with
      | .string s => s = "auto" || isDeferred value
      | _ => match value.float? with
        | some x => decide (0.0 ≤ x)
        | none => false
    if fits then []
    else [layoutError (path.key "start") "start must be a non-negative number or \"auto\""]

/-- What is wrong with the length of a clip. -/
def lengthFindings (clip : Members) (path : Path) : List Finding :=
  match clip.get? "length" with
  | none => [missing (path.key "length") "length"]
  | some value =>
    match value with
    | .string s =>
      if s = "auto" then
        [(layoutError (path.key "length")
          "length must be a number, \"auto\" is not supported").suggest
          "give the clip length in seconds"]
      else if isDeferred value then []
      else [layoutError (path.key "length") "length must be a number"]
    | .number n =>
      if 0.0 < n.toFloat then [] else [layoutError (path.key "length") "length must be positive"]
    | _ => [layoutError (path.key "length") "length must be a number"]

/-- What is wrong inside a clip. -/
def clipFindings (clip : Members) (path : Path) : List Finding :=
  (match clip.get? "asset" with
    | none => [missing (path.key "asset") "asset"]
    | some (.object asset) => assetFindings asset (path.key "asset")
    | some _ => [layoutError (path.key "asset") "asset must be an object"])
  ++ startFindings clip path ++ lengthFindings clip path

/-- What is wrong with an item of an array of clips. -/
def clipItemFindings (path : Path) (clip : Json) : List Finding :=
  match clip with
  | .object members => clipFindings members path
  | _ => [layoutError path "clip must be an object"]

/-- What is wrong with a track. -/
def trackFindings (path : Path) (track : Json) : List Finding :=
  match track with
  | .object _ =>
    let clipsPath := path.key "clips"
    match track.get? "clips" with
    | none => [missing clipsPath "clips"]
    | some (.array clips) =>
      clips.zipIdx.flatMap fun (clip, i) => clipItemFindings (clipsPath.index i) clip
    | some _ => [layoutError clipsPath "clips must be an array"]
  | _ => [layoutError path "track must be an object"]

/-- What is wrong with the timeline. -/
def timelineFindings (path : Path) (timeline : Json) : List Finding :=
  match timeline with
  | .object _ =>
    let tracksPath := path.key "tracks"
    match timeline.get? "tracks" with
    | none => [missing tracksPath "tracks"]
    | some (.array tracks) =>
      (if tracks.isEmpty then [layoutError tracksPath "tracks must contain at least one track"]
        else [])
      ++ tracks.zipIdx.flatMap fun (track, i) => trackFindings (tracksPath.index i) track
    | some _ => [layoutError tracksPath "tracks must be an array"]
  | _ => [layoutError path "timeline must be an object"]

/-- What is wrong with the output format. -/
def fileTypeFindings (output : Members) (path : Path) : List Finding :=
  match output.get? "format" with
  | none => [missing (path.key "format") "format"]
  | some (.string _) => []
  | some _ => [layoutError (path.key "format") "output format must be a string"]

/-- What is wrong with the frame rate. -/
def rateFindings (output : Members) (path : Path) : List Finding :=
  match settled? output "fps" with
  | none => []
  | some value =>
    let fits := match value.float? with
      | some x => decide (0.0 < x)
      | none => false
    if fits then [] else [layoutError (path.key "fps") "Output fps must be a positive number"]

/-- What is wrong with the output settings. -/
def outputFindings (path : Path) (output : Json) : List Finding :=
  match output with
  | .object members => fileTypeFindings members path ++ rateFindings members path
  | _ => [layoutError path "output must be an object"]

/-- What is wrong with the template and the timeline. -/
def bodyFindings (doc : Document) : List Finding :=
  match doc.shape, doc.template? with
  | .template, none => [layoutError (Path.root.key "template") "template must be an object"]
  | _, _ =>
    match doc.timeline? with
    | some timeline => timelineFindings doc.timelinePath timeline
    | none => [missing doc.timelinePath "timeline"]

/-- The findings about the layout of a document. -/
def layout (doc : Document) : List Finding :=
  bodyFindings doc
  ++ match doc.output? with
    | some output => outputFindings output.path output.value
    | none => [missing (Path.root.key "output") "output"]

end VideoScript.Rules
