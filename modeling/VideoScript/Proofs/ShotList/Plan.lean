import VideoScript.ShotList.Conversion

/-!
# The plan of a shot list

A `Plan` is what a shot list asks for, whatever shape its document will have: the shots of the rows
that give one, and what the headers say. A row is read on its own: nothing of it depends on the
other rows. `Plan.convert` makes a conversion from a plan as a whole, in either shape; the shapes
differ in `Mode.source` and in `Plan.document` alone.
-/

set_option autoImplicit false

namespace VideoScript.ShotList

open Text Json

/-! ## Rows and shots -/

/-- A row of the table with the number of its line. -/
structure Row where
  line : Nat
  cells : List String
  deriving DecidableEq, Repr

/-- The row in a line of the table, when there is one. -/
def row? (line : Nat) (s : List Char) : Option Row :=
  let s := trimChars s
  if isTableHead s || !startsWith ['|'] s then none
  else
    let cells := cellsOf s
    if cells.all isRuleCell then none else some ⟨line, cells.map .ofList⟩

/-- The rows of a text, in order. -/
def rows (text : List Char) : List Row :=
  ((numberedLines text).dropWhile fun l => !isTableHead (trimChars l.2)).filterMap
    fun l => row? l.1 l.2

/-- What a row asks for: a media file, and how it is shown. Cells that name a value of the
vocabulary are kept as they stand. -/
structure Shot where
  resource : String
  isVideo : Bool
  length : Float
  trim : Option Float
  volume : Option Float
  transitionIn : String
  transitionOut : String
  effect : String
  filter : String

/-- The shot of a row's cells. The first cell is a number for readers; cells after the ninth are
notes. -/
def readShot (cells : List String) : Except SkipReason Shot :=
  match cells with
  | _ :: resource :: trim :: length :: transitionIn :: effect :: filter :: transitionOut :: volume
      :: _ => do
    if resource.isEmpty then throw .emptyResource
    let seconds ← readDuration length
    if seconds ≤ 0.0 then throw (.lengthNotPositive length)
    let isVideo := isVideoFile resource
    let trim ← readTrim isVideo trim
    let volume ← readVolume volume
    return ⟨resource, isVideo, seconds, trim, volume, transitionIn, transitionOut, effect, filter⟩
  | _ => .error (.tooFewCells cells.length)

/-- A row's shot with the number of its line. -/
structure PlacedShot where
  line : Nat
  shot : Shot

/-- The music under a video. -/
structure Soundtrack where
  resource : String
  volume : Option Float

/-- What a shot list asks for. -/
structure Plan where
  name : String
  resourcesDir : String
  shots : List PlacedShot
  skipped : List UnusedRow
  soundtrack : Option Soundtrack
  background : Option String
  format : String
  resolution : Option String
  aspectRatio : Option Header
  rate : Option Nat
  capture : Option Nat

/-! ## Reading a plan -/

/-- The music that the headers ask for. -/
def readSoundtrack (hs : List Header) : Except HeaderError (Option Soundtrack) :=
  match headerValue? hs "soundtrack" with
  | none => .ok none
  | some resource => do
    let volume ← numberOfHeader hs "soundtrack_volume" Decimal.readFloat?
    return some ⟨resource, volume⟩

/-- The shots of rows, and the rows that give none. -/
def readRows (rows : List Row) : List PlacedShot × List UnusedRow :=
  (rows.filterMap fun r => match readShot r.cells with
    | .ok shot => some ⟨r.line, shot⟩
    | .error _ => none,
   rows.filterMap fun r => match readShot r.cells with
    | .ok _ => none
    | .error reason => some ⟨r.line, reason⟩)

/-- The plan that a text writes. -/
def readPlan (text : List Char) : Except HeaderError Plan := do
  let hs := headers text
  let missing := requiredHeaders.filter fun key => (headerValue? hs key).isNone
  let some name := headerValue? hs "name" | throw (.missingHeaders missing)
  let some resourcesDir := headerValue? hs "resources_dir" | throw (.missingHeaders missing)
  let (shots, skipped) := readRows (rows text)
  let soundtrack ← readSoundtrack hs
  let rate ← numberOfHeader hs "fps" (natural? maxHeaderNumber)
  let capture ← numberOfHeader hs "thumbnail_capture" (natural? maxHeaderNumber)
  return {
    name, resourcesDir, shots, skipped, soundtrack, rate, capture
    background := headerValue? hs "background"
    format := (headerValue? hs "output_format").getD "mp4"
    resolution := headerValue? hs "resolution"
    aspectRatio := aspectHeader? hs
  }

/-! ## Making a document -/

/-- A member with the accepted spelling of a cell, if it has one. -/
def vocabularyMember (key : String) (kind : Vocabulary) (cell : String) : Members :=
  memberIf key ((kind.canonical? cell).map .string)

/-- The asset of a shot. -/
def Shot.asset (shot : Shot) (mode : Mode) (dir : String) : Json :=
  .object <|
    [("type", .string (if shot.isVideo then "video" else "image")),
     ("src", .string (mode.source (mediaPath dir shot.resource)))]
    ++ memberIf "trim" (shot.trim.map seconds) ++ memberIf "volume" (shot.volume.map seconds)

/-- The transitions of a shot that the service knows. -/
def Shot.transition (shot : Shot) : Members :=
  vocabularyMember "in" .transition shot.transitionIn
  ++ vocabularyMember "out" .transition shot.transitionOut

/-- The clip of a shot. -/
def Shot.clip (shot : Shot) (mode : Mode) (dir : String) : Json :=
  .object <|
    [("asset", shot.asset mode dir), ("start", .string "auto"), ("length", seconds shot.length)]
    ++ (if shot.transition.isEmpty then [] else [("transition", .object shot.transition)])
    ++ vocabularyMember "effect" .effect shot.effect
    ++ vocabularyMember "filter" .filter shot.filter

/-- The music in a document. -/
def Soundtrack.json (s : Soundtrack) (mode : Mode) (dir : String) : Json :=
  .object <|
    [("src", .string (mode.source (mediaPath dir s.resource))), ("effect", .string "fadeIn")]
    ++ memberIf "volume" (s.volume.map seconds)

/-- A value that the service does not know, for a cell that is neither empty nor accepted. -/
def unknownValue (line : Nat) (kind : Vocabulary) (cell : String) : List UnknownValue :=
  if cell.isEmpty || (kind.canonical? cell).isSome then [] else [⟨line, kind, cell⟩]

/-- The values of a shot that the service does not know. -/
def PlacedShot.dropped (p : PlacedShot) : List UnknownValue :=
  unknownValue p.line .transition p.shot.transitionIn
  ++ unknownValue p.line .transition p.shot.transitionOut
  ++ unknownValue p.line .effect p.shot.effect
  ++ unknownValue p.line .filter p.shot.filter

/-- The aspect ratio of a header, when the service knows it. -/
def acceptedAspect (header : Option Header) : Option String :=
  header.bind fun h => if Vocabulary.aspectRatio.accepts h.value then some h.value else none

/-- The aspect ratio of a header, when the service does not know it. -/
def unknownAspect (header : Option Header) : List UnknownValue :=
  match header with
  | some h =>
    if Vocabulary.aspectRatio.accepts h.value then [] else [⟨h.line, .aspectRatio, h.value⟩]
  | none => []

/-- Media files with one more, if it is a new one. -/
def noted (media : List String) (path : String) : List String :=
  if media.contains path then media else media ++ [path]

namespace Plan

/-- The media files of a plan: those of the shots in order, then the music. -/
def mediaFiles (plan : Plan) : List String :=
  (plan.shots.map fun p => mediaPath plan.resourcesDir p.shot.resource)
  ++ (plan.soundtrack.map fun s => mediaPath plan.resourcesDir s.resource).toList

/-- The distinct media files of a plan, in the order of their first use. -/
def distinctMedia (plan : Plan) : List String :=
  plan.mediaFiles.foldl noted []

/-- The timeline. -/
def timeline (plan : Plan) (mode : Mode) : Json :=
  .object <|
    memberIf "soundtrack" (plan.soundtrack.map (·.json mode plan.resourcesDir))
    ++ memberIf "background" (plan.background.map .string)
    ++ [("tracks", .array [.object
        [("clips", .array (plan.shots.map fun p => p.shot.clip mode plan.resourcesDir))]])]

/-- The aspect ratio, when the service knows it. -/
def knownAspect (plan : Plan) : Option String := acceptedAspect plan.aspectRatio

/-- The output settings. -/
def output (plan : Plan) : Json :=
  .object <|
    [("format", .string plan.format)]
    ++ memberIf "resolution" (plan.resolution.map .string)
    ++ memberIf "aspectRatio" (plan.knownAspect.map .string)
    ++ memberIf "fps" (plan.rate.map .ofNat)
    ++ memberIf "thumbnail" (plan.capture.map fun n => .object [("capture", .ofNat n)])

/-- The merge array of a template: an entry for each media file, to be filled in. -/
def merge (plan : Plan) : Json :=
  .array (plan.distinctMedia.map openEntry)

/-- The document of a plan. -/
def document (plan : Plan) (mode : Mode) : Json :=
  let head : Members :=
    [("name", .string plan.name), ("resourcesDir", .string plan.resourcesDir)]
  match mode with
  | .template =>
    .object (head ++ [("template", .object [("timeline", plan.timeline mode)]),
      ("output", plan.output), ("merge", plan.merge)])
  | .legacy => .object (head ++ [("timeline", plan.timeline mode), ("output", plan.output)])

/-- The values of a plan that the service does not know: those of the shots in order, then the
aspect ratio. -/
def dropped (plan : Plan) : List UnknownValue :=
  plan.shots.flatMap PlacedShot.dropped ++ unknownAspect plan.aspectRatio

/-- The conversion of a plan. -/
def convert (plan : Plan) (mode : Mode) : Conversion where
  document := plan.document mode
  name := plan.name
  resourcesDir := plan.resourcesDir
  clips := plan.shots.length
  skipped := plan.skipped
  dropped := plan.dropped

end Plan

end VideoScript.ShotList
