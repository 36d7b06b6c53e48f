import VideoScript.Json.Basic
import VideoScript.ShotList.Row

/-!
# From a shot list to a document

A shot list is a Markdown text with headers and a table. It becomes a document in one of two shapes:
a legacy document with the media files in it, or a template whose sources are placeholders named
after the files, with a merge entry for each file. Rows that give no clip and values that the
service does not know are left out and listed.

The lines are taken one after the other. A `Builder` goes from row to row and notes the media files
and the values that are not known.
-/

set_option autoImplicit false

namespace VideoScript.ShotList

open Text Json

/-- The shape of the document that is made. -/
inductive Mode where
  | legacy
  | template
  deriving DecidableEq, Repr

/-- Why a text is no shot list. -/
inductive HeaderError where
  | missingHeaders (keys : List String)
  | invalidHeader (key value : String)
  deriving DecidableEq, Repr

/-- The wording of an error. -/
def HeaderError.message : HeaderError → String
  | .missingHeaders keys => "Missing required headers: " ++ ", ".intercalate keys
  | .invalidHeader key value => s!"invalid header '{key}: {value}': expected a number"

/-- A row that gives no clip. -/
structure UnusedRow where
  line : Nat
  reason : SkipReason
  deriving DecidableEq, Repr

/-- A value that the service does not know. -/
structure UnknownValue where
  line : Nat
  kind : Vocabulary
  value : String
  deriving DecidableEq, Repr

/-- The result of a conversion. -/
structure Conversion where
  document : Json
  name : String
  resourcesDir : String
  clips : Nat
  skipped : List UnusedRow
  dropped : List UnknownValue

/-! ## Headers -/

/-- The headers that must be there. -/
def requiredHeaders : List String := ["name", "resources_dir"]

/-- The greatest number that a header of whole numbers takes. -/
def maxHeaderNumber : Nat := Nat.pow 2 32 - 1

/-- The value of a header read as a number, for a header that is there. -/
def numberOfHeader {α : Type} (hs : List Header) (key : String) (read : List Char → Option α) :
    Except HeaderError (Option α) :=
  match headerValue? hs key with
  | none => .ok none
  | some value =>
    match read value.toList with
    | some a => .ok (some a)
    | none => .error (.invalidHeader key value)

/-- The aspect ratio that the headers ask for. -/
def aspectHeader? (hs : List Header) : Option Header := do
  let h ← firstHeader? hs "aspect_ratio"
  if h.value.isEmpty then none else some h

/-! ## Sources and members -/

/-- The path of a media file in the directory of the shot list. -/
def mediaPath (dir resource : String) : String :=
  if dir.isEmpty then resource
  else .ofList ((dir.toList.reverse.dropWhile (· = '/')).reverse ++ '/' :: resource.toList)

/-- How a media file stands in a document: as its path, or as a placeholder with that name. -/
def Mode.source (mode : Mode) (path : String) : String :=
  match mode with
  | .legacy => path
  | .template => .ofList ('{' :: '{' :: (path.toList ++ ['}', '}']))

/-- A member, if it has a value. -/
def memberIf (key : String) (value : Option Json) : Members :=
  match value with
  | some v => [(key, v)]
  | none => []

/-! ## Clips -/

/-- What a conversion keeps while it goes through the lines. -/
structure Builder where
  resourcesDir : String
  mode : Mode
  /-- The distinct media files, in the order of their first use. -/
  media : List String
  dropped : List UnknownValue

/-- A part of a conversion. -/
abbrev Build (α : Type) := StateM Builder α

/-- How a media file stands in the document. The file is noted. -/
def sourceOf (resource : String) : Build String := do
  let b ← get
  let path := mediaPath b.resourcesDir resource
  if !b.media.contains path then set { b with media := b.media ++ [path] }
  return b.mode.source path

/-- Notes a value that is not known. -/
def drop (value : UnknownValue) : Build Unit :=
  modify fun b => { b with dropped := b.dropped ++ [value] }

/-- The accepted spelling of a cell, if it has one. A cell that is neither empty nor accepted is
noted. -/
def spelling? (kind : Vocabulary) (line : Nat) (cell : String) : Build (Option String) := do
  if cell.isEmpty then return none
  match kind.canonical? cell with
  | some known => return some known
  | none =>
    drop ⟨line, kind, cell⟩
    return none

/-- The clip of a row's cells. The first cell is a number for readers; cells after the ninth are
notes. -/
def clipOf (line : Nat) (cells : List String) : ExceptT SkipReason (StateM Builder) Json :=
  match cells with
  | _ :: resource :: trim :: duration :: transitionIn :: effect :: filter :: transitionOut :: volume
      :: _ => do
    if resource.isEmpty then throw .emptyResource
    let length ← readDuration duration
    if length ≤ 0.0 then throw (.lengthNotPositive duration)
    let isVideo := isVideoFile resource
    let trim ← readTrim isVideo trim
    let volume ← readVolume volume
    let src ← sourceOf resource
    let asset : Members :=
      [("type", .string (if isVideo then "video" else "image")), ("src", .string src)]
      ++ memberIf "trim" (trim.map seconds) ++ memberIf "volume" (volume.map seconds)
    let first ← spelling? .transition line transitionIn
    let last ← spelling? .transition line transitionOut
    let transition := memberIf "in" (first.map .string) ++ memberIf "out" (last.map .string)
    let effect ← spelling? .effect line effect
    let filter ← spelling? .filter line filter
    return .object <|
      [("asset", .object asset), ("start", .string "auto"), ("length", seconds length)]
      ++ (if transition.isEmpty then [] else [("transition", .object transition)])
      ++ memberIf "effect" (effect.map .string) ++ memberIf "filter" (filter.map .string)
  | _ => throw (.tooFewCells cells.length)

/-! ## Lines -/

/-- What the lines so far have given. -/
structure Table where
  builder : Builder
  clips : List Json
  skipped : List UnusedRow
  /-- The head of the table was there. -/
  begun : Bool

namespace Table

/-- Takes the cells of a row. -/
def takeCells (t : Table) (line : Nat) (cells : List String) : Table :=
  match (clipOf line cells).run.run t.builder with
  | (.ok clip, builder) => { t with builder, clips := t.clips ++ [clip] }
  | (.error reason, builder) => { t with builder, skipped := t.skipped ++ [⟨line, reason⟩] }

/-- Takes a line. -/
def takeLine (t : Table) (line : Nat) (s : List Char) : Table :=
  let s := trimChars s
  if isTableHead s then { t with begun := true }
  else if !t.begun || !startsWith ['|'] s then t
  else
    let cells := cellsOf s
    if cells.all isRuleCell then t else t.takeCells line (cells.map .ofList)

/-- Before the first line. -/
def start (mode : Mode) (resourcesDir : String) : Table :=
  ⟨⟨resourcesDir, mode, [], []⟩, [], [], false⟩

/-- What all lines of a text have given. -/
def ofText (mode : Mode) (resourcesDir : String) (text : List Char) : Table :=
  (numberedLines text).foldl (fun t l => t.takeLine l.1 l.2) (start mode resourcesDir)

end Table

/-! ## Documents -/

/-- The music that the headers ask for. Its file is noted after those of the rows. -/
def soundtrackOf (hs : List Header) (b : Builder) : Except HeaderError (Option Json × Builder) :=
  match headerValue? hs "soundtrack" with
  | none => .ok (none, b)
  | some resource => do
    let (src, b) := (sourceOf resource).run b
    let volume ← numberOfHeader hs "soundtrack_volume" Decimal.readFloat?
    return (some (.object ([("src", .string src), ("effect", .string "fadeIn")]
      ++ memberIf "volume" (volume.map seconds))), b)

/-- The timeline. -/
def timelineOf (hs : List Header) (soundtrack : Option Json) (clips : List Json) : Json :=
  .object <|
    memberIf "soundtrack" soundtrack
    ++ memberIf "background" ((headerValue? hs "background").map .string)
    ++ [("tracks", .array [.object [("clips", .array clips)]])]

/-- The aspect ratio that the headers ask for. One that is not known is noted. -/
def aspectOf (hs : List Header) : Build (Option String) := do
  match aspectHeader? hs with
  | none => return none
  | some h =>
    if Vocabulary.aspectRatio.accepts h.value then return some h.value
    drop ⟨h.line, .aspectRatio, h.value⟩
    return none

/-- The output settings. -/
def outputOf (hs : List Header) (aspect : Option String) : Except HeaderError Json := do
  let rate ← numberOfHeader hs "fps" (natural? maxHeaderNumber)
  let capture ← numberOfHeader hs "thumbnail_capture" (natural? maxHeaderNumber)
  return .object <|
    [("format", .string ((headerValue? hs "output_format").getD "mp4"))]
    ++ memberIf "resolution" ((headerValue? hs "resolution").map .string)
    ++ memberIf "aspectRatio" (aspect.map .string)
    ++ memberIf "fps" (rate.map .ofNat)
    ++ memberIf "thumbnail" (capture.map fun n => .object [("capture", .ofNat n)])

/-- An entry of a merge array that is to be filled in. -/
def openEntry (path : String) : Json := .object [("find", .string path), ("replace", .string "")]

/-- The document that is made. A template has an entry for each media file. -/
def Builder.document (b : Builder) (name : String) (timeline output : Json) : Json :=
  let head : Members := [("name", .string name), ("resourcesDir", .string b.resourcesDir)]
  match b.mode with
  | .template =>
    .object (head ++ [("template", .object [("timeline", timeline)]), ("output", output),
      ("merge", .array (b.media.map openEntry))])
  | .legacy => .object (head ++ [("timeline", timeline), ("output", output)])

/-- The document of a shot list, with what was left out of it. -/
def convert (text : String) (mode : Mode) : Except HeaderError Conversion := do
  let text := text.toList
  let hs := headers text
  let missing := requiredHeaders.filter fun key => (headerValue? hs key).isNone
  let some name := headerValue? hs "name" | throw (.missingHeaders missing)
  let some resourcesDir := headerValue? hs "resources_dir" | throw (.missingHeaders missing)
  let table := Table.ofText mode resourcesDir text
  let (soundtrack, builder) ← soundtrackOf hs table.builder
  let (aspect, builder) := (aspectOf hs).run builder
  let output ← outputOf hs aspect
  return {
    document := builder.document name (timelineOf hs soundtrack table.clips) output
    name, resourcesDir
    clips := table.clips.length
    skipped := table.skipped
    dropped := builder.dropped }

end VideoScript.ShotList
