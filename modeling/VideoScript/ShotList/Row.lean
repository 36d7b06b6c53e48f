import VideoScript.Disk.Path
import VideoScript.ShotList.Header
import VideoScript.ShotList.Time
import VideoScript.Vocabulary

/-!
# Rows of a shot list

The table of a shot list starts at a line that begins with `| #`. Each further line that begins with
a bar and is no rule of dashes is a row. Its cells name a media file and say how it is shown.
-/

set_option autoImplicit false

namespace VideoScript.ShotList

open Text

/-- Whether a line without blanks at its ends is a head of the table. -/
def isTableHead (s : List Char) : Bool := startsWith "| #".toList s || startsWith "|#".toList s

/-- Whether a cell is part of a rule between rows: dashes, with at most one colon on each side. -/
def isRuleCell (cell : List Char) : Bool :=
  let inner := match cell with
    | ':' :: rest => rest
    | _ => cell
  let dashes := inner.takeWhile (· = '-')
  let rest := inner.dropWhile (· = '-')
  !dashes.isEmpty && (rest = [] || rest = [':'])

/-- The cells of a row: what stands between its bars, without blanks. All bars at the start and one
at the end are the frame of the table. -/
def cellsOf (s : List Char) : List (List Char) :=
  let inner := (trimChars s).dropWhile (· = '|')
  let inner := (dropEnd? ['|'] inner).getD inner
  (splitAt '|' inner).map trimChars

/-- The number of cells that a row needs. -/
def leastCells : Nat := 9

/-- Why a row gives no clip. -/
inductive SkipReason where
  | tooFewCells (found : Nat)
  | emptyResource
  | invalidDuration (text : String)
  | lengthNotPositive (text : String)
  | invalidTime (text : String)
  | invalidVolume (text : String)
  deriving DecidableEq, Repr

/-- The wording of a reason. -/
def SkipReason.message : SkipReason → String
  | .tooFewCells found => s!"expected at least {leastCells} cells, found {found}"
  | .emptyResource => "empty resource"
  | .invalidDuration text => s!"invalid duration '{text}'"
  | .lengthNotPositive text => s!"duration must be positive, got '{text}'"
  | .invalidTime text => s!"Invalid time format: {text}. Use MM:SS or HH:MM:SS"
  | .invalidVolume text => s!"invalid volume '{text}'"

/-- The duration that a text writes. -/
def readDuration (text : String) : Except SkipReason Float :=
  match duration? text.toList with
  | some x => .ok x
  | none => .error (.invalidDuration (lowerCase (Text.trim text)))

/-- The time that a text writes. -/
def readTime (text : String) : Except SkipReason Float :=
  match time? text.toList with
  | some x => .ok x
  | none => .error (.invalidTime text)

/-- The extensions of video files. -/
def playableExtensions : List String := ["mp4", "avi", "mov", "mkv"]

/-- Whether a media file is a video. -/
def isVideoFile (resource : String) : Bool :=
  match Disk.extension? resource with
  | some e => playableExtensions.any (sameIgnoringCase e)
  | none => false

/-- The trim of a clip. Only videos are trimmed, and an empty cell trims nothing. -/
def readTrim (isVideo : Bool) (cell : String) : Except SkipReason (Option Float) :=
  if cell.isEmpty || !isVideo then .ok none else (readTime cell).map some

/-- The volume of a clip. An empty cell leaves it open. -/
def readVolume (cell : String) : Except SkipReason (Option Float) :=
  if cell.isEmpty then .ok none
  else match Decimal.readFloat? cell.toList with
    | some v => .ok (some v)
    | none => .error (.invalidVolume cell)

end VideoScript.ShotList
