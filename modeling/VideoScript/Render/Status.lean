import VideoScript.Calendar.Instant
import VideoScript.Json.Record

/-!
# The state of a render

The service tells the state of a render in a record. A state that is not known here is not an error:
it counts as one in which the render is still under way.
-/

set_option autoImplicit false

namespace VideoScript.Render

open Json

/-- How far a render has come. -/
inductive State where
  | queued
  | fetching
  | rendering
  | saving
  | done
  | failed
  | unknown
  deriving DecidableEq, Repr

/-- The name of a state. -/
def State.name : State → String
  | .queued => "queued"
  | .fetching => "fetching"
  | .rendering => "rendering"
  | .saving => "saving"
  | .done => "done"
  | .failed => "failed"
  | .unknown => "unknown"

/-- The state with a name. -/
def State.ofName : String → State
  | "queued" => .queued
  | "fetching" => .fetching
  | "rendering" => .rendering
  | "saving" => .saving
  | "done" => .done
  | "failed" => .failed
  | _ => .unknown

/-- Whether nothing comes after a state. -/
def State.isFinal : State → Bool
  | .done => true
  | .failed => true
  | _ => false

/-- What the service tells about a render. -/
structure Status where
  id : String
  state : State
  /-- Where the video is, once it is done. -/
  url : Option String
  /-- Why the render failed. -/
  error : Option String
  created : Option Calendar.Instant
  updated : Option Calendar.Instant
  deriving DecidableEq, Repr

namespace Status

/-- Reads a point in time. -/
def instantDecoder : Decoder Calendar.Instant :=
  stringDecoder "an RFC 3339 formatted date and time string" fun text =>
    (Calendar.readInstant text.toList).mapError fun e => .refused e.message

/-- Reads a state. -/
def stateDecoder : Decoder State := choiceDecoder fun name => .ok (.ofName name)

/-- The status before any member is read. -/
def blank : Status := ⟨"", .unknown, none, none, none, none⟩

/-- A member of the record. -/
def member {α : Type} (name : String) (presence : Presence) (read : Decoder α)
    (set : α → Status → Status) : Member Status :=
  ⟨name, presence, fun depth s => (read depth s).map fun (a, rest) => (set a, rest)⟩

/-- The record form. Only the name of the render and its state must be there. -/
def shape : RecordShape Status where
  name := "RenderStatus"
  blank := blank
  members :=
    [member "id" .required (textDecoder "a string") fun id s => { s with id := id },
     member "status" .required stateDecoder fun state s => { s with state := state },
     member "url" .optional (optionDecoder (textDecoder "a string")) fun url s =>
       { s with url := url },
     member "error" .optional (optionDecoder (textDecoder "a string")) fun error s =>
       { s with error := error },
     member "created" .optional (optionDecoder instantDecoder) fun t s => { s with created := t },
     member "updated" .optional (optionDecoder instantDecoder) fun t s => { s with updated := t }]

/-- Reads a status. -/
def decoder : Decoder Status := recordDecoder shape

/-- The status that a text writes. -/
def decode (text : String) : Except ReadError Status := Json.decode decoder text

end Status

end VideoScript.Render
