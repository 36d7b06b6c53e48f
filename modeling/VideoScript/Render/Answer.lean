import VideoScript.Json.Parser
import VideoScript.Json.Record
import VideoScript.Render.Service
import VideoScript.Text.Utf8
import VideoScript.Web.Library

/-!
# What the service writes

The service answers in records. About a media file it writes a record with the name of the file and
attributes; about a render it writes whether it did what was asked, a message, and what was asked
for. What was asked for may be missing when it was not done.
-/

set_option autoImplicit false

namespace VideoScript.Render

open Json

/-- A member of a record that is read and put in its place. -/
def place {σ α : Type} (name : String) (presence : Presence) (read : Decoder α)
    (set : α → σ → σ) : Member σ :=
  ⟨name, presence, fun depth s => (read depth s).map fun (a, rest) => (set a, rest)⟩

/-- Reads a text that may be null. -/
def optionalText : Decoder (Option String) := optionDecoder (textDecoder "a string")

/-! ## Media files -/

/-- The record of a media file with its attributes. -/
structure SourceRecord (α : Type) where
  id : String
  attributes : α

/-- Reads the record of a media file. -/
def sourceDecoder {α : Type} (blank : α) (attributes : Decoder α) : Decoder (SourceRecord α) :=
  recordDecoder {
    name := "IngestEnvelope"
    blank := ⟨"", blank⟩
    members := [place "data" .required
      (recordDecoder {
        name := "IngestData"
        blank := ⟨"", blank⟩
        members :=
          [place "id" .required (textDecoder "a string") fun id r => { r with id := id },
           place "attributes" .required attributes fun a r => { r with attributes := a }] })
      fun data _ => data] }

/-- Reads the address that takes a media file. -/
def uploadUrlDecoder : Decoder String :=
  recordDecoder {
    name := "UploadAttributes"
    blank := ""
    members := [place "url" .required (textDecoder "a string") fun url _ => url] }

/-- What the service tells about a media file: a word for its state and its address. -/
structure SourceFields where
  word : Option String
  url : Option String
  deriving DecidableEq, Repr

/-- Reads what the service tells about a media file. -/
def sourceFieldsDecoder : Decoder SourceFields :=
  recordDecoder {
    name := "SourceAttributes"
    blank := ⟨none, none⟩
    members :=
      [place "status" .optional optionalText fun word a => { a with word := word },
       place "source" .optional optionalText fun url a => { a with url := url }] }

/-- The state of a media file; none when it is ready but has no address. -/
def SourceFields.state? (a : SourceFields) : Option SourceState :=
  match a.word with
  | some "ready" => a.url.map .ready
  | some "failed" => some .failed
  | word => some (.pending (word.getD "unknown"))

/-! ## Renders -/

/-- The record of an answer about a render. -/
structure EditRecord (α : Type) where
  success : Bool
  message : Option String
  response : Option α

/-- Reads an answer about a render. -/
def editDecoder {α : Type} (response : Decoder α) : Decoder (EditRecord α) :=
  recordDecoder {
    name := "EditEnvelope"
    blank := ⟨false, none, none⟩
    members :=
      [place "success" .optional boolDecoder fun b r => { r with success := b },
       place "message" .optional optionalText fun message r => { r with message := message },
       place "response" .optionalByName (optionDecoder response) fun a r =>
         { r with response := a }] }

/-- Reads the name of a render that was submitted. -/
def queuedDecoder : Decoder String :=
  recordDecoder {
    name := "Queued"
    blank := ""
    members := [place "id" .required (textDecoder "a string") fun id _ => id] }

/-- What was asked for, or why it is not there. -/
def EditRecord.content {α : Type} (r : EditRecord α) (url : String) : Except ServiceError α :=
  let message := r.message.getD "Unknown error"
  if r.success then
    match r.response with
    | some a => .ok a
    | none => .error (.unexpected url s!"missing response body ({message})")
  else .error (.rejected url message)

/-! ## Bodies -/

/-- What the body of an answer from an address writes. -/
def readBody [Web.Library] {α : Type} (decoder : Decoder α) (url : String) (body : ByteArray) :
    Except ServiceError α :=
  match Text.decode? body with
  | some text => (decode decoder text).mapError fun e => .unexpected url e.message
  | none => (Web.Library.readBytes decoder body).mapError fun why => .unexpected url why

/-- The message that the body of an error writes under `message`, or the words for its status. -/
def errorMessage (status : String) (body : ByteArray) : String :=
  match parse (Text.decodeLossy body) with
  | .ok value => ((value.get? "message").bind text?).getD status
  | .error _ => status

end VideoScript.Render
