import VideoScript.Disk.Basic
import VideoScript.Json.Basic
import VideoScript.Render.Status

/-!
# The render service

A `Service` answers six kinds of calls. What it answers, and how long that takes, may depend on
everything that has happened to it, which its state of type `σ` holds. Nothing is assumed about the
answers: a `Service` may be the real one behind a network, or a list of answers prepared beforehand,
which takes no time.
-/

set_option autoImplicit false

namespace VideoScript.Render

/-- Why a call fails. `last` tells that the call will not be tried again. -/
inductive ServiceError where
  | http (url : String) (status : Nat) (message : String) (last : Bool)
  | network (url reason : String) (last : Bool)
  | timeout (url : String) (last : Bool)
  /-- The answer is not of the form that it should have. -/
  | unexpected (url message : String)
  /-- The service understood the request and refuses it. -/
  | rejected (url message : String)
  | disk (path : String) (failure : Disk.Failure)
  | setup (reason : String)
  deriving DecidableEq, Repr

namespace ServiceError

/-- The wording of an error. -/
def message : ServiceError → String
  | http url status message _ => s!"HTTP error {status} from {url}: {message}"
  | network url reason _ => s!"Network error calling {url}: {reason}"
  | timeout url _ => s!"Timeout calling {url}"
  | unexpected url message => s!"Unexpected response from {url}: {message}"
  | rejected url message => s!"Request to {url} rejected: {message}"
  | disk path failure => s!"cannot access {path}: {failure.message}"
  | setup reason => s!"HTTP client setup failed: {reason}"

/-- Whether the call will not be tried again. -/
def isLast : ServiceError → Bool
  | http _ _ _ last => last
  | network _ _ last => last
  | timeout _ last => last
  | _ => true

/-- The HTTP status of an answer that is an error. -/
def status? : ServiceError → Option Nat
  | http _ status _ _ => some status
  | _ => none

end ServiceError

/-- Where a media file is to be put. -/
structure UploadSlot where
  /-- The name under which the service will tell the state of the file. -/
  id : String
  /-- The address that takes the file once. -/
  url : String
  deriving DecidableEq, Repr

/-- The state of a media file that was put. -/
inductive SourceState where
  | ready (url : String)
  | failed
  /-- The service is at work on it and says how far it is. -/
  | pending (word : String)
  deriving DecidableEq, Repr

/-- A call to the service. -/
inductive Call where
  | reserveUpload
  | sendFile (target : UploadSlot) (path : String)
  | sourceState (id : String)
  | submit (edit : Json)
  | renderState (id : String)
  | download (url path : String)

/-- What a call gives when it succeeds: a download the number of bytes, a submitted edit the name of
its render. -/
def Call.Answer : Call → Type
  | reserveUpload => UploadSlot
  | sendFile _ _ => Unit
  | sourceState _ => SourceState
  | submit _ => String
  | renderState _ => Status
  | download _ _ => Nat

/-- A service whose state is a `σ`. -/
structure Service (σ : Type) where
  answer : (call : Call) → σ → Except ServiceError call.Answer × σ
  /-- How long an answer takes, in milliseconds. -/
  duration : Call → σ → Nat := fun _ _ => 0

end VideoScript.Render
