import VideoScript.Disk.Tree
import VideoScript.Render.Answer
import VideoScript.Settings.Service
import VideoScript.Web.Exchange

/-!
# The service behind a network

A question that changes nothing is asked again when it meets a fault of the network or of the
service, after a pause that doubles each time; a request that the service refuses is not. What
changes something is asked once. The key goes with requests to the service itself and with no other.

`Online` holds the network, the files on the disk, and the requests that were made, with the pauses
before them and the hops that they took.
-/

set_option autoImplicit false

namespace VideoScript.Render

open Json Disk Web

/-- A request with the pause before it in milliseconds, and what was sent for it. -/
structure Attempt where
  pause : Nat
  request : Request
  hops : List Hop

/-- How long a request takes, with the pause before it. -/
def Attempt.time (a : Attempt) : Nat :=
  a.hops.foldl (fun time hop => time + hop.response.time) a.pause

/-- The network and the disk, with the requests that were made. -/
structure Online (ν : Type) where
  network : ν
  tree : FileTree
  attempts : List Attempt

/-- A client of the service. -/
structure Client (ν : Type) where
  settings : ServiceSettings
  network : Network ν

/-- A part of a call. -/
abbrev Task (ν α : Type) := ExceptT ServiceError (StateM (Online ν)) α

namespace Client

variable [Library] {ν : Type}

/-! ## Requests -/

/-- Makes a request after a pause. -/
def send (c : Client ν) (pause : Nat) (request : Request) : Task ν Reply := do
  let here ← get
  let delivery := c.network.deliver request here.network
  if request.canBeSent then
    let attempts := here.attempts ++ [⟨pause, request, delivery.hops⟩]
    set { here with network := delivery.network, attempts }
  return delivery.reply

/-- The form of the service's answers. -/
def serviceForm : String := "application/json"

/-- A request to the service itself. -/
def toService (c : Client ν) (method : Method) (url : String) (body : Body) : Request :=
  ⟨method, url, some c.settings.apiKey, some serviceForm, body⟩

/-- A request to an address that the service named. -/
def toAddress (method : Method) (url : String) (body : Body) : Request :=
  ⟨method, url, none, none, body⟩

/-- What comes of a reply. -/
inductive Verdict where
  | success (body : ByteArray)
  /-- Asking again would not help. -/
  | refused (e : ServiceError)
  /-- Asking again may help. -/
  | fault (e : ServiceError)

/-- What comes of a reply from an address; `last` tells that it will not be asked again. -/
def verdict (url : String) (last : Bool) (reply : Reply) : Verdict :=
  match reply with
  | .answer status body =>
    if isSuccess status then .success body
    else
      let e := ServiceError.http url status (errorMessage (statusText status) body) last
      if isRefusal status && status ≠ tooManyRequests then .refused e else .fault e
  | .brokenOff status reason =>
    if isSuccess status then .fault (.network url reason last)
    else
      let e := ServiceError.http url status (statusText status) last
      if isRefusal status && status ≠ tooManyRequests then .refused e else .fault e
  | .timedOut => .fault (.timeout url last)
  | .failed reason => .fault (.network url reason last)

/-- The greatest factor of a pause. -/
def maxFactor : Nat := Nat.pow 2 32 - 1

/-- The pause before an attempt; there is none before the first. -/
def pauseBefore (c : Client ν) (attempt : Nat) : Nat :=
  if attempt = 0 then 0 else c.settings.retryBackoff * min (Nat.pow 2 (attempt - 1)) maxFactor

/-- Asks until an answer settles the matter or no attempt is left; `left` is the number of attempts
after this one. -/
def askFrom (c : Client ν) (request : Request) (attempt : Nat) : (left : Nat) → Task ν ByteArray
  | 0 => do
    match verdict request.url true (← c.send (c.pauseBefore attempt) request) with
    | .success body => return body
    | .refused e => throw e
    | .fault e => throw e
  | left + 1 => do
    match verdict request.url false (← c.send (c.pauseBefore attempt) request) with
    | .success body => return body
    | .refused e => throw e
    | .fault _ => askFrom c request (attempt + 1) left

/-- Asks a question that changes nothing. -/
def askAgain (c : Client ν) (request : Request) : Task ν ByteArray :=
  c.askFrom request 0 c.settings.maxRetries

/-- Asks once. -/
def askOnce (c : Client ν) (request : Request) : Task ν ByteArray := do
  match verdict request.url true (← c.send 0 request) with
  | .success body => return body
  | .refused e => throw e
  | .fault e => throw e

/-- Goes on with what was read, or stops. -/
def orStop {α : Type} (r : Except ServiceError α) : Task ν α :=
  match r with
  | .ok a => return a
  | .error e => throw e

/-! ## Calls -/

/-- Asks where a media file is to be put. -/
def reserveUpload (c : Client ν) : Task ν UploadSlot := do
  let url := c.settings.ingestUrl ++ "/upload"
  let body ← c.askOnce (c.toService .post url .empty)
  let r ← orStop (readBody (sourceDecoder "" uploadUrlDecoder) url body)
  return ⟨r.id, r.attributes⟩

/-- Puts a media file in its place. -/
def sendFile (c : Client ν) (target : UploadSlot) (path : String) : Task ν Unit := do
  let content ← orStop (((← get).tree.disk.read path).mapError (.disk path))
  let _ ← c.askOnce (toAddress .put target.url (.bytes content))

/-- Asks for the state of a media file. -/
def sourceState (c : Client ν) (id : String) : Task ν SourceState := do
  let url := c.settings.ingestUrl ++ "/sources/" ++ id
  let body ← c.askAgain (c.toService .get url .empty)
  let r ← orStop (readBody (sourceDecoder ⟨none, none⟩ sourceFieldsDecoder) url body)
  match r.attributes.state? with
  | some state => return state
  | none => throw (.unexpected url "ready source without a URL")

/-- Submits an edit and gives the name of its render. -/
def submit (c : Client ν) (edit : Json) : Task ν String := do
  let url := c.settings.editUrl ++ "/render"
  let body ← c.askOnce (c.toService .post url (.json edit))
  let r ← orStop (readBody (editDecoder queuedDecoder) url body)
  orStop (r.content url)

/-- Asks for the state of a render. -/
def renderState (c : Client ν) (id : String) : Task ν Status := do
  let url := c.settings.editUrl ++ "/render/" ++ id
  let body ← c.askAgain (c.toService .get url .empty)
  let r ← orStop (readBody (editDecoder Status.decoder) url body)
  orStop (r.content url)

/-- Makes the directory that a file is to stand in. -/
def makeRoom (path : String) : Task ν Unit := do
  match parent? path with
  | none => return
  | some dir =>
    if dir.isEmpty then return
    let here ← get
    let tree ← orStop ((here.tree.makeDirectories dir).mapError (.disk dir))
    set { here with tree }

/-- Saves what stands at an address in a file and gives the number of bytes. -/
def download (c : Client ν) (url path : String) : Task ν Nat := do
  let body ← c.askAgain (toAddress .get url .empty)
  makeRoom path
  let here ← get
  let tree ← orStop ((here.tree.storeFile path body).mapError (.disk path))
  set { here with tree }
  return body.size

/-- Makes a call. -/
def perform (c : Client ν) : (call : Call) → Task ν call.Answer
  | .reserveUpload => c.reserveUpload
  | .sendFile target path => c.sendFile target path
  | .sourceState id => c.sourceState id
  | .submit edit => c.submit edit
  | .renderState id => c.renderState id
  | .download url path => c.download url path

/-- The service that a client reaches. A call takes as long as the requests that are made for it. -/
def service (c : Client ν) : Service (Online ν) where
  answer call here := (c.perform call).run.run here
  duration call here :=
    let after := ((c.perform call).run.run here).2
    (after.attempts.drop here.attempts.length).foldl (fun time attempt => time + attempt.time) 0

end Client

end VideoScript.Render
