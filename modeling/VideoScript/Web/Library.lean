import VideoScript.Json.Record
import VideoScript.Web.Url

/-!
# The library for requests

The client leaves a part of its work to a library: it reads the texts of addresses, puts requests on
the wire, and goes on by itself to where an answer points. It also decides what is read from a body
that is no text. `UrlReader` and `Library` say what is needed of it, and what it promises. The
program runs with the library in `Web/Standard`; nothing else depends on which one it is.
-/

set_option autoImplicit false

namespace VideoScript.Web

/-- What reads the texts of URLs. -/
class UrlReader where
  parse : String → Except UrlError Url

/-! ## Requests -/

/-- What is asked of an address. -/
inductive Method where
  | get
  | post
  | put
  deriving DecidableEq, Repr

/-- What a request carries. -/
inductive Body where
  | empty
  | bytes (content : ByteArray)
  | json (value : Json)

/-- A request as it is built. -/
structure Request where
  method : Method
  url : String
  /-- The key that goes with it. -/
  key : Option String
  /-- The form of answer that it asks for. -/
  accept : Option String
  body : Body

/-- A request as it is sent. -/
structure Message where
  method : Method
  url : Url
  key : Option String
  accept : String
  body : Body

/-! ## The library -/

/-- What puts requests on the wire. When an answer names a location, the library may go on to there.
It then keeps the headers that were set, wherever the location is. -/
class Library extends UrlReader where
  /-- What it reads from bytes that encode no text: a value, when the wrong bytes stand where nothing
  is wanted, or the reason for which there is none. -/
  readBytes {α : Type} : Json.Decoder α → ByteArray → Except String α
  /-- How often it goes on for one request. -/
  maxRedirects : Nat
  /-- The message that follows a message whose answer has a status and names a location. -/
  redirect? : Message → (status : Nat) → (location : String) → Option Message
  key_redirect (m m' : Message) (status : Nat) (location : String) :
    redirect? m status location = some m' → m'.key = m.key
  accept_redirect (m m' : Message) (status : Nat) (location : String) :
    redirect? m status location = some m' → m'.accept = m.accept
  /-- It does what was asked, or asks for what stands at the location. -/
  asks_redirect (m m' : Message) (status : Nat) (location : String) :
    redirect? m status location = some m' →
      (m'.method = m.method ∧ m'.body = m.body) ∨ (m'.method = .get ∧ m'.body = .empty)

/-! ## Requests that can be sent -/

/-- Whether a character may stand in a key. -/
def isKeyChar (c : Char) : Bool := c = '\t' || (0x20 ≤ c.toNat && c.toNat ≠ 0x7F)

/-- Whether requests can be sent to a URL. -/
def isWebUrl (url : Url) : Bool := url.scheme = "http" || url.scheme = "https"

/-- The form of answer that is asked for where a request leaves it open: any. -/
def anyForm : String := "*/*"

section
variable [UrlReader]

/-- The message that a request is sent as, if it can be sent. -/
def Request.message? (r : Request) : Option Message :=
  match UrlReader.parse r.url with
  | .ok url =>
    if isWebUrl url && r.key.all fun key => key.toList.all isKeyChar then
      some ⟨r.method, url, r.key, r.accept.getD anyForm, r.body⟩
    else none
  | .error _ => none

/-- Whether a request can be sent. -/
def Request.canBeSent (r : Request) : Bool := r.message?.isSome

end

/-- The reason for which a request that cannot be sent fails. -/
def unsendable : String := "builder error"

end VideoScript.Web
