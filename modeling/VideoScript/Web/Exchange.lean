import VideoScript.Web.Library

/-!
# Requests and replies

A `Network` takes a message and gives a reply, or none in time, or none at all, and a reply may name
a location. What it gives, and how long that takes, may depend on everything that has happened on
it, which its state holds. A request is delivered by sending its message and those to which the
answers lead (`Network.deliver`); each of them is a `Hop`. A request with a bad address or a bad key
is never sent.
-/

set_option autoImplicit false

namespace VideoScript.Web

-- Core's comparison of bodies, whichever other one a library brings along.
local instance decidableEqBody : DecidableEq ByteArray := ByteArray.instDecidableEq

/-- The outcome of a message that is sent. -/
inductive Reply where
  | answer (status : Nat) (body : ByteArray)
  /-- The connection breaks before the body is complete. -/
  | brokenOff (status : Nat) (reason : String)
  | timedOut
  | failed (reason : String)
  deriving DecidableEq

/-- The status of a reply, when there is one. -/
def Reply.status? : Reply → Option Nat
  | answer status _ => some status
  | brokenOff status _ => some status
  | _ => none

/-- A reply with the location that it names. -/
structure Response where
  reply : Reply
  location : Option String
  /-- How long it takes, in milliseconds. -/
  time : Nat
  deriving DecidableEq

/-- A reply at once that names no location. -/
def Reply.alone (reply : Reply) : Response := ⟨reply, none, 0⟩

/-- A network whose state is a `ν`. -/
structure Network (ν : Type) where
  exchange : Message → ν → Response × ν

/-! ## Delivering a request -/

/-- A message with the response to it. -/
structure Hop where
  message : Message
  response : Response

/-- What comes of a request: the last reply, the hops to it, and the network after them. -/
structure Delivery (ν : Type) where
  reply : Reply
  hops : List Hop
  network : ν

/-- The reason for which a request fails whose answers lead on too often. -/
def ledOnTooOften (url : Url) : String :=
  "error following redirect for url (" ++ url.withoutUser.text ++ ")"

section
variable [Library] {ν : Type}

/-- The message to which the response to a message leads. -/
def Message.next? (m : Message) (r : Response) : Option Message := do
  Library.redirect? m (← r.reply.status?) (← r.location)

/-- Sends a message and those to which the answers lead, at most `left` more. -/
def Network.follow (network : Network ν) : (left : Nat) → Message → ν → Delivery ν
  | 0, m, start =>
    let (response, state) := network.exchange m start
    let reply := if (m.next? response).isSome then .failed (ledOnTooOften m.url) else response.reply
    ⟨reply, [⟨m, response⟩], state⟩
  | left + 1, m, start =>
    let (response, state) := network.exchange m start
    match m.next? response with
    | none => ⟨response.reply, [⟨m, response⟩], state⟩
    | some next =>
      let rest := network.follow left next state
      { rest with hops := ⟨m, response⟩ :: rest.hops }

/-- Delivers a request. -/
def Network.deliver (network : Network ν) (r : Request) (start : ν) : Delivery ν :=
  match r.message? with
  | some m => network.follow Library.maxRedirects m start
  | none => ⟨.failed unsendable, [], start⟩

end

/-! ## No network -/

/-- The reason for which a request fails that no connection takes. -/
def noConnection (url : Url) : String :=
  "error sending request for url (" ++ url.withoutUser.text ++ ")"

/-- The network on which no connection succeeds. -/
def unreachable : Network Unit :=
  ⟨fun m network => ((Reply.failed (noConnection m.url)).alone, network)⟩

/-! ## Status numbers -/

/-- Whether a status tells success. -/
def isSuccess (status : Nat) : Bool := 200 ≤ status && status < 300

/-- Whether a status tells that the request itself is wrong. -/
def isRefusal (status : Nat) : Bool := 400 ≤ status && status < 500

/-- The status of an address that is asked too often. -/
def tooManyRequests : Nat := 429

/-- The words for the numbers of the standard. -/
def statusWords : List (Nat × String) :=
  [(100, "Continue"), (101, "Switching Protocols"), (102, "Processing"), (103, "Early Hints"),
   (200, "OK"), (201, "Created"), (202, "Accepted"), (203, "Non Authoritative Information"),
   (204, "No Content"), (205, "Reset Content"), (206, "Partial Content"), (207, "Multi-Status"),
   (208, "Already Reported"), (226, "IM Used"), (300, "Multiple Choices"),
   (301, "Moved Permanently"), (302, "Found"), (303, "See Other"), (304, "Not Modified"),
   (305, "Use Proxy"), (307, "Temporary Redirect"), (308, "Permanent Redirect"),
   (400, "Bad Request"), (401, "Unauthorized"), (402, "Payment Required"), (403, "Forbidden"),
   (404, "Not Found"), (405, "Method Not Allowed"), (406, "Not Acceptable"),
   (407, "Proxy Authentication Required"), (408, "Request Timeout"), (409, "Conflict"),
   (410, "Gone"), (411, "Length Required"), (412, "Precondition Failed"),
   (413, "Payload Too Large"), (414, "URI Too Long"), (415, "Unsupported Media Type"),
   (416, "Range Not Satisfiable"), (417, "Expectation Failed"), (418, "I'm a teapot"),
   (421, "Misdirected Request"), (422, "Unprocessable Entity"), (423, "Locked"),
   (424, "Failed Dependency"), (425, "Too Early"), (426, "Upgrade Required"),
   (428, "Precondition Required"), (429, "Too Many Requests"),
   (431, "Request Header Fields Too Large"), (451, "Unavailable For Legal Reasons"),
   (500, "Internal Server Error"), (501, "Not Implemented"), (502, "Bad Gateway"),
   (503, "Service Unavailable"), (504, "Gateway Timeout"), (505, "HTTP Version Not Supported"),
   (506, "Variant Also Negotiates"), (507, "Insufficient Storage"), (508, "Loop Detected"),
   (510, "Not Extended"), (511, "Network Authentication Required")]

/-- The words for a status. -/
def statusText (status : Nat) : String := (statusWords.lookup status).getD "Unknown"

end VideoScript.Web
