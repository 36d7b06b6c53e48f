import VideoScript.Json.Basic

/-!
# Settings of the render service

Where the service is, the key for it, and how patient to be. Times are in milliseconds. Addresses
are kept without slashes at their end.
-/

set_option autoImplicit false

namespace VideoScript

/-- The settings of the render service. -/
structure ServiceSettings where
  apiKey : String
  /-- The address that takes media files. -/
  ingestUrl : String
  /-- The address that renders. -/
  editUrl : String
  requestTimeout : Nat
  maxRetries : Nat
  /-- The pause before the first retry. -/
  retryBackoff : Nat
  /-- The pause between two questions for a state. -/
  pollInterval : Nat
  renderTimeout : Nat
  sourceTimeout : Nat
  deriving DecidableEq, Repr

namespace ServiceSettings

/-- The settings for a key where nothing else is set. -/
def standard (apiKey : String) : ServiceSettings where
  apiKey := apiKey
  ingestUrl := "https://api.shotstack.io/ingest/stage"
  editUrl := "https://api.shotstack.io/edit/stage"
  requestTimeout := 30000
  maxRetries := 3
  retryBackoff := 250
  pollInterval := 5000
  renderTimeout := 300000
  sourceTimeout := 60000

/-- An address without the slashes at its end. -/
def baseUrl (url : String) : String := .ofList (url.toList.reverse.dropWhile (· = '/')).reverse

/-- The settings with the address that takes media files. -/
def ingestAt (settings : ServiceSettings) (url : String) : ServiceSettings :=
  { settings with ingestUrl := baseUrl url }

/-- The settings with the address that renders. -/
def editAt (settings : ServiceSettings) (url : String) : ServiceSettings :=
  { settings with editUrl := baseUrl url }

end ServiceSettings

end VideoScript
