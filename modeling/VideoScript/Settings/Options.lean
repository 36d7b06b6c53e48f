import VideoScript.Settings.Check
import VideoScript.Settings.Service
import VideoScript.Text.Blank
import VideoScript.Toml.Basic
import VideoScript.Web.Library

/-!
# Options

Options say which settings differ from the standard ones. They come in three sections: for checks,
for the render service, and for messages about the program itself. `Options.problem?` tells what is
wrong with them, and `Options.checkSettings` and `Options.serviceSettings?` give the settings that
they make.

A settings file writes a section as a table by name or as an array by position. Unknown names are
passed over; a value of the wrong type is refused.
-/

set_option autoImplicit false

namespace VideoScript

open Text

/-- What is set about checks. -/
structure CheckOptions where
  strict : Option Bool
  skipFiles : Option Bool
  maxWorkers : Option Nat
  parallelThreshold : Option Nat
  cache : Option Bool
  verbose : Option Bool
  resourcesDir : Option String
  deriving DecidableEq, Repr

/-- What is set about the render service. Times are in seconds. -/
structure ServiceOptions where
  apiKey : Option String
  ingestUrl : Option String
  editUrl : Option String
  pollInterval : Option Nat
  renderTimeout : Option Nat
  requestTimeout : Option Nat
  deriving DecidableEq, Repr

/-- What is set. -/
structure Options where
  check : CheckOptions
  service : ServiceOptions
  /-- The form of messages about the program itself. -/
  logFormat : String
  deriving DecidableEq, Repr

namespace Options

/-- Nothing is set. -/
def unset : Options :=
  ⟨⟨none, none, none, none, none, none, none⟩, ⟨none, none, none, none, none, none⟩, "pretty"⟩

/-! ## What may be wrong -/

/-- What is wrong with options. -/
inductive Problem where
  | noWorkers
  | badUrl (name value : String) (e : Web.UrlError)
  | notWeb (name value : String)
  | noTime (name : String)
  | badLogFormat (value : String)
  deriving DecidableEq, Repr

/-- The wording of a problem. -/
def Problem.message : Problem → String
  | .noWorkers => "max_workers must be at least 1"
  | .badUrl name value e => s!"Invalid {name} '{value}' ({e.message})"
  | .notWeb name value => s!"{name} must use http or https: {value}"
  | .noTime name => s!"{name} must be greater than zero"
  | .badLogFormat value => s!"Invalid log format '{value}': must be 'pretty' or 'json'"

section
variable [Web.UrlReader]

/-- What is wrong with an address. -/
def urlProblem? (name : String) (value : Option String) : Option Problem :=
  match value with
  | none => none
  | some value =>
    match Web.UrlReader.parse value with
    | .error e => some (.badUrl name value e)
    | .ok url =>
      if url.scheme = "http" ∨ url.scheme = "https" then none else some (.notWeb name value)

/-- What is wrong with a time. -/
def timeProblem? (name : String) (value : Option Nat) : Option Problem :=
  if value = some 0 then some (.noTime name) else none

/-- The first thing that is wrong with options. -/
def problem? (o : Options) : Option Problem :=
  (if o.check.maxWorkers = some 0 then some .noWorkers else none)
  <|> urlProblem? "ingest_url" o.service.ingestUrl
  <|> urlProblem? "edit_url" o.service.editUrl
  <|> timeProblem? "poll_interval_secs" o.service.pollInterval
  <|> timeProblem? "render_timeout_secs" o.service.renderTimeout
  <|> timeProblem? "request_timeout_secs" o.service.requestTimeout
  <|> (if o.logFormat = "pretty" ∨ o.logFormat = "json" then none
    else some (.badLogFormat o.logFormat))

end

/-! ## The settings that they make -/

/-- The settings of a check. -/
def checkSettings (o : Options) : CheckSettings :=
  let standard := CheckSettings.standard
  { standard with
    strict := o.check.strict.getD standard.strict
    skipFiles := o.check.skipFiles.getD standard.skipFiles
    maxWorkers := o.check.maxWorkers.map (max 1)
    parallelThreshold := o.check.parallelThreshold.getD standard.parallelThreshold
    cache := o.check.cache.getD standard.cache
    verbose := o.check.verbose.getD standard.verbose
    resourcesDir := o.check.resourcesDir }

/-- The key for the service, when it is not blank. -/
def apiKey? (o : Options) : Option String :=
  (o.service.apiKey.map trim).filter fun key => !key.isEmpty

/-- A time in milliseconds from one in seconds. -/
def milliseconds (standard : Nat) (seconds : Option Nat) : Nat :=
  match seconds with
  | some n => 1000 * n
  | none => standard

/-- The settings of the render service, when there is a key for it. -/
def serviceSettings? (o : Options) : Option ServiceSettings :=
  o.apiKey?.map fun key =>
    let standard := ServiceSettings.standard key
    { standard with
      ingestUrl := (o.service.ingestUrl.map ServiceSettings.baseUrl).getD standard.ingestUrl
      editUrl := (o.service.editUrl.map ServiceSettings.baseUrl).getD standard.editUrl
      pollInterval := milliseconds standard.pollInterval o.service.pollInterval
      renderTimeout := milliseconds standard.renderTimeout o.service.renderTimeout
      requestTimeout := milliseconds standard.requestTimeout o.service.requestTimeout }

/-! ## Reading them from a settings file -/

/-- A member of a section that is gathered in `σ`. -/
structure Entry (σ : Type) where
  name : String
  set : Toml → σ → Option σ

/-- A truth value. -/
def bool? : Toml → Option Bool
  | .bool b => some b
  | _ => none

/-- A whole number that is not negative. -/
def count? : Toml → Option Nat
  | .integer (.ofNat n) => some n
  | _ => none

/-- A text. -/
def text? : Toml → Option String
  | .text s => some s
  | _ => none

/-- A member whose value is read in one way. -/
def entry {σ α : Type} (name : String) (read : Toml → Option α) (set : α → σ → σ) : Entry σ :=
  ⟨name, fun value state => (read value).map (set · state)⟩

/-- The members of the section on checks, in order. -/
def checkEntries : List (Entry CheckOptions) :=
  [entry "strict_mode" bool? fun b o => { o with strict := some b },
   entry "skip_file_validation" bool? fun b o => { o with skipFiles := some b },
   entry "max_workers" count? fun n o => { o with maxWorkers := some n },
   entry "parallel_threshold" count? fun n o => { o with parallelThreshold := some n },
   entry "enable_cache" bool? fun b o => { o with cache := some b },
   entry "verbose" bool? fun b o => { o with verbose := some b },
   entry "resources_dir" text? fun dir o => { o with resourcesDir := some dir }]

/-- The members of the section on the render service, in order. -/
def serviceEntries : List (Entry ServiceOptions) :=
  [entry "api_key" text? fun key o => { o with apiKey := some key },
   entry "ingest_url" text? fun url o => { o with ingestUrl := some url },
   entry "edit_url" text? fun url o => { o with editUrl := some url },
   entry "poll_interval_secs" count? fun n o => { o with pollInterval := some n },
   entry "render_timeout_secs" count? fun n o => { o with renderTimeout := some n },
   entry "request_timeout_secs" count? fun n o => { o with requestTimeout := some n }]

/-- The members of the section on messages. -/
def logEntries : List (Entry String) := [entry "format" text? fun format _ => format]

/-- Reads a section. As an array it has at least `least` items, which are taken by position; a date
or a time counts as a section without members. -/
def readSection {σ : Type} (entries : List (Entry σ)) (least : Nat) (blank : σ) (value : Toml) :
    Option σ :=
  match value with
  | .table _ members =>
    members.foldlM (fun state (name, value) =>
      match entries.find? fun e => e.name = name with
      | some e => e.set value state
      | none => some state) blank
  | .array items =>
    if items.length < least then none
    else (entries.zip items).foldlM (fun state (e, value) => e.set value state) blank
  | .tables items =>
    if items.length < least then none
    else (entries.zip items).foldlM (fun state (e, members) =>
      e.set (.table .header members) state) blank
  | .moment _ => some blank
  | _ => none

/-- The sections, in order. -/
def sections : List (Entry Options) :=
  [⟨"validation", fun value o =>
      (readSection checkEntries checkEntries.length unset.check value).map fun check =>
        { o with check }⟩,
   ⟨"shotstack", fun value o =>
      (readSection serviceEntries serviceEntries.length unset.service value).map fun service =>
        { o with service }⟩,
   ⟨"logging", fun value o =>
      (readSection logEntries 0 unset.logFormat value).map fun logFormat => { o with logFormat }⟩]

/-- The options of the root table of a settings file. -/
def ofEntries? (root : Toml.Entries) : Option Options :=
  readSection sections 0 unset (.table .header root)

end Options

end VideoScript
