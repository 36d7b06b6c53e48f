import VideoScript.Proofs.Settings.Environment

/-!
# Options in layers

Options are sensible (`Sensible`) when nothing is wrong with them (`problem?_eq_none_iff`); then all
times and the number of files at once are at least one, and the addresses are addresses of the web.
Options are found exactly when the settings file, if there is one, can be read and is sensible on
its own, the environment has valid values, and what the two say together is sensible
(`resolve_eq_ok_iff`). Only the places where the settings file may stand are looked at
(`resolve_congr`).
-/

set_option autoImplicit false

namespace VideoScript.Options

open Text Disk

variable {o o' : Options} {disk disk' : Disk} {workingDirectory path dir : String}
  {environment : List (String × String)} {named : Option String}

/-! ## Times -/

theorem timeProblem?_eq_none_iff {name : String} {value : Option Nat} :
    timeProblem? name value = none ↔ value ≠ some 0 := by
  unfold timeProblem?
  split <;> simp_all

theorem milliseconds_pos {standard : Nat} {seconds : Option Nat} (hs : 0 < standard)
    (h : seconds ≠ some 0) : 0 < milliseconds standard seconds := by
  unfold milliseconds
  split
  · rename_i n
    have hn : n ≠ 0 := fun hn => h (by rw [hn])
    omega
  · exact hs

/-! ## Sensible options -/

section
variable [Web.UrlReader]

/-- The address of a place in the web. -/
def IsWeb (value : String) : Prop :=
  ∃ url, Web.UrlReader.parse value = .ok url ∧ (url.scheme = "http" ∨ url.scheme = "https")

/-- Nothing is wrong with options. -/
structure Sensible (o : Options) : Prop where
  workers : o.check.maxWorkers ≠ some 0
  ingestUrl : ∀ url, o.service.ingestUrl = some url → IsWeb url
  editUrl : ∀ url, o.service.editUrl = some url → IsWeb url
  pollInterval : o.service.pollInterval ≠ some 0
  renderTimeout : o.service.renderTimeout ≠ some 0
  requestTimeout : o.service.requestTimeout ≠ some 0
  logFormat : o.logFormat = "pretty" ∨ o.logFormat = "json"

theorem isWeb_iff {value : String} {url : Url} (h : Web.UrlReader.parse value = .ok url) :
    IsWeb value ↔ url.scheme = "http" ∨ url.scheme = "https" := by
  constructor
  · rintro ⟨url', h', hscheme⟩
    rw [h] at h'
    cases h'
    exact hscheme
  · exact fun hscheme => ⟨url, h, hscheme⟩

theorem urlProblem?_eq_none_iff {name : String} {value : Option String} :
    urlProblem? name value = none ↔ ∀ url, value = some url → IsWeb url := by
  unfold urlProblem?
  cases value with
  | none => simp
  | some value =>
    dsimp only
    cases hp : Web.UrlReader.parse value with
    | error e => simp [IsWeb, hp]
    | ok url =>
      dsimp only
      split <;> simp_all [isWeb_iff hp]

theorem problem?_eq_none_iff : o.problem? = none ↔ Sensible o := by
  have hlist : o.problem? = none ↔ o.check.maxWorkers ≠ some 0 ∧
      (∀ url, o.service.ingestUrl = some url → IsWeb url) ∧
      (∀ url, o.service.editUrl = some url → IsWeb url) ∧ o.service.pollInterval ≠ some 0 ∧
      o.service.renderTimeout ≠ some 0 ∧ o.service.requestTimeout ≠ some 0 ∧
      (o.logFormat = "pretty" ∨ o.logFormat = "json") := by
    unfold problem?
    simp only [Option.orElse_eq_orElse, Option.orElse_eq_or, Option.or_eq_none_iff,
      urlProblem?_eq_none_iff, timeProblem?_eq_none_iff, ite_eq_left_iff, ite_eq_right_iff,
      reduceCtorEq, imp_false, not_not, ne_eq]
  rw [hlist]
  exact ⟨fun ⟨h1, h2, h3, h4, h5, h6, h7⟩ => ⟨h1, h2, h3, h4, h5, h6, h7⟩,
    fun ⟨h1, h2, h3, h4, h5, h6, h7⟩ => ⟨h1, h2, h3, h4, h5, h6, h7⟩⟩

theorem checked_eq_ok_iff : checked o = .ok o' ↔ Sensible o ∧ o' = o := by
  rw [← problem?_eq_none_iff, checked]
  cases o.problem? <;> simp [eq_comm]

theorem Sensible.times (h : Sensible o) {s : ServiceSettings} (hs : o.serviceSettings? = some s) :
    0 < s.pollInterval ∧ 0 < s.renderTimeout ∧ 0 < s.requestTimeout := by
  obtain ⟨key, -, rfl⟩ := Option.map_eq_some_iff.1 hs
  have hstandard : 0 < (ServiceSettings.standard key).pollInterval ∧
      0 < (ServiceSettings.standard key).renderTimeout ∧
      0 < (ServiceSettings.standard key).requestTimeout := by simp [ServiceSettings.standard]
  obtain ⟨hpoll, hrender, hrequest⟩ := hstandard
  exact ⟨milliseconds_pos hpoll h.pollInterval, milliseconds_pos hrender h.renderTimeout,
    milliseconds_pos hrequest h.requestTimeout⟩

end

/-! ## The settings file -/

/-- What a settings file writes, and the directory that it stands in. -/
structure FileLayer where
  dir : String
  written : Options

/-- The options of a settings file; the directory of the media files is seen from the file. -/
def FileLayer.options (f : FileLayer) (workingDirectory : String) : Options :=
  { f.written with
    check := { f.written.check with
      resourcesDir := f.written.check.resourcesDir.map fun dir =>
        absolute workingDirectory (join f.dir dir) } }

/-- The layer of the settings file at a place. Without a file nothing is written. -/
def IsFileLayer (disk : Disk) (place : Option String) (f : FileLayer) : Prop :=
  match place with
  | none => f.written = unset
  | some path => f.dir = (parent? path).getD "" ∧ ∃ text, disk.readText path = .ok text ∧
      (Toml.parse text).bind ofEntries? = some f.written

section
variable [Web.UrlReader]

theorem load_eq (disk : Disk) (workingDirectory path : String) :
    load disk workingDirectory path = match disk.readText path with
      | .error failure => .error (.unreadable path failure)
      | .ok text => match (Toml.parse text).bind ofEntries? with
        | none => .error (.malformed path)
        | some o => checked (o.fromFileAt workingDirectory path) := by
  unfold load
  cases disk.readText path with
  | error failure => rfl
  | ok text =>
    simp only [Except.mapError, bind, Except.bind]
    cases (Toml.parse text).bind ofEntries? <;> rfl

theorem load_eq_ok_iff : load disk workingDirectory path = .ok o ↔
    ∃ f, IsFileLayer disk (some path) f ∧ Sensible (f.options workingDirectory) ∧
      o = f.options workingDirectory := by
  rw [load_eq]
  constructor
  · intro h
    split at h
    · cases h
    · rename_i text hread
      split at h
      · cases h
      · rename_i written hw
        obtain ⟨hs, rfl⟩ := checked_eq_ok_iff.1 h
        exact ⟨⟨(parent? path).getD "", written⟩, ⟨rfl, text, hread, hw⟩, hs, rfl⟩
  · rintro ⟨⟨_, written⟩, ⟨rfl, text, hread, hw⟩, hs, rfl⟩
    rw [hread]
    dsimp only
    rw [hw]
    exact checked_eq_ok_iff.2 ⟨hs, rfl⟩

theorem sensible_unset : Sensible unset := problem?_eq_none_iff.1 rfl

/-- The options of the settings file at a place, if there is one. -/
def ofFile (disk : Disk) (workingDirectory : String) : Option String → Except SourceError Options
  | some path => load disk workingDirectory path
  | none => .ok unset

theorem ofFile_eq_ok_iff {place : Option String} : ofFile disk workingDirectory place = .ok o ↔
    ∃ f, IsFileLayer disk place f ∧ Sensible (f.options workingDirectory) ∧
      o = f.options workingDirectory := by
  cases place with
  | some path => exact load_eq_ok_iff
  | none =>
    constructor
    · rintro ⟨⟩
      exact ⟨⟨"", unset⟩, rfl, sensible_unset, rfl⟩
    · rintro ⟨⟨_, _⟩, rfl, -, rfl⟩
      rfl

theorem resolve_eq (disk : Disk) (workingDirectory : String)
    (environment : List (String × String)) (named : Option String) (dir : String) :
    resolve disk workingDirectory environment named dir =
      ofFile disk workingDirectory (named.or (discover? disk dir)) >>= fun o =>
        o.withEnvironment environment >>= checked := by
  unfold resolve ofFile
  cases named.or (discover? disk dir) <;> rfl

/-- Options are found exactly when the file can be read and is sensible, the environment has valid
values, and both together are sensible. -/
theorem resolve_eq_ok_iff : resolve disk workingDirectory environment named dir = .ok o ↔
    ∃ f, IsFileLayer disk (named.or (discover? disk dir)) f ∧
      Sensible (f.options workingDirectory) ∧ (∀ x ∈ environment, IsValid x) ∧
      o = (f.options workingDirectory).layered (lastValue? environment) ∧ Sensible o := by
  rw [resolve_eq]
  constructor
  · intro h
    obtain ⟨file, hfile, h⟩ := bind_eq_ok h
    obtain ⟨both, hboth, h⟩ := bind_eq_ok h
    obtain ⟨f, hf, hsensible, rfl⟩ := ofFile_eq_ok_iff.1 hfile
    have hvalid := valid_of_withEnvironment hboth
    rw [withEnvironment_eq hvalid] at hboth
    cases hboth
    obtain ⟨hs, rfl⟩ := checked_eq_ok_iff.1 h
    exact ⟨f, hf, hsensible, hvalid, rfl, hs⟩
  · rintro ⟨f, hf, hsensible, hvalid, rfl, hs⟩
    rw [ofFile_eq_ok_iff.2 ⟨f, hf, hsensible, rfl⟩]
    show (f.options workingDirectory).withEnvironment environment >>= checked = _
    rw [withEnvironment_eq hvalid]
    exact checked_eq_ok_iff.2 ⟨hs, rfl⟩

end

/-! ## The places that are looked at -/

/-- Disks with the same file at a place, or both without one. -/
def SameAt (disk disk' : Disk) (place : String) : Prop :=
  disk'.kind place = disk.kind place ∧ disk'.read place = disk.read place

theorem SameAt.readText (h : SameAt disk disk' path) :
    disk'.readText path = disk.readText path := by
  rw [Disk.readText, h.2, Disk.readText]

theorem SameAt.hasFile (h : SameAt disk disk' path) : disk'.hasFile path = disk.hasFile path := by
  rw [Disk.hasFile, h.1, Disk.hasFile]

theorem discover?_congr (h : ∀ place ∈ filePlaces dir, SameAt disk disk' place) :
    discover? disk' dir = discover? disk dir := by
  unfold discover?
  generalize filePlaces dir = places at h
  induction places with
  | nil => rfl
  | cons place rest ih =>
    obtain ⟨hplace, hrest⟩ := List.forall_mem_cons.1 h
    rw [List.find?_cons, List.find?_cons, hplace.hasFile, ih hrest]

section
variable [Web.UrlReader]

theorem ofFile_congr {place : Option String}
    (h : ∀ path, place = some path → SameAt disk disk' path) :
    ofFile disk' workingDirectory place = ofFile disk workingDirectory place := by
  cases place with
  | none => rfl
  | some path =>
    show load disk' workingDirectory path = load disk workingDirectory path
    rw [load, (h path rfl).readText, load]

theorem resolve_congr (h : ∀ place ∈ (match named with
      | some path => [path]
      | none => filePlaces dir), SameAt disk disk' place) :
    resolve disk' workingDirectory environment named dir =
      resolve disk workingDirectory environment named dir := by
  rw [resolve_eq, resolve_eq]
  cases named with
  | some path =>
    rw [Option.some_or, Option.some_or, ofFile_congr]
    rintro _ ⟨⟩
    exact h path List.mem_cons_self
  | none =>
    rw [Option.none_or, Option.none_or, discover?_congr h, ofFile_congr]
    intro path hpath
    exact h path (List.mem_of_find?_eq_some hpath)

end

end VideoScript.Options
