import VideoScript.Command.Places
import VideoScript.Proofs.Command.CheckArguments
import VideoScript.Proofs.Settings.Layers

/-!
# The settings that a check runs with

A check runs with the settings of its layers: each setting has the value of the highest layer that
sets it, of the command line, the environment, the settings file and what is standard
(`CheckCommand.layered`, `settings_eq`). When there are no options, it fails and looks at nothing
but the places where the settings file may stand, so not at the script (`run_of_error`).

Directories of media files are seen from the root of the disk (`isAbsolute_absolute`), with one
exception: an empty directory in a settings file that is named without its own directory is left
as it is (`empty_root_stays`).
-/

set_option autoImplicit false

namespace VideoScript.Command

open Disk Text Render Options

/-! ## Absolute directories -/

theorem isAbsolute_iff {path : String} :
    isAbsolute path = true ↔ ∃ rest, path.toList = '/' :: rest := by
  rw [isAbsolute, startsWith, List.isPrefixOf_iff_prefix]
  exact ⟨fun ⟨rest, h⟩ => ⟨rest, h.symm⟩, fun ⟨rest, h⟩ => ⟨rest, h.symm⟩⟩

theorem isAbsolute_append {base : String} (h : isAbsolute base = true) (path : String) :
    isAbsolute (base ++ path) = true := by
  obtain ⟨rest, hrest⟩ := isAbsolute_iff.1 h
  exact isAbsolute_iff.2 ⟨rest ++ path.toList, by rw [String.toList_append, hrest]; rfl⟩

theorem isAbsolute_join {base : String} (h : isAbsolute base = true) (path : String) :
    isAbsolute (join base path) = true := by
  unfold join
  split
  · assumption
  · split
    · exact isAbsolute_append h path
    · exact isAbsolute_append (isAbsolute_append h "/") path

theorem isAbsolute_foldl_join {base : String} (h : isAbsolute base = true)
    (parts : List Component) :
    isAbsolute (parts.foldl (fun base c => join base c.text) base) = true := by
  induction parts generalizing base with
  | nil => exact h
  | cons part rest ih => exact ih (isAbsolute_join h part.text)

/-- A path that is not empty is absolute as seen from the root of the disk. -/
theorem isAbsolute_absolute {directory path : String} (h : isAbsolute directory = true)
    (hne : path ≠ "") : isAbsolute (absolute directory path) = true := by
  unfold absolute absolute?
  rw [if_neg (by simpa using hne), Option.getD_some]
  have hstart : isAbsolute (if isAbsolute path then
      if startsWith ['/', '/'] path.toList && !startsWith ['/', '/', '/'] path.toList then "//"
      else "/" else directory) = true := by
    split
    · split <;> decide
    · exact h
  split
  · exact isAbsolute_join (isAbsolute_foldl_join hstart _) ""
  · exact isAbsolute_foldl_join hstart _

theorem join_eq_empty_iff {base path : String} : join base path = "" ↔ base = "" ∧ path = "" := by
  unfold join
  split
  · rename_i h
    obtain ⟨rest, hrest⟩ := isAbsolute_iff.1 h
    have hne : path ≠ "" := by
      rintro rfl
      cases hrest
    simp [hne]
  · split
    · rw [String.append_eq_empty_iff]
    · rename_i hbase
      have hne : base ≠ "" := by
        rintro rfl
        simp at hbase
      simp [hne]

/-! ## Layers -/

/-- What the first of several layers that sets something sets. -/
def firstSet {α : Type} (layers : List (Option α)) : Option α := layers.findSome? id

/-- What an option without a value of its own sets, when it is given. -/
def setBy (given value : Bool) : Option Bool := if given then some value else none

/-- The settings in which everything has the value of the highest layer that sets it: the command
line, then the environment, then the settings file, then what is standard. -/
def CheckCommand.layered (c : CheckCommand) (workingDirectory : String)
    (environment : List (String × String)) (f : FileLayer) : CheckSettings :=
  let bool (name : String) : Option Bool := (lastValue? environment name).bind boolOf?
  let count (name : String) : Option Nat := (lastValue? environment name).bind countOf?
  let written := f.written.check
  { strict := (firstSet [setBy c.strict true, bool "VALIDATION_STRICT_MODE",
      written.strict]).getD false
    skipFiles := (firstSet [setBy c.skipFiles true, bool "VALIDATION_SKIP_FILE_VALIDATION",
      written.skipFiles]).getD false
    skipChecks := (firstSet [setBy c.skipChecks true]).getD false
    maxWorkers := firstSet [c.maxWorkers.map (max 1), count "VALIDATION_MAX_WORKERS",
      written.maxWorkers]
    parallelThreshold := (firstSet [c.parallelThreshold, count "VALIDATION_PARALLEL_THRESHOLD",
      written.parallelThreshold]).getD 5
    cache := (firstSet [setBy c.noCache false, bool "VALIDATION_ENABLE_CACHE",
      written.cache]).getD true
    verbose := (firstSet [setBy c.verbose true, bool "VALIDATION_VERBOSE",
      written.verbose]).getD false
    resourcesDir := firstSet [c.resourcesDir.map (absolute workingDirectory),
      written.resourcesDir.map fun dir => absolute workingDirectory (join f.dir dir)] }

theorem firstSet_cons {α : Type} (layer : Option α) (layers : List (Option α)) :
    firstSet (layer :: layers) = layer.or (firstSet layers) := by
  cases layer <;> rfl

theorem firstSet_nil {α : Type} : firstSet ([] : List (Option α)) = none := rfl

theorem getD_setBy_true (given lower : Bool) :
    (setBy given true).getD lower = (lower || given) := by
  cases given <;> simp [setBy]

theorem getD_setBy_false (given lower : Bool) :
    (setBy given false).getD lower = (lower && !given) := by
  cases given <;> simp [setBy]

theorem map_max_one {workers : Option Nat} (h : workers ≠ some 0) :
    workers.map (max 1) = workers := by
  cases workers with
  | none => rfl
  | some n =>
    have hn : n ≠ 0 := fun hn => h (by rw [hn])
    exact congrArg some (by omega)

theorem settings_eq [Web.UrlReader] {c : CheckCommand} {workingDirectory : String}
    {environment : List (String × String)} {f : FileLayer} {o : Options}
    (ho : o = (f.options workingDirectory).layered (lastValue? environment)) (hs : Sensible o) :
    c.settings workingDirectory o.checkSettings =
      c.layered workingDirectory environment f := by
  have hworkers := map_max_one hs.workers
  subst ho
  unfold CheckCommand.settings CheckCommand.layered checkSettings
  dsimp only
  rw [hworkers]
  simp only [firstSet_cons, firstSet_nil, Option.or_none, Option.getD_or, getD_setBy_true,
    getD_setBy_false, CheckSettings.standard, Options.layered, FileLayer.options]

/-- The directory of the media files is absolute, or the settings file has an empty one. -/
theorem root_cases {c : CheckCommand} {workingDirectory root : String}
    {environment : List (String × String)} {f : FileLayer}
    (hw : isAbsolute workingDirectory = true) (hc : c.resourcesDir ≠ some "")
    (h : (c.layered workingDirectory environment f).resourcesDir = some root) :
    isAbsolute root = true ∨ f.dir = "" ∧ f.written.check.resourcesDir = some "" := by
  have hroot : firstSet [c.resourcesDir.map (absolute workingDirectory),
      f.written.check.resourcesDir.map fun dir =>
        absolute workingDirectory (join f.dir dir)] = some root := h
  rw [firstSet_cons, firstSet_cons, firstSet_nil, Option.or_none] at hroot
  cases hdir : c.resourcesDir with
  | some dir =>
    rw [hdir] at hroot hc
    cases hroot
    exact .inl (isAbsolute_absolute hw fun he => hc (by rw [he]))
  | none =>
    rw [hdir] at hroot
    obtain ⟨dir, hd, rfl⟩ := Option.map_eq_some_iff.1 hroot
    -- `absolute` has nothing to make of an empty path, and gives it back
    by_cases hne : join f.dir dir = ""
    · obtain ⟨hempty, rfl⟩ := join_eq_empty_iff.1 hne
      exact .inr ⟨hempty, hd⟩
    · exact .inl (isAbsolute_absolute hw hne)

theorem path?_ne_empty {a : Arguments} {name : String} {path : Option String}
    (h : a.path? name = .ok path) : path ≠ some "" := by
  rintro rfl
  unfold Arguments.path? at h
  split at h <;> simp_all

theorem resourcesDir_ne_empty {args : List String} {c : CheckCommand}
    (h : parse args = .ok (.check c)) : c.resourcesDir ≠ some "" := by
  obtain ⟨rest, a, -, -, hc⟩ := parse_eq_check h
  exact path?_ne_empty hc.resourcesDir

/-! ## Files at once -/

/-- Settings that allow a number of files at once allow at least one, and so does the standard on a
machine that has a processor or does not tell. -/
theorem one_le_workers {settings : CheckSettings} (h : ∀ n, settings.maxWorkers = some n → 1 ≤ n)
    {processors : Option Nat} (hp : processors ≠ some 0) : 1 ≤ settings.workers processors := by
  unfold CheckSettings.workers
  cases hworkers : settings.maxWorkers with
  | some n => exact h n hworkers
  | none =>
    show 1 ≤ min (2 * processors.getD 4) 8
    cases processors with
    | none => decide
    | some n =>
      have hn : n ≠ 0 := fun hn => hp (by rw [hn])
      rw [Option.getD_some]
      omega

theorem workers_checkSettings (o : Options) {n : Nat}
    (h : o.checkSettings.maxWorkers = some n) : 1 ≤ n := by
  have h : o.check.maxWorkers.map (max 1) = some n := h
  obtain ⟨k, -, rfl⟩ := Option.map_eq_some_iff.1 h
  exact Nat.le_max_left 1 k

theorem workers_settings (c : CheckCommand) (workingDirectory : String) (o : Options) {n : Nat}
    (h : (c.settings workingDirectory o.checkSettings).maxWorkers = some n) : 1 ≤ n := by
  rcases Option.or_eq_some_iff.1 h with h | ⟨-, h⟩
  · obtain ⟨k, -, rfl⟩ := Option.map_eq_some_iff.1 h
    exact Nat.le_max_left 1 k
  · exact workers_checkSettings o h

/-! ## The run of a check -/

section
variable [Web.UrlReader] {ν : Type}

/-- Two machines with the same settings for a script: the same environment and working directory,
and the same files where the settings file may stand. -/
structure SameSettings (config : Option String) (script : String) (m m' : Machine ν) : Prop where
  environment : m'.environment = m.environment
  workingDirectory : m'.tree.workingDirectory = m.tree.workingDirectory
  files : ∀ place ∈ settingsPlaces m.tree.workingDirectory config script,
    SameAt m.tree.disk m'.tree.disk place

variable {m m' : Machine ν} {config : Option String} {script : String}

theorem SameSettings.optionsFor_eq (h : SameSettings config script m m') :
    optionsFor m' config script = optionsFor m config script := by
  unfold optionsFor
  rw [h.environment, h.workingDirectory]
  refine resolve_congr fun place hplace => h.files place ?_
  unfold settingsPlaces
  cases config <;> exact hplace

/-- Without options a check fails, whatever stands at other places than those of the settings
file. -/
theorem run_of_error {c : CheckCommand} {e : SourceError}
    (he : optionsFor m c.config c.script = .error e) (h : SameSettings c.config c.script m m')
    (online : Online ν) : c.run m' online = failed online (.options e) := by
  rw [CheckCommand.run, h.optionsFor_eq, he]

/-- A check of a script with settings. -/
def CheckCommand.runWith (c : CheckCommand) (m : Machine ν) (online : Online ν)
    (settings : CheckSettings) : Result ν :=
  match checkFile (.ofTree m.tree) settings c.script with
  | .error e => failed online (.check e)
  | .ok report => ⟨c.show settings.verbose report, none, report.passed, online⟩

/-- **The layers of a check's settings.** Without options a check fails with the number 1 and looks
at nothing but the places of the settings file. Otherwise it runs with the settings of its layers,
and their directory of media files is absolute, unless a settings file that is named without its
own directory has an empty one. Options are sensible. The environment is taken when all its
variables have valid values, and then the last value of each counts; the order of different
variables does not matter, nor do other variables. -/
theorem check_settings_layered :
    (∀ (c : CheckCommand) (m : Machine ν) (online : Online ν),
      match optionsFor m c.config c.script with
      | .error e => ∀ m', SameSettings c.config c.script m m' →
          c.run m' online = failed online (.options e) ∧ (c.run m' online).code = 1
      | .ok _ => ∃ f, IsFileLayer m.tree.disk (c.config.or (discover? m.tree.disk
            (scriptDirectory m.tree.workingDirectory c.script))) f ∧
          (∀ x ∈ m.environment, IsValid x) ∧
          c.run m online =
            c.runWith m online (c.layered m.tree.workingDirectory m.environment f) ∧
          (∀ processors, processors ≠ some 0 →
            1 ≤ (c.layered m.tree.workingDirectory m.environment f).workers processors) ∧
          (isAbsolute m.tree.workingDirectory = true → c.resourcesDir ≠ some "" → ∀ root,
            (c.layered m.tree.workingDirectory m.environment f).resourcesDir = some root →
            isAbsolute root = true ∨ f.dir = "" ∧ f.written.check.resourcesDir = some "")) ∧
    (∀ args c, parse args = .ok (.check c) → c.resourcesDir ≠ some "") ∧
    (∀ disk workingDirectory environment named dir o,
      resolve disk workingDirectory environment named dir = .ok o →
        Sensible o ∧
        (∀ processors, processors ≠ some 0 → 1 ≤ o.checkSettings.workers processors) ∧
        ∀ s, o.serviceSettings? = some s →
          0 < s.pollInterval ∧ 0 < s.renderTimeout ∧ 0 < s.requestTimeout) ∧
    ∀ (o : Options) (environment : List (String × String)),
      ((∃ o', o.withEnvironment environment = .ok o') ↔ ∀ x ∈ environment, IsValid x) ∧
      ((∀ x ∈ environment, IsValid x) →
        o.withEnvironment environment = .ok (o.layered (lastValue? environment))) ∧
      (∀ environment', environment.Perm environment' → (environment.map (·.1)).Nodup →
        (o.withEnvironment environment).toOption = (o.withEnvironment environment').toOption) ∧
      o.withEnvironment (environment.filter fun x => x.1 ∈ variableNames) =
        o.withEnvironment environment := by
  refine ⟨fun c m online => ?_, fun args c h => resourcesDir_ne_empty h,
    fun disk workingDirectory environment named dir o h => ?_,
    fun o environment => ⟨isOk_withEnvironment, withEnvironment_eq,
      fun environment' => withEnvironment_perm, withEnvironment_filter o environment⟩⟩
  · cases ho : optionsFor m c.config c.script with
    | error e =>
      intro m' hm'
      rw [run_of_error ho hm']
      exact ⟨rfl, rfl⟩
    | ok o =>
      obtain ⟨f, hf, -, hvalid, hlayers, hs⟩ := resolve_eq_ok_iff.1 ho
      have hsettings := settings_eq (c := c) hlayers hs
      refine ⟨f, hf, hvalid, ?_, fun processors hp => ?_,
        fun hw hc root hroot => root_cases hw hc hroot⟩
      · rw [CheckCommand.run, ho, ← hsettings]
        rfl
      · rw [← hsettings]
        exact one_le_workers (fun _ => workers_settings c _ o) hp
  · obtain ⟨f, -, -, -, -, hs⟩ := resolve_eq_ok_iff.1 h
    exact ⟨hs, fun processors => one_le_workers fun _ => workers_checkSettings o,
      fun s => hs.times⟩

end

/-! ## A settings file by its side -/

/-- A machine with a settings file in its working directory. -/
def machineWith (text : String) (environment : List (String × String)) : Machine Unit :=
  ⟨⟨[(["work"], .directory), (["work", "c.toml"], .file text.toUTF8)], "/work"⟩, environment,
    Web.unreachable⟩

/-- A check with a settings file and nothing else. -/
def checkWith (config : String) : CheckCommand :=
  ⟨"s.json", false, false, false, false, none, none, none, some config, false, false, .text⟩

/-- A settings file that allows two files at once and names an address, and an environment that
allows three files and then four. -/
def busyMachine : Machine Unit :=
  machineWith ("[validation]\nmax_workers = 2\nresources_dir = \"media\"\n" ++
    "[shotstack]\nedit_url = \"https://edit.test/v1\"\n")
    [("VALIDATION_MAX_WORKERS", "3"), ("HOME", "/root"), ("VALIDATION_MAX_WORKERS", " 4")]

theorem check_settings_layered_busy :
    ∃ f o, IsFileLayer busyMachine.tree.disk (some "c.toml") f ∧
      (checkWith "c.toml").run busyMachine ⟨(), busyMachine.tree, []⟩ =
        (checkWith "c.toml").runWith busyMachine ⟨(), busyMachine.tree, []⟩
          ((checkWith "c.toml").layered "/work" busyMachine.environment f) ∧
      ((checkWith "c.toml").layered "/work" busyMachine.environment f).maxWorkers = some 4 ∧
      optionsFor busyMachine (some "c.toml") "s.json" = .ok o ∧
      o.service.editUrl = some "https://edit.test/v1" ∧ IsWeb "https://edit.test/v1" ∧
      1 ≤ o.checkSettings.workers (some 2) := by
  obtain ⟨hlayers, -, hresolved, -⟩ := @check_settings_layered _ Unit
  have hlayers := hlayers (checkWith "c.toml") busyMachine ⟨(), busyMachine.tree, []⟩
  have hfound : ((optionsFor busyMachine (some "c.toml") "s.json").toOption.bind
      (·.service.editUrl)) = some "https://edit.test/v1" := by decide +kernel
  obtain ⟨o, ho, hurl⟩ := Option.bind_eq_some_iff.1 hfound
  rw [toOption_eq_some_iff] at ho
  rw [show optionsFor busyMachine (checkWith "c.toml").config (checkWith "c.toml").script = .ok o
    from ho] at hlayers
  obtain ⟨f, hf, -, hrun, -⟩ := hlayers
  obtain ⟨hsensible, hworkers, -⟩ := hresolved _ _ _ _ _ _ ho
  exact ⟨f, o, hf, hrun, rfl, ho, hurl, hsensible.editUrl _ hurl, hworkers _ (by decide)⟩

/-- An empty directory of media files in a settings file is made absolute only when the file is
named with its own directory. -/
theorem empty_root_stays :
    let root? (config : String) : Option (Option String) :=
      (optionsFor (machineWith "[validation]\nresources_dir = \"\"\n" []) (some config)
        "s.json").toOption.map fun o =>
          ((checkWith config).settings "/work" o.checkSettings).resourcesDir
    root? "c.toml" = some (some "") ∧ isAbsolute "" = false ∧
      root? "./c.toml" = some (some "/work/") ∧ isAbsolute "/work/" = true := by
  decide +kernel

end VideoScript.Command
