import VideoScript.Command.Run
import VideoScript.Proofs.Check
import VideoScript.Proofs.Command.CheckArguments
import VideoScript.Proofs.Media.Sequential

/-!
# The number with which a check ends

A check comes to a verdict: a report, or what keeps it from its work (`CheckCommand.verdict`). It
shows the report, and the number with which the program ends is 0 exactly when the report passes
(`run_eq`, `code_eq_zero_iff`). How the report is shown plays no part in the verdict
(`verdict_shown`), and strict mode judges the same findings more strictly (`verdict_strict`).

`lookUps` lists what a check looks up on the disk; the disk keeps the check of a text from its work
exactly when one of them fails (`checkText_error_iff`).
-/

set_option autoImplicit false

namespace VideoScript

open Json Disk

/-! ## Look-ups -/

section
variable {here : Surroundings} {settings : CheckSettings} {text baseDir : String} {doc : Document}

/-- The places of each reference of a document, when they are looked up. -/
def documentLookUps (settings : CheckSettings) (baseDir : String) (doc : Document) :
    List (List String) :=
  if settings.skipFiles then []
  else (Media.references doc).map fun r => (shelfOf settings baseDir doc).candidates r.raw

/-- What the check of a text looks up. -/
def lookUps (settings : CheckSettings) (text baseDir : String) : List (List String) :=
  if settings.skipChecks then []
  else match (parse text).toOption.bind Document.ofJson? with
    | none => []
    | some doc => documentLookUps settings baseDir doc

/-- The disk fails a look-up. -/
def LookUpFails (disk : Disk) (places : List String) : Prop :=
  ∃ e, Media.probe disk places = .error e

theorem fileFindings_error_iff : (∃ e, Media.fileFindings here.schedule here.disk settings
      (shelfOf settings baseDir doc) (Media.references doc) = .error e) ↔
    ∃ places ∈ documentLookUps settings baseDir doc, LookUpFails here.disk places := by
  unfold documentLookUps
  cases hf : settings.skipFiles with
  | true => simp [Media.fileFindings, hf]
  | false =>
    rw [Media.fileFindings_error_iff_probe _ _ hf]
    simp [LookUpFails]

theorem checkDocument_error_iff : (∃ e, checkDocument here settings doc baseDir = .error e) ↔
    ∃ places ∈ documentLookUps settings baseDir doc, LookUpFails here.disk places := by
  rw [← fileFindings_error_iff]
  unfold checkDocument
  dsimp only
  cases Media.fileFindings here.schedule here.disk settings (shelfOf settings baseDir doc)
    (Media.references doc) <;> simp [Except.mapError, bind, Except.bind, pure, Except.pure]

theorem checkText_error_iff : (∃ e, checkText here settings text baseDir = .error e) ↔
    ∃ places ∈ lookUps settings text baseDir, LookUpFails here.disk places := by
  unfold checkText lookUps
  cases parse text with
  | error e => cases settings.skipChecks <;> simp [Except.toOption]
  | ok value =>
    dsimp only
    unfold checkJson
    cases settings.skipChecks with
    | true => simp
    | false =>
      simp only [Except.toOption, Option.bind_some, Bool.false_eq_true, if_false]
      cases Document.ofJson? value with
      | none => simp
      | some doc => exact checkDocument_error_iff

theorem checkText_ok_iff : (∃ report, checkText here settings text baseDir = .ok report) ↔
    ∀ places ∈ lookUps settings text baseDir, ¬ LookUpFails here.disk places := by
  have herror := @checkText_error_iff here settings text baseDir
  cases h : checkText here settings text baseDir with
  | error e =>
    rw [h] at herror
    obtain ⟨places, hp, hfails⟩ := herror.1 ⟨e, rfl⟩
    exact iff_of_false nofun fun hall => hall places hp hfails
  | ok report =>
    rw [h] at herror
    refine ⟨fun _ places hp hfails => ?_, fun _ => ⟨report, rfl⟩⟩
    obtain ⟨e, he⟩ := herror.2 ⟨places, hp, hfails⟩
    cases he

theorem checkFile_eq_ok_iff {path : String} {report : Report} :
    checkFile here settings path = .ok report ↔ ∃ text, here.disk.readText path = .ok text ∧
      checkText here settings text (scriptDirectory here.workingDirectory path) = .ok report := by
  unfold checkFile
  cases here.disk.readText path with
  | error failure => simp [Except.mapError, bind, Except.bind]
  | ok text => simp [Except.mapError, bind, Except.bind]

theorem strict_of_checkText {report : Report}
    (h : checkText here settings text baseDir = .ok report) : report.strict = settings.strict := by
  unfold checkText checkJson at h
  split at h
  · split at h
    · cases h
      rfl
    · split at h
      · cases h
        rfl
      · obtain ⟨files, -, rfl⟩ := report_of_checkDocument h
        rfl
  · cases h
    rfl

/-! ## Strict mode -/

/-- A report that counts warnings. -/
def Report.asStrict (report : Report) : Report := { report with strict := true }

theorem passed_of_asStrict {report : Report} (h : report.asStrict.passed = true) :
    report.passed = true := by
  rw [passed_iff] at h ⊢
  exact fun f hf => ⟨(h f hf).1, fun _ => (h f hf).2 rfl⟩

theorem checkDocument_strict (here : Surroundings) (settings : CheckSettings) (doc : Document)
    (baseDir : String) : checkDocument here { settings with strict := true } doc baseDir =
      (checkDocument here settings doc baseDir).map Report.asStrict := by
  -- strict mode plays no part in the look-ups
  have hfiles : Media.fileFindings here.schedule here.disk { settings with strict := true }
      (shelfOf { settings with strict := true } baseDir doc) (Media.references doc) =
        Media.fileFindings here.schedule here.disk settings (shelfOf settings baseDir doc)
          (Media.references doc) := rfl
  unfold checkDocument
  dsimp only
  rw [hfiles]
  cases Media.fileFindings here.schedule here.disk settings (shelfOf settings baseDir doc)
    (Media.references doc) <;> rfl

theorem checkJson_strict (here : Surroundings) (settings : CheckSettings) (value : Json)
    (baseDir : String) : checkJson here { settings with strict := true } value baseDir =
      (checkJson here settings value baseDir).map Report.asStrict := by
  unfold checkJson
  dsimp only
  cases settings.skipChecks with
  | true => rfl
  | false =>
    cases Document.ofJson? value with
    | none => rfl
    | some doc => exact checkDocument_strict here settings doc baseDir

theorem checkText_strict (here : Surroundings) (settings : CheckSettings) (text baseDir : String) :
    checkText here { settings with strict := true } text baseDir =
      (checkText here settings text baseDir).map Report.asStrict := by
  unfold checkText
  cases parse text with
  | error e => rfl
  | ok value => exact checkJson_strict here settings value baseDir

theorem checkFile_strict (here : Surroundings) (settings : CheckSettings) (path : String) :
    checkFile here { settings with strict := true } path =
      (checkFile here settings path).map Report.asStrict := by
  unfold checkFile
  cases here.disk.readText path with
  | error failure => rfl
  | ok text => exact checkText_strict here settings text _

end

namespace Command

open Render

section
variable [Web.UrlReader] {ν : Type} {m : Machine ν} {c c' : CheckCommand}

/-! ## The verdict -/

/-- What a check comes to: a report, or what keeps it from its work. -/
def CheckCommand.verdict (c : CheckCommand) (m : Machine ν) : Except RunError Report :=
  match optionsFor m c.config c.script with
  | .error e => .error (.options e)
  | .ok o => (checkFile (.ofTree m.tree) (c.settings m.tree.workingDirectory o.checkSettings)
      c.script).mapError .check

/-- The findings of a check, or what keeps it from its work. -/
def CheckCommand.findings (c : CheckCommand) (m : Machine ν) : Except RunError (List Finding) :=
  (c.verdict m).map (·.findings)

/-- Nothing keeps a check from its work, and its report passes. -/
structure Passes (c : CheckCommand) (m : Machine ν) (settings : CheckSettings) (text : String)
    (report : Report) : Prop where
  options : ∃ o, optionsFor m c.config c.script = .ok o ∧
    settings = c.settings m.tree.workingDirectory o.checkSettings
  script : m.tree.disk.readText c.script = .ok text
  looksUp : ∀ places ∈ lookUps settings text (scriptDirectory m.tree.workingDirectory c.script),
    ¬ LookUpFails m.tree.disk places
  checked : checkText (.ofTree m.tree) settings text
    (scriptDirectory m.tree.workingDirectory c.script) = .ok report
  noError : ∀ f ∈ report.findings, f.severity ≠ .error
  noWarning : settings.strict = true → ∀ f ∈ report.findings, f.severity ≠ .warning

/-- A check shows the report that it comes to, and its success is that of the report. -/
theorem run_eq (c : CheckCommand) (m : Machine ν) (online : Online ν) :
    ∃ verbose, c.run m online = match c.verdict m with
      | .ok report => ⟨c.show verbose report, none, report.passed, online⟩
      | .error e => failed online e := by
  unfold CheckCommand.run CheckCommand.verdict
  cases optionsFor m c.config c.script with
  | error e => exact ⟨false, rfl⟩
  | ok o =>
    dsimp only
    cases checkFile (.ofTree m.tree) (c.settings m.tree.workingDirectory o.checkSettings)
      c.script with
    | error e => exact ⟨false, rfl⟩
    | ok report => exact ⟨_, rfl⟩

theorem code_eq (c : CheckCommand) (m : Machine ν) (online : Online ν) :
    (c.run m online).code = match c.verdict m with
      | .ok report => if report.passed then 0 else 1
      | .error _ => 1 := by
  obtain ⟨verbose, hrun⟩ := run_eq c m online
  rw [hrun]
  cases c.verdict m <;> rfl

theorem shown_of_verdict {report : Report} (h : c.verdict m = .ok report) (online : Online ν) :
    ∃ verbose, (c.run m online).shown = c.show verbose report := by
  obtain ⟨verbose, hrun⟩ := run_eq c m online
  rw [hrun, h]
  exact ⟨verbose, rfl⟩

theorem code_eq_zero_iff_passed (c : CheckCommand) (m : Machine ν) (online : Online ν) :
    (c.run m online).code = 0 ↔ ∃ report, c.verdict m = .ok report ∧ report.passed = true := by
  rw [code_eq]
  cases c.verdict m with
  | error e => simp
  | ok report => cases hp : report.passed <;> simp [hp]

theorem code_le_one (c : CheckCommand) (m : Machine ν) (online : Online ν) :
    (c.run m online).code = 0 ∨ (c.run m online).code = 1 := by
  rw [code_eq]
  cases c.verdict m with
  | error e => exact .inr rfl
  | ok report => cases hp : report.passed <;> simp [hp]

theorem verdict_eq_ok_iff {report : Report} : c.verdict m = .ok report ↔
    ∃ o text, optionsFor m c.config c.script = .ok o ∧ m.tree.disk.readText c.script = .ok text ∧
      checkText (.ofTree m.tree) (c.settings m.tree.workingDirectory o.checkSettings) text
        (scriptDirectory m.tree.workingDirectory c.script) = .ok report := by
  unfold CheckCommand.verdict
  cases optionsFor m c.config c.script with
  | error e => simp
  | ok o =>
    dsimp only
    rw [mapError_eq_ok_iff, checkFile_eq_ok_iff]
    simp [Surroundings.ofTree]

theorem code_eq_zero_iff (c : CheckCommand) (m : Machine ν) (online : Online ν) :
    (c.run m online).code = 0 ↔ ∃ settings text report, Passes c m settings text report := by
  rw [code_eq_zero_iff_passed]
  constructor
  · rintro ⟨report, hverdict, hpassed⟩
    obtain ⟨o, text, ho, htext, hreport⟩ := verdict_eq_ok_iff.1 hverdict
    have hclean := passed_iff.1 hpassed
    refine ⟨_, text, report, ⟨o, ho, rfl⟩, htext, checkText_ok_iff.1 ⟨report, hreport⟩, hreport,
      fun f hf => by simpa [Finding.isError] using (hclean f hf).1, fun hs f hf => ?_⟩
    rw [← strict_of_checkText hreport] at hs
    simpa [Finding.isWarning] using (hclean f hf).2 hs
  · rintro ⟨settings, text, report, ⟨o, ho, rfl⟩, htext, -, hreport, herror, hwarning⟩
    refine ⟨report, verdict_eq_ok_iff.2 ⟨o, text, ho, htext, hreport⟩, passed_iff.2 fun f hf => ?_⟩
    refine ⟨by simpa [Finding.isError] using herror f hf, fun hs => ?_⟩
    rw [strict_of_checkText hreport] at hs
    simpa [Finding.isWarning] using hwarning hs f hf

/-! ## What plays no part -/

theorem output_of_quiet (h : c.quiet = true) (online : Online ν) :
    (c.run m online).output = "" := by
  obtain ⟨verbose, hrun⟩ := run_eq c m online
  rw [hrun]
  cases c.verdict m with
  | error e => rfl
  | ok report =>
    dsimp only
    rw [Result.output, CheckCommand.show, h]
    rfl

/-- How the report is shown plays no part in the verdict. -/
theorem verdict_shown (c : CheckCommand) (m : Machine ν) (verbose quiet : Bool)
    (form : ReportForm) : CheckCommand.verdict { c with verbose, quiet, form } m = c.verdict m := rfl

theorem verdict_strict (c : CheckCommand) (m : Machine ν) :
    CheckCommand.verdict { c with strict := true } m = (c.verdict m).map Report.asStrict := by
  unfold CheckCommand.verdict
  dsimp only
  cases optionsFor m c.config c.script with
  | error e => rfl
  | ok o =>
    have hsettings : CheckCommand.settings { c with strict := true } m.tree.workingDirectory
        o.checkSettings =
          { c.settings m.tree.workingDirectory o.checkSettings with strict := true } := by
      simp [CheckCommand.settings]
    dsimp only
    rw [hsettings, checkFile_strict]
    cases checkFile (.ofTree m.tree) (c.settings m.tree.workingDirectory o.checkSettings) c.script
      <;> rfl

end

/-! ## The whole -/

/-- **The number of a check is its verdict.** The program ends with 0 exactly when there are
options, the script can be read as text, the disk fails no look-up, and no finding is an error nor,
in strict mode, a warning; it ends with 1 otherwise. What it shows is its report, and a quiet check
shows nothing. Options that say how the
report is shown may be put into the command line or taken out of it: the number and the findings
stay as they are. The option for strict mode leaves the findings as they are, and no check that
fails without it passes with it. -/
theorem exit_code_is_verdict [Web.Library] {ν : Type} (m : Machine ν) (network : ν)
    {args : List String} {c : CheckCommand} (h : parse args = .ok (.check c)) :
    let result := run m network (.check c)
    (result.code = 0 ↔ ∃ settings text report, Passes c m settings text report) ∧
    (result.code = 0 ∨ result.code = 1) ∧
    (∀ report, c.verdict m = .ok report → ∃ verbose, result.shown = c.show verbose report) ∧
    (c.quiet = true → result.output = "") ∧
    (∀ before extra after c', args = "check" :: (before ++ after) → ShownOption extra →
      parse ("check" :: (before ++ (extra ++ after))) = .ok (.check c') →
        (run m network (.check c')).code = result.code ∧ c'.findings m = c.findings m) ∧
    (∀ before after c', args = "check" :: (before ++ after) →
      parse ("check" :: (before ++ (["--strict"] ++ after))) = .ok (.check c') →
        c'.findings m = c.findings m ∧
          (result.code = 1 → (run m network (.check c')).code = 1)) := by
  let online : Online ν := ⟨network, m.tree, []⟩
  refine ⟨code_eq_zero_iff c m online, code_le_one c m online,
    fun report hr => shown_of_verdict hr online, fun hq => output_of_quiet hq online, ?_, ?_⟩
  · rintro before extra after c' rfl hextra h'
    have hverdict : c'.verdict m = c.verdict m := by
      rw [eq_of_shownOption hextra h h', verdict_shown]
    refine ⟨?_, by rw [CheckCommand.findings, hverdict, CheckCommand.findings]⟩
    show (c'.run m online).code = (c.run m online).code
    rw [code_eq, hverdict, code_eq]
  · rintro before after c' rfl h'
    have hverdict : c'.verdict m = (c.verdict m).map Report.asStrict := by
      rw [eq_of_strict h h']
      exact (verdict_shown { c with strict := true } m _ _ _).trans (verdict_strict c m)
    refine ⟨?_, fun hfailed => (code_le_one c' m online).resolve_left fun hpassed => ?_⟩
    · rw [CheckCommand.findings, hverdict, CheckCommand.findings]
      cases c.verdict m <;> rfl
    -- the strict report passes, and so does the same report when warnings do not count
    · obtain ⟨strict, hstrict, hp⟩ := (code_eq_zero_iff_passed c' m online).1 hpassed
      rw [hverdict] at hstrict
      cases hv : c.verdict m with
      | error e =>
        rw [hv] at hstrict
        cases hstrict
      | ok report =>
        rw [hv] at hstrict
        cases hstrict
        have hzero := (code_eq_zero_iff_passed c m online).2 ⟨report, hv, passed_of_asStrict hp⟩
        exact absurd (hzero.symm.trans hfailed) (by decide)

/-- A machine with a script whose format is not spelled as it is known. -/
def warnedMachine : Machine Unit :=
  let text := "\x7b\"timeline\":\x7b\"tracks\":[\x7b\"clips\":[]\x7d]\x7d," ++
    "\"output\":\x7b\"format\":\"MP4\"\x7d\x7d"
  ⟨⟨[(["work"], .directory), (["work", "s.json"], .file text.toUTF8)], "/work"⟩, [],
    Web.unreachable⟩

/-- The check of that script. -/
def warnedCheck (strict quiet : Bool) : CheckCommand :=
  ⟨"s.json", strict, false, false, false, none, none, none, none, false, quiet, .text⟩

theorem exit_code_is_verdict_warned :
    let result (strict quiet : Bool) := run warnedMachine () (.check (warnedCheck strict quiet))
    parse ["check", "s.json"] = .ok (.check (warnedCheck false false)) ∧
      parse ["check", "s.json", "-q"] = .ok (.check (warnedCheck false true)) ∧
      parse ["check", "--strict", "s.json"] = .ok (.check (warnedCheck true false)) ∧
      (result false false).code = 0 ∧
      (∃ settings text report, Passes (warnedCheck false false) warnedMachine settings text report) ∧
      (result false true).code = 0 ∧ (result false true).output = "" ∧
      (result true false).code = 1 ∧
      (¬ ∃ settings text report,
        Passes (warnedCheck true false) warnedMachine settings text report) ∧
      (warnedCheck true false).findings warnedMachine =
        (warnedCheck false false).findings warnedMachine := by
  intro result
  have hplain : parse ["check", "s.json"] = .ok (.check (warnedCheck false false)) := rfl
  have hquiet : parse ["check", "s.json", "-q"] = .ok (.check (warnedCheck false true)) := rfl
  have hstrict : parse ["check", "--strict", "s.json"] = .ok (.check (warnedCheck true false)) := rfl
  have hzero : (result false false).code = 0 := by decide +kernel
  have hone : (result true false).code = 1 := by decide +kernel
  obtain ⟨hpasses, -, -, -, hshown, hgains⟩ := exit_code_is_verdict warnedMachine () hplain
  have hq := hshown ["s.json"] ["-q"] [] _ rfl (.letters (by simp)) hquiet
  have hs := hgains [] ["s.json"] _ rfl hstrict
  refine ⟨hplain, hquiet, hstrict, hzero, hpasses.1 hzero, hq.1.trans hzero,
    (exit_code_is_verdict warnedMachine () hquiet).2.2.2.1 rfl, hone, fun hp => ?_, hs.1⟩
  have hfailed := (exit_code_is_verdict warnedMachine () hstrict).1.2 hp
  exact absurd (hfailed.symm.trans hone) (by decide)

end Command

end VideoScript
