import VideoScript.Assembly.Run

/-!
# The script of an assembly

An assembly reads its script and no other file: what files hold does not matter to look-ups
(`Media.probe_withText`), nor to anything that comes after the script has been read. So a workshop
with another script does what the workshop itself would do with the document that this script writes
(`assemble_withScript`).
-/

set_option autoImplicit false

namespace VideoScript

open Json Media

/-- The disk with a text in the file at a path. -/
def Disk.withText (disk : Disk) (path text : String) : Disk :=
  { disk with read := fun p => if p = path then .ok (Text.encode text) else disk.read p }

theorem Disk.readText_withText (disk : Disk) (path text : String) :
    (disk.withText path text).readText path = .ok text := by
  have hread : (disk.withText path text).read path = .ok (Text.encode text) := if_pos rfl
  rw [readText, hread]
  dsimp only [bind, Except.bind]
  rw [Text.decode?_encode]
  rfl

/-- What files hold does not matter to look-ups. -/
theorem Media.probe_withText (disk : Disk) (path text : String) :
    probe (disk.withText path text) = probe disk := by
  have hfrom (first : String) (places : List String) :
      probeFrom (disk.withText path text) first places = probeFrom disk first places := by
    induction places with
    | nil => rfl
    | cons place rest ih =>
      rw [probeFrom, probeFrom, ih]
      rfl
  exact funext fun places => hfrom _ places

namespace Assembly

section
variable {σ : Type}

/-- The workshop with a text in the file at a path. -/
def Workshop.withScript (a : Workshop σ) (path text : String) : Workshop σ :=
  { a with here := { a.here with disk := a.here.disk.withText path text } }

variable (a : Workshop σ) (path text : String)

theorem uploadEach_withScript (shelf : Shelf) (total : Nat) : ∀ raws index,
    uploadEach (a.withScript path text) shelf total index raws = uploadEach a shelf total index raws
  | [], _ => rfl
  | raw :: rest, index => by
    rw [uploadEach, uploadEach, uploadEach_withScript shelf total rest (index + 1)]
    rfl

theorem renderStep_withScript (order : Order) (doc : Document) (baseDir : String)
    (report : Option Report) :
    renderStep (a.withScript path text) order doc baseDir report =
      renderStep a order doc baseDir report := by
  unfold renderStep
  dsimp only
  rw [uploadEach_withScript]
  rfl

theorem checkDocument_withScript (settings : CheckSettings) (doc : Document) (baseDir : String) :
    checkDocument (a.withScript path text).here settings doc baseDir =
      checkDocument a.here settings doc baseDir := by
  have hfiles : fileFindings a.here.schedule (a.here.disk.withText path text) settings
      (shelfOf settings baseDir doc) (references doc) =
        fileFindings a.here.schedule a.here.disk settings (shelfOf settings baseDir doc)
          (references doc) := by
    unfold fileFindings probeTogether probeInTurn
    rw [probe_withText]
  unfold checkDocument Workshop.withScript
  dsimp only
  rw [hfiles]

theorem checkText_withScript (settings : CheckSettings) (script baseDir : String) :
    checkText (a.withScript path text).here settings script baseDir =
      checkText a.here settings script baseDir := by
  unfold checkText checkJson
  simp only [checkDocument_withScript]

theorem checkStep_withScript (order : Order) (script baseDir : String) :
    checkStep (a.withScript path text) order script baseDir = checkStep a order script baseDir := by
  unfold checkStep
  rw [← checkText_withScript a path text]
  rfl

/-- Checks a document, unless the order or the settings say otherwise. -/
def checkDocumentStep (order : Order) (doc : Document) (baseDir : String) :
    Step σ (Option Report) := do
  if order.skipChecks || a.check.skipChecks then
    tell .validationSkipped
    return none
  else
    let report ← orStop .unchecked (checkDocument a.here a.check doc baseDir)
    if report.passed then
      tell (.validated (report.count .warning))
      return some report
    else throw (.failedCheck report)

/-- Assembles the video of a document. -/
def assembleDocument (order : Order) (doc : Document) : Step σ Outcome := do
  let baseDir := scriptDirectory a.here.workingDirectory order.script
  let report ← checkDocumentStep a order doc baseDir
  renderStep a order doc baseDir report

variable {text}

/-- The check of a text that writes a document is the check of the document. -/
theorem checkStep_eq (order : Order) {doc : Document} (ht : parse text = .ok doc.toJson)
    (baseDir : String) :
    checkStep a order text baseDir = checkDocumentStep a order doc baseDir := by
  unfold checkStep checkDocumentStep
  cases hs : order.skipChecks || a.check.skipChecks with
  | true => rfl
  | false =>
    have hskip : a.check.skipChecks = false := (Bool.or_eq_false_iff.1 hs).2
    have hcheck : checkText a.here a.check text baseDir =
        checkDocument a.here a.check doc baseDir := by
      rw [checkText, ht]
      dsimp only
      rw [checkJson, hskip, if_neg Bool.false_ne_true]
      rfl
    rw [hcheck]

/-- A workshop with a script assembles the document that this script writes. -/
theorem assemble_withScript (order : Order) {doc : Document} (ht : parse text = .ok doc.toJson) :
    assemble (a.withScript order.script text) order = assembleDocument a order doc := by
  have hread : (a.withScript order.script text).here.disk.readText order.script = .ok text :=
    Disk.readText_withText _ _ _
  have hdoc : readDocument text = .ok doc := by
    unfold readDocument
    rw [ht]
    rfl
  unfold assemble
  rw [hread]
  show (checkStep (a.withScript order.script text) order text _ >>= fun report =>
    orStop .invalidScript (readDocument text) >>= fun doc =>
      renderStep (a.withScript order.script text) order doc _ report) = _
  rw [hdoc]
  simp only [checkStep_withScript, renderStep_withScript, checkStep_eq a order ht]
  rfl

end

end Assembly

end VideoScript
