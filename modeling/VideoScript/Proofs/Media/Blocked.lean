import VideoScript.Check
import VideoScript.Proofs.Disk.Walk
import VideoScript.Proofs.Media.Sequential

/-!
# Media files in a tree

What is closed in a tree is an answer, not a failure. So a look at a place fails only where the path
to it is blocked (`probeAt_error_iff`), and a look-up fails exactly when one of the places that it
visits is (`probe_error_iff`). A document decides
through its references which places are visited, so it can make its own check fail: a reference that
leads through a file does (`reference_through_file_fails_check`). Where no path is blocked, every
reference is found or reported (`check_fails_iff_blocked`).
-/

set_option autoImplicit false

namespace VideoScript.Media

open Json Disk

variable {tree : FileTree} {place : String} {places : List String} {refs : List Reference}

/-! ## Look-ups in a tree -/

theorem kind_tree (tree : FileTree) (place : String) :
    tree.disk.kind place = (tree.find place).map FileTree.Entry.kind := rfl

theorem opens_tree (tree : FileTree) (place : String) :
    tree.disk.opens place = tree.openAt place := rfl

theorem probeAt_of_blocked (h : tree.Blocked place) :
    ∃ e, probeAt tree.disk place = .error e := by
  obtain ⟨failure, hb, hf⟩ := FileTree.find_of_blocked h
  unfold probeAt
  rw [kind_tree, hf]
  cases hb <;> exact ⟨_, rfl⟩

theorem probeAt_of_not_blocked (h : ¬ tree.Blocked place) :
    ∃ answer, probeAt tree.disk place = .ok answer := by
  unfold probeAt
  rw [kind_tree, opens_tree, FileTree.openAt]
  rcases FileTree.find_of_not_blocked h with ⟨entry, hf⟩ | ⟨failure, hends, hf⟩
  · rw [hf]
    cases entry with
    | file | directory => exact ⟨_, rfl⟩
    | closed kind => cases kind <;> exact ⟨_, rfl⟩
  · rw [hf]
    cases hends <;> exact ⟨_, rfl⟩

theorem probeAt_error_iff : (∃ e, probeAt tree.disk place = .error e) ↔ tree.Blocked place := by
  refine ⟨fun ⟨e, he⟩ => ?_, probeAt_of_blocked⟩
  by_contra h
  obtain ⟨answer, ha⟩ := probeAt_of_not_blocked h
  rw [he] at ha
  cases ha

/-- A look-up fails exactly when a place that it visits is blocked. -/
theorem probe_error_iff : (∃ e, probe tree.disk places = .error e) ↔
    ∃ place ∈ visited tree.disk places, tree.Blocked place := by
  unfold probe
  generalize places.head?.getD "" = first
  induction places with
  | nil => simp [probeFrom, visited]
  | cons place rest ih =>
    rw [probeFrom, visited]
    cases hp : probeAt tree.disk place with
    | error e =>
      have hb : tree.Blocked place := probeAt_error_iff.1 ⟨e, hp⟩
      simp [hb]
    | ok answer =>
      have hb : ¬ tree.Blocked place := fun hb => by
        obtain ⟨e, he⟩ := probeAt_of_blocked hb
        rw [hp] at he
        cases he
      cases answer with
      -- nothing stands there, so the look-up goes on to the next place
      | none => simpa [hb] using ih
      | some answer => simp [hb]

/-! ## Findings or failure -/

/-- The findings about each path are among those about all of them. -/
theorem pathFindings_subset {look : String → Except ProbeError Probe} {raws : List String}
    {findings : List Finding} (h : sequentialFindings look refs raws = .ok findings) {raw : String}
    (hr : raw ∈ raws) : ∃ answer, look raw = .ok answer ∧
      pathFindings raw (locationsOf refs raw) answer ⊆ findings := by
  induction raws generalizing findings with
  | nil => cases hr
  | cons first rest ih =>
    rw [sequentialFindings] at h
    cases hl : look first with
    | error e =>
      rw [hl] at h
      cases h
    | ok answer =>
      cases hs : sequentialFindings look refs rest with
      | error e =>
        rw [hl, hs] at h
        cases h
      | ok others =>
        rw [hl, hs] at h
        cases h
        rcases List.mem_cons.1 hr with rfl | hr
        · exact ⟨answer, hl, List.subset_append_left _ _⟩
        · obtain ⟨answer', ha, hsub⟩ := ih hs hr
          exact ⟨answer', ha, List.subset_append_of_subset_right _ hsub⟩

/-- A finding is about the media file of a reference, and names the place of the reference. -/
structure ReportsFile (f : Finding) (r : Reference) : Prop where
  severity : f.severity = .error
  category : f.category = .file
  place : f.field = r.location.shown ∨ r.location.shown ∈ f.locations

theorem mem_locationsOf {r : Reference} (h : r ∈ refs) : r.location ∈ locationsOf refs r.raw :=
  List.mem_map_of_mem (List.mem_filter.2 ⟨h, by simp⟩)

/-- A path is found, or each place that names it is reported. -/
theorem found_or_reported {r : Reference} {locations : List Path} (hl : r.location ∈ locations)
    (answer : Probe) : (∃ path, answer = .found path) ∨
      ∃ f ∈ pathFindings r.raw locations answer, ReportsFile f r := by
  cases locations with
  | nil => cases hl
  | cons first others =>
    have hreport (words place : String) : ReportsFile
        { severity := .error
          category := .file
          field := first.shown
          message := words ++ ": '" ++ r.raw ++ "'"
          suggestion := some ("resolved to " ++ place)
          locations := if others = [] then [] else (first :: others).map Path.shown } r := by
      refine ⟨rfl, rfl, ?_⟩
      rcases List.mem_cons.1 hl with he | ho
      · exact .inl (by rw [he])
      · refine .inr ?_
        dsimp only
        rw [if_neg (List.ne_nil_of_mem ho)]
        exact List.mem_map_of_mem hl
    cases answer with
    | found path => exact .inl ⟨path, rfl⟩
    | missing | denied | notFile => exact .inr ⟨_, List.mem_singleton_self _, hreport _ _⟩

/-- Some reference leads to a blocked place, before any other place has decided its look-up. -/
def SomeBlocked (tree : FileTree) (shelf : Shelf) (refs : List Reference) : Prop :=
  ∃ r ∈ refs, ∃ place ∈ visited tree.disk (shelf.candidates r.raw), tree.Blocked place

section
variable {schedule : Schedule} {settings : CheckSettings} {shelf : Shelf}

theorem fileFindings_error_iff (schedule : Schedule) (hf : settings.skipFiles = false) :
    (∃ e, fileFindings schedule tree.disk settings shelf refs = .error e) ↔
      SomeBlocked tree shelf refs := by
  rw [fileFindings_error_iff_probe schedule tree.disk hf]
  simp only [probe_error_iff, SomeBlocked]

theorem readable_or_reported (hf : settings.skipFiles = false) {findings : List Finding}
    (h : fileFindings schedule tree.disk settings shelf refs = .ok findings) {r : Reference}
    (hr : r ∈ refs) : (∃ place ∈ shelf.candidates r.raw, Readable tree.disk place) ∨
      ∃ f ∈ findings, ReportsFile f r := by
  rw [fileFindings_eq _ _ _ _ hf, plainFindings_eq_sequential] at h
  have hm : r.raw ∈ distinctPaths refs := List.mem_eraseDups.2 (List.mem_map_of_mem hr)
  obtain ⟨answer, ha, hsub⟩ := pathFindings_subset h hm
  rcases found_or_reported (mem_locationsOf hr) answer with ⟨path, rfl⟩ | ⟨f, hmem, hreports⟩
  · obtain ⟨before, after, hplaces, -, hread⟩ := split_of_found ha
    exact .inl ⟨path, by simp [hplaces], hread⟩
  · exact .inr ⟨f, hsub hmem, hreports⟩

end

/-! ## Checks -/

/-- A script with a source below a file. -/
def belowFile : Document :=
  ⟨[("timeline", .object [("sound", .object [("src", .string "media/here.mp4/sound.mp3")])]),
    ("output", .object [("format", .string "mp4")])]⟩

/-- **When a check of media files fails.** In a tree of files and directories the look-up of the
media files of a document fails exactly when a reference leads to a blocked place, and the check as
a whole fails for no other reason. Where the look-up does not fail, a file that can be opened stands
at a place of each reference, or a finding reports the reference. -/
theorem check_fails_iff_blocked (schedule : Schedule) (tree : FileTree) (settings : CheckSettings)
    (baseDir : String) (doc : Document) (hf : settings.skipFiles = false) :
    ((∃ e, fileFindings schedule tree.disk settings (shelfOf settings baseDir doc)
        (references doc) = .error e) ↔
      SomeBlocked tree (shelfOf settings baseDir doc) (references doc)) ∧
    (∀ findings, fileFindings schedule tree.disk settings (shelfOf settings baseDir doc)
        (references doc) = .ok findings →
      ∀ r ∈ references doc,
        (∃ place ∈ (shelfOf settings baseDir doc).candidates r.raw, Readable tree.disk place) ∨
          ∃ f ∈ findings, ReportsFile f r) ∧
    ((∃ e, checkJson ⟨tree.disk, tree.workingDirectory, schedule⟩ settings doc.toJson baseDir =
        .error e) ↔
      settings.skipChecks = false ∧
        SomeBlocked tree (shelfOf settings baseDir doc) (references doc)) := by
  refine ⟨fileFindings_error_iff schedule hf,
    fun findings h r hr => readable_or_reported hf h hr, ?_⟩
  rw [← fileFindings_error_iff schedule hf]
  unfold checkJson
  cases settings.skipChecks with
  | true => simp
  | false =>
    show (∃ e, checkDocument _ settings doc baseDir = .error e) ↔ _
    unfold checkDocument
    dsimp only
    cases fileFindings schedule tree.disk settings (shelfOf settings baseDir doc)
      (references doc) <;> simp [Except.mapError, bind, Except.bind, pure, Except.pure]

theorem check_fails_iff_blocked_below_file :
    CheckSettings.standard.skipFiles = false ∧
      SomeBlocked hereTree (shelfOf .standard "/" belowFile) (references belowFile) := by
  have h := check_fails_iff_blocked .inOrder hereTree .standard "/" belowFile rfl
  have herror : ∃ e, fileFindings .inOrder hereTree.disk .standard
      (shelfOf .standard "/" belowFile) (references belowFile) = .error e :=
    ⟨⟨"/media/here.mp4/sound.mp3", .notDirectory⟩, by decide +kernel⟩
  exact ⟨rfl, h.1.1 herror⟩

/-- A script fails its check through a reference that leads through a file. -/
theorem reference_through_file_fails_check :
    CheckSettings.standard.skipFiles = false ∧ CheckSettings.standard.skipChecks = false ∧
      checkJson (.ofTree hereTree) .standard belowFile.toJson "/" =
        .error (.probing ⟨"/media/here.mp4/sound.mp3", .notDirectory⟩) :=
  ⟨rfl, rfl, by decide +kernel⟩

end VideoScript.Media
