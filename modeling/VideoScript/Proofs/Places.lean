import VideoScript.Proofs.Check
import VideoScript.Proofs.Media.References
import VideoScript.Proofs.Rules.Places

/-!
# Where findings point

Every finding of a check stands at a place of the value that is checked: at a part of it, or at a
member that one of its objects lacks. The locations that a finding lists are those of strings
(`findings_point_into`). So whoever shows findings in an editor can go by their paths.
-/

set_option autoImplicit false

namespace VideoScript

open Json Disk

variable {here : Surroundings} {settings : CheckSettings} {baseDir : String} {doc : Document}

namespace Media

/-- The locations of a distinct path are those of strings, and there is a first one. -/
theorem leaf_of_group {raw : String} {locations : List Path}
    (h : (raw, locations) ∈ grouped (references doc)) :
    locations ≠ [] ∧ ∀ path ∈ locations, ∃ leaf ∈ leaves doc.toJson, path = leaf.path := by
  rw [grouped_eq] at h
  obtain ⟨raw, hraw, he⟩ := List.mem_map.1 h
  cases he
  refine ⟨?_, fun path hp => ?_⟩
  · obtain ⟨r, hr, rfl⟩ := List.mem_map.1 (List.mem_eraseDups.1 hraw)
    exact List.ne_nil_of_mem (List.mem_map_of_mem (List.mem_filter.2 ⟨hr, decide_eq_true rfl⟩))
  · obtain ⟨r, hr, rfl⟩ := List.mem_map.1 hp
    obtain ⟨timeline, ht, leaf, hl, hleaf⟩ := exists_leaf (List.mem_of_mem_filter hr)
    have hscanned := Placeholder.timelineLeaves_subset ht hl
    rw [Placeholder.scannedLeaves_eq] at hscanned
    exact ⟨leaf, List.mem_of_mem_filter hscanned, (reference?_eq_some hleaf).1⟩

/-- A finding about a media file stands at the first of its locations and lists all or none. -/
theorem places_of_probeFinding? {raw : String} {first : Path} {rest : List Path} {answer : Probe}
    {f : Finding} (h : probeFinding? raw (first :: rest) answer = some f) :
    f.field = first.shown ∧ ∀ shown ∈ f.locations, ∃ path ∈ first :: rest, shown = path.shown := by
  have hmake (message path : String) (shown : String)
      (hs : shown ∈ (probeFinding?.make raw (first :: rest) message path).locations) :
      ∃ path ∈ first :: rest, shown = path.shown := by
    unfold probeFinding?.make Finding.seenAt at hs
    dsimp only at hs
    split at hs
    · obtain ⟨path, hp, rfl⟩ := List.mem_map.1 hs
      exact ⟨path, hp, rfl⟩
    · cases hs
  cases answer <;> cases h <;> exact ⟨rfl, hmake _ _⟩

theorem fileFindings_into (hw : WellFormed doc.toJson) {shelf : Shelf} {findings : List Finding}
    (h : fileFindings here.schedule here.disk settings shelf (references doc) = .ok findings) :
    AllInto doc.toJson findings := by
  intro f hf
  obtain ⟨raw, locations, answer, hgroup, hfinding⟩ := mem_fileFindings h hf
  obtain ⟨hne, hleaf⟩ := leaf_of_group hgroup
  obtain ⟨first, rest, rfl⟩ := List.exists_cons_of_ne_nil hne
  obtain ⟨hfield, hlocations⟩ := places_of_probeFinding? hfinding
  obtain ⟨leaf, hl, rfl⟩ := hleaf first List.mem_cons_self
  refine ⟨⟨leaf.path, .part (.of_leaf hw hl), hfield⟩, fun shown hs => ?_⟩
  obtain ⟨path, hp, rfl⟩ := hlocations shown hs
  obtain ⟨other, ho, rfl⟩ := hleaf path hp
  exact ⟨other, ho, rfl⟩

end Media

/-- A template with a source that is used twice, and with members missing here and there. -/
def sparseTemplate : Json :=
  let clip : Json := .object
    [("asset", .object [("type", .string "video"), ("src", .string "a.mp4")]),
     ("length", .string "auto"), ("note", .string "{{ X }} or {{X}}")]
  .object
    [("template", .object [("timeline", .object
      [("soundtrack", .object [("src", .string "a.mp4")]),
       ("tracks", .array [.object [("clips", .array [clip, .null])], .object []])])]),
     ("merge", .array [.object [("find", .string "Y")]])]

/-- Where the findings about it stand when no media file is there. -/
def sparsePlaces : List (String × List String) :=
  let clip := "template.timeline.tracks[0].clips[0]"
  [(clip ++ ".start", []), (clip ++ ".length", []),
   ("template.timeline.tracks[0].clips[1]", []), ("template.timeline.tracks[1].clips", []),
   ("output", []), ("merge[0]", []), (clip ++ ".note", [clip ++ ".note", clip ++ ".note"]),
   ("merge[0].find", []),
   ("template.timeline.soundtrack.src",
    ["template.timeline.soundtrack.src", clip ++ ".asset.src"])]

/-- **Findings point at real places.** Every finding on a value stands at a part of it or at a member
that one of its objects lacks, and every location that it lists is the path of a string of it. -/
theorem findings_point_into {value : Json} {report : Report} (hw : WellFormed value)
    (hs : settings.skipChecks = false) (h : checkJson here settings value baseDir = .ok report) :
    ∀ f ∈ report.findings, PointsInto value f := by
  unfold checkJson at h
  rw [hs, if_neg (by decide)] at h
  split at h
  · have hroot : PartAt value .root value := rfl
    cases h
    exact AllInto.single (.part hroot)
  · rename_i doc hdoc
    obtain rfl := eq_toJson_of_ofJson? hdoc
    obtain ⟨files, hfiles, rfl⟩ := report_of_checkDocument h
    exact (ruleFindings_into hw).append (Media.fileFindings_into hw hfiles)

theorem findings_point_into_sparse :
    let here : Surroundings := .ofTree ⟨[], "/"⟩
    let settings := CheckSettings.standard
    WellFormed sparseTemplate ∧ settings.skipChecks = false ∧
      ∃ report, checkJson here settings sparseTemplate "/" = .ok report ∧
        report.findings.map (fun f => (f.field, f.locations)) = sparsePlaces ∧
        ∀ f ∈ report.findings, PointsInto sparseTemplate f := by
  intro here settings
  have hw : WellFormed sparseTemplate := by decide +kernel
  have hplaces : (checkJson here settings sparseTemplate "/").toOption.map (fun report =>
      report.findings.map fun f => (f.field, f.locations)) = some sparsePlaces := by
    decide +kernel
  obtain ⟨report, hr, hreport⟩ := Option.map_eq_some_iff.1 hplaces
  rw [toOption_eq_some_iff] at hr
  exact ⟨hw, rfl, report, hr, hreport, findings_point_into hw rfl hr⟩

end VideoScript
