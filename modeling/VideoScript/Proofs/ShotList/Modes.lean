import VideoScript.Proofs.Assembly.Alike
import VideoScript.Proofs.Assembly.Destination
import VideoScript.Proofs.ShotList.Check
import VideoScript.Proofs.ShotList.Edit
import VideoScript.Proofs.ShotList.Written

/-!
# Both shapes of a shot list render one video

The documents that one shot list gives in the two shapes are twins (`Plan.twins`): they refer to the
same media files, go to the same place, get findings of the same severities, and their edits show
the same video once the files are uploaded. So they are assembled alike, call for call, and to the
same end (`modes_render_alike`).
-/

set_option autoImplicit false

namespace VideoScript.ShotList

open Json Text Placeholder Media Rules Assembly

variable {plan : Plan} {f : Json.Number → Json.Number}

/-! ## How severe the findings are -/

/-- How severe the findings about the numbers of a clip are does not depend on where it stands. -/
theorem severities_numberFindings (shot : Shot) (path path' : Path) :
    (shot.numberFindings f path).map (·.severity) =
      (shot.numberFindings f path').map (·.severity) := by
  simp only [Shot.numberFindings, List.map_append]
  rw [(atMostOneAt_volume _).severities _ (path'.key "asset"),
    (atMostOneAt_trim _).severities _ (path'.key "asset"),
    (atMostOneAt_length _).severities _ path']

namespace Plan

theorem severities_inDocument (hp : plan.Plain) (ht : plan.Tidy) :
    (ruleFindings (plan.inDocument .template f)).map (·.severity) =
      (ruleFindings (plan.inDocument .legacy f)).map (·.severity) := by
  rw [ruleFindings_inDocument hp ht, ruleFindings_inDocument hp ht]
  simp only [List.map_append, List.map_flatMap]
  refine congrArg (· ++ _ ++ _) (List.flatMap_congr fun x _ => ?_)
  exact severities_numberFindings x.1.shot _ _

/-! ## Twins -/

theorem toJson_inDocument (plan : Plan) (mode : Mode) :
    (plan.inDocument mode f).toJson = mapNumbers f (plan.document mode) := by
  rw [document_eq]
  rfl

/-- The documents of a plan are twins. -/
theorem twins (hp : plan.Plain) (ht : plan.Tidy)
    (hlegacy : WellFormed (plan.inDocument .legacy f).toJson)
    (htemplate : WellFormed (plan.inDocument .template f).toJson)
    (hlocal : ∀ file ∈ plan.mediaFiles, (diskPath? (trimChars file.toList)).isSome) :
    Twins SameVideo (plan.inDocument .legacy f) (plan.inDocument .template f) where
  raws := raws_inDocument hp ht .template
  resourcesDir := rfl
  name := rfl
  output := by rw [output?_inDocument, output?_inDocument]
  severities := severities_inDocument hp ht
  edits uploads hu :=
    sameVideo_of_uploads hp ht hlegacy hlocal (subset_of_perm (.of_eq hu)) htemplate

/-- A media file is a source of the legacy document. -/
theorem exists_leaf {file : String} (h : file ∈ plan.mediaFiles) :
    ∃ leaf ∈ leaves (plan.document .legacy),
      leaf.path.finalKey? = some "src" ∧ leaf.text = file := by
  obtain ⟨leaf, hl, hkey, htext⟩ := exists_source (timelinePath .legacy) h .legacy
  refine ⟨leaf, ?_, hkey, htext⟩
  rw [document_eq, leaves, leavesAt, memberLeaves_eq]
  exact List.mem_flatMap.2 ⟨("timeline", plan.timeline .legacy), by simp [members], hl⟩

end Plan

/-! ## The whole -/

/-- **Both shapes of a shot list render one video.** Take a shot list without braces all of whose
media files are on this machine, scripts for both of its documents, whose numbers may be read as
other ones, and a service that does not read the edits that it is given. Then the assemblies of both
scripts make the same calls but for the edits, tell the same events and end in the same way; and the
edits show one video. -/
theorem modes_render_alike {σ : Type} (a : Workshop σ) (order : Order) (s : σ) {text : String}
    {legacy template : Conversion} {script script' : String} (hplain : BraceFree text.toList)
    (hl : convert text .legacy = .ok legacy) (ht : convert text .template = .ok template)
    (hlocal : ∀ leaf ∈ leaves legacy.document, leaf.path.finalKey? = some "src" →
      (diskPath? (trimChars leaf.text.toList)).isSome)
    (ha : Unread a.service) (hs : parse script = .ok (mapNumbers f legacy.document))
    (hs' : parse script' = .ok (mapNumbers f template.document)) :
    let legacyRun := run (a.withScript order.script script) order s
    let templateRun := run (a.withScript order.script script') order s
    SameResult SameOutcome legacyRun.1 templateRun.1 ∧
      SameProgress SameVideo legacyRun.2 templateRun.2 := by
  obtain ⟨plan, hplan, rfl⟩ := readPlan_of_convert hl
  obtain ⟨plan', hplan', rfl⟩ := readPlan_of_convert ht
  obtain rfl : plan = plan' := Except.ok.inj (hplan.symm.trans hplan')
  rw [show (plan.convert .legacy).document = plan.document .legacy from rfl] at hs
  rw [show (plan.convert .template).document = plan.document .template from rfl] at hs'
  rw [← plan.toJson_inDocument] at hs hs'
  refine Twins.run (plan.twins (plain_of_readPlan hplan hplain) (tidy_of_readPlan hplan)
    (wellFormed_of_parse hs) (wellFormed_of_parse hs') fun file hfile => ?_) ha order s hs hs'
  obtain ⟨leaf, hleaf, hkey, rfl⟩ := Plan.exists_leaf hfile
  exact hlocal leaf hleaf hkey

/-- A shot list with music and a row whose length is no whole number. -/
def songList : String :=
  "## name: A\n## resources_dir: m\n## soundtrack: s\n| # |\n" ++
  "| 1 | a.mp4 | 0:05 | 2.5s | | | | | | |\n"

theorem modes_render_alike_song :
    let a := renderingWorkshop .null
    ∃ legacy template, convert songList .legacy = .ok legacy ∧
      convert songList .template = .ok template ∧ legacy.clips = 1 ∧
      BraceFree songList.toList ∧
      (∀ leaf ∈ leaves legacy.document, leaf.path.finalKey? = some "src" →
        (diskPath? (trimChars leaf.text.toList)).isSome) ∧
      Unread a.service ∧
      parse legacy.fileText = .ok (mapNumbers Number.reread legacy.document) ∧
      parse template.fileText = .ok (mapNumbers Number.reread template.document) ∧
      let legacyRun := run (a.withScript checkedOrder.script legacy.fileText) checkedOrder ()
      let templateRun := run (a.withScript checkedOrder.script template.fileText) checkedOrder ()
      legacyRun.1.isOk = true ∧ SameResult SameOutcome legacyRun.1 templateRun.1 ∧
        SameProgress SameVideo legacyRun.2 templateRun.2 := by
  intro a
  have hplain : BraceFree songList.toList := all_isPlain_iff.1 (by decide +kernel)
  have htemplate : (convert songList .template).isOk = true := by decide +kernel
  have hfound : ((convert songList .legacy).toOption.bind fun c =>
      (Document.ofJson? (mapNumbers Number.reread c.document)).map fun doc =>
        (c.clips, ((assembleDocument a checkedOrder doc).run.run (.start ())).1.isOk)) =
        some (1, true) := by decide +kernel
  have hread : (((convert songList .legacy).toOption.map fun c => numbers c.document).any fun ns =>
      ns.all fun n => (soleNumber? n.text).isSome) = true := by decide +kernel
  have hhere : (((convert songList .legacy).toOption.map fun c => leaves c.document).any fun ls =>
      ls.all fun leaf => (diskPath? (trimChars leaf.text.toList)).isSome) = true := by
    decide +kernel
  obtain ⟨template, ht⟩ := exists_of_isOk htemplate
  obtain ⟨legacy, hl, hfound⟩ := Option.bind_eq_some_iff.1 hfound
  obtain ⟨doc, hdoc, hfound⟩ := Option.map_eq_some_iff.1 hfound
  rw [hl, Option.map_some, Option.any_some, List.all_eq_true] at hread hhere
  rw [toOption_eq_some_iff] at hl
  obtain ⟨hclips, hok⟩ := Prod.mk.inj hfound
  have hlocal : ∀ leaf ∈ leaves legacy.document, leaf.path.finalKey? = some "src" →
      (diskPath? (trimChars leaf.text.toList)).isSome := fun leaf hleaf _ => hhere leaf hleaf
  have ha : Unread a.service := fun _ _ _ => ⟨rfl, rfl⟩
  have hs {mode : Mode} {c : Conversion} (hc : convert songList mode = .ok c) :
      parse c.fileText = .ok (mapNumbers Number.reread c.document) :=
    parse_fileText hl hc fun x hx => hread _ hx
  have hend : (run (a.withScript checkedOrder.script legacy.fileText) checkedOrder ()).1.isOk =
      true := by
    have hparse := hs hl
    rw [eq_toJson_of_ofJson? hdoc] at hparse
    rw [run, assemble_withScript a checkedOrder hparse]
    exact hok
  exact ⟨legacy, template, hl, ht, hclips, hplain, hlocal, ha, hs hl, hs ht, hend,
    modes_render_alike a checkedOrder () hplain hl ht hlocal ha (hs hl) (hs ht)⟩

end VideoScript.ShotList
