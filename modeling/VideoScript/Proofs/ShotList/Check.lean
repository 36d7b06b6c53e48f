import VideoScript.Proofs.Check
import VideoScript.Proofs.Rules.Entries
import VideoScript.Proofs.ShotList.Document

/-!
# Checking the document of a plan

The rules find little in a document that comes from a shot list without braces: its placeholders and
its merge array fit (`coverage_inDocument`), its layout is right but for numbers of clips and the
frame rate (`layout_inDocument`), and its values are known but for the output format
(`values_inDocument`). What they find does not depend on the shape of the document, but for the paths
of the clips (`ruleFindings_inDocument`).
-/

set_option autoImplicit false

namespace VideoScript.ShotList

open Json Text Placeholder Rules

variable {plan : Plan} {mode : Mode} {f : Json.Number → Json.Number}

/-! ## Placeholders and the merge array -/

namespace Plan

theorem isNamed_entry {path name : String} :
    IsNamed (.object [("find", .string path), ("replace", .string "")]) name ↔ trim path = name := by
  show some (trim path) = some name ↔ _
  exact Option.some_inj

/-- Every media file has an entry. -/
theorem exists_entry {file : String} (h : file ∈ plan.mediaFiles) :
    ∃ entry ∈ plan.entries, IsNamed entry (trim file) := by
  rw [← List.mem_eraseDups, ← distinctMedia_eq] at h
  exact ⟨_, List.mem_map_of_mem h, isNamed_entry.2 rfl⟩

/-- The entry of a media file gives no findings. -/
theorem entryReport_entry (ht : plan.Tidy) {before after : List Json} {entry : Json}
    (h : plan.entries = before ++ entry :: after) (path : Path) :
    ∃ file ∈ plan.mediaFiles, IsNamed entry (trim file) ∧ entryReport path before entry = [] := by
  obtain ⟨files, rest, hfiles, rfl, hrest⟩ := List.map_eq_append_iff.1 h
  obtain ⟨file, later, rfl, rfl, rfl⟩ := List.map_eq_cons_iff.1 hrest
  have hnodup : (files ++ file :: later).Nodup := hfiles ▸ plan.distinctMedia_eq ▸ nodup_eraseDups _
  have hmem {path : String} (hp : path ∈ files ++ file :: later) : path ∈ plan.mediaFiles := by
    rw [← hfiles, plan.distinctMedia_eq] at hp
    exact List.mem_eraseDups.1 hp
  have hfile : file ∈ plan.mediaFiles := hmem (by simp)
  refine ⟨file, hfile, isNamed_entry.2 rfl, ?_⟩
  have hblank : trim file ≠ "" := fun he =>
    ht.trimChars_ne_nil hfile (String.ofList_eq_empty_iff.1 he)
  have hfirst : firstNamed? (files.map fun path =>
      .object [("find", .string path), ("replace", .string "")]) (trim file) = none := by
    rw [firstNamed?_eq_none_iff]
    rintro ⟨_, hentry, hnamed⟩
    obtain ⟨path, hp, rfl⟩ := List.mem_map.1 hentry
    have heq : path = file := ht.eq_of_trimChars (hmem (by simp [hp])) hfile
      (String.ofList_injective (isNamed_entry.1 hnamed))
    subst heq
    exact (List.nodup_append.1 hnodup).2.2 path hp path List.mem_cons_self rfl
  rw [entryReport, show partFindings path _ = [] from rfl, List.nil_append, nameWarnings]
  rw [show (entryName? _).map trim = some (trim file) from isNamed_entry.2 rfl]
  dsimp only
  rw [if_neg hblank, hfirst]
  rfl

theorem coverage_inDocument (hp : plan.Plain) (ht : plan.Tidy) :
    coverage (plan.inDocument mode f) (scan (plan.inDocument mode f)) = [] := by
  cases mode with
  | legacy =>
    have hnone : (scan (plan.inDocument .legacy f)).occurrences = [] :=
      List.eq_nil_iff_forall_not_mem.2 fun o ho => by cases (token_of_occurrence hp ht ho).1
    rw [coverage, merge?_legacy, grouped_eq_nil_iff.2 hnone]
    rfl
  | template =>
    have htokens : ∀ o ∈ (scan (plan.inDocument .template f)).occurrences, o.token ≠ "" :=
      fun _ => token_ne_empty
    by_cases hnone : plan.entries = []
    · have hnone' : (scan (plan.inDocument .template f)).occurrences = [] :=
        List.eq_nil_iff_forall_not_mem.2 fun o ho => by
          obtain ⟨-, file, hfile, -⟩ := token_of_occurrence hp ht ho
          obtain ⟨entry, hentry, -⟩ := exists_entry hfile
          rw [hnone] at hentry
          cases hentry
      rw [coverage, merge?_template, grouped_eq_nil_iff.2 hnone', hnone]
      rfl
    · rw [coverage_filled merge?_template hnone, filledMerge_eq htokens,
        List.append_eq_nil_iff, List.append_eq_nil_iff, List.flatMap_eq_nil_iff,
        List.flatMap_eq_nil_iff, List.map_eq_nil_iff, missingTokens_eq_nil_iff]
      refine ⟨⟨fun ⟨before, entry⟩ hmem => ?_, fun o ho => ?_⟩, fun ⟨before, entry⟩ hmem => ?_⟩
      · obtain ⟨front, after, he, rfl⟩ := mem_withPrior_iff.1 hmem
        obtain ⟨-, -, -, hreport⟩ := entryReport_entry ht he _
        exact hreport
      · obtain ⟨-, file, hfile, htoken⟩ := token_of_occurrence hp ht ho
        rw [htoken]
        exact exists_entry hfile
      · obtain ⟨front, after, he, rfl⟩ := mem_withPrior_iff.1 hmem
        obtain ⟨file, hfile, hnamed, -⟩ := entryReport_entry ht he .root
        obtain ⟨o, ho, htoken⟩ := exists_occurrence (f := f) hp ht hfile
        dsimp only [nameNotes]
        rw [Option.filter_eq_none_iff.2 fun name hname => ?_]
        · rfl
        · have hname := (newName?_eq_some_iff.1 hname).1
          rw [IsNamed, hnamed, Option.some.injEq] at hname
          simp only [decide_eq_true_eq, Decidable.not_not]
          rw [← hname, ← htoken]
          exact List.mem_map_of_mem ho

end Plan

/-! ## The layout of clips -/

/-- The members of a value; none when it is no object. -/
def membersOf (value : Json) : Members := value.members?.getD []

section
variable {shot : Shot} {dir : String} {path : Path}

theorem get?_asset (key : String) : (membersOf (shot.asset mode dir)).get? key =
    ((Members.get? [("type", .string (if shot.isVideo then "video" else "image")),
        ("src", .string (mode.source (mediaPath dir shot.resource)))] key).or
      (if key = "trim" then shot.trim.map seconds else none)).or
        (if key = "volume" then shot.volume.map seconds else none) := by
  show Members.get? (_ ++ memberIf "trim" _ ++ memberIf "volume" _) key = _
  rw [get?_append, get?_append, get?_memberIf, get?_memberIf]

theorem get?_clip (key : String) : (membersOf (shot.clip mode dir)).get? key =
    (((Members.get? [("asset", shot.asset mode dir), ("start", .string "auto"),
          ("length", seconds shot.length)] key).or
        (if key = "transition" then
          (if shot.transition.isEmpty then none else some (.object shot.transition)) else none)).or
      (if key = "effect" then (Vocabulary.effect.canonical? shot.effect).map .string else none)).or
        (if key = "filter" then (Vocabulary.filter.canonical? shot.filter).map .string
          else none) := by
  have htransition : Members.get? (if shot.transition.isEmpty then [] else
      [("transition", .object shot.transition)]) key = if key = "transition" then
        (if shot.transition.isEmpty then none else some (.object shot.transition)) else none := by
    split
    · exact (ite_self none).symm
    · exact Members.get?_cons _ _ _ _
  show Members.get? (_ ++ _ ++ vocabularyMember "effect" _ _ ++ vocabularyMember "filter" _ _) key = _
  rw [get?_append, get?_append, get?_append, vocabularyMember, vocabularyMember, get?_memberIf,
    get?_memberIf, htransition]

/-- What may be wrong with the numbers of a clip. -/
def Shot.numberFindings (shot : Shot) (f : Json.Number → Json.Number) (path : Path) :
    List Finding :=
  volumeFindings (memberIf "volume" ((shot.volume.map seconds).map (mapNumbers f))) (path.key "asset")
    ++ trimFindings (memberIf "trim" ((shot.trim.map seconds).map (mapNumbers f))) (path.key "asset")
    ++ lengthFindings [("length", mapNumbers f (seconds shot.length))] path

theorem isBlankText_source (hd : dir ≠ "") (mode : Mode) :
    isBlankText (mode.source (mediaPath dir shot.resource)) = false := by
  rw [isBlankText, Bool.eq_false_iff]
  intro hall
  cases mode with
  | legacy =>
    rw [Mode.source, toList_mediaPath hd] at hall
    exact absurd (List.all_eq_true.1 hall '/' (by simp)) (by decide)
  | template =>
    rw [toList_braced] at hall
    exact absurd (List.all_eq_true.1 hall '{' (by simp)) (by decide)

theorem volumeFindings_congr {a b : Members} (h : a.get? "volume" = b.get? "volume") :
    volumeFindings a path = volumeFindings b path := by
  unfold volumeFindings settled?
  rw [h]

theorem trimFindings_congr {a b : Members} (h : a.get? "trim" = b.get? "trim") :
    trimFindings a path = trimFindings b path := by
  unfold trimFindings settled?
  rw [h]

theorem lengthFindings_congr {a b : Members} (h : a.get? "length" = b.get? "length") :
    lengthFindings a path = lengthFindings b path := by
  unfold lengthFindings
  rw [h]

theorem contentFindings_asset (hd : dir ≠ "") :
    contentFindings (mapMembers f (membersOf (shot.asset mode dir))) path = [] := by
  have hkind : assetType? (mapMembers f (membersOf (shot.asset mode dir))) =
      some (if shot.isVideo then "video" else "image") := rfl
  have hkey : contentKey? (if shot.isVideo then "video" else "image") = some "src" := by
    split <;> rfl
  have hsrc : Members.get? (mapMembers f (membersOf (shot.asset mode dir))) "src" =
      some (Json.string (mode.source (mediaPath dir shot.resource))) := rfl
  rw [contentFindings, hkind, Option.bind_some, hkey]
  dsimp only
  rw [textFindings, hsrc]
  dsimp only
  rw [isBlankText_source hd, if_neg Bool.false_ne_true]

/-- The layout of a clip is right but for its numbers. -/
theorem clipItemFindings_clip (hd : dir ≠ "") :
    clipItemFindings path (mapNumbers f (shot.clip mode dir)) = shot.numberFindings f path := by
  have hasset : Members.get? (mapMembers f (membersOf (shot.clip mode dir))) "asset" =
      some (Json.object (mapMembers f (membersOf (shot.asset mode dir)))) := rfl
  have htype :
      typeFindings (mapMembers f (membersOf (shot.asset mode dir))) (path.key "asset") = [] := rfl
  have hstart : startFindings (mapMembers f (membersOf (shot.clip mode dir))) path = [] := rfl
  show clipFindings (mapMembers f (membersOf (shot.clip mode dir))) path = _
  rw [clipFindings, hasset, hstart]
  dsimp only
  rw [assetFindings, htype, contentFindings_asset hd, Shot.numberFindings, List.nil_append,
    List.append_nil]
  refine congrArg₂ (· ++ ·) (congrArg₂ (· ++ ·) ?_ ?_) ?_
  · refine volumeFindings_congr ?_
    rw [get?_mapMembers, get?_asset, get?_memberIf]
    rfl
  · refine trimFindings_congr ?_
    rw [get?_mapMembers, get?_asset, get?_memberIf, if_neg (show "trim" ≠ "volume" by decide),
      Option.or_none]
    rfl
  · exact lengthFindings_congr rfl

/-- The clips of a plan's timeline. -/
def Plan.clips (plan : Plan) (mode : Mode) : List Json :=
  plan.shots.map fun p => p.shot.clip mode plan.resourcesDir

theorem get?_tracks : (mapNumbers f (plan.timeline mode)).get? "tracks" =
    some (.array [.object [("clips", .array (mapItems f (plan.clips mode)))]]) := by
  have h : (plan.timeline mode).get? "tracks" =
      some (.array [.object [("clips", .array (plan.clips mode))]]) := by
    show Members.get? (memberIf "soundtrack" _ ++ memberIf "background" _ ++ _) "tracks" = _
    rw [get?_append, get?_append, get?_memberIf, get?_memberIf]
    rfl
  rw [get?_mapNumbers, h]
  rfl

/-- The layout of a timeline is right but for the numbers of its clips. -/
theorem timelineFindings_timeline (hd : plan.resourcesDir ≠ "") :
    timelineFindings path (mapNumbers f (plan.timeline mode)) =
      plan.shots.zipIdx.flatMap fun x =>
        x.1.shot.numberFindings f ((clipsPath path).index x.2) := by
  have hobject : mapNumbers f (plan.timeline mode) =
      .object (mapMembers f (membersOf (plan.timeline mode))) := rfl
  have htracks : (mapNumbers f (plan.timeline mode)).get? "tracks" =
      some (.array [.object [("clips", .array (mapItems f (plan.clips mode)))]]) := get?_tracks
  rw [hobject] at htracks
  have hclips : trackFindings ((path.key "tracks").index 0)
      (.object [("clips", .array (mapItems f (plan.clips mode)))]) =
        plan.shots.zipIdx.flatMap fun x =>
          x.1.shot.numberFindings f ((clipsPath path).index x.2) := by
    show ((mapItems f (plan.clips mode)).zipIdx.flatMap fun x =>
      clipItemFindings ((clipsPath path).index x.2) x.1) = _
    rw [mapItems_eq, Plan.clips, List.map_map, List.zipIdx_map, List.flatMap_map]
    exact List.flatMap_congr fun x _ => clipItemFindings_clip hd
  rw [hobject, timelineFindings]
  dsimp only
  rw [htracks]
  simp [hclips]

end

/-! ## The whole layout -/

namespace Plan

theorem layout_inDocument (ht : plan.Tidy) :
    layout (plan.inDocument mode f) =
      (plan.shots.zipIdx.flatMap fun x =>
          x.1.shot.numberFindings f ((clipsPath (timelinePath mode)).index x.2))
        ++ rateFindings (membersOf (mapNumbers f plan.output)) (Path.root.key "output") := by
  have hbody : bodyFindings (plan.inDocument mode f) =
      timelineFindings (timelinePath mode) (mapNumbers f (plan.timeline mode)) := by
    cases mode <;> rfl
  rw [layout, hbody, timelineFindings_timeline ht.dir, output?_inDocument]
  rfl

end Plan

/-! ## Values -/

section
variable {shot : Shot} {dir : String} {path : Path}

theorem valueFinding?_of_mem {kind : Vocabulary} {value : String} (h : value ∈ kind.values) :
    valueFinding? kind path (.string value) = none := by
  have haccepts : kind.accepts value = true := List.contains_iff_mem.2 h
  rw [valueFinding?, haccepts, Bool.true_or, if_pos rfl]

theorem memberFindings_word {kind : Vocabulary} {members : Members} {key cell : String}
    (h : members.get? key = (kind.canonical? cell).map .string) :
    memberFindings kind members path key = [] := by
  rw [memberFindings, h]
  cases hword : kind.canonical? cell with
  | none => rfl
  | some word =>
    dsimp only [Option.map_some]
    rw [valueFinding?_of_mem (List.mem_of_find?_eq_some hword)]
    rfl

theorem mapNumbers_word (kind : Vocabulary) (cell : String) :
    ((kind.canonical? cell).map Json.string).map (mapNumbers f) =
      (kind.canonical? cell).map Json.string := by
  rw [Option.map_map]
  rfl

theorem transitionFindings_clip :
    transitionFindings (mapMembers f (membersOf (shot.clip mode dir))) path = [] := by
  have hin : Members.get? (mapMembers f shot.transition) "in" =
      (Vocabulary.transition.canonical? shot.transitionIn).map .string := by
    rw [get?_mapMembers, Shot.transition, get?_append, vocabularyMember, vocabularyMember,
      get?_memberIf, get?_memberIf, if_pos rfl, if_neg (by decide), Option.or_none, mapNumbers_word]
  have hout : Members.get? (mapMembers f shot.transition) "out" =
      (Vocabulary.transition.canonical? shot.transitionOut).map .string := by
    rw [get?_mapMembers, Shot.transition, get?_append, vocabularyMember, vocabularyMember,
      get?_memberIf, get?_memberIf, if_pos rfl, if_neg (by decide), Option.none_or, mapNumbers_word]
  have htransition : Members.get? (mapMembers f (membersOf (shot.clip mode dir))) "transition" =
      if shot.transition.isEmpty then none
      else some (Json.object (mapMembers f shot.transition)) := by
    rw [get?_mapMembers, get?_clip, if_pos rfl, if_neg (show "transition" ≠ "effect" by decide),
      if_neg (show "transition" ≠ "filter" by decide), Option.or_none, Option.or_none]
    split <;> rfl
  rw [transitionFindings, htransition]
  split
  · rfl
  · rename_i sides hsides
    split at hsides
    · cases hsides
    · cases hsides
      rw [memberFindings_word hin, memberFindings_word hout]
      rfl
  · rename_i value hvalue hobject
    split at hobject
    · cases hobject
    · cases hobject
      exact absurd rfl (hvalue _)

/-- The values of a clip are known. -/
theorem clipValueFindings_clip :
    clipValueFindings ⟨mapMembers f (membersOf (shot.clip mode dir)), path⟩ = [] := by
  have hasset : Members.get? (mapMembers f (membersOf (shot.clip mode dir))) "asset" =
      some (Json.object (mapMembers f (membersOf (shot.asset mode dir)))) := rfl
  have htype : Members.get? (mapMembers f (membersOf (shot.asset mode dir))) "type" =
      some (Json.string (if shot.isVideo then "video" else "image")) := rfl
  have hkind : (if shot.isVideo then "video" else "image") ∈ Vocabulary.assetType.values := by
    split <;> decide
  have heffect : Members.get? (mapMembers f (membersOf (shot.clip mode dir))) "effect" =
      (Vocabulary.effect.canonical? shot.effect).map .string := by
    rw [get?_mapMembers, get?_clip, if_pos rfl, if_neg (show "effect" ≠ "transition" by decide),
      if_neg (show "effect" ≠ "filter" by decide), Option.or_none, Option.or_none]
    exact mapNumbers_word _ _
  have hfilter : Members.get? (mapMembers f (membersOf (shot.clip mode dir))) "filter" =
      (Vocabulary.filter.canonical? shot.filter).map .string := by
    rw [get?_mapMembers, get?_clip, if_pos rfl, if_neg (show "filter" ≠ "transition" by decide),
      if_neg (show "filter" ≠ "effect" by decide), Option.or_none, Option.or_none]
    exact mapNumbers_word _ _
  rw [clipValueFindings]
  dsimp only
  rw [hasset, transitionFindings_clip, memberFindings_word heffect, memberFindings_word hfilter]
  dsimp only
  rw [textMemberFindings, htype]
  dsimp only
  rw [valueFinding?_of_mem hkind]
  rfl

end

namespace Plan

theorem clips_inDocument :
    (plan.inDocument mode f).clips = plan.shots.zipIdx.map fun x =>
      ⟨mapMembers f (membersOf (x.1.shot.clip mode plan.resourcesDir)),
        (clipsPath (timelinePath mode)).index x.2⟩ := by
  rw [Document.clips, timeline?_inDocument, Option.bind_some, get?_tracks, timelinePath_inDocument]
  have htrack : (Json.get? (.object [("clips", .array (mapItems f (plan.clips mode)))]) "clips").bind
      items? = some (mapItems f (plan.clips mode)) := rfl
  show Document.clipsOfTrack (((timelinePath mode).key "tracks").index 0) _ ++ [] = _
  rw [List.append_nil, Document.clipsOfTrack, htrack, mapItems_eq, Plan.clips, List.map_map]
  dsimp only
  rw [List.zipIdx_map, List.filterMap_map, ← List.filterMap_eq_map]
  rfl

/-- What may be wrong with the output format. -/
def formatFindings (plan : Plan) : List Finding :=
  (valueFinding? .outputFormat ((Path.root.key "output").key "format") (.string plan.format)).toList

theorem knownAspect_mem {ratio : String} (h : plan.knownAspect = some ratio) :
    ratio ∈ Vocabulary.aspectRatio.values := by
  obtain ⟨header, -, h⟩ := Option.bind_eq_some_iff.1 h
  split at h
  · rename_i haccepts
    cases h
    exact List.contains_iff_mem.1 haccepts
  · cases h

theorem get?_output (key : String) : (membersOf plan.output).get? key =
    ((((Members.get? [("format", .string plan.format)] key).or
        (if key = "resolution" then plan.resolution.map .string else none)).or
      (if key = "aspectRatio" then plan.knownAspect.map .string else none)).or
        (if key = "fps" then plan.rate.map .ofNat else none)).or
          (if key = "thumbnail" then plan.capture.map fun n => .object [("capture", .ofNat n)]
            else none) := by
  show Members.get? (_ ++ memberIf "resolution" _ ++ memberIf "aspectRatio" _ ++ memberIf "fps" _
    ++ memberIf "thumbnail" _) key = _
  rw [get?_append, get?_append, get?_append, get?_append, get?_memberIf, get?_memberIf,
    get?_memberIf, get?_memberIf]

/-- The values of the document are known but for the output format. -/
theorem values_inDocument : values (plan.inDocument mode f) = plan.formatFindings := by
  have hclips : (plan.inDocument mode f).clips.flatMap clipValueFindings = [] := by
    rw [clips_inDocument, List.flatMap_map, List.flatMap_eq_nil_iff]
    exact fun x _ => clipValueFindings_clip
  have haspect : memberFindings .aspectRatio (mapMembers f (membersOf plan.output))
      (Path.root.key "output") "aspectRatio" = [] := by
    have hget : Members.get? (mapMembers f (membersOf plan.output)) "aspectRatio" =
        plan.knownAspect.map .string := by
      rw [get?_mapMembers, get?_output, if_pos rfl, if_neg (show "aspectRatio" ≠ "fps" by decide),
        if_neg (show "aspectRatio" ≠ "thumbnail" by decide), Option.or_none, Option.or_none]
      show (plan.knownAspect.map Json.string).map (mapNumbers f) = _
      rw [Option.map_map]
      rfl
    rw [memberFindings, hget]
    cases hratio : plan.knownAspect with
    | none => rfl
    | some ratio =>
      dsimp only [Option.map_some]
      rw [valueFinding?_of_mem (knownAspect_mem hratio)]
      rfl
  have hother : memberFindings .aspectRatio (mapMembers f (membersOf plan.output))
      (Path.root.key "output") "aspect_ratio" = [] := by
    rw [memberFindings, get?_mapMembers, get?_output]
    rfl
  rw [values, hclips, output?_inDocument]
  show memberFindings .aspectRatio (mapMembers f (membersOf plan.output)) _ "aspectRatio"
    ++ memberFindings .aspectRatio (mapMembers f (membersOf plan.output)) _ "aspect_ratio"
    ++ plan.formatFindings = _
  rw [haspect, hother]
  rfl

/-- What the rules find in the document of a plan. -/
theorem ruleFindings_inDocument (hp : plan.Plain) (ht : plan.Tidy) :
    ruleFindings (plan.inDocument mode f) =
      (plan.shots.zipIdx.flatMap fun x =>
          x.1.shot.numberFindings f ((clipsPath (timelinePath mode)).index x.2))
        ++ rateFindings (membersOf (mapNumbers f plan.output)) (Path.root.key "output")
        ++ plan.formatFindings := by
  rw [ruleFindings, layout_inDocument ht, coverage_inDocument hp ht, values_inDocument, markup,
    issues_inDocument hp ht, List.map_nil, List.append_nil, List.append_nil]

end Plan

/-! ## What the report says -/

/-- The places of the numbers of a clip, as they are shown to readers. -/
def numberPlaces (clip : Path) : List String :=
  [((clip.key "asset").key "volume").shown, ((clip.key "asset").key "trim").shown,
    (clip.key "length").shown]

section
variable {path : Path} {x : Finding}

/-- Findings that are none, or one error about the member with this key, wherever the members
stand. -/
def AtMostOneAt (key : String) (findings : Path → List Finding) : Prop :=
  (∀ path, findings path = []) ∨ ∃ report : Path → Finding, ∀ path, findings path = [report path] ∧
    (report path).severity = .error ∧ (report path).category = .structural ∧
      (report path).field = (path.key key).shown

namespace AtMostOneAt

variable {key : String} {findings : Path → List Finding}

theorem none : AtMostOneAt key fun _ => [] := .inl fun _ => rfl

theorem error (message : String) :
    AtMostOneAt key fun path => [layoutError (path.key key) message] :=
  .inr ⟨fun path => layoutError (path.key key) message, fun _ => ⟨rfl, rfl, rfl, rfl⟩⟩

theorem place (h : AtMostOneAt key findings) (hx : x ∈ findings path) :
    x.category = .structural ∧ x.field = (path.key key).shown := by
  rcases h with hnone | ⟨report, hone⟩
  · rw [hnone] at hx
    cases hx
  · obtain ⟨heq, -, hplace⟩ := hone path
    rw [heq] at hx
    rw [List.mem_singleton.1 hx]
    exact hplace

/-- How severe the findings are does not depend on where the members stand. -/
theorem severities (h : AtMostOneAt key findings) (path path' : Path) :
    (findings path).map (·.severity) = (findings path').map (·.severity) := by
  rcases h with hnone | ⟨report, hone⟩
  · rw [hnone, hnone]
  · obtain ⟨heq, herror, -⟩ := hone path
    obtain ⟨heq', herror', -⟩ := hone path'
    rw [heq, heq', List.map_singleton, List.map_singleton, herror, herror']

end AtMostOneAt

theorem atMostOneAt_volume (asset : Members) : AtMostOneAt "volume" (volumeFindings asset) := by
  unfold volumeFindings
  cases settled? asset "volume" with
  | none => exact .none
  | some value =>
    dsimp only
    cases value.float? with
    | none => exact .error _
    | some v =>
      dsimp only
      split
      · exact .none
      · exact .error _

theorem atMostOneAt_trim (asset : Members) : AtMostOneAt "trim" (trimFindings asset) := by
  unfold trimFindings
  cases settled? asset "trim" with
  | none => exact .none
  | some value =>
    dsimp only
    cases value.float? with
    | none => exact .error _
    | some t =>
      dsimp only
      split
      · exact .none
      · exact .error _

theorem atMostOneAt_length (clip : Members) : AtMostOneAt "length" (lengthFindings clip) := by
  unfold lengthFindings
  cases clip.get? "length" with
  | none =>
    exact .inr ⟨fun path => missing (path.key "length") "length", fun _ => ⟨rfl, rfl, rfl, rfl⟩⟩
  | some value =>
    dsimp only
    cases value with
    | string s =>
      dsimp only
      split
      · exact .inr ⟨_, fun _ => ⟨rfl, rfl, rfl, rfl⟩⟩
      · split
        · exact .none
        · exact .error _
    | number n =>
      dsimp only
      split
      · exact .none
      · exact .error _
    | _ => exact .error _

theorem place_of_numberFindings {shot : Shot} (h : x ∈ shot.numberFindings f path) :
    x.category = .structural ∧ x.field ∈ numberPlaces path := by
  rw [Shot.numberFindings, List.mem_append, List.mem_append] at h
  rcases h with (h | h) | h
  · obtain ⟨hc, hf⟩ := (atMostOneAt_volume _).place h
    exact ⟨hc, by simp [numberPlaces, hf]⟩
  · obtain ⟨hc, hf⟩ := (atMostOneAt_trim _).place h
    exact ⟨hc, by simp [numberPlaces, hf]⟩
  · obtain ⟨hc, hf⟩ := (atMostOneAt_length _).place h
    exact ⟨hc, by simp [numberPlaces, hf]⟩

theorem place_of_rateFindings {output : Members}
    (h : x ∈ rateFindings output (Path.root.key "output")) :
    x.category = .structural ∧ x.field = "output.fps" := by
  unfold rateFindings at h
  split at h
  · cases h
  · dsimp only at h
    split_ifs at h
    · cases h
    · rw [List.mem_singleton.1 h]
      exact ⟨rfl, by decide⟩

theorem place_of_formatFindings (h : x ∈ plan.formatFindings) :
    x.category = .field ∧ x.field = "output.format" := by
  have hplace : ((Path.root.key "output").key "format").shown = "output.format" := by decide
  unfold Plan.formatFindings valueFinding? at h
  dsimp only at h
  split at h
  · cases h
  · rw [Option.mem_toList, Option.some.injEq] at h
    subst h
    exact ⟨rfl, hplace⟩

theorem category_of_fileFindings {schedule : Media.Schedule} {disk : Disk}
    {settings : CheckSettings} {shelf : Media.Shelf} {refs : List Media.Reference}
    {findings : List Finding}
    (h : Media.fileFindings schedule disk settings shelf refs = .ok findings) (hx : x ∈ findings) :
    x.category = .file := by
  obtain ⟨raw, locations, answer, -, hx⟩ := Media.mem_fileFindings h hx
  cases answer <;> cases hx <;> rfl

end

theorem filter_category_eq_nil {category : Category} {findings : List Finding}
    (h : ∀ x ∈ findings, x.category ≠ category) :
    findings.filter (fun x => x.category = category) = [] :=
  List.filter_eq_nil_iff.2 fun x hx => by simpa using h x hx

/-- The path of a clip in each shape. -/
def clipPath (mode : Mode) (i : Nat) : Path := (clipsPath (Plan.timelinePath mode)).index i

namespace Plan

section
variable {x : Finding}

/-- Where the findings of the rules are. -/
theorem place_of_ruleFindings (hp : plan.Plain) (ht : plan.Tidy)
    (hx : x ∈ ruleFindings (plan.inDocument mode f)) :
    (x.category = .field ∧ x.field = "output.format") ∨
      (x.category = .structural ∧
        (x.field = "output.fps" ∨
          ∃ i < plan.shots.length, x.field ∈ numberPlaces (clipPath mode i))) := by
  rw [ruleFindings_inDocument hp ht, List.mem_append, List.mem_append] at hx
  rcases hx with (hx | hx) | hx
  · obtain ⟨⟨p, i⟩, hi, hx⟩ := List.mem_flatMap.1 hx
    obtain ⟨hcategory, hfield⟩ := place_of_numberFindings hx
    have hlt : i < plan.shots.length := by simpa using (List.mem_zipIdx hi).2.1
    exact .inr ⟨hcategory, .inr ⟨i, hlt, hfield⟩⟩
  · obtain ⟨hcategory, hfield⟩ := place_of_rateFindings hx
    exact .inr ⟨hcategory, .inl hfield⟩
  · exact .inl (place_of_formatFindings hx)

/-- At most one value is unknown. -/
theorem length_unknown_le (hp : plan.Plain) (ht : plan.Tidy) :
    ((ruleFindings (plan.inDocument mode f)).filter fun x => x.category = .field).length ≤ 1 := by
  have hnumbers : ∀ x ∈ plan.shots.zipIdx.flatMap fun x =>
      x.1.shot.numberFindings f ((clipsPath (timelinePath mode)).index x.2),
      x.category ≠ .field := by
    intro x hx
    obtain ⟨⟨p, i⟩, -, hx⟩ := List.mem_flatMap.1 hx
    simp [(place_of_numberFindings hx).1]
  have hrate : ∀ x ∈ rateFindings (membersOf (mapNumbers f plan.output)) (Path.root.key "output"),
      x.category ≠ .field := fun x hx => by simp [(place_of_rateFindings hx).1]
  rw [ruleFindings_inDocument hp ht, List.filter_append, List.filter_append,
    filter_category_eq_nil hnumbers, filter_category_eq_nil hrate, List.append_nil, List.nil_append]
  exact (List.length_filter_le _ _).trans Option.length_toList_le

end

end Plan

/-- **What a shot list becomes passes the check.** A report on the document of a shot list without
braces has nothing to say about placeholders and the merge array. The layout is right but for
numbers: the volume, the trim or the length of a clip, and the frame rate. Of the values at most one
is unknown, the output format. All other findings are about media files. -/
theorem converted_passes_rules {text : String} {mode : Mode} {c : Conversion} {here : Surroundings}
    {settings : CheckSettings} {baseDir : String} {report : Report}
    (hplain : BraceFree text.toList) (hc : convert text mode = .ok c)
    (hs : settings.skipChecks = false)
    (hr : checkJson here settings c.document baseDir = .ok report) :
    (∀ x ∈ report.findings, x.category = .file ∨
      (x.category = .field ∧ x.field = "output.format") ∨
      (x.category = .structural ∧
        (x.field = "output.fps" ∨ ∃ i < c.clips, x.field ∈ numberPlaces (clipPath mode i)))) ∧
    (report.findings.filter fun x => x.category = .field).length ≤ 1 := by
  obtain ⟨plan, hplan, rfl⟩ := readPlan_of_convert hc
  have hp := plain_of_readPlan hplan hplain
  have ht := tidy_of_readPlan hplan
  have hdoc : Document.ofJson? (plan.document mode) = some (plan.inDocument mode id) := by
    have h := plan.ofJson?_document mode id
    rwa [mapNumbers_id] at h
  have hcheck : checkDocument here settings (plan.inDocument mode id) baseDir = .ok report := by
    unfold checkJson at hr
    rw [hs, if_neg Bool.false_ne_true,
      show (plan.convert mode).document = plan.document mode from rfl, hdoc] at hr
    exact hr
  obtain ⟨files, hfiles, rfl⟩ := report_of_checkDocument hcheck
  constructor
  · intro x hx
    rcases List.mem_append.1 hx with hx | hx
    · exact .inr (Plan.place_of_ruleFindings hp ht hx)
    · exact .inl (category_of_fileFindings hfiles hx)
  · have hfile : ∀ x ∈ files, x.category ≠ .field := fun x hx => by
      simp [category_of_fileFindings hfiles hx]
    rw [List.filter_append, filter_category_eq_nil hfile, List.append_nil]
    exact Plan.length_unknown_le hp ht

/-- A shot list with music, an unknown format, and a row whose volume is no number. -/
def musicList : String :=
  "## name: Demo\n## resources_dir: media\n## soundtrack: song.mp3\n## output_format: webm\n" ++
  "| # |\n| 1 | a.mp4 | 0:05 | 2.5s | | | | | nan | |\n"

theorem converted_passes_rules_music :
    let here : Surroundings := .ofTree ⟨[(["media"], .directory)], "/"⟩
    let settings := CheckSettings.standard
    BraceFree musicList.toList ∧ settings.skipChecks = false ∧
      ∃ c report, convert musicList .template = .ok c ∧ c.clips = 1 ∧
        checkJson here settings c.document "/" = .ok report ∧
        report.findings.map (fun x => (x.category, x.field)) =
          [(.structural, "template.timeline.tracks[0].clips[0].asset.volume"),
            (.field, "output.format"), (.file, "template.timeline.soundtrack.src"),
            (.file, "template.timeline.tracks[0].clips[0].asset.src")] ∧
        (∀ x ∈ report.findings, x.category = .file ∨
          (x.category = .field ∧ x.field = "output.format") ∨
          (x.category = .structural ∧ (x.field = "output.fps" ∨
            ∃ i < c.clips, x.field ∈ numberPlaces (clipPath .template i)))) ∧
        (report.findings.filter fun x => x.category = .field).length ≤ 1 := by
  intro here settings
  have hplain : BraceFree musicList.toList := all_isPlain_iff.1 (by decide +kernel)
  have hfound : ((convert musicList .template).toOption.bind fun c =>
      (checkJson here settings c.document "/").toOption.map fun report =>
        (c.clips, report.findings.map fun x => (x.category, x.field))) =
      some (1, [(.structural, "template.timeline.tracks[0].clips[0].asset.volume"),
        (.field, "output.format"), (.file, "template.timeline.soundtrack.src"),
        (.file, "template.timeline.tracks[0].clips[0].asset.src")]) := by
    decide +kernel
  obtain ⟨c, hc, hfound⟩ := Option.bind_eq_some_iff.1 hfound
  obtain ⟨report, hr, hfound⟩ := Option.map_eq_some_iff.1 hfound
  obtain ⟨hclips, hreport⟩ := Prod.mk.inj hfound
  rw [toOption_eq_some_iff] at hc hr
  exact ⟨hplain, rfl, c, report, hc, hclips, hr, hreport,
    converted_passes_rules hplain hc rfl hr⟩

end VideoScript.ShotList
