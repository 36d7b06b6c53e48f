import VideoScript.Proofs.Document
import VideoScript.Proofs.ShotList.Media

/-!
# The timeline of a plan

The two shapes of a document have the same timeline but for its sources: what stands under the key
`src` in a legacy document stands there in braces in a template (`timeline_template`). A source is a
media file of the plan, and every media file is a source (`source_or_plain`, `exists_source`); the
other strings are words of the vocabulary, constants, and the background.
-/

set_option autoImplicit false

namespace VideoScript.ShotList

open Json Text Placeholder

variable {path : Path} {g : Path → String → String}

/-! ## Parts of a document -/

theorem seconds_cases (x : Float) : (∃ n, seconds x = .number n) ∨ seconds x = .null := by
  unfold seconds ofFloat
  split
  · split
    · exact .inl ⟨_, rfl⟩
    · split
      · exact .inl ⟨_, rfl⟩
      · exact .inr rfl
  · split
    · exact .inl ⟨_, rfl⟩
    · exact .inr rfl

theorem leavesAt_seconds (x : Float) : leavesAt path (seconds x) = [] := by
  rcases seconds_cases x with ⟨n, h⟩ | h <;> rw [h] <;> rfl

theorem rewriteAt_seconds (x : Float) : rewriteAt g path (seconds x) = seconds x := by
  rcases seconds_cases x with ⟨n, h⟩ | h <;> rw [h] <;> rfl

theorem memberLeaves_append (a b : Members) :
    memberLeaves path (a ++ b) = memberLeaves path a ++ memberLeaves path b := by
  rw [memberLeaves_eq, memberLeaves_eq, memberLeaves_eq, List.flatMap_append]

theorem memberLeaves_memberIf (key : String) (value : Option Json) :
    memberLeaves path (memberIf key value) = value.toList.flatMap (leavesAt (path.key key)) := by
  cases value <;> simp [memberIf, memberLeaves]

theorem rewriteMembers_append (a b : Members) :
    rewriteMembers g path (a ++ b) = rewriteMembers g path a ++ rewriteMembers g path b := by
  rw [rewriteMembers_eq, rewriteMembers_eq, rewriteMembers_eq, List.map_append]

theorem rewriteMembers_memberIf (key : String) (value : Option Json) :
    rewriteMembers g path (memberIf key value) =
      memberIf key (value.map (rewriteAt g (path.key key))) := by
  cases value <;> rfl

theorem memberLeaves_seconds (key : String) (x : Option Float) :
    memberLeaves path (memberIf key (x.map seconds)) = [] := by
  rw [memberLeaves_memberIf]
  cases x <;> simp [leavesAt_seconds]

theorem rewriteMembers_seconds (key : String) (x : Option Float) :
    rewriteMembers g path (memberIf key (x.map seconds)) = memberIf key (x.map seconds) := by
  rw [rewriteMembers_memberIf, Option.map_map]
  exact congrArg (memberIf key) (Option.map_congr fun _ _ => rewriteAt_seconds _)

/-! ## The sources in braces -/

/-- Puts what stands under the key `src` into braces. -/
def braceSource (path : Path) (text : String) : String :=
  if path.finalKey? = some "src" then Mode.template.source text else text

theorem braceSource_src (path : Path) (text : String) :
    braceSource (path.key "src") text = Mode.template.source text :=
  if_pos (finalKey?_key path "src")

theorem braceSource_of_ne {key : String} (h : key ≠ "src") (path : Path) (text : String) :
    braceSource (path.key key) text = text :=
  if_neg (by rw [finalKey?_key]; simpa using h)

theorem rewriteMembers_word {key : String} (h : key ≠ "src") (kind : Vocabulary) (cell : String) :
    rewriteMembers braceSource path (vocabularyMember key kind cell) =
      vocabularyMember key kind cell := by
  rw [vocabularyMember, rewriteMembers_memberIf, Option.map_map]
  refine congrArg (memberIf key) (Option.map_congr fun word _ => ?_)
  rw [Function.comp_apply, rewriteAt, braceSource_of_ne h]

theorem asset_template (shot : Shot) (dir : String) :
    rewriteAt braceSource path (shot.asset .legacy dir) = shot.asset .template dir := by
  rw [Shot.asset, rewriteAt, rewriteMembers_append, rewriteMembers_append, rewriteMembers_seconds,
    rewriteMembers_seconds]
  simp only [rewriteMembers, rewriteAt, braceSource_src]
  rw [braceSource_of_ne (by decide)]
  rfl

theorem transition_template (shot : Shot) :
    rewriteMembers braceSource path shot.transition = shot.transition := by
  rw [Shot.transition, rewriteMembers_append, rewriteMembers_word (by decide),
    rewriteMembers_word (by decide)]

theorem clip_template (shot : Shot) (dir : String) :
    rewriteAt braceSource path (shot.clip .legacy dir) = shot.clip .template dir := by
  have htransition : rewriteMembers braceSource path
      (if shot.transition.isEmpty then [] else [("transition", .object shot.transition)]) =
        if shot.transition.isEmpty then [] else [("transition", .object shot.transition)] := by
    split
    · rfl
    · rw [rewriteMembers, rewriteAt, transition_template]
      rfl
  rw [Shot.clip, rewriteAt, rewriteMembers_append, rewriteMembers_append, rewriteMembers_append,
    htransition, rewriteMembers_word (by decide), rewriteMembers_word (by decide)]
  simp only [rewriteMembers, rewriteAt, asset_template, rewriteAt_seconds]
  rw [braceSource_of_ne (by decide)]
  rfl

theorem soundtrack_template (plan : Plan) (s : Soundtrack) :
    rewriteAt braceSource path (s.json .legacy plan.resourcesDir) =
      s.json .template plan.resourcesDir := by
  rw [Soundtrack.json, rewriteAt, rewriteMembers_append, rewriteMembers_seconds]
  simp only [rewriteMembers, rewriteAt, braceSource_src]
  rw [braceSource_of_ne (by decide)]
  rfl

/-- The timeline of a template is that of the legacy document with its sources in braces. -/
theorem timeline_template (plan : Plan) (path : Path) :
    plan.timeline .template = rewriteAt braceSource path (plan.timeline .legacy) := by
  have hclips (path : Path) :
      rewriteItems braceSource path 0
          (plan.shots.map fun p => p.shot.clip .legacy plan.resourcesDir) =
        plan.shots.map fun p => p.shot.clip .template plan.resourcesDir := by
    rw [rewriteItems_eq, List.zipIdx_map, List.map_map]
    have hmap : ((plan.shots.zipIdx).map fun x => x.1.shot.clip .template plan.resourcesDir) =
        plan.shots.map fun p => p.shot.clip .template plan.resourcesDir := by
      conv_rhs => rw [← List.zipIdx_map_fst 0 plan.shots, List.map_map]
      rfl
    rw [← hmap]
    exact List.map_congr_left fun x _ => clip_template x.1.shot plan.resourcesDir
  have hsoundtrack : rewriteMembers braceSource path
      (memberIf "soundtrack" (plan.soundtrack.map (·.json .legacy plan.resourcesDir))) =
        memberIf "soundtrack" (plan.soundtrack.map (·.json .template plan.resourcesDir)) := by
    rw [rewriteMembers_memberIf, Option.map_map]
    exact congrArg _ (Option.map_congr fun s _ => soundtrack_template plan s)
  have hbackground : rewriteMembers braceSource path
      (memberIf "background" (plan.background.map .string)) =
        memberIf "background" (plan.background.map .string) := by
    rw [rewriteMembers_memberIf, Option.map_map]
    refine congrArg _ (Option.map_congr fun s _ => ?_)
    rw [Function.comp_apply, rewriteAt, braceSource_of_ne (by decide)]
  rw [Plan.timeline, Plan.timeline, rewriteAt, rewriteMembers_append, rewriteMembers_append,
    hsoundtrack, hbackground]
  simp only [rewriteMembers, rewriteItems, rewriteAt, hclips]

/-! ## The strings of a timeline -/

/-- A string of a legacy timeline is a source, which is a media file of the plan, or it stands under
another key and has no braces. -/
def SourceOrPlain (files : List String) (leaf : Leaf) : Prop :=
  (leaf.path.finalKey? = some "src" ∧ leaf.text ∈ files) ∨
    (leaf.path.finalKey? ≠ some "src" ∧ BraceFree leaf.text.toList)

theorem sourceOrPlain_of_key {files : List String} {key text : String} (hk : key ≠ "src")
    (ht : BraceFree text.toList) : SourceOrPlain files ⟨path.key key, text⟩ :=
  .inr ⟨by rw [finalKey?_key]; simpa using hk, ht⟩

theorem braceFree_of_mem_values {kind : Vocabulary} {value : String} (h : value ∈ kind.values) :
    BraceFree value.toList := by
  have hall : kind.values.all (fun value => value.toList.all isPlain) = true := by
    cases kind <;> decide
  exact all_isPlain_iff.1 (List.all_eq_true.1 hall value h)

theorem word_plain {key : String} (hk : key ≠ "src") {kind : Vocabulary} {cell : String}
    {files : List String} {leaf : Leaf}
    (h : leaf ∈ memberLeaves path (vocabularyMember key kind cell)) : SourceOrPlain files leaf := by
  rw [vocabularyMember, memberLeaves_memberIf, List.mem_flatMap] at h
  obtain ⟨value, hv, h⟩ := h
  rw [Option.mem_toList] at hv
  obtain ⟨word, hw, rfl⟩ := Option.map_eq_some_iff.1 hv
  rw [leavesAt, List.mem_singleton] at h
  subst h
  exact sourceOrPlain_of_key hk (braceFree_of_mem_values (List.mem_of_find?_eq_some hw))

theorem leavesAt_asset (shot : Shot) (mode : Mode) (dir : String) :
    leavesAt path (shot.asset mode dir) =
      [⟨path.key "type", if shot.isVideo then "video" else "image"⟩,
        ⟨path.key "src", mode.source (mediaPath dir shot.resource)⟩] := by
  rw [Shot.asset, leavesAt, memberLeaves_append, memberLeaves_append, memberLeaves_seconds,
    memberLeaves_seconds]
  rfl

theorem leavesAt_clip (shot : Shot) (mode : Mode) (dir : String) :
    leavesAt path (shot.clip mode dir) =
      leavesAt (path.key "asset") (shot.asset mode dir)
        ++ ⟨path.key "start", "auto"⟩ :: memberLeaves (path.key "transition") shot.transition
        ++ memberLeaves path (vocabularyMember "effect" .effect shot.effect)
        ++ memberLeaves path (vocabularyMember "filter" .filter shot.filter) := by
  have htransition : memberLeaves path
      (if shot.transition.isEmpty then [] else [("transition", .object shot.transition)]) =
        memberLeaves (path.key "transition") shot.transition := by
    split
    · rename_i h
      rw [List.isEmpty_iff.1 h]
      rfl
    · simp [memberLeaves, leavesAt]
  rw [Shot.clip, leavesAt, memberLeaves_append, memberLeaves_append, memberLeaves_append,
    htransition]
  simp [memberLeaves, leavesAt, leavesAt_seconds]

theorem leavesAt_soundtrack (plan : Plan) (mode : Mode) (s : Soundtrack) :
    leavesAt path (s.json mode plan.resourcesDir) =
      [⟨path.key "src", mode.source (mediaPath plan.resourcesDir s.resource)⟩,
        ⟨path.key "effect", "fadeIn"⟩] := by
  rw [Soundtrack.json, leavesAt, memberLeaves_append, memberLeaves_seconds]
  rfl

/-- The path of the clips in the timeline at a path. -/
def clipsPath (path : Path) : Path := ((path.key "tracks").index 0).key "clips"

theorem leavesAt_timeline (plan : Plan) (mode : Mode) :
    leavesAt path (plan.timeline mode) =
      plan.soundtrack.toList.flatMap (fun s =>
          leavesAt (path.key "soundtrack") (s.json mode plan.resourcesDir))
        ++ plan.background.toList.map (fun s => ⟨path.key "background", s⟩)
        ++ plan.shots.zipIdx.flatMap fun x =>
          leavesAt ((clipsPath path).index x.2) (x.1.shot.clip mode plan.resourcesDir) := by
  rw [Plan.timeline, leavesAt, memberLeaves_append, memberLeaves_append, memberLeaves_memberIf,
    memberLeaves_memberIf]
  congr 1
  · congr 1
    · cases plan.soundtrack <;> simp
    · cases plan.background <;> simp [leavesAt]
  · simp only [memberLeaves, leavesAt, itemLeaves, List.append_nil]
    rw [itemLeaves_eq, List.zipIdx_map, List.flatMap_map]
    rfl

/-- The strings of a legacy timeline are sources, or they are plain. -/
theorem source_or_plain {plan : Plan} (hp : plan.Plain) {leaf : Leaf}
    (h : leaf ∈ leavesAt path (plan.timeline .legacy)) : SourceOrPlain plan.mediaFiles leaf := by
  rw [leavesAt_timeline, List.mem_append, List.mem_append] at h
  rcases h with (h | h) | h
  · obtain ⟨s, hs, h⟩ := List.mem_flatMap.1 h
    rw [Option.mem_toList] at hs
    rw [leavesAt_soundtrack] at h
    rcases List.mem_cons.1 h with rfl | h
    · exact .inl ⟨finalKey?_key _ _, List.mem_append_right _ (by simp [hs, Mode.source])⟩
    · rw [List.mem_singleton.1 h]
      exact sourceOrPlain_of_key (by decide) (all_isPlain_iff.1 (by decide))
  · obtain ⟨s, hs, rfl⟩ := List.mem_map.1 h
    rw [Option.mem_toList] at hs
    exact sourceOrPlain_of_key (by decide) (hp.background s hs)
  · obtain ⟨⟨p, i⟩, hx, h⟩ := List.mem_flatMap.1 h
    have hmem : p ∈ plan.shots := List.fst_mem_of_mem_zipIdx hx
    rw [leavesAt_clip, leavesAt_asset, List.mem_append, List.mem_append, List.mem_append] at h
    rcases h with ((h | h) | h) | h
    · rcases List.mem_cons.1 h with rfl | h
      · refine sourceOrPlain_of_key (by decide) ?_
        split <;> exact all_isPlain_iff.1 (by decide)
      · rw [List.mem_singleton.1 h]
        exact .inl ⟨finalKey?_key _ _, List.mem_append_left _ (List.mem_map_of_mem hmem)⟩
    · rcases List.mem_cons.1 h with rfl | h
      · exact sourceOrPlain_of_key (by decide) (all_isPlain_iff.1 (by decide))
      · rw [Shot.transition, memberLeaves_append, List.mem_append] at h
        rcases h with h | h <;> exact word_plain (by decide) h
    · exact word_plain (by decide) h
    · exact word_plain (by decide) h

/-- Every media file of a plan is a source of the timeline. -/
theorem exists_source (path : Path) {plan : Plan} {file : String} (h : file ∈ plan.mediaFiles)
    (mode : Mode) :
    ∃ leaf ∈ leavesAt path (plan.timeline mode),
      leaf.path.finalKey? = some "src" ∧ leaf.text = mode.source file := by
  rcases List.mem_append.1 h with h | h
  · obtain ⟨p, hp, rfl⟩ := List.mem_map.1 h
    obtain ⟨i, hi⟩ := List.getElem?_of_mem hp
    have hx : (p, i) ∈ plan.shots.zipIdx := List.mk_mem_zipIdx_iff_getElem?.2 hi
    refine ⟨⟨(((clipsPath path).index i).key "asset").key "src",
      mode.source (mediaPath plan.resourcesDir p.shot.resource)⟩, ?_, finalKey?_key _ _, rfl⟩
    rw [leavesAt_timeline]
    refine List.mem_append_right _ (List.mem_flatMap.2 ⟨_, hx, ?_⟩)
    rw [leavesAt_clip, leavesAt_asset]
    simp
  · rw [Option.mem_toList] at h
    obtain ⟨s, hs, rfl⟩ := Option.map_eq_some_iff.1 h
    refine ⟨⟨(path.key "soundtrack").key "src",
      mode.source (mediaPath plan.resourcesDir s.resource)⟩, ?_, finalKey?_key _ _, rfl⟩
    rw [leavesAt_timeline, hs]
    refine List.mem_append_left _ (List.mem_append_left _ ?_)
    simp [leavesAt_soundtrack]

end VideoScript.ShotList
