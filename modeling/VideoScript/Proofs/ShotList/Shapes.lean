import VideoScript.Proofs.ShotList.Timeline

/-!
# The two shapes of a shot list

A shot list is converted in both shapes or in none, and the two documents tell the same
(`shapes_agree`): one is the other with its sources in braces and with a merge array. The sources of
a legacy timeline are the files of the music and of the accepted rows (`sources_timeline`), and the
merge array has an entry for each of them, in the order in which rows use them first, with the music
last.
-/

set_option autoImplicit false

namespace VideoScript.ShotList

open Json Text

variable {path : Path}

/-! ## Sources -/

/-- The text of a source. -/
def sourceText? (leaf : Leaf) : Option String :=
  if leaf.path.finalKey? = some "src" then some leaf.text else none

/-- The sources in a value, in order. -/
def sourcesAt (path : Path) (value : Json) : List String :=
  (leavesAt path value).filterMap sourceText?

theorem sourceText?_src (path : Path) (text : String) :
    sourceText? ⟨path.key "src", text⟩ = some text := if_pos (finalKey?_key _ _)

theorem sourceText?_of_ne {key : String} (h : key ≠ "src") (path : Path) (text : String) :
    sourceText? ⟨path.key key, text⟩ = none :=
  if_neg (by rw [finalKey?_key]; simpa using h)

theorem sources_word {key : String} (h : key ≠ "src") (kind : Vocabulary) (cell : String) :
    (memberLeaves path (vocabularyMember key kind cell)).filterMap sourceText? = [] := by
  rw [vocabularyMember, memberLeaves_memberIf]
  cases kind.canonical? cell with
  | none => rfl
  | some word =>
    rw [Option.map_some, Option.toList_some, List.flatMap_singleton, leavesAt,
      List.filterMap_cons_none (sourceText?_of_ne h path word), List.filterMap_nil]

theorem sources_clip (shot : Shot) (dir : String) :
    sourcesAt path (shot.clip .legacy dir) = [mediaPath dir shot.resource] := by
  have htransition (path : Path) :
      (memberLeaves path shot.transition).filterMap sourceText? = [] := by
    rw [Shot.transition, memberLeaves_append, List.filterMap_append, sources_word (by decide),
      sources_word (by decide), List.append_nil]
  rw [sourcesAt, leavesAt_clip, leavesAt_asset]
  simp only [List.filterMap_append, List.filterMap_cons, List.filterMap_nil, sourceText?_src,
    sourceText?_of_ne (show "type" ≠ "src" by decide),
    sourceText?_of_ne (show "start" ≠ "src" by decide),
    sources_word (show "effect" ≠ "src" by decide), sources_word (show "filter" ≠ "src" by decide),
    htransition, List.append_nil]
  rfl

theorem sources_soundtrack (plan : Plan) (s : Soundtrack) :
    sourcesAt path (s.json .legacy plan.resourcesDir) =
      [mediaPath plan.resourcesDir s.resource] := by
  rw [sourcesAt, leavesAt_soundtrack]
  simp only [List.filterMap_cons, List.filterMap_nil, sourceText?_src,
    sourceText?_of_ne (show "effect" ≠ "src" by decide)]
  rfl

theorem sources_timeline (plan : Plan) :
    sourcesAt path (plan.timeline .legacy) =
      (plan.soundtrack.map fun s => mediaPath plan.resourcesDir s.resource).toList ++
        plan.shots.map fun p => mediaPath plan.resourcesDir p.shot.resource := by
  have hbackground : (plan.background.toList.map fun s =>
      (⟨path.key "background", s⟩ : Leaf)).filterMap sourceText? = [] := by
    rw [List.filterMap_map, List.filterMap_eq_nil_iff]
    exact fun s _ => sourceText?_of_ne (by decide) path s
  have hsoundtrack : (plan.soundtrack.toList.flatMap fun s =>
      leavesAt (path.key "soundtrack") (s.json .legacy plan.resourcesDir)).filterMap sourceText? =
        (plan.soundtrack.map fun s => mediaPath plan.resourcesDir s.resource).toList := by
    cases plan.soundtrack with
    | none => rfl
    | some s =>
      rw [Option.toList_some, List.flatMap_singleton]
      exact sources_soundtrack plan s
  have hclips : (plan.shots.zipIdx.flatMap fun x => leavesAt ((clipsPath path).index x.2)
      (x.1.shot.clip .legacy plan.resourcesDir)).filterMap sourceText? =
        plan.shots.map fun p => mediaPath plan.resourcesDir p.shot.resource := by
    conv_rhs => rw [← List.zipIdx_map_fst 0 plan.shots, List.map_map, List.map_eq_flatMap]
    rw [List.filterMap_flatMap]
    exact List.flatMap_congr fun x _ => sources_clip x.1.shot plan.resourcesDir
  rw [sourcesAt, leavesAt_timeline, List.filterMap_append, List.filterMap_append, hsoundtrack,
    hbackground, hclips, List.append_nil]

/-! ## Where the files come from -/

/-- The shots of the rows of a text that give one. -/
def acceptedShots (text : List Char) : List Shot :=
  (rows text).filterMap fun r => (readShot r.cells).toOption

/-- The media files of the accepted rows, in order. -/
def rowFiles (text : List Char) (dir : String) : List String :=
  (acceptedShots text).map fun shot => mediaPath dir shot.resource

/-- The media file of the music, if a header asks for it. -/
def musicFile (text : List Char) (dir : String) : List String :=
  (headerValue? (headers text) "soundtrack").toList.map (mediaPath dir)

variable {text : List Char} {plan : Plan}

theorem shots_of_readPlan (h : readPlan text = .ok plan) :
    plan.shots.map (·.shot) = acceptedShots text := by
  obtain ⟨-, -, hrows, -⟩ := readPlan_eq_ok h
  rw [← (Prod.mk.inj hrows).1, List.map_filterMap]
  refine List.filterMap_congr fun r _ => ?_
  cases readShot r.cells <;> rfl

theorem rowFiles_eq (h : readPlan text = .ok plan) : rowFiles text plan.resourcesDir =
    plan.shots.map fun p => mediaPath plan.resourcesDir p.shot.resource := by
  rw [rowFiles, ← shots_of_readPlan h, List.map_map]
  rfl

theorem musicFile_eq (h : readPlan text = .ok plan) : musicFile text plan.resourcesDir =
    (plan.soundtrack.map fun s => mediaPath plan.resourcesDir s.resource).toList := by
  obtain ⟨-, -, -, hsoundtrack, -⟩ := readPlan_eq_ok h
  rw [musicFile, ← resource_of_readSoundtrack hsoundtrack]
  cases plan.soundtrack <;> rfl

/-! ## Both shapes -/

/-- Two conversions of a text tell the same: their documents differ in the sources, which stand in
braces in the template, and in the merge array. -/
structure TellSame (text : List Char) (legacy template : Conversion) : Prop where
  name : template.name = legacy.name
  resourcesDir : template.resourcesDir = legacy.resourcesDir
  clips : template.clips = legacy.clips
  skipped : template.skipped = legacy.skipped
  dropped : template.dropped = legacy.dropped
  documents : ∃ timeline output finds,
    legacy.document = .object
      [("name", .string legacy.name), ("resourcesDir", .string legacy.resourcesDir),
       ("timeline", timeline), ("output", output)] ∧
    template.document = .object
      [("name", .string legacy.name), ("resourcesDir", .string legacy.resourcesDir),
       ("template", .object [("timeline", rewriteAt braceSource .root timeline)]),
       ("output", output), ("merge", .array (finds.map openEntry))] ∧
    finds = (rowFiles text legacy.resourcesDir ++ musicFile text legacy.resourcesDir).eraseDups ∧
    finds.Nodup ∧ ∀ path, path ∈ finds ↔ path ∈ sourcesAt .root timeline

theorem tellSame_of_readPlan (h : readPlan text = .ok plan) :
    TellSame text (plan.convert .legacy) (plan.convert .template) := by
  refine ⟨rfl, rfl, rfl, rfl, rfl, plan.timeline .legacy, plan.output, plan.distinctMedia, rfl, ?_,
    ?_, ?_, fun path => ?_⟩
  · rw [← timeline_template]
    rfl
  · show _ = (rowFiles text plan.resourcesDir ++ musicFile text plan.resourcesDir).eraseDups
    rw [plan.distinctMedia_eq, Plan.mediaFiles, rowFiles_eq h, musicFile_eq h]
  · rw [plan.distinctMedia_eq]
    exact nodup_eraseDups _
  · rw [plan.distinctMedia_eq, List.mem_eraseDups, sources_timeline, Plan.mediaFiles,
      List.mem_append, List.mem_append, or_comm]

/-- **Both shapes tell the same.** A text is converted in both shapes, to conversions that tell the
same, or in none, for the same reason. -/
theorem shapes_agree (text : String) :
    (∃ e, convert text .legacy = .error e ∧ convert text .template = .error e) ∨
    ∃ legacy template, convert text .legacy = .ok legacy ∧ convert text .template = .ok template ∧
      TellSame text.toList legacy template := by
  rw [convert_eq, convert_eq]
  cases h : readPlan text.toList with
  | error e => exact .inl ⟨e, rfl, rfl⟩
  | ok plan => exact .inr ⟨_, _, rfl, rfl, tellSame_of_readPlan h⟩

end VideoScript.ShotList
