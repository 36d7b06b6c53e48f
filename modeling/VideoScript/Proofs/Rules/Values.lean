import Mathlib.Data.List.Nodup
import VideoScript.Proofs.Document
import VideoScript.Proofs.Rules.Layout
import VideoScript.Proofs.Rules.Steps
import VideoScript.Rules.Values

/-!
# What the rule about values looks at

`Looks doc c`: the rule about values looks at the value `c`, in one of the clips into which the layout
rule looks or in the output settings, and `c.Fits` says what it looks for. It looks at every such value
once (`mem_checked_iff`, `nodup_checked`), and its findings are those of the values that do not fit,
each at its own path (`values_eq`, `Reports`).

A suggestion hints at an accepted value exactly when one differs in case alone
(`hint_valueSuggestion_iff`), and there is at most one (`eq_of_sameIgnoringCase`).
-/

set_option autoImplicit false

namespace VideoScript.Rules

open Json Placeholder

variable {doc : Document} {kind : Vocabulary} {members : Members} {path : Path} {key : String}

/-! ## The values -/

/-- What should stand at a place: the sides of a transition, or a text of a vocabulary. -/
inductive Expected where
  | sides
  | known (kind : Vocabulary)

/-- A value that the rule looks at. -/
structure Checked where
  expected : Expected
  path : Path
  value : Json

/-- A text that is accepted, or that has its value only later. -/
def KnownValue (kind : Vocabulary) (value : Json) : Prop :=
  (∃ s ∈ kind.values, value = .string s) ∨ Deferred value

namespace Checked

/-- A value has the type that should stand at its place. -/
def HasType (c : Checked) : Prop :=
  match c.expected with
  | .sides => ∃ sides, c.value = .object sides
  | .known _ => ∃ s, c.value = .string s

/-- A value is what should stand at its place. -/
def Fits (c : Checked) : Prop :=
  match c.expected with
  | .sides => ∃ sides, c.value = .object sides
  | .known kind => KnownValue kind c.value

/-- The finding for a value, when there is something wrong with it. -/
def finding? (c : Checked) : Option Finding :=
  match c.expected with
  | .sides =>
    match c.value with
    | .object _ => none
    | _ => some (.error .field c.path.shown "transition must be an object with 'in' and/or 'out'")
  | .known kind => valueFinding? kind c.path c.value

end Checked

theorem valueFinding?_eq_none_iff {value : Json} :
    valueFinding? kind path value = none ↔ KnownValue kind value := by
  unfold KnownValue
  rw [← isDeferred_iff]
  cases value with
  | string s =>
    have haccepts : kind.accepts s = true ↔ s ∈ kind.values := by
      rw [Vocabulary.accepts, List.contains_iff_mem]
    by_cases hs : s ∈ kind.values <;> simp [valueFinding?, isDeferred, haccepts, hs]
  | _ => simp [valueFinding?, isDeferred]

theorem Checked.finding?_eq_none_iff {c : Checked} : c.finding? = none ↔ c.Fits := by
  obtain ⟨expected, path, value⟩ := c
  cases expected with
  | sides => cases value <;> simp [finding?, Fits]
  | known kind => exact valueFinding?_eq_none_iff

instance (c : Checked) : Decidable c.Fits := decidable_of_iff _ Checked.finding?_eq_none_iff

/-- The values at which the rule looks: in each clip the type of the asset, if it is a text, the
transition with its sides, the effect and the filter, and in the output settings the aspect ratio
under both of its names and the format, if it is a text. -/
inductive Looks (doc : Document) : Checked → Prop
  | assetType {clip : Located Members} {asset : Members} {s : String} (hc : clip ∈ doc.clips)
      (ha : clip.value.get? "asset" = some (.object asset))
      (hs : asset.get? "type" = some (.string s)) :
      Looks doc ⟨.known .assetType, (clip.path.key "asset").key "type", .string s⟩
  | transition {clip : Located Members} {value : Json} (hc : clip ∈ doc.clips)
      (hv : clip.value.get? "transition" = some value) :
      Looks doc ⟨.sides, clip.path.key "transition", value⟩
  | side {clip : Located Members} {sides : Members} {side : String} {value : Json}
      (hc : clip ∈ doc.clips) (ht : clip.value.get? "transition" = some (.object sides))
      (hs : side ∈ ["in", "out"]) (hv : sides.get? side = some value) :
      Looks doc ⟨.known .transition, (clip.path.key "transition").key side, value⟩
  | effect {clip : Located Members} {value : Json} (hc : clip ∈ doc.clips)
      (hv : clip.value.get? "effect" = some value) :
      Looks doc ⟨.known .effect, clip.path.key "effect", value⟩
  | filter {clip : Located Members} {value : Json} (hc : clip ∈ doc.clips)
      (hv : clip.value.get? "filter" = some value) :
      Looks doc ⟨.known .filter, clip.path.key "filter", value⟩
  | ratio {output : Members} {path : Path} {key : String} {value : Json}
      (ho : doc.output? = some ⟨.object output, path⟩) (hk : key ∈ ["aspectRatio", "aspect_ratio"])
      (hv : output.get? key = some value) : Looks doc ⟨.known .aspectRatio, path.key key, value⟩
  | format {output : Members} {path : Path} {s : String}
      (ho : doc.output? = some ⟨.object output, path⟩)
      (hv : output.get? "format" = some (.string s)) :
      Looks doc ⟨.known .outputFormat, path.key "format", .string s⟩

/-! ## The values in order -/

/-- A member of a kind, if it is there. -/
def memberChecked (kind : Vocabulary) (members : Members) (path : Path) (key : String) :
    List Checked :=
  match members.get? key with
  | some value => [⟨.known kind, path.key key, value⟩]
  | none => []

/-- A member of a kind, if it is there and is a text. -/
def textMemberChecked (kind : Vocabulary) (members : Members) (path : Path) (key : String) :
    List Checked :=
  match members.get? key with
  | some (.string s) => [⟨.known kind, path.key key, .string s⟩]
  | _ => []

/-- The type of the asset of a clip. -/
def assetChecked (clip : Members) (path : Path) : List Checked :=
  match clip.get? "asset" with
  | some (.object asset) => textMemberChecked .assetType asset (path.key "asset") "type"
  | _ => []

/-- The transition of a clip and its sides. -/
def transitionChecked (clip : Members) (path : Path) : List Checked :=
  match clip.get? "transition" with
  | none => []
  | some (.object sides) =>
    ⟨.sides, path.key "transition", .object sides⟩ ::
      (memberChecked .transition sides (path.key "transition") "in"
        ++ memberChecked .transition sides (path.key "transition") "out")
  | some value => [⟨.sides, path.key "transition", value⟩]

/-- The values of a clip. -/
def clipChecked (clip : Located Members) : List Checked :=
  assetChecked clip.value clip.path
  ++ transitionChecked clip.value clip.path
  ++ memberChecked .effect clip.value clip.path "effect"
  ++ memberChecked .filter clip.value clip.path "filter"

/-- The values of the output settings. -/
def outputChecked (output : Located Json) : List Checked :=
  match output.value with
  | .object members =>
    memberChecked .aspectRatio members output.path "aspectRatio"
    ++ memberChecked .aspectRatio members output.path "aspect_ratio"
    ++ textMemberChecked .outputFormat members output.path "format"
  | _ => []

/-- The values of a document. -/
def checked (doc : Document) : List Checked :=
  doc.clips.flatMap clipChecked ++ (doc.output?.map outputChecked).getD []

theorem filterMap_singleton (c : Checked) : [c].filterMap Checked.finding? = c.finding?.toList := by
  rw [List.filterMap_cons, List.filterMap_nil]
  cases c.finding? <;> rfl

theorem filterMap_memberChecked : (memberChecked kind members path key).filterMap Checked.finding? =
    memberFindings kind members path key := by
  unfold memberChecked memberFindings
  cases members.get? key with
  | none => rfl
  | some value => exact filterMap_singleton _

theorem filterMap_textMemberChecked :
    (textMemberChecked kind members path key).filterMap Checked.finding? =
      textMemberFindings kind members path key := by
  unfold textMemberChecked textMemberFindings
  cases members.get? key with
  | none => rfl
  | some value =>
    cases value with
    | string s => exact filterMap_singleton _
    | _ => rfl

theorem filterMap_transitionChecked (clip : Members) :
    (transitionChecked clip path).filterMap Checked.finding? = transitionFindings clip path := by
  unfold transitionChecked transitionFindings
  cases clip.get? "transition" with
  | none => rfl
  | some value =>
    cases value with
    | object sides =>
      rw [List.filterMap_cons_none rfl, List.filterMap_append, filterMap_memberChecked,
        filterMap_memberChecked]
    | _ => rfl

theorem filterMap_clipChecked (clip : Located Members) :
    (clipChecked clip).filterMap Checked.finding? = clipValueFindings clip := by
  unfold clipChecked clipValueFindings
  rw [List.filterMap_append, List.filterMap_append, List.filterMap_append,
    filterMap_transitionChecked, filterMap_memberChecked, filterMap_memberChecked]
  congr 3
  unfold assetChecked
  cases clip.value.get? "asset" with
  | none => rfl
  | some value =>
    cases value with
    | object asset => exact filterMap_textMemberChecked
    | _ => rfl

theorem filterMap_outputChecked (output : Located Json) :
    (outputChecked output).filterMap Checked.finding? = outputValueFindings output := by
  unfold outputChecked outputValueFindings
  cases output.value with
  | object members =>
    dsimp only
    rw [List.filterMap_append, List.filterMap_append, filterMap_memberChecked,
      filterMap_memberChecked, filterMap_textMemberChecked]
  | _ => rfl

/-- The findings of the rule are those of the values at which it looks. -/
theorem values_eq (doc : Document) : values doc = (checked doc).filterMap Checked.finding? := by
  unfold values checked
  rw [List.filterMap_append, List.filterMap_flatMap,
    List.flatMap_congr fun clip _ => filterMap_clipChecked clip]
  cases doc.output? with
  | none => rfl
  | some output => exact congrArg _ (filterMap_outputChecked output).symm

theorem mem_memberChecked {c : Checked} : c ∈ memberChecked kind members path key ↔
    ∃ value, members.get? key = some value ∧ c = ⟨.known kind, path.key key, value⟩ := by
  unfold memberChecked
  cases members.get? key <;> simp

theorem mem_textMemberChecked {c : Checked} : c ∈ textMemberChecked kind members path key ↔
    ∃ s, members.get? key = some (.string s) ∧ c = ⟨.known kind, path.key key, .string s⟩ := by
  unfold textMemberChecked
  cases members.get? key with
  | none => simp
  | some value => cases value <;> simp

theorem mem_assetChecked {clip : Members} {c : Checked} : c ∈ assetChecked clip path ↔
    ∃ (asset : Members) (s : String), clip.get? "asset" = some (.object asset) ∧
      asset.get? "type" = some (.string s) ∧
        c = ⟨.known .assetType, (path.key "asset").key "type", .string s⟩ := by
  unfold assetChecked
  cases clip.get? "asset" with
  | none => simp
  | some value => cases value <;> simp [mem_textMemberChecked]

theorem mem_transitionChecked {clip : Members} {c : Checked} : c ∈ transitionChecked clip path ↔
    (∃ value, clip.get? "transition" = some value ∧ c = ⟨.sides, path.key "transition", value⟩) ∨
    ∃ sides : Members, clip.get? "transition" = some (.object sides) ∧ ∃ side ∈ ["in", "out"],
      ∃ value, sides.get? side = some value ∧
        c = ⟨.known .transition, (path.key "transition").key side, value⟩ := by
  unfold transitionChecked
  cases clip.get? "transition" with
  | none => simp
  | some value => cases value <;> simp [mem_memberChecked]

/-- The rule looks at the values in the list and at no others. -/
theorem mem_checked_iff {c : Checked} : c ∈ checked doc ↔ Looks doc c := by
  have houtput : c ∈ (doc.output?.map outputChecked).getD [] ↔
      ∃ output path, doc.output? = some ⟨.object output, path⟩ ∧
        c ∈ outputChecked ⟨.object output, path⟩ := by
    cases doc.output? with
    | none => simp
    | some output =>
      obtain ⟨value, path⟩ := output
      cases value <;> simp [outputChecked]
  rw [checked, List.mem_append, houtput, List.mem_flatMap]
  simp only [clipChecked, outputChecked, List.mem_append, mem_assetChecked, mem_transitionChecked,
    mem_memberChecked, mem_textMemberChecked]
  constructor
  · rintro (⟨clip, hc, (((⟨asset, s, ha, hs, rfl⟩ | (⟨value, hv, rfl⟩ |
      ⟨sides, ht, side, hs, value, hv, rfl⟩)) | ⟨value, hv, rfl⟩) | ⟨value, hv, rfl⟩)⟩ |
      ⟨output, path, ho, ((⟨value, hv, rfl⟩ | ⟨value, hv, rfl⟩) | ⟨s, hv, rfl⟩)⟩)
    · exact .assetType hc ha hs
    · exact .transition hc hv
    · exact .side hc ht hs hv
    · exact .effect hc hv
    · exact .filter hc hv
    · exact .ratio ho (by simp) hv
    · exact .ratio ho (by simp) hv
    · exact .format ho hv
  · intro h
    cases h with
    | assetType hc ha hs => exact .inl ⟨_, hc, .inl (.inl (.inl ⟨_, _, ha, hs, rfl⟩))⟩
    | transition hc hv => exact .inl ⟨_, hc, .inl (.inl (.inr (.inl ⟨_, hv, rfl⟩)))⟩
    | side hc ht hs hv =>
      exact .inl ⟨_, hc, .inl (.inl (.inr (.inr ⟨_, ht, _, hs, _, hv, rfl⟩)))⟩
    | effect hc hv => exact .inl ⟨_, hc, .inl (.inr ⟨_, hv, rfl⟩)⟩
    | filter hc hv => exact .inl ⟨_, hc, .inr ⟨_, hv, rfl⟩⟩
    | ratio ho hk hv =>
      simp only [List.mem_cons, List.not_mem_nil, or_false] at hk
      rcases hk with rfl | rfl
      · exact .inr ⟨_, _, ho, .inl (.inl ⟨_, hv, rfl⟩)⟩
      · exact .inr ⟨_, _, ho, .inl (.inr ⟨_, hv, rfl⟩)⟩
    | format ho hv => exact .inr ⟨_, _, ho, .inr ⟨_, hv, rfl⟩⟩

/-- A value at which the rule looks stands at its path. -/
theorem Looks.partAt {c : Checked} (h : Looks doc c) : PartAt doc.toJson c.path c.value := by
  have hclip {clip : Located Members} {key : String} {value : Json} (hc : clip ∈ doc.clips)
      (hv : clip.value.get? key = some value) : PartAt doc.toJson (clip.path.key key) value :=
    (Document.partAt_clip hc).key hv
  have houtput {output : Members} {path : Path} {key : String} {value : Json}
      (ho : doc.output? = some ⟨.object output, path⟩) (hv : output.get? key = some value) :
      PartAt doc.toJson (path.key key) value :=
    (Document.partAt_rootOrTemplate? ho).key hv
  cases h with
  | assetType hc ha hs => exact (hclip hc ha).key hs
  | transition hc hv => exact hclip hc hv
  | side hc ht _ hv => exact (hclip hc ht).key hv
  | effect hc hv => exact hclip hc hv
  | filter hc hv => exact hclip hc hv
  | ratio ho _ hv => exact houtput ho hv
  | format ho hv => exact houtput ho hv

/-! ## No value twice -/

/-- Paths that go on from a path in some ways. -/
def below (path : Path) (ways : List (List Step)) : List Path :=
  ways.map fun way => ⟨path.steps ++ way⟩

/-- The ways from a clip to its values. -/
def clipWays : List (List Step) :=
  [[.key "asset", .key "type"], [.key "transition"], [.key "transition", .key "in"],
   [.key "transition", .key "out"], [.key "effect"], [.key "filter"]]

/-- The ways from the output settings to their values. -/
def outputWays : List (List Step) := [[.key "aspectRatio"], [.key "aspect_ratio"], [.key "format"]]

theorem nodup_below {ways : List (List Step)} (h : ways.Nodup) : (below path ways).Nodup :=
  List.pairwise_map.2 (h.imp fun hne he => hne (List.append_cancel_left (Json.Path.mk.inj he)))

theorem prefix_of_mem_below {ways : List (List Step)} {p : Path} (h : p ∈ below path ways) :
    path.steps <+: p.steps := by
  obtain ⟨way, -, rfl⟩ := List.mem_map.1 h
  exact List.prefix_append _ _

theorem paths_memberChecked :
    ((memberChecked kind members path key).map (·.path)).Sublist [path.key key] := by
  unfold memberChecked
  split
  · exact .refl _
  · exact List.nil_sublist _

theorem paths_textMemberChecked :
    ((textMemberChecked kind members path key).map (·.path)).Sublist [path.key key] := by
  unfold textMemberChecked
  split
  · exact .refl _
  · exact List.nil_sublist _

theorem paths_transitionChecked (clip : Members) :
    ((transitionChecked clip path).map (·.path)).Sublist [path.key "transition",
      (path.key "transition").key "in", (path.key "transition").key "out"] := by
  unfold transitionChecked
  split
  · exact List.nil_sublist _
  · rw [List.map_cons, List.map_append]
    exact (paths_memberChecked.append paths_memberChecked).cons_cons _
  · simp

theorem paths_assetChecked (clip : Members) :
    ((assetChecked clip path).map (·.path)).Sublist [(path.key "asset").key "type"] := by
  unfold assetChecked
  split
  · exact paths_textMemberChecked
  · exact List.nil_sublist _

theorem below_clipWays (path : Path) : below path clipWays =
    [(path.key "asset").key "type"] ++ [path.key "transition", (path.key "transition").key "in",
      (path.key "transition").key "out"] ++ [path.key "effect"] ++ [path.key "filter"] := by
  simp [below, clipWays, Path.key, Path.push]

theorem paths_clipChecked (clip : Located Members) :
    ((clipChecked clip).map (·.path)).Sublist (below clip.path clipWays) := by
  rw [below_clipWays, clipChecked, List.map_append, List.map_append, List.map_append]
  exact (((paths_assetChecked _).append (paths_transitionChecked _)).append
    paths_memberChecked).append paths_memberChecked

theorem paths_outputChecked (output : Located Json) :
    ((outputChecked output).map (·.path)).Sublist (below output.path outputWays) := by
  unfold outputChecked
  split
  · rw [List.map_append, List.map_append]
    exact (paths_memberChecked.append paths_memberChecked).append paths_textMemberChecked
  · exact List.nil_sublist _

theorem prefix_of_mem_clipChecked {clip : Located Members} {c : Checked}
    (h : c ∈ clipChecked clip) : clip.path.steps <+: c.path.steps :=
  prefix_of_mem_below ((paths_clipChecked clip).subset (List.mem_map_of_mem h))

theorem prefix_of_mem_outputChecked {output : Located Json} {c : Checked}
    (h : c ∈ outputChecked output) : output.path.steps <+: c.path.steps :=
  prefix_of_mem_below ((paths_outputChecked output).subset (List.mem_map_of_mem h))

/-- The values of an item of an array of clips. -/
def clipItemChecked (path : Path) (clip : Json) : List Checked :=
  match clip with
  | .object members => clipChecked ⟨members, path⟩
  | _ => []

/-- The values of the clips of a track. -/
def trackChecked (path : Path) (track : Json) : List Checked :=
  (Document.clipsOfTrack path track).flatMap clipChecked

theorem trackChecked_eq (track : Json) : trackChecked path track =
    (((track.get? "clips").bind items?).getD []).zipIdx.flatMap fun x =>
      clipItemChecked ((path.key "clips").index x.2) x.1 := by
  unfold trackChecked Document.clipsOfTrack
  cases (track.get? "clips").bind items? with
  | none => rfl
  | some clips =>
    dsimp only [Option.getD_some]
    rw [List.filterMap_eq_flatMap_toList, List.flatMap_assoc]
    refine List.flatMap_congr fun x _ => ?_
    cases x.1 <;> simp [members?, clipItemChecked]

theorem prefix_of_mem_clipItemChecked {clip : Json} {c : Checked}
    (h : c ∈ clipItemChecked path clip) : path.steps <+: c.path.steps := by
  unfold clipItemChecked at h
  split at h
  · exact prefix_of_mem_clipChecked h
  · cases h

theorem prefix_of_mem_trackChecked {track : Json} {c : Checked} (h : c ∈ trackChecked path track) :
    path.steps <+: c.path.steps := by
  rw [trackChecked_eq, List.mem_flatMap] at h
  obtain ⟨x, -, hc⟩ := h
  refine .trans ?_ (prefix_of_mem_clipItemChecked hc)
  exact (List.prefix_append _ _).trans (List.prefix_append _ _)

theorem nodup_trackChecked (track : Json) : ((trackChecked path track).map (·.path)).Nodup := by
  rw [trackChecked_eq]
  refine nodup_items (fun v _ path c hc => prefix_of_mem_clipItemChecked hc) fun v _ path => ?_
  unfold clipItemChecked
  split
  · exact (nodup_below (by decide)).sublist (paths_clipChecked _)
  · exact .nil

/-- The tracks of a document. -/
def tracks (doc : Document) : List Json :=
  ((doc.timeline?.bind (·.get? "tracks")).bind items?).getD []

theorem clipsChecked_eq : doc.clips.flatMap clipChecked = (tracks doc).zipIdx.flatMap fun x =>
    trackChecked ((doc.timelinePath.key "tracks").index x.2) x.1 := by
  unfold Document.clips tracks
  cases (doc.timeline?.bind (·.get? "tracks")).bind items? with
  | none => rfl
  | some tracks => exact List.flatMap_assoc

theorem prefix_of_mem_clipsChecked {c : Checked} (h : c ∈ doc.clips.flatMap clipChecked) :
    doc.timelinePath.steps <+: c.path.steps := by
  rw [clipsChecked_eq, List.mem_flatMap] at h
  obtain ⟨x, -, hc⟩ := h
  refine .trans ?_ (prefix_of_mem_trackChecked hc)
  exact (List.prefix_append _ _).trans (List.prefix_append _ _)

/-- The output settings do not stand in the timeline. -/
theorem path_ne_of_output {output : Located Json} (ho : doc.output? = some output) {p q : Path}
    (hp : doc.timelinePath.steps <+: p.steps) (hq : output.path.steps <+: q.steps) : p ≠ q := by
  rintro rfl
  obtain ⟨rest, hrest⟩ := hp
  obtain ⟨rest', hrest'⟩ := hq
  rw [← hrest'] at hrest
  have htimeline : doc.timelinePath.steps = [.key "template", .key "timeline"] ∨
      doc.timelinePath.steps = [.key "timeline"] := by
    unfold Document.timelinePath
    cases doc.shape <;> simp [Path.key, Path.push, Path.root]
  have houtput : output.path.steps = [.key "output"] ∨
      output.path.steps = [.key "template", .key "output"] := by
    unfold Document.output? Document.rootOrTemplate? at ho
    split at ho
    · cases ho
      exact .inl rfl
    · obtain ⟨template, -, ho⟩ := Option.bind_eq_some_iff.1 ho
      obtain ⟨value, -, ho⟩ := Option.bind_eq_some_iff.1 ho
      cases ho
      exact .inr rfl
  rcases htimeline with ht | ht <;> rcases houtput with ho | ho <;> simp [ht, ho] at hrest

/-- The rule looks at no value twice. -/
theorem nodup_checked (doc : Document) : ((checked doc).map (·.path)).Nodup := by
  rw [checked, List.map_append, List.nodup_append]
  refine ⟨?_, ?_, ?_⟩
  · rw [clipsChecked_eq]
    exact nodup_items (fun v _ path c hc => prefix_of_mem_trackChecked hc)
      fun v _ path => nodup_trackChecked v
  · cases doc.output? with
    | none => exact .nil
    | some output => exact (nodup_below (by decide)).sublist (paths_outputChecked output)
  · intro p hp q hq
    obtain ⟨c, hc, rfl⟩ := List.mem_map.1 hp
    obtain ⟨c', hc', rfl⟩ := List.mem_map.1 hq
    cases ho : doc.output? with
    | none =>
      rw [ho] at hc'
      cases hc'
    | some output =>
      rw [ho] at hc'
      exact path_ne_of_output ho (prefix_of_mem_clipsChecked hc) (prefix_of_mem_outputChecked hc')

/-! ## What the findings say -/

/-- The start of a suggestion that names an accepted value. -/
def hintStart : String := "did you mean '"

/-- No two accepted values of a kind differ in case alone. -/
theorem eq_of_sameIgnoringCase {known known' value : String} (hk : known ∈ kind.values)
    (hk' : known' ∈ kind.values) (h : Text.sameIgnoringCase known value = true)
    (h' : Text.sameIgnoringCase known' value = true) : known = known' := by
  have hn : (kind.values.map fun s => s.toList.map Text.lowerAscii).Nodup := by
    cases kind <;> decide +kernel
  rw [Text.sameIgnoringCase, beq_iff_eq] at h h'
  exact List.inj_on_of_nodup_map hn hk hk' (h.trans h'.symm)

theorem canonical?_eq_some_iff {known value : String} : kind.canonical? value = some known ↔
    known ∈ kind.values ∧ Text.sameIgnoringCase known value = true := by
  have hsound {found : String} (h : kind.canonical? value = some found) :
      found ∈ kind.values ∧ Text.sameIgnoringCase found value = true :=
    ⟨List.mem_of_find?_eq_some h, List.find?_some (p := fun k => Text.sameIgnoringCase k value) h⟩
  refine ⟨hsound, fun ⟨hm, hs⟩ => ?_⟩
  have hfound : (kind.canonical? value).isSome = true := List.find?_isSome.2 ⟨known, hm, hs⟩
  obtain ⟨found, hf⟩ := Option.isSome_iff_exists.1 hfound
  rw [hf, eq_of_sameIgnoringCase (hsound hf).1 hm (hsound hf).2 hs]

theorem not_hint_of_valid (rest : String) : ¬ hintStart.toList <+: ("valid " ++ rest).toList := by
  rintro ⟨more, h⟩
  have hstart : hintStart.toList = 'd' :: "id you mean '".toList := by decide +kernel
  have hvalid : "valid ".toList = 'v' :: "alid ".toList := by decide +kernel
  rw [String.toList_append, hstart, hvalid] at h
  cases h

/-- A suggestion starts with a hint exactly when some accepted value differs in case alone. -/
theorem hint_valueSuggestion_iff {value : String} :
    hintStart.toList <+: (valueSuggestion kind value).toList ↔
      ∃ known ∈ kind.values, Text.sameIgnoringCase known value = true := by
  simp only [← canonical?_eq_some_iff]
  unfold valueSuggestion
  cases kind.canonical? value with
  | none =>
    simp only [String.append_assoc, not_hint_of_valid, reduceCtorEq, exists_const]
  | some known =>
    refine iff_of_true ?_ ⟨known, rfl⟩
    simp only [String.append_assoc]
    rw [String.toList_append]
    exact List.prefix_append _ _

theorem hint_valueSuggestion {known value : String} (hk : known ∈ kind.values)
    (hs : Text.sameIgnoringCase known value = true) :
    (hintStart ++ known ++ "'?").toList <+: (valueSuggestion kind value).toList := by
  have hend : "'? " = "'?" ++ " " := by decide +kernel
  rw [valueSuggestion, canonical?_eq_some_iff.2 ⟨hk, hs⟩]
  dsimp only
  simp only [hend, hintStart, String.toList_append, List.append_assoc]
  refine (List.prefix_append_right_inj _).2 ((List.prefix_append_right_inj _).2 ?_)
  exact List.prefix_append _ _

/-- A finding reports a value that does not fit: an error at its path if the value has the wrong
type, and else a warning, which names the accepted value that differs in case alone. -/
structure Reports (c : Checked) (f : Finding) : Prop where
  field : f.field = c.path.shown
  category : f.category = .field
  wrongType : ¬ c.HasType → f.severity = .error
  unknown : c.HasType → f.severity = .warning
  hint : ∀ kind s, c.expected = .known kind → c.value = .string s →
    ∃ suggestion, f.suggestion = some suggestion ∧
      (hintStart.toList <+: suggestion.toList ↔
        ∃ known ∈ kind.values, Text.sameIgnoringCase known s = true) ∧
      ∀ known ∈ kind.values, Text.sameIgnoringCase known s = true →
        (hintStart ++ known ++ "'?").toList <+: suggestion.toList

/-- A value of the wrong type gives an error at its path. -/
theorem Reports.error {c : Checked} {message : String} (h : ¬ c.HasType) :
    Reports c (.error .field c.path.shown message) := by
  refine ⟨rfl, rfl, fun _ => rfl, fun ht => absurd ht h, fun kind s he hv => ?_⟩
  refine absurd ?_ h
  rw [Checked.HasType, he]
  exact ⟨s, hv⟩

theorem reports_of_finding? {c : Checked} {f : Finding} (h : c.finding? = some f) :
    Reports c f := by
  obtain ⟨expected, path, value⟩ := c
  cases expected with
  | sides =>
    cases value with
    | object sides => cases h
    | _ =>
      cases h
      exact .error (by simp [Checked.HasType])
  | known kind =>
    cases value with
    | string s =>
      unfold Checked.finding? valueFinding? at h
      dsimp only at h
      split at h
      · cases h
      · cases h
        refine ⟨rfl, rfl, fun hn => absurd ⟨s, rfl⟩ hn, fun _ => rfl, fun kind' s' he hv => ?_⟩
        cases he
        cases hv
        exact ⟨_, rfl, hint_valueSuggestion_iff, fun known hk hs => hint_valueSuggestion hk hs⟩
    | _ =>
      cases h
      exact .error (by simp [Checked.HasType])

/-- **What the rule about values looks at, and what it says.** The layout rule looks into exactly the
clips of the document, in order and at their paths. The rule about values looks at the values of these
clips and of the output settings, at none of them twice. It finds nothing exactly when they all fit,
and otherwise reports those that do not, one finding for each in their order. -/
theorem values_exact (doc : Document) :
    bodyFindings doc = (bodySteps doc).flatMap LayoutStep.findings ∧
    (bodySteps doc).filterMap LayoutStep.clip? = doc.clips ∧
    (values doc = [] ↔ ∀ c, Looks doc c → c.Fits) ∧
    (∀ c, c ∈ checked doc ↔ Looks doc c) ∧
    (∀ c ∈ checked doc, PartAt doc.toJson c.path c.value) ∧
    ((checked doc).map (·.path)).Nodup ∧
    List.Forall₂ Reports ((checked doc).filter fun c => ¬ c.Fits) (values doc) := by
  refine ⟨(findings_bodySteps doc).symm, clips_of_bodySteps doc, ?_, fun c => mem_checked_iff,
    fun c hc => (mem_checked_iff.1 hc).partAt, nodup_checked doc, ?_⟩
  · rw [values_eq, List.filterMap_eq_nil_iff]
    simp only [mem_checked_iff, Checked.finding?_eq_none_iff]
  · have hfilter : ((checked doc).filter fun c => ¬ c.Fits) =
        (checked doc).filter fun c => c.finding?.isSome := by
      refine List.filter_congr fun c _ => ?_
      rw [Bool.eq_iff_iff, decide_eq_true_iff, ← Checked.finding?_eq_none_iff]
      exact Option.isSome_iff_ne_none.symm
    rw [hfilter, values_eq]
    exact (forall₂_filter_isSome Checked.finding? _).imp fun _ _ h => reports_of_finding? h

end VideoScript.Rules
