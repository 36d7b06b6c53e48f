import VideoScript.Check
import VideoScript.Proofs.Document
import VideoScript.Proofs.Placeholder.Scan
import VideoScript.Proofs.Rules.Entries

/-!
# Where the findings of the rules point

`PointsInto root f`: the finding `f` stands at a place of the value `root`, and the locations that it
lists are those of strings in it. Each rule is followed down the document with the part that it looks
at (`PartAt`): a finding about a part stands at the part itself or one key further, and an object has
a place for every key, so it does not matter whether the member is there.

The rules about braces and about placeholders go by the paths that the scan has kept, and those are
paths of strings (`leaf_of_occurrence`, `leaf_of_issue`).
-/

set_option autoImplicit false

namespace VideoScript

open Json Placeholder

/-- A finding stands at a place of a value, and the locations that it lists are those of strings. -/
structure PointsInto (root : Json) (f : Finding) : Prop where
  field : ∃ path, IsPlace root path ∧ f.field = path.shown
  locations : ∀ shown ∈ f.locations, ∃ leaf ∈ leaves root, shown = leaf.path.shown

theorem PointsInto.of_place {root : Json} {path : Path} {severity : Severity} {category : Category}
    {message : String} {suggestion : Option String} (h : IsPlace root path) :
    PointsInto root ⟨severity, category, path.shown, message, suggestion, []⟩ :=
  ⟨⟨path, h, rfl⟩, fun _ hl => absurd hl List.not_mem_nil⟩

/-- All findings of a list point into a value. -/
def AllInto (root : Json) (findings : List Finding) : Prop := ∀ f ∈ findings, PointsInto root f

namespace AllInto

variable {root : Json} {path : Path} {fs gs : List Finding}

theorem nil : AllInto root [] := by simp [AllInto]

theorem single {severity : Severity} {category : Category} {message : String}
    {suggestion : Option String} (h : IsPlace root path) :
    AllInto root [⟨severity, category, path.shown, message, suggestion, []⟩] :=
  List.forall_mem_singleton.2 (.of_place h)

theorem otherwise {p : Prop} [Decidable p] (h : AllInto root fs) :
    AllInto root (if p then [] else fs) := by
  split
  · exact .nil
  · exact h

theorem append (hf : AllInto root fs) (hg : AllInto root gs) : AllInto root (fs ++ gs) :=
  List.forall_mem_append.2 ⟨hf, hg⟩

theorem flatMap {α : Type} {xs : List α} {f : α → List Finding}
    (h : ∀ x ∈ xs, AllInto root (f x)) : AllInto root (xs.flatMap f) := by
  intro g hg
  obtain ⟨x, hx, hg⟩ := List.mem_flatMap.1 hg
  exact h x hx g hg

theorem map {α : Type} {xs : List α} {f : α → Finding} (h : ∀ x ∈ xs, PointsInto root (f x)) :
    AllInto root (xs.map f) := List.forall_mem_map.2 h

end AllInto

namespace Rules

variable {root value : Json} {path : Path} {members : Members} {doc : Document}

/-! ## The layout -/

section
variable (h : PartAt root path (.object members))
include h

theorem textFindings_into (key : String) : AllInto root (textFindings members path key) := by
  unfold textFindings
  split
  · exact .single (h.member key)
  · split
    · exact .single (h.member key)
    · exact .nil
  · exact .single (h.member key)

theorem typeFindings_into : AllInto root (typeFindings members path) := by
  unfold typeFindings
  split
  · exact .single (h.member "type")
  · exact .nil
  · exact .single (h.member "type")

theorem contentFindings_into : AllInto root (contentFindings members path) := by
  unfold contentFindings
  split
  · exact textFindings_into h _
  · exact .nil

theorem volumeFindings_into : AllInto root (volumeFindings members path) := by
  unfold volumeFindings
  split
  · exact .nil
  · split
    · exact .otherwise (.single (h.member "volume"))
    · exact .single (h.member "volume")

theorem trimFindings_into : AllInto root (trimFindings members path) := by
  unfold trimFindings
  split
  · exact .nil
  · split
    · exact .otherwise (.single (h.member "trim"))
    · exact .single (h.member "trim")

theorem assetFindings_into : AllInto root (assetFindings members path) :=
  (((typeFindings_into h).append (contentFindings_into h)).append (volumeFindings_into h)).append
    (trimFindings_into h)

theorem startFindings_into : AllInto root (startFindings members path) := by
  unfold startFindings
  split
  · exact .single (h.member "start")
  · exact .otherwise (.single (h.member "start"))

theorem lengthFindings_into : AllInto root (lengthFindings members path) := by
  unfold lengthFindings
  split
  · exact .single (h.member "length")
  · split
    · split
      · exact .single (h.member "length")
      · exact .otherwise (.single (h.member "length"))
    · exact .otherwise (.single (h.member "length"))
    · exact .single (h.member "length")

theorem clipFindings_into : AllInto root (clipFindings members path) := by
  refine .append (.append ?_ (startFindings_into h)) (lengthFindings_into h)
  split
  · exact .single (h.member "asset")
  · rename_i asset ha
    exact assetFindings_into (h.key ha)
  · exact .single (h.member "asset")

theorem fileTypeFindings_into : AllInto root (fileTypeFindings members path) := by
  unfold fileTypeFindings
  split
  · exact .single (h.member "format")
  · exact .nil
  · exact .single (h.member "format")

theorem rateFindings_into : AllInto root (rateFindings members path) := by
  unfold rateFindings
  split
  · exact .nil
  · exact .otherwise (.single (h.member "fps"))

end

section
variable (h : PartAt root path value)
include h

theorem clipItemFindings_into : AllInto root (clipItemFindings path value) := by
  unfold clipItemFindings
  split
  · exact clipFindings_into h
  · exact .single (.part h)

theorem trackFindings_into : AllInto root (trackFindings path value) := by
  unfold trackFindings
  split
  · dsimp only
    split
    · exact .single (h.member "clips")
    · rename_i clips hclips
      refine .flatMap fun x hx => clipItemFindings_into ?_
      exact (h.key hclips).index (List.mk_mem_zipIdx_iff_getElem?.1 hx)
    · exact .single (h.member "clips")
  · exact .single (.part h)

theorem timelineFindings_into : AllInto root (timelineFindings path value) := by
  unfold timelineFindings
  split
  · dsimp only
    split
    · exact .single (h.member "tracks")
    · rename_i tracks htracks
      refine .append ?_ (.flatMap fun x hx => trackFindings_into ?_)
      · split
        · exact .single (h.member "tracks")
        · exact .nil
      · exact (h.key htracks).index (List.mk_mem_zipIdx_iff_getElem?.1 hx)
    · exact .single (h.member "tracks")
  · exact .single (.part h)

theorem outputFindings_into : AllInto root (outputFindings path value) := by
  unfold outputFindings
  split
  · exact (fileTypeFindings_into h).append (rateFindings_into h)
  · exact .single (.part h)

end

theorem bodyFindings_into (doc : Document) : AllInto doc.toJson (bodyFindings doc) := by
  have hroot : PartAt doc.toJson .root (.object doc.root) := rfl
  unfold bodyFindings
  split
  · exact .single (hroot.member "template")
  · rename_i hnot
    split
    · rename_i timeline ht
      exact timelineFindings_into (Document.follow?_timelinePath.trans ht)
    · exact .single (Document.isPlace_timelinePath fun hs hnone => hnot hs hnone)

theorem layout_into (doc : Document) : AllInto doc.toJson (layout doc) := by
  have hroot : PartAt doc.toJson .root (.object doc.root) := rfl
  refine .append (bodyFindings_into doc) ?_
  split
  · rename_i output ho
    exact outputFindings_into (Document.partAt_rootOrTemplate? ho)
  · exact .single (hroot.member "output")

/-! ## What the scan has kept -/

theorem leaf_of_occurrence {o : Occurrence} (h : o ∈ (scan doc).occurrences) :
    ∃ leaf ∈ leaves doc.toJson, o.path = leaf.path := by
  obtain ⟨leaf, hl, ho⟩ := List.mem_flatMap.1 h
  obtain ⟨piece, -, hpiece⟩ := List.mem_filterMap.1 ho
  rw [scannedLeaves_eq] at hl
  refine ⟨leaf, List.mem_of_mem_filter hl, ?_⟩
  cases piece <;> cases hpiece
  rfl

theorem leaf_of_issue {issue : Issue} (h : issue ∈ (scan doc).issues) :
    ∃ leaf ∈ leaves doc.toJson, issue.path = leaf.path := by
  obtain ⟨leaf, hl, hi⟩ := List.mem_flatMap.1 h
  obtain ⟨piece, -, hpiece⟩ := List.mem_filterMap.1 hi
  rw [scannedLeaves_eq] at hl
  refine ⟨leaf, List.mem_of_mem_filter hl, ?_⟩
  cases piece with
  | token name => cases hpiece
  | problem kind text =>
    dsimp only at hpiece
    split at hpiece
    · cases hpiece
      rfl
    · cases hpiece

theorem markup_into (hw : WellFormed doc.toJson) :
    AllInto doc.toJson (markup (scan doc)) := by
  refine .map fun issue hi => ?_
  obtain ⟨leaf, hl, hp⟩ := leaf_of_issue hi
  have hplace : IsPlace doc.toJson issue.path := hp ▸ .part (.of_leaf hw hl)
  unfold issueFinding
  split <;> exact .of_place hplace

/-! ## The merge array -/

theorem entryShapeFindings_into (h : PartAt root path (.object members)) :
    AllInto root (entryShapeFindings path members) := by
  refine .append ?_ ?_
  · split
    · exact .single (.part h)
    · exact .nil
    · exact .single (h.member "find")
  · split
    · exact .single (.part h)
    · exact .nil
    · exact .single (h.member "replace")

theorem partFindings_into (h : PartAt root path value) :
    AllInto root (partFindings path value) := by
  unfold partFindings
  split
  · exact entryShapeFindings_into h
  · exact .single (.part h)

theorem isPlace_name (h : PartAt root path value) (hn : entryName? value ≠ none) :
    IsPlace root (path.key "find") := by
  cases value with
  | object members => exact h.member "find"
  | _ => exact absurd rfl hn

theorem nameWarnings_into (h : PartAt root path value) (before : List Json) :
    AllInto root (nameWarnings path before value) := by
  unfold nameWarnings
  split
  · exact .nil
  · rename_i name hname
    have hplace := isPlace_name h fun hn => by simp [hn] at hname
    split
    · exact .single hplace
    · exact .map fun first _ => .of_place hplace

theorem nameNotes_into {before : List Json} (h : PartAt root (path.index before.length) value)
    (tokens : List String) : AllInto root (nameNotes path tokens before value) := by
  refine .map fun name hname => ?_
  rw [Option.mem_toList, Option.filter_eq_some_iff, newName?_eq_some_iff] at hname
  have hplace := isPlace_name h fun hn => by simp [IsNamed, hn] at hname
  exact .of_place hplace

/-- The error about a placeholder without an entry lists the strings with it. -/
theorem uncoveredFinding_into (hw : WellFormed doc.toJson) {token : String}
    (h : token ∈ (scan doc).occurrences.map (·.token)) :
    PointsInto doc.toJson (uncoveredFinding token (pathsOf (scan doc) token)) := by
  have hlocations : ∀ shown ∈ (uncoveredFinding token (pathsOf (scan doc) token)).locations,
      ∃ leaf ∈ leaves doc.toJson, shown = leaf.path.shown := by
    intro shown hs
    obtain ⟨p, hp, rfl⟩ := List.mem_map.1 hs
    obtain ⟨o, ho, rfl⟩ := List.mem_map.1 hp
    obtain ⟨leaf, hl, he⟩ := leaf_of_occurrence (List.mem_of_mem_filter ho)
    exact ⟨leaf, hl, by rw [he]⟩
  refine ⟨?_, hlocations⟩
  obtain ⟨leaf, hl, he⟩ := hlocations _ (List.mem_of_head? (uncoveredFinding_at h))
  exact ⟨leaf.path, .part (.of_leaf hw hl), he⟩

theorem coverage_into (hw : WellFormed doc.toJson) :
    AllInto doc.toJson (coverage doc (scan doc)) := by
  have hroot : PartAt doc.toJson .root (.object doc.root) := rfl
  cases hm : doc.merge? with
  | none =>
    rw [coverage, hm]
    exact .otherwise (.single (hroot.member "merge"))
  | some merge =>
    have hmerge : PartAt doc.toJson merge.path merge.value := Document.partAt_rootOrTemplate? hm
    obtain ⟨value, path⟩ := merge
    cases value with
    | array entries =>
      cases entries with
      | nil =>
        rw [coverage, hm]
        exact .otherwise (.single (.part hmerge))
      | cons first rest =>
        rw [coverage_filled hm (List.cons_ne_nil _ _), filledMerge_eq fun _ => token_ne_empty]
        -- an entry stands at the index that the number of entries before it gives
        have hentry {prior : List Json} {entry : Json}
            (hx : (prior, entry) ∈ withPrior [] (first :: rest)) :
            PartAt doc.toJson (path.index prior.length) entry := by
          obtain ⟨front, after, hsplit, rfl⟩ := mem_withPrior_iff.1 hx
          exact hmerge.index (by simp [hsplit])
        refine .append (.append (.flatMap fun x hx => ?_) (.map fun token ht => ?_))
          (.flatMap fun x hx => nameNotes_into (hentry hx) _)
        · exact (partFindings_into (hentry hx)).append (nameWarnings_into (hentry hx) _)
        · exact uncoveredFinding_into hw (List.mem_eraseDups.1 (List.mem_of_mem_filter ht))
    | null | bool | number | string | object =>
      rw [coverage, hm]
      exact .single (.part hmerge)

/-! ## Values with a vocabulary -/

theorem valueFinding?_into (h : IsPlace root path) (kind : Vocabulary) (value : Json) :
    AllInto root (valueFinding? kind path value).toList := by
  unfold valueFinding?
  split
  · split
    · exact .nil
    · exact .single h
  · exact .single h

section
variable (h : PartAt root path (.object members))
include h

theorem memberFindings_into (kind : Vocabulary) (key : String) :
    AllInto root (memberFindings kind members path key) := by
  unfold memberFindings
  split
  · exact valueFinding?_into (h.member key) _ _
  · exact .nil

theorem textMemberFindings_into (kind : Vocabulary) (key : String) :
    AllInto root (textMemberFindings kind members path key) := by
  unfold textMemberFindings
  split
  · exact valueFinding?_into (h.member key) _ _
  · exact .nil

theorem transitionFindings_into : AllInto root (transitionFindings members path) := by
  unfold transitionFindings
  split
  · exact .nil
  · rename_i sides hs
    exact (memberFindings_into (h.key hs) _ _).append (memberFindings_into (h.key hs) _ _)
  · exact .single (h.member "transition")

end

theorem clipValueFindings_into {clip : Located Members}
    (h : PartAt root clip.path (.object clip.value)) : AllInto root (clipValueFindings clip) := by
  refine .append (.append (.append ?_ (transitionFindings_into h)) (memberFindings_into h _ _))
    (memberFindings_into h _ _)
  split
  · rename_i asset ha
    exact textMemberFindings_into (h.key ha) _ _
  · exact .nil

theorem outputValueFindings_into {output : Located Json}
    (h : PartAt root output.path output.value) : AllInto root (outputValueFindings output) := by
  unfold outputValueFindings
  split
  · rename_i members ho
    rw [ho] at h
    exact ((memberFindings_into h _ _).append (memberFindings_into h _ _)).append
      (textMemberFindings_into h _ _)
  · exact .nil

theorem values_into (doc : Document) : AllInto doc.toJson (values doc) := by
  refine .append (.flatMap fun clip hc => clipValueFindings_into (Document.partAt_clip hc)) ?_
  split
  · rename_i output ho
    exact outputValueFindings_into (Document.partAt_rootOrTemplate? ho)
  · exact .nil

end Rules

/-- The findings of all rules point into the document. -/
theorem ruleFindings_into {doc : Document} (hw : WellFormed doc.toJson) :
    AllInto doc.toJson (ruleFindings doc) :=
  (((Rules.layout_into doc).append (Rules.markup_into hw)).append (Rules.coverage_into hw)).append
    (Rules.values_into doc)

end VideoScript
