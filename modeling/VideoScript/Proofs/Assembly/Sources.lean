import Mathlib.Data.List.Induction
import VideoScript.Assembly.Edit
import VideoScript.Proofs.Json.Pointer
import VideoScript.Proofs.Media.References

/-!
# Files in place of sources

Placing the addresses of files in a well-formed document rewrites the strings at the locations of
references and no others (`placeUrls_eq`): the string at a path becomes `placedText`. So the
timeline is rewritten in this way (`timeline?_placeUrls`), and the output settings, which no
reference stands in, stay (`output?_placeUrls`).
-/

set_option autoImplicit false

namespace VideoScript.Assembly

open Json Media

/-- The text that stands at a path once files are in place: the address of the file of a reference
without a placeholder there, or the text from before. -/
def placedText (shape : Shape) (uploads : List Upload) (refs : List Reference) (path : Path)
    (text : String) : String :=
  ((refs.find? fun r => r.location = path && (boundToken? shape r).isNone).bind
    fun r => urlOf? uploads r.raw).getD text

variable {doc : Document} {shape : Shape} {uploads : List Upload} {refs : List Reference}

/-! ## The text at a path -/

theorem placedText_of_no_reference {path : Path}
    (h : ∀ r ∈ refs, r.location = path → boundToken? shape r ≠ none) (text : String) :
    placedText shape uploads refs path text = text := by
  have hnone : refs.find? (fun r => r.location = path && (boundToken? shape r).isNone) = none := by
    rw [List.find?_eq_none]
    intro r hr hb
    simp only [Bool.and_eq_true, decide_eq_true_eq, Option.isNone_iff_eq_none] at hb
    exact h r hr hb.1 hb.2
  rw [placedText, hnone]
  rfl

theorem placedText_location {r : Reference} (hr : r ∈ refs)
    (hu : ∀ r' ∈ refs, r'.location = r.location → r' = r) (hb : boundToken? shape r = none)
    {url : String} (h : urlOf? uploads r.raw = some url) (text : String) :
    placedText shape uploads refs r.location text = url := by
  unfold placedText
  cases hf : refs.find? (fun r' => r'.location = r.location && (boundToken? shape r').isNone) with
  | none =>
    have := List.find?_eq_none.1 hf r hr
    simp [hb] at this
  | some r' =>
    have hl : r'.location = r.location := by
      have := List.find?_some hf
      simp only [Bool.and_eq_true, decide_eq_true_eq] at this
      exact this.1
    rw [hu r' (List.mem_of_find?_eq_some hf) hl, Option.bind_some, h, Option.getD_some]

/-- One more reference writes over what the others have written. -/
theorem placedText_snoc {r : Reference} (hu : ∀ r' ∈ refs, r'.location = r.location → r' = r)
    (path : Path) (text : String) :
    placedText shape uploads (refs ++ [r]) path text =
      placedText shape uploads [r] path (placedText shape uploads refs path text) := by
  unfold placedText
  rw [List.find?_append, List.find?_singleton]
  cases hf : refs.find? (fun r => r.location = path && (boundToken? shape r).isNone) with
  | none => rw [Option.none_or]; rfl
  | some r' =>
    rw [Option.some_or]
    split
    · rename_i h
      have h' := List.find?_some hf
      simp only [Bool.and_eq_true, decide_eq_true_eq] at h h'
      rw [hu r' (List.mem_of_find?_eq_some hf) (by rw [h.1, h'.1]), Option.bind_some]
      cases urlOf? uploads r.raw <;> rfl
    · rfl

/-! ## Placing -/

/-- Placing the file of one reference in a document some of whose strings have been rewritten. -/
theorem placeUrl_rewriteAt (hw : WellFormed doc.toJson) {r : Reference} (hr : r ∈ references doc)
    (f : Path → String → String) :
    placeUrl shape uploads (rewriteAt f .root doc.toJson) r =
      rewriteAt (fun path text => placedText shape uploads [r] path (f path text)) .root
        doc.toJson := by
  obtain ⟨timeline, steps, s, ht, hp, hf, -⟩ := follow?_location hw hr
  have hdoc : doc.toJson.follow? r.location.steps = some (.string s) := by
    rw [hp, follow?_append, Document.follow?_timelinePath, ht]
    exact hf
  have hfollow : (rewriteAt f .root doc.toJson).follow? r.location.steps =
      some (.string (f r.location s)) := by
    rw [follow?_rewriteAt, hdoc]
    rfl
  -- without an address to place, the new text is the old one
  have hkeep : (∀ path text, placedText shape uploads [r] path text = text) →
      rewriteAt f .root doc.toJson = rewriteAt
        (fun path text => placedText shape uploads [r] path (f path text)) .root doc.toJson :=
    fun h => rewriteAt_congr fun _ _ => (h _ _).symm
  unfold placeUrl
  cases hb : boundToken? shape r with
  | some token =>
    exact hkeep fun path => placedText_of_no_reference (by simp [hb])
  | none =>
    cases hurl : urlOf? uploads r.raw with
    | none =>
      refine hkeep fun path text => ?_
      rw [placedText, List.find?_singleton]
      split <;> simp [hurl]
    | some url =>
      show ((rewriteAt f .root doc.toJson).writeAt? r.location.pointer (.string url)).getD _ = _
      rw [writeAt?_pointer hfollow, replace?_string hw.rewriteAt hfollow, Option.getD_some,
        rewriteAt_rewriteAt]
      refine rewriteAt_congr fun more text => ?_
      have hroot : (⟨Path.root.steps ++ r.location.steps⟩ : Path) = r.location := rfl
      rw [hroot, overwrite, placedText, List.find?_singleton]
      by_cases he : (⟨Path.root.steps ++ more⟩ : Path) = r.location
      · simp [he, hb, hurl]
      · simp [he, Ne.symm he]

/-- Placing files rewrites the strings at the locations of references. -/
theorem foldl_placeUrl (hw : WellFormed doc.toJson) (hr : refs ⊆ references doc) :
    refs.foldl (placeUrl shape uploads) doc.toJson =
      rewriteAt (placedText shape uploads refs) .root doc.toJson := by
  induction refs using List.reverseRecOn with
  | nil => exact rewriteAt_id.symm
  | append_singleton rs r ih =>
    obtain ⟨hrs, hr⟩ := List.append_subset.1 hr
    have hr : r ∈ references doc := hr List.mem_cons_self
    rw [List.foldl_append, ih hrs, List.foldl_cons, List.foldl_nil, placeUrl_rewriteAt hw hr]
    refine rewriteAt_congr fun steps text => (placedText_snoc ?_ _ text).symm
    exact fun r' hr' hl => eq_of_location hw (hrs hr') hr hl

theorem placeUrls_eq (hw : WellFormed doc.toJson) (hr : refs ⊆ references doc) :
    placeUrls doc refs uploads = doc.rewritten (placedText doc.shape uploads refs) := by
  unfold placeUrls
  rw [foldl_placeUrl hw hr]
  rfl

/-! ## The parts of the edit -/

theorem timeline?_placeUrls (hw : WellFormed doc.toJson) (hr : refs ⊆ references doc) :
    (placeUrls doc refs uploads).timeline? =
      doc.timeline?.map (rewriteAt (placedText doc.shape uploads refs) doc.timelinePath) := by
  rw [placeUrls_eq hw hr, Document.timeline?_rewritten]

/-- The output settings stand apart from the timeline. -/
theorem output_apart {output : Located Json} (h : doc.output? = some output) (a b : List Step) :
    output.path.steps ++ a ≠ doc.timelinePath.steps ++ b := by
  unfold Document.output? Document.rootOrTemplate? at h
  unfold Document.timelinePath
  cases hr : doc.root.get? "output" with
  | some v =>
    rw [hr] at h
    cases h
    cases doc.shape <;> simp [Path.root, Path.key, Path.push]
  | none =>
    rw [hr] at h
    obtain ⟨template, -, h⟩ := Option.bind_eq_some_iff.1 h
    obtain ⟨v, -, h⟩ := Option.bind_eq_some_iff.1 h
    cases h
    cases doc.shape <;> simp [Path.root, Path.key, Path.push]

theorem output?_placeUrls (hw : WellFormed doc.toJson) (hr : refs ⊆ references doc) :
    (placeUrls doc refs uploads).output? = doc.output? := by
  rw [placeUrls_eq hw hr, Document.output?, Document.rootOrTemplate?_rewritten]
  cases ho : doc.rootOrTemplate? "output" with
  | none => exact ho.symm
  | some output =>
    have hkeep : rewriteAt (placedText doc.shape uploads refs) output.path output.value =
        output.value := by
      refine rewriteAt_eq_self fun steps => placedText_of_no_reference fun r hmem hl => ?_
      obtain ⟨-, more, -, -, hp, -⟩ := follow?_location hw (hr hmem)
      rw [hl] at hp
      exact absurd hp (output_apart ho steps more)
    rw [Document.output?, ho, Option.map_some, hkeep]

end VideoScript.Assembly
