import VideoScript.Media.Reference
import VideoScript.Proofs.Document
import VideoScript.Proofs.Placeholder.Pieces
import VideoScript.Proofs.Placeholder.Scan

/-!
# The references of a document

Each reference comes from one string of the timeline (`exists_leaf`). In a well-formed document its
location leads to that string, so no two references share a location (`eq_of_location`). What stands
behind a placeholder is settled by the merge array alone: two references through one placeholder
have one media path (`raw_eq_of_token`). The placeholder of a reference is trimmed
(`trim_token`) and is among those that the scan finds (`token_occurs`).
-/

set_option autoImplicit false

namespace VideoScript.Media

open Json Text Placeholder

variable {doc : Document} {r r' : Reference}

/-! ## Where references come from -/

/-- What the string at the location of a reference gives. -/
theorem reference?_eq_some {bindings : List Binding} {leaf : Leaf}
    (h : reference? bindings leaf = some r) :
    r.location = leaf.path ∧ ∃ raw token,
      source? bindings (trimChars leaf.text.toList) = some (raw, token) ∧
      r.raw = .ofList raw ∧ r.token = token.map .ofList := by
  unfold reference? at h
  split at h
  · dsimp only at h
    split at h
    · cases h
    · obtain ⟨⟨raw, token⟩, hs, rfl⟩ := Option.map_eq_some_iff.1 h
      exact ⟨rfl, raw, token, hs, rfl, rfl⟩
  · cases h

theorem source?_token {bindings : List Binding} {s raw token : List Char}
    (h : source? bindings s = some (raw, some token)) :
    soleToken? s = some token ∧ diskPath? ((boundValue? bindings token).getD token) = some raw := by
  unfold source? at h
  split at h
  · rename_i t ht
    obtain ⟨path, hp, he⟩ := Option.map_eq_some_iff.1 h
    cases he
    exact ⟨ht, hp⟩
  · split at h
    · cases h
    · obtain ⟨path, -, he⟩ := Option.map_eq_some_iff.1 h
      cases he

/-- A reference comes from a string of the timeline. -/
theorem exists_leaf (h : r ∈ references doc) :
    ∃ timeline, doc.timeline? = some timeline ∧
      ∃ leaf ∈ leavesAt doc.timelinePath timeline, reference? doc.bindings leaf = some r := by
  unfold references at h
  split at h
  · cases h
  · rename_i timeline ht
    exact ⟨timeline, ht, List.mem_filterMap.1 h⟩

/-- The location of a reference leads to a string of the timeline. -/
theorem follow?_location (hw : WellFormed doc.toJson) (h : r ∈ references doc) :
    ∃ timeline steps s, doc.timeline? = some timeline ∧
      r.location.steps = doc.timelinePath.steps ++ steps ∧
      timeline.follow? steps = some (.string s) ∧
      reference? doc.bindings ⟨r.location, s⟩ = some r := by
  obtain ⟨timeline, ht, leaf, hl, hr⟩ := exists_leaf h
  obtain ⟨steps, hp, hf⟩ := follow?_of_mem_leavesAt (Document.wellFormed_timeline hw ht) hl
  have hloc := (reference?_eq_some hr).1
  refine ⟨timeline, steps, leaf.text, ht, by rw [hloc, hp], hf, ?_⟩
  rw [hloc]
  exact hr

/-- No two references share a location. -/
theorem eq_of_location (hw : WellFormed doc.toJson) (h : r ∈ references doc)
    (h' : r' ∈ references doc) (hl : r.location = r'.location) : r = r' := by
  obtain ⟨timeline, steps, s, ht, hp, hf, hr⟩ := follow?_location hw h
  obtain ⟨timeline', steps', s', ht', hp', hf', hr'⟩ := follow?_location hw h'
  rw [ht] at ht'
  cases ht'
  rw [hl, hp', List.append_cancel_left_eq] at hp
  subst hp
  rw [hf] at hf'
  cases hf'
  rw [hl, hr'] at hr
  exact (Option.some.inj hr).symm

/-! ## References through placeholders -/

/-- What a reference through a placeholder says about its string and its path. -/
theorem exists_soleToken (h : r ∈ references doc) {token : String} (ht : r.token = some token) :
    ∃ leaf ∈ scannedLeaves doc, leaf.path = r.location ∧
      soleToken? (trimChars leaf.text.toList) = some token.toList ∧
      diskPath? ((boundValue? doc.bindings token.toList).getD token.toList) =
        some r.raw.toList := by
  obtain ⟨timeline, htl, leaf, hl, hr⟩ := exists_leaf h
  obtain ⟨hloc, raw, t, hs, hraw, htok⟩ := reference?_eq_some hr
  rw [ht] at htok
  obtain ⟨t, rfl, rfl⟩ := Option.map_eq_some_iff.1 htok.symm
  obtain ⟨hsole, hdisk⟩ := source?_token hs
  refine ⟨leaf, timelineLeaves_subset htl hl, hloc.symm, ?_, ?_⟩
  · rw [hsole, String.toList_ofList]
  · rw [hraw, String.toList_ofList, String.toList_ofList, hdisk]

/-- Two references through one placeholder have one media path. -/
theorem raw_eq_of_token (h : r ∈ references doc) (h' : r' ∈ references doc) {token : String}
    (ht : r.token = some token) (ht' : r'.token = some token) : r.raw = r'.raw := by
  obtain ⟨-, -, -, -, hd⟩ := exists_soleToken h ht
  obtain ⟨-, -, -, -, hd'⟩ := exists_soleToken h' ht'
  rw [hd] at hd'
  exact String.toList_inj.1 (Option.some.inj hd')

theorem trim_token (h : r ∈ references doc) {token : String} (ht : r.token = some token) :
    trim token = token := by
  obtain ⟨leaf, -, -, hs, -⟩ := exists_soleToken h ht
  rw [trim, trimChars_soleToken hs, String.ofList_toList]

/-- The placeholder of a reference is one that the scan finds. -/
theorem token_occurs (h : r ∈ references doc) {token : String} (ht : r.token = some token) :
    ∃ o ∈ (scan doc).occurrences, o.token = token := by
  obtain ⟨leaf, hl, -, hs, -⟩ := exists_soleToken h ht
  exact ⟨_, mem_occurrences hl (token_mem_pieces hs), String.ofList_toList⟩

end VideoScript.Media
