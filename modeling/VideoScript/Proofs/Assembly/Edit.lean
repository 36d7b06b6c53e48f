import VideoScript.Proofs.Assembly.Merging

/-!
# The edit shows the document with its files

The edit of a well-formed document, for one uploaded file for each media path, has the timeline of
the document, its output settings and, for a template, its merge array (`edit_eq_ok`). Every
document that is read is well-formed (`wellFormed_of_parse`). The renderer sees the right file at
every reference, and nothing else has changed (`edit_shows`): `Shows` says this of the timeline and
the merge entries. When the rule about the merge array finds no error in a template, no entry is
added.

* `edit_of_parts`: an edit fails only for a document that lacks its timeline or its output settings.
* `isNamed_merge`: the entries of the edit have the names of the entries of the document.
-/

set_option autoImplicit false

namespace VideoScript.Assembly

open Json Text Media Placeholder

/-- The edit with a timeline, output settings and, for a template, merge entries. -/
def editOf (shape : Shape) (timeline output : Json) (merge : List Json) : Json :=
  .object ([("timeline", timeline), ("output", output)] ++
    match shape with
    | .template => [("merge", .array merge)]
    | .legacy => [])

/-- The merge entries of the edit. -/
def mergeEntriesOf (doc : Document) (bound : List BoundToken) : List Json :=
  doc.mergeEntries.map (bindEntry bound) ++ (unnamed doc.mergeEntries bound).map addedEntry

/-- Where a reference stands, the renderer sees the file at an address. In place of the string
`before` had there, `after` has the address itself; or it has the same string, a placeholder of a
template, and all merge entries for it, at least one, give the address. -/
def ShowsUrl (doc : Document) (before after : Json) (merge : List Json) (r : Reference)
    (url : String) : Prop :=
  ∃ steps s, r.location.steps = doc.timelinePath.steps ++ steps ∧
    before.follow? steps = some (.string s) ∧
    match boundToken? doc.shape r with
    | none => after.follow? steps = some (.string url)
    | some token =>
      after.follow? steps = some (.string s) ∧
      (∃ entry ∈ merge, isEntryFor token entry = true) ∧
      ∀ entry ∈ merge, isEntryFor token entry = true → entry.get? "replace" = some (.string url)

/-- The timeline `after` and the merge entries `merge` show the files of a document with the
timeline `before`. -/
structure Shows (doc : Document) (uploads : List Upload) (before after : Json)
    (merge : List Json) : Prop where
  /-- At every reference stands the file that was uploaded for its path. -/
  sources : ∀ r ∈ references doc, ∃ u ∈ uploads, u.raw = r.raw ∧
    ShowsUrl doc before after merge r u.url
  /-- Strings without a reference that is replaced stay, and so does all that is no string. -/
  frame : ∃ f : Path → String → String, after = rewriteAt f doc.timelinePath before ∧
    ∀ path, (∀ r ∈ references doc, r.location = path → boundToken? doc.shape r ≠ none) →
      ∀ text, f path text = text
  /-- The merge entries stay in order but for the values for the placeholders of references, and
  each of these without an entry gets one at the end. -/
  entries : merge = mergeEntriesOf doc (boundTokens doc (references doc) uploads)
  /-- The placeholders of references come in the order of their first references. -/
  tokens : (boundTokens doc (references doc) uploads).map (·.token) =
    ((references doc).filterMap (boundToken? doc.shape)).eraseDups
  /-- Each placeholder gets the address of the file of a reference through it. -/
  urls : ∀ b ∈ boundTokens doc (references doc) uploads, ∃ r ∈ references doc, ∃ u ∈ uploads,
    boundToken? doc.shape r = some b.token ∧ u.raw = r.raw ∧ u.url = b.url
  /-- Where the rule about the merge array finds no error, no entry is added. -/
  covered : (∀ f ∈ Rules.coverage doc (scan doc), f.isError = false) →
    unnamed doc.mergeEntries (boundTokens doc (references doc) uploads) = []

variable {doc : Document} {refs : List Reference} {uploads : List Upload}

/-! ## Uploads -/

theorem subset_of_perm (h : (uploads.map (·.raw)).Perm (refs.map (·.raw)).eraseDups) :
    refs.map (·.raw) ⊆ uploads.map (·.raw) := fun _ hraw =>
  h.mem_iff.2 (List.mem_eraseDups.2 hraw)

/-- There is a file for every reference. -/
theorem exists_upload (hu : ((references doc).map (·.raw)) ⊆ uploads.map (·.raw)) {r : Reference}
    (hr : r ∈ references doc) :
    ∃ u ∈ uploads, u.raw = r.raw ∧ urlOf? uploads r.raw = some u.url := by
  obtain ⟨u, hu, hraw⟩ := List.mem_map.1 (hu (List.mem_map_of_mem hr))
  unfold urlOf?
  cases hf : uploads.find? fun u => u.raw = r.raw with
  | none => exact absurd hraw (by simpa using List.find?_eq_none.1 hf u hu)
  | some u' =>
    have hraw' : u'.raw = r.raw := by simpa using List.find?_some hf
    exact ⟨u', List.mem_of_find?_eq_some hf, hraw', rfl⟩

theorem token_of_bound {shape : Shape} {r : Reference} {token : String}
    (h : boundToken? shape r = some token) : r.token = some token := by
  cases shape with
  | template => exact h
  | legacy => cases h

/-! ## The placeholders of references -/

theorem trim_boundToken {b : BoundToken}
    (h : b ∈ boundTokens doc (references doc) uploads) : trim b.token = b.token := by
  obtain ⟨r, hr, hb, -⟩ := exists_reference_of_boundToken h
  exact trim_token hr (token_of_bound hb)

theorem nodup_boundTokens (hu : ((references doc).map (·.raw)) ⊆ uploads.map (·.raw)) :
    ((boundTokens doc (references doc) uploads).map (·.token)).Nodup := by
  rw [tokens_boundTokens fun r hr => ?_]
  · exact nodup_eraseDups _
  · obtain ⟨u, -, -, hurl⟩ := exists_upload hu hr
    rw [hurl]
    rfl

/-- The placeholder of a reference gets the address of its file. -/
theorem mem_boundTokens (hu : ((references doc).map (·.raw)) ⊆ uploads.map (·.raw)) {r : Reference}
    (hr : r ∈ references doc) {token : String} (hb : boundToken? doc.shape r = some token)
    {url : String} (hurl : urlOf? uploads r.raw = some url) :
    ⟨token, url⟩ ∈ boundTokens doc (references doc) uploads := by
  have hm : token ∈ (boundTokens doc (references doc) uploads).map (·.token) := by
    rw [tokens_boundTokens fun r hr => ?_, List.mem_eraseDups, List.mem_filterMap]
    · exact ⟨r, hr, hb⟩
    · obtain ⟨u, -, -, hurl⟩ := exists_upload hu hr
      rw [hurl]
      rfl
  obtain ⟨b, hmem, rfl⟩ := List.mem_map.1 hm
  -- the address may come from another reference, but one through the same placeholder
  obtain ⟨r', hr', hb', hurl'⟩ := exists_reference_of_boundToken hmem
  rw [raw_eq_of_token hr' hr (token_of_bound hb') (token_of_bound hb), hurl] at hurl'
  cases hurl'
  exact hmem

theorem mergeOf_eq (hu : ((references doc).map (·.raw)) ⊆ uploads.map (·.raw)) :
    mergeOf doc (boundTokens doc (references doc) uploads) =
      .array (mergeEntriesOf doc (boundTokens doc (references doc) uploads)) := by
  rw [mergeOf, foldl_bindToken (nodup_boundTokens hu) fun b hb => trim_boundToken hb]
  rfl

/-- Some merge entry of the edit is for the placeholder of a bound file. -/
theorem exists_entry {bound : List BoundToken} (ht : ∀ b ∈ bound, trim b.token = b.token)
    {b : BoundToken} (hb : b ∈ bound) :
    ∃ entry ∈ mergeEntriesOf doc bound, isEntryFor b.token entry = true := by
  by_cases h : doc.mergeEntries.any (isEntryFor b.token) = true
  · obtain ⟨entry, he, hf⟩ := List.any_eq_true.1 h
    refine ⟨bindEntry bound entry, List.mem_append_left _ (List.mem_map_of_mem he), ?_⟩
    rw [isEntryFor_bindEntry, hf]
  · have hm : b ∈ unnamed doc.mergeEntries bound := by
      rw [unnamed, List.mem_filter]
      exact ⟨hb, by simp [h]⟩
    refine ⟨addedEntry b, List.mem_append_right _ (List.mem_map_of_mem hm), ?_⟩
    rw [isEntryFor_addedEntry (ht b hb), decide_eq_true_iff]

/-- All merge entries of the edit for the placeholder of a bound file give its address. -/
theorem replace_of_mem_mergeEntriesOf {bound : List BoundToken}
    (hn : (bound.map (·.token)).Nodup) (ht : ∀ b ∈ bound, trim b.token = b.token) {b : BoundToken}
    (hb : b ∈ bound) {entry : Json} (he : entry ∈ mergeEntriesOf doc bound)
    (h : isEntryFor b.token entry = true) : entry.get? "replace" = some (.string b.url) := by
  rcases List.mem_append.1 he with he | he
  · obtain ⟨entry, -, rfl⟩ := List.mem_map.1 he
    rw [isEntryFor_bindEntry] at h
    exact replace_bindEntry hn hb h
  · obtain ⟨b', hb', rfl⟩ := List.mem_map.1 he
    have hmem : b' ∈ bound := List.mem_of_mem_filter hb'
    rw [isEntryFor_addedEntry (ht b' hmem), decide_eq_true_iff] at h
    rw [List.inj_on_of_nodup_map hn hmem hb h]
    rfl

/-- Every entry of the document is in the merge array of the edit under its name. -/
theorem isNamed_merge {bound : List BoundToken} {entry : Json} {token : String}
    (he : entry ∈ doc.mergeEntries) (h : Rules.IsNamed entry token) :
    ∃ entry' ∈ mergeEntriesOf doc bound, Rules.IsNamed entry' token := by
  refine ⟨bindEntry bound entry, List.mem_append_left _ (List.mem_map_of_mem he), ?_⟩
  rw [← isEntryFor_iff] at h ⊢
  rw [isEntryFor_bindEntry, h]

/-! ## The edit -/

/-- An edit fails only for a document that lacks a part. -/
theorem edit_of_parts (hw : WellFormed doc.toJson)
    (hu : ((references doc).map (·.raw)) ⊆ uploads.map (·.raw)) {timeline : Json}
    {output : Located Json} (ht : doc.timeline? = some timeline) (ho : doc.output? = some output) :
    edit doc (references doc) uploads = .ok (editOf doc.shape
      (rewriteAt (placedText doc.shape uploads (references doc)) doc.timelinePath timeline)
      output.value (mergeEntriesOf doc (boundTokens doc (references doc) uploads))) := by
  unfold edit
  dsimp only
  rw [timeline?_placeUrls hw (List.Subset.refl _), output?_placeUrls hw (List.Subset.refl _), ht,
    ho, mergeOf_eq hu]
  unfold editOf
  cases doc.shape <;> rfl

theorem edit_eq_ok (hw : WellFormed doc.toJson)
    (hu : ((references doc).map (·.raw)) ⊆ uploads.map (·.raw)) {e : Json}
    (h : edit doc (references doc) uploads = .ok e) :
    ∃ timeline output, doc.timeline? = some timeline ∧ doc.output? = some output ∧
      e = editOf doc.shape
        (rewriteAt (placedText doc.shape uploads (references doc)) doc.timelinePath timeline)
        output.value (mergeEntriesOf doc (boundTokens doc (references doc) uploads)) := by
  cases ht : doc.timeline? with
  | none =>
    unfold edit at h
    dsimp only at h
    rw [timeline?_placeUrls hw (List.Subset.refl _), ht] at h
    cases h
  | some timeline =>
    cases ho : doc.output? with
    | none =>
      unfold edit at h
      dsimp only at h
      rw [timeline?_placeUrls hw (List.Subset.refl _), output?_placeUrls hw (List.Subset.refl _),
        ht, ho] at h
      cases h
    | some output =>
      rw [edit_of_parts hw hu ht ho] at h
      cases h
      exact ⟨timeline, output, rfl, rfl, rfl⟩

/-- At a reference, the renderer sees the file of its path. -/
theorem showsUrl (hw : WellFormed doc.toJson)
    (hu : ((references doc).map (·.raw)) ⊆ uploads.map (·.raw)) {timeline : Json}
    (ht : doc.timeline? = some timeline) {r : Reference} (hr : r ∈ references doc) {url : String}
    (hurl : urlOf? uploads r.raw = some url) :
    ShowsUrl doc timeline
      (rewriteAt (placedText doc.shape uploads (references doc)) doc.timelinePath timeline)
      (mergeEntriesOf doc (boundTokens doc (references doc) uploads)) r url := by
  obtain ⟨timeline', steps, s, ht', hp, hf, -⟩ := follow?_location hw hr
  rw [ht] at ht'
  cases ht'
  have hloc : (⟨doc.timelinePath.steps ++ steps⟩ : Path) = r.location := by rw [← hp]
  have hafter : (rewriteAt (placedText doc.shape uploads (references doc)) doc.timelinePath
      timeline).follow? steps =
      some (.string (placedText doc.shape uploads (references doc) r.location s)) := by
    rw [follow?_rewriteAt, hf, hloc]
    rfl
  -- no string is a reference twice, so what stands at `r` is the address for `r`
  have honly : ∀ r' ∈ references doc, r'.location = r.location → r' = r :=
    fun r' hr' hl => eq_of_location hw hr' hr hl
  refine ⟨steps, s, hp, hf, ?_⟩
  cases hb : boundToken? doc.shape r with
  | none =>
    dsimp only
    rw [hafter, placedText_location hr honly hb hurl]
  | some token =>
    have hkeep : placedText doc.shape uploads (references doc) r.location s = s := by
      refine placedText_of_no_reference (fun r' hr' hl => ?_) s
      rw [honly r' hr' hl, hb]
      simp
    have hmem := mem_boundTokens hu hr hb hurl
    have htrim : ∀ b ∈ boundTokens doc (references doc) uploads, trim b.token = b.token :=
      fun b => trim_boundToken
    have hentry := @exists_entry doc _ htrim _ hmem
    refine ⟨by rw [hafter, hkeep], hentry, fun entry he h => ?_⟩
    exact replace_of_mem_mergeEntriesOf (nodup_boundTokens hu) htrim hmem he h

/-- Where the rule about the merge array finds no error, every bound placeholder has an entry. -/
theorem unnamed_of_coverage (h : ∀ f ∈ Rules.coverage doc (scan doc), f.isError = false) :
    unnamed doc.mergeEntries (boundTokens doc (references doc) uploads) = [] := by
  unfold unnamed
  rw [List.filter_eq_nil_iff]
  intro b hb
  obtain ⟨r, hr, hbound, -⟩ := exists_reference_of_boundToken hb
  obtain ⟨o, ho, htoken⟩ := token_occurs hr (token_of_bound hbound)
  obtain ⟨entry, he, hnamed⟩ := Rules.exists_entry_of_coverage h ho
  rw [htoken, ← isEntryFor_iff] at hnamed
  simpa using ⟨entry, he, hnamed⟩

/-- The edit of a well-formed document, for one uploaded file for each media path, has the output
settings of the document, and its timeline and merge entries show the files. -/
theorem edit_shows (hw : WellFormed doc.toJson)
    (hu : (uploads.map (·.raw)).Perm ((references doc).map (·.raw)).eraseDups) {e : Json}
    (he : edit doc (references doc) uploads = .ok e) :
    ∃ before after merge output, doc.timeline? = some before ∧ doc.output? = some output ∧
      e = editOf doc.shape after output.value merge ∧ Shows doc uploads before after merge := by
  have hsub := subset_of_perm hu
  have hfound : ∀ r ∈ references doc, (urlOf? uploads r.raw).isSome := by
    intro r hr
    obtain ⟨u, -, -, hurl⟩ := exists_upload hsub hr
    rw [hurl]
    rfl
  obtain ⟨timeline, output, ht, ho, rfl⟩ := edit_eq_ok hw hsub he
  refine ⟨timeline, _, _, output, ht, ho, rfl, ?_, ?_, rfl, tokens_boundTokens hfound, ?_,
    unnamed_of_coverage⟩
  · intro r hr
    obtain ⟨u, hmem, hraw, hurl⟩ := exists_upload hsub hr
    exact ⟨u, hmem, hraw, showsUrl hw hsub ht hr hurl⟩
  · exact ⟨_, rfl, fun path => placedText_of_no_reference⟩
  · intro b hb
    obtain ⟨r, hr, hbound, hurl⟩ := exists_reference_of_boundToken hb
    obtain ⟨u, hmem, hraw, hurl'⟩ := exists_upload hsub hr
    rw [hurl] at hurl'
    exact ⟨r, hr, u, hmem, hbound, hraw, (Option.some.inj hurl').symm⟩

/-- A template with a source behind a placeholder and one that stands for itself. -/
def twoSources : Document :=
  ⟨[("template", .object [("timeline", .object
      [("clip", .object [("src", .string " {{A}} ")]),
       ("sound", .object [("src", .string "b.mp3")])])]),
    ("merge", .array [.object [("find", .string "A "), ("replace", .string "a.mp4")]]),
    ("output", .object [("format", .string "mp4")])]⟩

theorem edit_shows_two_sources :
    ∃ e, edit twoSources (references twoSources)
        [⟨"a.mp4", "/media/a.mp4", "url-a"⟩, ⟨"b.mp3", "/media/b.mp3", "url-b"⟩] = .ok e ∧
      ∃ before after merge output,
        twoSources.timeline? = some before ∧ twoSources.output? = some output ∧
        e = editOf twoSources.shape after output.value merge ∧
        Shows twoSources
          [⟨"a.mp4", "/media/a.mp4", "url-a"⟩, ⟨"b.mp3", "/media/b.mp3", "url-b"⟩]
          before after merge :=
  ⟨_, rfl, edit_shows (by decide +kernel) (by decide +kernel) rfl⟩

end VideoScript.Assembly
