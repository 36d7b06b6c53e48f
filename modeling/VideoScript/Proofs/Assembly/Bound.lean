import VideoScript.Proofs.Assembly.Submission
import VideoScript.Proofs.Media.Sources

/-!
# Submitted sources are bound

A source of an edit that is one whole placeholder gets its value from the first merge entry with
the placeholder's name (`firstValue?`). In the edit of a checked template such an entry exists, and
its value is not blank (`submitted_sources_bound`): where the placeholder stands for a file, the
value is the address of that file, and where it stands for a URL, the value is what the script
says. A blank value goes out only as the script's own, for a placeholder whose name is itself a URL:
such a source stands for its name, and no file is looked for. The addresses that the service gives
are no sources of the script, and nothing is said about them (`unbound_source_submitted`).
-/

set_option autoImplicit false

namespace VideoScript.Assembly

open Json Text Media Placeholder Render

/-- The strings under the key `src` in a timeline at a path. -/
def sourcesAt (path : Path) (timeline : Option Json) : List String :=
  ((timeline.toList.flatMap (leavesAt path)).filter
    fun leaf => leaf.path.finalKey? = some "src").map (·.text)

/-- The sources of an edit. -/
def sourcesOf (e : Json) : List String :=
  sourcesAt (Path.root.key "timeline") (e.get? "timeline")

/-- The sources that a script itself has. -/
def ownSources (doc : Document) : List String := sourcesAt doc.timelinePath doc.timeline?

/-- The value of the first merge entry with a placeholder's name. -/
def firstValue? (entries : List Json) (token : String) : Option String :=
  (entries.find? fun entry => Rules.IsNamed entry token).bind fun entry =>
    (entry.get? "replace").bind text?

/-- A URL of another machine. -/
def IsUrl (s : String) : Prop := isRemote s.toList = true ∧ ¬ "file://".toList <+: s.toList

variable {doc : Document} {uploads : List Upload} {bound : List BoundToken} {token : String}

/-! ## The first entry -/

theorem find?_mergeEntriesOf (h : unnamed doc.mergeEntries bound = []) :
    (mergeEntriesOf doc bound).find? (fun entry => Rules.IsNamed entry token) =
      (doc.mergeEntries.find? fun entry => Rules.IsNamed entry token).map (bindEntry bound) := by
  have hsame : (fun entry => decide (Rules.IsNamed entry token)) ∘ bindEntry bound =
      fun entry => decide (Rules.IsNamed entry token) := by
    funext entry
    rw [Function.comp_apply, decide_eq_decide, ← isEntryFor_iff, ← isEntryFor_iff,
      isEntryFor_bindEntry]
  rw [mergeEntriesOf, h, List.map_nil, List.append_nil, List.find?_map, hsame]

theorem firstValue?_of_bound (hn : (bound.map (·.token)).Nodup)
    (hu : unnamed doc.mergeEntries bound = []) {b : BoundToken} (hb : b ∈ bound) {entry : Json}
    (hf : doc.mergeEntries.find? (fun entry => Rules.IsNamed entry b.token) = some entry) :
    firstValue? (mergeEntriesOf doc bound) b.token = some b.url := by
  have hnamed : Rules.IsNamed entry b.token := by simpa using List.find?_some hf
  rw [firstValue?, find?_mergeEntriesOf hu, hf, Option.map_some, Option.bind_some,
    replace_bindEntry hn hb (isEntryFor_iff.2 hnamed)]
  rfl

theorem firstValue?_of_not_bound (hu : unnamed doc.mergeEntries bound = [])
    (hb : ∀ b ∈ bound, b.token ≠ token) :
    firstValue? (mergeEntriesOf doc bound) token = firstValue? doc.mergeEntries token := by
  rw [firstValue?, find?_mergeEntriesOf hu, firstValue?]
  cases hf : doc.mergeEntries.find? fun entry => Rules.IsNamed entry token with
  | none => rfl
  | some entry =>
    have hnamed : Rules.IsNamed entry token := by simpa using List.find?_some hf
    have hkeep : bindEntry bound entry = entry := by
      unfold bindEntry
      split
      · rename_i b hfind
        have htoken := isEntryFor_inj (isEntryFor_of_find? hfind) (isEntryFor_iff.2 hnamed)
        exact absurd htoken (hb b (List.mem_of_find?_eq_some hfind))
      · rfl
    rw [Option.map_some, hkeep]

theorem isNamed_iff {entry : Json} {find replace : String}
    (h : Rules.IsEntry entry find replace) : Rules.IsNamed entry token ↔ trim find = token := by
  obtain ⟨members, rfl, hf, -⟩ := h
  have hname : Rules.entryName? (.object members) = some find := by
    show (members.get? "find").bind text? = some find
    rw [hf]
    rfl
  rw [Rules.IsNamed, hname, Option.map_some, Option.some.injEq]

/-- Among complete entries, the first value is what the entries give to a placeholder. -/
theorem findSome?_eq_firstValue? {entries : List Json}
    (h : ∀ entry ∈ entries, ∃ find replace, Rules.IsEntry entry find replace) (hne : token ≠ "") :
    entries.findSome? (entryValue? token.toList) =
      (firstValue? entries token).map fun value => trimChars value.toList := by
  induction entries with
  | nil => rfl
  | cons entry rest ih =>
    obtain ⟨⟨find, replace, hentry⟩, hrest⟩ := List.forall_mem_cons.1 h
    have hnamed : Rules.IsNamed entry token ↔ trim find = token := isNamed_iff hentry
    have htrim : trim find = token ↔ trimChars find.toList = token.toList := by
      rw [trim, ← String.toList_inj, String.toList_ofList]
    have hvalue : entryValue? token.toList entry =
        if trim find = token then some (trimChars replace.toList) else none := by
      obtain ⟨members, rfl, hf, hr⟩ := hentry
      have hfilled : trim find = token → find ≠ "" := by
        rintro ht rfl
        exact hne ht.symm
      have hf : (Json.object members).get? "find" = some (.string find) := hf
      have hr : (Json.object members).get? "replace" = some (.string replace) := hr
      unfold entryValue?
      rw [hf, hr]
      dsimp only
      by_cases ht : trim find = token
      · rw [if_pos ht]
        exact if_pos ⟨hfilled ht, htrim.1 ht⟩
      · rw [if_neg ht]
        exact if_neg fun hc => ht (htrim.2 hc.2)
    rw [List.findSome?_cons, hvalue, firstValue?, List.find?_cons]
    by_cases ht : trim find = token
    · obtain ⟨members, rfl, -, hr⟩ := hentry
      rw [if_pos ht, decide_eq_true (hnamed.2 ht)]
      show _ = ((members.get? "replace").bind text?).map _
      rw [hr]
      rfl
    · rw [if_neg ht, decide_eq_false (mt hnamed.1 ht)]
      exact ih hrest

/-! ## The sources of the script -/

theorem value_of_urlOf? {raw url : String} (h : urlOf? uploads raw = some url) :
    ∃ u ∈ uploads, u.url = url := by
  obtain ⟨u, hu, rfl⟩ := Option.map_eq_some_iff.1 h
  exact ⟨u, List.mem_of_find?_eq_some hu, rfl⟩

/-- A placeholder without a bound file stands for a URL. -/
theorem diskPath?_of_not_bound (hs : doc.shape = .template)
    (hu : ((references doc).map (·.raw)) ⊆ uploads.map (·.raw)) {timeline : Json}
    (ht : doc.timeline? = some timeline) {leaf : Leaf}
    (hl : leaf ∈ leavesAt doc.timelinePath timeline) (hsrc : leaf.path.finalKey? = some "src")
    (hsole : soleToken? (trimChars leaf.text.toList) = some token.toList)
    (hb : ∀ b ∈ boundTokens doc (references doc) uploads, b.token ≠ token) :
    diskPath? (standIn doc.mergeEntries token.toList) = none := by
  cases hd : diskPath? (standIn doc.mergeEntries token.toList) with
  | none => rfl
  | some path =>
    have hsource : source? doc.bindings (trimChars leaf.text.toList) =
        some (path, some token.toList) := by
      rw [source?_whole hsole, boundValue?_getD, hd, Option.map_some]
    have hne : trimChars leaf.text.toList ≠ [] := by
      intro hnil
      rw [hnil] at hsole
      cases hsole
    have hr := mem_references ht hl hsrc hne hsource
    obtain ⟨u, -, -, hurl⟩ := exists_upload hu hr
    have htoken : boundToken? doc.shape ⟨.ofList path, leaf.path, some (.ofList token.toList)⟩ =
        some token := by
      rw [hs, String.ofList_toList]
      rfl
    exact absurd rfl (hb _ (mem_boundTokens hu hr htoken hurl))

/-- A source of the script that is one whole placeholder gets a value that is not blank, or it
stands for a URL that the script itself leaves blank. -/
theorem firstValue?_of_leaf (hc : ∀ f ∈ Rules.coverage doc (scan doc), f.isError = false)
    (hs : doc.shape = .template) (hu : ((references doc).map (·.raw)) ⊆ uploads.map (·.raw))
    (hfilled : ∀ u ∈ uploads, trim u.url ≠ "") {timeline : Json}
    (ht : doc.timeline? = some timeline) {leaf : Leaf}
    (hl : leaf ∈ leavesAt doc.timelinePath timeline) (hsrc : leaf.path.finalKey? = some "src")
    (hsole : soleToken? (trimChars leaf.text.toList) = some token.toList) :
    ∃ value, firstValue? (mergeEntriesOf doc (boundTokens doc (references doc) uploads)) token =
        some value ∧
      (trim value = "" → IsUrl token ∧ firstValue? doc.mergeEntries token = some value) := by
  have hnone : unnamed doc.mergeEntries (boundTokens doc (references doc) uploads) = [] :=
    unnamed_of_coverage hc
  obtain ⟨entry', he', hnamed'⟩ :=
    exists_entry_of_leaf hc (timelineLeaves_subset ht hl) (token_mem_pieces hsole)
  rw [String.ofList_toList] at hnamed'
  cases hf : doc.mergeEntries.find? fun entry => Rules.IsNamed entry token with
  | none => exact absurd hnamed' (by simpa using List.find?_eq_none.1 hf entry' he')
  | some entry =>
    by_cases hb : ∃ b ∈ boundTokens doc (references doc) uploads, b.token = token
    · obtain ⟨b, hb, rfl⟩ := hb
      obtain ⟨r, -, -, hurl⟩ := exists_reference_of_boundToken hb
      obtain ⟨u, hmem, hu'⟩ := value_of_urlOf? hurl
      refine ⟨b.url, firstValue?_of_bound (nodup_boundTokens hu) hnone hb hf, fun hblank => ?_⟩
      exact absurd hblank (hu' ▸ hfilled u hmem)
    · have hb : ∀ b ∈ boundTokens doc (references doc) uploads, b.token ≠ token :=
        fun b hm he => hb ⟨b, hm, he⟩
      have hcomplete : ∀ entry ∈ doc.mergeEntries,
          ∃ find replace, Rules.IsEntry entry find replace :=
        fun entry he => Rules.complete_of_coverage hc he
      obtain ⟨find, value, members, rfl, -, hvalue⟩ :=
        hcomplete entry (List.mem_of_find?_eq_some hf)
      have hfirst : firstValue? doc.mergeEntries token = some value := by
        rw [firstValue?, hf, Option.bind_some]
        show (members.get? "replace").bind text? = _
        rw [hvalue]
        rfl
      refine ⟨value, (firstValue?_of_not_bound hnone hb).trans hfirst, fun hblank => ?_⟩
      -- with a blank value the placeholder stands for its own name
      obtain ⟨-, -, -, -, hne⟩ := soleToken?_eq_some hsole
      have hstand : standIn doc.mergeEntries token.toList = token.toList := by
        rw [standIn, findSome?_eq_firstValue? hcomplete (fun h => hne (by rw [h]; rfl)), hfirst]
        have hnil : trimChars value.toList = [] := by
          rw [trim, ← String.toList_inj, String.toList_ofList] at hblank
          exact hblank
        rw [Option.map_some, hnil]
      have hdisk := diskPath?_of_not_bound hs hu ht hl hsrc hsole hb
      rw [hstand] at hdisk
      exact ⟨remote_of_diskPath? hdisk, hfirst⟩

/-! ## The sources of the edit -/

section
variable {σ : Type} {a : Workshop σ} {order : Order} {s : σ}

theorem mem_ownSources {timeline : Json} (ht : doc.timeline? = some timeline) {source : String} :
    source ∈ ownSources doc ↔ ∃ leaf ∈ leavesAt doc.timelinePath timeline,
      leaf.path.finalKey? = some "src" ∧ leaf.text = source := by
  simp [ownSources, sourcesAt, ht, and_assoc]

theorem exists_leaf_of_source {timeline output : Json} {merge : List Json} {source : String}
    (h : source ∈ sourcesOf (editOf doc.shape
      (rewriteAt (placedText doc.shape uploads (references doc)) doc.timelinePath timeline)
      output merge)) :
    ∃ leaf ∈ leavesAt doc.timelinePath timeline, leaf.path.finalKey? = some "src" ∧
      source = placedText doc.shape uploads (references doc) leaf.path leaf.text := by
  obtain ⟨placed, hp, rfl⟩ := List.mem_map.1 h
  obtain ⟨hp, hsrc⟩ := List.mem_filter.1 hp
  have hp : placed ∈ leavesAt (Path.root.key "timeline") (rewriteAt
      (placedText doc.shape uploads (references doc)) doc.timelinePath timeline) := by
    simpa [editOf, get?, members?, Members.get?] using hp
  have hkey : (Path.root.key "timeline").finalKey? = doc.timelinePath.finalKey? := by
    rw [finalKey?_key]
    unfold Document.timelinePath
    cases doc.shape <;> rw [finalKey?_key]
  have hm := List.mem_map_of_mem (f := fun leaf : Leaf => (leaf.path.finalKey?, leaf.text)) hp
  rw [keys_leavesAt hkey, leavesAt_rewriteAt, List.map_map] at hm
  obtain ⟨leaf, hl, he⟩ := List.mem_map.1 hm
  obtain ⟨hk, htext⟩ := Prod.mk.inj he
  exact ⟨leaf, hl, hk.trans (by simpa using hsrc), htext.symm⟩

/-- **No source is submitted unbound.** For a template that was checked, and a service whose
addresses are not blank, take a source of the submitted edit that is one whole placeholder. Either
it is no source of the script but an address that the service has given in the run, or the first
merge entry with the placeholder's name has a value; that value is not blank unless the
placeholder's name is a URL and the value is the script's own. -/
theorem submitted_sources_bound (a : Workshop σ) (order : Order) (s : σ)
    (ho : order.skipChecks = false) (hc : a.check.skipChecks = false)
    (hfilled : ∀ id st url, (a.service.answer (.sourceState id) st).1 = .ok (.ready url) →
      trim url ≠ "") {time : Nat} {e : Json} (h : (time, Call.submit e) ∈ (run a order s).2.calls) :
    ∃ doc, Accepts a order doc ∧ (doc.shape = .template →
      ∀ source ∈ sourcesOf e, ∀ token : String, IsWhole (trimChars source.toList) token.toList →
        source ∉ ownSources doc ∧ Given (transcript a.service s (run a order s).2.calls) source ∨
        ∃ value, firstValue? (entriesOf e) token = some value ∧
          (trim value = "" → IsUrl token ∧ firstValue? doc.mergeEntries token = some value)) := by
  obtain ⟨doc, uploads, hd, he, hraws, hgiven⟩ := exists_given_of_submit h
  have hsub := subset_of_perm (.of_eq hraws)
  obtain ⟨timeline, output, ht, -, rfl⟩ := edit_eq_ok hd.wellFormed hsub he
  have hurl : ∀ u ∈ uploads, trim u.url ≠ "" := by
    intro u hu
    obtain ⟨id, st, hanswer⟩ := (hgiven u hu).exists_state
    exact hfilled id st u.url hanswer
  refine ⟨doc, hd, fun hs source hsource token hwhole => ?_⟩
  by_cases hown : source ∈ ownSources doc
  · obtain ⟨leaf, hl, hsrc, rfl⟩ := (mem_ownSources ht).1 hown
    have hentries : entriesOf (editOf doc.shape
        (rewriteAt (placedText doc.shape uploads (references doc)) doc.timelinePath timeline)
        output.value (mergeEntriesOf doc (boundTokens doc (references doc) uploads))) =
        mergeEntriesOf doc (boundTokens doc (references doc) uploads) := by
      rw [hs]
      rfl
    rw [hentries]
    exact .inr (firstValue?_of_leaf (hd.sound ho hc).coverage hs hsub hurl ht hl hsrc
      (soleToken?_eq_some_iff.2 hwhole))
  · obtain ⟨leaf, hl, hsrc, htext⟩ := exists_leaf_of_source hsource
    rcases placedText_cases doc.shape (references doc) leaf.path leaf.text with
      hkeep | ⟨u, hu, hput⟩
    · exact absurd ((mem_ownSources ht).2 ⟨leaf, hl, hsrc, (htext.trans hkeep).symm⟩) hown
    · have hsource : Given (transcript a.service s (run a order s).2.calls) source := by
        rw [htext, hput]
        exact hgiven u hu
      exact .inl ⟨hown, hsource⟩

end

/-! ## Blank values and odd addresses -/

theorem filled_addresses (script : Json) : ∀ id st url,
    ((workshopOf script).service.answer (.sourceState id) st).1 = .ok (.ready url) →
      trim url ≠ "" := by
  intro id st url h
  cases h
  decide +kernel

theorem submitted_sources_bound_template :
    ∃ time e, (time, Call.submit e) ∈ (run (workshopOf namedTemplate) checkedOrder ()).2.calls ∧
      sourcesOf e = ["{{A}}"] ∧
      ∃ doc, Accepts (workshopOf namedTemplate) checkedOrder doc ∧ (doc.shape = .template →
        ∀ source ∈ sourcesOf e, ∀ token : String, IsWhole (trimChars source.toList) token.toList →
          source ∉ ownSources doc ∧ Given (transcript (workshopOf namedTemplate).service ()
            (run (workshopOf namedTemplate) checkedOrder ()).2.calls) source ∨
          ∃ value, firstValue? (entriesOf e) token = some value ∧
            (trim value = "" →
              IsUrl token ∧ firstValue? doc.mergeEntries token = some value)) := by
  have hany : (run (workshopOf namedTemplate) checkedOrder ()).2.calls.any
      (fun c => submits (fun e => sourcesOf e = ["{{A}}"]) c.2) = true := by decide +kernel
  obtain ⟨time, e, h, hsources⟩ := exists_submit hany
  exact ⟨time, e, h, of_decide_eq_true hsources, submitted_sources_bound (workshopOf namedTemplate)
    checkedOrder () rfl rfl (filled_addresses namedTemplate) h⟩

/-- A workshop whose service gives one address for all files. -/
def workshopAt (script : Json) (url : String) : Workshop Unit :=
  { workshopOf script with
    service := { answer := fun call st => match call with
      | .sourceState _ => (.ok (.ready url), st)
      | call => (workshopOf script).service.answer call st } }

/-- A template with one source and a merge array. -/
def sourceTemplate (source : String) (merge : List Json) : Json :=
  .object
    [("template", .object [("timeline", .object
      [("sound", .object [("src", .string source)]), ("tracks", .array [emptyTrack])])]),
     ("output", .object [("format", .string "mp4")]),
     ("merge", .array merge)]

/-- An edit with a merge array that gives no value, or a blank one, to a whole placeholder. -/
def leavesUnbound (e : Json) : Bool :=
  (e.get? "merge").isSome && (sourcesOf e).any fun source =>
    match soleToken? (trimChars source.toList) with
    | some token => (firstValue? (entriesOf e) (.ofList token)).all fun value => trim value = ""
    | none => false

/-- A checked template goes out with a source that is not bound, although no address of the service
is blank. -/
def SubmitsUnbound (a : Workshop Unit) : Prop :=
  a.check.skipChecks = false ∧ a.check.skipFiles = false ∧
    (∀ id st url, (a.service.answer (.sourceState id) st).1 = .ok (.ready url) → trim url ≠ "") ∧
    ∃ doc, Accepts a checkedOrder doc ∧ doc.shape = .template ∧
      ∃ time e, (time, Call.submit e) ∈ (run a checkedOrder ()).2.calls ∧
        ∃ source ∈ sourcesOf e, ∃ token : String,
          IsWhole (trimChars source.toList) token.toList ∧
          ∀ value, firstValue? (entriesOf e) token = some value → trim value = ""

theorem submitsUnbound_of_leavesUnbound {script : Json} {url : String} (hurl : trim url ≠ "")
    (h : (run (workshopAt script url) checkedOrder ()).2.calls.any
      (fun c => submits leavesUnbound c.2) = true) : SubmitsUnbound (workshopAt script url) := by
  obtain ⟨time, e, hcall, hp⟩ := exists_submit h
  obtain ⟨hmerge, hsource⟩ := Bool.and_eq_true_iff.1 hp
  obtain ⟨source, hs, htoken⟩ := List.any_eq_true.1 hsource
  obtain ⟨doc, uploads, hd, he, hraws, -⟩ := exists_uploads_of_submit hcall
  obtain ⟨timeline, output, -, -, rfl⟩ :=
    edit_eq_ok hd.wellFormed (subset_of_perm (.of_eq hraws)) he
  have hshape : doc.shape = .template := by
    cases hshape : doc.shape with
    | template => rfl
    | legacy =>
      rw [hshape] at hmerge
      cases hmerge
  refine ⟨rfl, rfl, fun id st url' ha => ?_, doc, hd, hshape, time, _, hcall, source, hs, ?_⟩
  · cases ha
    exact hurl
  · split at htoken
    · rename_i token hsole
      refine ⟨.ofList token, ?_, fun value hvalue => ?_⟩
      · rw [String.toList_ofList]
        exact soleToken?_eq_some_iff.1 hsole
      · rw [hvalue] at htoken
        simpa using htoken
    · cases htoken

/-- A blank value for a placeholder whose name is a URL goes out, and so does an address that is
itself a placeholder. -/
theorem unbound_source_submitted :
    SubmitsUnbound (workshopAt (sourceTemplate "{{https://cdn/x.mp4}}"
      [.object [("find", .string "https://cdn/x.mp4"), ("replace", .string "")]])
      "https://media/source") ∧
    SubmitsUnbound (workshopAt (sourceTemplate "a.mp4" []) "{{X}}") :=
  ⟨submitsUnbound_of_leavesUnbound (by decide +kernel) (by decide +kernel),
    submitsUnbound_of_leavesUnbound (by decide +kernel) (by decide +kernel)⟩

end VideoScript.Assembly
