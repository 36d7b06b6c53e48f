import VideoScript.Json.Printer
import VideoScript.Proofs.Assembly.Edit
import VideoScript.Proofs.Assembly.Protocol
import VideoScript.Proofs.Check

/-!
# What is submitted

The edit that a run submits is that of the accepted document, for one file for each of its media
paths, each with an address that the service has given (`Conversation.submitted`).

When the document has been checked, the placeholders of the edit are those that its merge array
names: `Covered (editTokens e) entries` says that each placeholder in the timeline and the output
settings of `e` is the trimmed name of one of `entries`. The edit of a template has the merge array
with it. A legacy edit has none, so its placeholders are named by the script alone
(`submitted_placeholders_covered`, `legacy_edit_not_covered`).
-/

set_option autoImplicit false

namespace VideoScript.Assembly

open Json Text Media Placeholder Render

/-! ## The submitted edit -/

/-- The files that are ready at a stage. -/
def Stage.ready : Stage → List Upload
  | .between done _ => done
  | .reserved done _ _ _ _ => done
  | .settling done _ _ _ _ _ => done
  | _ => []

/-- The service has given an address for a file. -/
def Given (xs : List Exchange) (url : String) : Prop :=
  ∃ time id, ⟨time, .sourceState id, .ok (.ready url)⟩ ∈ xs

section
variable {plan : Plan} {raws : List String} {xs : List Exchange} {stage : Stage}

theorem Given.snoc {url : String} (h : Given xs url) (x : Exchange) : Given (xs ++ [x]) url := by
  obtain ⟨time, id, hm⟩ := h
  exact ⟨time, id, List.mem_append_left _ hm⟩

/-- The addresses of files that are ready come from the service. -/
theorem Conversation.given (h : Conversation plan (.between [] raws) xs stage) :
    ∀ u ∈ stage.ready, Given xs u.url := by
  induction h with
  | nil => simp [Stage.ready]
  | @snoc xs stage x stage' _ ha hl ih =>
    have hold : ∀ u ∈ stage.ready, Given (xs ++ [x]) u.url := fun u hu => (ih u hu).snoc x
    cases hl with
    | reserved | sent | sourcePending => exact hold
    | @ready done raw path id left since time url =>
      intro u hu
      rcases List.mem_append.1 hu with hu | hu
      · exact hold u hu
      · rw [List.mem_singleton.1 hu]
        exact ⟨time, id, by simp⟩
    | _ => simp [Stage.ready]

/-- A submitted edit is the one for files of all paths, with addresses from the service. -/
theorem Conversation.submitted (h : Conversation plan (.between [] raws) xs stage)
    {x : Exchange} {e : Json} (hx : x ∈ xs) (hc : x.call = .submit e) :
    ∃ done, plan.edit done = .ok e ∧ done.map (·.raw) = raws ∧ ∀ u ∈ done, Given xs u.url := by
  induction h with
  | nil => cases hx
  | @snoc xs stage x' stage' h ha hl ih =>
    rcases List.mem_append.1 hx with hx | hx
    · obtain ⟨done, he, hr, hg⟩ := ih hx
      exact ⟨done, he, hr, fun u hu => (hg u hu).snoc x'⟩
    · rw [List.mem_singleton.1 hx] at hc
      rw [hc] at ha
      cases ha with
      | @submit done _ he =>
        obtain ⟨files, -, hr, -⟩ := h.soFar
        exact ⟨done, he, by simpa using hr, fun u hu => (h.given u hu).snoc x'⟩

end

/-- Every answer in a transcript is one that the service gives in some state. -/
theorem exists_state_of_mem_transcript {σ : Type} {service : Service σ} {s : σ}
    {calls : List (Nat × Call)} {x : Exchange} (h : x ∈ transcript service s calls) :
    ∃ st, x.answer = (service.answer x.call st).1 := by
  induction calls generalizing s with
  | nil => cases h
  | cons c rest ih =>
    obtain ⟨time, call⟩ := c
    rcases List.mem_cons.1 h with rfl | h
    · exact ⟨s, rfl⟩
    · exact ih h

theorem Given.exists_state {σ : Type} {service : Service σ} {s : σ} {calls : List (Nat × Call)}
    {url : String} (h : Given (transcript service s calls) url) :
    ∃ id st, (service.answer (.sourceState id) st).1 = .ok (.ready url) := by
  obtain ⟨time, id, hm⟩ := h
  obtain ⟨st, hst⟩ := exists_state_of_mem_transcript hm
  exact ⟨id, st, hst.symm⟩

/-- Every call of a run stands in its transcript. -/
theorem exists_mem_transcript {σ : Type} {service : Service σ} {s : σ}
    {calls : List (Nat × Call)} {time : Nat} {call : Call} (h : (time, call) ∈ calls) :
    ∃ x ∈ transcript service s calls, x.call = call := by
  have hm : call ∈ (transcript service s calls).map (·.call) := by
    rw [transcript_calls]
    exact List.mem_map.2 ⟨_, h, rfl⟩
  obtain ⟨x, hx, hc⟩ := List.mem_map.1 hm
  exact ⟨x, hx, hc⟩

/-! ## Placeholders and their entries -/

/-- The names of the placeholders in the strings of a value. -/
def tokensOf (v : Json) : List String :=
  (leaves v).flatMap fun leaf =>
    (pieces leaf.text.toList).filterMap fun piece => piece.token?.map .ofList

/-- The names of the placeholders in the timeline and the output settings of an edit. -/
def editTokens (e : Json) : List String :=
  ((e.get? "timeline").toList ++ (e.get? "output").toList).flatMap tokensOf

/-- The merge entries of an edit. -/
def entriesOf (e : Json) : List Json := ((e.get? "merge").bind items?).getD []

/-- Every placeholder has an entry with its name. -/
def Covered (tokens : List String) (entries : List Json) : Prop :=
  ∀ token ∈ tokens, ∃ entry ∈ entries, Rules.IsNamed entry token

instance (entry : Json) (token : String) : Decidable (Rules.IsNamed entry token) :=
  inferInstanceAs (Decidable ((Rules.entryName? entry).map trim = some token))

instance (tokens : List String) (entries : List Json) : Decidable (Covered tokens entries) :=
  inferInstanceAs (Decidable (∀ token ∈ tokens, ∃ entry ∈ entries, Rules.IsNamed entry token))

theorem mem_tokensOf {v : Json} {token : String} (path : Path) (h : token ∈ tokensOf v) :
    ∃ leaf ∈ leavesAt path v, ∃ name, .token name ∈ pieces leaf.text.toList ∧
      .ofList name = token := by
  obtain ⟨leaf, hl, ht⟩ := List.mem_flatMap.1 h
  obtain ⟨piece, hp, ht⟩ := List.mem_filterMap.1 ht
  obtain ⟨name, hn, rfl⟩ := Option.map_eq_some_iff.1 ht
  have hm : leaf.text ∈ (leavesAt path v).map (·.text) :=
    texts_leavesAt path ▸ List.mem_map_of_mem hl
  obtain ⟨leaf', hl', htext⟩ := List.mem_map.1 hm
  refine ⟨leaf', hl', name, ?_, rfl⟩
  cases piece with
  | token =>
    cases hn
    rw [htext]
    exact hp
  | problem => cases hn

/-! ## The placeholders of the edit -/

section
variable {doc : Document} {uploads : List Upload}

/-- A text in the timeline of the edit is the one from before, or the address of a file. -/
theorem placedText_cases (shape : Shape) (refs : List Reference) (path : Path) (text : String) :
    placedText shape uploads refs path text = text ∨
      ∃ u ∈ uploads, placedText shape uploads refs path text = u.url := by
  unfold placedText
  cases hf : (refs.find? fun r => r.location = path && (boundToken? shape r).isNone).bind
      fun r => urlOf? uploads r.raw with
  | none => exact .inl rfl
  | some url =>
    obtain ⟨r, -, hr⟩ := Option.bind_eq_some_iff.1 hf
    obtain ⟨u, hu, rfl⟩ := Option.map_eq_some_iff.1 hr
    exact .inr ⟨u, List.mem_of_find?_eq_some hu, rfl⟩

/-- A placeholder in a string that the scan covers has an entry. -/
theorem exists_entry_of_leaf (hc : ∀ f ∈ Rules.coverage doc (scan doc), f.isError = false)
    {leaf : Leaf} (hl : leaf ∈ scannedLeaves doc) {name : List Char}
    (h : .token name ∈ pieces leaf.text.toList) :
    ∃ entry ∈ doc.mergeEntries, Rules.IsNamed entry (.ofList name) :=
  Rules.exists_entry_of_coverage hc (mem_occurrences hl h)

/-- The placeholders of an edit are those of the document, whose entries name them. -/
theorem covered_editOf (hc : ∀ f ∈ Rules.coverage doc (scan doc), f.isError = false)
    (hplain : ∀ u ∈ uploads, u.url.toList.all isPlain = true) {timeline : Json}
    {output : Located Json} (ht : doc.timeline? = some timeline) (ho : doc.output? = some output)
    (merge : List Json) :
    Covered (editTokens (editOf doc.shape
      (rewriteAt (placedText doc.shape uploads (references doc)) doc.timelinePath timeline)
      output.value merge)) doc.mergeEntries := by
  intro token h
  obtain ⟨v, hv, h⟩ := List.mem_flatMap.1 h
  rcases List.mem_append.1 hv with hv | hv
  · have hv : v = rewriteAt (placedText doc.shape uploads (references doc)) doc.timelinePath
        timeline := (Option.some.inj (Option.mem_toList.1 hv)).symm
    obtain ⟨leaf, hl, name, hname, rfl⟩ := mem_tokensOf doc.timelinePath h
    rw [hv, leavesAt_rewriteAt] at hl
    obtain ⟨old, hold, rfl⟩ := List.mem_map.1 hl
    rcases placedText_cases doc.shape (references doc) old.path old.text with hkeep | ⟨u, hu, hurl⟩
    · rw [hkeep] at hname
      exact exists_entry_of_leaf hc (timelineLeaves_subset ht hold) hname
    · rw [hurl, pieces_of_plain (hplain u hu)] at hname
      cases hname
  · have hv : v = output.value := (Option.some.inj (Option.mem_toList.1 hv)).symm
    obtain ⟨leaf, hl, name, hname, rfl⟩ := mem_tokensOf output.path h
    rw [hv] at hl
    exact exists_entry_of_leaf hc (outputLeaves_subset ho hl) hname

end

/-! ## Checked scripts -/

section
variable {σ : Type} {a : Workshop σ} {order : Order} {doc : Document} {s : σ}

theorem parse_of_readDocument {text : String} (h : readDocument text = .ok doc) :
    parse text = .ok doc.toJson := by
  unfold readDocument at h
  obtain ⟨value, hv, h⟩ := bind_eq_ok h
  cases hp : parse text with
  | error e =>
    rw [hp] at hv
    cases hv
  | ok value' =>
    rw [hp] at hv
    cases hv
    cases value <;> cases h
    rfl

/-- An accepted document is well-formed. -/
theorem Accepts.wellFormed (h : Accepts a order doc) : WellFormed doc.toJson := by
  obtain ⟨text, -, -, hd⟩ := h
  exact wellFormed_of_parse (parse_of_readDocument hd)

/-- Where no check is skipped, an accepted document is sound. -/
theorem Accepts.sound (h : Accepts a order doc) (ho : order.skipChecks = false)
    (hc : a.check.skipChecks = false) : Sound a.here a.check (baseDirOf a order) doc := by
  obtain ⟨text, -, hclear, hd⟩ := h
  rcases hclear with hskip | ⟨report, hr, hp⟩
  · rw [ho, hc] at hskip
    cases hskip
  · obtain ⟨doc', hparse, hsound⟩ := sound_of_passed hc hr hp
    rw [parse_of_readDocument hd] at hparse
    have hdoc : doc' = doc := by
      cases doc
      cases doc'
      cases hparse
      rfl
    exact hdoc ▸ hsound

/-- The edit that a run submits is that of the accepted document, with addresses that the service
has given in that run. -/
theorem exists_given_of_submit {time : Nat} {e : Json}
    (h : (time, Call.submit e) ∈ (run a order s).2.calls) :
    ∃ doc uploads, Accepts a order doc ∧ edit doc (references doc) uploads = .ok e ∧
      uploads.map (·.raw) = ((references doc).map (·.raw)).eraseDups ∧
      ∀ u ∈ uploads, Given (transcript a.service s (run a order s).2.calls) u.url := by
  rcases run_cases a order s with ⟨doc, hd, stage, hconv, -⟩ | ⟨-, hnone, -⟩
  · obtain ⟨x, hx, hcall⟩ := @exists_mem_transcript _ a.service s _ _ _ h
    obtain ⟨uploads, he, hr, hg⟩ := hconv.submitted hx hcall
    exact ⟨doc, uploads, hd, he, hr, hg⟩
  · rw [hnone] at h
    cases h

theorem exists_uploads_of_submit {time : Nat} {e : Json}
    (h : (time, Call.submit e) ∈ (run a order s).2.calls) :
    ∃ doc uploads, Accepts a order doc ∧ edit doc (references doc) uploads = .ok e ∧
      uploads.map (·.raw) = ((references doc).map (·.raw)).eraseDups ∧
      ∀ u ∈ uploads, ∃ id st, (a.service.answer (.sourceState id) st).1 = .ok (.ready u.url) := by
  obtain ⟨doc, uploads, hd, he, hraws, hgiven⟩ := exists_given_of_submit h
  exact ⟨doc, uploads, hd, he, hraws, fun u hu => (hgiven u hu).exists_state⟩

/-- **Placeholders of a submitted edit.** For a script that was checked, and a service whose
addresses have no braces, the merge array of a template's edit names every placeholder in its
timeline and its output settings. The edit of a legacy script has no merge array, and the merge
array of the script names them. -/
theorem submitted_placeholders_covered (a : Workshop σ) (order : Order) (s : σ)
    (ho : order.skipChecks = false) (hc : a.check.skipChecks = false)
    (hplain : ∀ id st url, (a.service.answer (.sourceState id) st).1 = .ok (.ready url) →
      url.toList.all isPlain = true) {time : Nat} {e : Json}
    (h : (time, Call.submit e) ∈ (run a order s).2.calls) :
    ∃ doc, Accepts a order doc ∧ match doc.shape with
      | .template => Covered (editTokens e) (entriesOf e)
      | .legacy => e.get? "merge" = none ∧ Covered (editTokens e) doc.mergeEntries := by
  obtain ⟨doc, uploads, hd, he, hraws, hurls⟩ := exists_uploads_of_submit h
  obtain ⟨timeline, output, ht, hout, rfl⟩ :=
    edit_eq_ok hd.wellFormed (subset_of_perm (.of_eq hraws)) he
  have hfree : ∀ u ∈ uploads, u.url.toList.all isPlain = true := by
    intro u hu
    obtain ⟨id, st, hanswer⟩ := hurls u hu
    exact hplain id st u.url hanswer
  have hcovered := covered_editOf (hd.sound ho hc).coverage hfree ht hout
    (mergeEntriesOf doc (boundTokens doc (references doc) uploads))
  refine ⟨doc, hd, ?_⟩
  cases hs : doc.shape with
  | template =>
    rw [hs] at hcovered
    intro token htoken
    obtain ⟨entry, hentry, hnamed⟩ := hcovered token htoken
    exact isNamed_merge hentry hnamed
  | legacy =>
    rw [hs] at hcovered
    exact ⟨rfl, hcovered⟩

end

/-! ## A template and a legacy script -/

/-- A workshop with a script at every path of its disk and a service that takes every file. -/
def workshopOf (script : Json) : Workshop Unit where
  here := ⟨⟨fun _ => .ok .file, fun _ => .ok (), fun _ => .ok (compact script).toUTF8⟩, "/",
    .inOrder⟩
  check := .standard
  settings := .standard "key"
  service := { answer := fun call st =>
    (match call with
      | .reserveUpload => .ok ⟨"source", "https://media/put"⟩
      | .sendFile _ _ => .ok ()
      | .sourceState _ => .ok (.ready "https://media/source")
      | .submit _ => .ok "render"
      | .renderState _ => .error (.setup "closed")
      | .download _ _ => .error (.setup "closed"), st) }

/-- The order to assemble a script with its check. -/
def checkedOrder : Order := ⟨"/script.json", none, false⟩

/-- A track without clips. -/
def emptyTrack : Json := .object [("clips", .array [])]

/-- A template with a placeholder for a file. -/
def namedTemplate : Json :=
  .object
    [("template", .object [("timeline", .object
      [("sound", .object [("src", .string "{{A}}")]), ("tracks", .array [emptyTrack])])]),
     ("output", .object [("format", .string "mp4")]),
     ("merge", .array [.object [("find", .string " A"), ("replace", .string "")]])]

/-- A legacy script with a merge array for its placeholder. -/
def namedLegacy : Json :=
  .object
    [("timeline", .object [("background", .string "{{COLOR}}"), ("tracks", .array [emptyTrack])]),
     ("output", .object [("format", .string "mp4")]),
     ("merge", .array [.object [("find", .string "COLOR"), ("replace", .string "#000000")]])]

/-- Whether a call submits an edit with a property. -/
def submits (p : Json → Bool) : Call → Bool
  | .submit e => p e
  | _ => false

theorem exists_submit {p : Json → Bool} {calls : List (Nat × Call)}
    (h : calls.any (fun c => submits p c.2) = true) :
    ∃ time e, (time, Call.submit e) ∈ calls ∧ p e = true := by
  obtain ⟨⟨time, call⟩, hm, hp⟩ := List.any_eq_true.1 h
  cases call with
  | submit e => exact ⟨time, e, hm, hp⟩
  | _ => cases hp

theorem plain_addresses (script : Json) : ∀ id st url,
    ((workshopOf script).service.answer (.sourceState id) st).1 = .ok (.ready url) →
      url.toList.all isPlain = true := by
  intro id st url h
  cases h
  decide

theorem submitted_placeholders_covered_template :
    ∃ time e, (time, Call.submit e) ∈ (run (workshopOf namedTemplate) checkedOrder ()).2.calls ∧
      ∃ doc, Accepts (workshopOf namedTemplate) checkedOrder doc ∧ match doc.shape with
        | .template => Covered (editTokens e) (entriesOf e)
        | .legacy => e.get? "merge" = none ∧ Covered (editTokens e) doc.mergeEntries := by
  have hany : (run (workshopOf namedTemplate) checkedOrder ()).2.calls.any
      (fun c => submits (fun _ => true) c.2) = true := by decide +kernel
  obtain ⟨time, e, h, -⟩ := exists_submit hany
  exact ⟨time, e, h, submitted_placeholders_covered (workshopOf namedTemplate) checkedOrder ()
    rfl rfl (plain_addresses namedTemplate) h⟩

/-- The edit of a checked legacy script goes out with a placeholder that it has no entry for. -/
theorem legacy_edit_not_covered :
    checkedOrder.skipChecks = false ∧ (workshopOf namedLegacy).check.skipChecks = false ∧
      (∀ id st url,
        ((workshopOf namedLegacy).service.answer (.sourceState id) st).1 = .ok (.ready url) →
          url.toList.all isPlain = true) ∧
      ∃ time e, (time, Call.submit e) ∈ (run (workshopOf namedLegacy) checkedOrder ()).2.calls ∧
        ¬ Covered (editTokens e) (entriesOf e) := by
  have hany : (run (workshopOf namedLegacy) checkedOrder ()).2.calls.any
      (fun c => submits (fun e => !decide (Covered (editTokens e) (entriesOf e))) c.2) = true := by
    decide +kernel
  obtain ⟨time, e, h, hp⟩ := exists_submit hany
  refine ⟨rfl, rfl, plain_addresses namedLegacy, time, e, h, ?_⟩
  simpa using hp

end VideoScript.Assembly
