import VideoScript.Proofs.Json.Entries
import VideoScript.Proofs.Render.Budget

/-!
# What answers about renders come to

An answer about a render is a record of three members, none of them required: whether it was done, a
message and a response. Its record is what its entries say (`gather_eq_ok_iff`), so a body with keys
that do not repeat is decoded exactly when each of the three is absent or of its form. The record is
decoded whole before anyone asks whether it was done. A refusal is therefore reported with its
message exactly when its response is missing, null or what was asked for (`refusals_reported`), and
one that says in its response what is wrong counts as an answer of the wrong form
(`refusal_hidden`).

* `Field`, `gather_edit_iff`: each member by itself, from the entry with its name.
* `Reported`: what the entries of an answer settle about the result.
* `run_submit`, `run_renderState`: the calls that read such answers.
-/

set_option autoImplicit false

namespace VideoScript.Render

open Json Web

/-! ## Members of an answer -/

section
variable {α : Type} {decoder : Decoder α} {blank a : α} {name : String} {e : Entry}
  {entries : List Entry}

/-- No entry has the key. -/
def Lacks (entries : List Entry) (name : String) : Prop := ∀ e ∈ entries, e.key ≠ name

/-- An entry holds a value under the key. -/
def Says (entries : List Entry) (name : String) (v : Json) : Prop :=
  ∃ e ∈ entries, e.key = name ∧
    ∃ rest, readValue (fuelFor e.start) (depthLimit - 1) e.start = .ok (v, rest)

/-- An entry holds under the key what a decoder reads. -/
def Reads (decoder : Decoder α) (entries : List Entry) (name : String) (a : α) : Prop :=
  ∃ e ∈ entries, e.key = name ∧ ∃ rest, decoder (depthLimit - 1) e.start = .ok (a, rest)

/-- What a decoder reads under the key, or a default when no entry has the key. -/
def Field (decoder : Decoder α) (blank : α) (name : String) (entries : List Entry) (a : α) : Prop :=
  (Lacks entries name ∧ a = blank) ∨ Reads decoder entries name a

theorem lacks_of_not_mem (h : name ∉ entries.map (·.key)) : Lacks entries name :=
  fun e he hkey => h (List.mem_map.2 ⟨e, he, hkey⟩)

theorem not_reads_of_lacks (h : Lacks entries name) : ¬ Reads decoder entries name a := by
  rintro ⟨e, he, hkey, -⟩
  exact h e he hkey

theorem field_of_lacks (h : Lacks entries name) :
    Field decoder blank name entries a ↔ a = blank := by
  unfold Field
  simp [h, not_reads_of_lacks h]

theorem field_cons_self (hkey : e.key = name) (h : Lacks entries name) :
    Field decoder blank name (e :: entries) a ↔
      ∃ rest, decoder (depthLimit - 1) e.start = .ok (a, rest) := by
  constructor
  · rintro (⟨hlacks, -⟩ | ⟨e', he, hkey', hread⟩)
    · exact absurd hkey (hlacks e List.mem_cons_self)
    · rcases List.mem_cons.1 he with rfl | he
      · exact hread
      · exact absurd hkey' (h e' he)
  · intro hread
    exact .inr ⟨e, List.mem_cons_self, hkey, hread⟩

/-- The entry with the key is read, and the entries after it change nothing. -/
theorem exists_field_iff (hkey : e.key = name) (h : Lacks entries name) {others : Prop} :
    (∃ b rest, decoder (depthLimit - 1) e.start = .ok (b, rest) ∧
        Field decoder b name entries a ∧ others) ↔
      Field decoder blank name (e :: entries) a ∧ others := by
  rw [field_cons_self hkey h]
  constructor
  · rintro ⟨b, rest, hread, hb, hothers⟩
    exact ⟨⟨rest, (field_of_lacks h).1 hb ▸ hread⟩, hothers⟩
  · rintro ⟨⟨rest, hread⟩, hothers⟩
    exact ⟨a, rest, hread, (field_of_lacks h).2 rfl, hothers⟩

theorem field_cons_of_ne (hkey : e.key ≠ name) :
    Field decoder blank name (e :: entries) a ↔ Field decoder blank name entries a := by
  have hlacks : Lacks (e :: entries) name ↔ Lacks entries name := by
    unfold Lacks
    rw [List.forall_mem_cons]
    exact and_iff_right hkey
  have hreads : Reads decoder (e :: entries) name a ↔ Reads decoder entries name a := by
    unfold Reads
    rw [List.exists_mem_cons_iff]
    exact or_iff_right fun h => hkey h.1
  unfold Field
  rw [hlacks, hreads]

end

/-! ## Answers from their entries -/

section
variable {α : Type} {response : Decoder α}

/-- The form of an answer about a render. -/
def editShape (response : Decoder α) : RecordShape (EditRecord α) where
  name := "EditEnvelope"
  blank := ⟨false, none, none⟩
  members :=
    [place "success" .optional boolDecoder fun b r => { r with success := b },
     place "message" .optional optionalText fun message r => { r with message := message },
     place "response" .optionalByName (optionDecoder response) fun a r => { r with response := a }]

theorem editDecoder_eq : editDecoder response = recordDecoder (editShape response) := rfl

theorem passes_place {σ β : Type} {name : String} {presence : Presence} {read : Decoder β}
    {set : β → σ → σ} (h : Passes read) : Passes (place name presence read set).read := by
  intro depth s f rest hread
  have hread : (read depth s).map _ = .ok (f, rest) := hread
  cases hr : read depth s with
  | error fault =>
    rw [hr] at hread
    cases hread
  | ok result =>
    rw [hr] at hread
    cases hread
    exact h _ _ _ _ hr

theorem gather_place {σ β : Type} {shape : RecordShape σ} {depth : Nat} {name : String}
    {presence : Presence} {read : Decoder β} {set : β → σ → σ} {e : Entry} {entries : List Entry}
    (hfind : (shape.members.find? fun m => m.name = e.key) =
      some (place name presence read set)) {state state' : σ} :
    gather shape depth state (e :: entries) = .ok state' ↔
      ∃ b rest, read depth e.start = .ok (b, rest) ∧
        gather shape depth (set b state) entries = .ok state' := by
  rw [gather, hfind]
  show ((read depth e.start).map _ >>= _) = _ ↔ _
  cases read depth e.start with
  | error fault => simp [Except.map, bind, Except.bind]
  | ok result =>
    obtain ⟨b, rest⟩ := result
    show gather shape depth (set b state) entries = _ ↔ _
    simp

/-- The record of an answer, from its entries. -/
theorem gather_edit_iff {entries : List Entry} (hn : (entries.map (·.key)).Nodup)
    {r r' : EditRecord α} :
    gather (editShape response) (depthLimit - 1) r entries = .ok r' ↔
      Field boolDecoder r.success "success" entries r'.success ∧
      Field optionalText r.message "message" entries r'.message ∧
      Field (optionDecoder response) r.response "response" entries r'.response := by
  induction entries generalizing r with
  | nil =>
    have hnil (name : String) : Lacks [] name := fun _ h => by cases h
    rw [field_of_lacks (hnil _), field_of_lacks (hnil _), field_of_lacks (hnil _), gather]
    cases r
    cases r'
    simp [eq_comm]
  | cons e entries ih =>
    rw [List.map_cons, List.nodup_cons] at hn
    obtain ⟨hfresh, hn⟩ := hn
    have hlacks := lacks_of_not_mem hfresh
    by_cases hsuccess : e.key = "success"
    · rw [hsuccess] at hlacks
      rw [gather_place (by rw [hsuccess]; rfl),
        field_cons_of_ne (show e.key ≠ "message" by simp [hsuccess]),
        field_cons_of_ne (show e.key ≠ "response" by simp [hsuccess]),
        ← exists_field_iff hsuccess hlacks]
      exact exists₂_congr fun _ _ => and_congr_right fun _ => ih hn
    by_cases hmessage : e.key = "message"
    · rw [hmessage] at hlacks
      rw [gather_place (by rw [hmessage]; rfl), field_cons_of_ne hsuccess,
        field_cons_of_ne (show e.key ≠ "response" by simp [hmessage]), and_left_comm,
        ← exists_field_iff hmessage hlacks]
      exact exists₂_congr fun _ _ => and_congr_right fun _ => (ih hn).trans and_left_comm
    by_cases hresponse : e.key = "response"
    · rw [hresponse] at hlacks
      rw [gather_place (by rw [hresponse]; rfl), field_cons_of_ne hsuccess,
        field_cons_of_ne hmessage, ← and_assoc, and_comm, ← exists_field_iff hresponse hlacks]
      exact exists₂_congr fun _ _ => and_congr_right fun _ =>
        (ih hn).trans (and_assoc.symm.trans and_comm)
    · have hnone : ((editShape response).members.find? fun m => m.name = e.key) = none := by
        simp [editShape, place, Ne.symm hsuccess, Ne.symm hmessage, Ne.symm hresponse]
      rw [gather, hnone, field_cons_of_ne hsuccess, field_cons_of_ne hmessage,
        field_cons_of_ne hresponse]
      exact ih hn

/-! ## What the entries say -/

/-- The answer says that it was not done, or does not say. -/
def Denies (entries : List Entry) : Prop :=
  Lacks entries "success" ∨ Says entries "success" (.bool false)

/-- The answer says that it was done. -/
def Affirms (entries : List Entry) : Prop := Says entries "success" (.bool true)

/-- The answer has a message, or null or nothing in its place. -/
def HasMessage (entries : List Entry) : Option String → Prop
  | none => Lacks entries "message" ∨ Says entries "message" .null
  | some m => Says entries "message" (.string m)

/-- The answer has what was asked for, or null or nothing in its place. -/
def HasResponse (response : Decoder α) (entries : List Entry) : Option α → Prop
  | none => Lacks entries "response" ∨ Says entries "response" .null
  | some a => Reads response entries "response" a

theorem says_iff {entries : List Entry} {name : String} {v : Json} (hv : IsScalar v) :
    Says entries name v ↔ ∃ e ∈ entries, e.key = name ∧ ∃ rest, ReadsScalar e.start v rest := by
  constructor
  · rintro ⟨e, he, hkey, rest, h⟩
    exact ⟨e, he, hkey, rest, readsScalar_of_readValue h hv⟩
  · rintro ⟨e, he, hkey, rest, h⟩
    exact ⟨e, he, hkey, rest, readValue_of_readsScalar h⟩

theorem field_success_iff {entries : List Entry} {b : Bool} :
    Field boolDecoder false "success" entries b ↔
      if b then Affirms entries else Denies entries := by
  have hreads : Reads boolDecoder entries "success" b ↔ Says entries "success" (.bool b) := by
    unfold Reads
    simp only [says_iff (show IsScalar (.bool b) from trivial), boolDecoder_eq_ok_iff]
  unfold Field
  rw [hreads]
  cases b with
  | false => simp [Denies]
  | true => simp [Affirms]

theorem reads_option_none_iff {β : Type} {decoder : Decoder β} {entries : List Entry}
    {name : String} :
    Reads (optionDecoder decoder) entries name none ↔ Says entries name .null := by
  unfold Reads
  simp [says_iff (show IsScalar .null from trivial), optionDecoder_none_iff]

theorem field_message_iff {entries : List Entry} {m : Option String} :
    Field optionalText none "message" entries m ↔ HasMessage entries m := by
  unfold Field optionalText
  cases m with
  | none => simp [HasMessage, reads_option_none_iff]
  | some m =>
    unfold Reads
    simp [HasMessage, says_iff (show IsScalar (.string m) from trivial),
      optionDecoder_some_iff (proper_text _), textDecoder_eq_ok_iff]

theorem field_response_iff (hp : Proper response) {entries : List Entry} {a : Option α} :
    Field (optionDecoder response) none "response" entries a ↔
      HasResponse response entries a := by
  unfold Field
  cases a with
  | none => simp [HasResponse, reads_option_none_iff]
  | some a => simp [HasResponse, Reads, optionDecoder_some_iff hp]

/-- The record of an answer is what its entries say. -/
theorem gather_eq_ok_iff (hp : Proper response) {entries : List Entry}
    (hn : (entries.map (·.key)).Nodup) {r : EditRecord α} :
    gather (editShape response) (depthLimit - 1) ⟨false, none, none⟩ entries = .ok r ↔
      (if r.success then Affirms entries else Denies entries) ∧ HasMessage entries r.message ∧
        HasResponse response entries r.response := by
  rw [gather_edit_iff hn, field_success_iff, field_message_iff, field_response_iff hp]

/-! ## What comes of an answer -/

/-- What an answer with some entries comes to. -/
structure Reported (response : Decoder α) (entries : List Entry) (url : String)
    (result : Except ServiceError α) : Prop where
  /-- What was not done is rejected, with the message, exactly when the response can be read. -/
  rejected : Denies entries → ∀ m, HasMessage entries m →
    (result = .error (.rejected url (m.getD "Unknown error")) ↔
      ∃ a, HasResponse response entries a)
  /-- Else the answer counts as one of the wrong form. -/
  unreadable : Denies entries → (∃ m, HasMessage entries m) →
    (¬ ∃ a, HasResponse response entries a) → ∃ why, result = .error (.unexpected url why)
  /-- What was done gives the response. -/
  done : Affirms entries → ∀ a, (result = .ok a ↔
    HasResponse response entries (some a) ∧ ∃ m, HasMessage entries m)
  missing : Affirms entries →
    (¬ ∃ a, HasResponse response entries (some a) ∧ ∃ m, HasMessage entries m) →
    ∃ why, result = .error (.unexpected url why)

theorem readBody_edit [Library] (hr : Passes response) {body : ByteArray} {text url : String}
    {entries : List Entry} (ht : Text.decode? body = some text)
    (he : objectEntries text.toList = .ok entries) (hn : (entries.map (·.key)).Nodup) :
    readBody (editDecoder response) url body =
      (gather (editShape response) (depthLimit - 1) ⟨false, none, none⟩ entries).mapError
        fun f => .unexpected url (f.locate text.toList).message := by
  have hmembers : ∀ m ∈ (editShape response).members, Passes m.read := by
    intro m hm
    simp only [editShape, List.mem_cons, List.not_mem_nil, or_false] at hm
    rcases hm with rfl | rfl | rfl
    · exact passes_place passes_bool
    · exact passes_place (passes_option (passes_string _ _))
    · exact passes_place (passes_option hr)
  have hoptional : ∀ m ∈ (editShape response).members, m.presence ≠ .required := by
    intro m hm
    simp only [editShape, List.mem_cons, List.not_mem_nil, or_false] at hm
    rcases hm with rfl | rfl | rfl <;> exact nofun
  unfold readBody
  rw [ht]
  dsimp only
  rw [decode, editDecoder_eq, decodeChars_record hmembers hoptional he hn]
  show ((gather (editShape response) (depthLimit - 1) ⟨false, none, none⟩ entries).mapError
    _).mapError _ = _
  cases gather (editShape response) (depthLimit - 1) ⟨false, none, none⟩ entries <;> rfl

theorem response_of_content {r : EditRecord α} {url : String} {a : α}
    (h : r.content url = .ok a) : r.response = some a := by
  unfold EditRecord.content at h
  dsimp only at h
  split at h
  · split at h
    · next hresponse =>
      cases h
      exact hresponse
    · cases h
  · cases h

theorem reported [Library] (hr : Passes response) (hp : Proper response) {body : ByteArray}
    {text url : String} {entries : List Entry} (ht : Text.decode? body = some text)
    (he : objectEntries text.toList = .ok entries) (hn : (entries.map (·.key)).Nodup) :
    Reported response entries url
      (readBody (editDecoder response) url body >>= fun r => r.content url) := by
  rw [readBody_edit hr ht he hn]
  have hiff (r : EditRecord α) := gather_eq_ok_iff (r := r) hp hn
  generalize gather (editShape response) (depthLimit - 1) ⟨false, none, none⟩ entries = record
    at hiff
  refine ⟨fun hdenied m hm => ⟨fun h => ?_, ?_⟩, fun hdenied hm hnone => ?_,
    fun haffirmed a => ⟨fun h => ?_, ?_⟩, fun haffirmed hnone => ?_⟩
  · cases record with
    | error f => cases h
    | ok r => exact ⟨r.response, ((hiff r).1 rfl).2.2⟩
  · rintro ⟨a, ha⟩
    rw [(hiff ⟨false, m, a⟩).2 ⟨hdenied, hm, ha⟩]
    rfl
  · cases record with
    | error f => exact ⟨_, rfl⟩
    | ok r => exact absurd ⟨r.response, ((hiff r).1 rfl).2.2⟩ hnone
  · cases record with
    | error f => cases h
    | ok r =>
      obtain ⟨-, hmessage, hresponse⟩ := (hiff r).1 rfl
      exact ⟨response_of_content h ▸ hresponse, r.message, hmessage⟩
  · rintro ⟨ha, m, hm⟩
    rw [(hiff ⟨true, m, some a⟩).2 ⟨haffirmed, hm, ha⟩]
    rfl
  · cases record with
    | error f => exact ⟨_, rfl⟩
    | ok r =>
      obtain ⟨-, hmessage, hresponse⟩ := (hiff r).1 rfl
      cases ha : r.response with
      | some a => exact absurd ⟨a, ha ▸ hresponse, r.message, hmessage⟩ hnone
      | none =>
        have heq : r = ⟨true, r.message, none⟩ :=
          Except.ok.inj ((hiff ⟨true, r.message, none⟩).2 ⟨haffirmed, hmessage, ha ▸ hresponse⟩)
        rw [heq]
        exact ⟨_, rfl⟩

end

/-! ## The two decoders -/

theorem passes_queued : Passes queuedDecoder := by
  refine passes_record fun m hm => ?_
  rw [List.mem_singleton.1 hm]
  exact passes_place (passes_string _ _)

theorem passes_member {β : Type} {name : String} {presence : Presence} {read : Decoder β}
    {set : β → Status → Status} (h : Passes read) :
    Passes (Status.member name presence read set).read :=
  passes_place h

theorem passes_status : Passes Status.decoder := by
  refine passes_record fun m hm => ?_
  simp only [Status.shape, List.mem_cons, List.not_mem_nil, or_false] at hm
  rcases hm with rfl | rfl | rfl | rfl | rfl | rfl
  · exact passes_member (passes_string _ _)
  · exact passes_member (passes_choice _)
  · exact passes_member (passes_option (passes_string _ _))
  · exact passes_member (passes_option (passes_string _ _))
  · exact passes_member (passes_option (passes_string _ _))
  · exact passes_member (passes_option (passes_string _ _))

/-! ## Calls -/

namespace Client

section
variable {ν α : Type} {c : Client ν} {here : Online ν} {status : Nat} {body : ByteArray}

theorem run_orStop (r : Except ServiceError α) (here : Online ν) :
    (orStop r : Task ν α).run.run here = (r, here) := by
  cases r <;> rfl

/-- What is done with the body of an answer about a render. -/
theorem run_reading [Library] (decoder : Decoder (EditRecord α)) (url : String) (here : Online ν) :
    ((orStop (readBody decoder url body) >>= fun r => orStop (r.content url) : Task ν α).run.run
      here).1 = readBody decoder url body >>= fun r => r.content url := by
  rw [run_bind, run_orStop]
  cases readBody decoder url body with
  | error e => rfl
  | ok r =>
    dsimp only
    rw [run_orStop]
    rfl

theorem resultOf_answer (hs : 200 ≤ status ∧ status < 300) (url : String) (last : Bool) :
    resultOf url last (.answer status body) = .ok body :=
  if_pos hs

section
variable [Library]

theorem run_submit (edit : Json) (hs : 200 ≤ status ∧ status < 300)
    (hc : (c.toService .post (c.settings.editUrl ++ "/render") (.json edit)).canBeSent = true)
    (hreply : (c.network.deliver (c.toService .post (c.settings.editUrl ++ "/render") (.json edit))
      here.network).reply = .answer status body) :
    ((c.submit edit).run.run here).1 =
      readBody (editDecoder queuedDecoder) (c.settings.editUrl ++ "/render") body >>=
        fun r => r.content (c.settings.editUrl ++ "/render") := by
  unfold submit
  dsimp only
  rw [run_bind, run_askOnce hc, hreply, resultOf_answer hs]
  exact run_reading _ _ _

theorem run_renderState (id : String) {k : Nat} (hs : 200 ≤ status ∧ status < 300)
    (hc : (c.toService .get (c.settings.editUrl ++ "/render/" ++ id) .empty).canBeSent = true)
    (hk : LastAsked (replyAt c.network
      (c.toService .get (c.settings.editUrl ++ "/render/" ++ id) .empty) here.network)
      c.settings.maxRetries k)
    (hreply : replyAt c.network (c.toService .get (c.settings.editUrl ++ "/render/" ++ id) .empty)
      here.network k = .answer status body) :
    ((c.renderState id).run.run here).1 =
      readBody (editDecoder Status.decoder) (c.settings.editUrl ++ "/render/" ++ id) body >>=
        fun r => r.content (c.settings.editUrl ++ "/render/" ++ id) := by
  obtain ⟨k', hk', hrun⟩ := run_askFrom hc c.settings.maxRetries 0 here
  have heq : k' = k := LastAsked.unique hk' hk
  subst heq
  unfold renderState askAgain
  dsimp only
  rw [run_bind, hrun, hreply, resultOf_answer hs]
  exact run_reading _ _ _

/-- **Refusals are told as such when the response can be read.** Take an answer to a submitted edit,
or the last answer about a render, that is a success with an object without repeated keys. When it
says that nothing was done, or does not say, it is rejected with its message exactly when the
response is missing or null or what was asked for, and else its form counts as wrong. When it says
that it was done, the result is the response exactly when that is what was asked for and the message
is one, and else the form counts as wrong. -/
theorem refusals_reported (c : Client ν) (here : Online ν) (hs : 200 ≤ status ∧ status < 300)
    {text : String} {entries : List Entry} (ht : Text.decode? body = some text)
    (he : objectEntries text.toList = .ok entries) (hn : (entries.map (·.key)).Nodup) :
    (∀ edit, let request := c.toService .post (c.settings.editUrl ++ "/render") (.json edit)
      request.canBeSent = true →
      (c.network.deliver request here.network).reply = .answer status body →
      Reported queuedDecoder entries request.url ((c.submit edit).run.run here).1) ∧
    ∀ id k, let request := c.toService .get (c.settings.editUrl ++ "/render/" ++ id) .empty
      request.canBeSent = true →
      LastAsked (replyAt c.network request here.network) c.settings.maxRetries k →
      replyAt c.network request here.network k = .answer status body →
      Reported Status.decoder entries request.url ((c.renderState id).run.run here).1 := by
  constructor
  · intro edit request hc hreply
    rw [run_submit edit hs hc hreply]
    exact reported passes_queued (proper_record _) ht he hn
  · intro id k request hc hk hreply
    rw [run_renderState id hs hc hk hreply]
    exact reported passes_status (proper_record _) ht he hn

end

end

/-- What a refusal says before its response. -/
def refusalStart : String := "\x7b\"success\":false,\"message\":\"Bad Request\",\"response\":"

/-- The body of a refusal with a response. -/
def refusalWith (response : String) : String :=
  .ofList (refusalStart.toList ++ (response.toList ++ ['\x7d']))

/-- The entries of a refusal with a response. -/
def refusalEntries (response : String) : List Entry :=
  let s := (refusalWith response).toList
  [⟨"success", s.drop 11, s.drop 16⟩, ⟨"message", s.drop 27, s.drop 40⟩,
    ⟨"response", s.drop 52, s.drop (52 + response.length)⟩]

/-- A client of a service that answers everything with a refusal. -/
def refusedClient (response : String) : Client Nat :=
  ⟨.standard "key", scripted fun _ => .answer 200 (Text.encode (refusalWith response))⟩

/-- Before any request. -/
def untouched : Online Nat := ⟨0, ⟨[], "/"⟩, []⟩

theorem refusal_says (response : String) : Denies (refusalEntries response) ∧
    HasMessage (refusalEntries response) (some "Bad Request") := by
  have hs : (refusalWith response).toList =
      refusalStart.toList ++ (response.toList ++ ['\x7d']) := String.toList_ofList
  rw [refusalEntries, hs]
  constructor
  · refine .inr ((says_iff (show IsScalar (.bool false) from trivial)).2 ?_)
    exact ⟨_, List.mem_cons_self, rfl, _, .isFalse rfl rfl⟩
  · refine (says_iff (show IsScalar (.string "Bad Request") from trivial)).2 ?_
    exact ⟨_, List.mem_cons_of_mem _ List.mem_cons_self, rfl, _, .text rfl rfl⟩

theorem hasResponse_null {α : Type} (decoder : Decoder α) :
    HasResponse decoder (refusalEntries "null") none := by
  refine .inr ((says_iff (show IsScalar .null from trivial)).2 ?_)
  exact ⟨_, List.mem_cons_of_mem _ (List.mem_cons_of_mem _ List.mem_cons_self), rfl, _,
    .null rfl rfl⟩

theorem refusals_reported_null :
    let c := refusedClient "null"
    Text.decode? (Text.encode (refusalWith "null")) = some (refusalWith "null") ∧
      objectEntries (refusalWith "null").toList = .ok (refusalEntries "null") ∧
      ((refusalEntries "null").map (·.key)).Nodup ∧
      ((c.submit .null).run.run untouched).1 =
        .error (.rejected (c.settings.editUrl ++ "/render") "Bad Request") ∧
      ((c.renderState "1").run.run untouched).1 =
        .error (.rejected (c.settings.editUrl ++ "/render/" ++ "1") "Bad Request") := by
  intro c
  have ht := Text.decode?_encode (refusalWith "null")
  have he : (objectEntries (refusalWith "null").toList).toOption =
      some (refusalEntries "null") := by decide +kernel
  rw [toOption_eq_some_iff] at he
  have hn : ((refusalEntries "null").map (·.key)).Nodup := by decide +kernel
  have hpost : (c.toService .post (c.settings.editUrl ++ "/render") (.json .null)).canBeSent =
      true := by decide +kernel
  have hget : (c.toService .get (c.settings.editUrl ++ "/render/" ++ "1") .empty).canBeSent =
      true := by decide +kernel
  obtain ⟨hdenied, hmessage⟩ := refusal_says "null"
  have hsuccess : 200 ≤ 200 ∧ 200 < 300 := by decide
  have hreply : replyAt c.network
      (c.toService .get (c.settings.editUrl ++ "/render/" ++ "1") .empty) 0 0 =
        .answer 200 (Text.encode (refusalWith "null")) := replyAt_scripted _ hget 0 0
  have hlast : LastAsked (replyAt c.network
      (c.toService .get (c.settings.editUrl ++ "/render/" ++ "1") .empty) 0) 3 0 :=
    ⟨by decide, nofun, fun _ => by rw [hreply]; exact .inl hsuccess⟩
  obtain ⟨hsubmit, hstate⟩ := refusals_reported c untouched hsuccess ht he hn
  have hsubmit := hsubmit .null hpost (deliver_scripted _ hpost 0).1
  have hstate := hstate "1" 0 hget hlast hreply
  exact ⟨ht, he, hn, (hsubmit.rejected hdenied _ hmessage).2 ⟨none, hasResponse_null _⟩,
    (hstate.rejected hdenied _ hmessage).2 ⟨none, hasResponse_null _⟩⟩

/-- A refusal that says in its response what is wrong counts as an answer of the wrong form. -/
theorem refusal_hidden :
    let response := "\x7b\"error\":\"timeline missing\"\x7d"
    let c := refusedClient response
    objectEntries (refusalWith response).toList = .ok (refusalEntries response) ∧
      ((refusalEntries response).map (·.key)).Nodup ∧
      Denies (refusalEntries response) ∧
      HasMessage (refusalEntries response) (some "Bad Request") ∧
      ((c.submit .null).run.run untouched).1 =
        .error (.unexpected (c.settings.editUrl ++ "/render")
          "missing field `id` at line 1 column 80") := by
  intro response c
  have he : (objectEntries (refusalWith response).toList).toOption =
      some (refusalEntries response) := by decide +kernel
  rw [toOption_eq_some_iff] at he
  obtain ⟨hdenied, hmessage⟩ := refusal_says response
  exact ⟨he, by decide +kernel, hdenied, hmessage, by decide +kernel⟩

end Client

end VideoScript.Render
