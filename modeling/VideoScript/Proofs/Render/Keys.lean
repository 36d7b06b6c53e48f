import VideoScript.Proofs.Render.Requests

/-!
# Where the key goes

The key goes with requests to the service itself and with no other (`IsRequestOf.isServiceUrl`). But
an answer may lead elsewhere, and then the library takes the key along, wherever that is
(`key_follows_redirect`). So a message carries the key exactly when the request does that it is sent
for (`Carries`), and a request to an address that the service has named sends the key nowhere.

Messages without the key are called *open* here. Two clients that differ in their keys alone, and
whose open messages get the same responses, send the same open messages (`alike_session`): the
responses before a message decide whether it is sent, because they decide where an answer leads
(`deliver_congr`) and when a client stops asking. What becomes of the other messages in the two runs
does not matter.
-/

set_option autoImplicit false

namespace VideoScript.Render

open Json Disk Web

/-! ## Open attempts -/

/-- The attempts at requests without the key. -/
def openAttempts (attempts : List Attempt) : List Attempt :=
  attempts.filter fun a => a.request.key.isNone

/-- The responses to what was sent for requests without the key. -/
def openResponses (attempts : List Attempt) : List Response :=
  (openAttempts attempts).flatMap fun a => responses a.hops

theorem openResponses_append (xs ys : List Attempt) :
    openResponses (xs ++ ys) = openResponses xs ++ openResponses ys := by
  rw [openResponses, openAttempts, List.filter_append, List.flatMap_append]
  rfl

theorem openAttempts_cons {a : Attempt} (h : a.request.key = none) (xs : List Attempt) :
    openAttempts (a :: xs) = a :: openAttempts xs :=
  List.filter_cons_of_pos (by simp [h])

theorem openResponses_cons {a : Attempt} (h : a.request.key = none) (xs : List Attempt) :
    openResponses (a :: xs) = responses a.hops ++ openResponses xs := by
  rw [openResponses, openAttempts_cons h, List.flatMap_cons]
  rfl

theorem openAttempts_of_keyed {attempts : List Attempt}
    (h : ∀ a ∈ attempts, a.request.key ≠ none) : openAttempts attempts = [] :=
  List.filter_eq_nil_iff.2 fun a ha hnone => h a ha (Option.isNone_iff_eq_none.1 hnone)

theorem openResponses_of_keyed {attempts : List Attempt}
    (h : ∀ a ∈ attempts, a.request.key ≠ none) : openResponses attempts = [] := by
  rw [openResponses, openAttempts_of_keyed h]
  rfl

/-! ## Addresses of the service -/

namespace Client

/-- An address of the service itself. -/
def IsServiceUrl (s : ServiceSettings) (url : String) : Prop :=
  url = s.ingestUrl ++ "/upload" ∨ (∃ id, url = s.ingestUrl ++ "/sources/" ++ id) ∨
    url = s.editUrl ++ "/render" ∨ ∃ id, url = s.editUrl ++ "/render/" ++ id

theorem IsServiceUrl.starts {s : ServiceSettings} {url : String} (h : IsServiceUrl s url) :
    s.ingestUrl.toList <+: url.toList ∨ s.editUrl.toList <+: url.toList := by
  rcases h with rfl | ⟨id, rfl⟩ | rfl | ⟨id, rfl⟩ <;> simp [String.toList_append]

theorem IsRequestOf.isServiceUrl {s : ServiceSettings} {call : Call} {r : Request}
    (h : IsRequestOf s call r) (hk : r.key ≠ none) :
    r.key = some s.apiKey ∧ IsServiceUrl s r.url := by
  cases call with
  | reserveUpload =>
    obtain rfl : r = _ := h
    exact ⟨rfl, .inl rfl⟩
  | sendFile target path =>
    obtain ⟨content, rfl⟩ := h
    exact absurd rfl hk
  | sourceState id =>
    obtain rfl : r = _ := h
    exact ⟨rfl, .inr (.inl ⟨id, rfl⟩)⟩
  | submit edit =>
    obtain rfl : r = _ := h
    exact ⟨rfl, .inr (.inr (.inl rfl))⟩
  | renderState id =>
    obtain rfl : r = _ := h
    exact ⟨rfl, .inr (.inr (.inr ⟨id, rfl⟩))⟩
  | download url path =>
    obtain rfl : r = _ := h
    exact absurd rfl hk

/-! ## Two clients -/

section
variable {ν ν' : Type} {c : Client ν} {c' : Client ν'}

/-- A client with the settings of another but for the key. -/
def DiffersInKey (c : Client ν) (c' : Client ν') : Prop :=
  c'.settings = { c.settings with apiKey := c'.settings.apiKey }

theorem DiffersInKey.pauseBefore_eq (h : DiffersInKey c c') :
    c'.pauseBefore = c.pauseBefore := by
  funext attempt
  rw [pauseBefore, h]
  rfl

theorem DiffersInKey.maxRetries_eq (h : DiffersInKey c c') :
    c'.settings.maxRetries = c.settings.maxRetries := by
  rw [h]

/-- Two runs that end in `there` and `there'`: as long as their open messages get the same
responses, these are the same, they leave the same on the disk, and something else holds. -/
def Alike (here there : Online ν) (here' there' : Online ν') (also : Prop) : Prop :=
  ∃ xs xs', there.attempts = here.attempts ++ xs ∧ there'.attempts = here'.attempts ++ xs' ∧
    ∀ rest rest', openResponses xs ++ rest = openResponses xs' ++ rest' →
      openAttempts xs = openAttempts xs' ∧ rest = rest' ∧ there.tree = there'.tree ∧ also

theorem alike_idle {here : Online ν} {here' : Online ν'} (htree : here.tree = here'.tree)
    {also : Prop} (h : also) : Alike here here here' here' also :=
  ⟨[], [], by simp, by simp, fun _ _ hrest => ⟨rfl, hrest, htree, h⟩⟩

theorem Alike.imp {here there : Online ν} {here' there' : Online ν'} {also also' : Prop}
    (h : Alike here there here' there' also) (himp : also → also') :
    Alike here there here' there' also' := by
  obtain ⟨xs, xs', hxs, hxs', hsame⟩ := h
  refine ⟨xs, xs', hxs, hxs', fun rest rest' hrest => ?_⟩
  obtain ⟨hopen, hrest, htree, ha⟩ := hsame rest rest' hrest
  exact ⟨hopen, hrest, htree, himp ha⟩

theorem state_done {α : Type} (part : Task ν α) (here : Online ν) :
    ((part >>= fun _ => (pure () : Task ν Unit)).run.run here).2 = (part.run.run here).2 := by
  rw [run_bind]
  rcases part.run.run here with ⟨_ | _, there⟩ <;> rfl

end

section
variable [Library] {ν ν' : Type} {c : Client ν} {c' : Client ν'} {request : Request} {call : Call}

/-- Runs that go on after an open request are alike when they are where the replies agree. -/
theorem alike_sent (hk : request.key = none) (pause : Nat) {here there : Online ν}
    {here' there' : Online ν'} {ys ys' : List Attempt} {also : Prop}
    (hlog : there.attempts = (c.sent pause request here).attempts ++ ys)
    (hlog' : there'.attempts = (c'.sent pause request here').attempts ++ ys')
    (hsame : (c.network.deliver request here.network).reply =
        (c'.network.deliver request here'.network).reply →
      ∀ rest rest', openResponses ys ++ rest = openResponses ys' ++ rest' →
        openAttempts ys = openAttempts ys' ∧ rest = rest' ∧ there.tree = there'.tree ∧ also) :
    Alike here there here' there' also := by
  refine ⟨⟨pause, request, (c.network.deliver request here.network).hops⟩ :: ys,
    ⟨pause, request, (c'.network.deliver request here'.network).hops⟩ :: ys', ?_, ?_,
    fun rest rest' hrest => ?_⟩
  · rw [hlog, sent, List.append_assoc]
    rfl
  · rw [hlog', sent, List.append_assoc]
    rfl
  · rw [openResponses_cons hk, openResponses_cons hk, List.append_assoc, List.append_assoc] at hrest
    obtain ⟨hreply, hhops, hrest⟩ := deliver_congr request here.network here'.network _ _ hrest
    obtain ⟨hopen, hthen⟩ := hsame hreply _ _ hrest
    exact ⟨by rw [openAttempts_cons hk, openAttempts_cons hk, hopen, hhops], hthen⟩

/-- What is asked begins with a request. -/
theorem exists_asked (hs : request.canBeSent = true) (left attempt : Nat) (here : Online ν) :
    ∃ ys, ((c.askFrom request attempt left).run.run here).2.attempts =
      (c.sent (c.pauseBefore attempt) request here).attempts ++ ys := by
  have hnone (there : Online ν) : there.attempts = there.attempts ++ [] := (List.append_nil _).symm
  cases left with
  | zero =>
    rw [run_askFrom_zero hs]
    exact ⟨[], hnone _⟩
  | succ left =>
    rw [run_askFrom_succ hs]
    dsimp only
    split
    · have hmakes : Makes (fun r => r = request) (c.askFrom request (attempt + 1) left) :=
        makes_askFrom (P := fun r => r = request) rfl left _
      obtain ⟨ys, hys, -⟩ := (hmakes (c.sent (c.pauseBefore attempt) request here)).1
      exact ⟨ys, hys⟩
    · exact ⟨[], hnone _⟩

/-- The attempts at an open request are decided by the responses, and so is what comes of them. -/
theorem alike_askFrom (h : DiffersInKey c c') (hk : request.key = none) (left attempt : Nat)
    {here : Online ν} {here' : Online ν'} (htree : here.tree = here'.tree) :
    Alike here ((c.askFrom request attempt left).run.run here).2
      here' ((c'.askFrom request attempt left).run.run here').2
      (((c.askFrom request attempt left).run.run here).1 =
        ((c'.askFrom request attempt left).run.run here').1) := by
  cases hs : request.canBeSent with
  | false =>
    rw [run_askFrom_unsendable hs, run_askFrom_unsendable hs]
    exact alike_idle htree rfl
  | true =>
    induction left generalizing attempt here here' with
    | zero =>
      rw [run_askFrom_zero hs, run_askFrom_zero hs, h.pauseBefore_eq]
      refine alike_sent hk _ (List.append_nil _).symm (List.append_nil _).symm
        fun hreply rest rest' hrest => ?_
      exact ⟨rfl, hrest, htree, by rw [hreply]⟩
    | succ left ih =>
      by_cases hreply : (c.network.deliver request here.network).reply =
          (c'.network.deliver request here'.network).reply
      · rw [run_askFrom_succ hs, run_askFrom_succ hs, h.pauseBefore_eq]
        dsimp only
        rw [← hreply]
        split
        · have hsent : (c.sent (c.pauseBefore attempt) request here).tree =
              (c'.sent (c.pauseBefore attempt) request here').tree := htree
          obtain ⟨ys, ys', hlog, hlog', hsame⟩ := ih (attempt + 1) hsent
          exact alike_sent hk _ hlog hlog' fun _ => hsame
        · refine alike_sent hk _ (List.append_nil _).symm (List.append_nil _).symm
            fun _ rest rest' hrest => ?_
          exact ⟨rfl, hrest, htree, rfl⟩
      · obtain ⟨ys, hys⟩ := exists_asked (c := c) hs (left + 1) attempt here
        obtain ⟨ys', hys'⟩ := exists_asked (c := c') hs (left + 1) attempt here'
        rw [h.pauseBefore_eq] at hys'
        exact alike_sent hk _ hys hys' fun hsame => absurd hsame hreply

/-- Calls to the service send nothing open and leave the disk alone. -/
theorem alike_keyed (hcall : ∀ url path, call ≠ .download url path)
    (hk : ∀ (s : ServiceSettings) r, IsRequestOf s call r → r.key ≠ none) {here : Online ν}
    {here' : Online ν'} (htree : here.tree = here'.tree) :
    Alike here (c.service.answer call here).2 here' (c'.service.answer call here').2 True := by
  obtain ⟨⟨xs, hxs, hof⟩, hkept⟩ := c.makes_perform hcall here
  obtain ⟨⟨xs', hxs', hof'⟩, hkept'⟩ := c'.makes_perform hcall here'
  have hkeyed : ∀ a ∈ xs, a.request.key ≠ none := fun a ha => hk _ _ (hof a ha).1
  have hkeyed' : ∀ a ∈ xs', a.request.key ≠ none := fun a ha => hk _ _ (hof' a ha).1
  refine ⟨xs, xs', hxs, hxs', fun rest rest' hrest => ?_⟩
  rw [openResponses_of_keyed hkeyed, openResponses_of_keyed hkeyed'] at hrest
  exact ⟨(openAttempts_of_keyed hkeyed).trans (openAttempts_of_keyed hkeyed').symm, hrest,
    hkept.trans (htree.trans hkept'.symm), trivial⟩

theorem alike_sendFile (h : DiffersInKey c c') (target : UploadSlot) (path : String)
    {here : Online ν} {here' : Online ν'} (htree : here.tree = here'.tree) :
    Alike here ((c.sendFile target path).run.run here).2
      here' ((c'.sendFile target path).run.run here').2 True := by
  rw [run_sendFile, run_sendFile, ← htree]
  cases here.tree.disk.read path with
  | error failure => exact alike_idle htree trivial
  | ok content =>
    have hask := alike_askFrom h
      (show (toAddress .put target.url (.bytes content)).key = none from rfl) 0 0 htree
    dsimp only
    rw [state_done, state_done]
    exact hask.imp fun _ => trivial

theorem alike_download (h : DiffersInKey c c') (url path : String)
    {here : Online ν} {here' : Online ν'} (htree : here.tree = here'.tree) :
    Alike here ((c.download url path).run.run here).2
      here' ((c'.download url path).run.run here').2 True := by
  obtain ⟨xs, xs', hxs, hxs', hsame⟩ := alike_askFrom h
    (show (toAddress .get url .empty).key = none from rfl) c.settings.maxRetries 0 htree
  rw [run_download, run_download, askAgain, askAgain, h.maxRetries_eq]
  refine ⟨xs, xs', hxs, hxs', fun rest rest' hrest => ?_⟩
  obtain ⟨hopen, hrest, hdisk, hresult⟩ := hsame rest rest' hrest
  exact ⟨hopen, hrest,
    congrArg₂ (fun tree outcome => (saving tree path outcome).2) hdisk hresult, trivial⟩

theorem alike_answer (h : DiffersInKey c c') (call : Call) {here : Online ν} {here' : Online ν'}
    (htree : here.tree = here'.tree) :
    Alike here (c.service.answer call here).2 here' (c'.service.answer call here').2 True := by
  cases call with
  | sendFile target path => exact alike_sendFile h target path htree
  | download url path => exact alike_download h url path htree
  | reserveUpload | sourceState | submit | renderState =>
    refine alike_keyed (by simp) ?_ htree
    rintro s r rfl
    simp

/-- Calls one after the other are alike. -/
theorem alike_session (h : DiffersInKey c c') (calls : List Call) {here : Online ν}
    {here' : Online ν'} (htree : here.tree = here'.tree) :
    Alike here (c.session calls here) here' (c'.session calls here') True := by
  induction calls generalizing here here' with
  | nil => exact alike_idle htree trivial
  | cons call rest ih =>
    obtain ⟨xs, xs', hxs, hxs', hsame⟩ := alike_answer h call htree
    show Alike here (c.session rest (c.service.answer call here).2)
      here' (c'.session rest (c'.service.answer call here').2) True
    -- The disks agree only where the responses do, so the rest is compared there alone.
    by_cases hagree : (c.service.answer call here).2.tree = (c'.service.answer call here').2.tree
    · obtain ⟨ys, ys', hys, hys', hthen⟩ := ih hagree
      refine ⟨xs ++ ys, xs' ++ ys', ?_, ?_, fun more more' hmore => ?_⟩
      · rw [hys, hxs, List.append_assoc]
      · rw [hys', hxs', List.append_assoc]
      · rw [openResponses_append, openResponses_append, List.append_assoc,
          List.append_assoc] at hmore
        obtain ⟨hopen, hrest, -⟩ := hsame _ _ hmore
        obtain ⟨hopen', hthen⟩ := hthen more more' hrest
        refine ⟨?_, hthen⟩
        rw [openAttempts, List.filter_append, openAttempts, List.filter_append]
        exact congrArg₂ (· ++ ·) hopen hopen'
    · obtain ⟨ys, hys, -⟩ := c.session_notes rest (c.service.answer call here).2
      obtain ⟨ys', hys', -⟩ := c'.session_notes rest (c'.service.answer call here').2
      refine ⟨xs ++ ys, xs' ++ ys', ?_, ?_, fun more more' hmore => ?_⟩
      · rw [hys, hxs, List.append_assoc]
      · rw [hys', hxs', List.append_assoc]
      · rw [openResponses_append, openResponses_append, List.append_assoc,
          List.append_assoc] at hmore
        exact absurd (hsame _ _ hmore).2.2.1 hagree

/-! ## The whole -/

/-- Calls to addresses that the service has named. -/
def NamesAddress : Call → Prop
  | .sendFile _ _ => True
  | .download _ _ => True
  | _ => False

/-- How an attempt of a call carries the key. -/
structure Carries (s : ServiceSettings) (call : Call) (a : Attempt) : Prop where
  request : IsRequestOf s call a.request
  /-- The key is set for requests to the service alone. -/
  addressed : a.request.key ≠ none → a.request.key = some s.apiKey ∧ IsServiceUrl s a.request.url
  /-- The message of the request is sent, and those to which the answers lead. -/
  delivered : a.Delivered
  /-- The headers go along, wherever that is. -/
  headers : ∀ hop ∈ a.hops, hop.message.key = a.request.key ∧
    hop.message.accept = a.request.accept.getD anyForm
  /-- Where the service has named the address, nothing is sent with the key or asks for a form. -/
  anonymous : NamesAddress call → ∀ hop ∈ a.hops, hop.message.key = none ∧
    hop.message.accept = anyForm

theorem carries_of_request {s : ServiceSettings} {a : Attempt} (h : IsRequestOf s call a.request)
    (hd : a.Delivered) : Carries s call a := by
  obtain ⟨m, hm, htrail⟩ := hd
  have hheaders : ∀ hop ∈ a.hops, hop.message.key = a.request.key ∧
      hop.message.accept = a.request.accept.getD anyForm := by
    intro hop hhop
    rw [htrail.key hop hhop, htrail.accept hop hhop]
    unfold Request.message? at hm
    split at hm
    · split at hm
      · cases hm
        exact ⟨rfl, rfl⟩
      · cases hm
    · cases hm
  refine ⟨h, h.isServiceUrl, ⟨m, hm, htrail⟩, hheaders, fun hnamed hop hhop => ?_⟩
  obtain ⟨hkey, haccept⟩ := hheaders hop hhop
  have hopen : a.request.key = none ∧ a.request.accept = none := by
    cases call with
    | sendFile target path =>
      obtain ⟨content, hrequest⟩ := h
      rw [hrequest]
      exact ⟨rfl, rfl⟩
    | download url path =>
      rw [show a.request = _ from h]
      exact ⟨rfl, rfl⟩
    | _ => exact hnamed.elim
  rw [hkey, haccept, hopen.1, hopen.2]
  exact ⟨rfl, rfl⟩

/-- **Where the key goes.** A client sets the key for requests to the service alone, whatever
addresses the service has named, and the library takes it along where the answers to these lead.
What is sent for a file that is put, or for a video that is fetched, has no key and asks for no
form, at every attempt and wherever its answers lead. Clients that differ in the key alone send the
same for these, at the same pauses, as long as it gets the same responses. -/
theorem key_goes_where_service_leads (c : Client ν) :
    (∀ call here, ∃ attempts,
      (c.service.answer call here).2.attempts = here.attempts ++ attempts ∧
        ∀ a ∈ attempts, Carries c.settings call a) ∧
    (∀ calls start tree, ∀ a ∈ (c.session calls ⟨start, tree, []⟩).attempts,
      ∃ call ∈ calls, Carries c.settings call a) ∧
    ∀ {ν' : Type} (c' : Client ν') (calls : List Call) (start : ν) (start' : ν') (tree : FileTree),
      DiffersInKey c c' →
      openResponses (c.session calls ⟨start, tree, []⟩).attempts =
        openResponses (c'.session calls ⟨start', tree, []⟩).attempts →
      openAttempts (c.session calls ⟨start, tree, []⟩).attempts =
        openAttempts (c'.session calls ⟨start', tree, []⟩).attempts := by
  refine ⟨fun call here => ?_, fun calls start tree a ha => ?_,
    fun c' calls start start' tree h hresponses => ?_⟩
  · obtain ⟨attempts, hlog, hof⟩ := c.perform_notes call here
    exact ⟨attempts, hlog, fun a ha => carries_of_request (hof a ha).1 (hof a ha).2⟩
  · obtain ⟨attempts, hlog, hof⟩ := c.session_notes calls ⟨start, tree, []⟩
    rw [hlog, List.nil_append] at ha
    obtain ⟨⟨call, hcall, hrequest⟩, hdelivered⟩ := hof a ha
    exact ⟨call, hcall, carries_of_request hrequest hdelivered⟩
  · obtain ⟨xs, xs', hxs, hxs', hsame⟩ := alike_session h calls
      (show (⟨start, tree, []⟩ : Online ν).tree = (⟨start', tree, []⟩ : Online _).tree from rfl)
    rw [hxs, hxs', List.nil_append, List.nil_append] at hresponses ⊢
    exact (hsame [] [] (by rw [hresponses])).1

end

/-! ## A network that leads away -/

/-- The place to which the network leads. -/
def elsewhere : String := "https://elsewhere.test/"

/-- A network whose service answers at another place, and is slow there. -/
def leadingAway : Network Nat where
  exchange m n :=
    (if m.url.text = elsewhere then
      (if n < 2 then Reply.timedOut else .answer 200 .empty).alone
    else ⟨.answer 302 .empty, some elsewhere, 0⟩, n + 1)

/-- Everything that was sent, in order. -/
def sentMessages (attempts : List Attempt) : List Message :=
  attempts.flatMap fun a => a.hops.map (·.message)

/-- The key follows an answer that leads to another place; and a name with dots in it, from the
service or not, leads to another place itself. What is sent for a file that is put asks for any form
of answer. -/
theorem key_follows_redirect :
    let c : Client Nat :=
      ⟨{ ServiceSettings.standard "key" with ingestUrl := "http://ingest.test/stage" }, leadingAway⟩
    let sent (call : Call) : List Message :=
      sentMessages (c.session [call] ⟨0, ⟨[(["a.mp4"], .file .empty)], "/"⟩, []⟩).attempts
    (some "key", elsewhere) ∈ (sent (.renderState "1")).map (fun m => (m.key, m.url.text)) ∧
      ¬ IsServiceUrl c.settings elsewhere ∧
      (some "key", "http://ingest.test/admin") ∈
        (sent (.sourceState "../../admin")).map (fun m => (m.key, m.url.text)) ∧
      ¬ IsServiceUrl c.settings "http://ingest.test/admin" ∧
      (Method.put, "*/*") ∈
        (sent (.sendFile ⟨"1", "https://put/1"⟩ "a.mp4")).map (fun m => (m.method, m.accept)) := by
  intro c sent
  have hother {url : String} (h : (c.settings.ingestUrl.toList.isPrefixOf url.toList ||
      c.settings.editUrl.toList.isPrefixOf url.toList) = false) :
      ¬ IsServiceUrl c.settings url := by
    intro hurl
    rw [Bool.or_eq_false_iff] at h
    rcases hurl.starts with hstart | hstart
    · exact Bool.false_ne_true (h.1.symm.trans (List.isPrefixOf_iff_prefix.2 hstart))
    · exact Bool.false_ne_true (h.2.symm.trans (List.isPrefixOf_iff_prefix.2 hstart))
  exact ⟨by decide +kernel, hother (by decide +kernel), by decide +kernel,
    hother (by decide +kernel), by decide +kernel⟩

/-- A video is fetched, a render is asked for and a file is put in its place. -/
def threeCalls : List Call :=
  [.download "https://cdn/1.mp4" "out.mp4", .renderState "1",
    .sendFile ⟨"1", "https://put/1"⟩ "a.mp4"]

theorem key_goes_where_service_leads_away :
    let c : Client Nat := ⟨.standard "one", leadingAway⟩
    let c' : Client Nat := ⟨.standard "two", leadingAway⟩
    let tree : FileTree := ⟨[(["a.mp4"], .file .empty)], "/"⟩
    DiffersInKey c c' ∧
      openResponses (c.session threeCalls ⟨0, tree, []⟩).attempts =
        openResponses (c'.session threeCalls ⟨0, tree, []⟩).attempts ∧
      (openResponses (c.session threeCalls ⟨0, tree, []⟩).attempts).length = 6 ∧
      openAttempts (c.session threeCalls ⟨0, tree, []⟩).attempts =
        openAttempts (c'.session threeCalls ⟨0, tree, []⟩).attempts := by
  intro c c' tree
  have hdiffers : DiffersInKey c c' := rfl
  have hresponses : openResponses (c.session threeCalls ⟨0, tree, []⟩).attempts =
      openResponses (c'.session threeCalls ⟨0, tree, []⟩).attempts := by decide +kernel
  exact ⟨hdiffers, hresponses, by decide +kernel,
    (key_goes_where_service_leads c).2.2 c' threeCalls 0 0 tree hdiffers hresponses⟩

end Client

end VideoScript.Render
