import VideoScript.Proofs.Render.Budget

/-!
# The requests of a call

`IsRequestOf s call r` says which requests a call makes: those to the service carry the key and ask
for JSON; those to an address that the service has named, where a file is put or a video stands, do
neither. Every attempt of a call is at such a request, the repeated ones too, and what is sent for
it is its message and those to which the answers lead (`perform_makes`, `session_makes`).

A download saves what it has asked for (`run_download`); no other call changes the disk.
-/

set_option autoImplicit false

namespace VideoScript.Render

open Json Disk Web

/-- What was sent for a request is its message and those to which the answers lead. -/
def Attempt.Delivered [Library] (a : Attempt) : Prop :=
  ∃ m, a.request.message? = some m ∧ IsTrail m a.hops

namespace Client

section
variable {ν α : Type}

/-! ## Files that are saved -/

/-- The tree with room for a file. -/
def roomFor (tree : FileTree) (path : String) : Except ServiceError FileTree :=
  match parent? path with
  | none => .ok tree
  | some dir =>
    if dir.isEmpty then .ok tree else (tree.makeDirectories dir).mapError (.disk dir)

/-- What comes of saving the outcome of a question: the number of bytes or an error, and what stands
on the disk then. -/
def saving (tree : FileTree) (path : String) :
    (outcome : Except ServiceError ByteArray) → Except ServiceError Nat × FileTree
  | .error e => (.error e, tree)
  | .ok body =>
    match roomFor tree path with
    | .error e => (.error e, tree)
    | .ok room =>
      match room.storeFile path body with
      | .error failure => (.error (.disk path failure), room)
      | .ok after => (.ok body.size, after)

theorem run_makeRoom (path : String) (here : Online ν) :
    (makeRoom path).run.run here = match roomFor here.tree path with
      | .error e => (.error e, here)
      | .ok room => (.ok (), { here with tree := room }) := by
  unfold makeRoom roomFor
  cases parent? path with
  | none => rfl
  | some dir =>
    dsimp only
    split
    · rfl
    · show (orStop ((here.tree.makeDirectories dir).mapError (.disk dir)) >>= _ :
        Task ν Unit).run.run here = _
      rw [run_bind]
      cases here.tree.makeDirectories dir <;> rfl

end

section
variable [Library] {ν α β : Type} {c : Client ν} {P : Request → Prop} {request : Request}
  {call : Call}

theorem run_download (url path : String) (here : Online ν) :
    (c.download url path).run.run here =
      match (c.askAgain (toAddress .get url .empty)).run.run here with
      | (outcome, there) =>
        ((saving there.tree path outcome).1,
          { there with tree := (saving there.tree path outcome).2 }) := by
  unfold download
  rw [run_bind]
  rcases (c.askAgain (toAddress .get url .empty)).run.run here with ⟨_ | body, there⟩
  · rfl
  · dsimp only
    rw [run_bind, run_makeRoom, saving]
    cases roomFor there.tree path with
    | error e => rfl
    | ok room =>
      dsimp only
      show (orStop ((room.storeFile path body).mapError (.disk path)) >>= _ : Task ν Nat).run.run
        { there with tree := room } = _
      rw [run_bind]
      cases room.storeFile path body <;> rfl

/-! ## The requests of a part -/

/-- A part notes attempts at requests with a property. -/
def Notes (P : Request → Prop) (here there : Online ν) : Prop :=
  ∃ attempts, there.attempts = here.attempts ++ attempts ∧
    ∀ a ∈ attempts, P a.request ∧ a.Delivered

theorem Notes.rfl {here : Online ν} : Notes P here here := ⟨[], by simp, by simp⟩

theorem Notes.trans {here there later : Online ν} (h : Notes P here there)
    (h' : Notes P there later) : Notes P here later := by
  obtain ⟨xs, hxs, hof⟩ := h
  obtain ⟨ys, hys, hof'⟩ := h'
  exact ⟨xs ++ ys, by rw [hys, hxs, List.append_assoc], List.forall_mem_append.2 ⟨hof, hof'⟩⟩

theorem Notes.mono {P' : Request → Prop} {here there : Online ν} (h : Notes P here there)
    (hP : ∀ r, P r → P' r) : Notes P' here there := by
  obtain ⟨xs, hxs, hof⟩ := h
  exact ⟨xs, hxs, fun a ha => ⟨hP _ (hof a ha).1, (hof a ha).2⟩⟩

/-- A part makes requests with a property and leaves the disk alone. -/
def Makes (P : Request → Prop) (part : Task ν α) : Prop :=
  ∀ here, Notes P here (part.run.run here).2 ∧ (part.run.run here).2.tree = here.tree

theorem makes_of_kept {part : Task ν α} (h : ∀ here, (part.run.run here).2 = here) :
    Makes P part := fun here => by
  rw [h here]
  exact ⟨.rfl, rfl⟩

theorem makes_ret (v : α) : Makes P (pure v : Task ν α) := makes_of_kept fun _ => rfl

theorem makes_stop (e : ServiceError) : Makes P (throw e : Task ν α) := makes_of_kept fun _ => rfl

theorem makes_orStop (r : Except ServiceError α) : Makes P (orStop r : Task ν α) := by
  cases r with
  | ok v => exact makes_ret v
  | error e => exact makes_stop e

theorem makes_bind {part : Task ν β} {next : β → Task ν α} (h : Makes P part)
    (hn : ∀ v, Makes P (next v)) : Makes P (part >>= next) := by
  intro here
  obtain ⟨hnotes, htree⟩ := h here
  rw [run_bind]
  rcases hp : part.run.run here with ⟨e | v, there⟩
  · rw [hp] at hnotes htree
    exact ⟨hnotes, htree⟩
  · rw [hp] at hnotes htree
    obtain ⟨hnotes', htree'⟩ := hn v there
    exact ⟨hnotes.trans hnotes', htree'.trans htree⟩

theorem run_send_unsendable (hs : request.canBeSent = false) (pause : Nat) (here : Online ν) :
    (c.send pause request).run.run here = (.ok (.failed unsendable), here) := by
  have hreply : (c.network.deliver request here.network).reply = .failed unsendable := by
    rw [deliver_unsendable hs]
  unfold send
  rw [hs, ← hreply]
  rfl

theorem run_askFrom_unsendable (hs : request.canBeSent = false) (left attempt : Nat)
    (here : Online ν) : (c.askFrom request attempt left).run.run here =
      (.error (.network request.url unsendable true), here) := by
  induction left generalizing attempt with
  | zero =>
    rw [askFrom, run_bind, run_send_unsendable hs]
    rfl
  | succ left ih =>
    rw [askFrom, run_bind, run_send_unsendable hs]
    exact ih (attempt + 1)

theorem delivered_sent (hs : request.canBeSent = true) (pause : Nat) (start : ν) :
    Attempt.Delivered ⟨pause, request, (c.network.deliver request start).hops⟩ := by
  obtain ⟨m, hm⟩ := Option.isSome_iff_exists.1 hs
  exact ⟨m, hm, isTrail_deliver hm start⟩

theorem makes_send (h : P request) (pause : Nat) : Makes P (c.send pause request) := by
  intro here
  cases hs : request.canBeSent with
  | false =>
    rw [run_send_unsendable hs]
    exact ⟨.rfl, rfl⟩
  | true =>
    rw [run_send hs]
    refine ⟨⟨_, rfl, fun a ha => ?_⟩, rfl⟩
    rw [List.mem_singleton.1 ha]
    exact ⟨h, delivered_sent hs pause _⟩

theorem makes_askFrom (h : P request) (left attempt : Nat) :
    Makes P (c.askFrom request attempt left) := by
  induction left generalizing attempt with
  | zero =>
    refine makes_bind (makes_send h _) fun reply => ?_
    cases verdict request.url true reply with
    | success body => exact makes_ret body
    | refused e | fault e => exact makes_stop e
  | succ left ih =>
    refine makes_bind (makes_send h _) fun reply => ?_
    cases verdict request.url false reply with
    | success body => exact makes_ret body
    | refused e => exact makes_stop e
    | fault e => exact ih (attempt + 1)

theorem askOnce_eq (c : Client ν) (request : Request) :
    c.askOnce request = c.askFrom request 0 0 := rfl

theorem makes_askOnce (h : P request) : Makes P (c.askOnce request) := by
  rw [askOnce_eq]
  exact makes_askFrom h 0 0

theorem makes_askAgain (h : P request) : Makes P (c.askAgain request) := makes_askFrom h _ 0

/-! ## The requests of a call -/

/-- The requests that a call makes. -/
def IsRequestOf (s : ServiceSettings) : Call → Request → Prop
  | .reserveUpload, r => r =
    { method := .post, url := s.ingestUrl ++ "/upload", key := some s.apiKey
      accept := some "application/json", body := .empty }
  | .sendFile target _, r => ∃ content, r =
    { method := .put, url := target.url, key := none, accept := none, body := .bytes content }
  | .sourceState id, r => r =
    { method := .get, url := s.ingestUrl ++ "/sources/" ++ id, key := some s.apiKey
      accept := some "application/json", body := .empty }
  | .submit edit, r => r =
    { method := .post, url := s.editUrl ++ "/render", key := some s.apiKey
      accept := some "application/json", body := .json edit }
  | .renderState id, r => r =
    { method := .get, url := s.editUrl ++ "/render/" ++ id, key := some s.apiKey
      accept := some "application/json", body := .empty }
  | .download url _, r => r =
    { method := .get, url := url, key := none, accept := none, body := .empty }

theorem makes_perform (h : ∀ url path, call ≠ .download url path) :
    Makes (IsRequestOf c.settings call) (c.perform call) := by
  cases call with
  | reserveUpload =>
    exact makes_bind (makes_askOnce rfl) fun _ => makes_bind (makes_orStop _) fun _ => makes_ret _
  | sendFile target path =>
    refine makes_bind (makes_of_kept fun _ => rfl) fun here => ?_
    refine makes_bind (makes_orStop _) fun _ => ?_
    exact makes_bind (makes_askOnce ⟨_, rfl⟩) fun _ => makes_ret _
  | sourceState id =>
    refine makes_bind (makes_askAgain rfl) fun _ => makes_bind (makes_orStop _) fun r => ?_
    cases r.attributes.state? with
    | some state => exact makes_ret state
    | none => exact makes_stop _
  | submit edit =>
    refine makes_bind (makes_askOnce rfl) fun _ => ?_
    exact makes_bind (makes_orStop _) fun _ => makes_orStop _
  | renderState id =>
    refine makes_bind (makes_askAgain rfl) fun _ => ?_
    exact makes_bind (makes_orStop _) fun _ => makes_orStop _
  | download url path => exact absurd rfl (h url path)

/-- A call makes its requests and no others. -/
theorem perform_notes (c : Client ν) (call : Call) (here : Online ν) :
    Notes (IsRequestOf c.settings call) here (c.service.answer call here).2 := by
  by_cases h : ∃ url path, call = .download url path
  · obtain ⟨url, path, rfl⟩ := h
    obtain ⟨attempts, hlog, hof⟩ := (makes_askAgain (c := c)
      (show IsRequestOf c.settings (.download url path) (toAddress .get url .empty) from rfl)
      here).1
    refine ⟨attempts, ?_, hof⟩
    show ((c.download url path).run.run here).2.attempts = _
    rw [run_download, ← hlog]
    rfl
  · exact (c.makes_perform (fun url path hd => h ⟨url, path, hd⟩) here).1

/-! ## Calls one after the other -/

/-- What has become of the surroundings after calls. -/
def session (c : Client ν) (calls : List Call) (here : Online ν) : Online ν :=
  calls.foldl (fun here call => (c.service.answer call here).2) here

theorem session_notes (c : Client ν) (calls : List Call) (here : Online ν) :
    Notes (fun r => ∃ call ∈ calls, IsRequestOf c.settings call r) here (c.session calls here) := by
  induction calls generalizing here with
  | nil => exact .rfl
  | cons call rest ih =>
    refine ((c.perform_notes call here).mono fun r hr => ⟨call, List.mem_cons_self, hr⟩).trans
      ((ih _).mono ?_)
    rintro r ⟨other, hother, hr⟩
    exact ⟨other, List.mem_cons_of_mem call hother, hr⟩

end

end Client

end VideoScript.Render
