import VideoScript.Proofs.Assembly.Contract

/-!
# The conversation with the render service

An `Exchange` is a call with its answer and the time of the answer, and `transcript` lists the
exchanges of a run: what the service answers to its calls, one after the other. A conversation about
some files goes from `Stage` to `Stage`:

* `Asks plan stage call`: the one call that may be made at a stage.
* `Leads plan stage x stage'`: where its answer leads. An error, a failed file or render and a
  time that is over lead to `stopped`; nothing may be asked there, and nothing once `finished`.
* `Conversation plan start xs stage`: the exchanges `xs` lead from `start` to `stage`.

`wholeCalls` are the calls of a conversation that is gone through to its end. The calls of any
conversation are the first ones of such a list (`Conversation.calls_prefix`).
-/

set_option autoImplicit false

namespace VideoScript.Assembly

open Render

/-! ## Exchanges -/

/-- A call with its answer. -/
structure Exchange where
  /-- When the answer was there. -/
  time : Nat
  call : Call
  answer : Except ServiceError call.Answer

section
variable {σ : Type} (service : Service σ)

/-- The state of a service after calls. -/
def stateAfter : σ → List (Nat × Call) → σ
  | s, [] => s
  | s, (_, call) :: rest => stateAfter (service.answer call s).2 rest

/-- The exchanges of calls to a service in a state. -/
def transcript : σ → List (Nat × Call) → List Exchange
  | _, [] => []
  | s, (time, call) :: rest =>
    ⟨time + service.duration call s, call, (service.answer call s).1⟩ ::
      transcript (service.answer call s).2 rest

theorem stateAfter_snoc (s : σ) (calls : List (Nat × Call)) (time : Nat) (call : Call) :
    stateAfter service s (calls ++ [(time, call)]) =
      (service.answer call (stateAfter service s calls)).2 := by
  induction calls generalizing s with
  | nil => rfl
  | cons c rest ih => exact ih _

theorem transcript_snoc (s : σ) (calls : List (Nat × Call)) (time : Nat) (call : Call) :
    transcript service s (calls ++ [(time, call)]) = transcript service s calls ++
      [⟨time + service.duration call (stateAfter service s calls), call,
        (service.answer call (stateAfter service s calls)).1⟩] := by
  induction calls generalizing s with
  | nil => rfl
  | cons c rest ih => exact congrArg (_ :: ·) (ih _)

theorem transcript_calls (s : σ) (calls : List (Nat × Call)) :
    (transcript service s calls).map (·.call) = calls.map (·.2) := by
  induction calls generalizing s with
  | nil => rfl
  | cons c rest ih => exact congrArg (_ :: ·) (ih _)

end

/-! ## Stages -/

/-- What a conversation goes by. -/
structure Plan where
  /-- Where the file of a media path is. -/
  place? : String → Option String
  /-- The edit with uploaded files. -/
  edit : List Upload → Except MissingPart Json
  /-- Where the video goes. -/
  destination : String
  sourceTimeout : Nat
  renderTimeout : Nat

/-- Where a conversation stands. -/
inductive Stage where
  /-- The files `done` are ready, and those of `left` are still to come. -/
  | between (done : List Upload) (left : List String)
  /-- There is room for a file. -/
  | reserved (done : List Upload) (raw path : String) (slot : UploadSlot) (left : List String)
  /-- A file was sent at the time `since`. -/
  | settling (done : List Upload) (raw path id : String) (left : List String) (since : Nat)
  /-- The edit was submitted at the time `since`. -/
  | rendering (id : String) (since : Nat)
  /-- The video is done and can be had at an address. -/
  | saving (url : String)
  | finished
  | stopped

/-- The call that may be made at a stage. -/
inductive Asks (plan : Plan) : Stage → Call → Prop
  | reserve {done raw path left} (h : plan.place? raw = some path) :
      Asks plan (.between done (raw :: left)) .reserveUpload
  | send {done raw path slot left} :
      Asks plan (.reserved done raw path slot left) (.sendFile slot path)
  | source {done raw path id left since} :
      Asks plan (.settling done raw path id left since) (.sourceState id)
  | submit {done edit} (h : plan.edit done = .ok edit) :
      Asks plan (.between done []) (.submit edit)
  | render {id since} : Asks plan (.rendering id since) (.renderState id)
  | save {url} : Asks plan (.saving url) (.download url plan.destination)

/-- The stage to which an answer leads. -/
inductive Leads (plan : Plan) : Stage → Exchange → Stage → Prop
  | refused {stage time call e} : Leads plan stage ⟨time, call, .error e⟩ .stopped
  | reserved {done raw path left time} {slot : UploadSlot} (h : plan.place? raw = some path) :
      Leads plan (.between done (raw :: left)) ⟨time, .reserveUpload, .ok slot⟩
        (.reserved done raw path slot left)
  | sent {done raw path slot left time} :
      Leads plan (.reserved done raw path slot left) ⟨time, .sendFile slot path, .ok ()⟩
        (.settling done raw path slot.id left time)
  | ready {done raw path id left since time url} :
      Leads plan (.settling done raw path id left since) ⟨time, .sourceState id, .ok (.ready url)⟩
        (.between (done ++ [⟨raw, path, url⟩]) left)
  | sourceFailed {done raw path id left since time} :
      Leads plan (.settling done raw path id left since) ⟨time, .sourceState id, .ok .failed⟩
        .stopped
  | sourcePending {done raw path id left since time word}
      (h : time < since + plan.sourceTimeout) :
      Leads plan (.settling done raw path id left since)
        ⟨time, .sourceState id, .ok (.pending word)⟩ (.settling done raw path id left since)
  | sourceLate {done raw path id left since time word} (h : since + plan.sourceTimeout ≤ time) :
      Leads plan (.settling done raw path id left since)
        ⟨time, .sourceState id, .ok (.pending word)⟩ .stopped
  | submitted {done edit time} {id : String} :
      Leads plan (.between done []) ⟨time, .submit edit, .ok id⟩ (.rendering id time)
  | done {id since time url} {status : Status} (h : status.state = .done)
      (hu : status.url = some url) (hne : url ≠ "") :
      Leads plan (.rendering id since) ⟨time, .renderState id, .ok status⟩ (.saving url)
  | noVideo {id since time} {status : Status} (h : status.state = .done)
      (hu : ∀ url, status.url = some url → url = "") :
      Leads plan (.rendering id since) ⟨time, .renderState id, .ok status⟩ .stopped
  | renderFailed {id since time} {status : Status} (h : status.state = .failed) :
      Leads plan (.rendering id since) ⟨time, .renderState id, .ok status⟩ .stopped
  | renderPending {id since time} {status : Status} (h : status.state.isFinal = false)
      (ht : time < since + plan.renderTimeout) :
      Leads plan (.rendering id since) ⟨time, .renderState id, .ok status⟩ (.rendering id since)
  | renderLate {id since time} {status : Status} (h : status.state.isFinal = false)
      (ht : since + plan.renderTimeout ≤ time) :
      Leads plan (.rendering id since) ⟨time, .renderState id, .ok status⟩ .stopped
  | saved {url path time} {bytes : Nat} :
      Leads plan (.saving url) ⟨time, .download url path, .ok bytes⟩ .finished

/-- The exchanges lead from a stage to another. -/
inductive Conversation (plan : Plan) (start : Stage) : List Exchange → Stage → Prop
  | nil : Conversation plan start [] start
  | snoc {xs stage x stage'} (h : Conversation plan start xs stage)
      (ha : Asks plan stage x.call) (hl : Leads plan stage x stage') :
      Conversation plan start (xs ++ [x]) stage'

/-- Why a conversation ends at a stage with an error. -/
inductive Halts (plan : Plan) : Stage → AssemblyError → Prop
  | refused {e} : Halts plan .stopped (.service e)
  | sourceFailed {id path} : Halts plan .stopped (.sourceFailed id path)
  | sourceLate {id waited} : Halts plan .stopped (.sourceLate id waited)
  | renderFailed {id reason} : Halts plan .stopped (.renderFailed id reason)
  | renderLate {id waited} : Halts plan .stopped (.renderLate id waited)
  | noVideo {id} : Halts plan .stopped (.noVideo id)
  | noFile {done raw left looked} (h : plan.place? raw = none) :
      Halts plan (.between done (raw :: left)) (.missingMedia raw looked)
  | noEdit {done part} (h : plan.edit done = .error part) :
      Halts plan (.between done []) (.invalidScript (.missing part))

theorem Halts.not_finished {plan : Plan} {e : AssemblyError} : ¬ Halts plan .finished e := by
  intro h
  cases h

/-! ## The calls of a whole conversation -/

/-- A file on its way: where the service took it, and how often it was asked about it after the
first time. -/
structure Delivery where
  raw : String
  path : String
  slot : UploadSlot
  moreLooks : Nat

/-- The calls for a file. -/
def Delivery.calls (d : Delivery) : List Call :=
  [.reserveUpload, .sendFile d.slot d.path] ++
    List.replicate (d.moreLooks + 1) (.sourceState d.slot.id)

/-- The calls of a conversation that is gone through to its end. -/
def wholeCalls (files : List Delivery) (edit : Json) (id : String) (moreLooks : Nat)
    (url path : String) : List Call :=
  files.flatMap Delivery.calls ++
    ([.submit edit] ++ (List.replicate (moreLooks + 1) (.renderState id) ++ [.download url path]))

/-- The files that were delivered are those of `done`, each from its place. -/
def Delivered (plan : Plan) (files : List Delivery) (done : List Upload) : Prop :=
  files.map (fun d => (d.raw, d.path)) = done.map (fun u => (u.raw, u.path)) ∧
    ∀ u ∈ done, plan.place? u.raw = some u.path

/-- The calls that lead to a stage, when the files of `raws` are to be uploaded. -/
def SoFar (plan : Plan) (raws : List String) (calls : List Call) : Stage → Prop
  | .between done left => ∃ files, Delivered plan files done ∧ done.map (·.raw) ++ left = raws ∧
      calls = files.flatMap Delivery.calls
  | .reserved done raw path _ left => ∃ files, Delivered plan files done ∧
      done.map (·.raw) ++ raw :: left = raws ∧ plan.place? raw = some path ∧
      calls = files.flatMap Delivery.calls ++ [.reserveUpload]
  | .settling done raw path id left _ => ∃ files slot looks, Delivered plan files done ∧
      done.map (·.raw) ++ raw :: left = raws ∧ plan.place? raw = some path ∧ slot.id = id ∧
      calls = files.flatMap Delivery.calls ++
        ([.reserveUpload, .sendFile slot path] ++ List.replicate looks (.sourceState id))
  | .rendering id _ => ∃ files done edit looks, Delivered plan files done ∧
      done.map (·.raw) = raws ∧ plan.edit done = .ok edit ∧
      calls = files.flatMap Delivery.calls ++
        ([.submit edit] ++ List.replicate looks (.renderState id))
  | .saving url => ∃ files done edit id looks, Delivered plan files done ∧
      done.map (·.raw) = raws ∧ plan.edit done = .ok edit ∧
      ∀ path, calls ++ [.download url path] = wholeCalls files edit id looks url path
  | .finished => ∃ files done edit id looks url, Delivered plan files done ∧
      done.map (·.raw) = raws ∧ plan.edit done = .ok edit ∧
      calls = wholeCalls files edit id looks url plan.destination
  | .stopped => True

/-- The calls of a whole conversation about the files of `raws`: each file comes from its place. -/
def IsWord (plan : Plan) (raws : List String) (word : List Call) : Prop :=
  ∃ files edit id looks url, files.map Delivery.raw = raws ∧
    (∀ d ∈ files, ∀ path, plan.place? d.raw = some path → d.path = path) ∧
    word = wholeCalls files edit id looks url plan.destination

/-- One more look goes on the ones before it. -/
theorem snoc_looks {α : Type} (before first : List α) (looks : Nat) (look : α) :
    before ++ (first ++ List.replicate looks look) ++ [look] =
      before ++ (first ++ List.replicate (looks + 1) look) := by
  rw [List.append_assoc, List.append_assoc, ← List.replicate_succ']

theorem Delivered.raws {plan : Plan} {files : List Delivery} {done : List Upload}
    (h : Delivered plan files done) : files.map (·.raw) = done.map (·.raw) := by
  have := congrArg (List.map Prod.fst) h.1
  rwa [List.map_map, List.map_map] at this

theorem Delivered.places {plan : Plan} {files : List Delivery} {done : List Upload}
    (h : Delivered plan files done) :
    ∀ d ∈ files, ∀ path, plan.place? d.raw = some path → d.path = path := by
  intro d hd path hp
  have hm : (d.raw, d.path) ∈ done.map (fun u => (u.raw, u.path)) :=
    h.1 ▸ List.mem_map_of_mem hd
  obtain ⟨u, hu, he⟩ := List.mem_map.1 hm
  obtain ⟨hr, hpath⟩ := Prod.mk.inj he
  have := h.2 u hu
  rw [hr, hp, hpath] at this
  exact (Option.some.inj this).symm

theorem Delivered.snoc {plan : Plan} {files : List Delivery} {done : List Upload}
    (h : Delivered plan files done) (d : Delivery) (url : String)
    (hp : plan.place? d.raw = some d.path) :
    Delivered plan (files ++ [d]) (done ++ [⟨d.raw, d.path, url⟩]) := by
  refine ⟨by simp [h.1], fun u hu => ?_⟩
  rcases List.mem_append.1 hu with hu | hu
  · exact h.2 u hu
  · rw [List.mem_singleton.1 hu]
    exact hp

/-- Files that are still to come can be delivered somehow. -/
theorem exists_word_of_left {plan : Plan} {raws : List String} (files : List Delivery)
    (left : List String) (hr : files.map (·.raw) ++ left = raws)
    (hp : ∀ d ∈ files, ∀ path, plan.place? d.raw = some path → d.path = path) :
    ∃ word, IsWord plan raws word ∧ files.flatMap Delivery.calls <+: word := by
  -- what the service would say is open, so any slots, looks and addresses do
  let later : List Delivery := left.map fun raw => ⟨raw, (plan.place? raw).getD "", ⟨"", ""⟩, 0⟩
  refine ⟨wholeCalls (files ++ later) .null "" 0 "" plan.destination,
    ⟨files ++ later, .null, "", 0, "", ?_, fun d hd path hpath => ?_, rfl⟩, ?_⟩
  · simpa [later, Function.comp_def] using hr
  · rcases List.mem_append.1 hd with hd | hd
    · exact hp d hd path hpath
    · obtain ⟨raw, -, rfl⟩ := List.mem_map.1 hd
      dsimp only at hpath ⊢
      rw [hpath, Option.getD_some]
  · rw [wholeCalls, List.flatMap_append, List.append_assoc]
    exact List.prefix_append _ _

theorem exists_word_of_delivered {plan : Plan} {raws left : List String}
    {files : List Delivery} {done : List Upload} (h : Delivered plan files done) (d : Delivery)
    (hp : plan.place? d.raw = some d.path) (hr : done.map (·.raw) ++ d.raw :: left = raws) :
    ∃ word, IsWord plan raws word ∧ files.flatMap Delivery.calls ++ d.calls <+: word := by
  have h' := h.snoc d "" hp
  have := @exists_word_of_left plan raws (files ++ [d]) left (by rw [h'.raws, ← hr]; simp) h'.places
  simpa using this

/-- What may be asked at a stage goes on a whole conversation. -/
theorem SoFar.exists_word {plan : Plan} {raws : List String} {calls : List Call} {stage : Stage}
    {call : Call} (h : SoFar plan raws calls stage) (ha : Asks plan stage call) :
    ∃ word, IsWord plan raws word ∧ calls ++ [call] <+: word := by
  cases ha with
  | @reserve done raw path left hp =>
    obtain ⟨files, hd, hr, rfl⟩ := h
    obtain ⟨word, hw, hpre⟩ := exists_word_of_delivered hd ⟨raw, path, ⟨"", ""⟩, 0⟩ hp hr
    exact ⟨word, hw, (List.prefix_append_right_inj _).2 ⟨_, rfl⟩ |>.trans hpre⟩
  | @send done raw path slot left =>
    obtain ⟨files, hd, hr, hp, rfl⟩ := h
    obtain ⟨word, hw, hpre⟩ := exists_word_of_delivered hd ⟨raw, path, slot, 0⟩ hp hr
    refine ⟨word, hw, ?_⟩
    rw [List.append_assoc]
    exact (List.prefix_append_right_inj _).2 ⟨_, rfl⟩ |>.trans hpre
  | @source done raw path id left since =>
    obtain ⟨files, slot, looks, hd, hr, hp, rfl, rfl⟩ := h
    obtain ⟨word, hw, hpre⟩ := exists_word_of_delivered hd ⟨raw, path, slot, looks⟩ hp hr
    refine ⟨word, hw, ?_⟩
    rw [snoc_looks]
    exact hpre
  | @submit done edit he =>
    obtain ⟨files, hd, hr, rfl⟩ := h
    refine ⟨_, ⟨files, edit, "", 0, "", ?_, hd.places, rfl⟩, ?_⟩
    · rw [hd.raws, ← hr, List.append_nil]
    · exact (List.prefix_append_right_inj _).2 ⟨_, rfl⟩
  | @render id since =>
    obtain ⟨files, done, edit, looks, hd, hr, -, rfl⟩ := h
    refine ⟨_, ⟨files, edit, id, looks, "", by rw [hd.raws, hr], hd.places, rfl⟩, ?_⟩
    rw [snoc_looks, wholeCalls]
    exact (List.prefix_append_right_inj _).2 ((List.prefix_append_right_inj _).2 ⟨_, rfl⟩)
  | @save url =>
    obtain ⟨files, done, edit, id, looks, hd, hr, -, hc⟩ := h
    exact ⟨_, ⟨files, edit, id, looks, url, by rw [hd.raws, hr], hd.places, rfl⟩,
      hc plan.destination ▸ List.prefix_refl _⟩

/-- One exchange goes on the calls so far. -/
theorem SoFar.leads {plan : Plan} {raws : List String} {calls : List Call} {stage stage' : Stage}
    {x : Exchange} (h : SoFar plan raws calls stage) (ha : Asks plan stage x.call)
    (hl : Leads plan stage x stage') : SoFar plan raws (calls ++ [x.call]) stage' := by
  cases hl with
  | refused | sourceFailed | sourceLate | noVideo | renderFailed | renderLate => trivial
  | reserved hp =>
    obtain ⟨files, hd, hr, rfl⟩ := h
    exact ⟨files, hd, hr, hp, rfl⟩
  | sent =>
    obtain ⟨files, hd, hr, hp, rfl⟩ := h
    exact ⟨files, _, 0, hd, hr, hp, rfl, by simp⟩
  | @ready done raw path id left since time url =>
    obtain ⟨files, slot, looks, hd, hr, hp, rfl, rfl⟩ := h
    refine ⟨files ++ [⟨raw, path, slot, looks⟩], hd.snoc ⟨raw, path, slot, looks⟩ url hp, ?_, ?_⟩
    · rw [← hr]; simp
    · rw [snoc_looks]
      simp [Delivery.calls]
  | sourcePending =>
    obtain ⟨files, slot, looks, hd, hr, hp, rfl, rfl⟩ := h
    refine ⟨files, slot, looks + 1, hd, hr, hp, rfl, ?_⟩
    rw [snoc_looks]
  | @submitted done edit time id =>
    obtain ⟨files, hd, hr, rfl⟩ := h
    cases ha with
    | submit he => exact ⟨files, done, edit, 0, hd, by simpa using hr, he, rfl⟩
  | @done id =>
    obtain ⟨files, done, edit, looks, hd, hr, he, rfl⟩ := h
    refine ⟨files, done, edit, id, looks, hd, hr, he, fun path => ?_⟩
    rw [snoc_looks, List.append_assoc, List.append_assoc, wholeCalls]
  | renderPending =>
    obtain ⟨files, done, edit, looks, hd, hr, he, rfl⟩ := h
    refine ⟨files, done, edit, looks + 1, hd, hr, he, ?_⟩
    rw [snoc_looks]
  | saved =>
    obtain ⟨files, done, edit, id, looks, hd, hr, he, hc⟩ := h
    cases ha with
    | save => exact ⟨files, done, edit, id, looks, _, hd, hr, he, hc _⟩

namespace Conversation

variable {plan : Plan} {raws : List String} {xs : List Exchange} {stage : Stage}

theorem soFar (h : Conversation plan (.between [] raws) xs stage) :
    SoFar plan raws (xs.map (·.call)) stage := by
  induction h with
  | nil => exact ⟨[], ⟨rfl, by simp⟩, rfl, rfl⟩
  | snoc _ ha hl ih =>
    rw [List.map_append]
    exact ih.leads ha hl

/-- The calls of a conversation are the first ones of a whole conversation. -/
theorem calls_prefix (h : Conversation plan (.between [] raws) xs stage) :
    ∃ word, IsWord plan raws word ∧ xs.map (·.call) <+: word ∧
      (stage = .finished → xs.map (·.call) = word) := by
  cases h with
  | nil =>
    obtain ⟨word, hw, -⟩ := @exists_word_of_left plan raws [] raws rfl (by simp)
    exact ⟨word, hw, List.nil_prefix, fun h => by cases h⟩
  | snoc h ha hl =>
    -- before the last call the calls go on to a whole conversation with it, wherever it leads
    have hs := h.soFar
    rw [List.map_append, List.map_singleton]
    by_cases hf : stage = .finished
    · subst hf
      obtain ⟨files, done, edit, id, looks, url, hd, hr, -, hc⟩ := hs.leads ha hl
      exact ⟨_, ⟨files, edit, id, looks, url, by rw [hd.raws, hr], hd.places, rfl⟩,
        hc ▸ List.prefix_refl _, fun _ => hc⟩
    · obtain ⟨word, hw, hpre⟩ := hs.exists_word ha
      exact ⟨word, hw, hpre, fun h => absurd h hf⟩

end Conversation

end VideoScript.Assembly
