import VideoScript.Proofs.Assembly.Log
import VideoScript.Proofs.Assembly.Submission

/-!
# What an assembly tells

The events of a run are the first ones of a whole `Story`: each upload when it begins and when its
file is ready, the name of the render, its states without those that repeat the one before, and the
video when its download begins and when it is saved. How far the story goes is settled by the
exchanges (`tellsSoFar`, by induction on the conversation): up to the first call that fails, or to
its end. And no event comes after a call that failed (`pairwise_log`).
-/

set_option autoImplicit false

namespace VideoScript.Assembly

open Render

/-! ## Stories -/

/-- The events about files that are ready; `i` is the number of the first. -/
def uploadEvents (total : Nat) : (i : Nat) → List Upload → List Event
  | _, [] => []
  | i, u :: rest =>
    .uploading i total u.path :: .uploaded u.path u.url :: uploadEvents total (i + 1) rest

/-- The events about a render that has been in states. -/
def renderEvents (id : String) (states : List State) : List Event :=
  .submitted id :: (states.destutter (· ≠ ·)).map (.status id)

/-- What becomes of an assembly that is gone through to its end. -/
structure Story where
  uploads : List Upload
  render : String
  /-- The states of the render that were answered. -/
  states : List State
  url : String
  path : String
  bytes : Nat

namespace Story

/-- The events of a story but for the last one. -/
def beginning (story : Story) (total : Nat) : List Event :=
  uploadEvents total 1 story.uploads ++
    (renderEvents story.render story.states ++ [.downloading story.url])

/-- The events of a story. -/
def events (story : Story) (total : Nat) : List Event :=
  story.beginning total ++ [.finished story.path story.bytes]

/-- A story is one about the files of `raws`, with the states that were answered. -/
structure Fits (plan : Plan) (raws : List String) (xs : List Exchange) (story : Story) : Prop where
  files : story.uploads.map (·.raw) = raws
  places : ∀ u ∈ story.uploads, ∀ path, plan.place? u.raw = some path → u.path = path
  states : story.states = renderStates xs
  path : story.path = plan.destination

end Story

theorem uploadEvents_append (total i : Nat) (us vs : List Upload) :
    uploadEvents total i (us ++ vs) =
      uploadEvents total i us ++ uploadEvents total (i + us.length) vs := by
  induction us generalizing i with
  | nil => rfl
  | cons u us ih =>
    rw [List.cons_append, uploadEvents, uploadEvents, ih, List.length_cons]
    rw [show i + 1 + us.length = i + (us.length + 1) by omega]
    rfl

theorem not_finished_mem_beginning {story : Story} {total : Nat} {path : String} {bytes : Nat} :
    .finished path bytes ∉ story.beginning total := by
  have huploads : ∀ i us, .finished path bytes ∉ uploadEvents total i us := by
    intro i us
    induction us generalizing i with
    | nil => simp [uploadEvents]
    | cons u us ih => simp [uploadEvents, ih]
  simp [Story.beginning, renderEvents, huploads]

/-! ## How far a story goes -/

section
variable (plan : Plan) (raws : List String) (xs : List Exchange)

/-- Files are where the plan says. -/
def Placed (done : List Upload) : Prop := ∀ u ∈ done, plan.place? u.raw = some u.path

/-- The files `done` are ready, and all of that has been told. -/
structure Between (done : List Upload) (left : List String) : Prop where
  placed : Placed plan done
  files : done.map (·.raw) ++ left = raws
  begun : begun xs = done.length
  states : renderStates xs = []
  tells : tellings plan raws xs = uploadEvents raws.length 1 done

/-- The upload of a file has begun after the files `done` were ready. -/
structure Begun (done : List Upload) (raw path : String) (left : List String) : Prop where
  placed : Placed plan done
  files : done.map (·.raw) ++ raw :: left = raws
  place : plan.place? raw = some path
  begun : begun xs = done.length + 1
  states : renderStates xs = []
  tells : tellings plan raws xs =
    uploadEvents raws.length 1 done ++ [.uploading (done.length + 1) raws.length path]

/-- All files are ready and a render is under way. -/
structure Rendering (done : List Upload) (id : String) : Prop where
  placed : Placed plan done
  files : done.map (·.raw) = raws
  tells : tellings plan raws xs =
    uploadEvents raws.length 1 done ++ renderEvents id (renderStates xs)

/-- The story was cut short. -/
def CutShort : Prop :=
  ∃ story : Story, story.Fits plan raws xs ∧ tellings plan raws xs <+: story.beginning raws.length

/-- What has been told at a stage. -/
def TellsSoFar : Stage → Prop
  | .between done left => Between plan raws xs done left
  | .reserved done raw path _ left => Begun plan raws xs done raw path left
  | .settling done raw path _ left _ => Begun plan raws xs done raw path left
  | .rendering id _ => ∃ done, Rendering plan raws xs done id
  | .saving _ => ∃ done id, Rendering plan raws xs done id
  | .finished => ∃ story : Story, story.Fits plan raws xs ∧
      tellings plan raws xs = story.events raws.length
  | .stopped => CutShort plan raws xs

end

section
variable {plan : Plan} {raws : List String} {xs : List Exchange}

theorem Placed.path_eq {done : List Upload} (h : Placed plan done) :
    ∀ u ∈ done, ∀ path, plan.place? u.raw = some path → u.path = path := by
  intro u hu path hp
  rw [h u hu] at hp
  exact Option.some.inj hp

/-- Files that are still to come go on a story. -/
theorem exists_uploads (plan : Plan) (left : List String) : ∃ us : List Upload,
    us.map (·.raw) = left ∧ ∀ u ∈ us, ∀ path, plan.place? u.raw = some path → u.path = path := by
  refine ⟨left.map fun raw => ⟨raw, (plan.place? raw).getD "", ""⟩, ?_, fun u hu path hp => ?_⟩
  · simp [Function.comp_def]
  · obtain ⟨raw, -, rfl⟩ := List.mem_map.1 hu
    dsimp only at hp ⊢
    rw [hp, Option.getD_some]

theorem Between.cutShort {done : List Upload} {left : List String}
    (h : Between plan raws xs done left) : CutShort plan raws xs := by
  obtain ⟨us, hus, hplaces⟩ := exists_uploads plan left
  refine ⟨⟨done ++ us, "", [], "", plan.destination, 0⟩, ⟨?_, ?_, h.states.symm, rfl⟩, ?_⟩
  · rw [List.map_append, hus, h.files]
  · intro u hu
    rcases List.mem_append.1 hu with hu | hu
    · exact h.placed.path_eq u hu
    · exact hplaces u hu
  · rw [h.tells, Story.beginning, uploadEvents_append, List.append_assoc]
    exact List.prefix_append _ _

theorem Begun.cutShort {done : List Upload} {raw path : String} {left : List String}
    (h : Begun plan raws xs done raw path left) : CutShort plan raws xs := by
  obtain ⟨us, hus, hplaces⟩ := exists_uploads plan left
  refine ⟨⟨done ++ ⟨raw, path, ""⟩ :: us, "", [], "", plan.destination, 0⟩,
    ⟨?_, ?_, h.states.symm, rfl⟩, ?_⟩
  · rw [List.map_append, List.map_cons, hus, h.files]
  · intro u hu
    rcases List.mem_append.1 hu with hu | hu
    · exact h.placed.path_eq u hu
    · rcases List.mem_cons.1 hu with rfl | hu
      · intro path' hp
        rw [h.place] at hp
        exact Option.some.inj hp
      · exact hplaces u hu
  · rw [h.tells, Story.beginning, uploadEvents_append, List.append_assoc, uploadEvents,
      Nat.add_comm 1]
    exact (List.prefix_append_right_inj _).2 ⟨_, rfl⟩

theorem Rendering.cutShort {done : List Upload} {id : String} (h : Rendering plan raws xs done id) :
    CutShort plan raws xs := by
  refine ⟨⟨done, id, renderStates xs, "", plan.destination, 0⟩,
    ⟨h.files, h.placed.path_eq, rfl, rfl⟩, ?_⟩
  rw [h.tells, Story.beginning]
  exact (List.prefix_append_right_inj _).2 (List.prefix_append _ _)

/-! ## One exchange -/

/-- The file after those that are ready is the one whose number is theirs. -/
theorem pathAt_length {done : List Upload} {raw path : String} {left : List String}
    (hr : done.map (·.raw) ++ raw :: left = raws) (hp : plan.place? raw = some path) :
    pathAt plan raws done.length = path := by
  have hraw : raws[done.length]? = some raw := by
    rw [← hr, List.getElem?_append_right (by simp)]
    simp
  rw [pathAt, hraw, Option.bind_some, hp, Option.getD_some]

theorem Between.reserve {done : List Upload} {raw path : String} {left : List String}
    (h : Between plan raws xs done (raw :: left)) (hp : plan.place? raw = some path) (time : Nat)
    (answer : Except ServiceError UploadSlot) :
    Begun plan raws (xs ++ [⟨time, .reserveUpload, answer⟩]) done raw path left := by
  refine ⟨h.placed, h.files, hp, ?_, ?_, ?_⟩
  · rw [begun_snoc, h.begun]
    rfl
  · rw [renderStates_snoc, h.states]
    rfl
  · rw [tellings_snoc, h.tells, eventsBefore, h.begun, pathAt_length h.files hp]
    rfl

/-- An exchange to which no event belongs; it begins no upload and gives no state of a render. -/
structure Quiet (plan : Plan) (raws : List String) (xs : List Exchange) (x : Exchange) : Prop where
  before : eventsBefore plan raws xs x.call = []
  after : eventsAfter plan raws xs x = []
  begun : begun [x] = 0
  states : renderStates [x] = []

theorem Quiet.tellings_eq {x : Exchange} (h : Quiet plan raws xs x) :
    tellings plan raws (xs ++ [x]) = tellings plan raws xs := by
  rw [tellings_snoc, h.before, h.after, List.append_nil, List.append_nil]

theorem Quiet.renderStates_eq {x : Exchange} (h : Quiet plan raws xs x) :
    renderStates (xs ++ [x]) = renderStates xs := by
  rw [renderStates_snoc, h.states, List.append_nil]

theorem CutShort.quiet {x : Exchange} (h : CutShort plan raws xs) (hx : Quiet plan raws xs x) :
    CutShort plan raws (xs ++ [x]) := by
  obtain ⟨story, hfits, hpre⟩ := h
  refine ⟨story, ⟨hfits.files, hfits.places, ?_, hfits.path⟩, ?_⟩
  · rw [hx.renderStates_eq, hfits.states]
  · rwa [hx.tellings_eq]

theorem Begun.quiet {done : List Upload} {raw path : String} {left : List String} {x : Exchange}
    (h : Begun plan raws xs done raw path left) (hx : Quiet plan raws xs x) :
    Begun plan raws (xs ++ [x]) done raw path left where
  placed := h.placed
  files := h.files
  place := h.place
  begun := by rw [begun_snoc, h.begun, hx.begun]
  states := by rw [hx.renderStates_eq, h.states]
  tells := by rw [hx.tellings_eq, h.tells]

theorem Begun.ready {done : List Upload} {raw path : String} {left : List String}
    (h : Begun plan raws xs done raw path left) (time : Nat) (id url : String) :
    Between plan raws (xs ++ [⟨time, .sourceState id, .ok (.ready url)⟩])
      (done ++ [⟨raw, path, url⟩]) left := by
  refine ⟨?_, ?_, ?_, ?_, ?_⟩
  · intro u hu
    rcases List.mem_append.1 hu with hu | hu
    · exact h.placed u hu
    · rw [List.mem_singleton.1 hu]
      exact h.place
  · rw [← h.files]
    simp
  · rw [begun_snoc, h.begun, List.length_append]
    rfl
  · rw [renderStates_snoc, h.states]
    rfl
  · rw [tellings_snoc, h.tells, eventsAfter, h.begun, Nat.add_sub_cancel,
      pathAt_length h.files h.place, uploadEvents_append, List.append_assoc, Nat.add_comm 1]
    rfl

theorem Between.submitted {done : List Upload} (h : Between plan raws xs done []) (time : Nat)
    (edit : Json) (id : String) :
    Rendering plan raws (xs ++ [⟨time, .submit edit, .ok id⟩]) done id := by
  refine ⟨h.placed, ?_, ?_⟩
  · rw [← h.files, List.append_nil]
  · rw [tellings_snoc, h.tells, renderStates_snoc, h.states]
    rfl

theorem Rendering.answered {done : List Upload} {id : String}
    (h : Rendering plan raws xs done id) (time : Nat) (status : Status) :
    Rendering plan raws (xs ++ [⟨time, .renderState id, .ok status⟩]) done id := by
  refine ⟨h.placed, h.files, ?_⟩
  have hstates : renderStates (xs ++ [⟨time, .renderState id, .ok status⟩]) =
      renderStates xs ++ [status.state] := renderStates_snoc ..
  rw [tellings_snoc, h.tells, hstates, renderEvents, renderEvents, destutter_snoc, List.map_append,
    List.append_assoc, List.cons_append]
  by_cases hlast : (renderStates xs).getLast? = some status.state <;>
    simp [eventsBefore, eventsAfter, hlast]

theorem Rendering.saved {done : List Upload} {id : String}
    (h : Rendering plan raws xs done id) (time : Nat) (url : String) (bytes : Nat) :
    let xs' := xs ++ [⟨time, .download url plan.destination, .ok bytes⟩]
    ∃ story : Story, story.Fits plan raws xs' ∧
      tellings plan raws xs' = story.events raws.length := by
  refine ⟨⟨done, id, renderStates xs, url, plan.destination, bytes⟩,
    ⟨h.files, h.placed.path_eq, ?_, rfl⟩, ?_⟩
  · exact ((renderStates_snoc ..).trans (List.append_nil _)).symm
  · rw [tellings_snoc, h.tells, Story.events, Story.beginning]
    simp [eventsBefore, eventsAfter]

/-- Where the download fails, its beginning has been told. -/
theorem Rendering.notSaved {done : List Upload} {id : String}
    (h : Rendering plan raws xs done id) (time : Nat) (url : String) (e : ServiceError) :
    CutShort plan raws (xs ++ [⟨time, .download url plan.destination, .error e⟩]) := by
  refine ⟨⟨done, id, renderStates xs, url, plan.destination, 0⟩,
    ⟨h.files, h.placed.path_eq, ?_, rfl⟩, ?_⟩
  · exact ((renderStates_snoc ..).trans (List.append_nil _)).symm
  · rw [tellings_snoc, h.tells, Story.beginning, List.append_assoc]
    exact List.prefix_refl _

/-- One exchange goes on what has been told so far. -/
theorem TellsSoFar.leads {stage stage' : Stage} {x : Exchange} (h : TellsSoFar plan raws xs stage)
    (ha : Asks plan stage x.call) (hl : Leads plan stage x stage') :
    TellsSoFar plan raws (xs ++ [x]) stage' := by
  cases hl with
  | @refused stage time call e =>
    cases ha with
    | reserve hp => exact (Between.reserve h hp time (.error e)).cutShort
    | send => exact (Begun.cutShort h).quiet ⟨rfl, rfl, rfl, rfl⟩
    | source => exact (Begun.cutShort h).quiet ⟨rfl, rfl, rfl, rfl⟩
    | submit he => exact (Between.cutShort h).quiet ⟨rfl, rfl, rfl, rfl⟩
    | render =>
      obtain ⟨done, hr⟩ := h
      exact hr.cutShort.quiet ⟨rfl, rfl, rfl, rfl⟩
    | save =>
      obtain ⟨done, id, hr⟩ := h
      exact hr.notSaved time _ e
  | @reserved done raw path left time slot hp => exact Between.reserve h hp time _
  | sent => exact Begun.quiet h ⟨rfl, rfl, rfl, rfl⟩
  | ready => exact Begun.ready h _ _ _
  | sourceFailed | sourceLate => exact (Begun.cutShort h).quiet ⟨rfl, rfl, rfl, rfl⟩
  | sourcePending => exact Begun.quiet h ⟨rfl, rfl, rfl, rfl⟩
  | submitted => exact ⟨_, Between.submitted h _ _ _⟩
  | done =>
    obtain ⟨done, hr⟩ := h
    exact ⟨done, _, hr.answered _ _⟩
  | noVideo | renderFailed | renderLate =>
    obtain ⟨done, hr⟩ := h
    exact (hr.answered _ _).cutShort
  | renderPending =>
    obtain ⟨done, hr⟩ := h
    exact ⟨done, hr.answered _ _⟩
  | saved =>
    cases ha with
    | save =>
      obtain ⟨done, id, hr⟩ := h
      exact hr.saved _ _ _

/-! ## Whole conversations -/

theorem tellsSoFar {stage : Stage} (h : Conversation plan (.between [] raws) xs stage) :
    TellsSoFar plan raws xs stage := by
  induction h with
  | nil => exact ⟨by simp [Placed], rfl, rfl, rfl, rfl⟩
  | snoc _ ha hl ih => exact ih.leads ha hl

theorem TellsSoFar.cutShort {stage : Stage} (h : TellsSoFar plan raws xs stage)
    (hne : stage ≠ .finished) : CutShort plan raws xs := by
  cases stage with
  | between done left => exact Between.cutShort h
  | reserved done raw path slot left => exact Begun.cutShort h
  | settling done raw path id left since => exact Begun.cutShort h
  | rendering id since =>
    obtain ⟨done, hr⟩ := h
    exact hr.cutShort
  | saving url =>
    obtain ⟨done, id, hr⟩ := h
    exact hr.cutShort
  | finished => exact absurd rfl hne
  | stopped => exact h

/-- The events that belong to a conversation are the first ones of a story, and all of them exactly
when it is finished; the last one comes in no other case. -/
theorem exists_story {stage : Stage} (h : Conversation plan (.between [] raws) xs stage) :
    ∃ story : Story, story.Fits plan raws xs ∧
      tellings plan raws xs <+: story.events raws.length ∧
      (stage = .finished ↔ tellings plan raws xs = story.events raws.length) ∧
      (stage = .finished ↔ ∃ path bytes, .finished path bytes ∈ tellings plan raws xs) := by
  by_cases hf : stage = .finished
  · subst hf
    obtain ⟨story, hfits, htells⟩ := tellsSoFar h
    refine ⟨story, hfits, htells ▸ List.prefix_refl _, iff_of_true rfl htells, iff_of_true rfl ?_⟩
    exact ⟨story.path, story.bytes, by simp [htells, Story.events]⟩
  · obtain ⟨story, hfits, hpre⟩ := (tellsSoFar h).cutShort hf
    have hno : ¬ ∃ path bytes, .finished path bytes ∈ tellings plan raws xs := by
      rintro ⟨path, bytes, hm⟩
      exact not_finished_mem_beginning (hpre.subset hm)
    refine ⟨story, hfits, hpre.trans (List.prefix_append _ _), iff_of_false hf fun he => ?_,
      iff_of_false hf hno⟩
    exact hno ⟨story.path, story.bytes, by simp [he, Story.events]⟩

/-! ## Calls that failed -/

/-- What comes after an exchange comes after a good answer. -/
def Follows (earlier _later : Moment) : Prop :=
  ∀ x, earlier = .exchanged x → x.answer.isOk = true

theorem isOk_of_conversation {start stage : Stage} (h : Conversation plan start xs stage)
    (hne : stage ≠ .stopped) : ∀ x ∈ xs, x.answer.isOk = true := by
  induction h with
  | nil => simp
  | @snoc xs stage x stage' _ ha hl ih =>
    have hasked : stage ≠ .stopped := by
      rintro rfl
      cases ha
    intro y hy
    rcases List.mem_append.1 hy with hy | hy
    · exact ih hasked y hy
    · rw [List.mem_singleton.1 hy]
      cases hl with
      | refused => exact absurd rfl hne
      | _ => rfl

theorem mem_of_exchanged_mem_log {before : List Exchange} {x : Exchange}
    (h : .exchanged x ∈ log plan raws before xs) : x ∈ xs := by
  induction xs generalizing before with
  | nil => cases h
  | cons y rest ih =>
    rw [log, List.mem_append, moments, List.mem_append, List.mem_cons] at h
    rcases h with (h | h | h) | h
    · simp at h
    · exact List.mem_cons.2 (.inl (Moment.exchanged.inj h))
    · simp at h
    · exact List.mem_cons_of_mem y (ih h)

theorem pairwise_moments (x : Exchange) : (moments plan raws xs x).Pairwise Follows := by
  rw [moments, List.pairwise_append, List.pairwise_cons]
  have htold : ∀ events : List Event, (events.map Moment.told).Pairwise Follows := by
    intro events
    rw [List.pairwise_map]
    exact List.pairwise_of_forall fun _ _ _ hx => by cases hx
  refine ⟨htold _, ⟨fun m hm y hy => ?_, htold _⟩, fun m hm _ _ y hy => ?_⟩
  · -- nothing comes after an error
    cases hy
    obtain ⟨time, call, answer⟩ := x
    cases answer with
    | ok v => rfl
    | error e =>
      rw [eventsAfter_error] at hm
      cases hm
  · obtain ⟨event, -, rfl⟩ := List.mem_map.1 hm
    cases hy

/-- No call is made and no event told after a call that failed. -/
theorem pairwise_log {start stage : Stage} (h : Conversation plan start xs stage) :
    (log plan raws [] xs).Pairwise Follows := by
  induction h with
  | nil => exact List.Pairwise.nil
  | @snoc xs stage x stage' h ha hl ih =>
    have hasked : stage ≠ .stopped := by
      rintro rfl
      cases ha
    rw [log_snoc, List.pairwise_append]
    refine ⟨ih, pairwise_moments x, fun m hm _ _ y hy => ?_⟩
    subst hy
    exact isOk_of_conversation h hasked y (mem_of_exchanged_mem_log hm)

/-! ## States -/

/-- The states that events tell. -/
def statesTold (events : List Event) : List State :=
  events.filterMap fun
    | .status _ state => some state
    | _ => none

theorem statesTold_tellings (plan : Plan) (raws : List String) (xs : List Exchange) :
    statesTold (tellings plan raws xs) = (renderStates xs).destutter (· ≠ ·) := by
  induction xs using List.reverseRecOn with
  | nil => rfl
  | append_singleton xs x ih =>
    have happend : statesTold (tellings plan raws (xs ++ [x])) =
        (renderStates xs).destutter (· ≠ ·) ++
          statesTold (eventsBefore plan raws xs x.call ++ eventsAfter plan raws xs x) := by
      rw [tellings_snoc, ← ih]
      exact List.filterMap_append
    rw [happend, renderStates_snoc]
    obtain ⟨time, call, answer⟩ := x
    cases call with
    | renderState id =>
      cases answer with
      | error e => simp [eventsBefore, eventsAfter, renderStates, statesTold]
      | ok status =>
        rw [show renderStates [⟨time, .renderState id, .ok status⟩] = [status.state] from rfl,
          destutter_snoc]
        by_cases hlast : (renderStates xs).getLast? = some status.state <;>
          simp [eventsBefore, eventsAfter, statesTold, hlast]
    | sourceState id =>
      rcases answer with e | url | - | word <;>
        simp [eventsBefore, eventsAfter, renderStates, statesTold]
    | reserveUpload | sendFile | submit | download =>
      cases answer <;> simp [eventsBefore, eventsAfter, renderStates, statesTold]

end

/-! ## The whole -/

section
variable {σ : Type}

theorem Opens.clears {a : Workshop σ} {order : Order} {opening : Event} {text : String}
    (h : Opens a order opening) (ht : a.here.disk.readText order.script = .ok text) :
    Clears a order text := by
  cases h with
  | skipped hs => exact .inl hs
  | validated hs ht' hc hp =>
    rw [ht] at ht'
    cases ht'
    exact .inr ⟨_, hc, hp⟩

theorem Opens.ne_finished {a : Workshop σ} {order : Order} {opening : Event} {path : String}
    {bytes : Nat} (h : Opens a order opening) : opening ≠ .finished path bytes := by
  cases h <;> nofun

theorem Opens.statesTold_cons {a : Workshop σ} {order : Order} {opening : Event}
    (h : Opens a order opening) (events : List Event) :
    statesTold (opening :: events) = statesTold events := by
  cases h <;> rfl

/-- **Events tell the run.** An assembly that goes ahead tells first that the script was checked or
that the check was skipped, and then the events that belong to its exchanges. They are the first
events of a whole story about the distinct media files of the document: for each file when its
upload begins and when the file is ready, then the render, its states without those that repeat the
one before, and the video when it is downloaded and when it is saved. All of them are told exactly
when the assembly succeeds, and only then is the video saved last. Nothing comes after a call that
failed. Where the assembly does not go ahead, nothing is told, or the first event alone. -/
theorem events_tell_run (a : Workshop σ) (order : Order) (s : σ) :
    let result := (run a order s).1
    let p := (run a order s).2
    let xs := transcript a.service s p.calls
    (∃ doc opening, Accepts a order doc ∧ Opens a order opening ∧
      let plan := planOf a order doc
      let raws := ((Media.references doc).map (·.raw)).eraseDups
      p.events = opening :: tellings plan raws xs ∧
      (log plan raws [] xs).Pairwise Follows ∧
      statesTold p.events = (renderStates xs).destutter (· ≠ ·) ∧
      ∃ story : Story, story.Fits plan raws xs ∧
        p.events <+: opening :: story.events raws.length ∧
        ((∃ outcome, result = .ok outcome) ↔ p.events = opening :: story.events raws.length) ∧
        ((∃ outcome, result = .ok outcome) ↔
          ∃ path bytes, p.events.getLast? = some (.finished path bytes))) ∨
    ((∀ doc, ¬ Accepts a order doc) ∧ p.calls = [] ∧ (∃ e, result = .error e) ∧
      (p.events = [] ∧ (∀ text, a.here.disk.readText order.script = .ok text →
          ¬ Clears a order text) ∨
        ∃ opening, Opens a order opening ∧ p.events = [opening])) := by
  intro result p xs
  have hnarrates : Narrates a order s p := by
    have h := @meets_assemble_log σ a order s (.start s) ⟨rfl, rfl, rfl⟩
    revert h
    show _ → Narrates a order s ((assemble a order).run.run (.start s)).2
    rcases (assemble a order).run.run (.start s) with ⟨e | outcome, p⟩ <;> exact id
  rcases run_cases a order s with ⟨doc, hd, stage, hc, hok, -⟩ | ⟨hno, hcalls, e, he, -⟩
  · obtain ⟨text, ht, hclears, hdoc⟩ := id hd
    cases hnarrates with
    | silent hno => exact absurd hclears (hno text ht)
    | opened ht' hd' =>
      rw [ht] at ht'
      cases ht'
      rw [hdoc] at hd'
      cases hd'
    | @going _ doc' opening ht' hd' ho howes =>
      obtain rfl := hd.unique ⟨_, ht', ho.clears ht', hd'⟩
      have hevents := howes.events
      rw [List.append_nil, distinctRaws_eq] at hevents
      change p.events = opening :: tellings _ _ xs at hevents
      obtain ⟨story, hfits, hpre, hwhole, hlast⟩ := exists_story hc
      refine .inl ⟨doc, opening, hd, ho, hevents, pairwise_log hc, ?_, story, hfits, ?_, ?_, ?_⟩
      · rw [hevents, ho.statesTold_cons, statesTold_tellings]
      · rw [hevents]
        exact List.cons_prefix_cons.2 ⟨rfl, hpre⟩
      · rw [hevents, List.cons.injEq]
        exact (hok.trans hwhole).trans ⟨fun h => ⟨rfl, h⟩, fun h => h.2⟩
      · rw [hevents]
        refine hok.trans ⟨fun hf => ⟨story.path, story.bytes, ?_⟩, fun ⟨path, bytes, hfin⟩ => ?_⟩
        · rw [show tellings _ _ xs = _ from hwhole.1 hf, Story.events, ← List.cons_append,
            List.getLast?_concat]
        · refine hlast.2 ⟨path, bytes, ?_⟩
          rcases List.mem_cons.1 (List.mem_of_getLast? hfin) with h | h
          · exact absurd h.symm ho.ne_finished
          · exact h
  · refine .inr ⟨hno, hcalls, ⟨e, he⟩, ?_⟩
    cases hnarrates with
    | silent hsilent hp => exact .inl ⟨hp.events, hsilent⟩
    | opened _ _ ho hp => exact .inr ⟨_, ho, hp.events⟩
    | @going text doc _ ht hd ho _ => exact absurd ⟨text, ht, ho.clears ht, hd⟩ (hno doc)

end

/-- A workshop whose service renders the video of a template in four looks. -/
def steadyWorkshop : Workshop Nat where
  here := (workshopOf namedTemplate).here
  check := .standard
  settings := .standard "key"
  service := { answer := fun call looks =>
    match call with
    | .renderState id =>
      (.ok ⟨id, [State.queued, .queued, .rendering].getD looks .done, some "https://cdn/final.mp4",
        none, none, none⟩, looks + 1)
    | .download _ _ => (.ok (42 : Nat), looks)
    | call => (((workshopOf namedTemplate).service.answer call ()).1, looks) }

example : (run steadyWorkshop checkedOrder 0).2.events =
    [.validated 0, .uploading 1 1 "/A", .uploaded "/A" "https://media/source", .submitted "render",
      .status "render" .queued, .status "render" .rendering, .status "render" .done,
      .downloading "https://cdn/final.mp4", .finished "/output/script.mp4" 42] := by
  decide +kernel

end VideoScript.Assembly
