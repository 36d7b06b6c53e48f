import Mathlib.Data.List.Destutter
import VideoScript.Proofs.Assembly.Protocol

/-!
# Which exchange an event belongs to

An assembly tells each of its events, but the first, right before a call or right after the answer
to one. `eventsBefore` and `eventsAfter` say which events those are, going by the exchanges so far
alone, and `log` puts exchanges and events in one list. A run tells the events of its log
(`meets_assemble_log`): after each part of it, all events of the exchanges so far have been told
(`Owes` with nothing left to tell).
-/

set_option autoImplicit false

namespace VideoScript.Assembly

open Render

/-! ## Exchanges and events -/

/-- What happens in a run, as seen from outside. -/
inductive Moment where
  | told (event : Event)
  | exchanged (x : Exchange)

/-- The event of a moment. -/
def Moment.event? : Moment → Option Event
  | .told event => some event
  | .exchanged _ => none

/-- How many uploads have begun. -/
def begun (xs : List Exchange) : Nat :=
  xs.countP fun x => match x.call with
    | .reserveUpload => true
    | _ => false

/-- The states of a render that the service has answered. -/
def renderStates (xs : List Exchange) : List State :=
  xs.filterMap fun
    | ⟨_, .renderState _, .ok status⟩ => some status.state
    | _ => none

section
variable (plan : Plan) (raws : List String)

/-- Where the file of the media path with a number is, counted from zero. -/
def pathAt (i : Nat) : String := (raws[i]?.bind plan.place?).getD ""

/-- The events that are told right before a call. -/
def eventsBefore (xs : List Exchange) : Call → List Event
  | .reserveUpload => [.uploading (begun xs + 1) raws.length (pathAt plan raws (begun xs))]
  | .download url _ => [.downloading url]
  | _ => []

/-- The events that are told right after an answer: none after an error. -/
def eventsAfter (xs : List Exchange) : Exchange → List Event
  | ⟨_, .sourceState _, .ok (.ready url)⟩ => [.uploaded (pathAt plan raws (begun xs - 1)) url]
  | ⟨_, .submit _, .ok id⟩ => [.submitted id]
  | ⟨_, .renderState id, .ok status⟩ =>
    if (renderStates xs).getLast? = some status.state then [] else [.status id status.state]
  | ⟨_, .download _ path, .ok bytes⟩ => [.finished path bytes]
  | _ => []

/-- An exchange with the events that belong to it. -/
def moments (xs : List Exchange) (x : Exchange) : List Moment :=
  (eventsBefore plan raws xs x.call).map .told ++
    .exchanged x :: (eventsAfter plan raws xs x).map .told

/-- Exchanges with the events that belong to them, when there were others before. -/
def log : List Exchange → List Exchange → List Moment
  | _, [] => []
  | before, x :: rest => moments plan raws before x ++ log (before ++ [x]) rest

/-- The events that belong to exchanges. -/
def tellings (xs : List Exchange) : List Event := (log plan raws [] xs).filterMap Moment.event?

variable {plan raws}

theorem begun_snoc (xs : List Exchange) (x : Exchange) :
    begun (xs ++ [x]) = begun xs + begun [x] := List.countP_append

theorem renderStates_snoc (xs : List Exchange) (x : Exchange) :
    renderStates (xs ++ [x]) = renderStates xs ++ renderStates [x] := List.filterMap_append

theorem log_snoc (before xs : List Exchange) (x : Exchange) :
    log plan raws before (xs ++ [x]) =
      log plan raws before xs ++ moments plan raws (before ++ xs) x := by
  induction xs generalizing before with
  | nil => simp [log]
  | cons y rest ih =>
    rw [List.cons_append, log, log, ih, List.append_assoc, List.append_assoc]
    rfl

theorem event?_told (events : List Event) :
    (events.map Moment.told).filterMap Moment.event? = events := by
  rw [List.filterMap_map]
  exact List.filterMap_some

theorem tellings_snoc (xs : List Exchange) (x : Exchange) :
    tellings plan raws (xs ++ [x]) = tellings plan raws xs ++
      (eventsBefore plan raws xs x.call ++ eventsAfter plan raws xs x) := by
  rw [tellings, log_snoc, List.filterMap_append, List.nil_append, moments, List.filterMap_append,
    event?_told, List.filterMap_cons, Moment.event?, event?_told]
  rfl

end

/-! ## Progress and its log -/

section
variable {σ : Type} (a : Workshop σ) (s : σ)

/-- The exchanges of a run so far, when the service was first in the state `s`. -/
def exchanged (p : Progress σ) : List Exchange := transcript a.service s p.calls

variable (opening : Event) (plan : Plan) (raws : List String)

/-- The events of the exchanges so far have been told, but for those of `left`. -/
structure Owes (left : List Event) (p : Progress σ) : Prop where
  service : p.service = stateAfter a.service s p.calls
  events : p.events ++ left = opening :: tellings plan raws (exchanged a s p)

/-- The events that come before a call have been told too. -/
structure AtCall (call : Call) (p : Progress σ) : Prop where
  service : p.service = stateAfter a.service s p.calls
  events : p.events = opening :: (tellings plan raws (exchanged a s p) ++
    eventsBefore plan raws (exchanged a s p) call)

variable {a s opening plan raws}

theorem exchanged_asked {p : Progress σ} (h : p.service = stateAfter a.service s p.calls)
    (call : Call) : exchanged a s (p.asked a call) =
      exchanged a s p ++
        [⟨(p.asked a call).clock, call, (a.service.answer call p.service).1⟩] := by
  rw [exchanged, Progress.asked, transcript_snoc, ← h]
  rfl

theorem Owes.tell {event : Event} {left : List Event} {p : Progress σ}
    (h : Owes a s opening plan raws (event :: left) p) :
    Owes a s opening plan raws left { p with events := p.events ++ [event] } :=
  ⟨h.service, (List.append_assoc ..).trans h.events⟩

theorem Owes.atCall {call : Call} {p : Progress σ} (h : Owes a s opening plan raws [] p)
    (hc : eventsBefore plan raws (exchanged a s p) call = []) :
    AtCall a s opening plan raws call p := by
  refine ⟨h.service, ?_⟩
  rw [hc, List.append_nil, ← h.events, List.append_nil]

theorem AtCall.of_tell {call : Call} {event : Event} {p : Progress σ}
    (h : Owes a s opening plan raws [] p)
    (hc : eventsBefore plan raws (exchanged a s p) call = [event]) :
    AtCall a s opening plan raws call { p with events := p.events ++ [event] } := by
  refine ⟨h.service, ?_⟩
  have hevents := h.events
  rw [List.append_nil] at hevents
  show p.events ++ [event] = opening :: (tellings plan raws (exchanged a s p) ++
    eventsBefore plan raws (exchanged a s p) call)
  rw [hc, hevents, List.cons_append]

theorem AtCall.asked {call : Call} {p : Progress σ} (h : AtCall a s opening plan raws call p) :
    Owes a s opening plan raws (eventsAfter plan raws (exchanged a s p)
      ⟨(p.asked a call).clock, call, (a.service.answer call p.service).1⟩) (p.asked a call) := by
  refine ⟨?_, ?_⟩
  · rw [Progress.asked, stateAfter_snoc, ← h.service]
  · rw [exchanged_asked h.service, tellings_snoc, Progress.asked, h.events, List.cons_append,
      List.append_assoc]

theorem eventsAfter_error (xs : List Exchange) (time : Nat) (call : Call) (e : ServiceError) :
    eventsAfter plan raws xs ⟨time, call, .error e⟩ = [] := by
  cases call <;> rfl

/-- A call whose events before it have been told: after an error there is nothing left to tell. -/
theorem meets_ask_log {call : Call} {P : Progress σ → Prop}
    {Q : call.Answer → Progress σ → Prop} (hP : ∀ p, P p → AtCall a s opening plan raws call p)
    (hok : ∀ v p, P p →
      exchanged a s (p.asked a call) =
        exchanged a s p ++ [⟨(p.asked a call).clock, call, .ok v⟩] →
      Owes a s opening plan raws (eventsAfter plan raws (exchanged a s p)
        ⟨(p.asked a call).clock, call, .ok v⟩) (p.asked a call) → Q v (p.asked a call)) :
    Meets (ask a call) P Q fun _ => Owes a s opening plan raws [] := by
  refine Meets.ask (fun v p hp hv => ?_) fun e p hp he => ?_
  · have hx := exchanged_asked (hP p hp).service call
    have ho := (hP p hp).asked
    rw [hv] at hx ho
    exact hok v p hp hx ho
  · have ho := (hP p hp).asked
    rwa [he, eventsAfter_error] at ho

/-! ## The parts -/

/-- As many uploads have begun, nothing has been rendered, and all events have been told. -/
structure Uploading (a : Workshop σ) (s : σ) (opening : Event) (plan : Plan) (raws : List String)
    (count : Nat) (left : List Event) (p : Progress σ) : Prop where
  owes : Owes a s opening plan raws left p
  begun : begun (exchanged a s p) = count
  states : renderStates (exchanged a s p) = []

/-- What an exchange adds to the uploads that have begun. -/
theorem uploading_snoc {count n : Nat} {left : List Event} {p p' : Progress σ} {x : Exchange}
    (hb : begun (exchanged a s p) = count) (hs : renderStates (exchanged a s p) = [])
    (hx : exchanged a s p' = exchanged a s p ++ [x]) (hn : begun [x] = n)
    (hr : renderStates [x] = []) (ho : Owes a s opening plan raws left p') :
    Uploading a s opening plan raws (count + n) left p' where
  owes := ho
  begun := by rw [hx, begun_snoc, hb, hn]
  states := by rw [hx, renderStates_snoc, hs, hr, List.append_nil]

theorem meets_awaitSource_log {id path : String} {i : Nat} :
    Meets (awaitSource a id path) (Uploading a s opening plan raws (i + 1) [])
      (fun url => Uploading a s opening plan raws (i + 1) [.uploaded (pathAt plan raws i) url])
      (fun _ => Owes a s opening plan raws []) := by
  refine Meets.awaitKeeping (I := fun _ => Uploading a s opening plan raws (i + 1) [])
    (fun _ h => h) (fun _ _ h => h.owes)
    (fun _ _ _ h => ⟨⟨h.owes.service, h.owes.events⟩, h.begun, h.states⟩) fun m => ?_
  refine Meets.bind (M := fun state => Uploading a s opening plan raws (i + 1) (match state with
    | .ready url => [.uploaded (pathAt plan raws i) url]
    | _ => [])) (meets_ask_log (fun p h => h.owes.atCall rfl) fun v p h hx ho => ?_) fun state => ?_
  · refine uploading_snoc (n := 0) h.begun h.states hx rfl rfl ?_
    cases v with
    | ready url =>
      rw [eventsAfter, h.begun] at ho
      exact ho
    | failed | pending => exact ho
  cases state with
  | ready url => exact Meets.ret fun p h => h
  | failed => exact Meets.stop fun p h => h.owes
  | pending word => exact Meets.ret fun p h => h

theorem meets_upload_log {shelf : Media.Shelf} {raw : String} {i : Nat}
    (hplace : ∀ raw, plan.place? raw = shelf.resolve? a.here.disk raw)
    (hraw : raws[i]? = some raw) :
    Meets (upload a shelf raws.length (i + 1) raw) (Uploading a s opening plan raws i [])
      (fun _ => Uploading a s opening plan raws (i + 1) [])
      (fun _ => Owes a s opening plan raws []) := by
  unfold upload
  cases hp : shelf.resolve? a.here.disk raw with
  | none => exact Meets.stop fun p h => h.owes
  | some path =>
    have hpath : pathAt plan raws i = path := by
      rw [pathAt, hraw, Option.bind_some, hplace, hp, Option.getD_some]
    refine Meets.bind (M := fun _ p => AtCall a s opening plan raws .reserveUpload p ∧
      begun (exchanged a s p) = i ∧ renderStates (exchanged a s p) = [])
      (Meets.tell fun p h => ⟨.of_tell h.owes ?_, h.begun, h.states⟩) fun _ => ?_
    · rw [eventsBefore, h.begun, hpath]
    refine Meets.bind (M := fun _ => Uploading a s opening plan raws (i + 1) [])
      (meets_ask_log (fun p h => h.1) fun slot p h hx ho =>
        uploading_snoc h.2.1 h.2.2 hx rfl rfl ho) fun slot => ?_
    refine Meets.bind (M := fun _ => Uploading a s opening plan raws (i + 1) [])
      (meets_ask_log (fun p h => h.owes.atCall rfl) fun _ p h hx ho =>
        uploading_snoc (n := 0) h.begun h.states hx rfl rfl ho) fun _ => ?_
    refine Meets.bind meets_awaitSource_log fun url => ?_
    rw [hpath]
    refine Meets.bind (M := fun _ => Uploading a s opening plan raws (i + 1) [])
      (Meets.tell fun p h => ⟨h.owes.tell, h.begun, h.states⟩) fun _ => ?_
    exact Meets.ret fun p h => h

theorem meets_uploadEach_log {shelf : Media.Shelf}
    (hplace : ∀ raw, plan.place? raw = shelf.resolve? a.here.disk raw) :
    ∀ (left done : List String), raws = done ++ left →
      Meets (uploadEach a shelf raws.length (done.length + 1) left)
        (Uploading a s opening plan raws done.length [])
        (fun _ => Uploading a s opening plan raws raws.length [])
        (fun _ => Owes a s opening plan raws [])
  | [], done, hr => by
    rw [List.append_nil] at hr
    exact Meets.ret fun p h => hr ▸ h
  | raw :: left, done, hr => by
    refine Meets.bind (meets_upload_log hplace (by simp [hr])) fun u => ?_
    have hrest := meets_uploadEach_log hplace left (done ++ [raw]) (by simp [hr])
    rw [List.length_append, List.length_singleton] at hrest
    exact Meets.bind hrest fun us => Meets.ret fun p h => h

/-- Before each look the state that is remembered is the last one that was answered. -/
theorem meets_awaitRender_log {id : String} :
    Meets (awaitRender a id)
      (fun p => Owes a s opening plan raws [] p ∧ renderStates (exchanged a s p) = [])
      (fun _ => Owes a s opening plan raws []) (fun _ => Owes a s opening plan raws []) := by
  let J : Option State → Progress σ → Prop := fun last p =>
    Owes a s opening plan raws [] p ∧ (renderStates (exchanged a s p)).getLast? = last
  refine Meets.awaitKeeping (I := J) (fun q hq => ⟨hq.1, by rw [hq.2]; rfl⟩) (fun _ _ h => h.1)
    (fun _ _ _ h => ⟨⟨h.1.service, h.1.events⟩, h.2⟩) fun last => ?_
  let news : Status → List Event := fun status =>
    if last = some status.state then [] else [.status id status.state]
  refine Meets.bind (M := fun status p => Owes a s opening plan raws (news status) p ∧
    (renderStates (exchanged a s p)).getLast? = some status.state)
    (meets_ask_log (fun p h => h.1.atCall rfl) fun status p h hx ho => ⟨?_, ?_⟩) fun status => ?_
  · rw [eventsAfter, h.2] at ho
    exact ho
  · rw [hx, renderStates_snoc]
    exact List.getLast?_concat
  refine Meets.tellWhen (R := J (some status.state)) (fun hnew p h => ?_) (fun hold p h => ?_) ?_
  · have ho := h.1
    rw [show news status = [.status id status.state] from if_neg hnew] at ho
    exact ⟨ho.tell, h.2⟩
  · have ho := h.1
    rw [show news status = [] from if_pos (Classical.not_not.1 hold)] at ho
    exact ⟨ho, h.2⟩
  cases hs : status.state with
  | done =>
    cases nonEmpty? status.url with
    | some url => exact Meets.ret fun p h => h.1
    | none => exact Meets.stop fun p h => h.1
  | failed => exact Meets.stop fun p h => h.1
  | queued | fetching | rendering | saving | unknown => exact Meets.ret fun p h => hs ▸ h

end

/-! ## The whole -/

section
variable {σ : Type} (a : Workshop σ) (order : Order) (s : σ)

/-- The first event of an assembly that goes ahead: the check was skipped, or it was passed with a
number of warnings. -/
inductive Opens : Event → Prop
  | skipped (h : (order.skipChecks || a.check.skipChecks) = true) : Opens .validationSkipped
  | validated {text report} (hs : (order.skipChecks || a.check.skipChecks) = false)
      (ht : a.here.disk.readText order.script = .ok text)
      (hc : checkText a.here a.check text (baseDirOf a order) = .ok report)
      (hp : report.passed = true) : Opens (.validated (report.count .warning))

/-- No call has been made, and these events have been told. -/
structure Unasked (s : σ) (events : List Event) (p : Progress σ) : Prop where
  service : p.service = s
  calls : p.calls = []
  events : p.events = events

/-- What an assembly has told when it ends: nothing where it does not go ahead, the first event
alone where the script writes no document, and otherwise that event and those of its log. -/
inductive Narrates (p : Progress σ) : Prop
  | silent (hno : ∀ text, a.here.disk.readText order.script = .ok text → ¬ Clears a order text)
      (hp : Unasked s [] p)
  | opened {text problem opening} (ht : a.here.disk.readText order.script = .ok text)
      (hd : readDocument text = .error problem) (ho : Opens a order opening)
      (hp : Unasked s [opening] p)
  | going {text doc opening} (ht : a.here.disk.readText order.script = .ok text)
      (hd : readDocument text = .ok doc) (ho : Opens a order opening)
      (howes : Owes a s opening (planOf a order doc) (distinctRaws (Media.references doc)) [] p)

variable {a order s}

theorem Unasked.exchanged_eq {events : List Event} {p : Progress σ} (h : Unasked s events p) :
    exchanged a s p = [] := by
  rw [exchanged, h.calls]
  rfl

theorem Unasked.owes {opening : Event} {plan : Plan} {raws : List String} {p : Progress σ}
    (h : Unasked s [opening] p) : Owes a s opening plan raws [] p where
  service := by
    rw [h.calls]
    exact h.service
  events := by
    rw [h.exchanged_eq, h.events]
    rfl

theorem meets_renderStep_log {doc : Document} {report : Option Report} {opening : Event} :
    let Told := Owes a s opening (planOf a order doc) (distinctRaws (Media.references doc))
    Meets (renderStep a order doc (baseDirOf a order) report) (Unasked s [opening])
      (fun _ => Told []) (fun _ => Told []) := by
  intro Told
  let raws := distinctRaws (Media.references doc)
  let path := destination a.here.disk doc order.script (baseDirOf a order) order.output
  refine Meets.bind
    (M := fun _ => Uploading a s opening (planOf a order doc) raws raws.length [])
    (Meets.mono (meets_uploadEach_log (fun _ => rfl) _ [] rfl)
      (fun p h => ⟨h.owes, by rw [h.exchanged_eq]; rfl, by rw [h.exchanged_eq]; rfl⟩)
      (fun _ _ h => h) fun _ _ h => h)
    fun uploads => ?_
  refine Meets.bind (M := fun _ p => Told [] p ∧ renderStates (exchanged a s p) = [])
    (Meets.orStop (fun _ p _ h => ⟨h.owes, h.states⟩) fun _ p _ h => h.owes) fun edit => ?_
  refine Meets.bind
    (M := fun (id : String) p => Told [.submitted id] p ∧ renderStates (exchanged a s p) = [])
    (meets_ask_log (fun p h => h.1.atCall rfl) fun id p h hx ho => ⟨ho, ?_⟩) fun id => ?_
  · rw [hx, renderStates_snoc, h.2]
    rfl
  refine Meets.bind (M := fun _ p => Told [] p ∧ renderStates (exchanged a s p) = [])
    (Meets.tell fun p h => ⟨h.1.tell, h.2⟩) fun _ => ?_
  refine Meets.bind meets_awaitRender_log fun url => ?_
  refine Meets.bind
    (M := fun _ => AtCall a s opening (planOf a order doc) raws (.download url path))
    (Meets.tell fun p h => .of_tell h rfl) fun _ => ?_
  refine Meets.bind (M := fun (bytes : Nat) => Told [.finished path bytes])
    (meets_ask_log (fun p h => h) fun bytes p _ _ ho => ho) fun bytes => ?_
  refine Meets.bind (M := fun _ => Told []) (Meets.tell fun p h => h.tell) fun _ => ?_
  exact Meets.ret fun p h => h

theorem Unasked.tell {event : Event} {p : Progress σ} (h : Unasked s [] p) :
    Unasked s [event] { p with events := p.events ++ [event] } where
  service := h.service
  calls := h.calls
  events := by rw [h.events]; rfl

theorem meets_checkStep_log {text : String}
    (ht : a.here.disk.readText order.script = .ok text) :
    Meets (checkStep a order text (baseDirOf a order)) (Unasked s [])
      (fun _ p => ∃ opening, Opens a order opening ∧ Unasked s [opening] p)
      (fun _ p => ¬ Clears a order text ∧ Unasked s [] p) := by
  unfold checkStep Clears
  cases hs : order.skipChecks || a.check.skipChecks with
  | true =>
    refine Meets.bind (M := fun _ => Unasked s [.validationSkipped])
      (Meets.tell fun p h => h.tell) fun _ => ?_
    exact Meets.ret fun p h => ⟨_, .skipped hs, h⟩
  | false =>
    refine Meets.bind (M := fun report p => Unasked s [] p ∧
      checkText a.here a.check text (baseDirOf a order) = .ok report)
      (Meets.orStop (fun r p hr h => ⟨h, hr⟩) fun e p he h => ⟨by simp [he], h⟩) fun report => ?_
    cases hp : report.passed with
    | true =>
      refine Meets.bind (M := fun _ p => ∃ opening, Opens a order opening ∧ Unasked s [opening] p)
        (Meets.tell fun p h => ⟨_, .validated hs ht h.2 hp, h.1.tell⟩) fun _ => ?_
      exact Meets.ret fun p h => h
    | false => exact Meets.stop fun p h => ⟨by simp [h.2, hp], h.1⟩

theorem meets_assemble_log :
    Meets (assemble a order) (Unasked s []) (fun _ => Narrates a order s)
      (fun _ => Narrates a order s) := by
  refine Meets.bind
    (M := fun text p => Unasked s [] p ∧ a.here.disk.readText order.script = .ok text)
    (Meets.orStop (fun text p ht h => ⟨h, ht⟩) fun e p he h => .silent (fun text ht => ?_) h)
    fun text => ?_
  · rw [he] at ht
    cases ht
  rintro p ⟨hp, ht⟩
  have hsilent : ∀ p, ¬ Clears a order text ∧ Unasked s [] p → Narrates a order s p := by
    rintro p ⟨hno, hp⟩
    refine .silent (fun text' ht' => ?_) hp
    rw [ht] at ht'
    cases ht'
    exact hno
  refine Meets.bind (Meets.mono (meets_checkStep_log ht) (fun _ h => h) (fun _ _ h => h)
    fun _ p h => hsilent p h) (fun report => ?_) p hp
  refine Meets.bind (M := fun doc p => readDocument text = .ok doc ∧
      ∃ opening, Opens a order opening ∧ Unasked s [opening] p)
    (Meets.orStop (fun doc p hd h => ⟨hd, h⟩) fun problem p hd h => ?_) fun doc => ?_
  · obtain ⟨opening, ho, hp⟩ := h
    exact .opened ht hd ho hp
  · rintro p ⟨hd, opening, ho, hp⟩
    exact Meets.mono meets_renderStep_log (fun _ h => h) (fun _ _ h => .going ht hd ho h)
      (fun _ _ h => .going ht hd ho h) p hp

end

end VideoScript.Assembly
