import VideoScript.Proofs.Assembly.Conversation
import VideoScript.Proofs.Placeholder.Groups

/-!
# An assembly keeps to its protocol

Every assembly of an accepted script is a conversation (`Conversation`) about the media files of its
document, whatever the service answers. The parts of an assembly are followed one by one:
`awaitSource`, `upload`, `uploadEach`, `awaitRender` and `renderStep` each have a contract that says
from which stage to which stage they go, and at which stages they may stop (`Halts`).
-/

set_option autoImplicit false

namespace VideoScript.Assembly

open Render

section
variable {σ : Type} (a : Workshop σ) (order : Order)

/-- The directory from which the media paths of the script are seen. -/
def baseDirOf : String := scriptDirectory a.here.workingDirectory order.script

/-- The check of a text is skipped or passed. -/
def Clears (text : String) : Prop :=
  (order.skipChecks || a.check.skipChecks) = true ∨
    ∃ report, checkText a.here a.check text (baseDirOf a order) = .ok report ∧ report.passed = true

/-- A script that the assembly goes ahead with: it can be read, its check is skipped or passed, and
it writes the document. -/
def Accepts (doc : Document) : Prop :=
  ∃ text, a.here.disk.readText order.script = .ok text ∧ Clears a order text ∧
    readDocument text = .ok doc

/-- What the assembly of a document goes by. -/
def planOf (doc : Document) : Plan where
  place? := (shelfOf a.check (baseDirOf a order) doc).resolve? a.here.disk
  edit := edit doc (Media.references doc)
  destination := destination a.here.disk doc order.script (baseDirOf a order) order.output
  sourceTimeout := a.settings.sourceTimeout
  renderTimeout := a.settings.renderTimeout

end

/-! ## Progress at a stage -/

section
variable {σ : Type} (a : Workshop σ) (plan : Plan) (s : σ) (start : Stage)

/-- The calls so far lead from `start` to a stage, when the service was first in the state `s`. -/
def Stands (stage : Stage) (p : Progress σ) : Prop :=
  p.service = stateAfter a.service s p.calls ∧
    Conversation plan start (transcript a.service s p.calls) stage

/-- The assembly has stopped with an error at a stage where it must. -/
def Broken (e : AssemblyError) (p : Progress σ) : Prop :=
  ∃ stage, Stands a plan s start stage p ∧ Halts plan stage e

variable {a plan s start}

theorem Stands.ask {stage stage' : Stage} {p : Progress σ} {call : Call}
    (h : Stands a plan s start stage p) (ha : Asks plan stage call)
    (hl : Leads plan stage
      ⟨(p.asked a call).clock, call, (a.service.answer call p.service).1⟩ stage') :
    Stands a plan s start stage' (p.asked a call) := by
  obtain ⟨hs, hc⟩ := h
  refine ⟨?_, ?_⟩
  · rw [Progress.asked, stateAfter_snoc, ← hs]
  · rw [Progress.asked, transcript_snoc, ← hs]
    exact hc.snoc ha hl

/-- After a look that decides nothing, the stage is the same unless the time is over. -/
theorem Stands.stays_or_late {here : Stage} {since timeout : Nat} {late : AssemblyError}
    {p : Progress σ} (hsince : since ≤ p.clock) (hhalts : Halts plan .stopped late)
    (hlate : since + timeout ≤ p.clock → Stands a plan s start .stopped p)
    (hhere : p.clock < since + timeout → Stands a plan s start here p) :
    if timeout ≤ p.clock - since then Broken a plan s start late p
    else Stands a plan s start here p := by
  split
  · rename_i ht
    exact ⟨.stopped, hlate (Nat.add_le_of_le_sub' hsince ht), hhalts⟩
  · rename_i ht
    exact hhere ((Nat.sub_lt_iff_lt_add' hsince).1 (Nat.lt_of_not_le ht))

/-- A call that may be made, with what each good answer leads to. -/
theorem meets_ask {stage : Stage} {call : Call} {P : Progress σ → Prop}
    {Q : call.Answer → Progress σ → Prop} (hP : ∀ p, P p → Stands a plan s start stage p)
    (ha : Asks plan stage call)
    (hok : ∀ v p, P p → (∀ stage', Leads plan stage ⟨(p.asked a call).clock, call, .ok v⟩ stage' →
      Stands a plan s start stage' (p.asked a call)) → Q v (p.asked a call)) :
    Meets (Assembly.ask a call) P Q (Broken a plan s start) := by
  refine Meets.ask (fun v p hp hv => hok v p hp fun stage' hl => ?_) fun e p hp he => ?_
  · exact (hP p hp).ask ha (hv ▸ hl)
  · exact ⟨.stopped, (hP p hp).ask ha (he ▸ .refused), .refused⟩

end

/-! ## The parts -/

theorem nonEmpty?_eq_some {s : Option String} {t : String} :
    nonEmpty? s = some t ↔ s = some t ∧ t ≠ "" := by
  simp [nonEmpty?, Option.filter_eq_some_iff]

theorem nonEmpty?_eq_none {s : Option String} :
    nonEmpty? s = none ↔ ∀ t, s = some t → t = "" := by
  simp [nonEmpty?, Option.filter_eq_none_iff]

section
variable {σ : Type} {a : Workshop σ} {order : Order} {doc : Document} {s : σ} {start : Stage}

theorem meets_awaitSource {done : List Upload} {raw path id : String} {left : List String} :
    Meets (awaitSource a id path)
      (fun p => Stands a (planOf a order doc) s start (.settling done raw path id left p.clock) p)
      (fun url =>
        Stands a (planOf a order doc) s start (.between (done ++ [⟨raw, path, url⟩]) left))
      (Broken a (planOf a order doc) s start) := by
  -- every look is at the stage in which the waiting started
  let here : Progress σ → Stage := fun q => .settling done raw path id left q.clock
  refine Meets.await (J := fun q _ _ => Stands a (planOf a order doc) s start (here q))
    (fun _ hq => hq) fun q _ k m => ?_
  let waited : Nat := q.clock + k * pauseBetween a.settings.pollInterval
  refine Meets.bind (M := fun state p => waited ≤ p.clock ∧
    ∀ stage', Leads (planOf a order doc) (here q) ⟨p.clock, .sourceState id, .ok state⟩ stage' →
      Stands a (planOf a order doc) s start stage' p)
    (meets_ask (fun p hp => hp.1) .source fun v p hp hl =>
      ⟨hp.2.trans (p.clock_le_asked a _), hl⟩) fun state => ?_
  cases state with
  | ready url => exact Meets.ret fun p hp => hp.2 _ .ready
  | failed => exact Meets.stop fun p hp => ⟨.stopped, hp.2 _ .sourceFailed, .sourceFailed⟩
  | pending word =>
    exact Meets.ret fun p hp => ⟨hp.1, Stands.stays_or_late ((Nat.le_add_right _ _).trans hp.1)
      .sourceLate (fun ht => hp.2 _ (.sourceLate ht)) fun ht => hp.2 _ (.sourcePending ht)⟩

theorem meets_upload {total index : Nat} {done : List Upload} {raw : String} {left : List String} :
    Meets (upload a (shelfOf a.check (baseDirOf a order) doc) total index raw)
      (Stands a (planOf a order doc) s start (.between done (raw :: left)))
      (fun u => Stands a (planOf a order doc) s start (.between (done ++ [u]) left))
      (Broken a (planOf a order doc) s start) := by
  unfold upload
  cases hp : (shelfOf a.check (baseDirOf a order) doc).resolve? a.here.disk raw with
  | none => exact Meets.stop fun p h => ⟨_, h, .noFile hp⟩
  | some path =>
    refine Meets.bind (M := fun _ => Stands a (planOf a order doc) s start
      (.between done (raw :: left))) (Meets.tell fun p h => h) fun _ => ?_
    refine Meets.bind (M := fun slot => Stands a (planOf a order doc) s start
      (.reserved done raw path slot left))
      (meets_ask (fun p h => h) (.reserve hp) fun slot p _ hl => hl _ (.reserved hp)) fun slot => ?_
    refine Meets.bind (M := fun _ p => Stands a (planOf a order doc) s start
      (.settling done raw path slot.id left p.clock) p)
      (meets_ask (fun p h => h) .send fun _ p _ hl => hl _ .sent) fun _ => ?_
    refine Meets.bind meets_awaitSource fun url => ?_
    refine Meets.bind (M := fun _ => Stands a (planOf a order doc) s start
      (.between (done ++ [⟨raw, path, url⟩]) left)) (Meets.tell fun p h => h) fun _ => ?_
    exact Meets.ret fun p h => h

theorem meets_uploadEach {total : Nat} : ∀ (left : List String) (index : Nat) (done : List Upload),
    Meets (uploadEach a (shelfOf a.check (baseDirOf a order) doc) total index left)
      (Stands a (planOf a order doc) s start (.between done left))
      (fun us => Stands a (planOf a order doc) s start (.between (done ++ us) []))
      (Broken a (planOf a order doc) s start)
  | [], _, done => Meets.ret fun p h => by rwa [List.append_nil]
  | raw :: left, index, done => by
    refine Meets.bind meets_upload fun u => ?_
    refine Meets.bind (meets_uploadEach left (index + 1) (done ++ [u])) fun us => ?_
    exact Meets.ret fun p h => by simpa using h

theorem meets_awaitRender {id : String} :
    Meets (awaitRender a id)
      (fun p => Stands a (planOf a order doc) s start (.rendering id p.clock) p)
      (fun url => Stands a (planOf a order doc) s start (.saving url))
      (Broken a (planOf a order doc) s start) := by
  let here : Progress σ → Stage := fun q => .rendering id q.clock
  refine Meets.await (J := fun q _ _ => Stands a (planOf a order doc) s start (here q))
    (fun _ hq => hq) fun q _ k m => ?_
  let waited : Nat := q.clock + k * pauseBetween a.settings.pollInterval
  let M : Status → Progress σ → Prop := fun status p => waited ≤ p.clock ∧
    ∀ stage', Leads (planOf a order doc) (here q) ⟨p.clock, .renderState id, .ok status⟩ stage' →
      Stands a (planOf a order doc) s start stage' p
  refine Meets.bind (M := M) (meets_ask (fun p hp => hp.1) .render fun v p hp hl =>
    ⟨hp.2.trans (p.clock_le_asked a _), hl⟩) fun status => ?_
  refine Meets.tellIf ?_ fun p h => h
  have hgo (hf : status.state.isFinal = false) (p : Progress σ) (hp : M status p) :
      waited ≤ p.clock ∧ if a.settings.renderTimeout ≤ p.clock - q.clock
        then Broken a (planOf a order doc) s start (.renderLate id a.settings.renderTimeout) p
        else Stands a (planOf a order doc) s start (here q) p :=
    ⟨hp.1, Stands.stays_or_late ((Nat.le_add_right _ _).trans hp.1) .renderLate
      (fun ht => hp.2 _ (.renderLate hf ht)) fun ht => hp.2 _ (.renderPending hf ht)⟩
  cases hs : status.state with
  | done =>
    cases hu : nonEmpty? status.url with
    | some url =>
      obtain ⟨hsome, hne⟩ := nonEmpty?_eq_some.1 hu
      exact Meets.ret fun p hp => hp.2 _ (.done hs hsome hne)
    | none =>
      have hempty := nonEmpty?_eq_none.1 hu
      exact Meets.stop fun p hp => ⟨.stopped, hp.2 _ (.noVideo hs hempty), .noVideo⟩
  | failed => exact Meets.stop fun p hp => ⟨.stopped, hp.2 _ (.renderFailed hs), .renderFailed⟩
  | queued | fetching | rendering | saving | unknown => exact Meets.ret (hgo (by rw [hs]; rfl))

theorem meets_renderStep {report : Option Report} :
    Meets (renderStep a order doc (baseDirOf a order) report)
      (Stands a (planOf a order doc) s start (.between [] (distinctRaws (Media.references doc))))
      (fun _ => Stands a (planOf a order doc) s start .finished)
      (Broken a (planOf a order doc) s start) := by
  refine Meets.bind (meets_uploadEach _ 1 []) fun uploads => ?_
  refine Meets.bind (M := fun e p => edit doc (Media.references doc) uploads = .ok e ∧
    Stands a (planOf a order doc) s start (.between uploads []) p)
    (Meets.orStop (fun e p he h => ⟨he, h⟩) fun part p he h => ⟨_, h, .noEdit he⟩) fun e => ?_
  refine Meets.bind (M := fun id p => Stands a (planOf a order doc) s start
    (.rendering id p.clock) p) ?_ fun id => ?_
  · intro p ⟨he, hp⟩
    refine @meets_ask σ a (planOf a order doc) s start _ (.submit e) _ _ (fun p h => h) (.submit he)
      (fun (id : String) p _ hl => hl (.rendering id (p.asked a _).clock) .submitted) p hp
  refine Meets.bind (M := fun _ p => Stands a (planOf a order doc) s start
    (.rendering id p.clock) p) (Meets.tell fun p h => h) fun _ => ?_
  refine Meets.bind meets_awaitRender fun url => ?_
  refine Meets.bind (M := fun _ => Stands a (planOf a order doc) s start (.saving url))
    (Meets.tell fun p h => h) fun _ => ?_
  refine Meets.bind (M := fun _ => Stands a (planOf a order doc) s start .finished)
    (meets_ask (fun p h => h) .save fun _ p _ hl => hl _ .saved) fun bytes => ?_
  refine Meets.bind (M := fun _ => Stands a (planOf a order doc) s start .finished)
    (Meets.tell fun p h => h) fun _ => ?_
  exact Meets.ret fun p h => h

end

/-! ## The whole -/

section
variable {σ : Type} (a : Workshop σ) (order : Order)

/-- Why an assembly stops before it goes ahead. -/
inductive Rejects : AssemblyError → Prop
  | unreadable {failure} (h : a.here.disk.readText order.script = .error failure) :
      Rejects (.unreadable order.script failure)
  | unchecked {text e} (h : checkText a.here a.check text (baseDirOf a order) = .error e) :
      Rejects (.unchecked e)
  | failedCheck {text report}
      (h : checkText a.here a.check text (baseDirOf a order) = .ok report)
      (hf : report.passed = false) : Rejects (.failedCheck report)
  | invalidScript {text problem} (hc : Clears a order text)
      (h : readDocument text = .error problem) : Rejects (.invalidScript problem)

/-- The start of the conversation about a document. -/
def opening (doc : Document) : Stage := .between [] (distinctRaws (Media.references doc))

variable {a order}

theorem Accepts.unique {doc doc' : Document} (h : Accepts a order doc)
    (h' : Accepts a order doc') : doc = doc' := by
  obtain ⟨text, ht, -, hd⟩ := h
  obtain ⟨text', ht', -, hd'⟩ := h'
  rw [ht] at ht'
  cases ht'
  rw [hd] at hd'
  exact Except.ok.inj hd'

theorem meets_checkStep {text : String} {P : Progress σ → Prop}
    (hP : ∀ p events, P p → P { p with events }) :
    Meets (checkStep a order text (baseDirOf a order)) P (fun _ p => P p ∧ Clears a order text)
      (fun e p => P p ∧ Rejects a order e ∧ ¬ Clears a order text) := by
  unfold checkStep Clears
  cases hs : order.skipChecks || a.check.skipChecks with
  | true =>
    refine Meets.bind (M := fun _ => P) (Meets.tell fun p h => hP p _ h) fun _ => ?_
    exact Meets.ret fun p h => ⟨h, .inl rfl⟩
  | false =>
    refine Meets.bind (M := fun report p => P p ∧
      checkText a.here a.check text (baseDirOf a order) = .ok report)
      (Meets.orStop (fun r p hr h => ⟨h, hr⟩) fun e p he h => ⟨h, .unchecked he, ?_⟩)
      fun report => ?_
    · simp [he]
    · cases hr : report.passed with
      | true =>
        refine Meets.bind (M := fun _ p => P p ∧
          checkText a.here a.check text (baseDirOf a order) = .ok report)
          (Meets.tell fun p h => ⟨hP p _ h.1, h.2⟩) fun _ => ?_
        exact Meets.ret fun p h => ⟨h.1, .inr ⟨report, h.2, hr⟩⟩
      | false =>
        refine Meets.stop fun p h => ⟨h.1, .failedCheck h.2 hr, ?_⟩
        simp [h.2, hr]

theorem meets_assemble {s : σ} :
    Meets (assemble a order) (fun p => p.service = s ∧ p.calls = [])
      (fun _ p => ∃ doc, Accepts a order doc ∧
        Stands a (planOf a order doc) s (opening doc) .finished p)
      (fun e p => (∃ doc, Accepts a order doc ∧ Broken a (planOf a order doc) s (opening doc) e p) ∨
        (∀ doc, ¬ Accepts a order doc) ∧ p.calls = [] ∧ Rejects a order e) := by
  let Fresh : Progress σ → Prop := fun p => p.service = s ∧ p.calls = []
  refine Meets.bind (M := fun text p => Fresh p ∧ a.here.disk.readText order.script = .ok text)
    (Meets.orStop (fun text p ht h => ⟨h, ht⟩) fun e p he h =>
      .inr ⟨fun doc hd => ?_, h.2, .unreadable he⟩) fun text => ?_
  · obtain ⟨text, ht, -⟩ := hd
    rw [he] at ht
    cases ht
  -- one text can be read, so what it writes is the only document
  have hone : ∀ p, (Fresh p ∧ a.here.disk.readText order.script = .ok text) →
      ∀ doc, Accepts a order doc → Clears a order text ∧ readDocument text = .ok doc := by
    rintro p ⟨-, ht⟩ doc ⟨text', ht', hc, hd⟩
    rw [ht] at ht'
    cases ht'
    exact ⟨hc, hd⟩
  let M : Progress σ → Prop := fun p => Fresh p ∧ a.here.disk.readText order.script = .ok text
  refine Meets.bind (M := fun _ p => M p ∧ Clears a order text)
    (Meets.mono (meets_checkStep (P := M) fun p events h => h) (fun _ h => h) (fun _ _ h => h)
      fun e p h => .inr ⟨fun doc hd => h.2.2 (hone p h.1 doc hd).1, h.1.1.2, h.2.1⟩)
    fun report => ?_
  refine Meets.bind (M := fun doc p => Fresh p ∧ Accepts a order doc)
    (Meets.orStop (fun doc p hd h => ⟨h.1.1, text, h.1.2, h.2, hd⟩) fun problem p hp h =>
      .inr ⟨fun doc hd => ?_, h.1.1.2, .invalidScript h.2 hp⟩) fun doc => ?_
  · have := (hone p h.1 doc hd).2
    rw [hp] at this
    cases this
  · rintro p ⟨⟨hs, hc⟩, hd⟩
    have hstart : Stands a (planOf a order doc) s (opening doc) (opening doc) p := by
      refine ⟨by rw [hc]; exact hs, ?_⟩
      rw [hc]
      exact .nil
    exact Meets.mono meets_renderStep (fun _ h => h) (fun _ _ h => ⟨doc, hd, h⟩)
      (fun _ _ h => .inl ⟨doc, hd, h⟩) p hstart

theorem distinctRaws_eq (refs : List Media.Reference) :
    distinctRaws refs = (refs.map (·.raw)).eraseDups := Media.distinct_grouped refs

/-- A run is a conversation about the accepted document, or makes no call. -/
theorem run_cases (a : Workshop σ) (order : Order) (s : σ) :
    (∃ doc, Accepts a order doc ∧ ∃ stage,
      Conversation (planOf a order doc)
        (.between [] ((Media.references doc).map (·.raw)).eraseDups)
        (transcript a.service s (run a order s).2.calls) stage ∧
      ((∃ outcome, (run a order s).1 = .ok outcome) ↔ stage = .finished) ∧
      ∀ e, (run a order s).1 = .error e → Halts (planOf a order doc) stage e) ∨
    ((∀ doc, ¬ Accepts a order doc) ∧ (run a order s).2.calls = [] ∧
      ∃ e, (run a order s).1 = .error e ∧ Rejects a order e) := by
  have h := @meets_assemble σ a order s (.start s) ⟨rfl, rfl⟩
  unfold run
  revert h
  rcases (assemble a order).run.run (.start s) with ⟨e | outcome, p⟩
  · rintro (⟨doc, hd, stage, ⟨-, hc⟩, hh⟩ | ⟨hd, hc, hr⟩)
    · rw [opening, distinctRaws_eq] at hc
      refine .inl ⟨doc, hd, stage, hc, ⟨?_, ?_⟩, ?_⟩
      · rintro ⟨_, h⟩
        cases h
      · rintro rfl
        exact absurd hh Halts.not_finished
      · intro e' he
        cases he
        exact hh
    · exact .inr ⟨hd, hc, e, rfl, hr⟩
  · rintro ⟨doc, hd, -, hc⟩
    rw [opening, distinctRaws_eq] at hc
    exact .inl ⟨doc, hd, .finished, hc, ⟨fun _ => rfl, fun _ => ⟨_, rfl⟩⟩, fun e h => by cases h⟩

/-- **The protocol.** The calls of an assembly, with the answers of the service, are a conversation
about the distinct media paths of the accepted document in the order in which they come first. They
are the first calls of a whole conversation, and all of them exactly when the video is made; any
other end has its reason at the stage where it comes. A script that is not accepted (it cannot be
read, its check fails, or it writes no document) makes no call. -/
theorem calls_keep_protocol (a : Workshop σ) (order : Order) (s : σ) :
    let calls := (run a order s).2.calls
    (∃ doc, Accepts a order doc ∧
      let plan := planOf a order doc
      let raws := ((Media.references doc).map (·.raw)).eraseDups
      ∃ stage, Conversation plan (.between [] raws) (transcript a.service s calls) stage ∧
        (∃ word, IsWord plan raws word ∧ calls.map (·.2) <+: word ∧
          (stage = .finished → calls.map (·.2) = word)) ∧
        ((∃ outcome, (run a order s).1 = .ok outcome) ↔ stage = .finished) ∧
        (∀ e, (run a order s).1 = .error e → Halts plan stage e)) ∨
    ((∀ doc, ¬ Accepts a order doc) ∧ calls = [] ∧
      ∃ e, (run a order s).1 = .error e ∧ Rejects a order e) := by
  rcases run_cases a order s with ⟨doc, hd, stage, hc, hok, hh⟩ | h
  · have hword := hc.calls_prefix
    rw [transcript_calls] at hword
    exact .inl ⟨doc, hd, stage, hc, hword, hok, hh⟩
  · exact .inr h

end

end VideoScript.Assembly
