import VideoScript.Proofs.Assembly.Contract
import VideoScript.Proofs.Assembly.Scripts
import VideoScript.Proofs.Media.Lookup

/-!
# Assemblies that differ in their edits alone

`Alike S part part'`: from the same progress, but for edits that were submitted, the two parts end
in the same way, and again with the same progress but for such edits, which the relation `S` holds
between. A service that does not read edits answers both alike (`Alike.submit`); all else that the
parts ask of it is the same. So documents with the same media paths, the same destination, findings
of the same severities and edits that `S` relates, `Twins S doc doc'`, are assembled alike
(`Twins.run`).
-/

set_option autoImplicit false

namespace VideoScript.Assembly

open Json Media Render

/-! ## What is the same -/

/-- The service does not read the edits that it is given: it answers all of them alike, and after
the same time. -/
def Unread {σ : Type} (service : Service σ) : Prop :=
  ∀ e e' s, service.answer (.submit e) s = service.answer (.submit e') s ∧
    service.duration (.submit e) s = service.duration (.submit e') s

/-- The same call at the same time, or two edits in the relation submitted at the same time. -/
inductive SameCall (S : Json → Json → Prop) : Nat × Call → Nat × Call → Prop
  | same {time : Nat} {call : Call} (h : ∀ e, call ≠ .submit e) :
      SameCall S (time, call) (time, call)
  | submit {time : Nat} {e e' : Json} (h : S e e') :
      SameCall S (time, .submit e) (time, .submit e')

/-- The same progress but for the edits that were submitted. -/
structure SameProgress {σ : Type} (S : Json → Json → Prop) (p q : Progress σ) : Prop where
  service : p.service = q.service
  clock : p.clock = q.clock
  calls : List.Forall₂ (SameCall S) p.calls q.calls
  events : p.events = q.events

/-- Reports whose findings have the same severities. -/
structure SameVerdict (r r' : Report) : Prop where
  strict : r.strict = r'.strict
  severities : r.findings.map (·.severity) = r'.findings.map (·.severity)

/-- The same error, but for the places of findings. -/
inductive SameError : AssemblyError → AssemblyError → Prop
  | refl (e : AssemblyError) : SameError e e
  | failedCheck {r r' : Report} (h : SameVerdict r r') :
      SameError (.failedCheck r) (.failedCheck r')

/-- Results that are both errors, the same ones, or both values in a relation. -/
inductive SameResult {α β : Type} (R : α → β → Prop) :
    Except AssemblyError α → Except AssemblyError β → Prop
  | ok {v : α} {w : β} (h : R v w) : SameResult R (.ok v) (.ok w)
  | error {e e' : AssemblyError} (h : SameError e e') : SameResult R (.error e) (.error e')

/-- The same outcome, but for the places of findings. -/
structure SameOutcome (o o' : Outcome) : Prop where
  render : o.render = o'.render
  path : o.path = o'.path
  url : o.url = o'.url
  bytes : o.bytes = o'.bytes
  uploads : o.uploads = o'.uploads
  report : Option.Rel SameVerdict o.report o'.report

/-! ## Parts that are alike -/

section
variable {σ α β γ δ : Type} {S : Json → Json → Prop} {R : α → β → Prop}

/-- From the same progress, but for the edits, the two parts end in the same way. -/
def Alike (S : Json → Json → Prop) (part : Step σ α) (part' : Step σ β) (R : α → β → Prop) : Prop :=
  ∀ p q, SameProgress S p q → SameResult R (part.run.run p).1 (part'.run.run q).1 ∧
    SameProgress S (part.run.run p).2 (part'.run.run q).2

theorem SameProgress.start (s : σ) : SameProgress S (Progress.start s) (Progress.start s) :=
  ⟨rfl, rfl, .nil, rfl⟩

/-- The same answer of the service gives the same result. -/
theorem SameResult.of_answers {r r' : Except AssemblyError α}
    {answer answer' : Except ServiceError α} (hr : r = answer.mapError .service)
    (hr' : r' = answer'.mapError .service) (h : answer = answer') : SameResult Eq r r' := by
  subst hr hr' h
  cases answer with
  | ok v => exact .ok rfl
  | error e => exact .error (.refl _)

theorem answer_ask (a : Workshop σ) (call : Call) (p : Progress σ) :
    ((ask a call).run.run p).1 = (a.service.answer call p.service).1.mapError .service := by
  rw [run_ask]
  cases (a.service.answer call p.service).1 <;> rfl

theorem progress_ask (a : Workshop σ) (call : Call) (p : Progress σ) :
    ((ask a call).run.run p).2 = p.asked a call := by
  rw [run_ask]
  cases (a.service.answer call p.service).1 <;> rfl

/-- The same call, but for the edit, keeps progress the same. -/
theorem SameProgress.ask {a : Workshop σ} {call call' : Call} {p q : Progress σ}
    (h : SameProgress S p q) (hc : SameCall S (p.clock, call) (p.clock, call'))
    (hs : (a.service.answer call p.service).2 = (a.service.answer call' p.service).2)
    (hd : a.service.duration call p.service = a.service.duration call' p.service) :
    SameProgress S ((ask a call).run.run p).2 ((ask a call').run.run q).2 := by
  obtain ⟨hservice, hclock, hcalls, hevents⟩ := h
  rw [progress_ask, progress_ask]
  refine ⟨?_, ?_, List.rel_append hcalls (.cons ?_ .nil), hevents⟩
  · show (a.service.answer call p.service).2 = (a.service.answer call' q.service).2
    rw [← hservice, hs]
  · show p.clock + a.service.duration call p.service =
      q.clock + a.service.duration call' q.service
    rw [← hservice, ← hclock, hd]
  · rw [← hclock]
    exact hc

namespace Alike

theorem ret {v : α} {w : β} (h : R v w) : Alike S (pure v : Step σ α) (pure w) R :=
  fun _ _ hp => ⟨.ok h, hp⟩

theorem stop {e e' : AssemblyError} (h : SameError e e') :
    Alike S (throw e : Step σ α) (throw e') R :=
  fun _ _ hp => ⟨.error h, hp⟩

theorem bind {part : Step σ γ} {part' : Step σ δ} {next : γ → Step σ α} {next' : δ → Step σ β}
    {M : γ → δ → Prop} (h : Alike S part part' M)
    (hn : ∀ v w, M v w → Alike S (next v) (next' w) R) :
    Alike S (part >>= next) (part' >>= next') R := by
  intro p q hp
  obtain ⟨hresult, hprogress⟩ := h p q hp
  rw [run_bind, run_bind]
  revert hresult hprogress
  rcases part.run.run p with ⟨e | v, p'⟩ <;> rcases part'.run.run q with ⟨e' | w, q'⟩
  · rintro ⟨⟩ hprogress
    exact ⟨.error ‹_›, hprogress⟩
  · rintro ⟨⟩
  · rintro ⟨⟩
  · rintro ⟨hM⟩ hprogress
    exact hn v w hM p' q' hprogress

theorem halt {e e' : AssemblyError} {next : γ → Step σ α} {next' : δ → Step σ β}
    (h : SameError e e') : Alike S (throw e >>= next) (throw e' >>= next') R :=
  bind (M := fun _ _ => False) (stop h) fun _ _ hF => hF.elim

/-- Looking at the progress. -/
theorem read {next : Progress σ → Step σ α} {next' : Progress σ → Step σ β}
    (h : ∀ p q, SameProgress S p q → Alike S (next p) (next' q) R) :
    Alike S (get >>= next) (get >>= next') R :=
  fun p q hp => h p q hp p q hp

theorem tell (event : Event) :
    Alike S (Assembly.tell event : Step σ Unit) (Assembly.tell event) Eq :=
  fun _ _ hp => ⟨.ok rfl, hp.service, hp.clock, hp.calls, congrArg (· ++ [event]) hp.events⟩

theorem pause (time : Nat) : Alike S (Assembly.pause time : Step σ Unit) (Assembly.pause time) Eq :=
  fun _ _ hp => ⟨.ok rfl, hp.service, congrArg (· + time) hp.clock, hp.calls, hp.events⟩

theorem orStop {ε : Type} (wrap : ε → AssemblyError) (r : Except ε α) :
    Alike S (Assembly.orStop wrap r : Step σ α) (Assembly.orStop wrap r) Eq := by
  cases r with
  | ok v => exact ret rfl
  | error e => exact stop (.refl _)

/-- The same call has the same answer. -/
theorem ask (a : Workshop σ) {call : Call} (h : ∀ e, call ≠ .submit e) :
    Alike S (Assembly.ask a call) (Assembly.ask a call) Eq := by
  intro p q hp
  refine ⟨.of_answers (answer_ask a call p) (answer_ask a call q) ?_, hp.ask (.same h) rfl rfl⟩
  rw [hp.service]

/-- A service that does not read edits answers them alike. -/
theorem submit {a : Workshop σ} (ha : Unread a.service) {e e' : Json} (h : S e e') :
    Alike S (Assembly.ask a (.submit e)) (Assembly.ask a (.submit e')) (@Eq String) := by
  intro p q hp
  obtain ⟨hsame, htime⟩ := ha e e' p.service
  refine ⟨.of_answers (answer_ask a (.submit e) p) (answer_ask a (.submit e') q) ?_,
    hp.ask (.submit h) (congrArg Prod.snd hsame) htime⟩
  rw [← hp.service]
  exact congrArg Prod.fst hsame

/-! ## Waiting -/

theorem lookUntil {interval timeout started : Nat} {late : AssemblyError}
    {look : γ → Step σ (Look γ α)} (h : ∀ m, Alike S (look m) (look m) Eq) :
    ∀ looks m, Alike S (Assembly.lookUntil interval timeout late started look looks m)
      (Assembly.lookUntil interval timeout late started look looks m) Eq
  | 0, _ => stop (.refl _)
  | looks + 1, m => by
    refine bind (h m) fun r _ hr => ?_
    subst hr
    cases r with
    | settled v => exact ret rfl
    | pending m' =>
      refine read fun p q hp => ?_
      dsimp only
      rw [hp.clock]
      split
      · exact halt (.refl _)
      · exact bind (pause _) fun _ _ _ => lookUntil h looks m'

theorem await {interval timeout : Nat} {late : AssemblyError} {look : γ → Step σ (Look γ α)}
    (h : ∀ m, Alike S (look m) (look m) Eq) (m : γ) :
    Alike S (Assembly.await interval timeout late look m)
      (Assembly.await interval timeout late look m) Eq := by
  refine read fun p q hp => ?_
  rw [hp.clock]
  exact lookUntil h _ m

/-- An event that is told only in some cases. -/
theorem tellIf {c : Prop} [Decidable c] {event : Event} {next : Unit → Step σ α}
    {next' : Unit → Step σ β} (h : Alike S (next ()) (next' ()) R) :
    Alike S (if c then Assembly.tell event >>= next else next ())
      (if c then Assembly.tell event >>= next' else next' ()) R := by
  split
  · exact bind (tell event) fun _ _ _ => h
  · exact h

/-! ## The parts of an assembly -/

theorem awaitSource (a : Workshop σ) (id path : String) :
    Alike S (Assembly.awaitSource a id path) (Assembly.awaitSource a id path) Eq := by
  refine await (fun _ => ?_) ()
  unfold lookAtSource
  refine bind (ask a nofun) fun state _ hstate => ?_
  subst hstate
  cases state with
  | ready url => exact ret rfl
  | failed => exact stop (.refl _)
  | pending word => exact ret rfl

theorem awaitRender (a : Workshop σ) (id : String) :
    Alike S (Assembly.awaitRender a id) (Assembly.awaitRender a id) Eq := by
  refine await (fun _ => ?_) none
  unfold lookAtRender
  refine bind (ask a nofun) fun status _ hstatus => ?_
  subst hstatus
  refine tellIf ?_
  cases status.state with
  | done =>
    cases nonEmpty? status.url with
    | some url => exact ret rfl
    | none => exact stop (.refl _)
  | failed => exact stop (.refl _)
  | queued | fetching | rendering | saving | unknown => exact ret rfl

theorem upload (a : Workshop σ) (shelf : Shelf) (total index : Nat) (raw : String) :
    Alike S (Assembly.upload a shelf total index raw) (Assembly.upload a shelf total index raw)
      fun u u' => u = u' ∧ u.raw = raw := by
  unfold Assembly.upload
  cases shelf.resolve? a.here.disk raw with
  | none => exact stop (.refl _)
  | some path =>
    refine bind (tell _) fun _ _ _ => bind (ask a nofun) fun slot _ hslot => ?_
    subst hslot
    refine bind (ask a nofun) fun _ _ _ => bind (awaitSource a slot.id path)
      fun url _ hurl => ?_
    subst hurl
    exact bind (tell _) fun _ _ _ => ret ⟨rfl, rfl⟩

/-- The same files are uploaded, one for each path. -/
theorem uploadEach (a : Workshop σ) (shelf : Shelf) (total : Nat) : ∀ raws index,
    Alike S (Assembly.uploadEach a shelf total index raws)
      (Assembly.uploadEach a shelf total index raws) fun us us' => us = us' ∧ us.map (·.raw) = raws
  | [], _ => ret ⟨rfl, rfl⟩
  | raw :: rest, index => by
    refine bind (upload a shelf total index raw) fun u _ hu => ?_
    refine bind (uploadEach a shelf total rest (index + 1)) fun us _ hus => ?_
    obtain ⟨rfl, hraw⟩ := hu
    obtain ⟨rfl, hraws⟩ := hus
    exact ret ⟨rfl, by rw [List.map_cons, hraw, hraws]⟩

end Alike

/-! ## Documents that are rendered alike -/

/-- Documents with the same media paths, the same destination, rule findings of the same severities,
and edits that `S` holds between once the same files are uploaded. -/
structure Twins (S : Json → Json → Prop) (doc doc' : Document) : Prop where
  raws : (references doc').map (·.raw) = (references doc).map (·.raw)
  resourcesDir : doc'.resourcesDir? = doc.resourcesDir?
  name : doc'.name? = doc.name?
  output : doc'.output?.map (·.value) = doc.output?.map (·.value)
  severities : (ruleFindings doc').map (·.severity) = (ruleFindings doc).map (·.severity)
  edits : ∀ uploads : List Upload,
    uploads.map (·.raw) = ((references doc).map (·.raw)).eraseDups →
      ∃ e e', edit doc (references doc) uploads = .ok e ∧
        edit doc' (references doc') uploads = .ok e' ∧ S e e'

namespace Twins

variable {doc doc' : Document} (h : Twins S doc doc')
include h

theorem distinctRaws : distinctRaws (references doc') = distinctRaws (references doc) := by
  rw [Assembly.distinctRaws, Assembly.distinctRaws, distinct_grouped, distinct_grouped, h.raws]

theorem shelfOf (settings : CheckSettings) (baseDir : String) :
    shelfOf settings baseDir doc' = shelfOf settings baseDir doc := by
  unfold VideoScript.shelfOf
  rw [h.resourcesDir]

theorem destination (disk : Disk) (script baseDir : String) (requested : Option String) :
    destination disk doc' script baseDir requested =
      destination disk doc script baseDir requested := by
  have hfile : videoFile doc' script = videoFile doc script := by
    unfold videoFile videoStem videoFormat
    rw [h.name, h.output]
  unfold Assembly.destination
  rw [hfile]

/-- Twins are rendered alike. -/
theorem renderStep {a : Workshop σ} (ha : Unread a.service) (order : Order) (baseDir : String)
    {report report' : Option Report} (hreport : Option.Rel SameVerdict report report') :
    Alike S (Assembly.renderStep a order doc baseDir report)
      (Assembly.renderStep a order doc' baseDir report') SameOutcome := by
  unfold Assembly.renderStep
  dsimp only
  rw [h.distinctRaws, h.shelfOf, h.destination]
  refine .bind (.uploadEach a _ _ _ 1) fun us _ hus => ?_
  obtain ⟨rfl, hraws⟩ := hus
  rw [Assembly.distinctRaws, distinct_grouped] at hraws
  obtain ⟨e, e', he, he', hS⟩ := h.edits us hraws
  rw [he, he']
  refine .bind (.ret (R := S) hS) fun e e' hS => .bind (.submit ha hS) fun id _ hid => ?_
  subst hid
  refine .bind (.tell _) fun _ _ _ => .bind (.awaitRender a id) fun url _ hurl => ?_
  subst hurl
  refine .bind (.tell _) fun _ _ _ => .bind (.ask a nofun) fun bytes _ hbytes => ?_
  subst hbytes
  exact .bind (.tell _) fun _ _ _ => .ret ⟨rfl, rfl, rfl, rfl, rfl, hreport⟩

end Twins

/-! ## Their checks -/

namespace SameVerdict

variable {r r' : Report} (h : SameVerdict r r')
include h

theorem passed : r.passed = r'.passed := by
  have hany (strict : Bool) (findings : List Finding) : findings.any (Report.isFatal strict) =
      (findings.map (·.severity)).any fun s => s = .error || (strict && s = .warning) := by
    rw [List.any_map]
    rfl
  rw [Report.passed, Report.passed, hany, hany, h.strict, h.severities]

theorem count (severity : Severity) : r.count severity = r'.count severity := by
  have hcount (r : Report) :
      r.count severity = ((r.findings.map (·.severity)).filter (· = severity)).length := by
    rw [List.filter_map, List.length_map]
    rfl
  rw [hcount, hcount, h.severities]

end SameVerdict

/-- What is the same error has the same wording. -/
theorem SameError.message {e e' : AssemblyError} (h : SameError e e') : e.message = e'.message := by
  cases h with
  | refl => rfl
  | failedCheck h =>
    unfold AssemblyError.message
    dsimp only
    rw [h.count, h.count]

/-- Checks that fail for the same reason, or give the same verdict. -/
inductive SameCheck : Except CheckFailure Report → Except CheckFailure Report → Prop
  | ok {r r' : Report} (h : SameVerdict r r') : SameCheck (.ok r) (.ok r')
  | error (e : CheckFailure) : SameCheck (.error e) (.error e)

namespace Twins

variable {doc doc' : Document} (h : Twins S doc doc')
include h

theorem checkDocument (here : Surroundings) (settings : CheckSettings) (baseDir : String) :
    SameCheck (checkDocument here settings doc baseDir)
      (checkDocument here settings doc' baseDir) := by
  have hfiles := severities_fileFindings here.schedule here.disk settings
    (VideoScript.shelfOf settings baseDir doc) h.raws
  unfold VideoScript.checkDocument
  dsimp only
  rw [h.shelfOf]
  revert hfiles
  rcases fileFindings here.schedule here.disk settings (VideoScript.shelfOf settings baseDir doc)
    (references doc) with e | files <;>
  rcases fileFindings here.schedule here.disk settings (VideoScript.shelfOf settings baseDir doc)
    (references doc') with e' | files'
  · rintro ⟨⟩
    exact .error _
  · rintro ⟨⟩
  · rintro ⟨⟩
  · intro hfiles
    refine .ok ⟨rfl, ?_⟩
    rw [List.map_append, List.map_append, h.severities, Except.ok.inj hfiles]

theorem checkDocumentStep (a : Workshop σ) (order : Order) (baseDir : String) :
    Alike S (checkDocumentStep a order doc baseDir) (checkDocumentStep a order doc' baseDir)
      (Option.Rel SameVerdict) := by
  unfold Assembly.checkDocumentStep
  cases order.skipChecks || a.check.skipChecks with
  | true => exact .bind (.tell _) fun _ _ _ => .ret .none
  | false =>
    rw [if_neg Bool.false_ne_true, if_neg Bool.false_ne_true]
    have hsame := h.checkDocument a.here a.check baseDir
    revert hsame
    rcases VideoScript.checkDocument a.here a.check doc baseDir with e | r <;>
    rcases VideoScript.checkDocument a.here a.check doc' baseDir with e' | r'
    · rintro ⟨⟩
      exact .halt (.refl _)
    · rintro ⟨⟩
    · rintro ⟨⟩
    · rintro ⟨hverdict⟩
      refine .bind (.ret (R := SameVerdict) hverdict) fun r r' hverdict => ?_
      rw [hverdict.passed, hverdict.count]
      split
      · exact .bind (.tell _) fun _ _ _ => .ret (.some hverdict)
      · exact .stop (.failedCheck hverdict)

end Twins

/-! ## The whole -/

/-- Scripts that are twins are assembled alike, with a service that does not read edits. -/
theorem Twins.run {doc doc' : Document} (h : Twins S doc doc') {a : Workshop σ}
    (ha : Unread a.service) (order : Order) (s : σ) {text text' : String}
    (ht : parse text = .ok doc.toJson) (ht' : parse text' = .ok doc'.toJson) :
    SameResult SameOutcome (run (a.withScript order.script text) order s).1
        (run (a.withScript order.script text') order s).1 ∧
      SameProgress S (run (a.withScript order.script text) order s).2
        (run (a.withScript order.script text') order s).2 := by
  unfold Assembly.run
  rw [assemble_withScript a order ht, assemble_withScript a order ht']
  refine Alike.bind (h.checkDocumentStep a order _) (fun report report' hreport => ?_) _ _
    (.start s)
  exact h.renderStep ha order _ hreport

end

end VideoScript.Assembly
