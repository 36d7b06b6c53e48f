import Mathlib.Algebra.Order.Floor.Div
import VideoScript.Proofs.Assembly.Contract
import VideoScript.Proofs.Settings.Layers
import VideoScript.Web.Standard

/-!
# Waiting ends on time

While an assembly waits for a file or for a render it makes one call over and over. `answerAt` is
what the service answers to it the `k`th time, counted from 0, and a `Verdict` says what an answer
decides: the address or the error with which the waiting ends, or nothing.

When answers take no time (`AtOnce`), look `k` is made `k` pauses after the start. The look at which
the time is over is the last one, so there are at most `timeout ⌈/⌉ interval + 1` looks. The first
of them whose answer decides something decides the result, also when the time is over by then; the
waiting is late exactly when none does (`EndsOnTime`). When answers take time there are no more
looks than that (`waits_are_bounded`).
-/

set_option autoImplicit false

namespace VideoScript.Assembly

open Render

section
variable {σ : Type}

/-! ## Answers and what they decide -/

/-- The answer to a call that was made `k` times before and nothing else. -/
def answerAt (service : Service σ) (call : Call) (s : σ) (k : Nat) :
    Except ServiceError call.Answer :=
  (service.answer call ((fun s => (service.answer call s).2)^[k] s)).1

/-- The service answers at once, so time passes in pauses alone. -/
def AtOnce (service : Service σ) : Prop := ∀ call s, service.duration call s = 0

/-- What answers to a call decide: how the waiting ends, or nothing. -/
abbrev Verdict (call : Call) :=
  Except ServiceError call.Answer → Option (Except AssemblyError String)

/-- What an answer about an uploaded file decides. -/
def sourceVerdict (id path : String) : Verdict (.sourceState id)
  | .ok (.ready url) => some (.ok url)
  | .ok .failed => some (.error (.sourceFailed id path))
  | .ok (.pending _) => none
  | .error e => some (.error (.service e))

/-- What an answer about a render decides. -/
def renderVerdict (id : String) : Verdict (.renderState id)
  | .ok status => match status.state with
    | .done => some (match nonEmpty? status.url with
      | some url => .ok url
      | none => .error (.noVideo id))
    | .failed =>
      some (.error (.renderFailed id ((nonEmpty? status.error).getD "unknown error")))
    | _ => none
  | .error e => some (.error (.service e))

/-- The first `n` looks of a waiting. -/
def looks (interval started : Nat) (call : Call) (n : Nat) : List (Nat × Call) :=
  (List.range n).map fun k => (started + k * interval, call)

theorem looks_succ (interval started : Nat) (call : Call) (n : Nat) :
    looks interval started call (n + 1) =
      looks interval started call n ++ [(started + n * interval, call)] := by
  rw [looks, List.range_succ, List.map_append]
  rfl

/-! ## One look -/

/-- The progress `p` is `q` but for events. -/
def Told (q p : Progress σ) : Prop := ∃ events, p = { q with events }

theorem Told.tell {q p : Progress σ} (h : Told q p) (event : Event) :
    Told q { p with events := p.events ++ [event] } := by
  obtain ⟨events, rfl⟩ := h
  exact ⟨_, rfl⟩

/-- A part ends with progress `q`, but for events, and in the way that was decided. -/
def Concludes {γ : Type} (part : Step σ (Look γ String)) (P : Progress σ → Prop) (q : Progress σ)
    (decided : Option (Except AssemblyError String)) : Prop :=
  Meets part P
    (fun r p => Told q p ∧ decided = match r with
      | .settled url => some (.ok url)
      | .pending _ => none)
    (fun e p => Told q p ∧ decided = some (.error e))

/-- A look makes the call once and goes by what the answer decides. It may tell events. -/
def GoesBy {γ : Type} (a : Workshop σ) {call : Call} (verdict : Verdict call)
    (look : γ → Step σ (Look γ String)) : Prop :=
  ∀ memory q, Concludes (look memory) (· = q) (q.asked a call)
    (verdict (a.service.answer call q.service).1)

variable {a : Workshop σ}

/-- A look that makes its call first goes by the answer if what comes after does. -/
theorem goesBy_of_ask {γ : Type} {call : Call} {verdict : Verdict call}
    {next : γ → call.Answer → Step σ (Look γ String)}
    (he : ∀ e, verdict (.error e) = some (.error (.service e)))
    (hnext : ∀ memory answer q, Concludes (next memory answer) (Told q) q (verdict (.ok answer))) :
    GoesBy a verdict fun memory => ask a call >>= next memory := by
  intro memory q
  refine Meets.bind (M := fun answer p => p = q.asked a call ∧
    (a.service.answer call q.service).1 = .ok answer)
    (Meets.ask (by rintro answer _ rfl h; exact ⟨rfl, h⟩) ?_) fun answer => ?_
  · rintro e _ rfl h
    exact ⟨⟨_, rfl⟩, by rw [h, he]⟩
  · rintro _ ⟨rfl, h⟩
    rw [h]
    exact hnext memory answer _ _ ⟨_, rfl⟩

theorem goesBy_lookAtSource (id path : String) :
    GoesBy a (sourceVerdict id path) (lookAtSource a id path) := by
  refine goesBy_of_ask (fun _ => rfl) fun memory state q => ?_
  cases state with
  | ready url => exact Meets.ret fun p h => ⟨h, rfl⟩
  | failed => exact Meets.stop fun p h => ⟨h, rfl⟩
  | pending word => exact Meets.ret fun p h => ⟨h, rfl⟩

theorem goesBy_lookAtRender (id : String) :
    GoesBy a (renderVerdict id) (lookAtRender a id) := by
  refine goesBy_of_ask (fun _ => rfl) fun last status q => ?_
  refine Meets.tellIf (P := Told q) ?_ fun p h => h.tell _
  unfold renderVerdict
  dsimp only
  cases status.state with
  | done =>
    dsimp only
    cases nonEmpty? status.url with
    | some url => exact Meets.ret fun p h => ⟨h, rfl⟩
    | none => exact Meets.stop fun p h => ⟨h, rfl⟩
  | failed => exact Meets.stop fun p h => ⟨h, rfl⟩
  | queued | fetching | rendering | saving | unknown => exact Meets.ret fun p h => ⟨h, rfl⟩

/-! ## All looks -/

/-- The answers to the first `k` looks have decided nothing. -/
structure Undecided {call : Call} (a : Workshop σ) (verdict : Verdict call) (interval : Nat)
    (q : Progress σ) (k : Nat) (p : Progress σ) : Prop where
  service : p.service = (fun s => (a.service.answer call s).2)^[k] q.service
  calls : p.calls = q.calls ++ looks interval q.clock call k
  pending : ∀ j < k, verdict (answerAt a.service call q.service j) = none

/-- The waiting has ended after look `k`. -/
structure EndsAt {call : Call} (a : Workshop σ) (verdict : Verdict call) (interval : Nat)
    (q : Progress σ) (decided : Option (Except AssemblyError String)) (k : Nat) (p : Progress σ) :
    Prop where
  calls : p.calls = q.calls ++ looks interval q.clock call (k + 1)
  pending : ∀ j < k, verdict (answerAt a.service call q.service j) = none
  last : verdict (answerAt a.service call q.service k) = decided

section
variable {call : Call} {verdict : Verdict call} {interval timeout k : Nat} {late : AssemblyError}
  {p p' q : Progress σ} {decided : Option (Except AssemblyError String)}

theorem Undecided.look (h : Undecided a verdict interval q k p)
    (hclock : p.clock = q.clock + k * interval) (ht : Told (p.asked a call) p')
    (hv : verdict (a.service.answer call p.service).1 = decided) :
    EndsAt a verdict interval q decided k p' := by
  obtain ⟨events, rfl⟩ := ht
  refine ⟨?_, h.pending, ?_⟩
  · show p.calls ++ [(p.clock, call)] = _
    rw [h.calls, hclock, looks_succ, List.append_assoc]
  · rw [← hv, h.service]
    rfl

theorem Undecided.succ (h : Undecided a verdict interval q k p)
    (hclock : p.clock = q.clock + k * interval) (ht : Told (p.asked a call) p')
    (hv : verdict (a.service.answer call p.service).1 = none) (clock : Nat) :
    Undecided a verdict interval q (k + 1) { p' with clock } := by
  have hend := h.look hclock ht hv
  obtain ⟨events, rfl⟩ := ht
  refine ⟨?_, hend.calls, fun j hj => ?_⟩
  · rw [Function.iterate_succ_apply', ← h.service]
    rfl
  · rcases Nat.lt_succ_iff_lt_or_eq.1 hj with hj | rfl
    · exact hend.pending j hj
    · exact hend.last

/-- Before the last look the time is not over. -/
theorem lt_ceilDiv_iff (hinterval : 0 < interval) :
    k < timeout ⌈/⌉ interval ↔ ¬ timeout ≤ k * interval := by
  rw [← not_le, ceilDiv_le_iff_le_mul hinterval, Nat.mul_comm]

theorem AtOnce.clock_asked (h : AtOnce a.service) (call : Call) (p : Progress σ) :
    (p.asked a call).clock = p.clock := by
  rw [Progress.asked, h call p.service, Nat.add_zero]

theorem meets_await {γ : Type} {look : γ → Step σ (Look γ String)} (hlook : GoesBy a verdict look)
    (hinterval : 0 < interval) (hnow : AtOnce a.service) (memory : γ) :
    Meets (await interval timeout late look memory) (· = q)
      (fun url p => ∃ k ≤ timeout ⌈/⌉ interval, EndsAt a verdict interval q (some (.ok url)) k p)
      (fun e p => (∃ k ≤ timeout ⌈/⌉ interval,
          EndsAt a verdict interval q (some (.error e)) k p) ∨
        e = late ∧ EndsAt a verdict interval q none (timeout ⌈/⌉ interval) p) := by
  have hpause : pauseBetween interval = interval := Nat.max_eq_left hinterval
  -- the number of pauses so far is the number of the look that comes next
  refine Meets.await (J := fun q k _ p => k ≤ timeout ⌈/⌉ interval ∧
    Undecided a verdict interval q k p ∧ p.clock = q.clock + k * interval) ?_ ?_
  · exact fun q _ => ⟨Nat.zero_le _, ⟨rfl, (List.append_nil _).symm, by simp⟩, by simp⟩
  rintro q rfl k m p ⟨⟨hk, hopen, hclock⟩, -⟩
  rw [hpause]
  have h := hlook m p p rfl
  revert h
  rcases (look m).run.run p with ⟨e | url | m', p'⟩
  · rintro ⟨ht, hv⟩
    exact .inl ⟨k, hk, hopen.look hclock ht hv⟩
  · rintro ⟨ht, hv⟩
    exact ⟨k, hk, hopen.look hclock ht hv⟩
  · rintro ⟨ht, hv⟩
    have hclock' : p'.clock = q.clock + k * interval := by
      obtain ⟨events, rfl⟩ := ht
      exact (hnow.clock_asked call p).trans hclock
    refine ⟨hclock'.ge, ?_⟩
    rw [hclock', Nat.add_sub_cancel_left]
    by_cases hover : timeout ≤ k * interval
    -- the time is over only at the last look, whose answer has decided nothing
    · rw [if_pos hover]
      have hlast : k = timeout ⌈/⌉ interval :=
        Nat.le_antisymm hk (Nat.le_of_not_lt fun hlt => (lt_ceilDiv_iff hinterval).1 hlt hover)
      exact .inr ⟨rfl, hlast ▸ hopen.look hclock ht hv⟩
    · rw [if_neg hover]
      refine ⟨(lt_ceilDiv_iff hinterval).2 hover, hopen.succ hclock ht hv _, ?_⟩
      rw [Nat.succ_mul, Nat.add_assoc]

/-- However long the answers take, and also when there is to be no pause, the looks come to an
end. -/
theorem length_calls_await_le {γ : Type} {look : γ → Step σ (Look γ String)}
    (hlook : GoesBy a verdict look) (memory : γ) (q : Progress σ) :
    ((await interval timeout late look memory).run.run q).2.calls.length ≤
      q.calls.length + (timeout ⌈/⌉ pauseBetween interval + 1) := by
  let Few : Progress σ → Prop := fun p =>
    p.calls.length ≤ q.calls.length + (timeout ⌈/⌉ pauseBetween interval + 1)
  have h : Meets (await interval timeout late look memory) (· = q) (fun _ => Few) fun _ => Few := by
    refine Meets.await (J := fun q k _ p => k ≤ timeout ⌈/⌉ pauseBetween interval ∧
      p.calls.length = q.calls.length + k) (fun _ _ => ⟨Nat.zero_le _, rfl⟩) ?_
    rintro q rfl k m p ⟨⟨hk, hlength⟩, hclock⟩
    -- a look is one call more, and time goes on
    have hone {p' : Progress σ} (ht : Told (p.asked a call) p') :
        p'.calls.length = q.calls.length + (k + 1) ∧ p.clock ≤ p'.clock := by
      obtain ⟨events, rfl⟩ := ht
      refine ⟨?_, p.clock_le_asked a call⟩
      rw [Progress.asked, List.length_append, hlength, List.length_singleton, Nat.add_assoc]
    have hfew {p' : Progress σ} (ht : Told (p.asked a call) p') : Few p' :=
      (hone ht).1.le.trans (Nat.add_le_add_left (Nat.succ_le_succ hk) _)
    have h := hlook m p p rfl
    revert h
    rcases (look m).run.run p with ⟨e | url | m', p'⟩
    · exact fun h => hfew h.1
    · exact fun h => hfew h.1
    · intro h
      obtain ⟨hcalls, hlater⟩ := hone h.1
      refine ⟨hclock.trans hlater, ?_⟩
      by_cases hover : timeout ≤ p'.clock - q.clock
      · rw [if_pos hover]
        exact hfew h.1
      · rw [if_neg hover]
        refine ⟨(lt_ceilDiv_iff (pauseBetween_pos interval)).2 fun hle => hover ?_, hcalls⟩
        omega
  have hend := h q rfl
  revert hend
  rcases (await interval timeout late look memory).run.run q with ⟨_ | _, p⟩ <;> exact id

/-! ## The whole waiting -/

/-- A waiting from progress `q` to progress `p` ends on time. -/
structure EndsOnTime (a : Workshop σ) (verdict : Verdict call) (interval timeout : Nat)
    (late : AssemblyError) (q : Progress σ) (result : Except AssemblyError String)
    (p : Progress σ) : Prop where
  /-- There are at most `timeout ⌈/⌉ interval + 1` looks, one after each pause. -/
  bounded : ∃ n ≤ timeout ⌈/⌉ interval + 1, p.calls = q.calls ++ looks interval q.clock call n
  /-- The first look whose answer decides something is the last one, and it decides the result. -/
  decided : ∀ k ≤ timeout ⌈/⌉ interval,
    (∀ j < k, verdict (answerAt a.service call q.service j) = none) →
    ∀ r, verdict (answerAt a.service call q.service k) = some r →
      result = r ∧ p.calls = q.calls ++ looks interval q.clock call (k + 1)
  /-- The waiting is late exactly when the answers to all looks decide nothing. -/
  late : result = .error late ↔
    ∀ k ≤ timeout ⌈/⌉ interval, verdict (answerAt a.service call q.service k) = none

/-- Only one look is the first whose answer decides something. -/
theorem EndsAt.unique (h : EndsAt a verdict interval q decided k p) (hd : decided ≠ none) {j : Nat}
    (hpending : ∀ i < j, verdict (answerAt a.service call q.service i) = none)
    (hj : verdict (answerAt a.service call q.service j) ≠ none) : j = k := by
  rcases Nat.lt_trichotomy j k with hlt | heq | hlt
  · exact absurd (h.pending j hlt) hj
  · exact heq
  · exact absurd (h.last ▸ hpending k hlt) hd

theorem EndsAt.endsOnTime {result : Except AssemblyError String}
    (h : EndsAt a verdict interval q (some result) k p) (hk : k ≤ timeout ⌈/⌉ interval)
    (hlate : result ≠ .error late) : EndsOnTime a verdict interval timeout late q result p := by
  refine ⟨⟨k + 1, Nat.succ_le_succ hk, h.calls⟩, fun j hj hpending r hr => ?_, ?_⟩
  · obtain rfl := h.unique (by simp) hpending (by simp [hr])
    have hlast := h.last
    rw [hr] at hlast
    exact ⟨(Option.some.inj hlast).symm, h.calls⟩
  · refine iff_of_false hlate fun hall => ?_
    have hlast := h.last
    rw [hall k hk] at hlast
    cases hlast

theorem EndsAt.late_endsOnTime (h : EndsAt a verdict interval q none (timeout ⌈/⌉ interval) p) :
    EndsOnTime a verdict interval timeout late q (.error late) p := by
  have hall : ∀ k ≤ timeout ⌈/⌉ interval,
      verdict (answerAt a.service call q.service k) = none := by
    intro k hk
    rcases Nat.lt_or_eq_of_le hk with hlt | rfl
    · exact h.pending k hlt
    · exact h.last
  refine ⟨⟨_, le_rfl, h.calls⟩, fun k hk _ r hr => ?_, iff_of_true rfl hall⟩
  rw [hall k hk] at hr
  cases hr

theorem await_endsOnTime {γ : Type} {look : γ → Step σ (Look γ String)}
    (hlook : GoesBy a verdict look) (hinterval : 0 < interval) (hnow : AtOnce a.service)
    (hlate : ∀ answer, verdict answer ≠ some (.error late)) (memory : γ) (q : Progress σ) :
    EndsOnTime a verdict interval timeout late q
      ((await interval timeout late look memory).run.run q).1
      ((await interval timeout late look memory).run.run q).2 := by
  have h := @meets_await σ a call verdict interval timeout late q γ look hlook hinterval hnow
    memory q rfl
  revert h
  rcases (await interval timeout late look memory).run.run q with ⟨e | url, p⟩
  · rintro (⟨k, hk, h⟩ | ⟨rfl, h⟩)
    · refine h.endsOnTime hk ?_
      rintro ⟨⟩
      exact hlate _ h.last
    · exact h.late_endsOnTime
  · rintro ⟨k, hk, h⟩
    exact h.endsOnTime hk nofun

end

theorem sourceVerdict_ne_late (id path : String) (waited : Nat)
    (answer : Except ServiceError SourceState) :
    sourceVerdict id path answer ≠ some (.error (.sourceLate id waited)) := by
  rcases answer with e | url | - | word <;> nofun

theorem renderVerdict_ne_late (id : String) (waited : Nat) (answer : Except ServiceError Status) :
    renderVerdict id answer ≠ some (.error (.renderLate id waited)) := by
  rcases answer with e | status
  · nofun
  · unfold renderVerdict
    dsimp only
    cases status.state with
    | done =>
      dsimp only
      cases nonEmpty? status.url <;> nofun
    | _ => nofun

/-- However long the answers take, an assembly looks at a file, and at a render, only so often. -/
theorem waits_are_bounded (a : Workshop σ) (q : Progress σ) (id path : String) :
    let looksWithin (timeout : Nat) : Nat :=
      timeout ⌈/⌉ pauseBetween a.settings.pollInterval + 1
    ((awaitSource a id path).run.run q).2.calls.length ≤
        q.calls.length + looksWithin a.settings.sourceTimeout ∧
      ((awaitRender a id).run.run q).2.calls.length ≤
        q.calls.length + looksWithin a.settings.renderTimeout :=
  ⟨length_calls_await_le (goesBy_lookAtSource id path) () q,
    length_calls_await_le (goesBy_lookAtRender id) none q⟩

/-- **Waiting ends on time.** Options that are found pause between two looks. With a pause, waiting
for an uploaded file and waiting for a render both end on time, whatever the service answers at
once. -/
theorem waits_end_on_time [Web.UrlReader] (a : Workshop σ) (q : Progress σ) (id path : String) :
    (∀ disk workingDirectory environment named dir o s,
      Options.resolve disk workingDirectory environment named dir = .ok o →
      o.serviceSettings? = some s → 0 < s.pollInterval) ∧
    (0 < a.settings.pollInterval → AtOnce a.service →
      (let (result, p) := (awaitSource a id path).run.run q
       EndsOnTime a (sourceVerdict id path) a.settings.pollInterval a.settings.sourceTimeout
        (.sourceLate id a.settings.sourceTimeout) q result p) ∧
      (let (result, p) := (awaitRender a id).run.run q
       EndsOnTime a (renderVerdict id) a.settings.pollInterval a.settings.renderTimeout
        (.renderLate id a.settings.renderTimeout) q result p)) := by
  refine ⟨fun disk workingDirectory environment named dir o s ho hs => ?_,
    fun hinterval hnow => ⟨?_, ?_⟩⟩
  · obtain ⟨-, -, -, -, -, hsensible⟩ := Options.resolve_eq_ok_iff.1 ho
    exact (hsensible.times hs).1
  · exact await_endsOnTime (goesBy_lookAtSource id path) hinterval hnow
      (sourceVerdict_ne_late id path _) () q
  · exact await_endsOnTime (goesBy_lookAtRender id) hinterval hnow
      (renderVerdict_ne_late id _) none q

/-- A service that is done with a file at the third question, and never with a render. -/
def slowService : Service Nat where
  answer
    | .sourceState _, n =>
      (.ok (if n < 2 then .pending "importing" else .ready "https://cdn/a"), n + 1)
    | .renderState _, n => (.ok { Status.blank with state := .rendering }, n + 1)
    | _, n => (.error (.setup "no network"), n)

/-- A workshop that pauses for 5 and waits for 7. -/
def hastyWorkshop : Workshop Nat where
  here := .ofTree ⟨[], "/"⟩
  check := .standard
  settings := { ServiceSettings.standard "key" with
    pollInterval := 5, sourceTimeout := 7, renderTimeout := 7 }
  service := slowService

theorem waits_end_on_time_hasty :
    let disk := hastyWorkshop.here.disk
    let environment := [("SHOTSTACK_API_KEY", "key")]
    let q : Progress Nat := .start 0
    (∃ o s, Options.resolve disk "/" environment none "/" = .ok o ∧
      o.serviceSettings? = some s ∧ 0 < s.pollInterval) ∧
    0 < hastyWorkshop.settings.pollInterval ∧ AtOnce hastyWorkshop.service ∧
    (let (result, p) := (awaitSource hastyWorkshop "x" "a.mp4").run.run q
     result = .ok "https://cdn/a" ∧ p.calls = looks 5 0 (.sourceState "x") 3 ∧
      EndsOnTime hastyWorkshop (sourceVerdict "x" "a.mp4") 5 7 (.sourceLate "x" 7) q result p) ∧
    (let (result, p) := (awaitRender hastyWorkshop "x").run.run q
     result = .error (.renderLate "x" 7) ∧ p.calls = looks 5 0 (.renderState "x") 3 ∧
      EndsOnTime hastyWorkshop (renderVerdict "x") 5 7 (.renderLate "x" 7) q result p) := by
  intro disk environment q
  have h := waits_end_on_time hastyWorkshop q "x" "a.mp4"
  have hnow : AtOnce hastyWorkshop.service := fun _ _ => rfl
  have hends := h.2 (by decide) hnow
  refine ⟨?_, by decide, hnow, ⟨rfl, rfl, hends.1⟩, ⟨rfl, rfl, hends.2⟩⟩
  have hfound : ((Options.resolve disk "/" environment none "/").toOption.bind
      Options.serviceSettings?).isSome = true := by decide +kernel
  obtain ⟨s, hfound⟩ := Option.isSome_iff_exists.1 hfound
  obtain ⟨o, ho, hs⟩ := Option.bind_eq_some_iff.1 hfound
  rw [toOption_eq_some_iff] at ho
  exact ⟨o, s, ho, hs, h.1 _ _ _ _ _ _ _ ho hs⟩

end

end VideoScript.Assembly
