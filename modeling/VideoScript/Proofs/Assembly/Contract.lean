import VideoScript.Assembly.Run
import VideoScript.Proofs.Lists

/-!
# Contracts of the parts of an assembly

`Meets part P Q E`: from progress in `P`, `part` gives a value with progress in `Q`, or stops with
an error with progress in `E`. The service may answer anything, so a contract of `ask` covers every
answer (`Meets.ask`). Contracts compose along `bind` (`Meets.bind`); waiting has the rule of a loop
with an invariant for the number of looks that are left (`Meets.lookUntil`). Each pause lets time
pass, so the looks do not run out before the time does (`Meets.wait`). `Meets.await` and
`Meets.awaitKeeping` are these rules for a waiting that starts now.
-/

set_option autoImplicit false

namespace VideoScript.Assembly

open Render

section
variable {σ α β : Type} {P P' : Progress σ → Prop} {Q Q' : α → Progress σ → Prop}
  {E E' : AssemblyError → Progress σ → Prop}

/-- From progress in `P`, `part` ends in `Q`, or stops in `E`. -/
def Meets (part : Step σ α) (P : Progress σ → Prop) (Q : α → Progress σ → Prop)
    (E : AssemblyError → Progress σ → Prop) : Prop :=
  ∀ p, P p → match part.run.run p with
    | (.ok v, p') => Q v p'
    | (.error e, p') => E e p'

/-- The progress after a call. -/
def Progress.asked (a : Workshop σ) (call : Call) (p : Progress σ) : Progress σ :=
  { p with
    service := (a.service.answer call p.service).2
    clock := p.clock + a.service.duration call p.service
    calls := p.calls ++ [(p.clock, call)] }

/-- Time does not go back. -/
theorem Progress.clock_le_asked (a : Workshop σ) (call : Call) (p : Progress σ) :
    p.clock ≤ (p.asked a call).clock := Nat.le_add_right _ _

theorem run_ask (a : Workshop σ) (call : Call) (p : Progress σ) :
    (ask a call).run.run p = match (a.service.answer call p.service).1 with
      | .ok v => (.ok v, p.asked a call)
      | .error e => (.error (.service e), p.asked a call) := by
  show (do
    set (p.asked a call)
    match (a.service.answer call p.service).1 with
    | .ok answer => return answer
    | .error e => throw (.service e) : Step σ call.Answer).run.run p = _
  unfold Progress.asked
  rcases a.service.answer call p.service with ⟨_ | v, s⟩ <;> rfl

/-- The looks do not run out before the time does. -/
theorem lt_lookLimit {interval timeout k : Nat}
    (hk : k ≠ 0 → (k - 1) * pauseBetween interval < timeout) : k < lookLimit interval timeout := by
  rcases k with _ | k
  · exact Nat.succ_pos _
  · have hlt : k * pauseBetween interval < timeout := hk (Nat.succ_ne_zero k)
    have : k ≤ timeout / pauseBetween interval :=
      (Nat.le_div_iff_mul_le (pauseBetween_pos interval)).2 (Nat.le_of_lt hlt)
    exact Nat.succ_lt_succ (Nat.lt_succ_of_le this)

namespace Meets

theorem mono {part : Step σ α} (h : Meets part P Q E) (hp : ∀ p, P' p → P p)
    (hq : ∀ v p, Q v p → Q' v p) (he : ∀ e p, E e p → E' e p) : Meets part P' Q' E' := by
  intro p hP
  have := h p (hp p hP)
  revert this
  rcases part.run.run p with ⟨_ | v, p'⟩
  · exact he _ _
  · exact hq _ _

theorem ret {v : α} (h : ∀ p, P p → Q v p) : Meets (pure v) P Q E := h

theorem stop {e : AssemblyError} (h : ∀ p, P p → E e p) :
    Meets (throw e : Step σ α) P Q E := h

theorem bind {part : Step σ β} {next : β → Step σ α} {M : β → Progress σ → Prop}
    (h : Meets part P M E) (hn : ∀ v, Meets (next v) (M v) Q E) : Meets (part >>= next) P Q E := by
  intro p hP
  have h1 := h p hP
  rw [run_bind]
  revert h1
  rcases part.run.run p with ⟨_ | v, p'⟩
  · exact id
  · exact hn v p'

/-- Looking at the progress. -/
theorem read {next : Progress σ → Step σ α}
    (h : ∀ q, P q → Meets (next q) (· = q) Q E) : Meets (get >>= next) P Q E := by
  intro p hP
  exact h p hP p rfl

theorem tell {event : Event} {Q : Unit → Progress σ → Prop}
    (h : ∀ p, P p → Q () { p with events := p.events ++ [event] }) :
    Meets (Assembly.tell event) P Q E := h

/-- An event that is told only in some cases. -/
theorem tellWhen {c : Prop} [Decidable c] {event : Event} {next : Unit → Step σ α}
    {R : Progress σ → Prop} (hyes : c → ∀ p, P p → R { p with events := p.events ++ [event] })
    (hno : ¬ c → ∀ p, P p → R p) (h : Meets (next ()) R Q E) :
    Meets (if c then Assembly.tell event >>= next else next ()) P Q E := by
  by_cases hc : c
  · rw [if_pos hc]
    exact bind (tell (Q := fun _ => R) (hyes hc)) fun _ => h
  · rw [if_neg hc]
    exact mono h (hno hc) (fun _ _ h => h) fun _ _ h => h

/-- An event that may be told or not. -/
theorem tellIf {c : Prop} [Decidable c] {event : Event} {next : Unit → Step σ α}
    (h : Meets (next ()) P Q E) (hP : ∀ p, P p → P { p with events := p.events ++ [event] }) :
    Meets (if c then Assembly.tell event >>= next else next ()) P Q E :=
  tellWhen (fun _ => hP) (fun _ _ h => h) h

theorem pause {time : Nat} {Q : Unit → Progress σ → Prop}
    (h : ∀ p, P p → Q () { p with clock := p.clock + time }) :
    Meets (Assembly.pause time) P Q E := h

theorem orStop {ε : Type} {wrap : ε → AssemblyError} {r : Except ε α}
    (hok : ∀ v p, r = .ok v → P p → Q v p) (he : ∀ e p, r = .error e → P p → E (wrap e) p) :
    Meets (Assembly.orStop wrap r) P Q E := by
  cases r with
  | ok v => exact fun p hP => hok v p rfl hP
  | error e => exact fun p hP => he e p rfl hP

/-- A call, whatever the service answers. -/
theorem ask {a : Workshop σ} {call : Call} {Q : call.Answer → Progress σ → Prop}
    (hok : ∀ v p, P p → (a.service.answer call p.service).1 = .ok v → Q v (p.asked a call))
    (he : ∀ e p, P p → (a.service.answer call p.service).1 = .error e →
      E (.service e) (p.asked a call)) :
    Meets (Assembly.ask a call) P Q E := by
  intro p hP
  have h1 := fun v => hok v p hP
  have h2 := fun e => he e p hP
  rw [run_ask]
  revert h1 h2
  rcases (a.service.answer call p.service).1 with e | v
  · exact fun _ h2 => h2 e rfl
  · exact fun h1 _ => h1 v rfl

/-- Waiting. `I` holds before each look, with the number of looks that are left and what is
remembered from the last one. -/
theorem lookUntil {γ : Type} {interval timeout started : Nat} {late : AssemblyError}
    {look : γ → Step σ (Look γ α)} {I : Nat → γ → Progress σ → Prop}
    (hlook : ∀ n m, Meets (look m) (I (n + 1) m)
      (fun r p => match r with
        | .settled v => Q v p
        | .pending m' =>
          if timeout ≤ p.clock - started then E late p
          else I n m' { p with clock := p.clock + pauseBetween interval }) E)
    (hend : ∀ m p, I 0 m p → E late p) :
    ∀ n m, Meets (Assembly.lookUntil interval timeout late started look n m) (I n m) Q E
  | 0, m => stop (hend m)
  | n + 1, m => by
    refine bind (hlook n m) fun r => ?_
    cases r with
    | settled v => exact ret fun p h => h
    | pending m' =>
      refine read fun q hq => ?_
      dsimp only at hq ⊢
      by_cases ht : timeout ≤ q.clock - started
      · rw [if_pos ht] at hq ⊢
        exact bind (M := fun _ _ => False) (stop fun p hp => hp ▸ hq) fun _ _ h => h.elim
      · rw [if_neg ht] at hq ⊢
        refine bind (M := fun _ => I n m') (Meets.pause fun p hp => hp ▸ hq) fun _ => ?_
        exact lookUntil hlook hend n m'

/-- Waiting from the time `started` on: look `k` comes after `k` pauses, whatever time the looks
take, and the last look is the first one after which the time is over. `J k` holds before look
`k`. -/
theorem wait {γ : Type} {interval timeout started : Nat} {late : AssemblyError}
    {look : γ → Step σ (Look γ α)} {J : Nat → γ → Progress σ → Prop}
    (hlook : ∀ k m, Meets (look m)
      (fun p => J k m p ∧ started + k * pauseBetween interval ≤ p.clock)
      (fun r p => match r with
        | .settled v => Q v p
        | .pending m' => started + k * pauseBetween interval ≤ p.clock ∧
          if timeout ≤ p.clock - started then E late p
          else J (k + 1) m' { p with clock := p.clock + pauseBetween interval }) E) (m : γ) :
    Meets (Assembly.lookUntil interval timeout late started look (lookLimit interval timeout) m)
      (fun p => J 0 m p ∧ started ≤ p.clock) Q E := by
  -- before each look: how many there were, and that the time was not over at the one before
  let I : Nat → γ → Progress σ → Prop := fun n m p => ∃ k, k + n = lookLimit interval timeout ∧
    J k m p ∧ started + k * pauseBetween interval ≤ p.clock ∧
    (k ≠ 0 → (k - 1) * pauseBetween interval < timeout)
  have hI : Meets (Assembly.lookUntil interval timeout late started look
      (lookLimit interval timeout) m) (I (lookLimit interval timeout) m) Q E := by
    refine lookUntil (fun n m p hp => ?_) (fun m p hp => ?_) _ m
    · obtain ⟨k, hn, hJ, hc, -⟩ := hp
      have h := hlook k m p ⟨hJ, hc⟩
      revert h
      rcases (look m).run.run p with ⟨e | r, p'⟩
      · exact id
      · rcases r with v | m'
        · exact id
        · rintro ⟨hc', h⟩
          dsimp only at h ⊢
          by_cases ht : timeout ≤ p'.clock - started
          · rw [if_pos ht] at h ⊢
            exact h
          · rw [if_neg ht] at h ⊢
            refine ⟨k + 1, by omega, h, ?_, fun _ => ?_⟩
            · dsimp only
              rw [Nat.succ_mul]
              omega
            · rw [Nat.add_sub_cancel]
              omega
    · obtain ⟨k, hn, hJ, -, hlt⟩ := hp
      have := lt_lookLimit hlt
      omega
  exact hI.mono (fun p hp => ⟨0, by omega, hp.1, by simpa using hp.2, by simp⟩)
    (fun _ _ h => h) fun _ _ h => h

/-- Waiting from now on, when the progress is `q`: `J q k` holds before look `k`. -/
theorem await {γ : Type} {interval timeout : Nat} {late : AssemblyError}
    {look : γ → Step σ (Look γ α)} {memory : γ} {J : Progress σ → Nat → γ → Progress σ → Prop}
    (hstart : ∀ q, P q → J q 0 memory q)
    (hlook : ∀ q, P q → ∀ k m, Meets (look m)
      (fun p => J q k m p ∧ q.clock + k * pauseBetween interval ≤ p.clock)
      (fun r p => match r with
        | .settled v => Q v p
        | .pending m' => q.clock + k * pauseBetween interval ≤ p.clock ∧
          if timeout ≤ p.clock - q.clock then E late p
          else J q (k + 1) m' { p with clock := p.clock + pauseBetween interval }) E) :
    Meets (Assembly.await interval timeout late look memory) P Q E := by
  refine read fun q hq => mono (wait (hlook q hq) memory) ?_ (fun _ _ h => h) fun _ _ h => h
  rintro start rfl
  exact ⟨hstart start hq, le_rfl⟩

/-- Waiting, when `I` holds before each look and as soon as the time is over. -/
theorem awaitKeeping {γ : Type} {interval timeout : Nat} {late : AssemblyError}
    {look : γ → Step σ (Look γ α)} {memory : γ} {I : γ → Progress σ → Prop}
    (hstart : ∀ q, P q → I memory q) (hend : ∀ m p, I m p → E late p)
    (hpause : ∀ m p time, I m p → I m { p with clock := p.clock + time })
    (hlook : ∀ m, Meets (look m) (I m)
      (fun r p => match r with
        | .settled v => Q v p
        | .pending m' => I m' p) E) :
    Meets (Assembly.await interval timeout late look memory) P Q E := by
  refine read fun q hq => mono (lookUntil (I := fun _ => I) (fun _ m => ?_) hend _ memory) ?_
    (fun _ _ h => h) fun _ _ h => h
  · refine mono (hlook m) (fun _ h => h) (fun r p h => ?_) fun _ _ h => h
    cases r with
    | settled v => exact h
    | pending m' =>
      dsimp only
      split
      · exact hend m' p h
      · exact hpause m' p _ h
  · rintro start rfl
    exact hstart start hq

end Meets

end

end VideoScript.Assembly
