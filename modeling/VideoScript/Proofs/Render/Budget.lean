import VideoScript.Proofs.Lists
import VideoScript.Proofs.Web.Delivery
import VideoScript.Render.Client
import VideoScript.Web.Standard

/-!
# How often a client asks

A question is asked again until a reply is `Conclusive` or no attempt is left, so the number of
requests is settled by the replies (`LastAsked`). `run_askFrom` follows the attempts one by one:
which requests are made, with which pauses before them, and what comes of the last reply. What
changes something is asked once, whatever comes of it (`AsksOnce`).
-/

set_option autoImplicit false

namespace VideoScript.Render

open Web

/-! ## Replies -/

/-- The request itself was wrong, and asking again would not help. -/
def Refused (status : Nat) : Prop := 400 ≤ status ∧ status < 500 ∧ status ≠ 429

/-- A reply that settles the matter: a success with its whole body, or a refusal. -/
def Conclusive : Reply → Prop
  | .answer status _ => (200 ≤ status ∧ status < 300) ∨ Refused status
  | .brokenOff status _ => Refused status
  | _ => False

/-- The error of a reply from an address, where it is no success; `last` tells that the address will
not be asked again. -/
def errorOf (url : String) (last : Bool) : Reply → ServiceError
  | .answer status body => .http url status (errorMessage (statusText status) body) last
  | .brokenOff status reason =>
    if 200 ≤ status ∧ status < 300 then .network url reason last
    else .http url status (statusText status) last
  | .timedOut => .timeout url last
  | .failed reason => .network url reason last

/-- What comes of the last reply: the body of a success, or an error. -/
def resultOf (url : String) (last : Bool) : Reply → Except ServiceError ByteArray
  | .answer status body =>
    if 200 ≤ status ∧ status < 300 then .ok body
    else .error (errorOf url last (.answer status body))
  | reply => .error (errorOf url last reply)

section
variable [Library] {ν : Type}

/-- The state of a network after a request was made some times. -/
def networkAfter (network : Network ν) (request : Request) (start : ν) : Nat → ν
  | 0 => start
  | k + 1 => networkAfter network request (network.deliver request start).network k

/-- What comes of a request that was made `k` times before. -/
def deliveryAt (network : Network ν) (request : Request) (start : ν) (k : Nat) : Delivery ν :=
  network.deliver request (networkAfter network request start k)

/-- The reply to a request that was made `k` times before. -/
def replyAt (network : Network ν) (request : Request) (start : ν) (k : Nat) : Reply :=
  (deliveryAt network request start k).reply

end

/-- The reply with the number `k` is the last of at most `n + 1`: the first that settles the matter
or, when none of them does, the one with the number `n`. -/
structure LastAsked (reply : Nat → Reply) (n k : Nat) : Prop where
  le : k ≤ n
  open_before : ∀ j < k, ¬ Conclusive (reply j)
  conclusive : k < n → Conclusive (reply k)

theorem LastAsked.succ {reply : Nat → Reply} {n k : Nat} (h0 : ¬ Conclusive (reply 0))
    (h : LastAsked (fun j => reply (j + 1)) n k) : LastAsked reply (n + 1) (k + 1) where
  le := Nat.succ_le_succ h.le
  open_before j hj := by
    cases j with
    | zero => exact h0
    | succ j => exact h.open_before j (Nat.lt_of_succ_lt_succ hj)
  conclusive hk := h.conclusive (Nat.lt_of_succ_lt_succ hk)

/-- There is one last reply. -/
theorem LastAsked.unique {reply : Nat → Reply} {n k k' : Nat} (h : LastAsked reply n k)
    (h' : LastAsked reply n k') : k = k' := by
  rcases Nat.lt_trichotomy k k' with hlt | heq | hlt
  · exact absurd (h.conclusive (Nat.lt_of_lt_of_le hlt h'.le)) (h'.open_before k hlt)
  · exact heq
  · exact absurd (h'.conclusive (Nat.lt_of_lt_of_le hlt h.le)) (h.open_before k' hlt)

namespace Client

variable {ν α β : Type} {request : Request}

/-! ## Verdicts -/

/-- The result that a verdict stands for. -/
def Verdict.result : Verdict → Except ServiceError ByteArray
  | .success body => .ok body
  | .refused e => .error e
  | .fault e => .error e

/-- A verdict after which the address is asked again. -/
def Verdict.isFault : Verdict → Bool
  | .fault _ => true
  | _ => false

theorem isSuccess_iff {status : Nat} : isSuccess status = true ↔ 200 ≤ status ∧ status < 300 := by
  simp [isSuccess]

theorem refused_iff {status : Nat} :
    (isRefusal status && status ≠ tooManyRequests) = true ↔ Refused status := by
  rw [Bool.and_eq_true, decide_eq_true_iff]
  simp [isRefusal, tooManyRequests, Refused, and_assoc]

theorem result_verdict (url : String) (last : Bool) (reply : Reply) :
    (verdict url last reply).result = resultOf url last reply := by
  cases reply with
  | answer status body =>
    simp only [verdict, resultOf, isSuccess_iff]
    split
    · rfl
    · split <;> rfl
  | brokenOff status reason =>
    simp only [verdict, resultOf, errorOf, isSuccess_iff]
    split
    · rfl
    · split <;> rfl
  | timedOut => rfl
  | failed reason => rfl

/-- An address is asked again exactly where the reply does not settle the matter. -/
theorem isFault_verdict (url : String) (last : Bool) (reply : Reply) :
    (verdict url last reply).isFault = true ↔ ¬ Conclusive reply := by
  cases reply with
  | answer status body =>
    simp only [verdict, Conclusive, isSuccess_iff]
    by_cases hs : 200 ≤ status ∧ status < 300
    · simp [Verdict.isFault, hs]
    · rw [if_neg hs]
      by_cases hr : Refused status
      · rw [if_pos (refused_iff.2 hr)]
        simp [Verdict.isFault, hr]
      · rw [if_neg (mt refused_iff.1 hr)]
        simp [Verdict.isFault, hs, hr]
  | brokenOff status reason =>
    simp only [verdict, Conclusive, isSuccess_iff]
    by_cases hs : 200 ≤ status ∧ status < 300
    · have hr : ¬ Refused status := fun h => by
        unfold Refused at h
        omega
      simp [Verdict.isFault, hs, hr]
    · rw [if_neg hs]
      by_cases hr : Refused status
      · rw [if_pos (refused_iff.2 hr)]
        simp [Verdict.isFault, hr]
      · rw [if_neg (mt refused_iff.1 hr)]
        simp [Verdict.isFault, hr]
  | timedOut | failed => simp [verdict, Conclusive, Verdict.isFault]

/-! ## Errors -/

theorem isLast_errorOf (url : String) (last : Bool) (reply : Reply) :
    (errorOf url last reply).isLast = last := by
  cases reply with
  | brokenOff status reason =>
    rw [errorOf]
    split <;> rfl
  | _ => rfl

theorem isLast_of_resultOf {url : String} {reply : Reply} {e : ServiceError}
    (h : resultOf url true reply = .error e) : e.isLast = true := by
  cases reply with
  | answer status body =>
    rw [resultOf] at h
    split at h
    · cases h
    · cases h
      exact isLast_errorOf url true _
  | _ =>
    cases h
    exact isLast_errorOf url true _

/-- A part that makes no request, and stops with no error after which it would be tried again. -/
def Offline (part : Task ν α) : Prop :=
  ∀ here, ∃ r, part.run.run here = (r, here) ∧ ∀ e, r = .error e → e.isLast = true

theorem offline_ret (v : α) : Offline (pure v : Task ν α) := fun _ =>
  ⟨.ok v, rfl, fun _ h => by cases h⟩

theorem offline_orStop {r : Except ServiceError α} (h : ∀ e, r = .error e → e.isLast = true) :
    Offline (orStop r : Task ν α) := by
  intro here
  refine ⟨r, ?_, h⟩
  cases r <;> rfl

theorem offline_bind {part : Task ν β} {next : β → Task ν α} (h : Offline part)
    (hn : ∀ v, Offline (next v)) : Offline (part >>= next) := by
  intro here
  obtain ⟨r, hr, hlast⟩ := h here
  rw [run_bind, hr]
  cases r with
  | error e => exact ⟨.error e, rfl, fun e' he => by cases he; exact hlast e rfl⟩
  | ok v => exact hn v here

theorem isLast_of_readBody [Library] {decoder : Json.Decoder α} {url : String}
    {body : ByteArray} {e : ServiceError} (h : readBody decoder url body = .error e) :
    e.isLast = true := by
  unfold readBody at h
  split at h
  · cases hd : Json.decode decoder _ <;> rw [hd] at h <;> cases h
    rfl
  · cases hd : Library.readBytes decoder body <;> rw [hd] at h <;> cases h
    rfl

theorem isLast_of_content {r : EditRecord α} {url : String} {e : ServiceError}
    (h : r.content url = .error e) : e.isLast = true := by
  unfold EditRecord.content at h
  dsimp only at h
  split at h
  · split at h <;> cases h
    rfl
  · cases h
    rfl

section
variable [Library] {c : Client ν} {here : Online ν}

/-! ## Asking again -/

/-- The network after a request, with the request noted. -/
def sent (c : Client ν) (pause : Nat) (request : Request) (here : Online ν) : Online ν :=
  let delivery := c.network.deliver request here.network
  { here with
    network := delivery.network
    attempts := here.attempts ++ [⟨pause, request, delivery.hops⟩] }

theorem run_send (hs : request.canBeSent = true) (pause : Nat) (here : Online ν) :
    (c.send pause request).run.run here =
      (.ok (c.network.deliver request here.network).reply, c.sent pause request here) := by
  unfold send
  rw [hs]
  rfl

theorem run_askFrom_zero (hs : request.canBeSent = true) (attempt : Nat) (here : Online ν) :
    (c.askFrom request attempt 0).run.run here =
      (resultOf request.url true (c.network.deliver request here.network).reply,
        c.sent (c.pauseBefore attempt) request here) := by
  rw [askFrom, run_bind, run_send hs, ← result_verdict]
  dsimp only
  cases verdict request.url true (c.network.deliver request here.network).reply <;> rfl

theorem run_askFrom_succ (hs : request.canBeSent = true) (left attempt : Nat) (here : Online ν) :
    (c.askFrom request attempt (left + 1)).run.run here =
      let reply := (c.network.deliver request here.network).reply
      let there := c.sent (c.pauseBefore attempt) request here
      if (verdict request.url false reply).isFault then
        (c.askFrom request (attempt + 1) left).run.run there
      else (resultOf request.url false reply, there) := by
  rw [askFrom, run_bind, run_send hs]
  dsimp only
  rw [← result_verdict]
  cases verdict request.url false (c.network.deliver request here.network).reply <;> rfl

/-- The requests of attempts from one number on, with the pauses before them. -/
def attemptsFrom (c : Client ν) (request : Request) (start : ν) (attempt count : Nat) :
    List Attempt :=
  (List.range count).map fun j =>
    ⟨c.pauseBefore (attempt + j), request, (deliveryAt c.network request start j).hops⟩

theorem attemptsFrom_succ (start : ν) (attempt count : Nat) :
    c.attemptsFrom request start attempt (count + 1) =
      ⟨c.pauseBefore attempt, request, (c.network.deliver request start).hops⟩ ::
        c.attemptsFrom request (c.network.deliver request start).network (attempt + 1) count := by
  unfold attemptsFrom
  rw [List.range_succ_eq_map, List.map_cons, List.map_map, Nat.add_zero]
  refine congrArg (_ :: ·) (List.map_congr_left fun j _ => ?_)
  rw [Function.comp_apply, Nat.succ_eq_add_one, Nat.add_right_comm, Nat.add_assoc]
  rfl

/-- What comes of asking from an attempt on, when `left` more may follow. -/
theorem run_askFrom (hs : request.canBeSent = true) (left attempt : Nat) (here : Online ν) :
    ∃ k, LastAsked (replyAt c.network request here.network) left k ∧
      (c.askFrom request attempt left).run.run here =
        (resultOf request.url (k = left) (replyAt c.network request here.network k),
          { here with
            network := networkAfter c.network request here.network (k + 1)
            attempts := here.attempts ++
              c.attemptsFrom request here.network attempt (k + 1) }) := by
  induction left generalizing attempt here with
  | zero => exact ⟨0, ⟨Nat.le_refl 0, by simp, by simp⟩, run_askFrom_zero hs attempt here⟩
  | succ left ih =>
    rw [run_askFrom_succ hs]
    dsimp only
    split
    next hfault =>
      have hopen : ¬ Conclusive (replyAt c.network request here.network 0) :=
        (isFault_verdict _ _ _).1 hfault
      obtain ⟨k, hk, hrun⟩ := ih (attempt + 1) (c.sent (c.pauseBefore attempt) request here)
      refine ⟨k + 1, hk.succ hopen, ?_⟩
      rw [hrun, attemptsFrom_succ here.network attempt (k + 1)]
      simp [sent, replyAt, deliveryAt, networkAfter]
    next hfault =>
      have hclosed : Conclusive (replyAt c.network request here.network 0) :=
        Classical.not_not.1 fun h => hfault ((isFault_verdict _ _ _).2 h)
      exact ⟨0, ⟨Nat.zero_le _, by simp, fun _ => hclosed⟩, rfl⟩

/-! ## Asking once -/

theorem run_askOnce (hs : request.canBeSent = true) (here : Online ν) :
    (c.askOnce request).run.run here =
      (resultOf request.url true (c.network.deliver request here.network).reply,
        c.sent 0 request here) := by
  rw [askOnce, run_bind, run_send hs, ← result_verdict]
  dsimp only
  cases verdict request.url true (c.network.deliver request here.network).reply <;> rfl

/-- A call makes one request, if it can be sent, and does not leave it to be tried again. -/
def AsksOnce (c : Client ν) (part : Task ν α) (request : Request) (here : Online ν) : Prop :=
  request.canBeSent = true → (part.run.run here).2 = c.sent 0 request here ∧
    ∀ e, (part.run.run here).1 = .error e → e.isLast = true

/-- What is done with the body of an answer makes no further request. -/
theorem asksOnce_bind {next : ByteArray → Task ν α} (hn : ∀ body, Offline (next body)) :
    AsksOnce c (c.askOnce request >>= next) request here := by
  intro hs
  rw [run_bind, run_askOnce hs]
  cases hr : resultOf request.url true (c.network.deliver request here.network).reply with
  | error e => exact ⟨rfl, fun e' he => by cases he; exact isLast_of_resultOf hr⟩
  | ok body =>
    obtain ⟨r, hrun, hlast⟩ := hn body (c.sent 0 request here)
    dsimp only
    rw [hrun]
    exact ⟨rfl, hlast⟩

theorem asksOnce_reserveUpload :
    AsksOnce c c.reserveUpload (c.toService .post (c.settings.ingestUrl ++ "/upload") .empty)
      here :=
  asksOnce_bind fun _ => offline_bind (offline_orStop fun _ => isLast_of_readBody) fun _ =>
    offline_ret _

theorem asksOnce_submit (edit : Json) :
    AsksOnce c (c.submit edit)
      (c.toService .post (c.settings.editUrl ++ "/render") (.json edit)) here :=
  asksOnce_bind fun _ => offline_bind (offline_orStop fun _ => isLast_of_readBody) fun _ =>
    offline_orStop fun _ => isLast_of_content

theorem run_sendFile (target : UploadSlot) (path : String) (here : Online ν) :
    (c.sendFile target path).run.run here = match here.tree.disk.read path with
      | .error failure => (.error (.disk path failure), here)
      | .ok content =>
        (c.askOnce (toAddress .put target.url (.bytes content)) >>= fun _ => pure ()).run.run
          here := by
  unfold sendFile
  show (orStop ((here.tree.disk.read path).mapError (.disk path)) >>= _ : Task ν Unit).run.run
    here = _
  rw [run_bind]
  cases here.tree.disk.read path <;> rfl

/-! ## The whole -/

/-- **The budget of a client.** A question is asked until a reply settles the matter, and at most
once more than there are retries; the last reply gives the result. The pauses between the requests
double each time, up to a greatest factor. What changes something is asked once and not again: a
slot for a file, a file that can be read, and an edit. -/
theorem asks_within_budget (c : Client ν) (here : Online ν) :
    (∀ request : Request, request.canBeSent = true →
      ∃ k, LastAsked (replyAt c.network request here.network) c.settings.maxRetries k ∧
        (c.askAgain request).run.run here =
          (resultOf request.url (k = c.settings.maxRetries)
              (replyAt c.network request here.network k),
            { here with
              network := networkAfter c.network request here.network (k + 1)
              attempts := here.attempts ++ (List.range (k + 1)).map fun j =>
                ⟨if j = 0 then 0
                  else c.settings.retryBackoff * min (Nat.pow 2 (j - 1)) (Nat.pow 2 32 - 1),
                  request, (deliveryAt c.network request here.network j).hops⟩ })) ∧
    AsksOnce c c.reserveUpload (c.toService .post (c.settings.ingestUrl ++ "/upload") .empty)
      here ∧
    (∀ edit, AsksOnce c (c.submit edit)
      (c.toService .post (c.settings.editUrl ++ "/render") (.json edit)) here) ∧
    ∀ target path, match here.tree.disk.read path with
      | .error failure =>
        (c.sendFile target path).run.run here = (.error (.disk path failure), here)
      | .ok content =>
        AsksOnce c (c.sendFile target path) (toAddress .put target.url (.bytes content)) here := by
  refine ⟨fun request hs => ?_, asksOnce_reserveUpload, asksOnce_submit, fun target path => ?_⟩
  · obtain ⟨k, hk, hrun⟩ := c.run_askFrom hs c.settings.maxRetries 0 here
    refine ⟨k, hk, hrun.trans ?_⟩
    simp [attemptsFrom, pauseBefore, maxFactor]
  · have hrun := c.run_sendFile target path here
    cases hread : here.tree.disk.read path with
    | error failure =>
      rw [hread] at hrun
      exact hrun
    | ok content =>
      rw [hread] at hrun
      dsimp only at hrun ⊢
      unfold AsksOnce
      rw [hrun]
      exact asksOnce_bind fun _ => offline_ret ()

end

/-- A network that gives replies one after the other, whatever it is asked. -/
def scripted (reply : Nat → Reply) : Network Nat := ⟨fun _ n => ((reply n).alone, n + 1)⟩

/-- A reply that names no location ends a delivery. -/
theorem deliver_scripted [Library] (reply : Nat → Reply) (hs : request.canBeSent = true) (n : Nat) :
    ((scripted reply).deliver request n).reply = reply n ∧
      ((scripted reply).deliver request n).network = n + 1 := by
  obtain ⟨m, hm⟩ := Option.isSome_iff_exists.1 hs
  have hnext : m.next? (reply n).alone = none := by
    unfold Message.next? Reply.alone
    cases (reply n).status? <;> rfl
  rw [Network.deliver, hm]
  dsimp only
  rw [follow_of_last _ hnext]
  exact ⟨rfl, rfl⟩

theorem replyAt_scripted [Library] (reply : Nat → Reply) (hs : request.canBeSent = true)
    (n k : Nat) : replyAt (scripted reply) request n k = reply (n + k) := by
  induction k generalizing n with
  | zero => exact (deliver_scripted reply hs n).1
  | succ k ih =>
    show replyAt (scripted reply) request ((scripted reply).deliver request n).network k = _
    rw [(deliver_scripted reply hs n).2, ih, Nat.add_assoc, Nat.add_comm 1 k]

/-- A service that is busy at first, then late, and then answers. -/
def slowReply : Nat → Reply
  | 0 => .answer 503 .empty
  | 1 => .timedOut
  | _ => .answer 200 .empty

/-- A question about a render. -/
def renderQuestion : Request := ⟨.get, "https://render/1", some "key", some serviceForm, .empty⟩

theorem asks_within_budget_slow :
    let c : Client Nat := ⟨.standard "key", scripted slowReply⟩
    let here : Online Nat := ⟨0, ⟨[], "/"⟩, []⟩
    renderQuestion.canBeSent = true ∧
      LastAsked (replyAt (scripted slowReply) renderQuestion 0) 3 2 ∧
      ((c.askAgain renderQuestion).run.run here).2.attempts.map (fun a => (a.pause, a.request)) =
        [(0, renderQuestion), (250, renderQuestion), (500, renderQuestion)] := by
  intro c here
  have hs : renderQuestion.canBeSent = true := by decide +kernel
  have hslow : replyAt (scripted slowReply) renderQuestion 0 = slowReply := by
    funext k
    rw [replyAt_scripted slowReply hs, Nat.zero_add]
  obtain ⟨k, hk, hrun⟩ := (asks_within_budget c here).1 renderQuestion hs
  have hk : LastAsked (replyAt (scripted slowReply) renderQuestion 0) 3 k := hk
  rw [hslow] at hk ⊢
  have hopen0 : ¬ Conclusive (slowReply 0) := by
    have hcode : ¬ Refused 503 := by
      unfold Refused
      decide
    rintro (h | h)
    · exact absurd h (by decide)
    · exact hcode h
  have hne0 : k ≠ 0 := by
    rintro rfl
    exact hopen0 (hk.conclusive (by decide))
  have hne1 : k ≠ 1 := by
    rintro rfl
    exact hk.conclusive (by decide)
  have hne3 : k ≠ 3 := by
    rintro rfl
    exact hk.open_before 2 (by decide) (.inl ⟨by decide, by decide⟩)
  have htwo : k = 2 := by
    have hle := hk.le
    omega
  subst htwo
  exact ⟨hs, hk, by rw [hrun]; rfl⟩

end Client

end VideoScript.Render
