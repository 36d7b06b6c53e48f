import VideoScript.Proofs.Disk.Saving
import VideoScript.Proofs.Render.Requests

/-!
# Files that are downloaded

A download asks for the whole body first; room is made for the file and the file is written only
then. So where the request fails, whatever came of its attempts, the disk is as it was; and what is
written is the body of the one answer that settled the matter (`download_leaves_no_trace`). A reply
that breaks off after a success status settles nothing: its bytes go nowhere.
-/

set_option autoImplicit false

namespace VideoScript.Render

open Disk Web

/-- The errors of a request: an answer that is an error, a fault of the network, or no answer in
time. -/
inductive OfRequest : ServiceError → Prop where
  | http (url : String) (status : Nat) (message : String) (last : Bool) :
      OfRequest (.http url status message last)
  | network (url reason : String) (last : Bool) : OfRequest (.network url reason last)
  | timeout (url : String) (last : Bool) : OfRequest (.timeout url last)

/-- The reply is a success with its whole body. -/
def GivesBody (reply : Reply) (body : ByteArray) : Prop :=
  ∃ status, reply = .answer status body ∧ 200 ≤ status ∧ status < 300

theorem ofRequest_errorOf (url : String) (last : Bool) (reply : Reply) :
    OfRequest (errorOf url last reply) := by
  cases reply with
  | answer status body => exact .http ..
  | brokenOff status reason =>
    rw [errorOf]
    split
    · exact .network ..
    · exact .http ..
  | timedOut => exact .timeout ..
  | failed reason => exact .network ..

theorem resultOf_eq_ok_iff {url : String} {last : Bool} {reply : Reply} {body : ByteArray} :
    resultOf url last reply = .ok body ↔ GivesBody reply body := by
  cases reply with
  | answer status content =>
    rw [resultOf, GivesBody]
    by_cases hs : 200 ≤ status ∧ status < 300
    · rw [if_pos hs]
      simp [hs]
    · rw [if_neg hs]
      simpa using fun _ hlow => Nat.le_of_not_lt fun hhigh => hs ⟨hlow, hhigh⟩
  | _ => simp [resultOf, GivesBody]

theorem ofRequest_of_resultOf {url : String} {last : Bool} {reply : Reply} {e : ServiceError}
    (h : resultOf url last reply = .error e) : OfRequest e := by
  cases reply with
  | answer status body =>
    rw [resultOf] at h
    split at h <;> cases h
    exact ofRequest_errorOf url last _
  | _ =>
    cases h
    exact ofRequest_errorOf url last _

namespace Client

/-! ## The file -/

theorem grows_of_roomFor {tree room : FileTree} {path : String} (h : roomFor tree path = .ok room) :
    FileTree.Grows path tree room := by
  unfold roomFor at h
  split at h
  next =>
    cases h
    exact .refl path tree
  next dir hparent =>
    split at h
    · cases h
      exact .refl path tree
    · exact FileTree.grows_of_makeDirectories hparent (mapError_eq_ok_iff.1 h)

/-- A body is saved, or the disk refuses it. -/
theorem saving_body (tree : FileTree) (path : String) (body : ByteArray) :
    (∃ place failure, (saving tree path (.ok body)).1 = .error (.disk place failure)) ∨
      (saving tree path (.ok body)).1 = .ok body.size ∧
        FileTree.Saved tree (saving tree path (.ok body)).2 path body := by
  rw [saving]
  cases hroom : roomFor tree path with
  | error e =>
    refine .inl ?_
    unfold roomFor at hroom
    split at hroom
    · cases hroom
    next dir _ =>
      split at hroom
      · cases hroom
      · cases hmake : tree.makeDirectories dir with
        | ok made =>
          rw [hmake] at hroom
          cases hroom
        | error failure =>
          rw [hmake] at hroom
          cases hroom
          exact ⟨dir, failure, rfl⟩
  | ok room =>
    dsimp only
    cases hstore : room.storeFile path body with
    | error failure => exact .inl ⟨path, failure, rfl⟩
    | ok after => exact .inr ⟨rfl, FileTree.saved_of_storeFile (grows_of_roomFor hroom) hstore⟩

section
variable [Library] {ν : Type} {c : Client ν} {request : Request} {here : Online ν}

/-! ## The request -/

/-- Asking leaves the disk alone and fails with errors of requests only. -/
theorem askAgain_keeps {outcome : Except ServiceError ByteArray} {there : Online ν}
    (h : (c.askAgain request).run.run here = (outcome, there)) :
    there.tree = here.tree ∧ ∀ e, outcome = .error e → OfRequest e := by
  cases hs : request.canBeSent with
  | false =>
    rw [askAgain, run_askFrom_unsendable hs] at h
    cases h
    exact ⟨rfl, fun e he => by cases he; exact .network ..⟩
  | true =>
    obtain ⟨k, -, hrun⟩ := c.run_askFrom hs c.settings.maxRetries 0 here
    rw [askAgain, hrun] at h
    cases h
    exact ⟨rfl, fun _ => ofRequest_of_resultOf⟩

/-- A body is that of the last reply. -/
theorem exists_of_askAgain {body : ByteArray} {there : Online ν}
    (h : (c.askAgain request).run.run here = (.ok body, there)) :
    ∃ k, LastAsked (replyAt c.network request here.network) c.settings.maxRetries k ∧
      GivesBody (replyAt c.network request here.network k) body := by
  cases hs : request.canBeSent with
  | false =>
    rw [askAgain, run_askFrom_unsendable hs] at h
    cases h
  | true =>
    obtain ⟨k, hk, hrun⟩ := c.run_askFrom hs c.settings.maxRetries 0 here
    rw [askAgain, hrun] at h
    exact ⟨k, hk, resultOf_eq_ok_iff.1 (Prod.mk.inj h).1⟩

/-- The body of the last reply is what asking gives. -/
theorem askAgain_of_givesBody (hs : request.canBeSent = true) {k : Nat} {body : ByteArray}
    (hk : LastAsked (replyAt c.network request here.network) c.settings.maxRetries k)
    (hb : GivesBody (replyAt c.network request here.network k) body) :
    ((c.askAgain request).run.run here).1 = .ok body := by
  obtain ⟨k', hk', hrun⟩ := c.run_askFrom hs c.settings.maxRetries 0 here
  obtain rfl := hk.unique hk'
  rw [askAgain, hrun]
  exact resultOf_eq_ok_iff.2 hb

/-! ## The whole -/

/-- **A failed download leaves no trace.** Where the request of a download fails, the disk is as it
was. Where the download succeeds, the last reply was a success with its whole body, no reply before
it settled the matter, and that body has been saved: the file holds it and nothing else, the number
is its length, and nothing else has changed but that directories on the way to the file are there
which were missing. And a whole body that was got is saved unless the disk refuses it. -/
theorem download_leaves_no_trace (c : Client ν) (url path : String) (here there : Online ν)
    (result : Except ServiceError Nat)
    (h : (c.download url path).run.run here = (result, there)) :
    let request := toAddress .get url .empty
    let reply := replyAt c.network request here.network
    (∀ e, result = .error e → OfRequest e → there.tree = here.tree) ∧
    (∀ n, result = .ok n → ∃ k body,
      LastAsked reply c.settings.maxRetries k ∧ GivesBody (reply k) body ∧ n = body.size ∧
        FileTree.Saved here.tree there.tree path body) ∧
    ∀ k body, request.canBeSent = true → LastAsked reply c.settings.maxRetries k →
      GivesBody (reply k) body →
        result = .ok body.size ∨ ∃ place failure, result = .error (.disk place failure) := by
  intro request reply
  rw [run_download] at h
  rcases hask : (c.askAgain request).run.run here with ⟨outcome, asked⟩
  obtain ⟨htree, herror⟩ := askAgain_keeps hask
  rw [hask] at h
  dsimp only at h
  rw [htree] at h
  cases outcome with
  | error e =>
    cases h
    refine ⟨fun _ _ _ => rfl, ⟨fun n hn => ?_, fun k body hs hk hb => ?_⟩⟩
    · cases hn
    · have hbody := askAgain_of_givesBody hs hk hb
      rw [hask] at hbody
      cases hbody
  | ok body =>
    obtain ⟨k, hk, hb⟩ := exists_of_askAgain hask
    -- another last reply with a whole body is the same one
    have hsame : ∀ k' body', LastAsked reply c.settings.maxRetries k' →
        GivesBody (reply k') body' → body' = body := by
      rintro k' body' hk' ⟨status', hr', -⟩
      obtain ⟨status, hr, -⟩ := hb
      obtain rfl := hk.unique hk'
      exact (Reply.answer.inj (hr'.symm.trans hr)).2
    rcases saving_body here.tree path body with ⟨place, failure, hfail⟩ | ⟨hok, hsaved⟩
    · obtain ⟨rfl, -⟩ := Prod.mk.inj h
      rw [hfail]
      refine ⟨fun e he hof => ?_, ⟨fun n hn => ?_, fun _ _ _ _ _ => .inr ⟨place, failure, rfl⟩⟩⟩
      · cases he
        cases hof
      · cases hn
    · obtain ⟨rfl, rfl⟩ := Prod.mk.inj h
      rw [hok]
      refine ⟨fun e he _ => ?_, ⟨fun n hn => ?_, fun k' body' _ hk' hb' => .inl ?_⟩⟩
      · cases he
      · cases hn
        exact ⟨k, body, hk, hb, rfl, hsaved⟩
      · rw [hsame k' body' hk' hb']

end

/-- A service that breaks off, is busy, and then gives a video. -/
def unsteadyReply : Nat → Reply
  | 0 => .brokenOff 200 "end of file"
  | 1 => .answer 503 "busy".toUTF8
  | _ => .answer 200 "video".toUTF8

theorem download_leaves_no_trace_unsteady :
    let c : Client Nat := ⟨.standard "key", scripted unsteadyReply⟩
    let lost : Client Nat := ⟨.standard "key", scripted fun _ => .answer 404 "gone".toUTF8⟩
    let here : Online Nat := ⟨0, ⟨[(["home"], .directory)], "/home"⟩, []⟩
    let run := (c.download "https://cdn/demo.mp4" "out/demo.mp4").run.run here
    let failed := (lost.download "https://cdn/gone.mp4" "out/demo.mp4").run.run here
    run.1 = .ok 5 ∧ FileTree.Saved here.tree run.2.tree "out/demo.mp4" "video".toUTF8 ∧
      failed.1 = .error (.http "https://cdn/gone.mp4" 404 "Not Found" false) ∧
      failed.2.tree = here.tree := by
  intro c lost here run failed
  have hrun : run.1 = .ok 5 := by decide +kernel
  have hfailed : failed.1 = .error (.http "https://cdn/gone.mp4" 404 "Not Found" false) := by
    decide +kernel
  obtain ⟨k, body, hk, hb, -, hsaved⟩ :=
    (download_leaves_no_trace c "https://cdn/demo.mp4" "out/demo.mp4" here _ _ rfl).2.1 5 hrun
  obtain ⟨hkept, -⟩ :=
    download_leaves_no_trace lost "https://cdn/gone.mp4" "out/demo.mp4" here _ _ rfl
  have hs : (toAddress .get "https://cdn/demo.mp4" .empty).canBeSent = true := by decide +kernel
  have hreply : replyAt c.network (toAddress .get "https://cdn/demo.mp4" .empty) 0 =
      unsteadyReply := by
    funext k
    exact (replyAt_scripted _ hs 0 k).trans (congrArg _ (Nat.zero_add k))
  have hlast : LastAsked unsteadyReply 3 2 := by
    refine ⟨by decide, fun j hj => ?_, fun _ => .inl ⟨by decide, by decide⟩⟩
    have hcode : ¬ Refused 503 := by
      unfold Refused
      decide
    have hok : ¬ Refused 200 := by
      unfold Refused
      decide
    match j, hj with
    | 0, _ => exact hok
    | 1, _ => exact fun h => h.elim (by decide) hcode
  have hk : LastAsked (replyAt c.network (toAddress .get "https://cdn/demo.mp4" .empty) 0) 3 k := hk
  have hb : GivesBody (replyAt c.network (toAddress .get "https://cdn/demo.mp4" .empty) 0 k) body :=
    hb
  rw [hreply] at hk hb
  obtain rfl := hlast.unique hk
  obtain ⟨status, hanswer, -⟩ := hb
  obtain rfl : "video".toUTF8 = body := (Reply.answer.inj hanswer).2
  exact ⟨hrun, hsaved, hfailed, hkept _ hfailed (.http ..)⟩

end Client

end VideoScript.Render
