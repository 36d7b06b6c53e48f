import VideoScript.Proofs.Assembly.Submission

/-!
# A checked script does not fail on its own

A run whose check is not skipped, neither as a whole nor for media files, fails for reasons outside
the script only (`checked_script_does_not_fail`): the check has seen that the edit can be made and
that all files are there. The paths that are sent to the service are those at which the check has
found the files, in the order of the media paths.
-/

set_option autoImplicit false

namespace VideoScript.Assembly

open Json Disk Media Render

/-- The path that a call sends. -/
def sentPath? : Call → Option String
  | .sendFile _ path => some path
  | _ => none

/-- The paths that are sent, in order. -/
def sentPaths (calls : List (Nat × Call)) : List String := calls.filterMap fun c => sentPath? c.2

/-! ## The paths of a whole conversation -/

theorem sentPaths_calls (d : Delivery) : d.calls.filterMap sentPath? = [d.path] := by
  rw [Delivery.calls, List.filterMap_append, List.filterMap_replicate_of_none rfl]
  rfl

theorem sentPaths_wholeCalls (files : List Delivery) (edit : Json) (id : String) (moreLooks : Nat)
    (url path : String) :
    (wholeCalls files edit id moreLooks url path).filterMap sentPath? = files.map (·.path) := by
  have hfiles : (files.flatMap Delivery.calls).filterMap sentPath? = files.map (·.path) := by
    induction files with
    | nil => rfl
    | cons d files ih =>
      rw [List.flatMap_cons, List.filterMap_append, sentPaths_calls, ih, List.map_cons]
      rfl
  rw [wholeCalls, List.filterMap_append, List.filterMap_append, List.filterMap_append, hfiles,
    List.filterMap_replicate_of_none rfl]
  exact List.append_nil _

/-- A whole conversation sends the files from their places. -/
theorem IsWord.sentPaths {plan : Plan} {raws paths : List String} {word : List Call}
    (h : IsWord plan raws word) (hp : raws.map plan.place? = paths.map some) :
    word.filterMap sentPath? = paths := by
  obtain ⟨files, edit, id, looks, url, rfl, hplace, rfl⟩ := h
  rw [sentPaths_wholeCalls]
  have hsome : files.map (fun d => some d.path) = paths.map some := by
    rw [← hp, List.map_map]
    refine List.map_congr_left fun d hd => ?_
    have hm : plan.place? d.raw ∈ paths.map some := by
      rw [← hp]
      exact List.mem_map_of_mem (List.mem_map_of_mem hd)
    obtain ⟨path, -, hpath⟩ := List.mem_map.1 hm
    rw [Function.comp_apply, ← hpath, hplace d hd path hpath.symm]
  rw [← List.map_inj_right (f := some) fun _ _ => Option.some.inj, List.map_map]
  exact hsome

/-! ## Checked scripts -/

section
variable {σ : Type} {a : Workshop σ} {order : Order} {doc doc' : Document}

/-- A text whose check passes writes a document. -/
theorem readDocument_of_clears {text : String} (ho : order.skipChecks = false)
    (hc : a.check.skipChecks = false) (h : Clears a order text) :
    ∃ doc, readDocument text = .ok doc := by
  rcases h with hskip | ⟨report, hr, hp⟩
  · rw [ho, hc] at hskip
    cases hskip
  · obtain ⟨doc, hparse, -⟩ := sound_of_passed hc hr hp
    refine ⟨doc, ?_⟩
    unfold readDocument
    rw [hparse]
    rfl

/-- Every media path of a sound document has a place, the one at which the check finds it. -/
theorem place?_of_sound (hs : Sound a.here a.check (baseDirOf a order) doc)
    (hf : a.check.skipFiles = false) :
    ∃ paths : List String,
      ((references doc).map (·.raw)).eraseDups.map (fun raw =>
        probe a.here.disk ((shelfOf a.check (baseDirOf a order) doc).candidates raw)) =
        paths.map (fun path => .ok (.found path)) ∧
      ((references doc).map (·.raw)).eraseDups.map (planOf a order doc).place? =
        paths.map some := by
  obtain ⟨paths, hpaths⟩ := hs.found hf
  refine ⟨paths, hpaths, ?_⟩
  generalize ((references doc).map (·.raw)).eraseDups = raws at hpaths
  induction raws generalizing paths with
  | nil =>
    cases paths with
    | nil => rfl
    | cons => cases hpaths
  | cons raw raws ih =>
    cases paths with
    | nil => cases hpaths
    | cons path paths =>
      rw [List.map_cons, List.map_cons, List.cons.injEq] at hpaths
      rw [List.map_cons, List.map_cons, ih paths hpaths.2]
      exact congrArg (· :: _) (resolve?_of_found hpaths.1)

end

/-- **A checked script does not fail on its own.** Where no check is skipped, a run neither finds
the script to be invalid nor misses a media file. The paths that it sends are the first of those at
which the check finds the media files of the document. -/
theorem checked_script_does_not_fail {σ : Type} (a : Workshop σ) (order : Order) (s : σ)
    (ho : order.skipChecks = false) (hc : a.check.skipChecks = false)
    (hf : a.check.skipFiles = false) :
    (∀ problem, (run a order s).1 ≠ .error (.invalidScript problem)) ∧
    (∀ raw looked, (run a order s).1 ≠ .error (.missingMedia raw looked)) ∧
    ((∀ doc, ¬ Accepts a order doc) → (run a order s).2.calls = []) ∧
    ∀ doc, Accepts a order doc → ∃ paths : List String,
      ((references doc).map (·.raw)).eraseDups.map (fun raw =>
        probe a.here.disk ((shelfOf a.check (baseDirOf a order) doc).candidates raw)) =
        paths.map (fun path => .ok (.found path)) ∧
      sentPaths (run a order s).2.calls <+: paths := by
  rcases run_cases a order s with ⟨doc, hd, stage, hconv, -, hhalts⟩ | ⟨hnone, hcalls, e, he, hr⟩
  · have hsound := hd.sound ho hc
    obtain ⟨paths, hfound, hplace⟩ := place?_of_sound hsound hf
    refine ⟨fun problem he => ?_, fun raw looked he => ?_, fun h => absurd hd (h doc),
      fun doc' hd' => ?_⟩
    · -- the edit for files of all media paths can be made
      cases hhalts _ he with
      | @noEdit done part hedit =>
        obtain ⟨-, -, hraws, -⟩ := hconv.soFar
        rw [List.append_nil] at hraws
        obtain ⟨timeline, output, ht, hout⟩ := hsound.parts
        have hok := edit_of_parts hd.wellFormed (subset_of_perm (.of_eq hraws)) ht hout
        have herror : edit doc (references doc) done = .error part := hedit
        rw [hok] at herror
        cases herror
    · -- every media path has a place
      cases hhalts _ he with
      | @noFile done raw left looked hmissing =>
        obtain ⟨-, -, hraws, -⟩ := hconv.soFar
        have hm : (planOf a order doc).place? raw ∈ paths.map some := by
          rw [← hplace, ← hraws]
          exact List.mem_map_of_mem (by simp)
        rw [hmissing] at hm
        simp at hm
    · rw [hd'.unique hd]
      obtain ⟨word, hword, hpre, -⟩ := hconv.calls_prefix
      refine ⟨paths, hfound, ?_⟩
      have hpaths := hpre.filterMap sentPath?
      rw [transcript_calls, hword.sentPaths hplace, List.filterMap_map] at hpaths
      exact hpaths
  · refine ⟨fun problem h => ?_, fun raw looked h => ?_, fun _ => hcalls,
      fun doc hd => absurd hd (hnone doc)⟩
    · rw [he] at h
      cases h
      cases hr with
      | invalidScript hclear hread =>
        obtain ⟨doc, hok⟩ := readDocument_of_clears ho hc hclear
        rw [hread] at hok
        cases hok
    · rw [he] at h
      cases h
      cases hr

theorem checked_template_does_not_fail :
    checkedOrder.skipChecks = false ∧ (workshopOf namedTemplate).check.skipChecks = false ∧
      (workshopOf namedTemplate).check.skipFiles = false ∧
      (∀ problem, (run (workshopOf namedTemplate) checkedOrder ()).1 ≠
        .error (.invalidScript problem)) ∧
      ∀ raw looked, (run (workshopOf namedTemplate) checkedOrder ()).1 ≠
        .error (.missingMedia raw looked) := by
  have h := checked_script_does_not_fail (workshopOf namedTemplate) checkedOrder () rfl rfl rfl
  exact ⟨rfl, rfl, rfl, h.1, h.2.1⟩

end VideoScript.Assembly
