import Mathlib.Data.List.Nodup
import VideoScript.Media.Lookup
import VideoScript.Proofs.Placeholder.Groups

/-!
# Looking up media files comes out the same in every way

The findings about media files are those of one plain look-up for each distinct path, in the order
in which the paths come first (`fileFindings_eq`): no setting and no schedule matters.

* `probeTogether_eq`: looking up side by side gives what looking up in turn gives.
* `answers_eq`: looking up every reference gives what looking up the distinct paths gives, and the
  same first error.
* `severities_fileFindings`: how severe the findings are depends on the paths, and not on where they
  stand.
* `found_of_no_error`: without an error among the findings, every distinct path is found.
* `split_of_found`: where a path is found, a file that can be opened stands at one of its places,
  and nothing stands at the places before. So that is the file that is sent (`resolve?_of_found`).
-/

set_option autoImplicit false

namespace VideoScript.Media

open Json Disk

/-! ## Side by side -/

theorem fst_answers (disk : Disk) (jobs : List (List String)) :
    (jobs.zipIdx.map fun (candidates, i) => (i, probe disk candidates)).map (·.1) =
      List.range' 0 jobs.length := by
  rw [List.map_map, ← List.zipIdx_map_snd 0 jobs]
  rfl

/-- Sorted by their numbers, answers in any order come out in the order of their jobs. -/
theorem mergeSort_arrange (schedule : Schedule) (disk : Disk) (jobs : List (List String)) :
    (schedule.arrange (jobs.zipIdx.map fun (candidates, i) => (i, probe disk candidates))).mergeSort
        (fun a b => a.1 ≤ b.1) =
      jobs.zipIdx.map fun (candidates, i) => (i, probe disk candidates) := by
  let answers := jobs.zipIdx.map fun (candidates, i) => (i, probe disk candidates)
  have hperm : ((schedule.arrange answers).mergeSort fun a b => a.1 ≤ b.1).Perm answers :=
    (List.mergeSort_perm _ _).trans (schedule.perm answers)
  have hlt : (answers.map (·.1)).Pairwise (· < ·) := by
    rw [fst_answers]
    exact List.pairwise_lt_range'
  have hsorted : answers.Pairwise fun a b => a.1 ≤ b.1 :=
    (List.pairwise_map.1 hlt).imp fun h => Nat.le_of_lt h
  have hfinished : ((schedule.arrange answers).mergeSort fun a b => a.1 ≤ b.1).Pairwise
      fun a b => a.1 ≤ b.1 := by
    refine (List.pairwise_mergeSort ?_ ?_ _).imp fun h => of_decide_eq_true h
    · intro a b c hab hbc
      exact decide_eq_true (Nat.le_trans (of_decide_eq_true hab) (of_decide_eq_true hbc))
    · intro a b
      simpa using Nat.le_total a.1 b.1
  refine hperm.eq_of_pairwise (fun a b ha hb hab hba => ?_) hfinished hsorted
  -- two answers with one number are one answer
  have hnodup : (answers.map (·.1)).Nodup := hlt.imp fun h => Nat.ne_of_lt h
  exact List.inj_on_of_nodup_map hnodup (hperm.mem_iff.1 ha) hb (Nat.le_antisymm hab hba)

/-- Looking up side by side gives what looking up in turn gives. -/
theorem probeTogether_eq (schedule : Schedule) (disk : Disk) (jobs : List (List String)) :
    probeTogether schedule disk jobs = probeInTurn disk jobs := by
  have hsnd : (jobs.zipIdx.map fun (candidates, i) => (i, probe disk candidates)).map (·.2) =
      jobs.map (probe disk) := by
    rw [List.map_map, ← List.zipIdx_map_fst 0 jobs, List.map_map]
    simp only [List.zipIdx_map_fst]
    rfl
  unfold probeTogether
  dsimp only
  rw [mergeSort_arrange, hsnd, collect, List.mapM_map]
  rfl

/-! ## Findings -/

/-- The findings of one look-up for each distinct path, in turn. -/
def plainFindings (disk : Disk) (shelf : Shelf) (refs : List Reference) :
    Except ProbeError (List Finding) := do
  let probes ← (grouped refs).mapM fun (raw, _) => probe disk (shelf.candidates raw)
  return ((grouped refs).zip probes).filterMap fun ((raw, locations), answer) =>
    probeFinding? raw locations answer

/-- The look-ups of the distinct paths. -/
def probes (disk : Disk) (shelf : Shelf) (refs : List Reference) : Except ProbeError (List Probe) :=
  (refs.map (·.raw)).eraseDups.mapM fun raw => probe disk (shelf.candidates raw)

theorem mapM_grouped (disk : Disk) (shelf : Shelf) (refs : List Reference) :
    ((grouped refs).mapM fun (raw, _) => probe disk (shelf.candidates raw)) =
      probes disk shelf refs := by
  rw [probes, ← distinct_grouped, List.mapM_map]
  rfl

/-- The answers for the distinct paths are those of their look-ups, with a cache or without. -/
theorem answers_eq (disk : Disk) (settings : CheckSettings) (shelf : Shelf)
    (refs : List Reference) :
    (probeInTurn disk (jobs settings shelf refs)).map (answersByPath settings refs) =
      probes disk shelf refs := by
  unfold probeInTurn jobs answersByPath
  cases settings.cache with
  | true =>
    simp only [if_true]
    have hid (r : Except ProbeError (List Probe)) : r.map (fun ps => ps) = r := by
      cases r <;> rfl
    rw [List.mapM_map, ← mapM_grouped, hid]
    rfl
  | false =>
    have hkeys (ps : List Probe) :
        (grouped refs).filterMap (fun (raw, _) => ((refs.map (·.raw)).zip ps).lookup raw) =
          (refs.map (·.raw)).eraseDups.filterMap fun raw =>
            ((refs.map (·.raw)).zip ps).lookup raw := by
      rw [← distinct_grouped, List.filterMap_map]
      rfl
    simp only [Bool.false_eq_true, if_false]
    rw [List.mapM_map, probes, mapM_eraseDups, List.mapM_map]
    exact congrArg (Except.map · _) (funext hkeys)

/-- The findings about media files are those of plain look-ups. -/
theorem fileFindings_eq (schedule : Schedule) (disk : Disk) {settings : CheckSettings}
    (shelf : Shelf) (refs : List Reference) (h : settings.skipFiles = false) :
    fileFindings schedule disk settings shelf refs = plainFindings disk shelf refs := by
  unfold fileFindings plainFindings
  rw [h, Bool.false_or, mapM_grouped, ← answers_eq disk settings]
  cases refs with
  | nil =>
    unfold jobs
    cases settings.cache <;> rfl
  | cons r rest =>
    dsimp only
    rw [probeTogether_eq, ite_self]
    cases probeInTurn disk (jobs settings shelf (r :: rest)) <;> rfl

/-- Every finding is about the answer for some distinct path. -/
theorem mem_fileFindings {schedule : Schedule} {disk : Disk} {settings : CheckSettings}
    {shelf : Shelf} {refs : List Reference} {findings : List Finding} {f : Finding}
    (h : fileFindings schedule disk settings shelf refs = .ok findings) (hf : f ∈ findings) :
    ∃ raw locations answer, (raw, locations) ∈ grouped refs ∧
      probeFinding? raw locations answer = some f := by
  cases hskip : settings.skipFiles with
  | true =>
    rw [fileFindings, hskip] at h
    cases h
    cases hf
  | false =>
    rw [fileFindings_eq _ _ _ _ hskip] at h
    obtain ⟨probes, -, h⟩ := bind_eq_ok h
    cases h
    obtain ⟨⟨⟨raw, locations⟩, answer⟩, hz, hf⟩ := List.mem_filterMap.1 hf
    exact ⟨raw, locations, answer, (List.of_mem_zip hz).1, hf⟩

/-- There is an answer for each distinct path. -/
theorem length_probes {disk : Disk} {shelf : Shelf} {refs : List Reference} {ps : List Probe}
    (h : probes disk shelf refs = .ok ps) : ps.length = (grouped refs).length := by
  have hmap := congrArg List.length (mapM_eq_ok_iff.1 h)
  rw [List.length_map, List.length_map, ← distinct_grouped, List.length_map] at hmap
  exact hmap.symm

/-- The severity of the finding about an answer. -/
def Probe.severity? : Probe → Option Severity
  | .found _ => none
  | _ => some .error

theorem severity_probeFinding? (raw : String) (locations : List Path) (answer : Probe) :
    (probeFinding? raw locations answer).map (·.severity) = answer.severity? := by
  cases answer <;> rfl

/-- How severe the findings are depends on the answers alone. -/
theorem severities_plainFindings (disk : Disk) (shelf : Shelf) (refs : List Reference) :
    (plainFindings disk shelf refs).map (List.map (·.severity)) =
      (probes disk shelf refs).map (List.filterMap Probe.severity?) := by
  unfold plainFindings
  rw [mapM_grouped]
  cases hps : probes disk shelf refs with
  | error e => rfl
  | ok ps =>
    have hanswers : ((grouped refs).zip ps).map (·.2) = ps :=
      List.map_snd_zip (Nat.le_of_eq (length_probes hps))
    refine congrArg Except.ok ?_
    conv_rhs => rw [← hanswers, List.filterMap_map]
    rw [List.map_filterMap]
    exact List.filterMap_congr fun ⟨⟨raw, locations⟩, answer⟩ _ =>
      severity_probeFinding? raw locations answer

/-- References to the same paths give findings of the same severities. -/
theorem severities_fileFindings (schedule : Schedule) (disk : Disk) (settings : CheckSettings)
    (shelf : Shelf) {refs refs' : List Reference} (h : refs.map (·.raw) = refs'.map (·.raw)) :
    (fileFindings schedule disk settings shelf refs).map (List.map (·.severity)) =
      (fileFindings schedule disk settings shelf refs').map (List.map (·.severity)) := by
  cases hs : settings.skipFiles with
  | true =>
    unfold fileFindings
    rw [hs]
    rfl
  | false =>
    rw [fileFindings_eq _ _ _ _ hs, fileFindings_eq _ _ _ _ hs, severities_plainFindings,
      severities_plainFindings, probes, probes, h]

theorem exists_paths {ps : List Probe} (h : ∀ p ∈ ps, ∃ path, p = .found path) :
    ∃ paths : List String, ps = paths.map .found := by
  induction ps with
  | nil => exact ⟨[], rfl⟩
  | cons p ps ih =>
    obtain ⟨⟨path, rfl⟩, hps⟩ := List.forall_mem_cons.1 h
    obtain ⟨paths, rfl⟩ := ih hps
    exact ⟨path :: paths, rfl⟩

/-- Without an error among the findings, every distinct path is found. -/
theorem found_of_no_error {disk : Disk} {shelf : Shelf} {refs : List Reference}
    {findings : List Finding} (h : plainFindings disk shelf refs = .ok findings)
    (hf : ∀ f ∈ findings, f.isError = false) :
    ∃ paths : List String,
      (refs.map (·.raw)).eraseDups.map (fun raw => probe disk (shelf.candidates raw)) =
        paths.map fun path => .ok (.found path) := by
  unfold plainFindings at h
  rw [mapM_grouped, probes] at h
  obtain ⟨ps, hps, h⟩ := bind_eq_ok h
  cases h
  have hmap := mapM_eq_ok_iff.1 hps
  have hlen : ps.length = (grouped refs).length := length_probes hps
  have hfound : ∀ p ∈ ps, ∃ path, p = .found path := by
    intro p hp
    rw [← List.map_snd_zip (Nat.le_of_eq hlen)] at hp
    obtain ⟨⟨⟨raw, locations⟩, p⟩, hz, rfl⟩ := List.mem_map.1 hp
    have hnone : ∀ f, probeFinding? raw locations p = some f → f.severity ≠ .error := fun f hpf =>
      Finding.not_error_of_mem hf (List.mem_filterMap.2 ⟨_, hz, hpf⟩)
    cases p with
    | found path => exact ⟨path, rfl⟩
    | _ => exact absurd rfl (hnone _ rfl)
  obtain ⟨paths, rfl⟩ := exists_paths hfound
  exact ⟨paths, by rw [hmap, List.map_map]; rfl⟩

/-! ## Places of files -/

/-- A file that can be opened stands at a place. -/
def Readable (disk : Disk) (place : String) : Prop :=
  disk.kind place = .ok .file ∧ disk.opens place = .ok ()

theorem readable_of_probeAt {disk : Disk} {place path : String}
    (h : probeAt disk place = .ok (some (.found path))) : place = path ∧ Readable disk path := by
  unfold probeAt at h
  split at h
  · rename_i hk
    split at h
    · rename_i ho
      cases h
      exact ⟨rfl, hk, ho⟩
    · cases h
    · cases h
  all_goals cases h

theorem kind_of_probeAt {disk : Disk} {place : String} (h : probeAt disk place = .ok none) :
    disk.kind place = .error .notFound := by
  unfold probeAt at h
  split at h
  · split at h <;> cases h
  · cases h
  · assumption
  all_goals cases h

/-- Where a path is found, a file that can be opened stands, and nothing at the places before. -/
theorem split_of_found {disk : Disk} {places : List String} {path : String}
    (h : probe disk places = .ok (.found path)) :
    ∃ before after, places = before ++ path :: after ∧
      (∀ place ∈ before, disk.kind place = .error .notFound) ∧ Readable disk path := by
  unfold probe at h
  generalize places.head?.getD "" = first at h
  induction places with
  | nil => cases h
  | cons place rest ih =>
    rw [probeFrom] at h
    split at h
    · cases h
    · rename_i answer hat
      cases h
      obtain ⟨rfl, hr⟩ := readable_of_probeAt hat
      exact ⟨[], rest, rfl, by simp, hr⟩
    · rename_i hnone
      obtain ⟨before, after, rfl, hbefore, hr⟩ := ih h
      refine ⟨place :: before, after, rfl, ?_, hr⟩
      exact List.forall_mem_cons.2 ⟨kind_of_probeAt hnone, hbefore⟩

/-- Where a path is found, its file is there. -/
theorem resolve?_of_found {disk : Disk} {shelf : Shelf} {raw path : String}
    (h : probe disk (shelf.candidates raw) = .ok (.found path)) :
    shelf.resolve? disk raw = some path := by
  obtain ⟨before, after, hplaces, hbefore, hkind, -⟩ := split_of_found h
  have hnone : before.find? disk.hasFile = none := by
    refine List.find?_eq_none.2 fun place hm => ?_
    simp [hasFile, hbefore place hm]
  have hfile : disk.hasFile path = true := by simp [hasFile, hkind]
  rw [Shelf.resolve?, hplaces, List.find?_append, hnone, List.find?_cons_of_pos hfile]
  rfl

end VideoScript.Media
