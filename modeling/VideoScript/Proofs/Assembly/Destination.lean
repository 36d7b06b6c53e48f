import VideoScript.Proofs.Assembly.Submission
import VideoScript.Proofs.Disk.Paths

/-!
# Where the video goes

The video is saved under a name made of a stem and a format. The stem has no slash left in it
(`slash_not_mem_videoStem`), but the format stands in the name as the document writes it. So the
video goes into its directory, under a name that is one part of its path, exactly when the format
has no slash and the whole name is not two dots (`isChild_destination_iff`). A run downloads to that
place and nowhere else (`downloads_in_directory_iff`). A format with slashes takes the video out of
the directory, and the check of the script only warns of it (`download_beside_output`).

* `videoStem_ne_nil`: the stem is never empty.
* `partsOf_videoFile`: a name without a slash is one part of a path, unless it is two dots.
-/

set_option autoImplicit false

namespace VideoScript.Assembly

open Json Text Disk Render

/-! ## The name of the video -/

theorem name?_ne_nil {doc : Document} {name : String} (h : doc.name? = some name) :
    name.toList ≠ [] := by
  unfold Document.name? at h
  obtain ⟨value, -, h⟩ := Option.bind_eq_some_iff.1 h
  obtain ⟨text, -, h⟩ := Option.bind_eq_some_iff.1 h
  split at h
  · cases h
  · next hblank =>
    cases h
    rintro hnil
    rw [String.toList_eq_nil_iff.1 hnil] at hblank
    exact hblank (by decide)

section
variable (doc : Document) (script : String)

theorem toList_videoStem : (videoStem doc script).toList =
    (((doc.name?.or (fileStem? script)).getD "output").toList).map fileNameChar := by
  rw [videoStem, String.toList_ofList]

/-- No slash is left in the stem. -/
theorem slash_not_mem_videoStem : '/' ∉ (videoStem doc script).toList := by
  rw [toList_videoStem]
  intro h
  obtain ⟨c, -, hc⟩ := List.mem_map.1 h
  unfold fileNameChar at hc
  split at hc
  · exact absurd hc (by decide)
  · next hkept =>
    subst hc
    simp at hkept

theorem videoStem_ne_nil : (videoStem doc script).toList ≠ [] := by
  rw [toList_videoStem, ne_eq, List.map_eq_nil_iff]
  cases hname : doc.name? with
  | some name => exact name?_ne_nil hname
  | none =>
    rw [Option.none_or]
    cases hstem : fileStem? script with
    | some stem => exact fileStem?_ne_nil hstem
    | none => decide

theorem toList_videoFile : (videoFile doc script).toList =
    (videoStem doc script).toList ++ '.' :: (videoFormat doc).toList := by
  rw [videoFile, String.toList_append, String.toList_append, List.append_assoc]
  rfl

/-- A slash in the name of the video is one of its format. -/
theorem slash_mem_videoFile_iff :
    '/' ∈ (videoFile doc script).toList ↔ '/' ∈ (videoFormat doc).toList := by
  rw [toList_videoFile, List.mem_append, List.mem_cons]
  simp [slash_not_mem_videoStem]

/-- The name of the video is no path that starts at the root, or with a single dot. -/
theorem leadOf_videoFile : leadOf (videoFile doc script).toList = [] := by
  have hlen := List.length_pos_of_ne_nil (videoStem_ne_nil doc script)
  rw [toList_videoFile, List.append_cons]
  apply leadOf_of_two_le
  · simp [slash_not_mem_videoStem]
  · rw [List.length_append, List.length_singleton]
    omega

/-- A name without a slash is one part of a path, unless it is two dots. -/
theorem partsOf_videoFile (h : '/' ∉ (videoFormat doc).toList) :
    partsOf (videoFile doc script).toList =
      [if videoFile doc script = ".." then .up else .name (videoFile doc script)] := by
  have hslash : '/' ∉ (videoFile doc script).toList :=
    fun hm => h ((slash_mem_videoFile_iff doc script).1 hm)
  rw [partsOf, splitAt_of_not_mem hslash]
  by_cases hdots : videoFile doc script = ".."
  · rw [if_pos hdots, hdots]
    rfl
  · have hlen : 2 ≤ (videoFile doc script).toList.length := by
      have := List.length_pos_of_ne_nil (videoStem_ne_nil doc script)
      rw [toList_videoFile, List.length_append, List.length_cons]
      omega
    have hpiece := (@pieceComponent?_eq_name_iff _ (videoFile doc script)).2
      ⟨rfl, by intro h; simp [h] at hlen, by intro h; simp [h] at hlen,
        fun h => hdots (String.toList_inj.1 h)⟩
    rw [if_neg hdots, List.filterMap_cons_some hpiece, List.filterMap_nil]

end

/-! ## The directory of the video -/

/-- The directory that the video goes into: the one that was asked for, or `output` beside the
script when nothing was. -/
def saveDirectory? (disk : Disk) (baseDir : String) (requested : Option String) : Option String :=
  match requested with
  | none => some (join baseDir "output")
  | some path => if disk.hasDirectory path then some path else none

theorem destination_of_saveDirectory? {disk : Disk} {baseDir : String} {requested : Option String}
    {dir : String} (h : saveDirectory? disk baseDir requested = some dir) (doc : Document)
    (script : String) :
    destination disk doc script baseDir requested = join dir (videoFile doc script) := by
  unfold saveDirectory? at h
  unfold destination
  cases requested with
  | none =>
    cases h
    rfl
  | some path =>
    dsimp only at h ⊢
    split at h
    · next hd =>
      cases h
      rw [if_pos hd]
    · cases h

/-- The video goes into its directory, under a name without a slash, exactly when its format has no
slash and its name is not two dots. -/
theorem isChild_destination_iff {disk : Disk} {baseDir : String} {requested : Option String}
    {dir : String} (h : saveDirectory? disk baseDir requested = some dir) (doc : Document)
    (script : String) :
    (IsChild dir (destination disk doc script baseDir requested) ∧
        '/' ∉ (videoFile doc script).toList) ↔
      '/' ∉ (videoFormat doc).toList ∧ videoFile doc script ≠ ".." := by
  have hparts := components_join dir (leadOf_videoFile doc script)
  rw [destination_of_saveDirectory? h, slash_mem_videoFile_iff, and_comm]
  refine and_congr_right fun hformat => ?_
  unfold IsChild
  rw [hparts, partsOf_videoFile doc script hformat]
  by_cases hdots : videoFile doc script = ".."
  · simp [hdots]
  · simp [hdots]

/-! ## Downloads -/

section
variable {σ : Type} {a : Workshop σ} {order : Order} {s : σ}

/-- A conversation saves the video where the plan has it. -/
theorem Conversation.downloaded {plan : Plan} {start stage : Stage} {xs : List Exchange}
    (h : Conversation plan start xs stage) {x : Exchange} {url path : String} (hx : x ∈ xs)
    (hc : x.call = .download url path) : path = plan.destination := by
  induction h with
  | nil => cases hx
  | @snoc xs stage x' stage' _ ha _ ih =>
    rcases List.mem_append.1 hx with hx | hx
    · exact ih hx
    · rw [List.mem_singleton.1 hx] at hc
      rw [hc] at ha
      cases ha
      rfl

/-- A run downloads to the destination of the accepted document. -/
theorem exists_destination_of_download {time : Nat} {url path : String}
    (h : (time, Call.download url path) ∈ (run a order s).2.calls) :
    ∃ doc, Accepts a order doc ∧
      path = destination a.here.disk doc order.script (baseDirOf a order) order.output := by
  rcases run_cases a order s with ⟨doc, hd, stage, hconv, -⟩ | ⟨-, hnone, -⟩
  · obtain ⟨x, hx, hcall⟩ := @exists_mem_transcript _ a.service s _ _ _ h
    exact ⟨doc, hd, hconv.downloaded hx hcall⟩
  · rw [hnone] at h
    cases h

/-- A workshop whose service also renders the video and saves it. -/
def renderingWorkshop (script : Json) : Workshop Unit where
  here := (workshopOf script).here
  check := .standard
  settings := .standard "key"
  service := { answer := fun call st =>
    match call with
    | .renderState id => (.ok ⟨id, .done, some "https://cdn/final.mp4", none, none, none⟩, st)
    | .download _ _ => (.ok (1 : Nat), st)
    | call => (workshopOf script).service.answer call st }

/-- A legacy script without clips for a video in a format. -/
def scriptWithFormat (format : String) : Json :=
  .object
    [("timeline", .object [("tracks", .array [emptyTrack])]),
     ("output", .object [("format", .string format)])]

/-- Whether a call downloads to a path. -/
def downloadsTo (path : String) : Call → Bool
  | .download _ path' => path' = path
  | _ => false

theorem exists_download {path : String} {calls : List (Nat × Call)}
    (h : calls.any (fun c => downloadsTo path c.2) = true) :
    ∃ time url, (time, Call.download url path) ∈ calls := by
  obtain ⟨⟨time, call⟩, hm, hp⟩ := List.any_eq_true.1 h
  cases call with
  | download url path' =>
    have hpath : path' = path := of_decide_eq_true hp
    exact ⟨time, url, hpath ▸ hm⟩
  | _ => cases hp

/-- **The download and its directory.** When the video goes into a directory, the destination is a
child of that directory, under a name without a slash, exactly when the format of the document has
no slash and the name is not two dots. A run downloads to the destination of the accepted document
only. -/
theorem downloads_in_directory_iff (a : Workshop σ) (order : Order) (s : σ) (dir : String)
    (h : saveDirectory? a.here.disk (baseDirOf a order) order.output = some dir) :
    (∀ doc, let path := destination a.here.disk doc order.script (baseDirOf a order) order.output
      (IsChild dir path ∧ '/' ∉ (videoFile doc order.script).toList) ↔
        '/' ∉ (videoFormat doc).toList ∧ videoFile doc order.script ≠ "..") ∧
    ∀ time url path, (time, Call.download url path) ∈ (run a order s).2.calls →
      ∃ doc, Accepts a order doc ∧
        path = destination a.here.disk doc order.script (baseDirOf a order) order.output :=
  ⟨fun doc => isChild_destination_iff h doc order.script,
    fun _ _ _ hc => exists_destination_of_download hc⟩

theorem downloads_in_directory_iff_script :
    let a := renderingWorkshop (scriptWithFormat "mp4")
    saveDirectory? a.here.disk (baseDirOf a checkedOrder) checkedOrder.output = some "/output" ∧
      (∃ time url, (time, Call.download url "/output/script.mp4") ∈
        (run a checkedOrder ()).2.calls) ∧
      ∃ doc, Accepts a checkedOrder doc ∧ "/output/script.mp4" =
        destination a.here.disk doc checkedOrder.script (baseDirOf a checkedOrder)
          checkedOrder.output := by
  intro a
  have hdir : saveDirectory? a.here.disk (baseDirOf a checkedOrder) checkedOrder.output =
      some "/output" := by decide +kernel
  have hany : (run a checkedOrder ()).2.calls.any
      (fun c => downloadsTo "/output/script.mp4" c.2) = true := by decide +kernel
  obtain ⟨time, url, hc⟩ := exists_download hany
  exact ⟨hdir, ⟨time, url, hc⟩,
    (downloads_in_directory_iff a checkedOrder () "/output" hdir).2 time url _ hc⟩

/-- A format with slashes takes the video of a checked script out of its directory. -/
theorem download_beside_output :
    let a := renderingWorkshop (scriptWithFormat "mp4/../../evil.mp4")
    checkedOrder.skipChecks = false ∧ a.check.skipChecks = false ∧
      saveDirectory? a.here.disk (baseDirOf a checkedOrder) checkedOrder.output = some "/output" ∧
      (∃ time url, (time, Call.download url "/output/script.mp4/../../evil.mp4") ∈
        (run a checkedOrder ()).2.calls) ∧
      ¬ IsChild "/output" "/output/script.mp4/../../evil.mp4" := by
  intro a
  have hany : (run a checkedOrder ()).2.calls.any
      (fun c => downloadsTo "/output/script.mp4/../../evil.mp4" c.2) = true := by decide +kernel
  refine ⟨rfl, rfl, by decide +kernel, exists_download hany, ?_⟩
  rintro ⟨name, h⟩
  have hlen := congrArg List.length h
  rw [List.length_append, List.length_singleton] at hlen
  exact absurd hlen (by decide +kernel)

end

end VideoScript.Assembly
