import VideoScript.Disk.Basic
import VideoScript.Disk.Path
import VideoScript.Finding
import VideoScript.Media.Reference
import VideoScript.Settings.Check

/-!
# Looking up media files

A media path is looked up in the directory of the script and then in the directory of the media
files; an absolute path is looked up as it is. The first place with anything in it decides. A place
that is a file which can be opened is fine; anything else gives one finding for the path, at the
first reference, with all references when there is more than one. What goes wrong with the disk
itself is an error and no finding.

Paths are looked up one after the other or side by side. Side by side they finish in any order, a
`Schedule`, and the answers are put back into the order of the paths.
-/

set_option autoImplicit false

namespace VideoScript.Media

open Json Disk

/-- The directories in which media paths are looked up. -/
structure Shelf where
  baseDir : String
  resourcesDir : Option String
  deriving DecidableEq, Repr

namespace Shelf

/-- The directories for a script in a directory. The settings' directory of media files goes before
the one that the document names; both are seen from the directory of the script. -/
def make (settings : CheckSettings) (baseDir : String) (documentDir : Option String) : Shelf :=
  ⟨baseDir, (settings.resourcesDir.or documentDir).map (join baseDir)⟩

/-- The places where a media path is looked up, in order. -/
def candidates (shelf : Shelf) (raw : String) : List String :=
  if isAbsolute raw then [raw]
  else
    let first := join shelf.baseDir raw
    match shelf.resourcesDir with
    | none => [first]
    | some dir =>
      let second := join dir raw
      if samePath second first then [first] else [first, second]

/-- The first place of a media path where a file stands. -/
def resolve? (shelf : Shelf) (disk : Disk) (raw : String) : Option String :=
  (shelf.candidates raw).find? disk.hasFile

end Shelf

/-- What a look-up finds. -/
inductive Probe where
  | found (path : String)
  | missing (path : String)
  | denied (path : String)
  | notFile (path : String)
  deriving DecidableEq, Repr

/-- What goes wrong with the disk while a place is looked at. -/
structure ProbeError where
  path : String
  failure : Failure
  deriving DecidableEq, Repr

/-- What a place says: it decides the look-up, or there is nothing in it. -/
def probeAt (disk : Disk) (path : String) : Except ProbeError (Option Probe) :=
  match disk.kind path with
  | .ok .file =>
    match disk.opens path with
    | .ok () => .ok (some (.found path))
    | .error .denied => .ok (some (.denied path))
    | .error failure => .error ⟨path, failure⟩
  | .ok _ => .ok (some (.notFile path))
  | .error .notFound => .ok none
  | .error .denied => .ok (some (.denied path))
  | .error failure => .error ⟨path, failure⟩

/-- Looks at places in order; `first` is named when there is nothing in any of them. -/
def probeFrom (disk : Disk) (first : String) : List String → Except ProbeError Probe
  | [] => .ok (.missing first)
  | path :: rest =>
    match probeAt disk path with
    | .error e => .error e
    | .ok (some probe) => .ok probe
    | .ok none => probeFrom disk first rest

/-- Looks up a media path at its places. -/
def probe (disk : Disk) (candidates : List String) : Except ProbeError Probe :=
  probeFrom disk (candidates.head?.getD "") candidates

/-- The places that a look-up looks at: all up to the first that decides it. -/
def visited (disk : Disk) : List String → List String
  | [] => []
  | path :: rest =>
    match probeAt disk path with
    | .ok none => path :: visited disk rest
    | _ => [path]

/-! ## One after the other and side by side -/

/-- The order in which look-ups that run side by side finish, as a rearrangement of their numbered
answers. -/
structure Schedule where
  arrange : List (Nat × Except ProbeError Probe) → List (Nat × Except ProbeError Probe)
  perm : ∀ answers, (arrange answers).Perm answers

/-- The schedule in which look-ups finish in the order in which they start. -/
def Schedule.inOrder : Schedule := ⟨id, fun _ => .refl _⟩

/-- The answers of look-ups, or the first error among them. -/
def collect (answers : List (Except ProbeError Probe)) : Except ProbeError (List Probe) :=
  answers.mapM id

/-- Looks up each job in turn and stops at the first error. -/
def probeInTurn (disk : Disk) (jobs : List (List String)) : Except ProbeError (List Probe) :=
  jobs.mapM (probe disk)

/-- Looks up all jobs side by side and puts their answers back into order. -/
def probeTogether (schedule : Schedule) (disk : Disk) (jobs : List (List String)) :
    Except ProbeError (List Probe) :=
  let answers := jobs.zipIdx.map fun (candidates, i) => (i, probe disk candidates)
  let finished := schedule.arrange answers
  collect ((finished.mergeSort fun a b => a.1 ≤ b.1).map (·.2))

/-! ## Findings -/

/-- The finding for a media path with its locations. -/
def probeFinding? (raw : String) (locations : List Path) : Probe → Option Finding
  | .found _ => none
  | .missing path => some (make "media file not found" path)
  | .denied path => some (make "media file not accessible" path)
  | .notFile path => some (make "media path is not a file" path)
where
  /-- The finding with a message about a place. -/
  make (message path : String) : Finding :=
    ((Finding.error .file ((locations.head?.map Path.shown).getD "")
      (message ++ ": '" ++ raw ++ "'")).suggest ("resolved to " ++ path)).seenAt
      (if 1 < locations.length then locations.map Path.shown else [])

/-- The places of each look-up: one look-up for each distinct path or, without a cache, for each
reference. -/
def jobs (settings : CheckSettings) (shelf : Shelf) (refs : List Reference) :
    List (List String) :=
  if settings.cache then (grouped refs).map fun (raw, _) => shelf.candidates raw
  else refs.map fun r => shelf.candidates r.raw

/-- The answer for each distinct path. Without a cache it is that of the first reference. -/
def answersByPath (settings : CheckSettings) (refs : List Reference) (probes : List Probe) :
    List Probe :=
  if settings.cache then probes
  else (grouped refs).filterMap fun (raw, _) => ((refs.map (·.raw)).zip probes).lookup raw

/-- The findings about the media files of references. -/
def fileFindings (schedule : Schedule) (disk : Disk) (settings : CheckSettings) (shelf : Shelf)
    (refs : List Reference) : Except ProbeError (List Finding) :=
  if settings.skipFiles || refs.isEmpty then .ok []
  else do
    let groups := grouped refs
    let jobs := jobs settings shelf refs
    let probes ←
      if settings.parallelThreshold ≤ groups.length then probeTogether schedule disk jobs
      else probeInTurn disk jobs
    let answers := answersByPath settings refs probes
    return (groups.zip answers).filterMap fun ((raw, locations), answer) =>
      probeFinding? raw locations answer

/-- The places that look-ups in turn look at: those of each job, up to the first that fails. -/
def visitedInTurn (disk : Disk) : List (List String) → List String
  | [] => []
  | candidates :: rest =>
    match probe disk candidates with
    | .ok _ => visited disk candidates ++ visitedInTurn disk rest
    | .error _ => visited disk candidates

/-- The places that are looked at for references. Side by side every look-up is made, whatever
becomes of the others. -/
def visitedPlaces (disk : Disk) (settings : CheckSettings) (shelf : Shelf)
    (refs : List Reference) : List String :=
  if settings.skipFiles || refs.isEmpty then []
  else
    let jobs := jobs settings shelf refs
    if settings.parallelThreshold ≤ (grouped refs).length then jobs.flatMap (visited disk)
    else visitedInTurn disk jobs

end VideoScript.Media
