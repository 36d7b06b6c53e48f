import VideoScript.Proofs.Media.Bindings
import VideoScript.Proofs.Media.Lookup
import VideoScript.Proofs.Placeholder.Matches

/-!
# Where sources come from

A string under the key `src` is put together when the video is rendered, or it is one whole
placeholder, or it is a source itself (`Sourced`). In the last two cases there is a source to look
at, and it is at hand when it is a URL of another machine or when a file stands at one of the places
of its path (`AtHand`). When the references of a document are all found, what is left to ask of a
string is that it does not merely look like a placeholder (`sourced_of_found`).
-/

set_option autoImplicit false

namespace VideoScript.Media

open Json Text Placeholder

/-! ## Sources at hand -/

/-- The path on this machine that a text names: what follows `file://`, or the text itself when it
is no URL. -/
def NamesPath (s path : List Char) : Prop :=
  s = "file://".toList ++ path ∨ isRemote s = false ∧ s = path

/-- A source is at hand: it is a URL of another machine, or a file stands at one of the places of
its path. -/
inductive AtHand (disk : Disk) (shelf : Shelf) (s : List Char) : Prop where
  | remote : isRemote s = true → ¬ "file://".toList <+: s → AtHand disk shelf s
  | file {path : List Char} {place : String} : NamesPath s path →
      place ∈ shelf.candidates (.ofList path) → Readable disk place → AtHand disk shelf s

theorem namesPath_of_diskPath? {s path : List Char} (h : diskPath? s = some path) :
    NamesPath s path := by
  unfold diskPath? dropStart? at h
  split at h
  · rename_i rest hd
    cases h
    split at hd
    · rename_i hp
      cases hd
      obtain ⟨rest, rfl⟩ := List.isPrefixOf_iff_prefix.1 hp
      exact .inl (by rw [List.drop_left])
    · cases hd
  · split at h
    · cases h
    · rename_i hr
      cases h
      exact .inr ⟨Bool.eq_false_iff.2 hr, rfl⟩

theorem remote_of_diskPath? {s : List Char} (h : diskPath? s = none) :
    isRemote s = true ∧ ¬ "file://".toList <+: s := by
  unfold diskPath? dropStart? at h
  split at h
  · cases h
  · rename_i hd
    split at hd
    · cases hd
    · rename_i hp
      split at h
      · rename_i hr
        exact ⟨hr, fun hpre => hp (List.isPrefixOf_iff_prefix.2 hpre)⟩
      · cases h

theorem atHand_of_diskPath? {disk : Disk} {shelf : Shelf} {s : List Char}
    (h : ∀ path, diskPath? s = some path →
      ∃ place ∈ shelf.candidates (.ofList path), Readable disk place) : AtHand disk shelf s := by
  cases hd : diskPath? s with
  | none =>
    obtain ⟨hr, hf⟩ := remote_of_diskPath? hd
    exact .remote hr hf
  | some path =>
    obtain ⟨place, hm, hp⟩ := h path hd
    exact .file (namesPath_of_diskPath? hd) hm hp

/-! ## The sources of strings -/

/-- Where the source that a string writes comes from: it is put together when the video is rendered,
or it is one whole placeholder, or it is the string itself. -/
inductive Sourced (disk : Disk) (shelf : Shelf) (entries : List Json) (s : List Char) : Prop where
  | mixed {token : List Char} : .token token ∈ pieces s → (∀ t, ¬ IsWhole s t) →
      Sourced disk shelf entries s
  | whole {token : List Char} : IsWhole s token → AtHand disk shelf (standIn entries token) →
      Sourced disk shelf entries s
  | bare : (∀ token, .token token ∉ pieces s) → AtHand disk shelf s → Sourced disk shelf entries s

theorem source?_whole {bindings : List Binding} {s token : List Char}
    (h : soleToken? s = some token) : source? bindings s =
      (diskPath? ((boundValue? bindings token).getD token)).map fun path => (path, some token) := by
  rw [source?, h]

theorem source?_bare {bindings : List Binding} {s : List Char} (h : soleToken? s = none)
    (ho : hasOpening s = false) :
    source? bindings s = (diskPath? s).map fun path => (path, none) := by
  rw [source?, h]
  dsimp only
  rw [ho, if_neg (by decide)]

theorem mem_of_hasOpening {s : List Char} (h : hasOpening s = true) : '{' ∈ s := by
  fun_induction hasOpening s with
  | case1 => exact List.mem_cons_self
  | case2 _ _ _ ih => exact List.mem_cons_of_mem _ (ih h)
  | case3 => cases h

/-! ## Found references -/

section
variable {doc : Document} {timeline : Json} {leaf : Leaf}

theorem mem_references (ht : doc.timeline? = some timeline)
    (hl : leaf ∈ leavesAt doc.timelinePath timeline) (hsrc : leaf.path.finalKey? = some "src")
    (hne : trimChars leaf.text.toList ≠ []) {raw : List Char} {token : Option (List Char)}
    (hs : source? doc.bindings (trimChars leaf.text.toList) = some (raw, token)) :
    ⟨.ofList raw, leaf.path, token.map .ofList⟩ ∈ references doc := by
  unfold references
  rw [ht]
  refine List.mem_filterMap.2 ⟨leaf, hl, ?_⟩
  rw [reference?, if_pos hsrc]
  dsimp only
  rw [if_neg (by simpa using hne), hs]
  rfl

/-- When all references are found and no string only looks like a placeholder, every source is at
hand or is put together when the video is rendered. -/
theorem sourced_of_found {disk : Disk} {shelf : Shelf}
    (hfound : ∀ r ∈ references doc, ∃ place ∈ shelf.candidates r.raw, Readable disk place)
    (ht : doc.timeline? = some timeline) (hl : leaf ∈ leavesAt doc.timelinePath timeline)
    (hsrc : leaf.path.finalKey? = some "src") (hne : trimChars leaf.text.toList ≠ [])
    (hopen : hasOpening (trimChars leaf.text.toList) = true →
      ∃ token, .token token ∈ pieces (trimChars leaf.text.toList)) :
    Sourced disk shelf doc.mergeEntries (trimChars leaf.text.toList) := by
  have href {raw : List Char} {token : Option (List Char)}
      (hs : source? doc.bindings (trimChars leaf.text.toList) = some (raw, token)) :
      ∃ place ∈ shelf.candidates (.ofList raw), Readable disk place := by
    have hplace := hfound _ (mem_references ht hl hsrc hne hs)
    exact hplace
  generalize trimChars leaf.text.toList = s at hne hopen href ⊢
  cases hsole : soleToken? s with
  | some token =>
    refine .whole (soleToken?_eq_some_iff.1 hsole) (atHand_of_diskPath? fun path hp => ?_)
    rw [← boundValue?_getD] at hp
    have hs : source? doc.bindings s = some (path, some token) := by
      rw [source?_whole hsole, hp, Option.map_some]
    exact href hs
  | none =>
    by_cases htoken : ∃ token, .token token ∈ pieces s
    · obtain ⟨token, hm⟩ := htoken
      refine .mixed hm fun t hw => ?_
      rw [soleToken?_eq_some_iff.2 hw] at hsole
      cases hsole
    · -- `s` does not look like a placeholder either, so it was looked up as it is
      have hclosed : hasOpening s = false := Bool.eq_false_iff.2 fun h => htoken (hopen h)
      have hnone : ∀ token, .token token ∉ pieces s := fun token hm => htoken ⟨token, hm⟩
      refine .bare hnone (atHand_of_diskPath? fun path hp => ?_)
      have hs : source? doc.bindings s = some (path, none) := by
        rw [source?_bare hsole hclosed, hp, Option.map_some]
      exact href hs

end

end VideoScript.Media
