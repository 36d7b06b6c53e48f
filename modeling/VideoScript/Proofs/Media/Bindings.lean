import VideoScript.Media.Reference

/-!
# What stands for a placeholder

The merge array says what stands for a placeholder: the value of the first complete entry with its
name or, where that value is blank or no entry gives one, the name itself (`standIn`). The bindings
of a document leave out entries whose name stood before. That changes no answer, for the first of
several bindings with one name is found either way (`find?_foldl_addBinding`), so the bindings say
what the entries say (`boundValue?_getD`).
-/

set_option autoImplicit false

namespace VideoScript

open Json Text

namespace Document

/-! ## The first of several bindings -/

theorem find?_addBinding {p : Binding → Bool} (hp : ∀ b b', b.find = b'.find → p b = p b')
    (bindings : List Binding) (b : Binding) :
    (addBinding bindings b).find? p = (bindings ++ [b]).find? p := by
  unfold addBinding
  split
  · rename_i h
    obtain ⟨first, hm, he⟩ := List.any_eq_true.1 h
    have hpb : p first = p b := hp _ _ (by simpa using he)
    rw [List.find?_append]
    cases hf : bindings.find? p with
    | some _ => rfl
    | none =>
      -- nothing is found, not even the binding that keeps `b` out, so `b` would not be found either
      have hnot : p first = false := by simpa using List.find?_eq_none.1 hf first hm
      simp [← hpb, hnot]
  · rfl

/-- Of several bindings with one name the first is found, whether or not the others are kept. -/
theorem find?_foldl_addBinding {p : Binding → Bool} (hp : ∀ b b', b.find = b'.find → p b = p b')
    (bindings more : List Binding) :
    (more.foldl addBinding bindings).find? p = (bindings ++ more).find? p := by
  induction more generalizing bindings with
  | nil => rw [List.foldl_nil, List.append_nil]
  | cons b more ih =>
    rw [List.foldl_cons, ih, List.find?_append, find?_addBinding hp, ← List.find?_append,
      List.append_assoc, List.singleton_append]

end Document

namespace Media

/-! ## Values of entries -/

/-- The value that a merge entry gives to a placeholder: the entry has two texts and the
placeholder's name. -/
def entryValue? (token : List Char) (entry : Json) : Option (List Char) :=
  match entry.get? "find", entry.get? "replace" with
  | some (.string find), some (.string replace) =>
    if find ≠ "" ∧ trimChars find.toList = token then some (trimChars replace.toList) else none
  | _, _ => none

/-- What stands for a placeholder: the value that the first of its entries gives or, where that is
blank or no entry gives one, its own name. -/
def standIn (entries : List Json) (token : List Char) : List Char :=
  match entries.findSome? (entryValue? token) with
  | some (c :: value) => c :: value
  | _ => token

theorem entryValue?_eq (token : List Char) (entry : Json) :
    entryValue? token entry =
      ((Document.binding? entry).filter fun b => trimChars b.find.toList == token).map
        fun b => trimChars b.replace.toList := by
  unfold entryValue? Document.binding?
  cases entry.get? "find" with
  | none => rfl
  | some find =>
    cases entry.get? "replace" with
    | none => cases find <;> rfl
    | some replace =>
      cases find with
      | string find =>
        cases replace with
        | string replace =>
          by_cases hf : find = ""
          · simp [hf, text?]
          · by_cases ht : trimChars find.toList = token <;>
              simp [hf, ht, text?, Option.filter]
        | _ => rfl
      | _ => rfl

theorem findSome?_entryValue? (token : List Char) (entries : List Json) :
    entries.findSome? (entryValue? token) =
      ((entries.filterMap Document.binding?).find? fun b => trimChars b.find.toList == token).map
        fun b => trimChars b.replace.toList := by
  induction entries with
  | nil => rfl
  | cons entry rest ih =>
    rw [List.findSome?_cons, entryValue?_eq, ih]
    cases hb : Document.binding? entry with
    | none => rw [List.filterMap_cons_none hb]; rfl
    | some b =>
      rw [List.filterMap_cons_some hb, List.find?_cons]
      cases ht : trimChars b.find.toList == token <;>
        simp only [Option.filter_some, ht, if_true, Bool.false_eq_true, if_false, Option.map_some,
          Option.map_none]

/-- The bindings of a document settle what stands for a placeholder. -/
theorem boundValue?_getD (doc : Document) (token : List Char) :
    (boundValue? doc.bindings token).getD token = standIn doc.mergeEntries token := by
  have hfind : doc.bindings.find? (fun b => trimChars b.find.toList == token) =
      (doc.mergeEntries.filterMap Document.binding?).find?
        fun b => trimChars b.find.toList == token :=
    Document.find?_foldl_addBinding (fun b b' h => by rw [h]) [] _
  rw [boundValue?, hfind, standIn, findSome?_entryValue?]
  cases (doc.mergeEntries.filterMap Document.binding?).find?
      fun b => trimChars b.find.toList == token with
  | none => rfl
  | some b =>
    dsimp only [Option.map_some]
    cases trimChars b.replace.toList <;> rfl

end Media

end VideoScript
