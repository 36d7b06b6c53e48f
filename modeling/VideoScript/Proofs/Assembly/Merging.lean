import Mathlib.Data.List.Nodup
import VideoScript.Proofs.Assembly.Sources
import VideoScript.Proofs.Placeholder.Groups
import VideoScript.Proofs.Rules.Coverage

/-!
# The merge array of an edit

Binding placeholders one after the other is one pass over the merge entries (`foldl_bindToken`):
each entry gets the address for its placeholder, and the placeholders without an entry get one at
the end. An entry is for one placeholder at most (`isEntryFor_inj`) and keeps its name when it gets
an address (`isEntryFor_withReplace`), so the order in which placeholders are bound does not matter
to the entries.

The placeholders of an edit are the distinct placeholders of the references
(`tokens_boundTokens`), each with the address of the file of such a reference
(`exists_reference_of_boundToken`).
-/

set_option autoImplicit false

namespace VideoScript.Assembly

open Json Text Media

/-- A merge entry with the address for its placeholder, if there is one. -/
def bindEntry (bound : List BoundToken) (entry : Json) : Json :=
  match bound.find? fun b => isEntryFor b.token entry with
  | some b => withReplace b.url entry
  | none => entry

/-- A merge entry with the address for one placeholder. -/
def bindOne (b : BoundToken) (entry : Json) : Json :=
  if isEntryFor b.token entry then withReplace b.url entry else entry

/-- The merge entry for a placeholder that has none. -/
def addedEntry (b : BoundToken) : Json :=
  .object [("find", .string b.token), ("replace", .string b.url)]

/-- The placeholders that no merge entry is for. -/
def unnamed (entries : List Json) (bound : List BoundToken) : List BoundToken :=
  bound.filter fun b => !entries.any (isEntryFor b.token)

/-! ## Entries -/

theorem isEntryFor_iff {token : String} {entry : Json} :
    isEntryFor token entry = true ↔ Rules.IsNamed entry token := by
  unfold isEntryFor Rules.IsNamed Rules.entryName?
  cases (entry.get? "find").bind text? <;> simp

theorem isEntryFor_inj {token token' : String} {entry : Json} (h : isEntryFor token entry = true)
    (h' : isEntryFor token' entry = true) : token = token' := by
  rw [isEntryFor_iff, Rules.IsNamed] at h h'
  rw [h] at h'
  exact Option.some.inj h'

theorem get?_withReplace {url key : String} (h : key ≠ "replace") (entry : Json) :
    (withReplace url entry).get? key = entry.get? key := by
  cases entry with
  | object members => exact Members.get?_put_of_ne h
  | _ => rfl

theorem isEntryFor_withReplace (token url : String) (entry : Json) :
    isEntryFor token (withReplace url entry) = isEntryFor token entry := by
  unfold isEntryFor
  rw [get?_withReplace (by decide)]

theorem isEntryFor_bindEntry (bound : List BoundToken) (token : String) (entry : Json) :
    isEntryFor token (bindEntry bound entry) = isEntryFor token entry := by
  unfold bindEntry
  split
  · exact isEntryFor_withReplace token _ entry
  · rfl

theorem isEntryFor_addedEntry {token : String} {b : BoundToken} (ht : trim b.token = b.token) :
    isEntryFor token (addedEntry b) = decide (b.token = token) := by
  show decide (trim b.token = token) = _
  rw [ht]

theorem get?_replace_withReplace {token url : String} {entry : Json}
    (h : isEntryFor token entry = true) :
    (withReplace url entry).get? "replace" = some (.string url) := by
  cases entry with
  | object members => exact Members.get?_put_self members _ _
  | _ => cases h

theorem isEntryFor_of_find? {bound : List BoundToken} {b : BoundToken} {entry : Json}
    (h : bound.find? (fun b => isEntryFor b.token entry) = some b) :
    isEntryFor b.token entry = true := by
  have hb := List.find?_some h
  exact hb

/-- An entry for a bound placeholder gives its address. -/
theorem replace_bindEntry {bound : List BoundToken} (hn : (bound.map (·.token)).Nodup)
    {b : BoundToken} (hb : b ∈ bound) {entry : Json} (h : isEntryFor b.token entry = true) :
    (bindEntry bound entry).get? "replace" = some (.string b.url) := by
  unfold bindEntry
  split
  · rename_i b' hf
    have ht : b'.token = b.token := isEntryFor_inj (isEntryFor_of_find? hf) h
    rw [← List.inj_on_of_nodup_map hn (List.mem_of_find?_eq_some hf) hb ht]
    exact get?_replace_withReplace h
  · rename_i hf
    exact absurd h (List.find?_eq_none.1 hf b hb)

/-! ## Binding in one pass -/

theorem bindOne_of_not {b : BoundToken} {entry : Json} (h : ¬isEntryFor b.token entry = true) :
    bindOne b entry = entry := if_neg h

/-- Binding one placeholder gives every entry for it the address, and adds one when there is
none. -/
theorem bindToken_eq (entries : List Json) (b : BoundToken) :
    bindToken entries b = entries.map (bindOne b) ++
      if entries.any (isEntryFor b.token) then [] else [addedEntry b] := by
  unfold bindToken
  by_cases h : entries.any (isEntryFor b.token) = true
  · rw [if_pos h, if_pos h, List.append_nil]
    rfl
  · have hkeep : entries.map (bindOne b) = entries.map id :=
      List.map_congr_left fun entry he =>
        bindOne_of_not fun hf => h (List.any_eq_true.2 ⟨entry, he, hf⟩)
    rw [if_neg h, if_neg h, hkeep, List.map_id]
    rfl

theorem bindOne_bindEntry {bound : List BoundToken} {b : BoundToken}
    (hb : b.token ∉ bound.map (·.token)) (entry : Json) :
    bindOne b (bindEntry bound entry) = bindEntry (bound ++ [b]) entry := by
  unfold bindOne
  rw [isEntryFor_bindEntry]
  unfold bindEntry
  rw [List.find?_append, List.find?_singleton]
  cases hf : bound.find? fun b => isEntryFor b.token entry with
  | some b' =>
    have hne : ¬isEntryFor b.token entry = true := fun h =>
      hb (List.mem_map.2
        ⟨b', List.mem_of_find?_eq_some hf, isEntryFor_inj (isEntryFor_of_find? hf) h⟩)
    rw [if_neg hne]
    rfl
  | none =>
    rw [Option.none_or]
    by_cases h : isEntryFor b.token entry = true
    · rw [if_pos h, if_pos h]
    · rw [if_neg h, if_neg h]

theorem unnamed_snoc (entries : List Json) (bound : List BoundToken) (b : BoundToken) :
    unnamed entries (bound ++ [b]) =
      unnamed entries bound ++ if entries.any (isEntryFor b.token) then [] else [b] := by
  unfold unnamed
  rw [List.filter_append, List.filter_singleton]
  cases entries.any (isEntryFor b.token) <;> rfl

/-- Binding placeholders one after the other is one pass over the entries. -/
theorem foldl_bindToken {bound : List BoundToken} (hn : (bound.map (·.token)).Nodup)
    (ht : ∀ b ∈ bound, trim b.token = b.token) (entries : List Json) :
    bound.foldl bindToken entries =
      entries.map (bindEntry bound) ++ (unnamed entries bound).map addedEntry := by
  induction bound using List.reverseRecOn with
  | nil =>
    have hid : bindEntry [] = id := funext fun _ => rfl
    rw [hid, List.map_id]
    exact (List.append_nil entries).symm
  | append_singleton bound b ih =>
    rw [List.map_append, List.map_singleton, List.nodup_append] at hn
    obtain ⟨hn, -, hdisj⟩ := hn
    have hb : b.token ∉ bound.map (·.token) := fun hm =>
      hdisj _ hm _ (List.mem_singleton_self _) rfl
    have ht' : ∀ b' ∈ bound, trim b'.token = b'.token := fun b' hb' =>
      ht b' (List.mem_append_left _ hb')
    -- what the placeholders before `b` have added is not for `b`
    have hadded : ∀ b' ∈ unnamed entries bound, ¬isEntryFor b.token (addedEntry b') = true := by
      intro b' hb'
      have hmem : b' ∈ bound := List.mem_of_mem_filter hb'
      rw [isEntryFor_addedEntry (ht' b' hmem), decide_eq_true_iff]
      exact fun he => hb (List.mem_map.2 ⟨b', hmem, he⟩)
    have hany : (entries.map (bindEntry bound) ++ (unnamed entries bound).map addedEntry).any
        (isEntryFor b.token) = entries.any (isEntryFor b.token) := by
      have hnone : ((unnamed entries bound).map addedEntry).any (isEntryFor b.token) = false := by
        rw [List.any_eq_false]
        rintro entry he
        obtain ⟨b', hb', rfl⟩ := List.mem_map.1 he
        exact hadded b' hb'
      have hname : isEntryFor b.token ∘ bindEntry bound = isEntryFor b.token :=
        funext (isEntryFor_bindEntry bound b.token)
      rw [List.any_append, hnone, Bool.or_false, List.any_map, hname]
    have hentries : (entries.map (bindEntry bound)).map (bindOne b) =
        entries.map (bindEntry (bound ++ [b])) := by
      rw [List.map_map]
      exact List.map_congr_left fun entry _ => bindOne_bindEntry hb entry
    have hkept : ((unnamed entries bound).map addedEntry).map (bindOne b) =
        (unnamed entries bound).map addedEntry := by
      rw [List.map_map]
      refine List.map_congr_left fun b' hb' => ?_
      rw [Function.comp_apply, bindOne_of_not (hadded b' hb')]
    rw [List.foldl_append, ih hn ht', List.foldl_cons, List.foldl_nil, bindToken_eq, hany,
      List.map_append, hentries, hkept, unnamed_snoc, List.map_append, List.append_assoc]
    cases entries.any (isEntryFor b.token) <;> rfl

/-! ## The placeholders of an edit -/

variable {doc : Document} {refs : List Reference} {uploads : List Upload}

/-- The placeholders that get files are the distinct ones of the references, in the order of their
first references. -/
theorem tokens_boundTokens (hu : ∀ r ∈ refs, (urlOf? uploads r.raw).isSome) :
    (boundTokens doc refs uploads).map (·.token) =
      (refs.filterMap (boundToken? doc.shape)).eraseDups := by
  unfold boundTokens
  induction refs using List.reverseRecOn with
  | nil => rfl
  | append_singleton rs r ih =>
    have ih := ih fun r' hr' => hu r' (List.mem_append_left _ hr')
    obtain ⟨url, hurl⟩ := Option.isSome_iff_exists.1 (hu r (by simp))
    rw [List.foldl_append, List.foldl_cons, List.foldl_nil, List.filterMap_append, addToken, hurl]
    cases hb : boundToken? doc.shape r with
    | none =>
      rw [List.filterMap_cons_none hb, List.filterMap_nil, List.append_nil]
      exact ih
    | some token =>
      have hany : (rs.foldl (addToken doc.shape uploads) []).any (·.token == token) = true ↔
          token ∈ rs.filterMap (boundToken? doc.shape) := by
        rw [← List.mem_eraseDups, ← ih, List.any_eq_true, List.mem_map]
        simp only [beq_iff_eq]
      rw [List.filterMap_cons_some hb, List.filterMap_nil, eraseDups_snoc]
      dsimp only
      by_cases hm : token ∈ rs.filterMap (boundToken? doc.shape)
      · rw [if_pos (hany.2 hm), if_pos hm, ih]
      · rw [if_neg (fun h => hm (hany.1 h)), if_neg hm, List.map_append, ih]
        rfl

/-- A placeholder gets the address of the file of a reference through it. -/
theorem exists_reference_of_boundToken {b : BoundToken} (h : b ∈ boundTokens doc refs uploads) :
    ∃ r ∈ refs, boundToken? doc.shape r = some b.token ∧ urlOf? uploads r.raw = some b.url := by
  unfold boundTokens at h
  induction refs using List.reverseRecOn with
  | nil => cases h
  | append_singleton rs r ih =>
    have hold (h : b ∈ rs.foldl (addToken doc.shape uploads) []) : ∃ r' ∈ rs ++ [r],
        boundToken? doc.shape r' = some b.token ∧ urlOf? uploads r'.raw = some b.url := by
      obtain ⟨r', hr', hb⟩ := ih h
      exact ⟨r', List.mem_append_left _ hr', hb⟩
    rw [List.foldl_append, List.foldl_cons, List.foldl_nil, addToken] at h
    split at h
    · rename_i token url hb hurl
      split at h
      · exact hold h
      · rcases List.mem_append.1 h with h | h
        · exact hold h
        · cases List.mem_singleton.1 h
          exact ⟨r, by simp, hb, hurl⟩
    · exact hold h

end VideoScript.Assembly
