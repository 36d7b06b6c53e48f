import VideoScript.Media.Reference
import VideoScript.Proofs.Lists

/-!
# Groups in the order of first places

Placeholders and media paths are gathered into groups by `Scan.addPath`, one place at a time. The
groups that come out have the distinct names in the order of their first places, each with all its
places in order (`foldl_addPath`). So the groups of references have the distinct media paths
(`Media.distinct_grouped`), and those of a scan its distinct tokens (`Scan.keys_grouped`).
-/

set_option autoImplicit false

namespace VideoScript

open Json

namespace Placeholder.Scan

/-! ## Adding a place -/

theorem addPath_of_mem {f : String → List Path} {token : String} {path : Path} {names : List String}
    (hn : names.Nodup) (h : token ∈ names) :
    addPath (names.map fun name => (name, f name)) token path =
      names.map fun name => (name, if name = token then f name ++ [path] else f name) := by
  induction names with
  | nil => cases h
  | cons name names ih =>
    obtain ⟨hnot, hn⟩ := List.nodup_cons.1 hn
    by_cases he : name = token
    · subst he
      have hrest : ∀ other ∈ names, other ≠ name := fun other ho he => hnot (he ▸ ho)
      simp only [List.map_cons, addPath, if_true, List.cons.injEq, true_and]
      exact List.map_congr_left fun other ho => by rw [if_neg (hrest other ho)]
    · have ht : token ∈ names := (List.mem_cons.1 h).resolve_left fun e => he e.symm
      simp only [List.map_cons, addPath, if_neg he]
      rw [ih hn ht]

theorem addPath_of_not_mem {f : String → List Path} {token : String} {path : Path}
    {names : List String} (h : token ∉ names) :
    addPath (names.map fun name => (name, f name)) token path =
      (names.map fun name => (name, f name)) ++ [(token, [path])] := by
  induction names with
  | nil => rfl
  | cons name names ih =>
    rw [List.mem_cons, not_or] at h
    simp only [List.map_cons, addPath, if_neg (Ne.symm h.1), List.cons_append, ih h.2]

/-- The groups of items: the distinct names in the order in which they come first, each with all
its places. -/
theorem foldl_addPath {α : Type} (name : α → String) (place : α → Path) (xs : List α) :
    xs.foldl (fun groups x => addPath groups (name x) (place x)) [] =
      (xs.map name).eraseDups.map fun n => (n, (xs.filter fun x => name x = n).map place) := by
  induction xs using List.reverseRecOn with
  | nil => rfl
  | append_singleton xs x ih =>
    rw [List.foldl_append, List.foldl_cons, List.foldl_nil, ih, List.map_append, List.map_singleton,
      eraseDups_snoc]
    by_cases h : name x ∈ xs.map name
    · rw [if_pos h, addPath_of_mem (nodup_eraseDups _) (List.mem_eraseDups.2 h)]
      refine List.map_congr_left fun n _ => ?_
      by_cases hn : n = name x
      · simp [hn, List.filter_append]
      · simp [hn, List.filter_append, Ne.symm hn]
    · rw [if_neg h, addPath_of_not_mem fun hm => h (List.mem_eraseDups.1 hm), List.map_append,
        List.map_singleton]
      refine congrArg₂ (· ++ ·) (List.map_congr_left fun n hn => ?_) ?_
      · have hne : name x ≠ n := by
          rintro rfl
          exact h (List.mem_eraseDups.1 hn)
        simp [List.filter_append, hne]
      · have hnone : xs.filter (fun y => name y = name x) = [] := by
          rw [List.filter_eq_nil_iff]
          intro y hy he
          exact h (List.mem_map.2 ⟨y, hy, by simpa using he⟩)
        simp [List.filter_append, hnone]

theorem keys_grouped (scan : Scan) :
    scan.grouped.map (·.1) = (scan.occurrences.map (·.token)).eraseDups := by
  rw [grouped, foldl_addPath, List.map_map]
  exact List.map_id _

end Placeholder.Scan

namespace Media

/-- The groups of references: the distinct paths, each with all its locations. -/
theorem grouped_eq (refs : List Reference) :
    grouped refs = (refs.map (·.raw)).eraseDups.map fun raw =>
      (raw, (refs.filter fun r => r.raw = raw).map (·.location)) :=
  Placeholder.Scan.foldl_addPath Reference.raw Reference.location refs

theorem distinct_grouped (refs : List Reference) :
    (grouped refs).map (·.1) = (refs.map (·.raw)).eraseDups := by
  rw [grouped_eq, List.map_map]
  exact List.map_id _

end Media

end VideoScript
