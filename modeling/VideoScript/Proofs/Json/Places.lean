import VideoScript.Proofs.Json.Rewrite

/-!
# Places in a value

`PartAt root path part`: the path leads from the root to the part. `IsPlace root path`: the path
leads to some part, or one key further than an object that lacks the key. So a path that goes from an
object by a key is a place whatever the object holds (`PartAt.member`).

What is found under different steps has different paths (`eq_of_prefix_push`), so what is listed item
by item is not listed twice (`nodup_items`).
-/

set_option autoImplicit false

namespace VideoScript.Json

/-- A path leads to a part of a value. -/
def PartAt (root : Json) (path : Path) (part : Json) : Prop := root.follow? path.steps = some part

/-- A place of a value: a part of it, or a member that one of its objects lacks. -/
inductive IsPlace (root : Json) : Path → Prop
  | part {path : Path} {part : Json} (h : PartAt root path part) : IsPlace root path
  | gap {path : Path} {members : Members} {name : String} (h : PartAt root path (.object members))
      (hn : members.get? name = none) : IsPlace root (path.key name)

variable {root value part : Json} {path : Path} {members : Members} {items : List Json}
  {name : String} {i : Nat}

namespace PartAt

theorem step {step : Step} (h : PartAt root path value) (hs : value.step? step = some part) :
    PartAt root (path.push step) part := by
  unfold PartAt Path.push at *
  rw [follow?_append, h, Option.bind_some, follow?, hs]
  rfl

theorem key (h : PartAt root path value) (hg : value.get? name = some part) :
    PartAt root (path.key name) part := h.step hg

theorem index (h : PartAt root path (.array items)) (hi : items[i]? = some part) :
    PartAt root (path.index i) part := h.step hi

/-- An object has a place for every key. -/
theorem member (h : PartAt root path (.object members)) (name : String) :
    IsPlace root (path.key name) := by
  cases hg : members.get? name with
  | none => exact .gap h hg
  | some part => exact .part (h.key hg)

theorem of_leaf (hw : WellFormed root) {leaf : Leaf} (h : leaf ∈ leaves root) :
    PartAt root leaf.path (.string leaf.text) := by
  obtain ⟨steps, hp, hf⟩ := follow?_of_mem_leavesAt hw h
  rw [PartAt, hp]
  exact hf

end PartAt

/-! ## Paths under different steps -/

theorem eq_of_prefix_push {step step' : Step} {steps : List Step}
    (h : (path.push step).steps <+: steps) (h' : (path.push step').steps <+: steps) :
    step = step' := by
  obtain ⟨rest, rfl⟩ := h
  obtain ⟨rest', hr⟩ := h'
  simp only [Path.push, List.append_assoc, List.singleton_append] at hr
  exact (List.cons.inj (List.append_cancel_left hr)).1.symm

/-- What is listed for each item, under the path of the item, has no path twice if it has none twice
for one item. -/
theorem nodup_items {α : Type} {pathOf : α → Path} {list : Path → Json → List α}
    (hin : ∀ v ∈ items, ∀ path, ∀ x ∈ list path v, path.steps <+: (pathOf x).steps)
    (hn : ∀ v ∈ items, ∀ path, ((list path v).map pathOf).Nodup) :
    ((items.zipIdx.flatMap fun x => list (path.index x.2) x.1).map pathOf).Nodup := by
  have hindices : (items.zipIdx.map (·.2)).Nodup := by
    rw [List.zipIdx_map_snd]
    exact List.nodup_range'
  rw [List.Nodup, List.pairwise_map, List.pairwise_flatMap]
  refine ⟨fun x hx => List.pairwise_map.1 (hn x.1 (List.fst_mem_of_mem_zipIdx hx) _), ?_⟩
  refine (List.pairwise_map.1 hindices).imp_of_mem fun {x y} hx hy hne a ha b hb he => ?_
  have hpa := hin x.1 (List.fst_mem_of_mem_zipIdx hx) _ a ha
  have hpb := hin y.1 (List.fst_mem_of_mem_zipIdx hy) _ b hb
  exact hne (Step.index.inj (eq_of_prefix_push (he ▸ hpa) hpb))

end VideoScript.Json
