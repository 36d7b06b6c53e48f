import Mathlib.Data.List.Destutter
import Mathlib.Data.List.Induction

/-!
# Lists without repetitions and lists of actions

`eraseDups_snoc` builds the distinct items of a list from its front to its end, `destutter_snoc` the
items that do not repeat the one before them, and `flatMap_eq_flatMap_filter` leaves out the items
that give nothing. Where keys are distinct, `filter_key_eq` finds an item by its key. An action that
may fail gives an `Except`; `mapM_eq_ok_iff` says when a list of them succeeds, and `mapM_eraseDups`
that taking an action again changes nothing, neither a result nor the first error. Where actions
also change a state, `run_bind` runs one after another.
-/

set_option autoImplicit false

namespace VideoScript

/-! ## Lists without repetitions -/

theorem eraseDups_snoc {α : Type} [DecidableEq α] (xs : List α) (x : α) :
    (xs ++ [x]).eraseDups = if x ∈ xs then xs.eraseDups else xs.eraseDups ++ [x] := by
  rw [List.eraseDups_append]
  by_cases h : x ∈ xs <;> simp [List.removeAll, h, List.eraseDups_cons]

theorem nodup_eraseDups {α : Type} [DecidableEq α] (xs : List α) : xs.eraseDups.Nodup := by
  induction xs using List.reverseRecOn with
  | nil => exact List.nodup_nil
  | append_singleton xs x ih =>
    rw [eraseDups_snoc]
    by_cases h : x ∈ xs
    · rwa [if_pos h]
    · rw [if_neg h, List.nodup_append]
      refine ⟨ih, by simp, fun y hy z hz => ?_⟩
      rw [List.mem_singleton.1 hz]
      rintro rfl
      exact h (List.mem_eraseDups.1 hy)

/-- An item at the end stays unless it repeats the one before it. -/
theorem destutter_snoc {α : Type} [DecidableEq α] (xs : List α) (x : α) :
    (xs ++ [x]).destutter (· ≠ ·) =
      xs.destutter (· ≠ ·) ++ if xs.getLast? = some x then [] else [x] := by
  cases xs with
  | nil => rfl
  | cons y xs =>
    rw [List.cons_append, List.destutter_cons', List.destutter_cons']
    induction xs generalizing y with
    | nil => by_cases h : y = x <;> simp [h]
    | cons z xs ih =>
      rw [List.cons_append, List.destutter'_cons, List.destutter'_cons, List.getLast?_cons_cons]
      by_cases h : y = z
      · subst h
        rw [if_neg (not_not.2 rfl), if_neg (not_not.2 rfl), ih]
      · rw [if_pos h, if_pos h, ih, List.cons_append]

/-- Putting together what some items give, when the others give nothing. -/
theorem flatMap_eq_flatMap_filter {α β : Type} {p : α → Bool} {f g : α → List β} {xs : List α}
    (h : ∀ x ∈ xs, f x = if p x then g x else []) : xs.flatMap f = (xs.filter p).flatMap g := by
  induction xs with
  | nil => rfl
  | cons x xs ih =>
    obtain ⟨hx, hxs⟩ := List.forall_mem_cons.1 h
    rw [List.flatMap_cons, hx, ih hxs, List.filter_cons]
    by_cases hp : p x = true
    · rw [if_pos hp, if_pos hp, List.flatMap_cons]
    · rw [if_neg hp, if_neg hp, List.nil_append]

/-- Of items with distinct keys, one alone has its key. -/
theorem filter_key_eq {α κ : Type} [DecidableEq κ] {key : α → κ} {xs : List α} {x : α}
    (hn : (xs.map key).Nodup) (hx : x ∈ xs) : xs.filter (fun y => key y = key x) = [x] := by
  induction xs with
  | nil => cases hx
  | cons y ys ih =>
    rw [List.map_cons, List.nodup_cons] at hn
    obtain ⟨hy, hys⟩ := hn
    rcases List.mem_cons.1 hx with rfl | hx
    · have hrest : ys.filter (fun z => key z = key x) = [] := by
        refine List.filter_eq_nil_iff.2 fun z hz he => hy ?_
        rw [← of_decide_eq_true he]
        exact List.mem_map_of_mem hz
      rw [List.filter_cons_of_pos (by simp), hrest]
    · have hne : key y ≠ key x := fun he => hy (he ▸ List.mem_map_of_mem hx)
      rw [List.filter_cons_of_neg (by simpa using hne), ih hys hx]

/-- The items that give something, and what they give. -/
theorem forall₂_filter_isSome {α β : Type} (f : α → Option β) (xs : List α) :
    List.Forall₂ (fun x y => f x = some y) (xs.filter fun x => (f x).isSome) (xs.filterMap f) := by
  induction xs with
  | nil => exact .nil
  | cons x xs ih =>
    rw [List.filter_cons, List.filterMap_cons]
    cases h : f x with
    | none => exact ih
    | some y => exact .cons h ih

/-! ## Actions that may fail -/

theorem bind_eq_ok {ε α β : Type} {x : Except ε α} {f : α → Except ε β} {b : β}
    (h : (x >>= f) = .ok b) : ∃ v, x = .ok v ∧ f v = .ok b := by
  cases x with
  | error e => cases h
  | ok v => exact ⟨v, rfl, h⟩

theorem toOption_eq_some_iff {ε α : Type} {r : Except ε α} {x : α} :
    r.toOption = some x ↔ r = .ok x := by
  cases r <;> simp [Except.toOption]

theorem exists_of_isOk {ε α : Type} {r : Except ε α} (h : r.isOk = true) : ∃ x, r = .ok x := by
  cases r with
  | error e => cases h
  | ok x => exact ⟨x, rfl⟩

theorem mapError_eq_ok_iff {α ε ε' : Type} {r : Except ε α} {f : ε → ε'} {x : α} :
    r.mapError f = .ok x ↔ r = .ok x := by
  cases r <;> simp [Except.mapError]

/-- What follows an action with a state runs from the state that the action leaves. -/
theorem run_bind {ε σ α β : Type} (part : ExceptT ε (StateM σ) β)
    (next : β → ExceptT ε (StateM σ) α) (s : σ) :
    (part >>= next).run.run s = match part.run.run s with
      | (.ok v, s') => (next v).run.run s'
      | (.error e, s') => (.error e, s') := by
  simp only [ExceptT.run_bind, StateT.run_bind]
  rcases part.run.run s with ⟨_ | v, s'⟩ <;> rfl

section
variable {ε α β : Type} {f : α → Except ε β}

theorem mapM_cons_eq (x : α) (xs : List α) :
    (x :: xs).mapM f = match f x, xs.mapM f with
      | .error e, _ => .error e
      | .ok _, .error e => .error e
      | .ok y, .ok ys => .ok (y :: ys) := by
  rw [List.mapM_cons]
  cases f x with
  | error e => rfl
  | ok y => cases xs.mapM f <;> rfl

theorem mapM_snoc_eq (xs : List α) (x : α) :
    (xs ++ [x]).mapM f = match xs.mapM f, f x with
      | .error e, _ => .error e
      | .ok _, .error e => .error e
      | .ok ys, .ok y => .ok (ys ++ [y]) := by
  rw [List.mapM_append, List.mapM_cons, List.mapM_nil]
  cases xs.mapM f with
  | error e => rfl
  | ok ys => cases f x <;> rfl

/-- All actions succeed exactly with their results. -/
theorem mapM_eq_ok_iff {xs : List α} {ys : List β} :
    xs.mapM f = .ok ys ↔ xs.map f = ys.map .ok := by
  induction xs generalizing ys with
  | nil => cases ys <;> simp [pure, Except.pure]
  | cons x xs ih =>
    rw [mapM_cons_eq, List.map_cons]
    cases hx : f x with
    | error e => cases ys <;> simp
    | ok y =>
      cases hxs : xs.mapM f with
      | error e => cases ys <;> simp [← ih, hxs]
      | ok zs => cases ys <;> simp [← ih, hxs]

/-- The actions that succeed, and their results. -/
theorem forall₂_filter_isOk (xs : List α) :
    List.Forall₂ (fun x y => f x = .ok y) (xs.filter fun x => (f x).isOk)
      (xs.filterMap fun x => (f x).toOption) := by
  induction xs with
  | nil => exact .nil
  | cons x xs ih =>
    rw [List.filter_cons, List.filterMap_cons]
    cases h : f x with
    | error e => exact ih
    | ok y => exact .cons h ih

/-- The result of an action stands beside it. -/
theorem lookup_zip_of_mem [DecidableEq α] {xs : List α} {ys : List β} (h : xs.map f = ys.map .ok)
    {x : α} (hx : x ∈ xs) : ∃ y, (xs.zip ys).lookup x = some y ∧ f x = .ok y := by
  induction xs generalizing ys with
  | nil => cases hx
  | cons x' xs ih =>
    cases ys with
    | nil => cases h
    | cons y ys =>
      rw [List.map_cons, List.map_cons, List.cons.injEq] at h
      rw [List.zip_cons_cons, List.lookup_cons]
      by_cases he : x = x'
      · subst he
        exact ⟨y, by simp, h.1⟩
      · rw [beq_false_of_ne he]
        exact ih h.2 ((List.mem_cons.1 hx).resolve_left he)

theorem map_eq_filterMap {l : α → Option β} {xs : List α}
    (h : ∀ x ∈ xs, ∃ y, l x = some y ∧ f x = .ok y) : xs.map f = (xs.filterMap l).map .ok := by
  induction xs with
  | nil => rfl
  | cons x xs ih =>
    obtain ⟨y, hl, hf⟩ := h x List.mem_cons_self
    rw [List.map_cons, List.filterMap_cons_some hl, List.map_cons, hf,
      ih fun x hx => h x (List.mem_cons_of_mem _ hx)]

/-- Distinct actions succeed with the first results of repeated ones. -/
theorem mapM_eraseDups_ok [DecidableEq α] {xs : List α} {ys : List β} (h : xs.mapM f = .ok ys) :
    xs.eraseDups.mapM f = .ok (xs.eraseDups.filterMap fun x => (xs.zip ys).lookup x) :=
  mapM_eq_ok_iff.2 (map_eq_filterMap fun _ hx =>
    lookup_zip_of_mem (mapM_eq_ok_iff.1 h) (List.mem_eraseDups.1 hx))

/-- Repeated actions fail no earlier than the distinct ones. -/
theorem mapM_eraseDups_error [DecidableEq α] {xs : List α} {e : ε} (h : xs.mapM f = .error e) :
    xs.eraseDups.mapM f = .error e := by
  induction xs using List.reverseRecOn with
  | nil => cases h
  | append_singleton xs x ih =>
    rw [mapM_snoc_eq] at h
    rw [eraseDups_snoc]
    cases hxs : xs.mapM f with
    | error e' =>
      rw [hxs] at h
      cases h
      split
      · exact ih hxs
      · rw [mapM_snoc_eq, ih hxs]
    | ok ys =>
      rw [hxs] at h
      cases hx : f x with
      | ok y =>
        rw [hx] at h
        cases h
      | error e' =>
        rw [hx] at h
        cases h
        have hnot : x ∉ xs := fun hm => by
          have hf : f x ∈ ys.map .ok := mapM_eq_ok_iff.1 hxs ▸ List.mem_map_of_mem hm
          obtain ⟨y, -, hy⟩ := List.mem_map.1 hf
          rw [hx] at hy
          cases hy
        rw [if_neg hnot, mapM_snoc_eq, mapM_eraseDups_ok hxs, hx]

/-- Taking repeated actions and keeping the first result of each is taking the distinct ones. -/
theorem mapM_eraseDups [DecidableEq α] (f : α → Except ε β) (xs : List α) :
    xs.eraseDups.mapM f =
      (xs.mapM f).map fun ys => xs.eraseDups.filterMap fun x => (xs.zip ys).lookup x := by
  cases h : xs.mapM f with
  | error e => exact mapM_eraseDups_error h
  | ok ys => exact mapM_eraseDups_ok h

end

end VideoScript
