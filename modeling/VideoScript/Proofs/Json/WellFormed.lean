import VideoScript.Json.Parser
import VideoScript.Proofs.Lists

/-!
# Values without repeated keys

`WellFormed v`: no object inside `v` has a key twice. The members of such an object are the ones
that `Members.get?` finds (`Members.mem_iff_get?`), so a path leads to at most one part. Every value
that a text writes is well-formed (`wellFormed_of_parse`): the parser keeps a key that comes again
in its first place.
-/

set_option autoImplicit false

namespace VideoScript.Json

/-- What holds of a value when it holds of its parts holds of every value. -/
theorem induction {P : Json → Prop} (null : P .null) (bool : ∀ b, P (.bool b))
    (number : ∀ n, P (.number n)) (string : ∀ s, P (.string s))
    (array : ∀ items, (∀ v ∈ items, P v) → P (.array items))
    (object : ∀ members : Members, (∀ m ∈ members, P m.2) → P (.object members)) (v : Json) : P v :=
  @Json.rec P (fun items => ∀ v ∈ items, P v) (fun members => ∀ m ∈ members, P m.2)
    (fun m => P m.2) null bool number string array object
    (by simp) (fun _ _ hv hvs => List.forall_mem_cons.2 ⟨hv, hvs⟩)
    (by simp) (fun _ _ hm hms => List.forall_mem_cons.2 ⟨hm, hms⟩) (fun _ _ h => h) v

/-- No object has a key twice. -/
inductive WellFormed : Json → Prop
  | null : WellFormed .null
  | bool {b} : WellFormed (.bool b)
  | number {n} : WellFormed (.number n)
  | string {s} : WellFormed (.string s)
  | array {items} (h : ∀ v ∈ items, WellFormed v) : WellFormed (.array items)
  | object {members : Members} (hk : (members.map (·.1)).Nodup)
      (h : ∀ m ∈ members, WellFormed m.2) : WellFormed (.object members)

/-! ## Members -/

namespace Members

theorem get?_cons (key : String) (value : Json) (rest : Members) (other : String) :
    get? ((key, value) :: rest) other = if other = key then some value else get? rest other := by
  rw [get?, List.lookup_cons]
  by_cases h : other = key
  · simp [h]
  · rw [if_neg h, beq_false_of_ne h]
    rfl

theorem mem_of_get? {members : Members} {key : String} {value : Json}
    (h : members.get? key = some value) : (key, value) ∈ members := by
  induction members with
  | nil => cases h
  | cons m rest ih =>
    obtain ⟨k, v⟩ := m
    rw [get?_cons] at h
    split at h
    · rename_i hk
      rw [hk, Option.some.inj h]
      exact List.mem_cons_self
    · exact List.mem_cons_of_mem _ (ih h)

theorem mem_iff_get? {members : Members} (hk : (members.map (·.1)).Nodup) {key : String}
    {value : Json} : (key, value) ∈ members ↔ members.get? key = some value := by
  refine ⟨fun hm => ?_, mem_of_get?⟩
  induction members with
  | nil => cases hm
  | cons m rest ih =>
    obtain ⟨k, v⟩ := m
    obtain ⟨hnot, hk⟩ := List.nodup_cons.1 hk
    rw [get?_cons]
    rcases List.mem_cons.1 hm with he | hm
    · cases he
      rw [if_pos rfl]
    · have hne : key ≠ k := fun he => hnot (List.mem_map.2 ⟨_, hm, he⟩)
      rw [if_neg hne]
      exact ih hk hm

theorem keys_put (members : Members) (key : String) (value : Json) :
    (members.put key value).map (·.1) =
      if key ∈ members.map (·.1) then members.map (·.1) else members.map (·.1) ++ [key] := by
  induction members with
  | nil => simp [put]
  | cons m rest ih =>
    obtain ⟨k, v⟩ := m
    rw [put]
    by_cases h : k = key
    · simp [h]
    · rw [if_neg h, List.map_cons, ih]
      by_cases hm : key ∈ rest.map (·.1) <;> simp [Ne.symm h, hm]

theorem nodup_keys_put {members : Members} (hk : (members.map (·.1)).Nodup) (key : String)
    (value : Json) : ((members.put key value).map (·.1)).Nodup := by
  rw [keys_put]
  split
  · exact hk
  · rename_i h
    rw [List.nodup_append]
    refine ⟨hk, by simp, fun x hx y hy => ?_⟩
    rw [List.mem_singleton.1 hy]
    rintro rfl
    exact h hx

theorem mem_put {members : Members} {key : String} {value : Json} {m : String × Json}
    (h : m ∈ members.put key value) : m = (key, value) ∨ m ∈ members := by
  induction members with
  | nil => exact .inl (List.mem_singleton.1 h)
  | cons m' rest ih =>
    obtain ⟨k, v⟩ := m'
    rw [put] at h
    split at h
    · rename_i hk
      rcases List.mem_cons.1 h with rfl | h
      · exact .inl (by rw [hk])
      · exact .inr (List.mem_cons_of_mem _ h)
    · rcases List.mem_cons.1 h with rfl | h
      · exact .inr List.mem_cons_self
      · exact (ih h).imp_right (List.mem_cons_of_mem _)

end Members

/-! ## Parts of well-formed values -/

theorem WellFormed.items {items : List Json} (h : WellFormed (.array items)) :
    ∀ v ∈ items, WellFormed v := by
  cases h with
  | array h => exact h

theorem WellFormed.keys {members : Members} (h : WellFormed (.object members)) :
    (members.map (·.1)).Nodup := by
  cases h with
  | object hk _ => exact hk

theorem WellFormed.members {members : Members} (h : WellFormed (.object members)) :
    ∀ m ∈ members, WellFormed m.2 := by
  cases h with
  | object _ h => exact h

theorem WellFormed.put {members : Members} (h : WellFormed (.object members)) (key : String)
    {value : Json} (hv : WellFormed value) : WellFormed (.object (members.put key value)) := by
  refine .object (Members.nodup_keys_put h.keys key value) fun m hm => ?_
  rcases Members.mem_put hm with rfl | hm
  · exact hv
  · exact h.members m hm

/-! ## Deciding -/

mutual

/-- Whether no object has a key twice. -/
def isWellFormed : Json → Bool
  | array items => itemsWellFormed items
  | object members => decide (members.map (·.1)).Nodup && membersWellFormed members
  | _ => true

/-- Whether no object in a list of values has a key twice. -/
def itemsWellFormed : List Json → Bool
  | [] => true
  | value :: rest => isWellFormed value && itemsWellFormed rest

/-- Whether no object in the values of members has a key twice. -/
def membersWellFormed : List (String × Json) → Bool
  | [] => true
  | (_, value) :: rest => isWellFormed value && membersWellFormed rest

end

theorem itemsWellFormed_iff (items : List Json) :
    itemsWellFormed items = true ↔ ∀ v ∈ items, isWellFormed v = true := by
  induction items with
  | nil => simp [itemsWellFormed]
  | cons v items ih => rw [itemsWellFormed, Bool.and_eq_true, ih, List.forall_mem_cons]

theorem membersWellFormed_iff (members : Members) :
    membersWellFormed members = true ↔ ∀ m ∈ members, isWellFormed m.2 = true := by
  induction members with
  | nil => simp [membersWellFormed]
  | cons m members ih => rw [membersWellFormed, Bool.and_eq_true, ih, List.forall_mem_cons]

theorem isWellFormed_iff (v : Json) : isWellFormed v = true ↔ WellFormed v := by
  induction v using induction with
  | null => exact ⟨fun _ => .null, fun _ => rfl⟩
  | bool => exact ⟨fun _ => .bool, fun _ => rfl⟩
  | number => exact ⟨fun _ => .number, fun _ => rfl⟩
  | string => exact ⟨fun _ => .string, fun _ => rfl⟩
  | array items ih =>
    rw [isWellFormed, itemsWellFormed_iff]
    exact ⟨fun h => .array fun v hv => (ih v hv).1 (h v hv),
      fun h v hv => (ih v hv).2 (h.items v hv)⟩
  | object members ih =>
    rw [isWellFormed, Bool.and_eq_true, decide_eq_true_iff, membersWellFormed_iff]
    exact ⟨fun ⟨hk, h⟩ => .object hk fun m hm => (ih m hm).1 (h m hm),
      fun h => ⟨h.keys, fun m hm => (ih m hm).2 (h.members m hm)⟩⟩

instance (v : Json) : Decidable (WellFormed v) := decidable_of_iff _ (isWellFormed_iff v)

/-! ## Parsed values -/

/-- What the three readers give, for an amount of fuel. -/
structure ReadsWellFormed (fuel : Nat) : Prop where
  value : ∀ depth s v rest, readValue fuel depth s = .ok (v, rest) → WellFormed v
  items : ∀ depth first s vs rest, readItems fuel depth first s = .ok (vs, rest) →
    ∀ v ∈ vs, WellFormed v
  members : ∀ depth first before s ms rest, WellFormed (.object before) →
    readMembers fuel depth first before s = .ok (ms, rest) → WellFormed (.object ms)

theorem readsWellFormed : ∀ fuel, ReadsWellFormed fuel
  | 0 => by
    refine ⟨fun depth s v rest h => ?_, fun depth first s vs rest h => ?_,
      fun depth first before s ms rest _ h => ?_⟩ <;> cases h
  | fuel + 1 => by
    have ih := readsWellFormed fuel
    refine ⟨fun depth s v rest h => ?_, fun depth first s vs rest h => ?_,
      fun depth first before s ms rest hb h => ?_⟩
    · rw [readValue] at h
      split at h
      · cases h
      · obtain ⟨⟨t, r⟩, -, h⟩ := bind_eq_ok h
        cases h
        exact .string
      · split at h
        · cases h
        · obtain ⟨⟨items, r⟩, hi, h⟩ := bind_eq_ok h
          cases h
          exact .array (ih.items _ _ _ _ _ hi)
      · split at h
        · cases h
        · obtain ⟨⟨ms, r⟩, hm, h⟩ := bind_eq_ok h
          cases h
          exact ih.members _ _ _ _ _ _ (.object (by simp) (by simp)) hm
      · obtain ⟨_, -, h⟩ := bind_eq_ok h
        cases h
        exact .null
      · obtain ⟨_, -, h⟩ := bind_eq_ok h
        cases h
        exact .bool
      · obtain ⟨_, -, h⟩ := bind_eq_ok h
        cases h
        exact .bool
      · obtain ⟨_, -, h⟩ := bind_eq_ok h
        cases h
        exact .number
      · split at h
        · obtain ⟨_, -, h⟩ := bind_eq_ok h
          cases h
          exact .number
        · cases h
    · rw [readItems] at h
      obtain ⟨c, -, h⟩ := bind_eq_ok h
      cases c with
      | finished r =>
        cases h
        simp
      | next r =>
        obtain ⟨⟨w, r1⟩, hw, h⟩ := bind_eq_ok h
        obtain ⟨⟨ws, r2⟩, hws, h⟩ := bind_eq_ok h
        cases h
        intro v hv
        rcases List.mem_cons.1 hv with rfl | hv
        · exact ih.value _ _ _ _ hw
        · exact ih.items _ _ _ _ _ hws v hv
    · -- members are put onto the ones read `before`, so these carry the invariant
      rw [readMembers] at h
      obtain ⟨c, -, h⟩ := bind_eq_ok h
      cases c with
      | finished r =>
        cases h
        exact hb
      | next r =>
        obtain ⟨⟨key, r1⟩, -, h⟩ := bind_eq_ok h
        obtain ⟨r2, -, h⟩ := bind_eq_ok h
        obtain ⟨⟨w, r3⟩, hw, h⟩ := bind_eq_ok h
        exact ih.members _ _ _ _ _ _ (hb.put _ (ih.value _ _ _ _ hw)) h

/-- A text writes a value without repeated keys. -/
theorem wellFormed_of_parse {text : String} {v : Json} (h : parse text = .ok v) : WellFormed v := by
  unfold parse at h
  cases hc : parseChars text.toList with
  | error e =>
    rw [hc] at h
    cases h
  | ok w =>
    rw [hc] at h
    cases h
    rw [parseChars] at hc
    obtain ⟨⟨w, r⟩, hr, hc⟩ := bind_eq_ok hc
    obtain ⟨_, -, hc⟩ := bind_eq_ok hc
    cases hc
    exact (readsWellFormed _).value _ _ _ _ hr

end VideoScript.Json
