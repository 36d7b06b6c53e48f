import VideoScript.Json.Leaves
import VideoScript.Proofs.Text.Lines

/-!
# Pointers address paths

The pointer of a path reads back as its steps: each key comes back from its escapes and each index
from its digits (`pointerParts?_pointer`). So from a value in which the path leads somewhere, the
pointer takes the same steps (`pointerSteps?_parts`), and resolving or writing along the pointer is
following or replacing along the path (`resolve?_pointer`, `writeAt?_pointer`).
-/

set_option autoImplicit false

namespace VideoScript.Json

open Text VideoScript.Json.Path

/-! ## Escapes -/

/-- A key with its tildes escaped and its slashes not. -/
def tildesEscaped (s : List Char) : List Char :=
  s.flatMap fun c => if c = '~' then ['~', '0'] else [c]

theorem slashes_cons {c : Char} (h : c ≠ '~') (rest : List Char) :
    unescapePart.slashes (c :: rest) = c :: unescapePart.slashes rest := by
  rw [unescapePart.slashes]
  rintro rest' rfl
  exact absurd rfl h

theorem tildes_cons {c : Char} (h : c ≠ '~') (rest : List Char) :
    unescapePart.tildes (c :: rest) = c :: unescapePart.tildes rest := by
  rw [unescapePart.tildes]
  rintro rest' rfl
  exact absurd rfl h

theorem slashes_pointerChars (s : List Char) :
    unescapePart.slashes (s.flatMap pointerChar) = tildesEscaped s := by
  induction s with
  | nil => rfl
  | cons c s ih =>
    unfold tildesEscaped at *
    rw [List.flatMap_cons, List.flatMap_cons, ← ih, pointerChar]
    by_cases h : c = '~'
    · subst h
      simp [unescapePart.slashes]
    · by_cases hs : c = '/'
      · subst hs
        simp [unescapePart.slashes]
      · simp [h, hs, slashes_cons h]

theorem tildes_tildesEscaped (s : List Char) : unescapePart.tildes (tildesEscaped s) = s := by
  induction s with
  | nil => rfl
  | cons c s ih =>
    unfold tildesEscaped at *
    rw [List.flatMap_cons]
    by_cases h : c = '~'
    · subst h
      simp [unescapePart.tildes, ih]
    · simp [h, tildes_cons h, ih]

theorem unescapePart_pointerChars (s : List Char) : unescapePart (s.flatMap pointerChar) = s := by
  rw [unescapePart, slashes_pointerChars, tildes_tildesEscaped]

theorem unescapePart_of_not_mem {s : List Char} (h : '~' ∉ s) : unescapePart s = s := by
  have hs : ∀ t : List Char, '~' ∉ t → unescapePart.slashes t = t ∧ unescapePart.tildes t = t := by
    intro t ht
    induction t with
    | nil => exact ⟨rfl, rfl⟩
    | cons c t ih =>
      rw [List.mem_cons, not_or] at ht
      rw [slashes_cons (Ne.symm ht.1), tildes_cons (Ne.symm ht.1), (ih ht.2).1, (ih ht.2).2]
      exact ⟨rfl, rfl⟩
  rw [unescapePart, (hs s h).1, (hs s h).2]

/-! ## Digits -/

theorem isDigit_of_mem_digits {n : Nat} {c : Char} (h : c ∈ digitsOfNatural n) :
    isDigit c = true := by
  have := Nat.isDigit_of_mem_toDigits (by decide) (by decide) h
  simpa [Char.isDigit, isDigit, Char.le_def] using this

theorem naturalOfDigits_digits (n : Nat) : naturalOfDigits (digitsOfNatural n) = n :=
  Nat.ofDigitChars_toDigits (b := 10) (by decide) (by decide)

theorem head?_digits {n : Nat} (h : n ≠ 0) : (digitsOfNatural n).head? ≠ some '0' := by
  induction n using Nat.strongRecOn with
  | ind n ih =>
    rw [digitsOfNatural, Nat.toDigits_eq_if (by decide)]
    split
    · simp [h]
    · rename_i hn
      rw [List.head?_append, Option.or_of_isSome (by simp)]
      exact ih (n / 10) (by omega) (by omega)

/-- The digits of a number start with a zero only when there is no other digit. -/
theorem digits_ne_zero_cons {n : Nat} {c : Char} {rest : List Char} :
    digitsOfNatural n ≠ '0' :: c :: rest := by
  intro h
  by_cases h0 : n = 0
  · subst h0
    rw [digitsOfNatural, Nat.toDigits_zero] at h
    cases h
  · exact head?_digits h0 (by rw [h]; rfl)

/-- The text of a step in a pointer, without its escapes. -/
def stepPart : Step → String
  | .key name => name
  | .index i => .ofList (digitsOfNatural i)

theorem partIndex?_stepPart (i : Nat) : partIndex? (stepPart (.index i)) = some i := by
  unfold partIndex? stepPart
  rw [String.toList_ofList]
  split
  · rename_i h
    exact absurd h digits_ne_zero_cons
  · have hne : digitsOfNatural i ≠ [] := Nat.toDigits_ne_nil
    have hall : (digitsOfNatural i).all isDigit = true :=
      List.all_eq_true.2 fun c hc => isDigit_of_mem_digits hc
    simp [hne, hall, naturalOfDigits_digits]

/-! ## The parts of a pointer -/

theorem slash_not_mem_pointerStep (step : Step) : '/' ∉ pointerStep step := by
  cases step with
  | key name =>
    intro h
    obtain ⟨c, -, hc⟩ := List.mem_flatMap.1 h
    unfold pointerChar at hc
    split at hc
    · simp at hc
    · split at hc
      · simp at hc
      · rename_i hs
        exact hs (List.mem_singleton.1 hc).symm
  | index i =>
    intro h
    have := isDigit_of_mem_digits h
    revert this
    decide

theorem unescapePart_pointerStep (step : Step) :
    unescapePart (pointerStep step) = (stepPart step).toList := by
  cases step with
  | key name => exact unescapePart_pointerChars _
  | index i =>
    rw [stepPart, String.toList_ofList]
    refine unescapePart_of_not_mem fun h => ?_
    have := isDigit_of_mem_digits h
    revert this
    decide

theorem splitAt_steps (step : Step) (rest : List Step) :
    splitAt '/' (pointerStep step ++ rest.flatMap fun s => '/' :: pointerStep s) =
      (step :: rest).map pointerStep := by
  induction rest generalizing step with
  | nil => simpa using splitAt_of_not_mem (slash_not_mem_pointerStep step)
  | cons next rest ih =>
    rw [List.flatMap_cons, List.cons_append, splitAt_append (slash_not_mem_pointerStep step), ih]
    rfl

/-- The pointer of a path reads back as its steps. -/
theorem pointerParts?_pointer (path : Path) :
    pointerParts? path.pointer = some (path.steps.map stepPart) := by
  rw [pointerParts?, Path.pointer, String.toList_ofList]
  cases path.steps with
  | nil => rfl
  | cons step rest =>
    simp only [List.flatMap_cons, List.cons_append]
    rw [splitAt_steps, List.map_map]
    exact congrArg some (List.map_congr_left fun s _ => by
      rw [Function.comp_apply, unescapePart_pointerStep, String.ofList_toList])

/-! ## Along a pointer -/

/-- Where a path leads somewhere, the parts of its pointer take its steps. -/
theorem pointerSteps?_parts {value part : Json} {steps : List Step}
    (h : value.follow? steps = some part) :
    value.pointerSteps? (steps.map stepPart) = some steps := by
  induction steps generalizing value with
  | nil => rfl
  | cons step rest ih =>
    rw [follow?, Option.bind_eq_some_iff] at h
    obtain ⟨child, hc, hf⟩ := h
    have hp : value.partStep? (stepPart step) = some step := by
      cases step with
      | key name =>
        cases value with
        | object members => rfl
        | _ => cases hc
      | index i =>
        cases value with
        | array items => rw [partStep?, partIndex?_stepPart, Option.map_some]
        | _ => cases hc
    rw [List.map_cons, pointerSteps?, hp]
    show (value.step? step).bind _ = _
    rw [hc]
    show (child.pointerSteps? _).bind _ = _
    rw [ih hf]
    rfl

theorem resolve?_pointer {value part : Json} {path : Path}
    (h : value.follow? path.steps = some part) : value.resolve? path.pointer = some part := by
  rw [resolve?, pointerParts?_pointer]
  show (value.pointerSteps? _).bind _ = _
  rw [pointerSteps?_parts h]
  exact h

theorem writeAt?_pointer {value part : Json} {path : Path}
    (h : value.follow? path.steps = some part) (other : Json) :
    value.writeAt? path.pointer other = value.replace? other path.steps := by
  rw [writeAt?, pointerParts?_pointer]
  show (value.pointerSteps? _).bind _ = _
  rw [pointerSteps?_parts h]
  rfl

end VideoScript.Json
