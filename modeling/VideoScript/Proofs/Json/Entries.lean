import VideoScript.Proofs.Json.Passing

/-!
# The entries of an object

`objectEntries` cuts the text of an object into its entries: each key with the text where its value
starts. It passes over every value, so what a value is does not matter. Every text that is parsed as
an object has entries, and they make its members (`objectEntries_of_parse`). A record without
required members is decoded from the entries of its text, when no key stands twice: what the record
knows is decoded in place, in the order of the entries, and nothing else counts
(`decodeChars_record`).

* `Makes`: the members that entries make, a later value of a key in place of an earlier one.
* `ReadsScalar`: null, truth values and texts are read alike as values and as members.
-/

set_option autoImplicit false

namespace VideoScript.Json

open Text

/-! ## Cutting a text into entries -/

/-- A key, the text from the start of its value on, and the text after the value. -/
structure Entry where
  key : String
  start : List Char
  stop : List Char
  deriving DecidableEq

/-- Reads entries up to the closing brace, which is left in place. -/
def readEntries : Nat → Bool → List Char → Except Fault (List Entry × List Char)
  | 0, _, s => faultHere .endInObject s
  | fuel + 1, first, s => do
    match ← beforeKey first s with
    | .finished rest => return ([], rest)
    | .next rest =>
      let (key, rest) ← readString rest
      let start ← readColon rest
      let stop ← skipValue (fuelFor start) start
      let (entries, rest) ← readEntries fuel false stop
      return (⟨.ofList key, start, stop⟩ :: entries, rest)

/-- The entries of a text that is an object. -/
def objectEntries (s : List Char) : Except Fault (List Entry) :=
  match skipGaps s with
  | '{' :: rest => do
    let (entries, rest) ← readEntries (fuelFor rest) true rest
    readEnd (rest.drop 1)
    return entries
  | rest => faultAtNext .expectedValue rest

section
variable {fuel : Nat} {first : Bool} {s rest : List Char} {entries : List Entry}

theorem readEntries_close (h : readEntries fuel first s = .ok (entries, rest)) :
    ∃ t, rest = '}' :: t := by
  induction fuel generalizing first s entries with
  | zero => cases h
  | succ fuel ih =>
    rw [readEntries] at h
    obtain ⟨continuation, hbefore, h⟩ := bind_eq_ok h
    cases continuation with
    | finished r =>
      cases h
      obtain ⟨t, -, ht⟩ := beforeKey_finished hbefore
      exact ⟨t, ht⟩
    | next r =>
      obtain ⟨⟨key, afterKey⟩, -, h⟩ := bind_eq_ok h
      obtain ⟨start, -, h⟩ := bind_eq_ok h
      obtain ⟨stop, -, h⟩ := bind_eq_ok h
      obtain ⟨⟨others, left⟩, hothers, h⟩ := bind_eq_ok h
      cases h
      exact ih hothers

end

theorem length_of_beforeKey_next {first : Bool} {s r : List Char}
    (h : beforeKey first s = .ok (.next r)) : r.length < s.length := by
  have hgaps := length_skipGaps s
  rcases beforeKey_next h with ⟨-, hs⟩ | ⟨-, t, hs, ht⟩
  · rwa [hs, List.length_cons] at hgaps
  · have hgaps' := length_skipGaps t
    rw [hs, List.length_cons] at hgaps
    rw [ht, List.length_cons] at hgaps'
    omega

theorem readValue_object {fuel depth : Nat} {s rest : List Char} {members : Members}
    (h : readValue fuel (depth + 1) s = .ok (.object members, rest)) :
    ∃ t left, skipGaps s = '{' :: t ∧
      readMembers (fuel - 1) depth true [] t = .ok (members, left) ∧ rest = left.drop 1 := by
  cases fuel with
  | zero => cases h
  | succ fuel =>
    rw [readValue] at h
    split at h
    case h_4 t hs =>
      obtain ⟨⟨members', left⟩, hmembers, h⟩ := bind_eq_ok h
      cases h
      exact ⟨t, left, hs, hmembers, rfl⟩
    case h_1 => cases h
    case h_9 =>
      split at h
      · obtain ⟨_, -, h⟩ := bind_eq_ok h
        cases h
      · cases h
    all_goals
      obtain ⟨_, -, h⟩ := bind_eq_ok h
      cases h

/-- The members that entries make, onto those before: each key with the value at its start. -/
inductive Makes (depth : Nat) : Members → List Entry → Members → Prop
  | none (members : Members) : Makes depth members [] members
  | cons {fuel : Nat} {before members : Members} {e : Entry} {entries : List Entry} {v : Json}
      (value : readValue fuel depth e.start = .ok (v, e.stop))
      (others : Makes depth (before.put e.key v) entries members) :
      Makes depth before (e :: entries) members

/-- The members of an object that is read are cut into entries, when the fuel is enough. -/
theorem readEntries_of_readMembers {fuel fuel' depth : Nat} {first : Bool}
    {before members : Members} {s rest : List Char}
    (h : readMembers fuel depth first before s = .ok (members, rest)) (hfuel : s.length < fuel') :
    ∃ entries, readEntries fuel' first s = .ok (entries, rest) ∧
      Makes depth before entries members := by
  induction fuel generalizing fuel' first before s with
  | zero => cases h
  | succ fuel ih =>
    obtain ⟨fuel', rfl⟩ : ∃ k, fuel' = k + 1 := ⟨fuel' - 1, by omega⟩
    rw [readMembers] at h
    obtain ⟨continuation, hbefore, h⟩ := bind_eq_ok h
    rw [readEntries, hbefore]
    cases continuation with
    | finished r =>
      cases h
      exact ⟨[], rfl, .none _⟩
    | next r =>
      obtain ⟨⟨key, afterKey⟩, hkey, h⟩ := bind_eq_ok h
      obtain ⟨start, hcolon, h⟩ := bind_eq_ok h
      obtain ⟨⟨v, stop⟩, hvalue, h⟩ := bind_eq_ok h
      have hskips := skips_of_readValue hvalue
      have hstop : stop.length < fuel' := by
        have hnext := length_of_beforeKey_next hbefore
        have hstart := length_skipKey (skipKey_of_readString hkey hcolon)
        have hlen := hskips.length_lt
        omega
      obtain ⟨entries, hentries, hmakes⟩ := ih h hstop
      refine ⟨⟨.ofList key, start, stop⟩ :: entries, ?_, .cons hvalue hmakes⟩
      show (readString r >>= _) = _
      rw [hkey]
      show (readColon afterKey >>= _) = _
      rw [hcolon]
      show (skipValue (fuelFor start) start >>= _) = _
      rw [hskips.skipValue]
      show (readEntries fuel' false stop >>= _) = _
      rw [hentries]
      rfl

/-- Every text that is an object has entries, and they make its members. -/
theorem objectEntries_of_parse {text : String} {members : Members}
    (h : parse text = .ok (.object members)) :
    ∃ entries, objectEntries text.toList = .ok entries ∧
      Makes (depthLimit - 1) [] entries members := by
  unfold parse at h
  cases hchars : parseChars text.toList with
  | error f =>
    rw [hchars] at h
    cases h
  | ok v =>
    rw [hchars] at h
    cases h
    obtain ⟨⟨v, rest⟩, hvalue, hchars⟩ := bind_eq_ok hchars
    obtain ⟨_, hend, hchars⟩ := bind_eq_ok hchars
    cases hchars
    obtain ⟨t, left, hs, hmembers, rfl⟩ := readValue_object hvalue
    obtain ⟨entries, hentries, hmakes⟩ :=
      readEntries_of_readMembers hmembers (show t.length < fuelFor t by unfold fuelFor; omega)
    refine ⟨entries, ?_, hmakes⟩
    rw [objectEntries, hs]
    show (readEntries (fuelFor t) true t >>= _) = _
    rw [hentries]
    show (readEnd (left.drop 1) >>= _) = _
    rw [hend]
    rfl

/-! ## Records from entries -/

section
variable {σ : Type} {shape : RecordShape σ} {depth : Nat}

/-- The state of a record after the members that entries hold. -/
def gather (shape : RecordShape σ) (depth : Nat) : σ → List Entry → Except Fault σ
  | state, [] => .ok state
  | state, e :: entries =>
    match shape.members.find? fun m => m.name = e.key with
    | none => gather shape depth state entries
    | some m => do
      let (set, _) ← m.read depth e.start
      gather shape depth (set state) entries

/-- Reading by name goes from entry to entry. -/
theorem readByName_eq_gather (hms : ∀ m ∈ shape.members, Passes m.read)
    (hopt : ∀ m ∈ shape.members, m.presence ≠ .required) {fuel : Nat} {first : Bool}
    {seen : List String} {state : σ} {s rest : List Char} {entries : List Entry}
    (h : readEntries fuel first s = .ok (entries, rest)) (hn : (entries.map (·.key)).Nodup)
    (hseen : ∀ e ∈ entries, e.key ∉ seen) :
    readByName shape depth fuel first seen state s =
      (gather shape depth state entries).map fun state => (state, rest) := by
  induction fuel generalizing first seen state s entries with
  | zero => cases h
  | succ fuel ih =>
    rw [readEntries] at h
    obtain ⟨continuation, hbefore, h⟩ := bind_eq_ok h
    rw [readByName, hbefore]
    cases continuation with
    | finished r =>
      cases h
      have hnone : (shape.members.find? fun m =>
          m.presence = .required && !seen.contains m.name) = none := by
        rw [List.find?_eq_none]
        intro m hm hrequired
        exact hopt m hm (of_decide_eq_true (Bool.and_eq_true_iff.1 hrequired).1)
      dsimp only [bind, Except.bind]
      rw [hnone]
      rfl
    | next r =>
      obtain ⟨⟨key, afterKey⟩, hkey, h⟩ := bind_eq_ok h
      obtain ⟨start, hcolon, h⟩ := bind_eq_ok h
      obtain ⟨stop, hskip, h⟩ := bind_eq_ok h
      obtain ⟨⟨others, left⟩, hothers, h⟩ := bind_eq_ok h
      cases h
      rw [List.map_cons, List.nodup_cons] at hn
      obtain ⟨hfresh, hn⟩ := hn
      obtain ⟨hkeyseen, hrestseen⟩ := List.forall_mem_cons.1 hseen
      rw [gather]
      dsimp only [bind, Except.bind]
      rw [hkey]
      dsimp only
      cases hfind : shape.members.find? fun m => m.name = String.ofList key with
      | none =>
        dsimp only
        rw [hcolon]
        show (skipValue (fuelFor start) start >>= _) = _
        rw [hskip]
        exact ih hothers hn hrestseen
      | some m =>
        dsimp only
        rw [if_neg (by simpa using hkeyseen), hcolon]
        show (m.read depth start >>= _) = _
        cases hread : m.read depth start with
        | error f => rfl
        | ok result =>
          obtain ⟨set, left⟩ := result
          -- the member ends where its entry does
          have hleft : left = stop :=
            (hms m (List.mem_of_find?_eq_some hfind) _ _ _ _ hread).unique ⟨_, hskip⟩
          subst hleft
          refine ih hothers hn fun e he hmem => ?_
          rcases List.mem_cons.1 hmem with heq | hmem
          · exact hfresh (List.mem_map.2 ⟨e, he, heq⟩)
          · exact hrestseen e he hmem

/-- A record is decoded from the entries of its text. -/
theorem decodeChars_record (hms : ∀ m ∈ shape.members, Passes m.read)
    (hopt : ∀ m ∈ shape.members, m.presence ≠ .required) {s : List Char} {entries : List Entry}
    (h : objectEntries s = .ok entries) (hn : (entries.map (·.key)).Nodup) :
    decodeChars (recordDecoder shape) s = gather shape (depthLimit - 1) shape.blank entries := by
  unfold objectEntries at h
  split at h
  · next rest hs =>
    obtain ⟨⟨entries', left⟩, hentries, h⟩ := bind_eq_ok h
    obtain ⟨_, hend, h⟩ := bind_eq_ok h
    cases h
    obtain ⟨t, rfl⟩ := readEntries_close hentries
    have hread : readByName shape (depthLimit - 1) (fuelFor rest) true [] shape.blank rest =
        (gather shape (depthLimit - 1) shape.blank entries).map fun state => (state, '}' :: t) :=
      readByName_eq_gather hms hopt hentries hn (by simp)
    have hstart : valueStart s = .ok ('{' :: rest) := by rw [valueStart, hs]
    rw [decodeChars, recordDecoder, hstart]
    show ((readByName shape (depthLimit - 1) (fuelFor rest) true [] shape.blank rest >>= _) >>=
      _) = _
    rw [hread]
    cases gather shape (depthLimit - 1) shape.blank entries with
    | error f => rfl
    | ok state =>
      have hend : readEnd t = .ok () := hend
      show (readEnd t >>= fun _ => pure state) = .ok state
      rw [hend]
      rfl
  · cases h

end

/-! ## Scalars as members -/

/-- What the text of a value that is no array, no object and no number begins with. -/
inductive ReadsScalar (s : List Char) : Json → List Char → Prop
  | text {more text rest : List Char} (hs : skipGaps s = '"' :: more)
      (h : readString more = .ok (text, rest)) : ReadsScalar s (.string (.ofList text)) rest
  | null {more rest : List Char} (hs : skipGaps s = 'n' :: more)
      (h : readWord "ull".toList more = .ok ((), rest)) : ReadsScalar s .null rest
  | isTrue {more rest : List Char} (hs : skipGaps s = 't' :: more)
      (h : readWord "rue".toList more = .ok ((), rest)) : ReadsScalar s (.bool true) rest
  | isFalse {more rest : List Char} (hs : skipGaps s = 'f' :: more)
      (h : readWord "alse".toList more = .ok ((), rest)) : ReadsScalar s (.bool false) rest

/-- A value that is null, a truth value or a text. -/
def IsScalar : Json → Prop
  | .null | .bool _ | .string _ => True
  | _ => False

section
variable {fuel depth : Nat} {s rest : List Char}

theorem readsScalar_of_readValue {v : Json} (h : readValue (fuel + 1) depth s = .ok (v, rest))
    (hv : IsScalar v) : ReadsScalar s v rest := by
  rw [readValue] at h
  split at h
  · cases h
  · next hs =>
    obtain ⟨⟨text, left⟩, htext, h⟩ := bind_eq_ok h
    cases h
    exact .text hs htext
  · split at h
    · cases h
    · obtain ⟨_, -, h⟩ := bind_eq_ok h
      cases h
      exact hv.elim
  · split at h
    · cases h
    · obtain ⟨_, -, h⟩ := bind_eq_ok h
      cases h
      exact hv.elim
  · next hs =>
    obtain ⟨⟨_, left⟩, hword, h⟩ := bind_eq_ok h
    cases h
    exact .null hs hword
  · next hs =>
    obtain ⟨⟨_, left⟩, hword, h⟩ := bind_eq_ok h
    cases h
    exact .isTrue hs hword
  · next hs =>
    obtain ⟨⟨_, left⟩, hword, h⟩ := bind_eq_ok h
    cases h
    exact .isFalse hs hword
  · obtain ⟨_, -, h⟩ := bind_eq_ok h
    cases h
    exact hv.elim
  · split at h
    · obtain ⟨_, -, h⟩ := bind_eq_ok h
      cases h
      exact hv.elim
    · cases h

theorem readValue_of_readsScalar {v : Json} (h : ReadsScalar s v rest) :
    readValue (fuel + 1) depth s = .ok (v, rest) := by
  rw [readValue]
  cases h with
  | text hs h | null hs h | isTrue hs h | isFalse hs h =>
    rw [hs]
    show (_ >>= _) = _
    rw [h]
    rfl

theorem boolDecoder_eq_ok_iff {b : Bool} :
    boolDecoder depth s = .ok (b, rest) ↔ ReadsScalar s (.bool b) rest := by
  constructor
  · intro h
    unfold boolDecoder at h
    obtain ⟨start, hstart, h⟩ := bind_eq_ok h
    have hs := valueStart_eq_ok hstart
    split at h
    · obtain ⟨⟨_, left⟩, hword, h⟩ := bind_eq_ok h
      cases h
      exact .isTrue hs hword
    · obtain ⟨⟨_, left⟩, hword, h⟩ := bind_eq_ok h
      cases h
      exact .isFalse hs hword
    · exact absurd h refuseType_ne_ok
  · intro h
    unfold boolDecoder valueStart
    cases h with
    | isTrue hs h | isFalse hs h =>
      rw [hs]
      show (readWord _ _ >>= _) = _
      rw [h]
      rfl

theorem textDecoder_eq_ok_iff {expected text : String} :
    textDecoder expected depth s = .ok (text, rest) ↔ ReadsScalar s (.string text) rest := by
  constructor
  · intro h
    obtain ⟨more, chars, hs, hchars, hmake⟩ := stringDecoder_eq_ok h
    cases hmake
    exact .text hs hchars
  · intro h
    unfold textDecoder stringDecoder valueStart
    cases h with
    | text hs h =>
      rw [hs]
      show (readString _ >>= _) = _
      rw [h]
      rfl

theorem optionDecoder_none_iff {α : Type} {decoder : Decoder α} :
    optionDecoder decoder depth s = .ok (none, rest) ↔ ReadsScalar s .null rest := by
  constructor
  · intro h
    unfold optionDecoder at h
    split at h
    · next hs =>
      obtain ⟨⟨_, left⟩, hword, h⟩ := bind_eq_ok h
      cases h
      exact .null hs hword
    · obtain ⟨_, -, h⟩ := bind_eq_ok h
      cases h
  · intro h
    unfold optionDecoder
    cases h with
    | null hs h =>
      rw [hs]
      show (readWord _ _ >>= _) = _
      rw [h]
      rfl

/-- A decoder that takes no account of blanks before a value and reads no null. -/
structure Proper {α : Type} (decoder : Decoder α) : Prop where
  gaps : ∀ depth s, decoder depth (skipGaps s) = decoder depth s
  null : ∀ depth s more result, skipGaps s = 'n' :: more → decoder depth s ≠ .ok result

theorem valueStart_skipGaps (s : List Char) : valueStart (skipGaps s) = valueStart s := by
  rw [valueStart, valueStart, skipGaps_skipGaps]

theorem valueStart_cons {c : Char} {more : List Char} (h : skipGaps s = c :: more) :
    valueStart s = .ok (c :: more) := by
  rw [valueStart, h]

theorem proper_string {α : Type} (expected : String) (make : String → Except Mismatch α) :
    Proper (stringDecoder expected make) where
  gaps depth s := by rw [stringDecoder, stringDecoder, valueStart_skipGaps]
  null depth s more result hs h := by
    rw [stringDecoder, valueStart_cons hs] at h
    have hrefused : refuseType expected ('n' :: more) = .ok result := h
    exact refuseType_ne_ok hrefused

theorem proper_text (expected : String) : Proper (textDecoder expected) := proper_string _ _

theorem proper_record {σ : Type} (shape : RecordShape σ) : Proper (recordDecoder shape) where
  gaps depth s := by rw [recordDecoder, recordDecoder, valueStart_skipGaps]
  null depth s more result hs h := by
    rw [recordDecoder, valueStart_cons hs] at h
    have hrefused : refuseType ("struct " ++ shape.name) ('n' :: more) = .ok result := h
    exact refuseType_ne_ok hrefused

theorem optionDecoder_some_iff {α : Type} {decoder : Decoder α} (hd : Proper decoder) {a : α} :
    optionDecoder decoder depth s = .ok (some a, rest) ↔ decoder depth s = .ok (a, rest) := by
  unfold optionDecoder
  split
  · next more hs =>
    constructor
    · intro h
      obtain ⟨_, -, h⟩ := bind_eq_ok h
      cases h
    · intro h
      exact absurd h (hd.null depth s more _ hs)
  · rw [hd.gaps]
    constructor
    · intro h
      obtain ⟨⟨a', left⟩, hread, h⟩ := bind_eq_ok h
      cases h
      exact hread
    · intro h
      rw [h]
      rfl

end

end VideoScript.Json
