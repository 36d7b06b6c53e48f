import VideoScript.Web.Exchange

/-!
# Hops of a delivery

A request is delivered in hops: its own message, and then each message to which the answer before it
leads (`isTrail_deliver`). The headers that were set go along the whole trail (`IsTrail.keeps`), so
the last server on it sees them as the first did.

The responses decide a delivery: two networks that give the same ones take it through the same hops,
to the same reply (`deliver_congr`). They need not be alike otherwise, and how many responses a
delivery takes is decided by those that it gets.
-/

set_option autoImplicit false

namespace VideoScript.Web

section
variable [Library] {ν ν' : Type} {network : Network ν} {network' : Network ν'} {r : Request}
  {m : Message}

/-! ## Trails -/

/-- Hops from a message on: its own, and then those of the messages to which the answers lead. -/
def IsTrail : Message → List Hop → Prop
  | _, [] => False
  | m, hop :: rest => hop.message = m ∧
      (rest = [] ∨ ∃ next, m.next? hop.response = some next ∧ IsTrail next rest)

theorem follow_of_last (left : Nat) {start : ν}
    (h : m.next? (network.exchange m start).1 = none) : network.follow left m start =
      ⟨(network.exchange m start).1.reply, [⟨m, (network.exchange m start).1⟩],
        (network.exchange m start).2⟩ := by
  cases left <;> simp [Network.follow, h]

theorem isTrail_follow (left : Nat) (m : Message) (start : ν) :
    IsTrail m (network.follow left m start).hops := by
  induction left generalizing m start with
  | zero => exact ⟨rfl, .inl rfl⟩
  | succ left ih =>
    cases h : m.next? (network.exchange m start).1 with
    | none =>
      rw [follow_of_last _ h]
      exact ⟨rfl, .inl rfl⟩
    | some next =>
      simp only [Network.follow, h]
      exact ⟨rfl, .inr ⟨next, h, ih next _⟩⟩

/-- What is sent for a request is its own message and those to which the answers lead. -/
theorem isTrail_deliver (hm : r.message? = some m) (start : ν) :
    IsTrail m (network.deliver r start).hops := by
  rw [Network.deliver, hm]
  exact isTrail_follow _ _ _

theorem deliver_unsendable (h : r.canBeSent = false) (start : ν) :
    network.deliver r start = ⟨.failed unsendable, [], start⟩ := by
  rw [Network.deliver, Option.isSome_eq_false_iff.1 h |> Option.isNone_iff_eq_none.1]

theorem exists_redirect {response : Response} {next : Message}
    (h : m.next? response = some next) :
    ∃ status location, Library.redirect? m status location = some next := by
  obtain ⟨status, -, h⟩ := Option.bind_eq_some_iff.1 h
  obtain ⟨location, -, h⟩ := Option.bind_eq_some_iff.1 h
  exact ⟨status, location, h⟩

/-- What one hop keeps is the same along the trail. -/
theorem IsTrail.keeps {α : Type} (f : Message → α) {hops : List Hop} (h : IsTrail m hops)
    (hf : ∀ m status location next,
      Library.redirect? m status location = some next → f next = f m) :
    ∀ hop ∈ hops, f hop.message = f m := by
  induction hops generalizing m with
  | nil => exact h.elim
  | cons hop rest ih =>
    obtain ⟨rfl, hrest⟩ := h
    refine List.forall_mem_cons.2 ⟨rfl, ?_⟩
    rcases hrest with rfl | ⟨next, hnext, htrail⟩
    · exact List.forall_mem_nil _
    · obtain ⟨status, location, hredirect⟩ := exists_redirect hnext
      rw [← hf _ _ _ _ hredirect]
      exact ih htrail

theorem IsTrail.key {hops : List Hop} (h : IsTrail m hops) :
    ∀ hop ∈ hops, hop.message.key = m.key :=
  h.keeps Message.key fun _ _ _ _ => Library.key_redirect _ _ _ _

theorem IsTrail.accept {hops : List Hop} (h : IsTrail m hops) :
    ∀ hop ∈ hops, hop.message.accept = m.accept :=
  h.keeps Message.accept fun _ _ _ _ => Library.accept_redirect _ _ _ _

/-! ## Two networks -/

/-- The responses to hops. -/
def responses (hops : List Hop) : List Response := hops.map (·.response)

/-- Two deliveries agree as long as their responses do, and then they have taken equally many. -/
def SameDelivery (d : Delivery ν) (d' : Delivery ν') : Prop :=
  ∀ rest rest', responses d.hops ++ rest = responses d'.hops ++ rest' →
    d.reply = d'.reply ∧ d.hops = d'.hops ∧ rest = rest'

theorem follow_congr (left : Nat) (m : Message) (start : ν) (start' : ν') :
    SameDelivery (network.follow left m start) (network'.follow left m start') := by
  induction left generalizing m start start' with
  | zero =>
    intro rest rest' h
    obtain ⟨hresponse, hrest⟩ := List.cons.inj h
    simp only [Network.follow]
    rw [show (network.exchange m start).1 = (network'.exchange m start').1 from hresponse]
    exact ⟨rfl, rfl, hrest⟩
  | succ left ih =>
    intro rest rest' h
    have hresponse : (network.exchange m start).1 = (network'.exchange m start').1 := by
      simp only [Network.follow] at h
      split at h <;> split at h <;> exact (List.cons.inj h).1
    cases hnext : m.next? (network.exchange m start).1 with
    | none =>
      rw [follow_of_last _ hnext, follow_of_last _ (hresponse ▸ hnext)] at h ⊢
      exact ⟨congrArg Response.reply hresponse, by rw [hresponse], (List.cons.inj h).2⟩
    | some next =>
      simp only [Network.follow, hnext, ← hresponse] at h ⊢
      obtain ⟨hreply, hhops, hrest⟩ := ih next _ _ rest rest' (List.cons.inj h).2
      exact ⟨hreply, by rw [hhops], hrest⟩

theorem deliver_congr (r : Request) (start : ν) (start' : ν') :
    SameDelivery (network.deliver r start) (network'.deliver r start') := by
  unfold Network.deliver
  cases r.message? with
  | none => exact fun rest rest' h => ⟨rfl, rfl, h⟩
  | some m => exact follow_congr _ m start start'

end

end VideoScript.Web
