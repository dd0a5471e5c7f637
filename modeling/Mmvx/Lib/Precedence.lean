/-
  Messages that may only be received after others.

  A party is made ready by a message that `opens`, and must not receive a message that is `guarded`
  before that. `InOrder` says so of what is under way to one end, `Guarded` of all ends; `Primed p`
  says that whatever is sent at `p` from now on comes after an opening message, because the other
  end is ready or such a message is under way to it. Guarded messages that are sent at primed ends
  only keep everything in order (`Guarded.send`), because what is under way to an end is a queue.

  Whether a party is ready is a function of the description of its ends.
-/
import Mmvx.Lib.Links

namespace Mmvx.Lib.Links

variable {ι μ : Type}

/-- The guarded messages come after one that opens, or the party is ready. -/
def InOrder (opens guarded : μ → Bool) : Bool → List μ → Prop
  | _, [] => True
  | ready, m :: ms =>
    (guarded m = true → ready = true) ∧ InOrder opens guarded (ready || opens m) ms

def Guarded (opens guarded : μ → Bool) (ready : ι → Bool) (n : Links ι μ) : Prop :=
  ∀ (p : Nat) (e : Endpoint ι μ), n[p]? = some e →
    InOrder opens guarded (ready e.info) e.inbox

/-- The other end of `p` is ready, or will be when it has received what is under way to it. -/
def Primed (opens : μ → Bool) (ready : ι → Bool) (n : Links ι μ) (p : Nat) : Prop :=
  ∃ i q x, n.label p = some (i, q) ∧ n.label q = some (x, p) ∧
    ∀ e f, n[p]? = some e → n[q]? = some f → e.state = .kConnected → f.state ≠ .kDisconnected →
      ready f.info = true ∨ ∃ m ∈ f.inbox, opens m = true

section

variable {opens guarded : μ → Bool} {ready ready' : ι → Bool} {n n' : Links ι μ}

/-! ## One inbox -/

theorem inOrder_ready (ms : List μ) : InOrder opens guarded true ms := by
  induction ms with
  | nil => trivial
  | cons m ms ih =>
    refine ⟨fun _ => rfl, ?_⟩
    rw [Bool.true_or]
    exact ih

theorem InOrder.mono {r r' : Bool} {ms : List μ} (h : InOrder opens guarded r ms)
    (hr : r = true → r' = true) : InOrder opens guarded r' ms := by
  cases r with
  | true =>
    rw [hr rfl]
    exact inOrder_ready ms
  | false =>
    cases r' with
    | true => exact inOrder_ready ms
    | false => exact h

theorem InOrder.append {r : Bool} {ms : List μ} {m : μ} (h : InOrder opens guarded r ms)
    (hm : guarded m = true → r = true ∨ ∃ a ∈ ms, opens a = true) :
    InOrder opens guarded r (ms ++ [m]) := by
  induction ms generalizing r with
  | nil =>
    refine ⟨fun hg => ?_, trivial⟩
    obtain hr | ⟨a, ha, -⟩ := hm hg
    · exact hr
    · cases ha
  | cons b ms ih =>
    refine ⟨h.1, ih h.2 fun hg => ?_⟩
    obtain hr | ⟨a, ha, hopens⟩ := hm hg
    · exact Or.inl (by rw [hr, Bool.true_or])
    · rcases List.mem_cons.mp ha with rfl | ha
      · exact Or.inl (by rw [hopens, Bool.or_true])
      · exact Or.inr ⟨a, ha, hopens⟩

theorem InOrder.of_append {r : Bool} {ms ms' : List μ}
    (h : InOrder opens guarded r (ms ++ ms')) : InOrder opens guarded r ms := by
  induction ms generalizing r with
  | nil => trivial
  | cons b ms ih => exact ⟨h.1, ih h.2⟩

/-! ## All inboxes -/

theorem Guarded.send (h : Guarded opens guarded ready n) {p : Nat} {m : μ}
    (hm : guarded m = true → Primed opens ready n p) :
    Guarded opens guarded ready (n.send p m) := by
  intro r e' he'
  obtain ⟨e, he, rfl | ⟨ht, rfl⟩⟩ := getElem?_send he'
  · exact h r _ he
  · refine (h r e he).append fun hg => ?_
    obtain ⟨i, q, x, hp, -, hprimed⟩ := hm hg
    obtain ⟨x₀, f, hx₀, rfl, hstate, hf, hup⟩ := target_eq_some ht
    rw [label_of_getElem? hx₀] at hp
    cases hp
    rw [he] at hf
    cases hf
    exact hprimed x₀ e hx₀ he hstate hup

theorem Guarded.shutdown (h : Guarded opens guarded ready n) (p : Nat) :
    Guarded opens guarded ready (n.shutdown p) := by
  intro r e' he'
  obtain ⟨e, he, rfl | ⟨-, -, rfl⟩⟩ := getElem?_shutdown he'
  · exact h r _ he
  · exact h r e he

theorem Guarded.close (h : Guarded opens guarded ready n) (p : Nat) :
    Guarded opens guarded ready (n.close p) := by
  intro r e' he'
  obtain ⟨e, he, ⟨-, rfl⟩ | ⟨-, rfl⟩⟩ := getElem?_close he'
  · exact h r _ he
  · trivial

/-- The parties that die need not be ready any more. -/
theorem Guarded.closeAll (h : Guarded opens guarded ready n) {P : ι → Bool}
    (hr : ∀ i, P i = false → ready i = true → ready' i = true) :
    Guarded opens guarded ready' (n.closeAll P) := by
  intro r e' he'
  obtain ⟨e, he, ⟨hP, rfl⟩ | ⟨-, rfl⟩⟩ := getElem?_closeAll he'
  · exact (h r _ he).mono (hr _ hP)
  · trivial

theorem Guarded.connect (h : Guarded opens guarded ready n) (a b : ι) :
    Guarded opens guarded ready (n.connect a b) := by
  intro r e' he'
  obtain he | ⟨-, rfl⟩ | ⟨-, rfl⟩ := getElem?_connect he'
  · exact h r e' he
  · trivial
  · trivial

/-- A party that receives a guarded message is ready. -/
theorem Guarded.receive (h : Guarded opens guarded ready n) {p : Nat} {e : Endpoint ι μ} {m : μ}
    (hr : n.receive p = some (e, m, n')) (hmono : ∀ i, ready i = true → ready' i = true)
    (hopens : opens m = true → ready' e.info = true) :
    Guarded opens guarded ready' n' ∧ (guarded m = true → ready e.info = true) := by
  obtain ⟨he, -, rest, hin, -⟩ := receive_eq_some hr
  have hp := h p e he
  rw [hin] at hp
  refine ⟨?_, hp.1⟩
  intro r e' he'
  obtain ⟨e₀, he₀, ⟨-, rfl⟩ | ⟨rfl, rfl, hin', heq⟩⟩ := getElem?_receive hr he'
  · exact (h r _ he₀).mono (hmono _)
  · rw [hin] at hin'
    rw [heq, ← (List.cons.inj hin').2]
    refine hp.2.mono fun hor => ?_
    rcases Bool.or_eq_true_iff.mp hor with hready | hopen
    · exact hmono _ hready
    · exact hopens hopen

/-- The messages before one that is lost are still in order. -/
theorem Guarded.lose (h : Guarded opens guarded ready n) {p : Nat} {e : Endpoint ι μ} {m : μ}
    (hl : n.lose p = some (e, m, n')) : Guarded opens guarded ready n' := by
  intro r e' he'
  obtain ⟨e₀, he₀, ⟨-, rfl⟩ | ⟨rfl, rfl, hin, heq⟩⟩ := getElem?_lose hl he'
  · exact h r _ he₀
  · have hp := h r e₀ he₀
    rw [hin] at hp
    rw [heq]
    exact hp.of_append

/-! ## Primed ends -/

/-- What may happen to an end so that its peer stays primed: an opening message leaves its inbox
    only when its party is ready. -/
structure Weakens (opens : μ → Bool) (ready ready' : ι → Bool) (e e' : Endpoint ι μ) : Prop where
  connected : e'.state = .kConnected → e.state = .kConnected
  up : e'.state ≠ .kDisconnected → e.state ≠ .kDisconnected
  ready : e'.state ≠ .kDisconnected → ready e.info = true → ready' e'.info = true
  inbox : e'.state ≠ .kDisconnected → ∀ m ∈ e.inbox, opens m = true →
    m ∈ e'.inbox ∨ ready' e'.info = true

theorem Weakens.refl (hr : ∀ i, ready i = true → ready' i = true) (e : Endpoint ι μ) :
    Weakens opens ready ready' e e :=
  ⟨id, id, fun _ => hr e.info, fun _ _ hm _ => Or.inl hm⟩

theorem Primed.weaken {p : Nat} (h : Primed opens ready n p)
    (hlabel : ∀ r x, n.label r = some x → n'.label r = some x)
    (hends : ∀ (r : Nat) (e e' : Endpoint ι μ), n[r]? = some e → n'[r]? = some e' →
      Weakens opens ready ready' e e') : Primed opens ready' n' p := by
  obtain ⟨i, q, x, hp, hq, hprimed⟩ := h
  refine ⟨i, q, x, hlabel p _ hp, hlabel q _ hq, ?_⟩
  intro e' f' he' hf' hstate hup
  obtain ⟨e, he, -, -⟩ := getElem?_of_label hp
  obtain ⟨f, hf, -⟩ := Option.map_eq_some_iff.mp hq
  have hf'' := hends q f f' hf hf'
  rcases hprimed e f he hf ((hends p e e' he he').connected hstate) (hf''.up hup) with
    hr | ⟨m, hm, hopens⟩
  · exact Or.inl (hf''.ready hup hr)
  · rcases hf''.inbox hup m hm hopens with hm' | hr
    · exact Or.inr ⟨m, hm', hopens⟩
    · exact Or.inl hr

theorem Primed.send {p : Nat} (h : Primed opens ready n p) (r : Nat) (m : μ) :
    Primed opens ready (n.send r m) p := by
  refine h.weaken (fun r' x hx => by rwa [label_send]) ?_
  intro q e e' he he'
  obtain ⟨e₀, he₀, hcases⟩ := getElem?_send he'
  obtain rfl : e₀ = e := Option.some.inj (he₀.symm.trans he)
  rcases hcases with rfl | ⟨-, rfl⟩
  · exact .refl (fun _ => id) _
  · exact ⟨id, id, fun _ => id, fun _ _ hm _ => Or.inl (List.mem_append_left _ hm)⟩

/-- Sending an opening message primes the end. -/
theorem primed_send {p : Nat} {m : μ} {i x : ι} {q : Nat} (hm : opens m = true)
    (hp : n.label p = some (i, q)) (hq : n.label q = some (x, p)) :
    Primed opens ready (n.send p m) p := by
  refine ⟨i, q, x, by rwa [label_send], by rwa [label_send], ?_⟩
  intro e' f' he' hf' hstate hup
  obtain ⟨e, he, -, rfl⟩ := getElem?_of_label hp
  obtain ⟨f, hf, -⟩ := Option.map_eq_some_iff.mp hq
  have hget : ∀ (r : Nat) (a a' : Endpoint ι μ), n[r]? = some a → (n.send p m)[r]? = some a' →
      a'.state = a.state := by
    intro r a a' ha ha'
    obtain ⟨a₀, ha₀, hcases⟩ := getElem?_send ha'
    obtain rfl : a₀ = a := Option.some.inj (ha₀.symm.trans ha)
    rcases hcases with rfl | ⟨-, rfl⟩ <;> rfl
  have ht : n.target p = some e.peer :=
    target_of_connected he (by rw [← hget p e e' he he', hstate]) hf
      (by rw [← hget _ f f' hf hf']; exact hup)
  have hinbox := inboxAt_send m ht e.peer
  rw [if_pos rfl, inboxAt_of_getElem? hf'] at hinbox
  rw [hinbox]
  exact Or.inr ⟨m, List.mem_append_right _ List.mem_cons_self, hm⟩

theorem Primed.shutdown {p : Nat} (h : Primed opens ready n p) (r : Nat) :
    Primed opens ready (n.shutdown r) p := by
  refine h.weaken (fun r' x hx => by rwa [label_shutdown]) ?_
  intro q e e' he he'
  obtain ⟨e₀, he₀, hcases⟩ := getElem?_shutdown he'
  obtain rfl : e₀ = e := Option.some.inj (he₀.symm.trans he)
  rcases hcases with rfl | ⟨-, hstate, rfl⟩
  · exact .refl (fun _ => id) _
  · exact ⟨fun _ => hstate, fun _ => by rw [hstate]; simp, fun _ => id,
      fun _ _ hm _ => Or.inl hm⟩

theorem weakens_closed (e : Endpoint ι μ) : Weakens opens ready ready' e (closed e) :=
  ⟨nofun, fun h => absurd rfl h, fun h => absurd rfl h, fun h => absurd rfl h⟩

theorem Primed.close {p : Nat} (h : Primed opens ready n p) (r : Nat) :
    Primed opens ready (n.close r) p := by
  refine h.weaken (fun r' x hx => by rwa [label_close]) ?_
  intro q e e' he he'
  obtain ⟨e₀, he₀, hcases⟩ := getElem?_close he'
  obtain rfl : e₀ = e := Option.some.inj (he₀.symm.trans he)
  rcases hcases with ⟨-, rfl⟩ | ⟨-, rfl⟩
  · exact .refl (fun _ => id) _
  · exact weakens_closed _

theorem Primed.closeAll {p : Nat} (h : Primed opens ready n p) {P : ι → Bool}
    (hr : ∀ i, P i = false → ready i = true → ready' i = true) :
    Primed opens ready' (n.closeAll P) p := by
  refine h.weaken (fun r' x hx => by rwa [label_closeAll]) ?_
  intro q e e' he he'
  obtain ⟨e₀, he₀, hcases⟩ := getElem?_closeAll he'
  obtain rfl : e₀ = e := Option.some.inj (he₀.symm.trans he)
  rcases hcases with ⟨hP, rfl⟩ | ⟨-, rfl⟩
  · exact ⟨id, id, fun _ => hr _ hP, fun _ _ hm _ => Or.inl hm⟩
  · exact weakens_closed _

theorem Primed.connect {p : Nat} (h : Primed opens ready n p) (a b : ι) :
    Primed opens ready (n.connect a b) p := by
  refine h.weaken (fun r' x hx => label_connect hx) ?_
  intro q e e' he he'
  have hlt : q < n.length := (List.getElem?_eq_some_iff.mp he).1
  obtain he'' | ⟨rfl, -⟩ | ⟨rfl, -⟩ := getElem?_connect he'
  · obtain rfl : e' = e := Option.some.inj (he''.symm.trans he)
    exact .refl (fun _ => id) _
  · exact absurd hlt (by omega)
  · exact absurd hlt (by omega)

theorem Primed.receive {p r : Nat} (h : Primed opens ready n p) {e : Endpoint ι μ} {m : μ}
    (hr : n.receive r = some (e, m, n')) (hmono : ∀ i, ready i = true → ready' i = true)
    (hopens : opens m = true → ready' e.info = true) : Primed opens ready' n' p := by
  refine h.weaken (fun r' x hx => by rwa [label_receive hr]) ?_
  intro q f f' hf hf'
  obtain ⟨f₀, hf₀, hcases⟩ := getElem?_receive hr hf'
  obtain rfl : f₀ = f := Option.some.inj (hf₀.symm.trans hf)
  rcases hcases with ⟨-, rfl⟩ | ⟨-, rfl, hin, heq⟩
  · exact .refl hmono _
  · have hinfo : f'.info = f₀.info := by rw [heq]
    have hstate : f'.state = f₀.state := by rw [heq]
    refine ⟨fun h => by rwa [hstate] at h, fun h => by rwa [hstate] at h, ?_, ?_⟩
    · intro _ hready
      rw [hinfo]
      exact hmono _ hready
    · intro _ a ha hopen
      rw [hin] at ha
      rcases List.mem_cons.mp ha with rfl | ha
      · rw [hinfo]
        exact Or.inr (hopens hopen)
      · exact Or.inl ha

/-- What is under way from an end that is up is not lost. -/
theorem Primed.lose {p r : Nat} (h : Primed opens ready n p) {e : Endpoint ι μ} {m : μ}
    (hl : n.lose r = some (e, m, n')) : Primed opens ready n' p := by
  obtain ⟨i, q, x, hp, hq, hprimed⟩ := h
  refine ⟨i, q, x, by rwa [label_lose hl], by rwa [label_lose hl], ?_⟩
  intro a' f' ha' hf' hstate hup
  obtain ⟨a, ha, hcases⟩ := getElem?_lose hl ha'
  have haup : a.state = .kConnected := by
    obtain ⟨-, rfl⟩ | ⟨-, rfl, -, heq⟩ := hcases
    · exact hstate
    · rwa [heq] at hstate
  obtain ⟨f, hf, ⟨-, rfl⟩ | ⟨rfl, rfl, -, -⟩⟩ := getElem?_lose hl hf'
  · exact hprimed a _ ha hf haup hup
  -- the peer of the end that loses a message is down
  · obtain ⟨-, ⟨b, hb, hdown⟩, -⟩ := lose_eq_some hl
    rw [label_of_getElem? hf] at hq
    cases hq
    rw [hb] at ha
    cases ha
    rw [hdown] at haup
    cases haup

end

end Mmvx.Lib.Links
