/-
  Two-ended FIFO connections between parties.

  A connection is a pair of endpoints that name each other as `peer`; an endpoint is known by its
  place in the list, and its inbox holds what is under way to it. A message is under way only if
  the sending end is connected and the other end is not closed (`target`); closing an end loses
  what is under way to it. Of what the closed end has sent, the last messages may be lost at any
  later time (`lose`): it gives up what it has not transmitted yet. The descriptions `ι` of
  endpoints never change.

  For each operation there is what it does to one endpoint (`getElem?_send`, ...), to a property of
  everything under way (`AllMail.send`, ...), and to the number of messages of a kind under way
  (`mail_send`, ...).
-/
import Mathlib.Algebra.GroupWithZero.Nat

namespace Mmvx.Lib

inductive ConnState where
  | kConnected | kDisconnecting | kDisconnected
  deriving DecidableEq, Repr

structure Endpoint (ι μ : Type) where
  info : ι
  peer : Nat
  state : ConnState
  inbox : List μ
  deriving DecidableEq, Repr

abbrev Links (ι μ : Type) := List (Endpoint ι μ)

namespace Links

variable {ι μ : Type}

/-- The endpoint that a message sent at `p` gets under way to. -/
def target (n : Links ι μ) (p : Nat) : Option Nat :=
  match n[p]? with
  | some e =>
    match n[e.peer]? with
    | some q => if e.state = .kConnected ∧ q.state ≠ .kDisconnected then some e.peer else none
    | none => none
  | none => none

/-- `state_ == kConnected` at `p`. -/
def connected (n : Links ι μ) (p : Nat) : Bool :=
  match n[p]? with
  | some e => e.state = .kConnected
  | none => false

/-- `TcpConnection::send` at `p`. -/
def send (n : Links ι μ) (p : Nat) (m : μ) : Links ι μ :=
  match n.target p with
  | some q => n.modify q fun e => { e with inbox := e.inbox ++ [m] }
  | none => n

/-- `TcpConnection::shutdown` at `p`. -/
def shutdown (n : Links ι μ) (p : Nat) : Links ι μ :=
  n.modify p fun e => if e.state = .kConnected then { e with state := .kDisconnecting } else e

/-- The next message under way to `p`. -/
def receive (n : Links ι μ) (p : Nat) : Option (Endpoint ι μ × μ × Links ι μ) :=
  match n[p]? with
  | some e =>
    match e.inbox with
    | m :: rest =>
      if e.state = .kDisconnected then none else some (e, m, n.set p { e with inbox := rest })
    | [] => none
  | none => none

/-- The last message under way to `p` is lost with its peer, which is down. -/
def lose (n : Links ι μ) (p : Nat) : Option (Endpoint ι μ × μ × Links ι μ) :=
  match n[p]? with
  | some e =>
    match n[e.peer]?, e.inbox.getLast? with
    | some q, some m =>
      if q.state = .kDisconnected then some (e, m, n.set p { e with inbox := e.inbox.dropLast })
      else none
    | _, _ => none
  | none => none

def closed (e : Endpoint ι μ) : Endpoint ι μ := { e with state := .kDisconnected, inbox := [] }

/-- The end `p` goes down. What it has sent is still under way, or is lost later. -/
def close (n : Links ι μ) (p : Nat) : Links ι μ := n.modify p closed

/-- The party that owns the ends `P` dies. -/
def closeAll (n : Links ι μ) (P : ι → Bool) : Links ι μ :=
  n.map fun e => if P e.info then closed e else e

/-- A new connection from `a` to `b`: the ends `n.length` and `n.length + 1`. -/
def connect (n : Links ι μ) (a b : ι) : Links ι μ :=
  n ++ [⟨a, n.length + 1, .kConnected, []⟩, ⟨b, n.length, .kConnected, []⟩]

/-! ## One endpoint -/

/-- What never changes about `p`. -/
def label (n : Links ι μ) (p : Nat) : Option (ι × Nat) := n[p]?.map fun e => (e.info, e.peer)

theorem label_of_getElem? {n : Links ι μ} {p : Nat} {e : Endpoint ι μ} (h : n[p]? = some e) :
    n.label p = some (e.info, e.peer) := by
  rw [label, h]; rfl

theorem getElem?_of_label {n : Links ι μ} {p : Nat} {i : ι} {q : Nat}
    (h : n.label p = some (i, q)) : ∃ e, n[p]? = some e ∧ e.info = i ∧ e.peer = q := by
  obtain ⟨e, he, heq⟩ := Option.map_eq_some_iff.mp h
  cases heq
  exact ⟨e, he, rfl, rfl⟩

theorem target_eq_some {n : Links ι μ} {p q : Nat} (h : n.target p = some q) :
    ∃ e f, n[p]? = some e ∧ e.peer = q ∧ e.state = .kConnected ∧ n[q]? = some f ∧
      f.state ≠ .kDisconnected := by
  rw [target] at h
  split at h
  · rename_i e he
    split at h
    · rename_i f hf
      split at h
      · rename_i hc
        cases h
        exact ⟨e, f, he, rfl, hc.1, hf, hc.2⟩
      · cases h
    · cases h
  · cases h

theorem target_of_connected {n : Links ι μ} {p : Nat} {e f : Endpoint ι μ} (he : n[p]? = some e)
    (hstate : e.state = .kConnected) (hf : n[e.peer]? = some f) (hup : f.state ≠ .kDisconnected) :
    n.target p = some e.peer := by
  rw [target, he]
  dsimp only
  rw [hf]
  exact if_pos ⟨hstate, hup⟩

theorem getElem?_send {n : Links ι μ} {p r : Nat} {m : μ} {e' : Endpoint ι μ}
    (h : (n.send p m)[r]? = some e') :
    ∃ e, n[r]? = some e ∧ (e' = e ∨
      (n.target p = some r ∧ e' = { e with inbox := e.inbox ++ [m] })) := by
  rw [send] at h
  split at h
  · rename_i q hq
    rw [List.getElem?_modify] at h
    split at h
    · rename_i hqr
      subst hqr
      obtain ⟨e, he, rfl⟩ := Option.map_eq_some_iff.mp h
      exact ⟨e, he, Or.inr ⟨hq, rfl⟩⟩
    · exact ⟨e', by simpa using h, Or.inl rfl⟩
  · exact ⟨e', h, Or.inl rfl⟩

/-- Sending changes nothing about where messages go. -/
theorem target_send (n : Links ι μ) (p r : Nat) (m : μ) : (n.send p m).target r = n.target r := by
  have hget : ∀ q : Nat, ∃ g : Endpoint ι μ → Endpoint ι μ,
      (∀ e, (g e).peer = e.peer ∧ (g e).state = e.state) ∧ (n.send p m)[q]? = n[q]?.map g := by
    intro q
    rw [send]
    split
    · rename_i q' _
      refine ⟨fun e => if q' = q then { e with inbox := e.inbox ++ [m] } else e, ?_, ?_⟩
      · intro e
        dsimp only
        split <;> exact ⟨rfl, rfl⟩
      · rw [List.getElem?_modify]
        rfl
    · exact ⟨id, fun _ => ⟨rfl, rfl⟩, by simp⟩
  obtain ⟨g, hg, hr⟩ := hget r
  unfold target
  rw [hr]
  cases n[r]? with
  | none => rfl
  | some e =>
    dsimp only [Option.map_some]
    rw [(hg e).1, (hg e).2]
    obtain ⟨g', hg', hq⟩ := hget e.peer
    rw [hq]
    cases n[e.peer]? with
    | none => rfl
    | some f =>
      dsimp only [Option.map_some]
      rw [(hg' f).2]

theorem getElem?_shutdown {n : Links ι μ} {p r : Nat} {e' : Endpoint ι μ}
    (h : (n.shutdown p)[r]? = some e') :
    ∃ e, n[r]? = some e ∧ (e' = e ∨ (r = p ∧ e.state = .kConnected ∧
      e' = { e with state := .kDisconnecting })) := by
  rw [shutdown, List.getElem?_modify] at h
  split at h
  · rename_i hpr
    subst hpr
    obtain ⟨e, he, rfl⟩ := Option.map_eq_some_iff.mp h
    by_cases hc : e.state = .kConnected
    · exact ⟨e, he, Or.inr ⟨rfl, hc, by rw [if_pos hc]⟩⟩
    · exact ⟨e, he, Or.inl (by rw [if_neg hc])⟩
  · exact ⟨e', by simpa using h, Or.inl rfl⟩

theorem getElem?_close {n : Links ι μ} {p r : Nat} {e' : Endpoint ι μ}
    (h : (n.close p)[r]? = some e') :
    ∃ e, n[r]? = some e ∧ ((r ≠ p ∧ e' = e) ∨ (r = p ∧ e' = closed e)) := by
  rw [close, List.getElem?_modify] at h
  split at h
  · rename_i hpr
    obtain ⟨e, he, rfl⟩ := Option.map_eq_some_iff.mp h
    exact ⟨e, he, Or.inr ⟨hpr.symm, rfl⟩⟩
  · rename_i hpr
    exact ⟨e', by simpa using h, Or.inl ⟨fun hr => hpr hr.symm, rfl⟩⟩

theorem getElem?_close_of_ne {n : Links ι μ} {p r : Nat} (h : r ≠ p) :
    (n.close p)[r]? = n[r]? := by
  rw [close, List.getElem?_modify]
  cases n[r]? with
  | none => rfl
  | some e =>
    have hpr : p ≠ r := fun hpr => h hpr.symm
    simp [hpr]

theorem getElem?_closeAll {n : Links ι μ} {P : ι → Bool} {r : Nat} {e' : Endpoint ι μ}
    (h : (n.closeAll P)[r]? = some e') :
    ∃ e, n[r]? = some e ∧ ((P e.info = false ∧ e' = e) ∨ (P e.info = true ∧ e' = closed e)) := by
  rw [closeAll, List.getElem?_map] at h
  obtain ⟨e, he, rfl⟩ := Option.map_eq_some_iff.mp h
  by_cases hp : P e.info = true
  · exact ⟨e, he, Or.inr ⟨hp, if_pos hp⟩⟩
  · exact ⟨e, he, Or.inl ⟨by simpa using hp, if_neg hp⟩⟩

theorem getElem?_closeAll_of_not {n : Links ι μ} {P : ι → Bool} {r : Nat} {e : Endpoint ι μ}
    (he : n[r]? = some e) (h : P e.info = false) : (n.closeAll P)[r]? = some e := by
  rw [closeAll, List.getElem?_map, he]
  simp [h]

theorem receive_eq_some {n n' : Links ι μ} {p : Nat} {e : Endpoint ι μ} {m : μ}
    (h : n.receive p = some (e, m, n')) :
    n[p]? = some e ∧ e.state ≠ .kDisconnected ∧
      ∃ rest, e.inbox = m :: rest ∧ n' = n.set p { e with inbox := rest } := by
  rw [receive] at h
  split at h
  · rename_i e₀ he
    split at h
    · rename_i m₀ rest hin
      split at h
      · cases h
      · rename_i hst
        cases h
        exact ⟨he, hst, rest, hin, rfl⟩
    · cases h
  · cases h

/-- An end keeps what it is when messages leave its inbox. -/
theorem getElem?_setInbox {n : Links ι μ} {p r : Nat} {e e' : Endpoint ι μ} {ms : List μ}
    (he : n[p]? = some e) (h : (n.set p { e with inbox := ms })[r]? = some e') :
    ∃ e₀, n[r]? = some e₀ ∧ ((r ≠ p ∧ e' = e₀) ∨
      (r = p ∧ e₀ = e ∧ e' = { e with inbox := ms })) := by
  rw [List.getElem?_set] at h
  split at h
  · rename_i hpr
    subst hpr
    split at h
    · cases h
      exact ⟨e, he, Or.inr ⟨rfl, rfl, rfl⟩⟩
    · cases h
  · rename_i hpr
    exact ⟨e', h, Or.inl ⟨fun h => hpr h.symm, rfl⟩⟩

theorem target_setInbox {n : Links ι μ} {p : Nat} {e : Endpoint ι μ} {ms : List μ}
    (he : n[p]? = some e) (r : Nat) :
    target (n.set p { e with inbox := ms }) r = n.target r := by
  have hset : ∀ q, (n.set p { e with inbox := ms })[q]? =
      n[q]?.map fun f => if p = q then { f with inbox := ms } else f := by
    intro q
    rw [List.getElem?_set]
    split
    · rename_i hpq
      subst hpq
      rw [if_pos (List.getElem?_eq_some_iff.mp he).1, he]
      rfl
    · cases n[q]? <;> rfl
  unfold target
  rw [hset]
  cases hr : n[r]? with
  | none => rfl
  | some f =>
    dsimp only [Option.map_some]
    have hpeer : (if p = r then { f with inbox := ms } else f).peer = f.peer := by
      split <;> rfl
    have hstate : (if p = r then { f with inbox := ms } else f).state = f.state := by
      split <;> rfl
    rw [hpeer, hstate, hset]
    cases hq : n[f.peer]? with
    | none => rfl
    | some g =>
      dsimp only [Option.map_some]
      have hg : (if p = f.peer then { g with inbox := ms } else g).state = g.state := by
        split <;> rfl
      rw [hg]

theorem getElem?_receive {n n' : Links ι μ} {p r : Nat} {e e' : Endpoint ι μ} {m : μ}
    (h : n.receive p = some (e, m, n')) (hr : n'[r]? = some e') :
    ∃ e₀, n[r]? = some e₀ ∧ ((r ≠ p ∧ e' = e₀) ∨ (r = p ∧ e₀ = e ∧ e.inbox = m :: e'.inbox ∧
      e' = { e with inbox := e'.inbox })) := by
  obtain ⟨he, -, rest, hin, rfl⟩ := receive_eq_some h
  obtain ⟨e₀, he₀, hne | ⟨hrp, heq, rfl⟩⟩ := getElem?_setInbox he hr
  · exact ⟨e₀, he₀, Or.inl hne⟩
  · exact ⟨e₀, he₀, Or.inr ⟨hrp, heq, hin, rfl⟩⟩

/-- Receiving changes nothing about where messages go. -/
theorem target_receive {n n' : Links ι μ} {p : Nat} {e : Endpoint ι μ} {m : μ}
    (h : n.receive p = some (e, m, n')) (r : Nat) : n'.target r = n.target r := by
  obtain ⟨he, -, rest, -, rfl⟩ := receive_eq_some h
  exact target_setInbox he r

theorem lose_eq_some {n n' : Links ι μ} {p : Nat} {e : Endpoint ι μ} {m : μ}
    (h : n.lose p = some (e, m, n')) :
    n[p]? = some e ∧ (∃ q, n[e.peer]? = some q ∧ q.state = .kDisconnected) ∧
      ∃ ms, e.inbox = ms ++ [m] ∧ n' = n.set p { e with inbox := ms } := by
  rw [lose] at h
  split at h
  · rename_i e₀ he
    split at h
    · rename_i q m₀ hq hm
      split at h
      · rename_i hdown
        cases h
        obtain ⟨ms, hin⟩ := List.getLast?_eq_some_iff.mp hm
        exact ⟨he, ⟨q, hq, hdown⟩, ms, hin, by rw [hin, List.dropLast_concat]⟩
      · cases h
    · cases h
  · cases h

theorem getElem?_lose {n n' : Links ι μ} {p r : Nat} {e e' : Endpoint ι μ} {m : μ}
    (h : n.lose p = some (e, m, n')) (hr : n'[r]? = some e') :
    ∃ e₀, n[r]? = some e₀ ∧ ((r ≠ p ∧ e' = e₀) ∨ (r = p ∧ e₀ = e ∧ e.inbox = e'.inbox ++ [m] ∧
      e' = { e with inbox := e'.inbox })) := by
  obtain ⟨he, -, ms, hin, rfl⟩ := lose_eq_some h
  obtain ⟨e₀, he₀, hne | ⟨hrp, heq, rfl⟩⟩ := getElem?_setInbox he hr
  · exact ⟨e₀, he₀, Or.inl hne⟩
  · exact ⟨e₀, he₀, Or.inr ⟨hrp, heq, hin, rfl⟩⟩

theorem getElem?_connect {n : Links ι μ} {a b : ι} {r : Nat} {e' : Endpoint ι μ}
    (h : (n.connect a b)[r]? = some e') :
    n[r]? = some e' ∨ (r = n.length ∧ e' = ⟨a, n.length + 1, .kConnected, []⟩) ∨
      (r = n.length + 1 ∧ e' = ⟨b, n.length, .kConnected, []⟩) := by
  rw [connect, List.getElem?_append] at h
  split at h
  · exact Or.inl h
  · rename_i hlt
    obtain hz | hz | hz : r - n.length = 0 ∨ r - n.length = 1 ∨ 2 ≤ r - n.length := by omega
    · rw [hz] at h
      cases h
      exact Or.inr (Or.inl ⟨by omega, rfl⟩)
    · rw [hz] at h
      cases h
      exact Or.inr (Or.inr ⟨by omega, rfl⟩)
    · rw [List.getElem?_eq_none (by simpa using hz)] at h
      cases h

theorem label_modify (n : Links ι μ) (q r : Nat) {f : Endpoint ι μ → Endpoint ι μ}
    (hf : ∀ e, (f e).info = e.info ∧ (f e).peer = e.peer) : label (n.modify q f) r = n.label r := by
  rw [label, label, List.getElem?_modify]
  split
  · cases n[r]? with
    | none => rfl
    | some e => exact congrArg some (Prod.ext (hf e).1 (hf e).2)
  · cases n[r]? <;> rfl

@[simp] theorem label_send (n : Links ι μ) (p r : Nat) (m : μ) :
    (n.send p m).label r = n.label r := by
  rw [send]
  split
  · exact label_modify n _ r fun _ => ⟨rfl, rfl⟩
  · rfl

@[simp] theorem label_shutdown (n : Links ι μ) (p r : Nat) : (n.shutdown p).label r = n.label r := by
  apply label_modify
  intro e
  split <;> exact ⟨rfl, rfl⟩

@[simp] theorem label_close (n : Links ι μ) (p r : Nat) : (n.close p).label r = n.label r :=
  label_modify n p r fun _ => ⟨rfl, rfl⟩

@[simp] theorem label_closeAll (n : Links ι μ) (P : ι → Bool) (r : Nat) :
    (n.closeAll P).label r = n.label r := by
  rw [label, label, closeAll, List.getElem?_map]
  cases n[r]? with
  | none => rfl
  | some e =>
    refine congrArg some ?_
    dsimp only
    split <;> rfl

theorem label_setInbox {n : Links ι μ} {p : Nat} {e : Endpoint ι μ} {ms : List μ}
    (he : n[p]? = some e) (r : Nat) : label (n.set p { e with inbox := ms }) r = n.label r := by
  rw [label, label, List.getElem?_set]
  split
  · rename_i hpr
    subst hpr
    rw [he]
    split
    · rfl
    · rename_i hlt
      exact absurd (List.getElem?_eq_some_iff.mp he).1 hlt
  · rfl

theorem label_receive {n n' : Links ι μ} {p : Nat} {e : Endpoint ι μ} {m : μ}
    (h : n.receive p = some (e, m, n')) (r : Nat) : n'.label r = n.label r := by
  obtain ⟨he, -, rest, -, rfl⟩ := receive_eq_some h
  exact label_setInbox he r

theorem label_lose {n n' : Links ι μ} {p : Nat} {e : Endpoint ι μ} {m : μ}
    (h : n.lose p = some (e, m, n')) (r : Nat) : n'.label r = n.label r := by
  obtain ⟨he, -, ms, -, rfl⟩ := lose_eq_some h
  exact label_setInbox he r

theorem label_connect {n : Links ι μ} {a b : ι} {r : Nat} {l : ι × Nat} (h : n.label r = some l) :
    (n.connect a b).label r = some l := by
  obtain ⟨e, he, heq⟩ := Option.map_eq_some_iff.mp h
  have hlt := (List.getElem?_eq_some_iff.mp he).1
  rw [label, connect, List.getElem?_append_left hlt, he]
  exact congrArg some heq

/-! ## What is under way to one endpoint -/

/-- What is under way to `p`, the oldest message first. -/
def inboxAt (n : Links ι μ) (p : Nat) : List μ := (n[p]?.map Endpoint.inbox).getD []

theorem inboxAt_of_getElem? {n : Links ι μ} {p : Nat} {e : Endpoint ι μ} (h : n[p]? = some e) :
    n.inboxAt p = e.inbox := by
  rw [inboxAt, h]
  rfl

theorem inboxAt_modify (n : Links ι μ) (p q : Nat) {f : Endpoint ι μ → Endpoint ι μ}
    (hf : ∀ e, (f e).inbox = e.inbox) : inboxAt (n.modify p f) q = n.inboxAt q := by
  rw [inboxAt, inboxAt, List.getElem?_modify]
  split
  · cases n[q]? with
    | none => rfl
    | some e => exact hf e
  · cases n[q]? <;> rfl

theorem inboxAt_send {n : Links ι μ} {p q : Nat} (m : μ) (ht : n.target p = some q) (r : Nat) :
    (n.send p m).inboxAt r = if r = q then n.inboxAt r ++ [m] else n.inboxAt r := by
  obtain ⟨-, e, -, -, -, he, -⟩ := target_eq_some ht
  rw [send, ht, inboxAt, inboxAt]
  dsimp only
  rw [List.getElem?_modify]
  by_cases hr : r = q
  · subst hr
    rw [if_pos rfl, he]
    simp
  · have hqr : ¬ q = r := fun h => hr h.symm
    rw [if_neg hr]
    simp [hqr]

theorem inboxAt_shutdown (n : Links ι μ) (p r : Nat) : (n.shutdown p).inboxAt r = n.inboxAt r := by
  refine inboxAt_modify n p r fun e => ?_
  split <;> rfl

theorem inboxAt_close {n : Links ι μ} {p r : Nat} (h : r ≠ p) :
    (n.close p).inboxAt r = n.inboxAt r := by
  rw [inboxAt, inboxAt, getElem?_close_of_ne h]

theorem inboxAt_closeAll {n : Links ι μ} {P : ι → Bool} {r : Nat} {e : Endpoint ι μ}
    (he : n[r]? = some e) (h : P e.info = false) : (n.closeAll P).inboxAt r = n.inboxAt r := by
  rw [inboxAt, inboxAt, getElem?_closeAll_of_not he h, he]

theorem inboxAt_connect {n : Links ι μ} {r : Nat} {e : Endpoint ι μ} (a b : ι)
    (he : n[r]? = some e) : (n.connect a b).inboxAt r = n.inboxAt r := by
  have hlt := (List.getElem?_eq_some_iff.mp he).1
  rw [inboxAt, inboxAt, connect, List.getElem?_append_left hlt]

theorem inboxAt_setInbox {n : Links ι μ} {p : Nat} {e : Endpoint ι μ} {ms : List μ}
    (he : n[p]? = some e) (r : Nat) :
    inboxAt (n.set p { e with inbox := ms }) r = if r = p then ms else n.inboxAt r := by
  rw [inboxAt, List.getElem?_set]
  by_cases hr : r = p
  · subst hr
    rw [if_pos rfl, if_pos rfl, if_pos (List.getElem?_eq_some_iff.mp he).1]
    rfl
  · rw [if_neg hr, if_neg fun h => hr h.symm]
    rfl

theorem inboxAt_receive {n n' : Links ι μ} {p : Nat} {e : Endpoint ι μ} {m : μ}
    (h : n.receive p = some (e, m, n')) (r : Nat) :
    n.inboxAt r = if r = p then m :: n'.inboxAt r else n'.inboxAt r := by
  obtain ⟨he, -, rest, hin, rfl⟩ := receive_eq_some h
  rw [inboxAt_setInbox he]
  by_cases hr : r = p
  · rw [if_pos hr, if_pos hr, hr, inboxAt_of_getElem? he, hin]
  · rw [if_neg hr, if_neg hr]

theorem inboxAt_lose {n n' : Links ι μ} {p : Nat} {e : Endpoint ι μ} {m : μ}
    (h : n.lose p = some (e, m, n')) (r : Nat) :
    n.inboxAt r = if r = p then n'.inboxAt r ++ [m] else n'.inboxAt r := by
  obtain ⟨he, -, ms, hin, rfl⟩ := lose_eq_some h
  rw [inboxAt_setInbox he]
  by_cases hr : r = p
  · rw [if_pos hr, if_pos hr, hr, inboxAt_of_getElem? he, hin]
  · rw [if_neg hr, if_neg hr]

/-! ## Everything under way -/

/-- Every message under way to any endpoint is as `Q` says. -/
def AllMail (Q : Nat → ι → μ → Prop) (n : Links ι μ) : Prop :=
  ∀ p e, n[p]? = some e → ∀ m ∈ e.inbox, Q p e.info m

variable {Q : Nat → ι → μ → Prop} {n : Links ι μ}

theorem AllMail.mono {Q' : Nat → ι → μ → Prop} (h : AllMail Q n)
    (hq : ∀ p i m, Q p i m → Q' p i m) : AllMail Q' n :=
  fun p e he m hm => hq _ _ _ (h p e he m hm)

theorem AllMail.send (h : AllMail Q n) {p : Nat} {m : μ}
    (hm : ∀ q e, n.target p = some q → n[q]? = some e → Q q e.info m) : AllMail Q (n.send p m) := by
  intro r e' hr x hx
  obtain ⟨e, he, rfl | ⟨ht, rfl⟩⟩ := getElem?_send hr
  · exact h r _ he x hx
  · rcases List.mem_append.mp hx with hx | hx
    · exact h r e he x hx
    · rw [List.mem_singleton.mp hx]
      exact hm r e ht he

theorem AllMail.shutdown (h : AllMail Q n) (p : Nat) : AllMail Q (n.shutdown p) := by
  intro r e' hr x hx
  obtain ⟨e, he, rfl | ⟨-, -, rfl⟩⟩ := getElem?_shutdown hr
  · exact h r _ he x hx
  · exact h r e he x hx

theorem AllMail.close (h : AllMail Q n) (p : Nat) : AllMail Q (n.close p) := by
  intro r e' hr x hx
  obtain ⟨e, he, ⟨-, rfl⟩ | ⟨-, rfl⟩⟩ := getElem?_close hr
  · exact h r _ he x hx
  · cases hx

theorem AllMail.closeAll (h : AllMail Q n) (P : ι → Bool) : AllMail Q (n.closeAll P) := by
  intro r e' hr x hx
  obtain ⟨e, he, ⟨-, rfl⟩ | ⟨-, rfl⟩⟩ := getElem?_closeAll hr
  · exact h r _ he x hx
  · cases hx

theorem AllMail.receive (h : AllMail Q n) {n' : Links ι μ} {p : Nat} {e : Endpoint ι μ} {m : μ}
    (hr : n.receive p = some (e, m, n')) : AllMail Q n' ∧ Q p e.info m := by
  obtain ⟨he, -, rest, hin, -⟩ := receive_eq_some hr
  refine ⟨?_, h p e he m (by rw [hin]; exact List.mem_cons_self)⟩
  intro r e' hr' x hx
  obtain ⟨e₀, he₀, ⟨-, rfl⟩ | ⟨rfl, rfl, hin', heq⟩⟩ := getElem?_receive hr hr'
  · exact h r _ he₀ x hx
  · rw [heq]
    exact h r _ he₀ x (by rw [hin']; exact List.mem_cons_of_mem _ hx)

theorem AllMail.lose (h : AllMail Q n) {n' : Links ι μ} {p : Nat} {e : Endpoint ι μ} {m : μ}
    (hl : n.lose p = some (e, m, n')) : AllMail Q n' := by
  intro r e' hr x hx
  obtain ⟨e₀, he₀, ⟨-, rfl⟩ | ⟨rfl, rfl, hin, heq⟩⟩ := getElem?_lose hl hr
  · exact h r _ he₀ x hx
  · rw [heq]
    exact h r _ he₀ x (by rw [hin]; exact List.mem_append_left _ hx)

theorem AllMail.connect (h : AllMail Q n) (a b : ι) : AllMail Q (n.connect a b) := by
  intro r e' hr x hx
  obtain he | ⟨-, rfl⟩ | ⟨-, rfl⟩ := getElem?_connect hr
  · exact h r e' he x hx
  · cases hx
  · cases hx

/-! ## How many messages are under way -/

/-- The number of messages of the kind `P` under way. -/
def mail (P : ι → μ → Bool) (n : Links ι μ) : Nat :=
  (n.map fun e => e.inbox.countP (P e.info)).sum

variable {P : ι → μ → Bool}

theorem sum_map_modify {α : Type} (f : α → Nat) (g : α → α) {l : List α} {i : Nat} {a : α}
    (h : l[i]? = some a) : ((l.modify i g).map f).sum + f a = (l.map f).sum + f (g a) := by
  induction l generalizing i with
  | nil => cases h
  | cons x xs ih =>
    cases i with
    | zero =>
      cases h
      simp only [List.modify_zero_cons, List.map_cons, List.sum_cons]
      omega
    | succ i =>
      have := ih (i := i) (by simpa using h)
      simp only [List.modify_succ_cons, List.map_cons, List.sum_cons]
      omega

theorem mail_modify {p : Nat} {e : Endpoint ι μ} (g : Endpoint ι μ → Endpoint ι μ)
    (h : n[p]? = some e) : mail P (n.modify p g) + e.inbox.countP (P e.info) =
      mail P n + (g e).inbox.countP (P (g e).info) :=
  sum_map_modify (fun e => e.inbox.countP (P e.info)) g h

/-- A message that gets under way adds itself. -/
theorem mail_send_target {p q : Nat} {e : Endpoint ι μ} {m : μ} (ht : n.target p = some q)
    (he : n[q]? = some e) :
    mail P (n.send p m) = mail P n + if P e.info m then 1 else 0 := by
  have h := mail_modify (P := P) (fun e => { e with inbox := e.inbox ++ [m] }) he
  rw [List.countP_append, List.countP_singleton] at h
  rw [send, ht]
  dsimp only at h ⊢
  omega

theorem mail_send_lost {p : Nat} {m : μ} (ht : n.target p = none) : n.send p m = n := by
  rw [send, ht]

/-- A message of another kind changes nothing. -/
theorem mail_send_other {p : Nat} {m : μ} (hm : ∀ i, P i m = false) :
    mail P (n.send p m) = mail P n := by
  cases ht : n.target p with
  | none => rw [mail_send_lost ht]
  | some q =>
    obtain ⟨-, e, -, -, -, he, -⟩ := target_eq_some ht
    rw [mail_send_target ht he, hm]
    rfl

theorem mail_send_le (p : Nat) (m : μ) : mail P (n.send p m) ≤ mail P n + 1 := by
  cases ht : n.target p with
  | none => rw [mail_send_lost ht]; omega
  | some q =>
    obtain ⟨-, e, -, -, -, he, -⟩ := target_eq_some ht
    rw [mail_send_target ht he]
    split <;> omega

theorem le_mail_send (p : Nat) (m : μ) : mail P n ≤ mail P (n.send p m) := by
  cases ht : n.target p with
  | none => exact Nat.le_of_eq (by rw [mail_send_lost ht])
  | some q =>
    obtain ⟨-, e, -, -, -, he, -⟩ := target_eq_some ht
    rw [mail_send_target ht he]
    exact Nat.le_add_right _ _

theorem mail_shutdown (p : Nat) : mail P (n.shutdown p) = mail P n := by
  cases he : n[p]? with
  | none => rw [shutdown, List.modify_eq_self (List.getElem?_eq_none_iff.mp he)]
  | some e =>
    have h := mail_modify (P := P)
      (fun e => if e.state = .kConnected then { e with state := .kDisconnecting } else e) he
    rw [shutdown]
    split at h <;> simpa using h

theorem mail_close {p : Nat} {e : Endpoint ι μ} (he : n[p]? = some e) :
    mail P (n.close p) + e.inbox.countP (P e.info) = mail P n := by
  have h := mail_modify (P := P) closed he
  rw [close]
  simpa [closed] using h

theorem mail_close_le (p : Nat) : mail P (n.close p) ≤ mail P n := by
  cases he : n[p]? with
  | none => exact Nat.le_of_eq (by rw [close, List.modify_eq_self (List.getElem?_eq_none_iff.mp he)])
  | some e => have := mail_close (P := P) he; omega

theorem mail_closeAll_le (K : ι → Bool) : mail P (n.closeAll K) ≤ mail P n := by
  induction n with
  | nil => exact Nat.le_refl _
  | cons e n ih =>
    simp only [mail, closeAll, List.map_cons, List.sum_cons] at ih ⊢
    have : (if K e.info then closed e else e).inbox.countP (P (if K e.info then closed e else e).info)
        ≤ e.inbox.countP (P e.info) := by
      split
      · exact Nat.zero_le _
      · exact Nat.le_refl _
    omega

/-- Closing ends loses nothing of a kind that does not wait there. -/
theorem mail_closeAll_of_not {K : ι → Bool} (h : ∀ i m, K i = true → P i m = false) :
    mail P (n.closeAll K) = mail P n := by
  induction n with
  | nil => rfl
  | cons e n ih =>
    simp only [mail, closeAll, List.map_cons, List.sum_cons] at ih ⊢
    rw [ih]
    by_cases hk : K e.info = true
    · have hzero : e.inbox.countP (P e.info) = 0 := by
        rw [List.countP_eq_zero]
        intro m _
        simp [h e.info m hk]
      rw [if_pos hk, hzero]
      rfl
    · rw [if_neg hk]

theorem mail_setInbox {p : Nat} {e : Endpoint ι μ} (he : n[p]? = some e) (ms : List μ) :
    mail P (n.set p { e with inbox := ms }) + e.inbox.countP (P e.info) =
      mail P n + ms.countP (P e.info) := by
  have hset : n.set p { e with inbox := ms } = n.modify p fun _ => { e with inbox := ms } := by
    apply List.ext_getElem?
    intro r
    rw [List.getElem?_set, List.getElem?_modify]
    split
    · rename_i hpr
      subst hpr
      rw [if_pos (List.getElem?_eq_some_iff.mp he).1, he]
      rfl
    · cases n[r]? <;> rfl
  rw [hset]
  exact mail_modify (fun _ => { e with inbox := ms }) he

theorem mail_receive {n' : Links ι μ} {p : Nat} {e : Endpoint ι μ} {m : μ}
    (h : n.receive p = some (e, m, n')) :
    mail P n = mail P n' + if P e.info m then 1 else 0 := by
  obtain ⟨he, -, rest, hin, rfl⟩ := receive_eq_some h
  have hm := mail_setInbox (P := P) he rest
  rw [hin, List.countP_cons] at hm
  omega

theorem mail_lose {n' : Links ι μ} {p : Nat} {e : Endpoint ι μ} {m : μ}
    (h : n.lose p = some (e, m, n')) :
    mail P n = mail P n' + if P e.info m then 1 else 0 := by
  obtain ⟨he, -, ms, hin, rfl⟩ := lose_eq_some h
  have hm := mail_setInbox (P := P) he ms
  rw [hin, List.countP_append, List.countP_singleton] at hm
  omega

theorem mail_connect (a b : ι) : mail P (n.connect a b) = mail P n := by
  simp [mail, connect]

theorem mail_eq_zero_iff : mail P n = 0 ↔ AllMail (fun _ i m => P i m = false) n := by
  rw [mail, List.sum_eq_zero_iff_forall_eq_nat]
  constructor
  · intro h p e he m hm
    have h0 := h _ (List.mem_map.mpr ⟨e, List.mem_of_getElem? he, rfl⟩)
    simpa using List.countP_eq_zero.mp h0 m hm
  · intro h x hx
    obtain ⟨e, he, rfl⟩ := List.mem_map.mp hx
    obtain ⟨p, hp⟩ := List.mem_iff_getElem?.mp he
    rw [List.countP_eq_zero]
    intro m hm
    simp [h p e hp m hm]

theorem mail_pos_iff : 0 < mail P n ↔
    ∃ (p : Nat) (e : Endpoint ι μ), n[p]? = some e ∧ ∃ m ∈ e.inbox, P e.info m = true := by
  rw [Nat.pos_iff_ne_zero, Ne, mail_eq_zero_iff, AllMail]
  simp

/-- Messages under way, by the kind of end they wait at. -/
theorem mail_split (K : ι → Bool) (P : ι → μ → Bool) (n : Links ι μ) :
    mail P n = mail (fun i m => K i && P i m) n + mail (fun i m => !K i && P i m) n := by
  induction n with
  | nil => rfl
  | cons e n ih =>
    have hsplit : e.inbox.countP (P e.info) = e.inbox.countP (fun m => K e.info && P e.info m) +
        e.inbox.countP (fun m => !K e.info && P e.info m) := by
      cases K e.info <;> simp
    simp only [mail, List.map_cons, List.sum_cons] at ih ⊢
    omega

/-- If messages of the kind wait at one endpoint only, these are all. -/
theorem mail_eq_countP {p : Nat} {e : Endpoint ι μ} (he : n[p]? = some e)
    (h : ∀ (q : Nat) (x : Endpoint ι μ), n[q]? = some x → q ≠ p → ∀ m ∈ x.inbox,
      P x.info m = false) : mail P n = e.inbox.countP (P e.info) := by
  have hzero : mail P (n.close p) = 0 := by
    rw [mail_eq_zero_iff]
    intro q x hx m hm
    obtain ⟨x₀, hx₀, ⟨hq, rfl⟩ | ⟨-, rfl⟩⟩ := getElem?_close hx
    · exact h q _ hx₀ hq m hm
    · cases hm
  have hclose := mail_close (P := P) he
  omega

end Links

end Mmvx.Lib
