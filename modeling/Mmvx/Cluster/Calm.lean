/-
  The order of answers and sessions, for the steps of all processes but the keepers.

  `Calm` says that what is under way to the forward servers is in order: a
  `KeeperForwardLogonSession` comes after a `KeeperAnswer`, or the forward server has been created.
  `Keeps` says that a step keeps this and the ends that are primed; the steps that are not taken by
  a keeper do so (`keeps_step`), because only keepers send sessions.
-/
import Mmvx.Cluster.KeeperThreads
import Mmvx.Cluster.Updates
import Mmvx.Lib.Precedence

namespace Mmvx.Cluster

open Mmvx.Lib Mmvx.Server

variable {nk nf : Nat}

def isSession : Message → Bool
  | .keeperForwardLogonSession _ => true
  | _ => false

/-- A forward server is ready when it has been created; the other processes always are. -/
def ready (forwards : Fin nf → KeeperClient) (i : Info nk nf) : Bool :=
  match i.role with
  | .forwardKeeper f => (forwards f).forwardServer_.isSome
  | _ => true

/-- Every end has a peer, and the peer of a client's end is the logon server's. -/
structure Paired {μ : Type} (l : Links (Info nk nf) μ) : Prop where
  peer : ∀ p i q, l.label p = some (i, q) → ∃ i', l.label q = some (i', p)
  client : ∀ p i q, l.label p = some (i, q) → i.role = .client →
    ∃ i', l.label q = some (i', p) ∧ i'.role = .logonServer

/-- `Primed` for answers and sessions. -/
def PrimedEnd (s : System nk nf) (p : Nat) : Prop :=
  Links.Primed (fun m : Tagged Message => isAnswer m.val) (ready s.forwards) s.links p

structure Calm (s : System nk nf) : Prop where
  paired : Paired s.links
  order : Links.Guarded (fun m : Tagged Message => isAnswer m.val) (fun m => isSession m.val)
    (ready s.forwards) s.links
  routes : ∀ j f p, (s.keepers j).conns_.find f = some p → PrimedEnd s p
  log : ∀ cause, .call ⟨cause, .assertFailed⟩ ∉ s.log

/-- What a step does that creates no forward server and sends no session to one that is not
    ready. -/
structure Keeps (s s' : System nk nf) : Prop where
  calm : Calm s → Calm s'
  primed : ∀ p, PrimedEnd s p → PrimedEnd s' p
  created : ∀ i, (s'.forwards i).forwardServer_.isSome = true →
    (s.forwards i).forwardServer_.isSome = true

theorem Keeps.refl (s : System nk nf) : Keeps s s := ⟨id, fun _ => id, fun _ => id⟩

theorem Keeps.trans {s s' s'' : System nk nf} (h : Keeps s s') (h' : Keeps s' s'') : Keeps s s'' :=
  ⟨fun hc => h'.calm (h.calm hc), fun p hp => h'.primed p (h.primed p hp),
    fun i hi => h.created i (h'.created i hi)⟩

section

variable {μ : Type} {l l' : Links (Info nk nf) μ}

theorem Paired.relabel (h : Paired l) (hl : ∀ p, l'.label p = l.label p) : Paired l' := by
  refine ⟨?_, ?_⟩
  · intro p i q hp
    rw [hl] at hp ⊢
    exact h.peer p i q hp
  · intro p i q hp hi
    rw [hl] at hp ⊢
    exact h.client p i q hp hi

theorem Paired.connect (h : Paired l) (a b : Info nk nf)
    (ha : a.role = .client → b.role = .logonServer) (hb : b.role ≠ .client) :
    Paired (l.connect a b) := by
  have hla : (l.connect a b).label l.length = some (a, l.length + 1) := by
    simp [Links.label, Links.connect]
  have hlb : (l.connect a b).label (l.length + 1) = some (b, l.length) := by
    simp [Links.label, Links.connect]
  refine ⟨?_, ?_⟩
  · intro p i q hp
    obtain ⟨e, he, rfl, rfl⟩ := Links.getElem?_of_label hp
    obtain he | ⟨rfl, rfl⟩ | ⟨rfl, rfl⟩ := Links.getElem?_connect he
    · obtain ⟨x, hx⟩ := h.peer p _ _ (Links.label_of_getElem? he)
      exact ⟨x, Links.label_connect hx⟩
    · exact ⟨_, hlb⟩
    · exact ⟨_, hla⟩
  · intro p i q hp hi
    obtain ⟨e, he, rfl, rfl⟩ := Links.getElem?_of_label hp
    obtain he | ⟨rfl, rfl⟩ | ⟨rfl, rfl⟩ := Links.getElem?_connect he
    · obtain ⟨i', hl', hi'⟩ := h.client p _ _ (Links.label_of_getElem? he) hi
      exact ⟨i', Links.label_connect hl', hi'⟩
    · exact ⟨b, hlb, ha hi⟩
    · exact absurd hi hb

end

/-! ## What keeps the order -/

section

variable {s s' : System nk nf}

theorem ready_congr {forwards forwards' : Fin nf → KeeperClient}
    (h : ∀ i, (forwards' i).forwardServer_.isSome = (forwards i).forwardServer_.isSome) :
    (ready forwards' : Info nk nf → Bool) = ready forwards := by
  funext i
  unfold ready
  split
  · exact h _
  · rfl

/-- Only tables change. -/
theorem keeps_tables (hlinks : s'.links = s.links) (hlog : s'.log = s.log)
    (hconns : ∀ j f p, (s'.keepers j).conns_.find f = some p →
      (s.keepers j).conns_.find f = some p ∨ PrimedEnd s p)
    (hready : ∀ i, (s'.forwards i).forwardServer_.isSome = (s.forwards i).forwardServer_.isSome) :
    Keeps s s' := by
  have hprimed : ∀ p, PrimedEnd s p → PrimedEnd s' p := by
    intro p hp
    rw [PrimedEnd, hlinks, ready_congr hready]
    exact hp
  refine ⟨fun hc => ⟨?_, ?_, ?_, ?_⟩, hprimed, fun i hi => by rwa [← hready i]⟩
  · rw [hlinks]
    exact hc.paired
  · rw [hlinks, ready_congr hready]
    exact hc.order
  · intro j f p hp
    rcases hconns j f p hp with hp | hp
    · exact hprimed p (hc.routes j f p hp)
    · exact hprimed p hp
  · rw [hlog]
    exact hc.log

/-- Only the links change, and which forward servers are ready. -/
theorem keeps_links {l : Links (Info nk nf) (Tagged Message)} {K : Fin nf → KeeperClient}
    (hpaired : Paired s.links → Paired l)
    (horder : Calm s → Links.Guarded (fun m : Tagged Message => isAnswer m.val)
      (fun m => isSession m.val) (ready K) l)
    (hprimed : ∀ p, PrimedEnd s p → PrimedEnd { s with links := l, forwards := K } p)
    (hcreated : ∀ i, (K i).forwardServer_.isSome = true →
      (s.forwards i).forwardServer_.isSome = true) :
    Keeps s { s with links := l, forwards := K } :=
  ⟨fun hc => ⟨hpaired hc.paired, horder hc, fun j f p hp => hprimed p (hc.routes j f p hp),
    hc.log⟩, hprimed, hcreated⟩

/-- An effect that sends no session on an end that is not primed. -/
def EffectCalm (s : System nk nf) : Effect → Prop
  | .send p m => isSession m = true → PrimedEnd s p
  | .call c => c ≠ .assertFailed
  | _ => True

theorem EffectCalm.mono {e : Effect} (h : EffectCalm s e)
    (hp : ∀ p, PrimedEnd s p → PrimedEnd s' p) : EffectCalm s' e := by
  match e, h with
  | .send p m, h => exact fun hm => hp p (h hm)
  | .call c, h => exact h
  | .put t, _ => trivial
  | .shutdown p, _ => trivial

theorem keeps_log {log : List Event} (h : ∀ cause, .call ⟨cause, .assertFailed⟩ ∈ log →
    .call ⟨cause, .assertFailed⟩ ∈ s.log) : Keeps s { s with log := log } :=
  ⟨fun hc => ⟨hc.paired, hc.order, hc.routes, fun cause hm => hc.log cause (h cause hm)⟩,
    fun _ hp => hp, fun _ hi => hi⟩

theorem keeps_send (p : Nat) (m : Tagged Message) (h : isSession m.val = true → PrimedEnd s p) :
    Keeps s { s with links := s.links.send p m } :=
  keeps_links (fun hp => hp.relabel fun r => Links.label_send s.links p r m)
    (fun hc => hc.order.send h) (fun _ hp => Links.Primed.send hp p m) fun _ => id

theorem keeps_shutdown (p : Nat) : Keeps s { s with links := s.links.shutdown p } :=
  keeps_links (fun hp => hp.relabel fun r => Links.label_shutdown s.links p r)
    (fun hc => hc.order.shutdown p) (fun _ hp => Links.Primed.shutdown hp p) fun _ => id

theorem keeps_close (p : Nat) : Keeps s { s with links := s.links.close p } :=
  keeps_links (fun hp => hp.relabel fun r => Links.label_close s.links p r)
    (fun hc => hc.order.close p) (fun _ hp => Links.Primed.close hp p) fun _ => id

/-- Processes die; those whose ends stay are as ready as before. -/
theorem keeps_closeAll {P : Info nk nf → Bool} {K : Fin nf → KeeperClient}
    (hK : ∀ i, P i = false → ready s.forwards i = true → ready K i = true)
    (hcreated : ∀ i, (K i).forwardServer_.isSome = true →
      (s.forwards i).forwardServer_.isSome = true) :
    Keeps s { s with links := s.links.closeAll P, forwards := K } :=
  keeps_links (fun hp => hp.relabel fun r => Links.label_closeAll s.links P r)
    (fun hc => hc.order.closeAll hK) (fun _ hp => Links.Primed.closeAll hp hK) hcreated

theorem keeps_connect (a b : Info nk nf) (ha : a.role = .client → b.role = .logonServer)
    (hb : b.role ≠ .client) : Keeps s (s.connect a b) :=
  keeps_links (fun hp => hp.connect a b ha hb) (fun hc => hc.order.connect a b)
    (fun _ hp => Links.Primed.connect hp a b) fun _ => id

theorem keeps_receive {p : Nat} {e : Endpoint (Info nk nf) (Tagged Message)} {m : Tagged Message}
    {l : Links (Info nk nf) (Tagged Message)} (hr : s.links.receive p = some (e, m, l))
    (hm : isAnswer m.val = true → ready s.forwards e.info = true) :
    Keeps s { s with links := l } :=
  keeps_links (fun hp => hp.relabel (Links.label_receive hr))
    (fun hc => (hc.order.receive hr (fun _ => id) hm).1)
    (fun _ hp => Links.Primed.receive hp hr (fun _ => id) hm) fun _ => id

theorem keeps_lose {p : Nat} {e : Endpoint (Info nk nf) (Tagged Message)} {m : Tagged Message}
    {l : Links (Info nk nf) (Tagged Message)} (hl : s.links.lose p = some (e, m, l)) :
    Keeps s { s with links := l } :=
  keeps_links (fun hp => hp.relabel (Links.label_lose hl)) (fun hc => hc.order.lose hl)
    (fun _ hp => Links.Primed.lose hp hl) fun _ => id

theorem keeps_apply (cause : Option Request) {e : Effect} (he : EffectCalm s e) :
    Keeps s (System.apply cause s e) := by
  match e, he with
  | .send p m, he =>
    refine (keeps_send p ⟨cause, m⟩ he).trans (keeps_log ?_)
    intro c hm
    split at hm
    · simpa using hm
    · exact hm
  | .shutdown p, _ =>
    refine (keeps_shutdown p).trans (keeps_log ?_)
    intro c hm
    simpa using hm
  | .put t, _ => exact keeps_tables rfl rfl (fun _ _ _ hp => Or.inl hp) fun _ => rfl
  | .call c, he =>
    refine keeps_log ?_
    intro c' hm
    rcases List.mem_cons.mp hm with heq | hm
    · cases heq
      exact absurd rfl he
    · exact hm

theorem keeps_applyAll (cause : Option Request) {es : List Effect}
    (hes : ∀ e ∈ es, EffectCalm s e) : Keeps s (s.applyAll cause es) := by
  apply System.applyAll_induction cause s es (P := fun s' => Keeps s s')
  · exact .refl s
  · intro s' e he hk
    exact hk.trans (keeps_apply cause ((hes e he).mono hk.primed))

/-! ## The callbacks of the other processes -/

theorem effectCalm_nil : ∀ e ∈ ([] : List Effect), EffectCalm s e := by
  intro e he
  cases he

theorem effectCalm_shutdown (p : Nat) : ∀ e ∈ [Effect.shutdown p], EffectCalm s e := by
  intro e he
  rw [List.mem_singleton.mp he]
  trivial

theorem effectCalm_sendTo {conn : Option Nat} {m : Message} (hm : isSession m = false) :
    ∀ e ∈ sendTo conn m, EffectCalm s e := by
  intro e he
  obtain ⟨p, -, rfl⟩ := mem_sendTo.mp he
  intro hsession
  rw [hm] at hsession
  cases hsession

theorem effectCalm_send {p : Nat} {m : Message} (hm : isSession m = false) :
    ∀ e ∈ [Effect.send p m], EffectCalm s e := by
  intro e he
  rw [List.mem_singleton.mp he]
  intro hsession
  rw [hm] at hsession
  cases hsession

theorem effectCalm_logon (l : LogonServer) (conn : TcpConnection) (m : Message) :
    ∀ e ∈ (l.onMessage conn m).2, EffectCalm s e := by
  unfold LogonServer.onMessage
  split
  · intro e he
    rw [List.mem_singleton.mp he]
    trivial
  · exact effectCalm_shutdown _

theorem effectCalm_hubClient (l : LogonServer) (conn : TcpConnection) (m : Message) :
    ∀ e ∈ (l.onHubClientMessage conn m).2, EffectCalm s e := by
  unfold LogonServer.onHubClientMessage
  split
  · exact effectCalm_sendTo rfl
  · exact effectCalm_shutdown _

theorem effectCalm_queryLogonAccount (l : LogonServer) (t : Task) (result : QueryResult) :
    ∀ e ∈ l.queryLogonAccount t result, EffectCalm s e := by
  unfold LogonServer.queryLogonAccount
  split
  · exact effectCalm_nil
  · split
    · intro e he
      rcases List.mem_cons.mp he with rfl | he
      · exact nofun
      · exact effectCalm_sendTo rfl e he
    · intro e he
      rcases List.mem_append.mp he with he | he
      · exact effectCalm_sendTo rfl e he
      · unfold LogonServer.shutdownConn at he
        split at he
        · exact effectCalm_shutdown _ e he
        · cases he

theorem effectCalm_hub (h : HubServer) (conn : TcpConnection) (m : Message) :
    ∀ e ∈ (h.onMessage conn m).2, EffectCalm s e := by
  unfold HubServer.onMessage
  split
  · exact effectCalm_nil
  · unfold HubServer.onHubLogonQueryForwardID
    dsimp only
    split
    · exact effectCalm_sendTo rfl
    · exact effectCalm_nil
  · unfold HubServer.onHubConnectionData
    split
    · exact effectCalm_nil
    · split <;> exact effectCalm_nil
  · exact effectCalm_sendTo rfl
  · exact effectCalm_shutdown _

theorem keeps_withLogon (cause : Option Request) {r : LogonServer × List Effect}
    (hr : ∀ e ∈ r.2, EffectCalm s e) : Keeps s (s.withLogon cause r) :=
  have h : Keeps s { s with logon := r.1 } :=
    keeps_tables rfl rfl (fun _ _ _ hp => Or.inl hp) fun _ => rfl
  h.trans (keeps_applyAll cause fun e he => (hr e he).mono h.primed)

theorem keeps_withHub (cause : Option Request) {r : HubServer × List Effect}
    (hr : ∀ e ∈ r.2, EffectCalm s e) : Keeps s (s.withHub cause r) :=
  have h : Keeps s { s with hub := r.1 } :=
    keeps_tables rfl rfl (fun _ _ _ hp => Or.inl hp) fun _ => rfl
  h.trans (keeps_applyAll cause fun e he => (hr e he).mono h.primed)

theorem isSome_update {forwards : Fin nf → KeeperClient} {i : Fin nf} {k : KeeperClient}
    (hk : k.forwardServer_.isSome = (forwards i).forwardServer_.isSome) (i' : Fin nf) :
    (Function.update forwards i k i').forwardServer_.isSome =
      (forwards i').forwardServer_.isSome := by
  by_cases hi : i' = i
  · subst hi
    rw [Function.update_self]
    exact hk
  · rw [Function.update_of_ne hi]

theorem keeps_withForward (i : Fin nf) (cause : Option Request) {r : KeeperClient × List Effect}
    (hk : r.1.forwardServer_.isSome = (s.forwards i).forwardServer_.isSome)
    (hr : ∀ e ∈ r.2, EffectCalm s e) : Keeps s (s.withForward i cause r) :=
  have h : Keeps s { s with forwards := Function.update s.forwards i r.1 } :=
    keeps_tables rfl rfl (fun _ _ _ hp => Or.inl hp) (isSome_update hk)
  h.trans (keeps_applyAll cause fun e he => (hr e he).mono h.primed)

theorem ready_forward {forwards : Fin nf → KeeperClient} {i : Info nk nf} {f : Fin nf}
    (hi : i.role = .forwardKeeper f) : ready forwards i = (forwards f).forwardServer_.isSome := by
  rw [ready, hi]

/-- A forward server that becomes ready. -/
theorem ready_update {forwards : Fin nf → KeeperClient} {f : Fin nf} {k : KeeperClient}
    (hk : k.forwardServer_.isSome = true) (i : Info nk nf) (hi : ready forwards i = true) :
    ready (Function.update forwards f k) i = true := by
  unfold ready at hi ⊢
  split
  · rename_i f' hrole
    rw [hrole] at hi
    by_cases hf : f' = f
    · subst hf
      rw [Function.update_self]
      exact hk
    · rw [Function.update_of_ne hf]
      exact hi
  · rfl

theorem effectCalm_onAnswer (k : KeeperClient) (a : KeeperAnswer) :
    ∀ e ∈ (k.onAnswer a).2, EffectCalm s e := by
  unfold KeeperClient.onAnswer
  dsimp only
  split
  · intro e he
    obtain ⟨es, hes, he⟩ := List.mem_flatten.mp he
    rw [(List.mem_replicate.mp hes).2] at he
    exact effectCalm_sendTo rfl e he
  · exact effectCalm_nil

/-- A forward server is created when it receives an answer. -/
theorem calm_deliver_answer (hc : Calm s) {p : Nat} {e : Endpoint (Info nk nf) (Tagged Message)}
    {m : Tagged Message} {l : Links (Info nk nf) (Tagged Message)} {i : Fin nf} {a : KeeperAnswer}
    (hr : s.links.receive p = some (e, m, l)) (hrole : e.info.role = .forwardKeeper i)
    (hs : s' = { s with links := l }.withForward i m.cause ((s.forwards i).onAnswer a)) :
    Calm s' ∧ (∀ p, PrimedEnd s p → PrimedEnd s' p) ∧
      ∀ i', (s'.forwards i').forwardServer_.isSome = true →
        i' = i ∨ (s.forwards i').forwardServer_.isSome = true := by
  let K := Function.update s.forwards i ((s.forwards i).onAnswer a).1
  let s₁ := { s with links := l, forwards := K }
  have hready : isAnswer m.val = true → ready K e.info = true := by
    intro _
    simp only [ready_forward hrole, K, Function.update_self]
    rfl
  have hprimed : ∀ p, PrimedEnd s p → PrimedEnd s₁ p :=
    fun _ hp => Links.Primed.receive hp hr (ready_update rfl) hready
  have hcalm : Calm s₁ :=
    ⟨hc.paired.relabel (Links.label_receive hr),
      (hc.order.receive hr (ready_update rfl) hready).1,
      fun j f p hp => hprimed p (hc.routes j f p hp), hc.log⟩
  have hk : Keeps s₁ s' := by
    rw [hs]
    exact keeps_applyAll _ (effectCalm_onAnswer _ a)
  refine ⟨hk.calm hcalm, fun p hp => hk.primed p (hprimed p hp), ?_⟩
  intro i' hi'
  by_cases hii : i' = i
  · exact Or.inl hii
  · have h := hk.created i' hi'
    rw [show s₁.forwards i' = s.forwards i' from Function.update_of_ne hii _ _] at h
    exact Or.inr h

/-- A forward server receives another message. When it is a session the server is ready, so that
    the assertion holds. -/
theorem keeps_deliver_forward (hc : Calm s) {p : Nat} {e : Endpoint (Info nk nf) (Tagged Message)}
    {m : Tagged Message} {l : Links (Info nk nf) (Tagged Message)} {i : Fin nf}
    (hr : s.links.receive p = some (e, m, l)) (hrole : e.info.role = .forwardKeeper i)
    (hm : isAnswer m.val = false) (conn : TcpConnection) (rand : Int32) :
    Keeps s ({ s with links := l }.withForward i m.cause
      ((s.forwards i).onMessage conn rand m.val)) := by
  have hno : isAnswer m.val = true → ready s.forwards e.info = true := by
    rw [hm]
    exact nofun
  have hl : Keeps s { s with links := l } := keeps_receive hr hno
  unfold KeeperClient.onMessage
  split
  · rename_i a ha
    rw [ha] at hm
    cases hm
  · rename_i x hx
    have hsome := (hc.order.receive hr (fun _ => id) hno).2 (by rw [hx]; rfl)
    rw [ready_forward hrole] at hsome
    obtain ⟨f, hf⟩ := Option.isSome_iff_exists.mp hsome
    rw [KeeperClient.onKeeperForwardLogonSession, hf]
    refine hl.trans (keeps_withForward i m.cause (by simp [hf]) ?_)
    intro e he
    rcases List.mem_cons.mp he with rfl | he
    · exact nofun
    · exact effectCalm_sendTo rfl e he
  · exact hl.trans (keeps_withForward i m.cause rfl (effectCalm_shutdown _))

/-- An end that is not a forward server's receives a message. -/
theorem keeps_receive_other {p : Nat} {e : Endpoint (Info nk nf) (Tagged Message)}
    {m : Tagged Message} {l : Links (Info nk nf) (Tagged Message)}
    (hr : s.links.receive p = some (e, m, l)) (hrole : ∀ i, e.info.role ≠ .forwardKeeper i) :
    Keeps s { s with links := l } := by
  refine keeps_receive hr fun _ => ?_
  unfold ready
  split
  · rename_i i hi
    exact absurd hi (hrole i)
  · rfl

/-- The logon server or the hub takes a message. -/
theorem keeps_onMessage {p : Nat} {e : Endpoint (Info nk nf) (Tagged Message)}
    {m : Tagged Message} {l : Links (Info nk nf) (Tagged Message)} (rand : Int32)
    (hr : s.links.receive p = some (e, m, l)) (hkeeper : keeperOf e.info = none)
    (hforward : ∀ i, e.info.role ≠ .forwardKeeper i) :
    Keeps s ({ s with links := l }.onMessage p e.info rand m) := by
  have hl : Keeps s { s with links := l } := keeps_receive_other hr hforward
  unfold System.onMessage
  split
  · exact hl
  · exact hl.trans (keeps_withLogon _ (effectCalm_logon _ _ _))
  · exact hl.trans (keeps_withLogon _ (effectCalm_hubClient _ _ _))
  · exact hl.trans (keeps_withHub _ (effectCalm_hub _ _ _))
  · rename_i j hrole
    simp [keeperOf, hrole] at hkeeper
  · rename_i j hrole
    simp [keeperOf, hrole] at hkeeper
  · rename_i f hrole
    exact absurd hrole (hforward f)

/-- An end of a process other than the keepers goes down. -/
theorem keeps_onDown {p : Nat} {i : Info nk nf} (hkeeper : keeperOf i = none) :
    Keeps s (s.onDown p i) := by
  unfold System.onDown
  split
  · exact .refl s
  · exact keeps_withLogon none effectCalm_nil
  · exact keeps_withLogon none effectCalm_nil
  · refine keeps_withHub none ?_
    unfold HubServer.onConnection
    split <;> exact effectCalm_nil
  · rename_i j hrole
    simp [keeperOf, hrole] at hkeeper
  · rename_i j hrole
    simp [keeperOf, hrole] at hkeeper
  · exact keeps_withForward _ none rfl effectCalm_nil

theorem keeps_clientSend (hc : Calm s) {p : Nat} {m : Message} (hs : s.clientSend p m = some s') :
    Keeps s s' := by
  unfold System.clientSend at hs
  split at hs
  · rename_i e he
    split at hs
    · rename_i hclient
      obtain rfl := Option.some.inj hs
      obtain ⟨i', hq, hi'⟩ := hc.paired.client p _ _ (Links.label_of_getElem? he) hclient.1
      have hsend : Keeps s { s with
          links := s.links.send p ⟨some ⟨e.peer, s.requests⟩, m⟩ } := by
        refine keeps_send p _ fun _ => ⟨_, _, _, Links.label_of_getElem? he, hq, ?_⟩
        -- the other end is the logon server's
        intro _ f _ hf _ _
        rw [Links.label_of_getElem? hf] at hq
        cases hq
        exact Or.inl (by rw [ready, hi'])
      refine hsend.trans ((keeps_log ?_).trans
        (keeps_tables rfl rfl (fun _ _ _ hp => Or.inl hp) fun _ => rfl))
      intro c hm
      simpa using hm
    · cases hs
  · cases hs

/-- Every step that takes one step here as in `System`. -/
theorem keeps_step (hc : Calm s) {a : Action nk nf} (ha : Threads.isSplit a = false)
    (hs : s.step a = some s') : Keeps s s' := by
  match a, ha with
  | .clientConnect, _ =>
    obtain rfl := Option.some.inj hs
    exact (keeps_connect _ _ (fun _ => rfl) (by simp)).trans (keeps_withLogon none effectCalm_nil)
  | .clientSend p m, _ => exact keeps_clientSend hc hs
  | .lose p, _ =>
    obtain ⟨e, m, l, hl, rfl⟩ := System.lose_eq_some hs
    exact keeps_lose hl
  | .runTask n result, _ =>
    replace hs : s.runTask n result = some s' := hs
    unfold System.runTask at hs
    split at hs
    · obtain rfl := Option.some.inj hs
      have h : Keeps s { s with tasks := s.tasks.eraseIdx n } :=
        keeps_tables rfl rfl (fun _ _ _ hp => Or.inl hp) fun _ => rfl
      exact h.trans (keeps_applyAll _ (effectCalm_queryLogonAccount _ _ _))
    · cases hs
  | .logonConnectHub, _ =>
    replace hs : s.logonConnectHub = some s' := hs
    unfold System.logonConnectHub at hs
    split at hs
    · obtain rfl := Option.some.inj hs
      exact (keeps_connect _ _ (by simp [Info.unnamed]) (by simp [Info.unnamed])).trans
        (keeps_withLogon none (effectCalm_send rfl))
    · cases hs
  | .forwardConnectKeeper i j ip, _ =>
    replace hs : s.forwardConnectKeeper i j ip = some s' := hs
    unfold System.forwardConnectKeeper at hs
    split at hs
    · obtain rfl := Option.some.inj hs
      refine (keeps_connect (Info.unnamed (.forwardKeeper i))
        ⟨.keeperServer j, (s.keepers j).server_.newConnection.1, ip⟩ (by simp [Info.unnamed])
        (by simp)).trans (Keeps.trans ?_ (keeps_withForward i none rfl (effectCalm_send rfl)))
      refine keeps_tables rfl rfl ?_ fun _ => rfl
      intro j' f p hp
      refine Or.inl ?_
      by_cases hj : j' = j
      · subst hj
        simpa [System.connect] using hp
      · simpa [System.connect, Function.update_of_ne hj] using hp
    · cases hs
  | .forwardUp i, _ =>
    obtain ⟨r, hr, rfl⟩ := Option.map_eq_some_iff.mp hs
    obtain ⟨f, hf, rfl⟩ := Option.map_eq_some_iff.mp hr
    exact keeps_withForward i none (by simp [hf]) (effectCalm_sendTo rfl)
  | .forwardDown i, _ =>
    obtain ⟨r, hr, rfl⟩ := Option.map_eq_some_iff.mp hs
    unfold KeeperClient.onClientDown at hr
    split at hr
    · rename_i f hf
      split at hr
      · obtain rfl := Option.some.inj hr
        exact keeps_withForward i none (by simp [hf]) (effectCalm_sendTo rfl)
      · cases hr
    · cases hr
  | .forwardLogon i uid session, _ =>
    obtain ⟨k, hk, rfl⟩ := Option.map_eq_some_iff.mp hs
    obtain ⟨f, hf, rfl⟩ := Option.map_eq_some_iff.mp hk
    exact keeps_withForward i none (by simp [hf]) effectCalm_nil
  | .restartLogon, _ =>
    obtain rfl := Option.some.inj hs
    exact (keeps_closeAll (fun _ _ => id) fun _ => id).trans
      (keeps_tables rfl rfl (fun _ _ _ hp => Or.inl hp) fun _ => rfl)
  | .restartHub, _ =>
    obtain rfl := Option.some.inj hs
    exact (keeps_closeAll (fun _ _ => id) fun _ => id).trans
      (keeps_tables rfl rfl (fun _ _ _ hp => Or.inl hp) fun _ => rfl)

end

end Mmvx.Cluster
