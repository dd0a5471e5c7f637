/-
  What a step does to the registry of forward servers.

  The keepers' started ids, the hub's lists, the clients of the forward servers and the connections
  between them are the `View` of a state; updates travel from the forward servers to the keepers and
  from the keepers to the hub, and `flying` counts those under way. `step_change` sums up every step
  in these terms.
-/
import Mmvx.Cluster.Wiring
import Mmvx.Server.HubTable

namespace Mmvx.Cluster

open Mmvx.Lib Mmvx.Server

variable {nk nf : Nat}

/-! ## Updates -/

def updateIn : Message → Option UpdateForwardConns
  | .keeperForwardUpdateForwardConns u => some u
  | .hubKeeperUpdateForwardConns u => some u
  | _ => none

/-- The update is an `oper` for the forward server `f` of the keeper `k`. -/
def isFor (k f : UInt16) (oper : Operation) (u : UpdateForwardConns) : Bool :=
  u.keeperserverid.toUInt16 = k && u.forwardserverid.toUInt16 = f && u.oper = oper

theorem isFor_of_ne {k f : UInt16} {oper : Operation} {u : UpdateForwardConns}
    (h : u.keeperserverid.toUInt16 ≠ k) : isFor k f oper u = false := by
  rw [isFor, decide_eq_false h, Bool.false_and, Bool.false_and]

theorem isFor_of_oper {k f : UInt16} {oper : Operation} {u : UpdateForwardConns}
    (h : u.oper ≠ oper) : isFor k f oper u = false := by
  rw [isFor, decide_eq_false h, Bool.and_false]

/-- The end is a keeper's for a forward server, or the hub's. -/
def takesUpdates (i : Info nk nf) : Bool :=
  match i.role with
  | .keeperServer _ => true
  | .hubServer => true
  | _ => false

/-- The number of updates of a kind under way to the ends `E`. -/
def flying (E : Info nk nf → Bool) (s : System nk nf) (oper : Operation) (k f : UInt16) : Nat :=
  Links.mail (fun i m => E i && (updateIn m.val).any (isFor k f oper)) s.links

def isAnswer : Message → Bool
  | .keeperAnswer _ => true
  | _ => false

/-- An effect that neither reports to the registry nor answers a query, and shuts down no end of a
    link that reports travel on. -/
def Plain (l : Links (Info nk nf) (Tagged Message)) : Effect → Prop
  | .send _ m => updateIn m = none ∧ isAnswer m = false
  | .shutdown q => ∀ i q', l.label q = some (i, q') →
      i.role = .logonServer ∨ ∃ j, i.role = .keeperServer j
  | _ => True

/-! ## The view -/

/-- The keeper and the forward server that the process has become, and its clients. -/
def identity (k : KeeperClient) : Option (UInt16 × UInt16 × Nat) :=
  k.forwardServer_.map fun f => (f.keeperServerID_, f.serverID_, f.clients)

structure View (nk nf : Nat) where
  lists : UInt16 → List ForwardServerData
  serverID : Fin nk → UInt16
  hubConn : Fin nk → Option Nat
  started : Fin nk → UInt16 → Bool
  conn : Fin nf → Option Nat
  identity : Fin nf → Option (UInt16 × UInt16 × Nat)

def System.view (s : System nk nf) : View nk nf where
  lists := s.hub.forwards
  serverID j := (s.keepers j).serverID_
  hubConn j := (s.keepers j).hubConn_
  started j := (s.keepers j).isStarted
  conn i := (s.forwards i).conn_
  identity i := Cluster.identity (s.forwards i)

@[simp] theorem view_applyAll (s : System nk nf) (cause : Option Request) (es : List Effect) :
    (s.applyAll cause es).view = s.view := by
  obtain ⟨-, hhub, hkeepers, hforwards, -, -⟩ := System.applyAll_frame cause s es
  simp only [System.view, hhub, hkeepers, hforwards]

theorem update_comp {α β : Type} {n : Nat} (g : α → β) (f : Fin n → α) (i : Fin n) (a : α) :
    (fun i' => g (Function.update f i a i')) = Function.update (fun i' => g (f i')) i (g a) := by
  funext i'
  by_cases h : i' = i
  · subst h
    simp
  · simp [h]

section

variable {s t : System nk nf}

theorem view_keepers {j : Fin nk} {k : KeeperServer} (hhub : t.hub = s.hub)
    (hkeepers : t.keepers = Function.update s.keepers j k) (hforwards : t.forwards = s.forwards) :
    t.view = { s.view with
      serverID := Function.update s.view.serverID j k.serverID_
      hubConn := Function.update s.view.hubConn j k.hubConn_
      started := Function.update s.view.started j k.isStarted } := by
  simp only [System.view, hhub, hkeepers, hforwards, update_comp]

theorem view_forwards {i : Fin nf} {k : KeeperClient} (hhub : t.hub = s.hub)
    (hkeepers : t.keepers = s.keepers) (hforwards : t.forwards = Function.update s.forwards i k) :
    t.view = { s.view with
      conn := Function.update s.view.conn i k.conn_
      identity := Function.update s.view.identity i (identity k) } := by
  simp only [System.view, hhub, hkeepers, hforwards, update_comp]

/-- A keeper's callback changes its connection to the hub at most. -/
theorem view_hubConn (s : System nk nf) (j : Fin nk) (k : KeeperServer) (hhub : t.hub = s.hub)
    (hkeepers : t.keepers = Function.update s.keepers j k) (hforwards : t.forwards = s.forwards)
    (hid : k.serverID_ = (s.keepers j).serverID_) (hstart : k.isStarted = (s.keepers j).isStarted) :
    t.view = { s.view with hubConn := Function.update s.view.hubConn j k.hubConn_ } := by
  rw [view_keepers hhub hkeepers hforwards, hid, hstart]
  simp only [System.view, Function.update_eq_self]

/-- A keeper's callback changes the ids it has started at most. -/
theorem view_started {j : Fin nk} {k : KeeperServer} (hhub : t.hub = s.hub)
    (hkeepers : t.keepers = Function.update s.keepers j k) (hforwards : t.forwards = s.forwards)
    (hid : k.serverID_ = (s.keepers j).serverID_) (hconn : k.hubConn_ = (s.keepers j).hubConn_) :
    t.view = { s.view with started := Function.update s.view.started j k.isStarted } := by
  rw [view_keepers hhub hkeepers hforwards, hid, hconn]
  simp only [System.view, Function.update_eq_self]

theorem view_keeper_same {j : Fin nk} {k : KeeperServer} (hhub : t.hub = s.hub)
    (hkeepers : t.keepers = Function.update s.keepers j k) (hforwards : t.forwards = s.forwards)
    (hid : k.serverID_ = (s.keepers j).serverID_) (hconn : k.hubConn_ = (s.keepers j).hubConn_)
    (hstart : k.isStarted = (s.keepers j).isStarted) : t.view = s.view := by
  rw [view_started hhub hkeepers hforwards hid hconn, hstart]
  simp only [System.view, Function.update_eq_self]

/-- A forward server's callback changes its connection to the keeper at most. -/
theorem view_conn (s : System nk nf) (i : Fin nf) (k : KeeperClient) (hhub : t.hub = s.hub)
    (hkeepers : t.keepers = s.keepers) (hforwards : t.forwards = Function.update s.forwards i k)
    (hid : identity k = identity (s.forwards i)) :
    t.view = { s.view with conn := Function.update s.view.conn i k.conn_ } := by
  rw [view_forwards hhub hkeepers hforwards, hid]
  simp only [System.view, Function.update_eq_self]

/-- A forward server's callback changes its id and its clients at most. -/
theorem view_identity (s : System nk nf) (i : Fin nf) (k : KeeperClient) (hhub : t.hub = s.hub)
    (hkeepers : t.keepers = s.keepers) (hforwards : t.forwards = Function.update s.forwards i k)
    (hconn : k.conn_ = (s.forwards i).conn_) :
    t.view = { s.view with identity := Function.update s.view.identity i (identity k) } := by
  rw [view_forwards hhub hkeepers hforwards, hconn]
  simp only [System.view, Function.update_eq_self]

theorem view_forward_same {i : Fin nf} {k : KeeperClient} (hhub : t.hub = s.hub)
    (hkeepers : t.keepers = s.keepers) (hforwards : t.forwards = Function.update s.forwards i k)
    (hconn : k.conn_ = (s.forwards i).conn_) (hid : identity k = identity (s.forwards i)) :
    t.view = s.view := by
  rw [view_identity s i k hhub hkeepers hforwards hconn, hid]
  simp only [System.view, Function.update_eq_self]

/-- `newConnection` of a keeper is not in the view. -/
theorem view_server {j : Fin nk} (server : TcpServer) (hhub : t.hub = s.hub)
    (hkeepers : t.keepers = Function.update s.keepers j { s.keepers j with server_ := server })
    (hforwards : t.forwards = s.forwards) : t.view = s.view :=
  view_keeper_same hhub hkeepers hforwards rfl rfl rfl

end

/-! ## Counting updates under way -/

section

variable {E : Info nk nf → Bool} {s s' : System nk nf} {oper : Operation} {k f : UInt16}

/-- An update gets under way, on a connection that is up. -/
theorem flying_send {p q : Nat} {e : Endpoint (Info nk nf) (Tagged Message)}
    (cause : Option Request) (m : Message) (ht : s.links.target p = some q)
    (he : s.links[q]? = some e) :
    flying E (System.apply cause s (.send p m)) oper k f = flying E s oper k f +
      if E e.info && (updateIn m).any (isFor k f oper) then 1 else 0 :=
  Links.mail_send_target ht he

theorem flying_lost {p : Nat} (cause : Option Request) (m : Message)
    (ht : s.links.target p = none) :
    flying E (System.apply cause s (.send p m)) oper k f = flying E s oper k f :=
  congrArg (Links.mail _) (Links.mail_send_lost ht)

/-- An update of the kind is sent to ends that count, if the connection is up. -/
theorem flying_sendTo {conn : Option Nat} {m : Message} {R R' : Role nk nf}
    (cause : Option Request) (hends : ∀ p, conn = some p → Ends s.links p R R')
    (hE : ∀ i : Info nk nf, i.role = R' → E i = true)
    (hm : (updateIn m).any (isFor k f oper) = true) :
    flying E (s.applyAll cause (sendTo conn m)) oper k f = flying E s oper k f +
      if linkUp s conn then 1 else 0 := by
  cases conn with
  | none => rfl
  | some p =>
    show flying E (System.apply cause s (.send p m)) oper k f = _
    cases ht : s.links.target p with
    | none =>
      rw [flying_lost cause m ht]
      simp [linkUp, ht]
    | some q =>
      obtain ⟨e₀, e, he₀, rfl, -, he, -⟩ := Links.target_eq_some ht
      have hrole := ((hends p rfl).peer he₀).1.role_eq (Links.label_of_getElem? he)
      rw [flying_send cause m ht he, hE _ hrole, hm]
      simp [linkUp, ht]

theorem flying_replicate {conn : Option Nat} {m : Message} {R R' : Role nk nf}
    (cause : Option Request) (hends : ∀ p, conn = some p → Ends s.links p R R')
    (hE : ∀ i : Info nk nf, i.role = R' → E i = true)
    (hm : (updateIn m).any (isFor k f oper) = true) (hup : linkUp s conn = true) (n : Nat) :
    flying E (s.applyAll cause (List.replicate n (sendTo conn m)).flatten) oper k f =
      flying E s oper k f + n := by
  induction n generalizing s with
  | zero => rfl
  | succ n ih =>
    rw [List.replicate_succ, List.flatten_cons, System.applyAll_append, ih,
      flying_sendTo cause hends hE hm, if_pos hup]
    · omega
    · intro p hp
      refine (hends p hp).mono (extends_of_label fun r => ?_)
      exact (System.applyAll_frame cause s (sendTo conn m)).2.2.2.2.2 r
    · obtain ⟨p, rfl, -⟩ := linkUp_eq_true hup
      rw [← hup]
      exact linkUp_congr (fun r => Links.target_send s.links p r _) _

/-- What is sent to ends that do not count changes nothing. -/
theorem flying_sendTo_aside {conn : Option Nat} {m : Message} {R R' : Role nk nf}
    (cause : Option Request) (hends : ∀ p, conn = some p → Ends s.links p R R')
    (hE : ∀ i : Info nk nf, i.role = R' → E i = false) :
    flying E (s.applyAll cause (sendTo conn m)) oper k f = flying E s oper k f := by
  cases conn with
  | none => rfl
  | some p =>
    show flying E (System.apply cause s (.send p m)) oper k f = _
    cases ht : s.links.target p with
    | none => exact flying_lost cause m ht
    | some q =>
      obtain ⟨e₀, e, he₀, rfl, -, he, -⟩ := Links.target_eq_some ht
      have hrole := ((hends p rfl).peer he₀).1.role_eq (Links.label_of_getElem? he)
      rw [flying_send cause m ht he, hE _ hrole]
      rfl

/-- An effect without an update of the kind. -/
def Silent (k f : UInt16) (oper : Operation) : Effect → Prop
  | .send _ m => (updateIn m).any (isFor k f oper) = false
  | _ => True

theorem Plain.silent {l : Links (Info nk nf) (Tagged Message)} {e : Effect} (h : Plain l e) :
    Silent k f oper e := by
  match e, h with
  | .send p m, h => simp [Silent, h.1]
  | .shutdown p, _ => trivial
  | .put t, _ => trivial
  | .call c, _ => trivial

theorem silent_sendTo {conn : Option Nat} {m : Message} {u : UpdateForwardConns}
    (hu : updateIn m = some u) (h : isFor k f oper u = false) :
    ∀ e ∈ sendTo conn m, Silent k f oper e := by
  intro e he
  obtain ⟨p, -, rfl⟩ := mem_sendTo.mp he
  simp [Silent, hu, h]

theorem flying_silent (cause : Option Request) {e : Effect} (he : Silent k f oper e) :
    flying E (System.apply cause s e) oper k f = flying E s oper k f := by
  match e, he with
  | .send p m, he =>
    refine Links.mail_send_other fun i => ?_
    have he : (updateIn m).any (isFor k f oper) = false := he
    simp [he]
  | .shutdown p, _ => exact Links.mail_shutdown p
  | .put t, _ => rfl
  | .call c, _ => rfl

theorem flying_silents (cause : Option Request) {es : List Effect}
    (hes : ∀ e ∈ es, Silent k f oper e) :
    flying E (s.applyAll cause es) oper k f = flying E s oper k f := by
  apply System.applyAll_induction cause s es
    (P := fun s' => flying E s' oper k f = flying E s oper k f)
  · rfl
  · intro s' e he ih
    rw [flying_silent cause (hes e he), ih]

theorem flying_plains (cause : Option Request) {es : List Effect}
    {l : Links (Info nk nf) (Tagged Message)} (hes : ∀ e ∈ es, Plain l e) :
    flying E (s.applyAll cause es) oper k f = flying E s oper k f :=
  flying_silents cause fun e he => (hes e he).silent

theorem flying_links (h : s'.links = s.links) :
    flying E s' oper k f = flying E s oper k f := by
  rw [flying, flying, h]

theorem flying_receive {p : Nat} {e : Endpoint (Info nk nf) (Tagged Message)}
    {m : Tagged Message} {l : Links (Info nk nf) (Tagged Message)}
    (hr : s.links.receive p = some (e, m, l)) (hlinks : s'.links = l) :
    flying E s oper k f = flying E s' oper k f +
      if E e.info && (updateIn m.val).any (isFor k f oper) then 1 else 0 := by
  rw [flying, flying, hlinks]
  exact Links.mail_receive hr

/-- A message that is no update of the kind, or goes to another end, is delivered. -/
theorem flying_receive_of_not {p : Nat} {e : Endpoint (Info nk nf) (Tagged Message)}
    {m : Tagged Message} {l : Links (Info nk nf) (Tagged Message)}
    (hr : s.links.receive p = some (e, m, l)) (hlinks : s'.links = l)
    (hm : E e.info = false ∨ (updateIn m.val).any (isFor k f oper) = false) :
    flying E s' oper k f = flying E s oper k f := by
  have hnot : (E e.info && (updateIn m.val).any (isFor k f oper)) = false := by
    rcases hm with hm | hm
    · rw [hm, Bool.false_and]
    · rw [hm, Bool.and_false]
  rw [flying_receive hr hlinks, hnot]
  rfl

/-- A message that is no update of the kind, or goes to another end, is lost. -/
theorem flying_lose_of_not {p : Nat} {e : Endpoint (Info nk nf) (Tagged Message)}
    {m : Tagged Message} {l : Links (Info nk nf) (Tagged Message)}
    (hl : s.links.lose p = some (e, m, l)) (hlinks : s'.links = l)
    (hm : (E e.info && (updateIn m.val).any (isFor k f oper)) = false) :
    flying E s' oper k f = flying E s oper k f := by
  have hlose := Links.mail_lose (P := fun i m => E i && (updateIn m.val).any (isFor k f oper)) hl
  rw [hm] at hlose
  rw [flying, flying, hlinks]
  exact hlose.symm

theorem flying_lose_le {p : Nat} {e : Endpoint (Info nk nf) (Tagged Message)}
    {m : Tagged Message} {l : Links (Info nk nf) (Tagged Message)}
    (hl : s.links.lose p = some (e, m, l)) (hlinks : s'.links = l) :
    flying E s' oper k f ≤ flying E s oper k f := by
  rw [flying, flying, hlinks, Links.mail_lose hl]
  exact Nat.le_add_right _ _

theorem flying_connect {i i' : Info nk nf} (hlinks : s'.links = s.links.connect i i') :
    flying E s' oper k f = flying E s oper k f := by
  rw [flying, flying, hlinks, Links.mail_connect]

theorem flying_close_le {p : Nat} (hlinks : s'.links = s.links.close p) :
    flying E s' oper k f ≤ flying E s oper k f := by
  rw [flying, flying, hlinks]
  exact Links.mail_close_le p

/-- Closing an end loses no update that does not wait there. -/
theorem flying_close {p : Nat} {e : Endpoint (Info nk nf) (Tagged Message)}
    (he : s.links[p]? = some e) (hlinks : s'.links = s.links.close p)
    (hnot : ∀ m ∈ e.inbox, (E e.info && (updateIn m.val).any (isFor k f oper)) = false) :
    flying E s' oper k f = flying E s oper k f := by
  have hzero : e.inbox.countP (fun m => E e.info && (updateIn m.val).any (isFor k f oper)) = 0 := by
    rw [List.countP_eq_zero]
    intro m hm
    simp [hnot m hm]
  have hclose := Links.mail_close
    (P := fun i m => E i && (updateIn m.val).any (isFor k f oper)) he
  rw [flying, flying, hlinks]
  omega

/-- The ends of the logon server hold no updates that count. -/
theorem flying_restartLogon (hE : ∀ i, E i = true → takesUpdates i = true)
    (hlinks : s'.links = s.links.closeAll System.isLogon) :
    flying E s' oper k f = flying E s oper k f := by
  rw [flying, flying, hlinks]
  refine Links.mail_closeAll_of_not ?_
  intro i m hi
  have hno : E i = false := by
    rw [Bool.eq_false_iff]
    intro hE'
    have htakes := hE i hE'
    unfold takesUpdates at htakes
    unfold System.isLogon at hi
    split at hi <;> simp_all
  rw [hno, Bool.false_and]

theorem flying_clientSend (hE : ∀ i, E i = true → takesUpdates i = true) {p : Nat}
    {m : Tagged Message} (hends : Ends s.links p .client .logonServer)
    (hlinks : s'.links = s.links.send p m) :
    flying E s' oper k f = flying E s oper k f := by
  rw [flying, flying, hlinks]
  cases ht : s.links.target p with
  | none => rw [Links.mail_send_lost ht]
  | some q =>
    obtain ⟨e₀, e, he₀, rfl, -, he, -⟩ := Links.target_eq_some ht
    have hrole := (hends.peer he₀).1.role_eq (Links.label_of_getElem? he)
    have hno : E e.info = false := by
      rw [Bool.eq_false_iff]
      intro hE'
      have htakes := hE _ hE'
      simp [takesUpdates, hrole] at htakes
    rw [Links.mail_send_target ht he, hno]
    rfl

end

/-! ## Steps -/

/-- What a step can do to the registry. -/
inductive Change (s : System nk nf) : Action nk nf → System nk nf → Prop
  /-- A message that is not for the registry. -/
  | message {p : Nat} {rand : Int32} {e : Endpoint (Info nk nf) (Tagged Message)}
      {m : Tagged Message} {l : Links (Info nk nf) (Tagged Message)} {s₁ : System nk nf}
      {es : List Effect} (hr : s.links.receive p = some (e, m, l))
      (hm : takesUpdates e.info = false ∨ updateIn m.val = none) (hview : s₁.view = s.view)
      (hlinks : s₁.links = l) (hes : ∀ e ∈ es, Plain l e) :
      Change s (.deliver p rand) (s₁.applyAll m.cause es)
  | update {p : Nat} {rand : Int32} {e : Endpoint (Info nk nf) (Tagged Message)}
      {m : Tagged Message} {l : Links (Info nk nf) (Tagged Message)} {s' : System nk nf}
      {u : UpdateForwardConns} (hr : s.links.receive p = some (e, m, l))
      (hrole : e.info.role = .hubServer) (hm : m.val = .hubKeeperUpdateForwardConns u)
      (hview : s'.view = { s.view with
        lists := (s.hub.onHubKeeperUpdateForwardConns u).1.forwards })
      (hlinks : s'.links = l) : Change s (.deliver p rand) s'
  | query {p : Nat} {rand : Int32} {e : Endpoint (Info nk nf) (Tagged Message)}
      {m : Tagged Message} {l : Links (Info nk nf) (Tagged Message)} {s₁ : System nk nf}
      {j : Fin nk} {q : KeeperQuery} {c : ServerConfig} {start : UInt16 → Bool}
      (hr : s.links.receive p = some (e, m, l)) (hrole : e.info.role = .keeperServer j)
      (hends : ∃ i, Ends l p (.keeperServer j) (.forwardKeeper i))
      (hm : m.val = .keeperQuery q)
      (hc : (s.keepers j).serverConfig_.find? ((s.keepers j).matchesQuery (e.info.conn p) q) =
        some c)
      (hnew : s.view.started j c.id = false)
      (hstart : ∀ f, start f = (s.view.started j f || decide (f = c.id)))
      (hview : s₁.view = { s.view with started := Function.update s.view.started j start })
      (hlinks : s₁.links = l) :
      Change s (.deliver p rand) (s₁.applyAll m.cause
        (.send p (.keeperAnswer ((s.keepers j).answer c)) ::
          (s.keepers j).sendToHub (.hubKeeperUpdateForwardConns ((s.keepers j).addMessage c))))
  | relay {p : Nat} {rand : Int32} {e : Endpoint (Info nk nf) (Tagged Message)}
      {m : Tagged Message} {l : Links (Info nk nf) (Tagged Message)} {s₁ : System nk nf}
      {j : Fin nk} {u : UpdateForwardConns} (hr : s.links.receive p = some (e, m, l))
      (hrole : e.info.role = .keeperServer j) (hm : m.val = .keeperForwardUpdateForwardConns u)
      (hview : s₁.view = s.view) (hlinks : s₁.links = l) :
      Change s (.deliver p rand)
        (s₁.applyAll m.cause ((s.keepers j).sendToHub (.hubKeeperUpdateForwardConns u)))
  | answer {p : Nat} {rand : Int32} {e : Endpoint (Info nk nf) (Tagged Message)}
      {m : Tagged Message} {l : Links (Info nk nf) (Tagged Message)} {s₁ : System nk nf}
      {i : Fin nf} {a : KeeperAnswer} (hr : s.links.receive p = some (e, m, l))
      (hrole : e.info.role = .forwardKeeper i) (hm : m.val = .keeperAnswer a)
      (hview : s₁.view = { s.view with
        identity := Function.update s.view.identity i
          (some (a.keeperserverid.toUInt16, a.serverid.toUInt16, 0)) })
      (hlinks : s₁.links = l) :
      Change s (.deliver p rand) (s₁.applyAll m.cause ((s.forwards i).onAnswer a).2)
  /-- A client of a forward server comes or goes. -/
  | clients {a : Action nk nf} {s₁ : System nk nf} {i : Fin nf} {f : ForwardServer}
      {oper : Operation} {n : Nat} (hf : (s.forwards i).forwardServer_ = some f)
      (hoper : (oper = .INC ∧ n = f.clients + 1) ∨ (oper = .DEC ∧ f.clients = n + 1))
      (hview : s₁.view = { s.view with
        identity := Function.update s.view.identity i
          (some (f.keeperServerID_, f.serverID_, n)) })
      (hlinks : s₁.links = s.links) :
      Change s a (s₁.applyAll none ((s.forwards i).onForwardConnection f oper))
  | clientSend {p : Nat} {m : Tagged Message} {a : Action nk nf} {s' : System nk nf}
      (hends : Ends s.links p .client .logonServer) (hview : s'.view = s.view)
      (hlinks : s'.links = s.links.send p m) : Change s a s'
  | internal {a : Action nk nf} {cause : Option Request} {s₁ : System nk nf} {es : List Effect}
      (hview : s₁.view = s.view) (hlinks : s₁.links = s.links)
      (hes : ∀ e ∈ es, Plain s.links e) : Change s a (s₁.applyAll cause es)
  | connect {a : Action nk nf} {s₁ : System nk nf} {i i' : Info nk nf} {es : List Effect}
      (hroles : (i.role = .client ∧ i'.role = .logonServer) ∨
        (i.role = .logonHub ∧ i'.role = .hubServer))
      (hview : s₁.view = s.view) (hlinks : s₁.links = s.links.connect i i')
      (hes : ∀ e ∈ es, Plain s₁.links e) : Change s a (s₁.applyAll none es)
  | connectHub {j : Fin nk} {s₁ : System nk nf} {es : List Effect}
      (hnone : s.view.hubConn j = none)
      (hview : s₁.view = { s.view with
        hubConn := Function.update s.view.hubConn j (some s.links.length) })
      (hlinks : s₁.links = s.links.connect (.unnamed (.keeperHub j)) (.unnamed .hubServer))
      (hes : ∀ e ∈ es, Plain s₁.links e) : Change s (.keeperConnectHub j) (s₁.applyAll none es)
  | connectKeeper {i : Fin nf} {j : Fin nk} {ip : String} {b : Info nk nf} {s₁ : System nk nf}
      {es : List Effect} (hnone : s.view.conn i = none) (hb : b.role = .keeperServer j)
      (hview : s₁.view = { s.view with
        conn := Function.update s.view.conn i (some s.links.length) })
      (hlinks : s₁.links = s.links.connect (.unnamed (.forwardKeeper i)) b)
      (hes : ∀ e ∈ es, Plain s₁.links e) :
      Change s (.forwardConnectKeeper i j ip) (s₁.applyAll none es)
  | down {p : Nat} {e : Endpoint (Info nk nf) (Tagged Message)} {s' : System nk nf}
      (he : s.links[p]? = some e)
      (hrole : e.info.role = .client ∨ e.info.role = .logonServer ∨ e.info.role = .logonHub ∨
        e.info.role = .hubServer)
      (hview : s'.view = s.view) (hlinks : s'.links = s.links.close p) : Change s (.down p) s'
  | downKeeperHub {p : Nat} {e : Endpoint (Info nk nf) (Tagged Message)} {s' : System nk nf}
      {j : Fin nk} (he : s.links[p]? = some e) (hrole : e.info.role = .keeperHub j)
      (hview : s'.view = { s.view with hubConn := Function.update s.view.hubConn j none })
      (hlinks : s'.links = s.links.close p) : Change s (.down p) s'
  | downKeeper {p : Nat} {e : Endpoint (Info nk nf) (Tagged Message)} {s₁ : System nk nf}
      {j : Fin nk} {start : UInt16 → Bool} {es : List Effect} (he : s.links[p]? = some e)
      (hrole : e.info.role = .keeperServer j)
      (hview : s₁.view = { s.view with started := Function.update s.view.started j start })
      (hlinks : s₁.links = s.links.close p)
      (hes : es = [] ∨ ∃ d, es = (s.keepers j).sendToHub
        (.hubKeeperUpdateForwardConns ((s.keepers j).removeMessage d))) :
      Change s (.down p) (s₁.applyAll none es)
  | downForward {p : Nat} {e : Endpoint (Info nk nf) (Tagged Message)} {s' : System nk nf}
      {i : Fin nf} (he : s.links[p]? = some e) (hrole : e.info.role = .forwardKeeper i)
      (hview : s'.view = { s.view with conn := Function.update s.view.conn i none })
      (hlinks : s'.links = s.links.close p) : Change s (.down p) s'
  | lose {p : Nat} {e : Endpoint (Info nk nf) (Tagged Message)} {m : Tagged Message}
      {l : Links (Info nk nf) (Tagged Message)} {s' : System nk nf}
      (hl : s.links.lose p = some (e, m, l)) (hview : s'.view = s.view) (hlinks : s'.links = l) :
      Change s (.lose p) s'
  | restartLogon {s' : System nk nf} (hview : s'.view = s.view)
      (hlinks : s'.links = s.links.closeAll System.isLogon) : Change s .restartLogon s'
  | restartHub {s' : System nk nf} (hview : s'.view = { s.view with lists := fun _ => [] })
      (hlinks : s'.links = s.links.closeAll System.isHub) : Change s .restartHub s'

section

variable {s s' : System nk nf}

theorem plain_nil {l : Links (Info nk nf) (Tagged Message)} :
    ∀ e ∈ ([] : List Effect), Plain l e := by
  intro e he
  cases he

theorem plain_sendTo {l : Links (Info nk nf) (Tagged Message)} {conn : Option Nat} {m : Message}
    (hu : updateIn m = none) (ha : isAnswer m = false) : ∀ e ∈ sendTo conn m, Plain l e := by
  intro e he
  obtain ⟨p, -, rfl⟩ := mem_sendTo.mp he
  exact ⟨hu, ha⟩

theorem plain_shutdown {l : Links (Info nk nf) (Tagged Message)} {p q : Nat} {i : Info nk nf}
    (hl : l.label p = some (i, q)) (hi : i.role = .logonServer ∨ ∃ j, i.role = .keeperServer j) :
    ∀ e ∈ [Effect.shutdown p], Plain l e := by
  intro e he
  rw [List.mem_singleton.mp he]
  intro i' q' hl'
  rw [hl] at hl'
  cases hl'
  exact hi

theorem plain_shutdownConn (hw : Wired s) (n : String) :
    ∀ e ∈ s.logon.shutdownConn n, Plain s.links e := by
  unfold LogonServer.shutdownConn
  split
  · rename_i p hp
    obtain ⟨hends, i, q, hl, -⟩ := hw.logon.clientConns n p hp
    exact plain_shutdown hl (Or.inl (hends.role_eq hl))
  · exact plain_nil

theorem plain_queryLogonAccount (hw : Wired s) (t : Task) (result : QueryResult) :
    ∀ e ∈ s.logon.queryLogonAccount t result, Plain s.links e := by
  unfold LogonServer.queryLogonAccount
  split
  · exact plain_nil
  · split
    · intro e he
      rcases List.mem_cons.mp he with rfl | he
      · trivial
      · exact plain_sendTo rfl rfl e he
    · intro e he
      rcases List.mem_append.mp he with he | he
      · exact plain_sendTo rfl rfl e he
      · exact plain_shutdownConn hw _ e he

/-! ### Messages -/

section

variable {p : Nat} {rand : Int32} {e : Endpoint (Info nk nf) (Tagged Message)}
  {m : Tagged Message} {l : Links (Info nk nf) (Tagged Message)}
  (hr : s.links.receive p = some (e, m, l))

include hr

theorem label_received : l.label p = some (e.info, e.peer) := by
  obtain ⟨he, -⟩ := Links.receive_eq_some hr
  rw [Links.label_receive hr]
  exact Links.label_of_getElem? he

theorem change_logon (hrole : e.info.role = .logonServer) :
    Change s (.deliver p rand)
      ({ s with links := l }.withLogon m.cause (s.logon.onMessage (e.info.conn p) m.val)) := by
  have hm : takesUpdates e.info = false ∨ updateIn m.val = none :=
    Or.inl (by simp [takesUpdates, hrole])
  unfold LogonServer.onMessage
  split
  · refine .message hr hm rfl rfl ?_
    intro x hx
    rw [List.mem_singleton.mp hx]
    trivial
  · exact .message hr hm rfl rfl (plain_shutdown (label_received hr) (Or.inl hrole))

theorem change_logonHub {R' : Role nk nf} (hrole : e.info.role = .logonHub)
    (hm : fits .logonHub R' m.val = true) :
    Change s (.deliver p rand) ({ s with links := l }.withLogon m.cause
      (s.logon.onHubClientMessage (e.info.conn p) m.val)) := by
  have hno : takesUpdates e.info = false ∨ updateIn m.val = none :=
    Or.inl (by simp [takesUpdates, hrole])
  unfold LogonServer.onHubClientMessage
  split
  · exact .message hr hno rfl rfl (plain_sendTo rfl rfl)
  · cases R' with
    | hubServer => cases hv : m.val <;> simp_all [fits]
    | _ => simp [fits] at hm

theorem change_hub {R' : Role nk nf} (hrole : e.info.role = .hubServer)
    (hm : fits .hubServer R' m.val = true) :
    Change s (.deliver p rand)
      ({ s with links := l }.withHub m.cause (s.hub.onMessage (e.info.conn p) m.val)) := by
  unfold HubServer.onMessage
  split
  · rename_i u hu
    exact .update hr hrole hu rfl rfl
  · rename_i q hq
    refine .message hr (Or.inr (by rw [hq]; rfl)) ?_ rfl ?_
    · dsimp only [HubServer.onHubLogonQueryForwardID]
      split <;> rfl
    · dsimp only [HubServer.onHubLogonQueryForwardID]
      split
      · exact plain_sendTo rfl rfl
      · exact plain_nil
  · rename_i d hd
    refine .message hr (Or.inr (by rw [hd]; rfl)) ?_ rfl ?_
    · unfold HubServer.onHubConnectionData
      split
      · rfl
      · split <;> rfl
    · unfold HubServer.onHubConnectionData
      split
      · exact plain_nil
      · split <;> exact plain_nil
  · rename_i q hq
    exact .message hr (Or.inr (by rw [hq]; rfl)) rfl rfl (plain_sendTo rfl rfl)
  · -- the keepers and the logon server send nothing else
    cases R' with
    | logonHub => cases hv : m.val <;> simp_all [fits]
    | keeperHub j => cases hv : m.val <;> simp_all [fits]
    | _ => simp [fits] at hm

theorem change_keeperHub {j : Fin nk} (hrole : e.info.role = .keeperHub j) :
    Change s (.deliver p rand)
      ({ s with links := l }.withKeeper j m.cause ((s.keepers j).onHubMessage m.val)) := by
  have hno : takesUpdates e.info = false ∨ updateIn m.val = none :=
    Or.inl (by simp [takesUpdates, hrole])
  unfold KeeperServer.onHubMessage
  split
  · exact .message hr hno (view_keeper_same rfl rfl rfl rfl rfl rfl) rfl
      (plain_sendTo rfl rfl)
  · exact .message hr hno (view_keeper_same rfl rfl rfl rfl rfl rfl) rfl plain_nil

theorem change_keeper {j : Fin nk} {f : Fin nf} (hrole : e.info.role = .keeperServer j)
    (hends : Ends l p (.keeperServer j) (.forwardKeeper f))
    (hm : fits (.keeperServer j : Role nk nf) (.forwardKeeper f) m.val = true) :
    Change s (.deliver p rand) ({ s with links := l }.withKeeper j m.cause
      ((s.keepers j).onMessage (e.info.conn p) m.val)) := by
  unfold KeeperServer.onMessage
  split
  · rename_i q hq
    obtain ⟨hid, hhub⟩ := (s.keepers j).onQuery_frame (e.info.conn p) q
    obtain ⟨c, hc, hnew, hstart, heff⟩ | heq := (s.keepers j).onQuery_started (e.info.conn p) q
    · unfold System.withKeeper
      rw [heff]
      exact .query hr hrole ⟨f, hends⟩ hq hc hnew hstart (view_started rfl rfl rfl hid hhub) rfl
    · rw [heq]
      exact .message hr (Or.inr (by rw [hq]; rfl))
        (view_keeper_same rfl rfl rfl rfl rfl rfl) rfl
        (plain_shutdown (label_received hr) (Or.inr ⟨j, hrole⟩))
  · rename_i q hq
    exact .message hr (Or.inr (by rw [hq]; rfl))
      (view_keeper_same rfl rfl rfl rfl rfl rfl) rfl (plain_sendTo rfl rfl)
  · rename_i u hu
    exact .relay hr hrole hu (view_keeper_same rfl rfl rfl rfl rfl rfl) rfl
  · cases hv : m.val <;> simp_all [fits]

theorem change_forward {i : Fin nf} {R' : Role nk nf} (hrole : e.info.role = .forwardKeeper i)
    (hm : fits (.forwardKeeper i) R' m.val = true) :
    Change s (.deliver p rand) ({ s with links := l }.withForward i m.cause
      ((s.forwards i).onMessage (e.info.conn p) rand m.val)) := by
  have hno : takesUpdates e.info = false ∨ updateIn m.val = none :=
    Or.inl (by simp [takesUpdates, hrole])
  unfold KeeperClient.onMessage
  split
  · rename_i a ha
    exact .answer hr hrole ha
      (view_identity s i ((s.forwards i).onAnswer a).1 rfl rfl rfl rfl) rfl
  · unfold KeeperClient.onKeeperForwardLogonSession
    split
    · rename_i f hf
      refine .message hr hno ?_ rfl ?_
      · refine view_forward_same rfl rfl rfl rfl ?_
        show identity _ = identity (s.forwards i)
        simp [identity, hf, ForwardServer.addLogonSession]
      · intro x hx
        rcases List.mem_cons.mp hx with rfl | hx
        · trivial
        · exact plain_sendTo rfl rfl x hx
    · refine .message hr hno (view_forward_same rfl rfl rfl rfl rfl) rfl ?_
      intro x hx
      rw [List.mem_singleton.mp hx]
      trivial
  · cases R' with
    | keeperServer j => cases hv : m.val <;> simp_all [fits]
    | _ => simp [fits] at hm

end

theorem change_deliver (hw : Wired s) {p : Nat} {rand : Int32} (hs : s.deliver p rand = some s') :
    Change s (.deliver p rand) s' := by
  unfold System.deliver at hs
  split at hs
  · rename_i e m l hr
    obtain rfl := Option.some.inj hs
    obtain ⟨hl, R', hends, hm⟩ := hw.receive hr
    unfold System.onMessage
    split
    · rename_i hi
      have hview : ({ s with links := l } : System nk nf).view = s.view := rfl
      exact .message hr (Or.inl (by simp [takesUpdates, hi])) hview rfl plain_nil
    · rename_i hi
      exact change_logon hr hi
    · rename_i hi
      rw [hi] at hm
      exact change_logonHub hr hi hm
    · rename_i hi
      rw [hi] at hm
      exact change_hub hr hi hm
    · rename_i j hi
      exact change_keeperHub hr hi
    · rename_i j hi
      rw [hi] at hends hm
      cases R' with
      | forwardKeeper f => exact change_keeper hr hi hends hm
      | _ => simp [fits] at hm
    · rename_i f hi
      rw [hi] at hm
      exact change_forward hr hi hm
  · cases hs

theorem change_down {p : Nat} (hs : s.down p = some s') : Change s (.down p) s' := by
  unfold System.down at hs
  split at hs
  · rename_i e he
    split at hs
    · cases hs
    · obtain rfl := Option.some.inj hs
      unfold System.onDown
      split
      · rename_i hi
        exact .down he (Or.inl hi) rfl rfl
      · rename_i hi
        exact .down he (Or.inr (Or.inl hi)) rfl rfl
      · rename_i hi
        exact .down he (Or.inr (Or.inr (Or.inl hi))) rfl rfl
      · rename_i hi
        unfold HubServer.onConnection
        split
        · exact .down he (Or.inr (Or.inr (Or.inr hi))) rfl rfl
        · exact .down he (Or.inr (Or.inr (Or.inr hi))) rfl rfl
      · rename_i j hi
        exact .downKeeperHub he hi
          (view_hubConn s j (s.keepers j).onHubConnectionDown.1 rfl rfl rfl rfl rfl) rfl
      · rename_i j hi
        obtain ⟨hid, hhub, -⟩ := (s.keepers j).onConnection_frame (e.info.conn p)
        refine .downKeeper he hi (view_started rfl rfl rfl hid hhub) rfl ?_
        · obtain ⟨d, -, -, -, -, -, heff⟩ | ⟨-, -, heff⟩ :=
            (s.keepers j).onConnection_cases (e.info.conn p)
          · exact Or.inr ⟨d, heff⟩
          · exact Or.inl heff
      · rename_i i hi
        exact .downForward he hi
          (view_conn s i (s.forwards i).onConnectionDown.1 rfl rfl rfl rfl) rfl
  · cases hs

/-! ### Connections -/

theorem plain_greet {l : Links (Info nk nf) (Tagged Message)} {p : Nat} {m : Message}
    (hu : updateIn m = none) (ha : isAnswer m = false) : ∀ e ∈ [Effect.send p m], Plain l e := by
  intro e he
  rw [List.mem_singleton.mp he]
  exact ⟨hu, ha⟩

theorem change_keeperConnectHub {j : Fin nk} (hs : s.keeperConnectHub j = some s') :
    Change s (.keeperConnectHub j) s' := by
  unfold System.keeperConnectHub at hs
  split at hs
  · rename_i hnone
    obtain rfl := Option.some.inj hs
    exact .connectHub hnone (view_hubConn s j ((s.keepers j).onHubConnectionUp
      ((Info.unnamed (.keeperHub j) : Info nk nf).conn s.links.length)).1 rfl rfl rfl rfl rfl) rfl
      (plain_greet rfl rfl)
  · cases hs

theorem change_forwardConnectKeeper {i : Fin nf} {j : Fin nk} {ip : String}
    (hs : s.forwardConnectKeeper i j ip = some s') :
    Change s (.forwardConnectKeeper i j ip) s' := by
  unfold System.forwardConnectKeeper at hs
  split at hs
  · rename_i hnone
    obtain rfl := Option.some.inj hs
    refine .connectKeeper (b := ⟨.keeperServer j, (s.keepers j).server_.newConnection.1, ip⟩) hnone
      rfl ?_ rfl (plain_greet rfl rfl)
    -- first the keeper counts the connection, then the forward server's table changes
    have hserver : ({ s with keepers := Function.update s.keepers j { s.keepers j with
        server_ := (s.keepers j).server_.newConnection.2 } } : System nk nf).view = s.view :=
      view_server _ rfl rfl rfl
    rw [← hserver]
    exact view_conn _ i ((s.forwards i).onConnectionUp
      ((Info.unnamed (.forwardKeeper i) : Info nk nf).conn s.links.length)).1 rfl rfl rfl rfl
  · cases hs

theorem step_change (hw : Wired s) {a : Action nk nf} (hs : s.step a = some s') :
    Change s a s' := by
  unfold System.step at hs
  split at hs
  · obtain rfl := Option.some.inj hs
    exact .connect (Or.inl ⟨rfl, rfl⟩) rfl rfl plain_nil
  · unfold System.clientSend at hs
    split at hs
    · rename_i e he
      split at hs
      · rename_i hc
        obtain rfl := Option.some.inj hs
        exact .clientSend (hw.clients _ _ _ (Links.label_of_getElem? he) hc.1) rfl rfl
      · cases hs
    · cases hs
  · exact change_deliver hw hs
  · exact change_down hs
  · obtain ⟨e, m, l, hl, rfl⟩ := System.lose_eq_some hs
    exact .lose hl rfl rfl
  · unfold System.runTask at hs
    split at hs
    · rename_i t ht
      obtain rfl := Option.some.inj hs
      exact .internal rfl rfl (plain_queryLogonAccount hw _ _)
    · cases hs
  · unfold System.logonConnectHub at hs
    split at hs
    · obtain rfl := Option.some.inj hs
      exact .connect (Or.inr ⟨rfl, rfl⟩) rfl rfl (plain_greet rfl rfl)
    · cases hs
  · exact change_keeperConnectHub hs
  · exact change_forwardConnectKeeper hs
  · rename_i i
    obtain ⟨r, hr, rfl⟩ := Option.map_eq_some_iff.mp hs
    obtain ⟨f, hf, rfl⟩ := Option.map_eq_some_iff.mp hr
    exact .clients hf (Or.inl ⟨rfl, rfl⟩) (view_identity s i
      { s.forwards i with forwardServer_ := some { f with clients := f.clients + 1 } } rfl rfl rfl
      rfl) rfl
  · rename_i i
    obtain ⟨r, hr, rfl⟩ := Option.map_eq_some_iff.mp hs
    unfold KeeperClient.onClientDown at hr
    split at hr
    · rename_i f hf
      split at hr
      · rename_i hpos
        obtain rfl := Option.some.inj hr
        exact .clients (n := f.clients - 1) hf (Or.inr ⟨rfl, by omega⟩)
          (view_identity s i { s.forwards i with
            forwardServer_ := some { f with clients := f.clients - 1 } } rfl rfl rfl rfl) rfl
      · cases hr
    · cases hr
  · rename_i i uid session
    obtain ⟨k, hk, rfl⟩ := Option.map_eq_some_iff.mp hs
    obtain ⟨f, hf, rfl⟩ := Option.map_eq_some_iff.mp hk
    refine .internal (view_forward_same rfl rfl rfl rfl ?_) rfl plain_nil
    simp [identity, hf, ForwardServer.checkLogonForwardSession]
  · obtain rfl := Option.some.inj hs
    exact .restartLogon rfl rfl
  · obtain rfl := Option.some.inj hs
    exact .restartHub rfl rfl

end

/-! ## Where messages under way come from -/

/-- The hub's end of the connection that the keeper `j` uses. -/
def HubEnd (s : System nk nf) (j : Fin nk) (q : Nat) : Prop :=
  ∃ p i, s.view.hubConn j = some p ∧ s.links.label p = some (i, q)

/-- The answers and updates that a step from `s` to `s'` puts under way, and to which end. -/
inductive Sent (s : System nk nf) (a : Action nk nf) (s' : System nk nf) : Nat → Message → Prop
  | answer {q : Nat} {j : Fin nk} {i : Fin nf} {c : ServerConfig}
      (hends : Ends s.links q (.forwardKeeper i) (.keeperServer j))
      (hstart : s'.view.started j c.id = true) :
      Sent s a s' q (.keeperAnswer ((s.keepers j).answer c))
  | add {q : Nat} {j : Fin nk} {c : ServerConfig} (hhub : HubEnd s j q) :
      Sent s a s' q (.hubKeeperUpdateForwardConns ((s.keepers j).addMessage c))
  | relay {p q : Nat} {j : Fin nk} {e : Endpoint (Info nk nf) (Tagged Message)}
      {m : Tagged Message} {u : UpdateForwardConns} (hhub : HubEnd s j q)
      (he : s.links[p]? = some e) (hrole : e.info.role = .keeperServer j) (hin : m ∈ e.inbox)
      (hm : m.val = .keeperForwardUpdateForwardConns u) :
      Sent s a s' q (.hubKeeperUpdateForwardConns u)
  | report {p q : Nat} {i : Fin nf} {i' : Info nk nf} {f : ForwardServer} {oper : Operation}
      (hf : (s.forwards i).forwardServer_ = some f) (hconn : s.view.conn i = some p)
      (hl : s.links.label p = some (i', q)) (hoper : oper = .INC ∨ oper = .DEC) :
      Sent s a s' q (.keeperForwardUpdateForwardConns (f.updateMessage oper))
  | remove {p q : Nat} {j : Fin nk} {e : Endpoint (Info nk nf) (Tagged Message)} {d : ServerStart}
      (ha : a = .down p) (he : s.links[p]? = some e) (hrole : e.info.role = .keeperServer j)
      (hhub : HubEnd s j q) :
      Sent s a s' q (.hubKeeperUpdateForwardConns ((s.keepers j).removeMessage d))

/-- A message under way to `q` was so before, or is no answer and no update, or is a client's, or
    the step has sent it. -/
def Explained (s : System nk nf) (a : Action nk nf) (s' : System nk nf) (q : Nat)
    (i : Info nk nf) (m : Tagged Message) : Prop :=
  (∃ e, s.links[q]? = some e ∧ m ∈ e.inbox) ∨
    (updateIn m.val = none ∧ isAnswer m.val = false) ∨ i.role = .logonServer ∨
    Sent s a s' q m.val

section

variable {s s' : System nk nf} {a : Action nk nf}

/-- Effects keep what holds of everything under way, if it holds of what they send. -/
theorem allMail_applyAll {Q : Nat → Info nk nf → Tagged Message → Prop} {cause : Option Request}
    {es : List Effect} (h : Links.AllMail Q s.links)
    (hes : ∀ p m, .send p m ∈ es → ∀ i q i' p', s.links.label p = some (i, q) →
      s.links.label q = some (i', p') → Q q i' ⟨cause, m⟩) :
    Links.AllMail Q (s.applyAll cause es).links := by
  obtain ⟨hmail, -⟩ : Links.AllMail Q (s.applyAll cause es).links ∧
      ∀ p, Links.label (s.applyAll cause es).links p = s.links.label p := by
    apply System.applyAll_induction cause s es
      (P := fun t => Links.AllMail Q t.links ∧ ∀ p, Links.label t.links p = s.links.label p)
    · exact ⟨h, fun _ => rfl⟩
    · rintro t e he ⟨ht, hl⟩
      refine ⟨?_, fun p => by rw [System.apply_label, hl]⟩
      match e, he with
      | .send p m, he =>
        refine ht.send fun q x hq hx => ?_
        obtain ⟨y, -, hy, rfl, -, -, -⟩ := Links.target_eq_some hq
        have hp := Links.label_of_getElem? hy
        have hq := Links.label_of_getElem? hx
        rw [hl] at hp hq
        exact hes p m he _ _ _ _ hp hq
      | .shutdown p, _ => exact ht.shutdown p
      | .put t, _ => exact ht
      | .call c, _ => exact ht
  exact hmail

theorem Plain.explained {l : Links (Info nk nf) (Tagged Message)} {p : Nat} {m : Message}
    (h : Plain l (.send p m)) (q : Nat) (i : Info nk nf) (cause : Option Request) :
    Explained s a s' q i ⟨cause, m⟩ :=
  Or.inr (Or.inl h)

theorem explained_plains {t : System nk nf} {l : Links (Info nk nf) (Tagged Message)}
    {cause : Option Request} {es : List Effect}
    (h : Links.AllMail (Explained s a s') t.links) (hes : ∀ e ∈ es, Plain l e) :
    Links.AllMail (Explained s a s') (t.applyAll cause es).links :=
  allMail_applyAll h fun _ _ hm _ q i' _ _ _ => (hes _ hm).explained q i' cause

theorem explained_sendTo {t : System nk nf} {conn : Option Nat} {m : Message}
    {cause : Option Request} (h : Links.AllMail (Explained s a s') t.links)
    (hm : ∀ p i q, conn = some p → t.links.label p = some (i, q) → Sent s a s' q m) :
    Links.AllMail (Explained s a s') (t.applyAll cause (sendTo conn m)).links := by
  refine allMail_applyAll h fun p m' hp i q i' p' hl _ => ?_
  obtain ⟨p₀, hconn, heq⟩ := mem_sendTo.mp hp
  cases heq
  exact Or.inr (Or.inr (Or.inr (hm p i q hconn hl)))

theorem explained_start : Links.AllMail (Explained s a s') s.links :=
  fun _ e he _ hm => Or.inl ⟨e, he, hm⟩

theorem explained_receive {p : Nat} {e : Endpoint (Info nk nf) (Tagged Message)}
    {m : Tagged Message} {l : Links (Info nk nf) (Tagged Message)} {t : System nk nf}
    (hr : s.links.receive p = some (e, m, l)) (hlinks : t.links = l) :
    Links.AllMail (Explained s a s') t.links := by
  rw [hlinks]
  exact (explained_start.receive hr).1

/-- **Every answer and every update under way has been sent by its keeper or forward server.** -/
theorem Change.explained (h : Change s a s') : Links.AllMail (Explained s a s') s'.links := by
  cases h with
  | message hr hm hview hlinks hes => exact explained_plains (explained_receive hr hlinks) hes
  | update hr hrole hm hview hlinks => exact explained_receive hr hlinks
  | query hr hrole hends hm hc hnew hstart hview hlinks =>
    rename_i p _ _ m l s₁ j _ c start
    refine allMail_applyAll (explained_receive hr hlinks) ?_
    intro p' m' hm' i q i' p'' hl _
    refine Or.inr (Or.inr (Or.inr ?_))
    rw [hlinks] at hl
    rcases List.mem_cons.mp hm' with heq | hm'
    · cases heq
      obtain ⟨f, hends⟩ := hends
      obtain ⟨x, hx, rfl, rfl⟩ := Links.getElem?_of_label hl
      refine .answer ((hends.peer hx).1.mono ?_) ?_
      · intro r y hy
        rwa [Links.label_receive hr] at hy
      · rw [view_applyAll, hview]
        simp [hstart]
    · obtain ⟨p₀, hconn, heq⟩ := mem_sendTo.mp hm'
      cases heq
      rw [Links.label_receive hr] at hl
      exact .add ⟨p', i, hconn, hl⟩
  | relay hr hrole hm hview hlinks =>
    obtain ⟨he, -, rest, hin, -⟩ := Links.receive_eq_some hr
    refine explained_sendTo (explained_receive hr hlinks) fun p i q hconn hl => ?_
    rw [hlinks, Links.label_receive hr] at hl
    exact .relay ⟨p, i, hconn, hl⟩ he hrole (by rw [hin]; exact List.mem_cons_self) hm
  | answer hr hrole hm hview hlinks =>
    rename_i _ _ _ _ _ _ i _
    refine allMail_applyAll (explained_receive hr hlinks) ?_
    intro p' m' hm' i' q _ _ hl _
    unfold KeeperClient.onAnswer at hm'
    dsimp only at hm'
    split at hm'
    · rename_i f hf
      obtain ⟨es, hes, hm'⟩ := List.mem_flatten.mp hm'
      rw [(List.mem_replicate.mp hes).2] at hm'
      obtain ⟨p₀, hconn, heq⟩ := mem_sendTo.mp hm'
      cases heq
      rw [hlinks, Links.label_receive hr] at hl
      exact Or.inr (Or.inr (Or.inr (.report hf hconn hl (Or.inr rfl))))
    · cases hm'
  | clients hf hoper hview hlinks =>
    refine explained_sendTo (hlinks ▸ explained_start) fun p i q hconn hl => ?_
    rw [hlinks] at hl
    exact .report hf hconn hl (hoper.imp And.left And.left)
  | clientSend hends hview hlinks =>
    rw [hlinks]
    refine explained_start.send fun q x hq hx => ?_
    obtain ⟨y, -, hy, rfl, -, -, -⟩ := Links.target_eq_some hq
    exact Or.inr (Or.inr (Or.inl ((hends.peer hy).1.role_eq (Links.label_of_getElem? hx))))
  | internal hview hlinks hes => exact explained_plains (hlinks ▸ explained_start) hes
  | connect hroles hview hlinks hes =>
    exact explained_plains (hlinks ▸ explained_start.connect _ _) hes
  | connectHub hnone hview hlinks hes =>
    exact explained_plains (hlinks ▸ explained_start.connect _ _) hes
  | connectKeeper hnone hb hview hlinks hes =>
    exact explained_plains (hlinks ▸ explained_start.connect _ _) hes
  | down he hrole hview hlinks => exact hlinks ▸ explained_start.close _
  | downKeeperHub he hrole hview hlinks => exact hlinks ▸ explained_start.close _
  | downKeeper he hrole hview hlinks hes =>
    rcases hes with rfl | ⟨d, rfl⟩
    · exact hlinks ▸ explained_start.close _
    · refine explained_sendTo (hlinks ▸ explained_start.close _) fun p i q hconn hl => ?_
      rw [hlinks, Links.label_close] at hl
      exact .remove rfl he hrole ⟨p, i, hconn, hl⟩
  | downForward he hrole hview hlinks => exact hlinks ▸ explained_start.close _
  | lose hl hview hlinks => exact hlinks ▸ explained_start.lose hl
  | restartLogon hview hlinks => exact hlinks ▸ explained_start.closeAll _
  | restartHub hview hlinks => exact hlinks ▸ explained_start.closeAll _

theorem extends_applyAll {l : Links (Info nk nf) (Tagged Message)} {cause : Option Request}
    {es : List Effect} (h : Extends l s.links) : Extends l (s.applyAll cause es).links := by
  intro p x hp
  obtain ⟨-, -, -, -, -, hl⟩ := System.applyAll_frame cause s es
  rw [hl]
  exact h p x hp

/-- An end keeps its role and its peer. -/
theorem Change.extends (h : Change s a s') : Extends s.links s'.links := by
  cases h with
  | message hr hm hview hlinks hes =>
    exact extends_applyAll (hlinks ▸ extends_of_label (Links.label_receive hr))
  | update hr hrole hm hview hlinks => exact hlinks ▸ extends_of_label (Links.label_receive hr)
  | query hr hrole hends hm hc hnew hstart hview hlinks =>
    exact extends_applyAll (hlinks ▸ extends_of_label (Links.label_receive hr))
  | relay hr hrole hm hview hlinks =>
    exact extends_applyAll (hlinks ▸ extends_of_label (Links.label_receive hr))
  | answer hr hrole hm hview hlinks =>
    exact extends_applyAll (hlinks ▸ extends_of_label (Links.label_receive hr))
  | clients hf hoper hview hlinks => exact extends_applyAll (hlinks ▸ Extends.refl _)
  | clientSend hends hview hlinks =>
    exact hlinks ▸ extends_of_label fun r => Links.label_send _ _ r _
  | internal hview hlinks hes => exact extends_applyAll (hlinks ▸ Extends.refl _)
  | connect hroles hview hlinks hes => exact extends_applyAll (hlinks ▸ extends_connect _ _)
  | connectHub hnone hview hlinks hes => exact extends_applyAll (hlinks ▸ extends_connect _ _)
  | connectKeeper hnone hb hview hlinks hes =>
    exact extends_applyAll (hlinks ▸ extends_connect _ _)
  | down he hrole hview hlinks => exact hlinks ▸ extends_of_label fun r => Links.label_close _ _ r
  | downKeeperHub he hrole hview hlinks =>
    exact hlinks ▸ extends_of_label fun r => Links.label_close _ _ r
  | downKeeper he hrole hview hlinks hes =>
    exact extends_applyAll (hlinks ▸ extends_of_label fun r => Links.label_close _ _ r)
  | downForward he hrole hview hlinks =>
    exact hlinks ▸ extends_of_label fun r => Links.label_close _ _ r
  | lose hl hview hlinks => exact hlinks ▸ extends_of_label (Links.label_lose hl)
  | restartLogon hview hlinks =>
    exact hlinks ▸ extends_of_label fun r => Links.label_closeAll _ _ r
  | restartHub hview hlinks =>
    exact hlinks ▸ extends_of_label fun r => Links.label_closeAll _ _ r

/-- What holds of everything under way is kept, if it holds of plain messages, of what clients send
    and of the answers and updates of the step. -/
theorem Change.allMail (h : Change s a s') {Q : Nat → Info nk nf → Tagged Message → Prop}
    (hold : Links.AllMail Q s.links)
    (hplain : ∀ q i m, updateIn m.val = none → isAnswer m.val = false → Q q i m)
    (hlogon : ∀ q i m, i.role = .logonServer → Q q i m)
    (hsent : ∀ q i p m, s'.links.label q = some (i, p) → Sent s a s' q m.val → Q q i m) :
    Links.AllMail Q s'.links := by
  intro q x hx m hm
  obtain ⟨e, he, hin⟩ | ⟨hu, ha⟩ | hi | hs := h.explained q x hx m hm
  · have hl := h.extends q _ (Links.label_of_getElem? he)
    rw [Links.label_of_getElem? hx] at hl
    have hinfo : x.info = e.info := congrArg Prod.fst (Option.some.inj hl)
    exact hinfo ▸ hold q e he m hin
  · exact hplain q x.info m hu ha
  · exact hlogon q x.info m hi
  · exact hsent q x.info x.peer m (Links.label_of_getElem? hx) hs

end

end Mmvx.Cluster
