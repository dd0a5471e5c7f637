/-
  Which ends the servers hold in their tables, and which messages travel where.

  `fits R R' m`: the servers send `m` from an end of role `R'` to its peer of role `R`. A client
  may send the logon server anything. `Wired` says that every table holds ends of the right role,
  and that everything under way fits; it holds in every state that is reached (`wired_reaches`).
-/
import Mmvx.Cluster.Model
import Mmvx.Server.KeeperAllocation

namespace Mmvx.Cluster

open Mmvx.Lib Mmvx.Server

variable {nk nf : Nat}

/-- The end `p` has the role `R`, and its peer the role `R'`. -/
def Ends {μ : Type} (l : Links (Info nk nf) μ) (p : Nat) (R R' : Role nk nf) : Prop :=
  ∃ i q i', l.label p = some (i, q) ∧ l.label q = some (i', p) ∧ i.role = R ∧ i'.role = R'

/-- Every end of `l` is an end of `l'`. -/
def Extends {μ : Type} (l l' : Links (Info nk nf) μ) : Prop :=
  ∀ p x, l.label p = some x → l'.label p = some x

section

variable {μ : Type} {l l' : Links (Info nk nf) μ} {p : Nat} {R R' : Role nk nf}

theorem Extends.refl (l : Links (Info nk nf) μ) : Extends l l := fun _ _ h => h

theorem extends_of_label (h : ∀ p, l'.label p = l.label p) : Extends l l' := by
  intro p x hp
  rw [h]
  exact hp

theorem Ends.mono (h : Ends l p R R') (hl : Extends l l') : Ends l' p R R' := by
  obtain ⟨i, q, i', hp, hq, hr, hr'⟩ := h
  exact ⟨i, q, i', hl p _ hp, hl q _ hq, hr, hr'⟩

/-- The peer of an end. -/
theorem Ends.peer (h : Ends l p R R') {e : Endpoint (Info nk nf) μ} (he : l[p]? = some e) :
    Ends l e.peer R' R ∧ e.info.role = R := by
  obtain ⟨i, q, i', hp, hq, hr, hr'⟩ := h
  rw [Links.label_of_getElem? he] at hp
  cases hp
  exact ⟨⟨i', p, e.info, hq, Links.label_of_getElem? he, hr', hr⟩, hr⟩

theorem Ends.role_eq (h : Ends l p R R') {i : Info nk nf} {q : Nat} (hp : l.label p = some (i, q)) :
    i.role = R := by
  obtain ⟨i₀, q₀, i', hp₀, -, hr, -⟩ := h
  rw [hp] at hp₀
  cases hp₀
  exact hr

theorem ends_connect (a b : Info nk nf) :
    Ends (l.connect a b) l.length a.role b.role ∧
      Ends (l.connect a b) (l.length + 1) b.role a.role := by
  have ha : (l.connect a b).label l.length = some (a, l.length + 1) := by
    simp [Links.label, Links.connect]
  have hb : (l.connect a b).label (l.length + 1) = some (b, l.length) := by
    simp [Links.label, Links.connect]
  exact ⟨⟨a, _, b, ha, hb, rfl, rfl⟩, ⟨b, _, a, hb, ha, rfl, rfl⟩⟩

theorem extends_connect (a b : Info nk nf) : Extends l (l.connect a b) :=
  fun _ _ h => Links.label_connect h

end

/-- The server's message `m` for an end of role `R` comes from a peer of role `R'`. -/
def fits : Role nk nf → Role nk nf → Message → Bool
  | .client, .logonServer, .logonRet _ => true
  | .logonServer, .client, _ => true
  | .logonHub, .hubServer, .hubLogonAnswerForwardID _ => true
  | .hubServer, .logonHub, .hubConnectionData d =>
    d.servertype = SERVER_TYPE_LOGON.toUInt32.toInt32
  | .hubServer, .logonHub, .hubLogonQueryForwardID _ => true
  | .hubServer, .keeperHub _, .hubConnectionData d =>
    d.servertype = SERVER_TYPE_KEEPER.toUInt32.toInt32
  | .hubServer, .keeperHub _, .hubKeeperUpdateForwardConns _ => true
  | .hubServer, .keeperHub _, .hubKeeperLogonSessionRet _ => true
  | .keeperHub _, .hubServer, .hubKeeperLogonSession _ => true
  | .keeperServer _, .forwardKeeper _, .keeperQuery _ => true
  | .keeperServer _, .forwardKeeper _, .keeperForwardUpdateForwardConns _ => true
  | .keeperServer _, .forwardKeeper _, .keeperForwardLogonSessionRet _ => true
  | .forwardKeeper _, .keeperServer _, .keeperAnswer _ => true
  | .forwardKeeper _, .keeperServer _, .keeperForwardLogonSession _ => true
  | _, _, _ => false

/-- An effect of a server sends only what fits, on an end that is not a client's. -/
def Sendable {μ : Type} (l : Links (Info nk nf) μ) : Effect → Prop
  | .send p m => ∃ R R', Ends l p R R' ∧ R ≠ .client ∧ fits R' R m = true
  | _ => True

theorem sendable_sendTo {μ : Type} {l : Links (Info nk nf) μ} {c : Option Nat} {m : Message}
    (h : ∀ p, c = some p → Sendable l (.send p m)) : ∀ e ∈ sendTo c m, Sendable l e := by
  intro e he
  obtain ⟨p, hp, rfl⟩ := mem_sendTo.mp he
  exact h p hp

/-- There is a connection, and it is up. -/
def linkUp (s : System nk nf) : Option Nat → Bool
  | some p => (s.links.target p).isSome
  | none => false

theorem linkUp_eq_true {s : System nk nf} {conn : Option Nat} (h : linkUp s conn = true) :
    ∃ p, conn = some p ∧ (s.links.target p).isSome := by
  match conn, h with
  | some p, h => exact ⟨p, rfl, h⟩

theorem linkUp_congr {s t : System nk nf} (h : ∀ p, t.links.target p = s.links.target p)
    (conn : Option Nat) : linkUp t conn = linkUp s conn := by
  cases conn with
  | none => rfl
  | some p => exact congrArg Option.isSome (h p)

/-! ## The tables of each server -/

section

variable {μ : Type} (l : Links (Info nk nf) μ)

structure LogonOk (s : LogonServer) : Prop where
  clientConns : ∀ n p, s.clientConns_.find n = some p → Ends l p .logonServer .client ∧
    ∃ i q, l.label p = some (i, q) ∧ i.name = n
  hubConn : ∀ p, s.hubConn_ = some p → Ends l p .logonHub .hubServer

structure HubOk (s : HubServer) : Prop where
  logonConn : ∀ p, s.logonConn_ = some p → Ends l p .hubServer .logonHub
  keeperConns : ∀ k p, s.keeperConns_.find k = some p → ∃ j, Ends l p .hubServer (.keeperHub j)

structure KeeperOk (j : Fin nk) (s : KeeperServer) : Prop where
  hubConn : ∀ p, s.hubConn_ = some p → Ends l p (.keeperHub j) .hubServer
  conns : ∀ f p, s.conns_.find f = some p → ∃ i, Ends l p (.keeperServer j) (.forwardKeeper i)

def ForwardOk (i : Fin nf) (s : KeeperClient) : Prop :=
  ∀ p, s.conn_ = some p → ∃ j, Ends l p (.forwardKeeper i) (.keeperServer j)

end

section

variable {μ : Type} {l l' : Links (Info nk nf) μ}

theorem LogonOk.mono {s : LogonServer} (h : LogonOk l s) (hl : Extends l l') : LogonOk l' s := by
  refine ⟨?_, fun p hp => (h.hubConn p hp).mono hl⟩
  intro n p hp
  obtain ⟨hends, i, q, hi, hn⟩ := h.clientConns n p hp
  exact ⟨hends.mono hl, i, q, hl p _ hi, hn⟩

theorem HubOk.mono {s : HubServer} (h : HubOk l s) (hl : Extends l l') : HubOk l' s := by
  refine ⟨fun p hp => (h.logonConn p hp).mono hl, ?_⟩
  intro k p hp
  obtain ⟨j, hj⟩ := h.keeperConns k p hp
  exact ⟨j, hj.mono hl⟩

theorem KeeperOk.mono {j : Fin nk} {s : KeeperServer} (h : KeeperOk l j s) (hl : Extends l l') :
    KeeperOk l' j s := by
  refine ⟨fun p hp => (h.hubConn p hp).mono hl, ?_⟩
  intro f p hp
  obtain ⟨i, hi⟩ := h.conns f p hp
  exact ⟨i, hi.mono hl⟩

theorem ForwardOk.mono {i : Fin nf} {s : KeeperClient} (h : ForwardOk l i s) (hl : Extends l l') :
    ForwardOk l' i s := by
  intro p hp
  obtain ⟨j, hj⟩ := h p hp
  exact ⟨j, hj.mono hl⟩

end

/-! ## What each callback keeps -/

section

variable {μ : Type} {l : Links (Info nk nf) μ}

theorem sendable_of_ends {p : Nat} {R R' : Role nk nf} {m : Message} (h : Ends l p R R')
    (hR : R ≠ .client) (hm : fits R' R m = true) : Sendable l (.send p m) :=
  ⟨R, R', h, hR, hm⟩

theorem sendable_nil : ∀ e ∈ ([] : List Effect), Sendable l e := by
  intro e he
  cases he

theorem sendable_shutdown (p : Nat) : ∀ e ∈ [Effect.shutdown p], Sendable l e := by
  intro e he
  rw [List.mem_singleton.mp he]
  trivial

theorem LogonOk.sendToClient {s : LogonServer} (h : LogonOk l s) (n : String) (ret : LogonRet) :
    ∀ e ∈ s.sendToClient n (.logonRet ret), Sendable l e :=
  sendable_sendTo fun p hp => sendable_of_ends (h.clientConns n p hp).1 (by simp) rfl

theorem sendable_shutdownConn (s : LogonServer) (n : String) :
    ∀ e ∈ s.shutdownConn n, Sendable l e := by
  unfold LogonServer.shutdownConn
  split
  · exact sendable_shutdown _
  · exact sendable_nil

theorem LogonOk.onMessage {s : LogonServer} (h : LogonOk l s) (conn : TcpConnection)
    (m : Message) :
    LogonOk l (s.onMessage conn m).1 ∧ ∀ e ∈ (s.onMessage conn m).2, Sendable l e := by
  unfold LogonServer.onMessage
  split
  · refine ⟨h, ?_⟩
    intro e he
    rw [List.mem_singleton.mp he]
    trivial
  · exact ⟨h, sendable_shutdown _⟩

theorem LogonOk.onHubClientMessage {s : LogonServer} (h : LogonOk l s) (conn : TcpConnection)
    (m : Message) : LogonOk l (s.onHubClientMessage conn m).1 ∧
      ∀ e ∈ (s.onHubClientMessage conn m).2, Sendable l e := by
  unfold LogonServer.onHubClientMessage
  split
  · exact ⟨h, h.sendToClient _ _⟩
  · exact ⟨h, sendable_shutdown _⟩

theorem LogonOk.queryLogonAccount {s : LogonServer} (h : LogonOk l s) (t : Task)
    (r : QueryResult) : ∀ e ∈ s.queryLogonAccount t r, Sendable l e := by
  unfold LogonServer.queryLogonAccount
  split
  · exact sendable_nil
  · split
    · intro e he
      rcases List.mem_cons.mp he with rfl | he
      · trivial
      · exact sendable_sendTo (fun p hp => sendable_of_ends (h.hubConn p hp) (by simp) rfl) e he
    · intro e he
      rcases List.mem_append.mp he with he | he
      · exact h.sendToClient _ _ e he
      · exact sendable_shutdownConn s _ e he

theorem LogonOk.onConnectionUp {s : LogonServer} (h : LogonOk l s) {p q : Nat} {i : Info nk nf}
    (hends : Ends l p .logonServer .client) (hp : l.label p = some (i, q)) :
    LogonOk l (s.onConnectionUp (i.conn p)).1 := by
  refine ⟨?_, h.hubConn⟩
  intro n r hr
  have hr : (s.clientConns_.insert i.name p).find n = some r := hr
  rw [OrdMap.find_insert] at hr
  split at hr
  · rename_i hn
    cases hr
    exact ⟨hends, i, q, hp, hn.symm⟩
  · exact h.clientConns n r hr

theorem LogonOk.onConnectionDown {s : LogonServer} (h : LogonOk l s) (conn : TcpConnection) :
    LogonOk l (s.onConnectionDown conn).1 := by
  refine ⟨?_, h.hubConn⟩
  intro n p hp
  have hp : (s.clientConns_.erase conn.name).find n = some p := hp
  rw [OrdMap.find_erase] at hp
  split at hp
  · cases hp
  · exact h.clientConns n p hp

theorem HubOk.onMessage {s : HubServer} (h : HubOk l s) {p : Nat} {i : Info nk nf} {m : Message}
    {R' : Role nk nf} (hends : Ends l p .hubServer R') (hm : fits .hubServer R' m = true) :
    HubOk l (s.onMessage (i.conn p) m).1 ∧ ∀ e ∈ (s.onMessage (i.conn p) m).2, Sendable l e := by
  unfold HubServer.onMessage
  split
  · exact ⟨⟨h.logonConn, h.keeperConns⟩, sendable_nil⟩
  · rename_i q
    unfold HubServer.onHubLogonQueryForwardID
    dsimp only
    split
    · refine ⟨h, sendable_sendTo fun p hp => ?_⟩
      obtain ⟨j, hj⟩ := h.keeperConns _ p hp
      exact sendable_of_ends hj (by simp) rfl
    · exact ⟨h, sendable_nil⟩
  · rename_i d
    unfold HubServer.onHubConnectionData
    split
    · -- a logon server registers
      rename_i ht
      refine ⟨⟨?_, h.keeperConns⟩, sendable_nil⟩
      intro q hq
      cases hq
      cases R' with
      | logonHub => exact hends
      | keeperHub j => exact absurd (ht.symm.trans (by simpa [fits] using hm)) (by decide)
      | _ => simp [fits] at hm
    · split
      · rename_i hne ht
        refine ⟨⟨h.logonConn, ?_⟩, sendable_nil⟩
        intro k q hq
        have hq : (s.keeperConns_.insert d.serverid.toUInt32.toUInt16 p).find k = some q := hq
        rw [OrdMap.find_insert] at hq
        split at hq
        · cases hq
          cases R' with
          | keeperHub j => exact ⟨j, hends⟩
          | logonHub => exact absurd (by simpa [fits] using hm) hne
          | _ => simp [fits] at hm
        · exact h.keeperConns k q hq
      · exact ⟨h, sendable_nil⟩
  · exact ⟨h, sendable_sendTo fun p hp => sendable_of_ends (h.logonConn p hp) (by simp) rfl⟩
  · exact ⟨h, sendable_shutdown _⟩

theorem HubOk.onConnection {s : HubServer} (h : HubOk l s) (conn : TcpConnection) :
    HubOk l (s.onConnection conn).1 ∧ (s.onConnection conn).2 = [] := by
  unfold HubServer.onConnection
  split
  · refine ⟨⟨?_, h.keeperConns⟩, rfl⟩
    intro p hp
    cases hp
  · refine ⟨⟨h.logonConn, ?_⟩, rfl⟩
    intro k p hp
    exact h.keeperConns k p (OrdMap.find_eraseValue_of_some hp)

theorem KeeperOk.sendToHub {j : Fin nk} {s : KeeperServer} (h : KeeperOk l j s) {m : Message}
    (hm : fits (.hubServer : Role nk nf) (.keeperHub j) m = true) :
    ∀ e ∈ s.sendToHub m, Sendable l e :=
  sendable_sendTo fun p hp => sendable_of_ends (h.hubConn p hp) (by simp) hm

theorem KeeperOk.onQuery {j : Fin nk} {s : KeeperServer} (h : KeeperOk l j s) {p : Nat}
    {i : Info nk nf} {f : Fin nf} (hends : Ends l p (.keeperServer j) (.forwardKeeper f))
    (m : KeeperQuery) : KeeperOk l j (s.onQuery (i.conn p) m).1 ∧
      ∀ e ∈ (s.onQuery (i.conn p) m).2, Sendable l e := by
  unfold KeeperServer.onQuery
  split
  · rename_i c hc
    refine ⟨⟨h.hubConn, ?_⟩, ?_⟩
    · intro g q hq
      have hq : (s.conns_.insert c.id p).find g = some q := hq
      rw [OrdMap.find_insert] at hq
      split at hq
      · cases hq
        exact ⟨f, hends⟩
      · exact h.conns g q hq
    · intro e he
      rcases List.mem_cons.mp he with rfl | he
      · exact sendable_of_ends hends (by simp) rfl
      · exact h.sendToHub rfl e he
  · exact ⟨h, sendable_shutdown _⟩

theorem KeeperOk.onMessage {j : Fin nk} {s : KeeperServer} (h : KeeperOk l j s) {p : Nat}
    {i : Info nk nf} {f : Fin nf} (hends : Ends l p (.keeperServer j) (.forwardKeeper f))
    (m : Message) : KeeperOk l j (s.onMessage (i.conn p) m).1 ∧
      ∀ e ∈ (s.onMessage (i.conn p) m).2, Sendable l e := by
  unfold KeeperServer.onMessage
  split
  · exact h.onQuery hends _
  · exact ⟨h, h.sendToHub rfl⟩
  · exact ⟨h, h.sendToHub rfl⟩
  · exact ⟨h, sendable_shutdown _⟩

theorem KeeperOk.onHubMessage {j : Fin nk} {s : KeeperServer} (h : KeeperOk l j s) (m : Message) :
    KeeperOk l j (s.onHubMessage m).1 ∧ ∀ e ∈ (s.onHubMessage m).2, Sendable l e := by
  unfold KeeperServer.onHubMessage
  split
  · refine ⟨h, sendable_sendTo fun p hp => ?_⟩
    obtain ⟨i, hi⟩ := h.conns _ p hp
    exact sendable_of_ends hi (by simp) rfl
  · exact ⟨h, sendable_nil⟩

theorem KeeperOk.onConnection {j : Fin nk} {s : KeeperServer} (h : KeeperOk l j s)
    (conn : TcpConnection) : KeeperOk l j (s.onConnection conn).1 ∧
      ∀ e ∈ (s.onConnection conn).2, Sendable l e := by
  obtain ⟨-, hhub, hconns⟩ := s.onConnection_frame conn
  refine ⟨⟨?_, ?_⟩, ?_⟩
  · rw [hhub]
    exact h.hubConn
  · intro f p hp
    rw [hconns] at hp
    exact h.conns f p (OrdMap.find_eraseValue_of_some hp)
  · obtain ⟨e, -, x, -, -, -, heff⟩ | ⟨-, -, heff⟩ := s.onConnection_cases conn
    · rw [heff]
      exact h.sendToHub rfl
    · rw [heff]
      exact sendable_nil

theorem ForwardOk.sendToKeeper {i : Fin nf} {s : KeeperClient} (h : ForwardOk l i s) {m : Message}
    (hm : ∀ j, fits (.keeperServer j : Role nk nf) (.forwardKeeper i) m = true) :
    ∀ e ∈ s.sendToKeeper m, Sendable l e := by
  refine sendable_sendTo fun p hp => ?_
  obtain ⟨j, hj⟩ := h p hp
  exact sendable_of_ends hj (by simp) (hm j)

theorem ForwardOk.onForwardConnection {i : Fin nf} {s : KeeperClient} (h : ForwardOk l i s)
    (f : ForwardServer) (oper : Operation) :
    ∀ e ∈ s.onForwardConnection f oper, Sendable l e :=
  h.sendToKeeper fun _ => rfl

theorem ForwardOk.onMessage {i : Fin nf} {s : KeeperClient} (h : ForwardOk l i s)
    (conn : TcpConnection) (rand : Int32) (m : Message) :
    ForwardOk l i (s.onMessage conn rand m).1 ∧
      ∀ e ∈ (s.onMessage conn rand m).2, Sendable l e := by
  unfold KeeperClient.onMessage
  split
  · refine ⟨h, ?_⟩
    unfold KeeperClient.onAnswer
    dsimp only
    split
    · intro e he
      obtain ⟨es, hes, he⟩ := List.mem_flatten.mp he
      rw [(List.mem_replicate.mp hes).2] at he
      exact h.onForwardConnection _ _ e he
    · exact sendable_nil
  · unfold KeeperClient.onKeeperForwardLogonSession
    split
    · refine ⟨h, ?_⟩
      intro e he
      rcases List.mem_cons.mp he with rfl | he
      · trivial
      · exact h.sendToKeeper (fun _ => rfl) e he
    · refine ⟨h, ?_⟩
      intro e he
      rw [List.mem_singleton.mp he]
      trivial
  · exact ⟨h, sendable_shutdown _⟩

end

/-- Tables and mail are as they should be. -/
structure Wired (s : System nk nf) : Prop where
  clients : ∀ p i q, s.links.label p = some (i, q) → i.role = .client →
    Ends s.links p .client .logonServer
  mail : Links.AllMail (fun p i m => ∃ R', Ends s.links p i.role R' ∧ fits i.role R' m.val = true)
    s.links
  logon : LogonOk s.links s.logon
  hub : HubOk s.links s.hub
  keepers : ∀ j, KeeperOk s.links j (s.keepers j)
  forwards : ∀ i, ForwardOk s.links i (s.forwards i)

namespace Wired

variable {s : System nk nf}

/-- Only the links change, and nothing gets under way. -/
theorem relink (h : Wired s) {l : Links (Info nk nf) (Tagged Message)} (hl : Extends s.links l)
    (hmail : Links.AllMail
      (fun p i m => ∃ R', Ends s.links p i.role R' ∧ fits i.role R' m.val = true) l)
    (hclients : ∀ p i q, l.label p = some (i, q) → i.role = .client →
      Ends l p .client .logonServer) : Wired { s with links := l } where
  clients := hclients
  mail := hmail.mono fun _ _ _ ⟨R', hends, hm⟩ => ⟨R', hends.mono hl, hm⟩
  logon := h.logon.mono hl
  hub := h.hub.mono hl
  keepers j := (h.keepers j).mono hl
  forwards i := (h.forwards i).mono hl

/-- Only the links change, and no end is added. -/
theorem relabel (h : Wired s) {l : Links (Info nk nf) (Tagged Message)}
    (hl : ∀ p, l.label p = s.links.label p)
    (hmail : Links.AllMail
      (fun p i m => ∃ R', Ends s.links p i.role R' ∧ fits i.role R' m.val = true) l) :
    Wired { s with links := l } := by
  have hext : Extends s.links l := fun p x hp => by rw [hl]; exact hp
  refine h.relink hext hmail ?_
  intro p i q hp hi
  rw [hl] at hp
  exact (h.clients p i q hp hi).mono hext

theorem connect (h : Wired s) (a b : Info nk nf) (ha : a.role = .client → b.role = .logonServer)
    (hb : b.role ≠ .client) : Wired (s.connect a b) := by
  refine h.relink (extends_connect a b) (h.mail.connect a b) ?_
  intro p i q hp hi
  obtain ⟨e, he, rfl, rfl⟩ := Links.getElem?_of_label hp
  obtain he | ⟨rfl, rfl⟩ | ⟨rfl, rfl⟩ := Links.getElem?_connect he
  · exact (h.clients p _ _ (Links.label_of_getElem? he) hi).mono (extends_connect a b)
  · have := (ends_connect (l := s.links) a b).1
    rwa [show a.role = .client from hi, ha hi] at this
  · exact absurd hi hb

theorem receive (h : Wired s) {p : Nat} {e : Endpoint (Info nk nf) (Tagged Message)}
    {m : Tagged Message} {l : Links (Info nk nf) (Tagged Message)}
    (hr : s.links.receive p = some (e, m, l)) :
    Wired { s with links := l } ∧
      ∃ R', Ends l p e.info.role R' ∧ fits e.info.role R' m.val = true := by
  obtain ⟨hmail, R', hends, hm⟩ := h.mail.receive hr
  refine ⟨h.relabel (Links.label_receive hr) hmail, R', hends.mono ?_, hm⟩
  intro p x hp
  rw [Links.label_receive hr]
  exact hp

theorem close (h : Wired s) (p : Nat) : Wired { s with links := s.links.close p } :=
  h.relabel (fun r => Links.label_close s.links p r) (h.mail.close p)

theorem closeAll (h : Wired s) (P : Info nk nf → Bool) :
    Wired { s with links := s.links.closeAll P } :=
  h.relabel (fun r => Links.label_closeAll s.links P r) (h.mail.closeAll P)

/-- A message that fits gets under way. -/
theorem send (h : Wired s) {p : Nat} {R R' : Role nk nf} {m : Tagged Message}
    (hends : Ends s.links p R R') (hm : fits R' R m.val = true) :
    Wired { s with links := s.links.send p m } := by
  refine h.relabel (fun r => Links.label_send s.links p r m) (h.mail.send ?_)
  intro q e hq he
  obtain ⟨e₀, f, he₀, rfl, -, hf, -⟩ := Links.target_eq_some hq
  have hpeer := (hends.peer he₀).1
  have hrole := hpeer.role_eq (Links.label_of_getElem? he)
  exact ⟨R, by rw [hrole]; exact hpeer, by rw [hrole]; exact hm⟩

theorem apply (h : Wired s) (cause : Option Request) {e : Effect} (he : Sendable s.links e) :
    Wired (System.apply cause s e) := by
  cases e with
  | send p m =>
    obtain ⟨R, R', hends, -, hm⟩ := he
    have := h.send (m := ⟨cause, m⟩) hends hm
    exact ⟨this.clients, this.mail, this.logon, this.hub, this.keepers, this.forwards⟩
  | shutdown p =>
    have := h.relabel (fun r => Links.label_shutdown s.links p r) (h.mail.shutdown p)
    exact ⟨this.clients, this.mail, this.logon, this.hub, this.keepers, this.forwards⟩
  | put t => exact ⟨h.clients, h.mail, h.logon, h.hub, h.keepers, h.forwards⟩
  | call c => exact ⟨h.clients, h.mail, h.logon, h.hub, h.keepers, h.forwards⟩

theorem applyAll (h : Wired s) (cause : Option Request) {es : List Effect}
    (hes : ∀ e ∈ es, Sendable s.links e) : Wired (s.applyAll cause es) := by
  induction es generalizing s with
  | nil => exact h
  | cons e es ih =>
    rw [System.applyAll_cons]
    refine ih (h.apply cause (hes e List.mem_cons_self)) ?_
    intro e' he'
    have hs := hes e' (List.mem_cons_of_mem _ he')
    cases e' with
    | send p m =>
      obtain ⟨R, R', hends, hR, hm⟩ := hs
      refine ⟨R, R', hends.mono ?_, hR, hm⟩
      intro p x hp
      rw [System.apply_label]
      exact hp
    | shutdown p => trivial
    | put t => trivial
    | call c => trivial

theorem withLogon (h : Wired s) (cause : Option Request) {r : LogonServer × List Effect}
    (hr : LogonOk s.links r.1 ∧ ∀ e ∈ r.2, Sendable s.links e) : Wired (s.withLogon cause r) :=
  applyAll (s := { s with logon := r.1 }) ⟨h.clients, h.mail, hr.1, h.hub, h.keepers, h.forwards⟩
    cause hr.2

theorem withHub (h : Wired s) (cause : Option Request) {r : HubServer × List Effect}
    (hr : HubOk s.links r.1 ∧ ∀ e ∈ r.2, Sendable s.links e) : Wired (s.withHub cause r) :=
  applyAll (s := { s with hub := r.1 }) ⟨h.clients, h.mail, h.logon, hr.1, h.keepers, h.forwards⟩
    cause hr.2

theorem withKeeper (h : Wired s) (j : Fin nk) (cause : Option Request)
    {r : KeeperServer × List Effect}
    (hr : KeeperOk s.links j r.1 ∧ ∀ e ∈ r.2, Sendable s.links e) :
    Wired (s.withKeeper j cause r) :=
  applyAll (s := { s with keepers := Function.update s.keepers j r.1 })
    ⟨h.clients, h.mail, h.logon, h.hub,
      (Function.forall_update_iff s.keepers fun j k => KeeperOk s.links j k).mpr
        ⟨hr.1, fun j' _ => h.keepers j'⟩, h.forwards⟩ cause hr.2

theorem withForward (h : Wired s) (i : Fin nf) (cause : Option Request)
    {r : KeeperClient × List Effect}
    (hr : ForwardOk s.links i r.1 ∧ ∀ e ∈ r.2, Sendable s.links e) :
    Wired (s.withForward i cause r) :=
  applyAll (s := { s with forwards := Function.update s.forwards i r.1 })
    ⟨h.clients, h.mail, h.logon, h.hub, h.keepers,
      (Function.forall_update_iff s.forwards fun i k => ForwardOk s.links i k).mpr
        ⟨hr.1, fun i' _ => h.forwards i'⟩⟩ cause hr.2

theorem onMessage (h : Wired s) {p : Nat} {i : Info nk nf} {R' : Role nk nf} {m : Tagged Message}
    (hends : Ends s.links p i.role R') (hm : fits i.role R' m.val = true) (rand : Int32) :
    Wired (s.onMessage p i rand m) := by
  unfold System.onMessage
  split
  · exact h
  · exact h.withLogon m.cause (h.logon.onMessage _ _)
  · exact h.withLogon m.cause (h.logon.onHubClientMessage _ _)
  · rename_i hi
    rw [hi] at hends hm
    exact h.withHub m.cause (h.hub.onMessage hends hm)
  · rename_i j hi
    exact h.withKeeper j m.cause ((h.keepers j).onHubMessage _)
  · rename_i j hi
    rw [hi] at hends hm
    refine h.withKeeper j m.cause ?_
    cases R' with
    | forwardKeeper f => exact (h.keepers j).onMessage hends _
    | _ => simp [fits] at hm
  · rename_i f hi
    exact h.withForward f m.cause ((h.forwards f).onMessage _ _ _)

theorem onDown (h : Wired s) (p : Nat) (i : Info nk nf) : Wired (s.onDown p i) := by
  unfold System.onDown
  split
  · exact h
  · exact h.withLogon none ⟨h.logon.onConnectionDown _, sendable_nil⟩
  · refine h.withLogon none ⟨⟨h.logon.clientConns, ?_⟩, sendable_nil⟩
    intro p hp
    cases hp
  · obtain ⟨hok, heff⟩ := h.hub.onConnection (i.conn p)
    exact h.withHub none ⟨hok, by rw [heff]; exact sendable_nil⟩
  · rename_i j hi
    refine h.withKeeper j none ⟨⟨?_, (h.keepers j).conns⟩, sendable_nil⟩
    intro p hp
    cases hp
  · rename_i j hi
    exact h.withKeeper j none ((h.keepers j).onConnection _)
  · rename_i f hi
    refine h.withForward f none ⟨?_, sendable_nil⟩
    intro p hp
    cases hp

theorem clientConnect (h : Wired s) : Wired s.clientConnect := by
  let i : Info nk nf := ⟨.logonServer, s.logon.server_.newConnection.1, ""⟩
  have hc : Wired (s.connect (Info.unnamed .client) i) := h.connect _ _ (fun _ => rfl) (by simp [i])
  have hends := (ends_connect (l := s.links) (Info.unnamed .client) i).2
  have hlogon : LogonOk (s.connect (Info.unnamed .client) i).links
      { s.logon with server_ := s.logon.server_.newConnection.2 } :=
    ⟨hc.logon.clientConns, hc.logon.hubConn⟩
  obtain ⟨i₀, q, i', hp, hq, hr, hr'⟩ := id hends
  have hi : i₀ = i := by
    have hlabel : (s.links.connect (Info.unnamed .client) i).label (s.links.length + 1) =
        some (i, s.links.length) := by simp [Links.label, Links.connect]
    rw [hlabel] at hp
    exact (congrArg Prod.fst (Option.some.inj hp)).symm
  rw [hi] at hp
  exact hc.withLogon none ⟨hlogon.onConnectionUp hends hp, sendable_nil⟩

theorem clientSend (h : Wired s) {s' : System nk nf} {p : Nat} {m : Message}
    (hs : s.clientSend p m = some s') : Wired s' := by
  unfold System.clientSend at hs
  split at hs
  · rename_i e he
    split at hs
    · rename_i hc
      obtain rfl := Option.some.inj hs
      have hends := h.clients p _ _ (Links.label_of_getElem? he) hc.1
      have := h.send (m := ⟨some ⟨e.peer, s.requests⟩, m⟩) hends (by simp [fits])
      exact ⟨this.clients, this.mail, this.logon, this.hub, this.keepers, this.forwards⟩
    · cases hs
  · cases hs

theorem deliver (h : Wired s) {s' : System nk nf} {p : Nat} {rand : Int32}
    (hs : s.deliver p rand = some s') : Wired s' := by
  unfold System.deliver at hs
  split at hs
  · rename_i e m l hr
    obtain rfl := Option.some.inj hs
    obtain ⟨hl, R', hends, hm⟩ := h.receive hr
    exact hl.onMessage hends hm rand
  · cases hs

theorem down (h : Wired s) {s' : System nk nf} {p : Nat} (hs : s.down p = some s') : Wired s' := by
  unfold System.down at hs
  split at hs
  · split at hs
    · cases hs
    · obtain rfl := Option.some.inj hs
      exact (h.close p).onDown p _
  · cases hs

theorem lose (h : Wired s) {s' : System nk nf} {p : Nat} (hs : s.lose p = some s') : Wired s' := by
  obtain ⟨e, m, l, hl, rfl⟩ := System.lose_eq_some hs
  exact h.relabel (Links.label_lose hl) (h.mail.lose hl)

theorem runTask (h : Wired s) {s' : System nk nf} {n : Nat} {result : QueryResult}
    (hs : s.runTask n result = some s') : Wired s' := by
  unfold System.runTask at hs
  split at hs
  · rename_i t ht
    obtain rfl := Option.some.inj hs
    have h' : Wired { s with tasks := s.tasks.eraseIdx n } :=
      ⟨h.clients, h.mail, h.logon, h.hub, h.keepers, h.forwards⟩
    exact h'.applyAll _ (h.logon.queryLogonAccount _ _)
  · cases hs

theorem logonConnectHub (h : Wired s) {s' : System nk nf} (hs : s.logonConnectHub = some s') :
    Wired s' := by
  unfold System.logonConnectHub at hs
  split at hs
  · obtain rfl := Option.some.inj hs
    have hc := h.connect (Info.unnamed .logonHub) (Info.unnamed .hubServer)
      (by simp [Info.unnamed]) (by simp [Info.unnamed])
    have hends := (ends_connect (l := s.links) (Info.unnamed .logonHub)
      (Info.unnamed .hubServer)).1
    refine hc.withLogon none ⟨⟨hc.logon.clientConns, ?_⟩, ?_⟩
    · intro p hp
      cases hp
      exact hends
    · intro e he
      rw [List.mem_singleton.mp he]
      exact sendable_of_ends hends (by simp [Info.unnamed])
        (by simp [Info.unnamed, fits, SERVER_TYPE_LOGON])
  · cases hs

theorem keeperConnectHub (h : Wired s) {s' : System nk nf} {j : Fin nk}
    (hs : s.keeperConnectHub j = some s') : Wired s' := by
  unfold System.keeperConnectHub at hs
  split at hs
  · obtain rfl := Option.some.inj hs
    have hc := h.connect (Info.unnamed (.keeperHub j)) (Info.unnamed .hubServer)
      (by simp [Info.unnamed]) (by simp [Info.unnamed])
    have hends := (ends_connect (l := s.links) (Info.unnamed (.keeperHub j))
      (Info.unnamed .hubServer)).1
    refine hc.withKeeper j none ⟨⟨?_, (hc.keepers j).conns⟩, ?_⟩
    · intro p hp
      cases hp
      exact hends
    · intro e he
      rw [List.mem_singleton.mp he]
      exact sendable_of_ends hends (by simp [Info.unnamed])
        (by simp [Info.unnamed, KeeperServer.hubConnectionData, fits, SERVER_TYPE_KEEPER])
  · cases hs

theorem forwardConnectKeeper (h : Wired s) {s' : System nk nf} {i : Fin nf} {j : Fin nk}
    {ip : String} (hs : s.forwardConnectKeeper i j ip = some s') : Wired s' := by
  unfold System.forwardConnectKeeper at hs
  split at hs
  · obtain rfl := Option.some.inj hs
    let b : Info nk nf := ⟨.keeperServer j, (s.keepers j).server_.newConnection.1, ip⟩
    have hc := h.connect (Info.unnamed (.forwardKeeper i)) b (by simp [Info.unnamed]) (by simp [b])
    have hends := (ends_connect (l := s.links) (Info.unnamed (.forwardKeeper i)) b).1
    -- the keeper has counted the connection
    have hk : ∀ j', KeeperOk (s.connect (Info.unnamed (.forwardKeeper i)) b).links j'
        (Function.update s.keepers j
          { s.keepers j with server_ := (s.keepers j).server_.newConnection.2 } j') :=
      (Function.forall_update_iff s.keepers fun j' k => KeeperOk _ j' k).mpr
        ⟨⟨(hc.keepers j).hubConn, (hc.keepers j).conns⟩, fun j' _ => hc.keepers j'⟩
    have hw : Wired { s.connect (Info.unnamed (.forwardKeeper i)) b with
        keepers := Function.update s.keepers j
          { s.keepers j with server_ := (s.keepers j).server_.newConnection.2 } } :=
      ⟨hc.clients, hc.mail, hc.logon, hc.hub, hk, hc.forwards⟩
    refine hw.withForward i none ⟨?_, ?_⟩
    · intro p hp
      cases hp
      exact ⟨j, hends⟩
    · intro e he
      rw [List.mem_singleton.mp he]
      exact sendable_of_ends hends (by simp [Info.unnamed]) rfl
  · cases hs

theorem forwardUp (h : Wired s) (i : Fin nf) {r : KeeperClient × List Effect}
    (hr : (s.forwards i).onClientUp = some r) : Wired (s.withForward i none r) := by
  obtain ⟨f, hf, rfl⟩ := Option.map_eq_some_iff.mp hr
  exact h.withForward i none ⟨h.forwards i, (h.forwards i).onForwardConnection f .INC⟩

theorem forwardDown (h : Wired s) (i : Fin nf) {r : KeeperClient × List Effect}
    (hr : (s.forwards i).onClientDown = some r) : Wired (s.withForward i none r) := by
  unfold KeeperClient.onClientDown at hr
  split at hr
  · rename_i f hf
    split at hr
    · obtain rfl := Option.some.inj hr
      exact h.withForward i none ⟨h.forwards i, (h.forwards i).onForwardConnection f .DEC⟩
    · cases hr
  · cases hr

theorem step (h : Wired s) {s' : System nk nf} {a : Action nk nf} (hs : s.step a = some s') :
    Wired s' := by
  unfold System.step at hs
  split at hs
  · obtain rfl := Option.some.inj hs
    exact h.clientConnect
  · exact h.clientSend hs
  · exact h.deliver hs
  · exact h.down hs
  · exact h.lose hs
  · exact h.runTask hs
  · exact h.logonConnectHub hs
  · exact h.keeperConnectHub hs
  · exact h.forwardConnectKeeper hs
  · obtain ⟨r, hr, rfl⟩ := Option.map_eq_some_iff.mp hs
    exact h.forwardUp _ hr
  · obtain ⟨r, hr, rfl⟩ := Option.map_eq_some_iff.mp hs
    exact h.forwardDown _ hr
  · rename_i i uid session
    obtain ⟨k, hk, rfl⟩ := Option.map_eq_some_iff.mp hs
    obtain ⟨f, hf, rfl⟩ := Option.map_eq_some_iff.mp hk
    exact h.withForward i none ⟨h.forwards i, sendable_nil⟩
  · obtain rfl := Option.some.inj hs
    have hc := h.closeAll System.isLogon
    refine ⟨hc.clients, hc.mail, ⟨?_, ?_⟩, hc.hub, hc.keepers, hc.forwards⟩
    · intro n p hp
      cases hp
    · intro p hp
      cases hp
  · obtain rfl := Option.some.inj hs
    have hc := h.closeAll System.isHub
    refine ⟨hc.clients, hc.mail, hc.logon, ⟨?_, ?_⟩, hc.keepers, hc.forwards⟩
    · intro p hp
      cases hp
    · intro k p hp
      cases hp

end Wired

/-- A server that has just started is connected to nobody. -/
structure Fresh (logon : LogonServer) (keepers : Fin nk → KeeperServer) : Prop where
  logon : logon.clientConns_ = .empty ∧ logon.hubConn_ = none
  keepers : ∀ j, (keepers j).serverStart_ = [] ∧ (keepers j).conns_ = .empty ∧
    (keepers j).hubConn_ = none

theorem wired_init {logon : LogonServer} {keepers : Fin nk → KeeperServer}
    (h : Fresh logon keepers) : Wired (System.init logon keepers : System nk nf) where
  clients p i q hp := by cases hp
  mail p e he := by cases he
  logon := by
    refine ⟨?_, ?_⟩
    · intro n p hp
      have hp : logon.clientConns_.find n = some p := hp
      rw [h.logon.1, OrdMap.find_empty] at hp
      cases hp
    · intro p hp
      have hp : logon.hubConn_ = some p := hp
      rw [h.logon.2] at hp
      cases hp
  hub := by
    refine ⟨?_, ?_⟩
    · intro p hp
      cases hp
    · intro k p hp
      cases hp
  keepers j := by
    obtain ⟨-, hconns, hhub⟩ := h.keepers j
    refine ⟨?_, ?_⟩
    · intro p hp
      have hp : (keepers j).hubConn_ = some p := hp
      rw [hhub] at hp
      cases hp
    · intro f p hp
      have hp : (keepers j).conns_.find f = some p := hp
      rw [hconns, OrdMap.find_empty] at hp
      cases hp
  forwards i p hp := by cases hp

theorem wired_reaches {logon : LogonServer} {keepers : Fin nk → KeeperServer}
    (h₀ : Fresh logon keepers) {C : System nk nf → Action nk nf → Prop} {s : System nk nf}
    (h : Reaches System.step C (System.init logon keepers) s) : Wired s :=
  h.invariant (wired_init h₀) fun _ _ _ hw _ hs => hw.step hs

/-! ## The configuration in luaconfig -/

/-- luaconfig/logonServer.lua. -/
def luaLogon : LogonServer := .ofConfig "127.0.0.1:10011" 11

/-- The servers of luaconfig, with `nf` forward servers. -/
def luaInit (nf : Nat) : System 1 nf := System.init luaLogon fun _ => luaKeeper

theorem fresh_lua : Fresh luaLogon fun _ : Fin 1 => luaKeeper :=
  ⟨⟨rfl, rfl⟩, fun _ => ⟨rfl, rfl, rfl⟩⟩

/-- The logon server, the keeper and a forward server connect, in this order; the ends are 0 and 1,
    2 and 3, 4 and 5, the hub has 1 and 3. The client that comes next has 6, and the logon server
    7. -/
def luaStart : List (Action 1 1) := [
  .logonConnectHub, .deliver 1 0, .keeperConnectHub 0, .deliver 3 0,
  .forwardConnectKeeper 0 0 "127.0.0.1", .deliver 5 0, .deliver 4 0, .deliver 3 0]

/-- What logonclient/LogonClient.cc sends. -/
def luaLogonMessage : Logon := ⟨1, "1", "123456", 10101⟩

/-- The steps of a logon to the servers of luaconfig. -/
def luaLogonSteps (m : Logon) : List (Action 1 1) :=
  luaStart ++ [.clientConnect, .clientSend 6 (.logon m), .deliver 7 0,
    .runTask 0 (.stored 1 true), .deliver 1 0, .deliver 2 0, .deliver 4 42, .deliver 5 0,
    .deliver 3 0, .deliver 0 0]

end Mmvx.Cluster
