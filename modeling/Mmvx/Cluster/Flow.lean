/-
  What a step does to the logon requests in the system.

  A logon message carries an account and the name of a client's connection (`carries`); an answer
  also offers a forward server and a session (`offers`). `Handled m es` says what the effects of a
  server between the logon servers and the clients' forward servers can be: nothing of interest,
  the same request in the next message, or a new session. `step_flow` sums up every step in these
  terms, so that the properties of the logon chain need not look at hub, keepers and forward
  servers again.
-/
import Mmvx.Cluster.Wiring

namespace Mmvx.Cluster

open Mmvx.Lib Mmvx.Server

variable {nk nf : Nat}

/-- The account and the connection name in a message of the logon chain. -/
def carries : Message → Option (Int64 × String)
  | .hubLogonQueryForwardID m => some (m.uid, m.connname)
  | .hubKeeperLogonSession m => some (m.uid, m.connname)
  | .keeperForwardLogonSession m => some (m.uid, m.connname)
  | .keeperForwardLogonSessionRet m => some (m.uid, m.connname)
  | .hubKeeperLogonSessionRet m => some (m.uid, m.connname)
  | .hubLogonAnswerForwardID m => some (m.uid, m.connname)
  | _ => none

/-- The address and the session in an answer of the logon chain. -/
def offers : Message → Option (String × UInt32 × UInt32)
  | .keeperForwardLogonSessionRet m =>
    some (m.forwardip, m.forwardport.toUInt32, m.session.toUInt32)
  | .hubKeeperLogonSessionRet m =>
    some (m.forwardip, m.forwardport.toUInt32, m.session.toUInt32)
  | .hubLogonAnswerForwardID m =>
    some (m.forwardip.getD "", m.forwardport.getD 0, m.session.getD 0)
  | _ => none

def isLogonRet : Message → Bool
  | .logonRet _ => true
  | _ => false

/-- An effect that is not about a logon request. -/
def Quiet : Effect → Prop
  | .send _ m => carries m = none ∧ isLogonRet m = false
  | .shutdown _ => True
  | .put _ => False
  | .call c => c = .assertFailed

/-- What handling `m` can have as effects. -/
inductive Handled (m : Message) : List Effect → Prop
  | quiet {es : List Effect} (h : ∀ e ∈ es, Quiet e) : Handled m es
  | relay {conn : Option Nat} {m' : Message} (hc : carries m' = carries m)
      (ho : offers m' = offers m) (hr : isLogonRet m' = false) : Handled m (sendTo conn m')
  | session {f : ForwardServer} {m₀ : KeeperForwardLogonSession} {session : Int32}
      {conn : Option Nat} (hm : m = .keeperForwardLogonSession m₀) :
      Handled m (.call (.addLogonSession m₀.uid session m₀.connname f.listenAddr_) ::
        sendTo conn (.keeperForwardLogonSessionRet (KeeperClient.sessionRet f m₀ session)))

theorem quiet_nil : ∀ e ∈ ([] : List Effect), Quiet e := by
  intro e he
  cases he

theorem quiet_sendTo {conn : Option Nat} {m : Message} (hc : carries m = none)
    (hr : isLogonRet m = false) : ∀ e ∈ sendTo conn m, Quiet e := by
  intro e he
  obtain ⟨p, -, rfl⟩ := mem_sendTo.mp he
  exact ⟨hc, hr⟩

theorem quiet_cons {e : Effect} {es : List Effect} (he : Quiet e) (hes : ∀ e ∈ es, Quiet e) :
    ∀ e' ∈ e :: es, Quiet e' := by
  intro e' he'
  rcases List.mem_cons.mp he' with rfl | he'
  · exact he
  · exact hes e' he'

theorem quiet_shutdownConn (s : LogonServer) (n : String) : ∀ e ∈ s.shutdownConn n, Quiet e := by
  unfold LogonServer.shutdownConn
  split
  · exact quiet_cons trivial quiet_nil
  · exact quiet_nil

/-! ## The servers in between -/

theorem handled_hub (h : HubServer) (conn : TcpConnection) (m : Message) :
    Handled m (h.onMessage conn m).2 := by
  unfold HubServer.onMessage
  split
  · exact .quiet quiet_nil
  · unfold HubServer.onHubLogonQueryForwardID
    dsimp only
    split
    · exact .relay rfl rfl rfl
    · exact .quiet quiet_nil
  · unfold HubServer.onHubConnectionData
    split
    · exact .quiet quiet_nil
    · split <;> exact .quiet quiet_nil
  · exact .relay rfl rfl rfl
  · exact .quiet (quiet_cons trivial quiet_nil)

theorem handled_keeper (k : KeeperServer) (conn : TcpConnection) (m : Message) :
    Handled m (k.onMessage conn m).2 := by
  unfold KeeperServer.onMessage
  split
  · rename_i q
    obtain ⟨c, -, -, -, -, heff⟩ | heff := k.onQuery_cases conn q
    · rw [heff]
      exact .quiet (quiet_cons ⟨rfl, rfl⟩ (quiet_sendTo rfl rfl))
    · rw [heff]
      exact .quiet (quiet_cons trivial quiet_nil)
  · exact .relay rfl rfl rfl
  · exact .quiet (quiet_sendTo rfl rfl)
  · exact .quiet (quiet_cons trivial quiet_nil)

theorem handled_keeperHub (k : KeeperServer) (m : Message) : Handled m (k.onHubMessage m).2 := by
  unfold KeeperServer.onHubMessage
  split
  · exact .relay rfl rfl rfl
  · exact .quiet quiet_nil

theorem handled_forward (k : KeeperClient) (conn : TcpConnection) (rand : Int32) (m : Message) :
    Handled m (k.onMessage conn rand m).2 := by
  unfold KeeperClient.onMessage
  split
  · refine .quiet ?_
    unfold KeeperClient.onAnswer
    dsimp only
    split
    · intro e he
      obtain ⟨es, hes, he⟩ := List.mem_flatten.mp he
      rw [(List.mem_replicate.mp hes).2] at he
      exact quiet_sendTo rfl rfl e he
    · exact quiet_nil
  · unfold KeeperClient.onKeeperForwardLogonSession
    split
    · exact .session rfl
    · exact .quiet (quiet_cons rfl quiet_nil)
  · exact .quiet (quiet_cons trivial quiet_nil)

/-! ## Whether a request is passed on -/

/-- The server with the end `i` has somewhere to pass a message of the logon chain on to. The logon
    server itself answers the client. -/
def passedOn (s : System nk nf) (i : Info nk nf) (m : Message) : Bool :=
  match i.role, m with
  | .logonServer, _ => true
  | .logonHub, _ => true
  | .hubServer, .hubLogonQueryForwardID q =>
    !(s.hub.forwards q.keeperserverid.toUInt16).isEmpty &&
      linkUp s (s.hub.keeperConns_.find q.keeperserverid.toUInt16)
  | .hubServer, .hubKeeperLogonSessionRet _ => linkUp s s.hub.logonConn_
  | .keeperHub j, .hubKeeperLogonSession q =>
    linkUp s ((s.keepers j).conns_.find q.forwardserverid.toUInt32.toUInt16)
  | .keeperServer j, .keeperForwardLogonSessionRet _ => linkUp s (s.keepers j).hubConn_
  | .forwardKeeper f, .keeperForwardLogonSession _ =>
    (s.forwards f).forwardServer_.isSome && linkUp s (s.forwards f).conn_
  | _, _ => false

/-- The effects send a message of the logon chain on a connection that is up. -/
def PassesOn (l : Links (Info nk nf) (Tagged Message)) (es : List Effect) : Prop :=
  ∃ p m, (es = [.send p m] ∨ ∃ c, es = [.call c, .send p m]) ∧ (l.target p).isSome ∧
    (carries m).isSome

theorem passesOn_sendTo {s : System nk nf} {conn : Option Nat} {m : Message}
    (hup : linkUp s conn = true) (hc : (carries m).isSome) :
    PassesOn s.links (sendTo conn m) := by
  obtain ⟨p, rfl, hp⟩ := linkUp_eq_true hup
  exact ⟨p, m, Or.inl rfl, hp, hc⟩

section

variable {s : System nk nf} {i : Info nk nf} {m : Message} (h : passedOn s i m = true)

include h

theorem passesOn_hub (conn : TcpConnection) (hi : i.role = .hubServer) :
    PassesOn s.links (s.hub.onMessage conn m).2 := by
  cases m with
  | hubLogonQueryForwardID q =>
    simp only [passedOn, hi, Bool.and_eq_true] at h
    dsimp only [HubServer.onMessage, HubServer.onHubLogonQueryForwardID]
    split
    · exact passesOn_sendTo h.2 rfl
    · rename_i hnil
      simp [hnil] at h
  | hubKeeperLogonSessionRet q =>
    simp only [passedOn, hi] at h
    exact passesOn_sendTo h rfl
  | _ => simp [passedOn, hi] at h

theorem passesOn_keeperHub {j : Fin nk} (hi : i.role = .keeperHub j) :
    PassesOn s.links ((s.keepers j).onHubMessage m).2 := by
  cases m with
  | hubKeeperLogonSession q =>
    simp only [passedOn, hi] at h
    exact passesOn_sendTo h rfl
  | _ => simp [passedOn, hi] at h

theorem passesOn_keeper {j : Fin nk} (conn : TcpConnection) (hi : i.role = .keeperServer j) :
    PassesOn s.links ((s.keepers j).onMessage conn m).2 := by
  cases m with
  | keeperForwardLogonSessionRet q =>
    simp only [passedOn, hi] at h
    exact passesOn_sendTo h rfl
  | _ => simp [passedOn, hi] at h

theorem passesOn_forward {f : Fin nf} (conn : TcpConnection) (rand : Int32)
    (hi : i.role = .forwardKeeper f) :
    PassesOn s.links ((s.forwards f).onMessage conn rand m).2 := by
  cases m with
  | keeperForwardLogonSession q =>
    simp only [passedOn, hi, Bool.and_eq_true] at h
    obtain ⟨p, hp, hup⟩ := linkUp_eq_true h.2
    dsimp only [KeeperClient.onMessage, KeeperClient.onKeeperForwardLogonSession]
    split
    · dsimp only [KeeperClient.sendToKeeper]
      rw [hp]
      exact ⟨p, _, Or.inr ⟨_, rfl⟩, hup, rfl⟩
    · rename_i hnone
      simp [hnone] at h
  | _ => simp [passedOn, hi] at h

end

/-! ## Steps -/

/-- Nothing of the logon chain has changed, links apart. -/
structure Alike (s s₁ : System nk nf) : Prop where
  clientConns : s₁.logon.clientConns_ = s.logon.clientConns_
  tasks : s₁.tasks = s.tasks
  requests : s₁.requests = s.requests
  log : s₁.log = s.log

/-- What a step can do to the logon chain. -/
inductive Flow (s : System nk nf) : Action nk nf → System nk nf → Prop
  | clientSend {p : Nat} {e : Endpoint (Info nk nf) (Tagged Message)} {m : Message}
      (he : s.links[p]? = some e) (hrole : e.info.role = .client) (hstate : e.state = .kConnected)
      (hends : Ends s.links p .client .logonServer) :
      Flow s (.clientSend p m) { s with
        links := s.links.send p ⟨some ⟨e.peer, s.requests⟩, m⟩
        requests := s.requests + 1
        log := .request ⟨e.peer, s.requests⟩ m :: s.log }
  | clientConnect {s' : System nk nf} {i : Info nk nf} (hrole : i.role = .logonServer)
      (hname : i.name = s.logon.server_.newConnection.1)
      (hlinks : s'.links = s.links.connect (Info.unnamed .client) i)
      (hconns : s'.logon.clientConns_ =
        s.logon.clientConns_.insert i.name (s.links.length + 1))
      (htasks : s'.tasks = s.tasks) (hreq : s'.requests = s.requests) (hlog : s'.log = s.log) :
      Flow s .clientConnect s'
  | logon {p : Nat} {rand : Int32} {e : Endpoint (Info nk nf) (Tagged Message)}
      {m : Tagged Message} {l : Links (Info nk nf) (Tagged Message)} {lm : Logon}
      (hr : s.links.receive p = some (e, m, l)) (hrole : e.info.role = .logonServer)
      (hm : m.val = .logon lm) :
      Flow s (.deliver p rand) ({ s with links := l }.applyAll m.cause
        [.put (LogonServer.logonTask (e.info.conn p) lm)])
  | refuse {p : Nat} {rand : Int32} {e : Endpoint (Info nk nf) (Tagged Message)}
      {m : Tagged Message} {l : Links (Info nk nf) (Tagged Message)}
      (hr : s.links.receive p = some (e, m, l)) (hrole : e.info.role = .logonServer) :
      Flow s (.deliver p rand) ({ s with links := l }.applyAll m.cause [.shutdown p])
  | runTask {n : Nat} {result : QueryResult} {t : Tagged Task} (ht : s.tasks[n]? = some t) :
      Flow s (.runTask n result) ({ s with tasks := s.tasks.eraseIdx n }.applyAll t.cause
        (s.logon.queryLogonAccount t.val result))
  | handle {p : Nat} {rand : Int32} {e : Endpoint (Info nk nf) (Tagged Message)}
      {m : Tagged Message} {l : Links (Info nk nf) (Tagged Message)} {s₁ : System nk nf}
      {es : List Effect} (hr : s.links.receive p = some (e, m, l))
      (hrole : e.info.role ≠ .logonServer) (hs₁ : Alike s s₁) (hlinks : s₁.links = l)
      (hes : Handled m.val es) (hsend : ∀ e ∈ es, Sendable l e)
      (hpass : passedOn s e.info m.val = true → PassesOn s.links es) :
      Flow s (.deliver p rand) (s₁.applyAll m.cause es)
  | answer {p : Nat} {rand : Int32} {e : Endpoint (Info nk nf) (Tagged Message)}
      {m : Tagged Message} {l : Links (Info nk nf) (Tagged Message)}
      {a : HubLogonAnswerForwardID} (hr : s.links.receive p = some (e, m, l))
      (hrole : e.info.role = .logonHub) (hm : m.val = .hubLogonAnswerForwardID a) :
      Flow s (.deliver p rand) ({ s with links := l }.applyAll m.cause
        (s.logon.sendToClient a.connname (.logonRet (LogonServer.successRet a))))
  | down {p : Nat} {e : Endpoint (Info nk nf) (Tagged Message)} {s₁ : System nk nf}
      {es : List Effect} (he : s.links[p]? = some e) (hstate : e.state ≠ .kDisconnected)
      (hlinks : s₁.links = s.links.close p)
      (hconns : s₁.logon.clientConns_ = if e.info.role = .logonServer then
        s.logon.clientConns_.erase e.info.name else s.logon.clientConns_)
      (htasks : s₁.tasks = s.tasks) (hreq : s₁.requests = s.requests) (hlog : s₁.log = s.log)
      (hes : ∀ e ∈ es, Quiet e) (hsend : ∀ e ∈ es, Sendable s₁.links e) :
      Flow s (.down p) (s₁.applyAll none es)
  | lose {p : Nat} {e : Endpoint (Info nk nf) (Tagged Message)} {m : Tagged Message}
      {l : Links (Info nk nf) (Tagged Message)} (hl : s.links.lose p = some (e, m, l)) :
      Flow s (.lose p) { s with links := l }
  | other {a : Action nk nf} {s₁ : System nk nf} {es : List Effect} (hs₁ : Alike s s₁)
      (hlinks : s₁.links = s.links ∨ ∃ i i', i.role ≠ .logonServer ∧ i'.role ≠ .logonServer ∧
        s₁.links = s.links.connect i i')
      (hes : ∀ e ∈ es, Quiet e) (hsend : ∀ e ∈ es, Sendable s₁.links e) :
      Flow s a (s₁.applyAll none es)
  | restartLogon {s' : System nk nf} (hlinks : s'.links = s.links.closeAll System.isLogon)
      (hconns : s'.logon.clientConns_ = .empty) (htasks : s'.tasks = [])
      (hreq : s'.requests = s.requests) (hlog : s'.log = s.log) : Flow s .restartLogon s'
  | restartHub {s' : System nk nf} (hs' : Alike s s')
      (hlinks : s'.links = s.links.closeAll System.isHub) : Flow s .restartHub s'

section

variable {s s' : System nk nf}

theorem flow_deliver (hw : Wired s) {p : Nat} {rand : Int32} (hs : s.deliver p rand = some s') :
    Flow s (.deliver p rand) s' := by
  unfold System.deliver at hs
  split at hs
  · rename_i e m l hr
    obtain rfl := Option.some.inj hs
    obtain ⟨hl, R', hends, hm⟩ := hw.receive hr
    have hne {R : Role nk nf} (hi : e.info.role = R) (h : R ≠ .logonServer) :
        e.info.role ≠ .logonServer := by rw [hi]; exact h
    unfold System.onMessage
    split
    · rename_i hi
      have hs₁ : Alike s { s with links := l } := ⟨rfl, rfl, rfl, rfl⟩
      exact .handle hr (hne hi (by simp)) hs₁ rfl (.quiet quiet_nil) sendable_nil
        fun h => by simp [passedOn, hi] at h
    · rename_i hi
      unfold LogonServer.onMessage
      split
      · rename_i lm hlm
        exact .logon hr hi hlm
      · exact .refuse hr hi
    · rename_i hi
      rw [hi] at hends hm
      unfold LogonServer.onHubClientMessage
      split
      · rename_i a ha
        exact .answer hr hi ha
      · rename_i hnot
        -- the hub sends nothing else
        cases R' with
        | hubServer => cases hv : m.val <;> simp_all [fits]
        | _ => simp [fits] at hm
    · rename_i hi
      rw [hi] at hends hm
      exact .handle hr (hne hi (by simp)) ⟨rfl, rfl, rfl, rfl⟩ rfl (handled_hub _ _ _)
        (hl.hub.onMessage hends hm).2 fun h => passesOn_hub h _ hi
    · rename_i j hi
      exact .handle hr (hne hi (by simp)) ⟨rfl, rfl, rfl, rfl⟩ rfl (handled_keeperHub _ _)
        ((hl.keepers j).onHubMessage _).2 fun h => passesOn_keeperHub h hi
    · rename_i j hi
      rw [hi] at hends hm
      refine .handle hr (hne hi (by simp)) ⟨rfl, rfl, rfl, rfl⟩ rfl (handled_keeper _ _ _) ?_
        fun h => passesOn_keeper h _ hi
      cases R' with
      | forwardKeeper f => exact ((hl.keepers j).onMessage hends _).2
      | _ => simp [fits] at hm
    · rename_i f hi
      exact .handle hr (hne hi (by simp)) ⟨rfl, rfl, rfl, rfl⟩ rfl (handled_forward _ _ _ _)
        ((hl.forwards f).onMessage _ _ _).2 fun h => passesOn_forward h _ _ hi
  · cases hs

theorem flow_down (hw : Wired s) {p : Nat} (hs : s.down p = some s') : Flow s (.down p) s' := by
  unfold System.down at hs
  split at hs
  · rename_i e he
    split at hs
    · cases hs
    · rename_i hstate
      obtain rfl := Option.some.inj hs
      have hl := hw.close p
      have hconns {R : Role nk nf} (hi : e.info.role = R) (h : R ≠ .logonServer) :
          s.logon.clientConns_ = if e.info.role = .logonServer then
            s.logon.clientConns_.erase e.info.name else s.logon.clientConns_ := by
        rw [hi, if_neg h]
      unfold System.onDown
      split
      · rename_i hi
        show Flow s (.down p) ({ s with links := s.links.close p }.applyAll none [])
        exact .down he hstate rfl (hconns hi (by simp)) rfl rfl rfl quiet_nil sendable_nil
      · rename_i hi
        exact .down he hstate rfl (by rw [if_pos hi]; rfl) rfl rfl rfl quiet_nil sendable_nil
      · rename_i hi
        exact .down he hstate rfl (hconns hi (by simp)) rfl rfl rfl quiet_nil sendable_nil
      · rename_i hi
        have heff := (hl.hub.onConnection (e.info.conn p)).2
        refine .down he hstate rfl (hconns hi (by simp)) rfl rfl rfl ?_ ?_
        · rw [heff]; exact quiet_nil
        · rw [heff]; exact sendable_nil
      · rename_i j hi
        exact .down he hstate rfl (hconns hi (by simp)) rfl rfl rfl quiet_nil sendable_nil
      · rename_i j hi
        refine .down he hstate rfl (hconns hi (by simp)) rfl rfl rfl ?_
          ((hl.keepers j).onConnection (e.info.conn p)).2
        obtain ⟨_, -, _, -, -, -, heff⟩ | ⟨-, -, heff⟩ :=
          (s.keepers j).onConnection_cases (e.info.conn p)
        · rw [heff]
          exact quiet_sendTo rfl rfl
        · rw [heff]
          exact quiet_nil
      · rename_i f hi
        exact .down he hstate rfl (hconns hi (by simp)) rfl rfl rfl quiet_nil sendable_nil
  · cases hs

/-- A new connection of a server, on which it sends a first message. -/
theorem flow_greet {s₁ : System nk nf} {a : Action nk nf} (i i' : Info nk nf) {m : Message}
    (hs₁ : Alike s s₁) (hlinks : s₁.links = s.links.connect i i') (hi : i.role ≠ .logonServer)
    (hi' : i'.role ≠ .logonServer) (hic : i.role ≠ .client)
    (hm : carries m = none ∧ isLogonRet m = false) (hfits : fits i'.role i.role m = true) :
    Flow s a (s₁.applyAll none [.send s.links.length m]) := by
  refine .other hs₁ (Or.inr ⟨i, i', hi, hi', hlinks⟩) (quiet_cons hm quiet_nil) ?_
  intro e he
  rw [List.mem_singleton.mp he, hlinks]
  exact sendable_of_ends (ends_connect i i').1 hic hfits

theorem flow_forward (hw : Wired s) {a : Action nk nf} (i : Fin nf) (k : KeeperClient)
    (f : ForwardServer) (oper : Operation) :
    Flow s a (s.withForward i none (k, (s.forwards i).onForwardConnection f oper)) :=
  .other ⟨rfl, rfl, rfl, rfl⟩ (Or.inl rfl) (quiet_sendTo rfl rfl)
    ((hw.forwards i).onForwardConnection f oper)

theorem step_flow (hw : Wired s) {a : Action nk nf} (hs : s.step a = some s') : Flow s a s' := by
  unfold System.step at hs
  split at hs
  · obtain rfl := Option.some.inj hs
    exact .clientConnect (i := ⟨.logonServer, s.logon.server_.newConnection.1, ""⟩) rfl rfl rfl rfl
      rfl rfl rfl
  · unfold System.clientSend at hs
    split at hs
    · rename_i e he
      split at hs
      · rename_i hc
        obtain rfl := Option.some.inj hs
        exact .clientSend he hc.1 hc.2 (hw.clients _ _ _ (Links.label_of_getElem? he) hc.1)
      · cases hs
    · cases hs
  · exact flow_deliver hw hs
  · exact flow_down hw hs
  · obtain ⟨e, m, l, hl, rfl⟩ := System.lose_eq_some hs
    exact .lose hl
  · unfold System.runTask at hs
    split at hs
    · rename_i t ht
      obtain rfl := Option.some.inj hs
      exact .runTask ht
    · cases hs
  · unfold System.logonConnectHub at hs
    split at hs
    · obtain rfl := Option.some.inj hs
      exact flow_greet (.unnamed .logonHub) (.unnamed .hubServer) ⟨rfl, rfl, rfl, rfl⟩
        rfl (by simp [Info.unnamed]) (by simp [Info.unnamed]) (by simp [Info.unnamed]) ⟨rfl, rfl⟩
        (by simp [Info.unnamed, fits, SERVER_TYPE_LOGON])
    · cases hs
  · rename_i j
    unfold System.keeperConnectHub at hs
    split at hs
    · obtain rfl := Option.some.inj hs
      exact flow_greet (.unnamed (.keeperHub j)) (.unnamed .hubServer)
        ⟨rfl, rfl, rfl, rfl⟩ rfl (by simp [Info.unnamed]) (by simp [Info.unnamed])
        (by simp [Info.unnamed]) ⟨rfl, rfl⟩
        (by simp [Info.unnamed, KeeperServer.hubConnectionData, fits, SERVER_TYPE_KEEPER])
    · cases hs
  · rename_i i j ip
    unfold System.forwardConnectKeeper at hs
    split at hs
    · obtain rfl := Option.some.inj hs
      exact flow_greet (.unnamed (.forwardKeeper i))
        ⟨.keeperServer j, (s.keepers j).server_.newConnection.1, ip⟩
        ⟨rfl, rfl, rfl, rfl⟩ rfl (by simp [Info.unnamed]) (by simp) (by simp [Info.unnamed])
        ⟨rfl, rfl⟩ rfl
    · cases hs
  · rename_i i
    obtain ⟨r, hr, rfl⟩ := Option.map_eq_some_iff.mp hs
    obtain ⟨f, hf, rfl⟩ := Option.map_eq_some_iff.mp hr
    exact flow_forward hw i _ f .INC
  · rename_i i
    obtain ⟨r, hr, rfl⟩ := Option.map_eq_some_iff.mp hs
    unfold KeeperClient.onClientDown at hr
    split at hr
    · rename_i f hf
      split at hr
      · obtain rfl := Option.some.inj hr
        exact flow_forward hw i _ f .DEC
      · cases hr
    · cases hr
  · obtain ⟨k, hk, rfl⟩ := Option.map_eq_some_iff.mp hs
    exact .other ⟨rfl, rfl, rfl, rfl⟩ (Or.inl rfl) quiet_nil sendable_nil
  · obtain rfl := Option.some.inj hs
    exact .restartLogon rfl rfl rfl rfl rfl
  · obtain rfl := Option.some.inj hs
    exact .restartHub ⟨rfl, rfl, rfl, rfl⟩ rfl

end

end Mmvx.Cluster
