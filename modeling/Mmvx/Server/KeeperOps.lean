/-
  The callbacks of `KeeperServer`, one operation at a time.

  The connections of a keeper live in different loops, so their callbacks interleave. What a
  callback does after it has looked at its message is a list of operations: `codec_.send`, a lookup
  of a connection under its mutex, or an update of a table. `exec` does one of them, `execAll` a
  list without interruption; a whole callback is `execAll` of its operations (`execAll_onQuery`,
  ...).
-/
import Mmvx.Server.Keeper

namespace Mmvx.Server

open Mmvx.Lib

inductive Op where
  /-- `codec_.send(conn, msg)` or `conn->shutdown()`. -/
  | effect (e : Effect)
  /-- `sendToHub(msg)` up to the copy of `hubConn_`. -/
  | sendToHub (m : Message)
  /-- `sendToForward(id, msg)` up to the copy of `conns_[id]`. -/
  | sendToForward (id : UInt16) (m : Message)
  | setStarted (id : UInt16) (start : Bool) (conn : TcpConnection)
  /-- `conns_[id] = conn`. -/
  | insertConn (id : UInt16) (conn : Nat)
  /-- The loop over `conns_` in `onConnection`. -/
  | eraseConn (conn : Nat)
  /-- `hubConn_ = conn` or `hubConn_.reset()`. -/
  | setHubConn (conn : Option Nat)
  deriving DecidableEq, Repr

namespace KeeperServer

/-! ## The operations of each callback -/

def queryOps (k : KeeperServer) (conn : TcpConnection) (m : KeeperQuery) : List Op :=
  match k.serverConfig_.find? (k.matchesQuery conn m) with
  | some c => [
      .effect (.send conn.ptr (.keeperAnswer (k.answer c))),
      .sendToHub (.hubKeeperUpdateForwardConns (k.addMessage c)),
      .setStarted c.id true conn,
      .insertConn c.id conn.ptr]
  | none => [.effect (.shutdown conn.ptr)]

/-- The operations of `onConnection` for a connection that is `DOWN`. -/
def downOps (k : KeeperServer) (conn : TcpConnection) : List Op :=
  (match h : k.serverStart_.findIdx? (startedBy conn) with
  | some i =>
    have hi : i < k.serverStart_.length := lt_serverStart_of_find h
    have hc : i < k.serverConfig_.length := k.lt_serverConfig_of_lt hi
    [.sendToHub (.hubKeeperUpdateForwardConns (k.removeMessage k.serverStart_[i])),
      .setStarted k.serverConfig_[i].id false conn]
  | none => []) ++ [.eraseConn conn.ptr]

def messageOps (k : KeeperServer) (conn : TcpConnection) : Message → List Op
  | .keeperQuery m => k.queryOps conn m
  | .keeperForwardLogonSessionRet m => [.sendToHub (.hubKeeperLogonSessionRet m)]
  | .keeperForwardUpdateForwardConns m => [.sendToHub (.hubKeeperUpdateForwardConns m)]
  | _ => [.effect (.shutdown conn.ptr)]

def hubMessageOps : Message → List Op
  | .hubKeeperLogonSession m => [.sendToForward m.forwardserverid.toUInt32.toUInt16
      (.keeperForwardLogonSession ⟨m.uid, m.connname⟩)]
  | _ => []

def hubUpOps (k : KeeperServer) (conn : TcpConnection) : List Op :=
  [.setHubConn (some conn.ptr),
    .effect (.send conn.ptr (hubConnectionData SERVER_TYPE_KEEPER k.serverID_))]

def hubDownOps : List Op := [.setHubConn none]

/-! ## Doing them -/

/-- The table after an operation, its effects, and what is left to do of a lookup: the send on the
    connection that was found. -/
def exec (k : KeeperServer) : Op → KeeperServer × List Effect × List Effect
  | .effect e => (k, [e], [])
  | .sendToHub m => (k, [], k.sendToHub m)
  | .sendToForward id m => (k, [], k.sendToForward id m)
  | .setStarted id start conn =>
    (if h : id ∈ k.serverConfig_.map ServerConfig.id then k.setStarted id start conn h else k,
      [], [])
  | .insertConn id conn => ({ k with conns_ := k.conns_.insert id conn }, [], [])
  | .eraseConn conn => ({ k with conns_ := k.conns_.eraseValue conn }, [], [])
  | .setHubConn conn => ({ k with hubConn_ := conn }, [], [])

def execAll (k : KeeperServer) : List Op → KeeperServer × List Effect
  | [] => (k, [])
  | op :: ops =>
    (((k.exec op).1.execAll ops).1,
      (k.exec op).2.1 ++ (k.exec op).2.2 ++ ((k.exec op).1.execAll ops).2)

/-- What an operation does to `conns_`. -/
theorem exec_conns (k : KeeperServer) (op : Op) :
    (∃ f p, op = .insertConn f p ∧ (k.exec op).1.conns_ = k.conns_.insert f p) ∨
    (∃ p, op = .eraseConn p ∧ (k.exec op).1.conns_ = k.conns_.eraseValue p) ∨
    ((∀ f p, op ≠ .insertConn f p) ∧ (k.exec op).1.conns_ = k.conns_) := by
  cases op with
  | insertConn f p => exact Or.inl ⟨f, p, rfl, rfl⟩
  | eraseConn p => exact Or.inr (Or.inl ⟨p, rfl, rfl⟩)
  | setStarted id start conn =>
    refine Or.inr (Or.inr ⟨nofun, ?_⟩)
    rw [exec]
    dsimp only
    split <;> rfl
  | effect e => exact Or.inr (Or.inr ⟨nofun, rfl⟩)
  | sendToHub m => exact Or.inr (Or.inr ⟨nofun, rfl⟩)
  | sendToForward id m => exact Or.inr (Or.inr ⟨nofun, rfl⟩)
  | setHubConn c => exact Or.inr (Or.inr ⟨nofun, rfl⟩)

theorem execAll_setStarted (k : KeeperServer) {id : UInt16} (start : Bool) (conn : TcpConnection)
    (h : id ∈ k.serverConfig_.map ServerConfig.id) (ops : List Op) :
    k.execAll (.setStarted id start conn :: ops) = (k.setStarted id start conn h).execAll ops := by
  rw [execAll, exec, dif_pos h]
  rfl

theorem execAll_sendToHub (k : KeeperServer) (m : Message) (ops : List Op) :
    k.execAll (.sendToHub m :: ops) = ((k.execAll ops).1, k.sendToHub m ++ (k.execAll ops).2) := rfl

theorem queryOps_some {k : KeeperServer} {conn : TcpConnection} {m : KeeperQuery} {c : ServerConfig}
    (hc : k.serverConfig_.find? (k.matchesQuery conn m) = some c) :
    k.queryOps conn m = [
      .effect (.send conn.ptr (.keeperAnswer (k.answer c))),
      .sendToHub (.hubKeeperUpdateForwardConns (k.addMessage c)),
      .setStarted c.id true conn,
      .insertConn c.id conn.ptr] := by
  rw [queryOps, hc]

theorem queryOps_none {k : KeeperServer} {conn : TcpConnection} {m : KeeperQuery}
    (hc : k.serverConfig_.find? (k.matchesQuery conn m) = none) :
    k.queryOps conn m = [.effect (.shutdown conn.ptr)] := by
  rw [queryOps, hc]

/-- A `DOWN` event releases an id or not, and then erases the connection. -/
theorem downOps_cases (k : KeeperServer) (conn : TcpConnection) :
    (∃ s id, k.downOps conn = [
      .sendToHub (.hubKeeperUpdateForwardConns (k.removeMessage s)),
      .setStarted id false conn,
      .eraseConn conn.ptr]) ∨ k.downOps conn = [.eraseConn conn.ptr] := by
  rw [downOps]
  split
  · exact Or.inl ⟨_, _, rfl⟩
  · exact Or.inr rfl

theorem execAll_onQuery (k : KeeperServer) (conn : TcpConnection) (m : KeeperQuery) :
    k.execAll (k.queryOps conn m) = k.onQuery conn m := by
  rw [onQuery]
  split
  · rename_i c hc
    have hmem : c.id ∈ k.serverConfig_.map ServerConfig.id :=
      List.mem_map.mpr ⟨c, List.mem_of_find?_eq_some hc, rfl⟩
    rw [queryOps_some hc, execAll, exec, execAll_sendToHub, execAll_setStarted k true conn hmem]
    simp only [execAll, exec, List.nil_append, List.append_nil, List.cons_append]
  · rename_i hc
    rw [queryOps_none hc]
    rfl

theorem execAll_onConnection (k : KeeperServer) (conn : TcpConnection) :
    k.execAll (k.downOps conn) = k.onConnection conn := by
  rw [downOps]
  split
  · rename_i i hi
    have hlt := (List.findIdx?_eq_some_iff_getElem.mp hi).1
    have hc : i < k.serverConfig_.length := Nat.lt_of_lt_of_le hlt k.start_length_le
    have hmem : k.serverConfig_[i].id ∈ k.serverConfig_.map ServerConfig.id :=
      List.mem_map.mpr ⟨_, List.getElem_mem hc, rfl⟩
    rw [List.cons_append, List.cons_append, List.nil_append, execAll_sendToHub,
      execAll_setStarted k false conn hmem]
    rw [onConnection, releaseStarted]
    split
    · rename_i i' hi'
      obtain rfl : i = i' := Option.some.inj (hi.symm.trans hi')
      simp only [execAll, exec, List.append_nil]
    · rename_i hn
      rw [hi] at hn
      cases hn
  · rename_i hi
    rw [onConnection, releaseStarted]
    split
    · rename_i i' hi'
      rw [hi] at hi'
      cases hi'
    · rfl

theorem execAll_onMessage (k : KeeperServer) (conn : TcpConnection) (m : Message) :
    k.execAll (k.messageOps conn m) = k.onMessage conn m := by
  unfold messageOps onMessage
  split
  · exact execAll_onQuery k conn _
  · simp [execAll, exec]
  · simp [execAll, exec]
  · simp [execAll, exec]

theorem execAll_onHubMessage (k : KeeperServer) (m : Message) :
    k.execAll (hubMessageOps m) = k.onHubMessage m := by
  unfold hubMessageOps onHubMessage
  split
  · simp [execAll, exec]
  · simp [execAll]

theorem execAll_onHubConnectionUp (k : KeeperServer) (conn : TcpConnection) :
    k.execAll (k.hubUpOps conn) = k.onHubConnectionUp conn := rfl

theorem execAll_onHubConnectionDown (k : KeeperServer) :
    k.execAll hubDownOps = k.onHubConnectionDown := rfl

end KeeperServer

end Mmvx.Server
