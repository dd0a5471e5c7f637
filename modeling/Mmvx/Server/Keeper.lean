/-
  `KeeperServer` (keeperserver/KeeperServer.{h,cc}): hands out the server ids of its configuration
  and relays between the hub and its forward servers.

  The ids in `serverStart_` are distinct and all occur in `serverConfig_`; the structure carries
  this, which is why `serverConfig_[i]` in `onConnection` is in bounds for an index of
  `serverStart_`.

  `onQuery_cases` and `onConnection_cases` say all that a query and a `DOWN` event can do.
-/
import Mathlib.Data.List.Perm.Subperm
import Mmvx.Lib.OrdMap
import Mmvx.Server.Messages

namespace Mmvx.Server

open Mmvx.Lib

structure ServerConfig where
  id : UInt16
  ttype : UInt16
  ip : String
  port : UInt16
  threads : UInt16
  deriving DecidableEq, Repr

structure ServerStart where
  id : UInt16
  start : Bool
  connName : String
  deriving DecidableEq, Repr

structure KeeperServer where
  server_ : TcpServer
  serverID_ : UInt16
  serverConfig_ : List ServerConfig
  serverStart_ : List ServerStart
  conns_ : OrdMap UInt16 Nat
  hubConn_ : Option Nat
  start_nodup : (serverStart_.map ServerStart.id).Nodup
  start_subset : serverStart_.map ServerStart.id ⊆ serverConfig_.map ServerConfig.id

namespace KeeperServer

/-- A keeper with its configuration loaded. -/
def ofConfig (hostport_ : String) (serverID_ : UInt16) (serverConfig_ : List ServerConfig) :
    KeeperServer where
  server_ := ⟨"KeeperServer", hostport_, 1⟩
  serverID_ := serverID_
  serverConfig_ := serverConfig_
  serverStart_ := []
  conns_ := .empty
  hubConn_ := none
  start_nodup := List.nodup_nil
  start_subset := List.nil_subset _

/-- The process starts again: empty tables, and connections are numbered from 1. -/
def restart (k : KeeperServer) : KeeperServer :=
  ofConfig k.server_.hostport_ k.serverID_ k.serverConfig_

def isStarted (k : KeeperServer) (serverID : UInt16) : Bool :=
  k.serverStart_.any fun s => s.id == serverID && s.start

/-- The loop of `setStarted`. -/
def setStart (serverID : UInt16) (start : Bool) (connName : String) :
    List ServerStart → List ServerStart
  | [] => [⟨serverID, start, connName⟩]
  | s :: ss =>
    if s.id = serverID then { s with start := start } :: ss
    else s :: setStart serverID start connName ss

theorem map_id_setStart (serverID : UInt16) (start : Bool) (connName : String)
    (ss : List ServerStart) : (setStart serverID start connName ss).map ServerStart.id =
      if serverID ∈ ss.map ServerStart.id then ss.map ServerStart.id
      else ss.map ServerStart.id ++ [serverID] := by
  induction ss with
  | nil => rfl
  | cons s ss ih =>
    rw [setStart]
    by_cases h : s.id = serverID
    · rw [if_pos h, List.map_cons, List.map_cons, if_pos (by simp [h])]
    · rw [if_neg h, List.map_cons, ih, List.map_cons]
      have hne : ¬ serverID = s.id := fun he => h he.symm
      by_cases hm : serverID ∈ ss.map ServerStart.id
      · rw [if_pos hm, if_pos (List.mem_cons_of_mem _ hm)]
      · rw [if_neg hm, if_neg (List.mem_cons.not.mpr (not_or.mpr ⟨hne, hm⟩)), List.cons_append]

theorem nodup_setStart {ss : List ServerStart} (h : (ss.map ServerStart.id).Nodup)
    (serverID : UInt16) (start : Bool) (connName : String) :
    ((setStart serverID start connName ss).map ServerStart.id).Nodup := by
  rw [map_id_setStart]
  split
  · exact h
  · rename_i hm
    rw [List.nodup_append]
    refine ⟨h, List.nodup_singleton _, ?_⟩
    intro a ha b hb hab
    rw [List.mem_singleton] at hb
    exact hm (by rw [← hb, ← hab]; exact ha)

theorem setStart_subset {ss : List ServerStart} {ids : List UInt16}
    (h : ss.map ServerStart.id ⊆ ids) {serverID : UInt16} (hid : serverID ∈ ids) (start : Bool)
    (connName : String) : (setStart serverID start connName ss).map ServerStart.id ⊆ ids := by
  rw [map_id_setStart]
  split
  · exact h
  · exact List.append_subset.mpr ⟨h, by simpa using hid⟩

def setStarted (k : KeeperServer) (serverID : UInt16) (start : Bool) (conn : TcpConnection)
    (h : serverID ∈ k.serverConfig_.map ServerConfig.id) : KeeperServer :=
  { k with
    serverStart_ := setStart serverID start conn.name k.serverStart_
    start_nodup := nodup_setStart k.start_nodup serverID start conn.name
    start_subset := setStart_subset k.start_subset h start conn.name }

/-- Distinct ids that all occur in the configuration are no more than it has rows. -/
theorem length_le_of_nodup {config : List ServerConfig} {ss : List ServerStart}
    (hnd : (ss.map ServerStart.id).Nodup)
    (hsub : ss.map ServerStart.id ⊆ config.map ServerConfig.id) : ss.length ≤ config.length := by
  have h := (List.Nodup.subperm hnd hsub).length_le
  simpa using h

theorem start_length_le (k : KeeperServer) : k.serverStart_.length ≤ k.serverConfig_.length :=
  length_le_of_nodup k.start_nodup k.start_subset

def sendToHub (k : KeeperServer) (m : Message) : List Effect := sendTo k.hubConn_ m

def sendToForward (k : KeeperServer) (id : UInt16) (m : Message) : List Effect :=
  sendTo (k.conns_.find id) m

/-- `serverStart_[i].connName == conn->name() && serverStart_[i].start == true`. -/
def startedBy (conn : TcpConnection) (s : ServerStart) : Bool :=
  s.connName == conn.name && s.start

/-- The `REMOVE` for a started server, with its address from the configuration. -/
def removeMessage (k : KeeperServer) (s : ServerStart) : UpdateForwardConns :=
  let config := k.serverConfig_.find? fun c => c.id == s.id
  { keeperserverid := k.serverID_.toUInt32
    forwardserverid := s.id.toUInt32
    forwardip := (config.map ServerConfig.ip).getD ""
    forwardport := (config.map fun c => c.port.toUInt32).getD 0
    oper := .REMOVE }

theorem lt_serverStart_of_find {k : KeeperServer} {conn : TcpConnection} {i : Nat}
    (h : k.serverStart_.findIdx? (startedBy conn) = some i) : i < k.serverStart_.length :=
  (List.findIdx?_eq_some_iff_getElem.mp h).1

theorem lt_serverConfig_of_lt (k : KeeperServer) {i : Nat} (hi : i < k.serverStart_.length) :
    i < k.serverConfig_.length :=
  Nat.lt_of_lt_of_le hi k.start_length_le

/-- The `for` loop of `onConnection`. It releases `serverConfig_[i].id` for the index `i` of the
    entry it found in `serverStart_`. -/
def releaseStarted (k : KeeperServer) (conn : TcpConnection) : KeeperServer × List Effect :=
  match h : k.serverStart_.findIdx? (startedBy conn) with
  | some i =>
    have hi : i < k.serverStart_.length := lt_serverStart_of_find h
    have hc : i < k.serverConfig_.length := k.lt_serverConfig_of_lt hi
    (k.setStarted k.serverConfig_[i].id false conn
        (List.mem_map.mpr ⟨_, List.getElem_mem hc, rfl⟩),
      k.sendToHub (.hubKeeperUpdateForwardConns (k.removeMessage k.serverStart_[i])))
  | none => (k, [])

/-- `onConnection` for a connection that is `DOWN`; for one that is `UP` it does nothing. -/
def onConnection (k : KeeperServer) (conn : TcpConnection) : KeeperServer × List Effect :=
  ({ (k.releaseStarted conn).1 with
      conns_ := (k.releaseStarted conn).1.conns_.eraseValue conn.ptr },
    (k.releaseStarted conn).2)

/-- The message by which a client of the hub registers. -/
def hubConnectionData (servertype serverid : UInt16) : Message :=
  .hubConnectionData ⟨servertype.toUInt32.toInt32, serverid.toUInt32.toInt32⟩

/-- `onHubConnection` for a connection that is `UP`. -/
def onHubConnectionUp (k : KeeperServer) (conn : TcpConnection) : KeeperServer × List Effect :=
  ({ k with hubConn_ := some conn.ptr },
    [.send conn.ptr (hubConnectionData SERVER_TYPE_KEEPER k.serverID_)])

/-- `onHubConnection` for a connection that is `DOWN`. -/
def onHubConnectionDown (k : KeeperServer) : KeeperServer × List Effect :=
  ({ k with hubConn_ := none }, [])

/-- The condition of the `if` in `onQuery`. -/
def matchesQuery (k : KeeperServer) (conn : TcpConnection) (m : KeeperQuery) (c : ServerConfig) :
    Bool :=
  c.ttype.toUInt32 == m.servertype && c.ip == conn.peerIp && !k.isStarted c.id

def answer (k : KeeperServer) (c : ServerConfig) : KeeperAnswer where
  keeperserverid := k.serverID_.toUInt32
  serverid := c.id.toUInt32
  ip := c.ip
  port := c.port.toUInt32
  threads := c.threads.toUInt32

def addMessage (k : KeeperServer) (c : ServerConfig) : UpdateForwardConns where
  keeperserverid := k.serverID_.toUInt32
  forwardserverid := c.id.toUInt32
  forwardip := c.ip
  forwardport := c.port.toUInt32
  oper := .ADD

def onQuery (k : KeeperServer) (conn : TcpConnection) (m : KeeperQuery) :
    KeeperServer × List Effect :=
  match h : k.serverConfig_.find? (k.matchesQuery conn m) with
  | some c =>
    let k' := k.setStarted c.id true conn
      (List.mem_map.mpr ⟨c, List.mem_of_find?_eq_some h, rfl⟩)
    ({ k' with conns_ := k'.conns_.insert c.id conn.ptr },
      .send conn.ptr (.keeperAnswer (k.answer c)) ::
        k.sendToHub (.hubKeeperUpdateForwardConns (k.addMessage c)))
  | none => (k, [.shutdown conn.ptr])

/-- `onKeeperForwardLogonSessionRet` and `onKeeperForwardUpdateForwardConns` copy their message,
    field by field, into the one for the hub, and `onHubKeeperLogonSession` into the one for the
    forward server. -/
def onMessage (k : KeeperServer) (conn : TcpConnection) : Message → KeeperServer × List Effect
  | .keeperQuery m => k.onQuery conn m
  | .keeperForwardLogonSessionRet m => (k, k.sendToHub (.hubKeeperLogonSessionRet m))
  | .keeperForwardUpdateForwardConns m => (k, k.sendToHub (.hubKeeperUpdateForwardConns m))
  -- `onUnknownMessage`
  | _ => (k, [.shutdown conn.ptr])

def onHubMessage (k : KeeperServer) : Message → KeeperServer × List Effect
  | .hubKeeperLogonSession m =>
    (k, k.sendToForward m.forwardserverid.toUInt32.toUInt16
      (.keeperForwardLogonSession ⟨m.uid, m.connname⟩))
  -- `onUnknownHubMessage` only logs
  | _ => (k, [])

/-! ## What a query and a release do to `serverStart_` -/

theorem isStarted_iff (k : KeeperServer) (s : UInt16) :
    k.isStarted s = true ↔ ∃ e ∈ k.serverStart_, e.id = s ∧ e.start = true := by
  simp [isStarted]

theorem mem_setStart {serverID : UInt16} {start : Bool} {connName : String} {ss : List ServerStart}
    {e : ServerStart} (h : e ∈ setStart serverID start connName ss)
    (hnd : (ss.map ServerStart.id).Nodup) :
    (e ∈ ss ∧ e.id ≠ serverID) ∨ (∃ e₀ ∈ ss, e₀.id = serverID ∧ e = { e₀ with start := start }) ∨
      e = ⟨serverID, start, connName⟩ := by
  induction ss with
  | nil => exact Or.inr (Or.inr (by simpa [setStart] using h))
  | cons s ss ih =>
    rw [List.map_cons, List.nodup_cons] at hnd
    rw [setStart] at h
    split at h
    · rename_i hs
      rcases List.mem_cons.mp h with rfl | h
      · exact Or.inr (Or.inl ⟨s, List.mem_cons_self, hs, rfl⟩)
      · refine Or.inl ⟨List.mem_cons_of_mem _ h, ?_⟩
        rintro rfl
        exact hnd.1 (by rw [hs]; exact List.mem_map_of_mem h)
    · rename_i hs
      rcases List.mem_cons.mp h with rfl | h
      · exact Or.inl ⟨List.mem_cons_self, hs⟩
      · rcases ih h hnd.2 with ⟨hm, hne⟩ | ⟨e₀, hm, hid, heq⟩ | heq
        · exact Or.inl ⟨List.mem_cons_of_mem _ hm, hne⟩
        · exact Or.inr (Or.inl ⟨e₀, List.mem_cons_of_mem _ hm, hid, heq⟩)
        · exact Or.inr (Or.inr heq)

theorem setStart_of_mem {serverID : UInt16} {start : Bool} {connName : String}
    {ss : List ServerStart} {e : ServerStart} (h : e ∈ ss) (hne : e.id ≠ serverID) :
    e ∈ setStart serverID start connName ss := by
  induction ss with
  | nil => cases h
  | cons s ss ih =>
    rw [setStart]
    split
    · rename_i hs
      rcases List.mem_cons.mp h with rfl | h
      · exact absurd hs hne
      · exact List.mem_cons_of_mem _ h
    · rcases List.mem_cons.mp h with rfl | h
      · exact List.mem_cons_self
      · exact List.mem_cons_of_mem _ (ih h)

theorem setStart_new {serverID : UInt16} {start : Bool} {connName : String}
    {ss : List ServerStart} :
    ∃ e ∈ setStart serverID start connName ss, e.id = serverID ∧ e.start = start := by
  induction ss with
  | nil => exact ⟨_, List.mem_singleton_self _, rfl, rfl⟩
  | cons s ss ih =>
    rw [setStart]
    split
    · rename_i hs
      exact ⟨_, List.mem_cons_self, hs, rfl⟩
    · obtain ⟨e, he, hid⟩ := ih
      exact ⟨e, List.mem_cons_of_mem _ he, hid⟩

/-- The id a query is answered, and the tables after it. -/
theorem onQuery_cases (k : KeeperServer) (conn : TcpConnection) (m : KeeperQuery) :
    (∃ c ∈ k.serverConfig_, k.isStarted c.id = false ∧
      (k.onQuery conn m).1.serverStart_ = setStart c.id true conn.name k.serverStart_ ∧
      (k.onQuery conn m).1.conns_ = k.conns_.insert c.id conn.ptr ∧
      (k.onQuery conn m).2 = .send conn.ptr (.keeperAnswer (k.answer c)) ::
        k.sendToHub (.hubKeeperUpdateForwardConns (k.addMessage c))) ∨
    k.onQuery conn m = (k, [.shutdown conn.ptr]) := by
  rw [onQuery]
  split
  · rename_i c hc
    refine Or.inl ⟨c, List.mem_of_find?_eq_some hc, ?_, rfl, rfl, rfl⟩
    have hm := List.find?_some hc
    simp only [matchesQuery, Bool.and_eq_true, Bool.not_eq_true'] at hm
    exact hm.2
  · exact Or.inr rfl

theorem any_setStart (serverID : UInt16) (connName : String) (ss : List ServerStart)
    (f : UInt16) : (setStart serverID true connName ss).any (fun s => s.id == f && s.start) =
      (ss.any (fun s => s.id == f && s.start) || decide (f = serverID)) := by
  induction ss with
  | nil =>
    by_cases hf : f = serverID
    · simp [setStart, hf]
    · simp [setStart, hf, beq_eq_false_iff_ne.mpr fun h : serverID = f => hf h.symm]
  | cons s ss ih =>
    rw [setStart]
    split
    · rename_i hs
      by_cases hf : f = serverID
      · simp [hs, hf]
      · have hne : (serverID == f) = false := beq_eq_false_iff_ne.mpr fun h => hf h.symm
        simp [hs, hf, hne]
    · rw [List.any_cons, ih, List.any_cons, Bool.or_assoc]

/-- Which ids are started after a query. -/
theorem onQuery_started (k : KeeperServer) (conn : TcpConnection) (m : KeeperQuery) :
    (∃ c, k.serverConfig_.find? (k.matchesQuery conn m) = some c ∧ k.isStarted c.id = false ∧
      (∀ f, (k.onQuery conn m).1.isStarted f = (k.isStarted f || decide (f = c.id))) ∧
      (k.onQuery conn m).2 = .send conn.ptr (.keeperAnswer (k.answer c)) ::
        k.sendToHub (.hubKeeperUpdateForwardConns (k.addMessage c))) ∨
    k.onQuery conn m = (k, [.shutdown conn.ptr]) := by
  rw [onQuery]
  split
  · rename_i c hc
    refine Or.inl ⟨c, hc, ?_, fun f => any_setStart c.id conn.name k.serverStart_ f, rfl⟩
    have hm := List.find?_some hc
    simp only [matchesQuery, Bool.and_eq_true, Bool.not_eq_true'] at hm
    exact hm.2
  · exact Or.inr rfl

/-- The id of the entry that `onConnection` finds, and the id it releases. -/
def released (k : KeeperServer) (conn : TcpConnection) : Option (UInt16 × UInt16) :=
  (k.serverStart_.findIdx? (startedBy conn)).bind fun i =>
    (k.serverStart_[i]?).bind fun s => (k.serverConfig_[i]?).map fun c => (s.id, c.id)

/-- A query touches `serverStart_` and `conns_` only. -/
theorem onQuery_frame (k : KeeperServer) (conn : TcpConnection) (m : KeeperQuery) :
    (k.onQuery conn m).1.serverID_ = k.serverID_ ∧ (k.onQuery conn m).1.hubConn_ = k.hubConn_ := by
  rw [onQuery]
  split <;> exact ⟨rfl, rfl⟩

/-- A `DOWN` event touches `serverStart_` and `conns_` only. -/
theorem onConnection_frame (k : KeeperServer) (conn : TcpConnection) :
    (k.onConnection conn).1.serverID_ = k.serverID_ ∧
      (k.onConnection conn).1.hubConn_ = k.hubConn_ ∧
      (k.onConnection conn).1.conns_ = k.conns_.eraseValue conn.ptr := by
  rw [onConnection, releaseStarted]
  split <;> exact ⟨rfl, rfl, rfl⟩

theorem onConnection_cases (k : KeeperServer) (conn : TcpConnection) :
    (∃ e ∈ k.serverStart_, ∃ s, startedBy conn e = true ∧ k.released conn = some (e.id, s) ∧
      (k.onConnection conn).1.serverStart_ = setStart s false conn.name k.serverStart_ ∧
      (k.onConnection conn).2 = k.sendToHub (.hubKeeperUpdateForwardConns (k.removeMessage e))) ∨
    ((∀ e ∈ k.serverStart_, startedBy conn e = false) ∧
      (k.onConnection conn).1.serverStart_ = k.serverStart_ ∧ (k.onConnection conn).2 = []) := by
  simp only [onConnection]
  rw [releaseStarted]
  split
  · rename_i i hi
    obtain ⟨hlt, hstart, -⟩ := List.findIdx?_eq_some_iff_getElem.mp hi
    have hc : i < k.serverConfig_.length := Nat.lt_of_lt_of_le hlt k.start_length_le
    refine Or.inl ⟨k.serverStart_[i], List.getElem_mem hlt, k.serverConfig_[i].id, hstart, ?_, rfl,
      rfl⟩
    rw [released, hi, Option.bind_some, List.getElem?_eq_getElem hlt, Option.bind_some,
      List.getElem?_eq_getElem hc, Option.map_some]
  · rename_i hnone
    refine Or.inr ⟨?_, rfl, rfl⟩
    simpa [List.findIdx?_eq_none_iff] using hnone

end KeeperServer

end Mmvx.Server
