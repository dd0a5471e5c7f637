/-
  The vectors `serverConfig_` and `serverStart_` of `KeeperServer` without the bounds that
  `KeeperServer` carries.

  `onConnection` reads `serverConfig_[i]` for an index `i` of `serverStart_`. Here the vectors are
  plain lists and a read outside of one fails. From any configuration and through any queries and
  `DOWN` events no read fails (`serverConfig_index_in_range`): the ids in `serverStart_` are distinct
  and all occur in `serverConfig_`. What `KeeperServer` does to its vectors is what is done here
  (`vectors_onQuery`, `vectors_onConnection`).
-/
import Mmvx.Lib.Run
import Mmvx.Server.Keeper

namespace Mmvx.Server

open Mmvx.Lib

structure KeeperVectors where
  serverConfig_ : List ServerConfig
  serverStart_ : List ServerStart
  deriving DecidableEq, Repr

namespace KeeperVectors

def isStarted (v : KeeperVectors) (serverID : UInt16) : Bool :=
  v.serverStart_.any fun s => s.id == serverID && s.start

def setStarted (v : KeeperVectors) (serverID : UInt16) (start : Bool) (conn : TcpConnection) :
    KeeperVectors :=
  { v with serverStart_ := KeeperServer.setStart serverID start conn.name v.serverStart_ }

def onQuery (v : KeeperVectors) (conn : TcpConnection) (m : KeeperQuery) : KeeperVectors :=
  match v.serverConfig_.find? (fun c =>
    c.ttype.toUInt32 == m.servertype && c.ip == conn.peerIp && !v.isStarted c.id) with
  | some c => v.setStarted c.id true conn
  | none => v

/-- `onConnection` for a connection that is `DOWN`; `none` where `serverConfig_[i]` is not there. -/
def onConnection (v : KeeperVectors) (conn : TcpConnection) : Option KeeperVectors :=
  match v.serverStart_.findIdx? (KeeperServer.startedBy conn) with
  | some i => (v.serverConfig_[i]?).map fun c => v.setStarted c.id false conn
  | none => some v

inductive Event where
  | query (conn : TcpConnection) (m : KeeperQuery)
  | down (conn : TcpConnection)
  deriving DecidableEq, Repr

def step (v : KeeperVectors) : Event → Option KeeperVectors
  | .query conn m => some (v.onQuery conn m)
  | .down conn => v.onConnection conn

/-- The ids in `serverStart_` are distinct and all occur in `serverConfig_`. -/
structure Bounded (v : KeeperVectors) : Prop where
  nodup : (v.serverStart_.map ServerStart.id).Nodup
  subset : v.serverStart_.map ServerStart.id ⊆ v.serverConfig_.map ServerConfig.id

theorem Bounded.length_le {v : KeeperVectors} (h : v.Bounded) :
    v.serverStart_.length ≤ v.serverConfig_.length :=
  KeeperServer.length_le_of_nodup h.nodup h.subset

theorem Bounded.index_lt {v : KeeperVectors} (h : v.Bounded) {conn : TcpConnection} {i : Nat}
    (hi : v.serverStart_.findIdx? (KeeperServer.startedBy conn) = some i) :
    i < v.serverConfig_.length := by
  obtain ⟨hlt, -⟩ := List.findIdx?_eq_some_iff_getElem.mp hi
  exact Nat.lt_of_lt_of_le hlt h.length_le

theorem Bounded.setStarted {v : KeeperVectors} (h : v.Bounded) {c : ServerConfig}
    (hc : c ∈ v.serverConfig_) (start : Bool) (conn : TcpConnection) :
    (v.setStarted c.id start conn).Bounded :=
  ⟨KeeperServer.nodup_setStart h.nodup _ _ _,
    KeeperServer.setStart_subset h.subset (List.mem_map_of_mem hc) _ _⟩

theorem Bounded.onQuery {v : KeeperVectors} (h : v.Bounded) (conn : TcpConnection)
    (m : KeeperQuery) :
    (v.onQuery conn m).Bounded ∧ (v.onQuery conn m).serverConfig_ = v.serverConfig_ := by
  unfold KeeperVectors.onQuery
  split
  · rename_i c hc
    exact ⟨h.setStarted (List.mem_of_find?_eq_some hc) _ _, rfl⟩
  · exact ⟨h, rfl⟩

theorem Bounded.onConnection {v : KeeperVectors} (h : v.Bounded) (conn : TcpConnection) :
    ∃ v', v.onConnection conn = some v' ∧ v'.Bounded ∧ v'.serverConfig_ = v.serverConfig_ := by
  unfold KeeperVectors.onConnection
  split
  · rename_i i hi
    have hlt := h.index_lt hi
    rw [List.getElem?_eq_getElem hlt]
    exact ⟨_, rfl, h.setStarted (List.getElem_mem hlt) _ _, rfl⟩
  · exact ⟨v, rfl, h, rfl⟩

theorem Bounded.step {v : KeeperVectors} (h : v.Bounded) (e : Event) :
    ∃ v', v.step e = some v' ∧ v'.Bounded ∧ v'.serverConfig_ = v.serverConfig_ := by
  cases e with
  | query conn m =>
    obtain ⟨hb, hc⟩ := h.onQuery conn m
    exact ⟨_, rfl, hb, hc⟩
  | down conn => exact h.onConnection conn

theorem Bounded.run {v : KeeperVectors} (h : v.Bounded) (events : List Event) :
    ∃ v', Lib.run KeeperVectors.step v events = some v' ∧ v'.Bounded ∧
      v'.serverConfig_ = v.serverConfig_ := by
  induction events generalizing v with
  | nil => exact ⟨v, rfl, h, rfl⟩
  | cons e events ih =>
    obtain ⟨v₁, hstep, h₁, hc₁⟩ := h.step e
    obtain ⟨v₂, hrun, h₂, hc₂⟩ := ih h₁
    refine ⟨v₂, ?_, h₂, hc₂.trans hc₁⟩
    rw [Lib.run, runFrom, if_pos trivial, hstep, Option.bind_some]
    exact hrun

/-- **The read on disconnect is in range.** From any configuration, no event of any run reads
    outside of `serverConfig_`: in every state reached the ids in `serverStart_` are distinct and
    occur in `serverConfig_`, so that `serverStart_` is not the longer of the two, and the index that
    `onConnection` finds in it is one of `serverConfig_`. -/
theorem serverConfig_index_in_range (config : List ServerConfig) (events : List Event) :
    ∃ v, Lib.run KeeperVectors.step ⟨config, []⟩ events = some v ∧ v.serverConfig_ = config ∧
      (v.serverStart_.map ServerStart.id).Nodup ∧
      v.serverStart_.map ServerStart.id ⊆ config.map ServerConfig.id ∧
      v.serverStart_.length ≤ config.length ∧
      ∀ conn i, v.serverStart_.findIdx? (KeeperServer.startedBy conn) = some i →
        i < config.length := by
  have hstart : KeeperVectors.Bounded ⟨config, []⟩ := ⟨List.nodup_nil, List.nil_subset _⟩
  obtain ⟨v, hrun, hv, hc⟩ := hstart.run events
  have hc : v.serverConfig_ = config := hc
  refine ⟨v, hrun, hc, hv.nodup, ?_, ?_, ?_⟩
  · rw [← hc]
    exact hv.subset
  · rw [← hc]
    exact hv.length_le
  · intro conn i hi
    rw [← hc]
    exact hv.index_lt hi

end KeeperVectors

namespace KeeperServer

def vectors (k : KeeperServer) : KeeperVectors := ⟨k.serverConfig_, k.serverStart_⟩

/-- `KeeperServer` does to its vectors what is done here. -/
theorem vectors_onQuery (k : KeeperServer) (conn : TcpConnection) (m : KeeperQuery) :
    (k.onQuery conn m).1.vectors = k.vectors.onQuery conn m := by
  rw [onQuery, KeeperVectors.onQuery]
  split
  · rename_i c hc
    have hc' : k.vectors.serverConfig_.find? (fun c => c.ttype.toUInt32 == m.servertype &&
        c.ip == conn.peerIp && !k.vectors.isStarted c.id) = some c := hc
    rw [hc']
    rfl
  · rename_i hc
    have hc' : k.vectors.serverConfig_.find? (fun c => c.ttype.toUInt32 == m.servertype &&
        c.ip == conn.peerIp && !k.vectors.isStarted c.id) = none := hc
    rw [hc']

theorem vectors_onConnection (k : KeeperServer) (conn : TcpConnection) :
    k.vectors.onConnection conn = some (k.onConnection conn).1.vectors := by
  rw [onConnection, KeeperVectors.onConnection, releaseStarted]
  split
  · rename_i i hi
    have hlt : i < k.vectors.serverConfig_.length :=
      k.lt_serverConfig_of_lt (lt_serverStart_of_find hi)
    rw [List.getElem?_eq_getElem hlt]
    split
    · rename_i i' hi'
      obtain rfl : i = i' := Option.some.inj (hi.symm.trans hi')
      rfl
    · rename_i hn
      cases hn.symm.trans hi
  · rename_i hi
    split
    · rename_i i' hi'
      cases hi.symm.trans hi'
    · rfl

end KeeperServer

end Mmvx.Server
