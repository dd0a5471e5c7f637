/-
  The connections that the hub has registered.

  A run is any list of `HubConnectionData` messages and `DOWN` events in which the `DOWN` of a
  connection is its last event. `onConnection` clears `logonConn_` or the first entry of
  `keeperConns_` for a connection that goes down, and stops there. So the tables stay free of
  connections that are down exactly when a connection that goes down is in them at most once
  (`hub_registry_live_iff`).
-/
import Mmvx.Lib.Run
import Mmvx.Server.Hub

namespace Mmvx.Server

open Mmvx.Lib

inductive HubEvent where
  | data (conn : TcpConnection) (m : HubConnectionData)
  | down (conn : TcpConnection)
  deriving DecidableEq, Repr

/-- A hub and the connections whose `DOWN` it has processed. -/
structure HubRegistry where
  hub : HubServer
  downs : List Nat

namespace HubServer

/-- A connection is in one of the tables. -/
def Registered (h : HubServer) (ptr : Nat) : Prop :=
  h.logonConn_ = some ptr ∨ ∃ id, h.keeperConns_.find id = some ptr

/-- A connection is in at most one of the tables, and under one id only. -/
def RegisteredOnce (h : HubServer) (ptr : Nat) : Prop :=
  (h.logonConn_ = some ptr → ∀ id, h.keeperConns_.find id ≠ some ptr) ∧
    ∀ id id', h.keeperConns_.find id = some ptr → h.keeperConns_.find id' = some ptr → id = id'

theorem registered_of_onHubConnectionData {h : HubServer} {conn : TcpConnection}
    {m : HubConnectionData} {ptr : Nat}
    (hr : (h.onHubConnectionData conn m).1.Registered ptr) : ptr = conn.ptr ∨ h.Registered ptr := by
  unfold onHubConnectionData at hr
  split at hr
  · rcases hr with hlogon | ⟨id, hid⟩
    · exact Or.inl (Option.some.inj hlogon).symm
    · exact Or.inr (Or.inr ⟨id, hid⟩)
  · split at hr
    · rcases hr with hlogon | ⟨id, hid⟩
      · exact Or.inr (Or.inl hlogon)
      · replace hid := (OrdMap.find_insert _ _ _ _).symm.trans hid
        split at hid
        · exact Or.inl (Option.some.inj hid).symm
        · exact Or.inr (Or.inr ⟨id, hid⟩)
    · exact Or.inr hr

/-- A `DOWN` event registers no one. -/
theorem registered_of_onConnection {h : HubServer} {conn : TcpConnection} {ptr : Nat}
    (hr : (h.onConnection conn).1.Registered ptr) : h.Registered ptr := by
  unfold onConnection at hr
  split at hr
  · rcases hr with hlogon | hkeeper
    · cases hlogon
    · exact Or.inr hkeeper
  · rcases hr with hlogon | ⟨id, hid⟩
    · exact Or.inl hlogon
    · exact Or.inr ⟨id, OrdMap.find_eraseValue_of_some hid⟩

/-- A connection that goes down is out of the tables exactly when it was in them at most once. -/
theorem not_registered_onConnection_iff (h : HubServer) (conn : TcpConnection) :
    ¬ (h.onConnection conn).1.Registered conn.ptr ↔ h.RegisteredOnce conn.ptr := by
  unfold onConnection Registered RegisteredOnce
  split
  · rename_i hlogon
    simp only [reduceCtorEq, false_or, not_exists, hlogon, forall_const]
    exact ⟨fun hnone => ⟨hnone, fun id _ hid => absurd hid (hnone id)⟩, And.left⟩
  · rename_i hlogon
    simp only [hlogon, false_or, not_exists, false_implies, true_and]
    exact OrdMap.eraseValue_clears_iff

/-- The `DOWN` of a connection leaves the entries of the others alone. -/
theorem find_onConnection_of_ne {h : HubServer} {conn : TcpConnection} {id : UInt16} {ptr : Nat}
    (hid : h.keeperConns_.find id = some ptr) (hne : ptr ≠ conn.ptr) :
    (h.onConnection conn).1.keeperConns_.find id = some ptr := by
  unfold onConnection
  split
  · exact hid
  · exact OrdMap.find_eraseValue_of_ne hid hne

end HubServer

namespace HubRegistry

def step (r : HubRegistry) : HubEvent → Option HubRegistry
  | .data conn m =>
    if conn.ptr ∈ r.downs then none else some { r with hub := (r.hub.onHubConnectionData conn m).1 }
  | .down conn =>
    if conn.ptr ∈ r.downs then none
    else some ⟨(r.hub.onConnection conn).1, conn.ptr :: r.downs⟩

/-- No connection that is down is registered. -/
def Live (r : HubRegistry) : Prop := ∀ ptr, r.hub.Registered ptr → ptr ∉ r.downs

theorem Live.data {r r' : HubRegistry} (h : r.Live) {conn : TcpConnection} {m : HubConnectionData}
    (hs : r.step (.data conn m) = some r') : r'.Live := by
  rw [step] at hs
  split at hs
  · cases hs
  · rename_i hup
    obtain rfl := Option.some.inj hs
    intro ptr hr
    rcases HubServer.registered_of_onHubConnectionData hr with rfl | hr
    · exact hup
    · exact h ptr hr

theorem step_down {r r' : HubRegistry} {conn : TcpConnection}
    (hs : r.step (.down conn) = some r') :
    r' = ⟨(r.hub.onConnection conn).1, conn.ptr :: r.downs⟩ := by
  rw [step] at hs
  split at hs
  · cases hs
  · exact (Option.some.inj hs).symm

theorem Live.down_iff {r r' : HubRegistry} (h : r.Live) {conn : TcpConnection}
    (hs : r.step (.down conn) = some r') : r'.Live ↔ r.hub.RegisteredOnce conn.ptr := by
  rw [step_down hs, ← HubServer.not_registered_onConnection_iff]
  constructor
  · intro hlive hr
    exact hlive _ hr List.mem_cons_self
  · intro hnot ptr hr
    refine List.not_mem_cons_of_ne_of_not_mem ?_ (h ptr (HubServer.registered_of_onConnection hr))
    rintro rfl
    exact hnot hr

/-- A connection that goes down is in the tables at most once. -/
def DownOnce (r : HubRegistry) (e : HubEvent) : Prop :=
  ∀ conn, e = .down conn → r.hub.RegisteredOnce conn.ptr

theorem Live.step_iff {r r' : HubRegistry} (h : r.Live) {e : HubEvent} (hs : r.step e = some r') :
    r'.Live ↔ r.DownOnce e := by
  cases e with
  | data conn m =>
    refine ⟨fun _ conn' hconn => ?_, fun _ => h.data hs⟩
    cases hconn
  | down conn =>
    rw [h.down_iff hs]
    constructor
    · intro honce conn' hconn
      cases hconn
      exact honce
    · intro honce
      exact honce conn rfl

def init : HubRegistry := ⟨.empty, []⟩

theorem live_init : init.Live := by
  rintro ptr (hlogon | ⟨id, hid⟩)
  · cases hlogon
  · rw [show init.hub.keeperConns_ = .empty from rfl, OrdMap.find_empty] at hid
    cases hid

end HubRegistry

open HubRegistry

/-- **The hub's tables hold live connections only** exactly when every connection that goes down is
    in them at most once: as the logon server or as a keeper under one id. The `DOWN` of a
    connection removes no entry of another one in any run. -/
theorem hub_registry_live_iff (events : List HubEvent) :
    ((∀ i r, run HubRegistry.step HubRegistry.init (events.take i) = some r → r.Live) ↔
      ∀ i e r r', events[i]? = some e →
        run HubRegistry.step HubRegistry.init (events.take i) = some r → r.step e = some r' →
          r.DownOnce e) ∧
    ∀ i conn r r', events[i]? = some (.down conn) →
      run HubRegistry.step HubRegistry.init (events.take i) = some r →
      r.step (.down conn) = some r' →
        ∀ id ptr, r.hub.keeperConns_.find id = some ptr → ptr ≠ conn.ptr →
          r'.hub.keeperConns_.find id = some ptr := by
  refine ⟨?_, ?_⟩
  · exact forall_states_iff (I := fun _ => True) trivial (fun _ _ _ _ _ => trivial) live_init
      (fun r e r' _ hlive hs => hlive.step_iff hs) events
  · intro i conn r r' _ _ hs id ptr hid hne
    rw [step_down hs]
    exact HubServer.find_onConnection_of_ne hid hne

/-- The first connection that the hub of the Lua configuration accepts. -/
def luaHubConn : TcpConnection := ⟨1, "HubServer:127.0.0.1:10021#1", "127.0.0.1"⟩

/-- A connection registers as two keepers and goes down: the second entry stays. -/
theorem hub_registry_stale :
    ¬ ∀ (events : List HubEvent) (i : Nat) (r : HubRegistry),
      run HubRegistry.step HubRegistry.init (events.take i) = some r → r.Live := by
  intro h
  have hstale := h [.data luaHubConn ⟨101, 10101⟩, .data luaHubConn ⟨101, 10102⟩,
    .down luaHubConn] 3 _ rfl
  exact hstale 1 (Or.inr ⟨10102, by decide⟩) (by decide)

end Mmvx.Server
