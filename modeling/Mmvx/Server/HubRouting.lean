/-
  By which id the hub finds a keeper.

  `HubConnectionData` carries an `int32` id, `HubKeeperUpdateForwardConns` and
  `HubLogonQueryForwardID` a `uint32` one, and both tables of the hub are keyed by the `uint16_t` it
  is cut to. `Grounded` says where the entries of the tables come from: an entry under a key was
  made by a message whose id has that key. So the hub routes by exact id exactly when no two
  different ids in use have the same key (`hub_routes_exactly_iff`).
-/
import Mathlib.Data.Set.Defs
import Mmvx.Server.HubTable

namespace Mmvx.Server

open Mmvx.Lib

inductive HubInput where
  | message (conn : TcpConnection) (m : Message)
  | down (conn : TcpConnection)
  deriving DecidableEq, Repr

namespace HubServer

def handle (h : HubServer) : HubInput → HubServer
  | .message conn m => (h.onMessage conn m).1
  | .down conn => (h.onConnection conn).1

/-- The hub after a list of inputs. -/
def after (inputs : List HubInput) : HubServer := inputs.foldl handle .empty

end HubServer

/-- `KeeperServerID` of the id in `HubConnectionData`. -/
def serverKey (serverid : Int32) : UInt16 := serverid.toUInt32.toUInt16

/-- The connection `p` has registered as a keeper with the id. -/
def RegisteredAs (inputs : List HubInput) (p : Nat) (serverid : Int32) : Prop :=
  ∃ conn m, .message conn (.hubConnectionData m) ∈ inputs ∧ conn.ptr = p ∧
    m.servertype = SERVER_TYPE_KEEPER.toUInt32.toInt32 ∧ m.serverid = serverid

/-- The forward server has been added for the keeper. -/
def Added (inputs : List HubInput) (keeperserverid forwardserverid : UInt32) : Prop :=
  ∃ conn m, .message conn (.hubKeeperUpdateForwardConns m) ∈ inputs ∧ m.oper = .ADD ∧
    m.keeperserverid = keeperserverid ∧ m.forwardserverid = forwardserverid

/-- Every entry of the tables comes from an id with its key. -/
structure Grounded (inputs : List HubInput) (h : HubServer) : Prop where
  conns : ∀ key p, h.keeperConns_.find key = some p →
    ∃ serverid, RegisteredAs inputs p serverid ∧ serverKey serverid = key
  forwards : ∀ key, ∀ d ∈ h.forwards key, ∃ k f, Added inputs k f ∧ k.toUInt16 = key ∧
    f.toUInt16 = d.id

namespace Grounded

variable {inputs : List HubInput} {h : HubServer}

theorem onHubConnectionData (hg : Grounded inputs h) {conn : TcpConnection} {m : HubConnectionData}
    (hm : .message conn (.hubConnectionData m) ∈ inputs) :
    Grounded inputs (h.onHubConnectionData conn m).1 := by
  unfold HubServer.onHubConnectionData
  split
  · exact ⟨hg.conns, hg.forwards⟩
  · split
    · rename_i htype
      refine ⟨?_, hg.forwards⟩
      intro key p hp
      replace hp := (OrdMap.find_insert _ _ _ _).symm.trans hp
      split at hp
      · rename_i hkey
        exact ⟨m.serverid, ⟨conn, m, hm, Option.some.inj hp, htype, rfl⟩, hkey.symm⟩
      · exact hg.conns key p hp
    · exact hg

/-- An id of a list after an update was there before or has been added. -/
theorem mem_updateList {f : UInt16} {ip : String} {port : UInt16} {oper : Operation}
    {l : List ForwardServerData} {d : ForwardServerData}
    (hd : d ∈ HubServer.updateList f ip port oper l) :
    (∃ d' ∈ l, d'.id = d.id) ∨ (oper = .ADD ∧ f = d.id) := by
  have hold (hoper : HubServer.updateList f ip port oper l = HubServer.updateFirst f oper l) :
      ∃ d' ∈ l, d'.id = d.id := by
    rw [hoper] at hd
    have hmem := (updateFirst_sublist f oper l).subset (List.mem_map_of_mem hd)
    obtain ⟨d', hd', hid⟩ := List.mem_map.mp hmem
    exact ⟨d', hd', hid⟩
  cases oper with
  | ADD =>
    rcases List.mem_append.mp hd with hd | hd
    · exact Or.inl ⟨d, hd, rfl⟩
    · rw [List.mem_singleton.mp hd]
      exact Or.inr ⟨rfl, rfl⟩
  | REMOVE => exact Or.inl (hold rfl)
  | INC => exact Or.inl (hold rfl)
  | DEC => exact Or.inl (hold rfl)

theorem onHubKeeperUpdateForwardConns (hg : Grounded inputs h) {conn : TcpConnection}
    {m : UpdateForwardConns} (hm : .message conn (.hubKeeperUpdateForwardConns m) ∈ inputs) :
    Grounded inputs (h.onHubKeeperUpdateForwardConns m).1 := by
  refine ⟨hg.conns, ?_⟩
  intro key d hd
  rw [forwards_update] at hd
  split at hd
  · rename_i hkey
    obtain ⟨d', hd', hid⟩ | ⟨hadd, hid⟩ := mem_updateList hd
    · rw [← hid]
      exact hg.forwards key d' hd'
    · exact ⟨_, _, ⟨conn, m, hm, hadd, rfl, rfl⟩, hkey.symm, hid⟩
  · exact hg.forwards key d hd

theorem onConnection (hg : Grounded inputs h) (conn : TcpConnection) :
    Grounded inputs (h.onConnection conn).1 := by
  unfold HubServer.onConnection
  split
  · exact ⟨hg.conns, hg.forwards⟩
  · exact ⟨fun key p hp => hg.conns key p (OrdMap.find_eraseValue_of_some hp), hg.forwards⟩

theorem handle (hg : Grounded inputs h) {x : HubInput} (hx : x ∈ inputs) :
    Grounded inputs (h.handle x) := by
  match x with
  | .message conn (.hubConnectionData m) => exact hg.onHubConnectionData hx
  | .message conn (.hubKeeperUpdateForwardConns m) => exact hg.onHubKeeperUpdateForwardConns hx
  | .message conn (.hubLogonQueryForwardID m) =>
    have hsame : h.handle (.message conn (.hubLogonQueryForwardID m)) = h := by
      unfold HubServer.handle HubServer.onMessage HubServer.onHubLogonQueryForwardID
      dsimp only
      split <;> rfl
    rw [hsame]
    exact hg
  | .message conn (.hubKeeperLogonSessionRet m) => exact hg
  | .message conn (.logon m) => exact hg
  | .message conn (.logonRet m) => exact hg
  | .message conn (.hubLogonAnswerForwardID m) => exact hg
  | .message conn (.hubKeeperLogonSession m) => exact hg
  | .message conn (.keeperQuery m) => exact hg
  | .message conn (.keeperAnswer m) => exact hg
  | .message conn (.keeperForwardUpdateForwardConns m) => exact hg
  | .message conn (.keeperForwardLogonSession m) => exact hg
  | .message conn (.keeperForwardLogonSessionRet m) => exact hg
  | .down conn => exact hg.onConnection conn

end Grounded

theorem grounded_after (inputs : List HubInput) : Grounded inputs (HubServer.after inputs) := by
  suffices hgen : ∀ rest h, rest ⊆ inputs → Grounded inputs h →
      Grounded inputs (rest.foldl HubServer.handle h) by
    refine hgen inputs .empty (List.Subset.refl _) ⟨?_, ?_⟩
    · intro key p hp
      rw [HubServer.empty, OrdMap.find_empty] at hp
      cases hp
    · intro key d hd
      rw [HubServer.forwards, HubServer.empty, OrdMap.find_empty] at hd
      cases hd
  intro rest
  induction rest with
  | nil => exact fun h _ hg => hg
  | cons x rest ih =>
    intro h hsub hg
    obtain ⟨hx, hrest⟩ := List.cons_subset.mp hsub
    exact ih (h.handle x) hrest (hg.handle hx)

/-! ## Queries -/

/-- What a query of the logon server may cause: a `HubKeeperLogonSession` goes to a connection that
    has registered with the id of the query, and names a forward server that has been added for that
    id. -/
def RoutesExactly (inputs : List HubInput) (q : HubLogonQueryForwardID) : Prop :=
  ∀ p m, Effect.send p (.hubKeeperLogonSession m) ∈
      ((HubServer.after inputs).onHubLogonQueryForwardID q).2 →
    (∃ serverid, RegisteredAs inputs p serverid ∧ serverid.toInt = q.keeperserverid.toNat) ∧
    ∃ f, Added inputs q.keeperserverid f ∧ m.forwardserverid.toInt = f.toNat

/-- The ids that are in use: of keepers that register, of keepers and forward servers in `ADD`s, and
    of keepers in queries. -/
structure Ids where
  servers : Set Int32
  adds : Set (UInt32 × UInt32)
  queries : Set UInt32

/-- The input uses these ids only. -/
def Ids.Admits (ids : Ids) : HubInput → Prop
  | .message _ (.hubConnectionData m) =>
    m.servertype = SERVER_TYPE_KEEPER.toUInt32.toInt32 → m.serverid ∈ ids.servers
  | .message _ (.hubKeeperUpdateForwardConns m) =>
    m.oper = .ADD → (m.keeperserverid, m.forwardserverid) ∈ ids.adds
  | _ => True

/-- A query for `k` can be passed on at all. -/
def Ids.Answered (ids : Ids) (k : UInt32) : Prop :=
  (∃ serverid ∈ ids.servers, serverKey serverid = k.toUInt16) ∧
    ∃ a ∈ ids.adds, a.1.toUInt16 = k.toUInt16

/-- `k` is the only id in use with its key, and the forward servers that are added for it have ids
    of 16 bits. -/
def Ids.Exact (ids : Ids) (k : UInt32) : Prop :=
  (∀ serverid ∈ ids.servers, serverKey serverid = k.toUInt16 → serverid.toInt = k.toNat) ∧
    ∀ a ∈ ids.adds, a.1.toUInt16 = k.toUInt16 → a.1 = k ∧ a.2.toNat < 65536

theorem RegisteredAs.mem {ids : Ids} {inputs : List HubInput} {p : Nat} {serverid : Int32}
    (h : RegisteredAs inputs p serverid) (hids : ∀ x ∈ inputs, ids.Admits x) :
    serverid ∈ ids.servers := by
  obtain ⟨conn, m, hm, -, htype, rfl⟩ := h
  exact hids _ hm htype

theorem Added.mem {ids : Ids} {inputs : List HubInput} {k f : UInt32} (h : Added inputs k f)
    (hids : ∀ x ∈ inputs, ids.Admits x) : (k, f) ∈ ids.adds := by
  obtain ⟨conn, m, hm, hadd, rfl, rfl⟩ := h
  exact hids _ hm hadd

/-- The id of a forward server on its way through 16 bits. -/
theorem toInt_forwardID (f : UInt32) :
    f.toUInt16.toUInt32.toInt32.toInt = (f.toNat % 65536 : Nat) := by
  have hint : f.toUInt16.toUInt32.toInt32.toInt =
      (f.toUInt16.toUInt32.toNat : Int).bmod (2 ^ 32) := BitVec.toInt_eq_toNat_bmod _
  rw [hint, UInt16.toNat_toUInt32, UInt32.toNat_toUInt16,
    Int.bmod_eq_of_le_mul_two (by omega) (by omega)]

/-- Where the message of a query goes and what it names. -/
theorem mem_onHubLogonQueryForwardID {h : HubServer} {q : HubLogonQueryForwardID} {p : Nat}
    {m : HubKeeperLogonSession}
    (hm : Effect.send p (.hubKeeperLogonSession m) ∈ (h.onHubLogonQueryForwardID q).2) :
    h.keeperConns_.find q.keeperserverid.toUInt16 = some p ∧
      ∃ d ∈ h.forwards q.keeperserverid.toUInt16, m.forwardserverid = d.id.toUInt32.toInt32 := by
  unfold HubServer.onHubLogonQueryForwardID at hm
  dsimp only at hm
  split at hm
  · rename_i d ds hforwards
    obtain ⟨p', hp, heq⟩ := mem_sendTo.mp hm
    cases heq
    exact ⟨hp, _, hforwards ▸ (foldl_min d ds).1, rfl⟩
  · cases hm

/-- Ids that are alone with their key are routed exactly. -/
theorem Ids.Exact.routes {ids : Ids} {inputs : List HubInput} (hids : ∀ x ∈ inputs, ids.Admits x)
    {q : HubLogonQueryForwardID}
    (h : ids.Answered q.keeperserverid → ids.Exact q.keeperserverid) : RoutesExactly inputs q := by
  intro p m hm
  have hg := grounded_after inputs
  obtain ⟨hp, d, hd, hname⟩ := mem_onHubLogonQueryForwardID hm
  obtain ⟨serverid, hreg, hkey⟩ := hg.conns _ _ hp
  obtain ⟨k, f, hadd, hk, hf⟩ := hg.forwards _ d hd
  have hserver := hreg.mem hids
  have hpair := hadd.mem hids
  obtain ⟨hservers, hadds⟩ := h ⟨⟨serverid, hserver, hkey⟩, (k, f), hpair, hk⟩
  obtain ⟨rfl, hsmall⟩ := hadds (k, f) hpair hk
  refine ⟨⟨serverid, hreg, hservers serverid hserver hkey⟩, f, hadd, ?_⟩
  rw [hname, ← hf, toInt_forwardID, Nat.mod_eq_of_lt hsmall]

/-- One keeper registers and adds one forward server. -/
def oneKeeper (conn : TcpConnection) (serverid : Int32) (k f : UInt32) : List HubInput :=
  [.message conn (.hubConnectionData ⟨SERVER_TYPE_KEEPER.toUInt32.toInt32, serverid⟩),
    .message conn (.hubKeeperUpdateForwardConns ⟨k, f, "", 0, .ADD⟩)]

/-- A query with the key of both ids is passed on. -/
theorem oneKeeper_sends (conn : TcpConnection) {serverid : Int32} {k f : UInt32}
    {q : HubLogonQueryForwardID} (hserver : serverKey serverid = q.keeperserverid.toUInt16)
    (hk : k.toUInt16 = q.keeperserverid.toUInt16) :
    Effect.send conn.ptr (.hubKeeperLogonSession ⟨q.uid, q.connname, f.toUInt16.toUInt32.toInt32⟩) ∈
      ((HubServer.after (oneKeeper conn serverid k f)).onHubLogonQueryForwardID q).2 := by
  let h₁ := (HubServer.empty.onHubConnectionData conn
    ⟨SERVER_TYPE_KEEPER.toUInt32.toInt32, serverid⟩).1
  have hafter : HubServer.after (oneKeeper conn serverid k f) =
      (h₁.onHubKeeperUpdateForwardConns ⟨k, f, "", 0, .ADD⟩).1 := rfl
  have hh₁ : h₁ = { HubServer.empty with
      keeperConns_ := OrdMap.empty.insert (serverKey serverid) conn.ptr } := by
    have hne : SERVER_TYPE_KEEPER.toUInt32.toInt32 ≠ SERVER_TYPE_LOGON.toUInt32.toInt32 := by decide
    show (HubServer.empty.onHubConnectionData conn _).1 = _
    rw [HubServer.onHubConnectionData, if_neg hne, if_pos rfl]
    rfl
  have hconn : (HubServer.after (oneKeeper conn serverid k f)).keeperConns_.find
      q.keeperserverid.toUInt16 = some conn.ptr := by
    rw [hafter, hh₁]
    exact (OrdMap.find_insert _ _ _ _).trans (if_pos hserver.symm)
  have hforwards : (HubServer.after (oneKeeper conn serverid k f)).forwards
      q.keeperserverid.toUInt16 = [⟨f.toUInt16, "", 0, 0⟩] := by
    rw [hafter, forwards_update, if_pos hk.symm, hh₁]
    rfl
  unfold HubServer.onHubLogonQueryForwardID
  dsimp only
  rw [hforwards]
  exact mem_sendTo.mpr ⟨conn.ptr, hconn, rfl⟩

theorem registeredAs_oneKeeper {conn : TcpConnection} {serverid serverid' : Int32} {k f : UInt32}
    {p : Nat} (h : RegisteredAs (oneKeeper conn serverid k f) p serverid') :
    serverid' = serverid := by
  obtain ⟨conn', m, hm, -, -, rfl⟩ := h
  simp only [oneKeeper, List.mem_cons, HubInput.message.injEq, Message.hubConnectionData.injEq,
    reduceCtorEq, and_false, List.not_mem_nil, or_false] at hm
  rw [hm.2]

theorem added_oneKeeper {conn : TcpConnection} {serverid : Int32} {k f k' f' : UInt32}
    (h : Added (oneKeeper conn serverid k f) k' f') : k' = k ∧ f' = f := by
  obtain ⟨conn', m, hm, -, rfl, rfl⟩ := h
  simp only [oneKeeper, List.mem_cons, HubInput.message.injEq, reduceCtorEq, and_false,
    Message.hubKeeperUpdateForwardConns.injEq, List.not_mem_nil, or_false, false_or] at hm
  rw [hm.2]
  exact ⟨rfl, rfl⟩

theorem admits_oneKeeper {ids : Ids} (conn : TcpConnection) {serverid : Int32} {k f : UInt32}
    (hserver : serverid ∈ ids.servers) (hadd : (k, f) ∈ ids.adds) :
    ∀ x ∈ oneKeeper conn serverid k f, ids.Admits x := by
  intro x hx
  rcases List.mem_cons.mp hx with rfl | hx
  · exact fun _ => hserver
  · rw [List.mem_singleton.mp hx]
    exact fun _ => hadd

/-- **The hub routes by exact id** exactly when the ids in use are told apart by their keys.
    Whatever messages and `DOWN` events the hub gets, with keepers and forward servers that use the
    given ids: every query is answered on a connection that has registered with the very id of the
    query, with a forward server that has been added for it, if and only if for every id of a query
    that can be answered at all, no other id with the same 16 bits is in use and the forward ids have
    16 bits. -/
theorem hub_routes_exactly_iff (ids : Ids) :
    (∀ inputs, (∀ x ∈ inputs, ids.Admits x) → ∀ q : HubLogonQueryForwardID,
      q.keeperserverid ∈ ids.queries → RoutesExactly inputs q) ↔
    ∀ k ∈ ids.queries, ids.Answered k → ids.Exact k := by
  constructor
  · rintro h k hk ⟨⟨server₀, hserver₀, hkey₀⟩, ⟨k₀, f₀⟩, hadd₀, hk₀⟩
    let conn : TcpConnection := ⟨1, "", ""⟩
    let q : HubLogonQueryForwardID := ⟨0, "", k⟩
    refine ⟨?_, ?_⟩
    · intro serverid hserver hkey
      obtain ⟨⟨serverid', hreg, hexact⟩, -⟩ := h (oneKeeper conn serverid k₀ f₀)
        (admits_oneKeeper conn hserver hadd₀) q hk _ _ (oneKeeper_sends conn hkey hk₀)
      rw [← registeredAs_oneKeeper hreg]
      exact hexact
    · rintro ⟨k', f'⟩ hadd hkey
      obtain ⟨-, f, hadded, hname⟩ := h (oneKeeper conn server₀ k' f')
        (admits_oneKeeper conn hserver₀ hadd) q hk _ _ (oneKeeper_sends conn hkey₀ hkey)
      obtain ⟨hk', rfl⟩ := added_oneKeeper hadded
      rw [toInt_forwardID] at hname
      refine ⟨hk'.symm, ?_⟩
      show f.toNat < 65536
      omega
  · intro h inputs hids q hq
    exact Ids.Exact.routes hids (h q.keeperserverid hq)

/-- The keeper 10101 has added the forward server 10031; a query for 75637 is routed to it. -/
theorem hub_routes_by_key :
    ¬ ∀ (inputs : List HubInput) (q : HubLogonQueryForwardID), RoutesExactly inputs q := by
  intro h
  obtain ⟨⟨serverid, hreg, hexact⟩, -⟩ := h (oneKeeper ⟨1, "", "127.0.0.1"⟩ 10101 10101 10031)
    ⟨1, "LogonServer:127.0.0.1:10011#1", 75637⟩ _ _ (oneKeeper_sends _ (by decide) (by decide))
  rw [registeredAs_oneKeeper hreg] at hexact
  exact absurd hexact (by decide)

end Mmvx.Server
