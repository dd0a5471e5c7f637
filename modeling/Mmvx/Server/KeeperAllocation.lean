/-
  Which connection holds which server id, over runs of `KeeperServer`.

  A run is any interleaving of queries and `DOWN` events of connections. `held` is what the
  connections that are still up were answered. `onConnection` releases `serverConfig_[i].id` where
  `i` is an index of `serverStart_`; `ReleasesOwn` says of a `DOWN` event that this is the id it
  found, or no other connection holds it. In a run whose `DOWN` events are all such, no id is
  handed out that another connection holds (`keeper_no_double_allocation`).
-/
import Mmvx.Lib.Run
import Mmvx.Server.Keeper

namespace Mmvx.Server

open Mmvx.Lib

/-! ## Runs -/

inductive KeeperEvent where
  | query (n : Nat) (m : KeeperQuery)
  | down (n : Nat)
  deriving DecidableEq, Repr

/-- A keeper, the connections whose `DOWN` it has processed, and what the others were answered. -/
structure Allocation where
  keeper : KeeperServer
  downs : List Nat
  held : List (UInt16 × Nat)

/-- The id that a list of effects answers. -/
def answered : List Effect → Option UInt16
  | .send _ (.keeperAnswer a) :: _ => some a.serverid.toUInt16
  | _ => none

section

variable (conns : Nat → TcpConnection)

def Allocation.step (st : Allocation) : KeeperEvent → Option Allocation
  | .query n m =>
    if n ∈ st.downs then none
    else some ⟨(st.keeper.onQuery (conns n) m).1, st.downs,
      ((answered (st.keeper.onQuery (conns n) m).2).map fun s => (s, n)).toList ++ st.held⟩
  | .down n =>
    if n ∈ st.downs then none
    else some ⟨(st.keeper.onConnection (conns n)).1, n :: st.downs,
      st.held.filter fun x => x.2 ≠ n⟩

/-- The id that a `DOWN` event releases is the id of the entry it found, or no other connection
    that is up holds it. -/
def ReleasesOwn (st : Allocation) : KeeperEvent → Prop
  | .query _ _ => True
  | .down n => ∀ found rel, st.keeper.released (conns n) = some (found, rel) →
      rel = found ∨ ∀ x ∈ st.held, x.1 = rel → x.2 = n

instance (st : Allocation) (e : KeeperEvent) : Decidable (ReleasesOwn conns st e) :=
  match e with
  | .query _ _ => isTrue trivial
  | .down n =>
    match h : st.keeper.released (conns n) with
    | none => isTrue (by intro f r hf; rw [h] at hf; cases hf)
    | some (found, rel) =>
      decidable_of_iff (rel = found ∨ ∀ x ∈ st.held, x.1 = rel → x.2 = n) (by
        constructor
        · intro hr f r hf
          rw [h] at hf
          cases hf
          exact hr
        · intro hr
          exact hr found rel h)

/-- An id that is held is started, by one connection, and an entry that names a connection that is
    up is the started entry of an id it holds. -/
structure Allocation.Ok (st : Allocation) : Prop where
  held_started : ∀ x ∈ st.held, st.keeper.isStarted x.1 = true
  held_up : ∀ x ∈ st.held, x.2 ∉ st.downs
  held_one : ∀ x ∈ st.held, ∀ y ∈ st.held, x.1 = y.1 → x.2 = y.2
  entry_held : ∀ e ∈ st.keeper.serverStart_, ∀ n, n ∉ st.downs → e.connName = (conns n).name →
    e.start = true ∧ (e.id, n) ∈ st.held

variable {conns} (hnames : ∀ m n, (conns m).name = (conns n).name → m = n)

theorem answered_answer (k : KeeperServer) (c : ServerConfig) (p : Nat) (es : List Effect) :
    answered (.send p (.keeperAnswer (k.answer c)) :: es) = some c.id := by
  simp [answered, KeeperServer.answer]

include hnames in
/-- An answered query. -/
theorem Allocation.Ok.query {st : Allocation} (h : st.Ok conns) {n : Nat} (hn : n ∉ st.downs)
    {k : KeeperServer} {s : UInt16} (hs : st.keeper.isStarted s = false)
    (hk : k.serverStart_ = KeeperServer.setStart s true (conns n).name st.keeper.serverStart_) :
    Allocation.Ok conns ⟨k, st.downs, (s, n) :: st.held⟩ := by
  have hfree : ∀ x ∈ st.held, x.1 ≠ s := by
    intro x hx hxs
    rw [← hxs, h.held_started x hx] at hs
    cases hs
  refine ⟨?_, ?_, ?_, ?_⟩
  · intro x hx
    rw [KeeperServer.isStarted_iff, hk]
    rcases List.mem_cons.mp hx with rfl | hx
    · exact KeeperServer.setStart_new
    · obtain ⟨e, he, hid, hst⟩ := (KeeperServer.isStarted_iff _ _).mp (h.held_started x hx)
      exact ⟨e, KeeperServer.setStart_of_mem he (by rw [hid]; exact hfree x hx), hid, hst⟩
  · intro x hx
    rcases List.mem_cons.mp hx with rfl | hx
    · exact hn
    · exact h.held_up x hx
  · intro x hx y hy hxy
    rcases List.mem_cons.mp hx with rfl | hx <;> rcases List.mem_cons.mp hy with rfl | hy
    · rfl
    · exact absurd hxy.symm (hfree y hy)
    · exact absurd hxy (hfree x hx)
    · exact h.held_one x hx y hy hxy
  · intro e he m hm hname
    rw [hk] at he
    rcases KeeperServer.mem_setStart he st.keeper.start_nodup with ⟨he, -⟩ | ⟨e₀, he₀, hid, rfl⟩ | rfl
    · obtain ⟨hst, hheld⟩ := h.entry_held e he m hm hname
      exact ⟨hst, List.mem_cons_of_mem _ hheld⟩
    · -- an entry of this id was free, so it names no connection that is up
      have hst := (h.entry_held e₀ he₀ m hm hname).1
      have hstarted : st.keeper.isStarted s = true :=
        (KeeperServer.isStarted_iff _ _).mpr ⟨e₀, he₀, hid, hst⟩
      rw [hs] at hstarted
      cases hstarted
    · rw [hnames n m hname]
      exact ⟨rfl, List.mem_cons_self⟩

include hnames in
/-- A `DOWN` event that releases an id. -/
theorem Allocation.Ok.down {st : Allocation} (h : st.Ok conns) {n : Nat}
    {k : KeeperServer} {s : UInt16} (hs : ∀ x ∈ st.held, x.1 = s → x.2 = n)
    (hk : k.serverStart_ = KeeperServer.setStart s false (conns n).name st.keeper.serverStart_) :
    Allocation.Ok conns ⟨k, n :: st.downs, st.held.filter fun x => x.2 ≠ n⟩ := by
  have hmem : ∀ x, x ∈ st.held.filter (fun x => x.2 ≠ n) → x ∈ st.held ∧ x.2 ≠ n := by
    intro x hx
    simpa using List.mem_filter.mp hx
  refine ⟨?_, ?_, ?_, ?_⟩
  · intro x hx
    obtain ⟨hx, hne⟩ := hmem x hx
    obtain ⟨e, he, hid, hst⟩ := (KeeperServer.isStarted_iff _ _).mp (h.held_started x hx)
    rw [KeeperServer.isStarted_iff, hk]
    refine ⟨e, KeeperServer.setStart_of_mem he ?_, hid, hst⟩
    rw [hid]
    exact fun hxs => hne (hs x hx hxs)
  · intro x hx
    obtain ⟨hx, hne⟩ := hmem x hx
    exact List.not_mem_cons_of_ne_of_not_mem hne (h.held_up x hx)
  · intro x hx y hy
    exact h.held_one x (hmem x hx).1 y (hmem y hy).1
  · intro e he m hm hname
    obtain ⟨hmn, hm⟩ := List.ne_and_not_mem_of_not_mem_cons hm
    rw [hk] at he
    rcases KeeperServer.mem_setStart he st.keeper.start_nodup with ⟨he, -⟩ | ⟨e₀, he₀, hid, rfl⟩ | rfl
    · obtain ⟨hst, hheld⟩ := h.entry_held e he m hm hname
      exact ⟨hst, List.mem_filter.mpr ⟨hheld, by simpa using hmn⟩⟩
    · exact absurd (hs _ (h.entry_held e₀ he₀ m hm hname).2 hid) hmn
    · exact absurd (hnames n m hname).symm hmn

include hnames in
theorem Allocation.Ok.step {st st' : Allocation} (h : st.Ok conns) {e : KeeperEvent}
    (hc : ReleasesOwn conns st e) (hs : st.step conns e = some st') : st'.Ok conns := by
  cases e with
  | query n m =>
    rw [Allocation.step] at hs
    split at hs
    · cases hs
    · rename_i hn
      obtain rfl := Option.some.inj hs
      obtain ⟨c, -, hfree, hstart, -, heff⟩ | hshut := st.keeper.onQuery_cases (conns n) m
      · have ha := answered_answer st.keeper c (conns n).ptr
          (st.keeper.sendToHub (.hubKeeperUpdateForwardConns (st.keeper.addMessage c)))
        have hok := h.query hnames hn hfree hstart
        rw [heff, ha]
        exact hok
      · rw [hshut]
        exact h
  | down n =>
    rw [Allocation.step] at hs
    split at hs
    · cases hs
    · rename_i hn
      obtain rfl := Option.some.inj hs
      obtain ⟨e, he, s, hby, hrel, hstart, -⟩ | ⟨hnone, hstart, -⟩ :=
        st.keeper.onConnection_cases (conns n)
      · -- the entry that is found belongs to the connection that goes down
        simp only [KeeperServer.startedBy, Bool.and_eq_true, beq_iff_eq] at hby
        have hheld := (h.entry_held e he n hn hby.1).2
        refine h.down hnames (s := s) ?_ hstart
        intro x hx hxs
        obtain hown | hother := hc e.id s hrel
        · exact h.held_one x hx _ hheld (hxs.trans hown)
        · exact hother x hx hxs
      · refine ⟨?_, ?_, ?_, ?_⟩
        · intro x hx
          have := h.held_started x (List.mem_of_mem_filter hx)
          rw [KeeperServer.isStarted_iff] at this ⊢
          rw [hstart]
          exact this
        · intro x hx
          obtain ⟨hx, hne⟩ := List.mem_filter.mp hx
          exact List.not_mem_cons_of_ne_of_not_mem (by simpa using hne) (h.held_up x hx)
        · intro x hx y hy
          exact h.held_one x (List.mem_of_mem_filter hx) y (List.mem_of_mem_filter hy)
        · intro e he m hm hname
          obtain ⟨hmn, hm⟩ := List.ne_and_not_mem_of_not_mem_cons hm
          rw [hstart] at he
          obtain ⟨hst, hheld⟩ := h.entry_held e he m hm hname
          exact ⟨hst, List.mem_filter.mpr ⟨hheld, by simpa using hmn⟩⟩

/-- **No double allocation.** From empty tables, through any queries and through `DOWN` events that
    release an id of their own or one that no other connection holds: when a query of a connection
    is answered with an id, no other connection that was answered it is still up. -/
theorem keeper_no_double_allocation {k : KeeperServer} (hk : k.serverStart_ = [])
    (hnames : ∀ m n, (conns m).name = (conns n).name → m = n) {st : Allocation}
    (h : Reaches (Allocation.step conns) (ReleasesOwn conns) ⟨k, [], []⟩ st) (n : Nat)
    (m : KeeperQuery) (s : UInt16) (hs : answered (st.keeper.onQuery (conns n) m).2 = some s) :
    ∀ n', (s, n') ∈ st.held → n' = n := by
  have hok : st.Ok conns := by
    apply h.invariant (P := fun st => st.Ok conns)
    · refine ⟨?_, ?_, ?_, ?_⟩
      · intro x hx; cases hx
      · intro x hx; cases hx
      · intro x hx; cases hx
      · intro e he
        rw [show (Allocation.mk k [] []).keeper.serverStart_ = [] from hk] at he
        cases he
    · intro st e st' hst hc hstep
      exact hst.step hnames hc hstep
  intro n' hheld
  obtain ⟨c, -, hfree, -, -, heff⟩ | hshut := st.keeper.onQuery_cases (conns n) m
  · rw [heff, answered_answer] at hs
    cases hs
    have := hok.held_started _ hheld
    rw [hfree] at this
    cases this
  · rw [hshut] at hs
    cases hs

end

/-! ## The configuration in luaconfig -/

/-- luaconfig/servers.lua: the keeper itself is the first row. -/
def luaConfig : List ServerConfig := [
  ⟨10101, 101, "127.0.0.1", 10101, 1⟩,
  ⟨10031, 31, "127.0.0.1", 10031, 4⟩,
  ⟨10032, 31, "127.0.0.1", 10032, 4⟩,
  ⟨10033, 31, "127.0.0.1", 10033, 4⟩,
  ⟨10041, 41, "127.0.0.1", 10041, 1⟩,
  ⟨10051, 51, "127.0.0.1", 10041, 1⟩]

def luaKeeper : KeeperServer := .ofConfig "127.0.0.1:10101" 10101 luaConfig

def luaConns (n : Nat) : TcpConnection :=
  ⟨n, "KeeperServer:127.0.0.1:10101#" ++ toString n, "127.0.0.1"⟩

theorem luaConns_name (m n : Nat) (h : (luaConns m).name = (luaConns n).name) : m = n := by
  have hlist := congrArg String.toList h
  simp only [luaConns, String.toList_append] at hlist
  have hdigits : Nat.toDigits 10 m = Nat.toDigits 10 n := by
    simpa [Nat.repr] using List.append_cancel_left hlist
  rw [← Nat.ofDigitChars_toDigits (b := 10) (n := m) (by decide) (by decide), hdigits,
    Nat.ofDigitChars_toDigits (by decide) (by decide)]

/-- Two forward servers start, and the second one stops: this releases the id of the first, and a
    third one is answered it. -/
theorem keeper_double_allocation :
    (luaConfig.map ServerConfig.id).Nodup ∧
      ∃ st, Reaches (Allocation.step luaConns) (fun _ _ => True) ⟨luaKeeper, [], []⟩ st ∧
        3 ∉ st.downs ∧ 1 ∉ st.downs ∧
        answered (st.keeper.onQuery (luaConns 3) ⟨31⟩).2 = some 10031 ∧ (10031, 1) ∈ st.held :=
  ⟨by decide, exists_reaches [.query 1 ⟨31⟩, .query 2 ⟨31⟩, .down 2] (by decide +kernel)⟩

/-- The first one stops: its id is in the second row, so the keeper's own id is released, which no
    one holds. The next query gets a fresh id. -/
theorem keeper_no_double_allocation_lua :
    ∃ st, Reaches (Allocation.step luaConns) (ReleasesOwn luaConns) ⟨luaKeeper, [], []⟩ st ∧
      answered (st.keeper.onQuery (luaConns 3) ⟨31⟩).2 = some 10033 ∧
      (10032, 2) ∈ st.held ∧ ∀ n', (10033, n') ∈ st.held → n' = 3 := by
  obtain ⟨st, hst, ha, hheld⟩ : ∃ st,
      Reaches (Allocation.step luaConns) (ReleasesOwn luaConns) ⟨luaKeeper, [], []⟩ st ∧
        answered (st.keeper.onQuery (luaConns 3) ⟨31⟩).2 = some 10033 ∧ (10032, 2) ∈ st.held :=
    exists_reaches [.query 1 ⟨31⟩, .query 2 ⟨31⟩, .down 1] (by decide +kernel)
  exact ⟨st, hst, ha, hheld,
    keeper_no_double_allocation rfl luaConns_name hst 3 ⟨31⟩ 10033 ha⟩

end Mmvx.Server
