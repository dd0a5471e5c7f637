/-
  What the `DOWN` event of a connection releases, in every reachable state of `KeeperServer`.

  Here a run has all that reaches a keeper: messages and `DOWN` events of its connections, the
  connection to the hub, messages of the hub. An entry of `serverStart_` that names a connection,
  and an entry of `conns_` that points to it, are of an id it was answered (`Traced`). The release
  is exact when the connection holds no id, or one whose entry in `serverStart_` is its own, still
  started, and stands where the id stands in `serverConfig_` (`release_exact_iff`).
-/
import Mmvx.Server.KeeperAllocation

namespace Mmvx.Server

open Mmvx.Lib

namespace KeeperServer

/-- What `onConnection` passes to `sendToHub`. -/
def removes (k : KeeperServer) (conn : TcpConnection) : List UpdateForwardConns :=
  ((k.serverStart_.find? (startedBy conn)).map k.removeMessage).toList

theorem any_setStart_false {serverID : UInt16} (connName : String) {ss : List ServerStart}
    (hnd : (ss.map ServerStart.id).Nodup) (f : UInt16) :
    (setStart serverID false connName ss).any (fun s => s.id == f && s.start) =
      (ss.any (fun s => s.id == f && s.start) && !decide (f = serverID)) := by
  induction ss with
  | nil => simp [setStart]
  | cons s ss ih =>
    rw [List.map_cons, List.nodup_cons] at hnd
    rw [setStart]
    by_cases hs : s.id = serverID
    · rw [if_pos hs, List.any_cons, List.any_cons]
      by_cases hf : f = serverID
      · subst hf
        -- no other entry has this id
        have hnone : ss.any (fun s => s.id == f && s.start) = false := by
          rw [List.any_eq_false]
          intro e he hany
          have hid : e.id = f := by simpa using (Bool.and_eq_true_iff.mp hany).1
          exact hnd.1 (List.mem_map.mpr ⟨e, he, hid.trans hs.symm⟩)
        rw [hnone, Bool.and_false, Bool.false_or, decide_eq_true rfl, Bool.not_true, Bool.and_false]
      · have hne : (s.id == f) = false := beq_eq_false_iff_ne.mpr fun h => hf (h ▸ hs)
        simp [hne, hf]
    · rw [if_neg hs, List.any_cons, List.any_cons, ih hnd.2]
      by_cases hf : f = serverID
      · have hne : (s.id == f) = false := beq_eq_false_iff_ne.mpr fun h => hs (h.trans hf)
        rw [hne, Bool.false_and, Bool.false_or, Bool.false_or]
      · simp [hf]

/-- A `DOWN` event that finds an entry at `i`. -/
theorem onConnection_found {k : KeeperServer} {conn : TcpConnection} {i : Nat} {e : ServerStart}
    {c : ServerConfig} (hi : k.serverStart_.findIdx? (startedBy conn) = some i)
    (he : k.serverStart_[i]? = some e) (hc : k.serverConfig_[i]? = some c) :
    (∀ s, (k.onConnection conn).1.isStarted s = (k.isStarted s && !decide (s = c.id))) ∧
      k.removes conn = [k.removeMessage e] := by
  obtain ⟨hlt, rfl⟩ := List.getElem?_eq_some_iff.mp he
  obtain ⟨hltc, rfl⟩ := List.getElem?_eq_some_iff.mp hc
  refine ⟨?_, ?_⟩
  · intro s
    have hstart : (k.onConnection conn).1.serverStart_ =
        setStart k.serverConfig_[i].id false conn.name k.serverStart_ := by
      simp only [onConnection]
      rw [releaseStarted]
      split
      · rename_i j hj
        obtain rfl : i = j := Option.some.inj (hi.symm.trans hj)
        rfl
      · rename_i hnone
        rw [hi] at hnone
        cases hnone
    unfold isStarted
    rw [hstart, any_setStart_false conn.name k.start_nodup]
  · have hfind : k.serverStart_.find? (startedBy conn) = some k.serverStart_[i] := by
      rw [List.find?_eq_some_iff_getElem]
      obtain ⟨hlt, hby, hfirst⟩ := List.findIdx?_eq_some_iff_getElem.mp hi
      exact ⟨hby, i, hlt, rfl, fun j hj => by simpa using hfirst j hj⟩
    rw [removes, hfind, Option.map_some, Option.toList_some]

/-- A `DOWN` event that finds none. -/
theorem onConnection_notFound {k : KeeperServer} {conn : TcpConnection}
    (hnone : ∀ e ∈ k.serverStart_, startedBy conn e = false) :
    (∀ s, (k.onConnection conn).1.isStarted s = k.isStarted s) ∧ k.removes conn = [] := by
  refine ⟨?_, ?_⟩
  · intro s
    obtain ⟨e, he, -, hby, -⟩ | ⟨-, hstart, -⟩ := k.onConnection_cases conn
    · rw [hnone e he] at hby
      cases hby
    · unfold isStarted
      rw [hstart]
  · have hfind : k.serverStart_.find? (startedBy conn) = none := by
      rw [List.find?_eq_none]
      intro e he
      simp [hnone e he]
    rw [removes, hfind, Option.map_none, Option.toList_none]

/-- What reaches the hub is what was passed to `sendToHub`. -/
theorem onConnection_effects (k : KeeperServer) (conn : TcpConnection) :
    (k.onConnection conn).2 =
      (k.removes conn).flatMap fun m => k.sendToHub (.hubKeeperUpdateForwardConns m) := by
  simp only [onConnection]
  rw [releaseStarted]
  split
  · rename_i i hi
    obtain ⟨hlt, -, -⟩ := List.findIdx?_eq_some_iff_getElem.mp hi
    have hc : i < k.serverConfig_.length := Nat.lt_of_lt_of_le hlt k.start_length_le
    rw [(onConnection_found hi (List.getElem?_eq_getElem hlt) (List.getElem?_eq_getElem hc)).2,
      List.flatMap_singleton]
  · rename_i hnone
    have hnone' : ∀ e ∈ k.serverStart_, startedBy conn e = false := by
      simpa [List.findIdx?_eq_none_iff] using hnone
    rw [(onConnection_notFound hnone').2, List.flatMap_nil]

end KeeperServer

/-! ## Runs of the whole keeper -/

inductive KeeperInput where
  | message (n : Nat) (m : Message)
  | down (n : Nat)
  | hubUp (conn : TcpConnection)
  | hubDown
  | hubMessage (m : Message)
  deriving DecidableEq, Repr

section

variable (conns : Nat → TcpConnection)

def Allocation.receive (st : Allocation) : KeeperInput → Option Allocation
  | .message n m =>
    if n ∈ st.downs then none
    else some ⟨(st.keeper.onMessage (conns n) m).1, st.downs,
      ((answered (st.keeper.onMessage (conns n) m).2).map fun s => (s, n)).toList ++ st.held⟩
  | .down n =>
    if n ∈ st.downs then none
    else some ⟨(st.keeper.onConnection (conns n)).1, n :: st.downs,
      st.held.filter fun x => x.2 ≠ n⟩
  | .hubUp conn => some { st with keeper := (st.keeper.onHubConnectionUp conn).1 }
  | .hubDown => some { st with keeper := st.keeper.onHubConnectionDown.1 }
  | .hubMessage m => some { st with keeper := (st.keeper.onHubMessage m).1 }

/-- The tables name a connection that is up for ids it was answered only. -/
structure Allocation.Traced (st : Allocation) : Prop where
  entry_held : ∀ e ∈ st.keeper.serverStart_, ∀ n, n ∉ st.downs → e.connName = (conns n).name →
    (e.id, n) ∈ st.held
  conns_held : ∀ s n, n ∉ st.downs → st.keeper.conns_.find s = some (conns n).ptr →
    (s, n) ∈ st.held

/-- `DOWN` of `n` frees the ids that `n` holds and no other, takes `n` out of `conns_` and nothing
    else, and passes one `REMOVE` for each of those ids to `sendToHub`. -/
structure ReleasesExactly (st : Allocation) (n : Nat) : Prop where
  started : ∀ s, (st.keeper.onConnection (conns n)).1.isStarted s =
    (st.keeper.isStarted s && !decide ((s, n) ∈ st.held))
  routes : ∀ s, (st.keeper.onConnection (conns n)).1.conns_.find s =
    if st.keeper.conns_.find s = some (conns n).ptr then none else st.keeper.conns_.find s
  removed : ∀ s : UInt16, (st.keeper.removes (conns n)).countP
    (fun m => m.oper = .REMOVE ∧ m.forwardserverid = s.toUInt32) =
      if (s, n) ∈ st.held then 1 else 0

/-- `n` holds no id, or one: its entry in `serverStart_` is started, names `n`, and stands where the
    id stands in `serverConfig_`. -/
def Aligned (st : Allocation) (n : Nat) : Prop :=
  (∀ s, (s, n) ∉ st.held) ∨
    ∃ (i : Nat) (s : UInt16) (c : ServerConfig), (∀ s', (s', n) ∈ st.held ↔ s' = s) ∧
      st.keeper.serverStart_[i]? = some ⟨s, true, (conns n).name⟩ ∧
      st.keeper.serverConfig_[i]? = some c ∧ c.id = s

variable {conns}

/-- Only a query changes the tables or is answered with an id. -/
theorem onMessage_other (k : KeeperServer) (conn : TcpConnection) {m : Message}
    (hm : ¬ ∃ q, m = .keeperQuery q) :
    (k.onMessage conn m).1 = k ∧ answered (k.onMessage conn m).2 = none := by
  unfold KeeperServer.onMessage
  split
  · exact absurd ⟨_, rfl⟩ hm
  · refine ⟨rfl, ?_⟩
    simp only [KeeperServer.sendToHub, sendTo]
    cases k.hubConn_ <;> rfl
  · refine ⟨rfl, ?_⟩
    simp only [KeeperServer.sendToHub, sendTo]
    cases k.hubConn_ <;> rfl
  · exact ⟨rfl, rfl⟩

theorem onHubMessage_fst (k : KeeperServer) (m : Message) : (k.onHubMessage m).1 = k := by
  unfold KeeperServer.onHubMessage
  split <;> rfl

/-- What changes no table. -/
theorem Allocation.Traced.congr {st : Allocation} (h : st.Traced conns) {k : KeeperServer}
    (hstart : k.serverStart_ = st.keeper.serverStart_) (hconns : k.conns_ = st.keeper.conns_) :
    Allocation.Traced conns { st with keeper := k } := by
  refine ⟨?_, ?_⟩
  · intro e he
    exact h.entry_held e (hstart ▸ he)
  · intro s n hn hs
    exact h.conns_held s n hn (hconns ▸ hs)

section

variable (hnames : ∀ m n, (conns m).name = (conns n).name → m = n)
  (hptrs : ∀ m n, (conns m).ptr = (conns n).ptr → m = n)

include hnames hptrs in
theorem Allocation.Traced.query {st : Allocation} (h : st.Traced conns) (n : Nat)
    (m : KeeperQuery) :
    Allocation.Traced conns ⟨(st.keeper.onQuery (conns n) m).1, st.downs,
      ((answered (st.keeper.onQuery (conns n) m).2).map fun s => (s, n)).toList ++ st.held⟩ := by
  obtain ⟨c, -, -, hstart, hconns, heff⟩ | hshut := st.keeper.onQuery_cases (conns n) m
  · rw [heff, answered_answer, Option.map_some, Option.toList_some, List.singleton_append]
    refine ⟨?_, ?_⟩
    · intro e he m' hm' hname
      simp only [hstart] at he
      rcases KeeperServer.mem_setStart he st.keeper.start_nodup with
        ⟨he, -⟩ | ⟨e₀, he₀, hid, rfl⟩ | rfl
      · exact List.mem_cons_of_mem _ (h.entry_held e he m' hm' hname)
      · exact List.mem_cons_of_mem _ (h.entry_held e₀ he₀ m' hm' hname)
      · rw [hnames n m' hname]
        exact List.mem_cons_self
    · intro s m' hm' hs
      simp only [hconns, OrdMap.find_insert] at hs
      split at hs
      · rename_i hsc
        rw [hsc, hptrs n m' (Option.some.inj hs)]
        exact List.mem_cons_self
      · exact List.mem_cons_of_mem _ (h.conns_held s m' hm' hs)
  · rw [hshut]
    exact h

include hnames in
theorem Allocation.Traced.down {st : Allocation} (h : st.Traced conns) (n : Nat) :
    Allocation.Traced conns ⟨(st.keeper.onConnection (conns n)).1, n :: st.downs,
      st.held.filter fun x => x.2 ≠ n⟩ := by
  have hkeep : ∀ s m', m' ∉ n :: st.downs → (m' ∉ st.downs → (s, m') ∈ st.held) →
      (s, m') ∈ st.held.filter fun x => x.2 ≠ n := by
    intro s m' hm' hheld
    obtain ⟨hne, hm'⟩ := List.ne_and_not_mem_of_not_mem_cons hm'
    exact List.mem_filter.mpr ⟨hheld hm', by simpa using hne⟩
  refine ⟨?_, ?_⟩
  · intro e he m' hm' hname
    obtain ⟨-, -, s, -, -, hstart, -⟩ | ⟨-, hstart, -⟩ := st.keeper.onConnection_cases (conns n)
    · simp only [hstart] at he
      rcases KeeperServer.mem_setStart he st.keeper.start_nodup with
        ⟨he, -⟩ | ⟨e₀, he₀, hid, rfl⟩ | rfl
      · exact hkeep _ _ hm' fun hup => h.entry_held e he m' hup hname
      · exact hkeep _ _ hm' fun hup => h.entry_held e₀ he₀ m' hup hname
      · exact absurd (hnames n m' hname).symm (List.ne_of_not_mem_cons hm')
    · simp only [hstart] at he
      exact hkeep _ _ hm' fun hup => h.entry_held e he m' hup hname
  · intro s m' hm' hs
    simp only [(st.keeper.onConnection_frame (conns n)).2.2] at hs
    exact hkeep _ _ hm' fun hup => h.conns_held s m' hup (OrdMap.find_eraseValue_of_some hs)

include hnames hptrs in
theorem Allocation.Traced.receive {st st' : Allocation} (h : st.Traced conns) {e : KeeperInput}
    (hs : st.receive conns e = some st') : st'.Traced conns := by
  cases e with
  | message n m =>
    rw [Allocation.receive] at hs
    split at hs
    · cases hs
    · obtain rfl := Option.some.inj hs
      by_cases hm : ∃ q, m = .keeperQuery q
      · obtain ⟨q, rfl⟩ := hm
        exact h.query hnames hptrs n q
      · obtain ⟨hk, ha⟩ := onMessage_other st.keeper (conns n) hm
        rw [hk, ha]
        exact h
  | down n =>
    rw [Allocation.receive] at hs
    split at hs
    · cases hs
    · obtain rfl := Option.some.inj hs
      exact h.down hnames n
  | hubUp conn =>
    obtain rfl := Option.some.inj hs
    exact h.congr rfl rfl
  | hubDown =>
    obtain rfl := Option.some.inj hs
    exact h.congr rfl rfl
  | hubMessage m =>
    obtain rfl := Option.some.inj hs
    rw [onHubMessage_fst]
    exact h

end

/-! ## When the release is exact -/

theorem countP_removeMessage (k : KeeperServer) (e : ServerStart) (s : UInt16) :
    [k.removeMessage e].countP (fun m => m.oper = .REMOVE ∧ m.forwardserverid = s.toUInt32) =
      if s = e.id then 1 else 0 := by
  rw [List.countP_singleton]
  simp only [KeeperServer.removeMessage, true_and, UInt16.toUInt32_inj, decide_eq_true_eq]
  simp only [eq_comm]

/-- The index that is found holds an entry of an id that the connection holds. -/
theorem Allocation.Traced.found {st : Allocation} (h : st.Traced conns) {n i : Nat}
    (hn : n ∉ st.downs)
    (hi : st.keeper.serverStart_.findIdx? (KeeperServer.startedBy (conns n)) = some i) :
    ∃ e c, st.keeper.serverStart_[i]? = some e ∧ st.keeper.serverConfig_[i]? = some c ∧
      e = ⟨e.id, true, (conns n).name⟩ ∧ (e.id, n) ∈ st.held := by
  obtain ⟨hlt, hby, -⟩ := List.findIdx?_eq_some_iff_getElem.mp hi
  have hc : i < st.keeper.serverConfig_.length := Nat.lt_of_lt_of_le hlt st.keeper.start_length_le
  simp only [KeeperServer.startedBy, Bool.and_eq_true, beq_iff_eq] at hby
  refine ⟨_, _, List.getElem?_eq_getElem hlt, List.getElem?_eq_getElem hc, ?_,
    h.entry_held _ (List.getElem_mem hlt) n hn hby.1⟩
  rw [← hby.1, ← hby.2]

theorem Aligned.of_exact {st : Allocation} (h : st.Traced conns) {n : Nat} (hn : n ∉ st.downs)
    (hexact : ReleasesExactly conns st n) : Aligned conns st n := by
  cases hi : st.keeper.serverStart_.findIdx? (KeeperServer.startedBy (conns n)) with
  | none =>
    have hnone : ∀ e ∈ st.keeper.serverStart_, KeeperServer.startedBy (conns n) e = false := by
      simpa [List.findIdx?_eq_none_iff] using hi
    refine Or.inl fun s hs => ?_
    have hcount := hexact.removed s
    rw [(KeeperServer.onConnection_notFound hnone).2, if_pos hs] at hcount
    cases hcount
  | some i =>
    obtain ⟨e, c, he, hc, heq, hheld⟩ := h.found hn hi
    obtain ⟨hstarted, hremoves⟩ := KeeperServer.onConnection_found hi he hc
    refine Or.inr ⟨i, e.id, c, ?_, by rw [he, ← heq], hc, ?_⟩
    · -- one `REMOVE` was passed on
      intro s
      have hcount := hexact.removed s
      rw [hremoves, countP_removeMessage] at hcount
      constructor
      · intro hs
        by_contra hne
        rw [if_pos hs, if_neg hne] at hcount
        cases hcount
      · rintro rfl
        exact hheld
    · -- the id was started and is not any more
      have hbefore : st.keeper.isStarted e.id = true := by
        rw [KeeperServer.isStarted_iff]
        exact ⟨e, List.mem_of_getElem? he, rfl, by rw [heq]⟩
      have hafter := hexact.started e.id
      rw [hstarted, hbefore, decide_eq_true hheld] at hafter
      have hsame : e.id = c.id := by simpa using hafter
      exact hsame.symm

theorem Aligned.exact {st : Allocation} (h : st.Traced conns) {n : Nat} (hn : n ∉ st.downs)
    (hal : Aligned conns st n) : ReleasesExactly conns st n := by
  have hroutes : (∀ s s', (s, n) ∈ st.held → (s', n) ∈ st.held → s = s') → ∀ s,
      (st.keeper.onConnection (conns n)).1.conns_.find s =
        if st.keeper.conns_.find s = some (conns n).ptr then none
        else st.keeper.conns_.find s := by
    intro hone s
    rw [(st.keeper.onConnection_frame (conns n)).2.2]
    apply OrdMap.find_eraseValue_of_once
    intro k k' hk hk'
    exact hone k k' (h.conns_held k n hn hk) (h.conns_held k' n hn hk')
  rcases hal with hnone | ⟨i, s₀, c, hheld, he, hc, hid⟩
  · have hnot : ∀ e ∈ st.keeper.serverStart_, KeeperServer.startedBy (conns n) e = false := by
      intro e he
      rw [Bool.eq_false_iff]
      intro hby
      simp only [KeeperServer.startedBy, Bool.and_eq_true, beq_iff_eq] at hby
      exact hnone e.id (h.entry_held e he n hn hby.1)
    obtain ⟨hstarted, hremoves⟩ := KeeperServer.onConnection_notFound hnot
    refine ⟨?_, hroutes fun s s' hs => absurd hs (hnone s), ?_⟩
    · intro s
      rw [hstarted, decide_eq_false (hnone s), Bool.not_false, Bool.and_true]
    · intro s
      rw [hremoves, if_neg (hnone s)]
      rfl
  · -- every entry that names the connection is of the one id it holds
    have hfind : st.keeper.serverStart_.findIdx? (KeeperServer.startedBy (conns n)) = some i := by
      obtain ⟨hlt, hget⟩ := List.getElem?_eq_some_iff.mp he
      rw [List.findIdx?_eq_some_iff_getElem]
      refine ⟨hlt, by simp [hget, KeeperServer.startedBy], ?_⟩
      intro j hj hby
      simp only [KeeperServer.startedBy, Bool.and_eq_true, beq_iff_eq] at hby
      have hjlt := Nat.lt_trans hj hlt
      have hsame := (hheld _).mp (h.entry_held _ (List.getElem_mem hjlt) n hn hby.1)
      have hnd := List.nodup_iff_injective_getElem.mp st.keeper.start_nodup
      have hji := @hnd ⟨j, by simpa using hjlt⟩ ⟨i, by simpa using hlt⟩ (by simp [hsame, hget])
      exact absurd (Fin.mk.inj hji) (Nat.ne_of_lt hj)
    obtain ⟨hstarted, hremoves⟩ := KeeperServer.onConnection_found hfind he hc
    refine ⟨?_, hroutes ?_, ?_⟩
    · intro s
      rw [hstarted, hid, decide_eq_decide.mpr (hheld s)]
    · intro s s' hs hs'
      rw [(hheld s).mp hs, (hheld s').mp hs']
    · intro s
      rw [hremoves, countP_removeMessage]
      simp only [hheld]

/-- **Release on disconnect.** In every reachable state of a keeper, and for every connection that
    is up: its `DOWN` event releases exactly the ids it holds if and only if it holds none, or one
    whose entry in `serverStart_` is started under its own name and stands at the position of that
    id in `serverConfig_`. -/
theorem release_exact_iff {k : KeeperServer} (hstart : k.serverStart_ = [])
    (hconns : k.conns_ = .empty)
    (hnames : ∀ m n, (conns m).name = (conns n).name → m = n)
    (hptrs : ∀ m n, (conns m).ptr = (conns n).ptr → m = n) {st : Allocation}
    (h : Reaches (Allocation.receive conns) (fun _ _ => True) ⟨k, [], []⟩ st) (n : Nat)
    (hn : n ∉ st.downs) : ReleasesExactly conns st n ↔ Aligned conns st n := by
  have htraced : st.Traced conns := by
    apply h.invariant (P := fun st => st.Traced conns)
    · refine ⟨?_, ?_⟩
      · intro e he
        rw [show (Allocation.mk k [] []).keeper.serverStart_ = [] from hstart] at he
        cases he
      · intro s n _ hs
        rw [show (Allocation.mk k [] []).keeper.conns_ = .empty from hconns,
          OrdMap.find_empty] at hs
        cases hs
    · intro st e st' hst _ hstep
      exact hst.receive hnames hptrs hstep
  exact ⟨Aligned.of_exact htraced hn, Aligned.exact htraced hn⟩

end

/-- A forward server that is the first to ask: its id stands in the second row of the
    configuration, its entry in the first of `serverStart_`, so it is not released. -/
theorem release_not_exact :
    ¬ ∀ st, Reaches (Allocation.receive luaConns) (fun _ _ => True) ⟨luaKeeper, [], []⟩ st →
      ∀ n, n ∉ st.downs → ReleasesExactly luaConns st n := by
  intro h
  obtain ⟨st, hst, hup, hheld, hbefore, hafter⟩ : ∃ st,
      Reaches (Allocation.receive luaConns) (fun _ _ => True) ⟨luaKeeper, [], []⟩ st ∧
        1 ∉ st.downs ∧ (10031, 1) ∈ st.held ∧ st.keeper.isStarted 10031 = true ∧
        (st.keeper.onConnection (luaConns 1)).1.isStarted 10031 = true :=
    exists_reaches [.message 1 (.keeperQuery ⟨31⟩)] (by decide +kernel)
  have hstarted := (h st hst 1 hup).started 10031
  rw [hafter, hbefore, decide_eq_true hheld] at hstarted
  cases hstarted

/-- The first row is taken before the forward server asks, so that the positions agree. -/
theorem release_exact_iff_lua :
    ∃ st, Reaches (Allocation.receive luaConns) (fun _ _ => True) ⟨luaKeeper, [], []⟩ st ∧
      (10031, 2) ∈ st.held ∧ ReleasesExactly luaConns st 2 := by
  obtain ⟨st, hst, hup, hheld, he, hc⟩ : ∃ st,
      Reaches (Allocation.receive luaConns) (fun _ _ => True) ⟨luaKeeper, [], []⟩ st ∧
        2 ∉ st.downs ∧ st.held = [(10031, 2), (10101, 1)] ∧
        st.keeper.serverStart_[1]? = some ⟨10031, true, (luaConns 2).name⟩ ∧
        st.keeper.serverConfig_[1]? = some ⟨10031, 31, "127.0.0.1", 10031, 4⟩ :=
    exists_reaches [.message 1 (.keeperQuery ⟨101⟩), .message 2 (.keeperQuery ⟨31⟩)]
      (by decide +kernel)
  have hal : Aligned luaConns st 2 :=
    Or.inr ⟨1, 10031, _, fun s' => by simp [hheld], he, hc, rfl⟩
  exact ⟨st, hst, by simp [hheld],
    (release_exact_iff rfl rfl luaConns_name (fun m n h => h) hst 2 hup).mpr hal⟩

end Mmvx.Server
