/-
  The hub's table of forward servers and the integer-valued map it stands for.

  `LoadMap` gives each keeper's forward servers an integer load, and `LoadMap.update` says what an
  update means there. The hub keeps a list per keeper with 16-bit ids and counters. `UpdateFits`
  says of an update that the list can follow it: the ids have 16 bits, an id is added only if it is
  absent, and the counter does not leave its range. Through such updates the hub's list is the map
  (`Refines`), and a query is answered with a forward server of minimal load
  (`hub_table_refines_map`).
-/
import Mmvx.Lib.Run
import Mmvx.Server.Hub

namespace Mmvx.Server

open Mmvx.Lib

/-! ## The abstract map -/

/-- For each keeper, the loads of its forward servers. -/
abbrev LoadMap := UInt32 → UInt32 → Option Int

def LoadMap.empty : LoadMap := fun _ _ => none

/-- What an operation does to the load of its forward server. -/
def Operation.onLoad : Operation → Option Int → Option Int
  | .ADD, load => some (load.getD 0)
  | .REMOVE, _ => none
  | .INC, load => load.map (· + 1)
  | .DEC, load => load.map (· - 1)

def LoadMap.update (t : LoadMap) (m : UpdateForwardConns) : LoadMap := fun k f =>
  if k = m.keeperserverid ∧ f = m.forwardserverid then m.oper.onLoad (t k f) else t k f

/-! ## A list of forward servers -/

/-- The load of the first entry with the id. -/
def loadOf (l : List ForwardServerData) (f : UInt16) : Option Int :=
  (l.find? fun d => d.id = f).map fun d => (d.numConnections.toNat : Int)

/-- The operation keeps the counter within 16 bits, and adds no id twice. -/
def Operation.Fits : Operation → Option Int → Prop
  | .ADD, load => load = none
  | .REMOVE, _ => True
  | .INC, load => ∀ n, load = some n → n < 65535
  | .DEC, load => ∀ n, load = some n → 0 < n

instance (oper : Operation) (load : Option Int) : Decidable (oper.Fits load) :=
  match oper, load with
  | .ADD, load => inferInstanceAs (Decidable (load = none))
  | .REMOVE, _ => isTrue trivial
  | .INC, none => isTrue (by intro n h; cases h)
  | .INC, some n => decidable_of_iff (n < 65535) (by simp [Operation.Fits])
  | .DEC, none => isTrue (by intro n h; cases h)
  | .DEC, some n => decidable_of_iff (0 < n) (by simp [Operation.Fits])

theorem loadOf_cons (d : ForwardServerData) (l : List ForwardServerData) (f : UInt16) :
    loadOf (d :: l) f = if d.id = f then some (d.numConnections.toNat : Int) else loadOf l f := by
  rw [loadOf, List.find?_cons]
  by_cases h : d.id = f
  · simp [h]
  · simp [h, loadOf]

theorem loadOf_eq_none_iff (l : List ForwardServerData) (f : UInt16) :
    loadOf l f = none ↔ f ∉ l.map ForwardServerData.id := by
  induction l with
  | nil => simp [loadOf]
  | cons d l ih =>
    rw [loadOf_cons, List.map_cons, List.mem_cons, not_or]
    by_cases h : d.id = f
    · simp [h]
    · rw [if_neg h, ih]
      exact ⟨fun hl => ⟨fun hf => h hf.symm, hl⟩, And.right⟩

theorem loadOf_append_new (l : List ForwardServerData) (f g : UInt16) (ip : String) (port : UInt16)
    (h : loadOf l f = none) :
    loadOf (l ++ [⟨f, ip, port, 0⟩]) g = if g = f then some 0 else loadOf l g := by
  induction l with
  | nil =>
    rw [List.nil_append, loadOf_cons]
    by_cases hg : g = f
    · simp [hg]
    · have hfg : ¬ f = g := fun hf => hg hf.symm
      simp [hg, hfg]
  | cons d l ih =>
    rw [loadOf_cons] at h
    split at h
    · cases h
    · rename_i hd
      rw [List.cons_append, loadOf_cons, loadOf_cons, ih h]
      by_cases hg : g = f
      · rw [if_pos hg, hg, if_neg hd, if_pos rfl]
      · rw [if_neg hg, if_neg hg]

theorem updateFirst_sublist (f : UInt16) (oper : Operation) (l : List ForwardServerData) :
    ((HubServer.updateFirst f oper l).map ForwardServerData.id).Sublist
      (l.map ForwardServerData.id) := by
  induction l with
  | nil => exact .refl _
  | cons d l ih =>
    rw [HubServer.updateFirst]
    split
    · cases oper with
      | REMOVE => exact List.sublist_cons_self _ _
      | _ => exact .refl _
    · exact ih.cons_cons _

/-- An update other than `ADD` at its entry `d`. -/
theorem loadOf_updateEntry (d : ForwardServerData) (g : UInt16) (oper : Operation)
    (l : List ForwardServerData) (hd : loadOf l d.id = none) (hoper : oper ≠ .ADD)
    (hfit : oper.Fits (some (d.numConnections.toNat : Int))) :
    loadOf (HubServer.updateEntry oper d l) g =
      if g = d.id then oper.onLoad (some (d.numConnections.toNat : Int)) else loadOf l g := by
  have hlt := d.numConnections.toNat_lt
  cases oper with
  | ADD => exact absurd rfl hoper
  | REMOVE =>
    rw [HubServer.updateEntry]
    split
    · rename_i hg
      rw [hg, hd]
      rfl
    · rfl
  | INC =>
    have hbound := hfit _ rfl
    have hn : (d.numConnections + 1).toNat = d.numConnections.toNat + 1 := by
      rw [UInt16.toNat_add, UInt16.toNat_one, Nat.mod_eq_of_lt (by omega)]
    rw [HubServer.updateEntry, loadOf_cons, hn]
    by_cases hg : g = d.id
    · simp [hg, Operation.onLoad]
    · rw [if_neg fun hf => hg hf.symm, if_neg hg]
  | DEC =>
    have hpos := hfit _ rfl
    have hn : (d.numConnections - 1).toNat = d.numConnections.toNat - 1 := by
      rw [UInt16.toNat_sub_of_le _ _ (by rw [UInt16.le_iff_toNat_le, UInt16.toNat_one]; omega),
        UInt16.toNat_one]
    rw [HubServer.updateEntry, loadOf_cons, hn]
    by_cases hg : g = d.id
    · rw [if_pos hg.symm, if_pos hg, Operation.onLoad, Option.map_some]
      congr 1
      omega
    · rw [if_neg fun hf => hg hf.symm, if_neg hg]

/-- The loop of an update other than `ADD`, on a list with distinct ids. -/
theorem loadOf_updateFirst (f g : UInt16) (oper : Operation) (l : List ForwardServerData)
    (hnd : (l.map ForwardServerData.id).Nodup) (hoper : oper ≠ .ADD)
    (hfit : oper.Fits (loadOf l f)) :
    loadOf (HubServer.updateFirst f oper l) g =
      if g = f then oper.onLoad (loadOf l f) else loadOf l g := by
  induction l with
  | nil =>
    rw [HubServer.updateFirst]
    cases oper <;> simp [loadOf, Operation.onLoad] at hoper ⊢
  | cons d l ih =>
    rw [List.map_cons, List.nodup_cons] at hnd
    rw [loadOf_cons] at hfit
    rw [HubServer.updateFirst, loadOf_cons, loadOf_cons]
    by_cases hd : d.id = f
    · subst hd
      rw [if_pos rfl] at hfit
      have hnone := (loadOf_eq_none_iff l d.id).mpr hnd.1
      rw [if_pos rfl, if_pos rfl, loadOf_updateEntry d g oper l hnone hoper hfit]
      by_cases hg : g = d.id
      · rw [if_pos hg, if_pos hg]
      · rw [if_neg hg, if_neg hg, if_neg fun hf => hg hf.symm]
    · rw [if_neg hd] at hfit
      rw [if_neg hd, if_neg hd, loadOf_cons, ih hnd.2 hfit]
      by_cases hg : g = f
      · rw [if_pos hg, hg, if_neg hd, if_pos rfl]
      · rw [if_neg hg, if_neg hg]

/-- An update that fits, on a list with distinct ids: the ids stay distinct and the loads are
    those of the abstract operation. -/
theorem loadOf_updateList (f : UInt16) (ip : String) (port : UInt16) (oper : Operation)
    (l : List ForwardServerData) (hnd : (l.map ForwardServerData.id).Nodup)
    (hfit : oper.Fits (loadOf l f)) :
    ((HubServer.updateList f ip port oper l).map ForwardServerData.id).Nodup ∧
      ∀ g, loadOf (HubServer.updateList f ip port oper l) g =
        if g = f then oper.onLoad (loadOf l f) else loadOf l g := by
  by_cases hoper : oper = .ADD
  · subst hoper
    have hnone : loadOf l f = none := hfit
    rw [HubServer.updateList]
    refine ⟨?_, fun g => ?_⟩
    · rw [List.map_append, List.nodup_append]
      refine ⟨hnd, List.nodup_singleton _, ?_⟩
      intro a ha b hb hab
      rw [List.map_singleton, List.mem_singleton] at hb
      have hb : b = f := hb
      exact (loadOf_eq_none_iff l f).mp hnone (by rw [← hb, ← hab]; exact ha)
    · rw [loadOf_append_new l f g ip port hnone, hnone]
      rfl
  · have hlist : HubServer.updateList f ip port oper l = HubServer.updateFirst f oper l := by
      cases oper <;> first | exact absurd rfl hoper | rfl
    rw [hlist]
    exact ⟨hnd.sublist (updateFirst_sublist f oper l),
      fun g => loadOf_updateFirst f g oper l hnd hoper hfit⟩

/-! ## The hub's table -/

/-- Every list has distinct ids, and its loads are those of the map. -/
structure Refines (h : HubServer) (t : LoadMap) : Prop where
  nodup : ∀ k, ((h.forwards k).map ForwardServerData.id).Nodup
  load : ∀ k f, t k f = if k.toNat < 65536 ∧ f.toNat < 65536 then
    loadOf (h.forwards k.toUInt16) f.toUInt16 else none

/-- The ids of an update have 16 bits, and its operation fits the load. -/
def UpdateFits (t : LoadMap) (m : UpdateForwardConns) : Prop :=
  m.keeperserverid.toNat < 65536 ∧ m.forwardserverid.toNat < 65536 ∧
    m.oper.Fits (t m.keeperserverid m.forwardserverid)

instance (t : LoadMap) (m : UpdateForwardConns) : Decidable (UpdateFits t m) :=
  inferInstanceAs (Decidable (_ ∧ _))

theorem toUInt16_inj {x y : UInt32} (hx : x.toNat < 65536) (hy : y.toNat < 65536)
    (h : x.toUInt16 = y.toUInt16) : x = y := by
  have := congrArg UInt16.toNat h
  rw [UInt32.toNat_toUInt16, UInt32.toNat_toUInt16] at this
  apply UInt32.toNat_inj.mp
  omega

theorem forwards_update (h : HubServer) (m : UpdateForwardConns) (k : UInt16) :
    (h.onHubKeeperUpdateForwardConns m).1.forwards k =
      if k = m.keeperserverid.toUInt16 then
        HubServer.updateList m.forwardserverid.toUInt16 m.forwardip m.forwardport.toUInt16 m.oper
          (h.forwards k)
      else h.forwards k := by
  rw [HubServer.onHubKeeperUpdateForwardConns, HubServer.forwards, OrdMap.find_insert]
  split
  · rename_i hk
    rw [hk]
    rfl
  · rfl

/-- One update that fits. -/
theorem Refines.update {h : HubServer} {t : LoadMap} (hr : Refines h t) {m : UpdateForwardConns}
    (hm : UpdateFits t m) :
    Refines (h.onHubKeeperUpdateForwardConns m).1 (t.update m) := by
  obtain ⟨hk, hf, hfit⟩ := hm
  rw [hr.load, if_pos ⟨hk, hf⟩] at hfit
  obtain ⟨hnd, hload⟩ := loadOf_updateList m.forwardserverid.toUInt16 m.forwardip
    m.forwardport.toUInt16 m.oper _ (hr.nodup m.keeperserverid.toUInt16) hfit
  refine ⟨?_, ?_⟩
  · intro k
    rw [forwards_update]
    split
    · rename_i hkk
      rw [hkk]
      exact hnd
    · exact hr.nodup k
  · intro k f
    rw [LoadMap.update, forwards_update]
    by_cases hb : k.toNat < 65536 ∧ f.toNat < 65536
    · rw [if_pos hb]
      by_cases hkk : k = m.keeperserverid
      · subst hkk
        rw [if_pos rfl, hload]
        by_cases hff : f = m.forwardserverid
        · rw [if_pos ⟨rfl, hff⟩, hff, if_pos rfl, hr.load, if_pos ⟨hk, hf⟩]
        · rw [if_neg fun h => hff h.2, if_neg fun h => hff (toUInt16_inj hb.2 hf h), hr.load,
            if_pos hb]
      · rw [if_neg fun h => hkk h.1, if_neg fun h => hkk (toUInt16_inj hb.1 hk h), hr.load,
          if_pos hb]
    · rw [if_neg hb]
      have hne : ¬ (k = m.keeperserverid ∧ f = m.forwardserverid) := by
        rintro ⟨rfl, rfl⟩
        exact hb ⟨hk, hf⟩
      rw [if_neg hne, hr.load, if_neg hb]

theorem foldl_min (d : ForwardServerData) (ds : List ForwardServerData) :
    HubServer.minElement d ds ∈ d :: ds ∧
      ∀ x ∈ d :: ds, (HubServer.minElement d ds).numConnections ≤ x.numConnections := by
  unfold HubServer.minElement
  induction ds generalizing d with
  | nil =>
    refine ⟨List.mem_cons_self, ?_⟩
    intro x hx
    rw [List.mem_singleton.mp hx]
    exact UInt16.le_refl _
  | cons y ds ih =>
    rw [List.foldl_cons]
    obtain ⟨hmem, hmin⟩ := ih (if y.numConnections < d.numConnections then y else d)
    have hhead := hmin _ List.mem_cons_self
    refine ⟨?_, ?_⟩
    · rcases List.mem_cons.mp hmem with heq | hmem
      · rw [heq]
        split
        · exact List.mem_cons_of_mem _ List.mem_cons_self
        · exact List.mem_cons_self
      · exact List.mem_cons_of_mem _ (List.mem_cons_of_mem _ hmem)
    · -- the smaller of the first two is at most both of them
      have hboth : (if y.numConnections < d.numConnections then y else d).numConnections ≤
          d.numConnections ∧
          (if y.numConnections < d.numConnections then y else d).numConnections ≤
            y.numConnections := by
        simp only [UInt16.lt_iff_toNat_lt, UInt16.le_iff_toNat_le]
        split <;> constructor <;> omega
      intro x hx
      rcases List.mem_cons.mp hx with rfl | hx
      · exact UInt16.le_trans hhead hboth.1
      · rcases List.mem_cons.mp hx with rfl | hx
        · exact UInt16.le_trans hhead hboth.2
        · exact hmin x (List.mem_cons_of_mem _ hx)

theorem loadOf_mem {l : List ForwardServerData} (hnd : (l.map ForwardServerData.id).Nodup)
    {d : ForwardServerData} (hd : d ∈ l) : loadOf l d.id = some (d.numConnections.toNat : Int) := by
  induction l with
  | nil => cases hd
  | cons x l ih =>
    rw [List.map_cons, List.nodup_cons] at hnd
    rw [loadOf_cons]
    rcases List.mem_cons.mp hd with rfl | hd
    · rw [if_pos rfl]
    · rw [if_neg fun h => hnd.1 (by rw [h]; exact List.mem_map_of_mem hd), ih hnd.2 hd]

theorem loadOf_eq_some {l : List ForwardServerData} {f : UInt16} {n : Int}
    (h : loadOf l f = some n) : ∃ d ∈ l, d.id = f ∧ n = d.numConnections.toNat := by
  obtain ⟨d, hd, rfl⟩ := Option.map_eq_some_iff.mp h
  exact ⟨d, List.mem_of_find?_eq_some hd, by simpa using List.find?_some hd, rfl⟩

/-- The hub and the map side by side. -/
def tableStep (st : HubServer × LoadMap) (m : UpdateForwardConns) : Option (HubServer × LoadMap) :=
  some ((st.1.onHubKeeperUpdateForwardConns m).1, st.2.update m)

theorem refines_of_reaches {h₀ : HubServer} (h₀_empty : h₀.forwardConns_ = .empty)
    {st : HubServer × LoadMap}
    (hrun : Reaches tableStep (fun st m => UpdateFits st.2 m) (h₀, .empty) st) :
    Refines st.1 st.2 := by
  apply hrun.invariant (P := fun st => Refines st.1 st.2)
  · have hnil : ∀ k, h₀.forwards k = [] := by
      intro k
      rw [HubServer.forwards, h₀_empty, OrdMap.find_empty]
      rfl
    refine ⟨?_, ?_⟩
    · intro k
      rw [hnil]
      exact List.nodup_nil
    · intro k f
      rw [hnil]
      simp [LoadMap.empty, loadOf]
  · rintro ⟨h, t⟩ m st' hr hm hs
    obtain rfl := Option.some.inj hs
    exact hr.update hm

/-- **The hub's table is an integer-valued map.** After any updates that fit, a query for a keeper
    that is registered makes the hub send a `HubKeeperLogonSession` exactly when the keeper's map
    is not empty, and then for a forward server whose load is minimal. -/
theorem hub_table_refines_map {h₀ : HubServer} (h₀_empty : h₀.forwardConns_ = .empty)
    {h : HubServer} {t : LoadMap}
    (hrun : Reaches tableStep (fun st m => UpdateFits st.2 m) (h₀, .empty) (h, t))
    (q : HubLogonQueryForwardID) (hq : q.keeperserverid.toNat < 65536) {p : Nat}
    (hp : h.keeperConns_.find q.keeperserverid.toUInt16 = some p) :
    ((∃ p' m, Effect.send p' (.hubKeeperLogonSession m) ∈ (h.onHubLogonQueryForwardID q).2) ↔
      ∃ f, t q.keeperserverid f ≠ none) ∧
    ∀ p' m, Effect.send p' (.hubKeeperLogonSession m) ∈ (h.onHubLogonQueryForwardID q).2 →
      ∃ load, t q.keeperserverid m.forwardserverid.toUInt32 = some load ∧
        ∀ f load', t q.keeperserverid f = some load' → load ≤ load' := by
  have hr : Refines h t := refines_of_reaches h₀_empty hrun
  have hload : ∀ f : UInt32, f.toNat < 65536 → t q.keeperserverid f =
      loadOf (h.forwards q.keeperserverid.toUInt16) f.toUInt16 := by
    intro f hf
    rw [hr.load, if_pos ⟨hq, hf⟩]
  -- a load of the map is the load of an entry
  have hentry : ∀ f load, t q.keeperserverid f = some load →
      ∃ d ∈ h.forwards q.keeperserverid.toUInt16, load = d.numConnections.toNat := by
    intro f load hf
    rw [hr.load] at hf
    split at hf
    · obtain ⟨d, hd, -, hn⟩ := loadOf_eq_some hf
      exact ⟨d, hd, hn⟩
    · cases hf
  rw [HubServer.onHubLogonQueryForwardID]
  cases hl : h.forwards q.keeperserverid.toUInt16 with
  | nil =>
    refine ⟨⟨?_, ?_⟩, ?_⟩
    · rintro ⟨p', m, hm⟩
      cases hm
    · rintro ⟨f, hf⟩
      obtain ⟨load, hload⟩ := Option.ne_none_iff_exists'.mp hf
      obtain ⟨d, hd, -⟩ := hentry f load hload
      rw [hl] at hd
      cases hd
    · intro p' m hm
      cases hm
  | cons d ds =>
    obtain ⟨hmem, hmin⟩ := foldl_min d ds
    have hnd := hr.nodup q.keeperserverid.toUInt16
    rw [hl] at hnd
    have hsent : ∀ e, e ∈ h.sendToKeeper q.keeperserverid.toUInt16 (.hubKeeperLogonSession
        ⟨q.uid, q.connname, (HubServer.minElement d ds).id.toUInt32.toInt32⟩) ↔
          e = .send p (.hubKeeperLogonSession
            ⟨q.uid, q.connname, (HubServer.minElement d ds).id.toUInt32.toInt32⟩) := by
      intro e
      rw [HubServer.sendToKeeper, hp, sendTo, List.mem_singleton]
    -- the chosen entry's id and load in the map
    have hlt : (HubServer.minElement d ds).id.toUInt32.toNat < 65536 := by
      rw [UInt16.toNat_toUInt32]
      exact UInt16.toNat_lt _
    have hchosen : t q.keeperserverid (HubServer.minElement d ds).id.toUInt32 =
        some ((HubServer.minElement d ds).numConnections.toNat : Int) := by
      rw [hload _ hlt, hl, UInt16.toUInt16_toUInt32, loadOf_mem hnd hmem]
    refine ⟨⟨?_, ?_⟩, ?_⟩
    · intro _
      exact ⟨_, by rw [hchosen]; exact Option.some_ne_none _⟩
    · intro _
      exact ⟨p, _, (hsent _).mpr rfl⟩
    · intro p' m hm
      cases (hsent _).mp hm
      refine ⟨_, hchosen, ?_⟩
      intro f load' hf
      obtain ⟨x, hx, rfl⟩ := hentry f load' hf
      rw [hl] at hx
      have := UInt16.le_iff_toNat_le.mp (hmin x hx)
      omega

/-- A hub where keeper 10101 is registered on connection 7. -/
def registered : HubServer := { HubServer.empty with keeperConns_ := OrdMap.empty.insert 10101 7 }

def update (forwardserverid : UInt32) (oper : Operation) : UpdateForwardConns :=
  ⟨10101, forwardserverid, "127.0.0.1", forwardserverid, oper⟩

/-- A `DEC` whose `INC` was lost makes the counter wrap: the hub sends the client to 10032, though
    the load of 10031 is less. -/
theorem hub_table_wraps :
    ∃ st, Reaches tableStep (fun _ _ => True) (registered, .empty) st ∧
      (st.1.onHubLogonQueryForwardID ⟨1, "LogonServer:127.0.0.1:10011#1", 10101⟩).2 =
        [.send 7 (.hubKeeperLogonSession ⟨1, "LogonServer:127.0.0.1:10011#1", 10032⟩)] ∧
      st.2 10101 10032 = some 0 ∧ st.2 10101 10031 = some (-1) :=
  exists_reaches [update 10031 .ADD, update 10032 .ADD, update 10031 .DEC] (by decide +kernel)

theorem hub_table_refines_map_lua :
    ∃ st, Reaches tableStep (fun st m => UpdateFits st.2 m) (registered, .empty) st ∧
      ∀ p' m, Effect.send p' (.hubKeeperLogonSession m) ∈ (st.1.onHubLogonQueryForwardID
          ⟨1, "LogonServer:127.0.0.1:10011#1", 10101⟩).2 →
        ∃ load, st.2 10101 m.forwardserverid.toUInt32 = some load ∧
          ∀ f load', st.2 10101 f = some load' → load ≤ load' := by
  obtain ⟨⟨h, t⟩, hrun, hp⟩ : ∃ st,
      Reaches tableStep (fun st m => UpdateFits st.2 m) (registered, .empty) st ∧
        st.1.keeperConns_.find 10101 = some 7 :=
    exists_reaches [update 10031 .ADD, update 10032 .ADD, update 10031 .INC, update 10031 .DEC,
      update 10032 .INC, update 10031 .REMOVE] (by decide +kernel)
  exact ⟨(h, t), hrun, (hub_table_refines_map rfl hrun
    ⟨1, "LogonServer:127.0.0.1:10011#1", 10101⟩ (by decide) hp).2⟩

end Mmvx.Server
