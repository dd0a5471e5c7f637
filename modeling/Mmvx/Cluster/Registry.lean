/-
  The forward servers that a keeper has started, and those that the hub lists for it.

  `total` counts the entries of the hub's list for an id together with the `ADD`s under way. It is
  never more than one for an id that is started and nothing for another one; it is exactly that
  (`hub_lists_started`) as long as no `ADD` gets lost and the list itself is not (`keeps`). But
  `sendToHub` drops an `ADD` while the link is down, and nothing sends it again when the link comes
  up (`hub_misses_started`).
-/
import Mmvx.Cluster.Updates

namespace Mmvx.Cluster

open Mmvx.Lib Mmvx.Server

variable {nk nf : Nat}

/-! ## The condition on the steps -/

/-- The end `p` is not one of the keeper `j` for a forward server. -/
def notForwardOf (s : System nk nf) (j : Fin nk) (p : Nat) : Bool :=
  match s.links[p]? with
  | some e => e.info.role ≠ .keeperServer j
  | none => true

/-- No connection of a forward server goes down at the keeper `j`. -/
def staysUp (j : Fin nk) (s : System nk nf) : Action nk nf → Bool
  | .down p => notForwardOf s j p
  | _ => true

/-- The next message under way to `p` is a query that the keeper `j` answers with an id. -/
def answersQuery (s : System nk nf) (j : Fin nk) (p : Nat) : Bool :=
  match s.links.receive p with
  | some (e, m, _) =>
    match m.val with
    | .keeperQuery q => e.info.role = .keeperServer j &&
        ((s.keepers j).serverConfig_.find?
          ((s.keepers j).matchesQuery (e.info.conn p) q)).isSome
    | _ => false
  | none => false

/-- An `ADD` for the keeper `k`. -/
def isAdd (k : UInt16) (u : UpdateForwardConns) : Bool :=
  u.keeperserverid.toUInt16 = k && u.oper = .ADD

/-- The hub has an end `p` where an `ADD` for the keeper `k` waits. -/
def addWaits (s : System nk nf) (k : UInt16) (p : Nat) : Bool :=
  match s.links[p]? with
  | some e => e.info.role = .hubServer && e.inbox.any fun m => (updateIn m.val).any (isAdd k)
  | none => false

/-- The message that is lost on its way to `p` is an `ADD` for the keeper `k`. -/
def addLost (s : System nk nf) (k : UInt16) (p : Nat) : Bool :=
  match s.links.lose p with
  | some (e, m, _) => e.info.role = .hubServer && (updateIn m.val).any (isAdd k)
  | none => false

/-- The step loses neither an `ADD` of the keeper `j` nor the hub's list: a query is answered only
    while the hub's link is up, an end of the hub goes down only when no `ADD` waits there, the
    keeper's end loses none that it has sent, and the hub restarts only while no id is started. -/
def keeps (j : Fin nk) (s : System nk nf) : Action nk nf → Bool
  | .deliver p _ => !answersQuery s j p || linkUp s (s.keepers j).hubConn_
  | .down p => !addWaits s (s.keepers j).serverID_ p
  | .lose p => !addLost s (s.keepers j).serverID_ p
  | .restartHub => (s.keepers j).serverStart_.all fun d => !d.start
  | _ => true

/-! ## What every run keeps -/

section

variable {s s' : System nk nf} {a : Action nk nf}

theorem Change.serverID (h : Change s a s') : s'.view.serverID = s.view.serverID := by
  cases h <;> simp_all

/-- Forward servers report `INC` and `DEC` only. -/
def Reports (_ : Nat) (i : Info nk nf) (m : Tagged Message) : Prop :=
  ∀ j u, i.role = .keeperServer j → updateIn m.val = some u → u.oper = .INC ∨ u.oper = .DEC

theorem HubEnd.role {j : Fin nk} {q p : Nat} {i : Info nk nf} (h : HubEnd s j q) (hw : Wired s)
    (hl : Extends s.links s'.links) (hq : s'.links.label q = some (i, p)) :
    i.role = .hubServer := by
  obtain ⟨p₀, i₀, hconn, hp₀⟩ := h
  obtain ⟨e, he, rfl, rfl⟩ := Links.getElem?_of_label hp₀
  have hends := ((hw.keepers j).hubConn p₀ hconn |>.peer he).1
  exact (hends.mono hl).role_eq hq

theorem Change.reports (h : Change s a s') (hw : Wired s) (hr : Links.AllMail Reports s.links) :
    Links.AllMail Reports s'.links := by
  refine h.allMail hr ?_ ?_ ?_
  · intro q i m hnone _ j u _ hu
    rw [hnone] at hu
    cases hu
  · intro q i m hi j u hi' _
    rw [hi] at hi'
    cases hi'
  · intro q i p m hq hs j u hi hu
    generalize m.val = v at hs hu
    cases hs with
    | answer hends hstart => cases hu
    | report hf hconn hl hoper =>
      cases hu
      exact hoper
    | add hhub | relay hhub | remove _ _ _ hhub =>
      rw [hhub.role hw h.extends hq] at hi
      cases hi

/-- No `REMOVE` for the keeper `k`. -/
def NoRemove (k : UInt16) (_ : Nat) (i : Info nk nf) (m : Tagged Message) : Prop :=
  ∀ u, takesUpdates i = true → updateIn m.val = some u → u.oper = .REMOVE →
    u.keeperserverid.toUInt16 ≠ k

theorem notForwardOf_eq_true {j j' : Fin nk} {p : Nat}
    {e : Endpoint (Info nk nf) (Tagged Message)} (h : notForwardOf s j p = true)
    (he : s.links[p]? = some e) (hrole : e.info.role = .keeperServer j') : j' ≠ j := by
  rintro rfl
  simp [notForwardOf, he, hrole] at h

theorem Change.noRemove (h : Change s a s') {j : Fin nk} (hr : Links.AllMail Reports s.links)
    (hids : ∀ j', s.view.serverID j' = s.view.serverID j → j' = j) (hup : staysUp j s a = true)
    (hn : Links.AllMail (NoRemove (s.view.serverID j)) s.links) :
    Links.AllMail (NoRemove (s.view.serverID j)) s'.links := by
  refine h.allMail hn ?_ ?_ ?_
  · intro q i m hnone _ u _ hu
    rw [hnone] at hu
    cases hu
  · intro q i m hi u hi' _
    simp [takesUpdates, hi] at hi'
  · intro q i p m hq hs u _ hu hoper
    generalize m.val = v at hs hu
    cases hs with
    | answer hends hstart => cases hu
    | add hhub =>
      cases hu
      cases hoper
    | relay hhub he hrole hin hm =>
      cases hu
      rcases hr _ _ he _ hin _ u hrole (by rw [hm]; rfl) with hinc | hdec
      · rw [hinc] at hoper
        cases hoper
      · rw [hdec] at hoper
        cases hoper
    | report hf hconn hl hinc =>
      cases hu
      rcases hinc with rfl | rfl <;> cases hoper
    | remove ha he hrole hhub =>
      cases hu
      subst ha
      intro hk
      have hne := notForwardOf_eq_true hup he hrole
      exact hne (hids _ ((UInt16.toUInt16_toUInt32 _).symm.trans hk))

end

/-! ## Entries and `ADD`s -/

theorem map_id_updateFirst (g : UInt16) {oper : Operation} (hoper : oper ≠ .REMOVE)
    (l : List ForwardServerData) :
    (HubServer.updateFirst g oper l).map ForwardServerData.id = l.map ForwardServerData.id := by
  induction l with
  | nil => rfl
  | cons d l ih =>
    rw [HubServer.updateFirst]
    split
    · cases oper with
      | REMOVE => exact absurd rfl hoper
      | _ => rfl
    · rw [List.map_cons, List.map_cons, ih]

/-- Entries with an id, before and after an update. -/
theorem countP_updateList (g f : UInt16) (ip : String) (port : UInt16) {oper : Operation}
    (hoper : oper ≠ .REMOVE) (l : List ForwardServerData) :
    (HubServer.updateList g ip port oper l).countP (fun d => d.id = f) =
      l.countP (fun d => d.id = f) + if oper = .ADD ∧ g = f then 1 else 0 := by
  by_cases hadd : oper = .ADD
  · subst hadd
    rw [HubServer.updateList, List.countP_append, List.countP_singleton]
    simp
  · have hlist : HubServer.updateList g ip port oper l = HubServer.updateFirst g oper l := by
      cases oper <;> first | exact absurd rfl hadd | rfl
    have hmap : ∀ l : List ForwardServerData, l.countP (fun d => d.id = f) =
        (l.map ForwardServerData.id).countP (fun id => id = f) := by
      intro l
      rw [List.countP_map]
      rfl
    rw [hlist, if_neg fun h => hadd h.1, hmap, hmap, map_id_updateFirst g hoper, Nat.add_zero]

/-- The entries for the forward server `f` of the keeper `k`, and those still under way. -/
def total (s : System nk nf) (k f : UInt16) : Nat :=
  (s.view.lists k).countP (fun d => d.id = f) + flying takesUpdates s .ADD k f

/-- The step adds to the entries at most what it starts, and exactly this if it loses nothing. -/
structure Accounted (j : Fin nk) (f : UInt16) (s : System nk nf) (a : Action nk nf)
    (s' : System nk nf) : Prop where
  le : total s' (s.view.serverID j) f + (s.view.started j f).toNat ≤
    total s (s.view.serverID j) f + (s'.view.started j f).toNat
  ge : keeps j s a = true → total s (s.view.serverID j) f ≤ (s.view.started j f).toNat →
    total s (s.view.serverID j) f + (s'.view.started j f).toNat ≤
      total s' (s.view.serverID j) f + (s.view.started j f).toNat

section

variable {s s' : System nk nf} {a : Action nk nf} {j : Fin nk} {f : UInt16}

/-- Nothing is started, and what gets lost does not count. -/
theorem accounted_lost (hstart : s'.view.started j f = s.view.started j f)
    (hle : total s' (s.view.serverID j) f ≤ total s (s.view.serverID j) f)
    (hge : keeps j s a = true → total s (s.view.serverID j) f ≤ (s.view.started j f).toNat →
      total s (s.view.serverID j) f ≤ total s' (s.view.serverID j) f) : Accounted j f s a s' := by
  refine ⟨?_, fun hkeeps hmost => ?_⟩
  · rw [hstart]
    omega
  · have := hge hkeeps hmost
    rw [hstart]
    omega

theorem accounted_same (hlists : s'.view.lists = s.view.lists)
    (hstart : s'.view.started j f = s.view.started j f)
    (hfly : flying takesUpdates s' .ADD (s.view.serverID j) f =
      flying takesUpdates s .ADD (s.view.serverID j) f) : Accounted j f s a s' := by
  have htotal : total s' (s.view.serverID j) f = total s (s.view.serverID j) f := by
    rw [total, total, hlists, hfly]
  exact accounted_lost hstart (Nat.le_of_eq htotal) fun _ _ => Nat.le_of_eq htotal.symm

/-- The hub handles an update. -/
theorem accounted_update {p : Nat} {e : Endpoint (Info nk nf) (Tagged Message)}
    {m : Tagged Message} {l : Links (Info nk nf) (Tagged Message)} {u : UpdateForwardConns}
    (hn : Links.AllMail (NoRemove (s.view.serverID j)) s.links)
    (hr : s.links.receive p = some (e, m, l)) (hrole : e.info.role = .hubServer)
    (hm : m.val = .hubKeeperUpdateForwardConns u)
    (hview : s'.view = { s.view with
      lists := (s.hub.onHubKeeperUpdateForwardConns u).1.forwards })
    (hlinks : s'.links = l) : Accounted j f s a s' := by
  have hstart : s'.view.started j f = s.view.started j f := by rw [hview]
  have htakes : takesUpdates e.info = true := by simp [takesUpdates, hrole]
  have hfly : flying takesUpdates s .ADD (s.view.serverID j) f = _ := flying_receive hr hlinks
  have hu : updateIn m.val = some u := by rw [hm]; rfl
  have hlist : s'.view.lists (s.view.serverID j) = if s.view.serverID j = u.keeperserverid.toUInt16
      then HubServer.updateList u.forwardserverid.toUInt16 u.forwardip u.forwardport.toUInt16 u.oper
        (s.view.lists (s.view.serverID j)) else s.view.lists (s.view.serverID j) := by
    rw [hview]
    exact forwards_update s.hub u _
  have htotal : total s' (s.view.serverID j) f = total s (s.view.serverID j) f := by
    rw [total, total, hfly, hlist, htakes, hu]
    split
    · rename_i hk
      have hoper : u.oper ≠ .REMOVE := fun hrem =>
        (hn.receive hr).2 u htakes hu hrem hk.symm
      rw [countP_updateList _ _ _ _ hoper]
      have hfor : isFor (s.view.serverID j) f .ADD u =
          decide (u.oper = .ADD ∧ u.forwardserverid.toUInt16 = f) := by
        simp [isFor, ← hk, Bool.and_comm]
      simp only [Bool.true_and, Option.any_some, hfor, decide_eq_true_eq]
      omega
    · rename_i hk
      rw [Option.any_some, isFor_of_ne fun h => hk h.symm]
      rfl
  exact accounted_lost hstart (Nat.le_of_eq htotal) fun _ _ => Nat.le_of_eq htotal.symm

/-- A keeper answers a query and reports the id to the hub. -/
theorem flying_query {p : Nat} {e : Endpoint (Info nk nf) (Tagged Message)}
    {m : Tagged Message} {l : Links (Info nk nf) (Tagged Message)} {s₁ : System nk nf}
    {q : KeeperQuery} {c : ServerConfig} (hw : Wired s)
    (hr : s.links.receive p = some (e, m, l)) (hm : m.val = .keeperQuery q)
    (hlinks : s₁.links = l) :
    flying takesUpdates (s₁.applyAll m.cause (.send p (.keeperAnswer ((s.keepers j).answer c)) ::
      (s.keepers j).sendToHub (.hubKeeperUpdateForwardConns ((s.keepers j).addMessage c))))
      .ADD (s.view.serverID j) c.id = flying takesUpdates s .ADD (s.view.serverID j) c.id +
        if linkUp s (s.keepers j).hubConn_ then 1 else 0 := by
  rw [System.applyAll_cons]
  have hsilent : Silent (s.view.serverID j) c.id .ADD
      (.send p (.keeperAnswer ((s.keepers j).answer c))) := rfl
  have hends : ∀ p', (s.keepers j).hubConn_ = some p' →
      Ends (System.apply m.cause s₁ (.send p (.keeperAnswer ((s.keepers j).answer c)))).links p'
        (.keeperHub j) .hubServer := by
    intro p' hp'
    refine ((hw.keepers j).hubConn p' hp').mono (extends_of_label fun r => ?_)
    rw [System.apply_label, hlinks, Links.label_receive hr]
  have hup : linkUp (System.apply m.cause s₁ (.send p (.keeperAnswer ((s.keepers j).answer c))))
      (s.keepers j).hubConn_ = linkUp s (s.keepers j).hubConn_ := by
    refine linkUp_congr (fun r => ?_) _
    rw [← Links.target_receive hr, ← hlinks]
    exact Links.target_send s₁.links p r _
  have hfor : (updateIn (.hubKeeperUpdateForwardConns ((s.keepers j).addMessage c))).any
      (isFor (s.view.serverID j) c.id .ADD) = true := by
    simp [updateIn, isFor, KeeperServer.addMessage, System.view]
  rw [KeeperServer.sendToHub, flying_sendTo m.cause hends (fun i hi => by simp [takesUpdates, hi])
    hfor, flying_silent m.cause hsilent, flying_receive_of_not hr hlinks (Or.inr (by rw [hm]; rfl)),
    hup]

/-- An id of a keeper other than `j`, or another id, does not count. -/
theorem flying_query_other {p : Nat} {e : Endpoint (Info nk nf) (Tagged Message)}
    {m : Tagged Message} {l : Links (Info nk nf) (Tagged Message)} {s₁ : System nk nf}
    {j' : Fin nk} {q : KeeperQuery} {c : ServerConfig}
    (hr : s.links.receive p = some (e, m, l)) (hm : m.val = .keeperQuery q)
    (hlinks : s₁.links = l) (hne : s.view.serverID j' ≠ s.view.serverID j ∨ c.id ≠ f) :
    flying takesUpdates (s₁.applyAll m.cause (.send p (.keeperAnswer ((s.keepers j').answer c)) ::
      (s.keepers j').sendToHub (.hubKeeperUpdateForwardConns ((s.keepers j').addMessage c))))
      .ADD (s.view.serverID j) f = flying takesUpdates s .ADD (s.view.serverID j) f := by
  have hfor : isFor (s.view.serverID j) f .ADD ((s.keepers j').addMessage c) = false := by
    rcases hne with hne | hne
    · exact isFor_of_ne fun h => hne ((UInt16.toUInt16_toUInt32 _).symm.trans h)
    · simp [isFor, KeeperServer.addMessage, hne]
  rw [flying_silents, flying_receive_of_not hr hlinks (Or.inr (by rw [hm]; rfl))]
  intro x hx
  rcases List.mem_cons.mp hx with rfl | hx
  · rfl
  · exact silent_sendTo rfl hfor x hx

theorem answersQuery_of_receive {p : Nat} {e : Endpoint (Info nk nf) (Tagged Message)}
    {m : Tagged Message} {l : Links (Info nk nf) (Tagged Message)} {q : KeeperQuery}
    {c : ServerConfig} (hr : s.links.receive p = some (e, m, l))
    (hrole : e.info.role = .keeperServer j) (hm : m.val = .keeperQuery q)
    (hc : (s.keepers j).serverConfig_.find? ((s.keepers j).matchesQuery (e.info.conn p) q) =
      some c) : answersQuery s j p = true := by
  simp [answersQuery, hr, hm, hrole, hc]

theorem accounted_query {p : Nat} {rand : Int32} {e : Endpoint (Info nk nf) (Tagged Message)}
    {m : Tagged Message} {l : Links (Info nk nf) (Tagged Message)} {s₁ : System nk nf}
    {j' : Fin nk} {q : KeeperQuery} {c : ServerConfig} {start : UInt16 → Bool} (hw : Wired s)
    (hids : ∀ j', s.view.serverID j' = s.view.serverID j → j' = j)
    (hr : s.links.receive p = some (e, m, l)) (hrole : e.info.role = .keeperServer j')
    (hm : m.val = .keeperQuery q)
    (hc : (s.keepers j').serverConfig_.find? ((s.keepers j').matchesQuery (e.info.conn p) q) =
      some c)
    (hnew : s.view.started j' c.id = false)
    (hstart : ∀ f, start f = (s.view.started j' f || decide (f = c.id)))
    (hview : s₁.view = { s.view with started := Function.update s.view.started j' start })
    (hlinks : s₁.links = l) :
    Accounted j f s (.deliver p rand) (s₁.applyAll m.cause
      (.send p (.keeperAnswer ((s.keepers j').answer c)) ::
        (s.keepers j').sendToHub (.hubKeeperUpdateForwardConns ((s.keepers j').addMessage c)))) := by
  by_cases hj : j' = j
  · subst hj
    by_cases hf : c.id = f
    · -- the id that the step starts
      subst hf
      have htotal := flying_query (c := c) hw hr hm hlinks (j := j')
      refine ⟨?_, fun hkeeps _ => ?_⟩
      · rw [total, total, htotal, view_applyAll, hview, hnew]
        simp only [Function.update_self, hstart, hnew, Bool.false_or, decide_true, Bool.toNat_true,
          Bool.toNat_false]
        split <;> omega
      · have hup : linkUp s (s.keepers j').hubConn_ = true := by
          simpa [keeps, answersQuery_of_receive hr hrole hm hc] using hkeeps
        rw [total, total, htotal, view_applyAll, hview, hnew, if_pos hup]
        simp only [Function.update_self, hstart, hnew, Bool.false_or, decide_true, Bool.toNat_true,
          Bool.toNat_false]
        omega
    · refine accounted_same ?_ ?_ (flying_query_other hr hm hlinks (Or.inr hf))
      · rw [view_applyAll, hview]
      · rw [view_applyAll, hview]
        have hne : f ≠ c.id := fun h => hf h.symm
        simp [hstart, hne]
  · have hne : s.view.serverID j' ≠ s.view.serverID j := fun h => hj (hids j' h)
    refine accounted_same ?_ ?_ (flying_query_other hr hm hlinks (Or.inl hne))
    · rw [view_applyAll, hview]
    · rw [view_applyAll, hview]
      exact congrFun (Function.update_of_ne (fun h => hj h.symm) _ _) f

theorem isFor_of_isAdd {k f : UInt16} {u : UpdateForwardConns} (h : isAdd k u = false) :
    isFor k f .ADD u = false := by
  simp only [isAdd, Bool.and_eq_false_iff] at h
  rcases h with hk | hadd
  · rw [isFor, hk, Bool.false_and, Bool.false_and]
  · rw [isFor, hadd, Bool.and_false]

/-- An end of a client, of the logon server or of the hub goes down. -/
theorem accounted_down {p : Nat} {e : Endpoint (Info nk nf) (Tagged Message)}
    (he : s.links[p]? = some e)
    (hrole : e.info.role = .client ∨ e.info.role = .logonServer ∨ e.info.role = .logonHub ∨
      e.info.role = .hubServer)
    (hview : s'.view = s.view) (hlinks : s'.links = s.links.close p) :
    Accounted j f s (.down p) s' := by
  refine accounted_lost (by rw [hview]) ?_ ?_
  · have hle : flying takesUpdates s' .ADD (s.view.serverID j) f ≤ _ := flying_close_le hlinks
    rw [total, total, hview]
    omega
  · intro hkeeps _
    have hnot : ∀ m ∈ e.inbox, (takesUpdates e.info &&
        (updateIn m.val).any (isFor (s.view.serverID j) f .ADD)) = false := by
      intro m hm
      rcases hrole with hi | hi | hi | hi
      · simp [takesUpdates, hi]
      · simp [takesUpdates, hi]
      · simp [takesUpdates, hi]
      · cases hu : updateIn m.val with
        | none => simp
        | some u =>
          have hwaits : isAdd (s.view.serverID j) u = false := by
            simp only [keeps, addWaits, he, hi, Bool.not_eq_true', Bool.and_eq_false_iff,
              List.any_eq_false] at hkeeps
            have hno := hkeeps.resolve_left (by simp) m hm
            rw [hu, Option.any_some, Bool.not_eq_true] at hno
            exact hno
          rw [Option.any_some, isFor_of_isAdd hwaits, Bool.and_false]
    exact Nat.le_of_eq (by rw [total, total, hview, flying_close he hlinks hnot])

/-- A message is lost with the end that has sent it. -/
theorem accounted_lose {p : Nat} {e : Endpoint (Info nk nf) (Tagged Message)}
    {m : Tagged Message} {l : Links (Info nk nf) (Tagged Message)}
    (hr : Links.AllMail Reports s.links) (hl : s.links.lose p = some (e, m, l))
    (hview : s'.view = s.view) (hlinks : s'.links = l) : Accounted j f s (.lose p) s' := by
  refine accounted_lost (by rw [hview]) ?_ ?_
  · have hle : flying takesUpdates s' .ADD (s.view.serverID j) f ≤ _ := flying_lose_le hl hlinks
    rw [total, total, hview]
    omega
  · intro hkeeps _
    have hnot : (takesUpdates e.info &&
        (updateIn m.val).any (isFor (s.view.serverID j) f .ADD)) = false := by
      obtain ⟨he, -, ms, hin, -⟩ := Links.lose_eq_some hl
      have hm : m ∈ e.inbox := hin ▸ List.mem_append_right _ List.mem_cons_self
      cases hu : updateIn m.val with
      | none => simp
      | some u =>
        rw [Option.any_some]
        cases hi : e.info.role with
        | keeperServer j' =>
          have hoper : u.oper ≠ .ADD := by
            rcases hr p e he m hm j' u hi hu with h | h <;> simp [h]
          rw [isFor_of_oper hoper, Bool.and_false]
        | hubServer =>
          have hadd : isAdd (s.view.serverID j) u = false := by
            show isAdd (s.keepers j).serverID_ u = false
            simpa [keeps, addLost, hl, hi, hu] using hkeeps
          rw [isFor_of_isAdd hadd, Bool.and_false]
        | _ => simp [takesUpdates, hi]
    exact Nat.le_of_eq (by rw [total, total, hview, flying_lose_of_not hl hlinks hnot])

theorem silent_onAnswer (k : KeeperClient) (m : KeeperAnswer) {id f : UInt16} :
    ∀ e ∈ (k.onAnswer m).2, Silent id f .ADD e := by
  intro e he
  unfold KeeperClient.onAnswer at he
  dsimp only at he
  split at he
  · obtain ⟨es, hes, he⟩ := List.mem_flatten.mp he
    rw [(List.mem_replicate.mp hes).2] at he
    exact silent_sendTo rfl (isFor_of_oper (by simp [ForwardServer.updateMessage])) e he
  · cases he

/-- A forward server of another keeper goes down. -/
theorem accounted_downKeeper {p : Nat} {e : Endpoint (Info nk nf) (Tagged Message)}
    {s₁ : System nk nf} {j' : Fin nk} {start : UInt16 → Bool} {es : List Effect}
    (hr : Links.AllMail Reports s.links) (hne : j' ≠ j) (he : s.links[p]? = some e)
    (hrole : e.info.role = .keeperServer j')
    (hview : s₁.view = { s.view with started := Function.update s.view.started j' start })
    (hlinks : s₁.links = s.links.close p)
    (hes : es = [] ∨ ∃ d, es = (s.keepers j').sendToHub
      (.hubKeeperUpdateForwardConns ((s.keepers j').removeMessage d))) :
    Accounted j f s (.down p) (s₁.applyAll none es) := by
  have hsilent : ∀ x ∈ es, Silent (s.view.serverID j) f .ADD x := by
    rcases hes with rfl | ⟨d, rfl⟩
    · intro x hx
      cases hx
    · exact silent_sendTo rfl (isFor_of_oper (by simp [KeeperServer.removeMessage]))
  refine accounted_same (by rw [view_applyAll, hview]) ?_ ?_
  · rw [view_applyAll, hview]
    exact congrFun (Function.update_of_ne hne.symm _ _) f
  · rw [flying_silents none hsilent, flying_close he hlinks]
    intro m hm
    cases hu : updateIn m.val with
    | none => simp
    | some u =>
      have hoper : u.oper ≠ .ADD := by
        rcases hr p e he m hm j' u hrole hu with h | h <;> simp [h]
      rw [Option.any_some, isFor_of_oper hoper, Bool.and_false]

theorem Change.accounted (h : Change s a s') (hw : Wired s) (hr : Links.AllMail Reports s.links)
    (hn : Links.AllMail (NoRemove (s.view.serverID j)) s.links)
    (hids : ∀ j', s.view.serverID j' = s.view.serverID j → j' = j) (hup : staysUp j s a = true) :
    Accounted j f s a s' := by
  cases h with
  | message hr' hm hview hlinks hes =>
    refine accounted_same (by rw [view_applyAll, hview]) (by rw [view_applyAll, hview]) ?_
    rw [flying_plains _ hes, flying_receive_of_not hr' hlinks]
    exact hm.imp id fun hnone => by rw [hnone]; rfl
  | update hr' hrole hm hview hlinks => exact accounted_update hn hr' hrole hm hview hlinks
  | query hr' hrole hends hm hc hnew hstart hview hlinks =>
    exact accounted_query hw hids hr' hrole hm hc hnew hstart hview hlinks
  | relay hr' hrole hm hview hlinks =>
    rename_i u
    have hoper : u.oper ≠ .ADD := by
      rcases (hr.receive hr').2 _ u hrole (by rw [hm]; rfl) with h | h <;> simp [h]
    refine accounted_same (by rw [view_applyAll, hview]) (by rw [view_applyAll, hview]) ?_
    rw [flying_silents, flying_receive_of_not hr' hlinks]
    · exact Or.inr (by rw [hm]; exact isFor_of_oper hoper)
    · exact silent_sendTo rfl (isFor_of_oper hoper)
  | answer hr' hrole hm hview hlinks =>
    refine accounted_same (by rw [view_applyAll, hview]) (by rw [view_applyAll, hview]) ?_
    rw [flying_silents _ (silent_onAnswer _ _), flying_receive_of_not hr' hlinks]
    exact Or.inl (by simp [takesUpdates, hrole])
  | clients hf hoper hview hlinks =>
    rename_i oper _
    have hne : oper ≠ .ADD := by
      rcases hoper with ⟨rfl, -⟩ | ⟨rfl, -⟩ <;> simp
    refine accounted_same (by rw [view_applyAll, hview]) (by rw [view_applyAll, hview]) ?_
    rw [flying_silents, flying_links hlinks]
    exact silent_sendTo rfl (isFor_of_oper hne)
  | clientSend hends hview hlinks =>
    exact accounted_same (by rw [hview]) (by rw [hview])
      (flying_clientSend (fun _ h => h) hends hlinks)
  | internal hview hlinks hes =>
    refine accounted_same (by rw [view_applyAll, hview]) (by rw [view_applyAll, hview]) ?_
    rw [flying_plains _ hes, flying_links hlinks]
  | connect hroles hview hlinks hes =>
    refine accounted_same (by rw [view_applyAll, hview]) (by rw [view_applyAll, hview]) ?_
    rw [flying_plains _ hes, flying_connect hlinks]
  | connectHub hnone hview hlinks hes =>
    refine accounted_same (by rw [view_applyAll, hview]) (by rw [view_applyAll, hview]) ?_
    rw [flying_plains _ hes, flying_connect hlinks]
  | connectKeeper hnone hb hview hlinks hes =>
    refine accounted_same (by rw [view_applyAll, hview]) (by rw [view_applyAll, hview]) ?_
    rw [flying_plains _ hes, flying_connect hlinks]
  | down he hrole hview hlinks => exact accounted_down he hrole hview hlinks
  | downKeeperHub he hrole hview hlinks =>
    refine accounted_same (by rw [hview]) (by rw [hview]) (flying_close he hlinks fun m _ => ?_)
    simp [takesUpdates, hrole]
  | downKeeper he hrole hview hlinks hes =>
    exact accounted_downKeeper hr (notForwardOf_eq_true hup he hrole) he hrole hview hlinks hes
  | downForward he hrole hview hlinks =>
    refine accounted_same (by rw [hview]) (by rw [hview]) (flying_close he hlinks fun m _ => ?_)
    simp [takesUpdates, hrole]
  | lose hl hview hlinks => exact accounted_lose hr hl hview hlinks
  | restartLogon hview hlinks =>
    exact accounted_same (by rw [hview]) (by rw [hview])
      (flying_restartLogon (fun _ h => h) hlinks)
  | restartHub hview hlinks =>
    have hle := Links.mail_closeAll_le (n := s.links) (P := fun i m => takesUpdates i &&
      (updateIn m.val).any (isFor (s.view.serverID j) f .ADD)) System.isHub
    refine accounted_lost (by rw [hview]) ?_ ?_
    · rw [total, total, hview, flying, flying, hlinks]
      dsimp only
      rw [List.countP_nil]
      omega
    · intro hkeeps hmost
      have hnone : s.view.started j f = false := by
        rw [Bool.eq_false_iff]
        intro hstart
        obtain ⟨d, hd, -, hstart⟩ := ((s.keepers j).isStarted_iff f).mp hstart
        have := List.all_eq_true.mp hkeeps d hd
        rw [hstart] at this
        cases this
      rw [hnone, Bool.toNat_false] at hmost
      omega

end

/-! ## Runs -/

/-- What holds while no forward server of the keeper `j` goes down; `id` gives the keepers' ids. -/
structure Tracked (id : Fin nk → UInt16) (j : Fin nk) (s : System nk nf) : Prop where
  wired : Wired s
  serverID : s.view.serverID = id
  reports : Links.AllMail Reports s.links
  noRemove : Links.AllMail (NoRemove (id j)) s.links
  most : ∀ f, total s (id j) f ≤ (s.view.started j f).toNat

section

variable {logon : LogonServer} {keepers : Fin nk → KeeperServer} {s s' : System nk nf} {j : Fin nk}

theorem tracked_init (h₀ : Fresh logon keepers) (j : Fin nk) :
    Tracked (fun j => (keepers j).serverID_) j (System.init logon keepers : System nk nf) where
  wired := wired_init h₀
  serverID := rfl
  reports p e he := by cases he
  noRemove p e he := by cases he
  most f := Nat.zero_le _

theorem Tracked.step {id : Fin nk → UInt16} {a : Action nk nf} (h : Tracked id j s)
    (hids : ∀ j', id j' = id j → j' = j) (hup : staysUp j s a = true) (hs : s.step a = some s') :
    Tracked id j s' ∧ ∀ f, Accounted j f s a s' := by
  obtain rfl := h.serverID
  have hchange := step_change h.wired hs
  have hacc : ∀ f, Accounted j f s a s' := fun f =>
    hchange.accounted h.wired h.reports h.noRemove hids hup
  refine ⟨⟨h.wired.step hs, hchange.serverID, hchange.reports h.wired h.reports,
    hchange.noRemove h.reports hids hup h.noRemove, fun f => ?_⟩, hacc⟩
  have := (hacc f).le
  have := h.most f
  omega

variable {C : System nk nf → Action nk nf → Prop}

theorem tracked_reaches (h₀ : Fresh logon keepers)
    (hids : ∀ j', (keepers j').serverID_ = (keepers j).serverID_ → j' = j)
    (h : Reaches System.step C (System.init logon keepers) s)
    (hup : ∀ s a, C s a → staysUp j s a = true) : Tracked (fun j => (keepers j).serverID_) j s :=
  h.invariant (tracked_init h₀ j) fun s a _ ht hc hs => (ht.step hids (hup s a hc) hs).1

/-- Every id that the keeper has started is listed or on its way. -/
theorem total_reaches (h₀ : Fresh logon keepers)
    (hids : ∀ j', (keepers j').serverID_ = (keepers j).serverID_ → j' = j)
    (h : Reaches System.step (fun s a => staysUp j s a = true ∧ keeps j s a = true)
      (System.init logon keepers) s) (f : UInt16) :
    total s (keepers j).serverID_ f = (s.view.started j f).toNat := by
  have hleast : Tracked (fun j => (keepers j).serverID_) j s ∧
      (s.view.started j f).toNat ≤ total s (keepers j).serverID_ f := by
    refine h.invariant (P := fun s => Tracked (fun j => (keepers j).serverID_) j s ∧
      (s.view.started j f).toNat ≤ total s (keepers j).serverID_ f) ⟨tracked_init h₀ j, ?_⟩ ?_
    · have hnone : (keepers j).isStarted f = false := by
        rw [KeeperServer.isStarted, (h₀.keepers j).1]
        rfl
      show ((keepers j).isStarted f).toNat ≤ _
      rw [hnone]
      exact Nat.zero_le _
    · rintro s a s' ⟨ht, hle⟩ ⟨hup, hkeeps⟩ hs
      obtain ⟨ht', hacc⟩ := ht.step hids hup hs
      have hid : s.view.serverID j = (keepers j).serverID_ := congrFun ht.serverID j
      have hge := (hacc f).ge hkeeps
      rw [hid] at hge
      have := hge (ht.most f)
      exact ⟨ht', by omega⟩
  exact Nat.le_antisymm (hleast.1.most f) hleast.2

/-- **The hub lists what the keeper has started.** In every run in which no connection of a forward
    server goes down at the keeper, and in which no step loses an `ADD` or the list: when no message
    is under way, the hub's list for the keeper contains each id that the keeper has started exactly
    once, and no other. -/
theorem hub_lists_started (h₀ : Fresh logon keepers)
    (hids : ∀ j', (keepers j').serverID_ = (keepers j).serverID_ → j' = j)
    (h : Reaches System.step (fun s a => staysUp j s a = true ∧ keeps j s a = true)
      (System.init logon keepers) s)
    (hidle : ∀ e ∈ s.links, e.inbox = []) (f : UInt16) :
    (s.hub.forwards (s.keepers j).serverID_).countP (fun d => d.id = f) =
      if (s.keepers j).isStarted f then 1 else 0 := by
  have htracked := tracked_reaches h₀ hids h fun _ _ hc => hc.1
  have hid : (s.keepers j).serverID_ = (keepers j).serverID_ := congrFun htracked.serverID j
  have hfly : flying takesUpdates s .ADD (keepers j).serverID_ f = 0 := by
    rw [flying, Links.mail_eq_zero_iff]
    intro p e he m hm
    rw [hidle e (List.mem_of_getElem? he)] at hm
    cases hm
  have htotal := total_reaches h₀ hids h f
  rw [total, hfly, Nat.add_zero] at htotal
  rw [hid]
  refine htotal.trans ?_
  show ((s.keepers j).isStarted f).toNat = _
  cases (s.keepers j).isStarted f <;> rfl

end

/-- The hub restarts, the keeper connects and a first forward server gets an id; the link goes down
    and up again, and a second one gets an id. -/
theorem hub_lists_started_lua :
    ∃ s : System 1 2, Reaches System.step
        (fun s a => staysUp 0 s a = true ∧ keeps 0 s a = true) (luaInit 2) s ∧
      linkUp s (s.keepers 0).hubConn_ = true ∧
      ((s.keepers 0).isStarted 10031 = true ∧ (s.keepers 0).isStarted 10032 = true ∧
        (s.keepers 0).isStarted 10033 = false) ∧
      (s.hub.forwards (s.keepers 0).serverID_).countP (fun d => d.id = 10031) = 1 ∧
      (s.hub.forwards (s.keepers 0).serverID_).countP (fun d => d.id = 10032) = 1 ∧
      (s.hub.forwards (s.keepers 0).serverID_).countP (fun d => d.id = 10033) = 0 := by
  obtain ⟨s, hs, hidle, hlink, hfirst, hsecond, hthird⟩ : ∃ s : System 1 2,
      Reaches System.step (fun s a => staysUp 0 s a = true ∧ keeps 0 s a = true) (luaInit 2) s ∧
        (∀ e ∈ s.links, e.inbox = []) ∧ linkUp s (s.keepers 0).hubConn_ = true ∧
        (s.keepers 0).isStarted 10031 = true ∧ (s.keepers 0).isStarted 10032 = true ∧
        (s.keepers 0).isStarted 10033 = false :=
    exists_reaches [.restartHub, .keeperConnectHub 0, .deliver 1 0,
      .forwardConnectKeeper 0 0 "127.0.0.1", .deliver 3 0, .deliver 1 0, .deliver 2 0,
      .down 0, .down 1, .forwardUp 0, .deliver 3 0, .keeperConnectHub 0, .deliver 5 0,
      .forwardConnectKeeper 1 0 "127.0.0.1", .deliver 7 0, .deliver 6 0, .deliver 5 0]
      (by decide +kernel)
  have hlists := hub_lists_started fresh_lua (by decide) hs hidle
  refine ⟨s, hs, hlink, ⟨hfirst, hsecond, hthird⟩, ?_, ?_, ?_⟩
  · rw [hlists, if_pos hfirst]
  · rw [hlists, if_pos hsecond]
  · rw [hlists, hthird]
    rfl

/-- The second forward server gets its id while the link is down. The link is up again, the hub
    knows the keeper, and no message is under way; the hub does not list 10032. -/
theorem hub_misses_started :
    ∃ s : System 1 2, Reaches System.step (fun s a => staysUp 0 s a = true) (luaInit 2) s ∧
      linkUp s (s.keepers 0).hubConn_ = true ∧
      s.hub.keeperConns_.find (s.keepers 0).serverID_ = some 7 ∧
      (∀ e ∈ s.links, e.inbox = []) ∧ (s.keepers 0).isStarted 10032 = true ∧
      (s.hub.forwards (s.keepers 0).serverID_).countP (fun d => d.id = 10032) = 0 :=
  exists_reaches [.keeperConnectHub 0, .deliver 1 0, .forwardConnectKeeper 0 0 "127.0.0.1",
    .deliver 3 0, .deliver 1 0, .deliver 2 0, .down 0, .down 1,
    .forwardConnectKeeper 1 0 "127.0.0.1", .deliver 5 0, .deliver 4 0, .keeperConnectHub 0,
    .deliver 7 0] (by decide +kernel)

end Mmvx.Cluster
