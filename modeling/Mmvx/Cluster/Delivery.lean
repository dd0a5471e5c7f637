/-
  No request gets lost.

  Each server on the way of a request has branches that drop it without a word. `passes` is the
  condition that a step takes none of them for a client that is still there: the pool has a
  connection, the hub knows forward servers of the keeper and the keeper itself, the keeper has the
  forward server's connection, all on links that are up, no end goes down with a request in its
  inbox, and no server end that is down loses a request that it has sent. In every run whose steps
  meet it, a request of a client that is still connected has been answered, or its connection shut
  down, or it waits somewhere (`request_settled`); where nothing is outstanding it does not wait
  (`no_request_lost`). `request_lost` is a run that does not meet it.
-/
import Mmvx.Cluster.Addressing
import Mmvx.Cluster.Pending

namespace Mmvx.Cluster

open Mmvx.Lib Mmvx.Server

variable {nk nf : Nat}

/-- The other end of the connection has gone down. -/
def peerDown (s : System nk nf) (p : Nat) : Bool :=
  match s.links[p]? with
  | some e => (s.links[e.peer]?).any fun q => q.state = .kDisconnected
  | none => false

/-- No client is connected under the name `n`. -/
def gone (s : System nk nf) (n : String) : Bool :=
  (s.logon.clientConns_.find n).all (peerDown s)

/-- All requests in these messages are of clients that have gone. -/
def mailGone (s : System nk nf) (ms : List (Tagged Message)) : Bool :=
  ms.all fun m => (carries m.val).all fun x => gone s x.2

/-- The task gets a connection of the pool, and if the password is right the hub is connected. -/
def taskPasses (s : System nk nf) : QueryResult → Bool
  | .noConnection => false
  | .stored num_rows passwdEquals =>
    !(num_rows = 1 && passwdEquals) || linkUp s s.logon.hubConn_

/-- The step drops no request of a client that is connected. -/
def passes (s : System nk nf) : Action nk nf → Bool
  | .clientConnect => NewName s
  | .deliver p _ =>
    match s.links.receive p with
    | some (e, m, _) => (carries m.val).all fun x => gone s x.2 || passedOn s e.info m.val
    | none => true
  | .down p =>
    match s.links[p]? with
    | some e => e.info.role = .logonServer || mailGone s e.inbox
    | none => true
  | .lose p =>
    match s.links.lose p with
    | some (e, m, _) => e.info.role = .logonServer || mailGone s [m]
    | none => true
  | .runTask n result =>
    match s.tasks[n]? with
    | some t => gone s t.val.connName || taskPasses s result
    | none => true
  | .restartHub => s.links.all fun e => !System.isHub e.info || mailGone s e.inbox
  | _ => true

/-- The end `p` has not gone down. -/
def Up (s : System nk nf) (p : Nat) : Prop :=
  ∃ e, s.links[p]? = some e ∧ e.state ≠ .kDisconnected

theorem up_iff {s : System nk nf} {p : Nat} :
    Up s p ↔ s.links[p]?.any (fun e => e.state ≠ .kDisconnected) = true := by
  rw [Up]
  cases s.links[p]? <;> simp

instance (s : System nk nf) (p : Nat) : Decidable (Up s p) := decidable_of_iff _ up_iff.symm

def Settled (s : System nk nf) (r : Request) : Prop :=
  (∃ ret, .sent r.client ⟨some r, .logonRet ret⟩ ∈ s.log) ∨ .shutdown r.client ∈ s.log ∨
    0 < pending s r

/-! ## Effects -/

section

variable {s s' : System nk nf} {r : Request}

theorem Settled.mono (h : Settled s r) (hlog : s.log ⊆ s'.log)
    (hp : pending s r ≤ pending s' r) : Settled s' r := by
  rcases h with ⟨ret, hret⟩ | hshut | hpend
  · exact Or.inl ⟨ret, hlog hret⟩
  · exact Or.inr (Or.inl (hlog hshut))
  · exact Or.inr (Or.inr (Nat.lt_of_lt_of_le hpend hp))

theorem le_pending_apply (cause : Option Request) (e : Effect) :
    pending s r ≤ pending (System.apply cause s e) r := by
  cases e with
  | send p m => exact Nat.add_le_add_right (Links.le_mail_send p _) _
  | shutdown p => exact Nat.le_of_eq (pending_shutdown cause r p).symm
  | put t => rw [pending_put]; exact Nat.le_add_right _ _
  | call c => exact Nat.le_refl _

theorem le_pending_applyAll (cause : Option Request) (es : List Effect) :
    pending s r ≤ pending (s.applyAll cause es) r := by
  apply System.applyAll_induction cause s es (P := fun s' => pending s r ≤ pending s' r)
  · exact Nat.le_refl _
  · intro s' e _ h
    exact Nat.le_trans h (le_pending_apply cause e)

theorem Settled.applyAll (h : Settled s r) (cause : Option Request) (es : List Effect) :
    Settled (s.applyAll cause es) r :=
  h.mono (System.log_subset_applyAll cause s es) (le_pending_applyAll cause es)

theorem Up.of_applyAll {p : Nat} {cause : Option Request} {es : List Effect}
    (h : Up (s.applyAll cause es) p) : Up s p := by
  revert h
  refine System.applyAll_induction cause s es (P := fun s' => Up s' p → Up s p) id ?_
  rintro s' e - ih ⟨x', hx', hst'⟩
  obtain ⟨x, hx, -, hst | ⟨hst, -, -⟩⟩ := System.getElem?_apply cause s' e hx'
  · exact ih ⟨x, hx, by rw [← hst]; exact hst'⟩
  · exact ih ⟨x, hx, by rw [hst]; simp⟩

/-- What is sent on a connection that is up waits there. -/
theorem pending_send_pos {p : Nat} {m : Message} (hsend : Sendable s.links (.send p m))
    (ht : (s.links.target p).isSome) (hc : (carries m).isSome) :
    0 < pending (System.apply (some r) s (.send p m)) r := by
  rw [pending_send _ _ hsend, if_pos ⟨ht, rfl, hc⟩]
  exact Nat.succ_pos _

theorem PassesOn.pending_pos {es : List Effect} (h : PassesOn s.links es)
    (hsend : ∀ e ∈ es, Sendable s.links e) : 0 < pending (s.applyAll (some r) es) r := by
  obtain ⟨p, m, rfl | ⟨c, rfl⟩, ht, hc⟩ := h
  · exact pending_send_pos (hsend _ List.mem_cons_self) ht hc
  · exact pending_send_pos (s := System.apply (some r) s (.call c))
      (hsend _ (List.mem_cons_of_mem _ List.mem_cons_self)) ht hc

/-- A client that is connected is found under its name. -/
theorem Registered.find (h : Registered s) {p : Nat} {n : String} (hn : Named s.links p n)
    (hup : Up s p) : s.logon.clientConns_.find n = some p := by
  obtain ⟨i, q, hl, hi, rfl⟩ := hn
  obtain ⟨e, he, hst⟩ := hup
  rw [Links.label_of_getElem? he] at hl
  obtain ⟨rfl, rfl⟩ := Prod.mk.inj (Option.some.inj hl)
  exact h p e he hi hst

theorem not_gone_of_find {n : String} {p : Nat} (h : s.logon.clientConns_.find n = some p)
    (hpeer : peerDown s p = false) : gone s n = false := by
  simp [gone, h, hpeer]

theorem peerDown_eq_true {p : Nat} : peerDown s p = true ↔
    ∃ e q, s.links[p]? = some e ∧ s.links[e.peer]? = some q ∧ q.state = .kDisconnected := by
  unfold peerDown
  cases hp : s.links[p]? with
  | none => simp
  | some e => cases hq : s.links[e.peer]? <;> simp [hq]

/-- An end that is down stays down. -/
theorem peerDown_mono {p : Nat} (h : peerDown s p = true) (hlabel : Extends s.links s'.links)
    (hup : ∀ q x, s.links.label q = some x → Up s' q → Up s q) : peerDown s' p = true := by
  obtain ⟨e, q, he, hq, hdown⟩ := peerDown_eq_true.mp h
  obtain ⟨e', he', -, hpeer⟩ :=
    Links.getElem?_of_label (hlabel p _ (Links.label_of_getElem? he))
  obtain ⟨q', hq', -⟩ := Links.getElem?_of_label (hlabel _ _ (Links.label_of_getElem? hq))
  refine peerDown_eq_true.mpr ⟨e', q', he', by rw [hpeer]; exact hq', ?_⟩
  refine Classical.byContradiction fun hst => ?_
  obtain ⟨q₀, hq₀, hst₀⟩ := hup _ _ (Links.label_of_getElem? hq) ⟨q', hq', hst⟩
  rw [hq] at hq₀
  cases hq₀
  exact hst₀ hdown

end

/-! ## Connections that are shut down -/

/-- An end is `kDisconnecting` only after `shutdown`. -/
def Shut (s : System nk nf) : Prop :=
  ∀ p e, s.links[p]? = some e → e.state = .kDisconnecting → .shutdown p ∈ s.log

namespace Shut

variable {s s' : System nk nf}

theorem relink (h : Shut s) (hlog : s.log ⊆ s'.log)
    (hl : ∀ (p : Nat) e', s'.links[p]? = some e' → e'.state = .kDisconnecting →
      ∃ e, s.links[p]? = some e ∧ e.state = .kDisconnecting) : Shut s' := by
  intro p e' he' hst'
  obtain ⟨e, he, hst⟩ := hl p e' he' hst'
  exact hlog (h p e he hst)

theorem applyAll (h : Shut s) (cause : Option Request) (es : List Effect) :
    Shut (s.applyAll cause es) := by
  refine System.applyAll_induction cause s es h ?_
  intro s' e _ h' p x' hx' hst'
  obtain ⟨x, hx, -, hst | ⟨-, -, hlog⟩⟩ := System.getElem?_apply cause s' e hx'
  · exact System.log_subset_apply cause s' e (h' p x hx (hst.symm.trans hst'))
  · exact hlog

theorem receive (h : Shut s) {p : Nat} {e : Endpoint (Info nk nf) (Tagged Message)}
    {m : Tagged Message} {l : Links (Info nk nf) (Tagged Message)}
    (hr : s.links.receive p = some (e, m, l)) (hlinks : s'.links = l) (hlog : s'.log = s.log) :
    Shut s' := by
  refine h.relink (by rw [hlog]; exact List.Subset.refl _) ?_
  intro q e' he' hst'
  rw [hlinks] at he'
  obtain ⟨e₀, he₀, ⟨-, rfl⟩ | ⟨-, rfl, -, heq⟩⟩ := Links.getElem?_receive hr he'
  · exact ⟨_, he₀, hst'⟩
  · rw [heq] at hst'
    exact ⟨e₀, he₀, hst'⟩

theorem lose (h : Shut s) {p : Nat} {e : Endpoint (Info nk nf) (Tagged Message)}
    {m : Tagged Message} {l : Links (Info nk nf) (Tagged Message)}
    (hl : s.links.lose p = some (e, m, l)) : Shut { s with links := l } := by
  refine h.relink (List.Subset.refl _) ?_
  intro q e' he' hst'
  obtain ⟨e₀, he₀, ⟨-, rfl⟩ | ⟨-, rfl, -, heq⟩⟩ := Links.getElem?_lose hl he'
  · exact ⟨_, he₀, hst'⟩
  · rw [heq] at hst'
    exact ⟨e₀, he₀, hst'⟩

theorem connect (h : Shut s) {a b : Info nk nf} (hlinks : s'.links = s.links.connect a b)
    (hlog : s'.log = s.log) : Shut s' := by
  refine h.relink (by rw [hlog]; exact List.Subset.refl _) ?_
  intro q e' he' hst'
  rw [hlinks] at he'
  obtain he' | ⟨-, rfl⟩ | ⟨-, rfl⟩ := Links.getElem?_connect he'
  · exact ⟨e', he', hst'⟩
  · cases hst'
  · cases hst'

theorem closeAll (h : Shut s) {P : Info nk nf → Bool} (hlinks : s'.links = s.links.closeAll P)
    (hlog : s'.log = s.log) : Shut s' := by
  refine h.relink (by rw [hlog]; exact List.Subset.refl _) ?_
  intro q e' he' hst'
  rw [hlinks] at he'
  obtain ⟨e, he, ⟨-, rfl⟩ | ⟨-, rfl⟩⟩ := Links.getElem?_closeAll he'
  · exact ⟨_, he, hst'⟩
  · cases hst'

theorem step (h : Shut s) (hw : Wired s) {a : Action nk nf} (hs : s.step a = some s') :
    Shut s' := by
  cases step_flow hw hs with
  | clientSend he hrole hstate hends =>
    refine h.relink (List.subset_cons_self _ _) ?_
    intro q e' he' hst'
    obtain ⟨e, he, rfl | ⟨-, rfl⟩⟩ := Links.getElem?_send he'
    · exact ⟨_, he, hst'⟩
    · exact ⟨e, he, hst'⟩
  | clientConnect hrole hname hlinks hconns htasks hreq hlog => exact h.connect hlinks hlog
  | logon hr hrole hm =>
    refine applyAll ?_ _ _
    exact h.receive hr rfl rfl
  | refuse hr hrole =>
    refine applyAll ?_ _ _
    exact h.receive hr rfl rfl
  | runTask ht =>
    refine applyAll ?_ _ _
    exact h
  | handle hr hrole hs₁ hlinks hes hsend hpass => exact (h.receive hr hlinks hs₁.log).applyAll _ _
  | answer hr hrole hm =>
    refine applyAll ?_ _ _
    exact h.receive hr rfl rfl
  | down he hstate hlinks hconns htasks hreq hlog hes hsend =>
    refine applyAll (h.relink (by rw [hlog]; exact List.Subset.refl _) ?_) _ _
    intro q e' he' hst'
    rw [hlinks] at he'
    obtain ⟨e₀, he₀, ⟨-, rfl⟩ | ⟨-, rfl⟩⟩ := Links.getElem?_close he'
    · exact ⟨_, he₀, hst'⟩
    · cases hst'
  | lose hl => exact h.lose hl
  | other hs₁ hlinks hes hsend =>
    refine applyAll ?_ _ _
    obtain hlinks | ⟨i, i', -, -, hlinks⟩ := hlinks
    · refine h.relink (by rw [hs₁.log]; exact List.Subset.refl _) ?_
      intro q e' he' hst'
      exact ⟨e', hlinks ▸ he', hst'⟩
    · exact h.connect hlinks hs₁.log
  | restartLogon hlinks hconns htasks hreq hlog => exact h.closeAll hlinks hlog
  | restartHub hs' hlinks => exact h.closeAll hlinks hs'.log

end Shut

/-! ## Steps -/

/-- Every request of a client that is connected is settled. -/
def Kept (s : System nk nf) : Prop :=
  ∀ r m, .request r m ∈ s.log → Up s r.client → peerDown s r.client = false → Settled s r

section

variable {s s' : System nk nf} {r : Request}

theorem Up.of_send {p q : Nat} {m : Tagged Message} (hlinks : s'.links = s.links.send q m)
    (h : Up s' p) : Up s p := by
  obtain ⟨x', hx', hst⟩ := h
  rw [hlinks] at hx'
  obtain ⟨x, hx, rfl | ⟨-, rfl⟩⟩ := Links.getElem?_send hx'
  · exact ⟨_, hx, hst⟩
  · exact ⟨x, hx, hst⟩

theorem Up.of_receive {p q : Nat} {e : Endpoint (Info nk nf) (Tagged Message)}
    {m : Tagged Message} {l : Links (Info nk nf) (Tagged Message)}
    (hr : s.links.receive q = some (e, m, l)) (hlinks : s'.links = l) (h : Up s' p) : Up s p := by
  obtain ⟨x', hx', hst⟩ := h
  rw [hlinks] at hx'
  obtain ⟨x, hx, ⟨-, rfl⟩ | ⟨-, rfl, -, heq⟩⟩ := Links.getElem?_receive hr hx'
  · exact ⟨_, hx, hst⟩
  · rw [heq] at hst
    exact ⟨x, hx, hst⟩

theorem Up.of_lose {p q : Nat} {e : Endpoint (Info nk nf) (Tagged Message)}
    {m : Tagged Message} {l : Links (Info nk nf) (Tagged Message)}
    (hl : s.links.lose q = some (e, m, l)) (h : Up { s with links := l } p) : Up s p := by
  obtain ⟨x', hx', hst⟩ := h
  obtain ⟨x, hx, ⟨-, rfl⟩ | ⟨-, rfl, -, heq⟩⟩ := Links.getElem?_lose hl hx'
  · exact ⟨_, hx, hst⟩
  · rw [heq] at hst
    exact ⟨x, hx, hst⟩

theorem Up.of_close {p q : Nat} (hlinks : s'.links = s.links.close q) (h : Up s' p) :
    p ≠ q ∧ Up s p := by
  obtain ⟨x', hx', hst⟩ := h
  rw [hlinks] at hx'
  obtain ⟨x, hx, ⟨hne, rfl⟩ | ⟨-, rfl⟩⟩ := Links.getElem?_close hx'
  · exact ⟨hne, _, hx, hst⟩
  · exact absurd rfl hst

theorem Up.of_closeAll {p : Nat} {P : Info nk nf → Bool} (hlinks : s'.links = s.links.closeAll P)
    (h : Up s' p) : Up s p ∧ ∀ i q, s.links.label p = some (i, q) → P i = false := by
  obtain ⟨x', hx', hst⟩ := h
  rw [hlinks] at hx'
  obtain ⟨x, hx, ⟨hno, rfl⟩ | ⟨-, rfl⟩⟩ := Links.getElem?_closeAll hx'
  · refine ⟨⟨_, hx, hst⟩, fun i q hl => ?_⟩
    rw [Links.label_of_getElem? hx] at hl
    cases hl
    exact hno
  · exact absurd rfl hst

theorem Up.congr {p : Nat} (hlinks : s'.links = s.links) (h : Up s' p) : Up s p := by
  rwa [Up, hlinks] at h

/-- An end that was there before a new connection. -/
theorem Up.of_connect {p : Nat} {a b : Info nk nf} (hlinks : s'.links = s.links.connect a b)
    {x : Info nk nf × Nat} (hl : s.links.label p = some x) (h : Up s' p) : Up s p := by
  obtain ⟨x, hx, -⟩ := Links.getElem?_of_label hl
  have hlt := (List.getElem?_eq_some_iff.mp hx).1
  obtain ⟨x', hx', hst⟩ := h
  rw [hlinks] at hx'
  obtain hx' | ⟨rfl, -⟩ | ⟨rfl, -⟩ := Links.getElem?_connect hx'
  · exact ⟨x', hx', hst⟩
  · exact absurd hlt (by omega)
  · exact absurd hlt (by omega)

/-- A step takes no end away, and no end that is down comes up. -/
theorem step_ends (hw : Wired s) {a : Action nk nf} (hs : s.step a = some s') :
    Extends s.links s'.links ∧ ∀ q x, s.links.label q = some x → Up s' q → Up s q := by
  have happly (s₁ : System nk nf) (cause : Option Request) (es : List Effect)
      (h : Extends s.links s₁.links ∧ ∀ q x, s.links.label q = some x → Up s₁ q → Up s q) :
      Extends s.links (s₁.applyAll cause es).links ∧
        ∀ q x, s.links.label q = some x → Up (s₁.applyAll cause es) q → Up s q := by
    refine ⟨fun q x hq => ?_, fun q x hq hup => h.2 q x hq (Up.of_applyAll hup)⟩
    rw [(System.applyAll_frame cause s₁ es).2.2.2.2.2]
    exact h.1 q x hq
  have hreceive {p : Nat} {e : Endpoint (Info nk nf) (Tagged Message)} {m : Tagged Message}
      {l : Links (Info nk nf) (Tagged Message)} (hr : s.links.receive p = some (e, m, l)) :
      Extends s.links l ∧ ∀ (s₁ : System nk nf), s₁.links = l →
        ∀ q x, s.links.label q = some x → Up s₁ q → Up s q :=
    ⟨extends_of_label (Links.label_receive hr), fun s₁ hl _ _ _ hup => Up.of_receive hr hl hup⟩
  cases step_flow hw hs with
  | clientSend he hrole hstate hends =>
    exact ⟨extends_of_label fun r => Links.label_send _ _ r _, fun _ _ _ hup => Up.of_send rfl hup⟩
  | clientConnect hrole hname hlinks hconns htasks hreq hlog =>
    exact ⟨hlinks ▸ extends_connect _ _, fun _ _ hl hup => Up.of_connect hlinks hl hup⟩
  | logon hr hrole hm => exact happly _ _ _ ⟨(hreceive hr).1, (hreceive hr).2 _ rfl⟩
  | refuse hr hrole => exact happly _ _ _ ⟨(hreceive hr).1, (hreceive hr).2 _ rfl⟩
  | runTask ht => exact happly _ _ _ ⟨Extends.refl _, fun _ _ _ hup => hup⟩
  | handle hr hrole hs₁ hlinks hes hsend hpass =>
    exact happly _ _ _ ⟨hlinks ▸ (hreceive hr).1, (hreceive hr).2 _ hlinks⟩
  | answer hr hrole hm => exact happly _ _ _ ⟨(hreceive hr).1, (hreceive hr).2 _ rfl⟩
  | down he hstate hlinks hconns htasks hreq hlog hes hsend =>
    exact happly _ _ _ ⟨hlinks ▸ extends_of_label fun r => Links.label_close _ _ r,
      fun _ _ _ hup => (Up.of_close hlinks hup).2⟩
  | lose hl =>
    exact ⟨extends_of_label (Links.label_lose hl), fun _ _ _ hup => Up.of_lose hl hup⟩
  | other hs₁ hlinks hes hsend =>
    refine happly _ _ _ ?_
    obtain hlinks | ⟨i, i', -, -, hlinks⟩ := hlinks
    · exact ⟨hlinks ▸ Extends.refl _, fun _ _ _ hup => Up.congr hlinks hup⟩
    · exact ⟨hlinks ▸ extends_connect _ _, fun _ _ hl hup => Up.of_connect hlinks hl hup⟩
  | restartLogon hlinks hconns htasks hreq hlog =>
    exact ⟨hlinks ▸ extends_of_label fun r => Links.label_closeAll _ _ r,
      fun _ _ _ hup => (Up.of_closeAll hlinks hup).1⟩
  | restartHub hs' hlinks =>
    exact ⟨hlinks ▸ extends_of_label fun r => Links.label_closeAll _ _ r,
      fun _ _ _ hup => (Up.of_closeAll hlinks hup).1⟩

theorem peerDown_of_step (hw : Wired s) {a : Action nk nf} (hs : s.step a = some s') {p : Nat}
    (h : peerDown s' p = false) : peerDown s p = false := by
  obtain ⟨hlabel, hup⟩ := step_ends hw hs
  rw [Bool.eq_false_iff] at h ⊢
  exact fun hdown => h (peerDown_mono hdown hlabel hup)

/-- The message that is taken is not of `r`. -/
theorem Settled.receive (h : Settled s r) {p : Nat}
    {e : Endpoint (Info nk nf) (Tagged Message)} {m : Tagged Message}
    {l : Links (Info nk nf) (Tagged Message)} (hr : s.links.receive p = some (e, m, l))
    (hlinks : s'.links = l) (htasks : s'.tasks = s.tasks) (hlog : s'.log = s.log)
    (hnot : isPending r e.info m = false) : Settled s' r := by
  refine h.mono (by rw [hlog]; exact List.Subset.refl _) ?_
  rw [pending_receive r hr hlinks htasks, hnot]
  exact Nat.le_refl _

/-- The message that is lost is not of `r`. -/
theorem Settled.lost (h : Settled s r) {p : Nat} {e : Endpoint (Info nk nf) (Tagged Message)}
    {m : Tagged Message} {l : Links (Info nk nf) (Tagged Message)}
    (hl : s.links.lose p = some (e, m, l)) (hnot : isPending r e.info m = false) :
    Settled { s with links := l } r := by
  refine h.mono (List.Subset.refl _) ?_
  rw [pending_lose r hl, hnot]
  exact Nat.le_refl _

/-- Ends go down, but no request of `r` is lost. -/
theorem Settled.lose (h : Settled s r) (htasks : s'.tasks = s.tasks) (hlog : s'.log = s.log)
    (hkeep : ∀ (p : Nat) e, s.links[p]? = some e → (∃ m ∈ e.inbox, isPending r e.info m = true) →
      s'.links[p]? = some e) : Settled s' r := by
  rcases h with ⟨ret, hret⟩ | hshut | hpend
  · exact Or.inl ⟨ret, by rw [hlog]; exact hret⟩
  · exact Or.inr (Or.inl (by rw [hlog]; exact hshut))
  · refine Or.inr (Or.inr ?_)
    rw [pending] at hpend ⊢
    rw [htasks]
    rcases Nat.eq_zero_or_pos (Links.mail (isPending r) s.links) with hzero | hpos
    · omega
    · obtain ⟨p, e, he, hm⟩ := Links.mail_pos_iff.mp hpos
      have := Links.mail_pos_iff.mpr ⟨p, e, hkeep p e he hm, hm⟩
      omega

/-- A message of a client that is connected waits at its own end, or its name leads to it. -/
theorem Causal.pending_mail (h : Causal s) (hreg : Registered s) {p : Nat}
    {e : Endpoint (Info nk nf) (Tagged Message)} {m : Tagged Message} (he : s.links[p]? = some e)
    (hm : m ∈ e.inbox) (hp : isPending r e.info m = true) (hup : Up s r.client) :
    m.cause = some r ∧ ((e.info.role = .logonServer ∧ r.client = p) ∨
      (e.info.role ≠ .logonServer ∧ ∃ u n, carries m.val = some (u, n) ∧
        s.logon.clientConns_.find n = some r.client)) := by
  have hmail := h.mail p e he m hm
  simp only [isPending, Bool.and_eq_true, Bool.or_eq_true, decide_eq_true_eq] at hp
  unfold MailOk at hmail
  refine ⟨hp.1, ?_⟩
  split at hmail
  · rename_i hrole
    obtain ⟨r', hcause, hpeer, -⟩ := hmail
    obtain rfl := Option.some.inj (hp.1.symm.trans hcause)
    exact Or.inl ⟨hrole, hpeer⟩
  · rename_i hrole
    obtain ⟨x, hx⟩ := Option.isSome_iff_exists.mp (hp.2.resolve_left hrole)
    obtain ⟨r', hcause, hn, -⟩ := hmail x.1 x.2 hx
    obtain rfl := Option.some.inj (hp.1.symm.trans hcause)
    exact Or.inr ⟨hrole, x.1, x.2, hx, hreg.find hn hup⟩

/-- Requests of clients that have gone may be lost. -/
theorem mailGone_false {ms : List (Tagged Message)} {m : Tagged Message} {u : Int64} {n : String}
    {p : Nat} (hm : m ∈ ms) (hc : carries m.val = some (u, n))
    (hfind : s.logon.clientConns_.find n = some p) (hpeer : peerDown s p = false) :
    mailGone s ms = false := by
  rw [Bool.eq_false_iff]
  intro hgone
  have := List.all_eq_true.mp hgone m hm
  rw [hc] at this
  simp [not_gone_of_find hfind hpeer] at this

/-- A task of a client that is connected is passed on, or its connection is shut down. -/
theorem settled_queryLogonAccount (hw : Wired s) {t : Task} {result : QueryResult}
    (hfind : s.logon.clientConns_.find t.connName = some r.client)
    (hpass : taskPasses s result = true) :
    Settled (s.applyAll (some r) (s.logon.queryLogonAccount t result)) r := by
  have hsend := hw.logon.queryLogonAccount t result
  unfold LogonServer.queryLogonAccount at hsend ⊢
  cases result with
  | noConnection => cases hpass
  | stored num_rows passwdEquals =>
    dsimp only at hsend ⊢
    split
    · rename_i hok
      rw [if_pos hok] at hsend
      have hup : linkUp s s.logon.hubConn_ = true := by
        simpa [taskPasses, hok.1, hok.2] using hpass
      obtain ⟨p, hp, htarget⟩ := linkUp_eq_true hup
      unfold LogonServer.sendToHub at hsend ⊢
      rw [hp] at hsend ⊢
      exact Or.inr (Or.inr (PassesOn.pending_pos ⟨p, _, Or.inr ⟨_, rfl⟩, htarget, rfl⟩ hsend))
    · refine Or.inr (Or.inl ?_)
      unfold LogonServer.shutdownConn
      rw [hfind, System.applyAll_append]
      exact List.mem_cons_self

/-- A reply on a connection that is up is sent, unless the connection has been shut down. -/
theorem settled_reply (hshut : Shut s) (hup : Up s r.client) (ret : LogonRet) :
    Settled (System.apply (some r) s (.send r.client (.logonRet ret))) r := by
  obtain ⟨e, he, hst⟩ := hup
  cases hstate : e.state with
  | kConnected =>
    refine Or.inl ⟨ret, ?_⟩
    have hconn : s.links.connected r.client = true := by simp [Links.connected, he, hstate]
    simp [System.apply, hconn]
  | kDisconnecting =>
    exact Or.inr (Or.inl (System.log_subset_apply _ _ _ (hshut _ e he hstate)))
  | kDisconnected => exact absurd hstate hst

/-! ### One callback -/

section

variable {p : Nat} {e : Endpoint (Info nk nf) (Tagged Message)} {m : Tagged Message}
  {l : Links (Info nk nf) (Tagged Message)}

theorem settled_clientSend {m : Message} (he : s.links[p]? = some e)
    (hstate : e.state = .kConnected) (hends : Ends s.links p .client .logonServer)
    (hup : Up s e.peer) (hlinks : s'.links = s.links.send p ⟨some ⟨e.peer, s.requests⟩, m⟩) :
    Settled s' ⟨e.peer, s.requests⟩ := by
  obtain ⟨x, hx, hst⟩ := hup
  have htarget := Links.target_of_connected he hstate hx hst
  have hpeer := (hends.peer he).1.role_eq (Links.label_of_getElem? hx)
  refine Or.inr (Or.inr ?_)
  rw [pending, hlinks, Links.mail_send_target htarget hx, if_pos (by simp [isPending, hpeer])]
  omega

theorem Settled.logon (h : Settled s r) (hr : s.links.receive p = some (e, m, l))
    (hrole : e.info.role = .logonServer) (t : Task) :
    Settled ({ s with links := l }.applyAll m.cause [.put t]) r := by
  have hp : pending s r = pending { s with links := l } r + _ := pending_receive r hr rfl rfl
  refine h.mono (List.Subset.refl _) ?_
  show _ ≤ pending (System.apply m.cause { s with links := l } (.put t)) r
  rw [hp, pending_put]
  simp [isPending, hrole]

theorem Settled.refuse (h : Settled s r) (hc : Causal s) (hreg : Registered s)
    (hup : Up s r.client) (hr : s.links.receive p = some (e, m, l))
    (hrole : e.info.role = .logonServer) :
    Settled ({ s with links := l }.applyAll m.cause [.shutdown p]) r := by
  by_cases hp : isPending r e.info m = true
  · obtain ⟨he, -, rest, hin, -⟩ := Links.receive_eq_some hr
    obtain ⟨-, ⟨-, hclient⟩ | ⟨hne, -⟩⟩ :=
      hc.pending_mail hreg he (by rw [hin]; exact List.mem_cons_self) hp hup
    · exact Or.inr (Or.inl (by rw [hclient]; exact List.mem_cons_self))
    · exact absurd hrole hne
  · refine Settled.applyAll ?_ _ _
    exact h.receive hr rfl rfl rfl (by simpa using hp)

theorem Settled.runTask (h : Settled s r) (hw : Wired s) (hc : Causal s) (hreg : Registered s)
    (hup : Up s r.client) (hpeer : peerDown s r.client = false) {n : Nat} {t : Tagged Task}
    (ht : s.tasks[n]? = some t) {result : QueryResult} (hpass : passes s (.runTask n result) = true) :
    Settled ({ s with tasks := s.tasks.eraseIdx n }.applyAll t.cause
      (s.logon.queryLogonAccount t.val result)) r := by
  by_cases hcause : t.cause = some r
  · obtain ⟨r', lm, hcause', -, hn, -⟩ := hc.tasks t (List.mem_of_getElem? ht)
    obtain rfl := Option.some.inj (hcause.symm.trans hcause')
    have hfind := hreg.find hn hup
    have htask : taskPasses s result = true := by
      simpa [passes, ht, not_gone_of_find hfind hpeer] using hpass
    rw [hcause]
    exact settled_queryLogonAccount (s := { s with tasks := s.tasks.eraseIdx n })
      ⟨hw.clients, hw.mail, hw.logon, hw.hub, hw.keepers, hw.forwards⟩ hfind htask
  · have hrest : Settled { s with tasks := s.tasks.eraseIdx n } r := by
      refine h.mono (List.Subset.refl _) ?_
      rw [pending_runTask r ht, if_neg hcause]
      exact Nat.le_refl _
    exact hrest.applyAll _ _

theorem Settled.handle (h : Settled s r) (hc : Causal s) (hreg : Registered s)
    (hup : Up s r.client) (hpeer : peerDown s r.client = false)
    (hr : s.links.receive p = some (e, m, l)) (hrole : e.info.role ≠ .logonServer) {rand : Int32}
    (hpass : passes s (.deliver p rand) = true) (hs' : Alike s s') (hlinks : s'.links = l)
    {es : List Effect} (hsend : ∀ e ∈ es, Sendable l e)
    (hes : passedOn s e.info m.val = true → PassesOn s.links es) :
    Settled (s'.applyAll m.cause es) r := by
  by_cases hp : isPending r e.info m = true
  · obtain ⟨he, -, rest, hin, -⟩ := Links.receive_eq_some hr
    obtain ⟨hcause, ⟨hlogon, -⟩ | ⟨-, u, n, hcar, hfind⟩⟩ :=
      hc.pending_mail hreg he (by rw [hin]; exact List.mem_cons_self) hp hup
    · exact absurd hlogon hrole
    · have hpassed : passedOn s e.info m.val = true := by
        simpa [passes, hr, hcar, not_gone_of_find hfind hpeer] using hpass
      obtain ⟨q, m', hlist, htarget, hcar'⟩ := hes hpassed
      have hpasses : PassesOn s'.links es := by
        refine ⟨q, m', hlist, ?_, hcar'⟩
        rw [hlinks, Links.target_receive hr]
        exact htarget
      rw [hcause]
      exact Or.inr (Or.inr (hpasses.pending_pos (by rw [hlinks]; exact hsend)))
  · exact (h.receive hr hlinks hs'.tasks hs'.log (by simpa using hp)).applyAll _ _

theorem Settled.answer (h : Settled s r) (hc : Causal s) (hreg : Registered s) (hshut : Shut s)
    (hup : Up s r.client) (hr : s.links.receive p = some (e, m, l))
    (hrole : e.info.role = .logonHub) {a : HubLogonAnswerForwardID}
    (hm : m.val = .hubLogonAnswerForwardID a) (hup' : Up { s with links := l } r.client) :
    Settled ({ s with links := l }.applyAll m.cause
      (s.logon.sendToClient a.connname (.logonRet (LogonServer.successRet a)))) r := by
  by_cases hp : isPending r e.info m = true
  · obtain ⟨he, -, rest, hin, -⟩ := Links.receive_eq_some hr
    obtain ⟨hcause, ⟨hlogon, -⟩ | ⟨-, u, n, hcar, hfind⟩⟩ :=
      hc.pending_mail hreg he (by rw [hin]; exact List.mem_cons_self) hp hup
    · rw [hrole] at hlogon
      cases hlogon
    · rw [hm] at hcar
      cases hcar
      have hshut' : Shut { s with links := l } := by
        refine Shut.receive hshut hr ?_ ?_ <;> rfl
      unfold LogonServer.sendToClient
      rw [hcause, hfind]
      exact settled_reply hshut' hup' _
  · refine Settled.applyAll ?_ _ _
    exact h.receive hr rfl rfl rfl (by simpa using hp)

theorem Settled.down (h : Settled s r) (hc : Causal s) (hreg : Registered s)
    (hup : Up s r.client) (hpeer : peerDown s r.client = false) (he : s.links[p]? = some e)
    (hne : r.client ≠ p) (hpass : passes s (.down p) = true) (hlinks : s'.links = s.links.close p)
    (htasks : s'.tasks = s.tasks) (hlog : s'.log = s.log) : Settled s' r := by
  refine h.lose htasks hlog ?_
  rintro q f hf ⟨m, hm, hp⟩
  have hqp : q ≠ p := by
    rintro rfl
    obtain rfl := Option.some.inj (he.symm.trans hf)
    simp only [passes, he, Bool.or_eq_true, decide_eq_true_eq] at hpass
    obtain ⟨-, ⟨hlogon, hclient⟩ | ⟨hrole, u, n, hcar, hfind⟩⟩ := hc.pending_mail hreg he hm hp hup
    · exact hne hclient
    · rw [mailGone_false hm hcar hfind hpeer] at hpass
      exact hrole (hpass.resolve_right (by simp))
  rw [hlinks, Links.getElem?_close_of_ne hqp]
  exact hf

/-- A client that is connected has not lost what it has sent. -/
theorem Settled.loseStep (h : Settled s r) (hc : Causal s) (hreg : Registered s)
    (hup : Up s r.client) (hpeer : peerDown s r.client = false)
    (hl : s.links.lose p = some (e, m, l)) (hpass : passes s (.lose p) = true) :
    Settled { s with links := l } r := by
  refine h.lost hl ?_
  rw [Bool.eq_false_iff]
  intro hp
  obtain ⟨he, ⟨q, hq, hdown⟩, ms, hin, -⟩ := Links.lose_eq_some hl
  obtain ⟨-, ⟨-, hclient⟩ | ⟨hrole, u, n, hcar, hfind⟩⟩ :=
    hc.pending_mail hreg he (by rw [hin]; exact List.mem_append_right _ List.mem_cons_self) hp hup
  · rw [hclient, Bool.eq_false_iff] at hpeer
    exact hpeer (peerDown_eq_true.mpr ⟨e, q, he, hq, hdown⟩)
  · simp only [passes, hl, Bool.or_eq_true, decide_eq_true_eq] at hpass
    rw [mailGone_false List.mem_cons_self hcar hfind hpeer] at hpass
    exact hrole (hpass.resolve_right (by simp))

theorem Settled.restartHub (h : Settled s r) (hc : Causal s) (hreg : Registered s)
    (hup : Up s r.client) (hpeer : peerDown s r.client = false)
    (hpass : passes s (.restartHub) = true) (hlinks : s'.links = s.links.closeAll System.isHub)
    (hs' : Alike s s') : Settled s' r := by
  refine h.lose hs'.tasks hs'.log ?_
  rintro q f hf ⟨m, hm, hp⟩
  have hhub : System.isHub f.info = false := by
    rw [Bool.eq_false_iff]
    intro hhub
    have hgone := List.all_eq_true.mp hpass f (List.mem_of_getElem? hf)
    obtain ⟨-, ⟨hlogon, -⟩ | ⟨-, u, n, hcar, hfind⟩⟩ := hc.pending_mail hreg hf hm hp hup
    · simp [System.isHub, hlogon] at hhub
    · simp [hhub, mailGone_false hm hcar hfind hpeer] at hgone
  rw [hlinks]
  exact Links.getElem?_closeAll_of_not hf hhub

end

theorem Kept.step (h : Kept s) (hw : Wired s) (hc : Causal s) (hreg : Registered s)
    (hshut : Shut s) {a : Action nk nf} (ha : passes s a = true) (hs : s.step a = some s') :
    Kept s' := by
  intro r m₀ hreq hup hpeer'
  have hpeer := peerDown_of_step hw hs hpeer'
  cases step_flow hw hs with
  | @clientSend p e m he hrole hstate hends =>
    have hup' : Up s r.client := Up.of_send rfl hup
    rcases List.mem_cons.mp hreq with heq | hreq
    · obtain ⟨rfl, -⟩ := Event.request.inj heq
      exact settled_clientSend he hstate hends hup' rfl
    · exact (h r m₀ hreq hup' hpeer).mono (List.subset_cons_self _ _)
        (Nat.add_le_add_right (Links.le_mail_send p _) _)
  | clientConnect hrole hname hlinks hconns htasks hreq' hlog =>
    rw [hlog] at hreq
    obtain ⟨n, i, q, hn, -⟩ := hc.requests r m₀ hreq
    refine (h r m₀ hreq (Up.of_connect hlinks hn hup) hpeer).mono ?_ (Nat.le_of_eq ?_)
    · rw [hlog]; exact List.Subset.refl _
    · rw [pending, pending, hlinks, htasks, Links.mail_connect]
  | logon hr hrole hm =>
    have hup' : Up s r.client := Up.of_receive hr rfl (Up.of_applyAll hup)
    have hreq' := System.request_of_applyAll _ _ _ hreq
    exact (h r m₀ hreq' hup' hpeer).logon hr hrole _
  | refuse hr hrole =>
    have hup' : Up s r.client := Up.of_receive hr rfl (Up.of_applyAll hup)
    have hreq' := System.request_of_applyAll _ _ _ hreq
    exact (h r m₀ hreq' hup' hpeer).refuse hc hreg hup' hr hrole
  | @runTask n result t ht =>
    have hup' : Up { s with tasks := s.tasks.eraseIdx n } r.client := Up.of_applyAll hup
    have hreq' := System.request_of_applyAll _ _ _ hreq
    exact (h r m₀ hreq' hup' hpeer).runTask hw hc hreg hup' hpeer ht ha
  | handle hr hrole hs₁ hlinks hes hsend hpass =>
    have hreq' := System.request_of_applyAll _ _ _ hreq
    rw [hs₁.log] at hreq'
    have hup' : Up s r.client := Up.of_receive hr hlinks (Up.of_applyAll hup)
    exact (h r m₀ hreq' hup' hpeer).handle hc hreg hup' hpeer hr hrole ha hs₁ hlinks hsend hpass
  | answer hr hrole hm =>
    have hup' : Up s r.client := Up.of_receive hr rfl (Up.of_applyAll hup)
    have hreq' := System.request_of_applyAll _ _ _ hreq
    exact (h r m₀ hreq' hup' hpeer).answer hc hreg hshut hup' hr hrole hm (Up.of_applyAll hup)
  | down he hstate hlinks hconns htasks hreq' hlog hes hsend =>
    have hreq₀ := System.request_of_applyAll _ _ _ hreq
    rw [hlog] at hreq₀
    obtain ⟨hne, hup'⟩ := Up.of_close hlinks (Up.of_applyAll hup)
    exact ((h r m₀ hreq₀ hup' hpeer).down hc hreg hup' hpeer he hne ha hlinks htasks
      hlog).applyAll _ _
  | lose hl =>
    have hup' : Up s r.client := Up.of_lose hl hup
    exact (h r m₀ hreq hup' hpeer).loseStep hc hreg hup' hpeer hl ha
  | other hs₁ hlinks hes hsend =>
    have hreq' := System.request_of_applyAll _ _ _ hreq
    rw [hs₁.log] at hreq'
    refine Settled.applyAll ?_ _ _
    obtain hlinks | ⟨i, i', -, -, hlinks⟩ := hlinks
    · refine (h r m₀ hreq' (Up.congr hlinks (Up.of_applyAll hup)) hpeer).mono ?_ (Nat.le_of_eq ?_)
      · rw [hs₁.log]; exact List.Subset.refl _
      · rw [pending, pending, hlinks, hs₁.tasks]
    · obtain ⟨n, j, q, hn, -⟩ := hc.requests r m₀ hreq'
      refine (h r m₀ hreq' (Up.of_connect hlinks hn (Up.of_applyAll hup)) hpeer).mono ?_
        (Nat.le_of_eq ?_)
      · rw [hs₁.log]; exact List.Subset.refl _
      · rw [pending, pending, hlinks, hs₁.tasks, Links.mail_connect]
  | restartLogon hlinks hconns htasks hreq' hlog =>
    -- no client is connected any more
    rw [hlog] at hreq
    obtain ⟨n, i, q, hl, hi, -⟩ := hc.requests r m₀ hreq
    have hno := (Up.of_closeAll hlinks hup).2 i q hl
    simp [System.isLogon, hi] at hno
  | restartHub hs' hlinks =>
    rw [hs'.log] at hreq
    have hup' := (Up.of_closeAll hlinks hup).1
    exact (h r m₀ hreq hup' hpeer).restartHub hc hreg hup' hpeer ha hlinks hs'

end

theorem request_settled {logon : LogonServer} {keepers : Fin nk → KeeperServer}
    (h₀ : Fresh logon keepers) {s : System nk nf}
    (h : Reaches System.step (fun s a => passes s a = true) (System.init logon keepers) s) :
    Kept s := by
  refine (h.invariant (P := fun s => (Wired s ∧ Causal s) ∧ (Registered s ∧ Shut s) ∧ Kept s)
    ?_ ?_).2.2
  · refine ⟨⟨wired_init h₀, causal_init logon keepers⟩, ⟨?_, ?_⟩, ?_⟩
    · intro p e he
      cases he
    · intro p e he
      cases he
    · intro r m hm
      cases hm
  · rintro s a s' ⟨⟨hw, hc⟩, ⟨hreg, hshut⟩, hkept⟩ ha hs
    have hnew : a = .clientConnect → NewName s := by
      rintro rfl
      simpa [passes] using ha
    exact ⟨⟨hw.step hs, hc.step hw hs⟩, ⟨hreg.step hw hnew hs, hshut.step hw hs⟩,
      hkept.step hw hc hreg hshut ha hs⟩

/-- No message is under way and no task is queued. -/
def Idle (s : System nk nf) : Prop := (∀ e ∈ s.links, e.inbox = []) ∧ s.tasks = []

instance (s : System nk nf) : Decidable (Idle s) := inferInstanceAs (Decidable (_ ∧ _))

theorem Idle.pending_eq_zero {s : System nk nf} (h : Idle s) (r : Request) : pending s r = 0 := by
  have hmail : Links.mail (isPending r) s.links = 0 := by
    rw [Links.mail_eq_zero_iff]
    intro p e he m hm
    rw [h.1 e (List.mem_of_getElem? he)] at hm
    cases hm
  rw [pending, hmail, h.2]
  rfl

/-- Logon server, keepers and forward servers are connected. -/
def ServersUp (s : System nk nf) : Prop :=
  linkUp s s.logon.hubConn_ = true ∧ (∀ j, linkUp s (s.keepers j).hubConn_ = true) ∧
    ∀ i, linkUp s (s.forwards i).conn_ = true

instance (s : System nk nf) : Decidable (ServersUp s) := inferInstanceAs (Decidable (_ ∧ _ ∧ _))

/-- **No request is lost.** In every run whose steps drop no request, when nothing is outstanding:
    a client whose connection is still up at both ends has been sent a `LogonRet` for each of its
    `Logon`s, or its connection has been shut down. -/
theorem no_request_lost {logon : LogonServer} {keepers : Fin nk → KeeperServer}
    (h₀ : Fresh logon keepers) {s : System nk nf}
    (h : Reaches System.step (fun s a => passes s a = true) (System.init logon keepers) s)
    (hidle : Idle s) :
    ∀ r m, .request r (.logon m) ∈ s.log → Up s r.client → peerDown s r.client = false →
      (∃ ret, .sent r.client ⟨some r, .logonRet ret⟩ ∈ s.log) ∨ .shutdown r.client ∈ s.log := by
  intro r m hreq hup hpeer
  rcases request_settled h₀ h r _ hreq hup hpeer with hret | hshut | hpend
  · exact Or.inl hret
  · exact Or.inr hshut
  · rw [hidle.pending_eq_zero r] at hpend
    exact absurd hpend (Nat.lt_irrefl 0)

/-- A client of the servers of luaconfig logs on, and another one is refused. -/
theorem no_request_lost_lua :
    ∃ s : System 1 1, Reaches System.step (fun s a => passes s a = true) (luaInit 1) s ∧
      ServersUp s ∧ s.requests = 2 ∧
      ((∃ ret, .sent 7 ⟨some ⟨7, 0⟩, .logonRet ret⟩ ∈ s.log) ∨ .shutdown 7 ∈ s.log) ∧
      ((∃ ret, .sent 9 ⟨some ⟨9, 1⟩, .logonRet ret⟩ ∈ s.log) ∨ .shutdown 9 ∈ s.log) := by
  obtain ⟨s, hs, hidle, hservers, htwo, hreq, hreq', hup, hup', hpeer, hpeer'⟩ : ∃ s : System 1 1,
      Reaches System.step (fun s a => passes s a = true) (luaInit 1) s ∧
        Idle s ∧ ServersUp s ∧ s.requests = 2 ∧
        .request ⟨7, 0⟩ (.logon luaLogonMessage) ∈ s.log ∧
        .request ⟨9, 1⟩ (.logon luaLogonMessage) ∈ s.log ∧
        Up s 7 ∧ Up s 9 ∧ peerDown s 7 = false ∧ peerDown s 9 = false :=
    exists_reaches (luaStart ++ [.clientConnect, .clientSend 6 (.logon luaLogonMessage),
      .clientConnect, .clientSend 8 (.logon luaLogonMessage), .deliver 7 0, .deliver 9 0,
      .runTask 1 (.stored 1 false), .runTask 0 (.stored 1 true), .deliver 8 0, .deliver 1 0,
      .deliver 2 0, .deliver 4 42, .deliver 5 0, .deliver 3 0, .deliver 0 0, .deliver 6 0])
      (by decide +kernel)
  have hsettled := no_request_lost fresh_lua hs hidle
  exact ⟨s, hs, hservers, htwo, hsettled _ _ hreq hup hpeer, hsettled _ _ hreq' hup' hpeer'⟩

/-- A client names a keeper that does not exist. Its password is right, all servers are connected,
    and it never hears from them. -/
theorem request_lost :
    ∃ s : System 1 1, Reaches System.step (fun _ _ => True) (luaInit 1) s ∧
      ServersUp s ∧ Idle s ∧
      .request ⟨7, 0⟩ (.logon { luaLogonMessage with keeperserverid := 10102 }) ∈ s.log ∧
      Up s 7 ∧ peerDown s 7 = false ∧
      ¬ ((∃ ret, .sent 7 ⟨some ⟨7, 0⟩, .logonRet ret⟩ ∈ s.log) ∨ .shutdown 7 ∈ s.log) := by
  obtain ⟨s, hs, hservers, hidle, hreq, hup, hpeer, hreplies, hshut⟩ : ∃ s : System 1 1,
      Reaches System.step (fun _ _ => True) (luaInit 1) s ∧ ServersUp s ∧ Idle s ∧
        .request ⟨7, 0⟩ (.logon { luaLogonMessage with keeperserverid := 10102 }) ∈ s.log ∧
        Up s 7 ∧ peerDown s 7 = false ∧ replies s ⟨7, 0⟩ = 0 ∧ .shutdown 7 ∉ s.log :=
    exists_reaches (luaStart ++ [.clientConnect,
      .clientSend 6 (.logon { luaLogonMessage with keeperserverid := 10102 }), .deliver 7 0,
      .runTask 0 (.stored 1 true), .deliver 1 0]) (by decide +kernel)
  refine ⟨s, hs, hservers, hidle, hreq, hup, hpeer, ?_⟩
  rintro (⟨ret, hret⟩ | h)
  · exact absurd (List.countP_eq_zero.mp hreplies _ hret) (by simp [isReply, isLogonRet])
  · exact hshut h

end Mmvx.Cluster
