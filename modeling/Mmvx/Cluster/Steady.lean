/-
  Runs in which the links between forward servers, keepers and hub stay up.

  In such a run every end of these links is up (`Firm`), a forward server has one connection and
  reports to the keeper that gave it its id, and every update for a keeper travels through this
  keeper and its only connection to the hub. `Steady` collects this for one keeper.
-/
import Mmvx.Cluster.Registry

namespace Mmvx.Cluster

open Mmvx.Lib Mmvx.Server

variable {nk nf : Nat}

/-! ## The links that reports travel on -/

def isKeeperHub (i : Info nk nf) : Bool :=
  match i.role with
  | .keeperHub _ => true
  | _ => false

/-- The end `p` is one of a link between a forward server and a keeper or a keeper and the hub. -/
def onReportLink (l : Links (Info nk nf) (Tagged Message)) (p : Nat) : Bool :=
  match l.label p with
  | some (i, q) =>
    match i.role with
    | .forwardKeeper _ => true
    | .keeperServer _ => true
    | .keeperHub _ => true
    | .hubServer => (l.label q).any fun x => isKeeperHub x.1
    | _ => false
  | none => false

/-- No such link goes down. A hub that dies takes its links with it. -/
def linksStayUp (s : System nk nf) : Action nk nf → Bool
  | .down p => !onReportLink s.links p
  | .restartHub => false
  | _ => true

/-- The end of a `TcpClient` on such a link. -/
def initiates (i : Info nk nf) : Bool :=
  match i.role with
  | .forwardKeeper _ => true
  | .keeperHub _ => true
  | _ => false

/-- Every end has its peer, and the links are up. The keeper may have shut down its end for a
    forward server. -/
structure Firm (l : Links (Info nk nf) (Tagged Message)) : Prop where
  paired : ∀ p i q, l.label p = some (i, q) → ∃ i', l.label q = some (i', p)
  up : ∀ (p : Nat) (e : Endpoint (Info nk nf) (Tagged Message)), l[p]? = some e →
    onReportLink l p = true →
      e.state ≠ .kDisconnected ∧ (initiates e.info = true → e.state = .kConnected)

section

variable {l l' : Links (Info nk nf) (Tagged Message)}

theorem onReportLink_congr (h : ∀ p, l'.label p = l.label p) (p : Nat) :
    onReportLink l' p = onReportLink l p := by
  simp only [onReportLink, h]

theorem onReportLink_of_ends {p : Nat} {R R' : Role nk nf} (h : Ends l p R R')
    (hR : (∃ i j, R = .forwardKeeper i ∧ R' = .keeperServer j) ∨
      (∃ i j, R = .keeperServer j ∧ R' = .forwardKeeper i) ∨
      (∃ j, R = .keeperHub j ∧ R' = .hubServer) ∨ ∃ j, R = .hubServer ∧ R' = .keeperHub j) :
    onReportLink l p = true := by
  obtain ⟨i, q, i', hp, hq, hi, hi'⟩ := h
  obtain ⟨_, _, rfl, rfl⟩ | ⟨_, _, rfl, rfl⟩ | ⟨_, rfl, rfl⟩ | ⟨_, rfl, rfl⟩ := hR <;>
    simp [onReportLink, isKeeperHub, hp, hq, hi, hi']

/-- What a client of such a link sends gets under way. -/
theorem Firm.target (h : Firm l) {p : Nat} {R R' : Role nk nf} (hends : Ends l p R R')
    (hR : (∃ i j, R = .forwardKeeper i ∧ R' = .keeperServer j) ∨
      ∃ j, R = .keeperHub j ∧ R' = .hubServer) : (l.target p).isSome = true := by
  have hp : onReportLink l p = true := by
    refine onReportLink_of_ends hends ?_
    exact hR.imp id fun h => Or.inr (Or.inl h)
  have hinit : ∀ i : Info nk nf, i.role = R → initiates i = true := by
    intro i hi
    obtain ⟨_, _, rfl, -⟩ | ⟨_, rfl, -⟩ := hR <;> simp [initiates, hi]
  obtain ⟨i, q, i', hpl, hql, hi, hi'⟩ := id hends
  obtain ⟨e, he, rfl, rfl⟩ := Links.getElem?_of_label hpl
  obtain ⟨x, hx, rfl, hpeer⟩ := Links.getElem?_of_label hql
  have hq : onReportLink l e.peer = true := by
    refine onReportLink_of_ends (hends.peer he).1 ?_
    obtain ⟨i, j, hr, hr'⟩ | ⟨j, hr, hr'⟩ := hR
    · exact Or.inr (Or.inl ⟨i, j, hr', hr⟩)
    · exact Or.inr (Or.inr (Or.inr ⟨j, hr', hr⟩))
  rw [Links.target_of_connected he ((h.up p e he hp).2 (hinit _ hi)) hx (h.up _ x hx hq).1]
  rfl

/-- The ends of `l'` are those of `l`, and no client has shut down its end. -/
def Softens (l l' : Links (Info nk nf) (Tagged Message)) : Prop :=
  ∀ (p : Nat) (e' : Endpoint (Info nk nf) (Tagged Message)), l'[p]? = some e' →
    ∃ e, l[p]? = some e ∧ e'.info = e.info ∧
      (e'.state = e.state ∨ (initiates e.info = false ∧ e'.state = .kDisconnecting))

theorem Firm.softens (h : Firm l) (hs : Softens l l') (hl : ∀ p, l'.label p = l.label p) :
    Firm l' := by
  refine ⟨?_, ?_⟩
  · intro p i q hp
    rw [hl] at hp ⊢
    exact h.paired p i q hp
  · intro p e' he' hp
    rw [onReportLink_congr hl] at hp
    obtain ⟨e, he, hinfo, hstate | ⟨hno, hstate⟩⟩ := hs p e' he'
    · rw [hstate, hinfo]
      exact h.up p e he hp
    · rw [hstate, hinfo]
      refine ⟨by simp, fun hinit => ?_⟩
      rw [hno] at hinit
      cases hinit

theorem Firm.send (h : Firm l) (p : Nat) (m : Tagged Message) : Firm (l.send p m) := by
  refine h.softens ?_ fun r => Links.label_send l p r m
  intro r e' he'
  obtain ⟨e, he, rfl | ⟨-, rfl⟩⟩ := Links.getElem?_send he'
  · exact ⟨_, he, rfl, Or.inl rfl⟩
  · exact ⟨e, he, rfl, Or.inl rfl⟩

theorem Firm.shutdown (h : Firm l) {p : Nat}
    (hp : ∀ i q, l.label p = some (i, q) → initiates i = false) : Firm (l.shutdown p) := by
  refine h.softens ?_ fun r => Links.label_shutdown l p r
  intro r e' he'
  obtain ⟨e, he, rfl | ⟨rfl, -, rfl⟩⟩ := Links.getElem?_shutdown he'
  · exact ⟨_, he, rfl, Or.inl rfl⟩
  · exact ⟨e, he, rfl, Or.inr ⟨hp _ _ (Links.label_of_getElem? he), rfl⟩⟩

theorem Firm.receive (h : Firm l) {p : Nat} {e : Endpoint (Info nk nf) (Tagged Message)}
    {m : Tagged Message} (hr : l.receive p = some (e, m, l')) : Firm l' := by
  refine h.softens ?_ (Links.label_receive hr)
  intro r x' hx'
  obtain ⟨x, hx, ⟨-, rfl⟩ | ⟨-, rfl, -, heq⟩⟩ := Links.getElem?_receive hr hx'
  · exact ⟨_, hx, rfl, Or.inl rfl⟩
  · exact ⟨x, hx, by rw [heq], Or.inl (by rw [heq])⟩

theorem Firm.lose (h : Firm l) {p : Nat} {e : Endpoint (Info nk nf) (Tagged Message)}
    {m : Tagged Message} (hlose : l.lose p = some (e, m, l')) : Firm l' := by
  refine h.softens ?_ (Links.label_lose hlose)
  intro r x' hx'
  obtain ⟨x, hx, ⟨-, rfl⟩ | ⟨-, rfl, -, heq⟩⟩ := Links.getElem?_lose hlose hx'
  · exact ⟨_, hx, rfl, Or.inl rfl⟩
  · exact ⟨x, hx, by rw [heq], Or.inl (by rw [heq])⟩

/-- Nothing is lost on the way to the keepers, or from them to the hub. -/
theorem Firm.lose_eq_none (h : Firm l) {p : Nat} {R R' : Role nk nf} (hends : Ends l p R R')
    (hR : (∃ i j, R = .keeperServer j ∧ R' = .forwardKeeper i) ∨
      ∃ j, R = .hubServer ∧ R' = .keeperHub j) : l.lose p = none := by
  rw [Option.eq_none_iff_forall_ne_some]
  rintro ⟨e, m, l'⟩ hlose
  obtain ⟨he, ⟨q, hq, hdown⟩, -⟩ := Links.lose_eq_some hlose
  have hlink : onReportLink l e.peer = true := by
    refine onReportLink_of_ends (hends.peer he).1 ?_
    obtain ⟨i, j, hr, hr'⟩ | ⟨j, hr, hr'⟩ := hR
    · exact Or.inl ⟨i, j, hr', hr⟩
    · exact Or.inr (Or.inr (Or.inl ⟨j, hr', hr⟩))
  exact (h.up _ q hq hlink).1 hdown

/-- Another link goes down. -/
theorem Firm.close (h : Firm l) {p : Nat} (hp : onReportLink l p = false) : Firm (l.close p) := by
  have hl : ∀ r, (l.close p).label r = l.label r := fun r => Links.label_close l p r
  refine ⟨?_, ?_⟩
  · intro r i q hr
    rw [hl] at hr ⊢
    exact h.paired r i q hr
  · intro r e' he' hr
    rw [onReportLink_congr hl] at hr
    obtain ⟨e, he, ⟨-, rfl⟩ | ⟨rfl, rfl⟩⟩ := Links.getElem?_close he'
    · exact h.up r _ he hr
    · rw [hp] at hr
      cases hr

theorem Firm.restartLogon (h : Firm l) : Firm (l.closeAll System.isLogon) := by
  have hl : ∀ r, (l.closeAll System.isLogon).label r = l.label r :=
    fun r => Links.label_closeAll l _ r
  refine ⟨?_, ?_⟩
  · intro r i q hr
    rw [hl] at hr ⊢
    exact h.paired r i q hr
  · intro r e' he' hr
    rw [onReportLink_congr hl] at hr
    obtain ⟨e, he, ⟨-, rfl⟩ | ⟨hi, rfl⟩⟩ := Links.getElem?_closeAll he'
    · exact h.up r _ he hr
    · have hlabel := Links.label_of_getElem? he
      unfold System.isLogon at hi
      simp only [onReportLink, hlabel] at hr
      split at hi <;> simp_all

theorem Firm.connect (h : Firm l) (a b : Info nk nf) : Firm (l.connect a b) := by
  have hold : ∀ r x, l.label r = some x → (l.connect a b).label r = some x :=
    fun r x hr => Links.label_connect hr
  refine ⟨?_, ?_⟩
  · intro r i q hr
    obtain ⟨e, he, rfl, rfl⟩ := Links.getElem?_of_label hr
    obtain he | ⟨rfl, rfl⟩ | ⟨rfl, rfl⟩ := Links.getElem?_connect he
    · obtain ⟨i', hi'⟩ := h.paired r _ _ (Links.label_of_getElem? he)
      exact ⟨i', hold _ _ hi'⟩
    · exact ⟨b, by simp [Links.label, Links.connect]⟩
    · exact ⟨a, by simp [Links.label, Links.connect]⟩
  · intro r e he hr
    obtain he | ⟨-, rfl⟩ | ⟨-, rfl⟩ := Links.getElem?_connect he
    · refine h.up r e he ?_
      have hlabel := Links.label_of_getElem? he
      obtain ⟨i', hi'⟩ := h.paired r _ _ hlabel
      simpa only [onReportLink, hlabel, hold _ _ hlabel, hi', hold _ _ hi'] using hr
    · exact ⟨by simp, fun _ => rfl⟩
    · exact ⟨by simp, fun _ => rfl⟩

theorem firm_applyAll {s : System nk nf} {cause : Option Request} {es : List Effect}
    (h : Firm s.links)
    (hes : ∀ p, .shutdown p ∈ es → ∀ i q, s.links.label p = some (i, q) → initiates i = false) :
    Firm (s.applyAll cause es).links := by
  obtain ⟨hfirm, -⟩ : Firm (s.applyAll cause es).links ∧
      ∀ p, Links.label (s.applyAll cause es).links p = s.links.label p := by
    apply System.applyAll_induction cause s es
      (P := fun t => Firm t.links ∧ ∀ p, Links.label t.links p = s.links.label p)
    · exact ⟨h, fun _ => rfl⟩
    · rintro t e he ⟨ht, hl⟩
      refine ⟨?_, fun p => by rw [System.apply_label, hl]⟩
      match e, he with
      | .send p m, _ => exact ht.send p _
      | .shutdown p, he =>
        refine ht.shutdown fun i q hp => ?_
        rw [hl] at hp
        exact hes p he i q hp
      | .put t, _ => exact ht
      | .call c, _ => exact ht
  exact hfirm

theorem firm_plains {s : System nk nf} {cause : Option Request} {es : List Effect}
    (h : Firm s.links) (hes : ∀ e ∈ es, Plain s.links e) : Firm (s.applyAll cause es).links := by
  refine firm_applyAll h fun p hp i q hl => ?_
  rcases hes _ hp i q hl with hi | ⟨j, hi⟩ <;> simp [initiates, hi]

theorem firm_sendTo {s : System nk nf} {cause : Option Request} {conn : Option Nat} {m : Message}
    (h : Firm s.links) : Firm (s.applyAll cause (sendTo conn m)).links := by
  refine firm_applyAll h fun p hp => ?_
  obtain ⟨_, -, heq⟩ := mem_sendTo.mp hp
  cases heq

end

/-! ## Steps -/

section

variable {s s' : System nk nf} {a : Action nk nf}

theorem Change.firm (h : Change s a s') (hup : linksStayUp s a = true) (hf : Firm s.links) :
    Firm s'.links := by
  cases h with
  | message hr hm hview hlinks hes =>
    subst hlinks
    exact firm_plains (hf.receive hr) hes
  | update hr hrole hm hview hlinks => exact hlinks ▸ hf.receive hr
  | query hr hrole hends hm hc hnew hstart hview hlinks =>
    refine firm_applyAll (hlinks ▸ hf.receive hr) fun p hp => ?_
    rcases List.mem_cons.mp hp with heq | hp
    · cases heq
    · obtain ⟨_, -, heq⟩ := mem_sendTo.mp hp
      cases heq
  | relay hr hrole hm hview hlinks => exact firm_sendTo (hlinks ▸ hf.receive hr)
  | answer hr hrole hm hview hlinks =>
    refine firm_applyAll (hlinks ▸ hf.receive hr) fun p hp => ?_
    unfold KeeperClient.onAnswer at hp
    dsimp only at hp
    split at hp
    · obtain ⟨es, hes, hp⟩ := List.mem_flatten.mp hp
      rw [(List.mem_replicate.mp hes).2] at hp
      obtain ⟨_, -, heq⟩ := mem_sendTo.mp hp
      cases heq
    · cases hp
  | clients hf' hoper hview hlinks => exact firm_sendTo (hlinks ▸ hf)
  | clientSend hends hview hlinks => exact hlinks ▸ hf.send _ _
  | internal hview hlinks hes => exact firm_plains (hlinks ▸ hf) (hlinks ▸ hes)
  | connect hroles hview hlinks hes => exact firm_plains (hlinks ▸ hf.connect _ _) hes
  | connectHub hnone hview hlinks hes => exact firm_plains (hlinks ▸ hf.connect _ _) hes
  | connectKeeper hnone hb hview hlinks hes => exact firm_plains (hlinks ▸ hf.connect _ _) hes
  | down he hrole hview hlinks => exact hlinks ▸ hf.close (by simpa [linksStayUp] using hup)
  | downKeeperHub he hrole hview hlinks =>
    exact hlinks ▸ hf.close (by simpa [linksStayUp] using hup)
  | downKeeper he hrole hview hlinks hes =>
    have hclose := hf.close (by simpa [linksStayUp] using hup)
    rcases hes with rfl | ⟨d, rfl⟩
    · exact hlinks ▸ hclose
    · exact firm_sendTo (hlinks ▸ hclose)
  | downForward he hrole hview hlinks =>
    exact hlinks ▸ hf.close (by simpa [linksStayUp] using hup)
  | lose hl hview hlinks => exact hlinks ▸ hf.lose hl
  | restartLogon hview hlinks => exact hlinks ▸ hf.restartLogon
  | restartHub hview hlinks => cases hup

theorem not_down {p : Nat} {e : Endpoint (Info nk nf) (Tagged Message)}
    (hup : linksStayUp s (.down p) = true) (he : s.links[p]? = some e) :
    (∀ i, e.info.role ≠ .forwardKeeper i) ∧ (∀ j, e.info.role ≠ .keeperServer j) ∧
      ∀ j, e.info.role ≠ .keeperHub j := by
  have hno : onReportLink s.links p = false := by simpa [linksStayUp] using hup
  simp only [onReportLink, Links.label_of_getElem? he] at hno
  refine ⟨fun i hi => ?_, fun j hi => ?_, fun j hi => ?_⟩ <;> simp [hi] at hno

theorem linksStayUp.staysUp (hup : linksStayUp s a = true) (j : Fin nk) :
    staysUp j s a = true := by
  cases a with
  | down p =>
    show notForwardOf s j p = true
    unfold notForwardOf
    split
    · rename_i e he
      simpa using (not_down hup he).2.1 j
    · rfl
  | _ => rfl

/-- The keeper keeps its connection to the hub. -/
theorem Change.hubConn (h : Change s a s') (hup : linksStayUp s a = true) {j : Fin nk} {p : Nat}
    (hp : s.view.hubConn j = some p) : s'.view.hubConn j = some p := by
  cases h with
  | connectHub hnone hview hlinks hes =>
    rename_i j' _ _
    rw [view_applyAll, hview]
    by_cases hj : j = j'
    · subst hj
      rw [hnone] at hp
      cases hp
    · exact (Function.update_of_ne hj _ _).trans hp
  | downKeeperHub he hrole hview hlinks => exact absurd hrole ((not_down hup he).2.2 _)
  | _ => simp_all

/-- A forward server keeps its connection. -/
theorem Change.conn (h : Change s a s') (hup : linksStayUp s a = true) {i : Fin nf} {p : Nat}
    (hp : s.view.conn i = some p) : s'.view.conn i = some p := by
  cases h with
  | connectKeeper hnone hb hview hlinks hes =>
    rename_i i' _ _ _ _ _
    rw [view_applyAll, hview]
    by_cases hi : i = i'
    · subst hi
      rw [hnone] at hp
      cases hp
    · exact (Function.update_of_ne hi _ _).trans hp
  | downForward he hrole hview hlinks => exact absurd hrole ((not_down hup he).1 _)
  | _ => simp_all

/-- What is started stays started. -/
theorem Change.started (h : Change s a s') (hup : linksStayUp s a = true) {j : Fin nk} {f : UInt16}
    (hf : s.view.started j f = true) : s'.view.started j f = true := by
  cases h with
  | query hr hrole hends hm hc hnew hstart hview hlinks =>
    rename_i j' _ c start
    rw [view_applyAll, hview]
    by_cases hj : j = j'
    · subst hj
      simp [hstart, hf]
    · exact (congrFun (Function.update_of_ne hj _ _) f).trans hf
  | downKeeper he hrole hview hlinks hes => exact absurd hrole ((not_down hup he).2.1 _)
  | _ => simp_all

theorem HubEnd.step {j : Fin nk} {q : Nat} (h : Change s a s') (hup : linksStayUp s a = true)
    (hq : HubEnd s j q) : HubEnd s' j q := by
  obtain ⟨p, i, hp, hl⟩ := hq
  exact ⟨p, i, h.hubConn hup hp, h.extends p _ hl⟩

theorem label_applyAll (cause : Option Request) (es : List Effect) (p : Nat) :
    Links.label (s.applyAll cause es).links p = s.links.label p :=
  (System.applyAll_frame cause s es).2.2.2.2.2 p

theorem label_of_connect {l : Links (Info nk nf) (Tagged Message)} {a b i : Info nk nf}
    {p q : Nat} (h : (l.connect a b).label p = some (i, q)) :
    l.label p = some (i, q) ∨ (p = l.length ∧ i = a) ∨ i = b := by
  obtain ⟨e, he, rfl, rfl⟩ := Links.getElem?_of_label h
  obtain he | ⟨hp, rfl⟩ | ⟨-, rfl⟩ := Links.getElem?_connect he
  · exact Or.inl (Links.label_of_getElem? he)
  · exact Or.inr (Or.inl ⟨hp, rfl⟩)
  · exact Or.inr (Or.inr rfl)

/-- A new end of a forward server is its connection. -/
theorem Change.label_forward (h : Change s a s') {p q : Nat} {i : Info nk nf} {f : Fin nf}
    (hl : s'.links.label p = some (i, q)) (hi : i.role = .forwardKeeper f) :
    s.links.label p = some (i, q) ∨ s'.view.conn f = some p := by
  cases h with
  | message hr hm hview hlinks hes =>
    rw [label_applyAll, hlinks, Links.label_receive hr] at hl
    exact Or.inl hl
  | update hr hrole hm hview hlinks =>
    rw [hlinks, Links.label_receive hr] at hl
    exact Or.inl hl
  | query hr hrole hends hm hc hnew hstart hview hlinks =>
    rw [label_applyAll, hlinks, Links.label_receive hr] at hl
    exact Or.inl hl
  | relay hr hrole hm hview hlinks =>
    rw [label_applyAll, hlinks, Links.label_receive hr] at hl
    exact Or.inl hl
  | answer hr hrole hm hview hlinks =>
    rw [label_applyAll, hlinks, Links.label_receive hr] at hl
    exact Or.inl hl
  | clients hf hoper hview hlinks =>
    rw [label_applyAll, hlinks] at hl
    exact Or.inl hl
  | clientSend hends hview hlinks =>
    rw [hlinks, Links.label_send] at hl
    exact Or.inl hl
  | internal hview hlinks hes =>
    rw [label_applyAll, hlinks] at hl
    exact Or.inl hl
  | connect hroles hview hlinks hes =>
    rw [label_applyAll, hlinks] at hl
    obtain hl | ⟨-, rfl⟩ | rfl := label_of_connect hl
    · exact Or.inl hl
    · rcases hroles with h | h <;> simp [h.1] at hi
    · rcases hroles with h | h <;> simp [h.2] at hi
  | connectHub hnone hview hlinks hes =>
    rw [label_applyAll, hlinks] at hl
    obtain hl | ⟨-, rfl⟩ | rfl := label_of_connect hl
    · exact Or.inl hl
    · cases hi
    · cases hi
  | connectKeeper hnone hb hview hlinks hes =>
    rw [label_applyAll, hlinks] at hl
    obtain hl | ⟨rfl, rfl⟩ | rfl := label_of_connect hl
    · exact Or.inl hl
    · cases hi
      refine Or.inr ?_
      rw [view_applyAll, hview]
      exact Function.update_self _ _ _
    · rw [hb] at hi
      cases hi
  | down he hrole hview hlinks =>
    rw [hlinks, Links.label_close] at hl
    exact Or.inl hl
  | downKeeperHub he hrole hview hlinks =>
    rw [hlinks, Links.label_close] at hl
    exact Or.inl hl
  | downKeeper he hrole hview hlinks hes =>
    rw [label_applyAll, hlinks, Links.label_close] at hl
    exact Or.inl hl
  | downForward he hrole hview hlinks =>
    rw [hlinks, Links.label_close] at hl
    exact Or.inl hl
  | lose hlose hview hlinks =>
    rw [hlinks, Links.label_lose hlose] at hl
    exact Or.inl hl
  | restartLogon hview hlinks =>
    rw [hlinks, Links.label_closeAll] at hl
    exact Or.inl hl
  | restartHub hview hlinks =>
    rw [hlinks, Links.label_closeAll] at hl
    exact Or.inl hl

end

/-! ## Where the reports of a keeper are -/

/-- An answer of the keeper `j` is for an id it has started and on its way to one of its forward
    servers; an update for it is on its way to it, or from it to the hub. -/
structure Known (j : Fin nk) (s : System nk nf) (q : Nat) (i : Info nk nf)
    (m : Tagged Message) : Prop where
  answer : ∀ a f, i.role = .forwardKeeper f → m.val = .keeperAnswer a →
    a.keeperserverid.toUInt16 = s.view.serverID j →
      s.view.started j a.serverid.toUInt16 = true ∧
        Ends s.links q (.forwardKeeper f) (.keeperServer j)
  report : ∀ u j', i.role = .keeperServer j' → updateIn m.val = some u →
    u.keeperserverid.toUInt16 = s.view.serverID j → j' = j
  update : ∀ u, i.role = .hubServer → updateIn m.val = some u →
    u.keeperserverid.toUInt16 = s.view.serverID j → HubEnd s j q

/-- What holds for the keeper `j` while the links stay up. -/
structure Steady (j : Fin nk) (s : System nk nf) : Prop where
  firm : Firm s.links
  attached : ∀ p i q f, s.links.label p = some (i, q) → i.role = .forwardKeeper f →
    s.view.conn f = some p
  known : Links.AllMail (Known j s) s.links
  named : ∀ i f n, s.view.identity i = some (s.view.serverID j, f, n) →
    s.view.started j f = true ∧
      ∃ p, s.view.conn i = some p ∧ Ends s.links p (.forwardKeeper i) (.keeperServer j)
  unlinked : s.view.hubConn j = none → s.view.lists (s.view.serverID j) = []

section

variable {s s' : System nk nf} {a : Action nk nf} {j : Fin nk}

theorem Known.step {q : Nat} {i : Info nk nf} {m : Tagged Message} (hk : Known j s q i m)
    (h : Change s a s') (hup : linksStayUp s a = true) : Known j s' q i m := by
  refine ⟨?_, ?_, ?_⟩
  · intro ans f hi hm hid
    rw [h.serverID] at hid
    obtain ⟨hstart, hends⟩ := hk.answer ans f hi hm hid
    exact ⟨h.started hup hstart, hends.mono h.extends⟩
  · intro u j' hi hu hid
    rw [h.serverID] at hid
    exact hk.report u j' hi hu hid
  · intro u hi hu hid
    rw [h.serverID] at hid
    exact (hk.update u hi hu hid).step h hup

theorem Known.of_none {q : Nat} {i : Info nk nf} {m : Tagged Message}
    (hu : updateIn m.val = none) (ha : isAnswer m.val = false) : Known j s q i m := by
  refine ⟨?_, ?_, ?_⟩
  · intro ans f _ hm
    rw [hm] at ha
    cases ha
  · intro u j' _ hu'
    rw [hu] at hu'
    cases hu'
  · intro u _ hu'
    rw [hu] at hu'
    cases hu'

theorem Known.of_logon {q : Nat} {i : Info nk nf} {m : Tagged Message}
    (hi : i.role = .logonServer) : Known j s q i m := by
  refine ⟨?_, ?_, ?_⟩
  · intro ans f hi'
    rw [hi] at hi'
    cases hi'
  · intro u j' hi'
    rw [hi] at hi'
    cases hi'
  · intro u hi'
    rw [hi] at hi'
    cases hi'

/-- An update that goes to the hub. -/
theorem Known.of_hub {q : Nat} {i : Info nk nf} {u : UpdateForwardConns}
    {cause : Option Request} (hi : i.role = .hubServer)
    (hhub : u.keeperserverid.toUInt16 = s.view.serverID j → HubEnd s j q) :
    Known j s q i ⟨cause, .hubKeeperUpdateForwardConns u⟩ := by
  refine ⟨?_, ?_, ?_⟩
  · intro ans f hi'
    rw [hi] at hi'
    cases hi'
  · intro u' j' hi'
    rw [hi] at hi'
    cases hi'
  · intro u' _ hu'
    cases hu'
    exact hhub

theorem Steady.identity_eq {i : Fin nf} {f : ForwardServer} (hst : Steady j s)
    (hf : (s.forwards i).forwardServer_ = some f) (hid : f.keeperServerID_ = s.view.serverID j) :
    s.view.started j f.serverID_ = true ∧
      ∃ p, s.view.conn i = some p ∧ Ends s.links p (.forwardKeeper i) (.keeperServer j) := by
  refine hst.named i f.serverID_ f.clients ?_
  show identity (s.forwards i) = _
  simp [identity, hf, hid]

theorem Steady.sent {q p : Nat} {i : Info nk nf} {m : Tagged Message} (hst : Steady j s)
    (h : Change s a s') (hw : Wired s) (hup : linksStayUp s a = true)
    (hids : ∀ j', s.view.serverID j' = s.view.serverID j → j' = j)
    (hq : s'.links.label q = some (i, p)) (hs : Sent s a s' q m.val) : Known j s' q i m := by
  obtain ⟨cause, v⟩ := m
  cases hs with
  | answer hends hstart =>
    rename_i j' i' c
    refine ⟨?_, ?_, ?_⟩
    · intro ans f hi hm hid
      cases hm
      rw [h.serverID] at hid
      obtain rfl := hids j' ((UInt16.toUInt16_toUInt32 _).symm.trans hid)
      have hends' := hends.mono h.extends
      rw [hends'.role_eq hq] at hi
      cases hi
      refine ⟨?_, hends'⟩
      rw [show ((s.keepers j').answer c).serverid.toUInt16 = c.id from UInt16.toUInt16_toUInt32 _]
      exact hstart
    · intro u _ _ hu
      cases hu
    · intro u _ hu
      cases hu
  | add hhub =>
    rename_i j' c
    refine .of_hub (hhub.role hw h.extends hq) fun hid => ?_
    rw [h.serverID] at hid
    obtain rfl := hids j' ((UInt16.toUInt16_toUInt32 _).symm.trans hid)
    exact hhub.step h hup
  | relay hhub he hrole hin hm =>
    rename_i j' e m₀ u
    refine .of_hub (hhub.role hw h.extends hq) fun hid => ?_
    rw [h.serverID] at hid
    obtain rfl := (hst.known _ e he m₀ hin).report u j' hrole (by rw [hm]; rfl) hid
    exact hhub.step h hup
  | report hf hconn hl hoper =>
    rename_i p₀ i' info f oper
    refine ⟨?_, ?_, ?_⟩
    · intro ans _ _ hm
      cases hm
    · intro u j' hi hu hid
      cases hu
      rw [h.serverID] at hid
      -- the forward server is connected to the keeper that named it
      obtain ⟨-, p₁, hp₁, hends⟩ := hst.identity_eq hf ((UInt16.toUInt16_toUInt32 _).symm.trans hid)
      rw [hconn] at hp₁
      cases hp₁
      obtain ⟨e, he, rfl, rfl⟩ := Links.getElem?_of_label hl
      rw [((hends.peer he).1.mono h.extends).role_eq hq] at hi
      cases hi
      rfl
    · intro u hi
      obtain ⟨j', hends⟩ := hw.forwards i' p₀ hconn
      obtain ⟨e, he, rfl, rfl⟩ := Links.getElem?_of_label hl
      rw [((hends.peer he).1.mono h.extends).role_eq hq] at hi
      cases hi
  | remove ha he hrole hhub =>
    subst ha
    exact absurd hrole ((not_down hup he).2.1 _)

theorem Steady.named_step (hst : Steady j s) (h : Change s a s') (hup : linksStayUp s a = true)
    (i : Fin nf) (f : UInt16) (n : Nat)
    (hid : s'.view.identity i = some (s.view.serverID j, f, n)) :
    s'.view.started j f = true ∧
      ∃ p, s'.view.conn i = some p ∧ Ends s'.links p (.forwardKeeper i) (.keeperServer j) := by
  suffices hold : s.view.started j f = true ∧
      ∃ p, s.view.conn i = some p ∧ Ends s.links p (.forwardKeeper i) (.keeperServer j) by
    obtain ⟨hstart, p, hp, hends⟩ := hold
    exact ⟨h.started hup hstart, p, h.conn hup hp, hends.mono h.extends⟩
  cases h with
  | answer hr hrole hm hview hlinks =>
    rename_i p _ e m l s₁ i' ans
    rw [view_applyAll, hview] at hid
    by_cases hi : i = i'
    · subst hi
      obtain ⟨he, -⟩ := Links.receive_eq_some hr
      simp only [Function.update_self, Option.some.injEq, Prod.mk.injEq] at hid
      obtain ⟨hstart, hends⟩ := (hst.known.receive hr).2.answer ans i hrole hm hid.1
      rw [hid.2.1] at hstart
      exact ⟨hstart, p, hst.attached p _ _ i (Links.label_of_getElem? he) hrole, hends⟩
    · refine hst.named i f n ?_
      exact (Function.update_of_ne hi _ _).symm.trans hid
  | clients hf hoper hview hlinks =>
    rename_i s₁ i' f' oper n'
    rw [view_applyAll, hview] at hid
    by_cases hi : i = i'
    · subst hi
      simp only [Function.update_self, Option.some.injEq, Prod.mk.injEq] at hid
      rw [← hid.2.1]
      exact hst.identity_eq hf hid.1
    · refine hst.named i f n ?_
      exact (Function.update_of_ne hi _ _).symm.trans hid
  | _ => exact hst.named i f n (by simpa [*] using hid)

theorem Steady.unlinked_step (hst : Steady j s) (h : Change s a s') (hup : linksStayUp s a = true)
    (hnone : s'.view.hubConn j = none) : s'.view.lists (s.view.serverID j) = [] := by
  have hold : s.view.hubConn j = none := by
    cases hp : s.view.hubConn j with
    | none => rfl
    | some p =>
      rw [h.hubConn hup hp] at hnone
      cases hnone
  have hnil := hst.unlinked hold
  cases h with
  | update hr hrole hm hview hlinks =>
    rename_i u
    have hne : s.view.serverID j ≠ u.keeperserverid.toUInt16 := by
      intro hid
      obtain ⟨p, i, hp, -⟩ :=
        (hst.known.receive hr).2.update u hrole (by rw [hm]; rfl) hid.symm
      rw [hold] at hp
      cases hp
    rw [hview]
    show (s.hub.onHubKeeperUpdateForwardConns u).1.forwards _ = []
    rw [forwards_update, if_neg hne]
    exact hnil
  | restartHub hview hlinks => cases hup
  | _ => simp_all

theorem Steady.step (hst : Steady j s) (h : Change s a s') (hw : Wired s)
    (hids : ∀ j', s.view.serverID j' = s.view.serverID j → j' = j)
    (hup : linksStayUp s a = true) : Steady j s' where
  firm := h.firm hup hst.firm
  attached p i q f hl hi := by
    rcases h.label_forward hl hi with hold | hnew
    · exact h.conn hup (hst.attached p i q f hold hi)
    · exact hnew
  known := by
    refine h.allMail (hst.known.mono fun _ _ _ hk => hk.step h hup) ?_ ?_ ?_
    · exact fun _ _ _ hu ha => Known.of_none hu ha
    · exact fun _ _ _ hi => Known.of_logon hi
    · exact fun _ _ _ _ hq hs => hst.sent h hw hup hids hq hs
  named i f n hid := by
    rw [h.serverID] at hid
    exact hst.named_step h hup i f n hid
  unlinked hnone := by
    rw [h.serverID]
    exact hst.unlinked_step h hup hnone

theorem steady_init (logon : LogonServer) (keepers : Fin nk → KeeperServer) (j : Fin nk) :
    Steady j (System.init logon keepers : System nk nf) where
  firm := ⟨fun _ _ _ hp => (by cases hp), fun _ _ he => (by cases he)⟩
  attached _ _ _ _ hl := by cases hl
  known _ _ he := by cases he
  named _ _ _ hid := by cases hid
  unlinked _ := rfl

end

end Mmvx.Cluster
