/-
  To whom a reply goes.

  Answers are addressed by the name of a connection, and the logon server numbers its connections
  from 1 again when it starts again. A reply goes to the client that asked as long as no connection
  is given a name that a connection, a queued task or a message under way still has
  (`reply_to_requester`); a logon server that starts again in the middle of a request breaks this
  (`reply_to_stranger`).

  `Registered` says that every connection of a client that is up is in `clientConns_` under its
  name, and `Routed` that a name still under way does not lead to another connection than the one
  of its request.
-/
import Mmvx.Cluster.Causality

namespace Mmvx.Cluster

open Mmvx.Lib Mmvx.Server

variable {nk nf : Nat}

/-- The name of the next client's connection is not in `clientConns_`. -/
def NewName (s : System nk nf) : Prop :=
  s.logon.clientConns_.find s.logon.server_.newConnection.1 = none

instance (s : System nk nf) : Decidable (NewName s) := inferInstanceAs (Decidable (_ = none))

/-- No queued task and no message of the logon chain under way has the name `n`. -/
def Unused (s : System nk nf) (n : String) : Prop :=
  (∀ t ∈ s.tasks, t.val.connName ≠ n) ∧
    ∀ e ∈ s.links, e.info.role ≠ .logonServer → ∀ m ∈ e.inbox,
      (carries m.val).map Prod.snd ≠ some n

instance (s : System nk nf) (n : String) : Decidable (Unused s n) :=
  inferInstanceAs (Decidable (_ ∧ _))

/-! ## Connections that are up -/

def Registered (s : System nk nf) : Prop :=
  ∀ p e, s.links[p]? = some e → e.info.role = .logonServer → e.state ≠ .kDisconnected →
    s.logon.clientConns_.find e.info.name = some p

namespace Registered

variable {s s' : System nk nf}

/-- No end comes up, and the table stays. -/
theorem relink (h : Registered s) (hconns : s'.logon.clientConns_ = s.logon.clientConns_)
    (hl : ∀ (p : Nat) e', s'.links[p]? = some e' → e'.info.role = .logonServer →
      e'.state ≠ .kDisconnected →
      ∃ e, s.links[p]? = some e ∧ e.info = e'.info ∧ e.state ≠ .kDisconnected) :
    Registered s' := by
  intro p e' he' hrole hstate
  obtain ⟨e, he, hinfo, hst⟩ := hl p e' he' hrole hstate
  rw [hconns, ← hinfo]
  exact h p e he (by rw [hinfo]; exact hrole) hst

theorem apply (h : Registered s) (cause : Option Request) (e : Effect) :
    Registered (System.apply cause s e) := by
  refine h.relink (congrArg _ (System.apply_logon cause s e)) ?_
  intro p e' he' _ hstate
  obtain ⟨x, hx, hinfo, hst | ⟨hst, -, -⟩⟩ := System.getElem?_apply cause s e he'
  · exact ⟨x, hx, hinfo.symm, by rw [← hst]; exact hstate⟩
  · exact ⟨x, hx, hinfo.symm, by rw [hst]; simp⟩

theorem applyAll (h : Registered s) (cause : Option Request) (es : List Effect) :
    Registered (s.applyAll cause es) :=
  System.applyAll_induction cause s es h fun _ e _ h' => h'.apply cause e

theorem receive (h : Registered s) {p : Nat} {e : Endpoint (Info nk nf) (Tagged Message)}
    {m : Tagged Message} {l : Links (Info nk nf) (Tagged Message)}
    (hr : s.links.receive p = some (e, m, l)) (hlinks : s'.links = l)
    (hconns : s'.logon.clientConns_ = s.logon.clientConns_) : Registered s' := by
  refine h.relink hconns ?_
  intro q e' he' _ hstate
  rw [hlinks] at he'
  obtain ⟨e₀, he₀, ⟨-, rfl⟩ | ⟨-, rfl, -, heq⟩⟩ := Links.getElem?_receive hr he'
  · exact ⟨_, he₀, rfl, hstate⟩
  · refine ⟨e₀, he₀, by rw [heq], ?_⟩
    rw [heq] at hstate
    exact hstate

theorem lose (h : Registered s) {p : Nat} {e : Endpoint (Info nk nf) (Tagged Message)}
    {m : Tagged Message} {l : Links (Info nk nf) (Tagged Message)}
    (hl : s.links.lose p = some (e, m, l)) (hlinks : s'.links = l)
    (hconns : s'.logon.clientConns_ = s.logon.clientConns_) : Registered s' := by
  refine h.relink hconns ?_
  intro q e' he' _ hstate
  rw [hlinks] at he'
  obtain ⟨e₀, he₀, ⟨-, rfl⟩ | ⟨-, rfl, -, heq⟩⟩ := Links.getElem?_lose hl he'
  · exact ⟨_, he₀, rfl, hstate⟩
  · refine ⟨e₀, he₀, by rw [heq], ?_⟩
    rw [heq] at hstate
    exact hstate

theorem connect (h : Registered s) {a b : Info nk nf} (hlinks : s'.links = s.links.connect a b)
    (hconns : s'.logon.clientConns_ = s.logon.clientConns_) (ha : a.role ≠ .logonServer)
    (hb : b.role ≠ .logonServer) : Registered s' := by
  refine h.relink hconns ?_
  intro q e' he' hrole hstate
  rw [hlinks] at he'
  obtain he' | ⟨-, rfl⟩ | ⟨-, rfl⟩ := Links.getElem?_connect he'
  · exact ⟨e', he', rfl, hstate⟩
  · exact absurd hrole ha
  · exact absurd hrole hb

theorem clientConnect (h : Registered s) {i : Info nk nf}
    (hnew : s.logon.clientConns_.find i.name = none)
    (hlinks : s'.links = s.links.connect (Info.unnamed .client) i)
    (hconns : s'.logon.clientConns_ = s.logon.clientConns_.insert i.name (s.links.length + 1)) :
    Registered s' := by
  intro p e' he' hrole hstate
  rw [hconns, OrdMap.find_insert]
  rw [hlinks] at he'
  obtain he' | ⟨-, rfl⟩ | ⟨rfl, rfl⟩ := Links.getElem?_connect he'
  · have hfound := h p e' he' hrole hstate
    have hne : e'.info.name ≠ i.name := by
      intro heq
      rw [heq, hnew] at hfound
      cases hfound
    rw [if_neg hne]
    exact hfound
  · exact absurd hrole (by simp [Info.unnamed])
  · exact if_pos rfl

theorem close (h : Registered s) {p : Nat} {e : Endpoint (Info nk nf) (Tagged Message)}
    (he : s.links[p]? = some e) (hst : e.state ≠ .kDisconnected)
    (hlinks : s'.links = s.links.close p)
    (hconns : s'.logon.clientConns_ = if e.info.role = .logonServer then
      s.logon.clientConns_.erase e.info.name else s.logon.clientConns_) : Registered s' := by
  intro q e' he' hrole hstate
  rw [hlinks] at he'
  obtain ⟨e₀, he₀, ⟨hne, rfl⟩ | ⟨-, rfl⟩⟩ := Links.getElem?_close he'
  · have hfound := h q _ he₀ hrole hstate
    rw [hconns]
    split
    · rename_i hlogon
      rw [OrdMap.find_erase, if_neg]
      · exact hfound
      · -- two ends that are up have not the same name
        intro heq
        rw [heq, h p e he hlogon hst] at hfound
        exact hne (Option.some.inj hfound).symm
    · exact hfound
  · exact absurd rfl hstate

theorem closeAll (h : Registered s) {P : Info nk nf → Bool}
    (hlinks : s'.links = s.links.closeAll P)
    (hconns : s'.logon.clientConns_ = s.logon.clientConns_) : Registered s' := by
  refine h.relink hconns ?_
  intro q e' he' _ hstate
  rw [hlinks] at he'
  obtain ⟨e, he, ⟨-, rfl⟩ | ⟨-, rfl⟩⟩ := Links.getElem?_closeAll he'
  · exact ⟨_, he, rfl, hstate⟩
  · exact absurd rfl hstate

/-- When the logon server dies, so do its connections. -/
theorem restart {l : Links (Info nk nf) (Tagged Message)}
    (hlinks : s'.links = l.closeAll System.isLogon) : Registered s' := by
  intro p e' he' hrole hstate
  rw [hlinks] at he'
  obtain ⟨e, he, ⟨hno, rfl⟩ | ⟨-, rfl⟩⟩ := Links.getElem?_closeAll he'
  · simp [System.isLogon, hrole] at hno
  · exact absurd rfl hstate

theorem step (h : Registered s) (hw : Wired s) {a : Action nk nf}
    (ha : a = .clientConnect → NewName s) (hs : s.step a = some s') : Registered s' := by
  cases step_flow hw hs with
  | clientSend he hrole hstate hends =>
    refine h.relink rfl ?_
    intro q e' he' _ hstate
    obtain ⟨e, he, rfl | ⟨ht, rfl⟩⟩ := Links.getElem?_send he'
    · exact ⟨_, he, rfl, hstate⟩
    · exact ⟨e, he, rfl, hstate⟩
  | clientConnect hrole hname hlinks hconns htasks hreq hlog =>
    refine h.clientConnect ?_ hlinks hconns
    rw [hname]
    exact ha rfl
  | logon hr hrole hm =>
    refine applyAll ?_ _ _
    exact h.receive hr rfl rfl
  | refuse hr hrole =>
    refine applyAll ?_ _ _
    exact h.receive hr rfl rfl
  | runTask ht =>
    refine applyAll ?_ _ _
    exact h.relink rfl fun q e' he' _ hst => ⟨e', he', rfl, hst⟩
  | handle hr hrole hs₁ hlinks hes hsend hpass =>
    exact (h.receive hr hlinks hs₁.clientConns).applyAll _ _
  | answer hr hrole hm =>
    refine applyAll ?_ _ _
    exact h.receive hr rfl rfl
  | down he hstate hlinks hconns htasks hreq hlog hes hsend =>
    exact (h.close he hstate hlinks hconns).applyAll _ _
  | lose hl => exact h.lose hl rfl rfl
  | other hs₁ hlinks hes hsend =>
    refine applyAll ?_ _ _
    obtain hlinks | ⟨i, i', hi, hi', hlinks⟩ := hlinks
    · exact h.relink hs₁.clientConns fun q e' he' _ hst => ⟨e', hlinks ▸ he', rfl, hst⟩
    · exact h.connect hlinks hs₁.clientConns hi hi'
  | restartLogon hlinks hconns htasks hreq hlog => exact restart hlinks
  | restartHub hs' hlinks => exact h.closeAll hlinks hs'.clientConns

end Registered

/-! ## Names under way -/

/-- The name `n` leads to the client of the request, or to nobody. -/
def RouteOk (conns : OrdMap String Nat) (n : String) (cause : Option Request) : Prop :=
  ∀ r p, cause = some r → conns.find n = some p → p = r.client

def MailRouted (conns : OrdMap String Nat) (i : Info nk nf) (m : Tagged Message) : Prop :=
  i.role ≠ .logonServer → ∀ u n, carries m.val = some (u, n) → RouteOk conns n m.cause

structure Routed (s : System nk nf) : Prop where
  tasks : ∀ t ∈ s.tasks, RouteOk s.logon.clientConns_ t.val.connName t.cause
  mail : Links.AllMail (fun _ => MailRouted s.logon.clientConns_) s.links
  replies : ∀ c m, .sent c m ∈ s.log → isLogonRet m.val = true →
    ∃ r, m.cause = some r ∧ r.client = c

/-- What an effect must be so that names stay right. -/
def EffectRouted (conns : OrdMap String Nat) (cause : Option Request) : Effect → Prop
  | .send p m => (∀ u n, carries m = some (u, n) → RouteOk conns n cause) ∧
      (isLogonRet m = true → ∃ r, cause = some r ∧ r.client = p)
  | .put t => RouteOk conns t.connName cause
  | _ => True

theorem EffectRouted.of_quiet {conns : OrdMap String Nat} {cause : Option Request} {e : Effect}
    (h : Quiet e) : EffectRouted conns cause e := by
  match e, h with
  | .send p m, ⟨hc, hr⟩ =>
    refine ⟨?_, ?_⟩
    · intro u n hcar
      rw [hc] at hcar
      cases hcar
    · intro hret
      rw [hr] at hret
      cases hret
  | .shutdown p, _ => trivial
  | .call c, _ => trivial

/-- A reply to the connection that a name leads to. -/
theorem RouteOk.sendToClient {l : LogonServer} {n : String} {r : Request}
    (h : RouteOk l.clientConns_ n (some r)) (ret : LogonRet) :
    ∀ e ∈ l.sendToClient n (.logonRet ret), EffectRouted l.clientConns_ (some r) e := by
  intro e he
  obtain ⟨p, hp, rfl⟩ := mem_sendTo.mp he
  refine ⟨?_, fun _ => ⟨r, rfl, (h r p rfl hp).symm⟩⟩
  intro u n hcar
  cases hcar

/-- Whoever handles a message of the logon chain keeps its name and its cause. -/
theorem Handled.routed {conns : OrdMap String Nat} {m : Tagged Message} {es : List Effect}
    (hes : Handled m.val es) (hm : ∀ u n, carries m.val = some (u, n) → RouteOk conns n m.cause) :
    ∀ e ∈ es, EffectRouted conns m.cause e := by
  intro e he
  cases hes with
  | quiet hq => exact .of_quiet (hq e he)
  | relay hc ho hr =>
    obtain ⟨p, -, rfl⟩ := mem_sendTo.mp he
    refine ⟨fun u n hcar => hm u n (hc ▸ hcar), ?_⟩
    intro hret
    rw [hr] at hret
    cases hret
  | @session f m₀ session conn hval =>
    rcases List.mem_cons.mp he with rfl | he
    · trivial
    · obtain ⟨p, -, rfl⟩ := mem_sendTo.mp he
      refine ⟨?_, fun hret => by cases hret⟩
      intro u n hcar
      exact hm u n (by rw [hval]; exact hcar)

theorem RouteOk.queryLogonAccount {l : LogonServer} {t : Task} {r : Request}
    (h : RouteOk l.clientConns_ t.connName (some r)) (result : QueryResult) :
    ∀ e ∈ l.queryLogonAccount t result, EffectRouted l.clientConns_ (some r) e := by
  unfold LogonServer.queryLogonAccount
  split
  · intro e he
    cases he
  · split
    · intro e he
      rcases List.mem_cons.mp he with rfl | he
      · trivial
      · obtain ⟨p, -, rfl⟩ := mem_sendTo.mp he
        refine ⟨?_, fun hret => by cases hret⟩
        intro u n hcar
        cases hcar
        exact h
    · intro e he
      rcases List.mem_append.mp he with he | he
      · exact h.sendToClient _ e he
      · exact .of_quiet (quiet_shutdownConn l _ e he)

namespace Routed

variable {s s' : System nk nf}

/-- Nothing gets under way, and names lead to nobody they did not lead to. -/
theorem relink (h : Routed s) (hmail : Links.AllMail (fun _ => MailRouted s.logon.clientConns_)
      s'.links) (htasks : s'.tasks ⊆ s.tasks) (hlog : s'.log = s.log)
    (hconns : ∀ n p, s'.logon.clientConns_.find n = some p →
      s.logon.clientConns_.find n = some p) : Routed s' where
  tasks t ht r p hr hp := h.tasks t (htasks ht) r p hr (hconns _ p hp)
  mail := hmail.mono fun _ _ _ hm hi u n hc r p hr hp => hm hi u n hc r p hr (hconns n p hp)
  replies := by
    rw [hlog]
    exact h.replies

theorem apply (h : Routed s) {cause : Option Request} {e : Effect}
    (he : EffectRouted s.logon.clientConns_ cause e) : Routed (System.apply cause s e) := by
  match e, he with
  | .send p m, ⟨htoken, hret⟩ =>
    refine ⟨h.tasks, h.mail.send ?_, ?_⟩
    · intro q e _ _ _ u n hcar
      exact htoken u n hcar
    · intro c m' hm' hr
      simp only [System.apply] at hm'
      split at hm'
      · rcases List.mem_cons.mp hm' with heq | hm'
        · cases heq
          exact hret hr
        · exact h.replies c m' hm' hr
      · exact h.replies c m' hm' hr
  | .shutdown p, _ =>
    refine ⟨h.tasks, h.mail.shutdown p, ?_⟩
    intro c m hm hr
    rcases List.mem_cons.mp hm with heq | hm
    · cases heq
    · exact h.replies c m hm hr
  | .put t, ht =>
    refine ⟨?_, h.mail, h.replies⟩
    intro t' ht'
    rcases List.mem_append.mp ht' with ht' | ht'
    · exact h.tasks t' ht'
    · rw [List.mem_singleton.mp ht']
      exact ht
  | .call c, _ =>
    refine ⟨h.tasks, h.mail, ?_⟩
    intro c' m hm hr
    rcases List.mem_cons.mp hm with heq | hm
    · cases heq
    · exact h.replies c' m hm hr

theorem applyAll (h : Routed s) {cause : Option Request} {es : List Effect}
    (hes : ∀ e ∈ es, EffectRouted s.logon.clientConns_ cause e) :
    Routed (s.applyAll cause es) := by
  refine (System.applyAll_induction cause s es
    (P := fun s' => Routed s' ∧ s'.logon = s.logon) ⟨h, rfl⟩ ?_).1
  rintro s' e he ⟨h', hl⟩
  exact ⟨h'.apply (by rw [hl]; exact hes e he), (System.apply_logon cause s' e).trans hl⟩

theorem receive (h : Routed s) {p : Nat} {e : Endpoint (Info nk nf) (Tagged Message)}
    {m : Tagged Message} {l : Links (Info nk nf) (Tagged Message)}
    (hr : s.links.receive p = some (e, m, l)) (hlinks : s'.links = l)
    (htasks : s'.tasks = s.tasks) (hlog : s'.log = s.log)
    (hconns : s'.logon.clientConns_ = s.logon.clientConns_) :
    Routed s' ∧ MailRouted s'.logon.clientConns_ e.info m := by
  obtain ⟨hmail, hm⟩ := h.mail.receive hr
  refine ⟨h.relink ?_ ?_ hlog ?_, ?_⟩
  · rw [hlinks]; exact hmail
  · rw [htasks]; exact List.Subset.refl _
  · rw [hconns]; exact fun _ _ hp => hp
  · rw [hconns]; exact hm

/-- A connection comes up with a name that nothing under way has. -/
theorem clientConnect (h : Routed s) {i : Info nk nf} (hunused : Unused s i.name)
    (hlinks : s'.links = s.links.connect (Info.unnamed .client) i)
    (hconns : s'.logon.clientConns_ = s.logon.clientConns_.insert i.name (s.links.length + 1))
    (htasks : s'.tasks = s.tasks) (hlog : s'.log = s.log) : Routed s' := by
  have hkeep {n : String} {cause : Option Request} (hn : n ≠ i.name)
      (hroute : RouteOk s.logon.clientConns_ n cause) :
      RouteOk s'.logon.clientConns_ n cause := by
    intro r p hr hp
    rw [hconns, OrdMap.find_insert, if_neg hn] at hp
    exact hroute r p hr hp
  refine ⟨?_, ?_, ?_⟩
  · intro t ht
    rw [htasks] at ht
    exact hkeep (hunused.1 t ht) (h.tasks t ht)
  · intro p e he m hm
    rw [hlinks] at he
    obtain he | ⟨-, rfl⟩ | ⟨-, rfl⟩ := Links.getElem?_connect he
    · intro hi u n hcar
      have hn : n ≠ i.name := by
        rintro rfl
        exact hunused.2 e (List.mem_of_getElem? he) hi m hm (by rw [hcar]; rfl)
      exact hkeep hn (h.mail p e he m hm hi u n hcar)
    · cases hm
    · cases hm
  · rw [hlog]
    exact h.replies

theorem step (h : Routed s) (hw : Wired s) (hc : Causal s) (hreg : Registered s)
    {a : Action nk nf} (ha : a = .clientConnect → Unused s s.logon.server_.newConnection.1)
    (hs : s.step a = some s') : Routed s' := by
  cases step_flow hw hs with
  | @clientSend p e m he hrole hstate hends =>
    refine ⟨h.tasks, h.mail.send ?_, ?_⟩
    · intro q f hq hf hne
      obtain ⟨e₀, -, he₀, rfl, -, -, -⟩ := Links.target_eq_some hq
      obtain rfl := Option.some.inj (he.symm.trans he₀)
      exact absurd ((hends.peer he).1.role_eq (Links.label_of_getElem? hf)) hne
    · intro c m' hm' hr
      rcases List.mem_cons.mp hm' with heq | hm'
      · cases heq
      · exact h.replies c m' hm' hr
  | clientConnect hrole hname hlinks hconns htasks hreq hlog =>
    refine h.clientConnect ?_ hlinks hconns htasks hlog
    rw [hname]
    exact ha rfl
  | @logon p rand e m l lm hr hrole hm =>
    obtain ⟨h', -⟩ : Routed { s with links := l } ∧ MailRouted s.logon.clientConns_ e.info m :=
      h.receive hr rfl rfl rfl rfl
    -- the end is up, so the table has it under its name
    obtain ⟨he, hstate, -⟩ := Links.receive_eq_some hr
    have hfound := hreg p e he hrole hstate
    have hmail := (hc.mail.receive hr).2
    unfold MailOk at hmail
    rw [if_pos hrole] at hmail
    obtain ⟨r, hcause, rfl, -⟩ := hmail
    refine h'.applyAll ?_
    intro x hx
    rw [List.mem_singleton.mp hx]
    intro r' q hr' hq
    obtain rfl := Option.some.inj (hcause.symm.trans hr')
    exact Option.some.inj (hq.symm.trans hfound)
  | @refuse p rand e m l hr hrole =>
    obtain ⟨h', -⟩ : Routed { s with links := l } ∧ MailRouted s.logon.clientConns_ e.info m :=
      h.receive hr rfl rfl rfl rfl
    exact h'.applyAll fun x hx => .of_quiet (quiet_cons (e := .shutdown p) trivial quiet_nil x hx)
  | @runTask n result t ht =>
    have h' : Routed { s with tasks := s.tasks.eraseIdx n } :=
      h.relink h.mail List.eraseIdx_subset rfl fun _ _ hp => hp
    have hmem := List.mem_of_getElem? ht
    obtain ⟨r, -, hcause, -⟩ := hc.tasks t hmem
    have hroute := h.tasks t hmem
    rw [hcause] at hroute ⊢
    exact h'.applyAll (hroute.queryLogonAccount result)
  | handle hr hrole hs₁ hlinks hes hsend hpass =>
    obtain ⟨h', hm⟩ := h.receive hr hlinks hs₁.tasks hs₁.log hs₁.clientConns
    exact h'.applyAll (hes.routed (hm hrole))
  | @answer p rand e m l a hr hrole hm =>
    obtain ⟨h', hroute⟩ : Routed { s with links := l } ∧
        MailRouted s.logon.clientConns_ e.info m := h.receive hr rfl rfl rfl rfl
    have hmail := (hc.mail.receive hr).2
    unfold MailOk at hmail
    rw [if_neg (by rw [hrole]; simp)] at hmail
    obtain ⟨r, hcause, -⟩ := hmail a.uid a.connname (by rw [hm]; rfl)
    have hname := hroute (by rw [hrole]; simp) a.uid a.connname (by rw [hm]; rfl)
    rw [hcause] at hname ⊢
    exact h'.applyAll (hname.sendToClient _)
  | @down p e s₁ es he hstate hlinks hconns htasks hreq hlog hes hsend =>
    have h₁ : Routed s₁ := by
      refine h.relink ?_ ?_ hlog ?_
      · rw [hlinks]; exact h.mail.close _
      · rw [htasks]; exact List.Subset.refl _
      · intro n q hq
        rw [hconns] at hq
        split at hq
        · rw [OrdMap.find_erase] at hq
          split at hq
          · cases hq
          · exact hq
        · exact hq
    exact h₁.applyAll fun x hx => .of_quiet (hes x hx)
  | lose hl => exact h.relink (h.mail.lose hl) (List.Subset.refl _) rfl fun _ _ hp => hp
  | @other a s₁ es hs₁ hlinks hes hsend =>
    have h₁ : Routed s₁ := by
      refine h.relink ?_ ?_ hs₁.log ?_
      · obtain hlinks | ⟨i, i', -, -, hlinks⟩ := hlinks
        · rw [hlinks]; exact h.mail
        · rw [hlinks]; exact h.mail.connect _ _
      · rw [hs₁.tasks]; exact List.Subset.refl _
      · rw [hs₁.clientConns]; exact fun _ _ hp => hp
    exact h₁.applyAll fun x hx => .of_quiet (hes x hx)
  | restartLogon hlinks hconns htasks hreq hlog =>
    refine h.relink ?_ ?_ hlog ?_
    · rw [hlinks]; exact h.mail.closeAll _
    · rw [htasks]; exact List.nil_subset _
    · intro n p hp
      rw [hconns, OrdMap.find_empty] at hp
      cases hp
  | restartHub hs' hlinks =>
    refine h.relink ?_ ?_ hs'.log ?_
    · rw [hlinks]; exact h.mail.closeAll _
    · rw [hs'.tasks]; exact List.Subset.refl _
    · rw [hs'.clientConns]; exact fun _ _ hp => hp

end Routed

/-- A new connection of a client has a name that no connection in `clientConns_`, no queued task
    and no message of the logon chain under way has. -/
def FreshName (s : System nk nf) (a : Action nk nf) : Prop :=
  a = .clientConnect → NewName s ∧ Unused s s.logon.server_.newConnection.1

instance (s : System nk nf) (a : Action nk nf) : Decidable (FreshName s a) :=
  inferInstanceAs (Decidable (_ → _))

/-- **Replies go to the client that asked.** In every run, restarts included, in which new
    connections get fresh names, a `LogonRet` is sent only on the connection whose request caused
    it. -/
theorem reply_to_requester {logon : LogonServer} {keepers : Fin nk → KeeperServer}
    (h₀ : Fresh logon keepers) {s : System nk nf}
    (h : Reaches System.step FreshName (System.init logon keepers) s) :
    ∀ c m ret, .sent c m ∈ s.log → m.val = .logonRet ret → ∃ r, m.cause = some r ∧ r.client = c := by
  have hinv : (Wired s ∧ Causal s) ∧ Registered s ∧ Routed s := by
    refine h.invariant (P := fun s => (Wired s ∧ Causal s) ∧ Registered s ∧ Routed s) ?_ ?_
    · refine ⟨⟨wired_init h₀, causal_init logon keepers⟩, ?_, ?_⟩
      · intro p e he
        cases he
      · refine ⟨?_, ?_, ?_⟩
        · intro t ht
          cases ht
        · intro p e he
          cases he
        · intro c m hm
          cases hm
    · rintro s a s' ⟨⟨hw, hc⟩, hreg, hroute⟩ ha hs
      exact ⟨⟨hw.step hs, hc.step hw hs⟩, hreg.step hw (fun h => (ha h).1) hs,
        hroute.step hw hc hreg (fun h => (ha h).2) hs⟩
  intro c m ret hm hret
  exact hinv.2.2.replies c m hm (by rw [hret]; rfl)

/-- A client logs on; then the logon server starts again, and a client with the same connection
    name logs on. -/
theorem reply_to_requester_lua :
    ∃ s : System 1 1, Reaches System.step FreshName (luaInit 1) s ∧
      (∃ ret, .sent 11 ⟨some ⟨11, 1⟩, .logonRet ret⟩ ∈ s.log) ∧
      ∀ m ret, .sent 11 m ∈ s.log → m.val = .logonRet ret → ∃ r, m.cause = some r ∧ r.client = 11 := by
  obtain ⟨s, hs, hsent⟩ : ∃ s : System 1 1, Reaches System.step FreshName (luaInit 1) s ∧
      .sent 11 ⟨some ⟨11, 1⟩, .logonRet ⟨1, .SUCCESS, some "127.0.0.1", some 10031, some 43⟩⟩ ∈
        s.log :=
    exists_reaches (luaLogonSteps luaLogonMessage ++ [.restartLogon, .logonConnectHub, .deliver 9 0,
      .clientConnect, .clientSend 10 (.logon luaLogonMessage), .deliver 11 0,
      .runTask 0 (.stored 1 true), .deliver 9 0, .deliver 2 0, .deliver 4 43, .deliver 5 0,
      .deliver 3 0, .deliver 8 0]) (by decide +kernel)
  exact ⟨s, hs, ⟨_, hsent⟩, reply_to_requester fresh_lua hs 11⟩

/-- The logon server starts again while a request of the connection 7 is on its way back. A client
    that connects then has the name of that connection, and is sent its address and session. -/
theorem reply_to_stranger :
    ∃ s : System 1 1, Reaches System.step (fun _ _ => True) (luaInit 1) s ∧
      .sent 11 ⟨some ⟨7, 0⟩, .logonRet ⟨1, .SUCCESS, some "127.0.0.1", some 10031, some 42⟩⟩ ∈
        s.log ∧
      .request ⟨7, 0⟩ (.logon luaLogonMessage) ∈ s.log ∧ s.requests = 1 :=
  exists_reaches (luaStart ++ [.clientConnect, .clientSend 6 (.logon luaLogonMessage),
    .deliver 7 0, .runTask 0 (.stored 1 true), .deliver 1 0, .deliver 2 0, .deliver 4 42,
    .restartLogon, .logonConnectHub, .deliver 9 0, .clientConnect, .deliver 5 0, .deliver 3 0,
    .deliver 8 0]) (by decide +kernel)

end Mmvx.Cluster
