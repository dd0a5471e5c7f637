/-
  Where the requests under way come from.

  `Causal` holds in every state that is reached, whatever happens to links and processes
  (`causal_reaches`): what waits at a client's end was sent by that client; a task belongs to a
  `Logon` of the client's end with the task's connection name; a message of the logon chain belongs
  to a `Logon` that was accepted for its account, sent on a connection with its name; if it offers a
  session then a forward server has added that session for this account and name. Every SUCCESS
  reply in the log rests on such a message.
-/
import Mmvx.Cluster.Flow

namespace Mmvx.Cluster

open Mmvx.Lib Mmvx.Server

variable {nk nf : Nat}

/-- The end `p` is the logon server's end of a client's connection called `n`. -/
def Named {μ : Type} (l : Links (Info nk nf) μ) (p : Nat) (n : String) : Prop :=
  ∃ i q, l.label p = some (i, q) ∧ i.role = .logonServer ∧ i.name = n

/-- The request `r` is a `Logon` whose password was accepted for the account `u`. -/
def Accepted (log : List Event) (r : Request) (u : Int64) : Prop :=
  ∃ m : Logon, .request r (.logon m) ∈ log ∧
    .call ⟨some r, .acceptLogon m.uid.toUInt64.toUInt32⟩ ∈ log ∧
    LogonServer.uidField m.uid.toUInt64.toUInt32 = u

/-- A forward server has added a session for the request `r`, with `u` and `n`; it listens at the
    address of the offer `o`, which holds the session. -/
def Offered (log : List Event) (r : Request) (u : Int64) (n : String)
    (o : String × UInt32 × UInt32) : Prop :=
  ∃ session addr, .call ⟨some r, .addLogonSession u session n addr⟩ ∈ log ∧
    o = (addr.ip, addr.port.toUInt32, session.toUInt32)

def TokenOk (l : Links (Info nk nf) (Tagged Message)) (log : List Event) (m : Tagged Message) :
    Prop :=
  ∀ u n, carries m.val = some (u, n) → ∃ r, m.cause = some r ∧ Named l r.client n ∧
    Accepted log r u ∧ ∀ o, offers m.val = some o → Offered log r u n o

def MailOk (l : Links (Info nk nf) (Tagged Message)) (log : List Event) (p : Nat)
    (i : Info nk nf) (m : Tagged Message) : Prop :=
  if i.role = .logonServer then
    ∃ r, m.cause = some r ∧ r.client = p ∧ .request r m.val ∈ log
  else TokenOk l log m

def TaskOk (l : Links (Info nk nf) (Tagged Message)) (log : List Event) (t : Tagged Task) : Prop :=
  ∃ r m, t.cause = some r ∧ .request r (.logon m) ∈ log ∧ Named l r.client t.val.connName ∧
    t.val.uid = m.uid.toUInt64.toUInt32

/-- What a SUCCESS reply on `c` rests on. -/
def SentOk (l : Links (Info nk nf) (Tagged Message)) (older : List Event) (c : Nat)
    (m : Tagged Message) : Prop :=
  ∀ ret, m.val = .logonRet ret → ret.status = .SUCCESS → ∃ r n o, m.cause = some r ∧
    Named l c n ∧ Named l r.client n ∧ Accepted older r ret.uid ∧ Offered older r ret.uid n o ∧
    ret.forwardip = some o.1 ∧ ret.forwardport = some o.2.1 ∧ ret.session = some o.2.2

structure Causal (s : System nk nf) : Prop where
  requests : ∀ r m, .request r m ∈ s.log → ∃ n, Named s.links r.client n
  mail : Links.AllMail (MailOk s.links s.log) s.links
  tasks : ∀ t ∈ s.tasks, TaskOk s.links s.log t
  log : ∀ older c m, (.sent c m :: older) <:+ s.log → SentOk s.links older c m

/-! ## More ends and a longer log -/

section

variable {l l' : Links (Info nk nf) (Tagged Message)} {log log' : List Event}

theorem Named.mono {p : Nat} {n : String} (h : Named l p n) (hl : Extends l l') :
    Named l' p n := by
  obtain ⟨i, q, hp, hi, hn⟩ := h
  exact ⟨i, q, hl p _ hp, hi, hn⟩

theorem Accepted.mono {r : Request} {u : Int64} (h : Accepted log r u) (hlog : log ⊆ log') :
    Accepted log' r u := by
  obtain ⟨m, hreq, hcall, hu⟩ := h
  exact ⟨m, hlog hreq, hlog hcall, hu⟩

theorem Offered.mono {r : Request} {u : Int64} {n : String} {o : String × UInt32 × UInt32}
    (h : Offered log r u n o) (hlog : log ⊆ log') : Offered log' r u n o := by
  obtain ⟨session, addr, hcall, ho⟩ := h
  exact ⟨session, addr, hlog hcall, ho⟩

theorem TokenOk.mono {m : Tagged Message} (h : TokenOk l log m) (hl : Extends l l')
    (hlog : log ⊆ log') : TokenOk l' log' m := by
  intro u n hc
  obtain ⟨r, hr, hn, ha, ho⟩ := h u n hc
  exact ⟨r, hr, hn.mono hl, ha.mono hlog, fun o h => (ho o h).mono hlog⟩

theorem MailOk.mono {p : Nat} {i : Info nk nf} {m : Tagged Message} (h : MailOk l log p i m)
    (hl : Extends l l') (hlog : log ⊆ log') : MailOk l' log' p i m := by
  unfold MailOk at h ⊢
  split
  · rename_i hi
    rw [if_pos hi] at h
    obtain ⟨r, hr, hp, hreq⟩ := h
    exact ⟨r, hr, hp, hlog hreq⟩
  · rename_i hi
    rw [if_neg hi] at h
    exact h.mono hl hlog

theorem TaskOk.mono {t : Tagged Task} (h : TaskOk l log t) (hl : Extends l l')
    (hlog : log ⊆ log') : TaskOk l' log' t := by
  obtain ⟨r, m, hr, hreq, hn, hu⟩ := h
  exact ⟨r, m, hr, hlog hreq, hn.mono hl, hu⟩

theorem SentOk.mono {c : Nat} {m : Tagged Message} (h : SentOk l log c m) (hl : Extends l l') :
    SentOk l' log c m := by
  intro ret hret hst
  obtain ⟨r, n, o, hr, hc, hn, rest⟩ := h ret hret hst
  exact ⟨r, n, o, hr, hc.mono hl, hn.mono hl, rest⟩

theorem tokenOk_of_none {m : Tagged Message} (h : carries m.val = none) : TokenOk l log m := by
  intro u n hc
  rw [h] at hc
  cases hc

end

/-! ## What keeps `Causal` -/

/-- What an effect must be for its cause. -/
def EffectOk (s : System nk nf) (cause : Option Request) : Effect → Prop
  | .send p m => TokenOk s.links s.log ⟨cause, m⟩ ∧ SentOk s.links s.log p ⟨cause, m⟩
  | .put t => TaskOk s.links s.log ⟨cause, t⟩
  | _ => True

theorem EffectOk.of_quiet {s : System nk nf} {cause : Option Request} {e : Effect}
    (h : Quiet e) : EffectOk s cause e := by
  match e, h with
  | .send p m, h =>
    refine ⟨tokenOk_of_none h.1, ?_⟩
    intro ret hret
    have hm : m = .logonRet ret := hret
    rw [hm] at h
    exact absurd h.2 (by simp [isLogonRet])
  | .shutdown p, _ => trivial
  | .call c, _ => trivial

/-- A message of a server does not go to the logon server's end of a client's connection. -/
theorem Sendable.target {s : System nk nf} {p q : Nat} {m : Message}
    {e : Endpoint (Info nk nf) (Tagged Message)} (h : Sendable s.links (.send p m))
    (ht : s.links.target p = some q) (he : s.links[q]? = some e) :
    e.info.role ≠ .logonServer := by
  obtain ⟨R, R', hends, hR, hfits⟩ := h
  obtain ⟨e₀, f, he₀, rfl, -, -, -⟩ := Links.target_eq_some ht
  rw [(hends.peer he₀).1.role_eq (Links.label_of_getElem? he)]
  rintro rfl
  cases R with
  | client => exact hR rfl
  | _ => simp [fits] at hfits

theorem Sendable.relabel {l l' : Links (Info nk nf) (Tagged Message)} {e : Effect}
    (h : Sendable l e) (hl : ∀ p, l'.label p = l.label p) : Sendable l' e := by
  match e, h with
  | .send p m, ⟨R, R', hends, hR, hm⟩ =>
    exact ⟨R, R', hends.mono (extends_of_label hl), hR, hm⟩
  | .shutdown p, _ => trivial
  | .put t, _ => trivial
  | .call c, _ => trivial

namespace Causal

variable {s s' : System nk nf}

/-- The log and what is under way stay as they are, or lose something. -/
theorem relink (h : Causal s) (hl : Extends s.links s'.links)
    (hmail : Links.AllMail (MailOk s.links s.log) s'.links) (htasks : s'.tasks ⊆ s.tasks)
    (hlog : s'.log = s.log) : Causal s' where
  requests r m hm := by
    rw [hlog] at hm
    obtain ⟨n, hn⟩ := h.requests r m hm
    exact ⟨n, hn.mono hl⟩
  mail := by
    rw [hlog]
    exact hmail.mono fun _ _ _ hm => hm.mono hl (List.Subset.refl _)
  tasks t ht := by
    rw [hlog]
    exact (h.tasks t (htasks ht)).mono hl (List.Subset.refl _)
  log older c m hm := by
    rw [hlog] at hm
    exact (h.log older c m hm).mono hl

/-- Something other than a reply is added to the log. -/
theorem note (h : Causal s) {x : Event} (hx : ∀ c m, x ≠ .sent c m)
    (hreq : ∀ r m, x = .request r m → ∃ n, Named s.links r.client n) (hlinks : s'.links = s.links)
    (htasks : s'.tasks = s.tasks) (hlog : s'.log = x :: s.log) : Causal s' where
  requests r m hm := by
    rw [hlog] at hm
    rw [hlinks]
    rcases List.mem_cons.mp hm with heq | hm
    · exact hreq r m heq.symm
    · exact h.requests r m hm
  mail := by
    rw [hlinks, hlog]
    exact h.mail.mono fun _ _ _ hm => hm.mono (Extends.refl _) (List.subset_cons_self _ _)
  tasks t ht := by
    rw [htasks] at ht
    rw [hlinks, hlog]
    exact (h.tasks t ht).mono (Extends.refl _) (List.subset_cons_self _ _)
  log older c m hm := by
    rw [hlog, List.suffix_cons_iff] at hm
    rw [hlinks]
    rcases hm with hm | hm
    · exact absurd (List.cons.inj hm).1.symm (hx c m)
    · exact h.log older c m hm

theorem apply (h : Causal s) {cause : Option Request} {e : Effect} (he : EffectOk s cause e)
    (hsend : Sendable s.links e) : Causal (System.apply cause s e) := by
  match e, he with
  | .send p m, ⟨htoken, hsent⟩ =>
    -- first the log, then the message
    have hlogged : Causal { s with
        log := if s.links.connected p then .sent p ⟨cause, m⟩ :: s.log else s.log } := by
      split
      · refine ⟨?_, ?_, ?_, ?_⟩
        · intro r m' hm
          rcases List.mem_cons.mp hm with heq | hm
          · cases heq
          · exact h.requests r m' hm
        · exact h.mail.mono fun _ _ _ hm => hm.mono (Extends.refl _) (List.subset_cons_self _ _)
        · intro t ht
          exact (h.tasks t ht).mono (Extends.refl _) (List.subset_cons_self _ _)
        · intro older c m' hm
          rcases List.suffix_cons_iff.mp hm with hm | hm
          · obtain ⟨heq, rfl⟩ := List.cons.inj hm
            cases heq
            exact hsent
          · exact h.log older c m' hm
      · exact h
    refine hlogged.relink (extends_of_label fun r => Links.label_send _ _ r _) ?_
      (List.Subset.refl _) rfl
    refine hlogged.mail.send ?_
    intro q e hq he
    unfold MailOk
    rw [if_neg (hsend.target hq he)]
    refine htoken.mono (Extends.refl _) ?_
    dsimp only
    split
    · exact List.subset_cons_self _ _
    · exact List.Subset.refl _
  | .shutdown p, _ =>
    have hl : Causal { s with links := s.links.shutdown p } :=
      h.relink (extends_of_label fun r => Links.label_shutdown _ _ r) (h.mail.shutdown p)
        (List.Subset.refl _) rfl
    exact hl.note (x := .shutdown p) (by simp) (by simp) rfl rfl rfl
  | .put t, ht =>
    refine ⟨h.requests, h.mail, ?_, h.log⟩
    intro t' ht'
    rcases List.mem_append.mp ht' with ht' | ht'
    · exact h.tasks t' ht'
    · rw [List.mem_singleton.mp ht']
      exact ht
  | .call c, _ => exact h.note (x := .call ⟨cause, c⟩) (by simp) (by simp) rfl rfl rfl

theorem quiet (h : Causal s) {cause : Option Request} {es : List Effect}
    (hes : ∀ e ∈ es, Quiet e) (hsend : ∀ e ∈ es, Sendable s.links e) :
    Causal (s.applyAll cause es) := by
  refine (System.applyAll_induction cause s es
    (P := fun s' => Causal s' ∧ ∀ p, s'.links.label p = s.links.label p) ⟨h, fun _ => rfl⟩ ?_).1
  rintro s' e he ⟨h', hl⟩
  refine ⟨h'.apply (.of_quiet (hes e he)) ((hsend e he).relabel hl), ?_⟩
  intro p
  rw [System.apply_label, hl]

theorem sendTo (h : Causal s) {cause : Option Request} {conn : Option Nat} {m : Message}
    (hm : ∀ p, conn = some p → EffectOk s cause (.send p m))
    (hsend : ∀ e ∈ sendTo conn m, Sendable s.links e) :
    Causal (s.applyAll cause (Server.sendTo conn m)) := by
  match conn, hm with
  | none, _ => exact h
  | some p, hm => exact h.apply (hm p rfl) (hsend _ List.mem_cons_self)

theorem receive (h : Causal s) {p : Nat} {e : Endpoint (Info nk nf) (Tagged Message)}
    {m : Tagged Message} {l : Links (Info nk nf) (Tagged Message)}
    (hr : s.links.receive p = some (e, m, l)) (hlinks : s'.links = l)
    (htasks : s'.tasks = s.tasks) (hlog : s'.log = s.log) :
    Causal s' ∧ MailOk s'.links s'.log p e.info m := by
  obtain ⟨hmail, hm⟩ := h.mail.receive hr
  have hext : Extends s.links s'.links :=
    extends_of_label fun r => by rw [hlinks]; exact Links.label_receive hr r
  refine ⟨h.relink hext ?_ ?_ hlog, ?_⟩
  · rw [hlinks]; exact hmail
  · rw [htasks]; exact List.Subset.refl _
  · rw [hlog]; exact hm.mono hext (List.Subset.refl _)

/-- A server between the logon servers and the forward servers' clients passes a request on. -/
theorem handle (h : Causal s) {m : Tagged Message} {es : List Effect}
    (hm : TokenOk s.links s.log m) (hes : Handled m.val es)
    (hsend : ∀ e ∈ es, Sendable s.links e) : Causal (s.applyAll m.cause es) := by
  have hnot {p : Nat} {m' : Message} (hr : isLogonRet m' = false) :
      SentOk s.links s.log p ⟨m.cause, m'⟩ := by
    intro ret hret
    have hm' : m' = .logonRet ret := hret
    rw [hm'] at hr
    cases hr
  cases hes with
  | quiet hq => exact h.quiet hq hsend
  | relay hc ho hr =>
    refine h.sendTo (fun p _ => ⟨?_, hnot hr⟩) hsend
    intro u n hcar
    obtain ⟨r, hcause, hn, ha, hoff⟩ := hm u n (hc ▸ hcar)
    exact ⟨r, hcause, hn, ha, fun o hoffers => hoff o (ho ▸ hoffers)⟩
  | @session f m₀ session conn hval =>
    obtain ⟨r, hcause, hn, ha, -⟩ := hm m₀.uid m₀.connname (by rw [hval]; rfl)
    rw [System.applyAll_cons]
    have hcall : Causal (System.apply m.cause s
        (.call (.addLogonSession m₀.uid session m₀.connname f.listenAddr_))) :=
      h.apply trivial trivial
    refine hcall.sendTo (fun p _ => ⟨?_, ?_⟩) fun e he => hsend e (List.mem_cons_of_mem _ he)
    · intro u n hcar
      cases hcar
      refine ⟨r, hcause, hn, ha.mono (List.subset_cons_self _ _), ?_⟩
      intro o ho
      cases ho
      refine ⟨session, f.listenAddr_, ?_, ?_⟩
      · rw [hcause]; exact List.mem_cons_self
      · simp [KeeperClient.sessionRet]
    · intro ret hret
      cases hret

theorem queryLogonAccount (h : Causal s) (hw : Wired s) {t : Tagged Task}
    (ht : TaskOk s.links s.log t) (result : QueryResult) :
    Causal (s.applyAll t.cause (s.logon.queryLogonAccount t.val result)) := by
  have hsend := hw.logon.queryLogonAccount t.val result
  obtain ⟨r, m, hcause, hreq, hn, hu⟩ := ht
  unfold LogonServer.queryLogonAccount at hsend ⊢
  split
  · exact h
  · split
    · rename_i hok
      dsimp only at hsend
      rw [if_pos hok] at hsend
      rw [System.applyAll_cons]
      have hcall : Causal (System.apply t.cause s (.call (.acceptLogon t.val.uid))) :=
        h.apply trivial trivial
      refine hcall.sendTo (fun p _ => ⟨?_, ?_⟩) fun e he => hsend e (List.mem_cons_of_mem _ he)
      · intro u n hcar
        cases hcar
        refine ⟨r, hcause, hn, ⟨m, List.mem_cons_of_mem _ hreq, ?_, by rw [hu]⟩, ?_⟩
        · rw [← hu, ← hcause]; exact List.mem_cons_self
        · intro o ho
          cases ho
      · intro ret hret
        cases hret
    · rename_i hok
      dsimp only at hsend
      rw [if_neg hok] at hsend
      have heff : ∀ (s' : System nk nf), ∀ e ∈ s.logon.sendToClient t.val.connName
          (.logonRet (LogonServer.failedRet t.val.uid)) ++ s.logon.shutdownConn t.val.connName,
          EffectOk s' t.cause e := by
        intro s' e he
        rcases List.mem_append.mp he with he | he
        · obtain ⟨p, -, rfl⟩ := mem_sendTo.mp he
          refine ⟨tokenOk_of_none rfl, ?_⟩
          intro ret hret hst
          cases hret
          cases hst
        · exact .of_quiet (quiet_shutdownConn s.logon _ e he)
      refine (System.applyAll_induction t.cause s _
        (P := fun s' => Causal s' ∧ ∀ p, s'.links.label p = s.links.label p)
        ⟨h, fun _ => rfl⟩ ?_).1
      rintro s' e he ⟨h', hl⟩
      refine ⟨h'.apply (heff s' e he) ((hsend e he).relabel hl), ?_⟩
      intro p
      rw [System.apply_label, hl]

theorem step (h : Causal s) (hw : Wired s) {a : Action nk nf} (hs : s.step a = some s') :
    Causal s' := by
  cases step_flow hw hs with
  | @clientSend p e m he hrole hstate hends =>
    have hlogged : Causal { s with
        requests := s.requests + 1
        log := .request ⟨e.peer, s.requests⟩ m :: s.log } := by
      refine h.note (by simp) ?_ rfl rfl rfl
      intro r m' heq
      obtain ⟨rfl, -⟩ := Event.request.inj heq
      obtain ⟨i, q, -, hi, -, hrole, -⟩ := (hends.peer he).1
      exact ⟨i.name, i, q, hi, hrole, rfl⟩
    refine hlogged.relink (extends_of_label fun r => Links.label_send _ _ r _) ?_
      (List.Subset.refl _) rfl
    refine hlogged.mail.send ?_
    intro q f hq hf
    obtain ⟨e₀, -, he₀, rfl, -, -, -⟩ := Links.target_eq_some hq
    obtain rfl := Option.some.inj (he.symm.trans he₀)
    have hrole' := (hends.peer he).1.role_eq (Links.label_of_getElem? hf)
    unfold MailOk
    rw [if_pos hrole']
    exact ⟨_, rfl, rfl, List.mem_cons_self⟩
  | clientConnect hrole hname hlinks hconns htasks hreq hlog =>
    refine h.relink ?_ ?_ ?_ hlog
    · rw [hlinks]; exact extends_connect _ _
    · rw [hlinks]; exact h.mail.connect _ _
    · rw [htasks]; exact List.Subset.refl _
  | @logon p rand e m l lm hr hrole hm =>
    obtain ⟨h', hmail⟩ : Causal { s with links := l } ∧ MailOk l s.log p e.info m :=
      h.receive hr rfl rfl rfl
    unfold MailOk at hmail
    rw [if_pos hrole, hm] at hmail
    obtain ⟨r, hcause, rfl, hreq⟩ := hmail
    obtain ⟨he, -, -, -, -⟩ := Links.receive_eq_some hr
    refine h'.apply (e := .put _) ⟨r, lm, hcause, hreq, ⟨e.info, e.peer, ?_, hrole, rfl⟩, rfl⟩
      trivial
    exact (Links.label_receive hr _).trans (Links.label_of_getElem? he)
  | @refuse p rand e m l hr hrole =>
    obtain ⟨h', -⟩ : Causal { s with links := l } ∧ MailOk l s.log p e.info m :=
      h.receive hr rfl rfl rfl
    exact h'.quiet (quiet_cons trivial quiet_nil) (sendable_shutdown p)
  | @runTask n result t ht =>
    have h' : Causal { s with tasks := s.tasks.eraseIdx n } :=
      h.relink (Extends.refl _) h.mail (List.eraseIdx_subset) rfl
    have hw' : Wired { s with tasks := s.tasks.eraseIdx n } :=
      ⟨hw.clients, hw.mail, hw.logon, hw.hub, hw.keepers, hw.forwards⟩
    exact h'.queryLogonAccount hw' (h.tasks t (List.mem_of_getElem? ht)) result
  | handle hr hrole hs₁ hlinks hes hsend hpass =>
    obtain ⟨h', hmail⟩ := h.receive hr hlinks hs₁.tasks hs₁.log
    unfold MailOk at hmail
    rw [if_neg hrole] at hmail
    exact h'.handle hmail hes (by rw [hlinks]; exact hsend)
  | @answer p rand e m l a hr hrole hm =>
    obtain ⟨h', hmail⟩ : Causal { s with links := l } ∧ MailOk l s.log p e.info m :=
      h.receive hr rfl rfl rfl
    have hlogon := (hw.receive hr).1.logon
    unfold MailOk at hmail
    rw [if_neg (by rw [hrole]; simp)] at hmail
    obtain ⟨r, hcause, hn, ha, ho⟩ := hmail a.uid a.connname (by rw [hm]; rfl)
    refine h'.sendTo ?_ (hlogon.sendToClient _ _)
    intro q hq
    obtain ⟨hends, i, q', hlabel, hname⟩ := hlogon.clientConns _ q hq
    refine ⟨tokenOk_of_none rfl, ?_⟩
    intro ret hret _
    cases hret
    exact ⟨r, a.connname, _, hcause, ⟨i, q', hlabel, hends.role_eq hlabel, hname⟩, hn, ha,
      ho _ (by rw [hm]; rfl), rfl, rfl, rfl⟩
  | down he hstate hlinks hconns htasks hreq hlog hes hsend =>
    refine quiet (h.relink ?_ ?_ ?_ hlog) hes hsend
    · rw [hlinks]; exact extends_of_label fun r => Links.label_close _ _ r
    · rw [hlinks]; exact h.mail.close _
    · rw [htasks]; exact List.Subset.refl _
  | lose hl =>
    exact h.relink (extends_of_label (Links.label_lose hl)) (h.mail.lose hl) (List.Subset.refl _) rfl
  | other hs₁ hlinks hes hsend =>
    refine quiet (h.relink ?_ ?_ ?_ hs₁.log) hes hsend
    · obtain hl | ⟨i, i', -, -, hl⟩ := hlinks
      · rw [hl]; exact Extends.refl _
      · rw [hl]; exact extends_connect _ _
    · obtain hl | ⟨i, i', -, -, hl⟩ := hlinks
      · rw [hl]; exact h.mail
      · rw [hl]; exact h.mail.connect _ _
    · rw [hs₁.tasks]; exact List.Subset.refl _
  | restartLogon hlinks hconns htasks hreq hlog =>
    refine h.relink ?_ ?_ ?_ hlog
    · rw [hlinks]; exact extends_of_label fun r => Links.label_closeAll _ _ r
    · rw [hlinks]; exact h.mail.closeAll _
    · rw [htasks]; exact List.nil_subset _
  | restartHub hs' hlinks =>
    refine h.relink ?_ ?_ ?_ hs'.log
    · rw [hlinks]; exact extends_of_label fun r => Links.label_closeAll _ _ r
    · rw [hlinks]; exact h.mail.closeAll _
    · rw [hs'.tasks]; exact List.Subset.refl _

end Causal

theorem causal_init (logon : LogonServer) (keepers : Fin nk → KeeperServer) :
    Causal (System.init logon keepers : System nk nf) where
  requests r m hm := by cases hm
  mail p e he := by cases he
  tasks t ht := by cases ht
  log older c m hm := by cases List.suffix_nil.mp hm

theorem causal_reaches {logon : LogonServer} {keepers : Fin nk → KeeperServer}
    (h₀ : Fresh logon keepers) {C : System nk nf → Action nk nf → Prop} {s : System nk nf}
    (h : Reaches System.step C (System.init logon keepers) s) : Causal s := by
  refine (h.invariant (P := fun s => Wired s ∧ Causal s)
    ⟨wired_init h₀, causal_init logon keepers⟩ ?_).2
  rintro s a s' ⟨hw, hc⟩ _ hs
  exact ⟨hw.step hs, hc.step hw hs⟩

end Mmvx.Cluster
