/-
  How often a request is in the system.

  `pending s r` counts the places where the request `r` waits: at the client's end, in the queue of
  the pool, or in a message of the logon chain. No step makes more of a request: together with the
  replies it has had, a request counts at most once (`linear_reaches`), since every callback takes
  the message or the task it handles, and passes on or answers one.
-/
import Mathlib.Data.List.Perm.Basic
import Mmvx.Cluster.Causality

namespace Mmvx.Cluster

open Mmvx.Lib Mmvx.Server

variable {nk nf : Nat}

/-- A message that the request `r` waits in. -/
def isPending (r : Request) (i : Info nk nf) (m : Tagged Message) : Bool :=
  m.cause = some r && (i.role = .logonServer || (carries m.val).isSome)

/-- A reply to `r`. -/
def isReply (r : Request) : Event → Bool
  | .sent _ m => m.cause = some r && isLogonRet m.val
  | _ => false

def pending (s : System nk nf) (r : Request) : Nat :=
  Links.mail (isPending r) s.links + s.tasks.countP fun t => t.cause = some r

def replies (s : System nk nf) (r : Request) : Nat := s.log.countP (isReply r)

def load (s : System nk nf) (r : Request) : Nat := pending s r + replies s r

section

variable {s : System nk nf} (cause : Option Request) (r : Request)

theorem mail_send_pending {p : Nat} {m : Message} (hsend : Sendable s.links (.send p m)) :
    Links.mail (isPending r) (s.links.send p ⟨cause, m⟩) = Links.mail (isPending r) s.links +
      if (s.links.target p).isSome ∧ cause = some r ∧ (carries m).isSome then 1 else 0 := by
  cases ht : s.links.target p with
  | none => rw [Links.mail_send_lost ht]; simp
  | some q =>
    obtain ⟨-, e, -, -, -, he, -⟩ := Links.target_eq_some ht
    rw [Links.mail_send_target ht he]
    simp [isPending, hsend.target ht he]

theorem pending_send {p : Nat} {m : Message} (hsend : Sendable s.links (.send p m)) :
    pending (System.apply cause s (.send p m)) r = pending s r +
      if (s.links.target p).isSome ∧ cause = some r ∧ (carries m).isSome then 1 else 0 := by
  have := mail_send_pending cause r hsend
  simp only [pending, System.apply]
  omega

theorem replies_send (p : Nat) (m : Message) :
    replies (System.apply cause s (.send p m)) r = replies s r +
      if s.links.connected p ∧ cause = some r ∧ isLogonRet m then 1 else 0 := by
  simp only [replies, System.apply]
  split
  · rename_i hc
    rw [List.countP_cons]
    simp [isReply, hc]
  · rename_i hc
    simp [hc]

theorem pending_shutdown (p : Nat) :
    pending (System.apply cause s (.shutdown p)) r = pending s r := by
  simp only [pending, System.apply, Links.mail_shutdown]

theorem replies_shutdown (p : Nat) :
    replies (System.apply cause s (.shutdown p)) r = replies s r := by
  simp [replies, System.apply, isReply]

theorem pending_put (t : Task) :
    pending (System.apply cause s (.put t)) r = pending s r + if cause = some r then 1 else 0 := by
  simp only [pending, System.apply, List.countP_append, List.countP_singleton,
    decide_eq_true_eq]
  omega

theorem pending_call (c : Call) : pending (System.apply cause s (.call c)) r = pending s r := rfl

theorem replies_call (c : Call) : replies (System.apply cause s (.call c)) r = replies s r := by
  simp [replies, System.apply, isReply]

/-- An effect without interest for logon requests counts nothing. -/
theorem count_quiet {e : Effect} (he : Quiet e) (hsend : Sendable s.links e) :
    pending (System.apply cause s e) r = pending s r ∧
      replies (System.apply cause s e) r = replies s r := by
  match e, he with
  | .send p m, ⟨hc, hr⟩ =>
    rw [pending_send cause r hsend, replies_send, hc, hr]
    simp
  | .shutdown p, _ => exact ⟨pending_shutdown cause r p, replies_shutdown cause r p⟩
  | .call c, _ => exact ⟨pending_call cause r c, replies_call cause r c⟩

theorem count_quiets {es : List Effect} (hes : ∀ e ∈ es, Quiet e)
    (hsend : ∀ e ∈ es, Sendable s.links e) :
    pending (s.applyAll cause es) r = pending s r ∧
      replies (s.applyAll cause es) r = replies s r := by
  refine (System.applyAll_induction cause s es (P := fun s' =>
    (pending s' r = pending s r ∧ replies s' r = replies s r) ∧
      ∀ p, s'.links.label p = s.links.label p) ⟨⟨rfl, rfl⟩, fun _ => rfl⟩ ?_).1
  rintro s' e he ⟨⟨hp, hr⟩, hl⟩
  have hq := count_quiet cause r (hes e he) ((hsend e he).relabel hl)
  refine ⟨⟨hq.1.trans hp, hq.2.trans hr⟩, ?_⟩
  intro p
  rw [System.apply_label, hl]

/-- Sending on, or answering, counts at most one. -/
theorem load_sendTo_le {conn : Option Nat} {m : Message}
    (hsend : ∀ e ∈ sendTo conn m, Sendable s.links e) :
    load (s.applyAll cause (sendTo conn m)) r ≤ load s r + if cause = some r then 1 else 0 := by
  match conn, hsend with
  | none, _ => exact Nat.le_add_right _ _
  | some p, hsend =>
    show load (System.apply cause s (.send p m)) r ≤ _
    rw [load, load, pending_send cause r (hsend _ List.mem_cons_self), replies_send]
    by_cases hcause : cause = some r
    · -- a message is not both passed on and a reply
      obtain hc | hr : carries m = none ∨ isLogonRet m = false := by
        cases m <;> simp [carries, isLogonRet]
      · simp only [hc, hcause, Option.isSome_none, Bool.false_eq_true, and_false, if_false, if_true]
        split <;> omega
      · simp only [hr, hcause, Bool.false_eq_true, and_false, if_false, if_true]
        split <;> omega
    · simp [hcause]

end

/-! ## Steps -/

section

variable {s s' : System nk nf} (r : Request)

theorem pending_receive {p : Nat} {e : Endpoint (Info nk nf) (Tagged Message)}
    {m : Tagged Message} {l : Links (Info nk nf) (Tagged Message)}
    (hr : s.links.receive p = some (e, m, l)) (hlinks : s'.links = l)
    (htasks : s'.tasks = s.tasks) :
    pending s r = pending s' r + if isPending r e.info m then 1 else 0 := by
  have := Links.mail_receive (P := isPending r) hr
  simp only [pending, hlinks, htasks]
  omega

theorem pending_lose {p : Nat} {e : Endpoint (Info nk nf) (Tagged Message)}
    {m : Tagged Message} {l : Links (Info nk nf) (Tagged Message)}
    (hl : s.links.lose p = some (e, m, l)) :
    pending s r = pending { s with links := l } r + if isPending r e.info m then 1 else 0 := by
  have := Links.mail_lose (P := isPending r) hl
  simp only [pending]
  omega

theorem countP_eraseIdx {α : Type} (P : α → Bool) {ts : List α} {n : Nat} {t : α}
    (ht : ts[n]? = some t) : ts.countP P = (ts.eraseIdx n).countP P + if P t then 1 else 0 := by
  obtain ⟨hlt, rfl⟩ := List.getElem?_eq_some_iff.mp ht
  rw [← (List.getElem_cons_eraseIdx_perm hlt).countP_eq, List.countP_cons]

theorem pending_runTask {n : Nat} {t : Tagged Task} (ht : s.tasks[n]? = some t) :
    pending s r = pending { s with tasks := s.tasks.eraseIdx n } r +
      if t.cause = some r then 1 else 0 := by
  have := countP_eraseIdx (fun t : Tagged Task => decide (t.cause = some r)) ht
  simp only [decide_eq_true_eq] at this
  simp only [pending]
  omega

theorem replies_eq (hlog : s'.log = s.log) : replies s' r = replies s r := by
  rw [replies, hlog, replies]

theorem load_receive {p : Nat} {e : Endpoint (Info nk nf) (Tagged Message)}
    {m : Tagged Message} {l : Links (Info nk nf) (Tagged Message)}
    (hr : s.links.receive p = some (e, m, l)) (hlinks : s'.links = l)
    (htasks : s'.tasks = s.tasks) (hlog : s'.log = s.log) :
    load s r = load s' r + if isPending r e.info m then 1 else 0 := by
  rw [load, load, pending_receive r hr hlinks htasks, replies_eq r hlog]
  omega

theorem load_runTask {n : Nat} {t : Tagged Task} (ht : s.tasks[n]? = some t) :
    load s r = load { s with tasks := s.tasks.eraseIdx n } r +
      if t.cause = some r then 1 else 0 := by
  have hr : replies { s with tasks := s.tasks.eraseIdx n } r = replies s r := rfl
  rw [load, load, pending_runTask r ht, hr]
  omega

theorem load_queryLogonAccount_le (hw : Wired s) (t : Tagged Task) (result : QueryResult) :
    load (s.applyAll t.cause (s.logon.queryLogonAccount t.val result)) r ≤
      load s r + if t.cause = some r then 1 else 0 := by
  have hsend := hw.logon.queryLogonAccount t.val result
  unfold LogonServer.queryLogonAccount at hsend ⊢
  split
  · exact Nat.le_add_right _ _
  · split
    · rename_i hok
      dsimp only at hsend
      rw [if_pos hok] at hsend
      rw [System.applyAll_cons]
      exact load_sendTo_le (s := System.apply t.cause s (.call (.acceptLogon t.val.uid))) t.cause r
        fun e he => hsend e (List.mem_cons_of_mem _ he)
    · rename_i hok
      dsimp only at hsend
      rw [if_neg hok] at hsend
      rw [System.applyAll_append]
      have hq := count_quiets (s := s.applyAll t.cause (s.logon.sendToClient t.val.connName
        (.logonRet (LogonServer.failedRet t.val.uid)))) t.cause r
        (quiet_shutdownConn s.logon t.val.connName) (sendable_shutdownConn s.logon t.val.connName)
      rw [load, hq.1, hq.2]
      exact load_sendTo_le t.cause r fun e he => hsend e (List.mem_append_left _ he)

/-- Whoever takes a message of the logon chain passes on at most one. -/
theorem load_handle_le {m : Tagged Message} {es : List Effect} {i : Info nk nf}
    (hes : Handled m.val es) (hsend : ∀ e ∈ es, Sendable s.links e) :
    load (s.applyAll m.cause es) r ≤ load s r + if isPending r i m then 1 else 0 := by
  have hpend : (carries m.val).isSome = true →
      isPending r i m = decide (m.cause = some r) := by
    intro hc
    simp [isPending, hc]
  cases hes with
  | quiet hq =>
    obtain ⟨hp, hl⟩ := count_quiets m.cause r hq hsend
    rw [load, hp, hl]
    exact Nat.le_add_right _ _
  | @relay conn m' hc ho hr =>
    cases hcar : carries m.val with
    | none =>
      obtain ⟨hp, hl⟩ := count_quiets m.cause r (quiet_sendTo (hc.trans hcar) hr) hsend
      rw [load, hp, hl]
      exact Nat.le_add_right _ _
    | some x =>
      rw [hpend (by rw [hcar]; rfl)]
      simpa only [decide_eq_true_eq] using load_sendTo_le m.cause r hsend
  | @session f m₀ session conn hm =>
    rw [System.applyAll_cons, hpend (by rw [hm]; rfl)]
    simp only [decide_eq_true_eq]
    exact load_sendTo_le (s := System.apply m.cause s
      (.call (.addLogonSession m₀.uid session m₀.connname f.listenAddr_))) m.cause r
      fun e he => hsend e (List.mem_cons_of_mem _ he)

/-- A step adds to a request only when it is made. -/
theorem load_step (hw : Wired s) {a : Action nk nf} (hs : s.step a = some s') :
    (s'.requests = s.requests ∧ load s' r ≤ load s r) ∨
      (s'.requests = s.requests + 1 ∧
        load s' r ≤ load s r + if r.number = s.requests then 1 else 0) := by
  have hreq (s₁ : System nk nf) (cause : Option Request) (es : List Effect) :
      (s₁.applyAll cause es).requests = s₁.requests :=
    (System.applyAll_frame cause s₁ es).2.2.2.2.1
  cases step_flow hw hs with
  | @clientSend p e m he hrole hstate hends =>
    refine Or.inr ⟨rfl, ?_⟩
    have hreplies : replies { s with
        links := s.links.send p ⟨some ⟨e.peer, s.requests⟩, m⟩
        requests := s.requests + 1
        log := .request ⟨e.peer, s.requests⟩ m :: s.log } r = replies s r := by
      simp [replies, isReply]
    rw [load, hreplies, load, pending, pending]
    split
    · have := Links.mail_send_le (P := isPending r) (n := s.links) p
        (⟨some ⟨e.peer, s.requests⟩, m⟩ : Tagged Message)
      dsimp only
      omega
    · rename_i hne
      rw [Links.mail_send_other]
      · exact Nat.le_refl _
      · intro i
        have : (⟨e.peer, s.requests⟩ : Request) ≠ r := by
          rintro rfl
          exact hne rfl
        simp [isPending, this]
  | clientConnect hrole hname hlinks hconns htasks hreq' hlog =>
    refine Or.inl ⟨hreq', Nat.le_of_eq ?_⟩
    rw [load, load, pending, pending, hlinks, htasks, Links.mail_connect, replies_eq r hlog]
  | @logon p rand e m l lm hr hrole hm =>
    refine Or.inl ⟨hreq _ _ _, Nat.le_of_eq ?_⟩
    have hpend : isPending r e.info m = decide (m.cause = some r) := by
      simp [isPending, hrole]
    have hl : load s r = load { s with links := l } r + _ := load_receive r hr rfl rfl rfl
    have hput := pending_put (s := { s with links := l }) m.cause r
      (LogonServer.logonTask (e.info.conn p) lm)
    rw [hpend] at hl
    simp only [decide_eq_true_eq] at hl
    rw [hl, load, load]
    show pending (System.apply m.cause _ (.put _)) r + replies { s with links := l } r = _
    omega
  | @refuse p rand e m l hr hrole =>
    refine Or.inl ⟨hreq _ _ _, ?_⟩
    have hl : load s r = load { s with links := l } r + _ := load_receive r hr rfl rfl rfl
    show load (System.apply m.cause { s with links := l } (.shutdown p)) r ≤ _
    rw [hl, load, pending_shutdown, replies_shutdown]
    exact Nat.le_add_right _ _
  | @runTask n result t ht =>
    refine Or.inl ⟨hreq _ _ _, ?_⟩
    have hw' : Wired { s with tasks := s.tasks.eraseIdx n } :=
      ⟨hw.clients, hw.mail, hw.logon, hw.hub, hw.keepers, hw.forwards⟩
    rw [load_runTask r ht]
    exact load_queryLogonAccount_le r hw' t result
  | @handle p rand e m l s₁ es hr hrole hs₁ hlinks hes hsend hpass =>
    refine Or.inl ⟨(hreq _ _ _).trans hs₁.requests, ?_⟩
    rw [load_receive r hr hlinks hs₁.tasks hs₁.log]
    exact load_handle_le r hes (by rw [hlinks]; exact hsend)
  | @answer p rand e m l a hr hrole hm =>
    refine Or.inl ⟨hreq _ _ _, ?_⟩
    have hl : load s r = load { s with links := l } r + _ := load_receive r hr rfl rfl rfl
    have hpend : isPending r e.info m = decide (m.cause = some r) := by
      simp [isPending, hm, carries]
    rw [hl, hpend]
    simp only [decide_eq_true_eq]
    exact load_sendTo_le (s := { s with links := l }) m.cause r
      ((hw.receive hr).1.logon.sendToClient a.connname (LogonServer.successRet a))
  | down he hstate hlinks hconns htasks hreq' hlog hes hsend =>
    refine Or.inl ⟨(hreq _ _ _).trans hreq', ?_⟩
    obtain ⟨hp, hl⟩ := count_quiets none r hes hsend
    rw [load, load, hp, hl, replies_eq r hlog, pending, pending, hlinks, htasks]
    exact Nat.add_le_add_right (Nat.add_le_add_right (Links.mail_close_le _) _) _
  | lose hl =>
    refine Or.inl ⟨rfl, ?_⟩
    rw [load, load, pending_lose r hl]
    exact Nat.add_le_add_right (Nat.le_add_right _ _) _
  | other hs₁ hlinks hes hsend =>
    refine Or.inl ⟨(hreq _ _ _).trans hs₁.requests, Nat.le_of_eq ?_⟩
    obtain ⟨hp, hl⟩ := count_quiets none r hes hsend
    rw [load, load, hp, hl, replies_eq r hs₁.log, pending, pending, hs₁.tasks]
    obtain hlinks | ⟨i, i', -, -, hlinks⟩ := hlinks
    · rw [hlinks]
    · rw [hlinks, Links.mail_connect]
  | restartLogon hlinks hconns htasks hreq' hlog =>
    refine Or.inl ⟨hreq', ?_⟩
    rw [load, load, replies_eq r hlog, pending, pending, hlinks, htasks, List.countP_nil]
    exact Nat.add_le_add_right (Nat.add_le_add (Links.mail_closeAll_le _) (Nat.zero_le _)) _
  | restartHub hs' hlinks =>
    refine Or.inl ⟨hs'.requests, ?_⟩
    rw [load, load, replies_eq r hs'.log, pending, pending, hlinks, hs'.tasks]
    exact Nat.add_le_add_right (Nat.add_le_add_right (Links.mail_closeAll_le _) _) _

end

/-- Every request that has been made counts at most once, and no other. -/
def Linear (s : System nk nf) : Prop :=
  ∀ r, load s r ≤ if r.number < s.requests then 1 else 0

theorem Linear.step {s s' : System nk nf} (h : Linear s) (hw : Wired s) {a : Action nk nf}
    (hs : s.step a = some s') : Linear s' := by
  intro r
  have hr := h r
  obtain ⟨hreq, hle⟩ | ⟨hreq, hle⟩ := load_step r hw hs
  · rw [hreq]
    omega
  · rw [hreq]
    split at hr <;> split at hle <;> split <;> omega

theorem linear_reaches {logon : LogonServer} {keepers : Fin nk → KeeperServer}
    (h₀ : Fresh logon keepers) {C : System nk nf → Action nk nf → Prop} {s : System nk nf}
    (h : Reaches System.step C (System.init logon keepers) s) : Linear s := by
  refine (h.invariant (P := fun s => Wired s ∧ Linear s)
    ⟨wired_init h₀, fun r => Nat.zero_le _⟩ ?_).2
  rintro s a s' ⟨hw, hl⟩ _ hs
  exact ⟨hw.step hs, hl.step hw hs⟩

end Mmvx.Cluster
