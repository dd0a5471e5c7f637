/-
  The account of a request on its way through the system.

  `Logon` and all messages of the logon chain carry an `int64` uid, and `addLogonSession` has an
  `int64_t` key, but the parameter of `queryLogonAccount` is a `uint32_t`. `Identified` holds in
  every state that is reached: what a request causes carries the uid that this parameter leaves of
  it. So a request keeps its account exactly when its uid fits into 32 bits (`uid_survives_iff`).
-/
import Mathlib.Algebra.Group.Int.Defs
import Mmvx.Cluster.Causality

namespace Mmvx.Cluster

open Mmvx.Lib Mmvx.Server

variable {nk nf : Nat}

/-- The account in a message of the logon chain or in a reply. -/
def accountOf : Message → Option Int64
  | .logonRet m => some m.uid
  | m => (carries m).map Prod.fst

/-- The cause of an event and the account it carries: in a message of the logon chain, in a reply,
    or as the key of a session. -/
def Event.account : Event → Option (Option Request × Int64)
  | .sent _ m => (accountOf m.val).map fun u => (m.cause, u)
  | .call ⟨cause, .addLogonSession uid _ _ _⟩ => some (cause, uid)
  | _ => none

/-- The account that an effect will carry. -/
def effectAccount : Effect → Option Int64
  | .send _ m => accountOf m
  | .call (.addLogonSession uid _ _ _) => some uid
  | _ => none

/-- The account `u` is what `queryLogonAccount` makes of the uid in the request. -/
def AccountOk (log : List Event) (cause : Option Request) (u : Int64) : Prop :=
  ∃ r m, cause = some r ∧ .request r (.logon m) ∈ log ∧
    LogonServer.uidField m.uid.toUInt64.toUInt32 = u

structure Identified (s : System nk nf) : Prop where
  numbers : ∀ r m, .request r m ∈ s.log → r.number < s.requests
  unique : ∀ r m m', .request r m ∈ s.log → .request r m' ∈ s.log → m = m'
  accounts : ∀ e ∈ s.log, ∀ cause u, e.account = some (cause, u) → AccountOk s.log cause u

theorem AccountOk.mono {log log' : List Event} {cause : Option Request} {u : Int64}
    (h : AccountOk log cause u) (hlog : log ⊆ log') : AccountOk log' cause u := by
  obtain ⟨r, m, hcause, hreq, hu⟩ := h
  exact ⟨r, m, hcause, hlog hreq, hu⟩

/-- A message that belongs to an accepted request carries its account. -/
theorem TokenOk.account {l : Links (Info nk nf) (Tagged Message)} {log : List Event}
    {m : Tagged Message} (h : TokenOk l log m) {u : Int64} {n : String}
    (hc : carries m.val = some (u, n)) : AccountOk log m.cause u := by
  obtain ⟨r, hcause, -, ⟨lm, hreq, -, hu⟩, -⟩ := h u n hc
  exact ⟨r, lm, hcause, hreq, hu⟩

theorem TaskOk.account {l : Links (Info nk nf) (Tagged Message)} {log : List Event}
    {t : Tagged Task} (h : TaskOk l log t) :
    AccountOk log t.cause (LogonServer.uidField t.val.uid) := by
  obtain ⟨r, m, hcause, hreq, -, hu⟩ := h
  exact ⟨r, m, hcause, hreq, by rw [hu]⟩

/-! ## Accounts of effects -/

theorem accountOf_eq_carries {m : Message} (hr : isLogonRet m = false) :
    accountOf m = (carries m).map Prod.fst := by
  cases m with
  | logonRet ret => cases hr
  | _ => rfl

theorem Quiet.account {e : Effect} (h : Quiet e) : effectAccount e = none := by
  match e, h with
  | .send p m, ⟨hc, hr⟩ =>
    rw [effectAccount, accountOf_eq_carries hr, hc]
    rfl
  | .shutdown p, _ => rfl
  | .call c, h =>
    cases h
    rfl

/-- An event with an account is old or comes from an effect with this account. -/
theorem account_of_applyAll {s : System nk nf} {cause cause' : Option Request} {es : List Effect}
    {e : Event} {u : Int64} (he : e ∈ (s.applyAll cause es).log)
    (hu : e.account = some (cause', u)) :
    e ∈ s.log ∨ cause' = cause ∧ ∃ x ∈ es, effectAccount x = some u := by
  revert he
  refine System.applyAll_induction cause s es (P := fun s' => e ∈ s'.log → _) Or.inl ?_
  intro s' x hx ih he
  cases x with
  | send p m =>
    simp only [System.apply] at he
    split at he
    · rcases List.mem_cons.mp he with rfl | he
      · obtain ⟨u', hu', heq⟩ := Option.map_eq_some_iff.mp hu
        cases heq
        exact Or.inr ⟨rfl, _, hx, hu'⟩
      · exact ih he
    · exact ih he
  | shutdown p =>
    rcases List.mem_cons.mp he with rfl | he
    · cases hu
    · exact ih he
  | put t => exact ih he
  | call c =>
    rcases List.mem_cons.mp he with rfl | he
    · cases c with
      | addLogonSession uid session connname addr =>
        cases hu
        exact Or.inr ⟨rfl, _, hx, rfl⟩
      | _ => cases hu
    · exact ih he

/-! ## What keeps `Identified` -/

namespace Identified

variable {s s' : System nk nf}

theorem relink (h : Identified s) (hreq : s'.requests = s.requests) (hlog : s'.log = s.log) :
    Identified s' where
  numbers := by rw [hreq, hlog]; exact h.numbers
  unique := by rw [hlog]; exact h.unique
  accounts := by rw [hlog]; exact h.accounts

theorem applyAll (h : Identified s) {cause : Option Request} {es : List Effect}
    (hes : ∀ x ∈ es, ∀ u, effectAccount x = some u → AccountOk s.log cause u) :
    Identified (s.applyAll cause es) where
  numbers r m hm := by
    obtain ⟨-, -, -, -, hreq, -⟩ := System.applyAll_frame cause s es
    rw [hreq]
    exact h.numbers r m (System.request_of_applyAll cause s es hm)
  unique r m m' hm hm' :=
    h.unique r m m' (System.request_of_applyAll cause s es hm)
      (System.request_of_applyAll cause s es hm')
  accounts e he cause' u hu := by
    have hsub := System.log_subset_applyAll cause s es
    rcases account_of_applyAll he hu with he | ⟨rfl, x, hx, hxu⟩
    · exact (h.accounts e he cause' u hu).mono hsub
    · exact (hes x hx u hxu).mono hsub

theorem quiet (h : Identified s) {cause : Option Request} {es : List Effect}
    (hes : ∀ e ∈ es, Quiet e) : Identified (s.applyAll cause es) := by
  refine h.applyAll ?_
  intro x hx u hu
  rw [(hes x hx).account] at hu
  cases hu

/-- A client sends a message with a new number. -/
theorem request (h : Identified s) {p : Nat} {m : Message} (hreq : s'.requests = s.requests + 1)
    (hlog : s'.log = .request ⟨p, s.requests⟩ m :: s.log) : Identified s' := by
  have hnew {r : Request} {m₁ : Message} (hm₁ : .request r m₁ ∈ s'.log) :
      (r = ⟨p, s.requests⟩ ∧ m₁ = m) ∨ (.request r m₁ ∈ s.log ∧ r.number < s.requests) := by
    rw [hlog] at hm₁
    rcases List.mem_cons.mp hm₁ with heq | hm₁
    · exact Or.inl (Event.request.inj heq)
    · exact Or.inr ⟨hm₁, h.numbers r m₁ hm₁⟩
  refine ⟨?_, ?_, ?_⟩
  · intro r m₁ hm₁
    rw [hreq]
    rcases hnew hm₁ with ⟨rfl, -⟩ | ⟨-, hlt⟩
    · exact Nat.lt_succ_self _
    · omega
  · intro r m₁ m₂ hm₁ hm₂
    rcases hnew hm₁ with ⟨rfl, rfl⟩ | ⟨hm₁, hlt₁⟩
    · rcases hnew hm₂ with ⟨-, rfl⟩ | ⟨-, hlt₂⟩
      · rfl
      · exact absurd hlt₂ (Nat.lt_irrefl _)
    · rcases hnew hm₂ with ⟨rfl, -⟩ | ⟨hm₂, -⟩
      · exact absurd hlt₁ (Nat.lt_irrefl _)
      · exact h.unique r m₁ m₂ hm₁ hm₂
  · intro e he cause u hu
    rw [hlog] at he ⊢
    rcases List.mem_cons.mp he with rfl | he
    · cases hu
    · exact (h.accounts e he cause u hu).mono (List.subset_cons_self _ _)

/-- A server in between passes on the account of the message it handles. -/
theorem handle (h : Identified s) {m : Tagged Message} {es : List Effect}
    (hm : TokenOk s.links s.log m) (hes : Handled m.val es) :
    Identified (s.applyAll m.cause es) := by
  cases hes with
  | quiet hq => exact h.quiet hq
  | relay hc ho hr =>
    refine h.applyAll ?_
    intro x hx u hu
    obtain ⟨p, -, rfl⟩ := mem_sendTo.mp hx
    rw [effectAccount, accountOf_eq_carries hr, hc] at hu
    obtain ⟨⟨u', n⟩, hcar, rfl⟩ := Option.map_eq_some_iff.mp hu
    exact hm.account hcar
  | @session f m₀ session conn hval =>
    have hacc : AccountOk s.log m.cause m₀.uid := hm.account (n := m₀.connname) (by rw [hval]; rfl)
    refine h.applyAll ?_
    intro x hx u hu
    rcases List.mem_cons.mp hx with rfl | hx
    · cases hu
      exact hacc
    · obtain ⟨p, -, rfl⟩ := mem_sendTo.mp hx
      cases hu
      exact hacc

theorem queryLogonAccount (h : Identified s) {t : Tagged Task} (ht : TaskOk s.links s.log t)
    (result : QueryResult) :
    Identified (s.applyAll t.cause (s.logon.queryLogonAccount t.val result)) := by
  refine h.applyAll ?_
  intro x hx u hu
  unfold LogonServer.queryLogonAccount at hx
  split at hx
  · cases hx
  · split at hx
    · rcases List.mem_cons.mp hx with rfl | hx
      · cases hu
      · obtain ⟨p, -, rfl⟩ := mem_sendTo.mp hx
        cases hu
        exact ht.account
    · rcases List.mem_append.mp hx with hx | hx
      · obtain ⟨p, -, rfl⟩ := mem_sendTo.mp hx
        cases hu
        exact ht.account
      · rw [(quiet_shutdownConn s.logon _ x hx).account] at hu
        cases hu

theorem step (h : Identified s) (hw : Wired s) (hcausal : Causal s) {a : Action nk nf}
    (hs : s.step a = some s') : Identified s' := by
  cases step_flow hw hs with
  | clientSend he hrole hstate hends => exact h.request rfl rfl
  | clientConnect hrole hname hlinks hconns htasks hreq hlog => exact h.relink hreq hlog
  | @logon p rand e m l lm hr hrole hm =>
    have h' : Identified { s with links := l } := h.relink rfl rfl
    refine h'.applyAll ?_
    intro x hx u hu
    rw [List.mem_singleton.mp hx] at hu
    cases hu
  | @refuse p rand e m l hr hrole =>
    have h' : Identified { s with links := l } := h.relink rfl rfl
    exact h'.quiet (quiet_cons trivial quiet_nil)
  | @runTask n result t ht =>
    have h' : Identified { s with tasks := s.tasks.eraseIdx n } := h.relink rfl rfl
    exact h'.queryLogonAccount (hcausal.tasks t (List.mem_of_getElem? ht)) result
  | handle hr hrole hs₁ hlinks hes hsend hpass =>
    obtain ⟨-, hmail⟩ := hcausal.receive hr hlinks hs₁.tasks hs₁.log
    unfold MailOk at hmail
    rw [if_neg hrole] at hmail
    exact (h.relink hs₁.requests hs₁.log).handle hmail hes
  | @answer p rand e m l a hr hrole hm =>
    obtain ⟨-, hmail⟩ : Causal { s with links := l } ∧ MailOk l s.log p e.info m :=
      hcausal.receive hr rfl rfl rfl
    unfold MailOk at hmail
    rw [if_neg (by rw [hrole]; simp)] at hmail
    have h' : Identified { s with links := l } := h.relink rfl rfl
    refine h'.applyAll ?_
    intro x hx u hu
    obtain ⟨q, -, rfl⟩ := mem_sendTo.mp hx
    cases hu
    exact hmail.account (n := a.connname) (by rw [hm]; rfl)
  | down he hstate hlinks hconns htasks hreq hlog hes hsend => exact (h.relink hreq hlog).quiet hes
  | lose hl => exact h.relink rfl rfl
  | other hs₁ hlinks hes hsend => exact (h.relink hs₁.requests hs₁.log).quiet hes
  | restartLogon hlinks hconns htasks hreq hlog => exact h.relink hreq hlog
  | restartHub hs' hlinks => exact h.relink hs'.requests hs'.log

end Identified

theorem identified_init (logon : LogonServer) (keepers : Fin nk → KeeperServer) :
    Identified (System.init logon keepers : System nk nf) where
  numbers r m hm := by cases hm
  unique r m m' hm := by cases hm
  accounts e he := by cases he

theorem identified_reaches {logon : LogonServer} {keepers : Fin nk → KeeperServer}
    (h₀ : Fresh logon keepers) {C : System nk nf → Action nk nf → Prop} {s : System nk nf}
    (h : Reaches System.step C (System.init logon keepers) s) : Identified s := by
  refine (h.invariant (P := fun s => Wired s ∧ Causal s ∧ Identified s)
    ⟨wired_init h₀, causal_init logon keepers, identified_init logon keepers⟩ ?_).2.2
  rintro s a s' ⟨hw, hc, hi⟩ _ hs
  exact ⟨hw.step hs, hc.step hw hs, hi.step hw hc hs⟩

/-! ## What 32 bits leave of a uid -/

/-- What `queryLogonAccount` makes of a uid, as a number. -/
theorem toInt_uidField (uid : Int64) :
    (LogonServer.uidField uid.toUInt64.toUInt32).toInt = uid.toInt % 2 ^ 32 := by
  have hwide (u : UInt32) : u.toUInt64.toInt64.toInt = u.toNat := by
    have hint : u.toUInt64.toInt64.toInt = (u.toUInt64.toNat : Int).bmod (2 ^ 64) :=
      BitVec.toInt_eq_toNat_bmod _
    have hlt := u.toNat_lt
    rw [hint, UInt32.toNat_toUInt64, Int.bmod_eq_of_le_mul_two (by omega) (by omega)]
  have hnat : uid.toInt = (uid.toUInt64.toNat : Int).bmod (2 ^ 64) := BitVec.toInt_eq_toNat_bmod _
  rw [LogonServer.uidField, hwide, UInt64.toNat_toUInt32, hnat]
  rw [Int.bmod_def]
  split <;> omega

theorem uidField_eq_iff (uid : Int64) :
    LogonServer.uidField uid.toUInt64.toUInt32 = uid ↔ 0 ≤ uid.toInt ∧ uid.toInt < 2 ^ 32 := by
  rw [← Int64.toInt_inj, toInt_uidField]
  omega

/-- **The uid survives the logon chain** exactly when it fits into 32 bits. Take any request of any
    run: a message of the logon chain that it causes, the reply to it, or the session that is added
    for it has the uid of its `Logon` if and only if that is not negative and less than `2 ^ 32`. -/
theorem uid_survives_iff {logon : LogonServer} {keepers : Fin nk → KeeperServer}
    (h₀ : Fresh logon keepers) {s : System nk nf}
    (h : Reaches System.step (fun _ _ => True) (System.init logon keepers) s) {r : Request}
    {m : Logon} (hreq : .request r (.logon m) ∈ s.log) :
    ∀ e ∈ s.log, ∀ u, e.account = some (some r, u) →
      (u = m.uid ↔ 0 ≤ m.uid.toInt ∧ m.uid.toInt < 2 ^ 32) := by
  intro e he u hu
  have hid := identified_reaches h₀ h
  obtain ⟨r', m', hr, hreq', rfl⟩ := hid.accounts e he (some r) u hu
  obtain rfl := Option.some.inj hr
  obtain rfl := Message.logon.inj (hid.unique r _ _ hreq hreq')
  exact uidField_eq_iff m.uid

theorem uid_survives_lua :
    ∃ s : System 1 1, Reaches System.step (fun _ _ => True) (luaInit 1) s ∧
      ∃ e ∈ s.log, e.account = some (some ⟨7, 0⟩, luaLogonMessage.uid) ∧
        0 ≤ luaLogonMessage.uid.toInt ∧ luaLogonMessage.uid.toInt < 2 ^ 32 := by
  obtain ⟨s, hs, hreq, e, he, hu⟩ : ∃ s : System 1 1,
      Reaches System.step (fun _ _ => True) (luaInit 1) s ∧
        .request ⟨7, 0⟩ (.logon luaLogonMessage) ∈ s.log ∧
          ∃ e ∈ s.log, e.account = some (some ⟨7, 0⟩, luaLogonMessage.uid) :=
    exists_reaches (luaLogonSteps luaLogonMessage) (by decide +kernel)
  exact ⟨s, hs, e, he, hu, (uid_survives_iff fresh_lua hs hreq e he _ hu).mp rfl⟩

/-- A `Logon` for the account 4294967297 is answered for the account 1. -/
theorem uid_narrowed :
    ¬ ∀ s : System 1 1, Reaches System.step (fun _ _ => True) (luaInit 1) s →
      ∀ r m, .request r (.logon m) ∈ s.log →
        ∀ e ∈ s.log, ∀ u, e.account = some (some r, u) → u = m.uid := by
  intro hall
  obtain ⟨s, hs, hreq, e, he, hu⟩ : ∃ s : System 1 1,
      Reaches System.step (fun _ _ => True) (luaInit 1) s ∧
        .request ⟨7, 0⟩ (.logon { luaLogonMessage with uid := 4294967297 }) ∈ s.log ∧
          ∃ e ∈ s.log, e.account = some (some ⟨7, 0⟩, 1) :=
    exists_reaches (luaLogonSteps { luaLogonMessage with uid := 4294967297 }) (by decide +kernel)
  exact absurd (hall s hs _ _ hreq e he _ hu) (by decide)

end Mmvx.Cluster
