/-
  What a client does with a SUCCESS reply.

  `LogonClient::onLogonRet` connects to the address of the reply, and `ForwardClient::onConnection`
  presents the account and the session there (logonclient/*.cc). A forward server holds the newest
  session that was added at its address for an account, until a session is presented for the account
  or the server starts anew (`held_reaches`). So every SUCCESS reply leads the client to a forward
  server that listens at the address, and that accepts the session of the reply if no newer one has
  been added there (`logon_usable`).
-/
import Mmvx.Cluster.Authenticity

namespace Mmvx.Cluster

open Mmvx.Lib Mmvx.Server

variable {nk nf : Nat}

/-- The address that the client connects to, and the `LogonForward` that it sends there. -/
structure ForwardLogon where
  forwardAddr : InetAddress
  uid : Int64
  session : Int32
  deriving DecidableEq, Repr

/-- `onLogonRet`; after FAILED the client shuts the connection down. -/
def onLogonRet (ret : LogonRet) : Option ForwardLogon :=
  match ret.status with
  | .FAILED => none
  | .SUCCESS =>
    some ⟨⟨ret.forwardip.getD "", (ret.forwardport.getD 0).toUInt16⟩, ret.uid,
      (ret.session.getD 0).toInt32⟩

/-! ## The newest session of an account at an address -/

def sessionOf (uid : Int64) (addr : InetAddress) : Event → Option Int32
  | .call ⟨_, .addLogonSession u session _ a⟩ => if u = uid ∧ a = addr then some session else none
  | _ => none

/-- The session that was added last. -/
def lastSession (uid : Int64) (addr : InetAddress) (log : List Event) : Option Int32 :=
  log.findSome? (sessionOf uid addr)

/-- No effect adds a session. -/
def NoSession (es : List Effect) : Prop :=
  ∀ e ∈ es, ∀ u session n addr, e ≠ .call (.addLogonSession u session n addr)

theorem noSession_nil : NoSession [] := by
  intro e he
  cases he

theorem noSession_sendTo (conn : Option Nat) (m : Message) : NoSession (sendTo conn m) := by
  intro e he
  obtain ⟨p, -, rfl⟩ := mem_sendTo.mp he
  simp

theorem noSession_shutdown (p : Nat) : NoSession [.shutdown p] := by
  intro e he
  rw [List.mem_singleton.mp he]
  simp

theorem NoSession.append {es es' : List Effect} (h : NoSession es) (h' : NoSession es') :
    NoSession (es ++ es') := by
  intro e he
  rcases List.mem_append.mp he with he | he
  · exact h e he
  · exact h' e he

theorem noSession_of_quiet {es : List Effect} (h : ∀ e ∈ es, Quiet e) : NoSession es := by
  rintro e he u session n addr rfl
  cases h _ he

theorem lastSession_apply (uid : Int64) (addr : InetAddress) {cause : Option Request}
    {s : System nk nf} {e : Effect} (h : NoSession [e]) :
    lastSession uid addr (System.apply cause s e).log = lastSession uid addr s.log := by
  cases e with
  | send p m =>
    simp only [System.apply]
    split
    · rfl
    · rfl
  | shutdown p => rfl
  | put t => rfl
  | call c =>
    cases c with
    | addLogonSession u session n a =>
      exact absurd rfl (h _ List.mem_cons_self u session n a)
    | _ => rfl

theorem lastSession_applyAll (uid : Int64) (addr : InetAddress) {cause : Option Request}
    {s : System nk nf} {es : List Effect} (h : NoSession es) :
    lastSession uid addr (s.applyAll cause es).log = lastSession uid addr s.log := by
  refine System.applyAll_induction cause s es
    (P := fun s' => lastSession uid addr s'.log = lastSession uid addr s.log) rfl ?_
  intro s' e he hs'
  have hone : NoSession [e] := by
    intro e' he'
    rw [List.mem_singleton.mp he']
    exact h e he
  rw [lastSession_apply uid addr hone, hs']

/-! ## The servers that add no session -/

theorem noSession_hub (h : HubServer) (conn : TcpConnection) (m : Message) :
    NoSession (h.onMessage conn m).2 := by
  unfold HubServer.onMessage
  split
  · exact noSession_nil
  · unfold HubServer.onHubLogonQueryForwardID
    dsimp only
    split
    · exact noSession_sendTo _ _
    · exact noSession_nil
  · unfold HubServer.onHubConnectionData
    split
    · exact noSession_nil
    · split <;> exact noSession_nil
  · exact noSession_sendTo _ _
  · exact noSession_shutdown _

theorem noSession_keeper (k : KeeperServer) (conn : TcpConnection) (m : Message) :
    NoSession (k.onMessage conn m).2 := by
  unfold KeeperServer.onMessage
  split
  · rename_i q
    obtain ⟨c, -, -, -, -, heff⟩ | heff := k.onQuery_cases conn q
    · rw [heff]
      exact noSession_of_quiet (quiet_cons ⟨rfl, rfl⟩ (quiet_sendTo rfl rfl))
    · rw [heff]
      exact noSession_shutdown _
  · exact noSession_sendTo _ _
  · exact noSession_sendTo _ _
  · exact noSession_shutdown _

theorem noSession_keeperHub (k : KeeperServer) (m : Message) : NoSession (k.onHubMessage m).2 := by
  unfold KeeperServer.onHubMessage
  split
  · exact noSession_sendTo _ _
  · exact noSession_nil

theorem noSession_query (l : LogonServer) (t : Task) (result : QueryResult) :
    NoSession (l.queryLogonAccount t result) := by
  unfold LogonServer.queryLogonAccount
  split
  · exact noSession_nil
  · split
    · intro e he
      rcases List.mem_cons.mp he with rfl | he
      · simp
      · exact noSession_sendTo _ _ e he
    · exact (noSession_sendTo _ _).append (noSession_of_quiet (quiet_shutdownConn l _))

/-! ## Steps -/

/-- The session that a forward server at the address has for the account stays there. -/
def KeepsSession (uid : Int64) (addr : InetAddress) (s s' : System nk nf) : Prop :=
  ∀ i f, (s.forwards i).forwardServer_ = some f → f.listenAddr_ = addr →
    ∃ f', (s'.forwards i).forwardServer_ = some f' ∧ f'.listenAddr_ = f.listenAddr_ ∧
      f'.logonSessions_.find uid = f.logonSessions_.find uid

/-- What a step does to the newest session. -/
inductive Session (uid : Int64) (addr : InetAddress) (s s' : System nk nf) : Prop
  | keeps (hlog : lastSession uid addr s'.log = lastSession uid addr s.log)
      (hkeeps : KeepsSession uid addr s s')
  | adds {i : Fin nf} {f : ForwardServer} {session : Int32}
      (hlog : lastSession uid addr s'.log = some session) (haddr : f.listenAddr_ = addr)
      (hadds : (s'.forwards i).forwardServer_ = some (f.addLogonSession uid session))

/-- The forward server that starts when the next message for `p` is delivered. -/
def starting (s : System nk nf) (p : Nat) : Option (Fin nf) :=
  match s.links.receive p with
  | some (e, m, _) =>
    match e.info.role, m.val with
    | .forwardKeeper i, .keeperAnswer _ => some i
    | _, _ => none
  | none => none

/-- The step neither presents a session for the account nor lets a forward server start anew. -/
def Undisturbed (uid : Int64) (s : System nk nf) : Action nk nf → Prop
  | .forwardLogon _ u _ => u ≠ uid
  | .deliver p _ => ∀ i ∈ starting s p, (s.forwards i).forwardServer_ = none
  | _ => True

instance (uid : Int64) (s : System nk nf) (a : Action nk nf) : Decidable (Undisturbed uid s a) :=
  match a with
  | .forwardLogon _ u _ => inferInstanceAs (Decidable (u ≠ uid))
  | .deliver p _ =>
    inferInstanceAs (Decidable (∀ i ∈ starting s p, (s.forwards i).forwardServer_ = none))
  | .clientConnect | .clientSend .. | .down .. | .lose .. | .runTask .. | .logonConnectHub
  | .keeperConnectHub .. | .forwardConnectKeeper .. | .forwardUp .. | .forwardDown ..
  | .restartLogon | .restartHub => .isTrue trivial

section

variable {uid : Int64} {addr : InetAddress} {s s' : System nk nf}

theorem keepsSession_of_eq (h : s'.forwards = s.forwards) : KeepsSession uid addr s s' := by
  intro i f hf _
  exact ⟨f, by rw [h, hf], rfl, rfl⟩

/-- A callback of a server that is not a forward server. -/
theorem session_applyAll {s₁ : System nk nf} {cause : Option Request} {es : List Effect}
    (hlog : s₁.log = s.log) (hforwards : s₁.forwards = s.forwards) (hes : NoSession es) :
    Session uid addr s (s₁.applyAll cause es) := by
  refine .keeps ?_ (keepsSession_of_eq ?_)
  · rw [lastSession_applyAll uid addr hes, hlog]
  · rw [(System.applyAll_frame cause s₁ es).2.2.2.1, hforwards]

/-- A callback of a forward server that leaves the account's session where it is. -/
theorem session_withForward {i : Fin nf} {k : KeeperClient} {cause : Option Request}
    {es : List Effect} (hlog : s'.log = s.log) (hforwards : s'.forwards = s.forwards)
    (hes : NoSession es)
    (hk : ∀ f, (s.forwards i).forwardServer_ = some f →
      ∃ f', k.forwardServer_ = some f' ∧ f'.listenAddr_ = f.listenAddr_ ∧
        f'.logonSessions_.find uid = f.logonSessions_.find uid) :
    Session uid addr s (s'.withForward i cause (k, es)) := by
  refine .keeps ?_ ?_
  · rw [System.withForward, lastSession_applyAll uid addr hes]
    exact congrArg _ hlog
  · intro j f hf _
    rw [System.withForward, (System.applyAll_frame cause _ es).2.2.2.1]
    dsimp only
    by_cases hij : j = i
    · subst hij
      rw [Function.update_self]
      exact hk f hf
    · rw [Function.update_of_ne hij, hforwards]
      exact ⟨f, hf, rfl, rfl⟩

/-- A forward server adds a session. -/
theorem session_add {i : Fin nf} {f : ForwardServer} {q : KeeperForwardLogonSession} {rand : Int32}
    {k : KeeperClient} {cause : Option Request} {conn : Option Nat} {m : Message}
    (hlog : s'.log = s.log) (hforwards : s'.forwards = s.forwards)
    (hf : (s.forwards i).forwardServer_ = some f) :
    Session uid addr s (s'.withForward i cause
      ({ k with forwardServer_ := some (f.addLogonSession q.uid rand) },
        .call (.addLogonSession q.uid rand q.connname f.listenAddr_) :: sendTo conn m)) := by
  have hlast : lastSession uid addr (s'.withForward i cause
      ({ k with forwardServer_ := some (f.addLogonSession q.uid rand) },
        .call (.addLogonSession q.uid rand q.connname f.listenAddr_) :: sendTo conn m)).log =
      if q.uid = uid ∧ f.listenAddr_ = addr then some rand else lastSession uid addr s.log := by
    rw [System.withForward, System.applyAll_cons,
      lastSession_applyAll uid addr (noSession_sendTo _ _), lastSession, System.apply,
      List.findSome?_cons, sessionOf, hlog]
    by_cases hu : q.uid = uid ∧ f.listenAddr_ = addr
    · rw [if_pos hu, if_pos hu]
    · rw [if_neg hu, if_neg hu]
      rfl
  by_cases hu : q.uid = uid ∧ f.listenAddr_ = addr
  · rw [if_pos hu] at hlast
    refine .adds (i := i) hlast hu.2 ?_
    rw [System.withForward, (System.applyAll_frame _ _ _).2.2.2.1, ← hu.1]
    dsimp only
    rw [Function.update_self]
  · rw [if_neg hu] at hlast
    refine .keeps hlast ?_
    intro j f' hf' haddr
    rw [System.withForward, (System.applyAll_frame _ _ _).2.2.2.1]
    dsimp only
    by_cases hij : j = i
    · subst hij
      rw [hf] at hf'
      obtain rfl := Option.some.inj hf'
      rw [Function.update_self]
      refine ⟨_, rfl, rfl, ?_⟩
      rw [ForwardServer.addLogonSession]
      dsimp only
      rw [OrdMap.find_insert, if_neg fun h => hu ⟨h.symm, haddr⟩]
    · rw [Function.update_of_ne hij, hforwards]
      exact ⟨f', hf', rfl, rfl⟩

/-- The message callback of a forward server. -/
theorem session_forward {i : Fin nf} {conn : TcpConnection} {rand : Int32} {m : Tagged Message}
    (hlog : s'.log = s.log) (hforwards : s'.forwards = s.forwards)
    (hanswer : ∀ a, m.val = .keeperAnswer a → (s.forwards i).forwardServer_ = none) :
    Session uid addr s (s'.withForward i m.cause ((s'.forwards i).onMessage conn rand m.val)) := by
  rw [hforwards]
  unfold KeeperClient.onMessage
  split
  · rename_i a ha
    refine session_withForward hlog hforwards ?_ ?_
    · rw [hanswer a ha]
      exact noSession_nil
    · intro f hf
      rw [hanswer a ha] at hf
      cases hf
  · rename_i q hq
    unfold KeeperClient.onKeeperForwardLogonSession
    split
    · rename_i f hf
      exact session_add hlog hforwards hf
    · rename_i hnone
      refine session_withForward hlog hforwards ?_ ?_
      · intro e he
        rw [List.mem_singleton.mp he]
        simp
      · intro f hf
        rw [hnone] at hf
        cases hf
  · refine session_withForward hlog hforwards (noSession_shutdown _) ?_
    intro f hf
    exact ⟨f, hf, rfl, rfl⟩

theorem session_deliver {p : Nat} {rand : Int32} (hu : Undisturbed uid s (.deliver p rand))
    (hs : s.deliver p rand = some s') : Session uid addr s s' := by
  unfold System.deliver at hs
  split at hs
  · rename_i e m l hr
    obtain rfl := Option.some.inj hs
    unfold System.onMessage
    split
    · exact .keeps rfl (keepsSession_of_eq rfl)
    · unfold LogonServer.onMessage
      split
      · refine session_applyAll rfl rfl ?_
        intro e he
        rw [List.mem_singleton.mp he]
        simp
      · exact session_applyAll rfl rfl (noSession_shutdown _)
    · unfold LogonServer.onHubClientMessage
      split
      · exact session_applyAll rfl rfl (noSession_sendTo _ _)
      · exact session_applyAll rfl rfl (noSession_shutdown _)
    · exact session_applyAll rfl rfl (noSession_hub _ _ _)
    · exact session_applyAll rfl rfl (noSession_keeperHub _ _)
    · exact session_applyAll rfl rfl (noSession_keeper _ _ _)
    · rename_i i hi
      refine session_forward rfl rfl ?_
      intro a ha
      refine hu i ?_
      rw [starting, hr]
      dsimp only
      rw [hi, ha]
      exact Option.mem_some_self i
  · cases hs

theorem session_down {p : Nat} (hs : s.down p = some s') : Session uid addr s s' := by
  unfold System.down at hs
  split at hs
  · split at hs
    · cases hs
    · rename_i e _ _
      obtain rfl := Option.some.inj hs
      unfold System.onDown
      split
      · exact .keeps rfl (keepsSession_of_eq rfl)
      · exact session_applyAll rfl rfl noSession_nil
      · exact session_applyAll rfl rfl noSession_nil
      · refine session_applyAll rfl rfl ?_
        unfold HubServer.onConnection
        split <;> exact noSession_nil
      · exact session_applyAll rfl rfl noSession_nil
      · rename_i j _
        refine session_applyAll rfl rfl ?_
        obtain ⟨_, -, _, -, -, -, heff⟩ | ⟨-, -, heff⟩ :=
          (s.keepers j).onConnection_cases (e.info.conn p)
        · rw [heff]
          exact noSession_sendTo _ _
        · rw [heff]
          exact noSession_nil
      · refine session_withForward rfl rfl noSession_nil ?_
        intro f hf
        exact ⟨f, hf, rfl, rfl⟩
  · cases hs

theorem step_session {a : Action nk nf} (addr : InetAddress) (hu : Undisturbed uid s a)
    (hs : s.step a = some s') : Session uid addr s s' := by
  cases a with
  | clientConnect =>
    obtain rfl := Option.some.inj hs
    exact session_applyAll rfl rfl noSession_nil
  | clientSend p m =>
    dsimp only [System.step, System.clientSend] at hs
    split at hs
    · split at hs
      · obtain rfl := Option.some.inj hs
        exact .keeps rfl (keepsSession_of_eq rfl)
      · cases hs
    · cases hs
  | deliver p rand => exact session_deliver hu hs
  | down p => exact session_down hs
  | lose p =>
    obtain ⟨e, m, l, -, rfl⟩ := System.lose_eq_some hs
    exact .keeps rfl (keepsSession_of_eq rfl)
  | runTask n result =>
    dsimp only [System.step, System.runTask] at hs
    split at hs
    · obtain rfl := Option.some.inj hs
      exact session_applyAll rfl rfl (noSession_query _ _ _)
    · cases hs
  | logonConnectHub =>
    dsimp only [System.step, System.logonConnectHub] at hs
    split at hs
    · obtain rfl := Option.some.inj hs
      exact session_applyAll rfl rfl (noSession_sendTo (some _) _)
    · cases hs
  | keeperConnectHub j =>
    dsimp only [System.step, System.keeperConnectHub] at hs
    split at hs
    · obtain rfl := Option.some.inj hs
      exact session_applyAll rfl rfl (noSession_sendTo (some _) _)
    · cases hs
  | forwardConnectKeeper i j ip =>
    dsimp only [System.step, System.forwardConnectKeeper] at hs
    split at hs
    · obtain rfl := Option.some.inj hs
      refine session_withForward rfl rfl (noSession_sendTo (some _) _) ?_
      intro f hf
      exact ⟨f, hf, rfl, rfl⟩
    · cases hs
  | forwardUp i =>
    obtain ⟨r, hr, rfl⟩ := Option.map_eq_some_iff.mp hs
    obtain ⟨f, hf, rfl⟩ := Option.map_eq_some_iff.mp hr
    refine session_withForward rfl rfl (noSession_sendTo _ _) ?_
    intro f' hf'
    rw [hf] at hf'
    obtain rfl := Option.some.inj hf'
    exact ⟨_, rfl, rfl, rfl⟩
  | forwardDown i =>
    obtain ⟨r, hr, rfl⟩ := Option.map_eq_some_iff.mp hs
    unfold KeeperClient.onClientDown at hr
    split at hr
    · rename_i f hf
      split at hr
      · obtain rfl := Option.some.inj hr
        refine session_withForward rfl rfl (noSession_sendTo _ _) ?_
        intro f' hf'
        rw [hf] at hf'
        obtain rfl := Option.some.inj hf'
        exact ⟨_, rfl, rfl, rfl⟩
      · cases hr
    · cases hr
  | forwardLogon i u session =>
    obtain ⟨k, hk, rfl⟩ := Option.map_eq_some_iff.mp hs
    obtain ⟨f, hf, rfl⟩ := Option.map_eq_some_iff.mp hk
    refine session_withForward rfl rfl noSession_nil ?_
    intro f' hf'
    rw [hf] at hf'
    obtain rfl := Option.some.inj hf'
    refine ⟨_, rfl, rfl, ?_⟩
    rw [ForwardServer.checkLogonForwardSession]
    dsimp only
    rw [OrdMap.find_erase, if_neg (Ne.symm hu)]
  | restartLogon =>
    obtain rfl := Option.some.inj hs
    exact .keeps rfl (keepsSession_of_eq rfl)
  | restartHub =>
    obtain rfl := Option.some.inj hs
    exact .keeps rfl (keepsSession_of_eq rfl)

end

/-! ## Runs -/

/-- The newest session that was added at an address is in the table of a forward server there. -/
def Held (uid : Int64) (s : System nk nf) : Prop :=
  ∀ addr session, lastSession uid addr s.log = some session →
    ∃ i f, (s.forwards i).forwardServer_ = some f ∧ f.listenAddr_ = addr ∧
      f.logonSessions_.find uid = some session

theorem Held.step {uid : Int64} {s s' : System nk nf} {a : Action nk nf} (h : Held uid s)
    (hu : Undisturbed uid s a) (hs : s.step a = some s') : Held uid s' := by
  intro addr session hlast
  cases step_session addr hu hs with
  | keeps hlog hkeeps =>
    rw [hlog] at hlast
    obtain ⟨i, f, hf, haddr, hfind⟩ := h addr session hlast
    obtain ⟨f', hf', haddr', hfind'⟩ := hkeeps i f hf haddr
    exact ⟨i, f', hf', haddr'.trans haddr, hfind'.trans hfind⟩
  | adds hlog haddr hadds =>
    obtain rfl := Option.some.inj (hlog.symm.trans hlast)
    refine ⟨_, _, hadds, haddr, ?_⟩
    rw [ForwardServer.addLogonSession]
    dsimp only
    rw [OrdMap.find_insert, if_pos rfl]

theorem held_reaches {logon : LogonServer} {keepers : Fin nk → KeeperServer} {uid : Int64}
    {s : System nk nf}
    (h : Reaches System.step (Undisturbed uid) (System.init logon keepers) s) : Held uid s := by
  refine h.invariant ?_ fun s a s' hheld hu hs => hheld.step hu hs
  intro addr session hlast
  cases hlast

/-- A session that was added is not newer than the newest. -/
theorem exists_lastSession {uid : Int64} {addr : InetAddress} {log : List Event}
    {cause : Option Request} {session : Int32} {n : String}
    (h : .call ⟨cause, .addLogonSession uid session n addr⟩ ∈ log) :
    ∃ newest, lastSession uid addr log = some newest := by
  rw [← Option.isSome_iff_exists, lastSession, List.findSome?_isSome_iff]
  exact ⟨_, h, by simp [sessionOf]⟩

/-- **A logon can be used.** Whenever SUCCESS has been sent for an account, the client connects to
    an address where a forward server listens and at which its session has been added, and the server
    accepts for the account the newest session that was added at this address and no other. -/
theorem logon_usable {logon : LogonServer} {keepers : Fin nk → KeeperServer}
    (h₀ : Fresh logon keepers) {s : System nk nf} {c : Nat} {cause : Option Request}
    {ret : LogonRet} (h : Reaches System.step (Undisturbed ret.uid) (System.init logon keepers) s)
    (hsent : .sent c ⟨cause, .logonRet ret⟩ ∈ s.log) (hst : ret.status = .SUCCESS) :
    ∃ q newest i f, onLogonRet ret = some q ∧ q.uid = ret.uid ∧
      ret.session = some q.session.toUInt32 ∧
      (∃ n, .call ⟨cause, .addLogonSession q.uid q.session n q.forwardAddr⟩ ∈ s.log) ∧
      lastSession q.uid q.forwardAddr s.log = some newest ∧
      (s.forwards i).forwardServer_ = some f ∧ f.listenAddr_ = q.forwardAddr ∧
      ∀ session, (f.checkLogonForwardSession q.uid session).2 = true ↔ session = newest := by
  obtain ⟨newer, older, hlog⟩ := List.append_of_mem hsent
  have hsuffix : (.sent c ⟨cause, .logonRet ret⟩ :: older) <:+ s.log := ⟨newer, hlog.symm⟩
  obtain ⟨r, n, o, hcause, -, -, -, ⟨session, addr, hcall, rfl⟩, hip, hport, hsession⟩ :=
    (causal_reaches h₀ h).log older c _ hsuffix ret rfl hst
  obtain rfl : cause = some r := hcause
  have hmem := hsuffix.subset (List.mem_cons_of_mem _ hcall)
  obtain ⟨newest, hlast⟩ := exists_lastSession hmem
  obtain ⟨i, f, hf, haddr, hfind⟩ := held_reaches h addr newest hlast
  have hq : onLogonRet ret = some ⟨addr, ret.uid, session⟩ := by
    rw [onLogonRet, hst, hip, hport, hsession]
    simp
  refine ⟨_, newest, i, f, hq, rfl, hsession, ⟨n, hmem⟩, hlast, hf, haddr, ?_⟩
  intro session'
  rw [ForwardServer.checkLogonForwardSession, decide_eq_true_eq, hfind, Option.some.injEq]
  exact eq_comm

/-- Two clients log on to the same account. The one that is sent the session 42 comes too late:
    the forward server accepts 43. -/
theorem logon_usable_lua :
    ∃ (s : System 1 1) (q : ForwardLogon) (f : ForwardServer),
      Reaches System.step (Undisturbed 1) (luaInit 1) s ∧
      onLogonRet ⟨1, .SUCCESS, some "127.0.0.1", some 10031, some 42⟩ = some q ∧
      (s.forwards 0).forwardServer_ = some f ∧ f.listenAddr_ = q.forwardAddr ∧
      (f.checkLogonForwardSession 1 43).2 = true ∧
      (f.checkLogonForwardSession q.uid q.session).2 = false := by
  obtain ⟨s, hs, hsent, hlast⟩ : ∃ s : System 1 1,
      Reaches System.step (Undisturbed 1) (luaInit 1) s ∧
        .sent 7 ⟨some ⟨7, 0⟩, .logonRet ⟨1, .SUCCESS, some "127.0.0.1", some 10031, some 42⟩⟩ ∈
          s.log ∧
        lastSession 1 ⟨"127.0.0.1", 10031⟩ s.log = some 43 :=
    exists_reaches (luaLogonSteps luaLogonMessage ++ [.clientConnect,
      .clientSend 8 (.logon luaLogonMessage), .deliver 9 0, .runTask 0 (.stored 1 true),
      .deliver 1 0, .deliver 2 0, .deliver 4 43, .deliver 5 0, .deliver 3 0, .deliver 0 0])
      (by decide +kernel)
  obtain ⟨q, newest, i, f, hq, -, -, -, hnewest, hf, haddr, hiff⟩ := logon_usable fresh_lua hs hsent rfl
  obtain rfl : q = ⟨⟨"127.0.0.1", 10031⟩, 1, 42⟩ := Option.some.inj hq.symm
  obtain rfl : newest = 43 := Option.some.inj (hnewest.symm.trans hlast)
  obtain rfl : i = 0 := Subsingleton.elim i 0
  refine ⟨s, _, f, hs, rfl, hf, haddr, (hiff 43).mpr rfl, ?_⟩
  rw [Bool.eq_false_iff, Ne, hiff]
  decide

end Mmvx.Cluster
