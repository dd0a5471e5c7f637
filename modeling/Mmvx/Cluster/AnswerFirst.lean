/-
  A forward server gets a `KeeperForwardLogonSession` only after a `KeeperAnswer`.

  `onQuery` sends the answer before it puts the connection into `conns_`, `sendToForward` finds
  connections only there, and a connection delivers in order. So an end that a keeper has in
  `conns_`, has looked up or is about to insert is primed: its forward server has been answered or
  the answer is under way to it. `AnswerFirst` is this invariant of the loops of the keepers.

  Main result: `session_after_answer`.
-/
import Mmvx.Cluster.Calm

namespace Mmvx.Cluster

open Mmvx.Lib Mmvx.Server

variable {nk nf : Nat}

/-! ## The loops of the keepers -/

/-- What an operation that is still to be done at the end `p` may be. -/
def OpCalm (s : System nk nf) (p : Nat) : Op → Prop
  | .effect e => EffectCalm s e
  | .sendToHub m => isSession m = false
  | .insertConn _ q => q = p
  | _ => True

/-- The next operation sends the answer on `p`. -/
def AnswerNext (ops : List (Tagged Op)) (p : Nat) : Prop :=
  ∃ c a rest, ops = ⟨c, .effect (.send p (.keeperAnswer a))⟩ :: rest

structure AnswerFirst (t : Threads nk nf) : Prop where
  calm : Calm t.sys
  ops : ∀ p, ∀ op ∈ t.todo p, OpCalm t.sys p op.val
  /-- Before the connection goes into `conns_` its answer is sent. -/
  inserts : ∀ p, ∀ op ∈ t.todo p, ∀ f q, op.val = .insertConn f q →
    PrimedEnd t.sys p ∨ AnswerNext (t.todo p) p
  answers : ∀ i, (t.sys.forwards i).forwardServer_.isSome = true → 0 < t.answers i

theorem OpCalm.mono {s s' : System nk nf} {p : Nat} {op : Op} (h : OpCalm s p op)
    (hp : ∀ p, PrimedEnd s p → PrimedEnd s' p) : OpCalm s' p op := by
  match op, h with
  | .effect e, h => exact EffectCalm.mono h hp
  | .sendToHub m, h => exact h
  | .insertConn f q, h => exact h
  | .sendToForward id m, _ => trivial
  | .setStarted id start conn, _ => trivial
  | .eraseConn q, _ => trivial
  | .setHubConn c, _ => trivial

namespace AnswerFirst

variable {t t' : Threads nk nf}

/-- The operations at one end change. -/
theorem retodo (h : AnswerFirst t) (hk : Keeps t.sys t'.sys) {p : Nat} {ops : List (Tagged Op)}
    (htodo : t'.todo = Function.update t.todo p ops) (hanswers : t'.answers = t.answers)
    (hops : ∀ op ∈ ops, OpCalm t'.sys p op.val)
    (hinserts : ∀ op ∈ ops, ∀ f q, op.val = .insertConn f q →
      PrimedEnd t'.sys p ∨ AnswerNext ops p) : AnswerFirst t' := by
  refine ⟨hk.calm h.calm, ?_, ?_, ?_⟩
  · intro r op hop
    rw [htodo] at hop
    by_cases hr : r = p
    · subst hr
      rw [Function.update_self] at hop
      exact hops op hop
    · rw [Function.update_of_ne hr] at hop
      exact (h.ops r op hop).mono hk.primed
  · intro r op hop f q heq
    rw [htodo] at hop ⊢
    by_cases hr : r = p
    · subst hr
      rw [Function.update_self] at hop ⊢
      exact hinserts op hop f q heq
    · rw [Function.update_of_ne hr] at hop ⊢
      exact (h.inserts r op hop f q heq).imp_left (hk.primed r)
  · intro i hi
    rw [hanswers]
    exact h.answers i (hk.created i hi)

/-- No callback of a keeper goes on. -/
theorem resys (h : AnswerFirst t) (hk : Keeps t.sys t'.sys) (htodo : t'.todo = t.todo)
    (hanswers : t'.answers = t.answers) : AnswerFirst t' := by
  refine ⟨hk.calm h.calm, ?_, ?_, ?_⟩
  · intro p op hop
    rw [htodo] at hop
    exact (h.ops p op hop).mono hk.primed
  · intro p op hop f q heq
    rw [htodo] at hop ⊢
    exact (h.inserts p op hop f q heq).imp_left (hk.primed p)
  · intro i hi
    rw [hanswers]
    exact h.answers i (hk.created i hi)

/-- A callback begins. -/
theorem begin (h : AnswerFirst t) {p : Nat} {s : System nk nf} {cause : Option Request}
    {ops : List Op} (hk : Keeps t.sys s) (hops : ∀ op ∈ ops, OpCalm s p op)
    (hinserts : ∀ f q, .insertConn f q ∈ ops →
      ∃ a rest, ops = .effect (.send p (.keeperAnswer a)) :: rest)
    (hs : t.begin p s cause ops = some t') : AnswerFirst t' := by
  unfold Threads.begin at hs
  split at hs
  · obtain rfl := Option.some.inj hs
    refine h.retodo hk rfl rfl ?_ ?_
    · intro op hop
      obtain ⟨o, ho, rfl⟩ := List.mem_map.mp hop
      exact hops o ho
    · intro op hop f q heq
      obtain ⟨o, ho, rfl⟩ := List.mem_map.mp hop
      obtain ⟨a, rest, hcons⟩ := hinserts f q (heq ▸ ho)
      exact Or.inr ⟨cause, a, rest.map fun o => ⟨cause, o⟩, by rw [hcons, List.map_cons]⟩
  · cases hs

end AnswerFirst

theorem opCalm_queryOps (s : System nk nf) (k : KeeperServer) (conn : TcpConnection)
    (m : KeeperQuery) : (∀ op ∈ k.queryOps conn m, OpCalm s conn.ptr op) ∧
      ∀ f q, .insertConn f q ∈ k.queryOps conn m →
        ∃ a rest, k.queryOps conn m = .effect (.send conn.ptr (.keeperAnswer a)) :: rest := by
  unfold KeeperServer.queryOps
  split
  · refine ⟨?_, fun _ _ _ => ⟨_, _, rfl⟩⟩
    intro op hop
    simp only [List.mem_cons, List.not_mem_nil, or_false] at hop
    rcases hop with rfl | rfl | rfl | rfl
    · exact nofun
    · rfl
    · trivial
    · rfl
  · refine ⟨?_, ?_⟩
    · intro op hop
      rw [List.mem_singleton.mp hop]
      trivial
    · intro f q hop
      cases List.mem_singleton.mp hop

theorem opCalm_messageOps (s : System nk nf) (k : KeeperServer) (conn : TcpConnection)
    (m : Message) : (∀ op ∈ k.messageOps conn m, OpCalm s conn.ptr op) ∧
      ∀ f q, .insertConn f q ∈ k.messageOps conn m →
        ∃ a rest, k.messageOps conn m = .effect (.send conn.ptr (.keeperAnswer a)) :: rest := by
  unfold KeeperServer.messageOps
  split
  · exact opCalm_queryOps s k conn _
  · refine ⟨?_, fun f q hop => by cases List.mem_singleton.mp hop⟩
    intro op hop
    rw [List.mem_singleton.mp hop]
    rfl
  · refine ⟨?_, fun f q hop => by cases List.mem_singleton.mp hop⟩
    intro op hop
    rw [List.mem_singleton.mp hop]
    rfl
  · refine ⟨?_, fun f q hop => by cases List.mem_singleton.mp hop⟩
    intro op hop
    rw [List.mem_singleton.mp hop]
    trivial

theorem opCalm_hubMessageOps (s : System nk nf) (p : Nat) (m : Message) :
    (∀ op ∈ KeeperServer.hubMessageOps m, OpCalm s p op) ∧
      ∀ f q, .insertConn f q ∉ KeeperServer.hubMessageOps m := by
  unfold KeeperServer.hubMessageOps
  split
  · refine ⟨?_, fun f q hop => by cases List.mem_singleton.mp hop⟩
    intro op hop
    rw [List.mem_singleton.mp hop]
    trivial
  · exact ⟨nofun, nofun⟩

theorem opCalm_downOps (s : System nk nf) (p : Nat) (k : KeeperServer) (conn : TcpConnection) :
    (∀ op ∈ k.downOps conn, OpCalm s p op) ∧ ∀ f q, .insertConn f q ∉ k.downOps conn := by
  obtain ⟨d, id, hops⟩ | hops := k.downOps_cases conn
  · rw [hops]
    refine ⟨?_, by simp⟩
    intro op hop
    simp only [List.mem_cons, List.not_mem_nil, or_false] at hop
    rcases hop with rfl | rfl | rfl
    · rfl
    · trivial
    · trivial
  · rw [hops]
    refine ⟨?_, by simp⟩
    intro op hop
    rw [List.mem_singleton.mp hop]
    trivial

theorem opCalm_hubUpOps (s : System nk nf) (p : Nat) (k : KeeperServer) (conn : TcpConnection) :
    (∀ op ∈ k.hubUpOps conn, OpCalm s p op) ∧ ∀ f q, .insertConn f q ∉ k.hubUpOps conn := by
  refine ⟨?_, by simp [KeeperServer.hubUpOps]⟩
  intro op hop
  simp only [KeeperServer.hubUpOps, List.mem_cons, List.not_mem_nil, or_false] at hop
  rcases hop with rfl | rfl
  · trivial
  · exact nofun

namespace AnswerFirst

variable {t t' : Threads nk nf}

theorem deliver (h : AnswerFirst t) {p : Nat} {rand : Int32}
    (hs : t.deliver p rand = some t') : AnswerFirst t' := by
  obtain ⟨e, m, l, hr, hcases⟩ := Threads.deliver_cases hs
  obtain ⟨j, hrole, hb⟩ | ⟨j, new, hrole, -, hb⟩ | ⟨i, a, hrole, ha, rfl⟩ | ⟨i, hrole, hne, rfl⟩ |
    ⟨hkeeper, hforward, rfl⟩ := hcases
  · obtain ⟨hops, hno⟩ := opCalm_hubMessageOps { t.sys with links := l } p m.val
    exact h.begin (keeps_receive_other hr (by simp [hrole])) hops
      (fun f q hop => absurd hop (hno f q)) hb
  · obtain ⟨hops, hins⟩ :=
      opCalm_messageOps { t.sys with links := l } (t.sys.keepers j) (e.info.conn p) m.val
    have h' : AnswerFirst { t with answered := new ++ t.answered } :=
      ⟨h.calm, h.ops, h.inserts, h.answers⟩
    exact h'.begin (keeps_receive_other hr (by simp [hrole])) hops hins hb
  · obtain ⟨hcalm, hprimed, hcreated⟩ := calm_deliver_answer h.calm (a := a) hr hrole rfl
    refine ⟨hcalm, fun q op hop => (h.ops q op hop).mono hprimed,
      fun q op hop f r heq => (h.inserts q op hop f r heq).imp_left (hprimed q), ?_⟩
    intro i' hi'
    dsimp only
    by_cases hii : i' = i
    · rw [hii, Function.update_self]
      exact Nat.succ_pos _
    · rw [Function.update_of_ne hii]
      exact h.answers i' ((hcreated i' hi').resolve_left hii)
  · refine h.resys (keeps_deliver_forward h.calm hr hrole ?_ _ rand) rfl rfl
    unfold isAnswer
    split
    · rename_i a ha
      exact absurd ha (hne a)
    · rfl
  · exact h.resys (keeps_onMessage rand hr hkeeper hforward) rfl rfl

theorem down (h : AnswerFirst t) {p : Nat} (hs : t.down p = some t') : AnswerFirst t' := by
  obtain ⟨e, he, -, hcases⟩ := Threads.down_cases hs
  obtain ⟨j, hrole, hb⟩ | ⟨j, hrole, hb⟩ | ⟨hkeeper, rfl⟩ := hcases
  · refine h.begin (keeps_close p) ?_ (fun f q hop => ?_) hb
    · intro op hop
      rw [List.mem_singleton.mp hop]
      trivial
    · cases List.mem_singleton.mp hop
  · obtain ⟨hops, hno⟩ := opCalm_downOps { t.sys with links := t.sys.links.close p } p
      (t.sys.keepers j) (e.info.conn p)
    exact h.begin (keeps_close p) hops (fun f q hop => absurd hop (hno f q)) hb
  · exact h.resys ((keeps_close p).trans (keeps_onDown hkeeper)) rfl rfl

theorem keeperConnectHub (h : AnswerFirst t) {j : Fin nk} (hs : t.keeperConnectHub j = some t') :
    AnswerFirst t' := by
  unfold Threads.keeperConnectHub at hs
  split at hs
  · obtain ⟨hops, hno⟩ := opCalm_hubUpOps
      (t.sys.connect (Info.unnamed (.keeperHub j)) (Info.unnamed .hubServer)) t.sys.links.length
      (t.sys.keepers j) ((Info.unnamed (.keeperHub j) : Info nk nf).conn t.sys.links.length)
    exact h.begin (keeps_connect _ _ (by simp [Info.unnamed]) (by simp [Info.unnamed])) hops
      (fun f q hop => absurd hop (hno f q)) hs
  · cases hs

/-- The keeper's tables change. -/
theorem keeps_keeper {s : System nk nf} {j : Fin nk} {k : KeeperServer}
    (hk : ∀ f p, k.conns_.find f = some p →
      (s.keepers j).conns_.find f = some p ∨ PrimedEnd s p) :
    Keeps s { s with keepers := Function.update s.keepers j k } := by
  refine keeps_tables rfl rfl ?_ fun _ => rfl
  intro j' f p hp
  by_cases hj : j' = j
  · subst hj
    simp only [Function.update_self] at hp
    exact hk f p hp
  · simp only [Function.update_of_ne hj] at hp
    exact Or.inl hp

/-- One operation: what the keeper's table and the links become. -/
theorem keeps_exec {s : System nk nf} (hc : Calm s) {j : Fin nk} {p : Nat} {op : Op}
    (hop : OpCalm s p op) (hins : ∀ f q, op = .insertConn f q → PrimedEnd s p)
    (cause : Option Request) :
    Keeps s (s.withKeeper j cause (((s.keepers j).exec op).1, ((s.keepers j).exec op).2.1)) ∧
      ∀ e ∈ ((s.keepers j).exec op).2.2, EffectCalm s e := by
  have hsame : ∀ f q, (s.keepers j).conns_.find f = some q →
      (s.keepers j).conns_.find f = some q ∨ PrimedEnd s q := fun _ _ hq => Or.inl hq
  match op, hop with
  | .effect e, hop =>
    refine ⟨?_, effectCalm_nil⟩
    rw [KeeperServer.exec, System.withKeeper_self]
    exact keeps_apply cause hop
  | .sendToHub m, hop =>
    refine ⟨?_, effectCalm_sendTo hop⟩
    rw [KeeperServer.exec, System.withKeeper_self]
    exact .refl s
  | .sendToForward id m, _ =>
    refine ⟨?_, ?_⟩
    · rw [KeeperServer.exec, System.withKeeper_self]
      exact .refl s
    · intro e he
      obtain ⟨q, hq, rfl⟩ := mem_sendTo.mp he
      exact fun _ => hc.routes j id q hq
  | .setStarted id start conn, _ =>
    refine ⟨keeps_keeper fun f q hq => hsame f q ?_, effectCalm_nil⟩
    rw [KeeperServer.exec] at hq
    dsimp only at hq
    split at hq <;> exact hq
  | .insertConn f q, hop =>
    refine ⟨keeps_keeper fun f' q' hq' => ?_, effectCalm_nil⟩
    replace hq' : ((s.keepers j).conns_.insert f q).find f' = some q' := hq'
    rw [OrdMap.find_insert] at hq'
    split at hq'
    · obtain rfl : q = q' := Option.some.inj hq'
      obtain rfl : q = p := hop
      exact Or.inr (hins f q rfl)
    · exact Or.inl hq'
  | .eraseConn q, _ =>
    exact ⟨keeps_keeper fun f q' hq' => hsame f q' (OrdMap.find_eraseValue_of_some hq'),
      effectCalm_nil⟩
  | .setHubConn c, _ => exact ⟨keeps_keeper hsame, effectCalm_nil⟩

theorem exec (h : AnswerFirst t) {p : Nat} (hs : t.exec p = some t') : AnswerFirst t' := by
  unfold Threads.exec at hs
  split at hs
  · rename_i e he
    obtain ⟨j, hj, hs⟩ := Option.bind_eq_some_iff.mp hs
    obtain ⟨op, rest, htodo, hsys, htodo', -, hanswers⟩ := Threads.execAt_cases hs
    have hmem : op ∈ t.todo p := by rw [htodo]; exact List.mem_cons_self
    have hrest : ∀ o ∈ rest, o ∈ t.todo p := by
      rw [htodo]
      exact fun o ho => List.mem_cons_of_mem _ ho
    -- once the next operation is not the answer, the end is primed
    have hprimed : ∀ o ∈ t.todo p, ∀ f q, o.val = .insertConn f q →
        (∀ a, op.val ≠ .effect (.send p (.keeperAnswer a))) → PrimedEnd t.sys p := by
      intro o ho f q heq hne
      refine (h.inserts p o ho f q heq).resolve_right ?_
      rintro ⟨c, a, rest', hcons⟩
      rw [htodo] at hcons
      exact hne a (by rw [(List.cons.inj hcons).1])
    obtain ⟨hk, hlater⟩ := keeps_exec h.calm (j := j) (h.ops p op hmem)
      (fun f q heq => hprimed op hmem f q heq (by rw [heq]; exact nofun)) op.cause
    rw [← hsys] at hk
    refine h.retodo hk htodo' hanswers ?_ ?_
    · intro o ho
      rcases List.mem_append.mp ho with ho | ho
      · obtain ⟨x, hx, rfl⟩ := List.mem_map.mp ho
        exact (hlater x hx).mono hk.primed
      · exact (h.ops p o (hrest o ho)).mono hk.primed
    · intro o ho f q heq
      refine Or.inl ?_
      rcases List.mem_append.mp ho with ho | ho
      · obtain ⟨x, hx, rfl⟩ := List.mem_map.mp ho
        cases heq
      · by_cases hans : ∃ a, op.val = .effect (.send p (.keeperAnswer a))
        · -- the answer has just been sent
          obtain ⟨a, hans⟩ := hans
          have hlabel := Links.label_of_getElem? he
          obtain ⟨x, hx⟩ := h.calm.paired.peer p _ _ hlabel
          rw [hsys, hans, KeeperServer.exec]
          dsimp only
          rw [System.withKeeper_self]
          exact Links.primed_send rfl hlabel hx
        · exact hk.primed p (hprimed o (hrest o ho) f q heq fun a ha => hans ⟨a, ha⟩)
  · cases hs

theorem restartKeeper (h : AnswerFirst t) (j : Fin nk) : AnswerFirst (t.restartKeeper j) := by
  have hk : Keeps t.sys (t.restartKeeper j).sys := by
    refine (keeps_closeAll (fun _ _ => id) fun _ => id).trans (keeps_keeper ?_)
    intro f p hp
    replace hp : (OrdMap.empty : OrdMap UInt16 Nat).find f = some p := hp
    rw [OrdMap.find_empty] at hp
    cases hp
  refine ⟨hk.calm h.calm, ?_, ?_, h.answers⟩
  · intro p op hop
    rcases t.todo_restartKeeper j p with heq | heq
    · rw [heq] at hop
      cases hop
    · rw [heq] at hop
      exact (h.ops p op hop).mono hk.primed
  · intro p op hop f q hval
    rcases t.todo_restartKeeper j p with heq | heq
    · rw [heq] at hop
      cases hop
    · rw [heq] at hop ⊢
      exact (h.inserts p op hop f q hval).imp_left (hk.primed p)

theorem restartForward (h : AnswerFirst t) (i : Fin nf) : AnswerFirst (t.restartForward i) := by
  have hcreated : ∀ i', (Function.update t.sys.forwards i .empty i').forwardServer_.isSome = true →
      i' ≠ i ∧ (t.sys.forwards i').forwardServer_.isSome = true := by
    intro i' hi'
    by_cases hii : i' = i
    · rw [hii, Function.update_self] at hi'
      cases hi'
    · rw [Function.update_of_ne hii] at hi'
      exact ⟨hii, hi'⟩
  have hk : Keeps t.sys (t.restartForward i).sys := by
    refine keeps_closeAll ?_ fun i' hi' => (hcreated i' hi').2
    intro x hx hready
    unfold ready at hready ⊢
    split
    · rename_i i' hrole
      rw [hrole] at hready
      have hii : i' ≠ i := by
        rintro rfl
        simp [isForward, hrole] at hx
      rw [Function.update_of_ne hii]
      exact hready
    · rfl
  refine ⟨hk.calm h.calm, fun p op hop => (h.ops p op hop).mono hk.primed,
    fun p op hop f q heq => (h.inserts p op hop f q heq).imp_left (hk.primed p), ?_⟩
  intro i' hi'
  obtain ⟨hii, hsome⟩ := hcreated i' hi'
  simp only [Threads.restartForward, Function.update_of_ne hii]
  exact h.answers i' hsome

theorem step (h : AnswerFirst t) {a : ThreadAction nk nf} (hs : t.step a = some t') :
    AnswerFirst t' := by
  obtain ⟨p, rand, -, hd⟩ | ⟨p, -, hd⟩ | ⟨j, -, hc⟩ | ⟨b, s', hb, hs', rfl⟩ | ⟨p, -, he⟩ |
    ⟨j, rfl⟩ | ⟨i, rfl⟩ := Threads.step_cases hs
  · exact h.deliver hd
  · exact h.down hd
  · exact h.keeperConnectHub hc
  · exact h.resys (keeps_step h.calm hb hs') rfl rfl
  · exact h.exec he
  · exact h.restartKeeper j
  · exact h.restartForward i

end AnswerFirst

theorem answerFirst_init {logon : LogonServer} {keepers : Fin nk → KeeperServer}
    (h : Fresh logon keepers) :
    AnswerFirst (Threads.ofSystem (System.init logon keepers) : Threads nk nf) := by
  refine ⟨⟨⟨?_, ?_⟩, ?_, ?_, ?_⟩, ?_, ?_, ?_⟩
  · intro p i q hp
    cases hp
  · intro p i q hp
    cases hp
  · intro p e he
    cases he
  · intro j f p hp
    replace hp : (keepers j).conns_.find f = some p := hp
    rw [(h.keepers j).2.1, OrdMap.find_empty] at hp
    cases hp
  · intro cause hm
    cases hm
  · intro p op hop
    cases hop
  · intro p op hop
    cases hop
  · intro i hi
    cases hi

/-- The next message for the end `p` is a session for the forward server `i`. -/
def sessionNext (s : System nk nf) (p : Nat) (i : Fin nf) : Bool :=
  match s.links.receive p with
  | some (e, m, _) => e.info.role = .forwardKeeper i && isSession m.val
  | none => false

theorem not_isAnswer_of_isSession {m : Message} (h : isSession m = true) : isAnswer m = false := by
  match m, h with
  | .keeperForwardLogonSession x, _ => rfl

/-- **`assert(forwardServer_)` never fails**: in every run, with the callbacks of the keepers
    interleaved in any way, connections that go down and come again, and processes that start again,
    a forward process that is about to process a session has processed an answer before. -/
theorem session_after_answer {logon : LogonServer} {keepers : Fin nk → KeeperServer}
    (h₀ : Fresh logon keepers) {t : Threads nk nf}
    (h : Reaches Threads.step Threads.Free (Threads.ofSystem (System.init logon keepers)) t) :
    (∀ cause, .call ⟨cause, .assertFailed⟩ ∉ t.sys.log) ∧
      ∀ p i, sessionNext t.sys p i = true → 0 < t.answers i := by
  have hinv : AnswerFirst t :=
    h.invariant (answerFirst_init h₀) fun _ _ _ hi _ hs => hi.step hs
  refine ⟨hinv.calm.log, ?_⟩
  intro p i hnext
  unfold sessionNext at hnext
  split at hnext
  · rename_i e m l hr
    obtain ⟨hrole, hm⟩ := Bool.and_eq_true_iff.mp hnext
    have hno : isAnswer m.val = true → ready t.sys.forwards e.info = true := by
      rw [not_isAnswer_of_isSession hm]
      exact nofun
    have hready := (hinv.calm.order.receive hr (fun _ => id) hno).2 hm
    rw [ready_forward (of_decide_eq_true hrole)] at hready
    exact hinv.answers i hready
  · cases hnext

/-- The forward server of luaconfig is started and answered, and then a client logs on. -/
theorem session_after_answer_lua :
    ∃ t : Threads 1 1, sessionNext t.sys 4 0 = true ∧
      (∀ cause, .call ⟨cause, .assertFailed⟩ ∉ t.sys.log) ∧ 0 < t.answers 0 := by
  obtain ⟨t, ht, hnext⟩ : ∃ t : Threads 1 1,
      Reaches Threads.step Threads.Free (Threads.ofSystem (luaInit 1)) t ∧
        sessionNext t.sys 4 0 = true :=
    exists_reaches [.act .logonConnectHub, .act (.deliver 1 0), .act (.keeperConnectHub 0),
      .exec 2, .exec 2, .act (.deliver 3 0), .act (.forwardConnectKeeper 0 0 "127.0.0.1"),
      .act (.deliver 5 0), .exec 5, .exec 5, .exec 5, .exec 5, .exec 5, .act (.deliver 3 0),
      .act (.deliver 4 0), .act .clientConnect, .act (.clientSend 6 (.logon luaLogonMessage)),
      .act (.deliver 7 0), .act (.runTask 0 (.stored 1 true)), .act (.deliver 1 0),
      .act (.deliver 2 0), .exec 2, .exec 2] (by decide +kernel)
  obtain ⟨hlog, hanswers⟩ := session_after_answer fresh_lua ht
  exact ⟨t, hnext, hlog, hanswers 4 0 hnext⟩

end Mmvx.Cluster
