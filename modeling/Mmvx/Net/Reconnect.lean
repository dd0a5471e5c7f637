/-
  What a `TcpClient` does when an attempt fails or its connection is lost.

  With `enableRetry()` there is at any time an attempt, a start that is still to come or a connection,
  unless `connect(2)` fails for good (`client_keeps_trying`). Without it, or after `disconnect()`, the
  connector stays `kConnected` when the connection is lost: the client does nothing any more, and the
  next `connect()` enters `startInLoop` against its assertion, at once or from the loop's queue
  (`client_stranded`).
-/
import Mmvx.Net.TcpClient

namespace Mmvx.Net

open Mmvx.Lib

/-- `connect()` goes on, now or after a while. -/
def ConnectErrno.temporary : ConnectErrno → Bool
  | .none | .EINPROGRESS | .EINTR | .EISCONN => true
  | .EAGAIN | .EADDRINUSE | .EADDRNOTAVAIL | .ECONNREFUSED | .ENETUNREACH => true
  | _ => false

/-- What `connect(2)` says in a step. -/
def ClientAction.savedErrno : ClientAction → Option ConnectErrno
  | .handleEvent savedErrno _ _ _ _ _ => some savedErrno
  | .functor savedErrno => some savedErrno
  | .connect _ savedErrno => some savedErrno
  | _ => none

namespace Connector

variable {c c' : Connector}

/-- There is an attempt, or one is to come. -/
def Trying (c : Connector) : Prop := c.state_ = .kConnecting ∨ 0 < c.starts

theorem trying_retry (h : c.connect_ = true) (sockfd : Nat) : (c.retry sockfd).Trying := by
  refine .inr ?_
  unfold retry starts
  dsimp only
  rw [if_pos h]
  show 0 < _ + (c.timers + 1)
  omega

theorem connect_retry (c : Connector) (sockfd : Nat) : (c.retry sockfd).connect_ = c.connect_ := by
  obtain ⟨n, ms, -, heq⟩ := c.retry_eq sockfd
  rw [heq]

theorem connect_startInLoop (c : Connector) (savedErrno : ConnectErrno) :
    (c.startInLoop savedErrno).connect_ = c.connect_ := by
  unfold startInLoop
  dsimp only
  split
  · rcases c.assertDisconnected.connect_cases savedErrno with heq | heq | heq
    · rw [heq]
      rfl
    · rw [heq, connect_retry]
      rfl
    · rw [heq]
      rfl
  · rfl

theorem trying_startInLoop (h : c.connect_ = true) {savedErrno : ConnectErrno}
    (htemporary : savedErrno.temporary = true) : (c.startInLoop savedErrno).Trying := by
  have hconnect : c.assertDisconnected.connect_ = true := h
  unfold startInLoop
  dsimp only
  rw [if_pos hconnect]
  cases savedErrno with
  | none | EINPROGRESS | EINTR | EISCONN => exact .inl rfl
  | EAGAIN | EADDRINUSE | EADDRNOTAVAIL | ECONNREFUSED | ENETUNREACH =>
    exact trying_retry (c := c.assertDisconnected.createSocket) h c.nextFd
  | _ => cases htemporary

/-- An attempt is given up only for another one. -/
theorem connect_remove {p : Nat × Connector} (hp : c.removeAndResetChannel = some p) :
    p.2.connect_ = c.connect_ := by
  unfold removeAndResetChannel at hp
  split at hp
  · obtain rfl := Option.some.inj hp
    rfl
  · cases hp

theorem trying_stopInLoop (h : c.stopInLoop = some c') :
    c'.connect_ = c.connect_ ∧ (c.connect_ = true → c.Trying → c'.Trying) := by
  unfold stopInLoop at h
  split at h
  · obtain ⟨p, hp, rfl⟩ := Option.map_eq_some_iff.mp h
    have hconnect : p.2.connect_ = c.connect_ := (connect_remove hp).trans rfl
    exact ⟨(connect_retry _ _).trans hconnect, fun htrue _ => trying_retry (hconnect.trans htrue) _⟩
  · obtain rfl := Option.some.inj h
    exact ⟨rfl, fun _ htrying => htrying⟩

theorem trying_handleError (h : c.handleError = some c') :
    c'.connect_ = c.connect_ ∧ (c.connect_ = true → c.Trying → c'.Trying) := by
  unfold handleError at h
  split at h
  · obtain ⟨p, hp, rfl⟩ := Option.map_eq_some_iff.mp h
    have hconnect := connect_remove hp
    exact ⟨(connect_retry _ _).trans hconnect, fun htrue _ => trying_retry (hconnect.trans htrue) _⟩
  · obtain rfl := Option.some.inj h
    exact ⟨rfl, fun _ htrying => htrying⟩

/-- An attempt ends with a connection or goes on. -/
theorem trying_handleWrite {err : Int} {selfConnect : Bool}
    (h : c.handleWrite err selfConnect = some c') :
    c'.connect_ = c.connect_ ∧
      (c.connect_ = true → c.Trying → c'.Trying ∨ c.delivered < c'.delivered) := by
  unfold handleWrite at h
  split at h
  · rename_i hstate
    obtain ⟨p, hp, rfl⟩ := Option.map_eq_some_iff.mp h
    have hconnect := connect_remove hp
    obtain ⟨-, hdelivered⟩ := queues_remove hp hstate rfl rfl
    have hretry : (p.2.retry p.1).connect_ = c.connect_ := (connect_retry _ _).trans hconnect
    dsimp only
    split
    · exact ⟨hretry, fun htrue _ => .inl (trying_retry (hconnect.trans htrue) _)⟩
    split
    · exact ⟨hretry, fun htrue _ => .inl (trying_retry (hconnect.trans htrue) _)⟩
    split
    · refine ⟨hconnect, fun _ _ => .inr ?_⟩
      show c.delivered < p.2.delivered + 1
      omega
    · rename_i hfalse
      refine ⟨hconnect, fun htrue => ?_⟩
      exact absurd (hconnect.trans htrue) hfalse
  · obtain rfl := Option.some.inj h
    exact ⟨rfl, fun _ htrying => .inl htrying⟩

theorem trying_handleEvent {error writable : Bool} {err : Int} {selfConnect : Bool}
    (h : c.handleEvent error writable err selfConnect = some c') :
    c'.connect_ = c.connect_ ∧
      (c.connect_ = true → c.Trying → c'.Trying ∨ c.delivered < c'.delivered) := by
  unfold handleEvent at h
  obtain ⟨c₁, hc₁, hwrite⟩ := Option.bind_eq_some_iff.mp h
  obtain ⟨hconnect, htrying, hdelivered⟩ : c₁.connect_ = c.connect_ ∧
      (c.connect_ = true → c.Trying → c₁.Trying) ∧ c₁.delivered = c.delivered := by
    split at hc₁
    · obtain ⟨hconnect, htrying⟩ := trying_handleError hc₁
      exact ⟨hconnect, htrying, (queues_handleError hc₁).2.1⟩
    · obtain rfl := Option.some.inj hc₁
      exact ⟨rfl, fun _ h => h, rfl⟩
  split at hwrite
  · obtain ⟨hconnect', htrying'⟩ := trying_handleWrite hwrite
    refine ⟨hconnect'.trans hconnect, fun htrue h => ?_⟩
    rw [← hdelivered]
    exact htrying' (hconnect.trans htrue) (htrying htrue h)
  · obtain rfl := Option.some.inj hwrite
    exact ⟨hconnect, fun htrue h => .inl (htrying htrue h)⟩

end Connector

namespace TcpClient

variable {s s' : TcpClient}

/-- The client has a connection, or its connector is busy. -/
def Busy (s : TcpClient) : Prop := s.connector_.Trying ∨ s.up ≠ []

/-- Besides `Careful`: `connect(2)` does not fail for good, and `enableRetry()` comes before the first
    `connect()`. -/
def Trusting (s : TcpClient) (a : ClientAction) : Prop :=
  s.Careful a ∧ (∀ e ∈ a.savedErrno, e.temporary = true) ∧
    (a = .enableRetry → s.connector_.connect_ = false)

instance (s : TcpClient) (a : ClientAction) : Decidable (s.Trusting a) :=
  inferInstanceAs (Decidable (_ ∧ _ ∧ (_ → _)))

/-- While nobody has stopped it, the client is busy. -/
def KeepsTrying (s : TcpClient) : Prop :=
  s.retry_ = true → s.connect_ = true → s.connector_.connect_ = true → s.Busy

/-- A function of the connector. -/
theorem KeepsTrying.withConnector (h : s.KeepsTrying) {c : Connector}
    (hconnect : c.connect_ = s.connector_.connect_)
    (htrying : c.connect_ = true → s.connector_.Trying → c.Trying) :
    (s.withConnector c).KeepsTrying := by
  intro hretry hclient hconn
  rcases h hretry hclient (hconnect.symm.trans hconn) with hbusy | hup
  · exact .inl (htrying hconn hbusy)
  · exact .inr hup

/-- The connector has just been started. -/
theorem keepsTrying_start {c : Connector} (h : c.connect_ = true → c.Trying) :
    (s.withConnector c).KeepsTrying :=
  fun _ _ hconn => .inl (h hconn)

theorem keepsTrying_handleClose {conn : Nat} {savedErrno : ConnectErrno}
    (htemporary : savedErrno.temporary = true) : (s.handleClose conn savedErrno).KeepsTrying := by
  unfold handleClose removeConnection
  dsimp only
  split
  · refine keepsTrying_start fun _ => ?_
    exact Connector.trying_startInLoop rfl htemporary
  · rename_i hnot
    intro hretry hclient
    refine absurd ?_ hnot
    have hretry' : s.retry_ = true := hretry
    have hclient' : s.connect_ = true := hclient
    show (s.retry_ && s.connect_) = true
    rw [hretry', hclient']
    rfl

theorem KeepsTrying.handle (h : s.KeepsTrying) {ch : ClientChannel} {savedErrno : ConnectErrno}
    (htemporary : savedErrno.temporary = true) {error writable : Bool} {err : Int}
    {selfConnect closed : Bool}
    (hs : s.handle savedErrno error writable err selfConnect closed ch = some s') :
    s'.KeepsTrying := by
  cases ch with
  | timer =>
    obtain ⟨c, hc, rfl⟩ := Option.map_eq_some_iff.mp hs
    dsimp only [Connector.step] at hc
    split at hc
    · obtain rfl := Option.some.inj hc
      refine keepsTrying_start fun hconn => Connector.trying_startInLoop ?_ htemporary
      rwa [Connector.connect_startInLoop] at hconn
    · cases hc
  | connector =>
    obtain ⟨c, hc, rfl⟩ := Option.map_eq_some_iff.mp hs
    dsimp only [Connector.step] at hc
    split at hc
    · obtain ⟨hconnect, htrying⟩ := Connector.trying_handleEvent hc
      split
      · intro _ _ _
        refine .inr ?_
        show s.up ++ [s.nextConnId_] ≠ []
        simp
      · rename_i hsame
        refine h.withConnector hconnect fun hconn htry => ?_
        exact (htrying (hconnect.symm.trans hconn) htry).resolve_right hsame
    · cases hc
  | connection conn =>
    obtain rfl := Option.some.inj hs
    split
    · exact keepsTrying_handleClose htemporary
    · exact h

/-- The connector's next functor is taken out of its queue. -/
theorem trying_tail {c : Connector} {f : ConnectorFunctor} {fs : List ConnectorFunctor}
    (hfs : c.pendingFunctors_ = f :: fs) (hf : f ≠ .startInLoop) (h : c.Trying) :
    Connector.Trying { c with pendingFunctors_ := fs } := by
  rcases h with hstate | hstarts
  · exact .inl hstate
  · refine .inr ?_
    unfold Connector.starts at hstarts ⊢
    rw [hfs, List.count_cons_of_ne hf] at hstarts
    exact hstarts

theorem KeepsTrying.functor (h : s.KeepsTrying) (htied : s.Tied) {f : ClientFunctor}
    {fs : List ClientFunctor} {n : Nat} (hfs : s.pendingFunctors_ = f :: fs)
    {savedErrno : ConnectErrno} (htemporary : savedErrno.temporary = true)
    (hs : { s with phase := .calling n, pendingFunctors_ := fs }.doFunctor savedErrno f = some s') :
    s'.KeepsTrying := by
  cases f with
  | connector g =>
    have hqueue := htied.queue
    rw [hfs, List.filterMap_cons_some (show connectorPart (.connector g) = some g from rfl)] at hqueue
    obtain ⟨c, hc, rfl⟩ := Option.map_eq_some_iff.mp hs
    dsimp only at hc ⊢
    rw [← hqueue, List.tail_cons] at hc ⊢
    have htail (hg : g ≠ .startInLoop) : KeepsTrying { s with
        phase := .calling n
        pendingFunctors_ := fs
        connector_ := { s.connector_ with pendingFunctors_ := fs.filterMap connectorPart } } := by
      intro hretry hclient hconn
      rcases h hretry hclient hconn with hbusy | hup
      · exact .inl (trying_tail hqueue.symm hg hbusy)
      · exact .inr hup
    cases g with
    | startInLoop =>
      obtain rfl := Option.some.inj hc
      refine keepsTrying_start fun hconn => Connector.trying_startInLoop ?_ htemporary
      rwa [Connector.connect_startInLoop] at hconn
    | stopInLoop =>
      obtain ⟨hconnect, htrying⟩ := Connector.trying_stopInLoop hc
      refine (htail (by simp)).withConnector hconnect fun hconn => ?_
      exact htrying (hconnect.symm.trans hconn)
    | resetChannel =>
      obtain rfl := Option.some.inj hc
      exact (htail (by simp)).withConnector rfl fun _ htry => htry
  | forceCloseInLoop conn =>
    obtain rfl := Option.some.inj hs
    split
    · exact keepsTrying_handleClose htemporary
    · exact h
  | connectDestroyed conn =>
    obtain rfl := Option.some.inj hs
    exact h

theorem KeepsTrying.step (h : s.KeepsTrying) (htied : s.Tied) {a : ClientAction}
    (htrusting : s.Trusting a) (hs : s.step a = some s') : s'.KeepsTrying := by
  obtain ⟨-, htemporary, hfirst⟩ := htrusting
  cases a with
  | poll activeChannels_ =>
    dsimp only [TcpClient.step] at hs
    split at hs
    · obtain rfl := Option.some.inj hs
      exact h
    · cases hs
  | handleEvent savedErrno error writable err selfConnect closed =>
    dsimp only [TcpClient.step] at hs
    split at hs
    · rename_i ch rest _
      have hrest : KeepsTrying { s with phase := .handling rest } := h
      split at hs
      · exact hrest.handle (htemporary _ rfl) hs
      · obtain rfl := Option.some.inj hs
        exact hrest
    · cases hs
  | doPendingFunctors =>
    dsimp only [TcpClient.step] at hs
    split at hs
    · obtain rfl := Option.some.inj hs
      exact h
    · cases hs
  | functor savedErrno =>
    dsimp only [TcpClient.step] at hs
    split at hs
    · rename_i n f fs hphase hfs
      exact h.functor htied hfs (htemporary _ rfl) hs
    · cases hs
  | connect inLoop savedErrno =>
    obtain rfl := Option.some.inj hs
    refine keepsTrying_start fun _ => ?_
    unfold Connector.start
    dsimp only
    split
    · exact Connector.trying_startInLoop rfl (htemporary _ rfl)
    · refine .inr ?_
      unfold Connector.starts
      rw [Connector.count_queueInLoop]
      exact Nat.lt_of_lt_of_le (Nat.succ_pos _) (Nat.le_add_right _ _)
  | disconnect =>
    obtain rfl := Option.some.inj hs
    intro _ hclient
    cases hclient
  | stop =>
    obtain rfl := Option.some.inj hs
    intro _ hclient
    cases hclient
  | enableRetry =>
    obtain rfl := Option.some.inj hs
    intro _ _ hconn
    rw [show s.connector_.connect_ = false from hfirst rfl] at hconn
    cases hconn
  | forceClose conn =>
    dsimp only [TcpClient.step] at hs
    split at hs
    · obtain rfl := Option.some.inj hs
      exact h
    · obtain rfl := Option.some.inj hs
      exact h

/-- **The client does not give up.** In every run in which `enableRetry()` came first and `connect(2)`
    does not fail for good: from `connect()` until `disconnect()` or `stop()` the client has a
    connection, an attempt is under way, or the next one is in the loop's queues. -/
theorem client_keeps_trying (h : Reaches step Trusting init s) (hretry : s.retry_ = true)
    (hclient : s.connect_ = true) (hconnector : s.connector_.connect_ = true) :
    s.connector_.state_ = .kConnecting ∨ 0 < s.connector_.starts ∨ s.up ≠ [] := by
  have hkeeps : s.Tied ∧ s.KeepsTrying := by
    refine h.invariant (P := fun s => s.Tied ∧ s.KeepsTrying) ⟨tied_init, ?_⟩ ?_
    · intro _ _ hconn
      cases hconn
    · rintro s a s' ⟨htied, htrying⟩ hc hstep
      exact ⟨htied.step hc.1 hstep, htrying.step htied hc hstep⟩
  rcases hkeeps.2 hretry hclient hconnector with hbusy | hup
  · exact hbusy.imp_right .inl
  · exact .inr (.inr hup)

/-- The server refuses the first attempt, and closes the connection of the second one. -/
theorem client_keeps_trying_refused :
    ∃ s, Reaches step Trusting init s ∧ s.callbacks = [(1, true), (1, false)] ∧
      (s.connector_.state_ = .kConnecting ∨ 0 < s.connector_.starts ∨ s.up ≠ []) := by
  obtain ⟨s, hs, hcallbacks, hretry, hclient, hconnector⟩ : ∃ s, Reaches step Trusting init s ∧
      s.callbacks = [(1, true), (1, false)] ∧ s.retry_ = true ∧ s.connect_ = true ∧
        s.connector_.connect_ = true :=
    exists_reaches [.enableRetry, .connect true .ECONNREFUSED, .poll [.timer],
      .handleEvent .EINPROGRESS false false 0 false false, .doPendingFunctors, .poll [.connector],
      .handleEvent .none false true 0 false false, .doPendingFunctors, .functor .none,
      .poll [.connection 1], .handleEvent .ENETUNREACH false false 0 false true] (by decide)
  exact ⟨s, hs, hcallbacks, client_keeps_trying hs hretry hclient hconnector⟩

/-! ## Without a retry -/

/-- The connection is gone, and the connector does not know it. -/
structure Stranded (s : TcpClient) : Prop where
  up : s.up = []
  state : s.connector_.state_ = .kConnected
  timers : s.connector_.timers = 0
  connecting : s.connecting = false

theorem Tied.silent (h : s.Tied) (hstate : s.connector_.state_ = .kConnected) :
    s.connector_.timers = 0 ∧ s.connecting = false := by
  have hstarts : s.connector_.starts = 0 := by
    by_contra hne
    rw [h.single.ready (Nat.pos_of_ne_zero hne)] at hstate
    cases hstate
  have hne : s.connector_.state_ ≠ .kConnecting := by rw [hstate]; simp
  constructor
  · unfold Connector.starts at hstarts
    omega
  · unfold TcpClient.connecting
    rcases (h.single.resting hne).2 with ⟨hnone, -⟩ | ⟨fd, hsome, -⟩
    · rw [hnone]
    · rw [hsome]

/-- A connection that is lost without a retry leaves the client stranded. -/
theorem Tied.stranded_handleClose (h : s.Tied) {conn : Nat} (hconn : conn ∈ s.up)
    (hretry : (s.retry_ && s.connect_) = false) (savedErrno : ConnectErrno) :
    (s.handleClose conn savedErrno).Stranded := by
  rcases h.up_cases with hup | ⟨other, hup, hstate⟩
  · rw [hup] at hconn
    exact absurd hconn List.not_mem_nil
  rw [hup, List.mem_singleton] at hconn
  subst hconn
  obtain ⟨htimers, hconnecting⟩ := h.silent hstate
  have hnot : ¬ (s.retry_ && s.connect_) = true := by rw [hretry]; simp
  unfold TcpClient.handleClose removeConnection
  dsimp only [TcpClient.queueInLoop]
  rw [if_neg hnot]
  refine ⟨?_, hstate, htimers, hconnecting⟩
  rw [hup, List.erase_cons_head]

theorem Stranded.not_registered (h : s.Stranded) (ch : ClientChannel) : s.registered ch = false := by
  cases ch with
  | timer =>
    unfold registered
    rw [h.timers]
    rfl
  | connector => exact h.connecting
  | connection conn =>
    unfold registered
    rw [h.up]
    rfl

theorem misentered_startInLoop {c : Connector} (hstate : c.state_ ≠ .kDisconnected)
    (savedErrno : ConnectErrno) : (c.startInLoop savedErrno).misentered = true := by
  have hassert : c.assertDisconnected.misentered = true := by
    simp [Connector.assertDisconnected, hstate]
  unfold Connector.startInLoop
  dsimp only
  split
  · rcases c.assertDisconnected.connect_cases savedErrno with heq | heq | heq
    · rw [heq]
      exact hassert
    · obtain ⟨n, ms, -, hretry⟩ :=
        c.assertDisconnected.createSocket.retry_eq c.assertDisconnected.nextFd
      rw [heq, hretry]
      exact hassert
    · rw [heq]
      exact hassert
  · exact hassert

/-- What a step leaves of a client that was stranded: it still is, and a `startInLoop` that was in
    the queue still is there, or `startInLoop` has run against its assertion. -/
structure Stays (s s' : TcpClient) : Prop where
  up : s'.up = []
  callbacks : s'.callbacks = s.callbacks
  stranded : s'.connector_.misentered = true ∨ s'.Stranded ∧
    (.connector .startInLoop ∈ s.pendingFunctors_ → .connector .startInLoop ∈ s'.pendingFunctors_)

/-- The connector has not been called, or has only put something into the loop. -/
theorem Stranded.stays (h : s.Stranded) {fs : List ClientFunctor}
    (hup : s'.up = s.up) (hcallbacks : s'.callbacks = s.callbacks)
    (hstate : s'.connector_.state_ = s.connector_.state_)
    (htimers : s'.connector_.timers = s.connector_.timers)
    (hconnecting : s'.connecting = false)
    (hpending : s'.pendingFunctors_ = s.pendingFunctors_ ++ fs) : s.Stays s' where
  up := hup.trans h.up
  callbacks := hcallbacks
  stranded := by
    refine .inr ⟨⟨hup.trans h.up, hstate.trans h.state, htimers.trans h.timers, hconnecting⟩, ?_⟩
    rw [hpending]
    exact List.mem_append_left _

theorem Stranded.functor (h : s.Stranded) {f : ClientFunctor} {fs : List ClientFunctor} {n : Nat}
    (hfs : s.pendingFunctors_ = f :: fs) {savedErrno : ConnectErrno}
    (hs : { s with phase := .calling n, pendingFunctors_ := fs }.doFunctor savedErrno f = some s') :
    s.Stays s' := by
  have hne : s.connector_.state_ ≠ .kConnecting := by rw [h.state]; simp
  -- another functor leaves the queue from in front of a `startInLoop`
  have htail (hf : f ≠ .connector .startInLoop) (hmem : .connector .startInLoop ∈ s.pendingFunctors_)
      (rest : List ClientFunctor) : .connector .startInLoop ∈ fs ++ rest := by
    rw [hfs] at hmem
    exact List.mem_append_left _ ((List.mem_cons.mp hmem).resolve_left (Ne.symm hf))
  cases f with
  | connector g =>
    obtain ⟨c, hc, rfl⟩ := Option.map_eq_some_iff.mp hs
    refine ⟨h.up, rfl, ?_⟩
    cases g with
    | startInLoop =>
      obtain rfl := Option.some.inj hc
      refine .inl (misentered_startInLoop ?_ savedErrno)
      show s.connector_.state_ ≠ .kDisconnected
      rw [h.state]
      simp
    | stopInLoop =>
      have hsame := (if_neg hne).symm.trans hc
      obtain rfl := Option.some.inj hsame
      exact .inr ⟨⟨h.up, h.state, h.timers, h.connecting⟩, fun hmem => htail (by simp) hmem _⟩
    | resetChannel =>
      obtain rfl := Option.some.inj hc
      exact .inr ⟨⟨h.up, h.state, h.timers, rfl⟩, fun hmem => htail (by simp) hmem _⟩
  | forceCloseInLoop conn =>
    have hnot : conn ∉ s.up := by
      rw [h.up]
      exact List.not_mem_nil
    have hsame := (congrArg some (if_neg hnot)).symm.trans hs
    obtain rfl := Option.some.inj hsame
    refine ⟨h.up, rfl, .inr ⟨⟨h.up, h.state, h.timers, h.connecting⟩, fun hmem => ?_⟩⟩
    simpa using htail (by simp) hmem []
  | connectDestroyed conn =>
    obtain rfl := Option.some.inj hs
    refine ⟨h.up, rfl, .inr ⟨⟨h.up, h.state, h.timers, h.connecting⟩, fun hmem => ?_⟩⟩
    simpa using htail (by simp) hmem []

theorem Stranded.step (h : s.Stranded) {a : ClientAction} (hs : s.step a = some s') :
    s.Stays s' := by
  have hnil : s.pendingFunctors_ = s.pendingFunctors_ ++ [] := (List.append_nil _).symm
  cases a with
  | poll activeChannels_ =>
    dsimp only [TcpClient.step] at hs
    split at hs
    · obtain rfl := Option.some.inj hs
      exact h.stays rfl rfl rfl rfl h.connecting hnil
    · cases hs
  | handleEvent savedErrno error writable err selfConnect closed =>
    dsimp only [TcpClient.step] at hs
    split at hs
    · rename_i ch rest hphase
      have hnot : ¬ registered { s with phase := .handling rest } ch = true := by
        have hfalse := h.not_registered ch
        cases ch <;> exact Bool.eq_false_iff.mp hfalse
      rw [if_neg hnot] at hs
      obtain rfl := Option.some.inj hs
      exact h.stays rfl rfl rfl rfl h.connecting hnil
    · cases hs
  | doPendingFunctors =>
    dsimp only [TcpClient.step] at hs
    split at hs
    · obtain rfl := Option.some.inj hs
      exact h.stays rfl rfl rfl rfl h.connecting hnil
    · cases hs
  | functor savedErrno =>
    dsimp only [TcpClient.step] at hs
    split at hs
    · rename_i n f fs hphase hfs
      exact h.functor hfs hs
    · cases hs
  | connect inLoop savedErrno =>
    obtain rfl := Option.some.inj hs
    cases inLoop with
    | false => exact h.stays rfl rfl rfl rfl h.connecting rfl
    | true =>
      refine ⟨h.up, rfl, .inl ?_⟩
      refine misentered_startInLoop (c := { s.connector_ with connect_ := true }) ?_ savedErrno
      show s.connector_.state_ ≠ .kDisconnected
      rw [h.state]
      simp
  | disconnect | enableRetry =>
    obtain rfl := Option.some.inj hs
    exact h.stays rfl rfl rfl rfl h.connecting hnil
  | stop =>
    obtain rfl := Option.some.inj hs
    exact h.stays rfl rfl rfl rfl h.connecting rfl
  | forceClose conn =>
    dsimp only [TcpClient.step] at hs
    split at hs
    · obtain rfl := Option.some.inj hs
      exact h.stays rfl rfl rfl rfl h.connecting rfl
    · obtain rfl := Option.some.inj hs
      exact h.stays rfl rfl rfl rfl h.connecting hnil

/-- While its steps are careful, a client stays stranded. -/
theorem Stranded.careful (h : s.Stranded) (htied : s.Tied) (h' : Reaches TcpClient.step Careful s s') :
    s'.Stranded ∧ s'.callbacks = s.callbacks := by
  have hall : s'.Tied ∧ s'.Stranded ∧ s'.callbacks = s.callbacks := by
    refine h'.invariant (P := fun s' => s'.Tied ∧ s'.Stranded ∧ s'.callbacks = s.callbacks)
      ⟨htied, h, rfl⟩ ?_
    rintro t a t' ⟨htied, hst, hcallbacks⟩ hc hstep
    have htied' := htied.step hc hstep
    have hstays := hst.step hstep
    have hentered : ¬ t'.connector_.misentered = true := by
      rw [htied'.single.entered]
      simp
    exact ⟨htied', (hstays.stranded.resolve_left hentered).1, hstays.callbacks.trans hcallbacks⟩
  exact hall.2

/-- The assertion of `startInLoop` has not failed. -/
def Intact (s : TcpClient) (_ : ClientAction) : Prop := s.connector_.misentered = false

instance (s : TcpClient) (a : ClientAction) : Decidable (s.Intact a) :=
  inferInstanceAs (Decidable (_ = _))

/-- Whatever is called, a `startInLoop` in the queue of a stranded client remains there until it runs
    against its assertion. -/
theorem Stranded.queued (h : s.Stranded) (hmem : .connector .startInLoop ∈ s.pendingFunctors_)
    (h' : Reaches TcpClient.step Intact s s') :
    s'.up = [] ∧ s'.callbacks = s.callbacks ∧
      (.connector .startInLoop ∈ s'.pendingFunctors_ ∨ s'.connector_.misentered = true) := by
  have hall : s'.up = [] ∧ s'.callbacks = s.callbacks ∧ (s'.connector_.misentered = true ∨
      s'.Stranded ∧ .connector .startInLoop ∈ s'.pendingFunctors_) := by
    refine h'.invariant (P := fun s' => s'.up = [] ∧ s'.callbacks = s.callbacks ∧
      (s'.connector_.misentered = true ∨
        s'.Stranded ∧ .connector .startInLoop ∈ s'.pendingFunctors_)) ⟨h.up, rfl, .inr ⟨h, hmem⟩⟩ ?_
    rintro t a t' ⟨-, hcallbacks, hst⟩ hintact hstep
    have hentered : ¬ t.connector_.misentered = true := by
      rw [show t.connector_.misentered = false from hintact]
      simp
    obtain ⟨hst, hmem⟩ := hst.resolve_left hentered
    have hstays := hst.step hstep
    refine ⟨hstays.up, hstays.callbacks.trans hcallbacks, ?_⟩
    exact hstays.stranded.imp_right fun ⟨hst', hkeeps⟩ => ⟨hst', hkeeps hmem⟩
  obtain ⟨hup, hcallbacks, hst⟩ := hall
  exact ⟨hup, hcallbacks, hst.symm.imp_left And.right⟩

/-- **A client connects once.** When the connection is gone and the client has not connected again,
    nothing that happens by itself changes this. The next `connect()` enters `startInLoop` in the
    state `kConnected`: at once in the loop's thread; called from another thread, it leaves a
    `startInLoop` in the queue that stays there, whatever is called, until it fails. -/
theorem client_stranded (h : Reaches step Careful init s) (hup : s.up = [])
    (hstate : s.connector_.state_ = .kConnected) {s' : TcpClient} (h' : Reaches step Careful s s') :
    s'.up = [] ∧ s'.callbacks = s.callbacks ∧
      (∀ savedErrno s'', s'.step (.connect true savedErrno) = some s'' →
        s''.connector_.misentered = true) ∧
      ∀ savedErrno s'', s'.step (.connect false savedErrno) = some s'' →
        ∀ t, Reaches step Intact s'' t → t.up = [] ∧ t.callbacks = s.callbacks ∧
          (.connector .startInLoop ∈ t.pendingFunctors_ ∨ t.connector_.misentered = true) := by
  have htied := tied_reaches h
  obtain ⟨htimers, hconnecting⟩ := htied.silent hstate
  obtain ⟨hst, hcallbacks⟩ :=
    Stranded.careful ⟨hup, hstate, htimers, hconnecting⟩ htied h'
  refine ⟨hst.up, hcallbacks, ?_, ?_⟩
  · intro savedErrno s'' hs
    obtain rfl := Option.some.inj hs
    refine misentered_startInLoop (c := { s'.connector_ with connect_ := true }) ?_ savedErrno
    show s'.connector_.state_ ≠ .kDisconnected
    rw [hst.state]
    simp
  · intro savedErrno s'' hs t ht
    obtain rfl := Option.some.inj hs
    have hqueue : s'.connector_.Queues (s'.connector_.start false savedErrno) [.startInLoop] :=
      ⟨rfl, by simp⟩
    rw [withConnector_eq (s := { s' with connect_ := true }) hqueue] at ht
    have hst'' : Stranded ({ s' with
        connect_ := true
        connector_ := s'.connector_.start false savedErrno }.queueInLoop [.connector .startInLoop]) :=
      ⟨hst.up, hst.state, hst.timers, hst.connecting⟩
    have hmem : .connector .startInLoop ∈ s'.pendingFunctors_ ++ [.connector .startInLoop] :=
      List.mem_append_right _ List.mem_cons_self
    obtain ⟨hup', hcallbacks', hcases⟩ := hst''.queued hmem ht
    exact ⟨hup', hcallbacks'.trans hcallbacks, hcases⟩

/-- A client that disconnects and connects again, in the loop's thread or from another one. -/
theorem client_stranded_twice :
    ∃ s s'' t, Reaches step Careful init s ∧ s.callbacks = [(1, true), (1, false)] ∧
      s.step (.connect true .EINPROGRESS) = some s'' ∧ s''.connector_.misentered = true ∧
        Reaches step Intact s t ∧ t.callbacks = [(1, true), (1, false)] ∧
          t.connector_.misentered = true := by
  obtain ⟨s, hs, hcallbacks, hup, hstate, hrun⟩ : ∃ s, Reaches step Careful init s ∧
      s.callbacks = [(1, true), (1, false)] ∧ s.up = [] ∧ s.connector_.state_ = .kConnected ∧
        (runFrom step Intact ({ s with connect_ := true }.withConnector
          (s.connector_.start false .EINPROGRESS)) [.poll [], .doPendingFunctors,
            .functor .EINPROGRESS]).any (fun t => decide (t.pendingFunctors_ = [])) = true :=
    exists_reaches [.enableRetry, .connect true .EINPROGRESS, .poll [.connector],
      .handleEvent .none false true 0 false false, .doPendingFunctors, .functor .none, .disconnect,
      .poll [.connection 1], .handleEvent .none false false 0 false true, .doPendingFunctors,
      .functor .none] (by decide)
  obtain ⟨-, -, hnow, hlater⟩ := client_stranded hs hup hstate .refl
  obtain ⟨t, ht, hpending⟩ := exists_reaches _ hrun
  obtain ⟨-, hcallbacks', hcases⟩ := hlater .EINPROGRESS _ rfl t ht
  refine ⟨s, _, t, hs, hcallbacks, rfl, hnow .EINPROGRESS _ rfl, ?_, hcallbacks'.trans hcallbacks, ?_⟩
  · have hfirst : Reaches step Intact s _ :=
      .step (a := .connect false .EINPROGRESS) .refl (tied_reaches hs).single.entered rfl
    exact hfirst.trans ht
  · rw [hpending] at hcases
    exact hcases.resolve_left List.not_mem_nil

end TcpClient

end Mmvx.Net
