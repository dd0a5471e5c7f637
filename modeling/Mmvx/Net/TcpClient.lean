/-
  `TcpClient` (muduo/net/TcpClient.{h,cc}): a `Connector`, and the connection it has delivered.

  An iteration of the loop handles the channels that were active in `poll`, in any order, and then
  calls the functors that are pending by then; what a functor queues is for the next iteration. Calls
  of `connect()`, `disconnect()`, `stop()`, `enableRetry()` and of the connection's `forceClose()` may
  come between any two of these. A connection is here what the client sees of it: it is up until it
  enters `handleClose`, which it does once. `mismatched` records that the assertion of
  `removeConnection` has failed.

  `connect()` checks nothing. As long as it is called when the connector is at rest, and no retry
  timer is due in the iteration in which it is armed (`Careful`), the client keeps to the rules of its
  connector (`Tied`).
-/
import Mmvx.Net.Connector

namespace Mmvx.Net

open Mmvx.Lib

/-- What the client and its parts put into `pendingFunctors_` of the loop. -/
inductive ClientFunctor where
  | connector (f : ConnectorFunctor)
  | forceCloseInLoop (conn : Nat)
  | connectDestroyed (conn : Nat)
  deriving DecidableEq, Repr

inductive ClientChannel where
  | timer
  | connector
  | connection (conn : Nat)
  deriving DecidableEq, Repr

/-- Where the loop is in an iteration. -/
inductive LoopPhase where
  /-- The active channels that are still to be handled. -/
  | handling (activeChannels_ : List ClientChannel)
  /-- The number of functors that are still to be called. -/
  | calling (left : Nat)
  deriving DecidableEq, Repr

structure TcpClient where
  connector_ : Connector
  retry_ : Bool
  connect_ : Bool
  nextConnId_ : Nat
  /-- The number of the connection, which is part of its name. -/
  connection_ : Option Nat
  /-- The connections that have not entered `handleClose`. -/
  up : List Nat
  pendingFunctors_ : List ClientFunctor
  phase : LoopPhase
  /-- What `connected()` was at each call of `connectionCallback_`. -/
  callbacks : List (Nat × Bool)
  mismatched : Bool

inductive ClientAction where
  | poll (activeChannels_ : List ClientChannel)
  /-- The next active channel; what `connect(2)`, the connecting socket and the connection say. -/
  | handleEvent (savedErrno : ConnectErrno) (error writable : Bool) (err : Int)
      (selfConnect closed : Bool)
  | doPendingFunctors
  /-- The next of the functors. -/
  | functor (savedErrno : ConnectErrno)
  | connect (inLoop : Bool) (savedErrno : ConnectErrno)
  | disconnect
  | stop
  | enableRetry
  | forceClose (conn : Nat)
  deriving DecidableEq, Repr

namespace TcpClient

def init : TcpClient where
  connector_ := .init
  retry_ := false
  connect_ := true
  nextConnId_ := 1
  connection_ := none
  up := []
  pendingFunctors_ := []
  phase := .calling 0
  callbacks := []
  mismatched := false

def queueInLoop (s : TcpClient) (fs : List ClientFunctor) : TcpClient :=
  { s with pendingFunctors_ := s.pendingFunctors_ ++ fs }

/-- A function of the connector has left it as `c`. -/
def withConnector (s : TcpClient) (c : Connector) : TcpClient :=
  { s with connector_ := c }.queueInLoop
    ((c.pendingFunctors_.drop s.connector_.pendingFunctors_.length).map .connector)

def newConnection (s : TcpClient) : TcpClient :=
  { s with
    nextConnId_ := s.nextConnId_ + 1
    connection_ := some s.nextConnId_
    up := s.up ++ [s.nextConnId_]
    callbacks := s.callbacks ++ [(s.nextConnId_, true)] }

def removeConnection (s : TcpClient) (conn : Nat) (savedErrno : ConnectErrno) : TcpClient :=
  let s := { s with
    mismatched := s.mismatched || s.connection_ ≠ some conn
    connection_ := none }.queueInLoop [.connectDestroyed conn]
  if s.retry_ && s.connect_ then s.withConnector (s.connector_.restart savedErrno) else s

/-- `TcpConnection::handleClose`. -/
def handleClose (s : TcpClient) (conn : Nat) (savedErrno : ConnectErrno) : TcpClient :=
  { s with
    up := s.up.erase conn
    connector_ := { s.connector_ with delivered := s.connector_.delivered - 1 }
    callbacks := s.callbacks ++ [(conn, false)] }.removeConnection conn savedErrno

/-- The connector's channel is polled. -/
def connecting (s : TcpClient) : Bool :=
  match s.connector_.channel_ with
  | some ch => ch.writing
  | none => false

def registered (s : TcpClient) : ClientChannel → Bool
  | .timer => 0 < s.connector_.timers
  | .connector => s.connecting
  | .connection conn => conn ∈ s.up

/-- A channel that is gone is not called. -/
def handle (s : TcpClient) (savedErrno : ConnectErrno) (error writable : Bool) (err : Int)
    (selfConnect closed : Bool) : ClientChannel → Option TcpClient
  | .timer => (s.connector_.step (.timer savedErrno)).map s.withConnector
  | .connector => (s.connector_.step (.event error writable err selfConnect)).map fun c =>
      if s.connector_.delivered < c.delivered then (s.withConnector c).newConnection
      else s.withConnector c
  | .connection conn => some (if closed then s.handleClose conn savedErrno else s)

def doFunctor (s : TcpClient) (savedErrno : ConnectErrno) : ClientFunctor → Option TcpClient
  | .connector f =>
    let c := { s.connector_ with pendingFunctors_ := s.connector_.pendingFunctors_.tail }
    (c.doFunctor savedErrno f).map ({ s with connector_ := c }.withConnector ·)
  | .forceCloseInLoop conn => some (if conn ∈ s.up then s.handleClose conn savedErrno else s)
  -- the connection has been `kDisconnected` since `handleClose`
  | .connectDestroyed _ => some s

def step (s : TcpClient) : ClientAction → Option TcpClient
  | .poll activeChannels_ =>
    if s.phase = .calling 0 ∧ ∀ ch ∈ activeChannels_, s.registered ch then
      some { s with phase := .handling activeChannels_ }
    else none
  | .handleEvent savedErrno error writable err selfConnect closed =>
    match s.phase with
    | .handling (ch :: rest) =>
      let s := { s with phase := .handling rest }
      if s.registered ch then s.handle savedErrno error writable err selfConnect closed ch
      else some s
    | _ => none
  | .doPendingFunctors =>
    if s.phase = .handling [] then some { s with phase := .calling s.pendingFunctors_.length }
    else none
  | .functor savedErrno =>
    match s.phase, s.pendingFunctors_ with
    | .calling (n + 1), f :: rest =>
      { s with phase := .calling n, pendingFunctors_ := rest }.doFunctor savedErrno f
    | _, _ => none
  | .connect inLoop savedErrno =>
    some ({ s with connect_ := true }.withConnector (s.connector_.start inLoop savedErrno))
  | .disconnect => some { s with connect_ := false }
  | .stop => some ({ s with connect_ := false }.withConnector s.connector_.stop)
  | .enableRetry => some { s with retry_ := true }
  | .forceClose conn =>
    if conn ∈ s.up then some (s.queueInLoop [.forceCloseInLoop conn]) else some s

/-- The channel that is handled next. -/
def next (s : TcpClient) : Option ClientChannel :=
  match s.phase with
  | .handling activeChannels_ => activeChannels_.head?
  | .calling _ => none

/-- `connect()` is called when the connector is at rest, and a timer runs when the channel of the
    attempt before it has been reset. -/
def Careful (s : TcpClient) : ClientAction → Prop
  | .connect inLoop savedErrno => s.connector_.Proper (.start inLoop savedErrno)
  | .handleEvent savedErrno _ _ _ _ _ =>
    s.next = some .timer → s.connector_.Proper (.timer savedErrno)
  | _ => True

instance (s : TcpClient) : (a : ClientAction) → Decidable (s.Careful a)
  | .connect inLoop savedErrno =>
    inferInstanceAs (Decidable (s.connector_.Proper (.start inLoop savedErrno)))
  | .handleEvent savedErrno _ _ _ _ _ =>
    inferInstanceAs (Decidable (s.next = some .timer → s.connector_.Proper (.timer savedErrno)))
  | .poll _ | .doPendingFunctors | .functor _ | .disconnect | .stop | .enableRetry
  | .forceClose _ => .isTrue trivial

end TcpClient

/-! ## What the connector queues -/

namespace Connector

variable {c c' : Connector}

/-- What a function of the connector puts into the loop. -/
structure Queues (c c' : Connector) (fs : List ConnectorFunctor) : Prop where
  pending : c'.pendingFunctors_ = c.pendingFunctors_ ++ fs
  reset : .resetChannel ∈ fs → c.state_ = .kConnecting

theorem queues_of_eq (h : c'.pendingFunctors_ = c.pendingFunctors_) : Queues c c' [] :=
  ⟨h.trans (List.append_nil _).symm, fun hmem => absurd hmem List.not_mem_nil⟩

theorem pendingFunctors_retry (c : Connector) (sockfd : Nat) :
    (c.retry sockfd).pendingFunctors_ = c.pendingFunctors_ ∧
      (c.retry sockfd).delivered = c.delivered := by
  unfold retry
  dsimp only
  split <;> exact ⟨rfl, rfl⟩

theorem pendingFunctors_startInLoop (c : Connector) (savedErrno : ConnectErrno) :
    (c.startInLoop savedErrno).pendingFunctors_ = c.pendingFunctors_ ∧
      (c.startInLoop savedErrno).delivered = c.delivered := by
  unfold startInLoop
  dsimp only
  split
  · rcases c.assertDisconnected.connect_cases savedErrno with heq | heq | heq
    · rw [heq]
      exact ⟨rfl, rfl⟩
    · rw [heq]
      exact pendingFunctors_retry c.assertDisconnected.createSocket c.nextFd
    · rw [heq]
      exact ⟨rfl, rfl⟩
  · exact ⟨rfl, rfl⟩

theorem queues_start (c : Connector) (inLoop : Bool) (savedErrno : ConnectErrno) :
    (∃ fs, Queues c (c.start inLoop savedErrno) fs) ∧
      (c.start inLoop savedErrno).delivered = c.delivered := by
  unfold start
  dsimp only
  split
  · obtain ⟨hpending, hdelivered⟩ :=
      pendingFunctors_startInLoop { c with connect_ := true } savedErrno
    exact ⟨⟨[], queues_of_eq hpending⟩, hdelivered⟩
  · exact ⟨⟨[.startInLoop], rfl, by simp⟩, rfl⟩

/-- The channel of an attempt is removed. -/
theorem queues_remove {c₁ : Connector} {p : Nat × Connector}
    (hp : c₁.removeAndResetChannel = some p) (hstate : c.state_ = .kConnecting)
    (hpending : c₁.pendingFunctors_ = c.pendingFunctors_)
    (hdelivered : c₁.delivered = c.delivered) :
    Queues c p.2 [.resetChannel] ∧ p.2.delivered = c.delivered := by
  unfold removeAndResetChannel at hp
  split at hp
  · obtain rfl := Option.some.inj hp
    have hqueue : c₁.pendingFunctors_ ++ [.resetChannel] =
        c.pendingFunctors_ ++ [.resetChannel] := by rw [hpending]
    exact ⟨⟨hqueue, fun _ => hstate⟩, hdelivered⟩
  · cases hp

/-- An attempt is given up. -/
theorem queues_giveUp {c₁ : Connector} {p : Nat × Connector}
    (hp : c₁.removeAndResetChannel = some p) (hstate : c.state_ = .kConnecting)
    (hpending : c₁.pendingFunctors_ = c.pendingFunctors_)
    (hdelivered : c₁.delivered = c.delivered) :
    Queues c (p.2.retry p.1) [.resetChannel] ∧ (p.2.retry p.1).delivered = c.delivered := by
  obtain ⟨hqueues, hsame⟩ := queues_remove hp hstate hpending hdelivered
  obtain ⟨hr, hd⟩ := pendingFunctors_retry p.2 p.1
  exact ⟨⟨hr.trans hqueues.pending, hqueues.reset⟩, hd.trans hsame⟩

theorem queues_stopInLoop (h : c.stopInLoop = some c') :
    (∃ fs, Queues c c' fs) ∧ c'.delivered = c.delivered := by
  unfold stopInLoop at h
  split at h
  · rename_i hstate
    obtain ⟨p, hp, rfl⟩ := Option.map_eq_some_iff.mp h
    obtain ⟨hqueues, hdelivered⟩ := queues_giveUp hp hstate rfl rfl
    exact ⟨⟨_, hqueues⟩, hdelivered⟩
  · obtain rfl := Option.some.inj h
    exact ⟨⟨[], queues_of_eq rfl⟩, rfl⟩

theorem state_retry (c : Connector) (sockfd : Nat) :
    (c.retry sockfd).state_ = .kDisconnected := by
  obtain ⟨n, ms, -, heq⟩ := c.retry_eq sockfd
  rw [heq]

/-- After `handleError` there is no attempt. -/
theorem queues_handleError (h : c.handleError = some c') :
    (∃ fs, Queues c c' fs) ∧ c'.delivered = c.delivered ∧ c'.state_ ≠ .kConnecting := by
  unfold handleError at h
  split at h
  · rename_i hstate
    obtain ⟨p, hp, rfl⟩ := Option.map_eq_some_iff.mp h
    obtain ⟨hqueues, hdelivered⟩ := queues_giveUp hp hstate rfl rfl
    refine ⟨⟨_, hqueues⟩, hdelivered, ?_⟩
    rw [state_retry]
    simp
  · rename_i hstate
    obtain rfl := Option.some.inj h
    exact ⟨⟨[], queues_of_eq rfl⟩, rfl, hstate⟩

theorem queues_handleWrite {err : Int} {selfConnect : Bool}
    (h : c.handleWrite err selfConnect = some c') :
    (∃ fs, Queues c c' fs) ∧ (c'.delivered = c.delivered ∨
      c.state_ = .kConnecting ∧ c'.delivered = c.delivered + 1) := by
  unfold handleWrite at h
  split at h
  · rename_i hstate
    obtain ⟨p, hp, rfl⟩ := Option.map_eq_some_iff.mp h
    obtain ⟨hretry, hsame⟩ := queues_giveUp hp hstate rfl rfl
    obtain ⟨hqueues, hdelivered⟩ := queues_remove hp hstate rfl rfl
    dsimp only
    split
    · exact ⟨⟨_, hretry⟩, .inl hsame⟩
    split
    · exact ⟨⟨_, hretry⟩, .inl hsame⟩
    split
    · exact ⟨⟨_, hqueues.pending, hqueues.reset⟩, .inr ⟨hstate, congrArg (· + 1) hdelivered⟩⟩
    · exact ⟨⟨_, hqueues.pending, hqueues.reset⟩, .inl hdelivered⟩
  · obtain rfl := Option.some.inj h
    exact ⟨⟨[], queues_of_eq rfl⟩, .inl rfl⟩

theorem queues_handleEvent {error writable : Bool} {err : Int} {selfConnect : Bool}
    (h : c.handleEvent error writable err selfConnect = some c') :
    (∃ fs, Queues c c' fs) ∧ (c'.delivered = c.delivered ∨
      c.state_ = .kConnecting ∧ c'.delivered = c.delivered + 1) := by
  unfold handleEvent at h
  obtain ⟨c₁, hc₁, hwrite⟩ := Option.bind_eq_some_iff.mp h
  by_cases herror : error = true
  · rw [if_pos herror] at hc₁
    obtain ⟨hqueues, hdelivered, hstate⟩ := queues_handleError hc₁
    have hsame : c₁ = c' := by
      split at hwrite
      · rw [handleWrite, if_neg hstate] at hwrite
        exact Option.some.inj hwrite
      · exact Option.some.inj hwrite
    exact hsame ▸ ⟨hqueues, .inl hdelivered⟩
  · rw [if_neg herror] at hc₁
    obtain rfl := Option.some.inj hc₁
    split at hwrite
    · exact queues_handleWrite hwrite
    · obtain rfl := Option.some.inj hwrite
      exact ⟨⟨[], queues_of_eq rfl⟩, .inl rfl⟩

theorem queues_doFunctor {savedErrno : ConnectErrno} {f : ConnectorFunctor}
    (h : c.doFunctor savedErrno f = some c') :
    (∃ fs, Queues c c' fs) ∧ c'.delivered = c.delivered := by
  cases f with
  | startInLoop =>
    obtain rfl := Option.some.inj h
    obtain ⟨hpending, hdelivered⟩ := pendingFunctors_startInLoop c savedErrno
    exact ⟨⟨[], queues_of_eq hpending⟩, hdelivered⟩
  | stopInLoop => exact queues_stopInLoop h
  | resetChannel =>
    obtain rfl := Option.some.inj h
    exact ⟨⟨[], queues_of_eq rfl⟩, rfl⟩

end Connector

/-! ## The client and its connector -/

namespace TcpClient

def connectorPart : ClientFunctor → Option ConnectorFunctor
  | .connector f => some f
  | _ => none

/-- A connection that is up finds no channel of its attempt: its own channel is handled, and its
    `forceCloseInLoop` called, after `resetChannel`. -/
def Past (s : TcpClient) : Prop :=
  match s.phase with
  | .calling n => .connector .resetChannel ∉ s.pendingFunctors_.drop n
  | .handling activeChannels_ => (∃ conn ∈ s.up, .connection conn ∈ activeChannels_) →
      .connector .resetChannel ∉ s.pendingFunctors_

/-- The numbers of connections that the loop still knows of. -/
def Known (s : TcpClient) (conn : Nat) : Prop :=
  conn ∈ s.up ∨ .forceCloseInLoop conn ∈ s.pendingFunctors_ ∨
    ∃ activeChannels_, s.phase = .handling activeChannels_ ∧ .connection conn ∈ activeChannels_

/-- `UP` and `DOWN` of the first `n` connections. -/
def reports (n : Nat) : List (Nat × Bool) :=
  (List.range n).flatMap fun k => [(k + 1, true), (k + 1, false)]

/-- The client and the loop agree about the connector's functors and connections. -/
structure Linked (s : TcpClient) : Prop where
  queue : s.pendingFunctors_.filterMap connectorPart = s.connector_.pendingFunctors_
  delivered : s.connector_.delivered = s.up.length
  connection : s.connection_ = s.up.head?
  fresh : ∀ conn, s.Known conn → conn < s.nextConnId_
  order : s.pendingFunctors_.Pairwise fun f g => ∀ conn ∈ s.up, f = .forceCloseInLoop conn →
    g ≠ .connector .resetChannel
  past : s.up ≠ [] → s.Past
  reported : ∃ n, s.nextConnId_ = n + 1 ∧ s.callbacks ++ s.up.map (·, false) = reports n
  matched : s.mismatched = false

structure Tied (s : TcpClient) : Prop extends Linked s where
  single : s.connector_.Single

variable {s s' : TcpClient}

theorem tied_init : Tied init where
  single := Connector.single_init
  queue := rfl
  delivered := rfl
  connection := rfl
  fresh := by
    rintro conn (h | h | ⟨_, h, -⟩)
    · cases h
    · cases h
    · cases h
  order := List.Pairwise.nil
  past h := absurd rfl h
  reported := ⟨0, rfl, rfl⟩
  matched := rfl

/-- There is at most one connection, and no attempt beside it. -/
theorem Tied.up_cases (h : Tied s) :
    s.up = [] ∨ ∃ conn, s.up = [conn] ∧ s.connector_.state_ = .kConnected := by
  have hlen := h.delivered
  rcases h.single.delivered with hzero | ⟨hone, hstate⟩
  · exact .inl (List.eq_nil_of_length_eq_zero (hlen ▸ hzero))
  · obtain ⟨conn, hup⟩ := List.length_eq_one_iff.mp (hlen ▸ hone)
    exact .inr ⟨conn, hup, hstate⟩

theorem Tied.nil_of_connecting (h : Tied s) (hstate : s.connector_.state_ = .kConnecting) :
    s.up = [] := by
  rcases h.up_cases with hup | ⟨conn, -, hconn⟩
  · exact hup
  · rw [hconn] at hstate
    cases hstate

/-- What the connector queues is queued in the loop. -/
theorem withConnector_eq {c : Connector} {fs : List ConnectorFunctor}
    (h : s.connector_.Queues c fs) :
    s.withConnector c = { s with connector_ := c }.queueInLoop (fs.map .connector) := by
  rw [withConnector, h.pending, List.drop_left]

theorem filterMap_connector (fs : List ConnectorFunctor) :
    (fs.map ClientFunctor.connector).filterMap connectorPart = fs := by
  rw [List.filterMap_map]
  exact List.filterMap_some

/-- A connection that is up keeps being past its attempt when a functor other than `resetChannel`
    comes. -/
theorem Past.queueInLoop (h : s.Past) {fs : List ClientFunctor}
    (hfs : .connector .resetChannel ∉ fs) : (s.queueInLoop fs).Past := by
  unfold Past at h ⊢
  show match s.phase with
    | .calling n => .connector .resetChannel ∉ (s.pendingFunctors_ ++ fs).drop n
    | .handling activeChannels_ => (∃ conn ∈ s.up, .connection conn ∈ activeChannels_) →
        .connector .resetChannel ∉ s.pendingFunctors_ ++ fs
  cases hphase : s.phase with
  | calling n =>
    rw [hphase] at h
    dsimp only at h ⊢
    rw [List.drop_append, List.mem_append]
    rintro (hmem | hmem)
    · exact h hmem
    · exact hfs (List.mem_of_mem_drop hmem)
  | handling activeChannels_ =>
    rw [hphase] at h
    dsimp only at h ⊢
    intro hex hmem
    rcases List.mem_append.mp hmem with hmem | hmem
    · exact h hex hmem
    · exact hfs hmem

/-- The loop gets functors that are not about connections. -/
theorem known_queueInLoop {fs : List ClientFunctor} (hfs : ∀ conn, .forceCloseInLoop conn ∉ fs)
    {conn : Nat} (h : (s.queueInLoop fs).Known conn) : s.Known conn := by
  rcases h with h | h | h
  · exact .inl h
  · refine .inr (.inl ?_)
    exact (List.mem_append.mp h).resolve_right (hfs conn)
  · exact .inr (.inr h)

theorem forceCloseInLoop_not_mem (fs : List ConnectorFunctor) (conn : Nat) :
    .forceCloseInLoop conn ∉ fs.map ClientFunctor.connector := by
  simp

/-- A function of the connector that delivers nothing. -/
theorem Linked.withConnector (h : Linked s) {c : Connector} {fs : List ConnectorFunctor}
    (hnil : s.connector_.state_ = .kConnecting → s.up = []) (hqueues : s.connector_.Queues c fs)
    (hdelivered : c.delivered = s.connector_.delivered) (hsingle : c.Single) :
    Tied (s.withConnector c) := by
  have hreset : s.up ≠ [] → ClientFunctor.connector .resetChannel ∉ fs.map .connector := by
    intro hup hmem
    obtain ⟨f, hf, heq⟩ := List.mem_map.mp hmem
    obtain rfl := ClientFunctor.connector.inj heq
    exact hup (hnil (hqueues.reset hf))
  rw [withConnector_eq hqueues]
  refine ⟨⟨?_, hdelivered.trans h.delivered, h.connection, ?_, ?_, ?_, h.reported, h.matched⟩,
    hsingle⟩
  · show (s.pendingFunctors_ ++ fs.map ClientFunctor.connector).filterMap connectorPart = _
    rw [List.filterMap_append, h.queue, filterMap_connector]
    exact hqueues.pending.symm
  · intro conn hknown
    exact h.fresh conn (known_queueInLoop (forceCloseInLoop_not_mem fs) hknown)
  · refine List.pairwise_append.mpr ⟨h.order, ?_, ?_⟩
    · refine List.pairwise_of_forall_mem_list ?_
      rintro f hf g - conn - rfl
      simp at hf
    · intro f _ g hg conn hconn _ heq
      rw [heq] at hg
      exact hreset (List.ne_nil_of_mem hconn) hg
  · intro hup
    exact Past.queueInLoop (s := { s with connector_ := c }) (h.past hup) (hreset hup)

/-- The connector delivers a connection. -/
theorem Tied.newConnection (h : Tied s) {c : Connector} {fs : List ConnectorFunctor}
    (hqueues : s.connector_.Queues c fs) (hstate : s.connector_.state_ = .kConnecting)
    (hdelivered : c.delivered = s.connector_.delivered + 1) (hsingle : c.Single)
    {activeChannels_ : List ClientChannel} (hphase : s.phase = .handling activeChannels_) :
    Tied (s.withConnector c).newConnection := by
  have hup := h.nil_of_connecting hstate
  have hnew : ¬ s.Known s.nextConnId_ := fun hknown => Nat.lt_irrefl _ (h.fresh _ hknown)
  rw [withConnector_eq hqueues]
  refine ⟨⟨?_, ?_, ?_, ?_, ?_, ?_, ?_, h.matched⟩, hsingle⟩
  · show (s.pendingFunctors_ ++ fs.map ClientFunctor.connector).filterMap connectorPart = _
    rw [List.filterMap_append, h.queue, filterMap_connector]
    exact hqueues.pending.symm
  · show c.delivered = (s.up ++ [s.nextConnId_]).length
    rw [hdelivered, h.delivered, List.length_append, List.length_singleton]
  · show some s.nextConnId_ = (s.up ++ [s.nextConnId_]).head?
    rw [hup]
    rfl
  · intro conn hknown
    show conn < s.nextConnId_ + 1
    have hcases : conn = s.nextConnId_ ∨ s.Known conn := by
      rcases hknown with hmem | hrest
      · rcases List.mem_append.mp hmem with hmem | hmem
        · exact .inr (.inl hmem)
        · exact .inl (List.mem_singleton.mp hmem)
      · exact .inr (known_queueInLoop (forceCloseInLoop_not_mem fs) (.inr hrest))
    rcases hcases with rfl | hold
    · exact Nat.lt_succ_self _
    · exact Nat.lt_succ_of_lt (h.fresh conn hold)
  · -- the only connection is new to the queue
    refine List.pairwise_of_forall_mem_list ?_
    rintro f hf g - conn hconn rfl
    have hconn : conn = s.nextConnId_ := by
      have hmem : conn ∈ s.up ++ [s.nextConnId_] := hconn
      rw [hup] at hmem
      exact List.mem_singleton.mp hmem
    subst hconn
    exact absurd (known_queueInLoop (forceCloseInLoop_not_mem fs) (.inr (.inl hf))) hnew
  · intro _
    unfold Past
    show match s.phase with
      | .calling n => _
      | .handling activeChannels_ => _
    rw [hphase]
    rintro ⟨conn, hconn, hactive⟩
    have hmem : conn ∈ s.up ++ [s.nextConnId_] := hconn
    rw [hup] at hmem
    obtain rfl := List.mem_singleton.mp hmem
    exact absurd (.inr (.inr ⟨_, hphase, hactive⟩)) hnew
  · obtain ⟨n, hn, hreported⟩ := h.reported
    refine ⟨n + 1, congrArg (· + 1) hn, ?_⟩
    show (s.callbacks ++ [(s.nextConnId_, true)]) ++ (s.up ++ [s.nextConnId_]).map (·, false) = _
    rw [hup] at hreported ⊢
    rw [reports, List.range_succ, List.flatMap_append, ← reports, ← hreported, hn]
    simp

/-- The connection goes down when the channel of its attempt has been reset. -/
theorem Tied.handleClose (h : Tied s) {conn : Nat} (hconn : conn ∈ s.up)
    (hreset : .connector .resetChannel ∉ s.pendingFunctors_) (savedErrno : ConnectErrno) :
    Tied (s.handleClose conn savedErrno) := by
  obtain ⟨hup, hstate⟩ : s.up = [conn] ∧ s.connector_.state_ = .kConnected := by
    rcases h.up_cases with hnil | ⟨conn', hup, hstate⟩
    · rw [hnil] at hconn
      cases hconn
    · rw [hup, List.mem_singleton] at hconn
      exact ⟨hconn ▸ hup, hstate⟩
  have hone : s.connector_.delivered = 1 := by rw [h.delivered, hup]; rfl
  have hclosed : { s.connector_ with delivered := s.connector_.delivered - 1 }.Single := by
    refine h.single.step (a := .closed) trivial ?_
    rw [Connector.step, if_pos (by omega)]
  have herase : s.up.erase conn = [] := by rw [hup, List.erase_cons_head]
  -- the client after `connection_.reset()`
  have htied : Tied ({ s with
      up := s.up.erase conn
      connector_ := { s.connector_ with delivered := s.connector_.delivered - 1 }
      callbacks := s.callbacks ++ [(conn, false)]
      mismatched := s.mismatched || s.connection_ ≠ some conn
      connection_ := none }.queueInLoop [.connectDestroyed conn]) := by
    rw [herase]
    refine ⟨⟨?_, ?_, rfl, ?_, ?_, fun hne => absurd rfl hne, ?_, ?_⟩, hclosed⟩
    · show (s.pendingFunctors_ ++ [ClientFunctor.connectDestroyed conn]).filterMap connectorPart = _
      rw [List.filterMap_append, h.queue]
      exact List.append_nil _
    · show s.connector_.delivered - 1 = 0
      omega
    · intro conn' hknown
      refine h.fresh conn' ?_
      rcases hknown with hmem | hmem | hmem
      · cases hmem
      · exact .inr (.inl ((List.mem_append.mp hmem).resolve_right (by simp)))
      · exact .inr (.inr hmem)
    · refine List.pairwise_of_forall_mem_list ?_
      intro f _ g _ conn' hmem
      cases hmem
    · obtain ⟨n, hn, hreported⟩ := h.reported
      rw [hup] at hreported
      exact ⟨n, hn, (List.append_nil _).trans hreported⟩
    · show (s.mismatched || decide (s.connection_ ≠ some conn)) = false
      rw [h.matched, h.connection, hup]
      simp
  unfold TcpClient.handleClose removeConnection
  dsimp only
  split
  · have hstarts : s.connector_.starts = 0 := by
      by_contra hne
      rw [h.single.ready (Nat.pos_of_ne_zero hne)] at hstate
      cases hstate
    have hnot : .resetChannel ∉ s.connector_.pendingFunctors_ := by
      rw [← h.queue]
      intro hmem
      obtain ⟨f, hf, heq⟩ := List.mem_filterMap.mp hmem
      cases f with
      | connector g =>
        obtain rfl := Option.some.inj heq
        exact hreset hf
      | forceCloseInLoop _ => cases heq
      | connectDestroyed _ => cases heq
    have hproper : Connector.Proper { s.connector_ with delivered := s.connector_.delivered - 1 }
        (.restart savedErrno) := by
      refine ⟨?_, hstarts, ?_, hnot⟩
      · show s.connector_.state_ ≠ .kConnecting
        rw [hstate]
        simp
      · show s.connector_.delivered - 1 = 0
        omega
    obtain ⟨hpending, hdelivered⟩ := Connector.pendingFunctors_startInLoop { s.connector_ with
      delivered := s.connector_.delivered - 1
      state_ := .kDisconnected
      retryDelayMs_ := Connector.kInitRetryDelayMs
      connect_ := true } savedErrno
    exact htied.withConnector htied.nil_of_connecting (Connector.queues_of_eq hpending) hdelivered
      (hclosed.step hproper rfl)
  · exact htied

/-! ## Steps -/

theorem Tied.poll (h : Tied s) {activeChannels_ : List ClientChannel} (hphase : s.phase = .calling 0)
    (hactive : ∀ ch ∈ activeChannels_, s.registered ch = true) :
    Tied { s with phase := .handling activeChannels_ } := by
  refine ⟨⟨h.queue, h.delivered, h.connection, ?_, h.order, ?_, h.reported, h.matched⟩, h.single⟩
  · rintro conn (hmem | hmem | ⟨active, heq, hmem⟩)
    · exact h.fresh conn (.inl hmem)
    · exact h.fresh conn (.inr (.inl hmem))
    · cases heq
      exact h.fresh conn (.inl (of_decide_eq_true (hactive _ hmem)))
  · intro hup _
    have hpast := h.past hup
    unfold Past at hpast
    rw [hphase] at hpast
    exact hpast

/-- A channel is taken off the active ones. -/
theorem Tied.handled (h : Tied s) {ch : ClientChannel} {rest : List ClientChannel}
    (hphase : s.phase = .handling (ch :: rest)) : Tied { s with phase := .handling rest } := by
  refine ⟨⟨h.queue, h.delivered, h.connection, ?_, h.order, ?_, h.reported, h.matched⟩, h.single⟩
  · rintro conn (hmem | hmem | ⟨active, heq, hmem⟩)
    · exact h.fresh conn (.inl hmem)
    · exact h.fresh conn (.inr (.inl hmem))
    · cases heq
      exact h.fresh conn (.inr (.inr ⟨_, hphase, List.mem_cons_of_mem _ hmem⟩))
  · rintro hup ⟨conn, hconn, hmem⟩
    have hpast := h.past hup
    unfold Past at hpast
    rw [hphase] at hpast
    exact hpast ⟨conn, hconn, List.mem_cons_of_mem _ hmem⟩

theorem Tied.handle (h : Tied s) {ch : ClientChannel} {rest : List ClientChannel}
    (hphase : s.phase = .handling rest) (hregistered : s.registered ch = true)
    (hpast : ∀ conn, ch = .connection conn → .connector .resetChannel ∉ s.pendingFunctors_)
    {savedErrno : ConnectErrno} (htimer : ch = .timer → s.connector_.Proper (.timer savedErrno))
    {error writable : Bool} {err : Int} {selfConnect closed : Bool}
    (hs : s.handle savedErrno error writable err selfConnect closed ch = some s') : Tied s' := by
  cases ch with
  | timer =>
    obtain ⟨c, hc, rfl⟩ := Option.map_eq_some_iff.mp hs
    have hsingle := h.single.step (htimer rfl) hc
    dsimp only [Connector.step] at hc
    split at hc
    · obtain rfl := Option.some.inj hc
      obtain ⟨hpending, hdelivered⟩ := Connector.pendingFunctors_startInLoop { s.connector_ with
        timers := s.connector_.timers - 1 } savedErrno
      exact h.withConnector h.nil_of_connecting (Connector.queues_of_eq hpending) hdelivered hsingle
    · cases hc
  | connector =>
    obtain ⟨c, hc, rfl⟩ := Option.map_eq_some_iff.mp hs
    have hsingle := h.single.step (a := .event error writable err selfConnect) trivial hc
    dsimp only [Connector.step] at hc
    split at hc
    · obtain ⟨⟨fs, hqueues⟩, hsame | ⟨hstate, hmore⟩⟩ := Connector.queues_handleEvent hc
      · rw [if_neg (by omega)]
        exact h.withConnector h.nil_of_connecting hqueues hsame hsingle
      · rw [if_pos (by omega)]
        exact h.newConnection hqueues hstate hmore hsingle hphase
    · cases hc
  | connection conn =>
    obtain rfl := Option.some.inj hs
    split
    · exact h.handleClose (of_decide_eq_true hregistered) (hpast conn rfl) savedErrno
    · exact h

/-- A functor is taken off the queue; what the connector makes of its own is left open. -/
theorem Tied.taken (h : Tied s) {f : ClientFunctor} {fs : List ClientFunctor} {n : Nat}
    (hphase : s.phase = .calling (n + 1)) (hfs : s.pendingFunctors_ = f :: fs) :
    Linked { s with
      phase := .calling n
      pendingFunctors_ := fs
      connector_ := { s.connector_ with pendingFunctors_ := fs.filterMap connectorPart } } := by
  have horder := h.order
  rw [hfs, List.pairwise_cons] at horder
  refine ⟨rfl, h.delivered, h.connection, ?_, horder.2, ?_, h.reported, h.matched⟩
  · rintro conn (hmem | hmem | ⟨active, heq, -⟩)
    · exact h.fresh conn (.inl hmem)
    · refine h.fresh conn (.inr (.inl ?_))
      rw [hfs]
      exact List.mem_cons_of_mem _ hmem
    · cases heq
  · intro hup
    have hpast := h.past hup
    unfold Past at hpast
    rw [hphase, hfs] at hpast
    exact hpast

theorem Tied.functor (h : Tied s) {f : ClientFunctor} {fs : List ClientFunctor} {n : Nat}
    (hphase : s.phase = .calling (n + 1)) (hfs : s.pendingFunctors_ = f :: fs)
    {savedErrno : ConnectErrno}
    (hs : { s with phase := .calling n, pendingFunctors_ := fs }.doFunctor savedErrno f = some s') :
    Tied s' := by
  have hlinked := h.taken hphase hfs
  have hqueue := h.queue
  rw [hfs] at hqueue
  -- for a functor of the connection the connector is as before
  have hother : connectorPart f = none →
      Tied { s with phase := .calling n, pendingFunctors_ := fs } := by
    intro hnone
    rw [List.filterMap_cons_none hnone] at hqueue
    rw [hqueue] at hlinked
    exact ⟨hlinked, h.single⟩
  cases f with
  | connector g =>
    rw [List.filterMap_cons_some (show connectorPart (.connector g) = some g from rfl)] at hqueue
    obtain ⟨c, hc, rfl⟩ := Option.map_eq_some_iff.mp hs
    obtain ⟨c', hc', hsingle⟩ := h.single.functor hqueue.symm savedErrno
    dsimp only at hc
    rw [← hqueue, List.tail_cons] at hc ⊢
    obtain rfl := Option.some.inj (hc'.symm.trans hc)
    obtain ⟨⟨gs, hqueues⟩, hsame⟩ := Connector.queues_doFunctor hc
    exact hlinked.withConnector h.nil_of_connecting hqueues hsame hsingle
  | forceCloseInLoop conn =>
    obtain rfl := Option.some.inj hs
    split
    · rename_i hconn
      refine (hother rfl).handleClose hconn ?_ savedErrno
      intro hmem
      have horder := h.order
      rw [hfs, List.pairwise_cons] at horder
      exact horder.1 _ hmem conn hconn rfl rfl
    · exact hother rfl
  | connectDestroyed conn =>
    obtain rfl := Option.some.inj hs
    exact hother rfl

/-- Flags of the client that no assertion reads. -/
theorem Tied.flags (h : Tied s) (retry connect : Bool) :
    Tied { s with retry_ := retry, connect_ := connect } :=
  ⟨⟨h.queue, h.delivered, h.connection, h.fresh, h.order, h.past, h.reported, h.matched⟩, h.single⟩

theorem Tied.forceClose (h : Tied s) {conn : Nat} (hconn : conn ∈ s.up) :
    Tied (s.queueInLoop [.forceCloseInLoop conn]) := by
  refine ⟨⟨?_, h.delivered, h.connection, ?_, ?_, ?_, h.reported, h.matched⟩, h.single⟩
  · show (s.pendingFunctors_ ++ [ClientFunctor.forceCloseInLoop conn]).filterMap connectorPart = _
    rw [List.filterMap_append, h.queue]
    exact List.append_nil _
  · rintro conn' (hmem | hmem | hmem)
    · exact h.fresh conn' (.inl hmem)
    · rcases List.mem_append.mp hmem with hmem | hmem
      · exact h.fresh conn' (.inr (.inl hmem))
      · cases List.mem_singleton.mp hmem
        exact h.fresh conn (.inl hconn)
    · exact h.fresh conn' (.inr (.inr hmem))
  · refine List.pairwise_append.mpr ⟨h.order, List.pairwise_singleton _ _, ?_⟩
    intro f _ g hg conn' _ _
    rw [List.mem_singleton.mp hg]
    simp
  · exact fun hup => (h.past hup).queueInLoop (by simp)

theorem Tied.step (h : Tied s) {a : ClientAction} (hcareful : s.Careful a)
    (hs : s.step a = some s') : Tied s' := by
  cases a with
  | poll activeChannels_ =>
    dsimp only [TcpClient.step] at hs
    split at hs
    · rename_i hpoll
      obtain rfl := Option.some.inj hs
      exact h.poll hpoll.1 hpoll.2
    · cases hs
  | handleEvent savedErrno error writable err selfConnect closed =>
    dsimp only [TcpClient.step] at hs
    split at hs
    · rename_i ch rest hphase
      split at hs
      · rename_i hregistered
        refine (h.handled hphase).handle rfl hregistered ?_ ?_ hs
        · rintro conn rfl
          have hconn : conn ∈ s.up := of_decide_eq_true hregistered
          have hpast := h.past (List.ne_nil_of_mem hconn)
          unfold Past at hpast
          rw [hphase] at hpast
          exact hpast ⟨conn, hconn, List.mem_cons_self⟩
        · rintro rfl
          refine hcareful ?_
          rw [next, hphase]
          rfl
      · obtain rfl := Option.some.inj hs
        exact h.handled hphase
    · cases hs
  | doPendingFunctors =>
    dsimp only [TcpClient.step] at hs
    split at hs
    · obtain rfl := Option.some.inj hs
      refine ⟨⟨h.queue, h.delivered, h.connection, ?_, h.order, ?_, h.reported, h.matched⟩,
        h.single⟩
      · rintro conn (hmem | hmem | ⟨active, heq, -⟩)
        · exact h.fresh conn (.inl hmem)
        · exact h.fresh conn (.inr (.inl hmem))
        · cases heq
      · intro _ hmem
        rw [List.drop_length] at hmem
        cases hmem
    · cases hs
  | functor savedErrno =>
    dsimp only [TcpClient.step] at hs
    split at hs
    · rename_i n f fs hphase hfs
      exact h.functor hphase hfs hs
    · cases hs
  | connect inLoop savedErrno =>
    obtain rfl := Option.some.inj hs
    obtain ⟨⟨fs, hqueues⟩, hsame⟩ := Connector.queues_start s.connector_ inLoop savedErrno
    exact (h.flags s.retry_ true).withConnector h.nil_of_connecting hqueues hsame
      (h.single.step (a := .start inLoop savedErrno) hcareful rfl)
  | disconnect =>
    obtain rfl := Option.some.inj hs
    exact h.flags s.retry_ false
  | stop =>
    obtain rfl := Option.some.inj hs
    exact (h.flags s.retry_ false).withConnector h.nil_of_connecting ⟨rfl, by simp⟩ rfl
      h.single.stop
  | enableRetry =>
    obtain rfl := Option.some.inj hs
    exact h.flags true s.connect_
  | forceClose conn =>
    dsimp only [TcpClient.step] at hs
    split at hs
    · rename_i hconn
      obtain rfl := Option.some.inj hs
      exact h.forceClose hconn
    · obtain rfl := Option.some.inj hs
      exact h

theorem tied_reaches (h : Reaches step Careful init s) : Tied s :=
  h.invariant tied_init fun _ _ _ hs hc hstep => hs.step hc hstep

/-- **One connection at a time.** In every careful run the attempts of the connector stay apart, there
    is at most one connection, `removeConnection` is called for the connection the client has, and
    the connections report `UP` and `DOWN` in turn, numbered from 1. -/
theorem client_one_connection (h : Reaches step Careful init s) :
    s.connector_.OneAttempt ∧ s.mismatched = false ∧ s.up.length ≤ 1 ∧ s.connection_ = s.up.head? ∧
      s.callbacks ++ s.up.map (·, false) = reports (s.nextConnId_ - 1) := by
  have htied := tied_reaches h
  obtain ⟨n, hn, hreported⟩ := htied.reported
  refine ⟨htied.single.oneAttempt, htied.matched, ?_, htied.connection, ?_⟩
  · rcases htied.up_cases with hup | ⟨conn, hup, -⟩
    · rw [hup]
      exact Nat.zero_le _
    · rw [hup]
      exact Nat.le_refl _
  · rw [hn, Nat.add_sub_cancel, hreported]

/-- The first connection is closed by the peer, and the client connects again. -/
theorem client_one_connection_again :
    ∃ s, Reaches step Careful init s ∧ s.callbacks = [(1, true), (1, false), (2, true)] ∧
      s.connection_ = some 2 ∧ s.connector_.OneAttempt := by
  obtain ⟨s, hs, hcallbacks, hup⟩ : ∃ s, Reaches step Careful init s ∧
      s.callbacks = [(1, true), (1, false), (2, true)] ∧ s.up = [2] :=
    exists_reaches [.enableRetry, .connect true .EINPROGRESS, .poll [.connector],
      .handleEvent .none false true 0 false false, .doPendingFunctors, .functor .none,
      .poll [.connection 1], .handleEvent .EINPROGRESS false false 0 false true, .doPendingFunctors,
      .functor .none, .poll [.connector], .handleEvent .none false true 0 false false] (by decide)
  obtain ⟨hone, -, -, hconnection, -⟩ := client_one_connection hs
  rw [hup] at hconnection
  exact ⟨s, hs, hcallbacks, hconnection, hone⟩

end TcpClient

end Mmvx.Net
