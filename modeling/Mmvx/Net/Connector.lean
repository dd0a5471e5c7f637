/-
  `Connector` (muduo/net/Connector.{h,cc}): one attempt after the other to connect to a server.

  A step is a call of `start()`, `stop()` or `restart()`, the next of the loop's pending functors, a
  retry timer, an event of the connecting socket, or the end of a connection that was delivered;
  they come in any order. What `connect(2)` and `SO_ERROR` say is part of the action. Failed
  assertions do not stop the model: `misentered` and `overwritten` record that `startInLoop` was
  entered in another state than `kDisconnected`, or `connecting()` while `channel_` was set.

  `stop()` leaves the retry timer armed, `resetChannel` runs later than the code that queues it, and
  `start()` checks nothing. As long as calls respect these three (`Proper`), an attempt has the
  connector to itself (`single_reaches`).
-/
import Mathlib.Data.List.Basic
import Mmvx.Lib.Run

namespace Mmvx.Net

open Mmvx.Lib

/-- `savedErrno` in `connect()`. -/
inductive ConnectErrno where
  | none | EINPROGRESS | EINTR | EISCONN
  | EAGAIN | EADDRINUSE | EADDRNOTAVAIL | ECONNREFUSED | ENETUNREACH
  | EACCES | EPERM | EAFNOSUPPORT | EALREADY | EBADF | EFAULT | ENOTSOCK
  | other (n : Nat)
  deriving DecidableEq, Repr

inductive ConnectorState where
  | kDisconnected | kConnecting | kConnected
  deriving DecidableEq, Repr

/-- What `Connector` puts into `pendingFunctors_` of its loop. -/
inductive ConnectorFunctor where
  | startInLoop | stopInLoop | resetChannel
  deriving DecidableEq, Repr

/-- `writing` is false after `disableAll()` and `remove()`. -/
structure ConnectorChannel where
  fd : Nat
  writing : Bool
  deriving DecidableEq, Repr

structure Connector where
  connect_ : Bool
  state_ : ConnectorState
  channel_ : Option ConnectorChannel
  retryDelayMs_ : Nat
  /-- The functors of this connector in the loop, in order. -/
  pendingFunctors_ : List ConnectorFunctor
  /-- The number of armed timers for `startInLoop`. -/
  timers : Nat
  nextFd : Nat
  /-- The sockets on which a connection is in progress. -/
  sockets : List Nat
  /-- The number of connections that were delivered and are still there. -/
  delivered : Nat
  misentered : Bool
  overwritten : Bool
  deriving DecidableEq, Repr

inductive ConnectorAction where
  /-- `start()`, in the loop's thread or in another one. -/
  | start (inLoop : Bool) (savedErrno : ConnectErrno)
  | stop
  | restart (savedErrno : ConnectErrno)
  /-- The loop runs the next functor. -/
  | functor (savedErrno : ConnectErrno)
  | timer (savedErrno : ConnectErrno)
  /-- An event of the socket, with `SO_ERROR` and whether it is a self connect. -/
  | event (error writable : Bool) (err : Int) (selfConnect : Bool)
  /-- The connection that was delivered is gone. -/
  | closed
  deriving DecidableEq, Repr

namespace Connector

def kInitRetryDelayMs : Nat := 500

def kMaxRetryDelayMs : Nat := 30 * 1000

def init : Connector where
  connect_ := false
  state_ := .kDisconnected
  channel_ := none
  retryDelayMs_ := kInitRetryDelayMs
  pendingFunctors_ := []
  timers := 0
  nextFd := 0
  sockets := []
  delivered := 0
  misentered := false
  overwritten := false

def queueInLoop (c : Connector) (f : ConnectorFunctor) : Connector :=
  { c with pendingFunctors_ := c.pendingFunctors_ ++ [f] }

def retry (c : Connector) (sockfd : Nat) : Connector :=
  let c := { c with state_ := .kDisconnected, sockets := c.sockets.erase sockfd }
  if c.connect_ then
    { c with
      timers := c.timers + 1
      retryDelayMs_ := min (c.retryDelayMs_ * 2) kMaxRetryDelayMs }
  else c

def connecting (c : Connector) (sockfd : Nat) : Connector :=
  { c with
    state_ := .kConnecting
    channel_ := some ⟨sockfd, true⟩
    sockets := c.sockets ++ [sockfd]
    overwritten := c.overwritten || c.channel_.isSome }

/-- `createNonblockingOrDie()` -/
def createSocket (c : Connector) : Connector := { c with nextFd := c.nextFd + 1 }

def connect (c : Connector) (savedErrno : ConnectErrno) : Connector :=
  let sockfd := c.nextFd
  let c := c.createSocket
  match savedErrno with
  | .none | .EINPROGRESS | .EINTR | .EISCONN => c.connecting sockfd
  | .EAGAIN | .EADDRINUSE | .EADDRNOTAVAIL | .ECONNREFUSED | .ENETUNREACH => c.retry sockfd
  -- the socket is closed
  | _ => c

/-- `assert(state_ == kDisconnected)` -/
def assertDisconnected (c : Connector) : Connector :=
  { c with misentered := c.misentered || c.state_ ≠ .kDisconnected }

def startInLoop (c : Connector) (savedErrno : ConnectErrno) : Connector :=
  let c := c.assertDisconnected
  if c.connect_ then c.connect savedErrno else c

def start (c : Connector) (inLoop : Bool) (savedErrno : ConnectErrno) : Connector :=
  let c := { c with connect_ := true }
  if inLoop then c.startInLoop savedErrno else c.queueInLoop .startInLoop

def stop (c : Connector) : Connector := { c with connect_ := false }.queueInLoop .stopInLoop

def restart (c : Connector) (savedErrno : ConnectErrno) : Connector :=
  { c with
    state_ := .kDisconnected
    retryDelayMs_ := kInitRetryDelayMs
    connect_ := true }.startInLoop savedErrno

/-- `none` if it would follow a null pointer. -/
def removeAndResetChannel (c : Connector) : Option (Nat × Connector) :=
  match c.channel_ with
  | some ch => some (ch.fd, { c with channel_ := some { ch with writing := false } }.queueInLoop
      .resetChannel)
  | none => none

def stopInLoop (c : Connector) : Option Connector :=
  if c.state_ = .kConnecting then
    let c := { c with state_ := .kDisconnected }
    c.removeAndResetChannel.map fun (sockfd, c) => c.retry sockfd
  else some c

def resetChannel (c : Connector) : Connector := { c with channel_ := none }

def handleWrite (c : Connector) (err : Int) (selfConnect : Bool) : Option Connector :=
  if c.state_ = .kConnecting then
    c.removeAndResetChannel.map fun (sockfd, c) =>
      if err ≠ 0 then c.retry sockfd
      else if selfConnect then c.retry sockfd
      else
        let c := { c with state_ := .kConnected, sockets := c.sockets.erase sockfd }
        -- `newConnectionCallback_`, or the socket is closed
        if c.connect_ then { c with delivered := c.delivered + 1 } else c
  else some c

def handleError (c : Connector) : Option Connector :=
  if c.state_ = .kConnecting then
    c.removeAndResetChannel.map fun (sockfd, c) => c.retry sockfd
  else some c

/-- `Channel::handleEvent`: the error callback comes before the write callback. -/
def handleEvent (c : Connector) (error writable : Bool) (err : Int) (selfConnect : Bool) :
    Option Connector :=
  (if error then c.handleError else some c).bind fun c =>
    if writable then c.handleWrite err selfConnect else some c

def doFunctor (c : Connector) (savedErrno : ConnectErrno) : ConnectorFunctor → Option Connector
  | .startInLoop => some (c.startInLoop savedErrno)
  | .stopInLoop => c.stopInLoop
  | .resetChannel => some c.resetChannel

def step (c : Connector) : ConnectorAction → Option Connector
  | .start inLoop savedErrno => some (c.start inLoop savedErrno)
  | .stop => some c.stop
  | .restart savedErrno => some (c.restart savedErrno)
  | .functor savedErrno =>
    match c.pendingFunctors_ with
    | f :: fs => { c with pendingFunctors_ := fs }.doFunctor savedErrno f
    | [] => none
  | .timer savedErrno =>
    if 0 < c.timers then some ({ c with timers := c.timers - 1 }.startInLoop savedErrno) else none
  | .event error writable err selfConnect =>
    match c.channel_ with
    | some ⟨_, true⟩ => c.handleEvent error writable err selfConnect
    | _ => none
  | .closed => if 0 < c.delivered then some { c with delivered := c.delivered - 1 } else none

/-! ## One attempt at a time -/

/-- `startInLoop` and `connecting()` have been entered as their assertions say, and there is at most
    one socket in progress and one connection. -/
structure OneAttempt (c : Connector) : Prop where
  entered : c.misentered = false
  fresh : c.overwritten = false
  sockets : c.sockets.length ≤ 1
  delivered : c.delivered ≤ 1

/-- A `startInLoop` is still to come. -/
def starts (c : Connector) : Nat := c.pendingFunctors_.count .startInLoop + c.timers

/-- `start()` is called when the connector is disconnected and no `startInLoop` is to come,
    `restart()` when the last connection is gone and nothing is under way; and where `startInLoop`
    runs at once, a `resetChannel` that was queued has run. -/
def Proper (c : Connector) : ConnectorAction → Prop
  | .start inLoop _ => c.state_ = .kDisconnected ∧ c.starts = 0 ∧
      (inLoop = true → .resetChannel ∉ c.pendingFunctors_)
  | .restart _ => c.state_ ≠ .kConnecting ∧ c.starts = 0 ∧ c.delivered = 0 ∧
      .resetChannel ∉ c.pendingFunctors_
  | .timer _ => c.connect_ = true → .resetChannel ∉ c.pendingFunctors_
  | _ => True

instance (c : Connector) : (a : ConnectorAction) → Decidable (c.Proper a)
  | .start _ _ => inferInstanceAs (Decidable (_ ∧ _ ∧ (_ → _)))
  | .restart _ => inferInstanceAs (Decidable (_ ∧ _ ∧ _ ∧ _))
  | .timer _ => inferInstanceAs (Decidable (_ → _))
  | .stop | .functor _ | .event _ _ _ _ | .closed => isTrue trivial

/-- The invariant: an attempt has the channel to itself, and before a `startInLoop` runs everything
    of the last attempt is gone, or is gone by then since functors run in order. -/
structure Single (c : Connector) : Prop where
  starts : c.starts ≤ 1
  ready : 0 < c.starts → c.state_ = .kDisconnected
  order : c.pendingFunctors_.Pairwise fun f g => f = .startInLoop → g ≠ .resetChannel
  trying : c.state_ = .kConnecting → ∃ fd, c.channel_ = some ⟨fd, true⟩ ∧ c.sockets = [fd] ∧
    c.pendingFunctors_.count .resetChannel = 0
  resting : c.state_ ≠ .kConnecting → c.sockets = [] ∧
    ((c.channel_ = none ∧ c.pendingFunctors_.count .resetChannel = 0) ∨
      ∃ fd, c.channel_ = some ⟨fd, false⟩ ∧ c.pendingFunctors_.count .resetChannel = 1)
  delivered : c.delivered = 0 ∨ c.delivered = 1 ∧ c.state_ = .kConnected
  entered : c.misentered = false
  fresh : c.overwritten = false

/-- Nothing is under way. -/
structure Ready (c : Connector) : Prop where
  state : c.state_ = .kDisconnected
  channel : c.channel_ = none
  sockets : c.sockets = []
  starts : c.starts = 0
  resets : c.pendingFunctors_.count .resetChannel = 0
  delivered : c.delivered = 0
  entered : c.misentered = false
  fresh : c.overwritten = false

variable {c c' : Connector}

theorem Single.oneAttempt (h : Single c) : OneAttempt c where
  entered := h.entered
  fresh := h.fresh
  sockets := by
    by_cases hs : c.state_ = .kConnecting
    · obtain ⟨fd, -, hsock, -⟩ := h.trying hs
      rw [hsock]
      exact Nat.le_refl _
    · rw [(h.resting hs).1]
      exact Nat.zero_le _
  delivered := by
    rcases h.delivered with h0 | ⟨h1, -⟩
    · omega
    · omega

theorem not_mem_of_starts (h : c.starts = 0) : .startInLoop ∉ c.pendingFunctors_ := by
  intro hmem
  have hpos := List.count_pos_iff.mpr hmem
  unfold starts at h
  omega

theorem pairwise_of_not_mem {fs : List ConnectorFunctor} (h : .startInLoop ∉ fs) :
    fs.Pairwise fun f g => f = .startInLoop → g ≠ .resetChannel := by
  refine List.pairwise_of_forall_mem_list ?_
  intro f hf g _ hstart
  rw [hstart] at hf
  exact absurd hf h

/-- A connector that is ready, and what may still be changed of it. -/
theorem Ready.single (h : Ready c) : Single c where
  starts := by rw [h.starts]; exact Nat.zero_le _
  ready := fun _ => h.state
  order := pairwise_of_not_mem (not_mem_of_starts h.starts)
  trying hs := by rw [h.state] at hs; cases hs
  resting _ := ⟨h.sockets, Or.inl ⟨h.channel, h.resets⟩⟩
  delivered := Or.inl h.delivered
  entered := h.entered
  fresh := h.fresh

theorem Single.ready_of (h : Single c) (hstate : c.state_ = .kDisconnected) (hstarts : c.starts = 0)
    (hreset : .resetChannel ∉ c.pendingFunctors_) : Ready c := by
  have hne : c.state_ ≠ .kConnecting := by rw [hstate]; simp
  have hzero := List.count_eq_zero.mpr hreset
  obtain ⟨hsock, hchan⟩ := h.resting hne
  refine ⟨hstate, ?_, hsock, hstarts, hzero, ?_, h.entered, h.fresh⟩
  · rcases hchan with ⟨hnone, -⟩ | ⟨fd, -, hone⟩
    · exact hnone
    · omega
  · rcases h.delivered with hd | ⟨-, hs⟩
    · exact hd
    · rw [hstate] at hs
      cases hs

/-! ## Attempts -/

theorem connect_cases (c : Connector) (savedErrno : ConnectErrno) :
    c.connect savedErrno = c.createSocket.connecting c.nextFd ∨
      c.connect savedErrno = c.createSocket.retry c.nextFd ∨
        c.connect savedErrno = c.createSocket := by
  cases savedErrno <;> simp [connect]

/-- What `retry` does. -/
theorem retry_eq (c : Connector) (sockfd : Nat) : ∃ n ms, n ≤ c.timers + 1 ∧
    c.retry sockfd = { c with
      state_ := .kDisconnected
      sockets := c.sockets.erase sockfd
      timers := n
      retryDelayMs_ := ms } := by
  unfold retry
  dsimp only
  split
  · exact ⟨_, _, Nat.le_refl _, rfl⟩
  · exact ⟨_, _, Nat.le_succ _, rfl⟩

theorem startInLoop_eq (h : c.state_ = .kDisconnected) (savedErrno : ConnectErrno) :
    c.startInLoop savedErrno = if c.connect_ then c.connect savedErrno else c := by
  have hholds : (c.misentered || decide (c.state_ ≠ .kDisconnected)) = c.misentered := by
    simp [h]
  rw [startInLoop, assertDisconnected, hholds]

theorem Ready.createSocket (h : Ready c) : Ready c.createSocket :=
  ⟨h.state, h.channel, h.sockets, h.starts, h.resets, h.delivered, h.entered, h.fresh⟩

theorem Ready.connecting (h : Ready c) (sockfd : Nat) : Single (c.connecting sockfd) where
  starts := Nat.le_trans (Nat.le_of_eq h.starts) (Nat.zero_le _)
  ready hpos := absurd h.starts (Nat.ne_of_gt hpos)
  order := pairwise_of_not_mem (not_mem_of_starts h.starts)
  trying _ := ⟨sockfd, rfl, by rw [Connector.connecting, h.sockets]; rfl, h.resets⟩
  resting hs := absurd rfl hs
  delivered := Or.inl h.delivered
  entered := h.entered
  fresh := by rw [Connector.connecting, h.fresh, h.channel]; rfl

/-- The socket of the last attempt is closed, and a timer may be armed. -/
theorem single_retry {sockfd : Nat} (hstarts : c.starts = 0) (hsock : c.sockets.erase sockfd = [])
    (hchan : (c.channel_ = none ∧ c.pendingFunctors_.count .resetChannel = 0) ∨
      ∃ fd, c.channel_ = some ⟨fd, false⟩ ∧ c.pendingFunctors_.count .resetChannel = 1)
    (hdelivered : c.delivered = 0) (hentered : c.misentered = false)
    (hfresh : c.overwritten = false) : Single (c.retry sockfd) := by
  have horder := pairwise_of_not_mem (not_mem_of_starts hstarts)
  obtain ⟨n, ms, hn, heq⟩ := c.retry_eq sockfd
  rw [heq]
  refine ⟨?_, fun _ => rfl, horder, ?_, ?_, Or.inl hdelivered, hentered, hfresh⟩
  · unfold Connector.starts at hstarts ⊢
    dsimp only
    omega
  · intro hs
    cases hs
  · exact fun _ => ⟨hsock, hchan⟩

theorem Ready.retry (h : Ready c) (sockfd : Nat) : Single (c.retry sockfd) := by
  refine single_retry h.starts ?_ (Or.inl ⟨h.channel, h.resets⟩) h.delivered h.entered h.fresh
  rw [h.sockets]
  rfl

/-- What `startInLoop` makes of a connector that is ready. -/
theorem Ready.startInLoop (h : Ready c) (savedErrno : ConnectErrno) :
    Single (c.startInLoop savedErrno) := by
  rw [startInLoop_eq h.state]
  split
  · rcases c.connect_cases savedErrno with heq | heq | heq
    · rw [heq]
      exact h.createSocket.connecting _
    · rw [heq]
      exact h.createSocket.retry _
    · rw [heq]
      exact h.createSocket.single
  · exact h.single

/-- The channel of an attempt that ends, in the loop until `resetChannel` runs. -/
def removed (c : Connector) (sockfd : Nat) : Connector :=
  { c with channel_ := some ⟨sockfd, false⟩ }.queueInLoop .resetChannel

theorem count_queueInLoop (c : Connector) (f g : ConnectorFunctor) :
    (c.queueInLoop f).pendingFunctors_.count g =
      c.pendingFunctors_.count g + if f = g then 1 else 0 := by
  rw [queueInLoop, List.count_append, List.count_singleton]
  simp

/-- An attempt ends: its channel waits to be reset. -/
theorem Single.removed (h : Single c) (hs : c.state_ = .kConnecting) :
    ∃ fd, c.removeAndResetChannel = some (fd, c.removed fd) ∧ c.sockets.erase fd = [] ∧
      (c.removed fd).starts = 0 ∧ c.delivered = 0 ∧
      (c.removed fd).pendingFunctors_.count .resetChannel = 1 := by
  obtain ⟨fd, hchan, hsock, hreset⟩ := h.trying hs
  refine ⟨fd, ?_, ?_, ?_, ?_, ?_⟩
  · unfold Connector.removeAndResetChannel
    rw [hchan]
    rfl
  · rw [hsock, List.erase_cons_head]
  · have hzero : c.starts = 0 := by
      by_contra hne
      rw [h.ready (Nat.pos_of_ne_zero hne)] at hs
      cases hs
    unfold Connector.starts at hzero ⊢
    rw [Connector.removed, count_queueInLoop]
    exact hzero
  · rcases h.delivered with hd | ⟨-, hconn⟩
    · exact hd
    · rw [hconn] at hs
      cases hs
  · rw [Connector.removed, count_queueInLoop]
    exact congrArg (· + 1) hreset

/-- An attempt fails. -/
theorem Single.giveUp (h : Single c) (hs : c.state_ = .kConnecting) :
    ∃ fd, c.removeAndResetChannel = some (fd, c.removed fd) ∧ Single ((c.removed fd).retry fd) := by
  obtain ⟨fd, hremove, hsock, hstarts, hdelivered, hreset⟩ := h.removed hs
  exact ⟨fd, hremove, single_retry hstarts hsock (Or.inr ⟨fd, rfl, hreset⟩) hdelivered h.entered
    h.fresh⟩

theorem Single.stopInLoop (h : Single c) : ∃ c', c.stopInLoop = some c' ∧ Single c' := by
  unfold Connector.stopInLoop
  split
  · rename_i hs
    obtain ⟨fd, hremove, hsingle⟩ := h.giveUp hs
    have hstate : { c with state_ := .kDisconnected }.removeAndResetChannel =
        some (fd, { c.removed fd with state_ := .kDisconnected }) := by
      unfold Connector.removeAndResetChannel at hremove ⊢
      dsimp only
      split at hremove
      · obtain ⟨rfl, -⟩ := Prod.mk.inj (Option.some.inj hremove)
        rfl
      · cases hremove
    dsimp only
    rw [hstate]
    exact ⟨_, rfl, hsingle⟩
  · exact ⟨c, rfl, h⟩

theorem Single.handleError (h : Single c) : ∃ c', c.handleError = some c' ∧ Single c' := by
  unfold Connector.handleError
  split
  · rename_i hs
    obtain ⟨fd, hremove, hsingle⟩ := h.giveUp hs
    exact ⟨_, by rw [hremove]; rfl, hsingle⟩
  · exact ⟨c, rfl, h⟩

/-- An attempt succeeds. -/
theorem Single.succeed {fd : Nat} (h : Single c) (hs : c.state_ = .kConnecting)
    (hremove : c.removeAndResetChannel = some (fd, c.removed fd)) {n : Nat} (hn : n ≤ 1) :
    Single { c.removed fd with
      state_ := .kConnected
      sockets := (c.removed fd).sockets.erase fd
      delivered := n } := by
  obtain ⟨fd', hremove', hsock, hstarts, -, hreset⟩ := h.removed hs
  obtain rfl : fd' = fd := (Prod.mk.inj (Option.some.inj (hremove'.symm.trans hremove))).1
  refine ⟨?_, ?_, pairwise_of_not_mem (not_mem_of_starts hstarts), ?_, ?_, ?_, h.entered, h.fresh⟩
  · show (c.removed fd').starts ≤ 1
    omega
  · show 0 < (c.removed fd').starts → _
    omega
  · intro hs'
    cases hs'
  · exact fun _ => ⟨hsock, Or.inr ⟨fd', rfl, hreset⟩⟩
  · show n = 0 ∨ n = 1 ∧ _
    have hcases : n = 0 ∨ n = 1 := by omega
    exact hcases.imp_right fun hone => ⟨hone, rfl⟩

theorem Single.handleWrite (h : Single c) (err : Int) (selfConnect : Bool) :
    ∃ c', c.handleWrite err selfConnect = some c' ∧ Single c' := by
  unfold Connector.handleWrite
  split
  · rename_i hs
    obtain ⟨fd, hremove, hsingle⟩ := h.giveUp hs
    obtain ⟨-, -, -, -, hdelivered, -⟩ := h.removed hs
    rw [hremove]
    refine ⟨_, rfl, ?_⟩
    dsimp only
    split
    · exact hsingle
    · split
      · exact hsingle
      · split
        · refine h.succeed hs hremove ?_
          show c.delivered + 1 ≤ 1
          omega
        · refine h.succeed hs hremove (n := c.delivered) ?_
          omega
  · exact ⟨c, rfl, h⟩

theorem Single.handleEvent (h : Single c) (error writable : Bool) (err : Int)
    (selfConnect : Bool) :
    ∃ c', c.handleEvent error writable err selfConnect = some c' ∧ Single c' := by
  obtain ⟨c₁, hc₁, h₁⟩ : ∃ c₁, (if error then c.handleError else some c) = some c₁ ∧ Single c₁ := by
    split
    · exact h.handleError
    · exact ⟨c, rfl, h⟩
  unfold Connector.handleEvent
  rw [hc₁, Option.bind_some]
  split
  · exact h₁.handleWrite err selfConnect
  · exact ⟨c₁, rfl, h₁⟩

/-! ## Steps -/

/-- A functor that neither starts nor resets comes or goes, or `connect_` changes. -/
theorem Single.frame (h : Single c)
    (hcount : ∀ f, f ≠ .stopInLoop → c'.pendingFunctors_.count f = c.pendingFunctors_.count f)
    (horder : c'.pendingFunctors_.Pairwise fun f g => f = .startInLoop → g ≠ .resetChannel)
    (hrest : ∃ b fs, c' = { c with connect_ := b, pendingFunctors_ := fs }) : Single c' := by
  obtain ⟨b, fs, rfl⟩ := hrest
  have hstart := hcount .startInLoop (by simp)
  have hreset := hcount .resetChannel (by simp)
  dsimp only at hstart hreset
  refine ⟨?_, ?_, horder, ?_, ?_, h.delivered, h.entered, h.fresh⟩
  · have := h.starts
    unfold Connector.starts at this ⊢
    dsimp only
    omega
  · intro hpos
    refine h.ready ?_
    unfold Connector.starts at hpos ⊢
    dsimp only at hpos
    omega
  · dsimp only
    rw [hreset]
    exact h.trying
  · dsimp only
    rw [hreset]
    exact h.resting

theorem Single.stop (h : Single c) : Single c.stop := by
  refine h.frame ?_ ?_ ⟨false, _, rfl⟩
  · intro f hf
    rw [Connector.stop, count_queueInLoop, if_neg (Ne.symm hf)]
    rfl
  · refine List.pairwise_append.mpr ⟨h.order, List.pairwise_singleton _ _, ?_⟩
    intro f _ g hg _
    rw [List.mem_singleton.mp hg]
    simp

/-- `start()` from another thread. -/
theorem Single.queueStart (h : Single c) (hstate : c.state_ = .kDisconnected)
    (hstarts : c.starts = 0) :
    Single ({ c with connect_ := true }.queueInLoop .startInLoop) := by
  have hne : c.state_ ≠ .kConnecting := by rw [hstate]; simp
  have hreset := count_queueInLoop { c with connect_ := true } .startInLoop .resetChannel
  refine ⟨?_, fun _ => hstate, ?_, fun hs => absurd hs hne, ?_, h.delivered, h.entered, h.fresh⟩
  · unfold Connector.starts at hstarts ⊢
    rw [count_queueInLoop]
    show c.pendingFunctors_.count .startInLoop + 1 + c.timers ≤ 1
    omega
  · refine List.pairwise_append.mpr ⟨h.order, List.pairwise_singleton _ _, ?_⟩
    intro f hf g _ hstart
    rw [hstart] at hf
    exact absurd hf (not_mem_of_starts hstarts)
  · rw [hreset]
    exact h.resting

/-- The loop runs the next functor. -/
theorem Single.functor (h : Single c) {f : ConnectorFunctor} {fs : List ConnectorFunctor}
    (hfs : c.pendingFunctors_ = f :: fs) (savedErrno : ConnectErrno) :
    ∃ c', { c with pendingFunctors_ := fs }.doFunctor savedErrno f = some c' ∧ Single c' := by
  have hcount (g : ConnectorFunctor) :
      c.pendingFunctors_.count g = fs.count g + if f = g then 1 else 0 := by
    rw [hfs, List.count_cons]
    simp
  have horder := h.order
  rw [hfs, List.pairwise_cons] at horder
  cases f with
  | startInLoop =>
    have hstarts : c.starts = fs.count .startInLoop + 1 + c.timers := by
      unfold Connector.starts
      rw [hcount]
      rfl
    have hle := h.starts
    have hstate := h.ready (by omega)
    -- a reset would come later, and there is none
    have hnone : ConnectorFunctor.resetChannel ∉ fs := fun hmem => horder.1 _ hmem rfl rfl
    have hzero := List.count_eq_zero.mpr hnone
    refine ⟨_, rfl, Ready.startInLoop ?_ savedErrno⟩
    obtain ⟨hsock, hchan⟩ := h.resting (by rw [hstate]; simp)
    rw [hcount, hzero] at hchan
    refine ⟨hstate, ?_, hsock, ?_, hzero, ?_, h.entered, h.fresh⟩
    · rcases hchan with ⟨hnone, -⟩ | ⟨fd, -, hone⟩
      · exact hnone
      · cases hone
    · show fs.count .startInLoop + c.timers = 0
      omega
    · rcases h.delivered with hd | ⟨-, hs⟩
      · exact hd
      · rw [hstate] at hs
        cases hs
  | stopInLoop =>
    refine Single.stopInLoop (h.frame ?_ horder.2 ⟨c.connect_, fs, rfl⟩)
    intro g hg
    rw [hcount, if_neg (Ne.symm hg)]
    rfl
  | resetChannel =>
    have hne : c.state_ ≠ .kConnecting := by
      intro hs
      obtain ⟨-, -, -, hzero⟩ := h.trying hs
      rw [hcount] at hzero
      cases hzero
    obtain ⟨hsock, hchan⟩ := h.resting hne
    have hzero : fs.count .resetChannel = 0 := by
      rw [hcount, if_pos rfl] at hchan
      omega
    have hstarts : ({ c with pendingFunctors_ := fs }.resetChannel).starts = c.starts := by
      unfold Connector.starts
      rw [hcount]
      rfl
    refine ⟨_, rfl, ?_, ?_, horder.2, fun hs => absurd hs hne, ?_, h.delivered, h.entered, h.fresh⟩
    · rw [hstarts]
      exact h.starts
    · rw [hstarts]
      exact h.ready
    · exact fun _ => ⟨hsock, Or.inl ⟨rfl, hzero⟩⟩

/-- A retry timer fires. -/
theorem Single.timer (h : Single c) (hpos : 0 < c.timers) (savedErrno : ConnectErrno)
    (hproper : c.connect_ = true → .resetChannel ∉ c.pendingFunctors_) :
    Single ({ c with timers := c.timers - 1 }.startInLoop savedErrno) := by
  have hle := h.starts
  unfold Connector.starts at hle
  have hstate : c.state_ = .kDisconnected := by
    refine h.ready ?_
    unfold Connector.starts
    omega
  have hsingle : Single { c with timers := c.timers - 1 } := by
    refine ⟨?_, fun _ => hstate, h.order, h.trying, h.resting, h.delivered, h.entered, h.fresh⟩
    show c.pendingFunctors_.count .startInLoop + (c.timers - 1) ≤ 1
    omega
  by_cases hconnect : c.connect_ = true
  · refine Ready.startInLoop (hsingle.ready_of hstate ?_ (hproper hconnect)) savedErrno
    show c.pendingFunctors_.count .startInLoop + (c.timers - 1) = 0
    omega
  · rw [startInLoop_eq (c := { c with timers := c.timers - 1 }) hstate, if_neg hconnect]
    exact hsingle

theorem Single.step (h : Single c) {a : ConnectorAction} (hproper : c.Proper a)
    (hs : c.step a = some c') : Single c' := by
  cases a with
  | start inLoop savedErrno =>
    obtain ⟨hstate, hstarts, hreset⟩ := hproper
    obtain rfl := Option.some.inj hs
    unfold Connector.start
    split
    · rename_i hin
      have hsingle : Single { c with connect_ := true } :=
        h.frame (fun _ _ => rfl) h.order ⟨true, _, rfl⟩
      exact (hsingle.ready_of hstate hstarts (hreset hin)).startInLoop savedErrno
    · exact h.queueStart hstate hstarts
  | stop =>
    obtain rfl := Option.some.inj hs
    exact h.stop
  | restart savedErrno =>
    obtain ⟨hstate, hstarts, hdelivered, hreset⟩ := hproper
    obtain rfl := Option.some.inj hs
    have hzero := List.count_eq_zero.mpr hreset
    obtain ⟨hsock, hchan⟩ := h.resting hstate
    have hnone : c.channel_ = none := by
      rcases hchan with ⟨hnone, -⟩ | ⟨fd, -, hone⟩
      · exact hnone
      · omega
    have hready : Ready { c with
        state_ := .kDisconnected
        retryDelayMs_ := kInitRetryDelayMs
        connect_ := true } :=
      ⟨rfl, hnone, hsock, hstarts, hzero, hdelivered, h.entered, h.fresh⟩
    exact hready.startInLoop savedErrno
  | functor savedErrno =>
    dsimp only [Connector.step] at hs
    split at hs
    · rename_i f fs hfs
      obtain ⟨c₁, hc₁, h₁⟩ := h.functor hfs savedErrno
      obtain rfl := Option.some.inj (hc₁.symm.trans hs)
      exact h₁
    · cases hs
  | timer savedErrno =>
    dsimp only [Connector.step] at hs
    split at hs
    · rename_i hpos
      obtain rfl := Option.some.inj hs
      exact h.timer hpos savedErrno hproper
    · cases hs
  | event error writable err selfConnect =>
    dsimp only [Connector.step] at hs
    split at hs
    · obtain ⟨c₁, hc₁, h₁⟩ := h.handleEvent error writable err selfConnect
      obtain rfl := Option.some.inj (hc₁.symm.trans hs)
      exact h₁
    · cases hs
  | closed =>
    dsimp only [Connector.step] at hs
    split at hs
    · obtain rfl := Option.some.inj hs
      refine ⟨h.starts, h.ready, h.order, h.trying, h.resting, ?_, h.entered, h.fresh⟩
      refine Or.inl ?_
      show c.delivered - 1 = 0
      rcases h.delivered with hd | ⟨hd, -⟩ <;> omega
    · cases hs

theorem single_init : Single init where
  starts := Nat.zero_le _
  ready hpos := absurd rfl (Nat.ne_of_gt hpos)
  order := List.Pairwise.nil
  trying hs := by cases hs
  resting _ := ⟨rfl, Or.inl ⟨rfl, rfl⟩⟩
  delivered := Or.inl rfl
  entered := rfl
  fresh := rfl

theorem single_reaches (h : Reaches step Proper init c) : Single c :=
  h.invariant single_init fun _ _ _ hc hp hs => hc.step hp hs

end Connector

end Mmvx.Net
