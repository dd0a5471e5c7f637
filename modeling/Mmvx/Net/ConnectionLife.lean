/-
  How often a connection of a `TcpServer` reports `UP` and `DOWN`.

  A run has readiness events, `shutdown()`, `forceClose()`, `send()`, the functors of the
  connection's loop in their order, and the destruction of the server, in any order. The callbacks
  of one readiness event are separate steps, since what the user's callbacks do in between counts
  as steps of its own. `sameLoop` says that the server runs in the loop of the connection.

  `handleClose` reports `DOWN` in any state, and `connectDestroyed` only in `kConnected`. So each
  is reported once exactly when `handleClose` is not entered by a connection that is already
  `kDisconnected`, and `connectDestroyed` not by one that is `kDisconnecting` (`reports_once_iff`).
-/
import Mmvx.Lib.Run
import Mmvx.Net.TcpConnection

namespace Mmvx.Net

open Mmvx.Lib

inductive LifeEvent where
  /-- The poller reports the channel. -/
  | ready (revents : Revents)
  /-- The next callback of the readiness event; `rd` and `w` are what the kernel returns. -/
  | callback (rd : ReadResult) (w : WriteResult)
  /-- The loop runs the first functor of its queue. -/
  | functor (w : WriteResult)
  | shutdown (inLoop : Bool)
  | forceClose
  | send (inLoop : Bool) (data : List UInt8) (w : WriteResult)
  /-- The server's loop runs `removeConnectionInLoop`. -/
  | removeConnectionInLoop
  /-- `~TcpServer`. -/
  | destroyServer
  deriving DecidableEq, Repr

structure Life where
  conn : TcpConnection
  pendingFunctors_ : List PendingFunctor
  /-- The callbacks of the readiness event that are still to be made. -/
  active : List ChannelCallback
  /-- The server exists. -/
  alive : Bool
  /-- `connections_` of the server has the connection. -/
  listed : Bool
  /-- The number of `removeConnectionInLoop` functors in the server's loop. -/
  removing : Nat
  /-- What `connected()` was at each call of `connectionCallback_`. -/
  callbacks : List Bool
  /-- `connectEstablished` has run. -/
  established : Bool
  /-- `connectDestroyed` has run. -/
  destroyed : Bool

namespace Life

section

variable (sameLoop : Bool)

/-- `removeConnectionInLoop`. After `~TcpServer` its behaviour is undefined, and nothing is assumed
    to happen to the connection. -/
def removeConnectionInLoop (s : Life) : Life :=
  if s.alive then
    { s with listed := false, pendingFunctors_ := s.pendingFunctors_ ++ [.connectDestroyed] }
  else s

def removeConnection (s : Life) : Life :=
  if sameLoop then s.removeConnectionInLoop else { s with removing := s.removing + 1 }

def act (s : Life) : Act → Life
  | .connectionCallback connected => { s with callbacks := s.callbacks ++ [connected] }
  | .closeCallback => s.removeConnection sameLoop
  | .queueInLoop functor => { s with pendingFunctors_ := s.pendingFunctors_ ++ [functor] }
  | _ => s

/-- A handler has left the connection as `r.1` and done `r.2`. -/
def perform (s : Life) (r : TcpConnection × List Act) : Life :=
  r.2.foldl (act sameLoop) { s with conn := r.1 }

def runFunctor (s : Life) (w : WriteResult) : PendingFunctor → Life
  | .sendInLoop data => s.perform sameLoop (s.conn.sendInLoop data w)
  | .shutdownInLoop => s.perform sameLoop (s.conn, s.conn.shutdownInLoop)
  | .forceCloseInLoop => s.perform sameLoop s.conn.forceCloseInLoop
  | .connectEstablished =>
    { s with established := true }.perform sameLoop s.conn.connectEstablished
  | .connectDestroyed => { s with destroyed := true }.perform sameLoop s.conn.connectDestroyed
  | .writeCompleteCallback => s
  | .highWaterMarkCallback _ => s

/-- `runInLoop`, from the loop's thread or from another one. -/
def runInLoop (s : Life) (inLoop : Bool) (w : WriteResult) (functor : PendingFunctor) : Life :=
  if inLoop then s.runFunctor sameLoop w functor
  else { s with pendingFunctors_ := s.pendingFunctors_ ++ [functor] }

def runCallback (s : Life) (rd : ReadResult) (w : WriteResult) : ChannelCallback → Life
  | .close => s.perform sameLoop s.conn.handleClose
  -- `handleError` only logs
  | .error => s
  | .read => s.perform sameLoop (s.conn.handleRead rd)
  | .write => s.perform sameLoop (s.conn.handleWrite w)

def step (s : Life) : LifeEvent → Option Life
  | .ready revents =>
    if s.conn.channel_.polled ∧ s.active = [] then
      some { s with active := handleEventWithGuard revents }
    else none
  | .callback rd w =>
    match s.active with
    | callback :: rest => some ({ s with active := rest }.runCallback sameLoop rd w callback)
    | [] => none
  | .functor w =>
    match s.active, s.pendingFunctors_ with
    | [], functor :: rest =>
      some ({ s with pendingFunctors_ := rest }.runFunctor sameLoop w functor)
    | _, _ => none
  | .shutdown inLoop =>
    match s.conn.beginShutdown with
    | some conn => some ({ s with conn := conn }.runInLoop sameLoop inLoop (.wrote 0) .shutdownInLoop)
    | none => some s
  | .forceClose => some (s.perform sameLoop s.conn.forceClose)
  | .send inLoop data w =>
    if s.conn.state_ = .kConnected then some (s.runInLoop sameLoop inLoop w (.sendInLoop data))
    else some s
  | .removeConnectionInLoop =>
    if 0 < s.removing then
      some { s.removeConnectionInLoop with removing := s.removing - 1 }
    else none
  | .destroyServer =>
    if s.alive then
      if s.listed then
        some ({ s with alive := false }.runInLoop sameLoop sameLoop (.wrote 0) .connectDestroyed)
      else some { s with alive := false }
    else none

/-- `newConnection`: `runInLoop(connectEstablished)` on a new connection. -/
def newConnection (writeCompleteCallback_ highWaterMarkCallback_ : Bool) (highWaterMark_ : Nat) :
    Life :=
  runInLoop sameLoop
    { conn := .new writeCompleteCallback_ highWaterMarkCallback_ highWaterMark_
      pendingFunctors_ := []
      active := []
      alive := true
      listed := true
      removing := 0
      callbacks := []
      established := false
      destroyed := false } sameLoop (.wrote 0) .connectEstablished

end

/-- `UP` is reported once, when `connectEstablished` runs, and `DOWN` at most once, and once by the
    time `connectDestroyed` has run. -/
structure ReportsOnce (s : Life) : Prop where
  up_le : s.callbacks.count true ≤ 1
  up : s.established = true → s.callbacks.count true = 1
  down_le : s.callbacks.count false ≤ 1
  down : s.destroyed = true → s.callbacks.count false = 1

/-- The step does not let a connection that is `kDisconnected` enter `handleClose`, nor one that is
    `kDisconnecting` enter `connectDestroyed`. -/
def Orderly (sameLoop : Bool) (s : Life) : LifeEvent → Prop
  | .callback rd _ =>
    s.active.head? = some .close ∨ (s.active.head? = some .read ∧ rd = .zero) →
      s.conn.state_ ≠ .kDisconnected
  | .functor _ =>
    s.pendingFunctors_.head? = some .connectDestroyed → s.conn.state_ ≠ .kDisconnecting
  | .destroyServer => sameLoop = true → s.listed = true → s.conn.state_ ≠ .kDisconnecting
  | _ => True

/-! ## What a handler does -/

/-- What `connected()` is at the calls of `connectionCallback_` in a list of acts. -/
def reports (acts : List Act) : List Bool :=
  acts.filterMap fun
    | .connectionCallback connected => some connected
    | _ => none

/-- What acts leave as it is, and that they queue no `connectEstablished`. -/
structure Follows (s s' : Life) (reported : List Bool) : Prop where
  callbacks : s'.callbacks = s.callbacks ++ reported
  active : s'.active = s.active
  established : s'.established = s.established
  destroyed : s'.destroyed = s.destroyed
  pending : ∃ extra, s'.pendingFunctors_ = s.pendingFunctors_ ++ extra ∧
    .connectEstablished ∉ extra

theorem Follows.refl (s : Life) : Follows s s [] :=
  ⟨(List.append_nil _).symm, rfl, rfl, rfl, [], (List.append_nil _).symm, List.not_mem_nil⟩

theorem Follows.trans {s s' s'' : Life} {a b : List Bool} (h : Follows s s' a)
    (h' : Follows s' s'' b) : Follows s s'' (a ++ b) := by
  obtain ⟨x, hx, hxn⟩ := h.pending
  obtain ⟨y, hy, hyn⟩ := h'.pending
  refine ⟨by rw [h'.callbacks, h.callbacks, List.append_assoc], h'.active.trans h.active,
    h'.established.trans h.established, h'.destroyed.trans h.destroyed, x ++ y,
    by rw [hy, hx, List.append_assoc], ?_⟩
  exact fun hm => (List.mem_append.mp hm).elim hxn hyn

theorem follows_queue (s : Life) {f : PendingFunctor} (hf : f ≠ .connectEstablished) :
    Follows s { s with pendingFunctors_ := s.pendingFunctors_ ++ [f] } [] :=
  ⟨(List.append_nil _).symm, rfl, rfl, rfl, [f], rfl, by simpa using hf.symm⟩

variable {sameLoop : Bool}

theorem follows_removeConnectionInLoop (s : Life) : Follows s s.removeConnectionInLoop [] := by
  unfold removeConnectionInLoop
  split
  · exact ⟨(List.append_nil _).symm, rfl, rfl, rfl, [_], rfl, by simp⟩
  · exact .refl s

theorem removeConnectionInLoop_conn (s : Life) : s.removeConnectionInLoop.conn = s.conn := by
  unfold removeConnectionInLoop
  split <;> rfl

theorem follows_act (s : Life) (a : Act) (ha : .connectEstablished ∉ queued [a]) :
    Follows s (s.act sameLoop a) (reports [a]) ∧ (s.act sameLoop a).conn = s.conn := by
  cases a with
  | connectionCallback b =>
    exact ⟨⟨rfl, rfl, rfl, rfl, [], (List.append_nil _).symm, List.not_mem_nil⟩, rfl⟩
  | closeCallback =>
    simp only [act, removeConnection]
    split
    · exact ⟨follows_removeConnectionInLoop s, removeConnectionInLoop_conn s⟩
    · exact ⟨⟨(List.append_nil _).symm, rfl, rfl, rfl, [], (List.append_nil _).symm,
        List.not_mem_nil⟩, rfl⟩
  | queueInLoop f =>
    exact ⟨follows_queue s (by simpa [queued, eq_comm] using ha), rfl⟩
  | write data => exact ⟨.refl s, rfl⟩
  | shutdownWrite => exact ⟨.refl s, rfl⟩
  | messageCallback => exact ⟨.refl s, rfl⟩

theorem follows_perform (s : Life) (r : TcpConnection × List Act)
    (h : .connectEstablished ∉ queued r.2) :
    Follows s (s.perform sameLoop r) (reports r.2) ∧ (s.perform sameLoop r).conn = r.1 := by
  obtain ⟨c, acts⟩ := r
  suffices hfold : ∀ t : Life, Follows t (acts.foldl (act sameLoop) t) (reports acts) ∧
      (acts.foldl (act sameLoop) t).conn = t.conn by
    obtain ⟨hf, hc⟩ := hfold { s with conn := c }
    exact ⟨⟨hf.callbacks, hf.active, hf.established, hf.destroyed, hf.pending⟩, hc⟩
  induction acts with
  | nil =>
    intro t
    exact ⟨.refl t, rfl⟩
  | cons a acts ih =>
    intro t
    have hsplit : queued (a :: acts) = queued [a] ++ queued acts := List.filterMap_append (l := [a])
    have hreports : reports (a :: acts) = reports [a] ++ reports acts :=
      List.filterMap_append (l := [a])
    rw [hsplit, List.mem_append, not_or] at h
    obtain ⟨hf, hc⟩ : Follows t (t.act sameLoop a) (reports [a]) ∧ (t.act sameLoop a).conn = t.conn :=
      follows_act t a h.1
    obtain ⟨hf', hc'⟩ := ih h.2 (t.act sameLoop a)
    rw [hreports, List.foldl_cons]
    exact ⟨hf.trans hf', hc'.trans hc⟩

/-- A handler that reports nothing and leaves `state_` alone. -/
structure Silent (c : TcpConnection) (r : TcpConnection × List Act) : Prop where
  state : r.1.state_ = c.state_
  reports : reports r.2 = []
  queued : .connectEstablished ∉ queued r.2

theorem silent_nil (c : TcpConnection) : Silent c (c, []) := ⟨rfl, rfl, List.not_mem_nil⟩

theorem silent_appendOutput (c : TcpConnection) (remaining : List UInt8) :
    Silent c (c.appendOutput remaining) := by
  unfold TcpConnection.appendOutput
  split
  · exact silent_nil c
  · refine ⟨rfl, ?_, ?_⟩
    · dsimp only
      split <;> rfl
    · dsimp only
      split <;> simp [Net.queued]

theorem silent_sendInLoop (c : TcpConnection) (data : List UInt8) (w : WriteResult) :
    Silent c (c.sendInLoop data w) := by
  unfold TcpConnection.sendInLoop TcpConnection.queueWriteComplete
  split
  · exact silent_nil c
  · split
    · split
      · rename_i n
        obtain ⟨hstate, hrep, hq⟩ := silent_appendOutput c (data.drop n)
        refine ⟨hstate, ?_, ?_⟩
        · simp only [Life.reports, List.filterMap_cons, List.filterMap_append] at hrep ⊢
          rw [hrep, List.append_nil]
          split
          · split <;> rfl
          · rfl
        · simp only [Net.queued, List.filterMap_cons, List.filterMap_append] at hq ⊢
          rw [List.mem_append, not_or]
          refine ⟨?_, hq⟩
          split
          · split <;> simp
          · simp
      · split
        · exact silent_nil c
        · exact silent_appendOutput c data
    · exact silent_appendOutput c data

theorem silent_shutdownInLoop (c : TcpConnection) : Silent c (c, c.shutdownInLoop) := by
  unfold TcpConnection.shutdownInLoop
  split
  · exact ⟨rfl, rfl, by simp [Net.queued]⟩
  · exact silent_nil c

theorem silent_retrieveOutput (c : TcpConnection) (n : Nat) : Silent c (c.retrieveOutput n) := by
  unfold TcpConnection.retrieveOutput TcpConnection.queueWriteComplete TcpConnection.shutdownInLoop
  dsimp only
  split
  · refine ⟨rfl, ?_, ?_⟩
    · simp only [Life.reports, List.filterMap_append]
      split <;> split <;> rfl
    · simp only [Net.queued, List.filterMap_append, List.mem_append, not_or]
      refine ⟨?_, ?_⟩
      · split <;> simp
      · split <;> simp [Channel.disableWriting]
  · exact ⟨rfl, rfl, List.not_mem_nil⟩

theorem silent_handleWrite (c : TcpConnection) (w : WriteResult) : Silent c (c.handleWrite w) := by
  unfold TcpConnection.handleWrite
  split
  · split
    · rename_i n
      split
      · obtain ⟨hstate, hrep, hq⟩ := silent_retrieveOutput c n
        exact ⟨hstate, hrep, hq⟩
      · exact silent_nil c
    · exact silent_nil c
  · exact silent_nil c

/-! ## The invariant -/

/-- Where `state_` stands, and what has been reported so far. While the connection is
    `kConnecting` its channel is not polled and `connectEstablished` is the first functor. -/
structure Inv (sameLoop : Bool) (s : Life) : Prop where
  established : s.established = true ↔ s.conn.state_ ≠ .kConnecting
  ups : s.callbacks.count true = if s.conn.state_ = .kConnecting then 0 else 1
  downs : s.conn.state_ = .kDisconnected ↔ 1 ≤ s.callbacks.count false
  fresh : s.conn.state_ = .kConnecting → sameLoop = false ∧ s.active = [] ∧
    s.conn.channel_.polled = false ∧ s.destroyed = false ∧
    ∃ rest, s.pendingFunctors_ = .connectEstablished :: rest ∧ .connectEstablished ∉ rest
  once : s.conn.state_ ≠ .kConnecting → .connectEstablished ∉ s.pendingFunctors_

/-- What a step is to keep, and when it keeps the reports in order. -/
def Keeps (sameLoop : Bool) (s : Life) (e : LifeEvent) (s' : Life) : Prop :=
  s'.Inv sameLoop ∧ (s.ReportsOnce → (s'.ReportsOnce ↔ s.Orderly sameLoop e))

theorem Inv.reportsOnce_iff {s : Life} (h : s.Inv sameLoop) :
    s.ReportsOnce ↔ s.callbacks.count false ≤ 1 ∧
      (s.destroyed = true → s.callbacks.count false = 1) := by
  have hups := h.ups
  constructor
  · intro hr
    exact ⟨hr.down_le, hr.down⟩
  · rintro ⟨hle, hdown⟩
    refine ⟨?_, ?_, hle, hdown⟩
    · rw [hups]
      split <;> omega
    · intro hest
      rw [hups, if_neg (h.established.mp hest)]

theorem Follows.not_mem {s s' : Life} {reported : List Bool} (hf : Follows s s' reported)
    (h : PendingFunctor.connectEstablished ∉ s.pendingFunctors_) :
    .connectEstablished ∉ s'.pendingFunctors_ := by
  obtain ⟨extra, hp, hn⟩ := hf.pending
  rw [hp]
  exact fun hm => (List.mem_append.mp hm).elim h hn

/-- `t` is `s` with a functor or a callback taken out, or with another state of the connection. -/
structure Taken (s t : Life) : Prop where
  callbacks : t.callbacks = s.callbacks
  established : t.established = s.established
  pending : ∀ f ∈ t.pendingFunctors_, f ∈ s.pendingFunctors_

theorem Taken.refl (s : Life) : Taken s s := ⟨rfl, rfl, fun _ hf => hf⟩

/-- A step of an established connection. -/
theorem Inv.later {s t s' : Life} {reported : List Bool} (h : s.Inv sameLoop)
    (hup : s.conn.state_ ≠ .kConnecting) (hup' : s'.conn.state_ ≠ .kConnecting) (ht : Taken s t)
    (hf : Follows t s' reported) (htrue : reported.count true = 0)
    (hdown : s'.conn.state_ = .kDisconnected ↔
      s.conn.state_ = .kDisconnected ∨ 1 ≤ reported.count false) : s'.Inv sameLoop := by
  refine ⟨?_, ?_, ?_, fun hc => absurd hc hup', fun _ => hf.not_mem fun hm =>
    h.once hup (ht.pending _ hm)⟩
  · rw [hf.established, ht.established, h.established]
    exact ⟨fun _ => hup', fun _ => hup⟩
  · rw [hf.callbacks, ht.callbacks, List.count_append, htrue, h.ups, if_neg hup, if_neg hup']
  · rw [hdown, h.downs, hf.callbacks, ht.callbacks, List.count_append]
    omega

/-- A step that reports nothing. -/
theorem Inv.keeps_silent {s t s' : Life} {e : LifeEvent} (h : s.Inv sameLoop)
    (hup : s.conn.state_ ≠ .kConnecting) (ht : Taken s t) (hdes : t.destroyed = s.destroyed)
    (hf : Follows t s' [])
    (hstate : s'.conn.state_ = s.conn.state_ ∨
      ((s.conn.state_ = .kConnected ∨ s.conn.state_ = .kDisconnecting) ∧
        s'.conn.state_ = .kDisconnecting)) (he : s.Orderly sameLoop e) :
    s.Keeps sameLoop e s' := by
  have hup' : s'.conn.state_ ≠ .kConnecting := by
    rcases hstate with hstate | ⟨-, hstate⟩ <;> rw [hstate]
    · exact hup
    · decide
  have hdown : s'.conn.state_ = .kDisconnected ↔
      s.conn.state_ = .kDisconnected ∨ 1 ≤ ([] : List Bool).count false := by
    rcases hstate with hstate | ⟨hwas, hstate⟩
    · simp [hstate]
    · rcases hwas with hwas | hwas <;> simp [hstate, hwas]
  have hinv := h.later hup hup' ht hf rfl hdown
  refine ⟨hinv, fun hr => ⟨fun _ => he, fun _ => ?_⟩⟩
  rw [hinv.reportsOnce_iff, hf.callbacks, hf.destroyed, ht.callbacks, hdes, List.append_nil]
  exact ⟨hr.down_le, hr.down⟩

/-- A silent handler runs. -/
theorem Inv.keeps_perform {s t : Life} {e : LifeEvent} {r : TcpConnection × List Act}
    (h : s.Inv sameLoop) (hup : s.conn.state_ ≠ .kConnecting) (ht : Taken s t)
    (hconn : t.conn = s.conn) (hdes : t.destroyed = s.destroyed) (hr : Silent t.conn r)
    (he : s.Orderly sameLoop e) : s.Keeps sameLoop e (t.perform sameLoop r) := by
  obtain ⟨hf, hc⟩ : Follows t (t.perform sameLoop r) (reports r.2) ∧
    (t.perform sameLoop r).conn = r.1 := follows_perform t r hr.queued
  rw [hr.reports] at hf
  exact h.keeps_silent hup ht hdes hf (Or.inl (by rw [hc, hr.state, hconn])) he

/-- While `DOWN` was not reported, the connection is not `kDisconnected`. -/
theorem Inv.count_false {s : Life} (h : s.Inv sameLoop) (hr : s.ReportsOnce) :
    s.callbacks.count false = if s.conn.state_ = .kDisconnected then 1 else 0 := by
  have hle := hr.down_le
  split
  · rename_i hstate
    have := h.downs.mp hstate
    omega
  · rename_i hne
    by_contra hpos
    exact hne (h.downs.mpr (by omega))

/-- `handleClose` runs. -/
theorem Inv.keeps_handleClose {s t : Life} {e : LifeEvent} (h : s.Inv sameLoop)
    (hup : s.conn.state_ ≠ .kConnecting) (ht : Taken s t) (hdes : t.destroyed = s.destroyed)
    (he : s.Orderly sameLoop e ↔ s.conn.state_ ≠ .kDisconnected) :
    s.Keeps sameLoop e (t.perform sameLoop t.conn.handleClose) := by
  obtain ⟨hf, hc⟩ : Follows t (t.perform sameLoop t.conn.handleClose) [false] ∧
      (t.perform sameLoop t.conn.handleClose).conn = t.conn.handleClose.1 :=
    follows_perform t t.conn.handleClose (by simp [TcpConnection.handleClose, Net.queued])
  have hstate : (t.perform sameLoop t.conn.handleClose).conn.state_ = .kDisconnected := by
    rw [hc]
    rfl
  have hinv := h.later hup (by rw [hstate]; decide) ht hf rfl (by simp [hstate])
  refine ⟨hinv, fun hr => ?_⟩
  rw [he, hinv.reportsOnce_iff, hf.callbacks, hf.destroyed, ht.callbacks, hdes, List.count_append,
    h.count_false hr, List.count_singleton_self]
  split
  · rename_i hdown
    simp [hdown]
  · rename_i hdown
    simp [hdown]

/-- `connectDestroyed` runs. -/
theorem Inv.keeps_connectDestroyed {s t : Life} {e : LifeEvent} (h : s.Inv sameLoop)
    (hup : s.conn.state_ ≠ .kConnecting) (ht : Taken s t) (hsame : t.conn = s.conn)
    (hdes : t.destroyed = true) (he : s.Orderly sameLoop e ↔ s.conn.state_ ≠ .kDisconnecting) :
    s.Keeps sameLoop e (t.perform sameLoop t.conn.connectDestroyed) := by
  by_cases hconn : s.conn.state_ = .kConnected
  · have hr : reports t.conn.connectDestroyed.2 = [false] ∧
        .connectEstablished ∉ queued t.conn.connectDestroyed.2 ∧
        t.conn.connectDestroyed.1.state_ = .kDisconnected := by
      rw [TcpConnection.connectDestroyed, if_pos (by rw [hsame]; exact hconn)]
      exact ⟨rfl, by simp [Net.queued], rfl⟩
    obtain ⟨hf, hc⟩ : Follows t (t.perform sameLoop t.conn.connectDestroyed) _ ∧ _ :=
      follows_perform t t.conn.connectDestroyed hr.2.1
    rw [hr.1] at hf
    have hstate : (t.perform sameLoop t.conn.connectDestroyed).conn.state_ = .kDisconnected := by
      rw [hc]
      exact hr.2.2
    have hinv := h.later hup (by rw [hstate]; decide) ht hf rfl (by simp [hstate])
    refine ⟨hinv, fun hrep => ?_⟩
    rw [he, hinv.reportsOnce_iff, hf.callbacks, ht.callbacks, List.count_append,
      h.count_false hrep, hconn]
    simp
  · have hr : Silent t.conn t.conn.connectDestroyed := by
      rw [TcpConnection.connectDestroyed, if_neg (by rw [hsame]; exact hconn)]
      exact ⟨rfl, rfl, List.not_mem_nil⟩
    obtain ⟨hf, hc⟩ : Follows t (t.perform sameLoop t.conn.connectDestroyed) _ ∧ _ :=
      follows_perform t t.conn.connectDestroyed hr.queued
    rw [hr.reports] at hf
    have hstate : (t.perform sameLoop t.conn.connectDestroyed).conn.state_ = s.conn.state_ := by
      rw [hc, hr.state, hsame]
    have hinv := h.later hup (by rw [hstate]; exact hup) ht hf rfl (by simp [hstate])
    refine ⟨hinv, fun hrep => ?_⟩
    rw [he, hinv.reportsOnce_iff, hf.callbacks, hf.destroyed, ht.callbacks, hdes, List.append_nil,
      h.count_false hrep]
    -- what is left is `kDisconnecting` or `kDisconnected`
    cases hs : s.conn.state_ <;> simp_all

/-! ## One step -/

/-- A connection that is `kConnecting` waits for its first functor. -/
theorem Inv.keeps_waiting {s s' : Life} {e : LifeEvent} (h : s.Inv sameLoop)
    (hfresh : s.conn.state_ = .kConnecting) (hconn : s'.conn = s.conn) (hf : Follows s s' [])
    (he : s.Orderly sameLoop e) : s.Keeps sameLoop e s' := by
  obtain ⟨hloop, hactive, hpolled, hdes, rest, hp, hn⟩ := h.fresh hfresh
  obtain ⟨extra, hpend, hextra⟩ := hf.pending
  have hcb : s'.callbacks = s.callbacks := by rw [hf.callbacks, List.append_nil]
  have hinv : s'.Inv sameLoop := by
    refine ⟨?_, ?_, ?_, fun _ => ?_, fun hne => absurd (hconn ▸ hfresh) hne⟩
    · rw [hf.established, hconn]
      exact h.established
    · rw [hcb, hconn]
      exact h.ups
    · rw [hcb, hconn]
      exact h.downs
    · refine ⟨hloop, hf.active.trans hactive, by rw [hconn]; exact hpolled,
        hf.destroyed.trans hdes, rest ++ extra, by rw [hpend, hp]; rfl, ?_⟩
      exact fun hm => (List.mem_append.mp hm).elim hn hextra
  refine ⟨hinv, fun hr => ⟨fun _ => he, fun _ => ?_⟩⟩
  rw [hinv.reportsOnce_iff, hcb, hf.destroyed]
  exact ⟨hr.down_le, hr.down⟩

/-- `connectEstablished` runs. -/
theorem Inv.keeps_connectEstablished {s : Life} (h : s.Inv sameLoop)
    (hfresh : s.conn.state_ = .kConnecting) {rest : List PendingFunctor}
    (hn : .connectEstablished ∉ rest) {e : LifeEvent} (he : s.Orderly sameLoop e) :
    s.Keeps sameLoop e
      ({ s with pendingFunctors_ := rest, established := true }.perform sameLoop
        s.conn.connectEstablished) := by
  obtain ⟨-, hactive, -, hdes, -⟩ := h.fresh hfresh
  have hup := h.ups
  have hdowns := h.downs
  rw [if_pos hfresh] at hup
  have hzero : s.callbacks.count false = 0 := by
    by_contra hpos
    have hdown := hdowns.mpr (by omega)
    rw [hfresh] at hdown
    cases hdown
  have hinv : Inv sameLoop ({ s with pendingFunctors_ := rest, established := true }.perform
      sameLoop s.conn.connectEstablished) := by
    refine ⟨⟨fun _ hc => (by cases hc), fun _ => rfl⟩, ?_, ?_, ?_, fun _ => hn⟩
    · show (s.callbacks ++ [true]).count true = 1
      rw [List.count_append, hup]
      rfl
    · show StateE.kConnected = .kDisconnected ↔ 1 ≤ (s.callbacks ++ [true]).count false
      rw [List.count_append, hzero]
      decide
    · intro hc
      cases hc
  refine ⟨hinv, fun hr => ⟨fun _ => he, fun _ => ?_⟩⟩
  rw [hinv.reportsOnce_iff]
  show (s.callbacks ++ [true]).count false ≤ 1 ∧
    (s.destroyed = true → (s.callbacks ++ [true]).count false = 1)
  rw [List.count_append, hzero, hdes]
  decide

theorem Inv.keeps_functor {s : Life} (h : s.Inv sameLoop) {w : WriteResult} {f : PendingFunctor}
    {rest : List PendingFunctor} (hf : s.pendingFunctors_ = f :: rest) :
    s.Keeps sameLoop (.functor w)
      ({ s with pendingFunctors_ := rest }.runFunctor sameLoop w f) := by
  have horderly : s.Orderly sameLoop (.functor w) ↔
      (f = .connectDestroyed → s.conn.state_ ≠ .kDisconnecting) := by
    simp only [Orderly, hf, List.head?_cons, Option.some.injEq]
  by_cases hfresh : s.conn.state_ = .kConnecting
  · obtain ⟨-, -, -, -, rest', hp, hn⟩ := h.fresh hfresh
    rw [hp] at hf
    obtain ⟨rfl, rfl⟩ := List.cons.inj hf
    exact h.keeps_connectEstablished hfresh hn (horderly.mpr fun heq => by cases heq)
  · have ht : Taken s { s with pendingFunctors_ := rest } :=
      ⟨rfl, rfl, fun g hg => by rw [hf]; exact List.mem_cons_of_mem _ hg⟩
    cases f with
    | sendInLoop data =>
      exact h.keeps_perform hfresh ht rfl rfl (silent_sendInLoop _ data w)
        (horderly.mpr fun heq => by cases heq)
    | shutdownInLoop =>
      exact h.keeps_perform hfresh ht rfl rfl (silent_shutdownInLoop _)
        (horderly.mpr fun heq => by cases heq)
    | forceCloseInLoop =>
      have hany : s.Orderly sameLoop (.functor w) := horderly.mpr fun heq => by cases heq
      simp only [runFunctor]
      rw [TcpConnection.forceCloseInLoop]
      split
      · rename_i hopen
        refine h.keeps_handleClose hfresh ht rfl ⟨fun _ hdown => ?_, fun _ => hany⟩
        rcases hopen with hopen | hopen <;> rw [hdown] at hopen <;> cases hopen
      · exact h.keeps_perform hfresh ht rfl rfl (silent_nil _) hany
    | connectEstablished =>
      exact absurd (by rw [hf]; exact List.mem_cons_self) (h.once hfresh)
    | connectDestroyed =>
      refine h.keeps_connectDestroyed (t := { s with pendingFunctors_ := rest, destroyed := true })
        hfresh ⟨rfl, rfl, ht.pending⟩ rfl rfl ?_
      rw [horderly]
      simp
    | writeCompleteCallback =>
      exact h.keeps_silent hfresh ht rfl (.refl _) (Or.inl rfl)
        (horderly.mpr fun heq => by cases heq)
    | highWaterMarkCallback len =>
      exact h.keeps_silent hfresh ht rfl (.refl _) (Or.inl rfl)
        (horderly.mpr fun heq => by cases heq)

theorem Inv.keeps_callback {s : Life} (h : s.Inv sameLoop) {rd : ReadResult} {w : WriteResult}
    {callback : ChannelCallback} {rest : List ChannelCallback} (ha : s.active = callback :: rest) :
    s.Keeps sameLoop (.callback rd w)
      ({ s with active := rest }.runCallback sameLoop rd w callback) := by
  have hup : s.conn.state_ ≠ .kConnecting := by
    intro hfresh
    rw [(h.fresh hfresh).2.1] at ha
    cases ha
  have horderly : s.Orderly sameLoop (.callback rd w) ↔
      (callback = .close ∨ (callback = .read ∧ rd = .zero) → s.conn.state_ ≠ .kDisconnected) := by
    simp only [Orderly, ha, List.head?_cons, Option.some.injEq]
  have ht : Taken s { s with active := rest } := ⟨rfl, rfl, fun _ hf => hf⟩
  cases callback with
  | close =>
    refine h.keeps_handleClose hup ht rfl ?_
    rw [horderly]
    simp
  | error =>
    exact h.keeps_silent hup ht rfl (.refl _) (Or.inl rfl) (horderly.mpr (by simp))
  | read =>
    cases rd with
    | data bytes =>
      exact h.keeps_perform hup ht rfl rfl ⟨rfl, rfl, by simp [TcpConnection.handleRead, Net.queued]⟩
        (horderly.mpr (by simp))
    | zero =>
      refine h.keeps_handleClose hup ht rfl ?_
      rw [horderly]
      simp
    | failed errno =>
      exact h.keeps_perform hup ht rfl rfl (silent_nil _) (horderly.mpr (by simp))
  | write =>
    exact h.keeps_perform hup ht rfl rfl (silent_handleWrite _ w) (horderly.mpr (by simp))

/-- A call that changes nothing. -/
theorem Inv.keeps_same {s : Life} (h : s.Inv sameLoop) {e : LifeEvent}
    (he : s.Orderly sameLoop e) : s.Keeps sameLoop e s :=
  ⟨h, fun hr => ⟨fun _ => he, fun _ => hr⟩⟩

theorem Inv.keeps_shutdown {s : Life} (h : s.Inv sameLoop) {inLoop : Bool} {c : TcpConnection}
    (hc : s.conn.beginShutdown = some c) :
    s.Keeps sameLoop (.shutdown inLoop)
      ({ s with conn := c }.runInLoop sameLoop inLoop (.wrote 0) .shutdownInLoop) := by
  unfold TcpConnection.beginShutdown at hc
  split at hc
  · rename_i hup
    obtain rfl := Option.some.inj hc
    have hne : s.conn.state_ ≠ .kConnecting := by rw [hup]; decide
    have ht : Taken s { s with conn := { s.conn with state_ := .kDisconnecting } } :=
      ⟨rfl, rfl, fun _ hf => hf⟩
    unfold runInLoop
    split
    · obtain ⟨hstate, hrep, hq⟩ :=
        silent_shutdownInLoop { s.conn with state_ := .kDisconnecting }
      obtain ⟨hf, hconn⟩ : Follows _ (Life.perform sameLoop
          { s with conn := { s.conn with state_ := .kDisconnecting } }
          ({ s.conn with state_ := .kDisconnecting },
            TcpConnection.shutdownInLoop { s.conn with state_ := .kDisconnecting })) _ ∧ _ :=
        follows_perform _ _ hq
      rw [hrep] at hf
      exact h.keeps_silent hne ht rfl hf
        (Or.inr ⟨Or.inl hup, congrArg TcpConnection.state_ hconn⟩) trivial
    · exact h.keeps_silent hne ht rfl (follows_queue _ (by simp)) (Or.inr ⟨Or.inl hup, rfl⟩) trivial
  · cases hc

theorem Inv.keeps_forceClose {s : Life} (h : s.Inv sameLoop) :
    s.Keeps sameLoop .forceClose (s.perform sameLoop s.conn.forceClose) := by
  unfold TcpConnection.forceClose
  split
  · rename_i hopen
    have hne : s.conn.state_ ≠ .kConnecting := by
      rcases hopen with hopen | hopen <;> rw [hopen] <;> decide
    exact h.keeps_silent (t := { s with conn := { s.conn with state_ := .kDisconnecting } }) hne
      ⟨rfl, rfl, fun _ hf => hf⟩ rfl (follows_queue _ (by simp)) (Or.inr ⟨hopen, rfl⟩) trivial
  · exact h.keeps_same trivial

theorem Inv.keeps_send {s : Life} (h : s.Inv sameLoop) {inLoop : Bool} {data : List UInt8}
    {w : WriteResult} (hup : s.conn.state_ = .kConnected) :
    s.Keeps sameLoop (.send inLoop data w) (s.runInLoop sameLoop inLoop w (.sendInLoop data)) := by
  have hne : s.conn.state_ ≠ .kConnecting := by rw [hup]; decide
  unfold runInLoop
  split
  · exact h.keeps_perform hne (.refl s) rfl rfl (silent_sendInLoop _ data w) trivial
  · exact h.keeps_silent hne (.refl s) rfl (follows_queue s (by simp)) (Or.inl rfl) trivial

/-- The queue grows by a functor of the server. -/
theorem Inv.keeps_queued {s s' : Life} {e : LifeEvent} (h : s.Inv sameLoop)
    (hconn : s'.conn = s.conn) (hf : Follows s s' []) (he : s.Orderly sameLoop e) :
    s.Keeps sameLoop e s' := by
  by_cases hfresh : s.conn.state_ = .kConnecting
  · exact h.keeps_waiting hfresh hconn hf he
  · exact h.keeps_silent hfresh (.refl s) rfl hf (Or.inl (by rw [hconn])) he

theorem Inv.keeps_destroyServer {s : Life} (h : s.Inv sameLoop) (hlisted : s.listed = true) :
    s.Keeps sameLoop .destroyServer
      ({ s with alive := false }.runInLoop sameLoop sameLoop (.wrote 0) .connectDestroyed) := by
  unfold runInLoop
  split
  · rename_i hloop
    have hne : s.conn.state_ ≠ .kConnecting := by
      intro hfresh
      rw [(h.fresh hfresh).1] at hloop
      cases hloop
    refine h.keeps_connectDestroyed (t := { s with alive := false, destroyed := true }) hne
      ⟨rfl, rfl, fun _ hf => hf⟩ rfl rfl ?_
    simp [Orderly, hloop, hlisted]
  · rename_i hloop
    refine h.keeps_queued rfl ?_ (fun hsame => absurd hsame hloop)
    obtain ⟨hcb, ha, hest, hdes, hp⟩ := follows_queue { s with alive := false }
      (show PendingFunctor.connectDestroyed ≠ .connectEstablished by decide)
    exact ⟨hcb, ha, hest, hdes, hp⟩

/-- One step keeps the invariant, and the reports in order exactly when it is orderly. -/
theorem Inv.step {s s' : Life} (h : s.Inv sameLoop) {e : LifeEvent}
    (hs : s.step sameLoop e = some s') : s.Keeps sameLoop e s' := by
  cases e with
  | ready revents =>
    rw [Life.step] at hs
    split at hs
    · rename_i hpolled
      obtain rfl := Option.some.inj hs
      have hne : s.conn.state_ ≠ .kConnecting := by
        intro hfresh
        rw [(h.fresh hfresh).2.2.1] at hpolled
        cases hpolled.1
      exact h.keeps_silent (t := { s with active := handleEventWithGuard revents }) hne
        ⟨rfl, rfl, fun _ hf => hf⟩ rfl (.refl _) (Or.inl rfl) trivial
    · cases hs
  | callback rd w =>
    rw [Life.step] at hs
    split at hs
    · obtain rfl := Option.some.inj hs
      exact h.keeps_callback ‹_›
    · cases hs
  | functor w =>
    rw [Life.step] at hs
    split at hs
    · obtain rfl := Option.some.inj hs
      exact h.keeps_functor ‹_›
    · cases hs
  | shutdown inLoop =>
    rw [Life.step] at hs
    split at hs
    · obtain rfl := Option.some.inj hs
      exact h.keeps_shutdown ‹_›
    · obtain rfl := Option.some.inj hs
      exact h.keeps_same trivial
  | forceClose =>
    obtain rfl := Option.some.inj hs
    exact h.keeps_forceClose
  | send inLoop data w =>
    rw [Life.step] at hs
    split at hs
    · obtain rfl := Option.some.inj hs
      exact h.keeps_send ‹_›
    · obtain rfl := Option.some.inj hs
      exact h.keeps_same trivial
  | removeConnectionInLoop =>
    rw [Life.step] at hs
    split at hs
    · obtain rfl := Option.some.inj hs
      obtain ⟨hcb, ha, hest, hdes, hp⟩ := follows_removeConnectionInLoop s
      exact h.keeps_queued (removeConnectionInLoop_conn s) ⟨hcb, ha, hest, hdes, hp⟩ trivial
    · cases hs
  | destroyServer =>
    rw [Life.step] at hs
    split at hs
    · split at hs
      · obtain rfl := Option.some.inj hs
        exact h.keeps_destroyServer ‹_›
      · rename_i hlisted
        obtain rfl := Option.some.inj hs
        refine h.keeps_queued rfl ?_ (fun _ hl => absurd hl hlisted)
        obtain ⟨hcb, ha, hest, hdes, hp⟩ := Follows.refl s
        exact ⟨hcb, ha, hest, hdes, hp⟩
    · cases hs

theorem inv_newConnection (wc hw : Bool) (mark : Nat) :
    (newConnection sameLoop wc hw mark).Inv sameLoop := by
  unfold newConnection runInLoop
  split
  · refine ⟨⟨fun _ hc => (by cases hc), fun _ => rfl⟩, rfl, ⟨fun hc => (by cases hc), ?_⟩,
      fun hc => (by cases hc), fun _ => List.not_mem_nil⟩
    intro hc
    exact absurd hc (show ¬ 1 ≤ [true].count false by decide)
  · rename_i hloop
    refine ⟨⟨fun hc => (by cases hc), fun hc => absurd rfl hc⟩, rfl, ⟨fun hc => (by cases hc), ?_⟩,
      fun _ => ?_, fun hc => absurd rfl hc⟩
    · intro hc
      exact absurd hc (show ¬ 1 ≤ [].count false by decide)
    · exact ⟨by simpa using hloop, rfl, rfl, rfl, [], rfl, List.not_mem_nil⟩

theorem reportsOnce_newConnection (wc hw : Bool) (mark : Nat) :
    (newConnection sameLoop wc hw mark).ReportsOnce := by
  rw [(inv_newConnection wc hw mark).reportsOnce_iff]
  unfold newConnection runInLoop
  split
  · exact ⟨show [true].count false ≤ 1 by decide, fun hc => (by cases hc)⟩
  · exact ⟨show [].count false ≤ 1 by decide, fun hc => (by cases hc)⟩

end Life

/-- **`UP` once and `DOWN` once.** For a connection accepted by a `TcpServer` and any order of
    readiness events, reads, calls, functors and the destruction of the server: in all states of a
    run `UP` is reported once when it is established, `DOWN` at most once, and once by the time
    `connectDestroyed` has run, if and only if every step is orderly. -/
theorem reports_once_iff (sameLoop wc hw : Bool) (mark : Nat) (events : List LifeEvent) :
    (∀ i s, run (Life.step sameLoop) (Life.newConnection sameLoop wc hw mark) (events.take i) =
        some s → s.ReportsOnce) ↔
      ∀ i e s s', events[i]? = some e →
        run (Life.step sameLoop) (Life.newConnection sameLoop wc hw mark) (events.take i) = some s →
        s.step sameLoop e = some s' → s.Orderly sameLoop e := by
  apply forall_states_iff (I := Life.Inv sameLoop)
  · exact Life.inv_newConnection wc hw mark
  · intro s e s' hinv hs
    exact (hinv.step hs).1
  · exact Life.reportsOnce_newConnection wc hw mark
  · intro s e s' hinv hr hs
    exact (hinv.step hs).2 hr

/-- A server whose connections run in another loop is destroyed after `shutdown()`, before the peer
    has closed: `DOWN` is not reported. -/
theorem reports_down_missing :
    ¬ ∀ (sameLoop wc hw : Bool) (mark : Nat) (events : List LifeEvent) (i : Nat) (s : Life),
      run (Life.step sameLoop) (Life.newConnection sameLoop wc hw mark) (events.take i) = some s →
        s.ReportsOnce := by
  intro h
  have hreports := h false false false 0
    [.functor (.wrote 0), .shutdown true, .destroyServer, .functor (.wrote 0)] 4 _ rfl
  exact absurd (hreports.down (by decide)) (by decide)

end Mmvx.Net
