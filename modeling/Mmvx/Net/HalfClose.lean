/-
  `send()` and `shutdown()` of one connection, called from its loop and from other threads.

  A call from the loop's thread runs at once. One from another thread tests `state_` and then puts a
  functor into the loop's queue; the two are separate steps, and the functor runs later. `accepted`
  is the data of every `send()` that found `kConnected`; `halfClosed` is what had been written when
  `shutdownWrite()` was called first.

  What is in `outputBuffer_` is always waited for. A send whose functor has not run is not: all
  accepted output precedes the half-close exactly when no such send is left over at a step that
  ends the output (`half_close_iff`).
-/
import Mmvx.Net.OutputStream

namespace Mmvx.Net

open Mmvx.Lib

inductive ShutdownEvent where
  /-- `send()` from the loop's thread; `w` is what the kernel returns if it is asked. -/
  | send (data : List UInt8) (w : WriteResult)
  /-- `shutdown()` from the loop's thread. -/
  | shutdown
  /-- Another thread enters `send()` and tests `state_`. -/
  | enterSend (data : List UInt8)
  /-- The `i`-th of the threads that are in `send()` puts its functor into the queue. -/
  | queueSend (i : Nat)
  /-- Another thread enters `shutdown()`, tests and sets `state_`. -/
  | enterShutdown
  /-- A thread that is in `shutdown()` puts its functor into the queue. -/
  | queueShutdown
  /-- The loop runs the first functor of its queue. -/
  | functor (w : WriteResult)
  /-- The loop calls `handleWrite`. -/
  | handleWrite (w : WriteResult)
  deriving DecidableEq, Repr

structure HalfClose where
  conn : TcpConnection
  pendingFunctors_ : List PendingFunctor
  /-- What the threads in `send()` are about to queue. -/
  sending : List (List UInt8)
  /-- The number of threads that are about to queue `shutdownInLoop`. -/
  shuttingDown : Nat
  accepted : List (List UInt8)
  wrote : List UInt8
  halfClosed : Option (List UInt8)

namespace HalfClose

def init (writeCompleteCallback_ highWaterMarkCallback_ : Bool) (highWaterMark_ : Nat) :
    HalfClose where
  conn := .established writeCompleteCallback_ highWaterMarkCallback_ highWaterMark_
  pendingFunctors_ := []
  sending := []
  shuttingDown := 0
  accepted := []
  wrote := []
  halfClosed := none

def act (s : HalfClose) : Act → HalfClose
  | .write data => { s with wrote := s.wrote ++ data }
  | .shutdownWrite => { s with halfClosed := some (s.halfClosed.getD s.wrote) }
  | .queueInLoop functor => { s with pendingFunctors_ := s.pendingFunctors_ ++ [functor] }
  | _ => s

/-- A handler has left the connection as `r.1` and done `r.2`. -/
def perform (s : HalfClose) (r : TcpConnection × List Act) : HalfClose :=
  r.2.foldl act { s with conn := r.1 }

/-- `queueInLoop` from another thread. -/
def queueInLoop (s : HalfClose) (functor : PendingFunctor) : HalfClose :=
  { s with pendingFunctors_ := s.pendingFunctors_ ++ [functor] }

/-- The functors that a connection which is not closed has in the queue. -/
def runFunctor (s : HalfClose) (functor : PendingFunctor) (w : WriteResult) : HalfClose :=
  match functor with
  | .sendInLoop data => s.perform (s.conn.sendInLoop data w)
  | .shutdownInLoop => s.perform (s.conn, s.conn.shutdownInLoop)
  | _ => s

/-- What a functor offers to the kernel. -/
def offered : PendingFunctor → Nat
  | .sendInLoop data => data.length
  | _ => 0

/-- A step in which the kernel takes any part of what it is offered and reports neither `EPIPE` nor
    `ECONNRESET`. -/
def step (s : HalfClose) : ShutdownEvent → Option HalfClose
  | .send data w =>
    if w.Fits data.length ∧ ¬ w.fault then
      if s.conn.state_ = .kConnected then
        some ({ s with accepted := s.accepted ++ [data] }.perform (s.conn.sendInLoop data w))
      else some s
    else none
  | .shutdown =>
    match s.conn.beginShutdown with
    | some conn => some (s.perform (conn, conn.shutdownInLoop))
    | none => some s
  | .enterSend data =>
    if s.conn.state_ = .kConnected then
      some { s with accepted := s.accepted ++ [data], sending := s.sending ++ [data] }
    else some s
  | .queueSend i =>
    s.sending[i]?.map fun data =>
      { s with sending := s.sending.eraseIdx i }.queueInLoop (.sendInLoop data)
  | .enterShutdown =>
    match s.conn.beginShutdown with
    | some conn => some { s with conn := conn, shuttingDown := s.shuttingDown + 1 }
    | none => some s
  | .queueShutdown =>
    if 0 < s.shuttingDown then
      some ({ s with shuttingDown := s.shuttingDown - 1 }.queueInLoop .shutdownInLoop)
    else none
  | .functor w =>
    match s.pendingFunctors_ with
    | functor :: rest =>
      if w.Fits (offered functor) ∧ ¬ w.fault then
        some ({ s with pendingFunctors_ := rest }.runFunctor functor w)
      else none
    | [] => none
  | .handleWrite w =>
    if w.Fits s.conn.outputBuffer_.readableBytes ∧ ¬ w.fault then
      some (s.perform (s.conn.handleWrite w))
    else none

/-- The data of the sends whose functor is in the queue. -/
def sends (functors : List PendingFunctor) : List (List UInt8) :=
  functors.filterMap fun
    | .sendInLoop data => some data
    | _ => none

/-- The data of the accepted sends that `sendInLoop` has not seen. -/
def waiting (s : HalfClose) : List (List UInt8) := sends s.pendingFunctors_ ++ s.sending

/-- Every accepted send was written before `shutdownWrite()`: what had been written then is the
    data of all of them, in some order. -/
def Precedes (s : HalfClose) : Prop :=
  ∀ b, s.halfClosed = some b →
    ∃ order : List (List UInt8), order.Perm s.accepted ∧ order.flatten = b

/-- The kernel takes the last of `outputBuffer_` while the connection is shutting down. -/
def Drains (c : TcpConnection) (w : WriteResult) : Prop :=
  c.state_ = .kDisconnecting ∧ c.channel_.writing = true ∧
    ∃ n, w = .wrote n ∧ 0 < n ∧ c.outputBuffer_.readable.drop n = []

/-- The step ends the output: `shutdown()` in the loop or its functor while nothing is being
    written, or the write of the last bytes while the connection is shutting down. -/
def EndsOutput (s : HalfClose) : ShutdownEvent → Prop
  | .shutdown => s.conn.state_ = .kConnected ∧ s.conn.channel_.writing = false
  | .functor _ =>
    s.pendingFunctors_.head? = some .shutdownInLoop ∧ s.conn.channel_.writing = false
  | .handleWrite w => Drains s.conn w
  | _ => False

/-- A step that ends the output finds no accepted send with data waiting. -/
def NoneWaiting (s : HalfClose) (e : ShutdownEvent) : Prop :=
  s.EndsOutput e → ∀ data ∈ s.waiting, data = []

/-! ## What a handler does -/

/-- Acts that neither end the output nor queue `sendInLoop` or `shutdownInLoop`. -/
def Quiet (acts : List Act) : Prop :=
  .shutdownWrite ∉ acts ∧
    ∀ f ∈ queued acts, f = .writeCompleteCallback ∨ ∃ n, f = .highWaterMarkCallback n

theorem perform_quiet (s : HalfClose) {r : TcpConnection × List Act}
    (h : Act.shutdownWrite ∉ r.2) :
    s.perform r =
      { s with
        conn := r.1
        wrote := s.wrote ++ written r.2
        pendingFunctors_ := s.pendingFunctors_ ++ queued r.2 } := by
  obtain ⟨c, acts⟩ := r
  suffices hfold : ∀ s : HalfClose, acts.foldl act s =
      { s with
        wrote := s.wrote ++ written acts
        pendingFunctors_ := s.pendingFunctors_ ++ queued acts } from hfold { s with conn := c }
  induction acts with
  | nil =>
    intro s
    simp [queued]
  | cons a acts ih =>
    intro s
    obtain ⟨hne, hrest⟩ := List.ne_and_not_mem_of_not_mem_cons h
    rw [List.foldl_cons, ih hrest]
    cases a with
    | shutdownWrite => exact absurd rfl hne
    | _ => simp [act, queued, written]

theorem perform_shutdownWrite (s : HalfClose) (c : TcpConnection) {acts : List Act}
    (h : Act.shutdownWrite ∉ acts) :
    s.perform (c, acts ++ [.shutdownWrite]) =
      { s with
        conn := c
        wrote := s.wrote ++ written acts
        pendingFunctors_ := s.pendingFunctors_ ++ queued acts
        halfClosed := some (s.halfClosed.getD (s.wrote ++ written acts)) } := by
  have hsplit : s.perform (c, acts ++ [.shutdownWrite]) = (s.perform (c, acts)).act .shutdownWrite := by
    simp only [perform, List.foldl_append, List.foldl_cons, List.foldl_nil]
  rw [hsplit, perform_quiet s h]
  rfl

theorem quiet_nil : Quiet [] := ⟨List.not_mem_nil, fun _ hf => absurd hf List.not_mem_nil⟩

theorem Quiet.append {acts acts' : List Act} (h : Quiet acts) (h' : Quiet acts') :
    Quiet (acts ++ acts') := by
  refine ⟨fun hm => (List.mem_append.mp hm).elim h.1 h'.1, ?_⟩
  intro f hf
  rw [queued, List.filterMap_append] at hf
  exact (List.mem_append.mp hf).elim (h.2 f) (h'.2 f)

theorem Quiet.write {acts : List Act} (h : Quiet acts) (data : List UInt8) :
    Quiet (.write data :: acts) := by
  refine ⟨?_, h.2⟩
  intro hm
  rcases List.mem_cons.mp hm with heq | hm
  · cases heq
  · exact h.1 hm

theorem quiet_queueWriteComplete (c : TcpConnection) : Quiet c.queueWriteComplete := by
  unfold TcpConnection.queueWriteComplete
  split
  · exact ⟨by simp, by simp [queued]⟩
  · exact quiet_nil

theorem quiet_appendOutput (c : TcpConnection) (remaining : List UInt8) :
    Quiet (c.appendOutput remaining).2 := by
  unfold TcpConnection.appendOutput
  split
  · exact quiet_nil
  · dsimp only
    split
    · exact ⟨by simp, by simp [queued]⟩
    · exact quiet_nil

theorem quiet_sendInLoop (c : TcpConnection) (data : List UInt8) (w : WriteResult) :
    Quiet (c.sendInLoop data w).2 := by
  unfold TcpConnection.sendInLoop
  split
  · exact quiet_nil
  · split
    · split
      · refine Quiet.write (Quiet.append ?_ (quiet_appendOutput c _)) _
        split
        · exact quiet_queueWriteComplete c
        · exact quiet_nil
      · split
        · exact quiet_nil
        · exact quiet_appendOutput c data
    · exact quiet_appendOutput c data

/-- `handleWrite` ends the output when it drains `outputBuffer_`, after everything else it does. -/
theorem handleWrite_acts (c : TcpConnection) (w : WriteResult) :
    (Drains c w ∧ (c.handleWrite w).1.outputBuffer_.readable = [] ∧
      ∃ acts, Quiet acts ∧ (c.handleWrite w).2 = acts ++ [.shutdownWrite]) ∨
    (¬ Drains c w ∧ Quiet (c.handleWrite w).2) := by
  unfold TcpConnection.handleWrite
  split
  · rename_i hw
    split
    · rename_i n
      split
      · rename_i hn
        have hbuf := (c.retrieveOutput_output n).1
        unfold TcpConnection.retrieveOutput at hbuf ⊢
        dsimp only at hbuf ⊢
        split
        · rename_i hz
          rw [if_pos hz] at hbuf
          have hempty := (TcpConnection.readableBytes_eq_zero_iff _).mp hz
          have hdrop : c.outputBuffer_.readable.drop n = [] := by
            rw [← Buffer.readable_retrieve]
            exact hempty
          split
          · rename_i hd
            refine Or.inl ⟨⟨hd, hw, n, rfl, hn, hdrop⟩, hempty, _,
              (quiet_queueWriteComplete c).write (c.outputBuffer_.readable.take n), ?_⟩
            rfl
          · rename_i hd
            refine Or.inr ⟨fun hdr => hd hdr.1, ?_⟩
            rw [List.append_nil]
            exact (quiet_queueWriteComplete c).write _
        · rename_i hz
          refine Or.inr ⟨?_, quiet_nil.write _⟩
          rintro ⟨-, -, m, hm, -, hdrop⟩
          obtain rfl := WriteResult.wrote.inj hm
          apply hz
          rw [TcpConnection.readableBytes_eq_zero_iff, Buffer.readable_retrieve]
          exact hdrop
      · rename_i hn
        refine Or.inr ⟨?_, quiet_nil⟩
        rintro ⟨-, -, m, hm, hpos, -⟩
        obtain rfl := WriteResult.wrote.inj hm
        exact hn hpos
    · refine Or.inr ⟨?_, quiet_nil⟩
      rintro ⟨-, -, m, hm, -⟩
      cases hm
  · rename_i hw
    exact Or.inr ⟨fun hdr => hw hdr.2.1, quiet_nil⟩

/-! ## The invariant -/

/-- What was written and what is in `outputBuffer_` is the data that `sendInLoop` has seen; with
    `extra` and what is waiting it is all that was accepted. -/
def Stream (s : HalfClose) (extra : List (List UInt8)) : Prop :=
  ∃ ran : List (List UInt8), s.wrote ++ s.conn.outputBuffer_.readable = ran.flatten ∧
    (ran ++ (extra ++ s.waiting)).Perm s.accepted

/-- While the connection is up, nothing has begun to shut it down. -/
def Open (s : HalfClose) : Prop :=
  s.conn.state_ = .kConnected →
    s.halfClosed = none ∧ s.shuttingDown = 0 ∧ .shutdownInLoop ∉ s.pendingFunctors_

structure Inv (s : HalfClose) : Prop where
  up : s.conn.state_ = .kConnected ∨ s.conn.state_ = .kDisconnecting
  settled : s.conn.Settled
  stream : s.Stream []
  opened : s.Open
  early : ∀ b, s.halfClosed = some b → b.length ≤ s.wrote.length

theorem sends_append (fs fs' : List PendingFunctor) : sends (fs ++ fs') = sends fs ++ sends fs' :=
  List.filterMap_append

theorem Quiet.sends_queued {acts : List Act} (h : Quiet acts) : sends (queued acts) = [] := by
  rw [sends, List.filterMap_eq_nil_iff]
  intro f hf
  obtain rfl | ⟨n, rfl⟩ := h.2 f hf <;> rfl

theorem Quiet.shutdownInLoop_not_mem {acts : List Act} (h : Quiet acts) :
    PendingFunctor.shutdownInLoop ∉ queued acts := by
  intro hm
  obtain heq | ⟨n, heq⟩ := h.2 _ hm <;> cases heq

/-- A handler that takes `extra` in and writes or keeps it. -/
theorem Stream.perform {s s' : HalfClose} {c : TcpConnection} {acts : List Act}
    {extra : List (List UInt8)} (h : s.Stream extra) (hq : Quiet acts)
    (hout : written acts ++ c.outputBuffer_.readable =
      s.conn.outputBuffer_.readable ++ extra.flatten)
    (hc : s'.conn = c) (hw : s'.wrote = s.wrote ++ written acts)
    (hp : s'.pendingFunctors_ = s.pendingFunctors_ ++ queued acts) (hs : s'.sending = s.sending)
    (ha : s'.accepted = s.accepted) : s'.Stream [] := by
  obtain ⟨ran, hran, hperm⟩ := h
  have hwait : s'.waiting = s.waiting := by
    rw [waiting, hp, sends_append, hq.sends_queued, List.append_nil, hs]
    rfl
  refine ⟨ran ++ extra, ?_, ?_⟩
  · rw [hw, hc, List.append_assoc, hout, ← List.append_assoc, hran, List.flatten_append]
  · rw [hwait, ha, List.nil_append, List.append_assoc]
    exact hperm

theorem Open.perform {s s' : HalfClose} {acts : List Act} (h : s.Open) (hq : Quiet acts)
    (hc : s'.conn.state_ = .kConnected → s.conn.state_ = .kConnected)
    (hh : s'.halfClosed = s.halfClosed) (hd : s'.shuttingDown = s.shuttingDown)
    (hp : s'.pendingFunctors_ = s.pendingFunctors_ ++ queued acts) : s'.Open := by
  intro hup
  obtain ⟨hnone, hzero, hmem⟩ := h (hc hup)
  refine ⟨hh.trans hnone, hd.trans hzero, ?_⟩
  rw [hp]
  exact fun hm => (List.mem_append.mp hm).elim hmem hq.shutdownInLoop_not_mem

/-- What a handler leaves behind that does not end the output. -/
theorem Inv.quiet {s : HalfClose} {r : TcpConnection × List Act} {extra : List (List UInt8)}
    (hq : Quiet r.2) (hstate : r.1.state_ = s.conn.state_)
    (hup : s.conn.state_ = .kConnected ∨ s.conn.state_ = .kDisconnecting) (hset : r.1.Settled)
    (hstream : s.Stream extra) (hopen : s.Open)
    (hearly : ∀ b, s.halfClosed = some b → b.length ≤ s.wrote.length)
    (hout : written r.2 ++ r.1.outputBuffer_.readable =
      s.conn.outputBuffer_.readable ++ extra.flatten) :
    (s.perform r).Inv := by
  rw [perform_quiet s hq.1]
  refine ⟨?_, hset, hstream.perform hq hout rfl rfl rfl rfl rfl,
    hopen.perform hq (fun h => hstate ▸ h) rfl rfl rfl, ?_⟩
  · exact hstate.symm ▸ hup
  · intro b hb
    have := hearly b hb
    simp only [List.length_append]
    omega

/-- What a handler leaves behind that ends the output. -/
theorem Inv.ending {s : HalfClose} {c : TcpConnection} {acts : List Act} (hq : Quiet acts)
    (hstate : c.state_ = .kDisconnecting) (hset : c.Settled) (hstream : s.Stream [])
    (hearly : ∀ b, s.halfClosed = some b → b.length ≤ s.wrote.length)
    (hout : written acts ++ c.outputBuffer_.readable = s.conn.outputBuffer_.readable) :
    (s.perform (c, acts ++ [.shutdownWrite])).Inv := by
  rw [perform_shutdownWrite s c hq.1]
  refine ⟨Or.inr hstate, hset,
    hstream.perform hq (hout.trans (List.append_nil _).symm) rfl rfl rfl rfl rfl, ?_, ?_⟩
  · intro hup
    exact absurd (hstate.symm.trans hup) (by decide)
  · intro b hb
    obtain rfl := Option.some.inj hb
    cases hhalf : s.halfClosed with
    | none => exact Nat.le_refl _
    | some b₀ =>
      have := hearly b₀ hhalf
      simp only [Option.getD_some, List.length_append]
      omega

/-! ## When accepted output precedes the half-close -/

theorem Precedes.congr {s s' : HalfClose} (h : s.Precedes) (hh : s'.halfClosed = s.halfClosed)
    (ha : s.halfClosed ≠ none → s'.accepted = s.accepted) : s'.Precedes := by
  intro b hb
  rw [hh] at hb
  rw [ha (by rw [hb]; simp)]
  exact h b hb

/-- Nothing is waiting when all that was accepted has been written. -/
theorem Stream.waiting_nil {s : HalfClose} (h : s.Stream []) {order : List (List UInt8)}
    (horder : order.Perm s.accepted) (hle : order.flatten.length ≤ s.wrote.length) :
    ∀ d ∈ s.waiting, d = [] := by
  obtain ⟨ran, hran, hperm⟩ := h
  have hlen := (hperm.trans horder.symm).flatten.length_eq
  have hsum := congrArg List.length hran
  rw [List.nil_append, List.flatten_append, List.length_append] at hlen
  rw [List.length_append] at hsum
  have hzero : s.waiting.flatten.length = 0 := by omega
  rw [List.length_eq_zero_iff, List.flatten_eq_nil_iff] at hzero
  exact hzero

/-- A step that ends the output with an empty `outputBuffer_`. -/
theorem precedes_ending_iff {s s' : HalfClose} (hinv : s'.Inv) (hp : s.Precedes)
    (hearly : ∀ b, s.halfClosed = some b → b.length ≤ s'.wrote.length)
    (hempty : s'.conn.outputBuffer_.readable = [])
    (hh : s'.halfClosed = some (s.halfClosed.getD s'.wrote)) (ha : s'.accepted = s.accepted)
    (hw : s'.waiting = s.waiting) : s'.Precedes ↔ ∀ d ∈ s.waiting, d = [] := by
  rw [← hw]
  constructor
  · intro hp'
    obtain ⟨order, horder, hflat⟩ := hp' _ hh
    apply hinv.stream.waiting_nil horder
    rw [hflat]
    cases hhalf : s.halfClosed with
    | none => exact Nat.le_refl _
    | some b => exact hearly b hhalf
  · intro hnone b hb
    cases hhalf : s.halfClosed with
    | some b₀ =>
      rw [hh, hhalf] at hb
      obtain rfl := Option.some.inj hb
      rw [ha]
      exact hp _ hhalf
    | none =>
      rw [hh, hhalf] at hb
      obtain rfl := Option.some.inj hb
      obtain ⟨ran, hran, hperm⟩ := hinv.stream
      refine ⟨_, hperm, ?_⟩
      rw [List.nil_append, List.flatten_append, List.flatten_eq_nil_iff.mpr hnone, List.append_nil,
        ← hran, hempty, List.append_nil]
      rfl

/-- A step that does not end the output. -/
theorem Precedes.quiet_iff {s s' : HalfClose} {e : ShutdownEvent} (hp : s.Precedes)
    (he : ¬ s.EndsOutput e) (hh : s'.halfClosed = s.halfClosed)
    (ha : s.halfClosed ≠ none → s'.accepted = s.accepted) : s'.Precedes ↔ s.NoneWaiting e :=
  ⟨fun _ hends => absurd hends he, fun _ => hp.congr hh ha⟩

/-- What a step is to keep, and when it keeps the order. -/
def Keeps (s : HalfClose) (e : ShutdownEvent) (s' : HalfClose) : Prop :=
  s'.Inv ∧ (s.Precedes → (s'.Precedes ↔ s.NoneWaiting e))

theorem Inv.keeps_same {s : HalfClose} (h : s.Inv) {e : ShutdownEvent} (he : ¬ s.EndsOutput e) :
    s.Keeps e s :=
  ⟨h, fun hp => hp.quiet_iff he rfl fun _ => rfl⟩

/-- A handler that does not end the output, from `t`, which differs from `s` in what the call
    itself did. -/
theorem keeps_quiet {s t : HalfClose} {e : ShutdownEvent} {r : TcpConnection × List Act}
    (hinv : (t.perform r).Inv) (hq : Quiet r.2) (he : ¬ s.EndsOutput e)
    (hh : t.halfClosed = s.halfClosed) (ha : s.halfClosed ≠ none → t.accepted = s.accepted) :
    s.Keeps e (t.perform r) := by
  refine ⟨hinv, fun hp => ?_⟩
  rw [perform_quiet t hq.1]
  exact hp.quiet_iff he hh ha

/-- A handler that ends the output. -/
theorem keeps_ending {s t : HalfClose} {e : ShutdownEvent} {c : TcpConnection} {acts : List Act}
    (hq : Quiet acts) (hstate : c.state_ = .kDisconnecting) (hset : c.Settled)
    (hempty : c.outputBuffer_.readable = []) (hstream : t.Stream [])
    (hearly : ∀ b, t.halfClosed = some b → b.length ≤ t.wrote.length)
    (hout : written acts ++ c.outputBuffer_.readable = t.conn.outputBuffer_.readable)
    (he : s.EndsOutput e) (hh : t.halfClosed = s.halfClosed) (ha : t.accepted = s.accepted)
    (hw : t.waiting = s.waiting) : s.Keeps e (t.perform (c, acts ++ [.shutdownWrite])) := by
  have hinv := Inv.ending hq hstate hset hstream hearly hout
  refine ⟨hinv, fun hp => ?_⟩
  rw [perform_shutdownWrite t c hq.1] at hinv ⊢
  rw [precedes_ending_iff hinv hp ?_ hempty ?_ ha ?_]
  · exact ⟨fun hnone _ => hnone, fun hnone => hnone he⟩
  · intro b hb
    have := hearly b (hh.trans hb)
    simp only [List.length_append]
    omega
  · simp only [hh]
  · rw [← hw]
    simp only [waiting, sends_append, hq.sends_queued, List.append_nil]

/-- `shutdownInLoop` runs while the connection is shutting down. -/
theorem keeps_shutdownInLoop {s t : HalfClose} {e : ShutdownEvent} {c : TcpConnection}
    (hstate : c.state_ = .kDisconnecting) (hset : c.Settled)
    (hbuf : c.outputBuffer_ = t.conn.outputBuffer_) (hstream : t.Stream [])
    (hearly : ∀ b, t.halfClosed = some b → b.length ≤ t.wrote.length)
    (he : s.EndsOutput e ↔ c.channel_.writing = false) (hh : t.halfClosed = s.halfClosed)
    (ha : t.accepted = s.accepted) (hw : t.waiting = s.waiting) :
    s.Keeps e (t.perform (c, c.shutdownInLoop)) := by
  have hout : written [] ++ c.outputBuffer_.readable = t.conn.outputBuffer_.readable := by
    rw [hbuf]
    rfl
  unfold TcpConnection.shutdownInLoop
  split
  · rename_i hidle
    have hempty : c.outputBuffer_.readable = [] := by
      by_contra hne
      rw [hset.mpr hne] at hidle
      cases hidle
    exact keeps_ending quiet_nil hstate hset hempty hstream hearly hout (he.mpr hidle) hh ha hw
  · rename_i hbusy
    refine keeps_quiet ?_ quiet_nil (fun hends => hbusy (he.mp hends)) hh fun _ => ha
    rw [perform_quiet t List.not_mem_nil]
    refine ⟨Or.inr hstate, hset,
      hstream.perform quiet_nil (hout.trans (List.append_nil _).symm) rfl rfl rfl rfl rfl, ?_, ?_⟩
    · intro hup
      exact absurd (hstate.symm.trans hup) (by decide)
    · intro b hb
      rw [written_nil, List.append_nil]
      exact hearly b hb

/-! ## One lemma for each event -/

theorem beginShutdown_eq_some {c c' : TcpConnection} (h : c.beginShutdown = some c') :
    c.state_ = .kConnected ∧ c' = { c with state_ := .kDisconnecting } := by
  unfold TcpConnection.beginShutdown at h
  split at h
  · exact ⟨‹_›, (Option.some.inj h).symm⟩
  · cases h

/-- `sendInLoop` runs, from `t`, where its data is neither waiting nor seen. -/
theorem Inv.keeps_sendInLoop {s t : HalfClose} {e : ShutdownEvent} {data : List UInt8}
    {w : WriteResult} (hw : ¬ w.fault)
    (hup : t.conn.state_ = .kConnected ∨ t.conn.state_ = .kDisconnecting)
    (hset : t.conn.Settled) (hstream : t.Stream [data]) (hopen : t.Open)
    (hearly : ∀ b, t.halfClosed = some b → b.length ≤ t.wrote.length) (he : ¬ s.EndsOutput e)
    (hh : t.halfClosed = s.halfClosed) (ha : s.halfClosed ≠ none → t.accepted = s.accepted) :
    s.Keeps e (t.perform (t.conn.sendInLoop data w)) := by
  have hconn : t.conn.state_ ≠ .kDisconnected := by
    rcases hup with hup | hup <;> rw [hup] <;> decide
  obtain ⟨hout, hstate⟩ := TcpConnection.sendInLoop_output hconn data hw
  have hq := quiet_sendInLoop t.conn data w
  refine keeps_quiet ?_ hq he hh ha
  refine Inv.quiet hq hstate hup (hset.sendInLoop data w) hstream hopen hearly ?_
  rw [hout, List.flatten_singleton]

theorem Inv.keeps_send {s : HalfClose} (h : s.Inv) {data : List UInt8} {w : WriteResult}
    (hw : ¬ w.fault) (hup : s.conn.state_ = .kConnected) :
    s.Keeps (.send data w)
      ({ s with accepted := s.accepted ++ [data] }.perform (s.conn.sendInLoop data w)) := by
  refine Inv.keeps_sendInLoop (t := { s with accepted := s.accepted ++ [data] }) hw h.up h.settled
    ?_ h.opened h.early id rfl (fun hne => absurd (h.opened hup).1 hne)
  obtain ⟨ran, hran, hperm⟩ := h.stream
  refine ⟨ran, hran, ?_⟩
  have hmore := hperm.append_right [data]
  rw [List.nil_append, List.append_assoc] at hmore
  exact (List.perm_append_comm.append_left ran).trans hmore

theorem Inv.keeps_enterSend {s : HalfClose} (h : s.Inv) {data : List UInt8}
    (hup : s.conn.state_ = .kConnected) :
    s.Keeps (.enterSend data)
      { s with accepted := s.accepted ++ [data], sending := s.sending ++ [data] } := by
  refine ⟨⟨h.up, h.settled, ?_, h.opened, h.early⟩, fun hp =>
    hp.quiet_iff id rfl (fun hne => absurd (h.opened hup).1 hne)⟩
  obtain ⟨ran, hran, hperm⟩ := h.stream
  refine ⟨ran, hran, ?_⟩
  have := hperm.append_right [data]
  simpa [waiting] using this

theorem Inv.keeps_queueSend {s : HalfClose} (h : s.Inv) {i : Nat} {data : List UInt8}
    (hi : s.sending[i]? = some data) :
    s.Keeps (.queueSend i)
      ({ s with sending := s.sending.eraseIdx i }.queueInLoop (.sendInLoop data)) := by
  obtain ⟨hlt, rfl⟩ := List.getElem?_eq_some_iff.mp hi
  refine ⟨⟨h.up, h.settled, ?_, ?_, h.early⟩, fun hp => hp.quiet_iff id rfl fun _ => rfl⟩
  · obtain ⟨ran, hran, hperm⟩ := h.stream
    refine ⟨ran, hran, List.Perm.trans (List.Perm.append_left ran ?_) hperm⟩
    simp only [waiting, queueInLoop, sends_append, List.nil_append]
    rw [List.append_assoc]
    exact (List.getElem_cons_eraseIdx_perm hlt).append_left _
  · intro hup
    obtain ⟨hnone, hzero, hmem⟩ := h.opened hup
    exact ⟨hnone, hzero, by simpa [queueInLoop] using hmem⟩

theorem Inv.keeps_enterShutdown {s : HalfClose} (h : s.Inv) {c : TcpConnection}
    (hc : s.conn.beginShutdown = some c) :
    s.Keeps .enterShutdown { s with conn := c, shuttingDown := s.shuttingDown + 1 } := by
  obtain ⟨-, rfl⟩ := beginShutdown_eq_some hc
  refine ⟨⟨Or.inr rfl, h.settled, h.stream, ?_, h.early⟩, fun hp =>
    hp.quiet_iff id rfl fun _ => rfl⟩
  intro hup
  cases hup

theorem Inv.keeps_queueShutdown {s : HalfClose} (h : s.Inv) (hpos : 0 < s.shuttingDown) :
    s.Keeps .queueShutdown
      ({ s with shuttingDown := s.shuttingDown - 1 }.queueInLoop .shutdownInLoop) := by
  refine ⟨⟨h.up, h.settled, ?_, ?_, h.early⟩, fun hp => hp.quiet_iff id rfl fun _ => rfl⟩
  · obtain ⟨ran, hran, hperm⟩ := h.stream
    refine ⟨ran, hran, ?_⟩
    simpa [waiting, queueInLoop, sends] using hperm
  · intro hup
    have hzero := (h.opened hup).2.1
    omega

/-- The rest of the queue, when its first functor is taken out. -/
theorem waiting_cons {s : HalfClose} {f : PendingFunctor} {rest : List PendingFunctor}
    (hf : s.pendingFunctors_ = f :: rest) :
    s.waiting = sends [f] ++ { s with pendingFunctors_ := rest }.waiting := by
  simp only [waiting, hf]
  rw [← List.append_assoc, ← sends_append]
  rfl

theorem Inv.keeps_functor {s : HalfClose} (h : s.Inv) {w : WriteResult} {f : PendingFunctor}
    {rest : List PendingFunctor} (hf : s.pendingFunctors_ = f :: rest) (hw : ¬ w.fault) :
    s.Keeps (.functor w) ({ s with pendingFunctors_ := rest }.runFunctor f w) := by
  have hwait := waiting_cons hf
  have hopen : Open { s with pendingFunctors_ := rest } := by
    intro hup
    obtain ⟨hnone, hzero, hmem⟩ := h.opened hup
    rw [hf] at hmem
    exact ⟨hnone, hzero, fun hm => hmem (List.mem_cons_of_mem _ hm)⟩
  have hends : s.EndsOutput (.functor w) ↔ f = .shutdownInLoop ∧ s.conn.channel_.writing = false := by
    simp only [EndsOutput, hf, List.head?_cons, Option.some.injEq]
  cases f with
  | sendInLoop data =>
    refine Inv.keeps_sendInLoop (t := { s with pendingFunctors_ := rest }) hw h.up h.settled ?_ hopen
      h.early (fun he => by cases (hends.mp he).1) rfl fun _ => rfl
    obtain ⟨ran, hran, hperm⟩ := h.stream
    rw [hwait] at hperm
    exact ⟨ran, hran, hperm⟩
  | shutdownInLoop =>
    have hdown : s.conn.state_ = .kDisconnecting := by
      rcases h.up with hup | hdown
      · exact absurd (by rw [hf]; exact List.mem_cons_self) (h.opened hup).2.2
      · exact hdown
    refine keeps_shutdownInLoop (t := { s with pendingFunctors_ := rest }) hdown h.settled rfl ?_
      h.early (hends.trans (by simp)) rfl rfl hwait.symm
    obtain ⟨ran, hran, hperm⟩ := h.stream
    rw [hwait] at hperm
    exact ⟨ran, hran, hperm⟩
  | _ =>
    refine ⟨⟨h.up, h.settled, ?_, hopen, h.early⟩, fun hp =>
      hp.quiet_iff (fun he => by cases (hends.mp he).1) rfl fun _ => rfl⟩
    obtain ⟨ran, hran, hperm⟩ := h.stream
    rw [hwait] at hperm
    exact ⟨ran, hran, hperm⟩

theorem Inv.keeps_handleWrite {s : HalfClose} (h : s.Inv) (w : WriteResult) :
    s.Keeps (.handleWrite w) (s.perform (s.conn.handleWrite w)) := by
  obtain ⟨hout, hstate⟩ := s.conn.handleWrite_output w
  have hset := h.settled.handleWrite w
  obtain ⟨hdr, hempty, acts, hq, hacts⟩ | ⟨hdr, hq⟩ := handleWrite_acts s.conn w
  · have hsame : s.conn.handleWrite w = ((s.conn.handleWrite w).1, acts ++ [.shutdownWrite]) := by
      rw [← hacts]
    have hwritten : written acts = written (s.conn.handleWrite w).2 := by
      rw [hacts, written_append]
      exact (List.append_nil _).symm
    rw [hsame]
    exact keeps_ending hq (hstate.trans hdr.1) hset hempty h.stream h.early
      (by rw [hwritten]; exact hout) hdr rfl rfl rfl
  · refine keeps_quiet ?_ hq hdr rfl fun _ => rfl
    refine Inv.quiet hq hstate h.up hset h.stream h.opened h.early ?_
    rw [hout, List.flatten_nil, List.append_nil]

theorem Inv.keeps_shutdown {s : HalfClose} (h : s.Inv) {c : TcpConnection}
    (hc : s.conn.beginShutdown = some c) :
    s.Keeps .shutdown (s.perform (c, c.shutdownInLoop)) := by
  obtain ⟨hup, rfl⟩ := beginShutdown_eq_some hc
  refine keeps_shutdownInLoop rfl h.settled rfl h.stream h.early ?_ rfl rfl rfl
  simp [EndsOutput, hup]

/-- One step keeps the invariant, and keeps the order exactly when it meets the condition. -/
theorem Inv.step {s s' : HalfClose} (h : s.Inv) {e : ShutdownEvent} (hs : s.step e = some s') :
    s.Keeps e s' := by
  cases e with
  | send data w =>
    rw [HalfClose.step] at hs
    split at hs
    · rename_i hw
      split at hs
      · obtain rfl := Option.some.inj hs
        exact h.keeps_send hw.2 ‹_›
      · obtain rfl := Option.some.inj hs
        exact h.keeps_same id
    · cases hs
  | shutdown =>
    rw [HalfClose.step] at hs
    split at hs
    · obtain rfl := Option.some.inj hs
      exact h.keeps_shutdown ‹_›
    · rename_i hnone
      obtain rfl := Option.some.inj hs
      refine h.keeps_same fun hends => ?_
      rw [TcpConnection.beginShutdown, if_pos hends.1] at hnone
      cases hnone
  | enterSend data =>
    rw [HalfClose.step] at hs
    split at hs
    · obtain rfl := Option.some.inj hs
      exact h.keeps_enterSend ‹_›
    · obtain rfl := Option.some.inj hs
      exact h.keeps_same id
  | queueSend i =>
    rw [HalfClose.step] at hs
    obtain ⟨data, hi, rfl⟩ := Option.map_eq_some_iff.mp hs
    exact h.keeps_queueSend hi
  | enterShutdown =>
    rw [HalfClose.step] at hs
    split at hs
    · obtain rfl := Option.some.inj hs
      exact h.keeps_enterShutdown ‹_›
    · obtain rfl := Option.some.inj hs
      exact h.keeps_same id
  | queueShutdown =>
    rw [HalfClose.step] at hs
    split at hs
    · obtain rfl := Option.some.inj hs
      exact h.keeps_queueShutdown ‹_›
    · cases hs
  | functor w =>
    rw [HalfClose.step] at hs
    split at hs
    · rename_i f rest hf
      split at hs
      · rename_i hw
        obtain rfl := Option.some.inj hs
        exact h.keeps_functor hf hw.2
      · cases hs
    · cases hs
  | handleWrite w =>
    rw [HalfClose.step] at hs
    split at hs
    · obtain rfl := Option.some.inj hs
      exact h.keeps_handleWrite w
    · cases hs

theorem inv_init (wc hw : Bool) (mark : Nat) : (init wc hw mark).Inv := by
  have hok := Output.ok_established wc hw mark
  refine ⟨Or.inl rfl, hok.settled, ⟨[], hok.stream, List.Perm.refl _⟩, ?_, ?_⟩
  · intro _
    exact ⟨rfl, rfl, List.not_mem_nil⟩
  · intro b hb
    cases hb

end HalfClose

/-- **Accepted output and the half-close.** Over any calls of `send()` and `shutdown()` from the
    loop and from other threads, and any partial writes: the data of every `send()` that found
    `kConnected` is written before `shutdownWrite()` in all states of a run, if and only if every
    step that ends the output finds no such send between its test and the run of its functor. -/
theorem half_close_iff (wc hw : Bool) (mark : Nat) (events : List ShutdownEvent) :
    (∀ i s, run HalfClose.step (HalfClose.init wc hw mark) (events.take i) = some s → s.Precedes) ↔
      ∀ i e s s', events[i]? = some e →
        run HalfClose.step (HalfClose.init wc hw mark) (events.take i) = some s →
        s.step e = some s' → s.NoneWaiting e := by
  apply forall_states_iff (I := HalfClose.Inv)
  · exact HalfClose.inv_init wc hw mark
  · intro s e s' hinv hs
    exact (hinv.step hs).1
  · intro b hb
    cases hb
  · intro s e s' hinv hp hs
    exact (hinv.step hs).2 hp

/-- Another thread sends; before its functor runs, the loop's thread shuts the connection down, and
    the half-close comes first. -/
theorem half_close_early :
    ¬ ∀ (wc hw : Bool) (mark : Nat) (events : List ShutdownEvent) (i : Nat) (s : HalfClose),
      run HalfClose.step (HalfClose.init wc hw mark) (events.take i) = some s → s.Precedes := by
  intro h
  obtain ⟨order, hperm, hflat⟩ := h false false 0
    [.enterSend [1], .queueSend 0, .shutdown] 3 _ rfl [] (by decide)
  have hlen := hperm.flatten.length_eq
  rw [hflat] at hlen
  exact absurd hlen (by decide)

end Mmvx.Net
