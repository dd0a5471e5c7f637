/-
  The output of a `TcpConnection` as a stream of bytes.

  `sendInLoop` writes at once when nothing is waiting, and appends to `outputBuffer_` what the
  kernel did not take; `handleWrite` writes from `outputBuffer_`. In both cases what was written
  and what is waiting make up what was sent (`sendInLoop_output`, `handleWrite_output`). The link
  between the two is `Settled`: write interest is on exactly while something is waiting.
-/
import Mmvx.Lib.Run
import Mmvx.Net.TcpConnection

namespace Mmvx.Net

open Mmvx.Lib

/-- The bytes that the kernel took. -/
def written (acts : List Act) : List UInt8 :=
  acts.flatMap fun
    | .write data => data
    | _ => []

@[simp] theorem written_nil : written [] = [] := rfl

@[simp] theorem written_write (data : List UInt8) (acts : List Act) :
    written (.write data :: acts) = data ++ written acts := rfl

theorem written_append (acts acts' : List Act) :
    written (acts ++ acts') = written acts ++ written acts' :=
  List.flatMap_append

/-- An error that makes `sendInLoop` drop its data. -/
def WriteResult.fault (w : WriteResult) : Prop := w = .failed .EPIPE ∨ w = .failed .ECONNRESET

instance (w : WriteResult) : Decidable w.fault := inferInstanceAs (Decidable (_ ∨ _))

namespace TcpConnection

/-- Write interest is on exactly while `outputBuffer_` holds something. -/
def Settled (c : TcpConnection) : Prop :=
  c.channel_.writing = true ↔ c.outputBuffer_.readable ≠ []

theorem readableBytes_eq_zero_iff (b : Buffer) : b.readableBytes = 0 ↔ b.readable = [] := by
  rw [← b.length_readable, List.length_eq_zero_iff]

@[simp] theorem written_queueWriteComplete (c : TcpConnection) :
    written c.queueWriteComplete = [] := by
  unfold queueWriteComplete
  split <;> rfl

@[simp] theorem written_shutdownInLoop (c : TcpConnection) : written c.shutdownInLoop = [] := by
  unfold shutdownInLoop
  split <;> rfl

/-! ## `sendInLoop` -/

theorem appendOutput_output (c : TcpConnection) (remaining : List UInt8) :
    (c.appendOutput remaining).1.outputBuffer_.readable = c.outputBuffer_.readable ++ remaining ∧
      (c.appendOutput remaining).1.state_ = c.state_ ∧
      written (c.appendOutput remaining).2 = [] := by
  unfold appendOutput
  split
  · rename_i hnil
    rw [hnil, List.append_nil]
    exact ⟨rfl, rfl, rfl⟩
  · refine ⟨Buffer.readable_append _ _, rfl, ?_⟩
    dsimp only
    split <;> rfl

theorem Settled.appendOutput {c : TcpConnection} (h : c.Settled) (remaining : List UInt8) :
    (c.appendOutput remaining).1.Settled := by
  unfold TcpConnection.appendOutput
  split
  · exact h
  · rename_i hne
    have hw : (if c.channel_.writing then c.channel_ else c.channel_.enableWriting).writing =
        true := by
      split
      · assumption
      · rfl
    refine ⟨fun _ => ?_, fun _ => hw⟩
    show (c.outputBuffer_.append remaining).readable ≠ []
    rw [Buffer.readable_append]
    simp [hne]

/-- What was waiting and the new data are what is written now and what waits after it. -/
theorem sendInLoop_output {c : TcpConnection} (hs : c.state_ ≠ .kDisconnected)
    (data : List UInt8) {w : WriteResult} (hfault : ¬ w.fault) :
    written (c.sendInLoop data w).2 ++ (c.sendInLoop data w).1.outputBuffer_.readable =
        c.outputBuffer_.readable ++ data ∧
      (c.sendInLoop data w).1.state_ = c.state_ := by
  unfold sendInLoop
  rw [if_neg hs]
  split
  · rename_i hidle
    have hempty := (readableBytes_eq_zero_iff _).mp hidle.2
    split
    · rename_i n
      obtain ⟨hbuf, hstate, hacts⟩ := c.appendOutput_output (data.drop n)
      refine ⟨?_, hstate⟩
      have hcomplete : written (if data.length - n = 0 then c.queueWriteComplete else []) = [] := by
        split
        · exact c.written_queueWriteComplete
        · rfl
      rw [written_write, written_append, hcomplete, hacts, hbuf, hempty, List.nil_append,
        List.append_nil, List.nil_append, List.nil_append, List.take_append_drop]
    · rename_i errno
      have hkeep : ¬ (errno = .EPIPE ∨ errno = .ECONNRESET) := by
        rintro (rfl | rfl)
        · exact hfault (Or.inl rfl)
        · exact hfault (Or.inr rfl)
      rw [if_neg hkeep]
      obtain ⟨hbuf, hstate, hacts⟩ := c.appendOutput_output data
      exact ⟨by rw [hacts, hbuf, List.nil_append], hstate⟩
  · obtain ⟨hbuf, hstate, hacts⟩ := c.appendOutput_output data
    exact ⟨by rw [hacts, hbuf, List.nil_append], hstate⟩

theorem Settled.sendInLoop {c : TcpConnection} (h : c.Settled) (data : List UInt8)
    (w : WriteResult) : (c.sendInLoop data w).1.Settled := by
  unfold TcpConnection.sendInLoop
  split
  · exact h
  · split
    · split
      · exact h.appendOutput _
      · split
        · exact h
        · exact h.appendOutput _
    · exact h.appendOutput _

/-! ## `handleWrite` -/

theorem retrieveOutput_output (c : TcpConnection) (n : Nat) :
    (c.retrieveOutput n).1.outputBuffer_.readable = c.outputBuffer_.readable.drop n ∧
      (c.retrieveOutput n).1.state_ = c.state_ ∧ written (c.retrieveOutput n).2 = [] := by
  have hbuf := c.outputBuffer_.readable_retrieve n
  unfold retrieveOutput
  dsimp only
  split
  · refine ⟨hbuf, rfl, ?_⟩
    rw [written_append, written_queueWriteComplete, List.nil_append]
    split
    · exact written_shutdownInLoop _
    · rfl
  · exact ⟨hbuf, rfl, rfl⟩

theorem handleWrite_output (c : TcpConnection) (w : WriteResult) :
    written (c.handleWrite w).2 ++ (c.handleWrite w).1.outputBuffer_.readable =
        c.outputBuffer_.readable ∧
      (c.handleWrite w).1.state_ = c.state_ := by
  unfold handleWrite
  split
  · split
    · rename_i n
      split
      · obtain ⟨hbuf, hstate, hacts⟩ := c.retrieveOutput_output n
        refine ⟨?_, hstate⟩
        rw [written_write, hacts, hbuf, List.append_nil, List.take_append_drop]
      · exact ⟨rfl, rfl⟩
    · exact ⟨rfl, rfl⟩
  · exact ⟨rfl, rfl⟩

theorem Settled.handleWrite {c : TcpConnection} (h : c.Settled) (w : WriteResult) :
    (c.handleWrite w).1.Settled := by
  unfold TcpConnection.handleWrite
  split
  · rename_i hw
    split
    · rename_i n
      split
      · unfold retrieveOutput
        dsimp only
        split
        · rename_i hz
          have hempty := (readableBytes_eq_zero_iff _).mp hz
          refine ⟨fun hon => ?_, fun hne => absurd hempty hne⟩
          cases hon
        · rename_i hz
          exact ⟨fun _ => (readableBytes_eq_zero_iff _).not.mp hz, fun _ => hw⟩
      · exact h
    · exact h
  · exact h

end TcpConnection

/-! ## Runs -/

inductive OutputEvent where
  | sendInLoop (data : List UInt8) (w : WriteResult)
  | handleWrite (w : WriteResult)
  deriving DecidableEq, Repr

/-- A connection, all that was passed to `sendInLoop`, and all that the socket accepted. -/
structure Output where
  conn : TcpConnection
  sent : List (List UInt8)
  accepted : List UInt8

/-- A step in which the kernel reports neither `EPIPE` nor `ECONNRESET`. -/
def Output.step (o : Output) : OutputEvent → Option Output
  | .sendInLoop data w =>
    if w.Fits data.length ∧ ¬ w.fault then
      some ⟨(o.conn.sendInLoop data w).1, o.sent ++ [data],
        o.accepted ++ written (o.conn.sendInLoop data w).2⟩
    else none
  | .handleWrite w =>
    if w.Fits o.conn.outputBuffer_.readableBytes ∧ ¬ w.fault then
      some ⟨(o.conn.handleWrite w).1, o.sent, o.accepted ++ written (o.conn.handleWrite w).2⟩
    else none

/-- What was accepted and what is waiting are what was sent. -/
structure Output.Ok (o : Output) : Prop where
  up : o.conn.state_ ≠ .kDisconnected
  settled : o.conn.Settled
  stream : o.accepted ++ o.conn.outputBuffer_.readable = o.sent.flatten

theorem Output.Ok.step {o o' : Output} (h : o.Ok) {e : OutputEvent} (hs : o.step e = some o') :
    o'.Ok := by
  cases e with
  | sendInLoop data w =>
    rw [Output.step] at hs
    split at hs
    · rename_i hw
      obtain rfl := Option.some.inj hs
      obtain ⟨hout, hstate⟩ := TcpConnection.sendInLoop_output h.up data hw.2
      refine ⟨by rw [hstate]; exact h.up, h.settled.sendInLoop data w, ?_⟩
      rw [List.append_assoc, hout, ← List.append_assoc, h.stream, List.flatten_append,
        List.flatten_singleton]
    · cases hs
  | handleWrite w =>
    rw [Output.step] at hs
    split at hs
    · obtain rfl := Option.some.inj hs
      obtain ⟨hout, hstate⟩ := o.conn.handleWrite_output w
      refine ⟨by rw [hstate]; exact h.up, h.settled.handleWrite w, ?_⟩
      rw [List.append_assoc, hout]
      exact h.stream
    · cases hs

/-- A connection that has just been established. -/
def TcpConnection.established (writeCompleteCallback_ highWaterMarkCallback_ : Bool)
    (highWaterMark_ : Nat) : TcpConnection :=
  (new writeCompleteCallback_ highWaterMarkCallback_ highWaterMark_).connectEstablished.1

theorem Output.ok_established (wc hw : Bool) (mark : Nat) :
    Output.Ok ⟨.established wc hw mark, [], []⟩ := by
  have hempty : (TcpConnection.established wc hw mark).outputBuffer_.readable = [] :=
    Buffer.readable_empty
  refine ⟨?_, ?_, hempty⟩
  · intro hdown
    cases hdown
  · exact ⟨fun hon => (by cases hon), fun hne => absurd hempty hne⟩

/-- **The output stream.** After any calls of `sendInLoop` and `handleWrite` on a connection, with
    any partial writes and errors other than `EPIPE` and `ECONNRESET`: the bytes the socket has
    accepted, followed by those in `outputBuffer_`, are the data passed to `sendInLoop`, in order;
    and write interest is on exactly while `outputBuffer_` is not empty. -/
theorem output_stream (wc hw : Bool) (mark : Nat) {o : Output}
    (h : Reaches Output.step (fun _ _ => True) ⟨.established wc hw mark, [], []⟩ o) :
    o.accepted ++ o.conn.outputBuffer_.readable = o.sent.flatten ∧
      (o.conn.channel_.writing = true ↔ o.conn.outputBuffer_.readable ≠ []) := by
  have hok : o.Ok := by
    apply h.invariant (P := Output.Ok)
    · exact Output.ok_established wc hw mark
    · intro o e o' hok _ hs
      exact hok.step hs
  exact ⟨hok.stream, hok.settled⟩

/-- Two sends of which the kernel first takes a part, and a write event for the rest. -/
theorem output_stream_partial :
    ∃ o, Reaches Output.step (fun _ _ => True) ⟨.established false false 65536, [], []⟩ o ∧
      o.sent = [[1, 2, 3], [4, 5]] ∧ o.accepted = [1, 2, 3, 4] ∧
      o.accepted ++ o.conn.outputBuffer_.readable = o.sent.flatten ∧
      o.conn.channel_.writing = true := by
  obtain ⟨o, ho, hsent, hacc, hne⟩ : ∃ o, Reaches Output.step (fun _ _ => True)
      ⟨.established false false 65536, [], []⟩ o ∧
        o.sent = [[1, 2, 3], [4, 5]] ∧ o.accepted = [1, 2, 3, 4] ∧
        o.conn.outputBuffer_.readable ≠ [] :=
    exists_reaches [.sendInLoop [1, 2, 3] (.wrote 2), .sendInLoop [4, 5] (.wrote 0),
      .handleWrite (.failed .EWOULDBLOCK), .handleWrite (.wrote 2)] (by decide +kernel)
  obtain ⟨hstream, hwriting⟩ := output_stream false false 65536 ho
  exact ⟨o, ho, hsent, hacc, hstream, hwriting.mpr hne⟩

end Mmvx.Net
