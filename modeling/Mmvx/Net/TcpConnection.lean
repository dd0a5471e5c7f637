/-
  `TcpConnection` (muduo/net/TcpConnection.{h,cc}) with its `Channel`.

  A handler returns the connection after it and what it did, in order: bytes that the kernel took,
  `shutdownWrite()`, callbacks, functors for the loop. What `write(2)` and `read(2)` return is an
  argument. Logging is left out, and `assert` is compiled out as in the Release build. What the
  user's callbacks do shows as later calls on the connection.
-/
import Mmvx.Net.Buffer

namespace Mmvx.Net

inductive StateE where
  | kDisconnected | kConnecting | kConnected | kDisconnecting
  deriving DecidableEq, Repr

inductive Errno where
  | EWOULDBLOCK | EPIPE | ECONNRESET
  | other (errno : Nat)
  deriving DecidableEq, Repr

/-- What `write(2)` returns. -/
inductive WriteResult where
  | wrote (n : Nat)
  | failed (errno : Errno)
  deriving DecidableEq, Repr

/-- The kernel takes at most what it is offered. -/
def WriteResult.Fits (w : WriteResult) (len : Nat) : Prop :=
  match w with
  | .wrote n => n ≤ len
  | .failed _ => True

instance (w : WriteResult) (len : Nat) : Decidable (w.Fits len) :=
  match w with
  | .wrote n => inferInstanceAs (Decidable (n ≤ len))
  | .failed _ => isTrue trivial

/-- What `readFd` returns. -/
inductive ReadResult where
  | data (bytes : List UInt8)
  | zero
  | failed (errno : Errno)
  deriving DecidableEq, Repr

/-- What a connection hands to `runInLoop` or `queueInLoop`. -/
inductive PendingFunctor where
  | sendInLoop (message : List UInt8)
  | shutdownInLoop
  | forceCloseInLoop
  | connectEstablished
  | connectDestroyed
  | writeCompleteCallback
  | highWaterMarkCallback (len : Nat)
  deriving DecidableEq, Repr

/-- What a handler does, apart from changing the connection. -/
inductive Act where
  /-- The kernel took these bytes. -/
  | write (data : List UInt8)
  | shutdownWrite
  /-- `connectionCallback_`, with what `connected()` returns in it. -/
  | connectionCallback (connected : Bool)
  | messageCallback
  | closeCallback
  | queueInLoop (functor : PendingFunctor)
  deriving DecidableEq, Repr

/-- The functors that a list of acts queues. -/
def queued (acts : List Act) : List PendingFunctor :=
  acts.filterMap fun
    | .queueInLoop functor => some functor
    | _ => none

/-- `events_` and `addedToLoop_` of a `Channel`. -/
structure Channel where
  reading : Bool
  writing : Bool
  addedToLoop_ : Bool
  deriving DecidableEq, Repr

namespace Channel

def enableReading (c : Channel) : Channel := { c with reading := true, addedToLoop_ := true }

def enableWriting (c : Channel) : Channel := { c with writing := true, addedToLoop_ := true }

def disableWriting (c : Channel) : Channel := { c with writing := false, addedToLoop_ := true }

def disableAll (_ : Channel) : Channel := ⟨false, false, true⟩

def remove (c : Channel) : Channel := { c with addedToLoop_ := false }

/-- The poller reports events of the channel. -/
def polled (c : Channel) : Bool := c.addedToLoop_ && (c.reading || c.writing)

end Channel

structure TcpConnection where
  state_ : StateE
  channel_ : Channel
  inputBuffer_ : Buffer
  outputBuffer_ : Buffer
  /-- `writeCompleteCallback_` is set. -/
  writeCompleteCallback_ : Bool
  /-- `highWaterMarkCallback_` is set. -/
  highWaterMarkCallback_ : Bool
  highWaterMark_ : Nat

namespace TcpConnection

/-- The constructor, with the callbacks as the user sets them. -/
def new (writeCompleteCallback_ highWaterMarkCallback_ : Bool) (highWaterMark_ : Nat) :
    TcpConnection where
  state_ := .kConnecting
  channel_ := ⟨false, false, false⟩
  inputBuffer_ := .empty
  outputBuffer_ := .empty
  writeCompleteCallback_ := writeCompleteCallback_
  highWaterMarkCallback_ := highWaterMarkCallback_
  highWaterMark_ := highWaterMark_

def connected (c : TcpConnection) : Bool := c.state_ == .kConnected

/-! ## Output -/

/-- `queueInLoop(writeCompleteCallback_)`, if it is set. -/
def queueWriteComplete (c : TcpConnection) : List Act :=
  if c.writeCompleteCallback_ then [.queueInLoop .writeCompleteCallback] else []

/-- The end of `sendInLoop`: `remaining` bytes go to `outputBuffer_`, if there are any. -/
def appendOutput (c : TcpConnection) (remaining : List UInt8) : TcpConnection × List Act :=
  if remaining = [] then (c, [])
  else
    let oldLen := c.outputBuffer_.readableBytes
    ({ c with
        outputBuffer_ := c.outputBuffer_.append remaining
        channel_ := if c.channel_.writing then c.channel_ else c.channel_.enableWriting },
      if oldLen + remaining.length ≥ c.highWaterMark_ ∧ oldLen < c.highWaterMark_ ∧
          c.highWaterMarkCallback_ = true then
        [.queueInLoop (.highWaterMarkCallback (oldLen + remaining.length))]
      else [])

/-- `sendInLoop`; `w` is what the kernel returns if it is asked. -/
def sendInLoop (c : TcpConnection) (data : List UInt8) (w : WriteResult) :
    TcpConnection × List Act :=
  if c.state_ = .kDisconnected then (c, [])
  else if c.channel_.writing = false ∧ c.outputBuffer_.readableBytes = 0 then
    match w with
    | .wrote n =>
      ((c.appendOutput (data.drop n)).1,
        .write (data.take n) ::
          ((if data.length - n = 0 then c.queueWriteComplete else []) ++
            (c.appendOutput (data.drop n)).2))
    | .failed errno =>
      -- `faultError`: the data is dropped
      if errno = .EPIPE ∨ errno = .ECONNRESET then (c, []) else c.appendOutput data
  else c.appendOutput data

def shutdownInLoop (c : TcpConnection) : List Act :=
  if c.channel_.writing = false then [.shutdownWrite] else []

/-- `handleWrite` after the kernel has taken `n > 0` bytes. -/
def retrieveOutput (c : TcpConnection) (n : Nat) : TcpConnection × List Act :=
  let c' := { c with outputBuffer_ := c.outputBuffer_.retrieve n }
  if c'.outputBuffer_.readableBytes = 0 then
    let c' := { c' with channel_ := c'.channel_.disableWriting }
    (c', c'.queueWriteComplete ++ if c'.state_ = .kDisconnecting then c'.shutdownInLoop else [])
  else (c', [])

def handleWrite (c : TcpConnection) (w : WriteResult) : TcpConnection × List Act :=
  if c.channel_.writing then
    match w with
    | .wrote n =>
      if 0 < n then
        ((c.retrieveOutput n).1,
          .write (c.outputBuffer_.readable.take n) :: (c.retrieveOutput n).2)
      else (c, [])
    | .failed _ => (c, [])
  else (c, [])

/-! ## Life cycle -/

def connectEstablished (c : TcpConnection) : TcpConnection × List Act :=
  let c' := { c with state_ := .kConnected, channel_ := c.channel_.enableReading }
  (c', [.connectionCallback c'.connected])

def connectDestroyed (c : TcpConnection) : TcpConnection × List Act :=
  if c.state_ = .kConnected then
    let c' := { c with state_ := .kDisconnected, channel_ := c.channel_.disableAll }
    ({ c' with channel_ := c'.channel_.remove }, [.connectionCallback c'.connected])
  else ({ c with channel_ := c.channel_.remove }, [])

def handleClose (c : TcpConnection) : TcpConnection × List Act :=
  let c' := { c with state_ := .kDisconnected, channel_ := c.channel_.disableAll }
  (c', [.connectionCallback c'.connected, .closeCallback])

/-- `handleError` only logs. -/
def handleRead (c : TcpConnection) : ReadResult → TcpConnection × List Act
  | .data bytes =>
    ({ c with inputBuffer_ := c.inputBuffer_.append bytes }, [.messageCallback])
  | .zero => c.handleClose
  | .failed _ => (c, [])

def forceCloseInLoop (c : TcpConnection) : TcpConnection × List Act :=
  if c.state_ = .kConnected ∨ c.state_ = .kDisconnecting then c.handleClose else (c, [])

def forceClose (c : TcpConnection) : TcpConnection × List Act :=
  if c.state_ = .kConnected ∨ c.state_ = .kDisconnecting then
    ({ c with state_ := .kDisconnecting }, [.queueInLoop .forceCloseInLoop])
  else (c, [])

/-- The test and the assignment of `shutdown()`; the rest of it is `runInLoop(shutdownInLoop)` if
    the result is `some`. -/
def beginShutdown (c : TcpConnection) : Option TcpConnection :=
  if c.state_ = .kConnected then some { c with state_ := .kDisconnecting } else none

end TcpConnection

/-! ## Readiness -/

/-- `revents_` of a channel. -/
structure Revents where
  POLLIN : Bool
  POLLPRI : Bool
  POLLOUT : Bool
  POLLHUP : Bool
  POLLRDHUP : Bool
  POLLERR : Bool
  POLLNVAL : Bool
  deriving DecidableEq, Repr

/-- The callbacks of a `Channel`. -/
inductive ChannelCallback where
  | close | error | read | write
  deriving DecidableEq, Repr

/-- `handleEventWithGuard`: the callbacks it makes, in order. -/
def handleEventWithGuard (r : Revents) : List ChannelCallback :=
  (if r.POLLHUP && !r.POLLIN then [.close] else []) ++
    (if r.POLLERR || r.POLLNVAL then [.error] else []) ++
    (if r.POLLIN || r.POLLPRI || r.POLLRDHUP then [.read] else []) ++
    (if r.POLLOUT then [.write] else [])

end Mmvx.Net
