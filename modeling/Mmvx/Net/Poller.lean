/-
  `Channel` and the two pollers (muduo/net/Channel.{h,cc}, muduo/net/poller/PollPoller.cc,
  muduo/net/poller/EPollPoller.cc).

  A poller keeps `channels_`, by file descriptor, and what the kernel is asked to watch: `poll(2)`
  gets the vector `pollfds_`, in which a negative descriptor is ignored, and `epoll(7)` keeps its
  own list, which `epoll_ctl` changes. A channel's `index_` is used by its poller: as its slot in
  `pollfds_`, or as one of `kNew`, `kAdded` and `kDeleted`. A call is `none` where an assertion
  fails, `LOG_SYSFATAL` is reached or a pointer that is null is followed.

  The descriptors of the channels are distinct; `fd` is an embedding.
-/
import Mathlib.Logic.Embedding.Basic
import Mmvx.Lib.OrdMap

namespace Mmvx.Net.Poller

open Mmvx.Lib

/-! ## Channel -/

def kNoneEvent : BitVec 32 := 0

/-- `POLLIN | POLLPRI`. -/
def kReadEvent : BitVec 32 := 1 ||| 2

/-- `POLLOUT`. -/
def kWriteEvent : BitVec 32 := 4

structure Channel where
  events_ : BitVec 32
  index_ : Int
  deriving DecidableEq, Repr

namespace Channel

/-- `Channel(loop, fd)`. -/
def new : Channel := ⟨0, -1⟩

def isNoneEvent (c : Channel) : Bool := c.events_ == kNoneEvent

end Channel

/-- The calls of `Channel` that reach the poller. -/
inductive ChannelOp where
  | enableReading
  | disableReading
  | enableWriting
  | disableWriting
  | disableAll
  | remove
  deriving DecidableEq, Repr

/-- The events after a call. -/
def ChannelOp.mask (events : BitVec 32) : ChannelOp → BitVec 32
  | .enableReading => events ||| kReadEvent
  | .disableReading => events &&& ~~~kReadEvent
  | .enableWriting => events ||| kWriteEvent
  | .disableWriting => events &&& ~~~kWriteEvent
  | .disableAll => kNoneEvent
  | .remove => events

/-! ## PollPoller -/

/-- `struct pollfd`; `events` is a `short`. -/
structure PollFd where
  fd : Int
  events : BitVec 16
  deriving DecidableEq, Repr

structure PollPoller (ι : Type) where
  channel : ι → Channel
  channels_ : OrdMap Int ι
  pollfds_ : List PollFd

section

variable {ι : Type} [DecidableEq ι] (fd : ι ↪ Nat)

namespace PollPoller

def new : PollPoller ι := ⟨fun _ => .new, .empty, []⟩

def setChannel (p : PollPoller ι) (i : ι) (c : Channel) : PollPoller ι :=
  { p with channel := Function.update p.channel i c }

/-- The first branch of `updateChannel`: a new one, add to `pollfds_`. -/
def addChannel (p : PollPoller ι) (i : ι) : Option (PollPoller ι) :=
  if p.channels_.find (fd i) = none then
    some
      { channel := Function.update p.channel i { p.channel i with index_ := p.pollfds_.length }
        channels_ := p.channels_.insert (fd i) i
        pollfds_ := p.pollfds_ ++ [⟨fd i, (p.channel i).events_.setWidth 16⟩] }
  else none

/-- The second branch: update existing one. The slot keeps its descriptor unless there is no
    event. -/
def modifyChannel (p : PollPoller ι) (i : ι) : Option (PollPoller ι) :=
  if p.channels_.find (fd i) = some i then
    (p.pollfds_[(p.channel i).index_.toNat]?).bind fun pfd =>
      if pfd.fd = fd i ∨ pfd.fd = -fd i - 1 then
        let pfd' : PollFd := ⟨if (p.channel i).isNoneEvent then -fd i - 1 else pfd.fd,
          (p.channel i).events_.setWidth 16⟩
        some { p with pollfds_ := p.pollfds_.set (p.channel i).index_.toNat pfd' }
      else none
  else none

def updateChannel (p : PollPoller ι) (i : ι) : Option (PollPoller ι) :=
  if (p.channel i).index_ < 0 then p.addChannel fd i else p.modifyChannel fd i

/-- Remove slot `idx` of `pollfds_`: the last slot takes its place. -/
def removeSlot (p : PollPoller ι) (idx : Nat) : Option (PollPoller ι) :=
  if idx = p.pollfds_.length - 1 then some { p with pollfds_ := p.pollfds_.dropLast }
  else
    (p.pollfds_.getLast?).bind fun last =>
      let channelAtEnd := if last.fd < 0 then -last.fd - 1 else last.fd
      (p.channels_.find channelAtEnd).map fun j =>
        { channel := Function.update p.channel j { p.channel j with index_ := idx }
          channels_ := p.channels_
          pollfds_ := (p.pollfds_.set idx last).dropLast }

/-- `index_` stays as it is. -/
def removeChannel (p : PollPoller ι) (i : ι) : Option (PollPoller ι) :=
  if p.channels_.find (fd i) = some i ∧ (p.channel i).isNoneEvent ∧ 0 ≤ (p.channel i).index_ then
    (p.pollfds_[(p.channel i).index_.toNat]?).bind fun pfd =>
      if pfd.fd = -fd i - 1 ∧ pfd.events.signExtend 32 = (p.channel i).events_ then
        { p with channels_ := p.channels_.erase (fd i) }.removeSlot (p.channel i).index_.toNat
      else none
  else none

/-- A call of `Channel`. -/
def apply (p : PollPoller ι) (i : ι) : ChannelOp → Option (PollPoller ι)
  | .remove => p.removeChannel fd i
  | op => (p.setChannel i { p.channel i with events_ := op.mask (p.channel i).events_ }).updateChannel
      fd i

end PollPoller

/-! ## EPollPoller -/

def kNew : Int := -1

def kAdded : Int := 1

def kDeleted : Int := 2

inductive EpollCtl where
  | ADD
  | MOD
  | DEL
  deriving DecidableEq, Repr

/-- `epoll` is the list of the kernel: the events and the channel of each descriptor. -/
structure EPollPoller (ι : Type) where
  channel : ι → Channel
  channels_ : OrdMap Int ι
  epoll : OrdMap Int (BitVec 32 × ι)

namespace EPollPoller

def new : EPollPoller ι := ⟨fun _ => .new, .empty, .empty⟩

def setChannel (e : EPollPoller ι) (i : ι) (c : Channel) : EPollPoller ι :=
  { e with channel := Function.update e.channel i c }

/-- `update`: `epoll_ctl` fails with `EEXIST` for a descriptor that it has, and with `ENOENT` for one
    that it has not. Only a failed `DEL` is survived. -/
def update (e : EPollPoller ι) (operation : EpollCtl) (i : ι) : Option (EPollPoller ι) :=
  match operation, e.epoll.find (fd i) with
  | .ADD, none => some { e with epoll := e.epoll.insert (fd i) ((e.channel i).events_, i) }
  | .ADD, some _ => none
  | .MOD, some _ => some { e with epoll := e.epoll.insert (fd i) ((e.channel i).events_, i) }
  | .MOD, none => none
  | .DEL, _ => some { e with epoll := e.epoll.erase (fd i) }

/-- The first branch of `updateChannel`: a new one, add with `EPOLL_CTL_ADD`. -/
def addChannel (e : EPollPoller ι) (i : ι) : Option (EPollPoller ι) :=
  if (e.channel i).index_ = kNew then
    if e.channels_.find (fd i) = none then
      ({ e with channels_ := e.channels_.insert (fd i) i }.setChannel i
        { e.channel i with index_ := kAdded }).update fd .ADD i
    else none
  else if e.channels_.find (fd i) = some i then
    (e.setChannel i { e.channel i with index_ := kAdded }).update fd .ADD i
  else none

/-- The second branch: update existing one with `EPOLL_CTL_MOD` or `EPOLL_CTL_DEL`. -/
def modifyChannel (e : EPollPoller ι) (i : ι) : Option (EPollPoller ι) :=
  if e.channels_.find (fd i) = some i ∧ (e.channel i).index_ = kAdded then
    if (e.channel i).isNoneEvent then
      (e.update fd .DEL i).map fun e => e.setChannel i { e.channel i with index_ := kDeleted }
    else e.update fd .MOD i
  else none

def updateChannel (e : EPollPoller ι) (i : ι) : Option (EPollPoller ι) :=
  if (e.channel i).index_ = kNew ∨ (e.channel i).index_ = kDeleted then e.addChannel fd i
  else e.modifyChannel fd i

def removeChannel (e : EPollPoller ι) (i : ι) : Option (EPollPoller ι) :=
  if e.channels_.find (fd i) = some i ∧ (e.channel i).isNoneEvent ∧
      ((e.channel i).index_ = kAdded ∨ (e.channel i).index_ = kDeleted) then
    (if (e.channel i).index_ = kAdded then
      { e with channels_ := e.channels_.erase (fd i) }.update fd .DEL i
    else some { e with channels_ := e.channels_.erase (fd i) }).map
      fun e => e.setChannel i { e.channel i with index_ := kNew }
  else none

/-- A call of `Channel`. -/
def apply (e : EPollPoller ι) (i : ι) : ChannelOp → Option (EPollPoller ι)
  | .remove => e.removeChannel fd i
  | op => (e.setChannel i { e.channel i with events_ := op.mask (e.channel i).events_ }).updateChannel
      fd i

end EPollPoller

end

end Mmvx.Net.Poller
