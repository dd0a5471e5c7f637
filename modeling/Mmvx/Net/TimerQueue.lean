/-
  `TimerQueue` (muduo/net/TimerQueue.cc, muduo/net/Timer.{h,cc}).

  A timer waits in `timers_`, by its expiration, and in `activeTimers_`, by its pointer and sequence
  number. `handleRead` takes those that have expired out of both sets and calls them one after the
  other; then `reset` puts the repeating ones back and arms the timerfd. A callback may add and cancel
  any timer, so `handleRead` is taken apart at its callbacks. Any thread creates a `Timer` at any
  time; its `addTimerInLoop` is a later step of the thread of the loop.

  `heap` has the timers that are not deleted. An operation is `none` where an assertion of the source
  fails, a deleted timer is used or a timer is deleted twice. `Enabled` has what the environment
  promises: `new` returns a pointer that is not in use, the clock does not go back, and code of others
  runs in the loop or in a callback.

  Timestamps are `Int` in microseconds and sequence numbers `Nat`; neither overflows. The timerfd is
  armed for a point in time, fires once when the clock has reached it, and is readable from then on
  until it is read or armed again. `log` has the callbacks that were called and the calls of
  `cancelInLoop`, in their order.
-/
import Mathlib.Data.Prod.Lex
import Mathlib.Order.Nat
import Mathlib.Algebra.Order.Group.Int
import Mmvx.Base.Timestamp
import Mmvx.Lib.OrdSet
import Mmvx.Lib.Run

namespace Mmvx.Net

open Mmvx.Lib Mmvx.Base

/-- `delta` is `interval_` in microseconds, as `addTime` computes it. -/
structure Timer where
  expiration_ : Int
  delta : Int
  repeat_ : Bool
  sequence_ : Nat
  deriving DecidableEq, Repr

def Timer.restart (timer : Timer) (now : Int) : Timer :=
  { timer with expiration_ := if timer.repeat_ then now + timer.delta else Timestamp.invalid }

/-- `Entry`: a pointer with the expiration of its timer. Pairs are in lexicographic order. -/
@[ext]
structure TimerEntry where
  first : Int
  second : Nat
  deriving Repr

theorem TimerEntry.toLex_injective :
    Function.Injective fun e : TimerEntry => toLex (e.first, e.second) := by
  intro a b h
  have hpair := toLex.injective h
  exact TimerEntry.ext (congrArg Prod.fst hpair) (congrArg Prod.snd hpair)

instance : LinearOrder TimerEntry := LinearOrder.lift' _ TimerEntry.toLex_injective

theorem TimerEntry.lt_iff {a b : TimerEntry} :
    a < b ↔ a.first < b.first ∨ a.first = b.first ∧ a.second < b.second :=
  Prod.Lex.toLex_lt_toLex

theorem TimerEntry.first_le {a b : TimerEntry} (h : a ≤ b) : a.first ≤ b.first := by
  rcases h.lt_or_eq with hlt | rfl
  · rcases lt_iff.mp hlt with hlt | ⟨heq, -⟩
    · exact hlt.le
    · exact heq.le
  · exact le_rfl

/-- A pointer with the sequence number of its timer. -/
@[ext]
structure ActiveTimer where
  first : Nat
  second : Nat
  deriving Repr

theorem ActiveTimer.toLex_injective :
    Function.Injective fun e : ActiveTimer => toLex (e.first, e.second) := by
  intro a b h
  have hpair := toLex.injective h
  exact ActiveTimer.ext (congrArg Prod.fst hpair) (congrArg Prod.snd hpair)

instance : LinearOrder ActiveTimer := LinearOrder.lift' _ ActiveTimer.toLex_injective

def UINTPTR_MAX : Nat := 0xffffffffffffffff

structure Timespec where
  tv_sec : Int
  tv_nsec : Int
  deriving DecidableEq, Repr

def howMuchTimeFromNow (when now : Int) : Timespec :=
  let microseconds := if when - now < 100 then 100 else when - now
  ⟨microseconds / Timestamp.kMicroSecondsPerSecond, microseconds % Timestamp.kMicroSecondsPerSecond * 1000⟩

/-- `armed` is when it will fire, `armedAt` when it was armed last. -/
structure Timerfd where
  armed : Option Int
  armedAt : Int
  readable : Bool
  deriving DecidableEq, Repr

/-- `timerfd_settime`; a value of zero disarms it. -/
def Timerfd.settime (fd : Timerfd) (value : Timespec) (now : Int) : Timerfd :=
  if value.tv_sec = 0 ∧ value.tv_nsec = 0 then { fd with armed := none, readable := false }
  else ⟨some (now + value.tv_sec * Timestamp.kMicroSecondsPerSecond + value.tv_nsec / 1000), now, false⟩

/-- Where the thread of the loop is. -/
inductive TimerControl where
  /-- Not in `handleRead`. -/
  | loop
  /-- In `handleRead`, between two callbacks: those of `done` have been called. -/
  | between (now : Int) (done rest : List TimerEntry)
  /-- In the callback of the last of `done`. -/
  | callback (now : Int) (done rest : List TimerEntry)
  deriving DecidableEq, Repr

namespace TimerControl

/-- Code of others runs. -/
def callsOut : TimerControl → Bool
  | .loop | .callback _ _ _ => true
  | .between _ _ _ => false

/-- There is a callback to call next. -/
def beforeCall : TimerControl → Bool
  | .between _ _ (_ :: _) => true
  | _ => false

def inCallback : TimerControl → Bool
  | .callback _ _ _ => true
  | _ => false

/-- All callbacks have been called. -/
def callsDone : TimerControl → Bool
  | .between _ _ [] => true
  | _ => false

end TimerControl

inductive TimerEvent where
  /-- The callback of a timer is called at some time. -/
  | run (p : Nat) (timer : Timer) (time : Int)
  | cancelInLoop (timerId : ActiveTimer)
  deriving DecidableEq, Repr

structure TimerQueue where
  heap : Nat → Option Timer
  s_numCreated_ : Nat
  /-- The timers whose `addTimerInLoop` has not run yet. -/
  created : List Nat
  timers_ : OrdSet TimerEntry
  activeTimers_ : OrdSet ActiveTimer
  callingExpiredTimers_ : Bool
  cancelingTimers_ : OrdSet ActiveTimer
  clock : Int
  timerfd_ : Timerfd
  control : TimerControl
  log : List TimerEvent

inductive TimerAction where
  /-- `new Timer(cb, when, interval)` in `addTimer`, by any thread. -/
  | create (p : Nat) (when : Int) (repeat_ : Bool) (delta : Int)
  | addTimerInLoop (p : Nat)
  | cancelInLoop (timerId : ActiveTimer)
  | tick (now : Int)
  /-- The timerfd fires. -/
  | fire
  /-- `handleRead` up to the first callback. -/
  | handleRead
  /-- The next callback is called. -/
  | run
  /-- It returns. -/
  | returns
  /-- The rest of `handleRead`. -/
  | reset
  deriving DecidableEq, Repr

namespace TimerQueue

def start (clock : Int) : TimerQueue where
  heap _ := none
  s_numCreated_ := 0
  created := []
  timers_ := .empty
  activeTimers_ := .empty
  callingExpiredTimers_ := false
  cancelingTimers_ := .empty
  clock := clock
  timerfd_ := ⟨none, clock, false⟩
  control := .loop
  log := []

/-! ## The operations -/

def assert (p : Prop) [Decidable p] : Option Unit := if p then some () else none

def assertSizes (q : TimerQueue) : Option Unit := assert (q.timers_.size = q.activeTimers_.size)

def newTimer (q : TimerQueue) (p : Nat) (when : Int) (repeat_ : Bool) (delta : Int) :
    TimerQueue :=
  { q with
    heap := Function.update q.heap p (some ⟨when, delta, repeat_, q.s_numCreated_ + 1⟩)
    s_numCreated_ := q.s_numCreated_ + 1
    created := q.created ++ [p] }

def delete (q : TimerQueue) (p : Nat) : Option TimerQueue :=
  (q.heap p).map fun _ => { q with heap := Function.update q.heap p none }

def resetTimerfd (q : TimerQueue) (expiration : Int) : TimerQueue :=
  { q with timerfd_ := q.timerfd_.settime (howMuchTimeFromNow expiration q.clock) q.clock }

/-- `when < begin()->first`, or there is none. -/
def isEarliest (q : TimerQueue) (when : Int) : Bool :=
  match q.timers_.first with
  | none => true
  | some it => decide (when < it.first)

def insert (q : TimerQueue) (p : Nat) : Option (TimerQueue × Bool) := do
  q.assertSizes
  let timer ← q.heap p
  let when := timer.expiration_
  let earliestChanged := q.isEarliest when
  assert (⟨when, p⟩ ∉ q.timers_)
  assert (⟨p, timer.sequence_⟩ ∉ q.activeTimers_)
  let q := { q with
    timers_ := q.timers_.insert ⟨when, p⟩
    activeTimers_ := q.activeTimers_.insert ⟨p, timer.sequence_⟩ }
  q.assertSizes
  return (q, earliestChanged)

def addTimerInLoop (q : TimerQueue) (p : Nat) : Option TimerQueue := do
  let (q, earliestChanged) ← { q with created := q.created.erase p }.insert p
  if earliestChanged then
    let timer ← q.heap p
    return q.resetTimerfd timer.expiration_
  else
    return q

/-- A timer that is in the sets is deleted. -/
def eraseTimer (q : TimerQueue) (timerId : ActiveTimer) : Option TimerQueue := do
  let p := timerId.first
  let timer ← q.heap p
  assert (⟨timer.expiration_, p⟩ ∈ q.timers_)
  let q ← { q with timers_ := q.timers_.erase ⟨timer.expiration_, p⟩ }.delete p
  return { q with activeTimers_ := q.activeTimers_.erase timerId }

def cancelInLoop (q : TimerQueue) (timerId : ActiveTimer) : Option TimerQueue := do
  let q := { q with log := q.log ++ [TimerEvent.cancelInLoop timerId] }
  q.assertSizes
  let q ←
    if timerId ∈ q.activeTimers_ then q.eraseTimer timerId
    else if q.callingExpiredTimers_ then
      some { q with cancelingTimers_ := q.cancelingTimers_.insert timerId }
    else some q
  q.assertSizes
  return q

/-- The loop of `getExpired`. -/
def eraseActive (heap : Nat → Option Timer) (activeTimers_ : OrdSet ActiveTimer) :
    List TimerEntry → Option (OrdSet ActiveTimer)
  | [] => some activeTimers_
  | it :: expired => do
    let timer ← heap it.second
    let active : ActiveTimer := ⟨it.second, timer.sequence_⟩
    assert (active ∈ activeTimers_)
    eraseActive heap (activeTimers_.erase active) expired

def getExpired (q : TimerQueue) (now : Int) : Option (TimerQueue × List TimerEntry) := do
  q.assertSizes
  let sentry : TimerEntry := ⟨now, UINTPTR_MAX⟩
  let expired := q.timers_.below sentry
  let timers := q.timers_.above sentry
  assert (∀ it ∈ timers.first, now < it.first)
  let active ← eraseActive q.heap q.activeTimers_ expired
  let q := { q with timers_ := timers, activeTimers_ := active }
  q.assertSizes
  return (q, expired)

def handleRead (q : TimerQueue) : Option TimerQueue := do
  let now := q.clock
  let q := { q with timerfd_ := { q.timerfd_ with readable := false } }
  let (q, expired) ← q.getExpired now
  return { q with
    callingExpiredTimers_ := true
    cancelingTimers_ := .empty
    control := .between now [] expired }

/-- The callback of the next timer is called. -/
def callNext (q : TimerQueue) (now : Int) (done : List TimerEntry) (it : TimerEntry)
    (rest : List TimerEntry) : Option TimerQueue := do
  let timer ← q.heap it.second
  return { q with
    control := .callback now (done ++ [it]) rest
    log := q.log ++ [.run it.second timer q.clock] }

/-- The body of the loop of `reset`. -/
def resetOne (q : TimerQueue) (now : Int) (p : Nat) : Option TimerQueue := do
  let timer ← q.heap p
  if timer.repeat_ = true ∧ ⟨p, timer.sequence_⟩ ∉ q.cancelingTimers_ then
    let (q, _) ← { q with heap := Function.update q.heap p (some (timer.restart now)) }.insert p
    return q
  else
    q.delete p

def resetLoop (now : Int) (q : TimerQueue) : List TimerEntry → Option TimerQueue
  | [] => some q
  | it :: expired => (q.resetOne now it.second).bind fun q => resetLoop now q expired

/-- `nextExpire`. -/
def nextExpire (q : TimerQueue) : Option Int :=
  match q.timers_.first with
  | none => some Timestamp.invalid
  | some it => (q.heap it.second).map Timer.expiration_

def reset (q : TimerQueue) (expired : List TimerEntry) (now : Int) : Option TimerQueue := do
  let q ← resetLoop now q expired
  let nextExpire ← q.nextExpire
  if Timestamp.valid nextExpire then
    return q.resetTimerfd nextExpire
  else
    return q

/-! ## Steps -/

def Enabled (q : TimerQueue) : TimerAction → Prop
  | .create p _ repeat_ delta =>
    q.heap p = none ∧ p ≠ 0 ∧ p < UINTPTR_MAX ∧ (repeat_ = true → 0 ≤ delta)
  | .addTimerInLoop p => q.control.callsOut = true ∧ p ∈ q.created
  | .cancelInLoop _ => q.control.callsOut = true
  | .tick now => q.clock ≤ now
  | .fire => ∃ time ∈ q.timerfd_.armed, time ≤ q.clock
  | .handleRead => q.control = .loop
  | .run => q.control.beforeCall = true
  | .returns => q.control.inCallback = true
  | .reset => q.control.callsDone = true

instance (q : TimerQueue) (a : TimerAction) : Decidable (q.Enabled a) :=
  match a with
  | .create _ _ _ _ => inferInstanceAs (Decidable (_ ∧ _))
  | .addTimerInLoop _ => inferInstanceAs (Decidable (_ ∧ _))
  | .cancelInLoop _ => inferInstanceAs (Decidable (_ = _))
  | .tick _ => inferInstanceAs (Decidable (_ ≤ _))
  | .fire => inferInstanceAs (Decidable (∃ time ∈ _, _))
  | .handleRead => inferInstanceAs (Decidable (_ = _))
  | .run => inferInstanceAs (Decidable (_ = _))
  | .returns => inferInstanceAs (Decidable (_ = _))
  | .reset => inferInstanceAs (Decidable (_ = _))

def step (q : TimerQueue) : TimerAction → Option TimerQueue
  | .create p when repeat_ delta => some (q.newTimer p when repeat_ delta)
  | .addTimerInLoop p => q.addTimerInLoop p
  | .cancelInLoop timerId => q.cancelInLoop timerId
  | .tick now => some { q with clock := now }
  | .fire => some { q with timerfd_ := { q.timerfd_ with armed := none, readable := true } }
  | .handleRead => q.handleRead
  | .run =>
    match q.control with
    | .between now done (it :: rest) => q.callNext now done it rest
    | _ => none
  | .returns =>
    match q.control with
    | .callback now done rest => some { q with control := .between now done rest }
    | _ => none
  | .reset =>
    match q.control with
    | .between now done [] =>
      { q with callingExpiredTimers_ := false, control := .loop }.reset done now
    | _ => none

end TimerQueue

end Mmvx.Net
