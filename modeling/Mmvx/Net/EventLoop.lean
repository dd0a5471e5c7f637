/-
  `EventLoop`: the functors of `queueInLoop` and the wakeup of the loop (muduo/net/EventLoop.cc).

  Any thread may queue a functor or call `quit()` at any time; the loop's own thread does it where it
  runs code of others: before `loop()`, in a handler of an event, in a functor. A call of
  `queueInLoop` is two steps of its thread: `push_back` under `mutex_`, then the test and `wakeup()`.
  The same holds for `quit()`. The steps of the threads come in any order.

  `wakeupFd_` is the counter of the eventfd; it is readable if it is not zero. A functor keeps the
  thread that queued it, and whether `loop()` was running then. Functors are executed in the order
  of the queue, and a functor that waits when `poll` is entered was announced at the eventfd, will be
  by its thread, or was queued by the loop's own thread outside `loop()` (`no_lost_wakeup`).

  `runInLoop` is `queueInLoop` in another thread, and runs the functor in place in the loop's own.
-/
import Mathlib.Logic.Function.Basic
import Mmvx.Lib.Run

namespace Mmvx.Net

open Mmvx.Lib

section

variable (T F : Type)

inductive Caller where
  /-- The thread of the loop. -/
  | loop
  | other (t : T)
  deriving DecidableEq, Repr

/-- Where a thread is in its calls. -/
inductive CallPhase where
  | outside
  /-- In `queueInLoop`, after `push_back`. -/
  | pushed
  /-- In `quit()`, after `quit_ = true`. -/
  | quitting
  deriving DecidableEq, Repr

/-- What is in `activeChannels_`. -/
inductive ActiveChannel where
  | wakeup
  | other
  deriving DecidableEq, Repr

structure QueuedFunctor where
  cb : F
  caller : Caller T
  /-- `looping_` when it was queued. -/
  looping_ : Bool
  deriving DecidableEq, Repr

/-- Where the thread of the loop is. -/
inductive Control where
  /-- `loop()` does not run. -/
  | outside
  /-- The test of `while (!quit_)`. -/
  | test
  /-- In `poller_->poll`. -/
  | poll
  /-- Before the next of `activeChannels_`. -/
  | events (activeChannels_ : List ActiveChannel)
  /-- In a handler of a channel other than `wakeupChannel_`. -/
  | handler (activeChannels_ : List ActiveChannel)
  /-- In `doPendingFunctors`, before the swap. -/
  | swap
  /-- Before the next of the local `functors`. -/
  | functors (functors : List (QueuedFunctor T F))
  /-- In a functor. -/
  | functor (functors : List (QueuedFunctor T F))
  deriving DecidableEq, Repr

/-- `queued` and `executed` are what was queued and executed so far. -/
structure EventLoop where
  control : Control T F
  quit_ : Bool
  callingPendingFunctors_ : Bool
  pendingFunctors_ : List (QueuedFunctor T F)
  wakeupFd_ : Nat
  phase : Caller T → CallPhase
  queued : List (QueuedFunctor T F)
  executed : List (QueuedFunctor T F)

inductive LoopAction where
  /-- `queueInLoop`, up to the test. -/
  | queueInLoop (c : Caller T) (cb : F)
  /-- `quit()`, up to the test. -/
  | quit (c : Caller T)
  /-- The rest of `queueInLoop` or `quit()`. -/
  | wake (c : Caller T)
  | loop
  | whileTest
  /-- `poll` returns; it may time out, and it may report some of the channels only. -/
  | pollReturns (activeChannels_ : List ActiveChannel)
  /-- `handleEvent` of the next channel. -/
  | handleEvent
  /-- The handler returns. -/
  | handled
  /-- `doPendingFunctors` is called. -/
  | doPendingFunctors
  | swap
  /-- `functors[i]()` begins. -/
  | call
  /-- `functors[i]()` returns. -/
  | returns
  /-- `doPendingFunctors` ends. -/
  | callsDone
  deriving DecidableEq, Repr

end

variable {T F : Type}

/-- Code of others runs in the thread of the loop. -/
def Control.callsOut : Control T F → Bool
  | .outside | .handler _ | .functor _ => true
  | _ => false

def Control.looping_ : Control T F → Bool
  | .outside => false
  | _ => true

namespace EventLoop

def start : EventLoop T F := ⟨.outside, false, false, [], 0, fun _ => .outside, [], []⟩

/-- `write(2)` adds 1 unless the counter is at its maximum. -/
def wakeup (s : EventLoop T F) : EventLoop T F :=
  { s with wakeupFd_ := if s.wakeupFd_ < 0xfffffffffffffffe then s.wakeupFd_ + 1 else s.wakeupFd_ }

/-- `read(2)` sets the counter to 0. -/
def handleRead (s : EventLoop T F) : EventLoop T F := { s with wakeupFd_ := 0 }

/-- The thread runs code that may call the loop. -/
def mayCall (s : EventLoop T F) (c : Caller T) : Prop :=
  s.phase c = .outside ∧ (c = .loop → s.control.callsOut = true)

instance [DecidableEq T] (s : EventLoop T F) (c : Caller T) : Decidable (s.mayCall c) :=
  inferInstanceAs (Decidable (_ ∧ _))

def setPhase [DecidableEq T] (s : EventLoop T F) (c : Caller T) (p : CallPhase) : EventLoop T F :=
  { s with phase := Function.update s.phase c p }

def push_back (s : EventLoop T F) (c : Caller T) (cb : F) : EventLoop T F :=
  let f : QueuedFunctor T F := ⟨cb, c, s.control.looping_⟩
  { s with pendingFunctors_ := s.pendingFunctors_ ++ [f], queued := s.queued ++ [f] }

/-- One step of one thread; `none` where it is not at this step. -/
def step [DecidableEq T] (s : EventLoop T F) : LoopAction T F → Option (EventLoop T F)
  | .queueInLoop c cb => if s.mayCall c then some ((s.push_back c cb).setPhase c .pushed) else none
  | .quit c => if s.mayCall c then some ({ s with quit_ := true }.setPhase c .quitting) else none
  | .wake c =>
    match s.phase c with
    | .outside => none
    | .pushed =>
      if c ≠ .loop ∨ s.callingPendingFunctors_ then some (s.wakeup.setPhase c .outside)
      else some (s.setPhase c .outside)
    | .quitting =>
      if c ≠ .loop then some (s.wakeup.setPhase c .outside) else some (s.setPhase c .outside)
  | .loop =>
    match s.control, s.phase .loop with
    | .outside, .outside => some { s with control := .test, quit_ := false }
    | _, _ => none
  | .whileTest =>
    match s.control with
    | .test => some { s with control := if s.quit_ then .outside else .poll }
    | _ => none
  | .pollReturns activeChannels_ =>
    match s.control with
    | .poll =>
      if .wakeup ∈ activeChannels_ → 0 < s.wakeupFd_ ∧ activeChannels_.count .wakeup = 1 then
        some { s with control := .events activeChannels_ }
      else none
    | _ => none
  | .handleEvent =>
    match s.control with
    | .events (.wakeup :: rest) => some { s.handleRead with control := .events rest }
    | .events (.other :: rest) => some { s with control := .handler rest }
    | _ => none
  | .handled =>
    match s.control, s.phase .loop with
    | .handler rest, .outside => some { s with control := .events rest }
    | _, _ => none
  | .doPendingFunctors =>
    match s.control with
    | .events [] => some { s with control := .swap, callingPendingFunctors_ := true }
    | _ => none
  | .swap =>
    match s.control with
    | .swap => some { s with control := .functors s.pendingFunctors_, pendingFunctors_ := [] }
    | _ => none
  | .call =>
    match s.control with
    | .functors (f :: rest) =>
      some { s with control := .functor rest, executed := s.executed ++ [f] }
    | _ => none
  | .returns =>
    match s.control, s.phase .loop with
    | .functor rest, .outside => some { s with control := .functors rest }
    | _, _ => none
  | .callsDone =>
    match s.control with
    | .functors [] => some { s with control := .test, callingPendingFunctors_ := false }
    | _ => none

/-! ## What holds in every state of a run -/

end EventLoop

/-- `doPendingFunctors` runs. -/
def Control.calling : Control T F → Bool
  | .swap | .functors _ | .functor _ => true
  | _ => false

/-- The swap comes before the next `poll`. -/
def Control.drains : Control T F → Bool
  | .events _ | .handler _ | .swap => true
  | _ => false

/-- The functors of `doPendingFunctors` that are still to be called. -/
def Control.taken : Control T F → List (QueuedFunctor T F)
  | .functors fs | .functor fs => fs
  | _ => []

namespace EventLoop

/-- `poll` returns for the functor, or will when its thread goes on; or the thread of the loop queued
    it outside `loop()`. -/
def Announced (s : EventLoop T F) (f : QueuedFunctor T F) : Prop :=
  0 < s.wakeupFd_ ∨
    (s.phase f.caller = .pushed ∧ (f.caller ≠ .loop ∨ s.callingPendingFunctors_ = true)) ∨
    (f.caller = .loop ∧ f.looping_ = false)

structure Inv (s : EventLoop T F) : Prop where
  calling : s.callingPendingFunctors_ = s.control.calling
  idle : s.control.callsOut = false → s.phase .loop = .outside
  order : s.queued = s.executed ++ (s.control.taken ++ s.pendingFunctors_)
  announced : s.control.drains = false → ∀ f ∈ s.pendingFunctors_, s.Announced f

variable {s : EventLoop T F} {f : QueuedFunctor T F}

theorem inv_start : (start : EventLoop T F).Inv := by
  refine ⟨rfl, fun _ => rfl, rfl, ?_⟩
  intro _ f hf
  cases hf

theorem wakeup_pos (s : EventLoop T F) : 0 < s.wakeup.wakeupFd_ := by
  simp only [wakeup]
  split
  · exact Nat.succ_pos _
  · omega

/-! ### Steps of the thread of the loop -/

/-- The thread of the loop is not in a call, so what is announced stays so. -/
theorem Announced.move (h : s.Announced f) (hidle : s.phase .loop = .outside) (ctl : Control T F)
    (calling quit : Bool) :
    { s with control := ctl, callingPendingFunctors_ := calling, quit_ := quit }.Announced f := by
  rcases h with hpos | ⟨hpushed, -⟩ | hearly
  · exact .inl hpos
  · refine .inr (.inl ⟨hpushed, .inl ?_⟩)
    intro hloop
    rw [hloop, hidle] at hpushed
    cases hpushed
  · exact .inr (.inr hearly)

theorem Inv.move (h : s.Inv) {ctl : Control T F} {calling quit : Bool}
    (hcalling : calling = ctl.calling) (htaken : ctl.taken = s.control.taken)
    (hidle : ctl.callsOut = false → s.phase .loop = .outside)
    (hann : ctl.drains = false → s.control.drains = false ∧ s.phase .loop = .outside) :
    { s with control := ctl, callingPendingFunctors_ := calling, quit_ := quit }.Inv := by
  refine ⟨hcalling, hidle, ?_, ?_⟩
  · simp only [htaken, h.order]
  · intro hdrains f hf
    obtain ⟨hdrains', hloop⟩ := hann hdrains
    exact (h.announced hdrains' f hf).move hloop ctl calling quit

theorem Inv.handleRead (h : s.Inv) {ac : ActiveChannel} {rest : List ActiveChannel}
    (hctl : s.control = .events (ac :: rest)) :
    { s.handleRead with control := .events rest }.Inv := by
  refine ⟨?_, fun _ => h.idle (by rw [hctl]; rfl), ?_, ?_⟩
  · simp only [EventLoop.handleRead, h.calling, hctl, Control.calling]
  · simp only [EventLoop.handleRead, h.order, hctl, Control.taken]
  · intro hdrains
    cases hdrains

theorem Inv.swap (h : s.Inv) (hctl : s.control = .swap) :
    { s with control := .functors s.pendingFunctors_, pendingFunctors_ := [] }.Inv := by
  refine ⟨?_, fun _ => h.idle (by rw [hctl]; rfl), ?_, ?_⟩
  · simp only [h.calling, hctl, Control.calling]
  · simp only [h.order, hctl, Control.taken, List.nil_append, List.append_nil]
  · intro _ f hf
    cases hf

theorem Inv.call (h : s.Inv) {g : QueuedFunctor T F} {rest : List (QueuedFunctor T F)}
    (hctl : s.control = .functors (g :: rest)) :
    { s with control := .functor rest, executed := s.executed ++ [g] }.Inv := by
  refine ⟨?_, ?_, ?_, ?_⟩
  · simp only [h.calling, hctl, Control.calling]
  · intro hclosed
    cases hclosed
  · simp only [h.order, hctl, Control.taken, List.append_assoc, List.cons_append, List.nil_append]
  · intro _
    exact h.announced (by rw [hctl]; rfl)

/-! ### Steps of a call -/

variable [DecidableEq T] {c : Caller T}

theorem setPhase_self (s : EventLoop T F) (c : Caller T) (p : CallPhase) :
    (s.setPhase c p).phase c = p := by
  simp only [setPhase, Function.update_self]

theorem setPhase_of_ne (s : EventLoop T F) {c c' : Caller T} (h : c' ≠ c) (p : CallPhase) :
    (s.setPhase c p).phase c' = s.phase c' := by
  simp only [setPhase, Function.update_of_ne h]

/-- A call of another thread leaves the thread of the loop as it is, and the thread of the loop calls
    where it may only. -/
theorem Inv.idle_call (h : s.Inv) (hc : s.mayCall c) (p : CallPhase)
    (hclosed : s.control.callsOut = false) : (s.setPhase c p).phase .loop = .outside := by
  have hne : .loop ≠ c := by
    rintro rfl
    rw [hc.2 rfl] at hclosed
    cases hclosed
  rw [setPhase_of_ne s hne, h.idle hclosed]

theorem Announced.pushed (h : s.Announced f) (c : Caller T) :
    (s.setPhase c .pushed).Announced f := by
  rcases h with hpos | ⟨hpushed, hcalling⟩ | hearly
  · exact .inl hpos
  · refine .inr (.inl ⟨?_, hcalling⟩)
    by_cases hfc : f.caller = c
    · rw [hfc, setPhase_self]
    · rw [setPhase_of_ne s hfc, hpushed]
  · exact .inr (.inr hearly)

/-- A phase other than `pushed`, of a thread whose functors need no wakeup now. -/
theorem Announced.setPhase (h : s.Announced f) (p : CallPhase)
    (hc : s.phase c = .pushed → c = .loop ∧ s.callingPendingFunctors_ = false) :
    (s.setPhase c p).Announced f := by
  rcases h with hpos | ⟨hpushed, hcalling⟩ | hearly
  · exact .inl hpos
  · refine .inr (.inl ⟨?_, hcalling⟩)
    have hfc : f.caller ≠ c := by
      rintro rfl
      obtain ⟨hloop, hnot⟩ := hc hpushed
      rcases hcalling with hne | hcalling
      · exact hne hloop
      · rw [hnot] at hcalling
        cases hcalling
    rw [setPhase_of_ne s hfc, hpushed]
  · exact .inr (.inr hearly)

/-- The functor that is pushed. -/
theorem Inv.announced_pushed (h : s.Inv) (hc : s.mayCall c) (hdrains : s.control.drains = false)
    (cb : F) : (s.setPhase c .pushed).Announced ⟨cb, c, s.control.looping_⟩ := by
  by_cases hloop : c = .loop
  · subst hloop
    have hout := hc.2 rfl
    have hcalling := h.calling
    -- the thread of the loop is in a functor or outside `loop()`
    cases hctl : s.control with
    | outside => exact .inr (.inr ⟨rfl, rfl⟩)
    | functor fs =>
      rw [hctl] at hcalling
      exact .inr (.inl ⟨setPhase_self s _ _, .inr hcalling⟩)
    | handler rest =>
      rw [hctl] at hdrains
      cases hdrains
    | _ =>
      rw [hctl] at hout
      cases hout
  · exact .inr (.inl ⟨setPhase_self s c _, .inl hloop⟩)

theorem Inv.queueInLoop (h : s.Inv) (hc : s.mayCall c) (cb : F) :
    ((s.push_back c cb).setPhase c .pushed).Inv := by
  refine ⟨h.calling, h.idle_call hc .pushed, ?_, ?_⟩
  · simp only [push_back, EventLoop.setPhase, h.order, List.append_assoc]
  · intro hdrains f hf
    have hf' : f ∈ s.pendingFunctors_ ++ [⟨cb, c, s.control.looping_⟩] := hf
    rcases List.mem_append.mp hf' with hf' | hf'
    · exact (h.announced hdrains f hf').pushed c
    · rw [List.mem_singleton] at hf'
      rw [hf']
      exact h.announced_pushed hc hdrains cb

theorem Inv.quit (h : s.Inv) (hc : s.mayCall c) :
    ({ s with quit_ := true }.setPhase c .quitting).Inv := by
  refine ⟨h.calling, h.idle_call hc .quitting, h.order, ?_⟩
  intro hdrains f hf
  refine (h.announced hdrains f hf).setPhase .quitting ?_
  intro hpushed
  rw [hc.1] at hpushed
  cases hpushed

theorem Inv.idle_outside (h : s.Inv) (c : Caller T) (hclosed : s.control.callsOut = false) :
    (s.setPhase c .outside).phase .loop = .outside := by
  by_cases hc : .loop = c
  · rw [← hc, setPhase_self]
  · rw [setPhase_of_ne s hc, h.idle hclosed]

theorem Inv.wake_write (h : s.Inv) (c : Caller T) : (s.wakeup.setPhase c .outside).Inv :=
  ⟨h.calling, h.idle_outside c, h.order, fun _ _ _ => .inl s.wakeup_pos⟩

theorem Inv.wake_none (h : s.Inv)
    (hc : s.phase c = .pushed → c = .loop ∧ s.callingPendingFunctors_ = false) :
    (s.setPhase c .outside).Inv :=
  ⟨h.calling, h.idle_outside c, h.order,
    fun hdrains f hf => (h.announced hdrains f hf).setPhase .outside hc⟩

/-- **One step of any thread.** -/
theorem Inv.step {s' : EventLoop T F} (h : s.Inv) {a : LoopAction T F}
    (hs : s.step a = some s') : s'.Inv := by
  cases a with
  | queueInLoop c cb =>
    simp only [EventLoop.step, Option.ite_none_right_eq_some, Option.some.injEq] at hs
    obtain ⟨hc, rfl⟩ := hs
    exact h.queueInLoop hc cb
  | quit c =>
    simp only [EventLoop.step, Option.ite_none_right_eq_some, Option.some.injEq] at hs
    obtain ⟨hc, rfl⟩ := hs
    exact h.quit hc
  | wake c =>
    simp only [EventLoop.step] at hs
    split at hs
    · cases hs
    · split at hs
      · cases hs
        exact h.wake_write c
      · rename_i hnot
        obtain ⟨hloop, hcalling⟩ := not_or.mp hnot
        cases hs
        exact h.wake_none fun _ => ⟨Classical.not_not.mp hloop, Bool.eq_false_iff.mpr hcalling⟩
    · rename_i hquitting
      split at hs
      · cases hs
        exact h.wake_write c
      · cases hs
        refine h.wake_none ?_
        intro hpushed
        rw [hquitting] at hpushed
        cases hpushed
  | loop =>
    simp only [EventLoop.step] at hs
    split at hs
    · rename_i hctl hidle
      cases hs
      exact h.move (by rw [h.calling, hctl]; rfl) (by rw [hctl]; rfl) (fun _ => hidle)
        (fun _ => ⟨by rw [hctl]; rfl, hidle⟩)
    · cases hs
  | whileTest =>
    simp only [EventLoop.step] at hs
    split at hs
    · rename_i hctl
      have hidle := h.idle (by rw [hctl]; rfl)
      have hdrains : s.control.drains = false := by rw [hctl]; rfl
      cases hs
      cases hq : s.quit_ with
      | true =>
        exact h.move (by rw [h.calling, hctl]; rfl) (by rw [hctl]; rfl) (fun _ => hidle)
          (fun _ => ⟨hdrains, hidle⟩)
      | false =>
        exact h.move (by rw [h.calling, hctl]; rfl) (by rw [hctl]; rfl) (fun _ => hidle)
          (fun _ => ⟨hdrains, hidle⟩)
    · cases hs
  | pollReturns activeChannels_ =>
    simp only [EventLoop.step] at hs
    split at hs
    · rename_i hctl
      simp only [Option.ite_none_right_eq_some, Option.some.injEq] at hs
      obtain ⟨-, rfl⟩ := hs
      exact h.move (by rw [h.calling, hctl]; rfl) (by rw [hctl]; rfl)
        (fun _ => h.idle (by rw [hctl]; rfl)) (fun hdrains => by cases hdrains)
    · cases hs
  | handleEvent =>
    simp only [EventLoop.step] at hs
    split at hs
    · rename_i rest hctl
      cases hs
      exact h.handleRead hctl
    · rename_i rest hctl
      cases hs
      exact h.move (by rw [h.calling, hctl]; rfl) (by rw [hctl]; rfl)
        (fun hclosed => by cases hclosed) (fun hdrains => by cases hdrains)
    · cases hs
  | handled =>
    simp only [EventLoop.step] at hs
    split at hs
    · rename_i rest hctl hidle
      cases hs
      exact h.move (by rw [h.calling, hctl]; rfl) (by rw [hctl]; rfl) (fun _ => hidle)
        (fun hdrains => by cases hdrains)
    · cases hs
  | doPendingFunctors =>
    simp only [EventLoop.step] at hs
    split at hs
    · rename_i hctl
      cases hs
      exact h.move rfl (by rw [hctl]; rfl) (fun _ => h.idle (by rw [hctl]; rfl))
        (fun hdrains => by cases hdrains)
    · cases hs
  | swap =>
    simp only [EventLoop.step] at hs
    split at hs
    · rename_i hctl
      cases hs
      exact h.swap hctl
    · cases hs
  | call =>
    simp only [EventLoop.step] at hs
    split at hs
    · rename_i g rest hctl
      cases hs
      exact h.call hctl
    · cases hs
  | returns =>
    simp only [EventLoop.step] at hs
    split at hs
    · rename_i rest hctl hidle
      cases hs
      exact h.move (by rw [h.calling, hctl]; rfl) (by rw [hctl]; rfl) (fun _ => hidle)
        (fun _ => ⟨by rw [hctl]; rfl, hidle⟩)
    · cases hs
  | callsDone =>
    simp only [EventLoop.step] at hs
    split at hs
    · rename_i hctl
      have hidle := h.idle (by rw [hctl]; rfl)
      cases hs
      exact h.move rfl (by rw [hctl]; rfl) (fun _ => hidle) (fun _ => ⟨by rw [hctl]; rfl, hidle⟩)
    · cases hs

theorem inv_run {as : List (LoopAction T F)} (h : run EventLoop.step start as = some s) : s.Inv :=
  (reaches_runFrom h).invariant inv_start fun _ _ _ hi _ hs => hi.step hs

/-- **In every run, a functor that waits when `poll` is entered was announced at the eventfd, is in a
    call of another thread that will do so, or was queued by the thread of the loop outside `loop()`.
    What was executed is the first part of what was queued, in this order.** -/
theorem no_lost_wakeup (as : List (LoopAction T F)) (h : run EventLoop.step start as = some s) :
    (s.control = .poll → ∀ f ∈ s.pendingFunctors_,
      0 < s.wakeupFd_ ∨ (f.caller ≠ .loop ∧ s.phase f.caller = .pushed) ∨
        (f.caller = .loop ∧ f.looping_ = false)) ∧
    s.executed <+: s.queued := by
  have hinv := inv_run h
  constructor
  · intro hctl f hf
    have hcalling := hinv.calling
    rw [hctl] at hcalling
    rcases hinv.announced (by rw [hctl]; rfl) f hf with hpos | ⟨hpushed, hwake⟩ | hearly
    · exact .inl hpos
    · refine .inr (.inl ⟨?_, hpushed⟩)
      exact hwake.resolve_right (by rw [hcalling]; exact Bool.false_ne_true)
    · exact .inr (.inr hearly)
  · rw [hinv.order]
    exact List.prefix_append _ _

/-- A functor queued while another one runs is announced before the next `poll`. -/
theorem no_lost_wakeup_nested :
    ∃ s : EventLoop Unit Nat, s.control = .poll ∧ s.pendingFunctors_ = [⟨2, .loop, true⟩] ∧
      s.executed = [⟨1, .other (), true⟩] ∧ 0 < s.wakeupFd_ ∧ s.executed <+: s.queued := by
  obtain ⟨s, hs, hctl, hpending, hexecuted⟩ : ∃ s : EventLoop Unit Nat, run EventLoop.step start
      [.loop, .whileTest, .queueInLoop (.other ()) 1, .wake (.other ()), .pollReturns [.wakeup],
        .handleEvent, .doPendingFunctors, .swap, .call, .queueInLoop .loop 2, .wake .loop, .returns,
        .callsDone, .whileTest] = some s ∧ s.control = .poll ∧
      s.pendingFunctors_ = [⟨2, .loop, true⟩] ∧ s.executed = [⟨1, .other (), true⟩] :=
    ⟨_, rfl, rfl, rfl, rfl⟩
  obtain ⟨hpoll, hprefix⟩ := no_lost_wakeup _ hs
  refine ⟨s, hctl, hpending, hexecuted, ?_, hprefix⟩
  have hmem : ⟨2, .loop, true⟩ ∈ s.pendingFunctors_ := by
    rw [hpending]
    exact List.mem_singleton.mpr rfl
  rcases hpoll hctl _ hmem with hpos | ⟨hne, -⟩ | ⟨-, hearly⟩
  · exact hpos
  · exact absurd rfl hne
  · cases hearly

/-- `poll` is entered, unannounced, after the thread of the loop has queued a functor before
    `loop()`, and while another thread is between `push_back` and `wakeup()`. -/
theorem poll_entered_unannounced :
    (¬ ∀ (as : List (LoopAction Unit Nat)) s, run EventLoop.step start as = some s →
      s.control = .poll → s.pendingFunctors_ = [] ∨ 0 < s.wakeupFd_) ∧
    (∃ s : EventLoop Unit Nat, run EventLoop.step start
        [.queueInLoop .loop 1, .wake .loop, .loop, .whileTest] = some s ∧
      s.control = .poll ∧ s.pendingFunctors_ = [⟨1, .loop, false⟩] ∧ s.wakeupFd_ = 0) ∧
    (∃ s : EventLoop Unit Nat, run EventLoop.step start
        [.loop, .queueInLoop (.other ()) 1, .whileTest] = some s ∧
      s.control = .poll ∧ s.pendingFunctors_ = [⟨1, .other (), true⟩] ∧ s.wakeupFd_ = 0) := by
  refine ⟨?_, ⟨_, rfl, rfl, rfl, rfl⟩, ⟨_, rfl, rfl, rfl, rfl⟩⟩
  intro hall
  rcases hall [.queueInLoop .loop 1, .wake .loop, .loop, .whileTest] _ rfl rfl with h | h
  · cases h
  · exact absurd h (by decide)

end EventLoop

end Mmvx.Net
