/-
  The thread pool (muduo/base/ThreadPool.{h,cc}).

  The state is that of a pool after `start(numThreads)`. What runs under `mutex_` is a step: the test
  of `isFull` in `run`, with what follows it, and the test of the queue in `take`; a test that fails
  ends in `wait`. So is the read of `running_` in `runInThread`, which takes no lock, and the end of
  a task. A notification wakes any one of those that wait, and a wakeup may also be spurious. Calls
  of `run` are numbered as they are made, and call `k` passes task `k`; a task does not itself call
  `run` of its pool.

  Tasks are executed once and in the order of the queue (`thread_pool_tasks`), and whoever waits is
  woken when there is something for it (`Awake`).
-/
import Mathlib.Data.List.Nodup
import Mmvx.Lib.Condition
import Mmvx.Lib.Run

namespace Mmvx.Base

open Mmvx.Lib

/-- Where a thread of the pool is in `runInThread`. -/
inductive PoolThread where
  /-- At the test of `while (running_)`. -/
  | loop
  /-- In `take()`, about to test the queue. -/
  | take
  /-- In `notEmpty_.wait()`. -/
  | wait
  | exec (k : Nat)
  | ended
  deriving DecidableEq, Repr

/-- Where a call of `run` is. -/
inductive RunCall where
  /-- About to test `isFull()`. -/
  | test
  /-- In `notFull_.wait()`. -/
  | wait
  | returned
  deriving DecidableEq, Repr

structure ThreadPool where
  maxQueueSize_ : Nat
  running_ : Bool
  threads_ : List PoolThread
  queue_ : List Nat
  calls : List RunCall
  /-- The tasks that `run` has accepted, that `take()` has returned, and that have been executed,
      oldest first. -/
  accepted : List Nat
  taken : List Nat
  executed : List Nat
  deriving DecidableEq, Repr

inductive ThreadPoolAction where
  /-- Somebody calls `run`. -/
  | run
  /-- Call `k` tests the queue; `woken` is whom `notEmpty_.notify()` wakes. -/
  | test (k : Nat) (woken : Option Nat)
  | loop (i : Nat)
  /-- Thread `i` tests the queue; `woken` is whom `notFull_.notify()` wakes. -/
  | take (i : Nat) (woken : Option Nat)
  /-- The task of thread `i` returns. -/
  | finish (i : Nat)
  | stop
  /-- Spurious wakeups. -/
  | wakeThread (i : Nat)
  | wakeCall (k : Nat)
  deriving DecidableEq, Repr

namespace ThreadPool

def start (maxQueueSize numThreads : Nat) : ThreadPool where
  maxQueueSize_ := maxQueueSize
  running_ := true
  threads_ := .replicate numThreads .loop
  queue_ := []
  calls := []
  accepted := []
  taken := []
  executed := []

def isFull (s : ThreadPool) : Bool := s.maxQueueSize_ > 0 && s.queue_.length ≥ s.maxQueueSize_

def goto (s : ThreadPool) (i : Nat) (w : PoolThread) : ThreadPool :=
  { s with threads_ := s.threads_.set i w }

def notifyFull (s : ThreadPool) (woken : Option Nat) : Option (List RunCall) :=
  if s.maxQueueSize_ > 0 then notifyOne .wait .test s.calls woken else some s.calls

/-- `run`, up to the lock. A pool without threads executes the task at once. -/
def run (s : ThreadPool) : ThreadPool :=
  if s.threads_.isEmpty then
    { s with
      calls := s.calls ++ [.returned]
      accepted := s.accepted ++ [s.calls.length]
      taken := s.taken ++ [s.calls.length]
      executed := s.executed ++ [s.calls.length] }
  else
    { s with calls := s.calls ++ [.test] }

/-- `run`, from the test of its loop on. -/
def push (s : ThreadPool) (k : Nat) (woken : Option Nat) : Option ThreadPool :=
  if s.isFull then some { s with calls := s.calls.set k .wait }
  else (notifyOne .wait .take s.threads_ woken).map fun threads =>
    { s with
      threads_ := threads
      queue_ := s.queue_ ++ [k]
      calls := s.calls.set k .returned
      accepted := s.accepted ++ [k] }

/-- `take`, from the test of its loop on. -/
def take (s : ThreadPool) (i : Nat) (woken : Option Nat) : Option ThreadPool :=
  match s.queue_ with
  -- with an empty task, so that `runInThread` tests `running_` again
  | [] => some (s.goto i (if s.running_ then .wait else .loop))
  | k :: q => (s.notifyFull woken).map fun calls =>
    { s.goto i (.exec k) with queue_ := q, calls := calls, taken := s.taken ++ [k] }

/-- `stop`, up to the joins. -/
def stop (s : ThreadPool) : ThreadPool :=
  { s with running_ := false, threads_ := notifyAll .wait .take s.threads_ }

def step (s : ThreadPool) : ThreadPoolAction → Option ThreadPool
  | .run => some s.run
  | .test k woken => if s.calls[k]? = some .test then s.push k woken else none
  | .loop i =>
    if s.threads_[i]? = some .loop then some (s.goto i (if s.running_ then .take else .ended))
    else none
  | .take i woken => if s.threads_[i]? = some .take then s.take i woken else none
  | .finish i =>
    match s.threads_[i]? with
    | some (.exec k) => some { s.goto i .loop with executed := s.executed ++ [k] }
    | _ => none
  | .stop => some s.stop
  | .wakeThread i => if s.threads_[i]? = some .wait then some (s.goto i .take) else none
  | .wakeCall k =>
    if s.calls[k]? = some .wait then some { s with calls := s.calls.set k .test } else none

/-! ## What a step can do -/

/-- What a thread or a call does by itself. -/
inductive Own (s : ThreadPool) : ThreadPool → Prop
  | loop {i : Nat} (hi : s.threads_[i]? = some .loop) (hrun : s.running_ = true) :
      Own s (s.goto i .take)
  | leave {i : Nat} (hi : s.threads_[i]? = some .loop) (hrun : s.running_ = false) :
      Own s (s.goto i .ended)
  | wait {i : Nat} (hi : s.threads_[i]? = some .take) (hq : s.queue_ = [])
      (hrun : s.running_ = true) : Own s (s.goto i .wait)
  | giveUp {i : Nat} (hi : s.threads_[i]? = some .take) (hq : s.queue_ = [])
      (hrun : s.running_ = false) : Own s (s.goto i .loop)
  | take {i k : Nat} {q : List Nat} {woken : Option Nat} {calls : List RunCall}
      (hi : s.threads_[i]? = some .take) (hq : s.queue_ = k :: q)
      (hcalls : s.notifyFull woken = some calls) :
      Own s { s.goto i (.exec k) with queue_ := q, calls := calls, taken := s.taken ++ [k] }
  | finish {i k : Nat} (hi : s.threads_[i]? = some (.exec k)) :
      Own s { s.goto i .loop with executed := s.executed ++ [k] }
  | block {k : Nat} (hk : s.calls[k]? = some .test) (hfull : s.isFull = true) :
      Own s { s with calls := s.calls.set k .wait }
  | push {k : Nat} {woken : Option Nat} {threads : List PoolThread}
      (hk : s.calls[k]? = some .test) (hroom : s.isFull = false)
      (hthreads : notifyOne .wait .take s.threads_ woken = some threads) :
      Own s { s with
        threads_ := threads
        queue_ := s.queue_ ++ [k]
        calls := s.calls.set k .returned
        accepted := s.accepted ++ [k] }

inductive Moves (s : ThreadPool) : ThreadPool → Prop
  | own {s' : ThreadPool} (h : Own s s') : Moves s s'
  | runHere (h : s.threads_ = []) : Moves s { s with
      calls := s.calls ++ [.returned]
      accepted := s.accepted ++ [s.calls.length]
      taken := s.taken ++ [s.calls.length]
      executed := s.executed ++ [s.calls.length] }
  | run (h : s.threads_ ≠ []) : Moves s { s with calls := s.calls ++ [.test] }
  | stop : Moves s s.stop
  | wakeThread {i : Nat} (hi : s.threads_[i]? = some .wait) : Moves s (s.goto i .take)
  | wakeCall {k : Nat} (hk : s.calls[k]? = some .wait) :
      Moves s { s with calls := s.calls.set k .test }

/-- The action is a step of a thread or of a call by itself. -/
def ofPool : ThreadPoolAction → Bool
  | .test _ _ | .loop _ | .take _ _ | .finish _ => true
  | _ => false

variable {s s' : ThreadPool} {i k : Nat} {a : ThreadPoolAction}

theorem own_push {woken : Option Nat} (hk : s.calls[k]? = some .test)
    (h : s.push k woken = some s') : Own s s' := by
  unfold push at h
  split at h
  · obtain rfl := Option.some.inj h
    exact .block hk ‹_›
  · rename_i hroom
    obtain ⟨threads, hthreads, rfl⟩ := Option.map_eq_some_iff.mp h
    exact .push hk (by simpa using hroom) hthreads

theorem own_take {woken : Option Nat} (hi : s.threads_[i]? = some .take)
    (h : s.take i woken = some s') : Own s s' := by
  unfold take at h
  split at h
  · obtain rfl := Option.some.inj h
    cases hrun : s.running_ with
    | true => exact .wait hi ‹_› hrun
    | false => exact .giveUp hi ‹_› hrun
  · obtain ⟨calls, hcalls, rfl⟩ := Option.map_eq_some_iff.mp h
    exact .take hi ‹_› hcalls

theorem step_own (ha : ofPool a = true) (h : s.step a = some s') : Own s s' := by
  cases a with
  | test k woken =>
    dsimp only [step] at h
    split at h
    · exact own_push ‹_› h
    · cases h
  | loop i =>
    dsimp only [step] at h
    split at h
    · obtain rfl := Option.some.inj h
      cases hrun : s.running_ with
      | true => exact .loop ‹_› hrun
      | false => exact .leave ‹_› hrun
    · cases h
  | take i woken =>
    dsimp only [step] at h
    split at h
    · exact own_take ‹_› h
    · cases h
  | finish i =>
    dsimp only [step] at h
    split at h
    · obtain rfl := Option.some.inj h
      exact .finish ‹_›
    · cases h
  | _ => cases ha

theorem step_moves (h : s.step a = some s') : Moves s s' := by
  cases a with
  | run =>
    obtain rfl := Option.some.inj h
    unfold run
    split
    · rename_i h
      exact .runHere (by simpa using h)
    · rename_i h
      exact .run (by simpa using h)
  | stop =>
    obtain rfl := Option.some.inj h
    exact .stop
  | wakeThread i =>
    dsimp only [step] at h
    split at h
    · obtain rfl := Option.some.inj h
      exact .wakeThread ‹_›
    · cases h
  | wakeCall k =>
    dsimp only [step] at h
    split at h
    · obtain rfl := Option.some.inj h
      exact .wakeCall ‹_›
    · cases h
  | _ => exact .own (step_own rfl h)

/-! ## The tasks -/

/-- The tasks that have been accepted and the calls that passed them. -/
structure Tasks (s : ThreadPool) : Prop where
  bounded : 0 < s.maxQueueSize_ → s.queue_.length ≤ s.maxQueueSize_
  order : s.accepted = s.taken ++ s.queue_
  once : s.accepted.Nodup
  returned : ∀ k, k ∈ s.accepted ↔ s.calls[k]? = some .returned
  running : ∀ k, s.taken.count k = s.executed.count k + s.threads_.countP fun w => w = .exec k

/-- Steps that only move a thread that does not execute anything, or a call that stays. -/
theorem Tasks.frame (h : Tasks s) (hmax : s'.maxQueueSize_ = s.maxQueueSize_)
    (hqueue : s'.queue_ = s.queue_) (haccepted : s'.accepted = s.accepted)
    (htaken : s'.taken = s.taken) (hexecuted : s'.executed = s.executed)
    (hcalls : ∀ k : Nat, s'.calls[k]? = some .returned ↔ s.calls[k]? = some .returned)
    (hthreads : ∀ k, (s'.threads_.countP fun w => w = .exec k) =
      s.threads_.countP fun w => w = .exec k) : Tasks s' where
  bounded := by rw [hmax, hqueue]; exact h.bounded
  order := by rw [haccepted, htaken, hqueue]; exact h.order
  once := by rw [haccepted]; exact h.once
  returned k := by rw [haccepted, hcalls]; exact h.returned k
  running k := by rw [htaken, hexecuted, hthreads]; exact h.running k

theorem countP_goto {w w' : PoolThread} (hi : s.threads_[i]? = some w) (hw : ∀ k, w ≠ .exec k)
    (hw' : ∀ k, w' ≠ .exec k) (k : Nat) :
    ((s.goto i w').threads_.countP fun w => w = .exec k) =
      s.threads_.countP fun w => w = .exec k := by
  have hcount := countP_set_add (fun w => w = .exec k) hi w'
  simp only [hw k, hw' k] at hcount
  exact hcount

theorem returned_set {c : RunCall} (hk : s.calls[k]? = some c) (hc : c ≠ .returned)
    {c' : RunCall} (hc' : c' ≠ .returned) (j : Nat) :
    (s.calls.set k c')[j]? = some .returned ↔ s.calls[j]? = some .returned := by
  by_cases hjk : k = j
  · subst hjk
    rw [List.getElem?_set_self (List.getElem?_eq_some_iff.mp hk).1, hk]
    simp [hc, hc']
  · rw [List.getElem?_set_ne hjk]

theorem returned_concat (c : RunCall) (j : Nat) :
    (s.calls ++ [c])[j]? = some .returned ↔
      s.calls[j]? = some .returned ∨ (j = s.calls.length ∧ c = .returned) := by
  constructor
  · intro h
    rcases getElem?_concat_cases h with hold | ⟨rfl, rfl⟩
    · exact .inl hold
    · exact .inr ⟨rfl, rfl⟩
  · rintro (hold | ⟨rfl, rfl⟩)
    · rw [List.getElem?_append_left (List.getElem?_eq_some_iff.mp hold).1, hold]
    · exact List.getElem?_concat_length

theorem returned_notifyFull {woken : Option Nat} {calls : List RunCall}
    (h : s.notifyFull woken = some calls) (j : Nat) :
    calls[j]? = some .returned ↔ s.calls[j]? = some .returned := by
  unfold notifyFull at h
  split at h
  · exact getElem?_notifyOne h (by decide) (by decide) j
  · rw [Option.some.inj h]

theorem Tasks.take (h : Tasks s) {q : List Nat} {woken : Option Nat} {calls : List RunCall}
    (hi : s.threads_[i]? = some .take) (hq : s.queue_ = k :: q)
    (hcalls : s.notifyFull woken = some calls) :
    Tasks { s.goto i (.exec k) with queue_ := q, calls := calls, taken := s.taken ++ [k] } where
  bounded := by
    intro hpos
    have hle := h.bounded hpos
    rw [hq, List.length_cons] at hle
    exact Nat.le_of_succ_le hle
  order := by
    show s.accepted = s.taken ++ [k] ++ q
    rw [h.order, hq, List.append_assoc, List.singleton_append]
  once := h.once
  returned j := (h.returned j).trans (returned_notifyFull hcalls j).symm
  running j := by
    have hcount := countP_set_add (fun w => w = .exec j) hi (.exec k)
    have hold := h.running j
    show (s.taken ++ [k]).count j = s.executed.count j + (s.threads_.set i _).countP _
    rw [List.count_append, List.count_singleton]
    by_cases hkj : k = j
    · simp [hkj] at hcount ⊢
      omega
    · simp [hkj] at hcount ⊢
      omega

theorem Tasks.finish (h : Tasks s) (hi : s.threads_[i]? = some (.exec k)) :
    Tasks { s.goto i .loop with executed := s.executed ++ [k] } where
  bounded := h.bounded
  order := h.order
  once := h.once
  returned := h.returned
  running j := by
    have hcount := countP_set_add (fun w => w = .exec j) hi .loop
    have hold := h.running j
    show s.taken.count j = (s.executed ++ [k]).count j + (s.threads_.set i _).countP _
    rw [List.count_append, List.count_singleton]
    by_cases hkj : k = j
    · simp [hkj] at hcount ⊢
      omega
    · simp [hkj] at hcount ⊢
      omega

theorem Tasks.push (h : Tasks s) {woken : Option Nat} {threads : List PoolThread}
    (hk : s.calls[k]? = some .test) (hroom : s.isFull = false)
    (hthreads : notifyOne .wait .take s.threads_ woken = some threads) :
    Tasks { s with
      threads_ := threads
      queue_ := s.queue_ ++ [k]
      calls := s.calls.set k .returned
      accepted := s.accepted ++ [k] } where
  bounded := by
    intro hpos
    have hlt : s.queue_.length < s.maxQueueSize_ := by
      simp only [isFull, Bool.and_eq_false_iff, decide_eq_false_iff_not] at hroom
      have := show 0 < s.maxQueueSize_ from hpos
      omega
    rw [List.length_append, List.length_singleton]
    exact hlt
  order := by
    show s.accepted ++ [k] = s.taken ++ (s.queue_ ++ [k])
    rw [h.order, List.append_assoc]
  once := by
    refine List.nodup_append.mpr ⟨h.once, by simp, ?_⟩
    rintro j hj _ hjk rfl
    obtain rfl := List.mem_singleton.mp hjk
    rw [h.returned, hk] at hj
    cases hj
  returned j := by
    show j ∈ s.accepted ++ [k] ↔ (s.calls.set k .returned)[j]? = some .returned
    rw [List.mem_append, List.mem_singleton, h.returned]
    by_cases hjk : k = j
    · subst hjk
      rw [List.getElem?_set_self (List.getElem?_eq_some_iff.mp hk).1]
      simp
    · rw [List.getElem?_set_ne hjk]
      simp [Ne.symm hjk]
  running j := by
    show s.taken.count j = s.executed.count j + threads.countP _
    rw [countP_notifyOne _ hthreads (by simp)]
    exact h.running j

theorem Tasks.runHere (h : Tasks s) (hqueue : s.queue_ = []) :
    Tasks { s with
      calls := s.calls ++ [.returned]
      accepted := s.accepted ++ [s.calls.length]
      taken := s.taken ++ [s.calls.length]
      executed := s.executed ++ [s.calls.length] } where
  bounded := h.bounded
  order := by
    have horder := h.order
    dsimp only
    rw [hqueue, List.append_nil] at horder ⊢
    rw [horder]
  once := by
    refine List.nodup_append.mpr ⟨h.once, by simp, ?_⟩
    rintro j hj _ hjk rfl
    obtain rfl := List.mem_singleton.mp hjk
    rw [h.returned, List.getElem?_length] at hj
    cases hj
  returned j := by
    dsimp only
    rw [List.mem_append, List.mem_singleton, h.returned, returned_concat]
    simp
  running j := by
    have hold := h.running j
    dsimp only
    rw [List.count_append, List.count_append, hold]
    omega

theorem Tasks.own (h : Tasks s) (ho : Own s s') : Tasks s' := by
  cases ho with
  | loop hi hrun =>
    exact h.frame rfl rfl rfl rfl rfl (fun _ => Iff.rfl) (countP_goto hi (by simp) (by simp))
  | leave hi hrun =>
    exact h.frame rfl rfl rfl rfl rfl (fun _ => Iff.rfl) (countP_goto hi (by simp) (by simp))
  | wait hi hq hrun =>
    exact h.frame rfl rfl rfl rfl rfl (fun _ => Iff.rfl) (countP_goto hi (by simp) (by simp))
  | giveUp hi hq hrun =>
    exact h.frame rfl rfl rfl rfl rfl (fun _ => Iff.rfl) (countP_goto hi (by simp) (by simp))
  | take hi hq hcalls => exact h.take hi hq hcalls
  | finish hi => exact h.finish hi
  | block hk hfull =>
    exact h.frame rfl rfl rfl rfl rfl (returned_set hk (by simp) (by simp)) fun _ => rfl
  | push hk hroom hthreads => exact h.push hk hroom hthreads

theorem Tasks.moves (h : Tasks s) (hqueue : s.threads_ = [] → s.queue_ = []) (hm : Moves s s') :
    Tasks s' := by
  cases hm with
  | own ho => exact h.own ho
  | runHere hnone => exact h.runHere (hqueue hnone)
  | run hsome =>
    refine h.frame rfl rfl rfl rfl rfl ?_ fun _ => rfl
    intro j
    dsimp only
    rw [returned_concat]
    simp
  | stop =>
    exact h.frame rfl rfl rfl rfl rfl (fun _ => Iff.rfl) fun k => countP_notifyAll _ (by simp)
  | wakeThread hi =>
    exact h.frame rfl rfl rfl rfl rfl (fun _ => Iff.rfl) (countP_goto hi (by simp) (by simp))
  | wakeCall hk =>
    exact h.frame rfl rfl rfl rfl rfl (returned_set hk (by simp) (by simp)) fun _ => rfl

/-! ## Wakeups -/

/-- Whoever waits is woken when there is something for it. -/
structure Awake (s : ThreadPool) : Prop where
  threads : Served .wait .take s.threads_ s.queue_.length
  calls : Served .wait .test s.calls (s.maxQueueSize_ - s.queue_.length)
  blocked : .wait ∈ s.calls → 0 < s.maxQueueSize_
  running : s.running_ = true → .ended ∉ s.threads_
  stopped : s.running_ = false → .wait ∉ s.threads_
  alone : s.threads_ = [] → s.queue_ = [] ∧ ∀ c ∈ s.calls, c = .returned

theorem isFull_iff : s.isFull = true ↔ 0 < s.maxQueueSize_ ∧ s.maxQueueSize_ ≤ s.queue_.length := by
  simp [isFull]

/-- A thread goes on, and maybe takes a task. -/
theorem Awake.goto (h : Awake s) {w w' : PoolThread} (hi : s.threads_[i]? = some w)
    (hthreads : s'.threads_ = s.threads_.set i w') (hmax : s'.maxQueueSize_ = s.maxQueueSize_)
    (hrun : s'.running_ = s.running_) (hserved : Served .wait .take s'.threads_ s'.queue_.length)
    (hcalls : Served .wait .test s'.calls (s'.maxQueueSize_ - s'.queue_.length))
    (hblocked : .wait ∈ s'.calls → .wait ∈ s.calls) (hended : s.running_ = true → w' ≠ .ended)
    (hwait : s.running_ = false → w' ≠ .wait) : Awake s' where
  threads := hserved
  calls := hcalls
  blocked hmem := hmax ▸ h.blocked (hblocked hmem)
  running htrue hmem := by
    rw [hrun] at htrue
    rw [hthreads] at hmem
    rcases List.mem_or_eq_of_mem_set hmem with hold | hnew
    · exact h.running htrue hold
    · exact hended htrue hnew.symm
  stopped hfalse hmem := by
    rw [hrun] at hfalse
    rw [hthreads] at hmem
    rcases List.mem_or_eq_of_mem_set hmem with hold | hnew
    · exact h.stopped hfalse hold
    · exact hwait hfalse hnew.symm
  alone hnil := by
    rw [hthreads, List.set_eq_nil_iff] at hnil
    rw [hnil] at hi
    cases hi

theorem wait_notifyFull {woken : Option Nat} {calls : List RunCall}
    (h : s.notifyFull woken = some calls) (hmem : .wait ∈ calls) : .wait ∈ s.calls := by
  unfold notifyFull at h
  split at h
  · exact (mem_of_mem_notifyOne h hmem).resolve_right (by decide)
  · rwa [Option.some.inj h]

theorem served_notifyFull (h : Awake s) {woken : Option Nat} {calls : List RunCall} {q : List Nat}
    (hq : s.queue_ = k :: q) (hcalls : s.notifyFull woken = some calls) :
    Served .wait .test calls (s.maxQueueSize_ - q.length) := by
  have hserved := h.calls
  rw [hq, List.length_cons] at hserved
  unfold notifyFull at hcalls
  split at hcalls
  · exact (hserved.notify (by decide) hcalls).mono (by omega)
  · rename_i hzero
    have hnone : s.maxQueueSize_ - q.length = 0 := by omega
    rw [hnone]
    exact served_zero

theorem Awake.block (h : Awake s) (hk : s.calls[k]? = some .test) (hfull : s.isFull = true) :
    Awake { s with calls := s.calls.set k .wait } where
  threads := h.threads
  calls := by
    have hzero : s.maxQueueSize_ - s.queue_.length = 0 := by
      have hle := (isFull_iff.mp hfull).2
      omega
    show Served _ _ _ (s.maxQueueSize_ - s.queue_.length)
    rw [hzero]
    exact served_zero
  blocked _ := (isFull_iff.mp hfull).1
  running := h.running
  stopped := h.stopped
  alone hnil := by
    have hreturned := (h.alone hnil).2 _ (List.mem_of_getElem? hk)
    cases hreturned

theorem Awake.push (h : Awake s) {woken : Option Nat} {threads : List PoolThread}
    (hk : s.calls[k]? = some .test) (hroom : s.isFull = false)
    (hthreads : notifyOne .wait .take s.threads_ woken = some threads) :
    Awake { s with
      threads_ := threads
      queue_ := s.queue_ ++ [k]
      calls := s.calls.set k .returned
      accepted := s.accepted ++ [k] } where
  threads := by
    rw [List.length_append, List.length_singleton]
    exact h.threads.notify (by decide) hthreads
  calls := by
    by_cases hzero : s.maxQueueSize_ = 0
    · show Served _ _ _ (s.maxQueueSize_ - _)
      rw [hzero, Nat.zero_sub]
      exact served_zero
    · refine h.calls.set hk (by decide) ?_
      have hlt : ¬ s.maxQueueSize_ ≤ s.queue_.length := by
        intro hle
        rw [isFull_iff.mpr ⟨Nat.pos_of_ne_zero hzero, hle⟩] at hroom
        cases hroom
      rw [List.length_append, List.length_singleton]
      simp
      omega
  blocked hmem := h.blocked ((List.mem_or_eq_of_mem_set hmem).resolve_right (by decide))
  running htrue hmem :=
    h.running htrue ((mem_of_mem_notifyOne hthreads hmem).resolve_right (by decide))
  stopped hfalse hmem :=
    h.stopped hfalse ((mem_of_mem_notifyOne hthreads hmem).resolve_right (by decide))
  alone hnil := by
    have hlen := length_notifyOne hthreads
    dsimp only at hnil
    rw [hnil] at hlen
    have hold : s.threads_ = [] := List.eq_nil_of_length_eq_zero hlen.symm
    have hreturned := (h.alone hold).2 _ (List.mem_of_getElem? hk)
    cases hreturned

theorem Awake.own (h : Awake s) (ho : Own s s') : Awake s' := by
  cases ho with
  | loop hi hrun =>
    exact h.goto hi rfl rfl rfl (h.threads.set hi (by decide) (by simp [ThreadPool.goto])) h.calls
      id (by simp) (by simp)
  | leave hi hrun =>
    exact h.goto hi rfl rfl rfl (h.threads.set hi (by decide) (by simp [ThreadPool.goto])) h.calls
      id (by simp [hrun]) (by simp)
  | wait hi hq hrun =>
    refine h.goto hi rfl rfl rfl ?_ h.calls id (by simp) (by simp [hrun])
    show Served _ _ _ s.queue_.length
    rw [hq]
    exact served_zero
  | giveUp hi hq hrun =>
    refine h.goto hi rfl rfl rfl ?_ h.calls id (by simp) (by simp)
    show Served _ _ _ s.queue_.length
    rw [hq]
    exact served_zero
  | take hi hq hcalls =>
    refine h.goto hi rfl rfl rfl ?_ (served_notifyFull h hq hcalls) (wait_notifyFull hcalls)
      (by simp) (by simp)
    exact h.threads.set hi (by simp) (by simp [hq])
  | finish hi =>
    exact h.goto hi rfl rfl rfl (h.threads.set hi (by decide) (by simp [ThreadPool.goto])) h.calls
      id (by simp) (by simp)
  | block hk hfull => exact h.block hk hfull
  | push hk hroom hthreads => exact h.push hk hroom hthreads

theorem Awake.moves (h : Awake s) (hm : Moves s s') : Awake s' := by
  cases hm with
  | own ho => exact h.own ho
  | runHere hnone =>
    refine ⟨h.threads, h.calls.concat (by decide), ?_, h.running, h.stopped, ?_⟩
    · intro hmem
      exact h.blocked ((List.mem_append.mp hmem).resolve_right (by simp))
    · intro hnil
      refine ⟨(h.alone hnil).1, ?_⟩
      intro c hc
      rcases List.mem_append.mp hc with hold | hnew
      · exact (h.alone hnil).2 c hold
      · exact List.mem_singleton.mp hnew
  | run hsome =>
    refine ⟨h.threads, h.calls.concat (by decide), ?_, h.running, h.stopped, ?_⟩
    · intro hmem
      exact h.blocked ((List.mem_append.mp hmem).resolve_right (by simp))
    · intro hnil
      exact absurd hnil hsome
  | stop =>
    refine ⟨served_of_not_mem (not_mem_notifyAll (by decide)), h.calls, h.blocked, ?_, ?_, ?_⟩
    · intro htrue
      cases htrue
    · intro _
      exact not_mem_notifyAll (by decide)
    · intro hnil
      exact h.alone (List.map_eq_nil_iff.mp hnil)
  | wakeThread hi =>
    exact h.goto hi rfl rfl rfl (h.threads.set hi (by decide) (by simp [ThreadPool.goto])) h.calls
      id (by simp) (by simp)
  | wakeCall hk =>
    refine ⟨h.threads, h.calls.set hk (by decide) (by simp), ?_, h.running, h.stopped, ?_⟩
    · intro hmem
      exact h.blocked ((List.mem_or_eq_of_mem_set hmem).resolve_right (by decide))
    · intro hnil
      have hreturned := (h.alone hnil).2 _ (List.mem_of_getElem? hk)
      cases hreturned

/-! ## Runs -/

/-- What holds of a pool with `numThreads` threads. -/
structure Sound (maxQueueSize numThreads : Nat) (s : ThreadPool) : Prop where
  max : s.maxQueueSize_ = maxQueueSize
  size : s.threads_.length = numThreads
  tasks : Tasks s
  awake : Awake s

theorem sound_start (maxQueueSize numThreads : Nat) :
    Sound maxQueueSize numThreads (start maxQueueSize numThreads) where
  max := rfl
  size := List.length_replicate
  tasks := ⟨fun _ => Nat.zero_le _, rfl, List.nodup_nil, by simp [start],
    by simp [start, List.countP_replicate]⟩
  awake := by
    refine ⟨served_zero, served_of_not_mem List.not_mem_nil, by simp [start], ?_, ?_, ?_⟩
    · intro _ hmem
      cases List.eq_of_mem_replicate hmem
    · intro _ hmem
      cases List.eq_of_mem_replicate hmem
    · intro _
      exact ⟨rfl, by simp [start]⟩

theorem Moves.sizes (hm : Moves s s') :
    s'.maxQueueSize_ = s.maxQueueSize_ ∧ s'.threads_.length = s.threads_.length := by
  cases hm with
  | own ho =>
    cases ho with
    | push hk hroom hthreads => exact ⟨rfl, length_notifyOne hthreads⟩
    | block hk hfull => exact ⟨rfl, rfl⟩
    | _ => exact ⟨rfl, List.length_set⟩
  | runHere hnone => exact ⟨rfl, rfl⟩
  | run hsome => exact ⟨rfl, rfl⟩
  | stop => exact ⟨rfl, List.length_map _⟩
  | wakeThread hi => exact ⟨rfl, List.length_set⟩
  | wakeCall hk => exact ⟨rfl, rfl⟩

variable {maxQueueSize numThreads : Nat}

theorem Sound.moves (h : Sound maxQueueSize numThreads s) (hm : Moves s s') :
    Sound maxQueueSize numThreads s' where
  max := hm.sizes.1.trans h.max
  size := hm.sizes.2.trans h.size
  tasks := h.tasks.moves (fun hnil => (h.awake.alone hnil).1) hm
  awake := h.awake.moves hm

theorem sound_reaches (h : Reaches step (fun _ _ => True) (start maxQueueSize numThreads) s) :
    Sound maxQueueSize numThreads s := by
  refine h.invariant (sound_start maxQueueSize numThreads) ?_
  intro s a s' hs _ hstep
  exact hs.moves (step_moves hstep)

/-- **Tasks.** In every run, the queue keeps to its bound, tasks leave it in the order in which `run`
    accepted them, a call returns exactly when its task has been accepted, no task is accepted
    twice, and every task that has been taken is executed by one thread or has been, once. -/
theorem thread_pool_tasks (maxQueueSize numThreads : Nat) (s : ThreadPool)
    (h : Reaches step (fun _ _ => True) (start maxQueueSize numThreads) s) :
    (0 < maxQueueSize → s.queue_.length ≤ maxQueueSize) ∧
      s.accepted = s.taken ++ s.queue_ ∧ s.accepted.Nodup ∧
      (∀ k, k ∈ s.accepted ↔ s.calls[k]? = some .returned) ∧
      ∀ k, s.taken.count k = s.executed.count k + s.threads_.countP fun w => w = .exec k := by
  have hs := sound_reaches h
  refine ⟨?_, hs.tasks.order, hs.tasks.once, hs.tasks.returned, hs.tasks.running⟩
  rw [← hs.max]
  exact hs.tasks.bounded

theorem thread_pool_tasks_two : ∃ s,
    Reaches step (fun _ _ => True) (start 1 1) s ∧ s.accepted = [1, 0] ∧ s.executed = [1] ∧
      s.accepted = s.taken ++ s.queue_ := by
  obtain ⟨s, hs, hacc, hexec⟩ : ∃ s, Reaches step (fun _ _ => True) (start 1 1) s ∧
      s.accepted = [1, 0] ∧ s.executed = [1] :=
    exists_reaches [.run, .run, .test 1 none, .test 0 none, .loop 0, .take 0 (some 0),
      .test 0 none, .finish 0] (by decide)
  exact ⟨s, hs, hacc, hexec, (thread_pool_tasks 1 1 s hs).2.1⟩

end ThreadPool

end Mmvx.Base
