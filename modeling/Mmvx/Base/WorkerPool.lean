/-
  The worker threads of `MysqlConnectionPool` (muduo/base/MysqlConnectionPool.h) and their queue
  (muduo/base/BlockingQueue.h).

  `put` and the critical sections of `take` are steps, since they run under the queue's mutex; so is
  the execution of a task, at its end. `notify` wakes one worker that waits, any of them, and a
  worker may also wake up for no reason. `joinAll` puts one stop task for each thread; others may
  put tasks at any time, also while it does so. Tasks are numbered in the order of `put`.

  A worker that has run a stop takes nothing more, so `n` stops are taken by `n` different workers,
  and what was put before the first stop is taken before it. With at least one thread the pool
  drains (`drains_iff`), and it does not get stuck on the way (`no_deadlock`).
-/
import Mathlib.Data.List.Basic
import Mmvx.Lib.Entries
import Mmvx.Lib.Run

namespace Mmvx.Base

open Mmvx.Lib

inductive Task where
  | work (k : Nat)
  /-- `boost::bind(&MysqlConnectionPool::stop, this)`. -/
  | stop
  deriving DecidableEq, Repr

/-- Where a worker is in `threadFunc`. -/
inductive Worker where
  /-- At the test of `while (running)`. -/
  | loop (running : Bool)
  /-- In `take()`, about to test whether the queue is empty. -/
  | take
  /-- In `notEmpty_.wait()`. -/
  | wait
  | exec (t : Task)
  | ended
  deriving DecidableEq, Repr

/-- The worker has run a stop. -/
def Worker.stopped : Worker → Bool
  | .loop false | .ended => true
  | _ => false

/-- The worker has taken a stop. -/
def Worker.stopping : Worker → Bool
  | .loop false | .exec .stop | .ended => true
  | _ => false

/-- How many steps a worker can take by itself before it waits or ends. -/
def Worker.weight : Worker → Nat
  | .exec _ => 3
  | .loop true => 2
  | .loop false | .take => 1
  | .wait | .ended => 0

structure WorkerPool where
  queue_ : List Task
  workers : List Worker
  /-- How many tasks, and how many stops of `joinAll`, have been put. -/
  puts : Nat
  stops : Nat
  /-- How many tasks have been put before the first stop. -/
  before : Nat
  /-- What `take()` has returned, oldest first. -/
  taken : List Task
  /-- Which worker has executed what. -/
  executed : List (Nat × Task)
  deriving DecidableEq, Repr

inductive WorkerAction where
  /-- `put` by anyone, which wakes a worker if one waits. -/
  | put (woken : Option Nat)
  /-- The next `put` of `joinAll`. -/
  | joinAll (woken : Option Nat)
  | loop (i : Nat)
  | take (i : Nat)
  /-- A spurious wakeup. -/
  | wake (i : Nat)
  /-- The task of the worker returns. -/
  | finish (i : Nat)
  deriving DecidableEq, Repr

namespace WorkerPool

def init (numThreads : Nat) : WorkerPool where
  queue_ := []
  workers := .replicate numThreads (.loop true)
  puts := 0
  stops := 0
  before := 0
  taken := []
  executed := []

def goto (s : WorkerPool) (i : Nat) (w : Worker) : WorkerPool :=
  { s with workers := s.workers.set i w }

def notify (s : WorkerPool) : Option Nat → Option WorkerPool
  | some i => if s.workers[i]? = some .wait then some (s.goto i .take) else none
  | none => if .wait ∈ s.workers then none else some s

/-- `BlockingQueue::put`. -/
def enqueue (s : WorkerPool) (t : Task) (woken : Option Nat) : Option WorkerPool :=
  { s with queue_ := s.queue_ ++ [t] }.notify woken

/-- `BlockingQueue::take`, from the test of the loop on. -/
def take (s : WorkerPool) (i : Nat) : WorkerPool :=
  match s.queue_ with
  | [] => s.goto i .wait
  | t :: q => { s.goto i (.exec t) with queue_ := q, taken := s.taken ++ [t] }

def step (s : WorkerPool) : WorkerAction → Option WorkerPool
  | .put woken =>
    { s with
      puts := s.puts + 1
      before := if s.stops = 0 then s.puts + 1 else s.before }.enqueue (.work s.puts) woken
  | .joinAll woken =>
    if s.stops < s.workers.length then { s with stops := s.stops + 1 }.enqueue .stop woken else none
  | .loop i =>
    match s.workers[i]? with
    | some (.loop running) => some (s.goto i (if running then .take else .ended))
    | _ => none
  | .take i => if s.workers[i]? = some .take then some (s.take i) else none
  | .wake i => if s.workers[i]? = some .wait then some (s.goto i .take) else none
  | .finish i =>
    match s.workers[i]? with
    -- `stop` sets `running` of its thread to false
    | some (.exec t) =>
      some { s.goto i (.loop (t ≠ .stop)) with executed := (i, t) :: s.executed }
    | _ => none

/-- How often a task has been executed. -/
def timesExecuted (s : WorkerPool) (t : Task) : Nat := s.executed.countP fun x => x.2 = t

/-! ## What a step can do -/

/-- A worker goes on without taking or executing anything. -/
inductive Idle (s : WorkerPool) : Worker → Worker → Prop
  | loop : Idle s (.loop true) .take
  | leave : Idle s (.loop false) .ended
  | wait (h : s.queue_ = []) : Idle s .take .wait

/-- What a worker does by itself. -/
inductive Own (s : WorkerPool) : WorkerPool → Prop
  | idle {i : Nat} {w w' : Worker} (hi : s.workers[i]? = some w) (hw : Idle s w w') :
      Own s (s.goto i w')
  | take {i : Nat} {t : Task} {q : List Task} (hi : s.workers[i]? = some .take)
      (hq : s.queue_ = t :: q) :
      Own s { s.goto i (.exec t) with queue_ := q, taken := s.taken ++ [t] }
  | finish {i : Nat} {t : Task} (hi : s.workers[i]? = some (.exec t)) :
      Own s { s.goto i (.loop (t ≠ .stop)) with executed := (i, t) :: s.executed }

/-- A task is counted before it is put. -/
inductive Counted (s : WorkerPool) : Task → WorkerPool → Prop
  | work : Counted s (.work s.puts) { s with
      puts := s.puts + 1
      before := if s.stops = 0 then s.puts + 1 else s.before }
  | stop (h : s.stops < s.workers.length) : Counted s .stop { s with stops := s.stops + 1 }

inductive Moves (s : WorkerPool) : WorkerPool → Prop
  | own {s' : WorkerPool} (h : Own s s') : Moves s s'
  | wake {i : Nat} (hi : s.workers[i]? = some .wait) : Moves s (s.goto i .take)
  | put {t : Task} {u : WorkerPool} (hu : Counted s t u) (hnone : .wait ∉ s.workers) :
      Moves s { u with queue_ := u.queue_ ++ [t] }
  | putWake {t : Task} {u : WorkerPool} {i : Nat} (hu : Counted s t u)
      (hi : s.workers[i]? = some .wait) :
      Moves s ({ u with queue_ := u.queue_ ++ [t] }.goto i .take)

section

variable {s s' u : WorkerPool} {t : Task}

theorem Counted.workers (h : Counted s t u) : u.workers = s.workers := by
  cases h <;> rfl

theorem moves_enqueue {woken : Option Nat} (hu : Counted s t u) (h : u.enqueue t woken = some s') :
    Moves s s' := by
  unfold enqueue notify at h
  split at h
  · split at h
    · rename_i hi
      obtain rfl := Option.some.inj h
      exact .putWake hu (hu.workers ▸ hi)
    · cases h
  · split at h
    · cases h
    · rename_i hnone
      obtain rfl := Option.some.inj h
      exact .put hu (hu.workers ▸ hnone)

theorem own_loop {i : Nat} (h : s.step (.loop i) = some s') : Own s s' := by
  dsimp only [step] at h
  split at h
  · rename_i running hi
    obtain rfl := Option.some.inj h
    cases running with
    | true => exact .idle hi .loop
    | false => exact .idle hi .leave
  · cases h

theorem own_take {i : Nat} (h : s.step (.take i) = some s') : Own s s' := by
  dsimp only [step] at h
  split at h
  · rename_i hi
    obtain rfl := Option.some.inj h
    unfold take
    split
    · exact .idle hi (.wait ‹_›)
    · exact .take hi ‹_›
  · cases h

theorem own_finish {i : Nat} (h : s.step (.finish i) = some s') : Own s s' := by
  dsimp only [step] at h
  split at h
  · rename_i hi
    obtain rfl := Option.some.inj h
    exact .finish hi
  · cases h

theorem step_moves {a : WorkerAction} (h : s.step a = some s') : Moves s s' := by
  cases a with
  | put woken => exact moves_enqueue .work h
  | joinAll woken =>
    dsimp only [step] at h
    split at h
    · exact moves_enqueue (.stop ‹_›) h
    · cases h
  | loop i => exact .own (own_loop h)
  | take i => exact .own (own_take h)
  | wake i =>
    dsimp only [step] at h
    split at h
    · rename_i hi
      obtain rfl := Option.some.inj h
      exact .wake hi
    · cases h
  | finish i => exact .own (own_finish h)

end

/-! ## The queue -/

/-- Everything that has been put, oldest first. -/
def history (s : WorkerPool) : List Task := s.taken ++ s.queue_

structure Queued (s : WorkerPool) : Prop where
  order : ∃ rest, s.history = (List.range s.before).map .work ++ rest ∧ (s.stops = 0 → rest = [])
  before : s.before ≤ s.puts ∧ (s.stops = 0 → s.before = s.puts)
  works : ∀ k, s.history.count (.work k) = if k < s.puts then 1 else 0
  stops : s.history.count .stop = s.stops

/-- Where the workers are, and who executes what, does not matter for the queue. -/
theorem Queued.frame {s s' : WorkerPool} (h : Queued s) (hhist : s'.history = s.history)
    (hputs : s'.puts = s.puts) (hstops : s'.stops = s.stops) (hbefore : s'.before = s.before) :
    Queued s' where
  order := by rw [hhist, hbefore, hstops]; exact h.order
  before := by rw [hbefore, hputs, hstops]; exact h.before
  works := by rw [hhist, hputs]; exact h.works
  stops := by rw [hhist, hstops]; exact h.stops

theorem Queued.enqueue {s s' u : WorkerPool} {t : Task} (h : Queued s) (hu : Counted s t u)
    (hhist : s'.history = s.history ++ [t]) (hputs : s'.puts = u.puts)
    (hstops : s'.stops = u.stops) (hbefore : s'.before = u.before) : Queued s' := by
  obtain ⟨rest, hrest, hnil⟩ := h.order
  obtain ⟨hle, heq⟩ := h.before
  cases hu with
  | work =>
    dsimp only at hputs hstops hbefore
    refine ⟨?_, ?_, ?_, ?_⟩
    · rw [hhist, hbefore, hstops, hrest]
      split
      · rename_i hzero
        -- no stop yet, so the task goes to the end of the first part
        refine ⟨[], ?_, fun _ => rfl⟩
        rw [hnil hzero, ← heq hzero, List.range_succ]
        simp
      · rename_i hpos
        exact ⟨rest ++ [_], by rw [List.append_assoc], fun hzero => absurd hzero hpos⟩
    · rw [hputs, hstops, hbefore]
      split
      · exact ⟨Nat.le_refl _, fun _ => rfl⟩
      · rename_i hpos
        exact ⟨by omega, fun hzero => absurd hzero hpos⟩
    · intro k
      rw [hhist, hputs, List.count_append, h.works k, List.count_singleton]
      simp only [beq_iff_eq, Task.work.injEq]
      split <;> split <;> split <;> omega
    · rw [hhist, hstops, List.count_append, h.stops]
      rfl
  | stop hlt =>
    dsimp only at hputs hstops hbefore
    refine ⟨⟨rest ++ [.stop], ?_, ?_⟩, ?_, ?_, ?_⟩
    · rw [hhist, hbefore, hrest, List.append_assoc]
    · rw [hstops]
      intro hzero
      cases hzero
    · rw [hputs, hstops, hbefore]
      exact ⟨hle, fun hzero => by cases hzero⟩
    · intro k
      rw [hhist, hputs, List.count_append, h.works k]
      rfl
    · rw [hhist, hstops, List.count_append, h.stops]
      rfl

theorem Queued.moves {s s' : WorkerPool} (h : Queued s) (hm : Moves s s') : Queued s' := by
  cases hm with
  | own ho =>
    cases ho with
    | idle hi hw => exact h.frame rfl rfl rfl rfl
    | take hi hq =>
      refine h.frame ?_ rfl rfl rfl
      rw [history, history, hq, List.append_assoc]
      rfl
    | finish hi => exact h.frame rfl rfl rfl rfl
  | wake hi => exact h.frame rfl rfl rfl rfl
  | put hu hnone =>
    refine h.enqueue hu ?_ rfl rfl rfl
    cases hu <;> exact (List.append_assoc _ _ _).symm
  | putWake hu hi =>
    refine h.enqueue hu ?_ rfl rfl rfl
    cases hu <;> exact (List.append_assoc _ _ _).symm

/-! ## The workers -/

structure Staffed (numThreads : Nat) (s : WorkerPool) : Prop where
  length : s.workers.length = numThreads
  stops : s.stops ≤ numThreads
  running : ∀ t, s.taken.count t = s.timesExecuted t + s.workers.countP fun w => w = .exec t
  stopping : s.taken.count .stop = s.workers.countP Worker.stopping
  own : ∀ i w, s.workers[i]? = some w → s.executed.count (i, .stop) = w.stopped.toNat

/-- No wakeup is lost: there is a worker on its way for every task in the queue. -/
def Awake (s : WorkerPool) : Prop :=
  .wait ∈ s.workers → s.queue_.length ≤ s.workers.countP fun w => w = .take

variable {numThreads : Nat} {s s' u : WorkerPool} {i : Nat} {w w' : Worker} {t : Task}

/-- A worker goes on without taking or executing anything. -/
theorem Staffed.goto (h : Staffed numThreads s) (hi : s.workers[i]? = some w)
    (hworkers : s'.workers = s.workers.set i w') (hexec : ∀ t, w ≠ .exec t ∧ w' ≠ .exec t)
    (hstopping : w'.stopping = w.stopping) (hstopped : w'.stopped = w.stopped)
    (htaken : s'.taken = s.taken) (hexecuted : s'.executed = s.executed)
    (hstops : s'.stops ≤ numThreads) : Staffed numThreads s' where
  length := by rw [hworkers, List.length_set, h.length]
  stops := hstops
  running t := by
    have hcount := countP_set_add (fun w => w = .exec t) hi w'
    simp only [(hexec t).1, (hexec t).2] at hcount
    rw [timesExecuted, htaken, hexecuted, hworkers, h.running t]
    exact congrArg (s.timesExecuted t + ·) hcount.symm
  stopping := by
    have hcount := countP_set_add Worker.stopping hi w'
    rw [hstopping] at hcount
    rw [htaken, hworkers, h.stopping]
    omega
  own j w₁ hj := by
    rw [hexecuted]
    rw [hworkers] at hj
    rcases getElem?_set_cases hj with ⟨rfl, rfl⟩ | ⟨-, hj⟩
    · rw [hstopped]
      exact h.own j w hi
    · exact h.own j w₁ hj

theorem Staffed.take (h : Staffed numThreads s) (hi : s.workers[i]? = some .take)
    (hworkers : s'.workers = s.workers.set i (.exec t)) (htaken : s'.taken = s.taken ++ [t])
    (hexecuted : s'.executed = s.executed) (hstops : s'.stops = s.stops) :
    Staffed numThreads s' where
  length := by rw [hworkers, List.length_set, h.length]
  stops := hstops ▸ h.stops
  running t' := by
    have hcount := countP_set_add (fun w => w = .exec t') hi (.exec t)
    rw [timesExecuted, htaken, hexecuted, hworkers, List.count_append, h.running t',
      List.count_singleton, timesExecuted]
    by_cases ht : t = t'
    · simp [ht] at hcount ⊢
      omega
    · simp [ht] at hcount ⊢
      omega
  stopping := by
    have hcount := countP_set_add Worker.stopping hi (.exec t)
    rw [htaken, hworkers, List.count_append, h.stopping]
    cases t <;> simp [Worker.stopping] at hcount ⊢ <;> omega
  own j w₁ hj := by
    rw [hexecuted]
    rw [hworkers] at hj
    rcases getElem?_set_cases hj with ⟨rfl, rfl⟩ | ⟨-, hj⟩
    · exact h.own j .take hi
    · exact h.own j w₁ hj

theorem Staffed.finish (h : Staffed numThreads s) (hi : s.workers[i]? = some (.exec t))
    (hworkers : s'.workers = s.workers.set i (.loop (t ≠ .stop))) (htaken : s'.taken = s.taken)
    (hexecuted : s'.executed = (i, t) :: s.executed) (hstops : s'.stops = s.stops) :
    Staffed numThreads s' where
  length := by rw [hworkers, List.length_set, h.length]
  stops := hstops ▸ h.stops
  running t' := by
    have hcount := countP_set_add (fun w => w = .exec t') hi (.loop (t ≠ .stop))
    rw [timesExecuted, htaken, hexecuted, hworkers, h.running t', timesExecuted, List.countP_cons]
    by_cases ht : t = t'
    · simp [ht] at hcount ⊢
      omega
    · simp [ht] at hcount ⊢
      omega
  stopping := by
    have hcount := countP_set_add Worker.stopping hi (.loop (t ≠ .stop))
    rw [htaken, hworkers, h.stopping]
    cases t <;> simp [Worker.stopping] at hcount ⊢ <;> omega
  own j w₁ hj := by
    rw [hexecuted, List.count_cons]
    rw [hworkers] at hj
    rcases getElem?_set_cases hj with ⟨rfl, rfl⟩ | ⟨hij, hj⟩
    · rw [h.own j _ hi]
      cases t <;> simp [Worker.stopped]
    · rw [h.own j w₁ hj]
      simp [Ne.symm hij]

theorem Staffed.moves (h : Staffed numThreads s) (hm : Moves s s') : Staffed numThreads s' := by
  have hcounted {t : Task} {u : WorkerPool} (hu : Counted s t u) :
      u.taken = s.taken ∧ u.executed = s.executed ∧ u.stops ≤ numThreads := by
    have hlen := h.length
    have hle := h.stops
    cases hu with
    | work => exact ⟨rfl, rfl, hle⟩
    | stop hlt => exact ⟨rfl, rfl, by dsimp only; omega⟩
  cases hm with
  | own ho =>
    cases ho with
    | idle hi hw => cases hw <;> exact h.goto hi rfl (by simp) rfl rfl rfl rfl h.stops
    | take hi hq => exact h.take hi rfl rfl rfl rfl
    | finish hi => exact h.finish hi rfl rfl rfl rfl
  | wake hi => exact h.goto hi rfl (by simp) rfl rfl rfl rfl h.stops
  | put hu hnone =>
    obtain ⟨htaken, hexecuted, hle⟩ := hcounted hu
    refine ⟨?_, hle, ?_, ?_, ?_⟩
    · show _ = numThreads
      rw [hu.workers, h.length]
    · intro t
      rw [timesExecuted, htaken, hexecuted, hu.workers]
      exact h.running t
    · rw [htaken, hu.workers]
      exact h.stopping
    · rw [hexecuted, hu.workers]
      exact h.own
  | @putWake t u i hu hi =>
    obtain ⟨htaken, hexecuted, hle⟩ := hcounted hu
    have hworkers : u.workers.set i .take = s.workers.set i .take := by rw [hu.workers]
    exact h.goto hi hworkers (by simp) rfl rfl htaken hexecuted hle

theorem Awake.goto (h : Awake s) (hi : s.workers[i]? = some w)
    (hworkers : s'.workers = s.workers.set i w') (hw : w' ≠ .wait)
    (hqueue : s'.queue_.length + (decide (w = .take)).toNat ≤
      s.queue_.length + (decide (w' = .take)).toNat) : Awake s' := by
  intro hwait
  rw [hworkers] at hwait ⊢
  have hold : .wait ∈ s.workers := (List.mem_or_eq_of_mem_set hwait).resolve_right (Ne.symm hw)
  have hcount := countP_set_add (fun w => w = .take) hi w'
  have hlen := h hold
  omega

theorem Awake.moves (h : Awake s) (hm : Moves s s') : Awake s' := by
  cases hm with
  | own ho =>
    cases ho with
    | idle hi hw =>
      cases hw with
      | loop => exact h.goto hi rfl (by simp) (by simp [WorkerPool.goto])
      | leave => exact h.goto hi rfl (by simp) (by simp [WorkerPool.goto])
      | wait hempty =>
        intro _
        show s.queue_.length ≤ _
        rw [hempty]
        exact Nat.zero_le _
    | take hi hq => exact h.goto hi rfl (by simp) (by simp [hq])
    | finish hi => exact h.goto hi rfl (by simp) (by simp [WorkerPool.goto])
  | wake hi => exact h.goto hi rfl (by simp) (by simp [WorkerPool.goto])
  | put hu hnone =>
    intro hwait
    rw [hu.workers] at hwait
    exact absurd hwait hnone
  | @putWake t u i hu hi =>
    have hworkers : u.workers.set i .take = s.workers.set i .take := by rw [hu.workers]
    refine h.goto hi hworkers (by simp) ?_
    cases hu <;> simp [WorkerPool.goto]

/-! ## Runs -/

structure Orderly (numThreads : Nat) (s : WorkerPool) : Prop where
  queued : Queued s
  staffed : Staffed numThreads s
  awake : Awake s

theorem orderly_init (numThreads : Nat) : Orderly numThreads (init numThreads) where
  queued := ⟨⟨[], rfl, fun _ => rfl⟩, ⟨Nat.le_refl _, fun _ => rfl⟩, fun _ => rfl, rfl⟩
  staffed := by
    refine ⟨List.length_replicate, Nat.zero_le _, ?_, ?_, ?_⟩
    · intro t
      simp [init, timesExecuted, List.countP_replicate]
    · simp [init, Worker.stopping, List.countP_replicate]
    · intro i w hi
      obtain rfl := List.eq_of_mem_replicate (List.mem_of_getElem? hi)
      rfl
  awake := fun _ => Nat.zero_le _

theorem orderly_reaches {C : WorkerPool → WorkerAction → Prop}
    (h : Reaches step C (init numThreads) s) : Orderly numThreads s := by
  refine h.invariant (orderly_init numThreads) ?_
  intro s a s' ho _ hs
  have hm := step_moves hs
  exact ⟨ho.queued.moves hm, ho.staffed.moves hm, ho.awake.moves hm⟩

/-- When all stops have been taken, every worker has taken one. -/
theorem Staffed.all_stopping (h : Staffed numThreads s) (hall : s.taken.count .stop = numThreads) :
    ∀ w ∈ s.workers, w.stopping = true := by
  refine List.countP_eq_length.mp ?_
  rw [← h.stopping, hall, h.length]

/-- What was put before the first stop is taken before it. -/
theorem Queued.taken_work (h : Queued s) (hstop : .stop ∈ s.taken) {k : Nat} (hk : k < s.before) :
    s.taken.count (.work k) = 1 := by
  obtain ⟨rest, hrest, -⟩ := h.order
  have htotal := h.works k
  rw [if_pos (Nat.lt_of_lt_of_le hk h.before.1), history, List.count_append] at htotal
  have hmem : .work k ∈ s.taken := by
    rcases List.append_eq_append_iff.mp hrest with ⟨as, hall, -⟩ | ⟨bs, htaken, -⟩
    · have hin : .stop ∈ (List.range s.before).map Task.work := by
        rw [hall]
        exact List.mem_append_left _ hstop
      obtain ⟨_, _, heq⟩ := List.mem_map.mp hin
      cases heq
    · rw [htaken]
      exact List.mem_append_left _ (List.mem_map.mpr ⟨k, List.mem_range.mpr hk, rfl⟩)
  have hpos := List.count_pos_iff.mpr hmem
  omega

/-- The pool has done its work: when all stops have been taken nobody waits for a task any more, and
    when all workers have ended every task that was put before `joinAll` has been executed once, and
    one stop by each worker. -/
def Drained (numThreads : Nat) (s : WorkerPool) : Prop :=
  (s.taken.count .stop = numThreads → ∀ w ∈ s.workers, w ≠ .take ∧ w ≠ .wait) ∧
    ((∀ w ∈ s.workers, w = .ended) →
      (∀ k < s.before, s.timesExecuted (.work k) = 1) ∧
        ∀ i < numThreads, s.executed.count (i, .stop) = 1)

theorem Orderly.drained (h : Orderly numThreads s) (hpos : 0 < numThreads) :
    Drained numThreads s := by
  refine ⟨?_, ?_⟩
  · intro hall w hw
    have hstopping := h.staffed.all_stopping hall w hw
    refine ⟨?_, ?_⟩
    · rintro rfl
      cases hstopping
    · rintro rfl
      cases hstopping
  · intro hended
    have hstops : s.taken.count .stop = numThreads := by
      rw [h.staffed.stopping, ← h.staffed.length]
      refine List.countP_eq_length.mpr ?_
      intro w hw
      rw [hended w hw]
      rfl
    refine ⟨?_, ?_⟩
    · intro k hk
      have hone := h.queued.taken_work (List.count_pos_iff.mp (by omega)) hk
      have hnobody : s.workers.countP (fun w => w = .exec (.work k)) = 0 := by
        refine List.countP_eq_zero.mpr ?_
        intro w hw
        rw [hended w hw]
        simp
      have hrun := h.staffed.running (.work k)
      omega
    · intro i hi
      rw [← h.staffed.length] at hi
      have hown := h.staffed.own i _ (List.getElem?_eq_getElem hi)
      rw [hended _ (List.getElem_mem hi)] at hown
      exact hown

/-- A pool without threads keeps its task. -/
theorem not_drained_init : ∃ s, Reaches step (fun _ _ => True) (init 0) s ∧ ¬ Drained 0 s := by
  obtain ⟨s, hs, hbefore, hended, hnone⟩ : ∃ s,
      Reaches step (fun _ _ => True) (init 0) s ∧ s.before = 1 ∧
        (∀ w ∈ s.workers, w = .ended) ∧ s.timesExecuted (.work 0) = 0 :=
    exists_reaches [.put none] (by decide)
  refine ⟨s, hs, ?_⟩
  intro h
  have hone := (h.2 hended).1 0 (by omega)
  omega

/-- **The pool drains and stops** exactly when it has a thread. For any number of threads, any tasks
    put at any time, and any interleaving with the workers, spurious wakeups included. -/
theorem drains_iff (numThreads : Nat) :
    (∀ s, Reaches step (fun _ _ => True) (init numThreads) s → Drained numThreads s) ↔
      0 < numThreads := by
  constructor
  · intro h
    rw [Nat.pos_iff_ne_zero]
    rintro rfl
    obtain ⟨s, hs, hnot⟩ := not_drained_init
    exact hnot (h s hs)
  · intro hpos s hs
    exact (orderly_reaches hs).drained hpos

theorem not_drained_without_threads :
    ¬ ∀ numThreads s, Reaches step (fun _ _ => True) (init numThreads) s →
      Drained numThreads s := by
  intro h
  obtain ⟨s, hs, hnot⟩ := not_drained_init
  exact hnot (h 0 s hs)

/-! ## Progress -/

/-- A worker does something by itself. -/
def ofWorker : WorkerAction → Prop
  | .loop _ | .take _ | .finish _ => True
  | _ => False

theorem step_own {a : WorkerAction} (ha : ofWorker a) (hs : s.step a = some s') : Own s s' := by
  cases a with
  | loop i => exact own_loop hs
  | take i => exact own_take hs
  | finish i => exact own_finish hs
  | _ => cases ha

/-- Once `joinAll` has put all its stops, the workers have ended or one of them can go on. -/
theorem no_deadlock (h : Reaches step (fun _ _ => True) (init numThreads) s)
    (hstops : s.stops = numThreads) :
    (∀ w ∈ s.workers, w = .ended) ∨ ∃ a, ofWorker a ∧ (s.step a).isSome := by
  have ho := orderly_reaches h
  by_contra hnot
  obtain ⟨hended, hnone⟩ := not_or.mp hnot
  have hstuck : ∀ w ∈ s.workers, w = .wait ∨ w = .ended := by
    intro w hw
    obtain ⟨i, hi⟩ := List.getElem?_of_mem hw
    cases w with
    | loop running => exact absurd ⟨.loop i, trivial, by simp [step, hi]⟩ hnone
    | take => exact absurd ⟨.take i, trivial, by simp [step, hi]⟩ hnone
    | exec t => exact absurd ⟨.finish i, trivial, by simp [step, hi]⟩ hnone
    | wait => exact Or.inl rfl
    | ended => exact Or.inr rfl
  have hwait : .wait ∈ s.workers := by
    by_contra hnobody
    refine hended ?_
    intro w hw
    exact (hstuck w hw).resolve_left fun heq => hnobody (heq ▸ hw)
  -- nobody is on its way, so the queue is empty and all stops have been taken
  have htaking : s.workers.countP (fun w => w = .take) = 0 := by
    refine List.countP_eq_zero.mpr ?_
    intro w hw
    rcases hstuck w hw with rfl | rfl <;> simp
  have hempty : s.queue_ = [] := by
    have hlen := ho.awake hwait
    exact List.eq_nil_of_length_eq_zero (by omega)
  have hall : s.taken.count .stop = numThreads := by
    have hcount := ho.queued.stops
    rw [history, hempty, List.append_nil] at hcount
    rw [hcount, hstops]
  cases ho.staffed.all_stopping hall _ hwait

/-- The steps that a worker can still take by itself, without a further wakeup. -/
def weight (s : WorkerPool) : Nat := 4 * s.queue_.length + (s.workers.map Worker.weight).sum

theorem weight_goto (hi : s.workers[i]? = some w) (w' : Worker) :
    (s.goto i w').weight + w.weight = s.weight + w'.weight := by
  have hsum := sum_map_set_add Worker.weight hi w'
  simp only [weight, goto]
  omega

/-- Workers cannot go on for ever. -/
theorem weight_own (ho : Own s s') : s'.weight < s.weight := by
  cases ho with
  | @idle i w w' hi hw =>
    have hsum := weight_goto hi w'
    cases hw <;> simp only [Worker.weight] at hsum <;> omega
  | @take i t q hi hq =>
    have hsum := sum_map_set_add Worker.weight hi (.exec t)
    simp only [weight, goto, hq, List.length_cons, Worker.weight] at hsum ⊢
    omega
  | @finish i t hi =>
    have hsum := sum_map_set_add Worker.weight hi (.loop (t ≠ .stop))
    simp only [weight, goto]
    cases t <;> simp [Worker.weight] at hsum ⊢ <;> omega

/-- So the workers end, from any state in which `joinAll` has put its stops. -/
theorem all_end (h : Reaches step (fun _ _ => True) (init numThreads) s)
    (hstops : s.stops = numThreads) :
    ∃ s', Reaches step (fun _ a => ofWorker a) s s' ∧ ∀ w ∈ s'.workers, w = .ended := by
  induction hn : s.weight using Nat.strongRecOn generalizing s with
  | _ n ih =>
    rcases no_deadlock h hstops with hended | ⟨a, ha, hsome⟩
    · exact ⟨s, .refl, hended⟩
    · obtain ⟨s₁, hs₁⟩ := Option.isSome_iff_exists.mp hsome
      have ho := step_own ha hs₁
      have hsame : s₁.stops = numThreads := by
        rw [← hstops]
        cases ho <;> rfl
      have hlt := weight_own ho
      rw [hn] at hlt
      obtain ⟨s', hreach, hended⟩ := ih s₁.weight hlt (h.step trivial hs₁) hsame rfl
      have hfirst : Reaches step (fun _ a => ofWorker a) s s₁ := .step .refl ha hs₁
      exact ⟨s', hfirst.trans hreach, hended⟩

end WorkerPool

end Mmvx.Base
