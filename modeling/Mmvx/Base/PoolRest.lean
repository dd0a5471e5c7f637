/-
  How a thread pool comes to rest.

  A running pool that is left alone finishes everything (`thread_pool_drains`). `stop` notifies
  `notEmpty_` only: the threads end, the rest of the queue stays, and who waits in `run` then waits
  for ever (`thread_pool_stops`).
-/
import Mmvx.Base.ThreadPool

namespace Mmvx.Base.ThreadPool

open Mmvx.Lib

variable {s s' : ThreadPool} {i k maxQueueSize numThreads : Nat} {a : ThreadPoolAction}

/-! ## Left alone -/

/-- The steps that a thread can still take by itself. -/
def threadWeight (running : Bool) : PoolThread → Nat
  | .exec _ => 3
  | .loop => if running then 2 else 1
  | .take => if running then 1 else 2
  | .wait | .ended => 0

/-- The steps that a call, its task and who is woken for it can still take. -/
def callWeight : RunCall → Nat
  | .test => 7
  | .wait => 6
  | .returned => 0

/-- The steps that are left. -/
def weight (s : ThreadPool) : Nat :=
  4 * s.queue_.length + (s.threads_.map (threadWeight s.running_)).sum +
    (s.calls.map callWeight).sum

theorem weight_notifyFull {woken : Option Nat} {calls : List RunCall}
    (h : s.notifyFull woken = some calls) :
    (calls.map callWeight).sum ≤ (s.calls.map callWeight).sum + 1 := by
  unfold notifyFull at h
  split at h
  · exact sum_notifyOne_le callWeight h (Nat.le_refl 7)
  · rw [Option.some.inj h]
    exact Nat.le_add_right _ _

theorem weight_goto {w : PoolThread} (hi : s.threads_[i]? = some w) (w' : PoolThread) :
    (s.goto i w').weight + threadWeight s.running_ w = s.weight + threadWeight s.running_ w' := by
  have hsum := sum_map_set_add (threadWeight s.running_) hi w'
  simp only [weight, goto]
  omega

theorem weight_own (ho : Own s s') : s'.weight < s.weight := by
  cases ho with
  | @loop i hi hrun =>
    have hsum := weight_goto hi .take
    simp only [threadWeight, hrun, if_true] at hsum
    omega
  | leave hi hrun =>
    have hsum := weight_goto hi .ended
    simp [threadWeight, hrun] at hsum
    omega
  | wait hi hq hrun =>
    have hsum := weight_goto hi .wait
    simp only [threadWeight, hrun, if_true] at hsum
    omega
  | giveUp hi hq hrun =>
    have hsum := weight_goto hi .loop
    simp [threadWeight, hrun] at hsum
    omega
  | @take i k q woken calls hi hq hcalls =>
    have hsum := sum_map_set_add (threadWeight s.running_) hi (.exec k)
    have hle := weight_notifyFull hcalls
    have htake : 1 ≤ threadWeight s.running_ .take := by cases s.running_ <;> decide
    simp only [weight, goto, hq, List.length_cons]
    simp only [threadWeight] at hsum htake
    omega
  | @finish i k hi =>
    have hsum := weight_goto hi .loop
    have hloop : threadWeight s.running_ .loop ≤ 2 := by cases s.running_ <;> decide
    have hsame : ({ s.goto i .loop with executed := s.executed ++ [k] } : ThreadPool).weight =
        (s.goto i .loop).weight := rfl
    rw [hsame]
    simp only [threadWeight] at hsum hloop
    omega
  | @block k hk hfull =>
    have hsum := sum_map_set_add callWeight hk .wait
    simp only [weight]
    simp only [callWeight] at hsum
    omega
  | @push k woken threads hk hroom hthreads =>
    have hsum := sum_map_set_add callWeight hk .returned
    have hle := sum_notifyOne_le (threadWeight s.running_) hthreads (d := 2)
      (by cases s.running_ <;> decide)
    simp only [weight, List.length_append, List.length_singleton]
    simp only [callWeight] at hsum
    omega

/-- Nobody can go on by itself. -/
def Idle (s : ThreadPool) : Prop := ∀ a, ofPool a = true → s.step a = none

theorem exists_notifyFull (s : ThreadPool) : ∃ woken calls, s.notifyFull woken = some calls := by
  unfold notifyFull
  split
  · exact exists_notifyOne _ _ _
  · exact ⟨none, _, rfl⟩

theorem Idle.threads (h : Idle s) {w : PoolThread} (hw : w ∈ s.threads_) :
    w = .wait ∨ w = .ended := by
  obtain ⟨i, hi⟩ := List.getElem?_of_mem hw
  cases w with
  | loop =>
    have hnone := h (.loop i) rfl
    simp [step, hi] at hnone
  | take =>
    obtain ⟨woken, calls, hcalls⟩ := s.exists_notifyFull
    have hnone := h (.take i woken) rfl
    simp only [step, hi, if_true, take] at hnone
    split at hnone
    · cases hnone
    · rw [hcalls] at hnone
      cases hnone
  | wait => exact .inl rfl
  | exec k =>
    have hnone := h (.finish i) rfl
    simp [step, hi] at hnone
  | ended => exact .inr rfl

theorem Idle.calls (h : Idle s) : .test ∉ s.calls := by
  intro hmem
  obtain ⟨k, hk⟩ := List.getElem?_of_mem hmem
  obtain ⟨woken, threads, hthreads⟩ := exists_notifyOne .wait .take s.threads_
  have hnone := h (.test k woken) rfl
  simp only [step, hk, if_true, push] at hnone
  split at hnone
  · cases hnone
  · rw [hthreads] at hnone
    cases hnone

theorem idle_of_still (hthreads : ∀ w ∈ s.threads_, w = .wait ∨ w = .ended)
    (hcalls : .test ∉ s.calls) : Idle s := by
  intro a ha
  have hthread {i : Nat} {w : PoolThread} (hw : w ≠ .wait ∧ w ≠ .ended) :
      s.threads_[i]? ≠ some w := by
    intro hi
    rcases hthreads w (List.mem_of_getElem? hi) with rfl | rfl
    · exact hw.1 rfl
    · exact hw.2 rfl
  cases a with
  | test k woken => exact if_neg fun hk => hcalls (List.mem_of_getElem? hk)
  | loop i => exact if_neg (hthread (by simp))
  | take i woken => exact if_neg (hthread (by simp))
  | finish i =>
    dsimp only [step]
    split
    · rename_i hi
      exact absurd hi (hthread (by simp))
    · rfl
  | _ => cases ha

theorem Idle.countP_test (h : Idle s) : (s.calls.countP fun c => c = .test) = 0 := by
  refine List.countP_eq_zero.mpr ?_
  intro c hc heq
  rw [decide_eq_true_iff] at heq
  exact h.calls (heq ▸ hc)

theorem Own.same (ho : Own s s') :
    s'.running_ = s.running_ ∧ s'.calls.length = s.calls.length := by
  cases ho with
  | take hi hq hcalls =>
    refine ⟨rfl, ?_⟩
    unfold notifyFull at hcalls
    split at hcalls
    · exact length_notifyOne hcalls
    · rw [Option.some.inj hcalls]
  | block hk hfull => exact ⟨rfl, List.length_set⟩
  | push hk hroom hthreads => exact ⟨rfl, List.length_set⟩
  | _ => exact ⟨rfl, rfl⟩

theorem Sound.alone {as : List ThreadPoolAction} (h : Sound maxQueueSize numThreads s)
    (has : ∀ a ∈ as, ofPool a = true) (hrun : Lib.run step s as = some s') :
    Sound maxQueueSize numThreads s' ∧ s'.running_ = s.running_ ∧
      s'.calls.length = s.calls.length := by
  refine run_keeps (P := fun t => Sound maxQueueSize numThreads t ∧ t.running_ = s.running_ ∧
    t.calls.length = s.calls.length) hrun ⟨h, rfl, rfl⟩ has ?_
  rintro t a t' ⟨ht, hrun, hlen⟩ ha hstep
  have ho := step_own ha hstep
  exact ⟨ht.moves (.own ho), ho.same.1.trans hrun, ho.same.2.trans hlen⟩

/-- A running pool in which nobody can go on has nothing left to do. -/
theorem Sound.idle (h : Sound maxQueueSize numThreads s) (hrun : s.running_ = true)
    (hidle : Idle s) : s.queue_ = [] ∧ (∀ c ∈ s.calls, c = .returned) ∧
      ∀ w ∈ s.threads_, w = .wait := by
  have hwait : ∀ w ∈ s.threads_, w = .wait := by
    intro w hw
    refine (hidle.threads hw).resolve_right ?_
    rintro rfl
    exact h.awake.running hrun hw
  cases hthreads : s.threads_ with
  | nil =>
    obtain ⟨hqueue, hcalls⟩ := h.awake.alone hthreads
    exact ⟨hqueue, hcalls, by simp⟩
  | cons w ws =>
    have hmem : .wait ∈ s.threads_ := by
      rw [← hwait w (by simp [hthreads]), hthreads]
      exact List.mem_cons_self
    have hqueue : s.queue_ = [] := by
      have hle := h.awake.threads hmem
      have hnone : (s.threads_.countP fun w => w = .take) = 0 := by
        refine List.countP_eq_zero.mpr ?_
        intro w hw
        rw [hwait w hw]
        simp
      exact List.eq_nil_of_length_eq_zero (by omega)
    refine ⟨hqueue, ?_, hthreads ▸ hwait⟩
    intro c hc
    cases c with
    | test => exact absurd hc hidle.calls
    | wait =>
      have hle := h.awake.calls hc
      have hpos := h.awake.blocked hc
      rw [hidle.countP_test, hqueue, List.length_nil] at hle
      omega
    | returned => rfl

/-- **The pool drains.** A running pool that is left alone stops after a bounded number of steps,
    and then every call of `run` has returned and every task has been executed once: no wakeup is
    lost on either side of the queue. -/
theorem thread_pool_drains (maxQueueSize numThreads : Nat) (s : ThreadPool)
    (h : Reaches step (fun _ _ => True) (start maxQueueSize numThreads) s)
    (hrunning : s.running_ = true) (as : List ThreadPoolAction) (has : ∀ a ∈ as, ofPool a = true)
    (s' : ThreadPool) (hrun : Lib.run step s as = some s') :
    as.length ≤ s.weight ∧
      (Idle s' → ∀ k < s.calls.length,
        s'.calls[k]? = some .returned ∧ s'.executed.count k = 1) := by
  obtain ⟨hs', hrunning', hlen⟩ := (sound_reaches h).alone has hrun
  refine ⟨?_, ?_⟩
  · have hle := length_run_le weight hrun has fun t a t' ha hstep => weight_own (step_own ha hstep)
    omega
  · intro hidle k hk
    obtain ⟨hqueue, hcalls, hwait⟩ := hs'.idle (hrunning'.trans hrunning) hidle
    rw [← hlen] at hk
    have hreturned : s'.calls[k]? = some .returned := by
      rw [List.getElem?_eq_getElem hk, hcalls _ (List.getElem_mem hk)]
    refine ⟨hreturned, ?_⟩
    have hmem := (hs'.tasks.returned k).mpr hreturned
    have hone := List.count_eq_one_of_mem hs'.tasks.once hmem
    have hnobody : (s'.threads_.countP fun w => w = .exec k) = 0 := by
      refine List.countP_eq_zero.mpr ?_
      intro w hw
      rw [hwait w hw]
      simp
    have hcount := hs'.tasks.running k
    rw [hs'.tasks.order, hqueue, List.append_nil] at hone
    omega

/-- A full queue, and a call that waits for its end. -/
def fullQueue (running : Bool) (w : PoolThread) : ThreadPool where
  maxQueueSize_ := 1
  running_ := running
  threads_ := [w]
  queue_ := [0]
  calls := [.returned, .wait]
  accepted := [0]
  taken := []
  executed := []

theorem thread_pool_drains_two : ∃ s',
    Lib.run step (fullQueue true .loop) [.loop 0, .take 0 (some 1), .test 1 none, .finish 0,
      .loop 0, .take 0 none, .finish 0, .loop 0, .take 0 none] = some s' ∧
      s'.calls[1]? = some .returned ∧ s'.executed.count 1 = 1 := by
  obtain ⟨s, hs, rfl⟩ : ∃ s, Reaches step (fun _ _ => True) (start 1 1) s ∧
      s = fullQueue true .loop :=
    exists_reaches [.run, .run, .test 0 none, .test 1 none] (by decide)
  obtain ⟨s', hrun, hthreads, hcalls⟩ : ∃ s', Lib.run step (fullQueue true .loop)
      [.loop 0, .take 0 (some 1), .test 1 none, .finish 0, .loop 0, .take 0 none, .finish 0,
        .loop 0, .take 0 none] = some s' ∧
        (∀ w ∈ s'.threads_, w = .wait ∨ w = .ended) ∧ .test ∉ s'.calls :=
    exists_run _ (by decide)
  have hdrains := thread_pool_drains 1 1 _ hs rfl _ (by decide) s' hrun
  exact ⟨s', hrun, hdrains.2 (idle_of_still hthreads hcalls) 1 (by decide)⟩

/-! ## After `stop` -/

/-- Thread `i` takes a task. -/
def takesTask (i : Nat) (s s' : ThreadPool) : Bool :=
  match s.threads_[i]?, s'.threads_[i]? with
  | some .take, some (.exec _) => true
  | _, _ => false

/-- The number of tasks that thread `i` takes in a run. -/
def tasksTaken (i : Nat) (s : ThreadPool) (as : List ThreadPoolAction) : Nat :=
  countRun step (takesTask i) s as

/-- Thread `i` is past its test of `running_`. -/
def mayTake (i : Nat) (s : ThreadPool) : Nat := (decide (s.threads_[i]? = some .take)).toNat

theorem takesTask_le (i : Nat) (s s' : ThreadPool) : (takesTask i s s').toNat ≤ s.mayTake i := by
  unfold takesTask mayTake
  split
  · rename_i hi _
    simp [hi]
  · exact Nat.zero_le _

theorem takesTask_of_same {j : Nat} (h : s'.threads_[j]? = s.threads_[j]?) :
    (takesTask j s s').toNat + s'.mayTake j ≤ s.mayTake j := by
  have hno : takesTask j s s' = false := by
    unfold takesTask
    rw [h]
    split
    · rename_i hi hi'
      rw [hi] at hi'
      cases hi'
    · rfl
  have hmay : s'.mayTake j = s.mayTake j := by
    unfold mayTake
    rw [h]
  have hzero := congrArg Bool.toNat hno
  rw [Bool.toNat_false] at hzero
  omega

/-- One thread goes somewhere, but not to `take()`. -/
theorem takesTask_of_set {w' : PoolThread} (h : s'.threads_ = s.threads_.set i w')
    (hw' : w' ≠ .take) (j : Nat) : (takesTask j s s').toNat + s'.mayTake j ≤ s.mayTake j := by
  by_cases hij : i = j
  · subst hij
    have hnone : s'.mayTake i = 0 := by
      rw [mayTake, h, List.getElem?_set, if_pos rfl]
      split <;> simp [hw']
    rw [hnone, Nat.add_zero]
    exact takesTask_le i s s'
  · apply takesTask_of_same
    rw [h, List.getElem?_set_ne hij]

theorem Moves.stopped (hm : Moves s s') (hrun : s.running_ = false) : s'.running_ = false := by
  cases hm with
  | own ho => exact ho.same.1.trans hrun
  | stop => rfl
  | _ => exact hrun

/-- After `stop` no thread passes its test of `running_`. -/
theorem takesTask_moves (h : Awake s) (hrun : s.running_ = false) (hm : Moves s s') (j : Nat) :
    (takesTask j s s').toNat + s'.mayTake j ≤ s.mayTake j := by
  have hnone := h.stopped hrun
  cases hm with
  | own ho =>
    cases ho with
    | loop hi htrue | wait hi hq htrue =>
      rw [hrun] at htrue
      cases htrue
    | leave hi hfalse => exact takesTask_of_set rfl (by simp) j
    | giveUp hi hq hfalse => exact takesTask_of_set rfl (by simp) j
    | take hi hq hcalls => exact takesTask_of_set rfl (by simp) j
    | finish hi => exact takesTask_of_set rfl (by simp) j
    | block hk hfull => exact takesTask_of_same rfl
    | push hk hroom hthreads =>
      apply takesTask_of_same
      rw [notifyOne_of_not_mem hthreads hnone]
  | runHere hnil => exact takesTask_of_same rfl
  | run hsome => exact takesTask_of_same rfl
  | stop =>
    apply takesTask_of_same
    rw [stop, notifyAll_of_not_mem hnone]
  | wakeThread hi => exact absurd (List.mem_of_getElem? hi) hnone
  | wakeCall hk => exact takesTask_of_same rfl

/-- The tasks that have been taken, and the threads that may take one more. -/
def taking (s : ThreadPool) : Nat := s.taken.length + s.threads_.countP fun w => w = .take

theorem taking_goto {w w' : PoolThread} (hi : s.threads_[i]? = some w) (hw' : w' ≠ .take) :
    (s.goto i w').taking + (decide (w = .take)).toNat = s.taking := by
  have hcount := countP_set_add (fun w => w = .take) hi w'
  simp only [hw', decide_false, Bool.toNat_false] at hcount
  simp only [taking, goto]
  omega

/-- After `stop`, the threads take at most the tasks that they are about to take. -/
theorem taking_moves (h : Awake s) (hrun : s.running_ = false) (hne : s.threads_ ≠ [])
    (hm : Moves s s') : s'.taking ≤ s.taking := by
  have hnone := h.stopped hrun
  cases hm with
  | own ho =>
    cases ho with
    | loop hi htrue =>
      rw [hrun] at htrue
      cases htrue
    | leave hi hfalse =>
      have hsum := taking_goto hi (show .ended ≠ PoolThread.take by simp)
      omega
    | wait hi hq htrue =>
      rw [hrun] at htrue
      cases htrue
    | giveUp hi hq hfalse =>
      have hsum := taking_goto hi (show .loop ≠ PoolThread.take by simp)
      omega
    | @take i k q woken calls hi hq hcalls =>
      have hcount := countP_set_add (fun w => w = .take) hi (.exec k)
      simp at hcount
      simp only [taking, goto, List.length_append, List.length_singleton]
      omega
    | @finish i k hi =>
      have hsum := taking_goto hi (show .loop ≠ PoolThread.take by simp)
      have hsame : ({ s.goto i .loop with executed := s.executed ++ [k] } : ThreadPool).taking =
          (s.goto i .loop).taking := rfl
      rw [hsame]
      omega
    | block hk hfull => exact Nat.le_refl _
    | push hk hroom hthreads =>
      rw [taking, notifyOne_of_not_mem hthreads hnone]
      exact Nat.le_refl _
  | runHere hnil => exact absurd hnil hne
  | run hsome => exact Nat.le_refl _
  | stop =>
    rw [taking, stop, notifyAll_of_not_mem hnone]
    exact Nat.le_refl _
  | wakeThread hi => exact absurd (List.mem_of_getElem? hi) hnone
  | wakeCall hk => exact Nat.le_refl _

/-- All threads have ended. -/
structure Ended (s : ThreadPool) : Prop where
  threads : ∀ w ∈ s.threads_, w = .ended
  nonempty : s.threads_ ≠ []

theorem Ended.not_mem (h : Ended s) {w : PoolThread} (hw : w ≠ .ended) : w ∉ s.threads_ :=
  fun hmem => hw (h.threads w hmem)

/-- When all threads have ended nothing is taken or executed any more, and a full queue stays full. -/
theorem Ended.moves (h : Ended s) (hm : Moves s s') :
    Ended s' ∧ s'.executed = s.executed ∧
      (s.isFull = true → s'.isFull = true ∧
        ∀ k : Nat, s'.calls[k]? = some .returned → s.calls[k]? = some .returned) := by
  have hthread {i : Nat} {w : PoolThread} (hi : s.threads_[i]? = some w)
      (hw : w ≠ .ended) : False := h.not_mem hw (List.mem_of_getElem? hi)
  cases hm with
  | own ho =>
    cases ho with
    | loop hi hrun => exact (hthread hi (by simp)).elim
    | leave hi hrun => exact (hthread hi (by simp)).elim
    | wait hi hq hrun => exact (hthread hi (by simp)).elim
    | giveUp hi hq hrun => exact (hthread hi (by simp)).elim
    | take hi hq hcalls => exact (hthread hi (by simp)).elim
    | finish hi => exact (hthread hi (by simp)).elim
    | block hk hfull =>
      refine ⟨⟨h.threads, h.nonempty⟩, rfl, fun hfull => ⟨hfull, ?_⟩⟩
      intro j
      exact (returned_set hk (by simp) (by simp) j).mp
    | push hk hroom hthreads =>
      obtain rfl := notifyOne_of_not_mem hthreads (h.not_mem (by simp))
      refine ⟨⟨h.threads, h.nonempty⟩, rfl, ?_⟩
      intro hfull
      rw [hroom] at hfull
      cases hfull
  | runHere hnil => exact absurd hnil h.nonempty
  | run hsome =>
    refine ⟨⟨h.threads, h.nonempty⟩, rfl, fun hfull => ⟨hfull, ?_⟩⟩
    intro j hj
    exact ((returned_concat _ j).mp hj).resolve_right (by simp)
  | stop =>
    have hsame : notifyAll .wait .take s.threads_ = s.threads_ :=
      notifyAll_of_not_mem (h.not_mem (by simp))
    refine ⟨⟨?_, ?_⟩, rfl, fun hfull => ⟨hfull, fun _ hj => hj⟩⟩
    · rw [stop, hsame]
      exact h.threads
    · rw [stop, hsame]
      exact h.nonempty
  | wakeThread hi => exact (hthread hi (by simp)).elim
  | wakeCall hk =>
    refine ⟨⟨h.threads, h.nonempty⟩, rfl, fun hfull => ⟨hfull, ?_⟩⟩
    intro j
    exact (returned_set hk (by simp) (by simp) j).mp

/-- After `stop` the threads do not wait, so where nobody can go on they have ended; and who waits
    in `run` then waits at a full queue. -/
theorem Sound.idle_stopped (h : Sound maxQueueSize numThreads s) (hpos : 0 < numThreads)
    (hrun : s.running_ = false) (hidle : Idle s) :
    Ended s ∧ (.wait ∈ s.calls → s.isFull = true) := by
  refine ⟨⟨?_, ?_⟩, ?_⟩
  · intro w hw
    refine (hidle.threads hw).resolve_left ?_
    rintro rfl
    exact h.awake.stopped hrun hw
  · intro hnil
    have hsize := h.size
    rw [hnil] at hsize
    exact absurd hsize (by simp; omega)
  · intro hmem
    have hle := h.awake.calls hmem
    have hmax := h.awake.blocked hmem
    rw [hidle.countP_test] at hle
    exact isFull_iff.mpr ⟨hmax, by omega⟩

/-- **`stop`.** In a pool that has threads, after `stop` each of them takes at most one more task,
    whatever else happens, and no more than `numThreads` tasks are taken. Left alone, the threads end
    after a bounded number of steps; from then on no task is executed, and a call of `run` that waits
    never returns: `stop` does not notify `notFull_`. -/
theorem thread_pool_stops (maxQueueSize numThreads : Nat) (hpos : 0 < numThreads) (s : ThreadPool)
    (h : Reaches step (fun _ _ => True) (start maxQueueSize numThreads) s)
    (hstopped : s.running_ = false) (as : List ThreadPoolAction) (s' : ThreadPool)
    (hrun : Lib.run step s as = some s') :
    (∀ i, s.tasksTaken i as ≤ 1) ∧ s'.taken.length ≤ s.taken.length + numThreads ∧
      ((∀ a ∈ as, ofPool a = true) → as.length ≤ s.weight ∧
        (Idle s' → (∀ w ∈ s'.threads_, w = .ended) ∧
          ∀ bs s'', Lib.run step s' bs = some s'' →
            s''.executed = s'.executed ∧
              ∀ k : Nat, s'.calls[k]? = some .wait → s''.calls[k]? ≠ some .returned)) := by
  have hs := sound_reaches h
  refine ⟨?_, ?_, ?_⟩
  · intro i
    have hle := countRun_le (P := fun t => Sound maxQueueSize numThreads t ∧ t.running_ = false)
      (mayTake i) hrun ⟨hs, hstopped⟩ (by
        rintro t a t' ⟨ht, hfalse⟩ hstep
        have hm := step_moves hstep
        exact ⟨⟨ht.moves hm, hm.stopped hfalse⟩, takesTask_moves ht.awake hfalse hm i⟩)
    have hone : s.mayTake i ≤ 1 := Bool.toNat_le _
    unfold tasksTaken
    omega
  · obtain ⟨-, -, hle⟩ := run_keeps (C := fun _ => True)
      (P := fun t => Sound maxQueueSize numThreads t ∧ t.running_ = false ∧ t.taking ≤ s.taking)
      hrun ⟨hs, hstopped, Nat.le_refl _⟩ (fun _ _ => trivial) (by
        rintro t a t' ⟨ht, hfalse, hle⟩ - hstep
        have hm := step_moves hstep
        have hne : t.threads_ ≠ [] := by
          intro hnil
          have hsize := ht.size
          rw [hnil, List.length_nil] at hsize
          omega
        have hle' := taking_moves ht.awake hfalse hne hm
        exact ⟨ht.moves hm, hm.stopped hfalse, Nat.le_trans hle' hle⟩)
    have hcount : (s.threads_.countP fun w => w = .take) ≤ s.threads_.length := List.countP_le_length
    rw [hs.size] at hcount
    simp only [taking] at hle
    omega
  · intro has
    obtain ⟨hs', hstopped', -⟩ := hs.alone has hrun
    refine ⟨?_, ?_⟩
    · have hle := length_run_le weight hrun has fun t a t' ha hstep =>
        weight_own (step_own ha hstep)
      omega
    · intro hidle
      obtain ⟨hended, hfull⟩ := hs'.idle_stopped hpos (hstopped'.trans hstopped) hidle
      refine ⟨hended.threads, ?_⟩
      intro bs s'' hrun'
      obtain ⟨-, hexecuted, hstuck⟩ := run_keeps (C := fun _ => True)
        (P := fun t => Ended t ∧ t.executed = s'.executed ∧
          (s'.isFull = true → t.isFull = true ∧
            ∀ k : Nat, t.calls[k]? = some .returned → s'.calls[k]? = some .returned))
        hrun' ⟨hended, rfl, fun hfull => ⟨hfull, fun _ hk => hk⟩⟩ (fun _ _ => trivial) (by
          rintro t a t' ⟨ht, hexecuted, hstuck⟩ - hstep
          obtain ⟨ht', hexecuted', hstuck'⟩ := ht.moves (step_moves hstep)
          refine ⟨ht', hexecuted'.trans hexecuted, ?_⟩
          intro hfull
          obtain ⟨hfull₁, hret₁⟩ := hstuck hfull
          obtain ⟨hfull₂, hret₂⟩ := hstuck' hfull₁
          exact ⟨hfull₂, fun k hk => hret₁ k (hret₂ k hk)⟩)
      refine ⟨hexecuted, ?_⟩
      intro k hk hreturned
      have hold := (hstuck (hfull (List.mem_of_getElem? hk))).2 k hreturned
      rw [hk] at hold
      cases hold

theorem thread_pool_stops_blocked : ∃ s',
    Lib.run step (fullQueue false .loop) [.loop 0] = some s' ∧
      ∀ bs s'', Lib.run step s' bs = some s'' → s''.calls[1]? ≠ some .returned := by
  obtain ⟨s, hs, rfl⟩ : ∃ s, Reaches step (fun _ _ => True) (start 1 1) s ∧
      s = fullQueue false .loop :=
    exists_reaches [.run, .run, .test 0 none, .test 1 none, .stop] (by decide)
  obtain ⟨s', hrun, hthreads, hcalls, hwait⟩ : ∃ s',
      Lib.run step (fullQueue false .loop) [.loop 0] = some s' ∧
        (∀ w ∈ s'.threads_, w = .wait ∨ w = .ended) ∧ .test ∉ s'.calls ∧
        s'.calls[1]? = some .wait :=
    exists_run _ (by decide)
  have hstops := thread_pool_stops 1 1 (by decide) _ hs rfl _ s' hrun
  refine ⟨s', hrun, ?_⟩
  intro bs s'' hrun'
  exact (((hstops.2.2 (by decide)).2 (idle_of_still hthreads hcalls)).2 bs s'' hrun').2 1 hwait

end Mmvx.Base.ThreadPool
