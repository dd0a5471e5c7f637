/-
  Runs of a `TimerQueue`.

  `StepTo` has all that an enabled step can do, with the state it leads to. It is derived once, with
  the invariant of `Mmvx.Net.TimerSets` (`Inv.steps`); what holds in every run is proved by cases on
  it. No step fails, no timer is called before its expiration, and one that does not repeat is called
  once at most (`timers_consistent`).
-/
import Mmvx.Net.TimerSets

namespace Mmvx.Net.TimerControl

/-- The timers that `handleRead` has taken out. -/
def batch : TimerControl → List TimerEntry
  | .loop => []
  | .between _ done rest | .callback _ done rest => done ++ rest

/-- Those that have been called. -/
def called : TimerControl → List TimerEntry
  | .loop => []
  | .between _ done _ | .callback _ done _ => done

def calling : TimerControl → Bool
  | .loop => false
  | _ => true

/-- The time `handleRead` was called at. -/
def readAt : TimerControl → Option Int
  | .loop => none
  | .between now _ _ | .callback now _ _ => some now

variable {c : TimerControl}

theorem exists_of_beforeCall (h : c.beforeCall = true) :
    ∃ now done it rest, c = .between now done (it :: rest) := by
  cases c with
  | between now done rest =>
    cases rest with
    | nil => cases h
    | cons it rest => exact ⟨now, done, it, rest, rfl⟩
  | _ => cases h

theorem exists_of_inCallback (h : c.inCallback = true) :
    ∃ now done rest, c = .callback now done rest := by
  cases c with
  | callback now done rest => exact ⟨now, done, rest, rfl⟩
  | _ => cases h

theorem exists_of_callsDone (h : c.callsDone = true) : ∃ now done, c = .between now done [] := by
  cases c with
  | between now done rest =>
    cases rest with
    | nil => exact ⟨now, done, rfl⟩
    | cons it rest => cases h
  | _ => cases h

end Mmvx.Net.TimerControl

namespace Mmvx.Net.TimerQueue

open Mmvx.Lib

variable {q q' : TimerQueue} {batch : List TimerEntry} {place : Nat → Place} {p : Nat} {t : Timer}

/-- The state after `handleRead`, up to the first callback. -/
def taken (q : TimerQueue) (active : OrdSet ActiveTimer) : TimerQueue :=
  { q with
    timerfd_ := { q.timerfd_ with readable := false }
    timers_ := q.timers_.above ⟨q.clock, UINTPTR_MAX⟩
    activeTimers_ := active
    callingExpiredTimers_ := true
    cancelingTimers_ := .empty
    control := .between q.clock [] (q.timers_.below ⟨q.clock, UINTPTR_MAX⟩) }

/-- `rearmed` changes the timerfd only. -/
theorem rearmed_eq (q : TimerQueue) : q.rearmed = { q with timerfd_ := q.rearmed.timerfd_ } := by
  unfold rearmed
  split
  · rfl
  · rfl

/-- All that a step of a queue can do. -/
inductive StepTo (q : TimerQueue) : TimerAction → TimerQueue → Prop
  | create {p : Nat} {when : Int} {repeat_ : Bool} {delta : Int} (hp : q.heap p = none)
      (hdelta : repeat_ = true → 0 ≤ delta) :
      StepTo q (.create p when repeat_ delta) (q.newTimer p when repeat_ delta)
  | addEarliest {p : Nat} {t : Timer} (hctl : q.control.callsOut = true) (hp : p ∈ q.created)
      (ht : q.heap p = some t) (hearly : q.isEarliest t.expiration_ = true) :
      StepTo q (.addTimerInLoop p) ((q.added p t).resetTimerfd t.expiration_)
  | addLater {p : Nat} {t : Timer} (hctl : q.control.callsOut = true) (hp : p ∈ q.created)
      (ht : q.heap p = some t) (hlater : q.isEarliest t.expiration_ = false) :
      StepTo q (.addTimerInLoop p) (q.added p t)
  | cancelWaiting {p : Nat} {t : Timer} (hctl : q.control.callsOut = true) (ht : q.heap p = some t)
      (hin : ⟨p, t.sequence_⟩ ∈ q.activeTimers_) :
      StepTo q (.cancelInLoop ⟨p, t.sequence_⟩) (q.cancelled p t)
  | cancelOther {timerId : ActiveTimer} (hctl : q.control.callsOut = true)
      (hout : timerId ∉ q.activeTimers_) :
      StepTo q (.cancelInLoop timerId) (q.parked timerId)
  | tick {now : Int} (hle : q.clock ≤ now) : StepTo q (.tick now) { q with clock := now }
  | fire {time : Int} (harmed : q.timerfd_.armed = some time) (hle : time ≤ q.clock) :
      StepTo q .fire { q with timerfd_ := { q.timerfd_ with armed := none, readable := true } }
  | handleRead {active : OrdSet ActiveTimer} (hctl : q.control = .loop)
      (hlate : ∀ it ∈ (q.taken active).timers_, q.clock < it.first) :
      StepTo q .handleRead (q.taken active)
  | run {now : Int} {done : List TimerEntry} {it : TimerEntry} {rest : List TimerEntry}
      {t : Timer} (hctl : q.control = .between now done (it :: rest))
      (ht : q.heap it.second = some t) (hexp : t.expiration_ = it.first) :
      StepTo q .run { q with
        control := .callback now (done ++ [it]) rest
        log := q.log ++ [.run it.second t q.clock] }
  | returns {now : Int} {done rest : List TimerEntry}
      (hctl : q.control = .callback now done rest) :
      StepTo q .returns { q with control := .between now done rest }
  | reset {now : Int} {done : List TimerEntry} {q' : TimerQueue}
      (hctl : q.control = .between now done [])
      (hreset : ResetFrom { q with callingExpiredTimers_ := false, control := .loop } now done q' []) :
      StepTo q .reset q'.rearmed

structure Inv (q : TimerQueue) : Prop where
  rep : ∃ place, Rep q q.control.batch place
  calling : q.callingExpiredTimers_ = q.control.calling
  readAt : ∀ now ∈ q.control.readAt, now ≤ q.clock ∧ ∀ it ∈ q.control.batch, it.first ≤ now

theorem inv_start (clock : Int) : (start clock).Inv := by
  refine ⟨⟨fun _ => .free, ?_, .nil, .nil, rfl, ?_⟩, rfl, ?_⟩
  · intro p
    constructor <;> simp [start, OrdSet.notMem_empty, TimerControl.batch]
  · constructor <;> simp [start]
  · intro now hnow
    cases hnow

namespace Inv

variable {a : TimerAction}

/-- The control stays, and the clock does not go back. -/
theorem of_rep (h : q.Inv) (hrep : Rep q' q.control.batch place) (hctl : q'.control = q.control)
    (hcalling : q'.callingExpiredTimers_ = q.callingExpiredTimers_) (hclock : q.clock ≤ q'.clock) :
    q'.Inv := by
  refine ⟨⟨place, ?_⟩, ?_, ?_⟩
  · rwa [hctl]
  · rw [hcalling, hctl, h.calling]
  · intro now hnow
    rw [hctl] at hnow ⊢
    obtain ⟨hle, hbatch⟩ := h.readAt now hnow
    exact ⟨hle.trans hclock, hbatch⟩

theorem addTimerInLoop (h : q.Inv) (ha : q.Enabled (.addTimerInLoop p)) :
    ∃ q', q.addTimerInLoop p = some q' ∧ StepTo q (.addTimerInLoop p) q' ∧ q'.Inv := by
  obtain ⟨place, hrep⟩ := h.rep
  obtain ⟨hctl, hp⟩ := ha
  obtain ⟨t, ht, hadd, hrep'⟩ := hrep.addTimerInLoop hp
  cases hearly : q.isEarliest t.expiration_ with
  | true =>
    refine ⟨_, hadd.trans (congrArg some (if_pos hearly)), .addEarliest hctl hp ht hearly, ?_⟩
    exact h.of_rep (hrep'.frame rfl rfl rfl rfl rfl) rfl rfl le_rfl
  | false =>
    have hnot : ¬ q.isEarliest t.expiration_ = true := Bool.eq_false_iff.mp hearly
    refine ⟨_, hadd.trans (congrArg some (if_neg hnot)), .addLater hctl hp ht hearly, ?_⟩
    exact h.of_rep hrep' rfl rfl le_rfl

theorem cancelInLoop (h : q.Inv) {timerId : ActiveTimer} (ha : q.Enabled (.cancelInLoop timerId)) :
    ∃ q', q.cancelInLoop timerId = some q' ∧ StepTo q (.cancelInLoop timerId) q' ∧ q'.Inv := by
  obtain ⟨place, hrep⟩ := h.rep
  rcases hrep.cancelInLoop_cases timerId with ⟨t, hp, ht, hid⟩ | hout
  · obtain ⟨hcancel, hrep'⟩ := hrep.cancelInLoop_waiting hp ht
    have hin := (hrep.waiting hp ht).2
    rw [hid]
    exact ⟨_, hcancel, .cancelWaiting ha ht hin, h.of_rep hrep' rfl rfl le_rfl⟩
  · obtain ⟨hcancel, hrep'⟩ := hrep.cancelInLoop_other hout
    exact ⟨_, hcancel, .cancelOther ha hout, h.of_rep hrep' rfl rfl le_rfl⟩

theorem handleRead (h : q.Inv) (hctl : q.control = .loop) :
    ∃ q', q.handleRead = some q' ∧ StepTo q .handleRead q' ∧ q'.Inv := by
  obtain ⟨place, hrep⟩ := h.rep
  rw [hctl] at hrep
  have hrep₁ : Rep { q with timerfd_ := { q.timerfd_ with readable := false } } [] place :=
    hrep.frame rfl rfl rfl rfl rfl
  obtain ⟨active, hget, hrep'⟩ := hrep₁.getExpired q.clock
  have hrep₂ : Rep (q.taken active) (q.taken active).control.batch _ :=
    hrep'.frame rfl rfl rfl rfl rfl
  refine ⟨q.taken active, ?_, .handleRead hctl ?_, ⟨_, hrep₂⟩, rfl, ?_⟩
  · simp only [TimerQueue.handleRead, hget, Option.bind_eq_bind, Option.bind_some, Option.pure_def,
      taken]
  · intro it hit
    obtain ⟨hin, hle⟩ := OrdSet.mem_above.mp hit
    exact lt_of_not_ge fun hge => absurd ((hrep.due hin).mpr hge) hle.not_gt
  · intro now hnow
    obtain rfl := Option.some.inj hnow
    refine ⟨le_rfl, ?_⟩
    intro it hit
    obtain ⟨hin, hlt⟩ := OrdSet.mem_below.mp hit
    exact (hrep.due hin).mp hlt

theorem run (h : q.Inv) (ha : q.Enabled .run) :
    ∃ q', q.step .run = some q' ∧ StepTo q .run q' ∧ q'.Inv := by
  obtain ⟨place, hrep⟩ := h.rep
  obtain ⟨now, done, it, rest, hctl⟩ := TimerControl.exists_of_beforeCall ha
  rw [hctl] at hrep
  have hmem : it ∈ done ++ it :: rest := List.mem_append_right _ List.mem_cons_self
  obtain ⟨-, t, ht, hexp⟩ := ((hrep.holds it.second).batch it.first).mp hmem
  have happ : done ++ [it] ++ rest = done ++ it :: rest := by simp
  refine ⟨_, ?_, .run hctl ht hexp, ⟨place, ?_⟩, ?_, ?_⟩
  · simp only [step, hctl, callNext, ht, Option.bind_eq_bind, Option.bind_some, Option.pure_def]
  · simp only [TimerControl.batch, happ]
    exact hrep.frame rfl rfl rfl rfl rfl
  · simp only [h.calling, hctl, TimerControl.calling]
  · intro now' hnow'
    have hread := h.readAt now' (by rw [hctl]; exact hnow')
    rw [hctl] at hread
    simpa only [TimerControl.batch, happ] using hread

theorem returns (h : q.Inv) (ha : q.Enabled .returns) :
    ∃ q', q.step .returns = some q' ∧ StepTo q .returns q' ∧ q'.Inv := by
  obtain ⟨place, hrep⟩ := h.rep
  obtain ⟨now, done, rest, hctl⟩ := TimerControl.exists_of_inCallback ha
  rw [hctl] at hrep
  refine ⟨_, ?_, .returns hctl, ⟨place, ?_⟩, ?_, ?_⟩
  · simp only [step, hctl]
  · exact hrep.frame rfl rfl rfl rfl rfl
  · simp only [h.calling, hctl, TimerControl.calling]
  · intro now' hnow'
    have hread := h.readAt now' (by rw [hctl]; exact hnow')
    rw [hctl] at hread
    exact hread

theorem reset (h : q.Inv) (ha : q.Enabled .reset) :
    ∃ q', q.step .reset = some q' ∧ StepTo q .reset q' ∧ q'.Inv := by
  obtain ⟨place, hrep⟩ := h.rep
  obtain ⟨now, done, hctl⟩ := TimerControl.exists_of_callsDone ha
  rw [hctl, TimerControl.batch, List.append_nil] at hrep
  have hrep₁ : Rep { q with callingExpiredTimers_ := false, control := .loop } done place :=
    hrep.frame rfl rfl rfl rfl rfl
  obtain ⟨q', place', hreset, hrep', hfrom⟩ := hrep₁.reset now
  have hloop : q'.rearmed.control = .loop := by rw [rearmed_eq, hfrom.frame]
  refine ⟨q'.rearmed, ?_, .reset hctl hfrom, ⟨place', ?_⟩, ?_, ?_⟩
  · simp only [step, hctl, hreset]
  · rw [hloop, rearmed_eq]
    exact hrep'.frame rfl rfl rfl rfl rfl
  · rw [hloop, rearmed_eq, hfrom.frame]
    rfl
  · intro now' hnow'
    rw [hloop] at hnow'
    cases hnow'

/-- **No step fails, and every step does what `StepTo` says.** -/
theorem steps (h : q.Inv) (ha : q.Enabled a) :
    ∃ q', q.step a = some q' ∧ StepTo q a q' ∧ q'.Inv := by
  obtain ⟨place, hrep⟩ := h.rep
  cases a with
  | create p when repeat_ delta =>
    obtain ⟨hp, -, hbound, hdelta⟩ := ha
    refine ⟨_, rfl, .create hp hdelta, ?_⟩
    exact h.of_rep (hrep.create hp hbound when repeat_ delta) rfl rfl le_rfl
  | addTimerInLoop p => exact h.addTimerInLoop ha
  | cancelInLoop timerId => exact h.cancelInLoop ha
  | tick now =>
    refine ⟨_, rfl, .tick ha, ?_⟩
    exact h.of_rep (hrep.frame rfl rfl rfl rfl rfl) rfl rfl ha
  | fire =>
    obtain ⟨time, harmed, hle⟩ := ha
    refine ⟨_, rfl, .fire harmed hle, ?_⟩
    exact h.of_rep (hrep.frame rfl rfl rfl rfl rfl) rfl rfl le_rfl
  | handleRead => exact h.handleRead ha
  | run => exact h.run ha
  | returns => exact h.returns ha
  | reset => exact h.reset ha

theorem stepTo (h : q.Inv) (ha : q.Enabled a) (hs : q.step a = some q') :
    StepTo q a q' ∧ q'.Inv := by
  obtain ⟨q'', hs'', hto, hinv⟩ := h.steps ha
  obtain rfl : q'' = q' := Option.some.inj (hs''.symm.trans hs)
  exact ⟨hto, hinv⟩

end Inv

/-- What holds at the start and is kept by every `StepTo` that meets `C` holds in every run that
    does. -/
theorem run_induction {P : TimerQueue → Prop} {C : TimerQueue → TimerAction → Prop} {clock : Int}
    (h : Reaches step C (start clock) q) (hC : ∀ q a, C q a → q.Enabled a) (init : P (start clock))
    (next : ∀ q a q', q.Inv → P q → C q a → StepTo q a q' → P q') : q.Inv ∧ P q := by
  refine h.invariant (P := fun q => q.Inv ∧ P q) ⟨inv_start clock, init⟩ ?_
  rintro q a q' ⟨hinv, hP⟩ hc hs
  obtain ⟨hto, hinv'⟩ := hinv.stepTo (hC q a hc) hs
  exact ⟨hinv', next q a q' hinv hP hc hto⟩

/-! ## The callbacks -/

/-- A callback of the timer with this sequence number. -/
def isRunOf (n : Nat) : TimerEvent → Bool
  | .run _ t _ => t.sequence_ == n
  | .cancelInLoop _ => false

theorem countP_run (log : List TimerEvent) (p : Nat) (t : Timer) (time : Int) (n : Nat) :
    (log ++ [TimerEvent.run p t time]).countP (isRunOf n) =
      log.countP (isRunOf n) + if t.sequence_ = n then 1 else 0 := by
  by_cases h : t.sequence_ = n
  · simp [isRunOf, h]
  · simp [isRunOf, h]

/-- The next timer of a batch is none of those that have been called. -/
theorem not_called {done rest : List TimerEntry} {it : TimerEntry}
    (h : ((done ++ it :: rest).map TimerEntry.second).Nodup) :
    it.second ∉ done.map TimerEntry.second := by
  rw [List.map_append, List.map_cons] at h
  intro hmem
  exact (List.nodup_append.mp h).2.2 _ hmem _ List.mem_cons_self rfl

/-- The callbacks that were called so far. -/
structure Calls (q : TimerQueue) : Prop where
  late : ∀ p t time, .run p t time ∈ q.log → t.expiration_ ≤ time
  number : ∀ p t time, .run p t time ∈ q.log → t.sequence_ ≤ q.s_numCreated_
  live : ∀ p t time, .run p t time ∈ q.log → ∀ p' t', q.heap p' = some t' →
    t'.sequence_ = t.sequence_ → t'.repeat_ = t.repeat_ ∧
      (t.repeat_ = false → p' ∈ q.control.called.map TimerEntry.second)
  once : ∀ p t time, .run p t time ∈ q.log → t.repeat_ = false →
    q.log.countP (isRunOf t.sequence_) = 1

namespace Calls

/-- No callback is called. -/
theorem mono (h : q.Calls) (hrun : ∀ p t time, .run p t time ∈ q'.log → .run p t time ∈ q.log)
    (hcount : ∀ n, q'.log.countP (isRunOf n) = q.log.countP (isRunOf n))
    (hnum : q.s_numCreated_ ≤ q'.s_numCreated_)
    (hheap : ∀ p t', q'.heap p = some t' → t'.sequence_ ≤ q.s_numCreated_ → ∃ t, q.heap p = some t ∧
      t'.sequence_ = t.sequence_ ∧ t'.repeat_ = t.repeat_ ∧
      (t.repeat_ = false → p ∈ q.control.called.map TimerEntry.second →
        p ∈ q'.control.called.map TimerEntry.second)) : q'.Calls := by
  constructor
  · intro p t time hmem
    exact h.late p t time (hrun p t time hmem)
  · intro p t time hmem
    exact (h.number p t time (hrun p t time hmem)).trans hnum
  · intro p t time hmem p' t' ht' hseq
    have hmem' := hrun p t time hmem
    obtain ⟨t'', ht'', hseq', hrepeat, hcalled⟩ := hheap p' t' ht'
      (hseq ▸ h.number p t time hmem')
    obtain ⟨hrepeat', hin⟩ := h.live p t time hmem' p' t'' ht'' (hseq'.symm.trans hseq)
    refine ⟨hrepeat.trans hrepeat', ?_⟩
    intro hone
    exact hcalled (hrepeat'.trans hone) (hin hone)
  · intro p t time hmem hone
    rw [hcount]
    exact h.once p t time (hrun p t time hmem) hone

/-- Neither a callback is called nor a timer created. -/
theorem of_heap (h : q.Calls) (hlog : q'.log = q.log) (hnum : q'.s_numCreated_ = q.s_numCreated_)
    (hheap : ∀ p t, q'.heap p = some t → q.heap p = some t)
    (hctl : q'.control.called = q.control.called) : q'.Calls := by
  apply h.mono
  · rw [hlog]
    exact fun _ _ _ hmem => hmem
  · rw [hlog]
    exact fun _ => rfl
  · exact hnum.ge
  · intro p t ht _
    refine ⟨t, hheap p t ht, rfl, rfl, ?_⟩
    rw [hctl]
    exact fun _ hin => hin

theorem cancel (h : q.Calls) {timerId : ActiveTimer}
    (hlog : q'.log = q.log ++ [.cancelInLoop timerId]) (hnum : q'.s_numCreated_ = q.s_numCreated_)
    (hheap : ∀ p t, q'.heap p = some t → q.heap p = some t) (hctl : q'.control = q.control) :
    q'.Calls := by
  apply h.mono
  · intro p t time hmem
    rw [hlog, List.mem_append, List.mem_singleton] at hmem
    exact hmem.resolve_right (by simp)
  · intro n
    rw [hlog, List.countP_append, List.countP_singleton]
    rfl
  · exact hnum.ge
  · intro p t ht _
    refine ⟨t, hheap p t ht, rfl, rfl, ?_⟩
    rw [hctl]
    exact fun _ hin => hin

theorem create (h : q.Calls) (p : Nat) (when : Int) (repeat_ : Bool) (delta : Int) :
    (q.newTimer p when repeat_ delta).Calls := by
  apply h.mono
  · exact fun _ _ _ hmem => hmem
  · exact fun _ => rfl
  · exact Nat.le_succ _
  · intro p' t' ht' hle
    rcases Numbered.of_update ht' with ⟨-, hx⟩ | ⟨-, hx⟩
    · rw [← Option.some.inj hx] at hle
      exact absurd hle (Nat.not_succ_le_self _)
    · exact ⟨t', hx, rfl, rfl, fun _ hin => hin⟩

/-- The callback of a timer of the batch that has not been called. -/
theorem run (h : q.Calls) (hrep : Rep q batch place) {now : Int} {done rest : List TimerEntry}
    {it : TimerEntry} (hbatch : batch = done ++ it :: rest) (hcalled : q.control.called = done)
    (ht : q.heap it.second = some t) (hlate : t.expiration_ ≤ q.clock) :
    { q with
      control := .callback now (done ++ [it]) rest
      log := q.log ++ [TimerEvent.run it.second t q.clock] }.Calls := by
  have hnot := not_called (hbatch ▸ hrep.batch_nodup)
  -- a callback of the same timer was called in an earlier batch only, and the timer repeats
  have hrepeats : ∀ p₀ t₀ time₀, .run p₀ t₀ time₀ ∈ q.log → t.sequence_ = t₀.sequence_ →
      t.repeat_ = t₀.repeat_ ∧ t₀.repeat_ ≠ false := by
    intro p₀ t₀ time₀ hmem hseq
    obtain ⟨hrepeat, hin⟩ := h.live p₀ t₀ time₀ hmem _ t ht hseq
    refine ⟨hrepeat, ?_⟩
    intro hone
    rw [hcalled] at hin
    exact hnot (hin hone)
  have hmem_log : ∀ {p₀ t₀ time₀}, .run p₀ t₀ time₀ ∈ q.log ++ [.run it.second t q.clock] →
      .run p₀ t₀ time₀ ∈ q.log ∨ (p₀ = it.second ∧ t₀ = t ∧ time₀ = q.clock) := by
    intro p₀ t₀ time₀ hmem
    rw [List.mem_append, List.mem_singleton, TimerEvent.run.injEq] at hmem
    exact hmem
  constructor
  · intro p₀ t₀ time₀ hmem
    rcases hmem_log hmem with hmem | ⟨-, rfl, rfl⟩
    · exact h.late p₀ t₀ time₀ hmem
    · exact hlate
  · intro p₀ t₀ time₀ hmem
    rcases hmem_log hmem with hmem | ⟨-, rfl, rfl⟩
    · exact h.number p₀ t₀ time₀ hmem
    · exact hrep.numbered.le _ _ ht
  · intro p₀ t₀ time₀ hmem p' t' ht' hseq
    simp only [TimerControl.called, List.map_append, List.mem_append]
    rcases hmem_log hmem with hmem | ⟨rfl, rfl, rfl⟩
    · obtain ⟨hrepeat, hin⟩ := h.live p₀ t₀ time₀ hmem p' t' ht' hseq
      rw [hcalled] at hin
      exact ⟨hrepeat, fun hone => .inl (hin hone)⟩
    · obtain rfl := hrep.numbered.inj _ _ _ _ ht' ht hseq
      obtain rfl : t' = t₀ := Option.some.inj (ht'.symm.trans ht)
      exact ⟨rfl, fun _ => .inr (List.mem_singleton.mpr rfl)⟩
  · intro p₀ t₀ time₀ hmem hone
    rw [countP_run]
    rcases hmem_log hmem with hmem | ⟨rfl, rfl, rfl⟩
    · rw [h.once p₀ t₀ time₀ hmem hone, if_neg]
      intro hseq
      exact (hrepeats p₀ t₀ time₀ hmem hseq).2 hone
    · rw [if_pos rfl, List.countP_eq_zero.mpr]
      intro ev hev hrun
      cases ev with
      | run p₁ t₁ time₁ =>
        have hseq : t₁.sequence_ = t₀.sequence_ := by simpa [isRunOf] using hrun
        obtain ⟨hrepeat, hne⟩ := hrepeats p₁ t₁ time₁ hev hseq.symm
        exact hne (hrepeat.symm.trans hone)
      | cancelInLoop timerId => cases hrun

end Calls

theorem calls_start (clock : Int) : (start clock).Calls := by
  constructor <;> simp [start]

/-- After `reset`, no called timer that does not repeat is left. -/
theorem Calls.reset (h : q.Calls) {now : Int} {done : List TimerEntry}
    (hcalled : q.control.called = done)
    (hreset : ResetFrom { q with callingExpiredTimers_ := false, control := .loop } now done q' []) :
    q'.rearmed.Calls := by
  rw [rearmed_eq]
  apply h.mono
  · intro p t time hmem
    rw [hreset.frame] at hmem
    exact hmem
  · intro n
    rw [hreset.frame]
  · rw [hreset.frame]
  · intro p t' ht' _
    obtain ⟨t, ht, hif⟩ := hreset.heap p t' ht'
    refine ⟨t, ht, ?_⟩
    by_cases hp : p ∈ done.map TimerEntry.second
    · rw [if_pos ⟨hp, List.not_mem_nil⟩] at hif
      obtain ⟨⟨hrepeat, -⟩, rfl⟩ := hif
      refine ⟨rfl, rfl, ?_⟩
      intro hone
      rw [hrepeat] at hone
      cases hone
    · rw [if_neg fun h => hp h.1] at hif
      rw [hif]
      refine ⟨rfl, rfl, ?_⟩
      intro _ hin
      rw [hcalled] at hin
      exact absurd hin hp

theorem Calls.stepTo {a : TimerAction} (hinv : q.Inv) (h : q.Calls) (hto : StepTo q a q') :
    q'.Calls := by
  have hdelete : ∀ p p' t, Function.update q.heap p none p' = some t → q.heap p' = some t := by
    intro p p' t ht
    rcases Numbered.of_update ht with ⟨-, hx⟩ | ⟨-, hx⟩
    · cases hx
    · exact hx
  cases hto with
  | create hp hdelta => exact h.create _ _ _ _
  | addEarliest hctl hp ht hearly => exact h.of_heap rfl rfl (fun _ _ h => h) rfl
  | addLater hctl hp ht hlater => exact h.of_heap rfl rfl (fun _ _ h => h) rfl
  | cancelWaiting hctl ht hin => exact h.cancel rfl rfl (hdelete _) rfl
  | cancelOther hctl hout => exact h.cancel rfl rfl (fun _ _ h => h) rfl
  | tick hle => exact h.of_heap rfl rfl (fun _ _ h => h) rfl
  | fire harmed hle => exact h.of_heap rfl rfl (fun _ _ h => h) rfl
  | handleRead hctl hlate =>
    refine h.of_heap rfl rfl (fun _ _ h => h) ?_
    rw [hctl]
    rfl
  | @run now done it rest t hctl ht hexp =>
    obtain ⟨place, hrep⟩ := hinv.rep
    obtain ⟨hnow, hbatch⟩ := hinv.readAt now (by rw [hctl]; rfl)
    have hfirst := hbatch it (by rw [hctl]; exact List.mem_append_right _ List.mem_cons_self)
    exact h.run hrep (by rw [hctl]; rfl) (by rw [hctl]; rfl) ht (hexp.trans_le (hfirst.trans hnow))
  | returns hctl =>
    refine h.of_heap rfl rfl (fun _ _ h => h) ?_
    rw [hctl]
    rfl
  | reset hctl hreset => exact h.reset (by rw [hctl]; rfl) hreset

/-! ## Every run -/

/-- `timers_` and `activeTimers_` have the same timers, none of which is deleted. -/
def SameTimers (q : TimerQueue) : Prop :=
  (∀ e p, ⟨e, p⟩ ∈ q.timers_ ↔
    ∃ t, q.heap p = some t ∧ t.expiration_ = e ∧ ⟨p, t.sequence_⟩ ∈ q.activeTimers_) ∧
  (∀ p n, ⟨p, n⟩ ∈ q.activeTimers_ ↔
    ∃ t, q.heap p = some t ∧ t.sequence_ = n ∧ ⟨t.expiration_, p⟩ ∈ q.timers_) ∧
  q.timers_.size = q.activeTimers_.size

theorem Rep.sameTimers (h : Rep q batch place) : q.SameTimers := by
  refine ⟨?_, ?_, h.size⟩
  · intro e p
    constructor
    · intro hin
      obtain ⟨hp, t, ht, hexp⟩ := ((h.holds p).timers e).mp hin
      exact ⟨t, ht, hexp, (h.waiting hp ht).2⟩
    · rintro ⟨t, ht, rfl, hin⟩
      exact (h.waiting (((h.holds p).active _).mp hin).1 ht).1
  · intro p n
    constructor
    · intro hin
      obtain ⟨hp, t, ht, hseq⟩ := ((h.holds p).active n).mp hin
      exact ⟨t, ht, hseq, (h.waiting hp ht).1⟩
    · rintro ⟨t, ht, rfl, hin⟩
      exact (h.waiting (((h.holds p).timers _).mp hin).1 ht).2

/-- **In every run the two sets have the same timers, no assertion fails, no deleted timer is used or
    deleted again, no timer is called before its expiration, and one that does not repeat is called
    once at most.** -/
theorem timers_consistent {clock : Int} (h : Reaches step Enabled (start clock) q) :
    q.SameTimers ∧ (∀ a, q.Enabled a → ∃ q', q.step a = some q') ∧
      (∀ p t time, .run p t time ∈ q.log → t.expiration_ ≤ time) ∧
      (∀ p t time, .run p t time ∈ q.log → t.repeat_ = false →
        q.log.countP (isRunOf t.sequence_) = 1) := by
  obtain ⟨hinv, hcalls⟩ := run_induction h (fun _ _ ha => ha) (calls_start clock)
    fun q a q' hinv hP _ hto => hP.stepTo hinv hto
  obtain ⟨place, hrep⟩ := hinv.rep
  refine ⟨hrep.sameTimers, ?_, hcalls.late, hcalls.once⟩
  intro a ha
  obtain ⟨q', hs, -, -⟩ := hinv.steps ha
  exact ⟨q', hs⟩

/-- A repeating timer cancels itself in its callback, after a timer that does not repeat. -/
theorem timers_consistent_cancel :
    ∃ q : TimerQueue, q.log.length = 3 ∧ q.timers_.size = 0 ∧ q.SameTimers ∧
      q.log.countP (isRunOf 1) = 1 := by
  obtain ⟨q, hreach, hmem, hlen, hsize⟩ : ∃ q, Reaches step Enabled (start 1000) q ∧
      TimerEvent.run 8 ⟨2000, 0, false, 1⟩ 2000 ∈ q.log ∧ q.log.length = 3 ∧ q.timers_.size = 0 :=
    exists_reaches [.create 8 2000 false 0, .addTimerInLoop 8, .create 16 2000 true 50,
      .addTimerInLoop 16, .tick 2000, .fire, .handleRead, .run, .returns, .run,
      .cancelInLoop ⟨16, 2⟩, .returns, .reset] (by decide)
  obtain ⟨hsame, -, -, honce⟩ := timers_consistent hreach
  exact ⟨q, hlen, hsize, hsame, honce _ _ _ hmem rfl⟩

end Mmvx.Net.TimerQueue
