/-
  Cancelled timers of a `TimerQueue`.

  `cancelInLoop` deletes a timer that waits, and keeps the id of one that has expired in
  `cancelingTimers_`; `reset` looks there before it restarts a timer, but the loop that calls the
  expired timers does not. So a timer that was collected with the one that cancels it is still called,
  and so is one that is cancelled before its `addTimerInLoop`. A timer that is cancelled while it
  waits, or after its callback has been called, is not called again (`no_run_after_cancel`).
-/
import Mmvx.Net.TimerRuns

namespace Mmvx.Net

open Mmvx.Lib

/-- The second event is a callback of the timer that the first one cancelled. -/
def TimerEvent.runAfterCancel : TimerEvent → TimerEvent → Bool
  | .cancelInLoop timerId, .run p t _ => decide (timerId = ⟨p, t.sequence_⟩)
  | _, _ => false

namespace TimerQueue

variable {q q' : TimerQueue} {p : Nat} {t : Timer}

/-- No timer is called after it was cancelled. -/
def NoRunAfterCancel (q : TimerQueue) : Prop :=
  q.log.Pairwise fun a b => a.runAfterCancel b = false

/-- A timer is cancelled when it waits, when its callback has been called in this batch, or when it
    does not exist any more. -/
def CancelsInTime (q : TimerQueue) : TimerAction → Prop
  | .cancelInLoop timerId => timerId.second ≤ q.s_numCreated_ ∧
      ∀ t ∈ q.heap timerId.first, t.sequence_ = timerId.second →
        timerId ∈ q.activeTimers_ ∨ timerId.first ∈ q.control.called.map TimerEntry.second
  | _ => True

instance (q : TimerQueue) (a : TimerAction) : Decidable (q.CancelsInTime a) :=
  match a with
  | .cancelInLoop _ => inferInstanceAs (Decidable (_ ∧ _))
  | .create _ _ _ _ | .addTimerInLoop _ | .tick _ | .fire => inferInstanceAs (Decidable True)
  | .handleRead | .run | .returns | .reset => inferInstanceAs (Decidable True)

/-- A cancelled timer that is not deleted has been called, and will not be restarted. -/
structure Cancels (q : TimerQueue) : Prop where
  number : ∀ timerId, .cancelInLoop timerId ∈ q.log → timerId.second ≤ q.s_numCreated_
  called : ∀ timerId, .cancelInLoop timerId ∈ q.log → ∀ t, q.heap timerId.first = some t →
    t.sequence_ = timerId.second →
      timerId.first ∈ q.control.called.map TimerEntry.second ∧ timerId ∈ q.cancelingTimers_
  order : q.NoRunAfterCancel

theorem cancels_start (clock : Int) : (start clock).Cancels := by
  constructor <;> simp [start, NoRunAfterCancel]

theorem noRunAfterCancel_append {ev : TimerEvent} (h : q.NoRunAfterCancel)
    (hlog : q'.log = q.log ++ [ev]) (hev : ∀ ev' ∈ q.log, ev'.runAfterCancel ev = false) :
    q'.NoRunAfterCancel := by
  unfold NoRunAfterCancel
  rw [hlog, List.pairwise_append]
  refine ⟨h, List.pairwise_singleton _ _, ?_⟩
  intro ev' hev' ev'' hev''
  rw [List.mem_singleton.mp hev'']
  exact hev ev' hev'

namespace Cancels

theorem create (h : q.Cancels) (p : Nat) (when : Int) (repeat_ : Bool) (delta : Int) :
    (q.newTimer p when repeat_ delta).Cancels := by
  refine ⟨?_, ?_, h.order⟩
  · intro timerId hmem
    exact (h.number timerId hmem).trans (Nat.le_succ _)
  · intro timerId hmem t' ht' hseq
    rcases Numbered.of_update ht' with ⟨-, hx⟩ | ⟨-, hx⟩
    · -- the new timer has a number of its own
      obtain rfl := Option.some.inj hx
      have hle := h.number timerId hmem
      rw [← hseq] at hle
      exact absurd hle (Nat.not_succ_le_self _)
    · exact h.called timerId hmem t' hx hseq

/-- A call of `cancelInLoop`, with what it leaves of its own timer. -/
theorem cancel (h : q.Cancels) {timerId : ActiveTimer}
    (hlog : q'.log = q.log ++ [.cancelInLoop timerId]) (hnum : q'.s_numCreated_ = q.s_numCreated_)
    (hctl : q'.control = q.control) (hheap : ∀ p t, q'.heap p = some t → q.heap p = some t)
    (hcanceling : ∀ id ∈ q.cancelingTimers_, id ∈ q'.cancelingTimers_)
    (hle : timerId.second ≤ q.s_numCreated_)
    (hself : ∀ t, q'.heap timerId.first = some t → t.sequence_ = timerId.second →
      timerId.first ∈ q.control.called.map TimerEntry.second ∧ timerId ∈ q'.cancelingTimers_) :
    q'.Cancels := by
  have hmem : ∀ {id}, TimerEvent.cancelInLoop id ∈ q'.log →
      .cancelInLoop id ∈ q.log ∨ id = timerId := by
    intro id hid
    rw [hlog, List.mem_append, List.mem_singleton, TimerEvent.cancelInLoop.injEq] at hid
    exact hid
  constructor
  · intro id hid
    rw [hnum]
    rcases hmem hid with hid | rfl
    · exact h.number id hid
    · exact hle
  · intro id hid t ht hseq
    rw [hctl]
    rcases hmem hid with hid | rfl
    · obtain ⟨hcalled, hin⟩ := h.called id hid t (hheap _ t ht) hseq
      exact ⟨hcalled, hcanceling id hin⟩
    · exact hself t ht hseq
  · refine noRunAfterCancel_append h.order hlog ?_
    intro ev _
    cases ev with
    | run p t time => rfl
    | cancelInLoop id => rfl

theorem cancelOther (h : q.Cancels) (hinv : q.Inv) {timerId : ActiveTimer}
    (hC : q.CancelsInTime (.cancelInLoop timerId)) (hout : timerId ∉ q.activeTimers_) :
    (q.parked timerId).Cancels := by
  obtain ⟨hle, hwhere⟩ := hC
  have hcanceling : ∀ id ∈ q.cancelingTimers_, id ∈ (q.parked timerId).cancelingTimers_ := by
    intro id hid
    simp only [parked]
    split
    · exact OrdSet.mem_insert.mpr (.inr hid)
    · exact hid
  refine h.cancel rfl rfl rfl (fun _ _ ht => ht) hcanceling hle ?_
  intro t ht hseq
  have hcalled := (hwhere t ht hseq).resolve_left hout
  refine ⟨hcalled, ?_⟩
  -- callbacks are being called
  have hcalling : q.callingExpiredTimers_ = true := by
    rw [hinv.calling]
    cases hctl : q.control with
    | loop =>
      rw [hctl] at hcalled
      cases hcalled
    | between now done rest => rfl
    | callback now done rest => rfl
  simp only [parked, if_pos hcalling]
  exact OrdSet.mem_insert.mpr (.inl rfl)

theorem run (h : q.Cancels) (hinv : q.Inv) {now : Int} {done rest : List TimerEntry}
    {it : TimerEntry} (hctl : q.control = .between now done (it :: rest))
    (ht : q.heap it.second = some t) :
    { q with
      control := .callback now (done ++ [it]) rest
      log := q.log ++ [TimerEvent.run it.second t q.clock] }.Cancels := by
  obtain ⟨place, hrep⟩ := hinv.rep
  have hnot : it.second ∉ done.map TimerEntry.second := by
    have hnodup := hrep.batch_nodup
    rw [hctl] at hnodup
    exact not_called hnodup
  have hmem : ∀ {id}, TimerEvent.cancelInLoop id ∈ q.log ++ [TimerEvent.run it.second t q.clock] →
      .cancelInLoop id ∈ q.log := by
    intro id hid
    rw [List.mem_append, List.mem_singleton] at hid
    exact hid.resolve_right (by simp)
  constructor
  · intro id hid
    exact h.number id (hmem hid)
  · intro id hid t' ht' hseq
    obtain ⟨hcalled, hin⟩ := h.called id (hmem hid) t' ht' hseq
    rw [hctl] at hcalled
    refine ⟨?_, hin⟩
    simp only [TimerControl.called, List.map_append, List.mem_append]
    exact .inl hcalled
  · refine noRunAfterCancel_append h.order rfl ?_
    intro ev hev
    cases ev with
    | run p₀ t₀ time₀ => rfl
    | cancelInLoop id =>
      refine decide_eq_false ?_
      rintro rfl
      have hcalled := (h.called _ hev t ht rfl).1
      rw [hctl] at hcalled
      exact hnot hcalled

/-- `reset` does not restart a timer that was cancelled. -/
theorem reset (h : q.Cancels) {now : Int} {done : List TimerEntry}
    (hcalled : q.control.called = done)
    (hreset : ResetFrom { q with callingExpiredTimers_ := false, control := .loop } now done q' []) :
    q'.rearmed.Cancels := by
  have hlog : q'.log = q.log := by rw [hreset.frame]
  have hnum : q'.s_numCreated_ = q.s_numCreated_ := by rw [hreset.frame]
  rw [rearmed_eq]
  constructor
  · intro id hid
    simp only [hlog] at hid
    simp only [hnum]
    exact h.number id hid
  · intro id hid t' ht' hseq
    simp only [hlog] at hid
    obtain ⟨t, ht, hif⟩ := hreset.heap _ t' ht'
    by_cases hp : id.first ∈ done.map TimerEntry.second
    · rw [if_pos ⟨hp, List.not_mem_nil⟩] at hif
      obtain ⟨⟨-, hnot⟩, rfl⟩ := hif
      obtain ⟨-, hin⟩ := h.called id hid t ht hseq
      have hid' : id = ⟨id.first, t.sequence_⟩ := ActiveTimer.ext rfl hseq.symm
      rw [hid'] at hin
      exact absurd hin hnot
    · rw [if_neg fun h => hp h.1] at hif
      rw [hif] at hseq
      obtain ⟨hin, -⟩ := h.called id hid t ht hseq
      rw [hcalled] at hin
      exact absurd hin hp
  · unfold NoRunAfterCancel
    simp only [hlog]
    exact h.order

theorem stepTo {a : TimerAction} (hinv : q.Inv) (h : q.Cancels) (hC : q.CancelsInTime a)
    (hto : StepTo q a q') : q'.Cancels := by
  cases hto with
  | create hp hdelta => exact h.create _ _ _ _
  | addEarliest hctl hp ht hearly => exact ⟨h.number, h.called, h.order⟩
  | addLater hctl hp ht hlater => exact ⟨h.number, h.called, h.order⟩
  | @cancelWaiting p t hctl ht hin =>
    refine h.cancel rfl rfl rfl ?_ (fun _ hid => hid) hC.1 ?_
    · intro p' t' ht'
      rcases Numbered.of_update ht' with ⟨-, hx⟩ | ⟨-, hx⟩
      · cases hx
      · exact hx
    · intro t' ht'
      rcases Numbered.of_update ht' with ⟨-, hx⟩ | ⟨hne, -⟩
      · cases hx
      · exact absurd rfl hne
  | cancelOther hctl hout => exact h.cancelOther hinv hC hout
  | tick hle => exact ⟨h.number, h.called, h.order⟩
  | fire harmed hle => exact ⟨h.number, h.called, h.order⟩
  | handleRead hctl hlate =>
    refine ⟨h.number, ?_, h.order⟩
    intro id hid t ht hseq
    obtain ⟨hcalled, -⟩ := h.called id hid t ht hseq
    rw [hctl] at hcalled
    cases hcalled
  | run hctl ht hexp => exact h.run hinv hctl ht
  | returns hctl =>
    refine ⟨h.number, ?_, h.order⟩
    intro id hid t ht hseq
    obtain ⟨hcalled, hin⟩ := h.called id hid t ht hseq
    rw [hctl] at hcalled
    exact ⟨hcalled, hin⟩
  | reset hctl hreset => exact h.reset (by rw [hctl]; rfl) hreset

end Cancels

/-- **In every run in which timers are cancelled while they wait, after they have been called, or
    when they are gone, no timer is called after it was cancelled.** -/
theorem no_run_after_cancel {clock : Int}
    (h : Reaches step (fun q a => q.Enabled a ∧ q.CancelsInTime a) (start clock) q) :
    q.NoRunAfterCancel := by
  obtain ⟨-, hcancels⟩ := run_induction h (fun _ _ hc => hc.1) (cancels_start clock)
    fun q a q' hinv hP hc hto => hP.stepTo hinv hc.2 hto
  exact hcancels.order

/-- A repeating timer is cancelled by the callback of a timer that is called after it. -/
theorem no_run_after_cancel_called :
    ∃ q : TimerQueue, q.log = [.run 8 ⟨2000, 50, true, 1⟩ 2000, .run 16 ⟨2000, 0, false, 2⟩ 2000,
      .cancelInLoop ⟨8, 1⟩] ∧ q.timers_.size = 0 ∧ q.NoRunAfterCancel := by
  obtain ⟨q, hreach, hlog, hsize⟩ : ∃ q,
      Reaches step (fun q a => q.Enabled a ∧ q.CancelsInTime a) (start 1000) q ∧
      q.log = [.run 8 ⟨2000, 50, true, 1⟩ 2000, .run 16 ⟨2000, 0, false, 2⟩ 2000,
        .cancelInLoop ⟨8, 1⟩] ∧ q.timers_.size = 0 :=
    exists_reaches [.create 8 2000 true 50, .addTimerInLoop 8, .create 16 2000 false 0,
      .addTimerInLoop 16, .tick 2000, .fire, .handleRead, .run, .returns, .run,
      .cancelInLoop ⟨8, 1⟩, .returns, .reset] (by decide)
  exact ⟨q, hlog, hsize, no_run_after_cancel hreach⟩

/-- Of two timers that expire together, the first cancels the second, which is then called. -/
theorem run_after_cancel_in_batch :
    ¬ ∀ (clock : Int) (q : TimerQueue), Reaches step Enabled (start clock) q →
      q.NoRunAfterCancel := by
  intro hall
  obtain ⟨q, hreach, hlog⟩ : ∃ q, Reaches step Enabled (start 1000) q ∧
      q.log = [.run 8 ⟨2000, 0, false, 1⟩ 2000, .cancelInLoop ⟨16, 2⟩,
        .run 16 ⟨2000, 0, false, 2⟩ 2000] :=
    exists_reaches [.create 8 2000 false 0, .addTimerInLoop 8, .create 16 2000 false 0,
      .addTimerInLoop 16, .tick 2000, .fire, .handleRead, .run, .cancelInLoop ⟨16, 2⟩, .returns,
      .run] (by decide)
  have horder := hall 1000 q hreach
  rw [NoRunAfterCancel, hlog] at horder
  exact absurd horder (by decide)

end TimerQueue

end Mmvx.Net
