/-
  The timerfd of a `TimerQueue`.

  It is armed in `addTimerInLoop`, when the new timer is the earliest, and in `reset`, when the next
  expiration is valid. While callbacks run, a timer need not be covered by the timerfd unless its
  expiration is invalid, for `reset` will not arm it for that one; it has been armed for it in
  `addTimerInLoop` then. If the clock reads valid timestamps, the timerfd covers every timer that
  waits whenever the thread is back in the loop (`no_timer_stranded`).
-/
import Mmvx.Net.TimerRuns

namespace Mmvx.Net

open Mmvx.Lib Mmvx.Base

/-- The timerfd has fired, or will at `e` or 100 microseconds after it was armed. -/
def Timerfd.Covers (fd : Timerfd) (e : Int) : Prop :=
  fd.readable = true ∨ ∃ time, fd.armed = some time ∧ (time ≤ e ∨ time ≤ fd.armedAt + 100)

theorem Timerfd.Covers.mono {fd : Timerfd} {e e' : Int} (h : fd.Covers e) (hle : e ≤ e') :
    fd.Covers e' := by
  rcases h with hread | ⟨time, harmed, he | hat⟩
  · exact .inl hread
  · exact .inr ⟨time, harmed, .inl (he.trans hle)⟩
  · exact .inr ⟨time, harmed, .inr hat⟩

/-- The seconds and nanoseconds are those of the microseconds. -/
theorem howMuchTimeFromNow_microseconds (when now : Int) :
    (howMuchTimeFromNow when now).tv_sec * Timestamp.kMicroSecondsPerSecond +
      (howMuchTimeFromNow when now).tv_nsec / 1000 =
      if when - now < 100 then 100 else when - now := by
  simp only [howMuchTimeFromNow, Timestamp.kMicroSecondsPerSecond]
  split
  · omega
  · omega

namespace TimerQueue

variable {q q' : TimerQueue} {p : Nat} {t : Timer}

theorem resetTimerfd_timerfd (q : TimerQueue) (e : Int) :
    (q.resetTimerfd e).timerfd_ =
      ⟨some (if e - q.clock < 100 then q.clock + 100 else e), q.clock, false⟩ := by
  have hus := howMuchTimeFromNow_microseconds e q.clock
  have hpos : ¬ ((howMuchTimeFromNow e q.clock).tv_sec = 0 ∧
      (howMuchTimeFromNow e q.clock).tv_nsec = 0) := by
    rintro ⟨hsec, hnsec⟩
    rw [hsec, hnsec] at hus
    split at hus
    · cases hus
    · omega
  simp only [resetTimerfd, Timerfd.settime, if_neg hpos, Timerfd.mk.injEq, Option.some.injEq,
    and_true]
  rw [Int.add_assoc, hus]
  split
  · rfl
  · omega

theorem resetTimerfd_covers (q : TimerQueue) {e e' : Int} (hle : e ≤ e') :
    (q.resetTimerfd e).timerfd_.Covers e' := by
  rw [resetTimerfd_timerfd]
  refine .inr ⟨_, rfl, ?_⟩
  split
  · exact .inr le_rfl
  · exact .inl hle

/-- What holds of the timerfd while the clock reads valid timestamps. -/
structure Arming (q : TimerQueue) : Prop where
  delta : ∀ p t, q.heap p = some t → t.repeat_ = true → 0 ≤ t.delta
  clock : 0 < q.clock
  readAt : ∀ now ∈ q.control.readAt, 0 < now
  covers : ∀ it ∈ q.timers_, q.control = .loop ∨ it.first ≤ 0 → q.timerfd_.Covers it.first

theorem arming_start {clock : Int} (h : 0 < clock) : (start clock).Arming := by
  refine ⟨?_, h, ?_, ?_⟩
  · intro p t ht
    cases ht
  · intro now hnow
    cases hnow
  · intro it hit
    exact absurd hit (OrdSet.notMem_empty it)

theorem isEarliest_le {e : Int} (h : q.isEarliest e = true) {it : TimerEntry}
    (hit : it ∈ q.timers_) : e ≤ it.first := by
  unfold isEarliest at h
  cases hfirst : q.timers_.first with
  | none => exact absurd hit (OrdSet.first_eq_none hfirst it)
  | some f =>
    simp only [hfirst, decide_eq_true_eq] at h
    exact h.le.trans (TimerEntry.first_le (OrdSet.first_le hfirst hit))

/-- An earlier timer waits. -/
theorem exists_earlier {e : Int} (h : q.isEarliest e = false) :
    ∃ f ∈ q.timers_, f.first ≤ e := by
  unfold isEarliest at h
  cases hfirst : q.timers_.first with
  | none =>
    rw [hfirst] at h
    cases h
  | some f =>
    simp only [hfirst, decide_eq_false_iff_not, not_lt] at h
    exact ⟨f, OrdSet.first_mem hfirst, h⟩

theorem mem_added {it : TimerEntry} (h : it ∈ (q.added p t).timers_) :
    it = ⟨t.expiration_, p⟩ ∨ it ∈ q.timers_ := OrdSet.mem_insert.mp h

theorem earliest_le {it : TimerEntry} (hit : it ∈ q.timers_) : q.earliest ≤ it.first := by
  unfold earliest
  cases hfirst : q.timers_.first with
  | none => exact absurd hit (OrdSet.first_eq_none hfirst it)
  | some f => exact TimerEntry.first_le (OrdSet.first_le hfirst hit)

theorem exists_earliest {it : TimerEntry} (hit : it ∈ q.timers_) :
    ∃ f ∈ q.timers_, f.first = q.earliest := by
  unfold earliest
  cases hfirst : q.timers_.first with
  | none => exact absurd hit (OrdSet.first_eq_none hfirst it)
  | some f => exact ⟨f, OrdSet.first_mem hfirst, rfl⟩

namespace Arming

theorem addEarliest (h : q.Arming) (hearly : q.isEarliest t.expiration_ = true) :
    ((q.added p t).resetTimerfd t.expiration_).Arming := by
  refine ⟨h.delta, h.clock, h.readAt, ?_⟩
  intro it hit _
  apply resetTimerfd_covers
  rcases mem_added hit with rfl | hit
  · exact le_rfl
  · exact isEarliest_le hearly hit

theorem addLater (h : q.Arming) (hlater : q.isEarliest t.expiration_ = false) :
    (q.added p t).Arming := by
  refine ⟨h.delta, h.clock, h.readAt, ?_⟩
  intro it hit hctl
  rcases mem_added hit with rfl | hit
  · obtain ⟨f, hf, hle⟩ := exists_earlier hlater
    refine (h.covers f hf ?_).mono hle
    exact hctl.imp_right hle.trans
  · exact h.covers it hit hctl

/-- `reset` arms the timerfd, unless it has been armed for a timer with an invalid expiration. -/
theorem reset (h : q.Arming) {now : Int} {done : List TimerEntry}
    (hctl : q.control.readAt = some now)
    (hreset : ResetFrom { q with callingExpiredTimers_ := false, control := .loop } now done q' []) :
    q'.rearmed.Arming := by
  have hloop : q'.control = .loop := by rw [hreset.frame]
  have hfd : q'.timerfd_ = q.timerfd_ := by rw [hreset.frame]
  constructor
  · intro p t' ht' hrepeat
    rw [rearmed_eq] at ht'
    obtain ⟨t, ht, hif⟩ := hreset.heap p t' ht'
    split at hif
    · obtain ⟨-, rfl⟩ := hif
      exact h.delta p t ht hrepeat
    · rw [hif] at hrepeat ⊢
      exact h.delta p t ht hrepeat
  · rw [rearmed_eq, hreset.frame]
    exact h.clock
  · intro now' hnow'
    rw [rearmed_eq] at hnow'
    simp only [hloop] at hnow'
    cases hnow'
  · intro it hit _
    have hit' : it ∈ q'.timers_ := by
      rw [rearmed_eq] at hit
      exact hit
    have hearliest := earliest_le hit'
    unfold rearmed
    split
    · exact q'.resetTimerfd_covers hearliest
    · rename_i hinvalid
      have hle : q'.earliest ≤ 0 := not_lt.mp fun hlt => hinvalid (decide_eq_true hlt)
      obtain ⟨f, hf, hfe⟩ := exists_earliest hit'
      -- the earliest timer is none of those that were restarted
      rcases hreset.timers f.first f.second hf with hold | ⟨t, ht, hrepeat, hnew⟩
      · rw [hfd]
        exact (h.covers f hold (.inr (hfe.trans_le hle))).mono (hfe.trans_le hearliest)
      · have hnow := h.readAt now hctl
        have hdelta := h.delta _ t ht hrepeat
        omega

theorem stepTo {a : TimerAction} (h : q.Arming) (hto : StepTo q a q') : q'.Arming := by
  cases hto with
  | create hp hdelta =>
    refine ⟨?_, h.clock, h.readAt, h.covers⟩
    intro p' t' ht' hrepeat
    rcases Numbered.of_update ht' with ⟨-, hx⟩ | ⟨-, hx⟩
    · obtain rfl := Option.some.inj hx
      exact hdelta hrepeat
    · exact h.delta p' t' hx hrepeat
  | addEarliest hctl hp ht hearly => exact h.addEarliest hearly
  | addLater hctl hp ht hlater => exact h.addLater hlater
  | cancelWaiting hctl ht hin =>
    refine ⟨?_, h.clock, h.readAt, ?_⟩
    · intro p' t' ht' hrepeat
      rcases Numbered.of_update ht' with ⟨-, hx⟩ | ⟨-, hx⟩
      · cases hx
      · exact h.delta p' t' hx hrepeat
    · intro it hit hctl'
      exact h.covers it (OrdSet.mem_erase.mp hit).2 hctl'
  | cancelOther hctl hout => exact ⟨h.delta, h.clock, h.readAt, h.covers⟩
  | tick hle => exact ⟨h.delta, h.clock.trans_le hle, h.readAt, h.covers⟩
  | fire harmed hle => exact ⟨h.delta, h.clock, h.readAt, fun _ _ _ => .inl rfl⟩
  | handleRead hctl hlate =>
    refine ⟨h.delta, h.clock, ?_, ?_⟩
    · intro now hnow
      obtain rfl := Option.some.inj hnow
      exact h.clock
    · intro it hit hor
      have hlt := h.clock.trans (hlate it hit)
      rcases hor with hloop | hle
      · cases hloop
      · exact absurd hlt hle.not_gt
  | run hctl ht hexp =>
    refine ⟨h.delta, h.clock, ?_, ?_⟩
    · intro now hnow
      exact h.readAt now (by rw [hctl]; exact hnow)
    · intro it hit hor
      refine h.covers it hit (.inr (hor.resolve_left ?_))
      intro hloop
      cases hloop
  | returns hctl =>
    refine ⟨h.delta, h.clock, ?_, ?_⟩
    · intro now hnow
      exact h.readAt now (by rw [hctl]; exact hnow)
    · intro it hit hor
      refine h.covers it hit (.inr (hor.resolve_left ?_))
      intro hloop
      cases hloop
  | reset hctl hreset => exact h.reset (by rw [hctl]; rfl) hreset

end Arming

/-- **If the clock reads valid timestamps, whenever the thread is in the loop the timerfd has fired,
    or will no later than the earliest expiration or 100 microseconds after it was armed.** -/
theorem no_timer_stranded {clock : Int} (hclock : Timestamp.valid clock = true)
    (h : Reaches step Enabled (start clock) q) (hctl : q.control = .loop) {it : TimerEntry}
    (hit : it ∈ q.timers_) : q.timerfd_.Covers it.first := by
  obtain ⟨-, harming⟩ := run_induction h (fun _ _ ha => ha)
    (arming_start (of_decide_eq_true hclock)) fun q a q' _ hP _ hto => hP.stepTo hto
  exact harming.covers it hit (.inl hctl)

/-- A repeating timer with an interval below 100 microseconds has been restarted. -/
theorem no_timer_stranded_restarted :
    ∃ q : TimerQueue, q.timerfd_ = ⟨some 2100, 2000, false⟩ ∧ ⟨2050, 8⟩ ∈ q.timers_ ∧
      q.timerfd_.Covers 2050 := by
  obtain ⟨q, hreach, hctl, hfd, hit⟩ : ∃ q, Reaches step Enabled (start 1000) q ∧
      q.control = .loop ∧ q.timerfd_ = ⟨some 2100, 2000, false⟩ ∧ ⟨2050, 8⟩ ∈ q.timers_ :=
    exists_reaches [.create 8 2000 true 50, .addTimerInLoop 8, .tick 2000, .fire, .handleRead, .run,
      .returns, .reset] (by decide)
  exact ⟨q, hfd, hit, no_timer_stranded (by decide) hreach hctl hit⟩

/-- The same timer one second before the epoch: its next expiration is not valid, and the timerfd
    is not armed. -/
theorem timer_stranded_before_epoch :
    ¬ ∀ (clock : Int) (q : TimerQueue), Reaches step Enabled (start clock) q → q.control = .loop →
      ∀ it ∈ q.timers_, q.timerfd_.Covers it.first := by
  intro hall
  obtain ⟨q, hreach, hctl, hfd, hit⟩ : ∃ q, Reaches step Enabled (start (-1000000)) q ∧
      q.control = .loop ∧ q.timerfd_ = ⟨none, -1000000, false⟩ ∧ ⟨-998950, 8⟩ ∈ q.timers_ :=
    exists_reaches [.create 8 (-999000) true 50, .addTimerInLoop 8, .tick (-999000), .fire,
      .handleRead, .run, .returns, .reset] (by decide)
  have hcovers := hall _ q hreach hctl _ hit
  rw [hfd] at hcovers
  rcases hcovers with hread | ⟨time, harmed, -⟩
  · cases hread
  · cases harmed

end TimerQueue

end Mmvx.Net
