/-
  The sets of a `TimerQueue` and its timers.

  A timer that is not deleted is created, waits in `timers_` and `activeTimers_`, or is in the batch
  of expired timers that `handleRead` is working on. `Rep` says so for each pointer, against the place
  where its timer is. Every operation moves the timers of some pointers, and a deleted timer is in no
  place: no assertion fails and no deleted timer is used in `addTimerInLoop`, `cancelInLoop`,
  `getExpired` and `reset` (`Rep.addTimerInLoop`, `Rep.cancelInLoop_waiting`, `Rep.getExpired`,
  `Rep.reset`).
-/
import Mmvx.Net.TimerQueue

namespace Mmvx.Net.TimerQueue

open Mmvx.Lib Mmvx.Base

/-- Where a timer is. -/
inductive Place where
  | free
  | created
  | waiting
  | expired
  deriving DecidableEq, Repr

/-- What the queue holds at a pointer. -/
structure HoldsAt (q : TimerQueue) (batch : List TimerEntry) (p : Nat) (place : Place) : Prop where
  heap : q.heap p = none ↔ place = .free
  created : p ∈ q.created ↔ place = .created
  timers : ∀ e, ⟨e, p⟩ ∈ q.timers_ ↔
    place = .waiting ∧ ∃ t, q.heap p = some t ∧ t.expiration_ = e
  active : ∀ n, ⟨p, n⟩ ∈ q.activeTimers_ ↔
    place = .waiting ∧ ∃ t, q.heap p = some t ∧ t.sequence_ = n
  batch : ∀ e, ⟨e, p⟩ ∈ batch ↔ place = .expired ∧ ∃ t, q.heap p = some t ∧ t.expiration_ = e

/-- The sequence numbers of the timers. -/
structure Numbered (heap : Nat → Option Timer) (numCreated : Nat) : Prop where
  le : ∀ p t, heap p = some t → t.sequence_ ≤ numCreated
  inj : ∀ p p' t t', heap p = some t → heap p' = some t' → t.sequence_ = t'.sequence_ → p = p'
  bound : ∀ p t, heap p = some t → p < UINTPTR_MAX

structure Rep (q : TimerQueue) (batch : List TimerEntry) (place : Nat → Place) : Prop where
  holds : ∀ p, q.HoldsAt batch p (place p)
  created_nodup : q.created.Nodup
  batch_nodup : (batch.map TimerEntry.second).Nodup
  size : q.timers_.size = q.activeTimers_.size
  numbered : Numbered q.heap q.s_numCreated_

variable {q q' : TimerQueue} {batch : List TimerEntry} {place : Nat → Place} {p : Nat} {t : Timer}

namespace Numbered

variable {heap : Nat → Option Timer} {n : Nat}

/-- If a timer is at a pointer after an update, it is the new one or was there before. -/
theorem of_update {x : Option Timer} {p' : Nat} {t' : Timer}
    (h : Function.update heap p x p' = some t') :
    (p' = p ∧ x = some t') ∨ (p' ≠ p ∧ heap p' = some t') := by
  by_cases hp : p' = p
  · subst hp
    rw [Function.update_self] at h
    exact .inl ⟨rfl, h⟩
  · rw [Function.update_of_ne hp] at h
    exact .inr ⟨hp, h⟩

/-- Every timer has the number of a timer that was at its pointer before. -/
theorem mono {heap' : Nat → Option Timer} (h : Numbered heap n)
    (hmono : ∀ p t', heap' p = some t' → ∃ t, heap p = some t ∧ t'.sequence_ = t.sequence_) :
    Numbered heap' n := by
  constructor
  · intro p t' ht'
    obtain ⟨t, ht, hseq⟩ := hmono p t' ht'
    rw [hseq]
    exact h.le p t ht
  · intro p₁ p₂ t₁' t₂' h₁ h₂ heq
    obtain ⟨t₁, ht₁, hseq₁⟩ := hmono p₁ t₁' h₁
    obtain ⟨t₂, ht₂, hseq₂⟩ := hmono p₂ t₂' h₂
    exact h.inj p₁ p₂ t₁ t₂ ht₁ ht₂ (by rw [← hseq₁, ← hseq₂, heq])
  · intro p t' ht'
    obtain ⟨t, ht, -⟩ := hmono p t' ht'
    exact h.bound p t ht

theorem delete (h : Numbered heap n) (p : Nat) : Numbered (Function.update heap p none) n := by
  refine h.mono ?_
  intro p' t' ht'
  rcases of_update ht' with ⟨-, hx⟩ | ⟨-, hx⟩
  · cases hx
  · exact ⟨t', hx, rfl⟩

theorem renew (h : Numbered heap n) (ht : heap p = some t) {t' : Timer}
    (hseq : t'.sequence_ = t.sequence_) : Numbered (Function.update heap p (some t')) n := by
  refine h.mono ?_
  intro p₁ t₁ ht₁
  rcases of_update ht₁ with ⟨rfl, hx⟩ | ⟨-, hx⟩
  · obtain rfl := Option.some.inj hx
    exact ⟨t, ht, hseq⟩
  · exact ⟨t₁, hx, rfl⟩

theorem create (h : Numbered heap n) (hp : p < UINTPTR_MAX) (hseq : t.sequence_ = n + 1) :
    Numbered (Function.update heap p (some t)) (n + 1) := by
  constructor
  · intro p' t' ht'
    rcases of_update ht' with ⟨-, hx⟩ | ⟨-, hx⟩
    · rw [← Option.some.inj hx, hseq]
    · exact (h.le p' t' hx).trans (Nat.le_succ n)
  · intro p₁ p₂ t₁ t₂ h₁ h₂ heq
    rcases of_update h₁ with ⟨rfl, hx₁⟩ | ⟨-, hx₁⟩
    · rcases of_update h₂ with ⟨rfl, -⟩ | ⟨-, hx₂⟩
      · rfl
      · have hle := h.le p₂ t₂ hx₂
        rw [← heq, ← Option.some.inj hx₁, hseq] at hle
        omega
    · rcases of_update h₂ with ⟨rfl, hx₂⟩ | ⟨-, hx₂⟩
      · have hle := h.le p₁ t₁ hx₁
        rw [heq, ← Option.some.inj hx₂, hseq] at hle
        omega
      · exact h.inj p₁ p₂ t₁ t₂ hx₁ hx₂ heq
  · intro p' t' ht'
    rcases of_update ht' with ⟨rfl, -⟩ | ⟨-, hx⟩
    · exact hp
    · exact h.bound p' t' hx

end Numbered

/-- What is held at another pointer stays. -/
theorem HoldsAt.other {batch' : List TimerEntry} {pl : Place} (h : q.HoldsAt batch p pl)
    (hheap : q'.heap p = q.heap p) (hcreated : p ∈ q'.created ↔ p ∈ q.created)
    (htimers : ∀ e, ⟨e, p⟩ ∈ q'.timers_ ↔ ⟨e, p⟩ ∈ q.timers_)
    (hactive : ∀ n, ⟨p, n⟩ ∈ q'.activeTimers_ ↔ ⟨p, n⟩ ∈ q.activeTimers_)
    (hbatch : ∀ e, ⟨e, p⟩ ∈ batch' ↔ ⟨e, p⟩ ∈ batch) : q'.HoldsAt batch' p pl := by
  constructor
  · rw [hheap, h.heap]
  · rw [hcreated, h.created]
  · intro e
    rw [htimers, hheap, h.timers]
  · intro n
    rw [hactive, hheap, h.active]
  · intro e
    rw [hbatch, hheap, h.batch]

namespace Rep

/-- Only the clock, the timerfd, the log and the control change. -/
theorem frame (h : Rep q batch place) (hheap : q'.heap = q.heap)
    (hnum : q'.s_numCreated_ = q.s_numCreated_) (hcreated : q'.created = q.created)
    (htimers : q'.timers_ = q.timers_) (hactive : q'.activeTimers_ = q.activeTimers_) :
    Rep q' batch place := by
  constructor
  · intro p
    apply (h.holds p).other
    · rw [hheap]
    · rw [hcreated]
    · rw [htimers]
      exact fun _ => Iff.rfl
    · rw [hactive]
      exact fun _ => Iff.rfl
    · exact fun _ => Iff.rfl
  · rw [hcreated]
    exact h.created_nodup
  · exact h.batch_nodup
  · rw [htimers, hactive]
    exact h.size
  · rw [hheap, hnum]
    exact h.numbered

theorem exists_timer (h : Rep q batch place) (hp : place p ≠ .free) : ∃ t, q.heap p = some t :=
  Option.ne_none_iff_exists'.mp (mt (h.holds p).heap.mp hp)

/-- A timer that waits. -/
theorem waiting (h : Rep q batch place) (hp : place p = .waiting) (ht : q.heap p = some t) :
    ⟨t.expiration_, p⟩ ∈ q.timers_ ∧ ⟨p, t.sequence_⟩ ∈ q.activeTimers_ :=
  ⟨((h.holds p).timers _).mpr ⟨hp, t, ht, rfl⟩, ((h.holds p).active _).mpr ⟨hp, t, ht, rfl⟩⟩

/-- A timer that does not wait is in neither set. -/
theorem not_waiting (h : Rep q batch place) (hp : place p ≠ .waiting) (e : Int) (n : Nat) :
    ⟨e, p⟩ ∉ q.timers_ ∧ ⟨p, n⟩ ∉ q.activeTimers_ :=
  ⟨fun hmem => hp (((h.holds p).timers e).mp hmem).1,
    fun hmem => hp (((h.holds p).active n).mp hmem).1⟩

end Rep

/-! ## The timer of one pointer moves -/

theorem mem_insert_entry {s : OrdSet TimerEntry} {e e' : Int} {p p' : Nat} (h : p' ≠ p) :
    (⟨e', p'⟩ : TimerEntry) ∈ s.insert ⟨e, p⟩ ↔ ⟨e', p'⟩ ∈ s := by
  rw [OrdSet.mem_insert, TimerEntry.mk.injEq]
  simp only [h, and_false, false_or]

theorem mem_insert_active {s : OrdSet ActiveTimer} {n n' p p' : Nat} (h : p' ≠ p) :
    (⟨p', n'⟩ : ActiveTimer) ∈ s.insert ⟨p, n⟩ ↔ ⟨p', n'⟩ ∈ s := by
  rw [OrdSet.mem_insert, ActiveTimer.mk.injEq]
  simp only [h, false_and, false_or]

theorem mem_erase_entry {s : OrdSet TimerEntry} {e e' : Int} {p p' : Nat} (h : p' ≠ p) :
    (⟨e', p'⟩ : TimerEntry) ∈ s.erase ⟨e, p⟩ ↔ ⟨e', p'⟩ ∈ s := by
  rw [OrdSet.mem_erase, ne_eq, TimerEntry.mk.injEq]
  simp only [h, and_false, not_false_eq_true, true_and]

theorem mem_erase_active {s : OrdSet ActiveTimer} {n n' p p' : Nat} (h : p' ≠ p) :
    (⟨p', n'⟩ : ActiveTimer) ∈ s.erase ⟨p, n⟩ ↔ ⟨p', n'⟩ ∈ s := by
  rw [OrdSet.mem_erase, ne_eq, ActiveTimer.mk.injEq]
  simp only [h, false_and, not_false_eq_true, true_and]

theorem notMem_of_second {e : Int} (h : p ∉ batch.map TimerEntry.second) :
    (⟨e, p⟩ : TimerEntry) ∉ batch := by
  intro hmem
  exact h (List.mem_map.mpr ⟨_, hmem, rfl⟩)

/-- A timer is in both sets from now on. -/
def inserted (q : TimerQueue) (p : Nat) (t : Timer) : TimerQueue :=
  { q with
    timers_ := q.timers_.insert ⟨t.expiration_, p⟩
    activeTimers_ := q.activeTimers_.insert ⟨p, t.sequence_⟩ }

theorem insert_eq (hsize : q.timers_.size = q.activeTimers_.size) (ht : q.heap p = some t)
    (htimers : ⟨t.expiration_, p⟩ ∉ q.timers_) (hactive : ⟨p, t.sequence_⟩ ∉ q.activeTimers_) :
    q.insert p = some (q.inserted p t, q.isEarliest t.expiration_) := by
  have hsize' : (q.inserted p t).timers_.size = (q.inserted p t).activeTimers_.size := by
    simp only [inserted, OrdSet.size_insert htimers, OrdSet.size_insert hactive, hsize]
  simp only [insert, assertSizes, hsize, ht, htimers, hactive, assert, if_true, not_false_eq_true,
    Option.pure_def, Option.bind_eq_bind, Option.bind_some]
  simp only [inserted] at hsize'
  simp only [hsize', if_true, Option.bind_some, inserted]

namespace Rep

/-- All pointers but `p` are as before. -/
theorem of_move {batch' : List TimerEntry} {pl : Place}
    (hp : q'.HoldsAt batch' p pl) (hother : ∀ p' ≠ p, q'.HoldsAt batch' p' (place p'))
    (hcreated : q'.created.Nodup) (hbatch : (batch'.map TimerEntry.second).Nodup)
    (hsize : q'.timers_.size = q'.activeTimers_.size)
    (hnum : Numbered q'.heap q'.s_numCreated_) :
    Rep q' batch' (Function.update place p pl) := by
  refine ⟨?_, hcreated, hbatch, hsize, hnum⟩
  intro p'
  by_cases hpp : p' = p
  · subst hpp
    rwa [Function.update_self]
  · rw [Function.update_of_ne hpp]
    exact hother p' hpp

theorem create (h : Rep q batch place) (hp : q.heap p = none) (hbound : p < UINTPTR_MAX)
    (when : Int) (repeat_ : Bool) (delta : Int) :
    Rep (q.newTimer p when repeat_ delta) batch (Function.update place p .created) := by
  have hfree := (h.holds p).heap.mp hp
  have hnot : p ∉ q.created := by
    rw [(h.holds p).created, hfree]
    decide
  apply of_move
  · constructor
    · simp [newTimer]
    · simp [newTimer]
    · intro e
      simpa [newTimer, hfree] using (h.holds p).timers e
    · intro n
      simpa [newTimer, hfree] using (h.holds p).active n
    · intro e
      simpa [newTimer, hfree] using (h.holds p).batch e
  · intro p' hp'
    apply (h.holds p').other
    · simp only [newTimer, Function.update_of_ne hp']
    · simp only [newTimer, List.mem_append, List.mem_singleton, hp', or_false]
    · exact fun _ => Iff.rfl
    · exact fun _ => Iff.rfl
    · exact fun _ => Iff.rfl
  · simp only [newTimer, ← List.concat_eq_append]
    exact h.created_nodup.concat hnot
  · exact h.batch_nodup
  · exact h.size
  · exact h.numbered.create hbound rfl

/-- A timer that is not in the sets gets into both, with its number. -/
theorem size_inserted (h : Rep q batch place) (hp : place p ≠ .waiting) (t : Timer) :
    (q.inserted p t).timers_.size = (q.inserted p t).activeTimers_.size := by
  obtain ⟨htimers, hactive⟩ := h.not_waiting hp t.expiration_ t.sequence_
  simp only [inserted, OrdSet.size_insert htimers, OrdSet.size_insert hactive, h.size]

theorem add (h : Rep q batch place) (hp : place p = .created) (ht : q.heap p = some t) :
    Rep ({ q with created := q.created.erase p }.inserted p t) batch
      (Function.update place p .waiting) := by
  have hnot := h.not_waiting (p := p) (by rw [hp]; decide)
  apply of_move
  · constructor
    · simp [inserted, ht]
    · simp [inserted, h.created_nodup.mem_erase_iff]
    · intro e
      simp [inserted, OrdSet.mem_insert, (hnot e 0).1, ht, eq_comm]
    · intro n
      simp [inserted, OrdSet.mem_insert, (hnot 0 n).2, ht, eq_comm]
    · intro e
      simpa [inserted, hp] using (h.holds p).batch e
  · intro p' hp'
    apply (h.holds p').other
    · rfl
    · simp only [inserted, h.created_nodup.mem_erase_iff, hp', ne_eq, not_false_eq_true, true_and]
    · intro e
      exact mem_insert_entry hp'
    · intro n
      exact mem_insert_active hp'
    · exact fun _ => Iff.rfl
  · exact h.created_nodup.erase p
  · exact h.batch_nodup
  · exact h.size_inserted (by rw [hp]; decide) t
  · exact h.numbered

/-- An expired timer gets a new expiration and waits again. -/
theorem restart {e : Int} (h : Rep q (⟨e, p⟩ :: batch) place) (ht : q.heap p = some t)
    {t' : Timer} (hseq : t'.sequence_ = t.sequence_) :
    Rep ({ q with heap := Function.update q.heap p (some t') }.inserted p t') batch
      (Function.update place p .waiting) := by
  have hp : place p = .expired := (((h.holds p).batch e).mp List.mem_cons_self).1
  obtain ⟨hout, hnodup⟩ := List.nodup_cons.mp h.batch_nodup
  have hnot := h.not_waiting (p := p) (by rw [hp]; decide)
  apply of_move
  · constructor
    · simp [inserted]
    · simpa [inserted, hp] using (h.holds p).created
    · intro e
      simp [inserted, OrdSet.mem_insert, (hnot e 0).1, eq_comm]
    · intro n
      simp [inserted, OrdSet.mem_insert, (hnot 0 n).2, eq_comm]
    · intro e'
      simp [notMem_of_second hout]
  · intro p' hp'
    apply (h.holds p').other
    · simp only [inserted, Function.update_of_ne hp']
    · exact Iff.rfl
    · intro e'
      exact mem_insert_entry hp'
    · intro n
      exact mem_insert_active hp'
    · intro e'
      simp only [List.mem_cons, TimerEntry.mk.injEq, hp', and_false, false_or]
  · exact h.created_nodup
  · exact hnodup
  · exact h.size_inserted (by rw [hp]; decide) t'
  · exact h.numbered.renew ht hseq

/-- An expired timer is deleted. -/
theorem discard {e : Int} (h : Rep q (⟨e, p⟩ :: batch) place) :
    Rep { q with heap := Function.update q.heap p none } batch (Function.update place p .free) := by
  have hp : place p = .expired := (((h.holds p).batch e).mp List.mem_cons_self).1
  obtain ⟨hout, hnodup⟩ := List.nodup_cons.mp h.batch_nodup
  apply of_move
  · constructor
    · simp
    · simpa [hp] using (h.holds p).created
    · intro e
      simpa [hp] using (h.holds p).timers e
    · intro n
      simpa [hp] using (h.holds p).active n
    · intro e'
      simp [notMem_of_second hout]
  · intro p' hp'
    apply (h.holds p').other
    · simp only [Function.update_of_ne hp']
    · exact Iff.rfl
    · exact fun _ => Iff.rfl
    · exact fun _ => Iff.rfl
    · intro e'
      simp only [List.mem_cons, TimerEntry.mk.injEq, hp', and_false, false_or]
  · exact h.created_nodup
  · exact hnodup
  · exact h.size
  · exact h.numbered.delete p

/-- A timer that waits is deleted. -/
theorem erase (h : Rep q batch place) (hp : place p = .waiting) (ht : q.heap p = some t) :
    Rep { q with
      heap := Function.update q.heap p none
      timers_ := q.timers_.erase ⟨t.expiration_, p⟩
      activeTimers_ := q.activeTimers_.erase ⟨p, t.sequence_⟩ } batch
      (Function.update place p .free) := by
  obtain ⟨htimers, hactive⟩ := h.waiting hp ht
  have hout : ∀ e, ⟨e, p⟩ ∉ q.timers_.erase ⟨t.expiration_, p⟩ := by
    intro e hmem
    obtain ⟨hne, hmem⟩ := OrdSet.mem_erase.mp hmem
    obtain ⟨-, t', ht', rfl⟩ := ((h.holds p).timers e).mp hmem
    rw [ht] at ht'
    cases ht'
    exact hne rfl
  have hout' : ∀ n, ⟨p, n⟩ ∉ q.activeTimers_.erase ⟨p, t.sequence_⟩ := by
    intro n hmem
    obtain ⟨hne, hmem⟩ := OrdSet.mem_erase.mp hmem
    obtain ⟨-, t', ht', rfl⟩ := ((h.holds p).active n).mp hmem
    rw [ht] at ht'
    cases ht'
    exact hne rfl
  apply of_move
  · constructor
    · simp
    · simpa [hp] using (h.holds p).created
    · intro e
      simp [hout]
    · intro n
      simp [hout']
    · intro e
      simpa [hp] using (h.holds p).batch e
  · intro p' hp'
    apply (h.holds p').other
    · simp only [Function.update_of_ne hp']
    · exact Iff.rfl
    · intro e
      exact mem_erase_entry hp'
    · intro n
      exact mem_erase_active hp'
    · exact fun _ => Iff.rfl
  · exact h.created_nodup
  · exact h.batch_nodup
  · have hsize := h.size
    have hsize₁ := OrdSet.size_erase htimers
    have hsize₂ := OrdSet.size_erase hactive
    change (q.timers_.erase _).size = (q.activeTimers_.erase _).size
    omega
  · exact h.numbered.delete p

end Rep

/-! ## `getExpired` -/

theorem eraseActive_spec {heap : Nat → Option Timer} {es : List TimerEntry}
    (hnodup : (es.map TimerEntry.second).Nodup) (active : OrdSet ActiveTimer)
    (hmem : ∀ it ∈ es, ∃ t, heap it.second = some t ∧ ⟨it.second, t.sequence_⟩ ∈ active)
    (huniq : ∀ p n, ⟨p, n⟩ ∈ active → ∃ t, heap p = some t ∧ t.sequence_ = n) :
    ∃ active', eraseActive heap active es = some active' ∧
      active'.size + es.length = active.size ∧
      ∀ p n, ⟨p, n⟩ ∈ active' ↔ ⟨p, n⟩ ∈ active ∧ p ∉ es.map TimerEntry.second := by
  induction es generalizing active with
  | nil => exact ⟨active, rfl, rfl, by simp⟩
  | cons it es ih =>
    obtain ⟨hout, hnodup'⟩ := List.nodup_cons.mp hnodup
    obtain ⟨t, ht, hact⟩ := hmem it List.mem_cons_self
    have hne : ∀ it' ∈ es, it'.second ≠ it.second := by
      intro it' hit' heq
      exact hout (List.mem_map.mpr ⟨it', hit', heq⟩)
    obtain ⟨active', herase, hsize, hiff⟩ :=
      ih hnodup' (active.erase ⟨it.second, t.sequence_⟩)
        (by
          intro it' hit'
          obtain ⟨t', ht', hact'⟩ := hmem it' (List.mem_cons_of_mem _ hit')
          exact ⟨t', ht', (mem_erase_active (hne it' hit')).mpr hact'⟩)
        (fun p n h => huniq p n (OrdSet.mem_erase.mp h).2)
    refine ⟨active', ?_, ?_, ?_⟩
    · simp only [eraseActive, ht, hact, assert, if_true, Option.bind_eq_bind, Option.bind_some,
        herase]
    · have hsize' := OrdSet.size_erase hact
      rw [List.length_cons]
      omega
    · intro p n
      rw [hiff, List.map_cons, List.mem_cons, not_or]
      by_cases hp : p = it.second
      · subst hp
        -- the only entry with this pointer has been erased
        have hgone : ⟨it.second, n⟩ ∉ active.erase ⟨it.second, t.sequence_⟩ := by
          intro h
          obtain ⟨hne', h'⟩ := OrdSet.mem_erase.mp h
          obtain ⟨t', ht', rfl⟩ := huniq _ _ h'
          rw [ht] at ht'
          cases ht'
          exact hne' rfl
        simp only [hgone, false_and, not_true_eq_false, and_false]
      · simp only [mem_erase_active hp, hp, not_false_eq_true, true_and]

/-- Where the timers are when those that are due have been taken out. -/
def expiredPlace (place : Nat → Place) (es : List TimerEntry) (p : Nat) : Place :=
  if p ∈ es.map TimerEntry.second then .expired else place p

/-- What is due, and what is not. -/
theorem Rep.due (h : Rep q batch place) {now : Int} {it : TimerEntry} (hit : it ∈ q.timers_) :
    it < ⟨now, UINTPTR_MAX⟩ ↔ it.first ≤ now := by
  obtain ⟨-, t, ht, -⟩ := ((h.holds it.second).timers it.first).mp hit
  have hbound := h.numbered.bound _ t ht
  rw [TimerEntry.lt_iff]
  constructor
  · rintro (hlt | ⟨heq, -⟩)
    · exact hlt.le
    · exact heq.le
  · intro hle
    rcases hle.lt_or_eq with hlt | heq
    · exact .inl hlt
    · exact .inr ⟨heq, hbound⟩

theorem Rep.getExpired (h : Rep q [] place) (now : Int) :
    ∃ active, q.getExpired now = some
      ({ q with timers_ := q.timers_.above ⟨now, UINTPTR_MAX⟩, activeTimers_ := active },
        q.timers_.below ⟨now, UINTPTR_MAX⟩) ∧
      Rep { q with timers_ := q.timers_.above ⟨now, UINTPTR_MAX⟩, activeTimers_ := active }
        (q.timers_.below ⟨now, UINTPTR_MAX⟩)
        (expiredPlace place (q.timers_.below ⟨now, UINTPTR_MAX⟩)) := by
  generalize hes : q.timers_.below ⟨now, UINTPTR_MAX⟩ = es
  have hmem : ∀ {it}, it ∈ es ↔ it ∈ q.timers_ ∧ it.first ≤ now := by
    intro it
    rw [← hes, OrdSet.mem_below]
    constructor
    · rintro ⟨hit, hlt⟩
      exact ⟨hit, (h.due hit).mp hlt⟩
    · rintro ⟨hit, hle⟩
      exact ⟨hit, (h.due hit).mpr hle⟩
  have hwait : ∀ it ∈ es, place it.second = .waiting ∧
      ∃ t, q.heap it.second = some t ∧ t.expiration_ = it.first := by
    intro it hit
    exact ((h.holds it.second).timers it.first).mp (hmem.mp hit).1
  have hnodup : (es.map TimerEntry.second).Nodup := by
    refine List.Nodup.map_on ?_ (hes ▸ q.timers_.nodup_below _)
    intro a ha b hb heq
    obtain ⟨-, t, ht, hta⟩ := hwait a ha
    obtain ⟨-, t', ht', htb⟩ := hwait b hb
    rw [heq, ht'] at ht
    cases ht
    exact TimerEntry.ext (hta.symm.trans htb) heq
  obtain ⟨active, herase, hsize, hiff⟩ := eraseActive_spec hnodup q.activeTimers_
    (by
      intro it hit
      obtain ⟨hp, t, ht, -⟩ := hwait it hit
      exact ⟨t, ht, (h.waiting hp ht).2⟩)
    (fun p n hpn => (((h.holds p).active n).mp hpn).2)
  have habove : ∀ {e p}, (⟨e, p⟩ : TimerEntry) ∈ q.timers_.above ⟨now, UINTPTR_MAX⟩ ↔
      ⟨e, p⟩ ∈ q.timers_ ∧ p ∉ es.map TimerEntry.second := by
    intro e p
    rw [OrdSet.mem_above]
    constructor
    · rintro ⟨hin, hle⟩
      refine ⟨hin, ?_⟩
      intro hp
      obtain ⟨it, hit, rfl⟩ := List.mem_map.mp hp
      obtain ⟨-, t, ht, hfirst⟩ := hwait it hit
      obtain ⟨-, t', ht', rfl⟩ := ((h.holds it.second).timers e).mp hin
      rw [ht] at ht'
      cases ht'
      have hlt := (h.due hin).mpr (hfirst.trans_le (hmem.mp hit).2)
      exact absurd hlt hle.not_gt
    · rintro ⟨hin, hout⟩
      refine ⟨hin, le_of_not_gt ?_⟩
      intro hlt
      exact notMem_of_second hout (hmem.mpr ⟨hin, (h.due hin).mp hlt⟩)
  have hsize' : (q.timers_.above ⟨now, UINTPTR_MAX⟩).size = active.size := by
    have habs := q.timers_.size_above ⟨now, UINTPTR_MAX⟩
    rw [hes] at habs
    have hs := h.size
    omega
  refine ⟨active, ?_, ?_, h.created_nodup, hnodup, hsize', h.numbered⟩
  · have hfirst : ∀ it ∈ (q.timers_.above ⟨now, UINTPTR_MAX⟩).first, now < it.first := by
      intro it hit
      obtain ⟨hin, hle⟩ := OrdSet.mem_above.mp (OrdSet.first_mem hit)
      exact lt_of_not_ge fun hge => absurd ((h.due hin).mpr hge) hle.not_gt
    simp only [TimerQueue.getExpired, assertSizes, assert, h.size, if_true, Option.bind_eq_bind,
      Option.pure_def, Option.bind_some, if_pos hfirst, hes, herase, hsize']
  · intro p
    by_cases hp : p ∈ es.map TimerEntry.second
    · obtain ⟨it, hit, rfl⟩ := List.mem_map.mp hp
      obtain ⟨hw, t, ht, hfirst⟩ := hwait it hit
      rw [expiredPlace, if_pos hp]
      constructor
      · simp [ht]
      · simpa [hw] using (h.holds it.second).created
      · intro e
        simp [habove, hp]
      · intro n
        simp [hiff, hp]
      · intro e
        constructor
        · intro he
          exact ⟨rfl, (hwait _ he).2⟩
        · rintro ⟨-, t', ht', rfl⟩
          rw [ht] at ht'
          cases ht'
          rw [hfirst]
          exact hit
    · rw [expiredPlace, if_neg hp]
      apply (h.holds p).other
      · rfl
      · exact Iff.rfl
      · intro e
        simp [habove, hp]
      · intro n
        simp [hiff, hp]
      · intro e
        simp [notMem_of_second hp]

/-! ## `addTimerInLoop` and `cancelInLoop` -/

/-- The timer waits. -/
def added (q : TimerQueue) (p : Nat) (t : Timer) : TimerQueue :=
  { q with created := q.created.erase p }.inserted p t

theorem Rep.addTimerInLoop (h : Rep q batch place) (hp : p ∈ q.created) :
    ∃ t, q.heap p = some t ∧
      q.addTimerInLoop p = some (if q.isEarliest t.expiration_ = true then
        (q.added p t).resetTimerfd t.expiration_ else q.added p t) ∧
      Rep (q.added p t) batch (Function.update place p .waiting) := by
  have hplace := (h.holds p).created.mp hp
  obtain ⟨t, ht⟩ := h.exists_timer (p := p) (by rw [hplace]; decide)
  obtain ⟨htimers, hactive⟩ := h.not_waiting (p := p) (by rw [hplace]; decide) t.expiration_
    t.sequence_
  have hinsert : { q with created := q.created.erase p }.insert p =
      some (q.added p t, q.isEarliest t.expiration_) := insert_eq h.size ht htimers hactive
  have ht' : (q.added p t).heap p = some t := ht
  refine ⟨t, ht, ?_, h.add hplace ht⟩
  simp only [TimerQueue.addTimerInLoop, hinsert, Option.bind_eq_bind, Option.bind_some, ht',
    Option.pure_def]
  split
  · rfl
  · rfl

/-- What `cancelInLoop` leaves of a timer that waits. -/
def cancelled (q : TimerQueue) (p : Nat) (t : Timer) : TimerQueue :=
  { q with
    heap := Function.update q.heap p none
    timers_ := q.timers_.erase ⟨t.expiration_, p⟩
    activeTimers_ := q.activeTimers_.erase ⟨p, t.sequence_⟩
    log := q.log ++ [.cancelInLoop ⟨p, t.sequence_⟩] }

/-- `cancelInLoop` of a timer that does not wait. -/
def parked (q : TimerQueue) (timerId : ActiveTimer) : TimerQueue :=
  { q with
    cancelingTimers_ := if q.callingExpiredTimers_ = true then q.cancelingTimers_.insert timerId
      else q.cancelingTimers_
    log := q.log ++ [.cancelInLoop timerId] }

theorem Rep.cancelInLoop_waiting (h : Rep q batch place) (hp : place p = .waiting)
    (ht : q.heap p = some t) :
    q.cancelInLoop ⟨p, t.sequence_⟩ = some (q.cancelled p t) ∧
      Rep (q.cancelled p t) batch (Function.update place p .free) := by
  obtain ⟨htimers, hactive⟩ := h.waiting hp ht
  have hrep := h.erase hp ht
  refine ⟨?_, hrep.frame rfl rfl rfl rfl rfl⟩
  simp only [TimerQueue.cancelInLoop, eraseTimer, assertSizes, delete, assert, h.size, ht, htimers,
    hactive, hrep.size, if_true, Option.bind_eq_bind, Option.bind_some, Option.pure_def,
    Option.map_some, cancelled]

theorem Rep.cancelInLoop_other (h : Rep q batch place) {timerId : ActiveTimer}
    (hout : timerId ∉ q.activeTimers_) :
    q.cancelInLoop timerId = some (q.parked timerId) ∧ Rep (q.parked timerId) batch place := by
  refine ⟨?_, h.frame rfl rfl rfl rfl rfl⟩
  simp only [TimerQueue.cancelInLoop, assertSizes, assert, h.size, hout, if_true, if_false,
    Option.bind_eq_bind, Option.bind_some, Option.pure_def, parked]
  split
  · rfl
  · rfl

/-- Either the timer waits, or nothing of it is in the sets. -/
theorem Rep.cancelInLoop_cases (h : Rep q batch place) (timerId : ActiveTimer) :
    (∃ t, place timerId.first = .waiting ∧ q.heap timerId.first = some t ∧
      timerId = ⟨timerId.first, t.sequence_⟩) ∨ timerId ∉ q.activeTimers_ := by
  by_cases hin : timerId ∈ q.activeTimers_
  · obtain ⟨hp, t, ht, hseq⟩ := ((h.holds timerId.first).active timerId.second).mp hin
    exact .inl ⟨t, hp, ht, by rw [hseq]⟩
  · exact .inr hin

/-! ## `reset` -/

/-- The timer repeats and is not to be cancelled. -/
def Repeats (q : TimerQueue) (p : Nat) (t : Timer) : Prop :=
  t.repeat_ = true ∧ ⟨p, t.sequence_⟩ ∉ q.cancelingTimers_

instance (q : TimerQueue) (p : Nat) (t : Timer) : Decidable (q.Repeats p t) :=
  inferInstanceAs (Decidable (_ ∧ _))

def restarted (q : TimerQueue) (p : Nat) (t : Timer) : TimerQueue :=
  { q with heap := Function.update q.heap p (some t) }.inserted p t

def discarded (q : TimerQueue) (p : Nat) : TimerQueue :=
  { q with heap := Function.update q.heap p none }

/-- What `reset` leaves of an expired timer. -/
def renewed (q : TimerQueue) (now : Int) (p : Nat) (t : Timer) : TimerQueue :=
  if q.Repeats p t then q.restarted p (t.restart now) else q.discarded p

theorem Rep.resetOne {it : TimerEntry} (h : Rep q (it :: batch) place) (now : Int)
    (ht : q.heap it.second = some t) :
    q.resetOne now it.second = some (q.renewed now it.second t) ∧
      ∃ place', Rep (q.renewed now it.second t) batch place' := by
  have hexp : place it.second = .expired :=
    (((h.holds it.second).batch it.first).mp List.mem_cons_self).1
  simp only [TimerQueue.resetOne, ht, Option.bind_eq_bind, Option.bind_some, Option.pure_def,
    renewed]
  by_cases hrep : q.Repeats it.second t
  · have hrep' : t.repeat_ = true ∧ ⟨it.second, t.sequence_⟩ ∉ q.cancelingTimers_ := hrep
    obtain ⟨htimers, hactive⟩ := h.not_waiting (p := it.second) (by rw [hexp]; decide)
      (t.restart now).expiration_ (t.restart now).sequence_
    have hinsert := insert_eq (q := { q with
      heap := Function.update q.heap it.second (some (t.restart now)) }) h.size
      (Function.update_self _ _ _) htimers hactive
    rw [if_pos hrep, if_pos hrep', hinsert]
    exact ⟨rfl, _, h.restart ht rfl⟩
  · have hrep' : ¬ (t.repeat_ = true ∧ ⟨it.second, t.sequence_⟩ ∉ q.cancelingTimers_) := hrep
    rw [if_neg hrep, if_neg hrep']
    refine ⟨?_, _, h.discard⟩
    simp only [delete, ht, Option.map_some, discarded]

/-- What the loop of `reset` has done when the timers of `es` are left, of those of `es₀`. -/
structure ResetFrom (q₀ : TimerQueue) (now : Int) (es₀ : List TimerEntry) (q : TimerQueue)
    (es : List TimerEntry) : Prop where
  frame : q = { q₀ with heap := q.heap, timers_ := q.timers_, activeTimers_ := q.activeTimers_ }
  left : ∀ it ∈ es, it ∈ es₀
  heap : ∀ p t', q.heap p = some t' → ∃ t, q₀.heap p = some t ∧
    if p ∈ es₀.map TimerEntry.second ∧ p ∉ es.map TimerEntry.second then
      q₀.Repeats p t ∧ t' = t.restart now
    else t' = t
  timers : ∀ e p, ⟨e, p⟩ ∈ q.timers_ → ⟨e, p⟩ ∈ q₀.timers_ ∨
    ∃ t, q₀.heap p = some t ∧ t.repeat_ = true ∧ e = now + t.delta

namespace ResetFrom

variable {q₀ : TimerQueue} {now : Int} {es₀ es : List TimerEntry} {it : TimerEntry}

theorem refl (q : TimerQueue) (now : Int) (es : List TimerEntry) :
    ResetFrom q now es q es := by
  refine ⟨rfl, fun _ h => h, ?_, fun e p h => .inl h⟩
  intro p t ht
  refine ⟨t, ht, ?_⟩
  rw [if_neg fun h => h.2 h.1]

/-- The timers that are left are as they were. -/
theorem heap_left (h : ResetFrom q₀ now es₀ q es) (hit : it ∈ es)
    (ht : q.heap it.second = some t) : q₀.heap it.second = some t := by
  obtain ⟨t₀, ht₀, hif⟩ := h.heap _ t ht
  rw [if_neg fun hp => hp.2 (List.mem_map.mpr ⟨it, hit, rfl⟩)] at hif
  rw [hif, ht₀]

theorem repeats_iff (h : ResetFrom q₀ now es₀ q es) : q.Repeats p t ↔ q₀.Repeats p t := by
  unfold Repeats
  rw [h.frame]

theorem next (h : ResetFrom q₀ now es₀ q (it :: es))
    (hnodup : ((it :: es).map TimerEntry.second).Nodup) (ht : q.heap it.second = some t) :
    ResetFrom q₀ now es₀ (q.renewed now it.second t) es := by
  obtain ⟨hout, -⟩ := List.nodup_cons.mp hnodup
  have hin : it.second ∈ es₀.map TimerEntry.second :=
    List.mem_map.mpr ⟨it, h.left it List.mem_cons_self, rfl⟩
  have ht₀ := h.heap_left List.mem_cons_self ht
  -- the other pointers
  have hother : ∀ p t', p ≠ it.second → q.heap p = some t' → ∃ t, q₀.heap p = some t ∧
      if p ∈ es₀.map TimerEntry.second ∧ p ∉ es.map TimerEntry.second then
        q₀.Repeats p t ∧ t' = t.restart now
      else t' = t := by
    intro p t' hp ht'
    have hh := h.heap p t' ht'
    simpa only [List.map_cons, List.mem_cons, hp, false_or] using hh
  unfold renewed
  by_cases hrep : q.Repeats it.second t
  · rw [if_pos hrep]
    constructor
    · rw [h.frame]
      rfl
    · exact fun it' hit' => h.left it' (List.mem_cons_of_mem _ hit')
    · intro p t' ht'
      rcases Numbered.of_update ht' with ⟨rfl, hx⟩ | ⟨hp, hx⟩
      · refine ⟨t, ht₀, ?_⟩
        rw [if_pos ⟨hin, hout⟩]
        exact ⟨h.repeats_iff.mp hrep, (Option.some.inj hx).symm⟩
      · exact hother p t' hp hx
    · intro e p hmem
      rcases OrdSet.mem_insert.mp hmem with heq | hmem
      · obtain ⟨rfl, rfl⟩ := TimerEntry.mk.inj heq
        refine .inr ⟨t, ht₀, hrep.1, ?_⟩
        simp only [Timer.restart, hrep.1, if_true]
      · exact h.timers e p hmem
  · rw [if_neg hrep]
    constructor
    · rw [h.frame]
      rfl
    · exact fun it' hit' => h.left it' (List.mem_cons_of_mem _ hit')
    · intro p t' ht'
      rcases Numbered.of_update ht' with ⟨-, hx⟩ | ⟨hp, hx⟩
      · cases hx
      · exact hother p t' hp hx
    · exact h.timers

end ResetFrom

/-- The loop of `reset` ends, and every expired timer waits again or is deleted. -/
theorem Rep.resetLoop {q₀ : TimerQueue} {now : Int} {es₀ es : List TimerEntry}
    (h : Rep q es place) (hfrom : ResetFrom q₀ now es₀ q es) :
    ∃ q' place', TimerQueue.resetLoop now q es = some q' ∧ Rep q' [] place' ∧
      ResetFrom q₀ now es₀ q' [] := by
  induction es generalizing q place with
  | nil => exact ⟨q, place, rfl, h, hfrom⟩
  | cons it es ih =>
    have hexp := (((h.holds it.second).batch it.first).mp List.mem_cons_self).2
    obtain ⟨t, ht, -⟩ := hexp
    obtain ⟨hone, place', hrep⟩ := h.resetOne now ht
    obtain ⟨q', place'', hloop, hrep', hfrom'⟩ := ih hrep (hfrom.next h.batch_nodup ht)
    refine ⟨q', place'', ?_, hrep', hfrom'⟩
    rw [TimerQueue.resetLoop, hone, Option.bind_some, hloop]

/-- The earliest expiration, or an invalid one if no timer waits. -/
def earliest (q : TimerQueue) : Int :=
  match q.timers_.first with
  | none => Timestamp.invalid
  | some it => it.first

theorem Rep.nextExpire (h : Rep q batch place) : q.nextExpire = some q.earliest := by
  unfold TimerQueue.nextExpire earliest
  cases hfirst : q.timers_.first with
  | none => rfl
  | some it =>
    obtain ⟨-, t, ht, hexp⟩ := ((h.holds it.second).timers it.first).mp (OrdSet.first_mem hfirst)
    simp only [ht, Option.map_some, hexp]

/-- The timerfd is armed for the earliest expiration, if this is valid. -/
def rearmed (q : TimerQueue) : TimerQueue :=
  if Timestamp.valid q.earliest = true then q.resetTimerfd q.earliest else q

theorem Rep.reset {es : List TimerEntry} (h : Rep q es place) (now : Int) :
    ∃ q' place', q.reset es now = some q'.rearmed ∧ Rep q' [] place' ∧
      ResetFrom q now es q' [] := by
  obtain ⟨q', place', hloop, hrep, hfrom⟩ := h.resetLoop (ResetFrom.refl q now es)
  refine ⟨q', place', ?_, hrep, hfrom⟩
  simp only [TimerQueue.reset, hloop, hrep.nextExpire, Option.bind_eq_bind, Option.bind_some,
    Option.pure_def, rearmed]
  split
  · rfl
  · rfl

end Mmvx.Net.TimerQueue
