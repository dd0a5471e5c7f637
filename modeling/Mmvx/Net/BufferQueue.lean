/-
  `Buffer` as a byte queue.

  Any buffers, any calls that meet their preconditions, in any order: the content of every buffer is
  the byte queue it stands for, exactly as long as the sizes that the code computes are right
  (`buffer_refines_queue_iff`). They are wrong where a vector would have to grow beyond what a vector
  can be, and where `shrink` is called on `INT_MAX` bytes of content or more: `toStringPiece` cuts
  their number to an `int`, and the end of the content is lost (`shrink_loses_content`).
-/
import Mmvx.Net.BufferOps

namespace Mmvx.Net

open Mmvx.Lib

namespace Buffers

variable {ι : Type} {s s' : Buffers ι}

/-- No call has gone wrong, the contents are the queues, and the indices are inside the vectors. -/
def Refines (s : Buffers ι) : Prop :=
  s.fault = none ∧ ∀ i, (s.bufs i).readable = s.queues i ∧
    (s.bufs i).readerIndex_ ≤ (s.bufs i).writerIndex_ ∧
    (s.bufs i).writerIndex_ ≤ (s.bufs i).buffer_.length

theorem refines_iff : s.Refines ↔ s.fault = none ∧ ∀ i, (s.bufs i).readable = s.queues i := by
  constructor
  · rintro ⟨hfault, h⟩
    exact ⟨hfault, fun i => (h i).1⟩
  · rintro ⟨hfault, h⟩
    exact ⟨hfault, fun i => ⟨h i, (s.bufs i).reader_le, (s.bufs i).writer_le⟩⟩

theorem refines_start (bufs : ι → Buffer) : (start bufs).Refines :=
  refines_iff.mpr ⟨rfl, fun _ => rfl⟩

variable [DecidableEq ι]

theorem Refines.step_iff (h : s.Refines) (hs : s.Sized) {a : BufferAction ι}
    (ha : s.step a = some s') : s'.Refines ↔ s.Fits a := by
  rw [refines_iff] at h ⊢
  cases a with
  | on i op =>
    obtain ⟨hfits, c, -, hread, -, -, rfl⟩ | ⟨hfits, e, rfl⟩ | ⟨hfits, reserve, c, rfl, hread, -, -, rfl⟩ :=
      step_on hs ha
    · refine iff_of_true ⟨h.1, ?_⟩ hfits
      intro k
      dsimp only
      rw [Function.update_apply, Function.update_apply]
      split
      · rw [hread, h.2 i]
      · exact h.2 k
    · refine iff_of_false ?_ hfits
      rintro ⟨hfault, -⟩
      cases hfault
    · refine iff_of_false ?_ hfits
      rintro ⟨-, hall⟩
      have hi := hall i
      dsimp only at hi
      rw [Function.update_self, Function.update_self, BufferOp.queue, ← h.2 i] at hi
      rw [hi] at hread
      exact Nat.lt_irrefl _ hread
  | swap i j =>
    refine iff_of_true ?_ trivial
    rw [step_swap ha]
    exact ⟨h.1, fun k => h.2 _⟩

/-- The assertion at the end of `ensureWritableBytes`. -/
theorem le_writableBytes_step (hs : s.Sized) {i : ι} {len : UInt64}
    (ha : s.step (.on i (.ensureWritableBytes len)) = some s') (hfault : s'.fault = none) :
    len.toNat ≤ (s'.bufs i).writableBytes := by
  obtain ⟨hfits, c, hc, -, -, -, rfl⟩ | ⟨-, e, rfl⟩ | ⟨-, reserve, c, hop, -⟩ := step_on hs ha
  · dsimp only
    rw [Function.update_self]
    have hok := Buffer.ensureWritableBytesT_eq (hs i) hfits
    rw [← Except.ok.inj (hok.symm.trans hc)]
    exact Buffer.le_writableBytes_ensureWritableBytes _ _
  · cases hfault
  · cases hop

theorem exists_step (hfault : s.fault = none) {i : ι} {op : BufferOp}
    (hpre : op.pre (s.bufs i) = true) : ∃ s', s.step (.on i op) = some s' := by
  rw [step, if_pos ⟨hfault, hpre⟩]
  split <;> exact ⟨_, rfl⟩

theorem sized_run {bufs : ι → Buffer} (hsize : ∀ i, (bufs i).buffer_.length ≤ maxSize)
    {actions : List (BufferAction ι)} (h : run step (start bufs) actions = some s) : s.Sized :=
  (reaches_runFrom h).invariant (P := Sized) hsize fun _ _ _ hs _ ha => hs.step ha

end Buffers

open Buffers

/-- **`Buffer` refines a byte queue** exactly as long as its sizes are right: in every run of calls
    that meet their preconditions, no call goes wrong and the contents are the queues in every state
    if and only if every call fits. `ensureWritableBytes(len)` makes at least `len` bytes writable
    whenever it does not go wrong. -/
theorem buffer_refines_queue_iff {ι : Type} [DecidableEq ι] (bufs : ι → Buffer)
    (hsize : ∀ i, (bufs i).buffer_.length ≤ maxSize) (actions : List (BufferAction ι)) :
    ((∀ n s, run Buffers.step (start bufs) (actions.take n) = some s → s.Refines) ↔
      ∀ n a s s', actions[n]? = some a → run Buffers.step (start bufs) (actions.take n) = some s →
        s.step a = some s' → s.Fits a) ∧
    ∀ n i len s s', actions[n]? = some (.on i (.ensureWritableBytes len)) →
      run Buffers.step (start bufs) (actions.take n) = some s →
      s.step (.on i (.ensureWritableBytes len)) = some s' → s'.fault = none →
        len.toNat ≤ (s'.bufs i).writableBytes := by
  have hsized : (start bufs).Sized := hsize
  refine ⟨?_, ?_⟩
  · exact forall_states_iff (I := Sized) hsized (fun _ _ _ hs ha => hs.step ha)
      (refines_start bufs) (fun _ _ _ hs hr ha => hr.step_iff hs ha) actions
  · intro n i len s s' _ hrun ha hfault
    exact le_writableBytes_step (sized_run hsize hrun) ha hfault

/-- Three bytes are appended to a fresh buffer. -/
theorem buffer_refines_queue_iff_small :
    (∃ s, run Buffers.step (start fun _ : Unit => Buffer.empty)
      [.on () (.append [1, 2, 3])] = some s ∧ (s.bufs ()).readable = [1, 2, 3]) ∧
    ∀ n s, run Buffers.step (start fun _ : Unit => Buffer.empty)
      ([BufferAction.on () (.append [1, 2, 3])].take n) = some s → s.Refines := by
  refine ⟨exists_run _ (by decide +kernel), ?_⟩
  refine ((buffer_refines_queue_iff (fun _ : Unit => Buffer.empty) (fun _ => Buffer.length_empty)
    _).1).mpr ?_
  intro n a s s' ha hrun _
  have hroom : Buffer.empty.Fits 3 := by decide +kernel
  cases n with
  | zero =>
    rw [List.take_zero] at hrun
    rw [List.getElem?_cons_zero] at ha
    rw [← Option.some.inj ha, ← Option.some.inj hrun]
    exact hroom
  | succ n =>
    rw [List.getElem?_cons_succ, List.getElem?_nil] at ha
    cases ha

/-- More than `INT_MAX` bytes are appended to a fresh buffer, and `shrink` loses some. -/
theorem not_refines_shrink (data : List UInt8) (hlen : data.length = 2 ^ 32) :
    ∃ s, run Buffers.step (start fun _ : Unit => Buffer.empty)
      [.on () (.append data), .on () (.shrink 0)] = some s ∧ ¬ s.Refines := by
  have hsized : (start fun _ : Unit => Buffer.empty).Sized := fun _ => Buffer.length_empty
  obtain ⟨s₁, h₁⟩ : ∃ s₁, (start fun _ : Unit => Buffer.empty).step (.on () (.append data)) =
      some s₁ := by
    refine exists_step rfl ?_
    rw [BufferOp.pre, hlen]
    decide
  have hfits : (start fun _ : Unit => Buffer.empty).Fits (.on () (.append data)) := by
    refine Or.inr (Or.inr ?_)
    rw [hlen]
    decide
  have hr₁ := ((refines_start fun _ : Unit => Buffer.empty).step_iff hsized h₁).mpr hfits
  obtain ⟨s₂, h₂⟩ : ∃ s₂, s₁.step (.on () (.shrink 0)) = some s₂ := exists_step hr₁.1 rfl
  refine ⟨s₂, by simp [run, runFrom, h₁, h₂], ?_⟩
  rw [hr₁.step_iff (hsized.step h₁) h₂]
  rintro ⟨hsmall, -⟩
  have hread : (s₁.bufs ()).readable = data := by
    obtain ⟨-, c, -, hread, -, -, rfl⟩ | ⟨-, e, rfl⟩ | ⟨-, reserve, c, hop, -⟩ := step_on hsized h₁
    · dsimp only
      rw [Function.update_self, hread, BufferOp.queue, start, Buffer.readable_empty,
        List.nil_append]
    · cases hr₁.1
    · cases hop
  rw [← Buffer.length_readable, hread, hlen] at hsmall
  exact absurd hsmall (by decide)

/-- `2 ^ 32` bytes are appended to a fresh buffer, and `shrink` loses them all. -/
theorem shrink_loses_content :
    ¬ ∀ (bufs : Unit → Buffer), (∀ i, (bufs i).buffer_.length ≤ maxSize) →
      ∀ (actions : List (BufferAction Unit)) (s : Buffers Unit),
        run Buffers.step (start bufs) actions = some s → s.Refines := by
  intro h
  obtain ⟨s, hrun, hnot⟩ := not_refines_shrink (List.replicate (2 ^ 32) 0) List.length_replicate
  exact hnot (h _ (fun _ => Buffer.length_empty) _ s hrun)

end Mmvx.Net
