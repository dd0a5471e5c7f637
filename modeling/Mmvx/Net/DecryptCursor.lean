/-
  The cursor of decryption in a `Buffer`.

  `decryptIndex_` was added to mutators that know two indices only. `retrieve` can move
  `readerIndex_` past it, `unwrite` can move `writerIndex_` before it, and `shrink` copies the
  content into a fresh buffer that has decrypted nothing. Apart from these the cursor stays inside
  the content: in every run it does so, and storage is moved without a change to the two parts of a
  content, exactly as long as every call is one that keeps the cursor (`decrypt_cursor_iff`).
-/
import Mmvx.Net.BufferOps

namespace Mmvx.Net

open Mmvx.Lib

/-- `readerIndex_ <= decryptIndex_ <= writerIndex_ <= buffer_.size()`. -/
def Buffer.CursorOk (b : Buffer) : Prop :=
  b.readerIndex_ ≤ b.decryptIndex_ ∧ b.decryptIndex_ ≤ b.writerIndex_ ∧
    b.writerIndex_ ≤ b.buffer_.length

instance (b : Buffer) : Decidable b.CursorOk := inferInstanceAs (Decidable (_ ∧ _))

theorem Buffer.cursorOk_iff (b : Buffer) :
    b.CursorOk ↔ 0 ≤ b.decryptedBytes ∧ b.decryptedBytes ≤ b.readable.length := by
  have hr := b.reader_le
  have hw := b.writer_le
  rw [length_readable]
  unfold CursorOk decryptedBytes readableBytes
  omega

theorem Buffer.parts_eq_iff (b c : Buffer) : c.parts = b.parts ↔
    c.decryptedBytes = b.decryptedBytes ∧ c.readable.length = b.readable.length := by
  unfold parts
  rw [Prod.mk.injEq, unDecryptedBytes_eq, unDecryptedBytes_eq]
  omega

/-- The call leaves the cursor inside the content: `retrieve` takes decrypted bytes only or
    everything, `unwrite` takes bytes that are not decrypted, `shrink` finds nothing decrypted, and
    the sizes are right. -/
def BufferOp.KeepsCursor (b : Buffer) : BufferOp → Prop
  | .retrieve len => len.toNat ≤ b.decryptedBytes ∨ len.toNat = b.readableBytes
  | .unwrite len => len.toNat ≤ b.unDecryptedBytes
  | .shrink reserve => b.decryptedBytes = 0 ∧ (BufferOp.shrink reserve).Fits b
  | op => op.Fits b

theorem BufferOp.KeepsCursor.fits {b : Buffer} {op : BufferOp} (h : op.KeepsCursor b) :
    op.Fits b := by
  match op, h with
  | .append _, h => exact h
  | .readFd none, h => exact h
  | .readFd (some _), h => exact h
  | .retrieve _, _ => trivial
  | .retrieveAll, h => exact h
  | .unwrite _, _ => trivial
  | .prepend _, h => exact h
  | .hasDecrypt _, h => exact h
  | .ensureWritableBytes _, h => exact h
  | .shrink _, h => exact h.2

theorem BufferOp.keepsCursor_iff {b c : Buffer} {op : BufferOp}
    (hb : b.buffer_.length ≤ maxSize) (hok : b.CursorOk) (hpre : op.pre b = true)
    (hfits : op.Fits b) (hread : c.readable = op.queue b.readable)
    (hdec : c.decryptedBytes = op.decrypted b) :
    (c.CursorOk ∧ (op.movesOnly = true → c.parts = b.parts)) ↔ op.KeepsCursor b := by
  rw [Buffer.cursorOk_iff] at hok ⊢
  rw [Buffer.parts_eq_iff, hread, hdec]
  have hN := b.length_readable
  have hun := b.unDecryptedBytes_eq
  match op with
  | .append data =>
    simp only [queue, decrypted.eq_def, movesOnly, KeepsCursor, List.length_append]
    exact iff_of_true ⟨by omega, by simp⟩ hfits
  | .readFd none =>
    simp only [queue, decrypted.eq_def, movesOnly, KeepsCursor]
    exact iff_of_true ⟨by omega, by simp⟩ hfits
  | .readFd (some data) =>
    simp only [queue, decrypted.eq_def, movesOnly, KeepsCursor, List.length_append]
    exact iff_of_true ⟨by omega, by simp⟩ hfits
  | .retrieve len =>
    have hlen : len.toNat ≤ b.readableBytes := by simpa [pre] using hpre
    simp only [queue, decrypted.eq_def, movesOnly, KeepsCursor, List.length_drop]
    split <;> simp <;> omega
  | .retrieveAll =>
    simp [queue, decrypted.eq_def, movesOnly, KeepsCursor, Fits]
  | .unwrite len =>
    have hlen : len.toNat ≤ b.readableBytes := by simpa [pre] using hpre
    simp only [queue, decrypted.eq_def, movesOnly, KeepsCursor, List.length_take]
    simp
    omega
  | .prepend data =>
    simp only [queue, decrypted.eq_def, movesOnly, KeepsCursor, List.length_append]
    exact iff_of_true ⟨by omega, by simp⟩ hfits
  | .hasDecrypt len =>
    -- the difference is not negative, so the assertion means what it says
    have hs : (sizeT : Int) = 18446744073709551616 := rfl
    have hx : maxSize = 9223372036854775807 := rfl
    have hw := b.writer_le
    have hlen : (len.toNat : Int) ≤ b.unDecryptedBytes % (sizeT : Nat) := by
      simpa [pre] using hpre
    have hsmall : b.unDecryptedBytes < (sizeT : Nat) := by
      rw [hun, hN, Buffer.readableBytes]
      omega
    rw [Int.emod_eq_of_lt (by omega) hsmall] at hlen
    simp only [queue, decrypted.eq_def, movesOnly, KeepsCursor]
    exact iff_of_true ⟨by omega, by simp⟩ hfits
  | .ensureWritableBytes len =>
    simp only [queue, decrypted.eq_def, movesOnly, KeepsCursor]
    exact iff_of_true ⟨by omega, by simp⟩ hfits
  | .shrink reserve =>
    simp only [queue, decrypted.eq_def, movesOnly, KeepsCursor]
    simp [hfits]
    omega

namespace Buffers

variable {ι : Type} {s s' : Buffers ι}

/-- No call has gone wrong, storage has been moved without a change to the parts of a content, and
    the cursors are inside the contents. -/
def CursorsOk (s : Buffers ι) : Prop :=
  s.fault = none ∧ s.kept = true ∧ ∀ i, (s.bufs i).CursorOk

def KeepsCursor (s : Buffers ι) : BufferAction ι → Prop
  | .on i op => op.KeepsCursor (s.bufs i)
  | .swap _ _ => True

variable [DecidableEq ι]

theorem CursorsOk.step_iff (h : s.CursorsOk) (hs : s.Sized) {a : BufferAction ι}
    (ha : s.step a = some s') : s'.CursorsOk ↔ s.KeepsCursor a := by
  obtain ⟨hfault, hkept, hall⟩ := h
  cases a with
  | on i op =>
    have hpre : op.pre (s.bufs i) = true := by
      rw [step] at ha
      split at ha
      · rename_i hok
        exact hok.2
      · cases ha
    obtain ⟨hfits, c, -, hread, hdec, -, rfl⟩ | ⟨hfits, e, rfl⟩ |
      ⟨hfits, reserve, c, rfl, hread, hdec, -, rfl⟩ := step_on hs ha
    · refine Iff.trans ?_ (BufferOp.keepsCursor_iff (hs i) (hall i) hpre hfits hread hdec)
      unfold CursorsOk
      simp only [hfault, hkept, true_and, Bool.true_and, Bool.or_eq_true, Bool.not_eq_true',
        decide_eq_true_eq]
      constructor
      · rintro ⟨hmoves, hall'⟩
        have hi := hall' i
        rw [Function.update_self] at hi
        refine ⟨hi, ?_⟩
        intro honly
        exact hmoves.resolve_left (by simp [honly])
      · rintro ⟨hc, hmoves⟩
        refine ⟨?_, ?_⟩
        · cases honly : op.movesOnly with
          | false => exact Or.inl rfl
          | true => exact Or.inr (hmoves honly)
        · intro k
          rw [Function.update_apply]
          split
          · exact hc
          · exact hall k
    · refine iff_of_false ?_ fun (hk : BufferOp.KeepsCursor (s.bufs i) _) => hfits hk.fits
      rintro ⟨hno, -⟩
      cases hno
    · refine iff_of_false ?_ fun (hk : BufferOp.KeepsCursor (s.bufs i) _) => hfits hk.fits
      rintro ⟨-, hk, -⟩
      simp only [hkept, BufferOp.movesOnly, Bool.true_and, Bool.not_true, Bool.false_or,
        decide_eq_true_eq, Buffer.parts_eq_iff] at hk
      omega
  | swap i j =>
    refine iff_of_true ?_ trivial
    rw [step_swap ha]
    exact ⟨hfault, hkept, fun k => hall _⟩

end Buffers

open Buffers

/-- **The decrypt cursor stays inside the content** exactly as long as every call keeps it there. In
    every run of calls that meet their preconditions: no call goes wrong,
    `readerIndex_ <= decryptIndex_ <= writerIndex_ <= buffer_.size()` in every state, and moving
    storage changes neither `decryptedBytes()` nor `unDecryptedBytes()`, if and only if no `retrieve`
    stops behind the decrypted bytes, no `unwrite` takes one of them, no `shrink` finds one, and the
    sizes are right. -/
theorem decrypt_cursor_iff {ι : Type} [DecidableEq ι] (bufs : ι → Buffer)
    (hsize : ∀ i, (bufs i).buffer_.length ≤ maxSize) (hok : ∀ i, (bufs i).CursorOk)
    (actions : List (BufferAction ι)) :
    (∀ n s, run Buffers.step (start bufs) (actions.take n) = some s → s.CursorsOk) ↔
      ∀ n a s s', actions[n]? = some a → run Buffers.step (start bufs) (actions.take n) = some s →
        s.step a = some s' → s.KeepsCursor a := by
  have hsized : (start bufs).Sized := hsize
  have hstart : (start bufs).CursorsOk := ⟨rfl, rfl, hok⟩
  exact forall_states_iff (I := Sized) hsized (fun _ _ _ hs ha => hs.step ha) hstart
    (fun _ _ _ hs h ha => h.step_iff hs ha) actions

/-- A fresh buffer gets a block that is then decrypted. -/
theorem decrypt_cursor_iff_block :
    (∃ s, run Buffers.step (start fun _ : Unit => Buffer.empty)
      [.on () (.append (List.replicate 16 0)), .on () (.hasDecrypt 16)] = some s ∧
        (s.bufs ()).decryptedBytes = 16) ∧
    ∀ n s, run Buffers.step (start fun _ : Unit => Buffer.empty)
      ([BufferAction.on () (.append (List.replicate 16 0)), .on () (.hasDecrypt 16)].take n) =
        some s → s.CursorsOk := by
  refine ⟨exists_run _ (by decide +kernel), ?_⟩
  refine (decrypt_cursor_iff (fun _ : Unit => Buffer.empty) (fun _ => Buffer.length_empty)
    (fun _ => by decide +kernel) _).mpr ?_
  intro n a s s' ha hrun _
  have hroom : Buffer.empty.Fits (List.replicate 16 (0 : UInt8)).length := by decide +kernel
  rcases n with _ | _ | n
  · rw [List.take_zero] at hrun
    rw [List.getElem?_cons_zero] at ha
    rw [← Option.some.inj ha, ← Option.some.inj hrun]
    exact hroom
  · rw [List.getElem?_cons_succ, List.getElem?_cons_zero] at ha
    rw [← Option.some.inj ha]
    trivial
  · rw [List.getElem?_cons_succ, List.getElem?_cons_succ, List.getElem?_nil] at ha
    cases ha

/-- Of 20 bytes 16 are decrypted and 18 are retrieved: `readerIndex_` is past `decryptIndex_`. -/
theorem decrypt_cursor_passed :
    ¬ ∀ (actions : List (BufferAction Unit)) (s : Buffers Unit),
      run Buffers.step (start fun _ => Buffer.empty) actions = some s → s.CursorsOk := by
  intro h
  obtain ⟨s, hrun, hpast⟩ : ∃ s, run Buffers.step (start fun _ => Buffer.empty)
      [.on () (.append (List.replicate 20 0)), .on () (.hasDecrypt 16), .on () (.retrieve 18)] =
        some s ∧ ¬ (s.bufs ()).CursorOk := exists_run _ (by decide +kernel)
  exact hpast ((h _ s hrun).2.2 ())

end Mmvx.Net
