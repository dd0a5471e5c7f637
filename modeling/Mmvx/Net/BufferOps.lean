/-
  The mutators of `Buffer` as they are called, and runs of them on any number of buffers.

  `Buffer.lean` computes with natural numbers. The code computes in `size_t`, and `toStringPiece`
  cuts the size of the content to an `int`; here the sums are taken modulo `2 ^ 64` and a call can
  fail (`Fault`). Where the sizes fit, `ensureWritableBytes` is the one of `Buffer.lean`; where they
  do not, it fails (`ensureWritableBytesT_eq`).

  A run keeps for every buffer the byte list that it stands for, and whether an operation that only
  moves storage has changed `decryptedBytes()` or `unDecryptedBytes()`.
-/
import Mathlib.Logic.Equiv.Basic
import Mmvx.Lib.Run
import Mmvx.Net.Buffer

namespace Mmvx.Net

open Mmvx.Lib

/-- The values of `size_t`. -/
def sizeT : Nat := 2 ^ 64

/-- No vector is longer: `resize` throws beyond `PTRDIFF_MAX`. -/
def maxSize : Nat := 2 ^ 63 - 1

/-- How a call goes wrong. -/
inductive Fault where
  /-- `assert(kCheapPrepend < readerIndex_)` in `makeSpace`. -/
  | makeSpace
  /-- `assert(writableBytes() >= len)` in `ensureWritableBytes`. -/
  | ensureWritable
  /-- `resize` throws. -/
  | resize
  /-- `writerIndex_` is past the end of the vector. -/
  | vector
  /-- More than the content is copied. -/
  | overread
  /-- The assertion at the head of a mutator. -/
  | assertion
  deriving DecidableEq, Repr

theorem ok_bind {α β : Type} (x : α) (f : α → Except Fault β) :
    ((Except.ok x : Except Fault α) >>= f) = f x := rfl

namespace Buffer

/-- Move the content to the front. -/
def slide (b : Buffer) (h : kCheapPrepend < b.readerIndex_) : Buffer :=
  have hfit : kCheapPrepend + b.readable.length ≤ b.buffer_.length := by
    have := b.writer_le
    have := b.reader_le
    simp only [readable, readableBytes, List.length_take, List.length_drop]; omega
  { buffer_ := splice b.buffer_ kCheapPrepend b.readable
    readerIndex_ := kCheapPrepend
    writerIndex_ := kCheapPrepend + b.readableBytes
    decryptIndex_ := kCheapPrepend + b.decryptedBytes
    reader_le := by omega
    writer_le := by rw [length_splice hfit, ← b.length_readable]; exact hfit
    cheap_le := b.cheap_le_splice_readable hfit }

theorem writableBytes_slide (b : Buffer) (h : kCheapPrepend < b.readerIndex_) :
    (b.slide h).writableBytes = b.buffer_.length - (kCheapPrepend + b.readableBytes) := by
  have hw := b.writer_le
  have hr := b.reader_le
  have hfit : kCheapPrepend + b.readable.length ≤ b.buffer_.length := by
    rw [length_readable, readableBytes]
    omega
  simp only [writableBytes, slide, length_splice hfit]

/-- `makeSpace` with its sums in `size_t`. -/
def makeSpaceT (b : Buffer) (len : Nat) : Except Fault Buffer :=
  if b.writableBytes + b.prependableBytes < (len + kCheapPrepend) % sizeT then
    let n := (b.writerIndex_ + len) % sizeT
    if n > maxSize then .error .resize
    else if h : b.writerIndex_ ≤ n ∧ kCheapPrepend ≤ n then
      .ok { b with
        buffer_ := resize b.buffer_ n
        writer_le := by rw [length_resize]; exact h.1
        cheap_le := by rw [length_resize]; exact h.2 }
    else .error .vector
  else if h : kCheapPrepend < b.readerIndex_ then .ok (b.slide h)
  else .error .makeSpace

def ensureWritableBytesT (b : Buffer) (len : Nat) : Except Fault Buffer :=
  if b.writableBytes < len then do
    let c ← b.makeSpaceT len
    if len ≤ c.writableBytes then .ok c else .error .ensureWritable
  else .ok b

/-- `append(data, len)`. -/
def appendT (b : Buffer) (data : List UInt8) : Except Fault Buffer := do
  let c ← b.ensureWritableBytesT data.length
  if h : data.length ≤ c.writableBytes then .ok (c.writeTail data h) else .error .ensureWritable

/-- As much of `data` as the writable bytes hold. -/
def fillTail (b : Buffer) (data : List UInt8) : Buffer :=
  b.writeTail (data.take b.writableBytes) (List.length_take_le _ _)

/-- `readFd` when `readv` has put `data` into the writable bytes and, what does not fit, into
    `extrabuf`. -/
def readFd (b : Buffer) (data : List UInt8) : Except Fault Buffer :=
  if data.length ≤ b.writableBytes then .ok (b.fillTail data)
  else (b.fillTail data).appendT (data.drop b.writableBytes)

/-- `unwrite`; `none` where its assertion fails. -/
def unwrite (b : Buffer) (len : Nat) : Option Buffer :=
  if h : len ≤ b.readableBytes then
    some { b with
      writerIndex_ := b.writerIndex_ - len
      reader_le := by
        have := b.reader_le
        unfold readableBytes at h
        omega
      writer_le := Nat.le_trans (Nat.sub_le _ _) b.writer_le }
  else none

/-- `toStringPiece().size()` as the `size_t` that `append` takes. -/
def pieceSize (b : Buffer) : Nat := (toSigned 32 (b.readableBytes % 2 ^ 32) % (sizeT : Nat)).toNat

def shrink (b : Buffer) (reserve : Nat) : Except Fault Buffer := do
  let other ← empty.ensureWritableBytesT ((b.readableBytes + reserve) % sizeT)
  if b.pieceSize ≤ b.readable.length then other.appendT (b.readable.take b.pieceSize)
  else .error .overread

/-! ## When the sizes fit -/

/-- There is room for `len` bytes, in place or after the content has been moved, or the vector can
    grow by them. -/
def Fits (b : Buffer) (len : Nat) : Prop :=
  len ≤ b.writableBytes ∨ len + kCheapPrepend ≤ b.writableBytes + b.prependableBytes ∨
    b.writerIndex_ + len ≤ maxSize

instance (b : Buffer) (len : Nat) : Decidable (b.Fits len) := inferInstanceAs (Decidable (_ ∨ _))

theorem makeSpaceT_eq {b : Buffer} {len : Nat} (hb : b.buffer_.length ≤ maxSize)
    (hlen : b.writableBytes < len) (h : b.Fits len) :
    b.makeSpaceT len = .ok (b.makeSpace len hlen) := by
  have hs : sizeT = 18446744073709551616 := rfl
  have hx : maxSize = 9223372036854775807 := rfl
  have hc : kCheapPrepend = 8 := rfl
  have hw := b.writer_le
  have hr := b.reader_le
  have hcheap := b.cheap_le
  have hroom : b.writableBytes + b.prependableBytes ≤ b.buffer_.length := by
    unfold writableBytes prependableBytes
    omega
  have hsum : (len + kCheapPrepend) % sizeT = len + kCheapPrepend := by
    apply Nat.mod_eq_of_lt
    rcases h with h | h | h <;> omega
  unfold makeSpaceT makeSpace
  rw [hsum]
  split
  · rename_i hgrow
    have hle : b.writerIndex_ + len ≤ maxSize := by
      rcases h with h | h | h <;> omega
    have hn : (b.writerIndex_ + len) % sizeT = b.writerIndex_ + len :=
      Nat.mod_eq_of_lt (by omega)
    unfold writableBytes at hlen
    simp only [hn]
    rw [if_neg (by omega), dif_pos ⟨by omega, by omega⟩]
  · rename_i hmove
    unfold writableBytes prependableBytes at hmove
    unfold writableBytes at hlen
    rw [dif_pos (by omega)]
    rfl

/-- Where the sizes fit, the sums in `size_t` are the sums of natural numbers. -/
theorem ensureWritableBytesT_eq {b : Buffer} {len : Nat} (hb : b.buffer_.length ≤ maxSize)
    (h : b.Fits len) : b.ensureWritableBytesT len = .ok (b.ensureWritableBytes len) := by
  have hle := b.le_writableBytes_ensureWritableBytes len
  unfold ensureWritableBytesT
  unfold ensureWritableBytes at hle ⊢
  split
  · rename_i hlen
    rw [dif_pos hlen] at hle
    rw [makeSpaceT_eq hb hlen h]
    exact if_pos hle
  · rfl

/-- Where they do not, the call goes wrong. -/
theorem ensureWritableBytesT_error {b : Buffer} {len : Nat} (hb : b.buffer_.length ≤ maxSize)
    (hlen : len < sizeT) (h : ¬ b.Fits len) : ∃ e, b.ensureWritableBytesT len = .error e := by
  have hs : sizeT = 18446744073709551616 := rfl
  have hx : maxSize = 9223372036854775807 := rfl
  have hc : kCheapPrepend = 8 := rfl
  have hw := b.writer_le
  have hr := b.reader_le
  obtain ⟨h₁, h₂, h₃⟩ : ¬ len ≤ b.writableBytes ∧
      ¬ len + kCheapPrepend ≤ b.writableBytes + b.prependableBytes ∧
      ¬ b.writerIndex_ + len ≤ maxSize := by
    simpa only [Fits, not_or] using h
  unfold ensureWritableBytesT makeSpaceT
  rw [if_pos (by omega)]
  unfold writableBytes prependableBytes at h₂
  split
  · dsimp only
    split
    · exact ⟨_, rfl⟩
    · rename_i hn
      rw [dif_neg]
      · exact ⟨_, rfl⟩
      · -- the sum is cut to `size_t`: the vector would get shorter
        rintro ⟨hle, -⟩
        rw [hs] at hlen hn hle
        omega
  · rename_i hmove
    unfold writableBytes prependableBytes at hmove
    by_cases hfront : kCheapPrepend < b.readerIndex_
    · rw [dif_pos hfront]
      refine ⟨.ensureWritable, if_neg ?_⟩
      rw [writableBytes_slide]
      rw [hs] at hlen hmove
      omega
    · rw [dif_neg hfront]
      exact ⟨_, rfl⟩

theorem length_ensureWritableBytes {b : Buffer} {len : Nat} (hb : b.buffer_.length ≤ maxSize)
    (h : b.Fits len) : (b.ensureWritableBytes len).buffer_.length ≤ maxSize := by
  have hw := b.writer_le
  have hr := b.reader_le
  unfold ensureWritableBytes makeSpace
  split
  · split
    · rename_i hgrow
      rw [length_resize]
      rcases h with h | h | h <;> omega
    · rename_i hmove
      unfold writableBytes prependableBytes at hmove
      show (splice b.buffer_ kCheapPrepend b.readable).length ≤ maxSize
      rw [length_splice (by rw [length_readable, readableBytes]; omega)]
      exact hb
  · exact hb

theorem length_writeTail (b : Buffer) (data : List UInt8) (h : data.length ≤ b.writableBytes) :
    (b.writeTail data h).buffer_.length = b.buffer_.length := by
  have hw := b.writer_le
  unfold writableBytes at h
  exact length_splice (by omega)

theorem appendT_eq {b : Buffer} {data : List UInt8} (hb : b.buffer_.length ≤ maxSize)
    (h : b.Fits data.length) : b.appendT data = .ok (b.append data) := by
  unfold appendT
  rw [ensureWritableBytesT_eq hb h]
  exact dif_pos (b.le_writableBytes_ensureWritableBytes data.length)

theorem appendT_error {b : Buffer} {data : List UInt8} (hb : b.buffer_.length ≤ maxSize)
    (hlen : data.length < sizeT) (h : ¬ b.Fits data.length) : ∃ e, b.appendT data = .error e := by
  obtain ⟨e, he⟩ := ensureWritableBytesT_error hb hlen h
  unfold appendT
  rw [he]
  exact ⟨e, rfl⟩

theorem length_append_le {b : Buffer} {data : List UInt8} (hb : b.buffer_.length ≤ maxSize)
    (h : b.Fits data.length) : (b.append data).buffer_.length ≤ maxSize := by
  unfold append
  rw [length_writeTail]
  exact length_ensureWritableBytes hb h

/-! ## `shrink` -/

theorem pieceSize_of_lt {b : Buffer} (h : b.readableBytes < 2 ^ 31) :
    b.pieceSize = b.readableBytes := by
  have hs : sizeT = 18446744073709551616 := rfl
  unfold pieceSize toSigned
  rw [Int.bmod_eq_of_le_mul_two (by omega) (by omega), hs]
  omega

/-- A size that stays inside the content is one of an `int`. -/
theorem pieceSize_lt {b : Buffer} (hb : b.buffer_.length ≤ maxSize)
    (h : b.pieceSize ≤ b.readableBytes) : b.pieceSize < 2 ^ 31 := by
  have hs : sizeT = 18446744073709551616 := rfl
  have hx : maxSize = 9223372036854775807 := rfl
  have hw := b.writer_le
  have hN : b.readableBytes ≤ maxSize := by
    unfold readableBytes
    omega
  unfold pieceSize toSigned at h ⊢
  rw [hs, Int.bmod_def] at h ⊢
  split <;> rename_i hcase
  · omega
  · rw [if_neg hcase] at h
    omega

theorem length_empty : empty.buffer_.length ≤ maxSize := by decide +kernel

/-- The fresh buffer of `shrink` has room for every piece. -/
theorem fits_other (n : Nat) {k : Nat} (hk : k < 2 ^ 31) :
    (empty.ensureWritableBytes n).Fits k := by
  have hx : maxSize = 9223372036854775807 := rfl
  have hc : kCheapPrepend = 8 := rfl
  have hwriter : (empty.ensureWritableBytes n).writerIndex_ = kCheapPrepend := by
    unfold ensureWritableBytes makeSpace
    split
    · split
      · rfl
      · rfl
    · rfl
  refine Or.inr (Or.inr ?_)
  rw [hwriter]
  omega

theorem shrink_eq {b : Buffer} {reserve : Nat}
    (h : empty.Fits ((b.readableBytes + reserve) % sizeT)) (hpiece : b.pieceSize < 2 ^ 31)
    (hle : b.pieceSize ≤ b.readableBytes) :
    ∃ c, b.shrink reserve = .ok c ∧ c.readable = b.readable.take b.pieceSize ∧
      c.decryptedBytes = 0 ∧ c.buffer_.length ≤ maxSize := by
  have hlen : (b.readable.take b.pieceSize).length < 2 ^ 31 := by
    rw [List.length_take]
    omega
  have hother := length_ensureWritableBytes length_empty h
  have hfits := fits_other ((b.readableBytes + reserve) % sizeT) hlen
  refine ⟨_, ?_, ?_, ?_, length_append_le hother hfits⟩
  · unfold shrink
    rw [ensureWritableBytesT_eq length_empty h, ← appendT_eq hother hfits, ok_bind,
      if_pos (by rw [length_readable]; exact hle)]
  · rw [readable_append, readable_ensureWritableBytes, readable_empty, List.nil_append]
  · rw [decryptedBytes_append, decryptedBytes_ensureWritableBytes, decryptedBytes_empty]

theorem shrink_error {b : Buffer} {reserve : Nat}
    (h : ¬ empty.Fits ((b.readableBytes + reserve) % sizeT) ∨ b.readableBytes < b.pieceSize) :
    ∃ e, b.shrink reserve = .error e := by
  unfold shrink
  by_cases hfits : empty.Fits ((b.readableBytes + reserve) % sizeT)
  · have hlong := h.resolve_left (not_not.mpr hfits)
    rw [ensureWritableBytesT_eq length_empty hfits, ok_bind,
      if_neg (by rw [length_readable]; omega)]
    exact ⟨.overread, rfl⟩
  · obtain ⟨e, he⟩ := ensureWritableBytesT_error length_empty
      (Nat.mod_lt _ (by decide)) hfits
    rw [he]
    exact ⟨e, rfl⟩

/-! ## The other mutators -/

theorem readable_fillTail (b : Buffer) (data : List UInt8) :
    (b.fillTail data).readable = b.readable ++ data.take b.writableBytes :=
  readable_writeTail b _ _

theorem unwrite_eq {b : Buffer} {len : Nat} (h : len ≤ b.readableBytes) :
    ∃ c, b.unwrite len = some c ∧ c.readable = b.readable.take (b.readable.length - len) ∧
      c.decryptedBytes = b.decryptedBytes ∧ c.buffer_ = b.buffer_ := by
  unfold unwrite
  rw [dif_pos h]
  refine ⟨_, rfl, ?_, rfl, rfl⟩
  have hr := b.reader_le
  rw [length_readable]
  simp only [readable, readableBytes, List.take_take]
  unfold readableBytes at h
  congr 1
  omega

theorem prepend_eq {b : Buffer} {data : List UInt8} (h : data.length ≤ b.prependableBytes) :
    ∃ c, b.prepend data = some c ∧ c.readable = data ++ b.readable ∧
      c.decryptedBytes = b.decryptedBytes + data.length ∧
      c.buffer_.length = b.buffer_.length := by
  obtain ⟨c, hc, hread⟩ := b.readable_prepend h
  refine ⟨c, hc, hread, ?_, ?_⟩
  · unfold prepend at hc
    rw [dif_pos h] at hc
    obtain rfl := Option.some.inj hc
    unfold prependableBytes at h
    simp only [decryptedBytes]
    omega
  · have hw := b.writer_le
    have hr := b.reader_le
    unfold prepend at hc
    rw [dif_pos h] at hc
    obtain rfl := Option.some.inj hc
    unfold prependableBytes at h
    exact length_splice (by omega)

/-- `retrieve` moves `readerIndex_` and leaves `decryptIndex_`, or empties the buffer. -/
theorem decryptedBytes_retrieve (b : Buffer) (len : Nat) : (b.retrieve len).decryptedBytes =
    if len < b.readableBytes then b.decryptedBytes - len else 0 := by
  unfold retrieve
  split
  · simp only [decryptedBytes]
    omega
  · simp [decryptedBytes, retrieveAll]

theorem buffer_retrieve (b : Buffer) (len : Nat) : (b.retrieve len).buffer_ = b.buffer_ := by
  unfold retrieve
  split
  · rfl
  · rfl

end Buffer

/-! ## Calls -/

/-- A call of a mutator. `retrieve` stands for all its variants; the argument of `readFd` is what
    `readv` returns, `none` for an error. -/
inductive BufferOp where
  | append (data : List UInt8)
  | readFd (result : Option (List UInt8))
  | retrieve (len : UInt64)
  | retrieveAll
  | unwrite (len : UInt64)
  | prepend (data : List UInt8)
  | hasDecrypt (len : UInt64)
  | ensureWritableBytes (len : UInt64)
  | shrink (reserve : UInt64)
  deriving DecidableEq, Repr

/-- `sizeof extrabuf`. -/
def kExtraBuf : Nat := 65536

namespace BufferOp

/-- The assertion at the head of the mutator. For `append` and `readFd` it is what the data can be:
    bytes in memory, and what the `iovec`s hold. -/
def pre (b : Buffer) : BufferOp → Bool
  | .append data => data.length < sizeT
  | .readFd (some data) =>
    data.length ≤ b.writableBytes + if b.writableBytes < kExtraBuf then kExtraBuf else 0
  | .readFd none => true
  | .retrieve len => len.toNat ≤ b.readableBytes
  | .retrieveAll => true
  | .unwrite len => len.toNat ≤ b.readableBytes
  | .prepend data => data.length ≤ b.prependableBytes
  | .hasDecrypt len => (len.toNat : Int) ≤ b.unDecryptedBytes % (sizeT : Nat)
  | .ensureWritableBytes _ => true
  | .shrink _ => true

def call (b : Buffer) : BufferOp → Except Fault Buffer
  | .append data => b.appendT data
  | .readFd (some data) => b.readFd data
  | .readFd none => .ok b
  | .retrieve len => .ok (b.retrieve len.toNat)
  | .retrieveAll => .ok b.retrieveAll
  | .unwrite len => ((b.unwrite len.toNat).map .ok).getD (.error .assertion)
  | .prepend data => ((b.prepend data).map .ok).getD (.error .assertion)
  | .hasDecrypt len => .ok (b.hasDecrypt len.toNat)
  | .ensureWritableBytes len => b.ensureWritableBytesT len.toNat
  | .shrink reserve => b.shrink reserve.toNat

/-- The call on a byte queue. -/
def queue (l : List UInt8) : BufferOp → List UInt8
  | .append data => l ++ data
  | .readFd (some data) => l ++ data
  | .readFd none => l
  | .retrieve len => l.drop len.toNat
  | .retrieveAll => []
  | .unwrite len => l.take (l.length - len.toNat)
  | .prepend data => data ++ l
  | .hasDecrypt _ => l
  | .ensureWritableBytes _ => l
  | .shrink _ => l

/-- `decryptedBytes()` after the call. -/
def decrypted (b : Buffer) : BufferOp → Int
  | .retrieve len => if len.toNat < b.readableBytes then b.decryptedBytes - len.toNat else 0
  | .retrieveAll => 0
  | .prepend data => b.decryptedBytes + data.length
  | .hasDecrypt len => b.decryptedBytes + len.toNat
  | .shrink _ => 0
  | _ => b.decryptedBytes

/-- The sizes that the call computes are right. -/
def Fits (b : Buffer) : BufferOp → Prop
  | .append data => b.Fits data.length
  | .readFd (some data) =>
    data.length ≤ b.writableBytes ∨ (b.fillTail data).Fits (data.length - b.writableBytes)
  | .ensureWritableBytes len => b.Fits len.toNat
  | .shrink reserve =>
    b.readableBytes < 2 ^ 31 ∧ Buffer.empty.Fits ((b.readableBytes + reserve.toNat) % sizeT)
  | _ => True

variable {b : Buffer} {op : BufferOp}

/-- Where the sizes are right, the call is the one on the queue. -/
theorem call_fits (hb : b.buffer_.length ≤ maxSize) (hpre : op.pre b = true) (h : op.Fits b) :
    ∃ c, op.call b = .ok c ∧ c.readable = op.queue b.readable ∧
      c.decryptedBytes = op.decrypted b ∧ c.buffer_.length ≤ maxSize := by
  match op with
  | .append data =>
    exact ⟨b.append data, Buffer.appendT_eq hb h, b.readable_append data,
      b.decryptedBytes_append data, Buffer.length_append_le hb h⟩
  | .readFd none => exact ⟨b, rfl, rfl, rfl, hb⟩
  | .readFd (some data) =>
    have hread := b.readable_fillTail data
    have hlen : (b.fillTail data).buffer_.length ≤ maxSize := by
      rw [Buffer.fillTail, Buffer.length_writeTail]
      exact hb
    by_cases hfit : data.length ≤ b.writableBytes
    · refine ⟨b.fillTail data, if_pos hfit, ?_, rfl, hlen⟩
      rw [hread, List.take_of_length_le hfit]
      rfl
    · have hrest : (b.fillTail data).Fits (data.drop b.writableBytes).length := by
        rw [List.length_drop]
        exact h.resolve_left hfit
      refine ⟨(b.fillTail data).append (data.drop b.writableBytes), ?_, ?_, ?_,
        Buffer.length_append_le hlen hrest⟩
      · exact (if_neg hfit).trans (Buffer.appendT_eq hlen hrest)
      · rw [Buffer.readable_append, hread, List.append_assoc, List.take_append_drop]
        rfl
      · rw [Buffer.decryptedBytes_append]
        rfl
  | .retrieve len =>
    refine ⟨_, rfl, b.readable_retrieve _, b.decryptedBytes_retrieve _, ?_⟩
    rw [Buffer.buffer_retrieve]
    exact hb
  | .retrieveAll =>
    have hnone : b.retrieveAll.decryptedBytes = 0 := by
      simp [Buffer.decryptedBytes, Buffer.retrieveAll]
    exact ⟨_, rfl, b.readable_retrieveAll, hnone, hb⟩
  | .unwrite len =>
    obtain ⟨c, hc, hread, hdec, hbuf⟩ := Buffer.unwrite_eq (b := b) (by simpa [pre] using hpre)
    refine ⟨c, ?_, hread, hdec, by rw [hbuf]; exact hb⟩
    rw [call, hc]
    rfl
  | .prepend data =>
    obtain ⟨c, hc, hread, hdec, hbuf⟩ := Buffer.prepend_eq (b := b) (by simpa [pre] using hpre)
    refine ⟨c, ?_, hread, hdec, by rw [hbuf]; exact hb⟩
    rw [call, hc]
    rfl
  | .hasDecrypt len => exact ⟨_, rfl, rfl, b.decryptedBytes_hasDecrypt _, hb⟩
  | .ensureWritableBytes len =>
    exact ⟨_, Buffer.ensureWritableBytesT_eq hb h, b.readable_ensureWritableBytes _,
      b.decryptedBytes_ensureWritableBytes _, Buffer.length_ensureWritableBytes hb h⟩
  | .shrink reserve =>
    have hsize := Buffer.pieceSize_of_lt h.1
    obtain ⟨c, hc, hread, hdec, hlen⟩ := Buffer.shrink_eq (b := b) h.2 (by rw [hsize]; exact h.1)
      (Nat.le_of_eq hsize)
    refine ⟨c, hc, ?_, hdec, hlen⟩
    rw [hread, hsize, ← Buffer.length_readable, List.take_length]
    rfl

/-- Where they are not, the call goes wrong, or it is a `shrink` that loses the end of the
    content. -/
theorem call_unfit (hb : b.buffer_.length ≤ maxSize) (hpre : op.pre b = true) (h : ¬ op.Fits b) :
    (∃ e, op.call b = .error e) ∨ ∃ reserve c, op = .shrink reserve ∧ op.call b = .ok c ∧
      c.readable.length < b.readable.length ∧ c.decryptedBytes = 0 ∧ c.buffer_.length ≤ maxSize := by
  match op with
  | .append data => exact Or.inl (Buffer.appendT_error hb (by simpa [pre] using hpre) h)
  | .readFd (some data) =>
    obtain ⟨hfit, hrest⟩ := not_or.mp h
    left
    have hlen : (b.fillTail data).buffer_.length ≤ maxSize := by
      rw [Buffer.fillTail, Buffer.length_writeTail]
      exact hb
    rw [← List.length_drop] at hrest
    have hshort : (data.drop b.writableBytes).length < sizeT := by
      have hs : sizeT = 18446744073709551616 := rfl
      have hk : kExtraBuf = 65536 := rfl
      have hread : data.length ≤ b.writableBytes +
          if b.writableBytes < kExtraBuf then kExtraBuf else 0 := by simpa [pre] using hpre
      rw [List.length_drop]
      split at hread <;> omega
    obtain ⟨e, he⟩ := Buffer.appendT_error hlen hshort hrest
    exact ⟨e, (if_neg hfit).trans he⟩
  | .ensureWritableBytes len =>
    exact Or.inl (Buffer.ensureWritableBytesT_error hb len.toNat_lt h)
  | .shrink reserve =>
    by_cases herr : ¬ Buffer.empty.Fits ((b.readableBytes + reserve.toNat) % sizeT) ∨
        b.readableBytes < b.pieceSize
    · exact Or.inl (Buffer.shrink_error herr)
    · obtain ⟨hfits, hle⟩ := not_or.mp herr
      have hpiece := Buffer.pieceSize_lt hb (Nat.not_lt.mp hle)
      obtain ⟨c, hc, hread, hdec, hlen⟩ := Buffer.shrink_eq (b := b) (not_not.mp hfits) hpiece
        (Nat.not_lt.mp hle)
      refine Or.inr ⟨reserve, c, rfl, hc, ?_, hdec, hlen⟩
      have hlong : ¬ b.readableBytes < 2 ^ 31 := fun hlt => h ⟨hlt, not_not.mp hfits⟩
      rw [hread, List.length_take, Buffer.length_readable]
      omega
  | .readFd none => exact absurd trivial h
  | .retrieve len => exact absurd trivial h
  | .retrieveAll => exact absurd trivial h
  | .unwrite len => exact absurd trivial h
  | .prepend data => exact absurd trivial h
  | .hasDecrypt len => exact absurd trivial h

/-- The call is there to move or reallocate storage only. -/
def movesOnly : BufferOp → Bool
  | .ensureWritableBytes _ => true
  | .shrink _ => true
  | _ => false

end BufferOp

/-! ## Runs -/

/-- `decryptedBytes()` and `unDecryptedBytes()`. -/
def Buffer.parts (b : Buffer) : Int × Int := (b.decryptedBytes, b.unDecryptedBytes)

/-- A call on one buffer, or a `swap` of two. -/
inductive BufferAction (ι : Type) where
  | on (i : ι) (op : BufferOp)
  | swap (i j : ι)
  deriving DecidableEq, Repr

/-- The buffers of a program, with the byte queues that they stand for. `kept` says that no call that
    only moves storage has changed the two parts of a content, `fault` how a call went wrong. -/
structure Buffers (ι : Type) where
  bufs : ι → Buffer
  queues : ι → List UInt8
  kept : Bool
  fault : Option Fault

namespace Buffers

variable {ι : Type}

/-- Any buffers at all. -/
def start (bufs : ι → Buffer) : Buffers ι := ⟨bufs, fun i => (bufs i).readable, true, none⟩

variable [DecidableEq ι]

/-- One call that meets its precondition; nothing is called after a fault. -/
def step (s : Buffers ι) : BufferAction ι → Option (Buffers ι)
  | .on i op =>
    if s.fault = none ∧ op.pre (s.bufs i) = true then
      match op.call (s.bufs i) with
      | .ok c => some
        { s with
          bufs := Function.update s.bufs i c
          queues := Function.update s.queues i (op.queue (s.queues i))
          kept := s.kept && (!op.movesOnly || c.parts = (s.bufs i).parts) }
      | .error e => some { s with fault := some e }
    else none
  | .swap i j =>
    if s.fault = none then
      let bufs := s.bufs ∘ Equiv.swap i j
      some
        { s with
          bufs := bufs
          queues := s.queues ∘ Equiv.swap i j
          kept := s.kept && ((bufs i).parts = (s.bufs j).parts ∧ (bufs j).parts = (s.bufs i).parts) }
    else none

/-- The sizes are those of vectors. -/
def Sized (s : Buffers ι) : Prop := ∀ i, (s.bufs i).buffer_.length ≤ maxSize

/-- The sizes that the action computes are right. -/
def Fits (s : Buffers ι) : BufferAction ι → Prop
  | .on i op => op.Fits (s.bufs i)
  | .swap _ _ => True

variable {s s' : Buffers ι}

/-- What a call does, in the three ways it can end. -/
theorem step_on (hs : s.Sized) {i : ι} {op : BufferOp} (h : s.step (.on i op) = some s') :
    (op.Fits (s.bufs i) ∧ ∃ c, op.call (s.bufs i) = .ok c ∧
      c.readable = op.queue (s.bufs i).readable ∧ c.decryptedBytes = op.decrypted (s.bufs i) ∧
      c.buffer_.length ≤ maxSize ∧ s' =
        { s with
          bufs := Function.update s.bufs i c
          queues := Function.update s.queues i (op.queue (s.queues i))
          kept := s.kept && (!op.movesOnly || c.parts = (s.bufs i).parts) }) ∨
    (¬ op.Fits (s.bufs i) ∧ ∃ e, s' = { s with fault := some e }) ∨
    (¬ op.Fits (s.bufs i) ∧ ∃ reserve c, op = .shrink reserve ∧
      c.readable.length < (s.bufs i).readable.length ∧ c.decryptedBytes = 0 ∧
      c.buffer_.length ≤ maxSize ∧ s' =
        { s with
          bufs := Function.update s.bufs i c
          queues := Function.update s.queues i (op.queue (s.queues i))
          kept := s.kept && (!op.movesOnly || c.parts = (s.bufs i).parts) }) := by
  rw [step] at h
  split at h
  · rename_i hok
    by_cases hfits : op.Fits (s.bufs i)
    · obtain ⟨c, hc, hread, hdec, hlen⟩ := BufferOp.call_fits (hs i) hok.2 hfits
      rw [hc] at h
      exact Or.inl ⟨hfits, c, hc, hread, hdec, hlen, (Option.some.inj h).symm⟩
    · obtain ⟨e, he⟩ | ⟨reserve, c, hop, hc, hread, hdec, hlen⟩ :=
        BufferOp.call_unfit (hs i) hok.2 hfits
      · rw [he] at h
        exact Or.inr (Or.inl ⟨hfits, e, (Option.some.inj h).symm⟩)
      · rw [hc] at h
        exact Or.inr (Or.inr ⟨hfits, reserve, c, hop, hread, hdec, hlen, (Option.some.inj h).symm⟩)
  · cases h

theorem step_swap {i j : ι} (h : s.step (.swap i j) = some s') :
    s' = { s with
      bufs := s.bufs ∘ Equiv.swap i j
      queues := s.queues ∘ Equiv.swap i j } := by
  rw [step] at h
  split at h
  · obtain rfl := Option.some.inj h
    simp
  · cases h

theorem Sized.step (hs : s.Sized) {a : BufferAction ι} (h : s.step a = some s') : s'.Sized := by
  intro k
  cases a with
  | on i op =>
    obtain ⟨-, c, -, -, -, hlen, rfl⟩ | ⟨-, e, rfl⟩ | ⟨-, reserve, c, -, -, -, hlen, rfl⟩ := step_on hs h
    · dsimp only
      rw [Function.update_apply]
      split
      · exact hlen
      · exact hs k
    · exact hs k
    · dsimp only
      rw [Function.update_apply]
      split
      · exact hlen
      · exact hs k
  | swap i j =>
    rw [step_swap h]
    exact hs _

end Buffers

end Mmvx.Net
