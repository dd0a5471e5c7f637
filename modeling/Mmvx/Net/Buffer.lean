/-
  `muduo::net::Buffer` (muduo/net/Buffer.h).

  One vector holds prependable, readable and writable bytes in that order; this repository adds
  `decryptIndex_`, the end of the part that `ProtobufCodec::decryptBuffer` has decrypted.
  The bounds `readerIndex_ ≤ writerIndex_ ≤ buffer_.size()` are fields. `decryptIndex_` has no
  such bound in the source (`retrieve` moves `readerIndex_` past it), so it is an integer: the
  `size_t` in memory is its residue, and a negative difference is a huge `size_t`.

  Each operation has a lemma on `readable` (the content) and one on `decryptedBytes`; later
  modules use those and do not unfold the operations.
-/
import Mmvx.Lib.BigEndian

namespace Mmvx.Net

open Mmvx.Lib

def kCheapPrepend : Nat := 8

def kInitialSize : Nat := 1024

/-- `std::copy(d, d+len, begin()+pos)` on the vector's bytes. -/
def splice (l : List UInt8) (pos : Nat) (d : List UInt8) : List UInt8 :=
  l.take pos ++ d ++ l.drop (pos + d.length)

/-- `std::vector<char>::resize`. -/
def resize (l : List UInt8) (n : Nat) : List UInt8 :=
  l.take n ++ List.replicate (n - l.length) 0

theorem length_splice {l d : List UInt8} {pos : Nat} (h : pos + d.length ≤ l.length) :
    (splice l pos d).length = l.length := by
  simp only [splice, List.length_append, List.length_take, List.length_drop]
  omega

theorem length_resize (l : List UInt8) (n : Nat) : (resize l n).length = n := by
  simp only [resize, List.length_append, List.length_take, List.length_replicate]
  omega

theorem getElem?_splice {l d : List UInt8} {pos : Nat} (h : pos + d.length ≤ l.length) (i : Nat) :
    (splice l pos d)[i]? =
      if i < pos then l[i]? else if i < pos + d.length then d[i - pos]? else l[i]? := by
  have ht : (l.take pos).length = pos := by simp only [List.length_take]; omega
  rw [splice, List.append_assoc]
  split
  · rw [List.getElem?_append_left (by omega), List.getElem?_take_of_lt (by omega)]
  · rw [List.getElem?_append_right (by omega), ht]
    split
    · rw [List.getElem?_append_left (by omega)]
    · rw [List.getElem?_append_right (by omega), List.getElem?_drop]
      congr 1
      omega

/-- A write inside a window of the vector is a write inside the window's bytes. -/
theorem take_drop_splice {l d : List UInt8} {r k n : Nat} (hd : k + d.length ≤ n)
    (hl : r + n ≤ l.length) :
    ((splice l (r + k) d).drop r).take n = splice ((l.drop r).take n) k d := by
  have hn : ((l.drop r).take n).length = n := by
    simp only [List.length_take, List.length_drop]; omega
  apply List.ext_getElem?
  intro i
  rw [getElem?_splice (by omega), List.getElem?_take, List.getElem?_take, List.getElem?_drop,
    List.getElem?_drop, getElem?_splice (by omega)]
  by_cases hi : i < n
  · by_cases hk : i < k
    · simp [hi, hk]
    · by_cases hkd : i < k + d.length
      · have : r + i - (r + k) = i - k := by omega
        simp [hi, hk, hkd, this, show r + i < r + k + d.length by omega]
      · simp [hi, hk, hkd, show ¬ r + i < r + k + d.length by omega]
  · simp [hi, show ¬ i < k by omega, show ¬ i < k + d.length by omega]

/-- `sockets::hostToNetwork32` and a copy of the four bytes. -/
def int32Bytes (x : Int) : List UInt8 :=
  beBytes 4 (x % 2 ^ 32).toNat

structure Buffer where
  buffer_ : List UInt8
  readerIndex_ : Nat
  writerIndex_ : Nat
  decryptIndex_ : Int
  reader_le : readerIndex_ ≤ writerIndex_
  writer_le : writerIndex_ ≤ buffer_.length
  cheap_le : kCheapPrepend ≤ buffer_.length
  deriving DecidableEq

namespace Buffer

/-- `Buffer(size_t initialSize)`. -/
def ofSize (initialSize : Nat) : Buffer where
  buffer_ := List.replicate (kCheapPrepend + initialSize) 0
  readerIndex_ := kCheapPrepend
  writerIndex_ := kCheapPrepend
  decryptIndex_ := kCheapPrepend
  reader_le := Nat.le_refl _
  writer_le := by simp
  cheap_le := by simp

/-- `Buffer()`. -/
def empty : Buffer := ofSize kInitialSize

def readableBytes (b : Buffer) : Nat := b.writerIndex_ - b.readerIndex_

def writableBytes (b : Buffer) : Nat := b.buffer_.length - b.writerIndex_

def prependableBytes (b : Buffer) : Nat := b.readerIndex_

def decryptedBytes (b : Buffer) : Int := b.decryptIndex_ - b.readerIndex_

def unDecryptedBytes (b : Buffer) : Int := b.writerIndex_ - b.decryptIndex_

/-- The content: the `readableBytes()` bytes at `peek()`. -/
def readable (b : Buffer) : List UInt8 :=
  (b.buffer_.drop b.readerIndex_).take b.readableBytes

def retrieveAll (b : Buffer) : Buffer where
  buffer_ := b.buffer_
  readerIndex_ := kCheapPrepend
  writerIndex_ := kCheapPrepend
  decryptIndex_ := kCheapPrepend
  reader_le := Nat.le_refl _
  writer_le := b.cheap_le
  cheap_le := b.cheap_le

def retrieve (b : Buffer) (len : Nat) : Buffer :=
  if h : len < b.readableBytes then
    { b with
      readerIndex_ := b.readerIndex_ + len
      reader_le := by unfold readableBytes at h; omega }
  else b.retrieveAll

theorem cheap_le_splice_readable (b : Buffer)
    (hfit : kCheapPrepend + b.readable.length ≤ b.buffer_.length) :
    kCheapPrepend ≤ (splice b.buffer_ kCheapPrepend b.readable).length := by
  rw [length_splice hfit]
  exact b.cheap_le

/-- Grow the vector, or move the content to the front when there is room. The only caller,
    `ensureWritableBytes`, has checked `hlen`. -/
def makeSpace (b : Buffer) (len : Nat) (hlen : b.writableBytes < len) : Buffer :=
  if h : b.writableBytes + b.prependableBytes < len + kCheapPrepend then
    { b with
      buffer_ := resize b.buffer_ (b.writerIndex_ + len)
      writer_le := by rw [length_resize]; omega
      cheap_le := by
        have := b.cheap_le
        unfold writableBytes at hlen
        rw [length_resize]; omega }
  else
    have hfit : kCheapPrepend + b.readable.length ≤ b.buffer_.length := by
      have := b.writer_le
      have := b.reader_le
      unfold writableBytes prependableBytes at h
      simp only [readable, readableBytes, List.length_take, List.length_drop]; omega
    { buffer_ := splice b.buffer_ kCheapPrepend b.readable
      readerIndex_ := kCheapPrepend
      writerIndex_ := kCheapPrepend + b.readableBytes
      decryptIndex_ := kCheapPrepend + b.decryptedBytes
      reader_le := by omega
      writer_le := by
        have := b.writer_le
        have := b.reader_le
        rw [length_splice hfit]
        simp only [readable, readableBytes, List.length_take, List.length_drop] at hfit ⊢; omega
      cheap_le := b.cheap_le_splice_readable hfit }

def ensureWritableBytes (b : Buffer) (len : Nat) : Buffer :=
  if h : b.writableBytes < len then b.makeSpace len h else b

theorem length_readable (b : Buffer) : b.readable.length = b.readableBytes := by
  have := b.writer_le
  simp only [readable, readableBytes, List.length_take, List.length_drop]
  omega

theorem readable_makeSpace (b : Buffer) (len : Nat) (hlen : b.writableBytes < len) :
    (b.makeSpace len hlen).readable = b.readable := by
  have hw := b.writer_le
  have hr := b.reader_le
  unfold makeSpace
  split
  · simp only [readable, readableBytes, resize]
    rw [List.drop_append, List.take_append, List.drop_take, List.take_take]
    simp only [List.length_take, List.length_drop]
    have h1 : min (b.writerIndex_ - b.readerIndex_) (b.writerIndex_ + len - b.readerIndex_) =
        b.writerIndex_ - b.readerIndex_ := by omega
    have h2 : b.writerIndex_ - b.readerIndex_ -
        min (b.writerIndex_ + len - b.readerIndex_) (b.buffer_.length - b.readerIndex_) = 0 := by
      omega
    rw [h1, h2, List.take_zero, List.append_nil]
  · have hlen := b.length_readable
    have hc : (b.buffer_.take kCheapPrepend).length = kCheapPrepend := by
      have := b.cheap_le
      simp only [List.length_take]; omega
    show ((splice b.buffer_ kCheapPrepend b.readable).drop kCheapPrepend).take
      (kCheapPrepend + b.readableBytes - kCheapPrepend) = b.readable
    rw [splice, List.append_assoc, List.drop_append_of_le_length (by omega),
      List.drop_eq_nil_of_le (by omega), List.nil_append,
      List.take_append_of_le_length (by omega), List.take_of_length_le (by omega)]

theorem readable_ensureWritableBytes (b : Buffer) (len : Nat) :
    (b.ensureWritableBytes len).readable = b.readable := by
  unfold ensureWritableBytes
  split
  · exact readable_makeSpace b len _
  · rfl

/-- Content that starts at or behind `kCheapPrepend` keeps doing so. -/
theorem cheap_le_readerIndex_ensureWritableBytes (b : Buffer) (len : Nat)
    (h : kCheapPrepend ≤ b.readerIndex_) :
    kCheapPrepend ≤ (b.ensureWritableBytes len).readerIndex_ := by
  unfold ensureWritableBytes makeSpace
  split
  · split
    · exact h
    · exact Nat.le_refl _
  · exact h

theorem decryptedBytes_ensureWritableBytes (b : Buffer) (len : Nat) :
    (b.ensureWritableBytes len).decryptedBytes = b.decryptedBytes := by
  unfold ensureWritableBytes makeSpace
  split
  · split
    · rfl
    · simp only [decryptedBytes]; omega
  · rfl

/-- The assertion at the end of `ensureWritableBytes`. -/
theorem le_writableBytes_ensureWritableBytes (b : Buffer) (len : Nat) :
    len ≤ (b.ensureWritableBytes len).writableBytes := by
  have hw := b.writer_le
  have hr := b.reader_le
  unfold ensureWritableBytes
  split
  · unfold makeSpace
    split
    · simp only [writableBytes, length_resize]; omega
    · rename_i hlt hge
      have hlen := b.length_readable
      unfold writableBytes prependableBytes at hge
      unfold readableBytes at hlen
      simp only [writableBytes, readableBytes]
      rw [length_splice (by omega)]
      omega
  · omega

/-- `std::copy(data, data+len, beginWrite())` and `hasWritten(len)`. -/
def writeTail (b : Buffer) (data : List UInt8) (h : data.length ≤ b.writableBytes) : Buffer :=
  have hroom : b.writerIndex_ + data.length ≤ b.buffer_.length := by
    have := b.writer_le
    unfold writableBytes at h
    omega
  { b with
    buffer_ := splice b.buffer_ b.writerIndex_ data
    writerIndex_ := b.writerIndex_ + data.length
    reader_le := Nat.le_add_right_of_le b.reader_le
    writer_le := by rw [length_splice hroom]; exact hroom
    cheap_le := by rw [length_splice hroom]; exact b.cheap_le }

def append (b : Buffer) (data : List UInt8) : Buffer :=
  (b.ensureWritableBytes data.length).writeTail data
    (b.le_writableBytes_ensureWritableBytes data.length)

/-- `prepend`; `none` where its assertion `len <= prependableBytes()` fails. -/
def prepend (b : Buffer) (data : List UInt8) : Option Buffer :=
  if h : data.length ≤ b.prependableBytes then
    have hfit : b.readerIndex_ - data.length + data.length ≤ b.buffer_.length := by
      have := b.writer_le
      have := b.reader_le
      unfold prependableBytes at h
      omega
    some
      { b with
        buffer_ := splice b.buffer_ (b.readerIndex_ - data.length) data
        readerIndex_ := b.readerIndex_ - data.length
        reader_le := Nat.le_trans (Nat.sub_le _ _) b.reader_le
        writer_le := by rw [length_splice hfit]; exact b.writer_le
        cheap_le := by rw [length_splice hfit]; exact b.cheap_le }
  else none

/-- The `len` bytes at `begin() + pos`; `none` outside the vector. -/
def readAt (b : Buffer) (pos : Int) (len : Nat) : Option (List UInt8) :=
  if 0 ≤ pos ∧ pos.toNat + len ≤ b.buffer_.length then
    some ((b.buffer_.drop pos.toNat).take len)
  else none

/-- A write of `d` through `begin() + pos`; `none` outside the vector. -/
def writeAt (b : Buffer) (pos : Int) (d : List UInt8) : Option Buffer :=
  if h : 0 ≤ pos ∧ pos.toNat + d.length ≤ b.buffer_.length then
    some
      { b with
        buffer_ := splice b.buffer_ pos.toNat d
        writer_le := by rw [length_splice h.2]; exact b.writer_le
        cheap_le := by rw [length_splice h.2]; exact b.cheap_le }
  else none

def beginDecrypt (b : Buffer) : Int := b.decryptIndex_

def beginEncrypt (b : Buffer) : Int := b.readerIndex_

def hasDecrypt (b : Buffer) (len : Nat) : Buffer :=
  { b with decryptIndex_ := b.decryptIndex_ + len }

def appendInt32 (b : Buffer) (x : Int) : Buffer :=
  b.append (int32Bytes x)

def peekInt32 (b : Buffer) : Int :=
  toSigned 32 (beNat (b.readable.take 4))

/-! ## The content and the decrypted part after each operation -/

theorem readable_empty : empty.readable = [] := by decide

theorem decryptedBytes_empty : empty.decryptedBytes = 0 := by decide

theorem unDecryptedBytes_eq (b : Buffer) :
    b.unDecryptedBytes = b.readable.length - b.decryptedBytes := by
  have := b.reader_le
  rw [length_readable]
  simp only [unDecryptedBytes, decryptedBytes, readableBytes]
  omega

theorem readable_writeTail (b : Buffer) (data : List UInt8) (h : data.length ≤ b.writableBytes) :
    (b.writeTail data h).readable = b.readable ++ data := by
  have hw := b.writer_le
  have hr := b.reader_le
  unfold writableBytes at h
  have htake : (b.buffer_.take b.writerIndex_).length = b.writerIndex_ := by
    simp only [List.length_take]; omega
  have hdrop : ((b.buffer_.take b.writerIndex_).drop b.readerIndex_).length =
      b.writerIndex_ - b.readerIndex_ := by
    simp only [List.length_drop, htake]
  simp only [readable, readableBytes, writeTail, splice]
  rw [List.append_assoc, List.drop_append_of_le_length (by omega), ← List.append_assoc,
    List.take_append_of_le_length (by simp only [List.length_append, hdrop]; omega),
    List.take_of_length_le (by simp only [List.length_append, hdrop]; omega), List.drop_take]

theorem readable_append (b : Buffer) (data : List UInt8) :
    (b.append data).readable = b.readable ++ data := by
  rw [append, readable_writeTail, readable_ensureWritableBytes]

theorem cheap_le_prependableBytes_append (b : Buffer) (data : List UInt8)
    (h : kCheapPrepend ≤ b.prependableBytes) :
    kCheapPrepend ≤ (b.append data).prependableBytes :=
  cheap_le_readerIndex_ensureWritableBytes b data.length h

theorem decryptedBytes_append (b : Buffer) (data : List UInt8) :
    (b.append data).decryptedBytes = b.decryptedBytes := by
  rw [← decryptedBytes_ensureWritableBytes b data.length]
  rfl

theorem readable_retrieveAll (b : Buffer) : b.retrieveAll.readable = [] := by
  simp [readable, readableBytes, retrieveAll]

theorem readable_retrieve (b : Buffer) (len : Nat) :
    (b.retrieve len).readable = b.readable.drop len := by
  have hw := b.writer_le
  unfold retrieve
  split
  · simp only [readable, readableBytes]
    rw [List.drop_take, List.drop_drop]
    congr 1
    omega
  · rename_i h
    rw [readable_retrieveAll, List.drop_eq_nil_of_le (by rw [length_readable]; omega)]

theorem decryptedBytes_retrieve_of_le (b : Buffer) {len : Nat} (h : b.readableBytes ≤ len) :
    (b.retrieve len).decryptedBytes = 0 := by
  simp [retrieve, Nat.not_lt.mpr h, decryptedBytes, retrieveAll]

theorem readable_hasDecrypt (b : Buffer) (len : Nat) : (b.hasDecrypt len).readable = b.readable :=
  rfl

theorem decryptedBytes_hasDecrypt (b : Buffer) (len : Nat) :
    (b.hasDecrypt len).decryptedBytes = b.decryptedBytes + len := by
  simp only [hasDecrypt, decryptedBytes]
  omega

/-- A read inside the content. -/
theorem readAt_eq (b : Buffer) {pos : Int} {k len : Nat} (hpos : pos = b.readerIndex_ + k)
    (h : k + len ≤ b.readable.length) : b.readAt pos len = some ((b.readable.drop k).take len) := by
  have hw := b.writer_le
  have hr := b.reader_le
  rw [length_readable, readableBytes] at h
  have ht : pos.toNat = b.readerIndex_ + k := by omega
  unfold readAt
  rw [if_pos ⟨by omega, by omega⟩, ht]
  simp only [readable, readableBytes]
  rw [List.drop_take, List.drop_drop, List.take_take, Nat.min_eq_left (by omega)]

/-- A write inside the content. -/
theorem writeAt_eq (b : Buffer) {pos : Int} {k : Nat} {d : List UInt8}
    (hpos : pos = b.readerIndex_ + k) (h : k + d.length ≤ b.readable.length) :
    ∃ c, b.writeAt pos d = some c ∧ c.readable = splice b.readable k d ∧
      c.readerIndex_ = b.readerIndex_ ∧ c.decryptIndex_ = b.decryptIndex_ := by
  have hw := b.writer_le
  have hr := b.reader_le
  rw [length_readable, readableBytes] at h
  have ht : pos.toNat = b.readerIndex_ + k := by omega
  unfold writeAt
  rw [dif_pos ⟨by omega, by omega⟩]
  refine ⟨_, rfl, ?_, rfl, rfl⟩
  simp only [readable, readableBytes, ht]
  exact take_drop_splice h (by omega)

/-- `prepend` inside the prependable bytes puts the data before the content. -/
theorem readable_prepend (b : Buffer) {data : List UInt8} (h : data.length ≤ b.prependableBytes) :
    ∃ c, b.prepend data = some c ∧ c.readable = data ++ b.readable := by
  have hw := b.writer_le
  have hr := b.reader_le
  unfold prepend
  rw [dif_pos h]
  refine ⟨_, rfl, ?_⟩
  unfold prependableBytes at h
  have htake : (b.buffer_.take (b.readerIndex_ - data.length)).length =
      b.readerIndex_ - data.length := by
    simp only [List.length_take]; omega
  have hR : b.readerIndex_ - data.length + data.length = b.readerIndex_ := by omega
  simp only [readable, readableBytes, splice]
  rw [List.append_assoc, List.drop_append_of_le_length (by omega),
    List.drop_eq_nil_of_le (by omega), List.nil_append, hR, List.take_append,
    List.take_of_length_le (by omega)]
  congr 2
  omega

end Buffer

end Mmvx.Net
