/-
  `encryptBuffer` and `decryptBuffer` on the content of a buffer.

  Both work in place and block by block, so on the content they are `onBlocks` of `Lib.Blocks`:
  `encryptBuffer_eq` transforms the padded content, `decryptBuffer_eq` the part behind
  `decryptedBytes`. A partial last block is left as it is. `onMessage_aes` puts `decryptBuffer` and
  the loop of `onMessage` together.
-/
import Mmvx.Lib.Blocks
import Mmvx.Net.PlainStream

namespace Mmvx.Net

open Mmvx.Lib

variable (pb : Protobuf)

theorem onBlock_eq (f : Block → Block) {x : List UInt8} (h : x.length = AES_BLOCK_SIZE) :
    onBlock f x = (f ⟨x, h⟩).1 := by
  rw [onBlock, dif_pos h]

theorem keepsBlocks_onBlock (f : Block → Block) : KeepsBlocks AES_BLOCK_SIZE (onBlock f) := by
  intro x hx
  rw [onBlock_eq f hx]
  exact (f ⟨x, hx⟩).2

theorem onBlock_decrypt_encrypt {aes : Aes} (haes : aes.Lawful) (x : List UInt8)
    (h : x.length = AES_BLOCK_SIZE) : onBlock aes.decrypt (onBlock aes.encrypt x) = x := by
  have hl : (onBlock aes.encrypt x).length = AES_BLOCK_SIZE := keepsBlocks_onBlock _ x h
  rw [onBlock_eq aes.decrypt hl]
  have hx : (⟨onBlock aes.encrypt x, hl⟩ : Block) = aes.encrypt ⟨x, h⟩ :=
    Subtype.ext (onBlock_eq aes.encrypt h)
  rw [hx, haes.decrypt_encrypt]

/-- Every whole block encrypted on its own. -/
def Aes.encryptAll (aes : Aes) : List UInt8 → List UInt8 :=
  onBlocks AES_BLOCK_SIZE (onBlock aes.encrypt)

/-- Every whole block decrypted on its own. -/
def Aes.decryptAll (aes : Aes) : List UInt8 → List UInt8 :=
  onBlocks AES_BLOCK_SIZE (onBlock aes.decrypt)

theorem Aes.length_encryptAll (aes : Aes) (x : List UInt8) : (aes.encryptAll x).length = x.length :=
  length_onBlocks (keepsBlocks_onBlock _) x

theorem Aes.length_decryptAll (aes : Aes) (x : List UInt8) : (aes.decryptAll x).length = x.length :=
  length_onBlocks (keepsBlocks_onBlock _) x

theorem Aes.decryptAll_encryptAll {aes : Aes} (haes : aes.Lawful) (x : List UInt8) :
    aes.decryptAll (aes.encryptAll x) = x :=
  onBlocks_inverse (keepsBlocks_onBlock _) (onBlock_decrypt_encrypt haes) x

theorem Aes.decryptAll_append (aes : Aes) {x : List UInt8} (h : AES_BLOCK_SIZE ∣ x.length)
    (y : List UInt8) : aes.decryptAll (x ++ y) = aes.decryptAll x ++ aes.decryptAll y :=
  onBlocks_append (by decide) x y h

theorem onBlocks_block (f : Block → Block) {x : List UInt8} (h : x.length = AES_BLOCK_SIZE) :
    onBlocks AES_BLOCK_SIZE (onBlock f) x = onBlock f x := by
  have hdiv : x.length / AES_BLOCK_SIZE = 1 := by rw [h]; decide
  rw [onBlocks, hdiv, mapFirst, mapFirst, List.take_of_length_le (Nat.le_of_eq h),
    List.drop_eq_nil_of_le (Nat.le_of_eq h), List.append_nil]

/-- A block written over the one behind `pre`. -/
theorem splice_block {pre blk raw d : List UInt8} (h : d.length = blk.length) :
    splice (pre ++ (blk ++ raw)) pre.length d = pre ++ d ++ raw := by
  rw [splice, List.take_left, h, ← List.append_assoc pre blk raw, ← List.length_append,
    List.drop_left]

/-- Read a block of the content, transform it, and write it back. -/
theorem readAt_writeAt_block (f : Block → Block) (b : Buffer) {pos : Int}
    {pre blk raw : List UInt8} (hb : b.readable = pre ++ (blk ++ raw))
    (hblk : blk.length = AES_BLOCK_SIZE) (hpos : pos = b.readerIndex_ + pre.length) :
    b.readAt pos AES_BLOCK_SIZE = some blk ∧
      ∃ c, b.writeAt pos (onBlock f blk) = some c ∧ c.readable = pre ++ onBlock f blk ++ raw ∧
        c.readerIndex_ = b.readerIndex_ ∧ c.decryptIndex_ = b.decryptIndex_ := by
  have hlen : b.readable.length = pre.length + (blk.length + raw.length) := by
    rw [hb, List.length_append, List.length_append]
  have hf : (onBlock f blk).length = blk.length := by rw [keepsBlocks_onBlock f blk hblk, hblk]
  refine ⟨?_, ?_⟩
  · rw [b.readAt_eq hpos (by omega), hb, List.drop_left, ← hblk, List.take_left]
  · obtain ⟨c, hc, hr, hri, hdi⟩ := b.writeAt_eq (d := onBlock f blk) hpos (by omega)
    exact ⟨c, hc, by rw [hr, hb, splice_block hf], hri, hdi⟩

/-! ## Sending -/

/-- The encryption loop from block `i` on. -/
theorem encryptBlocks_from (aes : Aes) (n i : Nat) (b : Buffer) (pre raw : List UInt8)
    (hb : b.readable = pre ++ raw) (hpre : pre.length = i * AES_BLOCK_SIZE)
    (hraw : n * AES_BLOCK_SIZE ≤ raw.length) :
    ∃ c, (List.range' i n).foldlM (fun b i => do
        let x ← b.readAt (b.beginEncrypt + (i * AES_BLOCK_SIZE : Nat)) AES_BLOCK_SIZE
        b.writeAt (b.beginEncrypt + (i * AES_BLOCK_SIZE : Nat)) (onBlock aes.encrypt x)) b =
          some c ∧
      c.readable = pre ++ mapFirst AES_BLOCK_SIZE (onBlock aes.encrypt) n raw := by
  induction n generalizing i b pre raw with
  | zero => exact ⟨b, rfl, hb⟩
  | succ n ih =>
    obtain ⟨hblk, hrest⟩ := length_take_block hraw
    have hsplit : b.readable = pre ++ (raw.take AES_BLOCK_SIZE ++ raw.drop AES_BLOCK_SIZE) := by
      rw [List.take_append_drop]; exact hb
    have hpos : b.beginEncrypt + (i * AES_BLOCK_SIZE : Nat) = b.readerIndex_ + pre.length := by
      rw [hpre]; rfl
    obtain ⟨hread, c1, hwrite, hr1, -, -⟩ :=
      readAt_writeAt_block aes.encrypt b hsplit hblk hpos
    have hpre1 : (pre ++ onBlock aes.encrypt (raw.take AES_BLOCK_SIZE)).length =
        (i + 1) * AES_BLOCK_SIZE := by
      rw [List.length_append, hpre, keepsBlocks_onBlock _ _ hblk, Nat.add_mul, Nat.one_mul]
    obtain ⟨c, hrun, hr⟩ := ih (i + 1) c1 _ _ hr1 hpre1 hrest
    refine ⟨c, ?_, ?_⟩
    · rw [List.range'_succ, List.foldlM_cons, bind_of_some (bind_of_some hread _ |>.trans hwrite)]
      exact hrun
    · rw [hr, mapFirst, List.append_assoc]

/-- `encryptBuffer` on non-empty content: pad with `readableBytes % 16` zeros, encrypt every whole
    block. -/
theorem encryptBuffer_eq (aes : Aes) (b : Buffer) (h : b.readable ≠ []) :
    ∃ c, encryptBuffer aes b = some c ∧
      c.readable = aes.encryptAll
        (b.readable ++ kPadding.take (b.readable.length % AES_BLOCK_SIZE)) := by
  have hne : b.readableBytes ≠ 0 := by
    rw [← b.length_readable]
    exact fun h0 => h (List.length_eq_zero_iff.mp h0)
  have hpad := b.readable_append (kPadding.take (b.readableBytes % AES_BLOCK_SIZE))
  have hlen := (b.append (kPadding.take (b.readableBytes % AES_BLOCK_SIZE))).length_readable
  obtain ⟨c, hrun, hr⟩ := encryptBlocks_from aes
    ((b.append (kPadding.take (b.readableBytes % AES_BLOCK_SIZE))).readableBytes / AES_BLOCK_SIZE)
    0 (b.append (kPadding.take (b.readableBytes % AES_BLOCK_SIZE))) []
    (b.append (kPadding.take (b.readableBytes % AES_BLOCK_SIZE))).readable rfl (by simp)
    (by rw [hlen]; exact Nat.div_mul_le_self _ _)
  refine ⟨c, ?_, ?_⟩
  · rw [encryptBuffer, if_neg hne, encryptBlocks, List.range_eq_range']
    exact hrun
  · rw [hr, List.nil_append, ← hlen, hpad, b.length_readable]
    rfl

/-! ## Receiving -/

/-- `decryptBuffer`'s loop: `pre` is decrypted, `raw` is not. -/
theorem decryptLoop_eq (aes : Aes) (turns : Nat) (b : Buffer) (pre raw : List UInt8)
    (hb : b.readable = pre ++ raw) (hd : b.decryptedBytes = pre.length)
    (ht : raw.length / AES_BLOCK_SIZE < turns) :
    ∃ c, decryptLoop aes turns b = some c ∧ c.readable = pre ++ aes.decryptAll raw ∧
      c.unDecryptedBytes = (raw.length % AES_BLOCK_SIZE : Nat) := by
  induction turns generalizing b pre raw with
  | zero => exact absurd ht (Nat.not_lt_zero _)
  | succ turns ih =>
    have hun : b.unDecryptedBytes = raw.length := by
      rw [b.unDecryptedBytes_eq, hb, hd, List.length_append]
      push_cast
      omega
    by_cases hlt : raw.length < AES_BLOCK_SIZE
    · refine ⟨b, ?_, ?_, ?_⟩
      · rw [decryptLoop, if_neg (by omega)]
      · rw [hb, Aes.decryptAll, onBlocks_short hlt]
      · rw [hun, Nat.mod_eq_of_lt hlt]
    · have hblk : (raw.take AES_BLOCK_SIZE).length = AES_BLOCK_SIZE := by
        simp only [List.length_take]; omega
      have hsplit : b.readable =
          pre ++ (raw.take AES_BLOCK_SIZE ++ raw.drop AES_BLOCK_SIZE) := by
        rw [List.take_append_drop]; exact hb
      have hpos : b.beginDecrypt = b.readerIndex_ + pre.length := by
        simp only [Buffer.decryptedBytes] at hd
        simp only [Buffer.beginDecrypt]
        omega
      obtain ⟨hread, c1, hwrite, hr1, hri, hdi⟩ :=
        readAt_writeAt_block aes.decrypt b hsplit hblk hpos
      have hd1 : (c1.hasDecrypt AES_BLOCK_SIZE).decryptedBytes =
          (pre ++ onBlock aes.decrypt (raw.take AES_BLOCK_SIZE)).length := by
        rw [Buffer.decryptedBytes_hasDecrypt, List.length_append, keepsBlocks_onBlock _ _ hblk]
        simp only [Buffer.decryptedBytes] at hd ⊢
        rw [hri, hdi]
        push_cast
        omega
      have hdrop : (raw.drop AES_BLOCK_SIZE).length = raw.length - AES_BLOCK_SIZE :=
        List.length_drop
      have hdiv : raw.length / AES_BLOCK_SIZE =
          (raw.drop AES_BLOCK_SIZE).length / AES_BLOCK_SIZE + 1 := by
        rw [hdrop]
        simp only [AES_BLOCK_SIZE] at hlt ⊢
        omega
      have hmod : (raw.drop AES_BLOCK_SIZE).length % AES_BLOCK_SIZE =
          raw.length % AES_BLOCK_SIZE := by
        rw [hdrop]
        simp only [AES_BLOCK_SIZE] at hlt ⊢
        omega
      obtain ⟨c, hrun, hr, hu⟩ := ih (c1.hasDecrypt AES_BLOCK_SIZE) _ _
        (by rw [Buffer.readable_hasDecrypt, hr1]) hd1 (by omega)
      refine ⟨c, ?_, ?_, by rw [hu, hmod]⟩
      · rw [decryptLoop, if_pos (by omega), bind_of_some hread, bind_of_some hwrite]
        exact hrun
      · have hraw : aes.decryptAll raw = onBlock aes.decrypt (raw.take AES_BLOCK_SIZE) ++
            aes.decryptAll (raw.drop AES_BLOCK_SIZE) := by
          conv_lhs => rw [← List.take_append_drop AES_BLOCK_SIZE raw]
          rw [Aes.decryptAll_append aes (by rw [hblk]), Aes.decryptAll, onBlocks_block _ hblk]
        rw [hr, hraw, List.append_assoc]

theorem decryptBuffer_eq (aes : Aes) (b : Buffer) (pre raw : List UInt8)
    (hb : b.readable = pre ++ raw) (hd : b.decryptedBytes = pre.length) :
    ∃ c, decryptBuffer aes b = some c ∧ c.readable = pre ++ aes.decryptAll raw ∧
      c.unDecryptedBytes = (raw.length % AES_BLOCK_SIZE : Nat) := by
  apply decryptLoop_eq aes _ b pre raw hb hd
  have h1 : raw.length ≤ b.readable.length := by rw [hb, List.length_append]; omega
  have h2 : b.readable.length ≤ b.buffer_.length := by
    have := b.writer_le
    rw [b.length_readable, Buffer.readableBytes]; omega
  have h3 := Nat.div_le_self raw.length AES_BLOCK_SIZE
  omega

/-- `onMessage` with AES when fewer bytes are readable than the shortest frame has. -/
theorem onMessage_short (aes_ : Option Aes) {b : Buffer}
    (h : b.readable.length < kMinMessageLen + kHeaderLen) : onMessage pb aes_ b = some ([], b) :=
  onMessageLoop_short pb h

/-- `onMessage` with AES: the whole blocks behind the decrypted part are decrypted, and the result
    is taken as plain content. -/
theorem onMessage_aes (aes : Aes) (b : Buffer) (pre raw : List UInt8)
    (hb : b.readable = pre ++ raw) (hd : b.decryptedBytes = pre.length)
    (h : kMinMessageLen + kHeaderLen ≤ b.readable.length) :
    ∃ c, onMessage pb (some aes) b = some (callbacks pb (pre ++ aes.decryptAll raw), c) ∧
      c.readable = (plain pb).rest (pre ++ aes.decryptAll raw) ∧
      (c.unDecryptedBytes = (raw.length % AES_BLOCK_SIZE : Nat) ∨
        (c.readable = [] ∧ c.decryptedBytes = 0)) := by
  obtain ⟨b1, hdec, hr1, hu1⟩ := decryptBuffer_eq aes b pre raw hb hd
  have hlen : b1.readable.length = b.readable.length := by
    rw [hr1, hb, List.length_append, List.length_append, Aes.length_decryptAll]
  have hs : Settled (some aes) b1 := by
    refine Or.inr ⟨by omega, ?_⟩
    have := Nat.mod_lt raw.length (show 0 < AES_BLOCK_SIZE by decide)
    omega
  -- the first turn on `b` is the first turn on `b1`
  have hturn : onMessage pb (some aes) b =
      onMessageLoop pb (some aes) (b.readableBytes + 1) b1 := by
    rw [onMessage, onMessageLoop_turn pb h (show decryptIf (some aes) b = some b1 from hdec) hlen,
      onMessageLoop_turn pb (by omega) hs.decryptIf_eq rfl]
  obtain ⟨c, hrun, hrest, hun⟩ := onMessageLoop_settled pb (b.readableBytes + 1) b1 hs
    (by rw [hlen, b.length_readable]; omega)
  rw [hr1] at hrun hrest
  exact ⟨c, hturn.trans hrun, hrest, by rw [← hu1]; exact hun⟩

end Mmvx.Net
