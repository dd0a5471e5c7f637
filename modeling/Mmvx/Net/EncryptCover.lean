/-
  How much of a frame `encryptBuffer` covers.

  `encryptBuffer` calls `Aes::encrypt` on the blocks at `encryptOffsets`. It pads a content of `n`
  bytes with `n % 16` zeros, where `16 - n % 16` would make whole blocks. The two agree modulo 16
  when `n` is a multiple of 8, and the frame is covered then and only then
  (`encryptBuffer_covers_iff`): for the other residues what is sent is no sequence of blocks, and
  for residues 1 to 7 the end of the frame goes out in clear (`covered_iff`).
-/
import Mmvx.Net.AesStream

namespace Mmvx.Net

open Mmvx.Lib

/-- The content after the padding. -/
def paddedBuffer (b : Buffer) : Buffer := b.append (kPadding.take (b.readableBytes % AES_BLOCK_SIZE))

/-- Where the blocks begin that `encryptBuffer` passes to `Aes::encrypt`, in order. -/
def encryptOffsets (b : Buffer) : List Nat :=
  (List.range ((paddedBuffer b).readableBytes / AES_BLOCK_SIZE)).map (· * AES_BLOCK_SIZE)

/-- `encryptBuffer` is the calls of `Aes::encrypt` at `encryptOffsets`, one after the other. -/
theorem encryptBuffer_calls (aes : Aes) (b : Buffer) (h : b.readableBytes ≠ 0) :
    encryptBuffer aes b = (encryptOffsets b).foldlM (fun b o => do
      let x ← b.readAt (b.beginEncrypt + o) AES_BLOCK_SIZE
      b.writeAt (b.beginEncrypt + o) (onBlock aes.encrypt x)) (paddedBuffer b) := by
  rw [encryptBuffer, if_neg h, encryptBlocks, encryptOffsets, List.foldlM_map]
  rfl

/-- What `encryptBuffer` is to do: make whole blocks by adding less than one, and encrypt every
    byte of the content once, so that decryption gives it back with zeros behind it. -/
structure CoversFrame (aes : Aes) (b c : Buffer) : Prop where
  whole : AES_BLOCK_SIZE ∣ c.readable.length
  padding : ∃ n < AES_BLOCK_SIZE, c.readable.length = b.readable.length + n
  covered : ∀ j < b.readable.length,
    (encryptOffsets b).countP (fun o => o ≤ j ∧ j < o + AES_BLOCK_SIZE) = 1
  decrypts : ∃ n, aes.decryptAll c.readable = b.readable ++ List.replicate n 0

/-! ## The blocks -/

theorem length_take_kPadding (n : Nat) :
    (kPadding.take (n % AES_BLOCK_SIZE)).length = n % AES_BLOCK_SIZE := by
  have := Nat.mod_lt n (show 0 < AES_BLOCK_SIZE by decide)
  simp only [kPadding, List.length_take, List.length_replicate]
  omega

theorem readableBytes_paddedBuffer (b : Buffer) :
    (paddedBuffer b).readableBytes = b.readable.length + b.readable.length % AES_BLOCK_SIZE := by
  rw [← Buffer.length_readable, paddedBuffer, Buffer.readable_append, List.length_append,
    length_take_kPadding, b.length_readable]

/-- Every byte of the content is encrypted unless its length is 1 to 7 modulo 16. -/
theorem covered_iff (b : Buffer) :
    (∀ j < b.readable.length,
      (encryptOffsets b).countP (fun o => o ≤ j ∧ j < o + AES_BLOCK_SIZE) = 1) ↔
        b.readable.length % AES_BLOCK_SIZE = 0 ∨ 8 ≤ b.readable.length % AES_BLOCK_SIZE := by
  simp only [encryptOffsets, countP_blocks, readableBytes_paddedBuffer, ite_eq_left_iff,
    zero_ne_one, imp_false, not_not]
  simp only [AES_BLOCK_SIZE]
  constructor
  · intro h
    by_contra hres
    have hlast := h (b.readable.length - 1) (by omega)
    omega
  · intro h j hj
    omega

/-- **`encryptBuffer` covers the frame** if and only if the length of the content is a multiple of
    8. -/
theorem encryptBuffer_covers_iff (aes : Aes) (haes : aes.Lawful) (b : Buffer)
    (h : b.readable ≠ []) :
    ∃ c, encryptBuffer aes b = some c ∧ (CoversFrame aes b c ↔ 8 ∣ b.readable.length) := by
  obtain ⟨c, hc, hr⟩ := encryptBuffer_eq aes b h
  have hlen : c.readable.length = b.readable.length + b.readable.length % AES_BLOCK_SIZE := by
    rw [hr, Aes.length_encryptAll, List.length_append, length_take_kPadding]
  refine ⟨c, hc, ?_, ?_⟩
  · intro hcov
    have hwhole := hcov.whole
    rw [hlen] at hwhole
    simp only [AES_BLOCK_SIZE] at hwhole
    omega
  · intro hdvd
    refine ⟨?_, ⟨_, Nat.mod_lt _ (by decide), hlen⟩, ?_, ?_⟩
    · rw [hlen]
      simp only [AES_BLOCK_SIZE]
      omega
    · rw [covered_iff]
      simp only [AES_BLOCK_SIZE]
      omega
    · refine ⟨b.readable.length % AES_BLOCK_SIZE, ?_⟩
      have hle := Nat.mod_lt b.readable.length (show 0 < AES_BLOCK_SIZE by decide)
      rw [hr, Aes.decryptAll_encryptAll haes, kPadding, List.take_replicate,
        Nat.min_eq_left (Nat.le_of_lt hle)]

/-- A logon with a user name of ten bytes. -/
def logonTen : logon.Message := ⟨[49, 50, 51, 52, 53, 54, 55, 56, 57, 48], by decide⟩

/-- Its frame has 49 bytes. One byte of padding is added, and the last byte of the frame is not
    encrypted. -/
theorem encryptBuffer_misses :
    ¬ ∀ (aes : Aes) (b : Buffer), aes.Lawful → b.readable ≠ [] →
      ∃ c, encryptBuffer aes b = some c ∧ CoversFrame aes b c := by
  intro h
  have hb : (Buffer.empty.append (frame logon logonTen)).readable = frame logon logonTen := by
    rw [Buffer.readable_append, Buffer.readable_empty, List.nil_append]
  have hlen : (frame logon logonTen).length = 49 := by decide +kernel
  obtain ⟨c, -, hcov⟩ := h logonAes (Buffer.empty.append (frame logon logonTen)) logonAes_lawful
    (by rw [hb]; exact List.ne_nil_of_length_pos (by rw [hlen]; decide))
  have hres := (covered_iff _).mp hcov.covered
  rw [hb, hlen] at hres
  exact absurd hres (by decide)

/-- The frame that `LogonClient` sends has 40 bytes and is covered. -/
theorem encryptBuffer_covers_iff_logon :
    ∃ b c, b.readable = frame logon logonOne ∧ encryptBuffer logonAes b = some c ∧
      CoversFrame logonAes b c := by
  have hb : (Buffer.empty.append (frame logon logonOne)).readable = frame logon logonOne := by
    rw [Buffer.readable_append, Buffer.readable_empty, List.nil_append]
  have hlen : (frame logon logonOne).length = 40 := by decide +kernel
  obtain ⟨c, hc, hiff⟩ := encryptBuffer_covers_iff logonAes logonAes_lawful
    (Buffer.empty.append (frame logon logonOne))
    (by rw [hb]; exact List.ne_nil_of_length_pos (by rw [hlen]; decide))
  exact ⟨_, c, hb, hc, hiff.mpr (by rw [hb, hlen]; decide)⟩

end Mmvx.Net
