/-
  Fixed-width big-endian integers as byte lists, and the signed reading of a word.
  `beBytes w n` is what `htobe` followed by a `w`-byte copy leaves in memory, `beNat` is the
  reverse, and `toSigned` reinterprets an unsigned word as a two's complement integer. Neither
  depends on how the host stores a word (`memory_htobe`, `betoh_ofMemory`).
-/
import Mathlib.Tactic.Positivity

namespace Mmvx.Lib

/-- The `w` low-order bytes of `n`, most significant first. -/
def beBytes : Nat → Nat → List UInt8
  | 0, _ => []
  | w + 1, n => beBytes w (n / 256) ++ [UInt8.ofNat n]

/-- The unsigned integer whose big-endian bytes are `bs`. -/
def beNat (bs : List UInt8) : Nat :=
  bs.foldl (fun acc b => acc * 256 + b.toNat) 0

/-- An unsigned `w`-bit word read as a two's complement integer. -/
def toSigned (w n : Nat) : Int :=
  Int.bmod n (2 ^ w)

@[simp] theorem length_beBytes (w n : Nat) : (beBytes w n).length = w := by
  induction w generalizing n with
  | zero => rfl
  | succ w ih => simp [beBytes, ih]

theorem beNat_concat (bs : List UInt8) (b : UInt8) :
    beNat (bs ++ [b]) = beNat bs * 256 + b.toNat := by
  simp [beNat, List.foldl_append]

/-- Reading back the bytes of `n` gives `n` modulo the width. -/
theorem beNat_beBytes (w n : Nat) : beNat (beBytes w n) = n % 256 ^ w := by
  induction w generalizing n with
  | zero => simp [beBytes, beNat, Nat.mod_one]
  | succ w ih =>
    have hb : (UInt8.ofNat n).toNat = n % 256 := by simp
    have hs : n % 256 ^ (w + 1) = n % 256 + 256 * (n / 256 % 256 ^ w) := by
      rw [Nat.pow_succ', Nat.mod_mul]
    rw [beBytes, beNat_concat, ih, hb, hs]
    omega

theorem toSigned_emod (w : Nat) (x : Int) :
    toSigned w (x % 2 ^ w).toNat = Int.bmod x (2 ^ w) := by
  have hpos : (0 : Int) < 2 ^ w := by positivity
  have hnn : 0 ≤ x % 2 ^ w := Int.emod_nonneg x (by omega)
  have hcast : ((2 ^ w : Nat) : Int) = 2 ^ w := by push_cast; rfl
  rw [toSigned, Int.toNat_of_nonneg hnn, ← hcast, Int.emod_bmod]

/-- The bytes of a word are those of the word that is read from them. -/
theorem beBytes_beNat (bs : List UInt8) : beBytes bs.length (beNat bs) = bs := by
  induction bs using List.reverseRecOn with
  | nil => rfl
  | append_singleton bs b ih =>
    have hb : b.toNat < 256 := b.toNat_lt
    have hdiv : (beNat bs * 256 + b.toNat) / 256 = beNat bs := by omega
    have hlow : UInt8.ofNat (beNat bs * 256 + b.toNat) = b := by
      apply UInt8.toNat.inj
      simp
    rw [List.length_append, List.length_singleton, beBytes, beNat_concat, hdiv, ih, hlow]

/-! ## The host's order of bytes -/

inductive ByteOrder where
  | little
  | big
  deriving DecidableEq, Repr

/-- How the host stores a `w`-byte word. -/
def memory : ByteOrder → Nat → Nat → List UInt8
  | .little, w, n => (beBytes w n).reverse
  | .big, w, n => beBytes w n

/-- The word that the host reads from these bytes. -/
def ofMemory : ByteOrder → List UInt8 → Nat
  | .little, bs => beNat bs.reverse
  | .big, bs => beNat bs

/-- `htobe16`, `htobe32` and `htobe64`, and `be16toh`, `be32toh` and `be64toh`: the bytes of the word
    are swapped on a little-endian host. -/
def htobe : ByteOrder → Nat → Nat → Nat
  | .little, w, n => beNat (beBytes w n).reverse
  | .big, _, n => n

theorem memory_htobe (o : ByteOrder) (w n : Nat) : memory o w (htobe o w n) = beBytes w n := by
  cases o with
  | little =>
    have h := beBytes_beNat (beBytes w n).reverse
    rw [List.length_reverse, length_beBytes] at h
    rw [memory, htobe, h, List.reverse_reverse]
  | big => rfl

theorem betoh_ofMemory (o : ByteOrder) (bs : List UInt8) :
    htobe o bs.length (ofMemory o bs) = beNat bs := by
  cases o with
  | little =>
    have h := beBytes_beNat bs.reverse
    rw [List.length_reverse] at h
    rw [htobe, ofMemory, h, List.reverse_reverse]
  | big => rfl

end Mmvx.Lib
