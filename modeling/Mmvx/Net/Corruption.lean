/-
  One changed byte in the body of a frame.

  The first sum of Adler-32 is the sum of all bytes modulo 65521 (`adler_fst`), and one byte changes
  it by less than 256, so the check sum of the changed bytes is another one (`adler32_set_ne`). A
  change in the stored check sum leaves the computed one alone. `parse` compares the two before it
  looks at anything else, so it refuses both (`corrupted_byte_detected`).
-/
import Mmvx.Net.StreamLaw

namespace Mmvx.Net

open Mmvx.Lib

/-! ## Adler-32 -/

theorem adlerStep_lt (s : Nat × Nat) (x : UInt8) :
    (adlerStep s x).1 < 65521 ∧ (adlerStep s x).2 < 65521 := by
  simp only [adlerStep]
  omega

theorem adler_lt {s : Nat × Nat} (h₁ : s.1 < 65521) (h₂ : s.2 < 65521) (l : List UInt8) :
    (l.foldl adlerStep s).1 < 65521 ∧ (l.foldl adlerStep s).2 < 65521 := by
  induction l generalizing s with
  | nil => exact ⟨h₁, h₂⟩
  | cons x l ih => exact ih (adlerStep_lt s x).1 (adlerStep_lt s x).2

theorem adler32_lt (l : List UInt8) : adler32 l < 2 ^ 32 := by
  have h := adler_lt (s := (1, 0)) (by decide) (by decide) l
  unfold adler32
  omega

/-- The first sum is the sum of the bytes. -/
theorem adler_fst {s : Nat × Nat} (h : s.1 < 65521) (l : List UInt8) :
    (l.foldl adlerStep s).1 = (s.1 + (l.map UInt8.toNat).sum) % 65521 := by
  induction l generalizing s with
  | nil => simp [Nat.mod_eq_of_lt h]
  | cons x l ih =>
    rw [List.foldl_cons, ih (adlerStep_lt s x).1, List.map_cons, List.sum_cons]
    simp only [adlerStep, Nat.mod_add_mod]
    congr 1
    omega

theorem adler32_mod (l : List UInt8) :
    adler32 l % 65536 = (1 + (l.map UInt8.toNat).sum) % 65521 := by
  have h := adler_lt (s := (1, 0)) (by decide) (by decide) l
  rw [← adler_fst (s := (1, 0)) (by decide) l]
  unfold adler32
  omega

theorem sum_set (l : List UInt8) {i : Nat} (hi : i < l.length) (x : UInt8) :
    ((l.set i x).map UInt8.toNat).sum + l[i].toNat = (l.map UInt8.toNat).sum + x.toNat := by
  induction l generalizing i with
  | nil => cases hi
  | cons y l ih =>
    cases i with
    | zero =>
      simp only [List.set_cons_zero, List.map_cons, List.sum_cons, List.getElem_cons_zero]
      omega
    | succ i =>
      have h := ih (i := i) (by simpa using hi)
      simp only [List.set_cons_succ, List.map_cons, List.sum_cons, List.getElem_cons_succ]
      omega

/-- One changed byte changes the check sum. -/
theorem adler32_set_ne (l : List UInt8) {i : Nat} (hi : i < l.length) {x : UInt8}
    (hx : x ≠ l[i]) : adler32 (l.set i x) ≠ adler32 l := by
  intro heq
  have hsum := sum_set l hi x
  have hmod : (1 + ((l.set i x).map UInt8.toNat).sum) % 65521 =
      (1 + (l.map UInt8.toNat).sum) % 65521 := by
    rw [← adler32_mod, ← adler32_mod, heq]
  have hne : x.toNat ≠ l[i].toNat := fun h => hx (UInt8.toNat_inj.mp h)
  have h₁ := x.toNat_lt
  have h₂ := l[i].toNat_lt
  omega

/-! ## Words -/

theorem toSigned_inj {w m n : Nat} (hm : m < 2 ^ w) (hn : n < 2 ^ w)
    (h : toSigned w m = toSigned w n) : m = n := by
  unfold toSigned at h
  have hmod : ((m : Int) % (2 ^ w : Nat)) = (n : Int) % (2 ^ w : Nat) := by
    rw [← Int.bmod_emod, h, Int.bmod_emod]
  rw [Int.emod_eq_of_lt (by omega) (by exact_mod_cast hm),
    Int.emod_eq_of_lt (by omega) (by exact_mod_cast hn)] at hmod
  omega

theorem beNat_lt (bs : List UInt8) : beNat bs < 256 ^ bs.length := by
  induction bs using List.reverseRecOn with
  | nil => decide
  | append_singleton bs b ih =>
    have hb := b.toNat_lt
    rw [beNat_concat, List.length_append, List.length_singleton, Nat.pow_succ]
    omega

theorem beNat_inj {as bs : List UInt8} (hlen : as.length = bs.length) (h : beNat as = beNat bs) :
    as = bs := by
  induction as using List.reverseRecOn generalizing bs with
  | nil => exact (List.length_eq_zero_iff.mp hlen.symm).symm
  | append_singleton as a ih =>
    have hne : bs ≠ [] := by
      rintro rfl
      simp at hlen
    obtain ⟨bs, b, rfl⟩ : ∃ bs' b, bs = bs' ++ [b] :=
      ⟨bs.dropLast, bs.getLast hne, (List.dropLast_append_getLast hne).symm⟩
    rw [beNat_concat, beNat_concat] at h
    have ha := a.toNat_lt
    have hb := b.toNat_lt
    have hab : a = b := UInt8.toNat_inj.mp (by omega)
    have has : as = bs := ih (by simpa using hlen) (by omega)
    rw [has, hab]

theorem asInt32_inj {as bs : List UInt8} (ha : as.length = kHeaderLen)
    (hb : bs.length = kHeaderLen) (h : asInt32 as = asInt32 bs) : as = bs := by
  have hlt {l : List UInt8} (hl : l.length = kHeaderLen) : beNat l < 2 ^ 32 := by
    have := beNat_lt l
    rwa [hl] at this
  exact beNat_inj (ha.trans hb.symm) (toSigned_inj (hlt ha) (hlt hb) h)

/-! ## The body of a frame -/

variable (pb : Protobuf)

theorem drop_frame (m : pb.Message) : (frame pb m).drop kHeaderLen = body pb m := by
  rw [frame, List.drop_left' (length_int32Bytes _)]

/-- With one byte changed the stored check sum is not the one of the bytes before it. -/
theorem checkSumMatches_set (m : pb.Message) {i : Nat} (hi : i < (body pb m).length) {x : UInt8}
    (hx : x ≠ (body pb m)[i]) :
    checkSumMatches ((body pb m).set i x) (body pb m).length = some false := by
  have hlen := length_body_eq pb m
  have hset : ((body pb m).set i x).length = (body pb m).length := List.length_set
  have hmatch := checkSumMatches_body pb m
  rw [checkSumMatches_eq (by omega), Option.some.injEq, beq_iff_eq] at hmatch
  have hadler := adler32_lt ((body pb m).take ((body pb m).length - kHeaderLen))
  rw [← hset, checkSumMatches_eq (by omega), hset, List.take_set, List.drop_set,
    Option.some.injEq, beq_eq_false_iff_ne]
  by_cases hsum : i < (body pb m).length - kHeaderLen
  · -- the change is among the bytes that are summed
    rw [if_pos hsum, ← hmatch]
    intro heq
    refine adler32_set_ne _ (i := i) ?_ ?_ (toSigned_inj (adler32_lt _) hadler heq)
    · simp only [List.length_take]; omega
    · rwa [List.getElem_take]
  · -- the change is in the check sum
    have htake : ((body pb m).take ((body pb m).length - kHeaderLen)).set i x =
        (body pb m).take ((body pb m).length - kHeaderLen) :=
      List.set_eq_of_length_le (by simp only [List.length_take]; omega)
    rw [if_neg hsum, htake, hmatch]
    intro heq
    have hd : ((body pb m).drop ((body pb m).length - kHeaderLen)).length = kHeaderLen := by
      simp only [List.length_drop]; omega
    have hlist := asInt32_inj hd (by rw [List.length_set]; exact hd) heq
    have hat := congrArg (·[i - ((body pb m).length - kHeaderLen)]?) hlist
    simp only [List.getElem?_drop] at hat
    rw [List.getElem?_set_self (by omega),
      show (body pb m).length - kHeaderLen + (i - ((body pb m).length - kHeaderLen)) = i by omega,
      List.getElem?_eq_getElem hi] at hat
    exact hx (Option.some.inj hat).symm

/-- **One changed byte is always detected.** Let `fillEmptyBuffer` write the frame of a message into
    a fresh buffer. Change one byte of its body, at any offset: `parse` returns no message and
    reports `kCheckSumError`. -/
theorem corrupted_byte_detected (m : pb.Message) :
    ∃ buf, fillEmptyBuffer pb Buffer.empty m = some buf ∧
      ∀ b, b = buf.readable.drop kHeaderLen → ∀ (i : Nat) (hi : i < b.length) (x : UInt8),
        x ≠ b[i] → parse pb (b.set i x) b.length = some (none, .kCheckSumError) := by
  obtain ⟨buf, hbuf, hread⟩ := fillEmptyBuffer_empty pb m
  refine ⟨buf, hbuf, ?_⟩
  intro b hb i hi x hx
  rw [hread, drop_frame] at hb
  subst hb
  unfold parse
  rw [bind_of_some (checkSumMatches_set pb m hi hx)]
  rfl

/-- The last byte of the check sum of a `LogonForward`, and the low byte of its name length. -/
theorem corrupted_byte_detected_logonForward :
    ∃ b : List UInt8, b.length = 31 ∧ parse logonForward (b.set 30 0) 31 =
      some (none, .kCheckSumError) ∧ parse logonForward (b.set 3 0) 31 =
      some (none, .kCheckSumError) := by
  obtain ⟨buf, hbuf, h⟩ := corrupted_byte_detected logonForward (1, 42)
  have hb : buf.readable.drop kHeaderLen = body logonForward (1, 42) := by
    obtain ⟨buf', hbuf', hread⟩ := fillEmptyBuffer_empty logonForward (1, 42)
    obtain rfl := Option.some.inj (hbuf.symm.trans hbuf')
    exact (congrArg (List.drop kHeaderLen) hread).trans (drop_frame logonForward _)
  exact ⟨body logonForward (1, 42), by decide +kernel,
    h _ hb.symm 30 (by decide +kernel) 0 (by decide +kernel),
    h _ hb.symm 3 (by decide +kernel) 0 (by decide +kernel)⟩

end Mmvx.Net
