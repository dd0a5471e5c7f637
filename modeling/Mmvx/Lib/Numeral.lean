/-
  Numerals in a base up to 16, as bytes.

  `digitsOf b n` are the digits of `n` in the order in which a `do … while` loop finds them, least
  significant first and at least one; `numeral b n` writes them the other way round, in upper case.
  A numeral reads back as its number (`readNumeral_numeral`), has a leading zero only if it is zero
  (`numeral_head`), and is as long as the number is large (`length_numeral_le`).
-/
import Mathlib.Data.Nat.Digits.Lemmas

namespace Mmvx.Lib

/-- The digits of `n`, least significant first. -/
def digitsOf (b n : Nat) : List Nat := if n = 0 then [0] else Nat.digits b n

variable {b n : Nat}

/-- One turn of the loop. -/
theorem digitsOf_eq (hb : 1 < b) (n : Nat) :
    digitsOf b n = n % b :: if n / b = 0 then [] else digitsOf b (n / b) := by
  unfold digitsOf
  by_cases hn : n = 0
  · simp [hn]
  · rw [if_neg hn, Nat.digits_eq_cons_digits_div hb hn]
    by_cases hd : n / b = 0
    · rw [if_pos hd, hd, Nat.digits_zero]
    · rw [if_neg hd, if_neg hd]

theorem lt_of_mem_digitsOf (hb : 1 < b) {d : Nat} (hd : d ∈ digitsOf b n) : d < b := by
  unfold digitsOf at hd
  split at hd
  · rw [List.mem_singleton.mp hd]
    omega
  · exact Nat.digits_lt_base hb hd

theorem ofDigits_digitsOf (b n : Nat) : Nat.ofDigits b (digitsOf b n) = n := by
  unfold digitsOf
  split
  · rename_i hn
    simp [hn]
  · exact Nat.ofDigits_digits b n

theorem digitsOf_ne_nil (b n : Nat) : digitsOf b n ≠ [] := by
  unfold digitsOf
  split
  · exact List.cons_ne_nil _ _
  · exact Nat.digits_ne_nil_iff_ne_zero.mpr ‹_›

theorem length_digitsOf_le (hb : 1 < b) {k : Nat} (hk : 0 < k) (hn : n < b ^ k) :
    (digitsOf b n).length ≤ k := by
  unfold digitsOf
  split
  · exact hk
  · exact (Nat.digits_length_le_iff hb n).mpr hn

/-- The most significant digit is zero for zero only. -/
theorem digitsOf_last (h : (digitsOf b n).getLast? = some 0) : digitsOf b n = [0] := by
  unfold digitsOf at h ⊢
  split
  · rfl
  · rename_i hn
    rw [if_neg hn, List.getLast?_eq_some_getLast (Nat.digits_ne_nil_iff_ne_zero.mpr hn)] at h
    exact absurd (Option.some.inj h) (Nat.getLast_digit_ne_zero b hn)

/-! ## Digits as bytes -/

/-- `0` to `9` and `A` to `F`. -/
def symbol (d : Nat) : UInt8 := UInt8.ofNat (if d < 10 then 48 + d else 55 + d)

def symbolValue (c : UInt8) : Option Nat :=
  if 48 ≤ c.toNat ∧ c.toNat ≤ 57 then some (c.toNat - 48)
  else if 65 ≤ c.toNat ∧ c.toNat ≤ 70 then some (c.toNat - 55)
  else none

theorem symbolValue_symbol : ∀ d < 16, symbolValue (symbol d) = some d := by decide

theorem symbol_eq_zero : ∀ d < 16, symbol d = 48 → d = 0 := by decide

/-- The number that a nonempty list of digits below `b` is read as. -/
def readNumeral (b : Nat) (text : List UInt8) : Option Nat :=
  if text = [] then none
  else text.foldlM (fun n c =>
    (symbolValue c).bind fun d => if d < b then some (n * b + d) else none) 0

/-- The numeral of `n` in base `b`. -/
def numeral (b n : Nat) : List UInt8 := ((digitsOf b n).map symbol).reverse

theorem numeral_ne_nil (b n : Nat) : numeral b n ≠ [] := by
  intro h
  exact digitsOf_ne_nil b n (List.map_eq_nil_iff.mp (List.reverse_eq_nil_iff.mp h))

theorem length_numeral_le (hb : 1 < b) {k : Nat} (hk : 0 < k) (hn : n < b ^ k) :
    (numeral b n).length ≤ k := by
  rw [numeral, List.length_reverse, List.length_map]
  exact length_digitsOf_le hb hk hn

theorem mem_numeral (hb : 1 < b) {c : UInt8} (hc : c ∈ numeral b n) : ∃ d < b, c = symbol d := by
  obtain ⟨d, hd, rfl⟩ := List.mem_map.mp (List.mem_reverse.mp hc)
  exact ⟨d, lt_of_mem_digitsOf hb hd, rfl⟩

theorem numeral_head (hb : 1 < b) (hb' : b ≤ 16) (h : (numeral b n).head? = some 48) :
    numeral b n = [48] := by
  rw [numeral, List.head?_reverse, List.getLast?_map] at h
  obtain ⟨d, hd, hs⟩ := Option.map_eq_some_iff.mp h
  have hlt := lt_of_mem_digitsOf hb (List.mem_of_getLast? hd)
  obtain rfl := symbol_eq_zero d (by omega) hs
  rw [numeral, digitsOf_last hd]
  rfl

/-- Reading digits, the most significant one first. -/
theorem foldlM_symbols (hb' : b ≤ 16) {ds : List Nat} (hds : ∀ d ∈ ds, d < b) :
    ((ds.map symbol).reverse).foldlM (fun n c =>
      (symbolValue c).bind fun d => if d < b then some (n * b + d) else none) 0 =
        some (Nat.ofDigits b ds) := by
  induction ds with
  | nil => simp
  | cons d ds ih =>
    have hd := hds d List.mem_cons_self
    have hrest := ih fun d' hd' => hds d' (List.mem_cons_of_mem _ hd')
    rw [List.map_cons, List.reverse_cons, List.foldlM_append, hrest]
    simp only [Option.bind_eq_bind, Option.bind_some, List.foldlM_cons, List.foldlM_nil,
      symbolValue_symbol d (by omega), if_pos hd, Nat.ofDigits_cons]
    have hcomm : Nat.ofDigits b ds * b + d = d + b * Nat.ofDigits b ds := by
      rw [Nat.mul_comm, Nat.add_comm]
    rw [hcomm]
    simp

theorem readNumeral_numeral (hb : 1 < b) (hb' : b ≤ 16) (n : Nat) :
    readNumeral b (numeral b n) = some n := by
  rw [readNumeral, if_neg (numeral_ne_nil b n), numeral,
    foldlM_symbols hb' fun d hd => lt_of_mem_digitsOf hb hd, ofDigits_digitsOf]

end Mmvx.Lib
