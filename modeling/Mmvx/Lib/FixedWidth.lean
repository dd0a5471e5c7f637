/-
  Numerals of a fixed width and the order of texts.

  `fixedWidth w n` are the last `w` decimal digits of `n` with zeros in front. Texts of one length
  are compared piece by piece (`append_lt_append_iff`), so numbers of one width are in the order of
  their texts (`fixedWidth_lt_iff`), and records of such numbers in the order of their fields
  (`OrderedBy.append`).
-/
import Mmvx.Lib.Numeral

namespace Mmvx.Lib

/-- The last `w` decimal digits of `n`. -/
def fixedWidth : Nat → Nat → List UInt8
  | 0, _ => []
  | w + 1, n => fixedWidth w (n / 10) ++ [symbol (n % 10)]

@[simp] theorem length_fixedWidth (w n : Nat) : (fixedWidth w n).length = w := by
  induction w generalizing n with
  | zero => rfl
  | succ w ih => rw [fixedWidth, List.length_append, ih, List.length_singleton]

/-- Texts that begin with texts of one length. -/
theorem append_lt_append_iff {x y s t : List UInt8} (h : x.length = y.length) :
    x ++ s < y ++ t ↔ x < y ∨ x = y ∧ s < t := by
  induction x generalizing y with
  | nil =>
    obtain rfl := List.eq_nil_of_length_eq_zero h.symm
    simp
  | cons a x ih =>
    cases y with
    | nil => cases h
    | cons b y =>
      rw [List.cons_append, List.cons_append, List.cons_lt_cons_iff, List.cons_lt_cons_iff,
        ih (Nat.succ.inj h), List.cons.injEq]
      constructor
      · rintro (hab | ⟨rfl, hxy | ⟨rfl, hst⟩⟩)
        · exact Or.inl (Or.inl hab)
        · exact Or.inl (Or.inr ⟨rfl, hxy⟩)
        · exact Or.inr ⟨⟨rfl, rfl⟩, hst⟩
      · rintro ((hab | ⟨rfl, hxy⟩) | ⟨⟨rfl, rfl⟩, hst⟩)
        · exact Or.inl hab
        · exact Or.inr ⟨rfl, Or.inl hxy⟩
        · exact Or.inr ⟨rfl, Or.inr ⟨rfl, hst⟩⟩

/-- A numeral, the last digit apart. -/
theorem numeral_eq (n : Nat) :
    numeral 10 n = (if n / 10 = 0 then [] else numeral 10 (n / 10)) ++ [symbol (n % 10)] := by
  rw [numeral, digitsOf_eq (by decide), List.map_cons, List.reverse_cons]
  split <;> rfl

theorem fixedWidth_zero (w : Nat) : fixedWidth w 0 = List.replicate w 48 := by
  induction w with
  | zero => rfl
  | succ w ih =>
    rw [fixedWidth, Nat.zero_div, ih, List.replicate_succ']
    rfl

/-- A numeral with zeros in front. -/
theorem replicate_append_numeral {w n : Nat} (hw : 0 < w) (hn : n < 10 ^ w) :
    List.replicate (w - (numeral 10 n).length) 48 ++ numeral 10 n = fixedWidth w n := by
  induction w generalizing n with
  | zero => omega
  | succ w ih =>
    rw [Nat.pow_succ] at hn
    rw [fixedWidth, numeral_eq]
    split
    · rename_i hz
      rw [hz, fixedWidth_zero, List.nil_append, List.length_singleton, Nat.add_sub_cancel]
    · rename_i hz
      have hpos : 0 < w := by
        rcases Nat.eq_zero_or_pos w with rfl | h
        · omega
        · exact h
      rw [← ih hpos (by omega), List.length_append, List.length_singleton,
        Nat.add_sub_add_right, List.append_assoc]

theorem symbol_lt_iff : ∀ a < 10, ∀ b < 10, symbol a < symbol b ↔ a < b := by decide

theorem fixedWidth_inj {w m n : Nat} (hm : m < 10 ^ w) (hn : n < 10 ^ w)
    (h : fixedWidth w m = fixedWidth w n) : m = n := by
  induction w generalizing m n with
  | zero =>
    rw [Nat.pow_zero] at hm hn
    omega
  | succ w ih =>
    rw [Nat.pow_succ] at hm hn
    rw [fixedWidth, fixedWidth] at h
    obtain ⟨hq, hr⟩ := List.append_inj h (by simp)
    have hdiv := ih (by omega) (by omega) hq
    have hsymbol := (List.cons.inj hr).1
    have hle := (symbol_lt_iff (m % 10) (by omega) (n % 10) (by omega)).mpr.mt
    have hge := (symbol_lt_iff (n % 10) (by omega) (m % 10) (by omega)).mpr.mt
    rw [hsymbol] at hle hge
    have := hle (UInt8.lt_irrefl _)
    have := hge (UInt8.lt_irrefl _)
    omega

/-- Numbers of one width are in the order of their texts. -/
theorem fixedWidth_lt_iff {w m n : Nat} (hm : m < 10 ^ w) (hn : n < 10 ^ w) :
    fixedWidth w m < fixedWidth w n ↔ m < n := by
  induction w generalizing m n with
  | zero =>
    rw [Nat.pow_zero] at hm hn
    simp only [fixedWidth, List.lt_irrefl, false_iff]
    omega
  | succ w ih =>
    rw [Nat.pow_succ] at hm hn
    have hm' : m / 10 < 10 ^ w := by omega
    have hn' : n / 10 < 10 ^ w := by omega
    rw [fixedWidth, fixedWidth, append_lt_append_iff (by simp), ih hm' hn']
    have hlast : [symbol (m % 10)] < [symbol (n % 10)] ↔ m % 10 < n % 10 := by
      rw [List.cons_lt_cons_iff]
      simp [symbol_lt_iff (m % 10) (by omega) (n % 10) (by omega)]
    rw [hlast]
    constructor
    · rintro (h | ⟨h, h'⟩)
      · omega
      · have := fixedWidth_inj hm' hn' h
        omega
    · intro h
      by_cases hq : m / 10 < n / 10
      · exact Or.inl hq
      · have heq : m / 10 = n / 10 := by omega
        exact Or.inr ⟨by rw [heq], by omega⟩

/-! ## Texts of records -/

variable {α : Type}

/-- Among the records with `P`, the texts are of one length and in the order of a key. -/
structure OrderedBy (P : α → Prop) (text : α → List UInt8) (key : α → Nat) : Prop where
  length : ∀ a b, P a → P b → (text a).length = (text b).length
  lt : ∀ a b, P a → P b → (text a < text b ↔ key a < key b)
  eq : ∀ a b, P a → P b → (text a = text b ↔ key a = key b)

/-- Keys of two parts are compared part by part. -/
theorem mul_add_lt_iff {K k k' l l' : Nat} (hl : l < K) (hl' : l' < K) :
    k * K + l < k' * K + l' ↔ k < k' ∨ k = k' ∧ l < l' := by
  rcases Nat.lt_trichotomy k k' with h | rfl | h
  · have := Nat.mul_le_mul_right K (Nat.succ_le_of_lt h)
    rw [Nat.succ_mul] at this
    omega
  · omega
  · have := Nat.mul_le_mul_right K (Nat.succ_le_of_lt h)
    rw [Nat.succ_mul] at this
    omega

theorem mul_add_inj {K k k' l l' : Nat} (hl : l < K) (hl' : l' < K) :
    k * K + l = k' * K + l' ↔ k = k' ∧ l = l' := by
  have hlt : k * K + l < k' * K + l' ↔ _ := mul_add_lt_iff hl hl'
  have hgt : k' * K + l' < k * K + l ↔ _ := mul_add_lt_iff hl' hl
  omega

namespace OrderedBy

variable {P : α → Prop} {f g : α → List UInt8} {k l : α → Nat}

theorem fixed {w : Nat} {n : α → Nat} (hn : ∀ a, P a → n a < 10 ^ w) :
    OrderedBy P (fun a => fixedWidth w (n a)) n where
  length := by simp
  lt a b ha hb := fixedWidth_lt_iff (hn a ha) (hn b hb)
  eq a b ha hb := ⟨fixedWidth_inj (hn a ha) (hn b hb), fun h => by rw [h]⟩

/-- A separator. -/
theorem separated (hf : OrderedBy P f k) (c : List UInt8) : OrderedBy P (fun a => f a ++ c) k where
  length a b ha hb := by simp [hf.length a b ha hb]
  lt a b ha hb := by
    rw [append_lt_append_iff (hf.length a b ha hb), hf.lt a b ha hb]
    simp
  eq a b ha hb := by rw [List.append_left_inj, hf.eq a b ha hb]

/-- One field behind others. -/
theorem append (hf : OrderedBy P f k) (hg : OrderedBy P g l) {K : Nat} (hK : ∀ a, P a → l a < K) :
    OrderedBy P (fun a => f a ++ g a) fun a => k a * K + l a where
  length a b ha hb := by
    rw [List.length_append, List.length_append, hf.length a b ha hb, hg.length a b ha hb]
  lt a b ha hb := by
    rw [append_lt_append_iff (hf.length a b ha hb), hf.lt a b ha hb, hf.eq a b ha hb,
      hg.lt a b ha hb, mul_add_lt_iff (hK a ha) (hK b hb)]
  eq a b ha hb := by
    rw [mul_add_inj (hK a ha) (hK b hb), ← hf.eq a b ha hb, ← hg.eq a b ha hb]
    refine ⟨fun h => List.append_inj h (hf.length a b ha hb), ?_⟩
    rintro ⟨h, h'⟩
    rw [h, h']

end OrderedBy

end Mmvx.Lib
