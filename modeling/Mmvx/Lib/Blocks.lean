/-
  A block function applied to the leading blocks of a list, in place.

  `mapFirst k f n l` applies `f` to each of the first `n` blocks of `k` elements; `onBlocks k f l`
  does so for all whole blocks and leaves the partial last one as it is (electronic codebook mode).
  The block functions are asked only to keep the length `k`.
-/
import Mathlib.Data.List.Basic

namespace Mmvx.Lib

variable {α : Type} (k : Nat) (f g : List α → List α)

/-- `f` on each of the first `n` blocks of `k` elements. -/
def mapFirst : Nat → List α → List α
  | 0, l => l
  | n + 1, l => f (l.take k) ++ mapFirst n (l.drop k)

/-- `f` on every whole block of `k` elements. -/
def onBlocks (l : List α) : List α := mapFirst k f (l.length / k) l

/-- `f` keeps the length of a block. -/
def KeepsBlocks : Prop := ∀ x, x.length = k → (f x).length = k

variable {k f g}

theorem length_take_block {n : Nat} {l : List α} (h : (n + 1) * k ≤ l.length) :
    (l.take k).length = k ∧ n * k ≤ (l.drop k).length := by
  rw [Nat.add_mul, Nat.one_mul] at h
  simp only [List.length_take, List.length_drop]
  omega

theorem length_mapFirst (hf : KeepsBlocks k f) (n : Nat) (l : List α) (h : n * k ≤ l.length) :
    (mapFirst k f n l).length = l.length := by
  induction n generalizing l with
  | zero => rfl
  | succ n ih =>
    obtain ⟨ht, hd⟩ := length_take_block h
    rw [mapFirst, List.length_append, hf _ ht, ih _ hd]
    simp only [List.length_take, List.length_drop] at ht ⊢
    omega

theorem mapFirst_add (n m : Nat) (x y : List α) (h : n * k = x.length) :
    mapFirst k f (n + m) (x ++ y) = mapFirst k f n x ++ mapFirst k f m y := by
  induction n generalizing x with
  | zero =>
    have hx : x = [] := List.length_eq_zero_iff.mp (by omega)
    rw [hx, Nat.zero_add]
    rfl
  | succ n ih =>
    obtain ⟨ht, hd⟩ := length_take_block (Nat.le_of_eq h)
    have hk : k ≤ x.length := by simp only [List.length_take] at ht; omega
    have hn : n * k = (x.drop k).length := by
      rw [Nat.add_mul, Nat.one_mul] at h
      simp only [List.length_drop]; omega
    rw [Nat.add_right_comm, mapFirst, mapFirst, List.take_append_of_le_length hk,
      List.drop_append_of_le_length hk, ih _ hn, List.append_assoc]

theorem mapFirst_inverse (hf : KeepsBlocks k f) (hgf : ∀ x, x.length = k → g (f x) = x) (n : Nat)
    (l : List α) (h : n * k ≤ l.length) : mapFirst k g n (mapFirst k f n l) = l := by
  induction n generalizing l with
  | zero => rfl
  | succ n ih =>
    obtain ⟨ht, hd⟩ := length_take_block h
    rw [mapFirst, mapFirst, List.take_left' (hf _ ht), List.drop_left' (hf _ ht), hgf _ ht, ih _ hd,
      List.take_append_drop]

theorem length_onBlocks (hf : KeepsBlocks k f) (l : List α) :
    (onBlocks k f l).length = l.length :=
  length_mapFirst hf _ l (Nat.div_mul_le_self _ _)

/-- Whole blocks at the front are transformed on their own. -/
theorem onBlocks_append (hk : 0 < k) (x y : List α) (h : k ∣ x.length) :
    onBlocks k f (x ++ y) = onBlocks k f x ++ onBlocks k f y := by
  have hx : x.length / k * k = x.length := Nat.div_mul_cancel h
  have hlen : (x ++ y).length / k = x.length / k + y.length / k := by
    obtain ⟨c, hc⟩ := h
    rw [List.length_append, hc, Nat.mul_add_div hk, Nat.mul_div_cancel_left c hk]
  rw [onBlocks, hlen, mapFirst_add _ _ _ _ hx]
  rfl

/-- A partial block at the end is left alone. -/
theorem onBlocks_short {l : List α} (h : l.length < k) : onBlocks k f l = l := by
  rw [onBlocks, Nat.div_eq_of_lt h]
  rfl

theorem onBlocks_inverse (hf : KeepsBlocks k f) (hgf : ∀ x, x.length = k → g (f x) = x)
    (l : List α) : onBlocks k g (onBlocks k f l) = l := by
  rw [onBlocks, length_onBlocks hf, onBlocks]
  exact mapFirst_inverse hf hgf _ l (Nat.div_mul_le_self _ _)

/-- A position lies in one of the first `n` blocks, and in one only, when it is before their end. -/
theorem countP_blocks (n j : Nat) :
    ((List.range n).map (· * k)).countP (fun o => o ≤ j ∧ j < o + k) =
      if j < n * k then 1 else 0 := by
  induction n with
  | zero => simp
  | succ n ih =>
    rw [List.range_succ, List.map_append, List.countP_append, ih, List.map_singleton,
      List.countP_singleton, Nat.add_mul, Nat.one_mul]
    rcases Nat.lt_or_ge j (n * k) with hlt | hge
    · rw [if_pos hlt, if_neg (by simp; omega), if_pos (by omega)]
    · by_cases hj : j < n * k + k
      · rw [if_neg (by omega), if_pos (by simp; omega), if_pos hj]
      · rw [if_neg (by omega), if_neg (by simp; omega), if_neg hj]

end Mmvx.Lib
