/-
  `std::lower_bound`: binary search in a range that is partitioned by a predicate.

  `lowerBound p xs` halves the range as the library does. Where the elements with `p` stand in front
  of the others it finds the first of the others (`lowerBound_append`).
-/
import Mathlib.Init

namespace Mmvx.Lib

variable {α : Type}

/-- The range of `len` elements from `first` on. The range gets shorter in each turn, so as many
    turns as elements are enough. -/
def lowerBoundLoop (p : α → Bool) (xs : List α) : Nat → Nat → Nat → Nat
  | 0, first, _ => first
  | turns + 1, first, len =>
    if len = 0 then first
    else if (xs[first + len / 2]?).any p then
      lowerBoundLoop p xs turns (first + len / 2 + 1) (len - len / 2 - 1)
    else lowerBoundLoop p xs turns first (len / 2)

def lowerBound (p : α → Bool) (xs : List α) : Nat := lowerBoundLoop p xs xs.length 0 xs.length

theorem lowerBoundLoop_eq {p : α → Bool} {xs : List α} {k : Nat}
    (hlt : ∀ i < k, (xs[i]?).any p = true) (hge : ∀ i, k ≤ i → (xs[i]?).any p = false) :
    ∀ turns first len, len ≤ turns → first ≤ k → k ≤ first + len →
      lowerBoundLoop p xs turns first len = k := by
  intro turns
  induction turns with
  | zero =>
    intro first len hturns hfirst hlast
    rw [lowerBoundLoop]
    omega
  | succ turns ih =>
    intro first len hturns hfirst hlast
    rw [lowerBoundLoop]
    split
    · omega
    · by_cases hmid : first + len / 2 < k
      · rw [if_pos (hlt _ hmid)]
        exact ih _ _ (by omega) (by omega) (by omega)
      · rw [if_neg (by rw [hge _ (by omega)]; exact Bool.false_ne_true)]
        exact ih _ _ (by omega) hfirst (by omega)

theorem lowerBound_append {p : α → Bool} {pre post : List α} (hpre : ∀ x ∈ pre, p x = true)
    (hpost : ∀ x ∈ post, p x = false) : lowerBound p (pre ++ post) = pre.length := by
  refine lowerBoundLoop_eq ?_ ?_ _ _ _ (Nat.le_refl _) (Nat.zero_le _) ?_
  · intro i hi
    rw [List.getElem?_append_left hi, List.getElem?_eq_getElem hi]
    exact hpre _ (List.getElem_mem hi)
  · intro i hi
    rw [List.getElem?_append_right hi]
    cases h : post[i - pre.length]? with
    | none => rfl
    | some x => exact hpost x (List.mem_of_getElem? h)
  · rw [List.length_append]
    omega

end Mmvx.Lib
