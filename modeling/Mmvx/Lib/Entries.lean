/-
  A list of which one entry changes, or that gets one more: its entries, and sums and counts over
  them.
-/
import Mathlib.Algebra.GroupWithZero.Nat

namespace Mmvx.Lib

variable {α : Type}

theorem getElem?_set_cases {l : List α} {i j : Nat} {b c : α} (h : (l.set i b)[j]? = some c) :
    (j = i ∧ c = b) ∨ (j ≠ i ∧ l[j]? = some c) := by
  rw [List.getElem?_set] at h
  split at h
  · rename_i hij
    split at h
    · exact Or.inl ⟨hij.symm, (Option.some.inj h).symm⟩
    · cases h
  · rename_i hij
    exact Or.inr ⟨Ne.symm hij, h⟩

theorem getElem?_concat_cases {l : List α} {j : Nat} {b c : α} (h : (l ++ [b])[j]? = some c) :
    l[j]? = some c ∨ (j = l.length ∧ c = b) := by
  rw [List.getElem?_append] at h
  split at h
  · exact Or.inl h
  · rename_i hle
    obtain ⟨hlt, rfl⟩ := List.getElem?_eq_some_iff.mp h
    rw [List.length_singleton] at hlt
    exact Or.inr ⟨by omega, List.getElem_singleton _⟩

theorem sum_map_set_add (f : α → Nat) {l : List α} {i : Nat} {a : α} (h : l[i]? = some a) (b : α) :
    ((l.set i b).map f).sum + f a = (l.map f).sum + f b := by
  induction l generalizing i with
  | nil => cases h
  | cons x l ih =>
    cases i with
    | zero =>
      obtain rfl := Option.some.inj h
      rw [List.set_cons_zero, List.map_cons, List.map_cons, List.sum_cons, List.sum_cons]
      omega
    | succ i =>
      have hrest := ih (i := i) h
      rw [List.set_cons_succ, List.map_cons, List.map_cons, List.sum_cons, List.sum_cons]
      omega

theorem countP_set_add (p : α → Bool) {l : List α} {i : Nat} {a : α} (h : l[i]? = some a) (b : α) :
    (l.set i b).countP p + (p a).toNat = l.countP p + (p b).toNat := by
  have hsum (l : List α) : l.countP p = (l.map fun x => (p x).toNat).sum := by
    induction l with
    | nil => rfl
    | cons x l ih =>
      rw [List.countP_cons, ih, List.map_cons, List.sum_cons]
      cases p x <;> simp [Nat.add_comm]
  rw [hsum, hsum]
  exact sum_map_set_add _ h b

end Mmvx.Lib
