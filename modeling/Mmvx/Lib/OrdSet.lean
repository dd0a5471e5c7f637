/-
  `std::set` as a strictly increasing list.

  `insert` and `erase` are those of the set, `first` is what `begin()` points to, and a set is cut at
  `lower_bound` into the elements `below` a bound and those `above` it. Membership and size after
  each of them are given by lemmas, so that no proof looks at the list.
-/
import Mathlib.Data.List.Nodup
import Mathlib.Data.List.TakeWhile
import Mathlib.Order.Lattice

namespace Mmvx.Lib

/-- A finite set of a linear order, in increasing order. -/
structure OrdSet (α : Type) [LinearOrder α] where
  elems : List α
  sorted : elems.Pairwise (· < ·)

namespace OrdSet

variable {α : Type} [LinearOrder α]

def empty : OrdSet α := ⟨[], .nil⟩

instance : Membership α (OrdSet α) := ⟨fun s x => x ∈ s.elems⟩

instance (x : α) (s : OrdSet α) : Decidable (x ∈ s) := inferInstanceAs (Decidable (x ∈ s.elems))

def size (s : OrdSet α) : Nat := s.elems.length

theorem notMem_empty (x : α) : x ∉ (empty : OrdSet α) := List.not_mem_nil

/-! ## `insert` -/

def insertElem (a : α) : List α → List α
  | [] => [a]
  | x :: xs => if a < x then a :: x :: xs else if a = x then x :: xs else x :: insertElem a xs

theorem mem_insertElem {a x : α} {xs : List α} : x ∈ insertElem a xs ↔ x = a ∨ x ∈ xs := by
  induction xs with
  | nil => simp only [insertElem, List.mem_cons]
  | cons y ys ih =>
    rw [insertElem]
    split
    · rw [List.mem_cons]
    · split
      · rename_i heq
        rw [heq, List.mem_cons, ← or_assoc, or_self]
      · rw [List.mem_cons, ih, List.mem_cons, or_left_comm]

theorem sorted_insertElem (a : α) {xs : List α} (h : xs.Pairwise (· < ·)) :
    (insertElem a xs).Pairwise (· < ·) := by
  induction xs with
  | nil => exact List.pairwise_singleton _ a
  | cons y ys ih =>
    obtain ⟨hy, hys⟩ := List.pairwise_cons.mp h
    rw [insertElem]
    split
    · rename_i hlt
      refine List.pairwise_cons.mpr ⟨?_, h⟩
      intro x hx
      rcases List.mem_cons.mp hx with rfl | hx
      · exact hlt
      · exact hlt.trans (hy x hx)
    · split
      · exact h
      · rename_i hnlt hne
        refine List.pairwise_cons.mpr ⟨?_, ih hys⟩
        intro x hx
        rcases mem_insertElem.mp hx with rfl | hx
        · exact lt_of_le_of_ne (le_of_not_gt hnlt) (Ne.symm hne)
        · exact hy x hx

theorem length_insertElem {a : α} {xs : List α} (h : a ∉ xs) :
    (insertElem a xs).length = xs.length + 1 := by
  induction xs with
  | nil => rfl
  | cons y ys ih =>
    obtain ⟨hne, hys⟩ := not_or.mp (mt List.mem_cons.mpr h)
    rw [insertElem]
    split
    · rfl
    · rw [List.length_cons, ih hys, List.length_cons]

def insert (s : OrdSet α) (a : α) : OrdSet α := ⟨insertElem a s.elems, sorted_insertElem a s.sorted⟩

theorem mem_insert {s : OrdSet α} {a x : α} : x ∈ s.insert a ↔ x = a ∨ x ∈ s := mem_insertElem

theorem size_insert {s : OrdSet α} {a : α} (h : a ∉ s) : (s.insert a).size = s.size + 1 :=
  length_insertElem h

/-! ## `erase` -/

def erase (s : OrdSet α) (a : α) : OrdSet α := ⟨s.elems.erase a, s.sorted.sublist List.erase_sublist⟩

theorem nodup (s : OrdSet α) : s.elems.Nodup := s.sorted.imp ne_of_lt

theorem mem_erase {s : OrdSet α} {a x : α} : x ∈ s.erase a ↔ x ≠ a ∧ x ∈ s := s.nodup.mem_erase_iff

theorem size_erase {s : OrdSet α} {a : α} (h : a ∈ s) : (s.erase a).size + 1 = s.size := by
  have hpos : 0 < s.elems.length := List.length_pos_of_mem h
  have hlen : (s.erase a).size = s.elems.length - 1 := List.length_erase_of_mem h
  rw [hlen]
  exact Nat.sub_add_cancel hpos

/-! ## `begin` -/

/-- `*begin()`, if the set is not empty. -/
def first (s : OrdSet α) : Option α := s.elems.head?

theorem first_mem {s : OrdSet α} {a : α} (h : s.first = some a) : a ∈ s := List.mem_of_mem_head? h

theorem first_le {s : OrdSet α} {a x : α} (h : s.first = some a) (hx : x ∈ s) : a ≤ x := by
  obtain ⟨xs, hs⟩ := s
  cases xs with
  | nil => cases h
  | cons y ys =>
    obtain rfl : y = a := Option.some.inj h
    rcases List.mem_cons.mp hx with rfl | hx
    · exact le_refl x
    · exact ((List.pairwise_cons.mp hs).1 x hx).le

theorem first_eq_none {s : OrdSet α} (h : s.first = none) (x : α) : x ∉ s := by
  have hnil : s.elems = [] := List.head?_eq_none_iff.mp h
  intro hx
  have hx' : x ∈ s.elems := hx
  rw [hnil] at hx'
  cases hx'

/-! ## `lower_bound` -/

/-- The elements before `lower_bound(b)`. -/
def below (s : OrdSet α) (b : α) : List α := s.elems.takeWhile (· < b)

/-- The elements from `lower_bound(b)` on. -/
def above (s : OrdSet α) (b : α) : OrdSet α :=
  ⟨s.elems.dropWhile (· < b), s.sorted.sublist (List.dropWhile_sublist _)⟩

theorem size_above (s : OrdSet α) (b : α) : (s.below b).length + (s.above b).size = s.size := by
  have happ : s.below b ++ (s.above b).elems = s.elems := List.takeWhile_append_dropWhile
  rw [size, size, ← List.length_append, happ]

theorem nodup_below (s : OrdSet α) (b : α) : (s.below b).Nodup :=
  s.nodup.sublist (List.takeWhile_sublist _)

theorem lt_of_mem_below {s : OrdSet α} {b x : α} (h : x ∈ s.below b) : x < b := by
  have hlt := List.mem_takeWhile_imp h
  exact of_decide_eq_true hlt

theorem le_of_mem_above {s : OrdSet α} {b x : α} (h : x ∈ s.above b) : b ≤ x := by
  obtain ⟨xs, hs⟩ := s
  induction xs with
  | nil => cases h
  | cons y ys ih =>
    obtain ⟨hy, hys⟩ := List.pairwise_cons.mp hs
    have hmem : x ∈ (y :: ys).dropWhile (· < b) := h
    rw [List.dropWhile_cons] at hmem
    split at hmem
    · exact ih hys hmem
    · rename_i hnlt
      have hby : b ≤ y := le_of_not_gt fun hlt => hnlt (decide_eq_true hlt)
      rcases List.mem_cons.mp hmem with rfl | hmem
      · exact hby
      · exact hby.trans (hy x hmem).le

theorem mem_below_or_above {s : OrdSet α} {b x : α} : x ∈ s ↔ x ∈ s.below b ∨ x ∈ s.above b := by
  have happ : s.below b ++ (s.above b).elems = s.elems := List.takeWhile_append_dropWhile
  change x ∈ s.elems ↔ _
  rw [← happ, List.mem_append]
  rfl

theorem mem_below {s : OrdSet α} {b x : α} : x ∈ s.below b ↔ x ∈ s ∧ x < b := by
  constructor
  · intro h
    exact ⟨mem_below_or_above.mpr (.inl h), lt_of_mem_below h⟩
  · rintro ⟨h, hlt⟩
    rcases mem_below_or_above.mp h with h | h
    · exact h
    · exact absurd hlt (le_of_mem_above h).not_gt

theorem mem_above {s : OrdSet α} {b x : α} : x ∈ s.above b ↔ x ∈ s ∧ b ≤ x := by
  constructor
  · intro h
    exact ⟨mem_below_or_above.mpr (.inr h), le_of_mem_above h⟩
  · rintro ⟨h, hle⟩
    rcases mem_below_or_above.mp h with h | h
    · exact absurd (lt_of_mem_below h) hle.not_gt
    · exact h

end OrdSet

end Mmvx.Lib
