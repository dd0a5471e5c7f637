/-
  Incremental decoding of a symbol stream that is cut into arbitrary chunks.

  A `Framing` looks at the head of its input and answers that a whole item is there, that it
  needs more input, or that the head can never become an item. Its two laws say that more input
  does not change an item or a refusal. `decode` takes items off until the head is not one.

  * `items_append`, `rest_append`: decoding is independent of where the input is cut.
  * `refused_append`: a refusal stays.
  * `decode_framed`, `decode_longest`: what `decode` takes is the longest prefix of the input
    that is a sequence of whole items.
-/
import Mathlib.Data.List.Infix

namespace Mmvx.Lib

/-- What a decoder makes of the head of its input. -/
inductive Head (β ε : Type) where
  | more
  | item (b : β) (n : Nat)
  | refuse (e : ε)
  deriving DecidableEq, Repr

/-- A decoder of items `β` from symbols `α`, refusing with `ε`. -/
structure Framing (α β ε : Type) where
  head : List α → Head β ε
  item_size : ∀ {x b n}, head x = .item b n → 0 < n ∧ n ≤ x.length
  item_append : ∀ {x b n} (y : List α), head x = .item b n → head (x ++ y) = .item b n
  refuse_append : ∀ {x e} (y : List α), head x = .refuse e → head (x ++ y) = .refuse e

namespace Framing

variable {α β ε : Type} (f : Framing α β ε)

/-- Take items off the head of the input: the items, and the input left over. -/
def decode (x : List α) : List β × List α :=
  match _h : f.head x with
  | .item b n => (b :: (decode (x.drop n)).1, (decode (x.drop n)).2)
  | .more => ([], x)
  | .refuse _ => ([], x)
  termination_by x.length
  decreasing_by
    all_goals
      have := f.item_size _h
      simp only [List.length_drop]
      omega

/-- The items taken from `x`. -/
def items (x : List α) : List β := (f.decode x).1

/-- The input `decode` leaves over. -/
def rest (x : List α) : List α := (f.decode x).2

theorem items_item {x : List α} {b : β} {n : Nat} (h : f.head x = .item b n) :
    f.items x = b :: f.items (x.drop n) := by
  unfold items
  rw [decode]
  split
  · rename_i b' n' h'
    rw [h] at h'
    cases h'
    rfl
  · rename_i h'; rw [h] at h'; cases h'
  · rename_i h'; rw [h] at h'; cases h'

theorem rest_item {x : List α} {b : β} {n : Nat} (h : f.head x = .item b n) :
    f.rest x = f.rest (x.drop n) := by
  unfold rest
  rw [decode]
  split
  · rename_i b' n' h'
    rw [h] at h'
    cases h'
    rfl
  · rename_i h'; rw [h] at h'; cases h'
  · rename_i h'; rw [h] at h'; cases h'

theorem decode_stop {x : List α} (h : ∀ b n, f.head x ≠ .item b n) : f.decode x = ([], x) := by
  rw [decode]
  split
  · rename_i b n h'; exact absurd h' (h b n)
  · rfl
  · rfl

theorem items_stop {x : List α} (h : ∀ b n, f.head x ≠ .item b n) : f.items x = [] := by
  rw [items, decode_stop f h]

theorem rest_stop {x : List α} (h : ∀ b n, f.head x ≠ .item b n) : f.rest x = x := by
  rw [rest, decode_stop f h]

theorem head_more_stop {x : List α} (h : f.head x = .more) : ∀ b n, f.head x ≠ .item b n := by
  intro b n h'
  rw [h] at h'
  cases h'

theorem head_refuse_stop {x : List α} {e : ε} (h : f.head x = .refuse e) :
    ∀ b n, f.head x ≠ .item b n := by
  intro b n h'
  rw [h] at h'
  cases h'

/-- Induction along the items `decode` takes. -/
theorem decode_induction {motive : List α → Prop}
    (stop : ∀ x, (∀ b n, f.head x ≠ .item b n) → motive x)
    (item : ∀ x b n, f.head x = .item b n → motive (x.drop n) → motive x)
    (x : List α) : motive x := by
  induction h : x.length using Nat.strongRecOn generalizing x with
  | _ k ih =>
    cases hx : f.head x with
    | more => exact stop x (f.head_more_stop hx)
    | refuse e => exact stop x (f.head_refuse_stop hx)
    | item b n =>
      have hn := f.item_size hx
      refine item x b n hx (ih (x.drop n).length ?_ _ rfl)
      simp only [List.length_drop]; omega

/-- Decoding stops where the head is not an item. -/
theorem head_rest (x : List α) : ∀ b n, f.head (f.rest x) ≠ .item b n := by
  induction x using f.decode_induction with
  | stop x h => rw [rest_stop f h]; exact h
  | item x b n h ih => rw [rest_item f h]; exact ih

theorem length_rest_le (x : List α) : (f.rest x).length ≤ x.length := by
  induction x using f.decode_induction with
  | stop x h => rw [rest_stop f h]
  | item x b n h ih =>
    rw [rest_item f h]
    simp only [List.length_drop] at ih
    omega

/-- The items of `x ++ y` are those of `x`, then those of the rest of `x` followed by `y`. -/
theorem items_append (x y : List α) :
    f.items (x ++ y) = f.items x ++ f.items (f.rest x ++ y) := by
  induction x using f.decode_induction with
  | stop x h => rw [items_stop f h, rest_stop f h, List.nil_append]
  | item x b n h ih =>
    have hn := f.item_size h
    rw [f.items_item (f.item_append y h), f.items_item h, f.rest_item h,
      List.drop_append_of_le_length hn.2, ih, List.cons_append]

theorem rest_append (x y : List α) : f.rest (x ++ y) = f.rest (f.rest x ++ y) := by
  induction x using f.decode_induction with
  | stop x h => rw [rest_stop f h]
  | item x b n h ih =>
    have hn := f.item_size h
    rw [f.rest_item (f.item_append y h), f.rest_item h, List.drop_append_of_le_length hn.2, ih]

/-- The head refuses, after the items. -/
def Refused (x : List α) : Prop := ∃ e, f.head (f.rest x) = .refuse e

/-- A refusal stays: more input changes neither the items nor the refusal. -/
theorem refused_append {x : List α} (h : f.Refused x) (y : List α) :
    f.Refused (x ++ y) ∧ f.items (x ++ y) = f.items x ∧ f.rest (x ++ y) = f.rest x ++ y := by
  obtain ⟨e, he⟩ := h
  have hstop := f.head_refuse_stop (f.refuse_append y he)
  have hr : f.rest (x ++ y) = f.rest x ++ y := by rw [rest_append, f.rest_stop hstop]
  refine ⟨⟨e, ?_⟩, ?_, hr⟩
  · rw [hr]; exact f.refuse_append y he
  · rw [items_append, f.items_stop hstop, List.append_nil]

/-- `pre` is a sequence of whole items carrying `bs`. -/
inductive Framed : List β → List α → Prop
  | nil : Framed [] []
  | cons {b bs fr pre} : f.head fr = .item b fr.length → Framed bs pre →
      Framed (b :: bs) (fr ++ pre)

/-- Whole items at the front are taken first. -/
theorem decode_framed_append {bs : List β} {pre : List α} (h : f.Framed bs pre) (y : List α) :
    f.items (pre ++ y) = bs ++ f.items y ∧ f.rest (pre ++ y) = f.rest y := by
  induction h with
  | nil => exact ⟨rfl, rfl⟩
  | @cons b bs fr pre hb _ ih =>
    have hitem : f.head (fr ++ (pre ++ y)) = .item b fr.length := f.item_append _ hb
    rw [List.append_assoc, f.items_item hitem, f.rest_item hitem, List.drop_left]
    exact ⟨by rw [ih.1, List.cons_append], ih.2⟩

end Framing

/-- A framing whose items depend on their own symbols only: an item at the head is an item of
    exactly its own length. -/
structure ExactFraming (α β ε : Type) extends Framing α β ε where
  item_take : ∀ {x b n}, head x = .item b n → head (x.take n) = .item b n

namespace ExactFraming

variable {α β ε : Type} (f : ExactFraming α β ε)

/-- What `decode` takes is a sequence of whole items. -/
theorem decode_framed (x : List α) :
    ∃ pre, x = pre ++ f.rest x ∧ f.Framed (f.items x) pre := by
  induction x using f.decode_induction with
  | stop x h =>
    rw [f.items_stop h, f.rest_stop h]
    exact ⟨[], rfl, .nil⟩
  | item x b n h ih =>
    obtain ⟨pre, hx, hpre⟩ := ih
    have hn := f.item_size h
    refine ⟨x.take n ++ pre, ?_, ?_⟩
    · rw [f.rest_item h, List.append_assoc, ← hx, List.take_append_drop]
    · rw [f.items_item h]
      refine .cons ?_ hpre
      rw [f.item_take h, List.length_take, Nat.min_eq_left hn.2]

/-- No longer prefix of `x` is a sequence of whole items, and any such prefix carries
    the first of the items. -/
theorem decode_longest {x pre : List α} {bs : List β} (hpre : pre <+: x)
    (h : f.Framed bs pre) : bs <+: f.items x ∧ pre.length + (f.rest x).length ≤ x.length := by
  obtain ⟨y, rfl⟩ := hpre
  obtain ⟨hi, hr⟩ := f.decode_framed_append h y
  refine ⟨⟨_, hi.symm⟩, ?_⟩
  rw [hr, List.length_append]
  exact Nat.add_le_add_left (f.length_rest_le y) _

end ExactFraming

end Mmvx.Lib
