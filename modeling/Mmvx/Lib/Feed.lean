/-
  A `Framing` that is run again with each chunk of its input.

  Every chunk is appended to what the last run has left. A run gives out the items it takes and then
  the refusal it stops at, if it does; the refused input stays, so every later run stops at the same
  refusal again (`foldl_feed`).
-/
import Mathlib.Data.List.Induction
import Mmvx.Lib.Framing

namespace Mmvx.Lib.Framing

variable {α β ε γ : Type}

/-- What decoding stops at. -/
def refusal (f : Framing α β ε) (x : List α) : Option ε :=
  match f.head (f.rest x) with
  | .refuse e => some e
  | _ => none

theorem refusal_eq_some {f : Framing α β ε} {x : List α} {e : ε} :
    f.refusal x = some e ↔ f.head (f.rest x) = .refuse e := by
  unfold refusal
  split
  · rename_i e' h
    rw [h]
    simp
  · rename_i h
    simp only [reduceCtorEq, false_iff]
    exact h e

theorem refusal_of_more {f : Framing α β ε} {x : List α} (h : f.head x = .more) :
    f.refusal x = none := by
  rw [refusal, f.rest_stop (f.head_more_stop h), h]

theorem refusal_of_refuse {f : Framing α β ε} {x : List α} {e : ε} (h : f.head x = .refuse e) :
    f.refusal x = some e := by
  rw [refusal, f.rest_stop (f.head_refuse_stop h), h]

theorem refusal_item {f : Framing α β ε} {x : List α} {b : β} {n : Nat}
    (h : f.head x = .item b n) : f.refusal x = f.refusal (x.drop n) := by
  rw [refusal, refusal, f.rest_item h]

theorem refusal_rest_append (f : Framing α β ε) (x y : List α) :
    f.refusal (f.rest x ++ y) = f.refusal (x ++ y) := by
  rw [refusal, refusal, ← f.rest_append]

/-- A refusal stays. -/
theorem refusal_append {f : Framing α β ε} {x : List α} {e : ε} (h : f.refusal x = some e)
    (y : List α) : f.refusal (x ++ y) = some e := by
  rw [refusal_eq_some] at h ⊢
  rw [(f.refused_append ⟨e, h⟩ y).2.2]
  exact f.refuse_append y h

theorem items_append_of_refusal {f : Framing α β ε} {x : List α} {e : ε}
    (h : f.refusal x = some e) (y : List α) : f.items (x ++ y) = f.items x :=
  (f.refused_append ⟨e, refusal_eq_some.mp h⟩ y).2.1

section

variable (f : Framing α γ γ)

/-- One run: what has been given out so far, and the input that is left. -/
def feed (st : List γ × List α) (chunk : List α) : List γ × List α :=
  (st.1 ++ (f.items (st.2 ++ chunk) ++ (f.refusal (st.2 ++ chunk)).toList), f.rest (st.2 ++ chunk))

/-- The number of runs that stop at a refusal. -/
def refusals (chunks : List (List α)) : Nat :=
  (List.range chunks.length).countP fun i => (f.refusal (chunks.take (i + 1)).flatten).isSome

theorem refusals_concat (chunks : List (List α)) (c : List α) :
    f.refusals (chunks ++ [c]) =
      f.refusals chunks + (f.refusal (chunks.flatten ++ c)).isSome.toNat := by
  have hlast : ((chunks ++ [c]).take (chunks.length + 1)).flatten = chunks.flatten ++ c := by
    rw [List.take_of_length_le (by simp)]
    simp
  have hfirst : ∀ i ∈ List.range chunks.length,
      (f.refusal ((chunks ++ [c]).take (i + 1)).flatten).isSome =
        (f.refusal (chunks.take (i + 1)).flatten).isSome := by
    intro i hi
    rw [List.take_append_of_le_length (List.mem_range.mp hi)]
  rw [refusals, List.length_append, List.length_singleton, List.range_succ, List.countP_append,
    List.countP_singleton, hlast, refusals]
  congr 1
  · exact List.countP_congr fun i hi => by rw [hfirst i hi]
  · cases f.refusal (chunks.flatten ++ c) <;> rfl

theorem refusals_eq_zero {chunks : List (List α)} (h : f.refusal chunks.flatten = none) :
    f.refusals chunks = 0 := by
  rw [refusals, List.countP_eq_zero]
  intro i _ hsome
  obtain ⟨e, he⟩ := Option.isSome_iff_exists.mp hsome
  have hstays := refusal_append he (chunks.drop (i + 1)).flatten
  rw [← List.flatten_append, List.take_append_drop, h] at hstays
  cases hstays

theorem refusals_pos {chunks : List (List α)} {e : γ} (h : f.refusal chunks.flatten = some e)
    (hne : chunks ≠ []) : 0 < f.refusals chunks := by
  obtain ⟨chunks, c, rfl⟩ := (List.eq_nil_or_concat chunks).resolve_left hne
  rw [List.concat_eq_append] at h ⊢
  rw [List.flatten_append, List.flatten_singleton] at h
  rw [refusals_concat, h]
  exact Nat.succ_pos _

/-- The runs give out the items of the whole input, and then the same refusal again and again. -/
theorem foldl_feed (chunks : List (List α)) :
    chunks.foldl f.feed ([], []) =
      (f.items chunks.flatten ++
        ((f.refusal chunks.flatten).elim [] (List.replicate (f.refusals chunks))),
        f.rest chunks.flatten) := by
  induction chunks using List.reverseRecOn with
  | nil =>
    have hstop : ∀ b n, f.head [] ≠ .item b n := by
      intro b n h
      have hsize := f.item_size h
      rw [List.length_nil] at hsize
      omega
    rw [List.foldl_nil, List.flatten_nil, f.items_stop hstop, f.rest_stop hstop]
    cases f.refusal [] <;> rfl
  | append_singleton chunks c ih =>
    have hflat : (chunks ++ [c]).flatten = chunks.flatten ++ c := by simp
    rw [List.foldl_append, List.foldl_cons, List.foldl_nil, ih, feed, hflat,
      refusal_rest_append, ← f.rest_append, refusals_concat]
    congr 1
    cases h : f.refusal chunks.flatten with
    | none =>
      rw [refusals_eq_zero f h, f.items_append chunks.flatten c, Option.elim_none, List.append_nil,
        List.append_assoc]
      cases f.refusal (chunks.flatten ++ c) <;> rfl
    | some e =>
      have hnil : f.items (f.rest chunks.flatten ++ c) = [] := by
        have happend := f.items_append chunks.flatten c
        rw [items_append_of_refusal h c] at happend
        exact List.self_eq_append_right.mp happend
      rw [refusal_append h c, items_append_of_refusal h c, hnil]
      simp [List.replicate_add]

end

end Mmvx.Lib.Framing
