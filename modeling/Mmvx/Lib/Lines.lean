/-
  Lines that end in two symbols, `cr` and then `lf`.

  `cutLine` cuts the input at the first end of a line. More input does not change a line that is
  there (`cutLine_append`), and a line without `lf` is read back (`cutLine_line`).
-/
import Mathlib.Data.List.TakeWhile

namespace Mmvx.Lib

variable {α : Type} [DecidableEq α] (cr lf : α)

/-- The first line, and what follows its end; `none` if no line ends. -/
def cutLine : List α → Option (List α × List α)
  | [] => none
  | [_] => none
  | a :: b :: l =>
    if a = cr ∧ b = lf then some ([], l)
    else (cutLine (b :: l)).map fun x => (a :: x.1, x.2)

variable {cr lf}

theorem cutLine_eq {x line rest : List α} (h : cutLine cr lf x = some (line, rest)) :
    x = line ++ cr :: lf :: rest := by
  fun_induction cutLine generalizing line rest with
  | case1 => cases h
  | case2 => cases h
  | case3 a b l hend =>
    obtain ⟨rfl, rfl⟩ := hend
    cases h
    rfl
  | case4 a b l hend ih =>
    obtain ⟨⟨line', rest'⟩, hcut, heq⟩ := Option.map_eq_some_iff.mp h
    cases heq
    rw [ih hcut, List.cons_append]

theorem length_cutLine {x line rest : List α} (h : cutLine cr lf x = some (line, rest)) :
    rest.length < x.length := by
  rw [cutLine_eq h, List.length_append, List.length_cons, List.length_cons]
  omega

theorem suffix_cutLine {x line rest : List α} (h : cutLine cr lf x = some (line, rest)) :
    rest <:+ x :=
  ⟨line ++ [cr, lf], by rw [cutLine_eq h, List.append_assoc]; rfl⟩

theorem cutLine_append {x line rest : List α} (h : cutLine cr lf x = some (line, rest))
    (y : List α) : cutLine cr lf (x ++ y) = some (line, rest ++ y) := by
  fun_induction cutLine generalizing line rest with
  | case1 => cases h
  | case2 => cases h
  | case3 a b l hend =>
    cases h
    rw [List.cons_append, List.cons_append, cutLine, if_pos hend]
  | case4 a b l hend ih =>
    obtain ⟨⟨line', rest'⟩, hcut, heq⟩ := Option.map_eq_some_iff.mp h
    cases heq
    have htail := ih hcut
    rw [List.cons_append] at htail
    rw [List.cons_append, List.cons_append, cutLine, if_neg hend, htail]
    rfl

theorem cutLine_line (hne : cr ≠ lf) {line : List α} (h : lf ∉ line) (rest : List α) :
    cutLine cr lf (line ++ cr :: lf :: rest) = some (line, rest) := by
  induction line with
  | nil => rw [List.nil_append, cutLine, if_pos ⟨rfl, rfl⟩]
  | cons a line ih =>
    rw [List.mem_cons, not_or] at h
    have htail := ih h.2
    cases line with
    | nil =>
      rw [List.nil_append] at htail
      rw [List.cons_append, List.nil_append, cutLine, htail, if_neg]
      · rfl
      · rintro ⟨-, heq⟩
        exact hne heq
    | cons b line =>
      rw [List.cons_append] at htail
      rw [List.cons_append, List.cons_append, cutLine, htail, if_neg]
      · rfl
      · rintro ⟨-, rfl⟩
        exact h.2 List.mem_cons_self

/-! ## Words before a separator -/

theorem takeWhile_word {sep : α} {word : List α} (h : sep ∉ word) (rest : List α) :
    (word ++ sep :: rest).takeWhile (· ≠ sep) = word := by
  have hword : ∀ a ∈ word, decide (a ≠ sep) = true := by
    intro a ha
    rw [decide_eq_true_iff]
    rintro rfl
    exact h ha
  rw [List.takeWhile_append_of_pos hword, List.takeWhile_cons_of_neg (by simp), List.append_nil]

theorem dropWhile_word {sep : α} {word : List α} (h : sep ∉ word) (rest : List α) :
    (word ++ sep :: rest).dropWhile (· ≠ sep) = sep :: rest := by
  have hword : ∀ a ∈ word, decide (a ≠ sep) = true := by
    intro a ha
    rw [decide_eq_true_iff]
    rintro rfl
    exact h ha
  rw [List.dropWhile_append_of_pos hword, List.dropWhile_cons_of_neg (by simp)]

theorem dropWhile_no_sep {sep : α} {word : List α} (h : sep ∉ word) :
    word.dropWhile (· ≠ sep) = [] := by
  rw [List.dropWhile_eq_nil_iff]
  intro a ha
  rw [decide_eq_true_iff]
  rintro rfl
  exact h ha

end Mmvx.Lib
