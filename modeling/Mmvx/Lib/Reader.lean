/-
  Readers of byte strings that can fail, and the texts they read.

  `Reads r bs x` says that the reader `r` finds `x` in the bytes `bs`, takes exactly these and leaves
  what follows. Readers in sequence read the texts in sequence (`Reads.bind`), and a reader that is
  repeated reads a list (`Reads.many`).
-/
import Mathlib.Init

namespace Mmvx.Lib

/-- A reader that takes bytes from the front, or fails with a text. -/
abbrev Reader (α : Type) : Type := StateT (List UInt8) (Except String) α

namespace Reader

variable {α β : Type}

/-- `n` items one after the other. -/
def many (r : Reader α) : Nat → Reader (List α)
  | 0 => pure []
  | n + 1 => do
    let x ← r
    let xs ← many r n
    return x :: xs

/-- `r` finds `x` in `bs`, whatever follows. -/
def Reads (r : Reader α) (bs : List UInt8) (x : α) : Prop :=
  ∀ rest, r.run (bs ++ rest) = .ok (x, rest)

theorem Reads.pure (x : α) : Reads (Pure.pure x) [] x := fun _ => rfl

theorem Reads.bind {r : Reader α} {s : α → Reader β} {bs bs' : List UInt8} {x : α} {y : β}
    (hr : Reads r bs x) (hs : Reads (s x) bs' y) : Reads (r >>= s) (bs ++ bs') y := by
  intro rest
  rw [List.append_assoc, StateT.run_bind, hr]
  exact hs rest

theorem Reads.map {r : Reader α} {bs : List UInt8} {x : α} (hr : Reads r bs x) (f : α → β) :
    Reads (r >>= fun y => Pure.pure (f y)) bs (f x) := by
  have h := hr.bind (Reads.pure (f x)) (s := fun y => Pure.pure (f y))
  rwa [List.append_nil] at h

/-- The items of a list, each behind the other. -/
theorem Reads.many {r : Reader α} {encode : β → List UInt8} {decode : β → α} {xs : List β}
    (hr : ∀ x ∈ xs, Reads r (encode x) (decode x)) :
    Reads (r.many xs.length) (xs.flatMap encode) (xs.map decode) := by
  induction xs with
  | nil => exact Reads.pure []
  | cons x xs ih =>
    rw [List.flatMap_cons, List.length_cons, List.map_cons]
    refine (hr x List.mem_cons_self).bind ?_
    exact (ih fun y hy => hr y (List.mem_cons_of_mem x hy)).map _

end Reader

end Mmvx.Lib
