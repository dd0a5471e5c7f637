/-
  Condition variables: the threads that use one as a list of phases, of which one is `wait`.

  `notifyOne` wakes one of those that wait, any of them, and puts it into the phase `awake`. If
  somebody waits, there is for everything that is to be had a thread on its way to it (`Served`); a
  notification for each new thing keeps this so (`Served.notify`), and therefore no wakeup is lost.
-/
import Mmvx.Lib.Entries

namespace Mmvx.Lib

variable {α : Type} [DecidableEq α]

section

variable (wait awake : α)

/-- `pthread_cond_signal`: one of those that wait goes on. -/
def notifyOne (l : List α) : Option Nat → Option (List α)
  | some i => if l[i]? = some wait then some (l.set i awake) else none
  | none => if wait ∈ l then none else some l

/-- `pthread_cond_broadcast`. -/
def notifyAll (l : List α) : List α := l.map fun a => if a = wait then awake else a

/-- If somebody waits, at least `n` are on their way. -/
def Served (l : List α) (n : Nat) : Prop := wait ∈ l → n ≤ l.countP fun a => a = awake

end

variable {wait awake a b : α} {l l' : List α} {i m n : Nat} {woken : Option Nat}

theorem notifyOne_cases (h : notifyOne wait awake l woken = some l') :
    (∃ i, l[i]? = some wait ∧ l' = l.set i awake) ∨ (wait ∉ l ∧ l' = l) := by
  unfold notifyOne at h
  split at h
  · split at h
    · exact .inl ⟨_, ‹_›, (Option.some.inj h).symm⟩
    · cases h
  · split at h
    · cases h
    · exact .inr ⟨‹_›, (Option.some.inj h).symm⟩

theorem length_notifyOne (h : notifyOne wait awake l woken = some l') : l'.length = l.length := by
  rcases notifyOne_cases h with ⟨i, -, rfl⟩ | ⟨-, rfl⟩
  · exact List.length_set
  · rfl

theorem notifyOne_of_not_mem (h : notifyOne wait awake l woken = some l') (hnone : wait ∉ l) :
    l' = l := by
  rcases notifyOne_cases h with ⟨i, hi, -⟩ | ⟨-, rfl⟩
  · exact absurd (List.mem_of_getElem? hi) hnone
  · rfl

/-- Those that do not wait stay where they are, and nobody gets anywhere else. -/
theorem getElem?_notifyOne (h : notifyOne wait awake l woken = some l') (hw : a ≠ wait)
    (ha : a ≠ awake) (j : Nat) : l'[j]? = some a ↔ l[j]? = some a := by
  rcases notifyOne_cases h with ⟨i, hi, rfl⟩ | ⟨-, rfl⟩
  · by_cases hij : i = j
    · subst hij
      rw [List.getElem?_set_self (List.getElem?_eq_some_iff.mp hi).1, hi]
      simp [Ne.symm hw, Ne.symm ha]
    · rw [List.getElem?_set_ne hij]
  · rfl

theorem mem_of_mem_notifyOne (h : notifyOne wait awake l woken = some l') (ha : a ∈ l') :
    a ∈ l ∨ a = awake := by
  rcases notifyOne_cases h with ⟨i, -, rfl⟩ | ⟨-, rfl⟩
  · exact List.mem_or_eq_of_mem_set ha
  · exact .inl ha

theorem countP_notifyOne (p : α → Bool) (h : notifyOne wait awake l woken = some l')
    (hp : p awake = p wait) : l'.countP p = l.countP p := by
  rcases notifyOne_cases h with ⟨i, hi, rfl⟩ | ⟨-, rfl⟩
  · have hcount := countP_set_add p hi awake
    rw [hp] at hcount
    omega
  · rfl

theorem sum_notifyOne_le (f : α → Nat) (h : notifyOne wait awake l woken = some l') {d : Nat}
    (hd : f awake ≤ f wait + d) : (l'.map f).sum ≤ (l.map f).sum + d := by
  rcases notifyOne_cases h with ⟨i, hi, rfl⟩ | ⟨-, rfl⟩
  · have hsum := sum_map_set_add f hi awake
    omega
  · exact Nat.le_add_right _ _

theorem exists_notifyOne (wait awake : α) (l : List α) :
    ∃ woken l', notifyOne wait awake l woken = some l' := by
  by_cases h : wait ∈ l
  · obtain ⟨i, hi⟩ := List.getElem?_of_mem h
    exact ⟨some i, l.set i awake, if_pos hi⟩
  · exact ⟨none, l, if_neg h⟩

theorem not_mem_notifyAll (h : awake ≠ wait) : wait ∉ notifyAll wait awake l := by
  intro hmem
  obtain ⟨a, -, ha⟩ := List.mem_map.mp hmem
  split at ha
  · exact h ha
  · exact absurd ha ‹_›

theorem countP_notifyAll (p : α → Bool) (hp : p awake = p wait) :
    (notifyAll wait awake l).countP p = l.countP p := by
  rw [notifyAll, List.countP_map]
  refine List.countP_congr ?_
  intro a _
  dsimp only [Function.comp_apply]
  split
  · rename_i ha
    rw [ha, hp]
  · rfl

theorem notifyAll_of_not_mem (h : wait ∉ l) : notifyAll wait awake l = l := by
  have hsame : ∀ a ∈ l, (if a = wait then awake else a) = id a := by
    intro a ha
    refine if_neg ?_
    rintro rfl
    exact h ha
  rw [notifyAll, List.map_congr_left hsame, List.map_id]

/-! ## No wakeup is lost -/

theorem served_zero : Served wait awake l 0 := fun _ => Nat.zero_le _

theorem served_of_not_mem (h : wait ∉ l) : Served wait awake l n := fun hmem => absurd hmem h

/-- Somebody goes on, and takes at most what it was on its way to. -/
theorem Served.set (h : Served wait awake l n) (hi : l[i]? = some a) (hb : b ≠ wait)
    (hn : m + (decide (a = awake)).toNat ≤ n + (decide (b = awake)).toNat) :
    Served wait awake (l.set i b) m := by
  intro hmem
  have hold : wait ∈ l := (List.mem_or_eq_of_mem_set hmem).resolve_right (Ne.symm hb)
  have hcount := countP_set_add (fun a => a = awake) hi b
  have hle := h hold
  omega

/-- Somebody new comes. -/
theorem Served.concat (h : Served wait awake l n) (ha : a ≠ wait) :
    Served wait awake (l ++ [a]) n := by
  intro hmem
  rw [List.mem_append, List.mem_singleton] at hmem
  have hle := h (hmem.resolve_right (Ne.symm ha))
  rw [List.countP_append]
  omega

/-- There is one thing more to be had, and somebody is told. -/
theorem Served.notify (h : Served wait awake l n) (hne : awake ≠ wait)
    (hnotify : notifyOne wait awake l woken = some l') : Served wait awake l' (n + 1) := by
  rcases notifyOne_cases hnotify with ⟨i, hi, rfl⟩ | ⟨hnone, rfl⟩
  · exact h.set hi hne (by simp [Ne.symm hne])
  · exact served_of_not_mem hnone

theorem Served.mono (h : Served wait awake l n) (hmn : m ≤ n) : Served wait awake l m :=
  fun hmem => Nat.le_trans hmn (h hmem)

end Mmvx.Lib
