/-
  Runs of a partial step function whose steps meet a condition.

  `step s a` is `none` where the action is not enabled. `Reaches step C s₀ s` says that `s` is
  reached from `s₀` by steps that all meet `C`; what holds at the start and is kept by every such
  step holds in every state reached (`Reaches.invariant`). `runFrom` executes a list of actions and
  checks the condition on the way, so that concrete runs can be evaluated (`exists_reaches`). For a
  run without a condition, `forall_states_iff` says when a property holds in all its states.
-/
import Mathlib.Init

namespace Mmvx.Lib

variable {S A : Type} (step : S → A → Option S) (C : S → A → Prop)

/-- `s` is reached from `s₀` by enabled steps that all meet `C`. -/
inductive Reaches (s₀ : S) : S → Prop
  | refl : Reaches s₀ s₀
  | step {s s' : S} {a : A} : Reaches s₀ s → C s a → step s a = some s' → Reaches s₀ s'

variable {step C}

theorem Reaches.invariant {P : S → Prop} {s₀ s : S} (h : Reaches step C s₀ s) (init : P s₀)
    (next : ∀ s a s', P s → C s a → step s a = some s' → P s') : P s := by
  induction h with
  | refl => exact init
  | step _ hc hs ih => exact next _ _ _ ih hc hs

theorem Reaches.trans {s₀ s s' : S} (h : Reaches step C s₀ s) (h' : Reaches step C s s') :
    Reaches step C s₀ s' := by
  induction h' with
  | refl => exact h
  | step _ hc hs ih => exact ih.step hc hs

variable (step C) [∀ s a, Decidable (C s a)]

/-- Run the actions one after the other; `none` if one is not enabled or does not meet `C`. -/
def runFrom (s : S) : List A → Option S
  | [] => some s
  | a :: as => if C s a then (step s a).bind fun s' => runFrom s' as else none

variable {step C}

theorem runFrom_concat (s : S) (as : List A) (a : A) :
    runFrom step C s (as ++ [a]) =
      (runFrom step C s as).bind fun s' => if C s' a then step s' a else none := by
  induction as generalizing s with
  | nil => simp [runFrom]
  | cons b as ih =>
    rw [List.cons_append, runFrom, runFrom]
    split
    · cases step s b with
      | none => rfl
      | some t => exact ih t
    · rfl

theorem reaches_runFrom {s s' : S} {as : List A} (h : runFrom step C s as = some s') :
    Reaches step C s s' := by
  suffices hgen : ∀ s₀, Reaches step C s₀ s → Reaches step C s₀ s' from hgen s .refl
  induction as generalizing s with
  | nil =>
    intro s₀ hs
    cases h
    exact hs
  | cons a as ih =>
    intro s₀ hs
    rw [runFrom] at h
    split at h
    · rename_i hc
      obtain ⟨t, ht, hrun⟩ := Option.bind_eq_some_iff.mp h
      exact ih hrun s₀ (hs.step hc ht)
    · cases h

/-- A concrete run and what holds where it ends. -/
theorem exists_reaches {P : S → Prop} [DecidablePred P] {s : S} (as : List A)
    (h : (runFrom step C s as).any (fun s' => decide (P s')) = true) :
    ∃ s', Reaches step C s s' ∧ P s' := by
  cases hrun : runFrom step C s as with
  | none => rw [hrun] at h; cases h
  | some s' =>
    rw [hrun] at h
    exact ⟨s', reaches_runFrom hrun, by simpa using h⟩

/-! ## Properties of all states of a run -/

/-- The state after a list of actions; `none` if one is not enabled. -/
def run (step : S → A → Option S) (s : S) (as : List A) : Option S :=
  runFrom step (fun _ _ => True) s as

/-- A concrete run and what holds where it ends. -/
theorem exists_run {P : S → Prop} [DecidablePred P] {s : S} (as : List A)
    (h : (run step s as).any (fun s' => decide (P s')) = true) :
    ∃ s', run step s as = some s' ∧ P s' := by
  cases hrun : run step s as with
  | none => rw [hrun] at h; cases h
  | some s' =>
    rw [hrun] at h
    exact ⟨s', rfl, by simpa using h⟩

/-- What holds at the start and is kept by every step, where it may depend on the actions so far. -/
theorem run_history {P : List A → S → Prop} {s₀ : S} (init : P [] s₀)
    (next : ∀ as a s s', P as s → run step s₀ as = some s → step s a = some s' → P (as ++ [a]) s')
    {as : List A} {s : S} (h : run step s₀ as = some s) : P as s := by
  suffices hgen : ∀ n, ∀ as : List A, as.length = n → ∀ s, run step s₀ as = some s → P as s from
    hgen _ as rfl s h
  intro n
  induction n with
  | zero =>
    intro as hlen s hs
    obtain rfl := List.eq_nil_of_length_eq_zero hlen
    rwa [← Option.some.inj hs]
  | succ n ih =>
    intro as hlen s hs
    rcases List.eq_nil_or_concat as with rfl | ⟨as, a, rfl⟩
    · cases hlen
    · rw [List.concat_eq_append] at *
      rw [run, runFrom_concat] at hs
      obtain ⟨t, ht, hstep⟩ := Option.bind_eq_some_iff.mp hs
      rw [if_pos trivial] at hstep
      exact next as a t s (ih as (by simpa using hlen) t ht) ht hstep

theorem run_cons {s : S} {a : A} {as : List A} :
    run step s (a :: as) = (step s a).bind fun s' => run step s' as := by
  rw [run, runFrom, if_pos trivial]
  rfl

/-- What every step that meets `C` keeps. -/
theorem run_keeps {P : S → Prop} {C : A → Prop} {as : List A} {s s' : S}
    (h : run step s as = some s') (init : P s) (hC : ∀ a ∈ as, C a)
    (next : ∀ s a s', P s → C a → step s a = some s' → P s') : P s' := by
  induction as generalizing s with
  | nil => rwa [← Option.some.inj h]
  | cons a as ih =>
    rw [run_cons] at h
    obtain ⟨t, ht, hrun⟩ := Option.bind_eq_some_iff.mp h
    have hfirst := hC a List.mem_cons_self
    exact ih hrun (next s a t init hfirst ht) fun b hb => hC b (List.mem_cons_of_mem a hb)

/-- A run of steps that make something smaller is not longer than that. -/
theorem length_run_le {C : A → Prop} (f : S → Nat) {as : List A} {s s' : S}
    (h : run step s as = some s') (hC : ∀ a ∈ as, C a)
    (next : ∀ s a s', C a → step s a = some s' → f s' < f s) : as.length + f s' ≤ f s := by
  induction as generalizing s with
  | nil =>
    apply Nat.le_of_eq
    rw [← Option.some.inj h, List.length_nil, Nat.zero_add]
  | cons a as ih =>
    rw [run_cons] at h
    obtain ⟨t, ht, hrun⟩ := Option.bind_eq_some_iff.mp h
    have hlt := next s a t (hC a List.mem_cons_self) ht
    have hle := ih hrun fun b hb => hC b (List.mem_cons_of_mem a hb)
    rw [List.length_cons]
    omega

/-- The number of steps of a run that `p` holds of. -/
def countRun (step : S → A → Option S) (p : S → S → Bool) (s : S) : List A → Nat
  | [] => 0
  | a :: as =>
    match step s a with
    | some s' => (p s s').toNat + countRun step p s' as
    | none => 0

/-- If each step that `p` holds of uses up some of `f`, and no step adds to it, there are at most as
    many of them as there was of it. -/
theorem countRun_le {P : S → Prop} {p : S → S → Bool} (f : S → Nat) {as : List A} {s s' : S}
    (h : run step s as = some s') (init : P s)
    (next : ∀ s a s', P s → step s a = some s' → P s' ∧ (p s s').toNat + f s' ≤ f s) :
    countRun step p s as + f s' ≤ f s := by
  induction as generalizing s with
  | nil =>
    apply Nat.le_of_eq
    rw [← Option.some.inj h, countRun, Nat.zero_add]
  | cons a as ih =>
    rw [run_cons] at h
    obtain ⟨t, ht, hrun⟩ := Option.bind_eq_some_iff.mp h
    obtain ⟨hP, hstep⟩ := next s a t init ht
    have hle := ih hrun hP
    rw [countRun, ht]
    dsimp only
    omega

theorem run_take_succ {s : S} {as : List A} {i : Nat} {a : A} (ha : as[i]? = some a) :
    run step s (as.take (i + 1)) = (run step s (as.take i)).bind fun s' => step s' a := by
  rw [List.take_add_one, ha, Option.toList_some, run, runFrom_concat]
  simp only [if_true]
  rfl

theorem run_take_all {s : S} {as : List A} {i : Nat} (ha : as[i]? = none) :
    run step s (as.take (i + 1)) = run step s (as.take i) := by
  rw [List.take_add_one, ha, Option.toList_none, List.append_nil]

/-- What holds at the start and is kept by the steps of a run holds in all its states. -/
theorem run_invariant {J : S → Prop} {M : S → A → Prop} {s₀ : S} {as : List A} (hJ₀ : J s₀)
    (keep : ∀ s a s', J s → M s a → step s a = some s' → J s') {n : Nat}
    (hM : ∀ i < n, ∀ a s s', as[i]? = some a → run step s₀ (as.take i) = some s →
      step s a = some s' → M s a) {s : S} (hs : run step s₀ (as.take n) = some s) : J s := by
  induction n generalizing s with
  | zero => rwa [← Option.some.inj hs]
  | succ n ih =>
    have ih' := fun {t : S} => ih (s := t) fun i hi => hM i (Nat.lt_succ_of_lt hi)
    cases ha : as[n]? with
    | none => exact ih' (by rwa [run_take_all ha] at hs)
    | some a =>
      rw [run_take_succ ha] at hs
      obtain ⟨t, ht, hstep⟩ := Option.bind_eq_some_iff.mp hs
      exact keep t a s (ih' ht) (hM n (Nat.lt_succ_self n) a t s ha ht hstep) hstep

/-- If the steps that meet `M` keep an invariant that gives `P`, and any other step breaks `P`, all
    states of a run have `P` exactly when all its steps meet `M`. -/
theorem forall_states_iff_of_invariant {J P : S → Prop} {M : S → A → Prop} {s₀ : S} (hJ₀ : J s₀)
    (hJP : ∀ s, J s → P s) (keep : ∀ s a s', J s → M s a → step s a = some s' → J s')
    (breaks : ∀ s a s', J s → ¬ M s a → step s a = some s' → ¬ P s') (as : List A) :
    (∀ i s, run step s₀ (as.take i) = some s → P s) ↔
      ∀ i a s s', as[i]? = some a → run step s₀ (as.take i) = some s → step s a = some s' →
        M s a := by
  constructor
  · intro hall i
    induction i using Nat.strongRecOn with
    | _ i ih =>
      intro a s s' ha hs hstep
      have hJ := run_invariant hJ₀ keep ih hs
      have hs' : run step s₀ (as.take (i + 1)) = some s' := by
        rw [run_take_succ ha, hs, Option.bind_some, hstep]
      refine Classical.byContradiction fun hM => ?_
      exact breaks s a s' hJ hM hstep (hall (i + 1) s' hs')
  · intro hmeets i s hs
    exact hJP s (run_invariant hJ₀ keep (fun j _ => hmeets j) hs)

/-- If a step keeps `P` exactly when it meets `M`, all states of a run have `P` exactly when all its
    steps meet `M`. -/
theorem forall_states_iff {I P : S → Prop} {M : S → A → Prop} {s₀ : S} (hI₀ : I s₀)
    (hI : ∀ s a s', I s → step s a = some s' → I s') (hP₀ : P s₀)
    (hP : ∀ s a s', I s → P s → step s a = some s' → (P s' ↔ M s a)) (as : List A) :
    (∀ i s, run step s₀ (as.take i) = some s → P s) ↔
      ∀ i a s s', as[i]? = some a → run step s₀ (as.take i) = some s → step s a = some s' →
        M s a := by
  apply forall_states_iff_of_invariant (J := fun s => I s ∧ P s) ⟨hI₀, hP₀⟩ (fun s h => h.2)
  · intro s a s' ⟨hi, hp⟩ hm hstep
    exact ⟨hI s a s' hi hstep, (hP s a s' hi hp hstep).mpr hm⟩
  · intro s a s' ⟨hi, hp⟩ hm hstep hp'
    exact hm ((hP s a s' hi hp hstep).mp hp')

end Mmvx.Lib
