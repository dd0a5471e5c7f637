/-
  `std::map` as a list of entries in the order of their keys.

  The entries have distinct keys by construction. `insert` is `m[k] = v`, `erase` is `m.erase(k)`,
  and `eraseValue` removes the first entry, in key order, that holds a value. `find` after each of
  them is given by a lemma, so that no proof looks at the entries.
-/
import Mathlib.Data.List.Nodup

namespace Mmvx.Lib

/-- A finite map with entries in key order. -/
structure OrdMap (κ α : Type) where
  entries : List (κ × α)
  nodup : (entries.map Prod.fst).Nodup

namespace OrdMap

variable {κ α : Type}

def empty : OrdMap κ α := ⟨[], List.nodup_nil⟩

/-- Put a new entry before the first entry with a greater key. -/
def insertEntry [LT κ] [DecidableLT κ] (e : κ × α) : List (κ × α) → List (κ × α)
  | [] => [e]
  | x :: xs => if e.1 < x.1 then e :: x :: xs else x :: insertEntry e xs

theorem insertEntry_perm [LT κ] [DecidableLT κ] (e : κ × α) (xs : List (κ × α)) :
    (insertEntry e xs).Perm (e :: xs) := by
  induction xs with
  | nil => exact .refl _
  | cons x xs ih =>
    rw [insertEntry]
    split
    · exact .refl _
    · exact (ih.cons x).trans (List.Perm.swap e x xs)

section

variable [DecidableEq κ]

def find (m : OrdMap κ α) (k : κ) : Option α :=
  (m.entries.find? fun e => e.1 = k).map Prod.snd

theorem find_empty (k : κ) : (empty : OrdMap κ α).find k = none := rfl

theorem mem_of_find {m : OrdMap κ α} {k : κ} {v : α} (h : m.find k = some v) :
    (k, v) ∈ m.entries := by
  obtain ⟨⟨k', v'⟩, hf, rfl⟩ := Option.map_eq_some_iff.mp h
  have hk : k' = k := by simpa using List.find?_some hf
  rw [← hk]
  exact List.mem_of_find?_eq_some hf

theorem find_of_mem {m : OrdMap κ α} {k : κ} {v : α} (h : (k, v) ∈ m.entries) :
    m.find k = some v := by
  obtain ⟨es, hnd⟩ := m
  simp only [find]
  induction es with
  | nil => cases h
  | cons e es ih =>
    rw [List.map_cons, List.nodup_cons] at hnd
    rcases List.mem_cons.mp h with rfl | h
    · simp
    · have hne : e.1 ≠ k := by
        rintro rfl
        exact hnd.1 (List.mem_map.mpr ⟨_, h, rfl⟩)
      rw [List.find?_cons_of_neg (by simpa using hne)]
      exact ih hnd.2 h

theorem find_eq_some_iff {m : OrdMap κ α} {k : κ} {v : α} :
    m.find k = some v ↔ (k, v) ∈ m.entries :=
  ⟨mem_of_find, find_of_mem⟩

theorem find_eq_none_iff {m : OrdMap κ α} {k : κ} :
    m.find k = none ↔ k ∉ m.entries.map Prod.fst := by
  rw [find, Option.map_eq_none_iff, List.find?_eq_none, List.mem_map]
  constructor
  · rintro h ⟨e, he, rfl⟩
    exact h e he (by simp)
  · intro h e he hk
    exact h ⟨e, he, by simpa using hk⟩

/-- Maps agree when they have the same entries for every key. -/
theorem find_congr {m m' : OrdMap κ α} {k : κ} (h : ∀ v, (k, v) ∈ m.entries ↔ (k, v) ∈ m'.entries) :
    m.find k = m'.find k := by
  apply Option.ext
  intro v
  simp only [find_eq_some_iff, h v]

/-- `m.erase(k)`. -/
def erase (m : OrdMap κ α) (k : κ) : OrdMap κ α where
  entries := m.entries.filter fun e => e.1 ≠ k
  nodup := m.nodup.sublist (List.filter_sublist.map _)

theorem find_erase (m : OrdMap κ α) (k k' : κ) :
    (m.erase k).find k' = if k' = k then none else m.find k' := by
  split
  · rename_i h
    subst h
    rw [find_eq_none_iff]
    simp [erase]
  · rename_i h
    apply find_congr
    intro v
    simp [erase, h]

/-- `m[k] = v`. -/
def insert [LT κ] [DecidableLT κ] (m : OrdMap κ α) (k : κ) (v : α) : OrdMap κ α where
  entries := insertEntry (k, v) (m.erase k).entries
  nodup := by
    have hperm := (insertEntry_perm (k, v) (m.erase k).entries).map Prod.fst
    rw [hperm.nodup_iff, List.map_cons, List.nodup_cons]
    exact ⟨find_eq_none_iff.mp (by rw [find_erase, if_pos rfl]), (m.erase k).nodup⟩

theorem find_insert [LT κ] [DecidableLT κ] (m : OrdMap κ α) (k k' : κ) (v : α) :
    (m.insert k v).find k' = if k' = k then some v else m.find k' := by
  have hmem : ∀ e, e ∈ (m.insert k v).entries ↔ e = (k, v) ∨ e ∈ (m.erase k).entries := by
    intro e
    rw [show (m.insert k v).entries = insertEntry (k, v) (m.erase k).entries from rfl,
      (insertEntry_perm (k, v) (m.erase k).entries).mem_iff, List.mem_cons]
  split
  · rename_i h
    subst h
    exact find_of_mem ((hmem _).mpr (Or.inl rfl))
  · rename_i h
    apply find_congr
    intro w
    rw [hmem]
    simp [erase, h]

end

section

variable [DecidableEq α]

/-- Remove the first entry that holds `v`. -/
def eraseValue (m : OrdMap κ α) (v : α) : OrdMap κ α where
  entries := m.entries.eraseP fun e => e.2 = v
  nodup := m.nodup.sublist (List.eraseP_sublist.map _)

theorem find_eraseValue_of_some [DecidableEq κ] {m : OrdMap κ α} {v w : α} {k : κ}
    (h : (m.eraseValue v).find k = some w) : m.find k = some w :=
  find_of_mem (List.mem_of_mem_eraseP (mem_of_find h))

theorem find_eraseValue_of_ne [DecidableEq κ] {m : OrdMap κ α} {v w : α} {k : κ}
    (h : m.find k = some w) (hne : w ≠ v) : (m.eraseValue v).find k = some w := by
  apply find_of_mem
  show (k, w) ∈ m.entries.eraseP fun e => e.2 = v
  rw [List.mem_eraseP_of_neg (by simpa using hne)]
  exact mem_of_find h

/-- The entry that `eraseValue` removes is the only one with its key. -/
theorem eraseValue_split {m : OrdMap κ α} {v : α} {k : κ} (h : (k, v) ∈ m.entries) :
    ∃ k₀, (k₀, v) ∈ m.entries ∧
      ∀ e, e ∈ (m.eraseValue v).entries ↔ e ∈ m.entries ∧ e.1 ≠ k₀ := by
  obtain ⟨⟨k₀, v₀⟩, l₁, l₂, -, hv₀, heq, herase⟩ :=
    List.exists_of_eraseP (p := fun e : κ × α => e.2 = v) h (by simp)
  obtain rfl : v₀ = v := by simpa using hv₀
  have hnd := m.nodup
  rw [heq, List.map_append, List.map_cons, List.nodup_middle, List.nodup_cons,
    ← List.map_append] at hnd
  refine ⟨k₀, by simp [heq], ?_⟩
  intro e
  show e ∈ m.entries.eraseP _ ↔ _
  rw [herase, heq, List.mem_append, List.mem_append, List.mem_cons]
  constructor
  · intro he
    refine ⟨by tauto, ?_⟩
    intro hk
    apply hnd.1
    rw [List.mem_map]
    exact ⟨e, List.mem_append.mpr he, hk⟩
  · rintro ⟨he | rfl | he, hk⟩
    · exact Or.inl he
    · exact absurd rfl hk
    · exact Or.inr he

/-- No entry holds `v` any more exactly when at most one did. -/
theorem eraseValue_clears_iff [DecidableEq κ] {m : OrdMap κ α} {v : α} :
    (∀ k, (m.eraseValue v).find k ≠ some v) ↔
      ∀ k k', m.find k = some v → m.find k' = some v → k = k' := by
  constructor
  · intro hclear k k' hk hk'
    obtain ⟨k₀, -, hmem⟩ := eraseValue_split (mem_of_find hk)
    have hkeep : ∀ j, m.find j = some v → j = k₀ := by
      intro j hj
      by_contra hne
      exact hclear j (find_of_mem ((hmem _).mpr ⟨mem_of_find hj, hne⟩))
    rw [hkeep k hk, hkeep k' hk']
  · intro huniq k hk
    have hfind := find_eraseValue_of_some hk
    obtain ⟨k₀, hk₀, hmem⟩ := eraseValue_split (mem_of_find hfind)
    exact ((hmem _).mp (mem_of_find hk)).2 (huniq k k₀ hfind (find_of_mem hk₀))

/-- If at most one entry held `v`, that entry is gone and nothing else is. -/
theorem find_eraseValue_of_once [DecidableEq κ] {m : OrdMap κ α} {v : α}
    (h : ∀ k k', m.find k = some v → m.find k' = some v → k = k') (k : κ) :
    (m.eraseValue v).find k = if m.find k = some v then none else m.find k := by
  have hclear := eraseValue_clears_iff.mpr h
  cases herase : (m.eraseValue v).find k with
  | some w =>
    have hw := find_eraseValue_of_some herase
    have hne : w ≠ v := by
      rintro rfl
      exact hclear k herase
    rw [hw, if_neg (fun heq => hne (Option.some.inj heq))]
  | none =>
    split
    · rfl
    · rename_i hne
      cases hw : m.find k with
      | none => rfl
      | some w =>
        have hkept := find_eraseValue_of_ne hw fun heq => hne (by rw [hw, heq])
        rw [herase] at hkept
        cases hkept

end

end OrdMap

end Mmvx.Lib
