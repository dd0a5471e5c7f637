/-
  Calls over a message stream, and their answers.

  One direction of a protocol: calls are numbered, registered under their number, and sent; the
  other side takes the requests one by one, refuses some and serves the others, in any order of
  completion; and an answer is handed to what is registered under its number. Numbers come from a
  counter of 64 bits.

  Every call is in one place at a time (`Good.tokens`): its request is under way, or it is served,
  or its answer is under way, or it has been handed over. So a call gets at most one answer, that to
  its own request, and gets it unless something of it is left somewhere (`Good.answers`).
-/
import Mathlib.Data.List.Perm.Basic
import Mmvx.Lib.Entries

namespace Mmvx.Net.Rpc

open Mmvx.Lib

/-- What of a message matters here: its number, and the rest of it. -/
structure Numbered (μ : Type) where
  id : Nat
  body : μ
  deriving DecidableEq, Repr

/-- Where `CallMethod` is. -/
inductive CallPhase where
  /-- It has its number. -/
  | numbered
  /-- It is in the table. -/
  | registered
  | sent
  deriving DecidableEq, Repr

structure Call (μ ν : Type) where
  request : Numbered μ
  phase : CallPhase
  /-- The answers that the closure has been run with. -/
  ran : List (Numbered ν)
  deriving DecidableEq, Repr

structure Calls (μ ν : Type) where
  calls : List (Call μ ν)
  table : Nat → Option Nat
  requests : List (Numbered μ)
  serving : List (Numbered μ)
  responses : List (Numbered ν)
  /-- Which answer was given to which request. -/
  answered : List (Numbered μ × Numbered ν)

namespace Calls

variable {μ ν : Type}

/-- The number of the `k`-th call. -/
def number (k : Nat) : Nat := (k + 1) % 18446744073709551616

def init : Calls μ ν := ⟨[], fun _ => none, [], [], [], []⟩

inductive Moves (v : Calls μ ν) : Calls μ ν → Prop
  | call (m : μ) : Moves v { v with
      calls := v.calls ++ [⟨⟨number v.calls.length, m⟩, .numbered, []⟩] }
  | register {k : Nat} {c : Call μ ν} (hk : v.calls[k]? = some c) (hphase : c.phase = .numbered) :
      Moves v { v with
        calls := v.calls.set k { c with phase := .registered }
        table := fun i => if i = c.request.id then some k else v.table i }
  | send {k : Nat} {c : Call μ ν} (hk : v.calls[k]? = some c) (hphase : c.phase = .registered) :
      Moves v { v with
        calls := v.calls.set k { c with phase := .sent }
        requests := v.requests ++ [c.request] }
  | refuse {q : Numbered μ} {rest : List (Numbered μ)} (hq : v.requests = q :: rest) (r : ν) :
      Moves v { v with
        requests := rest
        responses := v.responses ++ [⟨q.id, r⟩]
        answered := v.answered ++ [(q, ⟨q.id, r⟩)] }
  | serve {q : Numbered μ} {rest : List (Numbered μ)} (hq : v.requests = q :: rest) :
      Moves v { v with requests := rest, serving := v.serving ++ [q] }
  | done {j : Nat} {q : Numbered μ} (hj : v.serving[j]? = some q) (r : ν) :
      Moves v { v with
        serving := v.serving.eraseIdx j
        responses := v.responses ++ [⟨q.id, r⟩]
        answered := v.answered ++ [(q, ⟨q.id, r⟩)] }
  | deliver {r : Numbered ν} {rest : List (Numbered ν)} {k : Nat} {c : Call μ ν}
      (hr : v.responses = r :: rest) (hfind : v.table r.id = some k)
      (hk : v.calls[k]? = some c) :
      Moves v { v with
        responses := rest
        table := fun i => if i = r.id then none else v.table i
        calls := v.calls.set k { c with ran := c.ran ++ [r] } }

/-- How many things of the call with number `i` are under way or served. -/
def tokens (v : Calls μ ν) (i : Nat) : Nat :=
  (v.requests.countP fun q => q.id = i) + (v.serving.countP fun q => q.id = i) +
    v.responses.countP fun r => r.id = i

structure Good (v : Calls μ ν) : Prop where
  ids : ∀ (k : Nat) c, v.calls[k]? = some c → c.request.id = number k
  table : ∀ (k : Nat) c, v.calls[k]? = some c →
    v.table c.request.id = if c.phase ≠ .numbered ∧ c.ran = [] then some k else none
  unused : ∀ i, (∀ (k : Nat) c, v.calls[k]? = some c → c.request.id ≠ i) → v.table i = none
  tokens : ∀ (k : Nat) c, v.calls[k]? = some c →
    v.tokens c.request.id + c.ran.length = if c.phase = .sent then 1 else 0
  requests : ∀ q ∈ v.requests ++ v.serving, ∃ (k : Nat) (c : _), v.calls[k]? = some c ∧ q = c.request
  responses : ∀ r ∈ v.responses, ∃ (k : Nat) (c : _), v.calls[k]? = some c ∧
    r.id = c.request.id ∧ (c.request, r) ∈ v.answered
  ran : ∀ (k : Nat) c, v.calls[k]? = some c → ∀ r ∈ c.ran, (c.request, r) ∈ v.answered

theorem good_init : Good (init : Calls μ ν) where
  ids k c hk := by cases hk
  table k c hk := by cases hk
  unused i _ := rfl
  tokens k c hk := by cases hk
  requests q hq := by cases hq
  responses r hr := by cases hr
  ran k c hk := by cases hk

variable {v v' : Calls μ ν} {k j : Nat} {c d : Call μ ν}

theorem number_inj {k j : Nat} (hk : k < 18446744073709551616) (hj : j < 18446744073709551616)
    (h : number k = number j) : k = j := by
  unfold number at h
  omega

/-- Calls with one number are one call. -/
theorem Good.same (h : Good v) (hlen : v.calls.length ≤ 18446744073709551616)
    (hk : v.calls[k]? = some c) (hj : v.calls[j]? = some d) (hid : c.request.id = d.request.id) :
    k = j ∧ c = d := by
  have hklt := (List.getElem?_eq_some_iff.mp hk).1
  have hjlt := (List.getElem?_eq_some_iff.mp hj).1
  rw [h.ids k c hk, h.ids j d hj] at hid
  obtain rfl := number_inj (by omega) (by omega) hid
  rw [hk] at hj
  exact ⟨rfl, Option.some.inj hj⟩

/-- Everything that is under way or served belongs to a call. -/
theorem Good.tokens_eq_zero (h : Good v) {i : Nat}
    (hunused : ∀ (k : Nat) c, v.calls[k]? = some c → c.request.id ≠ i) : v.tokens i = 0 := by
  have hrequest : ∀ q ∈ v.requests ++ v.serving, q.id ≠ i := by
    intro q hq
    obtain ⟨k, c, hk, rfl⟩ := h.requests q hq
    exact hunused k c hk
  have hresponse : ∀ r ∈ v.responses, r.id ≠ i := by
    intro r hr
    obtain ⟨k, c, hk, hid, -⟩ := h.responses r hr
    rw [hid]
    exact hunused k c hk
  have hzero : (v.requests.countP fun q => q.id = i) = 0 ∧
      (v.serving.countP fun q => q.id = i) = 0 ∧ (v.responses.countP fun r => r.id = i) = 0 := by
    refine ⟨List.countP_eq_zero.mpr ?_, List.countP_eq_zero.mpr ?_, List.countP_eq_zero.mpr ?_⟩
    · intro q hq
      simpa using hrequest q (List.mem_append_left _ hq)
    · intro q hq
      simpa using hrequest q (List.mem_append_right _ hq)
    · intro r hr
      simpa using hresponse r hr
  unfold Calls.tokens
  omega

/-- The call of an answer under way waits for it. -/
theorem Good.waiting (h : Good v) {r : Numbered ν} (hr : r ∈ v.responses) :
    ∃ (k : Nat) (c : _), v.calls[k]? = some c ∧ r.id = c.request.id ∧ c.phase = .sent ∧ c.ran = [] ∧
      v.table r.id = some k ∧ (c.request, r) ∈ v.answered := by
  obtain ⟨k, c, hk, hid, hans⟩ := h.responses r hr
  have hpos : 0 < v.responses.countP fun r => r.id = c.request.id :=
    List.countP_pos_iff.mpr ⟨r, hr, by simpa using hid⟩
  have htokens := h.tokens k c hk
  have hentry := h.table k c hk
  simp only [Calls.tokens] at htokens
  have hsent : c.phase = .sent := by
    by_contra hne
    rw [if_neg hne] at htokens
    omega
  rw [if_pos hsent] at htokens
  have hran : c.ran = [] := List.eq_nil_of_length_eq_zero (by omega)
  rw [if_pos ⟨by rw [hsent]; decide, hran⟩] at hentry
  exact ⟨k, c, hk, hid, hsent, hran, hid ▸ hentry, hans⟩

/-! ## Steps of a call -/

theorem Good.call (h : Good v) (hlen : v.calls.length < 18446744073709551616) (m : μ) :
    Good { v with calls := v.calls ++ [⟨⟨number v.calls.length, m⟩, .numbered, []⟩] } := by
  have hnew : ∀ (k : Nat) c, v.calls[k]? = some c → c.request.id ≠ number v.calls.length := by
    intro k c hk hid
    have hlt := (List.getElem?_eq_some_iff.mp hk).1
    rw [h.ids k c hk] at hid
    have := number_inj (by omega) (by omega) hid
    omega
  have hold {k : Nat} {c : Call μ ν} (hk : v.calls[k]? = some c) :
      (v.calls ++ [⟨⟨number v.calls.length, m⟩, .numbered, []⟩])[k]? = some c := by
    rw [List.getElem?_append_left (List.getElem?_eq_some_iff.mp hk).1, hk]
  refine ⟨?_, ?_, ?_, ?_, ?_, ?_, ?_⟩
  · intro k c hk
    rcases getElem?_concat_cases hk with hk | ⟨rfl, rfl⟩
    · exact h.ids k c hk
    · rfl
  · intro k c hk
    rcases getElem?_concat_cases hk with hk | ⟨rfl, rfl⟩
    · exact h.table k c hk
    · rw [if_neg (by simp)]
      exact h.unused _ hnew
  · intro i hi
    exact h.unused i fun k c hk => hi k c (hold hk)
  · intro k c hk
    rcases getElem?_concat_cases hk with hk | ⟨rfl, rfl⟩
    · exact h.tokens k c hk
    · exact h.tokens_eq_zero hnew
  · intro q hq
    obtain ⟨k, c, hk, hqc⟩ := h.requests q hq
    exact ⟨k, c, hold hk, hqc⟩
  · intro r hr
    obtain ⟨k, c, hk, hrest⟩ := h.responses r hr
    exact ⟨k, c, hold hk, hrest⟩
  · intro k c hk
    rcases getElem?_concat_cases hk with hk | ⟨rfl, rfl⟩
    · exact h.ran k c hk
    · simp

/-- A call changes, but not its request. -/
theorem set_forward {c' : Call μ ν} (hk : v.calls[k]? = some c) (hc' : c'.request = c.request)
    (hj : v.calls[j]? = some d) :
    ∃ d', (v.calls.set k c')[j]? = some d' ∧ d'.request = d.request := by
  by_cases hkj : k = j
  · subst hkj
    rw [hk] at hj
    obtain rfl := Option.some.inj hj
    exact ⟨c', List.getElem?_set_self (List.getElem?_eq_some_iff.mp hk).1, hc'⟩
  · exact ⟨d, by rw [List.getElem?_set_ne hkj, hj], rfl⟩

/-- A call changes, with what is under way and what is registered for it; for the other calls
    nothing changes. -/
theorem Good.set (h : Good v) (hlen : v.calls.length ≤ 18446744073709551616)
    (hk : v.calls[k]? = some c) {c' : Call μ ν} (hcalls : v'.calls = v.calls.set k c')
    (hc' : c'.request = c.request)
    (htable : ∀ i, i ≠ c.request.id → v'.table i = v.table i)
    (hself : v'.table c.request.id =
      if c'.phase ≠ .numbered ∧ c'.ran = [] then some k else none)
    (htokens : ∀ i, i ≠ c.request.id → v'.tokens i = v.tokens i)
    (hown : v'.tokens c.request.id + c'.ran.length = if c'.phase = .sent then 1 else 0)
    (hrequests : ∀ q ∈ v'.requests ++ v'.serving, q ∈ v.requests ++ v.serving ∨ q = c.request)
    (hresponses : ∀ r ∈ v'.responses, r ∈ v.responses) (hanswered : v'.answered = v.answered)
    (hran : ∀ r ∈ c'.ran, (c.request, r) ∈ v.answered) : Good v' := by
  have hother {j : Nat} {d : Call μ ν} (hj : v.calls[j]? = some d) (hne : j ≠ k) :
      d.request.id ≠ c.request.id := fun hid => hne (h.same hlen hj hk hid).1
  refine ⟨?_, ?_, ?_, ?_, ?_, ?_, ?_⟩
  · intro j d hj
    rw [hcalls] at hj
    rcases getElem?_set_cases hj with ⟨rfl, rfl⟩ | ⟨hne, hj⟩
    · rw [hc']
      exact h.ids _ _ hk
    · exact h.ids j d hj
  · intro j d hj
    rw [hcalls] at hj
    rcases getElem?_set_cases hj with ⟨rfl, rfl⟩ | ⟨hne, hj⟩
    · rw [hc']
      exact hself
    · rw [htable _ (hother hj hne)]
      exact h.table j d hj
  · intro i hi
    have hall : ∀ (j : Nat) d, v.calls[j]? = some d → d.request.id ≠ i := by
      intro j d hj
      obtain ⟨d', hj', hd'⟩ := set_forward hk hc' hj
      rw [← hd']
      exact hi j d' (hcalls ▸ hj')
    rw [htable i (hall k c hk).symm]
    exact h.unused i hall
  · intro j d hj
    rw [hcalls] at hj
    rcases getElem?_set_cases hj with ⟨rfl, rfl⟩ | ⟨hne, hj⟩
    · rw [hc']
      exact hown
    · rw [htokens _ (hother hj hne)]
      exact h.tokens j d hj
  · intro q hq
    rcases hrequests q hq with hold | rfl
    · obtain ⟨j, d, hj, rfl⟩ := h.requests q hold
      obtain ⟨d', hj', hd'⟩ := set_forward hk hc' hj
      exact ⟨j, d', hcalls ▸ hj', hd'.symm⟩
    · obtain ⟨d', hj', hd'⟩ := set_forward hk hc' hk
      exact ⟨k, d', hcalls ▸ hj', hd'.symm⟩
  · intro r hr
    obtain ⟨j, d, hj, hid, hmem⟩ := h.responses r (hresponses r hr)
    obtain ⟨d', hj', hd'⟩ := set_forward hk hc' hj
    rw [← hd'] at hid hmem
    exact ⟨j, d', hcalls ▸ hj', hid, hanswered ▸ hmem⟩
  · intro j d hj r hr
    rw [hanswered]
    rw [hcalls] at hj
    rcases getElem?_set_cases hj with ⟨rfl, rfl⟩ | ⟨-, hj⟩
    · rw [hc']
      exact hran r hr
    · exact h.ran j d hj r hr

/-- Something of a call goes from one place to another. -/
theorem Good.pass (h : Good v) (hcalls : v'.calls = v.calls) (htable : v'.table = v.table)
    (htokens : ∀ i, v'.tokens i = v.tokens i)
    (hrequests : ∀ q ∈ v'.requests ++ v'.serving, q ∈ v.requests ++ v.serving)
    (hresponses : ∀ r ∈ v'.responses, r ∈ v.responses ∨
      ∃ q ∈ v.requests ++ v.serving, r.id = q.id ∧ (q, r) ∈ v'.answered)
    (hanswered : ∀ x ∈ v.answered, x ∈ v'.answered) : Good v' := by
  refine ⟨?_, ?_, ?_, ?_, ?_, ?_, ?_⟩
  · rw [hcalls]
    exact h.ids
  · rw [hcalls, htable]
    exact h.table
  · rw [hcalls, htable]
    exact h.unused
  · intro k c hk
    rw [hcalls] at hk
    rw [htokens]
    exact h.tokens k c hk
  · intro q hq
    rw [hcalls]
    exact h.requests q (hrequests q hq)
  · intro r hr
    rw [hcalls]
    rcases hresponses r hr with hold | ⟨q, hq, hid, hmem⟩
    · obtain ⟨k, c, hk, hid, hmem⟩ := h.responses r hold
      exact ⟨k, c, hk, hid, hanswered _ hmem⟩
    · obtain ⟨k, c, hk, rfl⟩ := h.requests q hq
      exact ⟨k, c, hk, hid, hmem⟩
  · intro k c hk r hr
    rw [hcalls] at hk
    exact hanswered _ (h.ran k c hk r hr)

theorem Good.moves (h : Good v) (hlen : v.calls.length < 18446744073709551616) (hm : Moves v v') :
    Good v' := by
  cases hm with
  | call m => exact h.call hlen m
  | @register k c hk hphase =>
    have htokens := h.tokens k c hk
    rw [hphase, if_neg (by decide)] at htokens
    have hran : c.ran = [] := List.eq_nil_of_length_eq_zero (by omega)
    refine h.set (Nat.le_of_lt hlen) hk rfl rfl ?_ ?_ (fun _ _ => rfl) ?_ ?_ (fun _ hr => hr) rfl
      (h.ran k c hk)
    · intro i hi
      exact if_neg hi
    · dsimp only
      rw [if_pos rfl, if_pos ⟨by decide, hran⟩]
    · dsimp only
      rw [if_neg (by decide)]
      exact htokens
    · intro q hq
      exact .inl hq
  | @send k c hk hphase =>
    have htokens := h.tokens k c hk
    rw [hphase, if_neg (by decide)] at htokens
    refine h.set (Nat.le_of_lt hlen) hk rfl rfl (fun _ _ => rfl) ?_ ?_ ?_ ?_ (fun _ hr => hr) rfl
      (h.ran k c hk)
    · have hfind := h.table k c hk
      rw [hphase] at hfind
      simpa using hfind
    · intro i hi
      simp [Calls.tokens, List.countP_append, Ne.symm hi]
    · simp only [Calls.tokens, List.countP_append] at htokens ⊢
      simp
      omega
    · intro q hq
      simp only [List.mem_append, List.mem_singleton] at hq ⊢
      tauto
  | @refuse q rest hq r =>
    refine h.pass rfl rfl ?_ ?_ ?_ fun x hx => List.mem_append_left _ hx
    · intro i
      simp only [Calls.tokens, hq, List.countP_append, List.countP_cons, List.countP_nil]
      omega
    · intro q' hq'
      rw [hq, List.cons_append]
      exact List.mem_cons_of_mem _ hq'
    · intro r' hr'
      rcases List.mem_append.mp hr' with hold | hnew
      · exact .inl hold
      · obtain rfl := List.mem_singleton.mp hnew
        refine .inr ⟨q, ?_, rfl, by simp⟩
        rw [hq]
        simp
  | @serve q rest hq =>
    refine h.pass rfl rfl ?_ ?_ (fun r hr => .inl hr) fun x hx => hx
    · intro i
      simp only [Calls.tokens, hq, List.countP_append, List.countP_cons, List.countP_nil]
      omega
    · intro q' hq'
      rw [hq]
      simp only [List.mem_append, List.mem_cons, List.not_mem_nil, or_false] at hq' ⊢
      tauto
  | @done j _ hj r =>
    obtain ⟨hlt, rfl⟩ := List.getElem?_eq_some_iff.mp hj
    refine h.pass rfl rfl ?_ ?_ ?_ fun x hx => List.mem_append_left _ hx
    · intro i
      have hcount := (List.getElem_cons_eraseIdx_perm hlt).countP_eq fun q => q.id = i
      rw [List.countP_cons] at hcount
      simp only [Calls.tokens, List.countP_append, List.countP_cons, List.countP_nil]
      omega
    · intro q' hq'
      simp only [List.mem_append] at hq' ⊢
      exact hq'.imp_right List.mem_of_mem_eraseIdx
    · intro r' hr'
      rcases List.mem_append.mp hr' with hold | hnew
      · exact .inl hold
      · obtain rfl := List.mem_singleton.mp hnew
        exact .inr ⟨_, List.mem_append_right _ (List.mem_of_getElem? hj), rfl, by simp⟩
  | @deliver r rest k c hr hfind hk =>
    have hmem : r ∈ v.responses := by rw [hr]; exact List.mem_cons_self
    obtain ⟨k', c', hk', hid, hsent, hran, hentry, hans⟩ := h.waiting hmem
    rw [hfind] at hentry
    obtain rfl := Option.some.inj hentry
    rw [hk] at hk'
    obtain rfl := Option.some.inj hk'
    have htokens := h.tokens k c hk
    rw [hran, if_pos hsent] at htokens
    refine h.set (Nat.le_of_lt hlen) hk rfl rfl ?_ ?_ ?_ ?_ (fun q hq => .inl hq) ?_ rfl ?_
    · intro i hi
      rw [← hid] at hi
      exact if_neg hi
    · dsimp only
      rw [← hid, if_pos rfl, if_neg (by simp)]
    · intro i hi
      rw [← hid] at hi
      simp only [Calls.tokens, hr, List.countP_cons]
      simp [Ne.symm hi]
    · simp only [Calls.tokens, hr, List.countP_cons, hid, decide_true, if_true,
        List.length_nil] at htokens
      simp only [Calls.tokens, hran, hsent, if_true, List.nil_append, List.length_singleton]
      omega
    · intro r' hr'
      rw [hr]
      exact List.mem_cons_of_mem _ hr'
    · intro r' hr'
      rw [hran, List.nil_append] at hr'
      obtain rfl := List.mem_singleton.mp hr'
      exact hans

end Calls

end Mmvx.Net.Rpc
