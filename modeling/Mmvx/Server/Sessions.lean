/-
  The sessions of a forward server over its calls.

  `addLogonSession` and `checkLogonForwardSession` run in the loop of the forward server, one after
  the other, so that a run is a list of calls on the server of an answer. `find_afterCalls` says
  what the table holds at any time: the session of the last call for a user, if that call added
  one. What a check accepts follows from it.
-/
import Mmvx.Server.Forward
import Mathlib.Data.List.Induction

namespace Mmvx.Server

open Mmvx.Lib

/-- A call on a forward server that reads or writes `logonSessions_`. -/
inductive SessionCall
  | addLogonSession (uid : Int64) (session : Int32)
  | checkLogonForwardSession (uid : Int64) (session : Int32)
  deriving DecidableEq

namespace SessionCall

def uid : SessionCall → Int64
  | addLogonSession uid _ => uid
  | checkLogonForwardSession uid _ => uid

end SessionCall

namespace ForwardServer

def call (f : ForwardServer) : SessionCall → ForwardServer
  | .addLogonSession uid session => f.addLogonSession uid session
  | .checkLogonForwardSession uid session => (f.checkLogonForwardSession uid session).1

def afterCalls (f : ForwardServer) (calls : List SessionCall) : ForwardServer := calls.foldl call f

/-- Call `i` is a check of `uid` and `session`, and it is accepted. -/
def Accepts (f : ForwardServer) (calls : List SessionCall) (i : Nat) (uid : Int64)
    (session : Int32) : Prop :=
  calls[i]? = some (.checkLogonForwardSession uid session) ∧
    ((f.afterCalls (calls.take i)).checkLogonForwardSession uid session).2 = true

instance (f : ForwardServer) (calls : List SessionCall) (i : Nat) (uid : Int64) (session : Int32) :
    Decidable (f.Accepts calls i uid session) :=
  inferInstanceAs (Decidable (_ ∧ _))

/-! ## What the table holds -/

/-- Call `j` added `session` for `uid`, and no later call of the list is one for `uid`. -/
def Issued (calls : List SessionCall) (j : Nat) (uid : Int64) (session : Int32) : Prop :=
  calls[j]? = some (.addLogonSession uid session) ∧
    ∀ k c, j < k → calls[k]? = some c → c.uid ≠ uid

theorem find_call (f : ForwardServer) (c : SessionCall) (uid : Int64) :
    (f.call c).logonSessions_.find uid =
      if uid = c.uid then
        match c with
        | .addLogonSession _ session => some session
        | .checkLogonForwardSession _ _ => none
      else f.logonSessions_.find uid := by
  cases c with
  | addLogonSession u s => exact OrdMap.find_insert _ u uid s
  | checkLogonForwardSession u s => exact OrdMap.find_erase _ u uid

theorem afterCalls_append (f : ForwardServer) (calls : List SessionCall) (c : SessionCall) :
    f.afterCalls (calls ++ [c]) = (f.afterCalls calls).call c :=
  List.foldl_concat _ _ _ _

theorem issued_append_last {calls : List SessionCall} {c : SessionCall} {uid : Int64}
    {session : Int32} (hc : c.uid = uid) :
    (∃ j, Issued (calls ++ [c]) j uid session) ↔ c = .addLogonSession uid session := by
  have hlast : (calls ++ [c])[calls.length]? = some c := List.getElem?_concat_length
  constructor
  · rintro ⟨j, hj, hnone⟩
    have hlt : j < (calls ++ [c]).length := (List.getElem?_eq_some_iff.mp hj).1
    rw [List.length_append, List.length_singleton] at hlt
    rcases Nat.lt_or_eq_of_le (Nat.le_of_lt_succ hlt) with hlt | rfl
    · exact absurd hc (hnone _ c hlt hlast)
    · rw [hlast] at hj
      exact Option.some.inj hj
  · rintro rfl
    refine ⟨calls.length, hlast, ?_⟩
    intro k c hk hget
    have hlt := (List.getElem?_eq_some_iff.mp hget).1
    rw [List.length_append, List.length_singleton] at hlt
    omega

theorem issued_append_other {calls : List SessionCall} {c : SessionCall} {uid : Int64}
    {session : Int32} (hc : c.uid ≠ uid) (j : Nat) :
    Issued (calls ++ [c]) j uid session ↔ Issued calls j uid session := by
  have hlast : (calls ++ [c])[calls.length]? = some c := List.getElem?_concat_length
  have hold : ∀ {k}, k < calls.length → (calls ++ [c])[k]? = calls[k]? :=
    fun hk => List.getElem?_append_left hk
  have hbound : ∀ {k d}, (calls ++ [c])[k]? = some d → k ≤ calls.length := by
    intro k d hget
    have hlt := (List.getElem?_eq_some_iff.mp hget).1
    rw [List.length_append, List.length_singleton] at hlt
    omega
  constructor
  · rintro ⟨hj, hnone⟩
    rcases Nat.lt_or_eq_of_le (hbound hj) with hlt | rfl
    · refine ⟨by rwa [hold hlt] at hj, ?_⟩
      intro k d hk hget
      have hklt := (List.getElem?_eq_some_iff.mp hget).1
      exact hnone k d hk (by rwa [hold hklt])
    · rw [hlast] at hj
      exact absurd (congrArg SessionCall.uid (Option.some.inj hj)) hc
  · rintro ⟨hj, hnone⟩
    have hlt := (List.getElem?_eq_some_iff.mp hj).1
    refine ⟨by rwa [hold hlt], ?_⟩
    intro k d hk hget
    rcases Nat.lt_or_eq_of_le (hbound hget) with hklt | rfl
    · exact hnone k d hk (by rwa [hold hklt] at hget)
    · rw [hlast] at hget
      rwa [← Option.some.inj hget]

/-- A session is in the table when the last call for its user added it. -/
theorem find_afterCalls {f : ForwardServer} (hf : f.logonSessions_ = .empty)
    (calls : List SessionCall) (uid : Int64) (session : Int32) :
    (f.afterCalls calls).logonSessions_.find uid = some session ↔
      ∃ j, Issued calls j uid session := by
  induction calls using List.reverseRecOn with
  | nil =>
    rw [show f.afterCalls [] = f from rfl, hf, OrdMap.find_empty]
    constructor
    · intro h
      cases h
    · rintro ⟨j, hj, -⟩
      cases hj
  | append_singleton calls c ih =>
    rw [afterCalls_append, find_call]
    by_cases hc : uid = c.uid
    · rw [if_pos hc, issued_append_last hc.symm]
      cases c with
      | addLogonSession u s =>
        obtain rfl : uid = u := hc
        simp
      | checkLogonForwardSession u s => simp
    · rw [if_neg hc, ih]
      simp only [issued_append_other (Ne.symm hc)]

/-! ## What a check accepts -/

/-- Call `j` is the last one for `uid` before call `i`, and it added `session`. -/
def IssuedFor (calls : List SessionCall) (j i : Nat) (uid : Int64) (session : Int32) : Prop :=
  j < i ∧ calls[j]? = some (.addLogonSession uid session) ∧
    ∀ k c, j < k → k < i → calls[k]? = some c → c.uid ≠ uid

theorem issued_take (calls : List SessionCall) (j i : Nat) (uid : Int64) (session : Int32) :
    Issued (calls.take i) j uid session ↔ IssuedFor calls j i uid session := by
  have htake : ∀ {k d}, (calls.take i)[k]? = some d ↔ k < i ∧ calls[k]? = some d := by
    intro k d
    rw [List.getElem?_take]
    split
    · rename_i hk
      simp [hk]
    · rename_i hk
      simp [hk]
  constructor
  · rintro ⟨hj, hnone⟩
    obtain ⟨hlt, hj⟩ := htake.mp hj
    exact ⟨hlt, hj, fun k c hk hki hget => hnone k c hk (htake.mpr ⟨hki, hget⟩)⟩
  · rintro ⟨hlt, hj, hnone⟩
    refine ⟨htake.mpr ⟨hlt, hj⟩, ?_⟩
    intro k c hk hget
    obtain ⟨hki, hget⟩ := htake.mp hget
    exact hnone k c hk hki hget

theorem accepts_iff {f : ForwardServer} (hf : f.logonSessions_ = .empty) {calls : List SessionCall}
    {i : Nat} {uid : Int64} {session : Int32} :
    f.Accepts calls i uid session ↔
      calls[i]? = some (.checkLogonForwardSession uid session) ∧
        ∃ j, IssuedFor calls j i uid session := by
  simp only [Accepts, checkLogonForwardSession, decide_eq_true_eq, find_afterCalls hf, issued_take]

/-- Two checks that are accepted for the same call are the same check. -/
theorem issuedFor_unique {calls : List SessionCall} {j i i' : Nat} {uid uid' : Int64}
    {session session' : Int32} (hi : calls[i]? = some (.checkLogonForwardSession uid session))
    (hi' : calls[i']? = some (.checkLogonForwardSession uid' session'))
    (h : IssuedFor calls j i uid session) (h' : IssuedFor calls j i' uid' session') : i = i' := by
  obtain ⟨hlt, hj, hnone⟩ := h
  obtain ⟨hlt', hj', hnone'⟩ := h'
  rw [hj] at hj'
  obtain ⟨rfl, rfl⟩ := SessionCall.addLogonSession.inj (Option.some.inj hj')
  rcases Nat.lt_trichotomy i i' with hii | rfl | hii
  · exact absurd rfl (hnone' i _ hlt hii hi)
  · rfl
  · exact absurd rfl (hnone i' _ hlt' hii hi')

/-- Every accepted check has a call it is accepted for. -/
theorem exists_issue {f : ForwardServer} (hf : f.logonSessions_ = .empty)
    (calls : List SessionCall) (i : Nat) :
    ∃ j, ∀ u s, f.Accepts calls i u s → IssuedFor calls j i u s := by
  by_cases h : ∃ u s, f.Accepts calls i u s
  · obtain ⟨u, s, hacc⟩ := h
    obtain ⟨hi, j, hj⟩ := (accepts_iff hf).mp hacc
    refine ⟨j, ?_⟩
    intro u' s' hacc'
    have hi' := hacc'.1
    rw [hi] at hi'
    obtain ⟨rfl, rfl⟩ := SessionCall.checkLogonForwardSession.inj (Option.some.inj hi')
    exact hj
  · exact ⟨0, fun u s hacc => absurd ⟨u, s, hacc⟩ h⟩

end ForwardServer

open ForwardServer

/-- **Sessions are accepted once, and only while they are the last one issued.** Every accepted
    check has a call of its own that added its session, with no other call that adds one for that
    user in between. So a session that is accepted twice was added again in between, and one that
    was replaced by another is not accepted unless it is added again. -/
theorem session_acceptance (m : KeeperAnswer) (calls : List SessionCall) :
    (∃ issue : Nat → Nat,
      (∀ i u s, (KeeperClient.forwardServer m).Accepts calls i u s →
        issue i < i ∧ calls[issue i]? = some (.addLogonSession u s) ∧
          ∀ k s', issue i < k → k < i → calls[k]? ≠ some (.addLogonSession u s')) ∧
      (∀ i u s i' u' s', (KeeperClient.forwardServer m).Accepts calls i u s →
        (KeeperClient.forwardServer m).Accepts calls i' u' s' → issue i = issue i' → i = i')) ∧
    (∀ i i' u s, i < i' → (KeeperClient.forwardServer m).Accepts calls i u s →
      (KeeperClient.forwardServer m).Accepts calls i' u s →
        ∃ j, i < j ∧ j < i' ∧ calls[j]? = some (.addLogonSession u s)) ∧
    (∀ k i u s s', calls[k]? = some (.addLogonSession u s') → s' ≠ s → k < i →
      (∀ j, k < j → j < i → calls[j]? ≠ some (.addLogonSession u s)) →
        ¬ (KeeperClient.forwardServer m).Accepts calls i u s) := by
  have hf : (KeeperClient.forwardServer m).logonSessions_ = .empty := rfl
  refine ⟨?_, ?_, ?_⟩
  · choose issue hissue using exists_issue hf calls
    refine ⟨issue, ?_, ?_⟩
    · intro i u s hacc
      obtain ⟨hlt, hadd, hnone⟩ := hissue i u s hacc
      exact ⟨hlt, hadd, fun k s' hk hki hget => hnone k _ hk hki hget rfl⟩
    · intro i u s i' u' s' hacc hacc' heq
      have h' := hissue i' u' s' hacc'
      rw [← heq] at h'
      exact issuedFor_unique hacc.1 hacc'.1 (hissue i u s hacc) h'
  · intro i i' u s hlt hacc hacc'
    obtain ⟨-, j, hj, hadd, hnone⟩ := (accepts_iff hf).mp hacc'
    -- the earlier check is itself a call for `u`, so the session was added after it
    refine ⟨j, ?_, hj, hadd⟩
    rcases Nat.lt_trichotomy i j with hij | rfl | hij
    · exact hij
    · rw [hacc.1] at hadd
      cases hadd
    · exact absurd rfl (hnone i _ hij hlt hacc.1)
  · intro k i u s s' hadd' hne hki hagain hacc
    obtain ⟨-, j, hj, hadd, hnone⟩ := (accepts_iff hf).mp hacc
    rcases Nat.lt_trichotomy j k with hjk | rfl | hjk
    · exact hnone k _ hjk hki hadd' rfl
    · rw [hadd] at hadd'
      exact hne (SessionCall.addLogonSession.inj (Option.some.inj hadd')).2.symm
    · exact hagain j hjk hj hadd

/-! ## A valid session -/

/-- Of the calls between `j` and `i`, none adds a session for `uid`, and no check of `uid` and
    `session` is accepted. -/
def Pending (f : ForwardServer) (calls : List SessionCall) (j i : Nat) (uid : Int64)
    (session : Int32) : Prop :=
  j < i ∧ ∀ k, j < k → k < i →
    (∀ s', calls[k]? ≠ some (.addLogonSession uid s')) ∧ ¬ f.Accepts calls k uid session

/-- The first call for `uid` after `j`, if there is one before `i`. -/
theorem exists_first_call (calls : List SessionCall) (j i : Nat) (uid : Int64) :
    (∀ k c, j < k → k < i → calls[k]? = some c → c.uid ≠ uid) ∨
      ∃ k c, j < k ∧ k < i ∧ calls[k]? = some c ∧ c.uid = uid ∧
        ∀ k' c', j < k' → k' < k → calls[k']? = some c' → c'.uid ≠ uid := by
  induction i with
  | zero => exact Or.inl fun k c _ hk => absurd hk (Nat.not_lt_zero k)
  | succ i ih =>
    rcases ih with hnone | ⟨k, c, hjk, hki, hrest⟩
    · by_cases h : j < i ∧ ∃ c, calls[i]? = some c ∧ c.uid = uid
      · obtain ⟨hji, c, hget, hc⟩ := h
        exact Or.inr ⟨i, c, hji, Nat.lt_succ_self i, hget, hc, hnone⟩
      · refine Or.inl ?_
        intro k c hjk hki hget huid
        rcases Nat.lt_or_eq_of_le (Nat.le_of_lt_succ hki) with hlt | rfl
        · exact hnone k c hjk hlt hget huid
        · exact h ⟨hjk, c, hget, huid⟩
    · exact Or.inr ⟨k, c, hjk, Nat.lt_succ_of_lt hki, hrest⟩

/-- **A session is honoured exactly when no other one was tried.** A session that was added,
    neither replaced nor used since, is accepted if and only if no check for its user with another
    session came in between: a check takes the entry away whatever it finds there. -/
theorem session_honoured_iff (m : KeeperAnswer) (calls : List SessionCall) (j i : Nat) (u : Int64)
    (s : Int32) (hadd : calls[j]? = some (.addLogonSession u s))
    (hcheck : calls[i]? = some (.checkLogonForwardSession u s))
    (hpend : Pending (KeeperClient.forwardServer m) calls j i u s) :
    (KeeperClient.forwardServer m).Accepts calls i u s ↔
      ∀ k s', j < k → k < i → s' ≠ s → calls[k]? ≠ some (.checkLogonForwardSession u s') := by
  have hf : (KeeperClient.forwardServer m).logonSessions_ = .empty := rfl
  obtain ⟨hji, hbetween⟩ := hpend
  constructor
  · intro hacc k s' hjk hki hne hget
    obtain ⟨-, j', hj', hadd', hnone⟩ := (accepts_iff hf).mp hacc
    -- the check at `k` lies after the last call for `u` before `i`, which is `j`
    rcases Nat.lt_or_ge j' k with hlt | hle
    · exact hnone k _ hlt hki hget rfl
    · exact (hbetween j' (Nat.lt_of_lt_of_le hjk hle) hj').1 s hadd'
  · intro hother
    refine (accepts_iff hf).mpr ⟨hcheck, j, hji, hadd, ?_⟩
    rcases exists_first_call calls j i u with hnone | ⟨k, c, hjk, hki, hget, hc, hnone⟩
    · exact hnone
    · -- the first call for `u` after `j` would be an accepted check of `s`
      exfalso
      obtain ⟨hnoadd, hnoacc⟩ := hbetween k hjk hki
      cases c with
      | addLogonSession u' s' =>
        obtain rfl : u' = u := hc
        exact hnoadd s' hget
      | checkLogonForwardSession u' s' =>
        obtain rfl : u' = u := hc
        by_cases hs : s' = s
        · subst hs
          exact hnoacc ((accepts_iff hf).mpr ⟨hget, j, hjk, hadd, hnone⟩)
        · exact hother k s' hjk hki hs hget

/-- What the keeper of the Lua configuration answers its first forward server. -/
def luaAnswer : KeeperAnswer := ⟨10101, 10031, "127.0.0.1", 10031, 4⟩

/-- User 7 logs on, and a request with a stale session reaches the forward server first. -/
theorem session_not_honoured :
    ¬ ∀ (m : KeeperAnswer) (calls : List SessionCall) (j i : Nat) (u : Int64) (s : Int32),
      calls[j]? = some (.addLogonSession u s) →
      calls[i]? = some (.checkLogonForwardSession u s) →
      Pending (KeeperClient.forwardServer m) calls j i u s →
        (KeeperClient.forwardServer m).Accepts calls i u s := by
  intro h
  have hpend : Pending (KeeperClient.forwardServer luaAnswer) [.addLogonSession 7 1,
      .checkLogonForwardSession 7 2, .checkLogonForwardSession 7 1] 0 2 7 1 := by
    refine ⟨by decide, ?_⟩
    intro k hk hk2
    obtain rfl : k = 1 := by omega
    exact ⟨fun s' => by simp, fun hacc => by cases hacc.1⟩
  exact absurd (h luaAnswer _ 0 2 7 1 rfl rfl hpend) (by decide)

/-- Another user's check in between does no harm. -/
theorem session_honoured_iff_lua :
    ∃ calls : List SessionCall, calls[1]? = some (.checkLogonForwardSession 8 5) ∧
      (KeeperClient.forwardServer luaAnswer).Accepts calls 2 7 1 := by
  refine ⟨[.addLogonSession 7 1, .checkLogonForwardSession 8 5, .checkLogonForwardSession 7 1],
    rfl, ?_⟩
  refine (session_honoured_iff luaAnswer _ 0 2 7 1 rfl rfl ⟨by decide, ?_⟩).mpr ?_
  · intro k hk hk2
    obtain rfl : k = 1 := by omega
    exact ⟨fun s' => by simp, fun hacc => by cases hacc.1⟩
  · intro k s' hk hk2 _ hget
    obtain rfl : k = 1 := by omega
    cases hget

end Mmvx.Server
