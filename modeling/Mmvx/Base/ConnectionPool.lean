/-
  The count of database connections in `MysqlConnectionPool` (muduo/base/MysqlConnectionPool.h).

  A task gets its connection by `mysqlpp::ScopedConnection(pool, true)`: `safe_grab` calls the
  virtual `grab()` until the connection it returns answers a `ping()`, and discards the others with
  `remove()`; the destructor calls the virtual `release()`. MySQL++ is outside the repository: what
  it does between two calls of the overrides is taken from its documentation, and the answer to a
  ping is part of the action. Every access to `inUseConns_` is one step of one worker, and the
  workers take steps in any order; the test of `grab()` and the increment after it are two steps.

  `grab()` counts a connection that `remove()` takes away again, and lets a task pass at
  `kMaxInUseConns_`. These are the only two ways to go wrong (`accounted_iff`).
-/
import Mmvx.Lib.Entries
import Mmvx.Lib.Run

namespace Mmvx.Base

open Mmvx.Lib

def kMaxInUseConns_ : UInt32 := 8

/-- Where a worker is. -/
inductive Phase where
  /-- It needs no connection. -/
  | outside
  /-- In `grab()`, before the test of `inUseConns_`. -/
  | grab
  /-- In `grab()`, after the test. -/
  | admitted
  /-- `safe_grab` has a connection and pings it. -/
  | ping
  | hold
  deriving DecidableEq, Repr

/-- The worker has a connection of the pool. -/
def Phase.holds : Phase → Bool
  | .ping | .hold => true
  | _ => false

structure MysqlConnectionPool where
  inUseConns_ : UInt32
  workers : List Phase
  deriving DecidableEq, Repr

inductive PoolAction where
  /-- A task of the worker constructs its `ScopedConnection`. -/
  | safe_grab (i : Nat)
  /-- The test of the loop in `grab()`. -/
  | test (i : Nat)
  /-- `++inUseConns_` and `mysqlpp::ConnectionPool::grab()`. -/
  | grab (i : Nat)
  /-- The connection answers, or is removed and `grab()` is called again. -/
  | ping (i : Nat) (answers : Bool)
  /-- `release()` by the destructor. -/
  | release (i : Nat)
  deriving DecidableEq, Repr

namespace MysqlConnectionPool

def init (numThreads : Nat) : MysqlConnectionPool where
  inUseConns_ := 0
  workers := .replicate numThreads .outside

def goto (s : MysqlConnectionPool) (i : Nat) (p : Phase) : MysqlConnectionPool :=
  { s with workers := s.workers.set i p }

/-- The worker `i` goes on from the phase `p`. -/
def advance (s : MysqlConnectionPool) (i : Nat) (p : Phase) (s' : MysqlConnectionPool) :
    Option MysqlConnectionPool :=
  if s.workers[i]? = some p then some s' else none

def step (s : MysqlConnectionPool) : PoolAction → Option MysqlConnectionPool
  | .safe_grab i => s.advance i .outside (s.goto i .grab)
  | .test i =>
    -- the worker sleeps and tests again
    s.advance i .grab (if s.inUseConns_ > kMaxInUseConns_ then s else s.goto i .admitted)
  | .grab i => s.advance i .admitted { s.goto i .ping with inUseConns_ := s.inUseConns_ + 1 }
  | .ping i answers => s.advance i .ping (s.goto i (if answers then .hold else .grab))
  | .release i => s.advance i .hold { s.goto i .outside with inUseConns_ := s.inUseConns_ - 1 }

/-- The number of connections that tasks hold. -/
def held (s : MysqlConnectionPool) : Nat := s.workers.countP Phase.holds

/-- The counter is right and within its bound. -/
def Accounted (s : MysqlConnectionPool) : Prop :=
  s.inUseConns_.toNat = s.held ∧ s.held ≤ kMaxInUseConns_.toNat

/-- The connection answers, and the counter is incremented only below its bound. -/
def Sound (s : MysqlConnectionPool) : PoolAction → Prop
  | .grab _ => s.inUseConns_ < kMaxInUseConns_
  | .ping _ answers => answers = true
  | _ => True

variable {s s' t : MysqlConnectionPool} {i : Nat} {p q : Phase}

theorem advance_eq_some (h : s.advance i p t = some s') : s.workers[i]? = some p ∧ s' = t := by
  unfold advance at h
  split at h
  · exact ⟨‹_›, (Option.some.inj h).symm⟩
  · cases h

theorem held_goto (h : s.workers[i]? = some p) :
    (s.goto i q).held + p.holds.toNat = s.held + q.holds.toNat :=
  countP_set_add Phase.holds h q

/-- A worker that moves between phases with, or without, a connection. -/
theorem Accounted.goto (h : s.Accounted) (hi : s.workers[i]? = some p) (hq : q.holds = p.holds) :
    (s.goto i q).Accounted := by
  have hheld := held_goto (q := q) hi
  rw [hq] at hheld
  have heq : (s.goto i q).held = s.held := by omega
  unfold Accounted
  rw [heq]
  exact h

/-- A step from a right count leads to a right count exactly when it is sound. -/
theorem accounted_step {a : PoolAction} (h : s.Accounted) (hs : s.step a = some s') :
    s'.Accounted ↔ s.Sound a := by
  have hmax : kMaxInUseConns_.toNat = 8 := rfl
  cases a with
  | safe_grab i =>
    obtain ⟨hi, rfl⟩ := advance_eq_some hs
    exact iff_of_true (h.goto hi rfl) trivial
  | test i =>
    obtain ⟨hi, rfl⟩ := advance_eq_some hs
    split
    · exact iff_of_true h trivial
    · exact iff_of_true (h.goto hi rfl) trivial
  | grab i =>
    obtain ⟨hi, rfl⟩ := advance_eq_some hs
    have hheld := held_goto (q := .ping) hi
    obtain ⟨hcount, hle⟩ := h
    show ((s.inUseConns_ + 1).toNat = (s.goto i .ping).held ∧ (s.goto i .ping).held ≤ _) ↔
      s.inUseConns_ < kMaxInUseConns_
    rw [UInt32.lt_iff_toNat_lt, UInt32.toNat_add]
    simp only [Phase.holds, Bool.toNat_false, Bool.toNat_true, UInt32.toNat_one] at hheld ⊢
    omega
  | ping i answers =>
    obtain ⟨hi, rfl⟩ := advance_eq_some hs
    cases answers with
    | true => exact iff_of_true (h.goto hi rfl) rfl
    | false =>
      have hheld := held_goto (q := .grab) hi
      obtain ⟨hcount, hle⟩ := h
      refine iff_of_false ?_ Bool.false_ne_true
      rintro ⟨hcount', -⟩
      replace hcount' : s.inUseConns_.toNat = (s.goto i .grab).held := hcount'
      simp only [Phase.holds, Bool.toNat_false, Bool.toNat_true] at hheld
      omega
  | release i =>
    obtain ⟨hi, rfl⟩ := advance_eq_some hs
    have hheld := held_goto (q := .outside) hi
    obtain ⟨hcount, hle⟩ := h
    simp only [Phase.holds, Bool.toNat_false, Bool.toNat_true] at hheld
    have hone : 1 ≤ s.inUseConns_ := by
      rw [UInt32.le_iff_toNat_le, UInt32.toNat_one]
      omega
    refine iff_of_true ⟨?_, ?_⟩ trivial
    · show (s.inUseConns_ - 1).toNat = (s.goto i .outside).held
      rw [UInt32.toNat_sub_of_le _ _ hone, UInt32.toNat_one]
      omega
    · show (s.goto i .outside).held ≤ _
      omega

theorem accounted_init (numThreads : Nat) : (init numThreads).Accounted := by
  have hheld : (init numThreads).held = 0 := by
    unfold held init
    rw [List.countP_replicate]
    rfl
  unfold Accounted
  rw [hheld]
  exact ⟨rfl, Nat.zero_le _⟩

/-- **Connection accounting.** For any number of threads and any order of their steps, with any
    answers to pings: after every step `inUseConns_` is the number of connections that tasks hold,
    and at most `kMaxInUseConns_`, if and only if every connection answers the ping of `safe_grab`
    and every increment finds `inUseConns_` below `kMaxInUseConns_`. -/
theorem accounted_iff (numThreads : Nat) (as : List PoolAction) :
    (∀ i s, run step (init numThreads) (as.take i) = some s → s.Accounted) ↔
      ∀ i a s s', as[i]? = some a → run step (init numThreads) (as.take i) = some s →
        step s a = some s' → s.Sound a :=
  forall_states_iff (I := fun _ => True) trivial (fun _ _ _ _ _ => trivial)
    (accounted_init numThreads) (fun _ _ _ _ h hs => accounted_step h hs) as

/-- The action is not the ping of a stale connection. -/
def Answered : PoolAction → Prop
  | .ping _ answers => answers = true
  | _ => True

/-- With as few threads as `LogonServer` has, the bound needs no test. -/
theorem accounted_of_answered {numThreads : Nat} (hfew : numThreads ≤ kMaxInUseConns_.toNat)
    (h : Reaches step (fun _ a => Answered a) (init numThreads) s) : s.Accounted := by
  refine (h.invariant (P := fun s => s.Accounted ∧ s.workers.length = numThreads)
    ⟨accounted_init numThreads, List.length_replicate⟩ ?_).1
  rintro s a s' ⟨hacc, hlen⟩ hanswered hs
  refine ⟨(accounted_step hacc hs).mpr ?_, ?_⟩
  · cases a with
    | grab i =>
      obtain ⟨hi, -⟩ := advance_eq_some hs
      have hlt : s.held < s.workers.length := by
        refine Nat.lt_of_le_of_ne List.countP_le_length ?_
        intro heq
        have hall := List.countP_eq_length.mp heq .admitted (List.mem_of_getElem? hi)
        cases hall
      show s.inUseConns_ < kMaxInUseConns_
      rw [UInt32.lt_iff_toNat_lt, hacc.1]
      omega
    | ping i answers => exact hanswered
    | _ => trivial
  · cases a <;> obtain ⟨-, rfl⟩ := advance_eq_some hs <;> try split
    all_goals simp only [goto, List.length_set, hlen]

/-- One stale connection: the counter says 2 when one connection is held. -/
theorem stale_counted_twice :
    ¬ ∀ (numThreads : Nat) (as : List PoolAction) i s,
      run step (init numThreads) (as.take i) = some s → s.Accounted := by
  intro h
  obtain ⟨s, hs, hcount, hheld⟩ : ∃ s, run step (init 4) (List.take 7 [.safe_grab 0, .test 0,
      .grab 0, .ping 0 false, .test 0, .grab 0, .ping 0 true]) = some s ∧
      s.inUseConns_ = 2 ∧ s.held = 1 :=
    exists_run _ (by decide)
  obtain ⟨hacc, -⟩ := h 4 _ 7 s hs
  rw [hcount, hheld] at hacc
  exact absurd hacc (by decide)

end MysqlConnectionPool

end Mmvx.Base
