/-
  The number of clients of a forward server, at the server and at the hub.

  A forward server reports every client that comes or goes to its keeper, which passes the report on
  to the hub, which counts in 16 bits. The `Account` of a forward server holds what it has, what is
  under way to the keepers, and what the hub's counter will be once the hub has handled what is under
  way to it; it stays balanced in every step (`Account.Step.balanced`). Every step of the system is
  a step of the account while the links stay up (`Steady.account_step`), and so the counter, the
  reports under way and the clients agree modulo `2 ^ 16` (`load_conserved`).
-/
import Mathlib.Algebra.BigOperators.Fin
import Mathlib.Data.Int.ModEq
import Mmvx.Cluster.Steady

namespace Mmvx.Cluster

open Mmvx.Lib Mmvx.Server

variable {nk nf : Nat}

/-! ## Accounts -/

/-- One forward server: the hub's counter for it, whether the keeper has started it, its clients,
    and the reports under way to the keeper. -/
structure Account where
  load : Option Int
  started : Bool
  live : Nat
  inc : Nat
  dec : Nat

namespace Account

/-- What an operation makes of a counter with 16 bits. -/
def count (oper : Operation) (load : Option Int) : Option Int :=
  (oper.onLoad load).map (· % 65536)

inductive Step : Account → Account → Prop
  | same (a : Account) : Step a a
  /-- The keeper starts the server, and the hub may hear of it. -/
  | start {a a' : Account} (hnew : a.started = false)
      (hload : a'.load = a.load ∨ a'.load = count .ADD a.load) (hstart : a'.started = true)
      (hlive : a'.live = a.live) (hinc : a'.inc = a.inc) (hdec : a'.dec = a.dec) : Step a a'
  /-- A client comes. -/
  | up {a a' : Account} (hold : a.started = true) (hlive : a'.live = a.live + 1)
      (hinc : a'.inc = a.inc + 1) (hload : a'.load = a.load) (hstart : a'.started = a.started)
      (hdec : a'.dec = a.dec) : Step a a'
  /-- Clients go. -/
  | down {a a' : Account} (n : Nat) (hlive : a.live = a'.live + n) (hdec : a'.dec = a.dec + n)
      (hload : a'.load = a.load) (hstart : a'.started = a.started) (hinc : a'.inc = a.inc) :
      Step a a'
  /-- The keeper passes a report on. -/
  | relay {a a' : Account} {oper : Operation} (hoper : oper = .INC ∨ oper = .DEC)
      (hnet : (a'.dec - a'.inc : Int) = a.dec - a.inc + if oper = .INC then 1 else -1)
      (hinc : a'.inc ≤ a.inc) (hdec : a'.dec ≤ a.dec) (hload : a'.load = count oper a.load)
      (hstart : a'.started = a.started) (hlive : a'.live = a.live) : Step a a'
  /-- A report gets lost that the hub would not count. -/
  | lost {a a' : Account} (hnone : a.load = none) (hinc : a'.inc ≤ a.inc) (hdec : a'.dec ≤ a.dec)
      (hload : a'.load = none) (hstart : a'.started = a.started) (hlive : a'.live = a.live) :
      Step a a'

structure Balanced (a : Account) : Prop where
  listed : a.load ≠ none → a.started = true
  fresh : a.started = false → a.live = 0 ∧ a.inc = 0 ∧ a.dec = 0
  balance : ∀ n, a.load = some n → n ≡ a.live - a.inc + a.dec [ZMOD 65536]

theorem count_eq_some {oper : Operation} {load : Option Int} {n : Int} (h : count oper load = some n)
    (hoper : oper = .INC ∨ oper = .DEC) :
    ∃ m, load = some m ∧ n = (m + if oper = .INC then 1 else -1) % 65536 := by
  obtain ⟨x, hx, rfl⟩ := Option.map_eq_some_iff.mp h
  rcases hoper with rfl | rfl
  · obtain ⟨m, rfl, rfl⟩ := Option.map_eq_some_iff.mp hx
    exact ⟨m, rfl, rfl⟩
  · obtain ⟨m, rfl, rfl⟩ := Option.map_eq_some_iff.mp hx
    exact ⟨m, rfl, rfl⟩

/-- **Every step keeps an account balanced.** -/
theorem Step.balanced {a a' : Account} (h : Step a a') (hb : a.Balanced) : a'.Balanced := by
  cases h with
  | same => exact hb
  | start hnew hload hstart hlive hinc hdec =>
    have hnone : a.load = none := by
      by_contra hsome
      rw [hb.listed hsome] at hnew
      cases hnew
    obtain ⟨hlive₀, hinc₀, hdec₀⟩ := hb.fresh hnew
    refine ⟨fun _ => hstart, fun h => ?_, ?_⟩
    · rw [hstart] at h
      cases h
    · intro n hn
      rw [hlive, hinc, hdec, hlive₀, hinc₀, hdec₀]
      rcases hload with hload | hload
      · rw [hload, hnone] at hn
        cases hn
      · rw [hload, hnone] at hn
        cases hn
        rfl
  | up hold hlive hinc hload hstart hdec =>
    refine ⟨fun _ => hstart.trans hold, fun h => ?_, ?_⟩
    · rw [hstart, hold] at h
      cases h
    · intro n hn
      rw [hload] at hn
      have := hb.balance n hn
      unfold Int.ModEq at this ⊢
      rw [hlive, hinc, hdec]
      push_cast
      omega
  | down n hlive hdec hload hstart hinc =>
    refine ⟨?_, ?_, ?_⟩
    · rw [hload, hstart]
      exact hb.listed
    · intro h
      rw [hstart] at h
      have := hb.fresh h
      omega
    · intro x hx
      rw [hload] at hx
      have := hb.balance x hx
      unfold Int.ModEq at this ⊢
      rw [hdec, hinc]
      push_cast
      omega
  | relay hoper hnet hinc hdec hload hstart hlive =>
    refine ⟨?_, ?_, ?_⟩
    · intro hsome
      rw [hstart]
      obtain ⟨n, hn⟩ := Option.ne_none_iff_exists'.mp hsome
      rw [hload] at hn
      obtain ⟨m, hm, -⟩ := count_eq_some hn hoper
      exact hb.listed (by rw [hm]; simp)
    · intro h
      rw [hstart] at h
      have := hb.fresh h
      omega
    · intro n hn
      rw [hload] at hn
      obtain ⟨m, hm, rfl⟩ := count_eq_some hn hoper
      have := hb.balance m hm
      unfold Int.ModEq at this ⊢
      rw [hlive]
      omega
  | lost hnone hinc hdec hload hstart hlive =>
    refine ⟨fun hsome => absurd hload hsome, ?_, ?_⟩
    · intro h
      rw [hstart] at h
      have := hb.fresh h
      omega
    · intro n hn
      rw [hload] at hn
      cases hn

end Account

/-! ## The hub's counter -/

theorem loadOf_append (l : List ForwardServerData) (d : ForwardServerData) (f : UInt16) :
    loadOf (l ++ [d]) f = (loadOf l f).or (loadOf [d] f) := by
  rw [loadOf, loadOf, loadOf, List.find?_append]
  cases l.find? fun d => d.id = f <;> rfl

theorem loadOf_lt {l : List ForwardServerData} {f : UInt16} {n : Int} (h : loadOf l f = some n) :
    n % 65536 = n := by
  obtain ⟨d, -, -, rfl⟩ := loadOf_eq_some h
  have := d.numConnections.toNat_lt
  omega

theorem loadOf_updateFirst_count (g f : UInt16) {oper : Operation}
    (hoper : oper = .INC ∨ oper = .DEC) (l : List ForwardServerData) :
    loadOf (HubServer.updateFirst g oper l) f =
      if g = f then Account.count oper (loadOf l f) else loadOf l f := by
  induction l with
  | nil => rcases hoper with rfl | rfl <;> simp [HubServer.updateFirst, loadOf, Account.count,
      Operation.onLoad]
  | cons d l ih =>
    rw [HubServer.updateFirst]
    by_cases hd : d.id = g
    · rw [if_pos hd]
      subst hd
      by_cases hf : d.id = f
      · have hlt := d.numConnections.toNat_lt
        rw [if_pos hf, loadOf_cons, if_pos hf]
        rcases hoper with rfl | rfl
        · rw [HubServer.updateEntry, loadOf_cons, if_pos hf]
          simp [Account.count, Operation.onLoad, UInt16.toNat_add]
        · rw [HubServer.updateEntry, loadOf_cons, if_pos hf]
          simp [Account.count, Operation.onLoad, UInt16.toNat_sub]
          omega
      · rw [if_neg hf, loadOf_cons, if_neg hf]
        rcases hoper with rfl | rfl
        · rw [HubServer.updateEntry, loadOf_cons, if_neg hf]
        · rw [HubServer.updateEntry, loadOf_cons, if_neg hf]
    · rw [if_neg hd, loadOf_cons, loadOf_cons, ih]
      by_cases hf : d.id = f
      · rw [if_pos hf, if_pos hf, if_neg fun h => hd (hf.trans h.symm)]
      · rw [if_neg hf, if_neg hf]

/-- What an update makes of the counter of a forward server. -/
theorem loadOf_updateList_count (g f : UInt16) (ip : String) (port : UInt16) {oper : Operation}
    (hoper : oper ≠ .REMOVE) (l : List ForwardServerData) :
    loadOf (HubServer.updateList g ip port oper l) f =
      if g = f then Account.count oper (loadOf l f) else loadOf l f := by
  cases oper with
  | REMOVE => exact absurd rfl hoper
  | INC => exact loadOf_updateFirst_count g f (Or.inl rfl) l
  | DEC => exact loadOf_updateFirst_count g f (Or.inr rfl) l
  | ADD =>
    rw [HubServer.updateList, loadOf_append, loadOf_cons]
    by_cases hf : g = f
    · rw [if_pos hf, if_pos hf]
      cases hl : loadOf l f with
      | none => rfl
      | some n => simp [Account.count, Operation.onLoad, loadOf_lt hl]
    · rw [if_neg hf, if_neg hf]
      simp [loadOf]

/-- The list of the keeper `k` after the hub has handled a message. -/
def settleOne (k : UInt16) (l : List ForwardServerData) (m : Tagged Message) :
    List ForwardServerData :=
  match updateIn m.val with
  | some u =>
    if u.keeperserverid.toUInt16 = k then
      HubServer.updateList u.forwardserverid.toUInt16 u.forwardip u.forwardport.toUInt16 u.oper l
    else l
  | none => l

/-- The list after all messages of an inbox. -/
def settle (k : UInt16) (l : List ForwardServerData) (ms : List (Tagged Message)) :
    List ForwardServerData :=
  ms.foldl (settleOne k) l

/-- A message that is no update for the keeper `k`. -/
def Beside (k : UInt16) (m : Message) : Prop :=
  ∀ u, updateIn m = some u → u.keeperserverid.toUInt16 ≠ k

theorem beside_of_none {k : UInt16} {m : Message} (h : updateIn m = none) : Beside k m := by
  intro u hu
  rw [h] at hu
  cases hu

theorem settleOne_beside {k : UInt16} {m : Tagged Message} (h : Beside k m.val)
    (l : List ForwardServerData) : settleOne k l m = l := by
  rw [settleOne]
  split
  · rename_i u hu
    rw [if_neg (h u hu)]
  · rfl

theorem settle_cons (k : UInt16) (l : List ForwardServerData) (m : Tagged Message)
    (ms : List (Tagged Message)) : settle k l (m :: ms) = settle k (settleOne k l m) ms := rfl

theorem settle_snoc (k : UInt16) (l : List ForwardServerData) (ms : List (Tagged Message))
    (m : Tagged Message) : settle k l (ms ++ [m]) = settleOne k (settle k l ms) m := by
  rw [settle, List.foldl_append]
  rfl

/-- The counter of an entry after one message. -/
theorem loadOf_settleOne {k f : UInt16} {l : List ForwardServerData} {m : Tagged Message} {n : Int}
    (hn : loadOf l f = some n)
    (hm : ∀ u, updateIn m.val = some u → u.oper = .REMOVE → u.keeperserverid.toUInt16 ≠ k) :
    ∃ n₁, loadOf (settleOne k l m) f = some n₁ ∧
      n₁ ≡ n + (if (updateIn m.val).any (isFor k f .INC) then 1 else 0 : Nat) -
        (if (updateIn m.val).any (isFor k f .DEC) then 1 else 0 : Nat) [ZMOD 65536] := by
  cases hu : updateIn m.val with
  | none =>
    rw [settleOne_beside (beside_of_none hu)]
    exact ⟨n, hn, by simp⟩
  | some u =>
    simp only [Option.any_some]
    by_cases hk : u.keeperserverid.toUInt16 = k
    · have hoper : u.oper ≠ .REMOVE := fun h => hm u hu h hk
      rw [settleOne, hu]
      dsimp only
      rw [if_pos hk, loadOf_updateList_count _ _ _ _ hoper, hn]
      by_cases hf : u.forwardserverid.toUInt16 = f
      · rw [if_pos hf]
        simp only [isFor, hk, hf, decide_true, Bool.true_and]
        unfold Int.ModEq
        cases hop : u.oper with
        | ADD => exact ⟨_, rfl, by simp⟩
        | REMOVE => exact absurd hop hoper
        | INC => exact ⟨_, rfl, by simp⟩
        | DEC => exact ⟨_, rfl, by simp [Int.sub_eq_add_neg]⟩
      · rw [if_neg hf]
        refine ⟨n, rfl, ?_⟩
        simp [isFor, hf]
    · have hbeside : Beside k m.val := by
        intro u' hu'
        rw [hu] at hu'
        cases hu'
        exact hk
      rw [settleOne_beside hbeside]
      exact ⟨n, hn, by simp [isFor_of_ne hk]⟩

/-- The counter of an entry, and after the updates under way to the hub. -/
theorem loadOf_settle {k f : UInt16} {l : List ForwardServerData} {ms : List (Tagged Message)}
    {n : Int} (hn : loadOf l f = some n)
    (hms : ∀ m ∈ ms, ∀ u, updateIn m.val = some u → u.oper = .REMOVE →
      u.keeperserverid.toUInt16 ≠ k) :
    ∃ n', loadOf (settle k l ms) f = some n' ∧
      n' ≡ n + ms.countP (fun m => (updateIn m.val).any (isFor k f .INC)) -
        ms.countP (fun m => (updateIn m.val).any (isFor k f .DEC)) [ZMOD 65536] := by
  induction ms generalizing l n with
  | nil => exact ⟨n, hn, by simp⟩
  | cons m ms ih =>
    rw [settle_cons, List.countP_cons, List.countP_cons]
    have hrest : ∀ m' ∈ ms, ∀ u, updateIn m'.val = some u → u.oper = .REMOVE →
        u.keeperserverid.toUInt16 ≠ k := fun m' hm' => hms m' (List.mem_cons_of_mem _ hm')
    obtain ⟨n₁, hn₁, heq⟩ := loadOf_settleOne hn (hms m List.mem_cons_self)
    obtain ⟨n', hn', heq'⟩ := ih hn₁ hrest
    refine ⟨n', hn', ?_⟩
    unfold Int.ModEq at heq heq' ⊢
    push_cast at heq ⊢
    omega

/-! ## The list that is due -/

/-- What is under way from the keeper `j` to the hub. -/
def backlog (s : System nk nf) (j : Fin nk) : List (Tagged Message) :=
  match s.view.hubConn j with
  | some p =>
    match s.links.label p with
    | some (_, q) => s.links.inboxAt q
    | none => []
  | none => []

/-- The hub's list for the keeper `j` once it has handled what is under way. -/
def due (s : System nk nf) (j : Fin nk) : List ForwardServerData :=
  settle (s.view.serverID j) (s.view.lists (s.view.serverID j)) (backlog s j)

section

variable {s s' : System nk nf} {a : Action nk nf} {j : Fin nk}

theorem backlog_of_hubEnd {q : Nat} (h : HubEnd s j q) : backlog s j = s.links.inboxAt q := by
  obtain ⟨p, i, hp, hl⟩ := h
  rw [backlog, hp]
  dsimp only
  rw [hl]

theorem due_of_hubEnd {q : Nat} (h : HubEnd s j q) :
    due s j = settle (s.view.serverID j) (s.view.lists (s.view.serverID j)) (s.links.inboxAt q) := by
  rw [due, backlog_of_hubEnd h]

theorem due_of_none (h : s.view.hubConn j = none) :
    due s j = s.view.lists (s.view.serverID j) := by
  rw [due, backlog, h]
  rfl

theorem Wired.hubEnd (hw : Wired s) {p : Nat} (hp : s.view.hubConn j = some p) :
    ∃ q, HubEnd s j q := by
  obtain ⟨i, q, i', hl, -⟩ := (hw.keepers j).hubConn p hp
  exact ⟨q, p, i, hp, hl⟩

theorem HubEnd.ends {q : Nat} (h : HubEnd s j q) (hw : Wired s) :
    Ends s.links q .hubServer (.keeperHub j) := by
  obtain ⟨p, i, hp, hl⟩ := h
  obtain ⟨e, he, rfl, rfl⟩ := Links.getElem?_of_label hl
  exact ((hw.keepers j).hubConn p hp |>.peer he).1

theorem HubEnd.getElem? {q : Nat} (h : HubEnd s j q) (hw : Wired s) :
    ∃ x, s.links[q]? = some x ∧ x.info.role = .hubServer := by
  obtain ⟨i, p, -, hq, -, hi, -⟩ := h.ends hw
  obtain ⟨x, hx, rfl, -⟩ := Links.getElem?_of_label hq
  exact ⟨x, hx, hi⟩

theorem HubEnd.unique {q q' : Nat} (h : HubEnd s j q) (h' : HubEnd s j q') : q' = q := by
  obtain ⟨p, i, hp, hl⟩ := h
  obtain ⟨p', i', hp', hl'⟩ := h'
  rw [hp] at hp'
  cases hp'
  rw [hl] at hl'
  cases hl'
  rfl

/-- The list that is due stays the same if what is under way to the hub settles to the same. -/
theorem due_congr (hw : Wired s) (hconn : s'.view.hubConn j = s.view.hubConn j)
    (hid : s'.view.serverID j = s.view.serverID j) (hext : Extends s.links s'.links)
    (hnone : s.view.hubConn j = none →
      s'.view.lists (s.view.serverID j) = s.view.lists (s.view.serverID j))
    (hsame : ∀ q, HubEnd s j q →
      settle (s.view.serverID j) (s'.view.lists (s.view.serverID j)) (s'.links.inboxAt q) =
        settle (s.view.serverID j) (s.view.lists (s.view.serverID j)) (s.links.inboxAt q)) :
    due s' j = due s j := by
  cases hp : s.view.hubConn j with
  | none => rw [due_of_none hp, due_of_none (hconn.trans hp), hid, hnone hp]
  | some p =>
    obtain ⟨q, p₀, i, hp₀, hl⟩ := hw.hubEnd hp
    have hq' : HubEnd s' j q := ⟨p₀, i, hconn.trans hp₀, hext _ _ hl⟩
    rw [due_of_hubEnd ⟨p₀, i, hp₀, hl⟩, due_of_hubEnd hq', hid]
    exact hsame q ⟨p₀, i, hp₀, hl⟩

/-- An effect sends the hub's end `q` no update for the keeper `k`. -/
def Passes (k : UInt16) (l : Links (Info nk nf) (Tagged Message)) (q : Nat) : Effect → Prop
  | .send p m => Beside k m ∨ ∀ i, l.label p ≠ some (i, q)
  | _ => True

theorem settle_applyAll {k : UInt16} {q : Nat} {cause : Option Request} (es : List Effect)
    (l : List ForwardServerData) (hes : ∀ e ∈ es, Passes k s.links q e) :
    settle k l (Links.inboxAt (s.applyAll cause es).links q) = settle k l (s.links.inboxAt q) := by
  obtain ⟨hsettle, -⟩ : settle k l (Links.inboxAt (s.applyAll cause es).links q) =
      settle k l (s.links.inboxAt q) ∧
      ∀ p, Links.label (s.applyAll cause es).links p = s.links.label p := by
    apply System.applyAll_induction cause s es
      (P := fun t => settle k l (t.links.inboxAt q) = settle k l (s.links.inboxAt q) ∧
        ∀ p, Links.label t.links p = s.links.label p)
    · exact ⟨rfl, fun _ => rfl⟩
    · rintro t e he ⟨ht, hl⟩
      refine ⟨?_, fun p => by rw [System.apply_label, hl]⟩
      match e, hes e he with
      | .send p m, hm =>
        show settle k l (Links.inboxAt (t.links.send p ⟨cause, m⟩) q) = _
        cases htarget : t.links.target p with
        | none => rw [Links.mail_send_lost htarget, ht]
        | some r =>
          rw [Links.inboxAt_send _ htarget]
          split
          · rename_i hqr
            subst hqr
            rcases hm with hm | hm
            · rw [settle_snoc, settleOne_beside hm, ht]
            · obtain ⟨y, -, hy, hpeer, -⟩ := Links.target_eq_some htarget
              have hp := Links.label_of_getElem? hy
              rw [hl, hpeer] at hp
              exact absurd hp (hm _)
          · exact ht
      | .shutdown p, _ =>
        exact (congrArg (settle k l) (Links.inboxAt_shutdown t.links p q)).trans ht
      | .put _, _ => exact ht
      | .call _, _ => exact ht
  exact hsettle

/-- The step of a process that neither reports for the keeper `j` nor reads its reports. -/
theorem due_step {s₁ : System nk nf} (hw : Wired s) {cause : Option Request} {es : List Effect}
    (hconn : s₁.view.hubConn j = s.view.hubConn j) (hid : s₁.view.serverID = s.view.serverID)
    (hlists : s₁.view.lists = s.view.lists) (hext : Extends s.links s₁.links)
    (hes : ∀ q, HubEnd s j q → ∀ e ∈ es, Passes (s.view.serverID j) s₁.links q e)
    (hinbox : ∀ q, HubEnd s j q → ∀ l, settle (s.view.serverID j) l (s₁.links.inboxAt q) =
      settle (s.view.serverID j) l (s.links.inboxAt q)) :
    due (s₁.applyAll cause es) j = due s j := by
  refine due_congr hw (by rw [view_applyAll, hconn]) (by rw [view_applyAll, hid])
    (extends_applyAll hext) (fun _ => by rw [view_applyAll, hlists]) fun q hq => ?_
  rw [view_applyAll, hlists, settle_applyAll es _ (hes q hq), hinbox q hq]

/-- What the keeper `j` sends to the hub is due at once, if it is connected. -/
theorem due_report {t : System nk nf} (hw : Wired s) (hfirm : Firm t.links)
    (hconn : t.view.hubConn j = s.view.hubConn j) (hid : t.view.serverID = s.view.serverID)
    (hlists : t.view.lists = s.view.lists) (hext : Extends s.links t.links)
    (hinbox : ∀ q, HubEnd s j q → ∀ l, settle (s.view.serverID j) l (t.links.inboxAt q) =
      settle (s.view.serverID j) l (s.links.inboxAt q)) (cause : Option Request) (m : Message) :
    due (t.applyAll cause (sendTo (s.view.hubConn j) m)) j =
      if (s.view.hubConn j).isSome then settleOne (s.view.serverID j) (due s j) ⟨cause, m⟩
      else due s j := by
  cases hp : s.view.hubConn j with
  | none =>
    refine due_step hw hconn hid hlists hext (fun q _ e he => ?_) hinbox
    cases he
  | some p =>
    obtain ⟨q, hq⟩ := hw.hubEnd hp
    obtain ⟨p₀, i, hp₀, hl⟩ := id hq
    rw [hp] at hp₀
    cases hp₀
    have hends := ((hw.keepers j).hubConn p hp).mono hext
    obtain ⟨r, hr⟩ := Option.isSome_iff_exists.mp
      (hfirm.target hends (Or.inr ⟨j, rfl, rfl⟩))
    -- the target is the hub's end of the connection
    obtain ⟨e, -, he, rfl, -⟩ := Links.target_eq_some hr
    have hpeer : e.peer = q := by
      have := hext p _ hl
      rw [Links.label_of_getElem? he] at this
      exact congrArg Prod.snd (Option.some.inj this)
    have hq' : HubEnd (t.applyAll cause (sendTo (some p) m)) j q := by
      refine ⟨p, i, ?_, extends_applyAll hext p _ hl⟩
      rw [view_applyAll, hconn, hp]
    have hsent : Links.inboxAt (t.applyAll cause (sendTo (some p) m)).links q =
        t.links.inboxAt q ++ [⟨cause, m⟩] := by
      rw [hpeer] at hr
      exact (Links.inboxAt_send ⟨cause, m⟩ hr q).trans (if_pos rfl)
    rw [due_of_hubEnd hq', due_of_hubEnd hq, hsent, view_applyAll, hid, hlists, settle_snoc,
      hinbox q hq]
    rfl

theorem passes_plain {k : UInt16} {l l' : Links (Info nk nf) (Tagged Message)} {q : Nat}
    {e : Effect} (h : Plain l e) : Passes k l' q e := by
  match e, h with
  | .send p m, h => exact Or.inl (beside_of_none h.1)
  | .shutdown p, _ => trivial
  | .put _, _ => trivial
  | .call _, _ => trivial

theorem passes_sendTo {k : UInt16} {l : Links (Info nk nf) (Tagged Message)} {q : Nat}
    {conn : Option Nat} {m : Message}
    (h : Beside k m ∨ ∀ p i, conn = some p → l.label p ≠ some (i, q)) :
    ∀ e ∈ sendTo conn m, Passes k l q e := by
  intro e he
  obtain ⟨p, hp, rfl⟩ := mem_sendTo.mp he
  exact h.imp id fun h i => h p i hp

theorem settle_receive (hw : Wired s) {p q : Nat} {e : Endpoint (Info nk nf) (Tagged Message)}
    {m : Tagged Message} {l : Links (Info nk nf) (Tagged Message)} {k : UInt16}
    (hr : s.links.receive p = some (e, m, l)) (hq : HubEnd s j q)
    (hm : e.info.role ≠ .hubServer ∨ Beside k m.val) (ds : List ForwardServerData) :
    settle k ds (l.inboxAt q) = settle k ds (s.links.inboxAt q) := by
  rw [Links.inboxAt_receive hr]
  split
  · rename_i hqp
    subst hqp
    rcases hm with hrole | hm
    · obtain ⟨x, hx, hi⟩ := hq.getElem? hw
      rw [(Links.receive_eq_some hr).1] at hx
      cases hx
      exact absurd hi hrole
    · rw [settle_cons, settleOne_beside hm]
  · rfl

end

/-! ## The account of a forward server -/

def atKeeper (i : Info nk nf) : Bool :=
  match i.role with
  | .keeperServer _ => true
  | _ => false

def clientsOf (k f : UInt16) : Option (UInt16 × UInt16 × Nat) → Nat
  | some (k', f', n) => if k' = k ∧ f' = f then n else 0
  | none => 0

/-- The clients of the forward server `f` of the keeper `k`. -/
def live (s : System nk nf) (k f : UInt16) : Nat := ∑ i, clientsOf k f (s.view.identity i)

def account (s : System nk nf) (j : Fin nk) (f : UInt16) : Account where
  load := loadOf (due s j) f
  started := s.view.started j f
  live := live s (s.view.serverID j) f
  inc := flying atKeeper s .INC (s.view.serverID j) f
  dec := flying atKeeper s .DEC (s.view.serverID j) f

section

variable {s s' : System nk nf} {a : Action nk nf} {j : Fin nk} {f : UInt16}

theorem live_congr {k : UInt16} (h : s'.view.identity = s.view.identity) :
    live s' k f = live s k f := by
  rw [live, live, h]

theorem live_update {k : UInt16} {i : Fin nf} {x : Option (UInt16 × UInt16 × Nat)}
    (h : s'.view.identity = Function.update s.view.identity i x) :
    live s' k f + clientsOf k f (s.view.identity i) = live s k f + clientsOf k f x := by
  have hcomp : (fun i' => clientsOf k f (s'.view.identity i')) =
      Function.update (fun i' => clientsOf k f (s.view.identity i')) i (clientsOf k f x) := by
    rw [h, update_comp]
  rw [live, live, hcomp, Finset.sum_update_of_mem (Finset.mem_univ i),
    ← Finset.add_sum_erase Finset.univ (fun i' => clientsOf k f (s.view.identity i'))
      (Finset.mem_univ i), Finset.sdiff_singleton_eq_erase]
  omega

/-- The account after a step, with the keeper's id before it. -/
theorem account_eq (hid : s'.view.serverID = s.view.serverID) : account s' j f =
    { load := loadOf (due s' j) f
      started := s'.view.started j f
      live := live s' (s.view.serverID j) f
      inc := flying atKeeper s' .INC (s.view.serverID j) f
      dec := flying atKeeper s' .DEC (s.view.serverID j) f } := by
  rw [account, hid]

theorem account_congr (hid : s'.view.serverID = s.view.serverID)
    (hload : loadOf (due s' j) f = loadOf (due s j) f)
    (hstart : s'.view.started j f = s.view.started j f)
    (hlive : live s' (s.view.serverID j) f = live s (s.view.serverID j) f)
    (hfly : ∀ oper, oper = .INC ∨ oper = .DEC →
      flying atKeeper s' oper (s.view.serverID j) f = flying atKeeper s oper (s.view.serverID j) f) :
    Account.Step (account s j f) (account s' j f) := by
  have heq : account s' j f = account s j f := by
    rw [account_eq hid, hload, hstart, hfly .INC (Or.inl rfl), hfly .DEC (Or.inr rfl), hlive]
    rfl
  rw [heq]
  exact .same _

theorem takesUpdates_of_atKeeper {i : Info nk nf} (h : atKeeper i = true) :
    takesUpdates i = true := by
  unfold atKeeper at h
  unfold takesUpdates
  split at h <;> simp_all

theorem account_message {p : Nat} {e : Endpoint (Info nk nf) (Tagged Message)}
    {m : Tagged Message} {l : Links (Info nk nf) (Tagged Message)} {s₁ : System nk nf}
    {es : List Effect} (hw : Wired s) (hr : s.links.receive p = some (e, m, l))
    (hm : takesUpdates e.info = false ∨ updateIn m.val = none) (hview : s₁.view = s.view)
    (hlinks : s₁.links = l) (hes : ∀ e ∈ es, Plain l e) :
    Account.Step (account s j f) (account (s₁.applyAll m.cause es) j f) := by
  refine account_congr (by rw [view_applyAll, hview]) ?_ (by rw [view_applyAll, hview])
    (live_congr (by rw [view_applyAll, hview])) fun oper _ => ?_
  · refine congrArg (loadOf · f) ?_
    refine due_step hw (by rw [hview]) (by rw [hview]) (by rw [hview])
      (hlinks ▸ extends_of_label (Links.label_receive hr)) (fun q _ e he => passes_plain (hes e he))
      fun q hq ds => ?_
    rw [hlinks]
    refine settle_receive hw hr hq (hm.imp ?_ beside_of_none) ds
    intro hno hrole
    simp [takesUpdates, hrole] at hno
  · rw [flying_plains _ hes, flying_receive_of_not hr hlinks]
    refine hm.imp (fun hno => ?_) fun hnone => by rw [hnone]; rfl
    rw [Bool.eq_false_iff] at hno ⊢
    exact fun hat => hno (takesUpdates_of_atKeeper hat)

/-- The hub handles an update, as it was due. -/
theorem account_update {p : Nat} {e : Endpoint (Info nk nf) (Tagged Message)}
    {m : Tagged Message} {l : Links (Info nk nf) (Tagged Message)} {u : UpdateForwardConns}
    (hst : Steady j s) (hw : Wired s) (hr : s.links.receive p = some (e, m, l))
    (hrole : e.info.role = .hubServer) (hm : m.val = .hubKeeperUpdateForwardConns u)
    (hview : s'.view = { s.view with
      lists := (s.hub.onHubKeeperUpdateForwardConns u).1.forwards })
    (hlinks : s'.links = l) : Account.Step (account s j f) (account s' j f) := by
  have hu : updateIn m.val = some u := by rw [hm]; rfl
  have hlists : s'.view.lists (s.view.serverID j) =
      settleOne (s.view.serverID j) (s.view.lists (s.view.serverID j)) m := by
    rw [hview, settleOne, hu]
    refine (forwards_update s.hub u _).trans ?_
    by_cases hk : u.keeperserverid.toUInt16 = s.view.serverID j
    · rw [if_pos hk.symm]
      dsimp only
      rw [if_pos hk]
      rfl
    · rw [if_neg fun h => hk h.symm]
      dsimp only
      rw [if_neg hk]
      rfl
  -- an update for the keeper comes on its connection
  have hother : ¬ HubEnd s j p → s'.view.lists (s.view.serverID j) =
      s.view.lists (s.view.serverID j) := by
    intro hno
    rw [hlists]
    refine settleOne_beside (fun u' hu' hk => hno ?_) _
    exact (hst.known.receive hr).2.update u' hrole hu' hk
  refine account_congr (by rw [hview]) ?_ (by rw [hview]) (live_congr (by rw [hview])) fun oper _ =>
    flying_receive_of_not hr hlinks (Or.inl (by simp [atKeeper, hrole]))
  refine congrArg (loadOf · f) ?_
  refine due_congr hw (by rw [hview]) (by rw [hview])
    (hlinks ▸ extends_of_label (Links.label_receive hr)) ?_ ?_
  · intro hnone
    refine hother ?_
    rintro ⟨p', i, hp', -⟩
    rw [hnone] at hp'
    cases hp'
  · intro q hq
    rw [hlinks, Links.inboxAt_receive hr q]
    split
    · rw [settle_cons, hlists]
    · rename_i hqp
      rw [hother fun hp => hqp (hp.unique hq)]

/-- The counter that is due after the keeper `j` has sent the hub an update. -/
theorem loadOf_report {t : System nk nf} (hw : Wired s) (hfirm : Firm t.links)
    (hconn : t.view.hubConn j = s.view.hubConn j) (hid : t.view.serverID = s.view.serverID)
    (hlists : t.view.lists = s.view.lists) (hext : Extends s.links t.links)
    (hinbox : ∀ q, HubEnd s j q → ∀ l, settle (s.view.serverID j) l (t.links.inboxAt q) =
      settle (s.view.serverID j) l (s.links.inboxAt q)) {cause : Option Request}
    {u : UpdateForwardConns} (hk : u.keeperserverid.toUInt16 = s.view.serverID j)
    (hoper : u.oper ≠ .REMOVE) :
    loadOf (due (t.applyAll cause
        (sendTo (s.view.hubConn j) (.hubKeeperUpdateForwardConns u))) j) f =
      if (s.view.hubConn j).isSome ∧ u.forwardserverid.toUInt16 = f then
        Account.count u.oper (loadOf (due s j) f)
      else loadOf (due s j) f := by
  rw [due_report hw hfirm hconn hid hlists hext hinbox]
  by_cases hsome : (s.view.hubConn j).isSome
  · have hone : settleOne (s.view.serverID j) (due s j) ⟨cause, .hubKeeperUpdateForwardConns u⟩ =
        HubServer.updateList u.forwardserverid.toUInt16 u.forwardip u.forwardport.toUInt16 u.oper
          (due s j) := if_pos hk
    rw [if_pos hsome, hone, loadOf_updateList_count _ _ _ _ hoper]
    by_cases hf : u.forwardserverid.toUInt16 = f
    · rw [if_pos hf, if_pos ⟨hsome, hf⟩]
    · rw [if_neg hf, if_neg fun h => hf h.2]
  · rw [if_neg hsome, if_neg fun h => hsome h.1]

theorem account_query {p : Nat} {e : Endpoint (Info nk nf) (Tagged Message)}
    {m : Tagged Message} {l : Links (Info nk nf) (Tagged Message)} {s₁ : System nk nf}
    {j' : Fin nk} {q : KeeperQuery} {c : ServerConfig} {start : UInt16 → Bool} (hst : Steady j s)
    (hw : Wired s) (hids : ∀ j', s.view.serverID j' = s.view.serverID j → j' = j)
    (hr : s.links.receive p = some (e, m, l)) (hrole : e.info.role = .keeperServer j')
    (hm : m.val = .keeperQuery q) (hnew : s.view.started j' c.id = false)
    (hstart : ∀ f, start f = (s.view.started j' f || decide (f = c.id)))
    (hview : s₁.view = { s.view with started := Function.update s.view.started j' start })
    (hlinks : s₁.links = l)
    (hs' : s' = s₁.applyAll m.cause (.send p (.keeperAnswer ((s.keepers j').answer c)) ::
      (s.keepers j').sendToHub (.hubKeeperUpdateForwardConns ((s.keepers j').addMessage c)))) :
    Account.Step (account s j f) (account s' j f) := by
  have hview' : s'.view = { s.view with started := Function.update s.view.started j' start } := by
    rw [hs', view_applyAll, hview]
  have hext : Extends s.links s₁.links := hlinks ▸ extends_of_label (Links.label_receive hr)
  have hinbox : ∀ q, HubEnd s j q → ∀ ds, settle (s.view.serverID j) ds (s₁.links.inboxAt q) =
      settle (s.view.serverID j) ds (s.links.inboxAt q) := by
    intro q hq ds
    rw [hlinks]
    exact settle_receive hw hr hq (Or.inl (by simp [hrole])) ds
  have hfly : ∀ oper, oper = .INC ∨ oper = .DEC →
      flying atKeeper s' oper (s.view.serverID j) f =
        flying atKeeper s oper (s.view.serverID j) f := by
    intro oper hoper
    rw [hs', flying_silents, flying_receive_of_not hr hlinks (Or.inr (by rw [hm]; rfl))]
    intro x hx
    rcases List.mem_cons.mp hx with rfl | hx
    · rfl
    · refine silent_sendTo rfl (isFor_of_oper ?_) x hx
      rcases hoper with rfl | rfl <;> simp [KeeperServer.addMessage]
  by_cases hj : j' = j
  · subst hj
    -- first the answer, then the report
    have hload : loadOf (due s' j') f = if (s.view.hubConn j').isSome ∧ c.id = f then
        Account.count .ADD (loadOf (due s j') f) else loadOf (due s j') f := by
      have happly : (System.apply m.cause s₁
          (.send p (.keeperAnswer ((s.keepers j').answer c)))).view = s₁.view :=
        view_applyAll s₁ m.cause [.send p (.keeperAnswer ((s.keepers j').answer c))]
      rw [hs', System.applyAll_cons]
      refine (loadOf_report (u := (s.keepers j').addMessage c) hw ?_ ?_ ?_ ?_ ?_ ?_
        (UInt16.toUInt16_toUInt32 _) (by simp [KeeperServer.addMessage])).trans ?_
      · exact (hlinks ▸ hst.firm.receive hr).send p _
      · rw [happly, hview]
      · rw [happly, hview]
      · rw [happly, hview]
      · exact fun r x hx => (System.apply_label _ _ _ _).trans (hext r x hx)
      · intro r hq ds
        refine (settle_applyAll [.send p (.keeperAnswer ((s.keepers j').answer c))] ds
          ?_).trans (hinbox r hq ds)
        intro x hx
        rw [List.mem_singleton.mp hx]
        exact Or.inl (beside_of_none rfl)
      · rw [show ((s.keepers j').addMessage c).forwardserverid.toUInt16 = c.id from
          UInt16.toUInt16_toUInt32 _]
        rfl
    have hid : s'.view.serverID = s.view.serverID := by rw [hview']
    by_cases hf : c.id = f
    · subst hf
      rw [account_eq hid]
      refine .start hnew ?_ ?_ ?_ (hfly .INC (Or.inl rfl)) (hfly .DEC (Or.inr rfl))
      · dsimp only
        rw [hload]
        split
        · exact Or.inr rfl
        · exact Or.inl rfl
      · dsimp only
        rw [hview']
        simp [hstart]
      · exact live_congr (by rw [hview'])
    · refine account_congr hid ?_ ?_ (live_congr (by rw [hview'])) hfly
      · rw [hload, if_neg fun h => hf h.2]
      · have hne : f ≠ c.id := fun h => hf h.symm
        rw [hview']
        simp [hstart, hne]
  · have hne : s.view.serverID j' ≠ s.view.serverID j := fun h => hj (hids j' h)
    refine account_congr (by rw [hview']) ?_ ?_ (live_congr (by rw [hview'])) hfly
    · refine congrArg (loadOf · f) ?_
      rw [hs']
      refine due_step hw (by rw [hview]) (by rw [hview]) (by rw [hview]) hext ?_ hinbox
      intro r _ x hx
      rcases List.mem_cons.mp hx with rfl | hx
      · exact Or.inl (beside_of_none rfl)
      · refine passes_sendTo (Or.inl ?_) x hx
        intro u hu hk
        cases hu
        exact hne ((UInt16.toUInt16_toUInt32 _).symm.trans hk)
    · rw [hview']
      exact congrFun (Function.update_of_ne (fun h => hj h.symm) _ _) f

/-- A keeper passes a report on. -/
theorem account_relay {p : Nat} {e : Endpoint (Info nk nf) (Tagged Message)}
    {m : Tagged Message} {l : Links (Info nk nf) (Tagged Message)} {s₁ : System nk nf}
    {j' : Fin nk} {u : UpdateForwardConns} (hst : Steady j s) (hw : Wired s)
    (hrep : Links.AllMail Reports s.links) (hr : s.links.receive p = some (e, m, l))
    (hrole : e.info.role = .keeperServer j') (hm : m.val = .keeperForwardUpdateForwardConns u)
    (hview : s₁.view = s.view) (hlinks : s₁.links = l)
    (hs' : s' = s₁.applyAll m.cause ((s.keepers j').sendToHub (.hubKeeperUpdateForwardConns u))) :
    Account.Step (account s j f) (account s' j f) := by
  have hview' : s'.view = s.view := by rw [hs', view_applyAll, hview]
  have hid : s'.view.serverID = s.view.serverID := by rw [hview']
  have hu : updateIn m.val = some u := by rw [hm]; rfl
  have hext : Extends s.links s₁.links := hlinks ▸ extends_of_label (Links.label_receive hr)
  have hinbox : ∀ q, HubEnd s j q → ∀ ds, settle (s.view.serverID j) ds (s₁.links.inboxAt q) =
      settle (s.view.serverID j) ds (s.links.inboxAt q) := by
    intro q hq ds
    rw [hlinks]
    exact settle_receive hw hr hq (Or.inl (by simp [hrole])) ds
  -- the report leaves the keeper's inbox, and its copy goes to the hub
  have hfly : ∀ oper, flying atKeeper s oper (s.view.serverID j) f =
      flying atKeeper s' oper (s.view.serverID j) f +
        if isFor (s.view.serverID j) f oper u then 1 else 0 := by
    intro oper
    have hsend : flying atKeeper s' oper (s.view.serverID j) f =
        flying atKeeper s₁ oper (s.view.serverID j) f := by
      rw [hs']
      exact flying_sendTo_aside m.cause (fun p hp => ((hw.keepers j').hubConn p hp).mono hext)
        fun i hi => by simp [atKeeper, hi]
    rw [hsend, flying_receive hr hlinks, hu]
    simp [atKeeper, hrole]
  by_cases hk : u.keeperserverid.toUInt16 = s.view.serverID j
  · obtain rfl := (hst.known.receive hr).2.report u j' hrole hu hk
    have hoper := (hrep.receive hr).2 j' u hrole hu
    have hload : loadOf (due s' j') f =
        if (s.view.hubConn j').isSome ∧ u.forwardserverid.toUInt16 = f then
          Account.count u.oper (loadOf (due s j') f) else loadOf (due s j') f := by
      rw [hs']
      exact loadOf_report hw (hlinks ▸ hst.firm.receive hr) (by rw [hview]) (by rw [hview])
        (by rw [hview]) hext hinbox hk (by rcases hoper with h | h <;> simp [h])
    by_cases hf : u.forwardserverid.toUInt16 = f
    · have hinc := hfly .INC
      have hdec := hfly .DEC
      simp only [isFor, hk, hf, decide_true, Bool.true_and, decide_eq_true_eq] at hinc hdec
      rw [account_eq hid]
      cases hp : s.view.hubConn j' with
      | none =>
        -- the hub has never heard of the keeper
        have hnone : loadOf (due s j') f = none := by
          rw [due_of_none hp, hst.unlinked hp]
          rfl
        refine .lost hnone (by dsimp only [account]; omega) (by dsimp only [account]; omega) ?_
          (by rw [hview']; rfl) (live_congr (by rw [hview']))
        dsimp only
        rw [hload, hp, if_neg (by simp), hnone]
      | some p₀ =>
        rw [hp, if_pos ⟨rfl, hf⟩] at hload
        refine .relay hoper ?_ (by dsimp only [account]; omega) (by dsimp only [account]; omega)
          hload (by rw [hview']; rfl) (live_congr (by rw [hview']))
        dsimp only [account]
        rcases hoper with h | h
        · simp only [h, reduceCtorEq, if_true, if_false] at hinc hdec ⊢
          omega
        · simp only [h, reduceCtorEq, if_true, if_false] at hinc hdec ⊢
          omega
    · refine account_congr hid ?_ (by rw [hview']) (live_congr (by rw [hview'])) fun oper _ => ?_
      · rw [hload, if_neg fun h => hf h.2]
      · have hno : isFor (s.view.serverID j') f oper u = false := by simp [isFor, hf]
        rw [hfly oper, hno]
        rfl
  · refine account_congr hid ?_ (by rw [hview']) (live_congr (by rw [hview'])) fun oper _ => ?_
    · refine congrArg (loadOf · f) ?_
      rw [hs']
      refine due_step hw (by rw [hview]) (by rw [hview]) (by rw [hview]) hext ?_ hinbox
      intro q _
      refine passes_sendTo (Or.inl ?_)
      intro u' hu' hk'
      cases hu'
      exact hk hk'
    · rw [hfly oper, isFor_of_ne hk]
      rfl

/-- What a client sends goes to the logon server. -/
theorem inboxAt_clientSend (hw : Wired s) {p q : Nat} {m : Tagged Message}
    (hends : Ends s.links p .client .logonServer) (hq : HubEnd s j q) :
    (s.links.send p m).inboxAt q = s.links.inboxAt q := by
  cases ht : s.links.target p with
  | none => rw [Links.mail_send_lost ht]
  | some r =>
    rw [Links.inboxAt_send m ht, if_neg]
    rintro rfl
    obtain ⟨e, -, he, rfl, -⟩ := Links.target_eq_some ht
    obtain ⟨x, hx, hi⟩ := hq.getElem? hw
    rw [(hends.peer he).1.role_eq (Links.label_of_getElem? hx)] at hi
    cases hi

/-- What a forward server sends goes to a keeper. -/
theorem passes_forward (hw : Wired s) {i : Fin nf} {q : Nat} {k : UInt16} {m : Message}
    {l : Links (Info nk nf) (Tagged Message)} (hl : ∀ p, l.label p = s.links.label p)
    (hq : HubEnd s j q) : ∀ e ∈ sendTo (s.view.conn i) m, Passes k l q e := by
  refine passes_sendTo (Or.inr ?_)
  intro p i' hp hlabel
  rw [hl] at hlabel
  obtain ⟨j', hends⟩ := hw.forwards i p hp
  obtain ⟨e, he, rfl, rfl⟩ := Links.getElem?_of_label hlabel
  obtain ⟨x, hx, hi⟩ := hq.getElem? hw
  rw [(hends.peer he).1.role_eq (Links.label_of_getElem? hx)] at hi
  cases hi

theorem clientsOf_identity {i : Fin nf} {f₀ : ForwardServer} (k : UInt16)
    (hf : (s.forwards i).forwardServer_ = some f₀) : clientsOf k f (s.view.identity i) =
      if f₀.keeperServerID_ = k ∧ f₀.serverID_ = f then f₀.clients else 0 := by
  show clientsOf k f (identity (s.forwards i)) = _
  rw [identity, hf]
  rfl

/-- The connection of a forward server that the keeper `j` has named is up, and leads to it. -/
theorem Steady.forward_up (hst : Steady j s) {i : Fin nf} {f₀ : ForwardServer}
    (hf : (s.forwards i).forwardServer_ = some f₀) (hk : f₀.keeperServerID_ = s.view.serverID j)
    {t : System nk nf} (hfirm : Firm t.links) (hext : Extends s.links t.links) :
    linkUp t (s.view.conn i) = true ∧
      ∀ p, s.view.conn i = some p → Ends t.links p (.forwardKeeper i) (.keeperServer j) := by
  obtain ⟨-, p, hp, hends⟩ := hst.identity_eq hf hk
  refine ⟨?_, ?_⟩
  · rw [hp]
    exact hfirm.target (hends.mono hext) (Or.inl ⟨i, j, rfl, rfl⟩)
  · intro p' hp'
    rw [hp] at hp'
    cases hp'
    exact hends.mono hext

/-- A process gets an id, and its old clients are gone. -/
theorem account_answer {p : Nat} {e : Endpoint (Info nk nf) (Tagged Message)}
    {m : Tagged Message} {l : Links (Info nk nf) (Tagged Message)} {s₁ : System nk nf}
    {i : Fin nf} {ans : KeeperAnswer} (hst : Steady j s) (hw : Wired s)
    (hr : s.links.receive p = some (e, m, l)) (hrole : e.info.role = .forwardKeeper i)
    (hview : s₁.view = { s.view with
      identity := Function.update s.view.identity i
        (some (ans.keeperserverid.toUInt16, ans.serverid.toUInt16, 0)) })
    (hlinks : s₁.links = l)
    (hs' : s' = s₁.applyAll m.cause ((s.forwards i).onAnswer ans).2) :
    Account.Step (account s j f) (account s' j f) := by
  have hview' : s'.view = { s.view with
      identity := Function.update s.view.identity i
        (some (ans.keeperserverid.toUInt16, ans.serverid.toUInt16, 0)) } := by
    rw [hs', view_applyAll, hview]
  have hid : s'.view.serverID = s.view.serverID := by rw [hview']
  have hlabel : ∀ p, s₁.links.label p = s.links.label p := by
    rw [hlinks]
    exact Links.label_receive hr
  have hfirm : Firm s₁.links := hlinks ▸ hst.firm.receive hr
  have hlive : live s' (s.view.serverID j) f +
      clientsOf (s.view.serverID j) f (s.view.identity i) = _ := live_update (by rw [hview'])
  have hzero : clientsOf (s.view.serverID j) f
      (some (ans.keeperserverid.toUInt16, ans.serverid.toUInt16, 0)) = 0 := by
    simp [clientsOf]
  rw [hzero, Nat.add_zero] at hlive
  have hstart : s'.view.started j f = s.view.started j f := by rw [hview']
  have hreceive : ∀ oper, flying atKeeper s₁ oper (s.view.serverID j) f =
      flying atKeeper s oper (s.view.serverID j) f := fun oper =>
    flying_receive_of_not hr hlinks (Or.inl (by simp [atKeeper, hrole]))
  cases hf : (s.forwards i).forwardServer_ with
  | none =>
    have hnil : ((s.forwards i).onAnswer ans).2 = [] := by rw [KeeperClient.onAnswer, hf]
    have hdue : due s' j = due s j := by
      rw [hs', hnil]
      refine due_step hw (by rw [hview]) (by rw [hview]) (by rw [hview]) (extends_of_label hlabel)
        ?_ ?_
      · intro q _ e he
        cases he
      · intro q hq ds
        rw [hlinks]
        exact settle_receive hw hr hq (Or.inl (by simp [hrole])) ds
    have hnone : s.view.identity i = none := by
      show identity (s.forwards i) = none
      rw [identity, hf]
      rfl
    rw [hnone] at hlive
    refine account_congr hid (congrArg (loadOf · f) hdue) hstart hlive fun oper _ => ?_
    rw [hs', hnil]
    exact hreceive oper
  | some f₀ =>
    have hes : ((s.forwards i).onAnswer ans).2 = (List.replicate f₀.clients (sendTo (s.view.conn i)
        (.keeperForwardUpdateForwardConns (f₀.updateMessage .DEC)))).flatten := by
      rw [KeeperClient.onAnswer, hf]
      rfl
    have hmem : ∀ x ∈ ((s.forwards i).onAnswer ans).2, x ∈ sendTo (s.view.conn i)
        (.keeperForwardUpdateForwardConns (f₀.updateMessage .DEC)) := by
      intro x hx
      rw [hes] at hx
      obtain ⟨ys, hys, hx⟩ := List.mem_flatten.mp hx
      rw [(List.mem_replicate.mp hys).2] at hx
      exact hx
    have hdue : due s' j = due s j := by
      rw [hs']
      refine due_step hw (by rw [hview]) (by rw [hview]) (by rw [hview]) (extends_of_label hlabel)
        ?_ ?_
      · exact fun q hq x hx => passes_forward hw hlabel hq x (hmem x hx)
      · intro q hq ds
        rw [hlinks]
        exact settle_receive hw hr hq (Or.inl (by simp [hrole])) ds
    rw [clientsOf_identity _ hf] at hlive
    by_cases hown : f₀.keeperServerID_ = s.view.serverID j ∧ f₀.serverID_ = f
    · rw [if_pos hown] at hlive
      obtain ⟨hup, hends⟩ := hst.forward_up hf hown.1 hfirm (extends_of_label hlabel)
      rw [account_eq hid]
      refine .down f₀.clients hlive.symm ?_ (congrArg (loadOf · f) hdue) hstart ?_
      · dsimp only [account]
        rw [hs', hes, flying_replicate m.cause hends (fun i hi => by simp [atKeeper, hi]) ?_ hup,
          hreceive]
        simp [updateIn, isFor, ForwardServer.updateMessage, hown.1, hown.2]
      · dsimp only [account]
        rw [hs', flying_silents, hreceive]
        exact fun x hx => silent_sendTo rfl
          (isFor_of_oper (by simp [ForwardServer.updateMessage])) x (hmem x hx)
    · rw [if_neg hown, Nat.add_zero] at hlive
      refine account_congr hid (congrArg (loadOf · f) hdue) hstart hlive fun oper _ => ?_
      have hno : isFor (s.view.serverID j) f oper (f₀.updateMessage .DEC) = false := by
        simp only [isFor, ForwardServer.updateMessage, UInt16.toUInt16_toUInt32,
          Bool.and_eq_false_iff, decide_eq_false_iff_not]
        exact Or.inl (not_and_or.mp hown)
      rw [hs', flying_silents, hreceive]
      exact fun x hx => silent_sendTo rfl hno x (hmem x hx)

/-- A client of a forward server comes or goes. -/
theorem account_clients {s₁ : System nk nf} {i : Fin nf} {f₀ : ForwardServer} {oper : Operation}
    {n : Nat} (hst : Steady j s) (hw : Wired s) (hf : (s.forwards i).forwardServer_ = some f₀)
    (hoper : (oper = .INC ∧ n = f₀.clients + 1) ∨ (oper = .DEC ∧ f₀.clients = n + 1))
    (hview : s₁.view = { s.view with
      identity := Function.update s.view.identity i
        (some (f₀.keeperServerID_, f₀.serverID_, n)) })
    (hlinks : s₁.links = s.links)
    (hs' : s' = s₁.applyAll none ((s.forwards i).onForwardConnection f₀ oper)) :
    Account.Step (account s j f) (account s' j f) := by
  have hview' : s'.view = { s.view with
      identity := Function.update s.view.identity i
        (some (f₀.keeperServerID_, f₀.serverID_, n)) } := by
    rw [hs', view_applyAll, hview]
  have hid : s'.view.serverID = s.view.serverID := by rw [hview']
  have hlabel : ∀ p, s₁.links.label p = s.links.label p := fun p => by rw [hlinks]
  have hlive : live s' (s.view.serverID j) f +
      clientsOf (s.view.serverID j) f (s.view.identity i) = _ := live_update (by rw [hview'])
  rw [clientsOf_identity _ hf, clientsOf] at hlive
  have hstart : s'.view.started j f = s.view.started j f := by rw [hview']
  have hdue : due s' j = due s j := by
    rw [hs']
    refine due_step hw (by rw [hview]) (by rw [hview]) (by rw [hview]) (extends_of_label hlabel)
      ?_ ?_
    · exact fun q hq => passes_forward hw hlabel hq
    · intro q _ ds
      rw [hlinks]
  -- a report of another kind does not count
  have hsilent : ∀ oper', isFor (s.view.serverID j) f oper' (f₀.updateMessage oper) = false →
      flying atKeeper s' oper' (s.view.serverID j) f =
        flying atKeeper s oper' (s.view.serverID j) f := by
    intro oper' hno
    rw [hs', flying_silents, flying_links hlinks]
    exact silent_sendTo rfl hno
  by_cases hown : f₀.keeperServerID_ = s.view.serverID j ∧ f₀.serverID_ = f
  · rw [if_pos hown, if_pos hown] at hlive
    obtain ⟨hup, hends⟩ := hst.forward_up hf hown.1 (hlinks ▸ hst.firm : Firm s₁.links)
      (extends_of_label hlabel)
    have hfor : (updateIn (.keeperForwardUpdateForwardConns (f₀.updateMessage oper))).any
        (isFor (s.view.serverID j) f oper) = true := by
      simp [updateIn, isFor, ForwardServer.updateMessage, hown.1, hown.2]
    have hsent : flying atKeeper s' oper (s.view.serverID j) f =
        flying atKeeper s oper (s.view.serverID j) f + 1 := by
      rw [hs']
      refine (flying_sendTo none hends (fun i hi => by simp [atKeeper, hi]) hfor).trans ?_
      rw [if_pos hup, flying_links hlinks]
    rw [account_eq hid]
    rcases hoper with ⟨rfl, hn⟩ | ⟨rfl, hn⟩
    · have hold := (hst.identity_eq hf hown.1).1
      rw [hown.2] at hold
      refine .up hold ?_ hsent (congrArg (loadOf · f) hdue) hstart ?_
      · dsimp only [account]
        omega
      · exact hsilent .DEC (isFor_of_oper (by simp [ForwardServer.updateMessage]))
    · refine .down 1 ?_ hsent (congrArg (loadOf · f) hdue) hstart ?_
      · dsimp only [account]
        omega
      · exact hsilent .INC (isFor_of_oper (by simp [ForwardServer.updateMessage]))
  · rw [if_neg hown, if_neg hown] at hlive
    refine account_congr hid (congrArg (loadOf · f) hdue) hstart hlive fun oper' _ =>
      hsilent oper' ?_
    simp only [isFor, ForwardServer.updateMessage, UInt16.toUInt16_toUInt32,
      Bool.and_eq_false_iff, decide_eq_false_iff_not]
    exact Or.inl (not_and_or.mp hown)

/-- The ends on which reports travel stay as they are. -/
theorem account_still (hw : Wired s) (hconn : s'.view.hubConn j = s.view.hubConn j)
    (hid : s'.view.serverID = s.view.serverID) (hlists : s'.view.lists = s.view.lists)
    (hstart : s'.view.started = s.view.started) (hident : s'.view.identity = s.view.identity)
    (hext : Extends s.links s'.links)
    (hinbox : ∀ q, HubEnd s j q → ∀ l, settle (s.view.serverID j) l (s'.links.inboxAt q) =
      settle (s.view.serverID j) l (s.links.inboxAt q))
    (hfly : ∀ oper, flying atKeeper s' oper (s.view.serverID j) f =
      flying atKeeper s oper (s.view.serverID j) f) :
    Account.Step (account s j f) (account s' j f) := by
  refine account_congr hid ?_ (by rw [hstart]) (live_congr hident) fun oper _ => hfly oper
  refine congrArg (loadOf · f) ?_
  refine due_congr hw hconn (by rw [hid]) hext (fun _ => by rw [hlists]) fun q hq => ?_
  rw [hlists, hinbox q hq]

/-- A process connects, or does something else that is not about reports. -/
theorem account_links {s₁ : System nk nf} {cause : Option Request} {es : List Effect}
    {l : Links (Info nk nf) (Tagged Message)} (hw : Wired s)
    (hconn : s₁.view.hubConn j = s.view.hubConn j) (hid : s₁.view.serverID = s.view.serverID)
    (hlists : s₁.view.lists = s.view.lists) (hstart : s₁.view.started = s.view.started)
    (hident : s₁.view.identity = s.view.identity) (hext : Extends s.links s₁.links)
    (hinbox : ∀ q, HubEnd s j q → s₁.links.inboxAt q = s.links.inboxAt q)
    (hfly : ∀ oper, flying atKeeper s₁ oper (s.view.serverID j) f =
      flying atKeeper s oper (s.view.serverID j) f)
    (hes : ∀ e ∈ es, Plain l e) :
    Account.Step (account s j f) (account (s₁.applyAll cause es) j f) := by
  refine account_still hw (by rw [view_applyAll, hconn]) (by rw [view_applyAll, hid])
    (by rw [view_applyAll, hlists]) (by rw [view_applyAll, hstart]) (by rw [view_applyAll, hident])
    (extends_applyAll hext) ?_ fun oper => ?_
  · intro q hq ds
    rw [settle_applyAll es ds fun e he => passes_plain (hes e he), hinbox q hq]
  · rw [flying_plains _ hes, hfly]

/-- The keeper `j` connects: nothing has been due. -/
theorem account_connectHub {s₁ : System nk nf} {es : List Effect}
    {l : Links (Info nk nf) (Tagged Message)} (hnone : s.view.hubConn j = none)
    (hview : s₁.view = { s.view with
      hubConn := Function.update s.view.hubConn j (some s.links.length) })
    (hlinks : s₁.links = s.links.connect (.unnamed (.keeperHub j)) (.unnamed .hubServer))
    (hes : ∀ e ∈ es, Plain l e) :
    Account.Step (account s j f) (account (s₁.applyAll none es) j f) := by
  have hl : s₁.links.label s.links.length = some (.unnamed (.keeperHub j), s.links.length + 1) := by
    rw [hlinks]
    simp [Links.label, Links.connect]
  have hempty : s₁.links.inboxAt (s.links.length + 1) = [] := by
    rw [hlinks]
    simp [Links.inboxAt, Links.connect]
  have hq : HubEnd (s₁.applyAll none es) j (s.links.length + 1) := by
    refine ⟨s.links.length, .unnamed (.keeperHub j), ?_, ?_⟩
    · rw [view_applyAll, hview]
      exact Function.update_self _ _ _
    · rw [label_applyAll, hl]
  have hdue : due (s₁.applyAll none es) j = due s j := by
    rw [due_of_hubEnd hq, due_of_none hnone, settle_applyAll es _ fun e he => passes_plain (hes e he),
      hempty, view_applyAll, hview]
    rfl
  refine account_congr (by rw [view_applyAll, hview]) (congrArg (loadOf · f) hdue)
    (by rw [view_applyAll, hview]) (live_congr (by rw [view_applyAll, hview])) fun oper _ => ?_
  rw [flying_plains _ hes, flying_connect hlinks]

/-- Nothing is lost on its way to a keeper. -/
theorem Firm.atKeeper_of_lose (h : Firm s.links) (hw : Wired s) {p : Nat}
    {e : Endpoint (Info nk nf) (Tagged Message)} {m : Tagged Message}
    {l : Links (Info nk nf) (Tagged Message)} (hl : s.links.lose p = some (e, m, l)) :
    atKeeper e.info = false := by
  obtain ⟨he, -, ms, hin, -⟩ := Links.lose_eq_some hl
  obtain ⟨R', hends, hm⟩ := hw.mail p e he m (hin ▸ List.mem_append_right _ List.mem_cons_self)
  rw [Bool.eq_false_iff]
  intro hat
  unfold atKeeper at hat
  split at hat
  · rename_i j' hj
    rw [hj] at hends hm
    cases R' with
    | forwardKeeper i =>
      rw [h.lose_eq_none hends (Or.inl ⟨i, j', rfl, rfl⟩)] at hl
      cases hl
    | _ => simp [fits] at hm
  · cases hat

/-- **Every step of the system is a step of the account.** -/
theorem Steady.account_step (hst : Steady j s) (h : Change s a s') (hw : Wired s)
    (hrep : Links.AllMail Reports s.links)
    (hids : ∀ j', s.view.serverID j' = s.view.serverID j → j' = j)
    (hup : linksStayUp s a = true) : Account.Step (account s j f) (account s' j f) := by
  -- a new connection leaves the old ends as they are
  have hconnect : ∀ {s₁ : System nk nf} {i i' : Info nk nf}, s₁.links = s.links.connect i i' →
      ∀ q, HubEnd s j q → s₁.links.inboxAt q = s.links.inboxAt q := by
    intro s₁ i i' hlinks q hq
    obtain ⟨x, hx, -⟩ := hq.getElem? hw
    rw [hlinks]
    exact Links.inboxAt_connect i i' hx
  cases h with
  | message hr hm hview hlinks hes => exact account_message hw hr hm hview hlinks hes
  | update hr hrole hm hview hlinks => exact account_update hst hw hr hrole hm hview hlinks
  | query hr hrole hends hm hc hnew hstart hview hlinks =>
    exact account_query hst hw hids hr hrole hm hnew hstart hview hlinks rfl
  | relay hr hrole hm hview hlinks =>
    exact account_relay hst hw hrep hr hrole hm hview hlinks rfl
  | answer hr hrole hm hview hlinks => exact account_answer hst hw hr hrole hview hlinks rfl
  | clients hf hoper hview hlinks => exact account_clients hst hw hf hoper hview hlinks rfl
  | clientSend hends hview hlinks =>
    refine account_still hw (by rw [hview]) (by rw [hview]) (by rw [hview]) (by rw [hview])
      (by rw [hview]) ?_ ?_ ?_
    · exact hlinks ▸ extends_of_label fun r => Links.label_send _ _ r _
    · intro q hq ds
      rw [hlinks, inboxAt_clientSend hw hends hq]
    · exact fun oper => flying_clientSend (fun i => takesUpdates_of_atKeeper) hends hlinks
  | internal hview hlinks hes =>
    exact account_links hw (by rw [hview]) (by rw [hview]) (by rw [hview]) (by rw [hview])
      (by rw [hview]) (hlinks ▸ Extends.refl _) (fun q _ => by rw [hlinks])
      (fun oper => flying_links hlinks) hes
  | connect hroles hview hlinks hes =>
    exact account_links hw (by rw [hview]) (by rw [hview]) (by rw [hview]) (by rw [hview])
      (by rw [hview]) (hlinks ▸ extends_connect _ _) (hconnect hlinks)
      (fun oper => flying_connect hlinks) hes
  | connectHub hnone hview hlinks hes =>
    rename_i j' s₁ es
    by_cases hj : j' = j
    · subst hj
      exact account_connectHub hnone hview hlinks hes
    · refine account_links hw ?_ (by rw [hview]) (by rw [hview]) (by rw [hview])
        (by rw [hview]) (hlinks ▸ extends_connect _ _) (hconnect hlinks)
        (fun oper => flying_connect hlinks) hes
      rw [hview]
      exact Function.update_of_ne (fun h => hj h.symm) _ _
  | connectKeeper hnone hb hview hlinks hes =>
    exact account_links hw (by rw [hview]) (by rw [hview]) (by rw [hview]) (by rw [hview])
      (by rw [hview]) (hlinks ▸ extends_connect _ _) (hconnect hlinks)
      (fun oper => flying_connect hlinks) hes
  | down he hrole hview hlinks =>
    refine account_still hw (by rw [hview]) (by rw [hview]) (by rw [hview]) (by rw [hview])
      (by rw [hview]) ?_ ?_ ?_
    · exact hlinks ▸ extends_of_label fun r => Links.label_close _ _ r
    · intro q hq ds
      rw [hlinks, Links.inboxAt_close]
      rintro rfl
      have hlink := onReportLink_of_ends (hq.ends hw) (Or.inr (Or.inr (Or.inr ⟨j, rfl, rfl⟩)))
      simp [linksStayUp, hlink] at hup
    · intro oper
      refine flying_close he hlinks fun m _ => ?_
      rcases hrole with hi | hi | hi | hi <;> simp [atKeeper, hi]
  | downKeeperHub he hrole hview hlinks => exact absurd hrole ((not_down hup he).2.2 _)
  | downKeeper he hrole hview hlinks hes => exact absurd hrole ((not_down hup he).2.1 _)
  | downForward he hrole hview hlinks => exact absurd hrole ((not_down hup he).1 _)
  | lose hl hview hlinks =>
    refine account_still hw (by rw [hview]) (by rw [hview]) (by rw [hview]) (by rw [hview])
      (by rw [hview]) ?_ ?_ ?_
    · exact hlinks ▸ extends_of_label (Links.label_lose hl)
    · intro q hq ds
      rw [hlinks, Links.inboxAt_lose hl, if_neg]
      rintro rfl
      rw [hst.firm.lose_eq_none (hq.ends hw) (Or.inr ⟨j, rfl, rfl⟩)] at hl
      cases hl
    · intro oper
      refine flying_lose_of_not hl hlinks ?_
      rw [hst.firm.atKeeper_of_lose hw hl, Bool.false_and]
  | restartLogon hview hlinks =>
    refine account_still hw (by rw [hview]) (by rw [hview]) (by rw [hview]) (by rw [hview])
      (by rw [hview]) ?_ ?_ ?_
    · exact hlinks ▸ extends_of_label fun r => Links.label_closeAll _ _ r
    · intro q hq ds
      obtain ⟨x, hx, hi⟩ := hq.getElem? hw
      rw [hlinks, Links.inboxAt_closeAll hx (by simp [System.isLogon, hi])]
    · exact fun oper => flying_restartLogon (fun i => takesUpdates_of_atKeeper) hlinks
  | restartHub hview hlinks => cases hup

/-- The updates under way for the keeper `j`: to the keepers, and from it to the hub. -/
theorem Steady.flying_eq (hst : Steady j s) (hw : Wired s) {q : Nat} (hq : HubEnd s j q)
    (oper : Operation) (f : UInt16) : flying takesUpdates s oper (s.view.serverID j) f =
      flying atKeeper s oper (s.view.serverID j) f + (s.links.inboxAt q).countP
        fun m => (updateIn m.val).any (isFor (s.view.serverID j) f oper) := by
  obtain ⟨x, hx, hi⟩ := hq.getElem? hw
  have hkeeper : (fun (i : Info nk nf) (m : Tagged Message) => atKeeper i && (takesUpdates i &&
      (updateIn m.val).any (isFor (s.view.serverID j) f oper))) = fun i m => atKeeper i &&
        (updateIn m.val).any (isFor (s.view.serverID j) f oper) := by
    funext i m
    cases hat : atKeeper i with
    | false => rfl
    | true => rw [takesUpdates_of_atKeeper hat, Bool.true_and]
  have hhub : Links.mail (fun (i : Info nk nf) (m : Tagged Message) => !atKeeper i &&
      (takesUpdates i && (updateIn m.val).any (isFor (s.view.serverID j) f oper))) s.links =
        x.inbox.countP fun m => !atKeeper x.info && (takesUpdates x.info &&
          (updateIn m.val).any (isFor (s.view.serverID j) f oper)) := by
    refine Links.mail_eq_countP hx fun r y hy hr m hm => ?_
    rw [Bool.eq_false_iff]
    intro hcount
    simp only [Bool.and_eq_true, Bool.not_eq_true'] at hcount
    obtain ⟨hno, htakes, hfor⟩ := hcount
    -- only the hub's end for the keeper has such an update
    have hrole : y.info.role = .hubServer := by
      unfold takesUpdates at htakes
      unfold atKeeper at hno
      split at htakes <;> simp_all
    obtain ⟨u, hu, hfor⟩ := Option.any_eq_true _ _ |>.mp hfor
    have hk : u.keeperserverid.toUInt16 = s.view.serverID j := by
      by_contra hne
      rw [isFor_of_ne hne] at hfor
      cases hfor
    exact hr (hq.unique ((hst.known r y hy m hm).update u hrole hu hk))
  rw [flying, Links.mail_split atKeeper, hkeeper, hhub, Links.inboxAt_of_getElem? hx]
  simp [flying, atKeeper, takesUpdates, hi]

theorem balanced_init {logon : LogonServer} {keepers : Fin nk → KeeperServer}
    (h₀ : Fresh logon keepers) (j : Fin nk) (f : UInt16) :
    (account (System.init logon keepers : System nk nf) j f).Balanced := by
  have hnone : (keepers j).isStarted f = false := by
    rw [KeeperServer.isStarted, (h₀.keepers j).1]
    rfl
  have hconn : (System.init logon keepers : System nk nf).view.hubConn j = none :=
    (h₀.keepers j).2.2
  have hload : (account (System.init logon keepers : System nk nf) j f).load = none := by
    show loadOf (due _ j) f = none
    rw [due_of_none hconn]
    rfl
  refine ⟨fun h => absurd hload h, fun _ => ⟨?_, rfl, rfl⟩, ?_⟩
  · show live _ _ f = 0
    rw [live]
    exact Finset.sum_eq_zero fun _ _ => rfl
  · intro n hn
    rw [hload] at hn
    cases hn

end

/-! ## Runs -/

section

variable {logon : LogonServer} {keepers : Fin nk → KeeperServer} {s : System nk nf} {j : Fin nk}

theorem balanced_reaches (h₀ : Fresh logon keepers)
    (hids : ∀ j', (keepers j').serverID_ = (keepers j).serverID_ → j' = j)
    (h : Reaches System.step (fun s a => linksStayUp s a = true) (System.init logon keepers) s) :
    Tracked (fun j => (keepers j).serverID_) j s ∧ Steady j s ∧
      ∀ f, (account s j f).Balanced := by
  refine h.invariant (P := fun s => Tracked (fun j => (keepers j).serverID_) j s ∧ Steady j s ∧
    ∀ f, (account s j f).Balanced)
    ⟨tracked_init h₀ j, steady_init logon keepers j, balanced_init h₀ j⟩ ?_
  rintro s a s' ⟨ht, hst, hb⟩ hup hs
  have hchange := step_change ht.wired hs
  have hids' : ∀ j', s.view.serverID j' = s.view.serverID j → j' = j := by
    rw [ht.serverID]
    exact hids
  refine ⟨(ht.step hids (linksStayUp.staysUp hup j) hs).1,
    hst.step hchange ht.wired hids' hup, fun f => ?_⟩
  exact (hst.account_step hchange ht.wired ht.reports hids' hup).balanced (hb f)

/-- **Load counts are conserved.** In every run in which the links between forward servers, keepers
    and hub stay up: if the hub lists the forward server `f` of a keeper once, then its counter is,
    modulo `2 ^ 16`, the number of clients of `f`, less the `INC`s for `f` under way, plus the
    `DEC`s. -/
theorem load_conserved (h₀ : Fresh logon keepers)
    (hids : ∀ j', (keepers j').serverID_ = (keepers j).serverID_ → j' = j)
    (h : Reaches System.step (fun s a => linksStayUp s a = true) (System.init logon keepers) s)
    {f : UInt16} {d : ForwardServerData}
    (hd : (s.hub.forwards (s.keepers j).serverID_).filter (fun d => d.id = f) = [d]) :
    (d.numConnections.toNat : Int) ≡ live s (s.keepers j).serverID_ f -
      flying takesUpdates s .INC (s.keepers j).serverID_ f +
      flying takesUpdates s .DEC (s.keepers j).serverID_ f [ZMOD 2 ^ 16] := by
  obtain ⟨ht, hst, hb⟩ := balanced_reaches h₀ hids h
  have hload : loadOf (s.view.lists (s.view.serverID j)) f = some (d.numConnections.toNat : Int) := by
    have hfind : (s.view.lists (s.view.serverID j)).find? (fun d => d.id = f) = some d := by
      rw [← List.head?_filter]
      exact congrArg List.head? hd
    rw [loadOf, hfind]
    rfl
  cases hp : s.view.hubConn j with
  | none =>
    rw [hst.unlinked hp] at hload
    cases hload
  | some p =>
    obtain ⟨q, hq⟩ := ht.wired.hubEnd hp
    obtain ⟨x, hx, hi⟩ := hq.getElem? ht.wired
    have hno : ∀ m ∈ s.links.inboxAt q, ∀ u, updateIn m.val = some u → u.oper = .REMOVE →
        u.keeperserverid.toUInt16 ≠ s.view.serverID j := by
      intro m hm u hu hoper
      rw [Links.inboxAt_of_getElem? hx] at hm
      rw [ht.serverID]
      exact ht.noRemove q x hx m hm u (by simp [takesUpdates, hi]) hu hoper
    -- the counter after what is under way to the hub
    obtain ⟨n, hn, hcount⟩ := loadOf_settle hload hno
    have hbalance := (hb f).balance n (by rw [← hn, ← due_of_hubEnd hq]; rfl)
    have hinc := hst.flying_eq ht.wired hq .INC f
    have hdec := hst.flying_eq ht.wired hq .DEC f
    show (d.numConnections.toNat : Int) ≡ live s (s.view.serverID j) f -
      flying takesUpdates s .INC (s.view.serverID j) f +
      flying takesUpdates s .DEC (s.view.serverID j) f [ZMOD 2 ^ 16]
    rw [hinc, hdec]
    dsimp only [account] at hbalance
    unfold Int.ModEq at hcount hbalance ⊢
    push_cast
    omega

end

/-- Two forward servers get their ids and have three clients, one of which has left; of their
    reports one has reached the hub, one is on its way to it and two are on their way to the
    keeper. -/
theorem load_conserved_lua :
    ∃ s : System 1 2, Reaches System.step (fun s a => linksStayUp s a = true) (luaInit 2) s ∧
      (∃ d, (s.hub.forwards (s.keepers 0).serverID_).filter (fun d => d.id = 10031) = [d] ∧
        d.numConnections = 1 ∧ (d.numConnections.toNat : Int) ≡
          live s (s.keepers 0).serverID_ 10031 -
            flying takesUpdates s .INC (s.keepers 0).serverID_ 10031 +
            flying takesUpdates s .DEC (s.keepers 0).serverID_ 10031 [ZMOD 2 ^ 16]) ∧
      live s (s.keepers 0).serverID_ 10031 = 1 ∧
      flying takesUpdates s .INC (s.keepers 0).serverID_ 10031 = 1 ∧
      flying takesUpdates s .DEC (s.keepers 0).serverID_ 10031 = 1 := by
  obtain ⟨s, hs, hd, hlive, hinc, hdec⟩ : ∃ s : System 1 2,
      Reaches System.step (fun s a => linksStayUp s a = true) (luaInit 2) s ∧
        (s.hub.forwards (s.keepers 0).serverID_).filter (fun d => d.id = 10031) =
          [⟨10031, "127.0.0.1", 10031, 1⟩] ∧
        live s (s.keepers 0).serverID_ 10031 = 1 ∧
        flying takesUpdates s .INC (s.keepers 0).serverID_ 10031 = 1 ∧
        flying takesUpdates s .DEC (s.keepers 0).serverID_ 10031 = 1 :=
    exists_reaches [.keeperConnectHub 0, .forwardConnectKeeper 0 0 "127.0.0.1",
      .forwardConnectKeeper 1 0 "127.0.0.1", .deliver 3 0, .deliver 5 0, .deliver 2 0,
      .deliver 4 0, .deliver 1 0, .deliver 1 0, .deliver 1 0, .forwardUp 0, .forwardUp 1,
      .forwardUp 0, .deliver 3 0, .deliver 3 0, .deliver 1 0, .forwardDown 0]
      (by decide +kernel)
  exact ⟨s, hs, ⟨_, hd, rfl, load_conserved fresh_lua (by decide) hs hd⟩, hlive, hinc, hdec⟩

end Mmvx.Cluster
