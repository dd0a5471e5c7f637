/-
  Whether a forward server that the hub knows can be reached through its keeper.

  `onQuery` tells the hub of a forward server before it puts the connection into `conns_`. When the
  hub's answer to a logon is looked up in between it is dropped (`advertised_dropped`). It is also
  dropped when two connections were answered the same id and the one in `conns_` goes down. In runs
  in which neither happens (`orderly`) every lookup for a forward server that was advertised finds a
  connection that is up (`advertised_routable`).
-/
import Mmvx.Cluster.KeeperThreads
import Mmvx.Cluster.Wiring

namespace Mmvx.Cluster

open Mmvx.Lib Mmvx.Server

variable {nk nf : Nat}

/-- The end `p` has not gone down. -/
def alive (s : System nk nf) (p : Nat) : Bool :=
  match s.links[p]? with
  | some e => e.state ≠ .kDisconnected
  | none => false

/-- An `onQuery` at `p` has still to do `conns_[f] = conn`. -/
def inserting (t : Threads nk nf) (f : UInt16) (p : Nat) : Bool :=
  (t.todo p).any fun op => op.val = .insertConn f p

def isAddOp : Op → Bool
  | .sendToHub (.hubKeeperUpdateForwardConns u) => u.oper = .ADD
  | .effect (.send _ (.hubKeeperUpdateForwardConns u)) => u.oper = .ADD
  | _ => false

/-- The `onQuery` at `p` is past its `ADD`. -/
def addSent (t : Threads nk nf) (f : UInt16) (p : Nat) : Bool :=
  !inserting t f p || (t.todo p).all fun op => !isAddOp op.val

/-- `onQuery` sent an `ADD` for `f` and the connection `p`, the hub lists `f` for the keeper, and
    `p` has not gone down. -/
structure Advertised (t : Threads nk nf) (j : Fin nk) (f : UInt16) (p : Nat) : Prop where
  answered : (j, f, p) ∈ t.answered
  sent : addSent t f p = true
  listed : f ∈ (t.sys.hub.forwards (t.sys.keepers j).serverID_).map ForwardServerData.id
  alive : alive t.sys p = true

/-- The next operation at `q` looks up `conns_[f]` of the keeper `j`. -/
def looksUp (t : Threads nk nf) (q : Nat) (j : Fin nk) (f : UInt16) : Bool :=
  match t.todo q, t.sys.links[q]? with
  | ⟨_, .sendToForward f' _⟩ :: _, some e => f' = f && keeperOf e.info = some j
  | _, _ => false

/-- No connection goes down while `conns_[f]` is the only way to another one that is up, and nothing
    is looked up between the `ADD` for it and its insertion. -/
def orderly (t : Threads nk nf) : ThreadAction nk nf → Bool
  | .act (.down p) => t.answered.all fun (j, f, r) =>
    decide (r ≠ p → (t.sys.keepers j).conns_.find f = some p → alive t.sys r = true →
      inserting t f r = true)
  | .exec q => t.answered.all fun (j, f, p) =>
    decide (looksUp t q j f = true → inserting t f p = true → addSent t f p = false)
  | _ => true

theorem orderly_down {t : Threads nk nf} {p : Nat} (h : orderly t (.act (.down p)) = true)
    {j : Fin nk} {f : UInt16} {r : Nat} (hr : (j, f, r) ∈ t.answered) (hne : r ≠ p)
    (hfind : (t.sys.keepers j).conns_.find f = some p) (halive : alive t.sys r = true) :
    inserting t f r = true :=
  of_decide_eq_true (List.all_eq_true.mp h (j, f, r) hr) hne hfind halive

theorem orderly_exec {t : Threads nk nf} {q : Nat} (h : orderly t (.exec q) = true) {j : Fin nk}
    {f : UInt16} {p : Nat} (hp : (j, f, p) ∈ t.answered) (hq : looksUp t q j f = true)
    (hins : inserting t f p = true) : addSent t f p = false :=
  of_decide_eq_true (List.all_eq_true.mp h (j, f, p) hp) hq hins

/-! ## What the other processes leave alone -/

/-- Neither `conns_` nor what the ends of the keepers are has changed. -/
structure Frame (s s' : System nk nf) : Prop where
  conns : ∀ j, (s'.keepers j).conns_ = (s.keepers j).conns_
  label : ∀ p x, s.links.label p = some x → s'.links.label p = some x
  alive : ∀ p i q, s.links.label p = some (i, q) → keeperOf i ≠ none →
    Cluster.alive s' p = Cluster.alive s p

section

variable {s s' : System nk nf}

theorem Frame.refl (s : System nk nf) : Frame s s :=
  ⟨fun _ => rfl, fun _ _ h => h, fun _ _ _ _ _ => rfl⟩

theorem Frame.trans {s'' : System nk nf} (h : Frame s s') (h' : Frame s' s'') : Frame s s'' := by
  refine ⟨fun j => (h'.conns j).trans (h.conns j), fun p x hp => h'.label p x (h.label p x hp), ?_⟩
  intro p i q hp hi
  rw [h'.alive p i q (h.label p _ hp) hi, h.alive p i q hp hi]

/-- Only tables change. -/
theorem frame_tables (hconns : ∀ j, (s'.keepers j).conns_ = (s.keepers j).conns_)
    (hlinks : s'.links = s.links) : Frame s s' := by
  refine ⟨hconns, ?_, ?_⟩
  · rw [hlinks]
    exact fun _ _ h => h
  · intro p _ _ _ _
    rw [alive, alive, hlinks]

/-- Only the links change. -/
theorem frame_links {l : Links (Info nk nf) (Tagged Message)}
    (hlabel : ∀ p x, s.links.label p = some x → l.label p = some x)
    (hstate : ∀ (p : Nat) (e e' : Endpoint (Info nk nf) (Tagged Message)), s.links[p]? = some e →
      l[p]? = some e' → keeperOf e.info ≠ none →
      (e'.state = .kDisconnected ↔ e.state = .kDisconnected)) :
    Frame s { s with links := l } := by
  refine ⟨fun _ => rfl, hlabel, ?_⟩
  intro p i q hp hi
  obtain ⟨e, he, rfl, rfl⟩ := Links.getElem?_of_label hp
  obtain ⟨e', he', -⟩ := Links.getElem?_of_label (hlabel p _ hp)
  simp only [alive, he, he', ne_eq, hstate p e e' he he' hi]

theorem frame_send (p : Nat) (m : Tagged Message) :
    Frame s { s with links := s.links.send p m } := by
  refine frame_links (fun r x hr => by rwa [Links.label_send]) ?_
  intro r e e' he he' _
  obtain ⟨e₀, he₀, hcases⟩ := Links.getElem?_send he'
  obtain rfl : e₀ = e := Option.some.inj (he₀.symm.trans he)
  rcases hcases with rfl | ⟨-, rfl⟩ <;> exact Iff.rfl

theorem frame_shutdown (p : Nat) : Frame s { s with links := s.links.shutdown p } := by
  refine frame_links (fun r x hr => by rwa [Links.label_shutdown]) ?_
  intro r e e' he he' _
  obtain ⟨e₀, he₀, hcases⟩ := Links.getElem?_shutdown he'
  obtain rfl : e₀ = e := Option.some.inj (he₀.symm.trans he)
  rcases hcases with rfl | ⟨-, hstate, rfl⟩
  · exact Iff.rfl
  · rw [hstate]
    exact ⟨nofun, nofun⟩

theorem frame_apply (cause : Option Request) (e : Effect) : Frame s (System.apply cause s e) := by
  cases e with
  | send p m => exact (frame_send p ⟨cause, m⟩).trans (frame_tables (fun _ => rfl) rfl)
  | shutdown p => exact (frame_shutdown p).trans (frame_tables (fun _ => rfl) rfl)
  | put t => exact frame_tables (fun _ => rfl) rfl
  | call c => exact frame_tables (fun _ => rfl) rfl

theorem frame_applyAll (cause : Option Request) (es : List Effect) :
    Frame s (s.applyAll cause es) := by
  apply System.applyAll_induction cause s es (P := fun s' => Frame s s')
  · exact .refl s
  · exact fun s' e _ h => h.trans (frame_apply cause e)

theorem frame_receive {p : Nat} {e : Endpoint (Info nk nf) (Tagged Message)} {m : Tagged Message}
    {l : Links (Info nk nf) (Tagged Message)} (hr : s.links.receive p = some (e, m, l)) :
    Frame s { s with links := l } := by
  refine frame_links (fun r x hx => by rwa [Links.label_receive hr]) ?_
  intro r f f' hf hf' _
  obtain ⟨f₀, hf₀, hcases⟩ := Links.getElem?_receive hr hf'
  obtain rfl : f₀ = f := Option.some.inj (hf₀.symm.trans hf)
  rcases hcases with ⟨-, rfl⟩ | ⟨-, rfl, -, heq⟩
  · exact Iff.rfl
  · rw [heq]

theorem frame_lose {p : Nat} {e : Endpoint (Info nk nf) (Tagged Message)} {m : Tagged Message}
    {l : Links (Info nk nf) (Tagged Message)} (hl : s.links.lose p = some (e, m, l)) :
    Frame s { s with links := l } := by
  refine frame_links (fun r x hx => by rwa [Links.label_lose hl]) ?_
  intro r f f' hf hf' _
  obtain ⟨f₀, hf₀, hcases⟩ := Links.getElem?_lose hl hf'
  obtain rfl : f₀ = f := Option.some.inj (hf₀.symm.trans hf)
  rcases hcases with ⟨-, rfl⟩ | ⟨-, rfl, -, heq⟩
  · exact Iff.rfl
  · rw [heq]

theorem frame_connect (a b : Info nk nf) : Frame s (s.connect a b) := by
  refine frame_links (fun _ _ h => Links.label_connect h) ?_
  intro r e e' he he' _
  have hlt : r < s.links.length := (List.getElem?_eq_some_iff.mp he).1
  obtain he'' | ⟨rfl, -⟩ | ⟨rfl, -⟩ := Links.getElem?_connect he'
  · obtain rfl : e' = e := Option.some.inj (he''.symm.trans he)
    exact Iff.rfl
  · exact absurd hlt (by omega)
  · exact absurd hlt (by omega)

theorem frame_closeAll {P : Info nk nf → Bool} (hP : ∀ i, keeperOf i ≠ none → P i = false) :
    Frame s { s with links := s.links.closeAll P } := by
  refine frame_links (fun r x hx => by rwa [Links.label_closeAll]) ?_
  intro r e e' he he' hkeeper
  rw [Links.getElem?_closeAll_of_not he (hP _ hkeeper)] at he'
  rw [Option.some.inj he']

/-- An end that is not a keeper's goes down. -/
theorem frame_close {p : Nat} {e : Endpoint (Info nk nf) (Tagged Message)}
    (he : s.links[p]? = some e) (hp : keeperOf e.info = none) :
    Frame s { s with links := s.links.close p } := by
  refine frame_links (fun r x hx => by rwa [Links.label_close]) ?_
  intro r f f' hf hf' hkeeper
  have hne : r ≠ p := by
    rintro rfl
    rw [hf] at he
    cases he
    exact hkeeper hp
  rw [Links.getElem?_close_of_ne hne, hf] at hf'
  rw [Option.some.inj hf']

theorem frame_withForward (i : Fin nf) (cause : Option Request) (r : KeeperClient × List Effect) :
    Frame s (s.withForward i cause r) :=
  have h : Frame s { s with forwards := Function.update s.forwards i r.1 } :=
    frame_tables (fun _ => rfl) rfl
  h.trans (frame_applyAll cause r.2)

theorem frame_withLogon (cause : Option Request) (r : LogonServer × List Effect) :
    Frame s (s.withLogon cause r) :=
  have h : Frame s { s with logon := r.1 } := frame_tables (fun _ => rfl) rfl
  h.trans (frame_applyAll cause r.2)

theorem frame_withHub (cause : Option Request) (r : HubServer × List Effect) :
    Frame s (s.withHub cause r) :=
  have h : Frame s { s with hub := r.1 } := frame_tables (fun _ => rfl) rfl
  h.trans (frame_applyAll cause r.2)

theorem frame_onMessage {i : Info nk nf} (hi : keeperOf i = none) (p : Nat) (rand : Int32)
    (m : Tagged Message) : Frame s (s.onMessage p i rand m) := by
  unfold System.onMessage
  split
  · exact .refl s
  · exact frame_withLogon _ _
  · exact frame_withLogon _ _
  · exact frame_withHub _ _
  · rename_i j hrole
    simp [keeperOf, hrole] at hi
  · rename_i j hrole
    simp [keeperOf, hrole] at hi
  · exact frame_withForward _ _ _

theorem frame_onDown {i : Info nk nf} (hi : keeperOf i = none) (p : Nat) :
    Frame s (s.onDown p i) := by
  unfold System.onDown
  split
  · exact .refl s
  · exact frame_withLogon _ _
  · exact frame_withLogon _ _
  · exact frame_withHub _ _
  · rename_i j hrole
    simp [keeperOf, hrole] at hi
  · rename_i j hrole
    simp [keeperOf, hrole] at hi
  · exact frame_withForward _ _ _

theorem keeperOf_ne_none {i : Info nk nf} (h : keeperOf i ≠ none) :
    ∃ j, i.role = .keeperHub j ∨ i.role = .keeperServer j := by
  unfold keeperOf at h
  split at h
  · rename_i j hj
    exact ⟨j, Or.inl hj⟩
  · rename_i j hj
    exact ⟨j, Or.inr hj⟩
  · exact absurd rfl h

/-- Every step that takes one step here as in `System`. -/
theorem frame_step {a : Action nk nf} (ha : Threads.isSplit a = false) (hs : s.step a = some s') :
    Frame s s' := by
  match a, ha with
  | .clientConnect, _ =>
    obtain rfl := Option.some.inj hs
    exact (frame_connect _ _).trans (frame_withLogon _ _)
  | .clientSend p m, _ =>
    replace hs : s.clientSend p m = some s' := hs
    unfold System.clientSend at hs
    split at hs
    · split at hs
      · obtain rfl := Option.some.inj hs
        exact (frame_send p _).trans (frame_tables (fun _ => rfl) rfl)
      · cases hs
    · cases hs
  | .lose p, _ =>
    obtain ⟨e, m, l, hl, rfl⟩ := System.lose_eq_some hs
    exact frame_lose hl
  | .runTask n result, _ =>
    replace hs : s.runTask n result = some s' := hs
    unfold System.runTask at hs
    split at hs
    · obtain rfl := Option.some.inj hs
      have h : Frame s { s with tasks := s.tasks.eraseIdx n } := frame_tables (fun _ => rfl) rfl
      exact h.trans (frame_applyAll _ _)
    · cases hs
  | .logonConnectHub, _ =>
    replace hs : s.logonConnectHub = some s' := hs
    unfold System.logonConnectHub at hs
    split at hs
    · obtain rfl := Option.some.inj hs
      exact (frame_connect _ _).trans (frame_withLogon _ _)
    · cases hs
  | .forwardConnectKeeper i j ip, _ =>
    replace hs : s.forwardConnectKeeper i j ip = some s' := hs
    unfold System.forwardConnectKeeper at hs
    split at hs
    · obtain rfl := Option.some.inj hs
      refine (frame_connect (Info.unnamed (.forwardKeeper i))
        ⟨.keeperServer j, (s.keepers j).server_.newConnection.1, ip⟩).trans
        (Frame.trans ?_ (frame_withForward i none _))
      refine frame_tables (fun j' => ?_) rfl
      by_cases hj : j' = j
      · subst hj
        simp [System.connect]
      · simp [System.connect, Function.update_of_ne hj]
    · cases hs
  | .forwardUp i, _ =>
    obtain ⟨r, hr, rfl⟩ := Option.map_eq_some_iff.mp hs
    exact frame_withForward i none r
  | .forwardDown i, _ =>
    obtain ⟨r, hr, rfl⟩ := Option.map_eq_some_iff.mp hs
    exact frame_withForward i none r
  | .forwardLogon i uid session, _ =>
    obtain ⟨k, hk, rfl⟩ := Option.map_eq_some_iff.mp hs
    exact frame_withForward i none _
  | .restartLogon, _ =>
    obtain rfl := Option.some.inj hs
    have h : Frame s { s with links := s.links.closeAll System.isLogon } := by
      refine frame_closeAll fun i hi => ?_
      obtain ⟨j, hj | hj⟩ := keeperOf_ne_none hi <;> simp [System.isLogon, hj]
    exact h.trans (frame_tables (fun _ => rfl) rfl)
  | .restartHub, _ =>
    obtain rfl := Option.some.inj hs
    have h : Frame s { s with links := s.links.closeAll System.isHub } := by
      refine frame_closeAll fun i hi => ?_
      obtain ⟨j, hj | hj⟩ := keeperOf_ne_none hi <;> simp [System.isHub, hj]
    exact h.trans (frame_tables (fun _ => rfl) rfl)

end

/-! ## The invariant -/

/-- `p` is the keeper `j`'s end of a connection with a forward server. -/
def ServerEnd (s : System nk nf) (j : Fin nk) (p : Nat) : Prop :=
  ∃ i q, s.links.label p = some (i, q) ∧ i.role = .keeperServer j

structure Routes (t : Threads nk nf) : Prop where
  answered : ∀ j f p, (j, f, p) ∈ t.answered → ServerEnd t.sys j p
  conns : ∀ j f p, (t.sys.keepers j).conns_.find f = some p → ServerEnd t.sys j p
  inserts : ∀ p, ∀ op ∈ t.todo p, ∀ f q, op.val = .insertConn f q →
    q = p ∧ alive t.sys p = true ∧ ∃ j, ServerEnd t.sys j p
  erases : ∀ p, ∀ op ∈ t.todo p, ∀ q, op.val = .eraseConn q →
    alive t.sys q = false ∧ ∃ j, ServerEnd t.sys j q
  /-- An id that was answered to a connection that is up leads to one that is up. -/
  routed : ∀ j f p, (j, f, p) ∈ t.answered → alive t.sys p = true →
    inserting t f p = true ∨
      ∃ q, (t.sys.keepers j).conns_.find f = some q ∧ alive t.sys q = true

theorem ServerEnd.mono {s s' : System nk nf} {j : Fin nk} {p : Nat} (h : ServerEnd s j p)
    (hlabel : ∀ p x, s.links.label p = some x → s'.links.label p = some x) : ServerEnd s' j p := by
  obtain ⟨i, q, hl, hi⟩ := h
  exact ⟨i, q, hlabel p _ hl, hi⟩

theorem ServerEnd.alive_eq {s s' : System nk nf} {j : Fin nk} {p : Nat} (h : ServerEnd s j p)
    (hf : Frame s s') : alive s' p = alive s p := by
  obtain ⟨i, q, hl, hi⟩ := h
  exact hf.alive p i q hl (by simp [keeperOf, hi])

theorem inserting_congr {t t' : Threads nk nf} {f : UInt16} {p : Nat} (h : t'.todo p = t.todo p) :
    inserting t' f p = inserting t f p := by
  rw [inserting, inserting, h]

theorem inserting_of_mem {t : Threads nk nf} {f : UInt16} {p : Nat} {op : Tagged Op}
    (hop : op ∈ t.todo p) (hval : op.val = .insertConn f p) : inserting t f p = true :=
  List.any_eq_true.mpr ⟨op, hop, decide_eq_true hval⟩

theorem mem_of_inserting {t : Threads nk nf} {f : UInt16} {p : Nat} (h : inserting t f p = true) :
    ∃ op ∈ t.todo p, op.val = .insertConn f p := by
  obtain ⟨op, hop, hval⟩ := List.any_eq_true.mp h
  exact ⟨op, hop, of_decide_eq_true hval⟩

namespace Routes

variable {t t' : Threads nk nf}

/-- No callback of a keeper goes on. -/
theorem resys (h : Routes t) (hf : Frame t.sys t'.sys) (htodo : t'.todo = t.todo)
    (hanswered : t'.answered = t.answered) : Routes t' := by
  refine ⟨?_, ?_, ?_, ?_, ?_⟩
  · intro j f p hp
    rw [hanswered] at hp
    exact (h.answered j f p hp).mono hf.label
  · intro j f p hp
    rw [hf.conns] at hp
    exact (h.conns j f p hp).mono hf.label
  · intro p op hop f q hval
    rw [htodo] at hop
    obtain ⟨hq, halive, j, hj⟩ := h.inserts p op hop f q hval
    exact ⟨hq, by rw [hj.alive_eq hf]; exact halive, j, hj.mono hf.label⟩
  · intro p op hop q hval
    rw [htodo] at hop
    obtain ⟨hdown, j, hj⟩ := h.erases p op hop q hval
    exact ⟨by rw [hj.alive_eq hf]; exact hdown, j, hj.mono hf.label⟩
  · intro j f p hp halive
    rw [hanswered] at hp
    rw [(h.answered j f p hp).alive_eq hf] at halive
    rw [inserting_congr (congrFun htodo p), hf.conns]
    refine (h.routed j f p hp halive).imp_right ?_
    rintro ⟨q, hq, hqa⟩
    exact ⟨q, hq, by rw [(h.conns j f q hq).alive_eq hf]; exact hqa⟩

end Routes

/-- A callback with the operations `ops` has begun at `p`, and the ids `new` are answered. -/
structure Begun (t t' : Threads nk nf) (p : Nat) (ops : List Op)
    (new : List (Fin nk × UInt16 × Nat)) : Prop where
  idle : t.todo p = []
  here : ∀ op, op ∈ t'.todo p → op.val ∈ ops
  all : ∀ o ∈ ops, ∃ op ∈ t'.todo p, op.val = o
  elsewhere : ∀ r, r ≠ p → t'.todo r = t.todo r
  answered : t'.answered = new ++ t.answered

theorem begun_of_begin {t t' : Threads nk nf} {p : Nat} {s : System nk nf}
    {cause : Option Request} {ops : List Op} {new : List (Fin nk × UInt16 × Nat)}
    (hs : { t with answered := new ++ t.answered }.begin p s cause ops = some t') :
    Begun t t' p ops new ∧ t'.sys = s := by
  unfold Threads.begin at hs
  split at hs
  · rename_i hidle
    obtain rfl := Option.some.inj hs
    refine ⟨⟨hidle, ?_, ?_, fun r hr => Function.update_of_ne hr _ _, rfl⟩, rfl⟩
    · intro op hop
      simp only [Function.update_self] at hop
      obtain ⟨o, ho, rfl⟩ := List.mem_map.mp hop
      exact ho
    · intro o ho
      refine ⟨⟨cause, o⟩, ?_, rfl⟩
      simp only [Function.update_self]
      exact List.mem_map.mpr ⟨o, ho, rfl⟩
  · cases hs

/-- As `Frame`, but the end `p` may go down. -/
structure FrameBut (p : Nat) (s s' : System nk nf) : Prop where
  conns : ∀ j, (s'.keepers j).conns_ = (s.keepers j).conns_
  label : ∀ r x, s.links.label r = some x → s'.links.label r = some x
  alive : ∀ j r, ServerEnd s j r → r ≠ p → Cluster.alive s' r = Cluster.alive s r
  down : ∀ j, ServerEnd s j p → Cluster.alive s p = false → Cluster.alive s' p = false

theorem Frame.but {s s' : System nk nf} (h : Frame s s') (p : Nat) : FrameBut p s s' where
  conns := h.conns
  label := h.label
  alive j r hr _ := hr.alive_eq h
  down j hp hdown := by rw [hp.alive_eq h]; exact hdown

theorem alive_close (s : System nk nf) (p : Nat) :
    alive { s with links := s.links.close p } p = false := by
  rw [alive]
  dsimp only
  split
  · rename_i e' he'
    obtain ⟨e, -, ⟨hne, -⟩ | ⟨-, rfl⟩⟩ := Links.getElem?_close he'
    · exact absurd rfl hne
    · rfl
  · rfl

theorem frameBut_close (s : System nk nf) (p : Nat) :
    FrameBut p s { s with links := s.links.close p } where
  conns _ := rfl
  label r x hx := by rwa [Links.label_close]
  alive j r _ hr := by simp only [Cluster.alive, Links.getElem?_close_of_ne hr]
  down _ _ _ := alive_close s p

namespace Routes

variable {t t' : Threads nk nf} {p : Nat} {ops : List Op} {new : List (Fin nk × UInt16 × Nat)}

theorem routed_begin (h : Routes t) (hb : Begun t t' p ops new) (hf : FrameBut p t.sys t'.sys)
    (hnew : ∀ j f r, (j, f, r) ∈ new → r = p ∧ .insertConn f p ∈ ops)
    (hlost : ∀ j f r, (j, f, r) ∈ t.answered → r ≠ p →
      (t.sys.keepers j).conns_.find f = some p → alive t.sys r = true →
      inserting t f r = true ∨ alive t'.sys p = true)
    {j : Fin nk} {f : UInt16} {r : Nat} (hr : (j, f, r) ∈ t'.answered)
    (hra : alive t'.sys r = true) : inserting t' f r = true ∨
      ∃ q, (t'.sys.keepers j).conns_.find f = some q ∧ alive t'.sys q = true := by
  rw [hf.conns]
  rw [hb.answered] at hr
  rcases List.mem_append.mp hr with hr | hr
  · obtain ⟨rfl, hins⟩ := hnew j f r hr
    obtain ⟨op, hop, hval⟩ := hb.all _ hins
    exact Or.inl (inserting_of_mem hop hval)
  · have hj := h.answered j f r hr
    by_cases hrp : r = p
    · subst hrp
      -- nothing was left to do at this end
      have halive : alive t.sys r = true := by
        by_contra hdown
        rw [hf.down j hj (by simpa using hdown)] at hra
        cases hra
      rcases h.routed j f r hr halive with hins | ⟨q, hq, hqa⟩
      · obtain ⟨op, hop, -⟩ := mem_of_inserting hins
        rw [hb.idle] at hop
        cases hop
      · refine Or.inr ⟨q, hq, ?_⟩
        by_cases hqr : q = r
        · rw [hqr]
          exact hra
        · rw [hf.alive j q (h.conns j f q hq) hqr]
          exact hqa
    · rw [inserting_congr (hb.elsewhere r hrp)]
      rw [hf.alive j r hj hrp] at hra
      rcases h.routed j f r hr hra with hins | ⟨q, hq, hqa⟩
      · exact Or.inl hins
      · by_cases hqp : q = p
        · subst hqp
          exact (hlost j f r hr hrp hq hra).imp_right fun ha => ⟨q, hq, ha⟩
        · exact Or.inr ⟨q, hq, by rw [hf.alive j q (h.conns j f q hq) hqp]; exact hqa⟩

theorem begin (h : Routes t) (hb : Begun t t' p ops new) (hf : FrameBut p t.sys t'.sys)
    (hnew : ∀ j f r, (j, f, r) ∈ new →
      r = p ∧ .insertConn f p ∈ ops ∧ ServerEnd t'.sys j p)
    (hins : ∀ f q, .insertConn f q ∈ ops →
      q = p ∧ alive t'.sys p = true ∧ ∃ j, ServerEnd t'.sys j p)
    (heras : ∀ q, .eraseConn q ∈ ops → alive t'.sys q = false ∧ ∃ j, ServerEnd t'.sys j q)
    (hlost : ∀ j f r, (j, f, r) ∈ t.answered → r ≠ p →
      (t.sys.keepers j).conns_.find f = some p → alive t.sys r = true →
      inserting t f r = true ∨ alive t'.sys p = true) : Routes t' := by
  refine ⟨?_, ?_, ?_, ?_, ?_⟩
  · intro j f r hr
    rw [hb.answered] at hr
    rcases List.mem_append.mp hr with hr | hr
    · obtain ⟨rfl, -, hj⟩ := hnew j f r hr
      exact hj
    · exact (h.answered j f r hr).mono hf.label
  · intro j f r hr
    rw [hf.conns] at hr
    exact (h.conns j f r hr).mono hf.label
  · intro r op hop f q hval
    by_cases hrp : r = p
    · subst hrp
      exact hins f q (hval ▸ hb.here op hop)
    · rw [hb.elsewhere r hrp] at hop
      obtain ⟨hq, hra, j, hj⟩ := h.inserts r op hop f q hval
      exact ⟨hq, by rw [hf.alive j r hj hrp]; exact hra, j, hj.mono hf.label⟩
  · intro r op hop q hval
    by_cases hrp : r = p
    · subst hrp
      exact heras q (hval ▸ hb.here op hop)
    · rw [hb.elsewhere r hrp] at hop
      obtain ⟨hdown, j, hj⟩ := h.erases r op hop q hval
      refine ⟨?_, j, hj.mono hf.label⟩
      by_cases hqp : q = p
      · subst hqp
        exact hf.down j hj hdown
      · rw [hf.alive j q hj hqp]
        exact hdown
  · intro j f r hr hra
    exact h.routed_begin hb hf (fun j f r hr => ⟨(hnew j f r hr).1, (hnew j f r hr).2.1⟩) hlost hr
      hra

end Routes

/-! ## The callbacks of the keepers -/

section

variable {k : KeeperServer} {conn : TcpConnection} {m : Message}

/-- What the operations of a message do to `conns_`. -/
theorem messageOps_conns : (∀ f q, .insertConn f q ∈ k.messageOps conn m → q = conn.ptr) ∧
    ∀ q, .eraseConn q ∉ k.messageOps conn m := by
  unfold KeeperServer.messageOps
  split
  · unfold KeeperServer.queryOps
    split
    · simp
    · simp
  · simp
  · simp
  · simp

theorem insertConn_of_answeredId {f : UInt16} (h : answeredId k conn m = some f) :
    .insertConn f conn.ptr ∈ k.messageOps conn m := by
  unfold answeredId at h
  split at h
  · obtain ⟨c, hc, rfl⟩ := Option.map_eq_some_iff.mp h
    rw [KeeperServer.messageOps, KeeperServer.queryOps_some hc]
    simp
  · cases h

theorem hubMessageOps_conns : (∀ f q, .insertConn f q ∉ KeeperServer.hubMessageOps m) ∧
    ∀ q, .eraseConn q ∉ KeeperServer.hubMessageOps m := by
  unfold KeeperServer.hubMessageOps
  split <;> simp

theorem downOps_conns : (∀ f q, .insertConn f q ∉ k.downOps conn) ∧
    ∀ q, .eraseConn q ∈ k.downOps conn → q = conn.ptr := by
  obtain ⟨d, id, hops⟩ | hops := k.downOps_cases conn <;> simp [hops]

end

theorem alive_of_receive {s : System nk nf} {p : Nat}
    {e : Endpoint (Info nk nf) (Tagged Message)} {m : Tagged Message}
    {l : Links (Info nk nf) (Tagged Message)} (hr : s.links.receive p = some (e, m, l))
    (hkeeper : keeperOf e.info ≠ none) : alive { s with links := l } p = true := by
  obtain ⟨he, hstate, -⟩ := Links.receive_eq_some hr
  rw [(frame_receive hr).alive p _ _ (Links.label_of_getElem? he) hkeeper]
  simp only [alive, he]
  exact decide_eq_true hstate

namespace Routes

variable {t t' : Threads nk nf}

theorem deliver (h : Routes t) {p : Nat} {rand : Int32} (hs : t.deliver p rand = some t') :
    Routes t' := by
  obtain ⟨e, m, l, hr, hcases⟩ := Threads.deliver_cases hs
  obtain ⟨j, hrole, hb⟩ | ⟨j, new, hrole, hnew, hb⟩ | ⟨i, a, -, -, rfl⟩ | ⟨i, -, -, rfl⟩ |
    ⟨hkeeper, -, rfl⟩ := hcases
  · obtain ⟨hb, hsys⟩ : Begun t t' p (KeeperServer.hubMessageOps m.val) [] ∧
      t'.sys = { t.sys with links := l } := begun_of_begin hb
    have hf : Frame t.sys t'.sys := by rw [hsys]; exact frame_receive hr
    have halive : alive t'.sys p = true := by
      rw [hsys]
      exact alive_of_receive hr (by simp [keeperOf, hrole])
    exact h.begin hb (hf.but p) (fun _ _ _ hr => absurd hr List.not_mem_nil)
      (fun f q hop => absurd hop (hubMessageOps_conns.1 f q))
      (fun q hop => absurd hop (hubMessageOps_conns.2 q)) fun _ _ _ _ _ _ _ => Or.inr halive
  · obtain ⟨hb, hsys⟩ := begun_of_begin hb
    have hf : Frame t.sys t'.sys := by rw [hsys]; exact frame_receive hr
    have halive : alive t'.sys p = true := by
      rw [hsys]
      exact alive_of_receive hr (by simp [keeperOf, hrole])
    have hend : ServerEnd t'.sys j p :=
      ⟨e.info, e.peer, hf.label p _ (Links.label_of_getElem? (Links.receive_eq_some hr).1), hrole⟩
    refine h.begin hb (hf.but p) ?_ ?_ ?_ fun _ _ _ _ _ _ _ => Or.inr halive
    · intro j' f r hmem
      rw [hnew] at hmem
      obtain ⟨f', hf', heq⟩ := List.mem_map.mp hmem
      cases heq
      exact ⟨rfl, insertConn_of_answeredId (Option.mem_toList.mp hf'), hend⟩
    · exact fun f q hop => ⟨messageOps_conns.1 f q hop, halive, j, hend⟩
    · exact fun q hop => absurd hop (messageOps_conns.2 q)
  · exact h.resys ((frame_receive hr).trans (frame_withForward _ _ _)) rfl rfl
  · exact h.resys ((frame_receive hr).trans (frame_withForward _ _ _)) rfl rfl
  · exact h.resys ((frame_receive hr).trans (frame_onMessage hkeeper p rand m)) rfl rfl

theorem down (h : Routes t) {p : Nat} (ho : orderly t (.act (.down p)) = true)
    (hs : t.down p = some t') : Routes t' := by
  obtain ⟨e, he, -, hcases⟩ := Threads.down_cases hs
  obtain ⟨j, -, hb⟩ | ⟨j, hrole, hb⟩ | ⟨hkeeper, rfl⟩ := hcases
  · obtain ⟨hb, hsys⟩ : Begun t t' p KeeperServer.hubDownOps [] ∧
      t'.sys = { t.sys with links := t.sys.links.close p } := begun_of_begin hb
    have hf : FrameBut p t.sys t'.sys := by rw [hsys]; exact frameBut_close t.sys p
    exact h.begin hb hf (fun _ _ _ hr => absurd hr List.not_mem_nil)
      (by simp [KeeperServer.hubDownOps]) (by simp [KeeperServer.hubDownOps])
      fun _ _ _ hr hne hfind ha => Or.inl (orderly_down ho hr hne hfind ha)
  · obtain ⟨hb, hsys⟩ : Begun t t' p ((t.sys.keepers j).downOps (e.info.conn p)) [] ∧
      t'.sys = { t.sys with links := t.sys.links.close p } := begun_of_begin hb
    have hf : FrameBut p t.sys t'.sys := by rw [hsys]; exact frameBut_close t.sys p
    refine h.begin hb hf (fun _ _ _ hr => absurd hr List.not_mem_nil)
      (fun f q hop => absurd hop (downOps_conns.1 f q)) ?_
      fun _ _ _ hr hne hfind ha => Or.inl (orderly_down ho hr hne hfind ha)
    intro q hop
    obtain rfl : q = p := downOps_conns.2 q hop
    refine ⟨by rw [hsys]; exact alive_close t.sys q, j, e.info, e.peer, ?_, hrole⟩
    exact hf.label q _ (Links.label_of_getElem? he)
  · exact h.resys ((frame_close he hkeeper).trans (frame_onDown hkeeper p)) rfl rfl

theorem keeperConnectHub (h : Routes t) {j : Fin nk} (hs : t.keeperConnectHub j = some t') :
    Routes t' := by
  unfold Threads.keeperConnectHub at hs
  split at hs
  · let i : Info nk nf := Info.unnamed (.keeperHub j)
    obtain ⟨hb, hsys⟩ : Begun t t' t.sys.links.length
      ((t.sys.keepers j).hubUpOps (i.conn t.sys.links.length)) [] ∧
      t'.sys = t.sys.connect i (Info.unnamed .hubServer) := begun_of_begin hs
    have hf : Frame t.sys t'.sys := by rw [hsys]; exact frame_connect _ _
    refine h.begin hb (hf.but _) (fun _ _ _ hr => absurd hr List.not_mem_nil)
      (by simp [KeeperServer.hubUpOps])
      (by simp [KeeperServer.hubUpOps]) fun _ _ _ _ _ _ _ => Or.inr ?_
    rw [hsys]
    simp [alive, System.connect, Links.connect]
  · cases hs

/-- `conns_` after an operation at `p`: what led to a connection that is up still does. -/
theorem exec_find (h : Routes t) {p : Nat} {op : Tagged Op} (hop : op ∈ t.todo p) {j : Fin nk}
    {f : UInt16} {q : Nat} (hq : (t.sys.keepers j).conns_.find f = some q)
    (hqa : alive t.sys q = true) :
    ∃ q', ((t.sys.keepers j).exec op.val).1.conns_.find f = some q' ∧ alive t.sys q' = true := by
  obtain ⟨f', r, hval, hconns⟩ | ⟨r, hval, hconns⟩ | ⟨-, hconns⟩ :=
    (t.sys.keepers j).exec_conns op.val
  · obtain ⟨rfl, hra, -⟩ := h.inserts p op hop f' r hval
    rw [hconns, OrdMap.find_insert]
    split
    · exact ⟨r, rfl, hra⟩
    · exact ⟨q, hq, hqa⟩
  · have hne : q ≠ r := by
      rintro rfl
      rw [(h.erases p op hop q hval).1] at hqa
      cases hqa
    rw [hconns]
    exact ⟨q, OrdMap.find_eraseValue_of_ne hq hne, hqa⟩
  · rw [hconns]
    exact ⟨q, hq, hqa⟩

/-- `conns_` after an operation at `p` has ends of the keeper. -/
theorem exec_serverEnd (h : Routes t) {p : Nat} {op : Tagged Op} (hop : op ∈ t.todo p)
    {j : Fin nk} (hj : ∀ j', ServerEnd t.sys j' p → j' = j) {f : UInt16} {q : Nat}
    (hq : ((t.sys.keepers j).exec op.val).1.conns_.find f = some q) : ServerEnd t.sys j q := by
  obtain ⟨f', r, hval, hconns⟩ | ⟨r, hval, hconns⟩ | ⟨-, hconns⟩ :=
    (t.sys.keepers j).exec_conns op.val
  · obtain ⟨rfl, -, j', hj'⟩ := h.inserts p op hop f' r hval
    rw [hconns, OrdMap.find_insert] at hq
    split at hq
    · cases hq
      rw [← hj j' hj']
      exact hj'
    · exact h.conns j f q hq
  · rw [hconns] at hq
    exact h.conns j f q (OrdMap.find_eraseValue_of_some hq)
  · rw [hconns] at hq
    exact h.conns j f q hq

/-- What is left to do after an operation at `p`, but for the send of a lookup, was to be done
    before. -/
theorem mem_todo_of_exec {p : Nat} {op : Tagged Op} {rest : List (Tagged Op)} {es : List Effect}
    (htodo : t.todo p = op :: rest)
    (htodo' : t'.todo = Function.update t.todo p
      (es.map (fun e => ⟨op.cause, .effect e⟩) ++ rest)) {q : Nat} {o : Tagged Op}
    (ho : o ∈ t'.todo q) (hne : ∀ e, o.val ≠ .effect e) : o ∈ t.todo q := by
  rw [htodo'] at ho
  by_cases hqp : q = p
  · subst hqp
    rw [Function.update_self] at ho
    rcases List.mem_append.mp ho with ho | ho
    · obtain ⟨e, -, rfl⟩ := List.mem_map.mp ho
      exact absurd rfl (hne e)
    · rw [htodo]
      exact List.mem_cons_of_mem _ ho
  · rwa [Function.update_of_ne hqp] at ho

/-- An insertion is still to be done after an operation at `p`, or it was that operation. -/
theorem inserting_exec {p : Nat} {op : Tagged Op} {rest : List (Tagged Op)} {es : List Effect}
    (htodo : t.todo p = op :: rest)
    (htodo' : t'.todo = Function.update t.todo p
      (es.map (fun e => ⟨op.cause, .effect e⟩) ++ rest)) {f : UInt16} {q : Nat}
    (h : inserting t f q = true) :
    inserting t' f q = true ∨ (q = p ∧ op.val = .insertConn f p) := by
  obtain ⟨o, ho, hval⟩ := mem_of_inserting h
  by_cases hqp : q = p
  · subst hqp
    rw [htodo] at ho
    rcases List.mem_cons.mp ho with rfl | ho
    · exact Or.inr ⟨rfl, hval⟩
    · refine Or.inl (inserting_of_mem ?_ hval)
      rw [htodo', Function.update_self]
      exact List.mem_append_right _ ho
  · refine Or.inl (inserting_of_mem ?_ hval)
    rwa [htodo', Function.update_of_ne hqp]

theorem execAt (h : Routes t) {p : Nat} {j : Fin nk} (hj : ∀ j', ServerEnd t.sys j' p → j' = j)
    (hs : t.execAt p j = some t') : Routes t' := by
  obtain ⟨op, rest, htodo, hsys, htodo', hanswered, -⟩ := Threads.execAt_cases hs
  have hmem : op ∈ t.todo p := by rw [htodo]; exact List.mem_cons_self
  let k := ((t.sys.keepers j).exec op.val).1
  -- but for `conns_` of the keeper, the operation is an effect
  have hf : Frame { t.sys with keepers := Function.update t.sys.keepers j k } t'.sys := by
    rw [hsys]
    exact frame_applyAll op.cause _
  have halive : ∀ {j' q}, ServerEnd t.sys j' q → alive t'.sys q = alive t.sys q := by
    rintro j' q ⟨i, q', hl, hi⟩
    exact hf.alive _ i q' hl (by simp [keeperOf, hi])
  have hsame : ∀ {j'}, j' ≠ j → (t'.sys.keepers j').conns_ = (t.sys.keepers j').conns_ := by
    intro j' hjj
    rw [hf.conns]
    simp only [Function.update_of_ne hjj]
  have hkeeper : (t'.sys.keepers j).conns_ = k.conns_ := by
    rw [hf.conns]
    simp only [Function.update_self]
  refine ⟨?_, ?_, ?_, ?_, ?_⟩
  · intro j' f q hq
    rw [hanswered] at hq
    exact (h.answered j' f q hq).mono hf.label
  · intro j' f q hq
    refine ServerEnd.mono (s := t.sys) ?_ hf.label
    by_cases hjj : j' = j
    · subst hjj
      rw [hkeeper] at hq
      exact h.exec_serverEnd hmem hj hq
    · rw [hsame hjj] at hq
      exact h.conns j' f q hq
  · intro q o ho f q' hval
    have ho' := mem_todo_of_exec htodo htodo' ho (by simp [hval])
    obtain ⟨hq', hqa, j', hj'⟩ := h.inserts q o ho' f q' hval
    exact ⟨hq', by rw [halive hj']; exact hqa, j', hj'.mono hf.label⟩
  · intro q o ho q' hval
    have ho' := mem_todo_of_exec htodo htodo' ho (by simp [hval])
    obtain ⟨hdown, j', hj'⟩ := h.erases q o ho' q' hval
    exact ⟨by rw [halive hj']; exact hdown, j', hj'.mono hf.label⟩
  · intro j' f q hq hqa
    rw [hanswered] at hq
    have hend := h.answered j' f q hq
    rw [halive hend] at hqa
    rcases h.routed j' f q hq hqa with hins | ⟨q', hq', hqa'⟩
    · rcases inserting_exec htodo htodo' hins with hins | ⟨rfl, hval⟩
      · exact Or.inl hins
      · -- the connection has just been inserted
        obtain rfl := hj j' hend
        refine Or.inr ⟨q, ?_, by rw [halive hend]; exact hqa⟩
        rw [hkeeper]
        simp only [k, hval, KeeperServer.exec, OrdMap.find_insert, if_true]
    · refine Or.inr ?_
      by_cases hjj : j' = j
      · subst hjj
        obtain ⟨q'', hq'', hqa''⟩ := h.exec_find hmem hq' hqa'
        have hend' := h.exec_serverEnd hmem hj hq''
        exact ⟨q'', by rw [hkeeper]; exact hq'', by rw [halive hend']; exact hqa''⟩
      · exact ⟨q', by rw [hsame hjj]; exact hq', by rw [halive (h.conns j' f q' hq')]; exact hqa'⟩

theorem exec (h : Routes t) {p : Nat} (hs : t.exec p = some t') : Routes t' := by
  unfold Threads.exec at hs
  split at hs
  · rename_i e he
    obtain ⟨j, hj, hs⟩ := Option.bind_eq_some_iff.mp hs
    refine h.execAt ?_ hs
    rintro j' ⟨i, q, hl, hi⟩
    rw [Links.label_of_getElem? he] at hl
    cases hl
    simpa [keeperOf, hi] using hj
  · cases hs

theorem alive_closeAll {s s' : System nk nf} {P : Info nk nf → Bool}
    (hlinks : s'.links = s.links.closeAll P) {p q : Nat} {i : Info nk nf}
    (hp : s.links.label p = some (i, q)) : alive s' p = (alive s p && !P i) := by
  obtain ⟨e, he, rfl, -⟩ := Links.getElem?_of_label hp
  by_cases hP : P e.info = true
  · have he' : s'.links[p]? = some (Links.closed e) := by
      rw [hlinks, Links.closeAll, List.getElem?_map, he]
      simp [hP]
    simp [alive, he, he', hP, Links.closed]
  · have hP' : P e.info = false := by simpa using hP
    have he' : s'.links[p]? = some e := by
      rw [hlinks]
      exact Links.getElem?_closeAll_of_not he hP'
    simp [alive, he, he', hP']

theorem restartKeeper (h : Routes t) (j : Fin nk) : Routes (t.restartKeeper j) := by
  have hlinks : (t.restartKeeper j).sys.links = t.sys.links.closeAll (isKeeper j) := rfl
  have hlabel : ∀ p x, t.sys.links.label p = some x →
      (t.restartKeeper j).sys.links.label p = some x := by
    intro p x hx
    rwa [hlinks, Links.label_closeAll]
  have halive : ∀ {j' p}, ServerEnd t.sys j' p →
      alive (t.restartKeeper j).sys p = (alive t.sys p && decide (j' ≠ j)) := by
    rintro j' p ⟨i, q, hl, hi⟩
    rw [alive_closeAll hlinks hl]
    simp [isKeeper, keeperOf, hi]
  have hsame : ∀ {j'}, j' ≠ j →
      ((t.restartKeeper j).sys.keepers j').conns_ = (t.sys.keepers j').conns_ := by
    intro j' hjj
    simp only [Threads.restartKeeper, Function.update_of_ne hjj]
  -- the callbacks of the other keepers go on
  have htodo : ∀ {j' p}, ServerEnd t.sys j' p → (t.restartKeeper j).todo p =
      if j' = j then [] else t.todo p := by
    rintro j' p ⟨i, q, hl, hi⟩
    obtain ⟨e, he, rfl, -⟩ := Links.getElem?_of_label hl
    simp only [Threads.restartKeeper, he, isKeeper, keeperOf, hi]
    simp
  have hmem : ∀ {p o}, o ∈ (t.restartKeeper j).todo p → o ∈ t.todo p := by
    intro p o ho
    rcases t.todo_restartKeeper j p with heq | heq
    · rw [heq] at ho
      cases ho
    · rwa [heq] at ho
  refine ⟨?_, ?_, ?_, ?_, ?_⟩
  · exact fun j' f p hp => (h.answered j' f p hp).mono hlabel
  · intro j' f p hp
    by_cases hjj : j' = j
    · subst hjj
      simp only [Threads.restartKeeper, Function.update_self] at hp
      replace hp : (OrdMap.empty : OrdMap UInt16 Nat).find f = some p := hp
      rw [OrdMap.find_empty] at hp
      cases hp
    · rw [hsame hjj] at hp
      exact (h.conns j' f p hp).mono hlabel
  · intro p o ho f q hval
    obtain ⟨hq, hpa, j', hj'⟩ := h.inserts p o (hmem ho) f q hval
    have hjj : j' ≠ j := by
      rintro rfl
      rw [htodo hj', if_pos rfl] at ho
      cases ho
    exact ⟨hq, by rw [halive hj', hpa]; simpa using hjj, j', hj'.mono hlabel⟩
  · intro p o ho q hval
    obtain ⟨hdown, j', hj'⟩ := h.erases p o (hmem ho) q hval
    exact ⟨by rw [halive hj', hdown, Bool.false_and], j', hj'.mono hlabel⟩
  · intro j' f p hp hpa
    have hend := h.answered j' f p hp
    rw [halive hend, Bool.and_eq_true, decide_eq_true_eq] at hpa
    obtain ⟨hpa, hjj⟩ := hpa
    rw [inserting_congr ((htodo hend).trans (if_neg hjj)), hsame hjj]
    refine (h.routed j' f p hp hpa).imp_right ?_
    rintro ⟨q, hq, hqa⟩
    exact ⟨q, hq, by rw [halive (h.conns j' f q hq), hqa]; simpa using hjj⟩

theorem restartForward (h : Routes t) (i : Fin nf) : Routes (t.restartForward i) := by
  refine h.resys ?_ rfl rfl
  have hclose : Frame t.sys { t.sys with links := t.sys.links.closeAll (isForward i) } := by
    refine frame_closeAll fun x hx => ?_
    obtain ⟨j, hj | hj⟩ := keeperOf_ne_none hx <;> simp [isForward, hj]
  exact hclose.trans (frame_tables (fun _ => rfl) rfl)

theorem step (h : Routes t) {a : ThreadAction nk nf} (ho : orderly t a = true)
    (hs : t.step a = some t') : Routes t' := by
  obtain ⟨p, rand, -, hd⟩ | ⟨p, rfl, hd⟩ | ⟨j, -, hc⟩ | ⟨b, s', hb, hs', rfl⟩ | ⟨p, -, he⟩ |
    ⟨j, rfl⟩ | ⟨i, rfl⟩ := Threads.step_cases hs
  · exact h.deliver hd
  · exact h.down ho hd
  · exact h.keeperConnectHub hc
  · exact h.resys (frame_step hb hs') rfl rfl
  · exact h.exec he
  · exact h.restartKeeper j
  · exact h.restartForward i

end Routes

theorem routes_init {logon : LogonServer} {keepers : Fin nk → KeeperServer}
    (h : Fresh logon keepers) :
    Routes (Threads.ofSystem (System.init logon keepers) : Threads nk nf) := by
  refine ⟨?_, ?_, ?_, ?_, ?_⟩
  · intro j f p hp
    cases hp
  · intro j f p hp
    replace hp : (keepers j).conns_.find f = some p := hp
    rw [(h.keepers j).2.1, OrdMap.find_empty] at hp
    cases hp
  · intro p op hop
    cases hop
  · intro p op hop
    cases hop
  · intro j f p hp
    cases hp

/-! ## Lookups -/

theorem looksUp_iff {t : Threads nk nf} {q : Nat} {j : Fin nk} {f : UInt16} :
    looksUp t q j f = true ↔ Threads.EndOf t.sys q j ∧
      ∃ cause m rest, t.todo q = ⟨cause, .sendToForward f m⟩ :: rest := by
  constructor
  · intro h
    unfold looksUp at h
    split at h
    · rename_i cause f' m rest e htodo he
      obtain ⟨hf, hj⟩ := Bool.and_eq_true_iff.mp h
      obtain rfl := of_decide_eq_true hf
      exact ⟨⟨e.info, e.peer, Links.label_of_getElem? he, of_decide_eq_true hj⟩, cause, m, rest,
        htodo⟩
    · cases h
  · rintro ⟨⟨i, q', hl, hj⟩, cause, m, rest, htodo⟩
    obtain ⟨e, he, rfl, rfl⟩ := Links.getElem?_of_label hl
    rw [looksUp, htodo, he]
    simp [hj]

/-- What a lookup leaves to do. -/
theorem step_lookup {t : Threads nk nf} {q r : Nat} {j : Fin nk} {f : UInt16} {m : Message}
    {cause : Option Request} {rest : List (Tagged Op)} (hq : Threads.EndOf t.sys q j)
    (htodo : t.todo q = ⟨cause, .sendToForward f m⟩ :: rest)
    (hr : (t.sys.keepers j).conns_.find f = some r) :
    ∃ t', t.step (.exec q) = some t' ∧ t'.todo q = ⟨cause, .effect (.send r m)⟩ :: rest := by
  rw [Threads.step, Threads.exec_eq hq, Threads.execAt, htodo]
  refine ⟨_, rfl, ?_⟩
  simp only [Function.update_self, KeeperServer.exec, KeeperServer.sendToForward, hr, sendTo,
    List.map_cons, List.map_nil, List.cons_append, List.nil_append]

/-- **A forward server that was advertised can be reached.** In every run in which no connection
    goes down that `conns_` has in the place of another one that is up, and nothing is looked up
    between an `ADD` and its insertion: whenever the hub's message for `f` is looked up and `f` was
    advertised for a connection that is up, a connection that is up is found and the message is sent
    on it next. -/
theorem advertised_routable {logon : LogonServer} {keepers : Fin nk → KeeperServer}
    (h₀ : Fresh logon keepers) {t : Threads nk nf}
    (h : Reaches Threads.step (fun t a => orderly t a = true)
      (Threads.ofSystem (System.init logon keepers)) t)
    {q : Nat} {j : Fin nk} {f : UInt16} {m : Message} {cause : Option Request}
    {rest : List (Tagged Op)} (hq : Threads.EndOf t.sys q j)
    (htodo : t.todo q = ⟨cause, .sendToForward f m⟩ :: rest)
    (ho : orderly t (.exec q) = true) {p : Nat} (ha : Advertised t j f p) :
    ∃ r t', (t.sys.keepers j).conns_.find f = some r ∧ alive t.sys r = true ∧
      t.step (.exec q) = some t' ∧ t'.todo q = ⟨cause, .effect (.send r m)⟩ :: rest := by
  have hinv : Routes t := h.invariant (routes_init h₀) fun _ _ _ hi ho hs => hi.step ho hs
  have hlooks : looksUp t q j f = true := looksUp_iff.mpr ⟨hq, cause, m, rest, htodo⟩
  have hdone : ¬ inserting t f p = true := by
    intro hins
    have hnot := orderly_exec ho ha.answered hlooks hins
    rw [ha.sent] at hnot
    cases hnot
  obtain ⟨r, hr, hra⟩ := (hinv.routed j f p ha.answered ha.alive).resolve_left hdone
  obtain ⟨t', ht', hrest⟩ := step_lookup hq htodo hr
  exact ⟨r, t', hr, hra, ht', hrest⟩

/-- The servers of luaconfig connect. The ends are as in `luaStart`. -/
def luaThreads (n : Nat) : List (ThreadAction 1 n) := [
  .act .logonConnectHub, .act (.deliver 1 0), .act (.keeperConnectHub (Fin.last 0)), .exec 2,
  .exec 2,
  .act (.deliver 3 0)]

/-- A client with the end `p` logs on, and the keeper is about to look up its forward server. -/
def luaLookup {n : Nat} (p : Nat) : List (ThreadAction 1 n) := [
  .act .clientConnect, .act (.clientSend p (.logon luaLogonMessage)), .act (.deliver (p + 1) 0),
  .act (.runTask 0 (.stored 1 true)), .act (.deliver 1 0), .act (.deliver 2 0)]

/-- The client logs on when the forward server is in `conns_`. -/
theorem advertised_routable_lua :
    ∃ t : Threads 1 1, Advertised t 0 10031 5 ∧ looksUp t 2 0 10031 = true ∧
      ∃ r, (t.sys.keepers 0).conns_.find 10031 = some r ∧ alive t.sys r = true := by
  obtain ⟨t, ht, hans, hsent, hlisted, halive, hlooks, ho⟩ : ∃ t : Threads 1 1,
      Reaches Threads.step (fun t a => orderly t a = true) (Threads.ofSystem (luaInit 1)) t ∧
        (0, 10031, 5) ∈ t.answered ∧ addSent t 10031 5 = true ∧
        10031 ∈ (t.sys.hub.forwards (t.sys.keepers 0).serverID_).map ForwardServerData.id ∧
        alive t.sys 5 = true ∧ looksUp t 2 0 10031 = true ∧ orderly t (.exec 2) = true :=
    exists_reaches (luaThreads 1 ++ [.act (.forwardConnectKeeper 0 0 "127.0.0.1"),
      .act (.deliver 5 0), .exec 5, .exec 5, .exec 5, .exec 5, .exec 5, .act (.deliver 3 0)] ++
      luaLookup 6) (by decide +kernel)
  have ha : Advertised t 0 10031 5 := ⟨hans, hsent, hlisted, halive⟩
  obtain ⟨hq, cause, m, rest, htodo⟩ := looksUp_iff.mp hlooks
  obtain ⟨r, t', hr, hra, -⟩ := advertised_routable fresh_lua ht hq htodo ho ha
  exact ⟨t, ha, hlooks, r, hr, hra⟩

/-- The client logs on when the hub has taken the `ADD` and the keeper has not yet put the
    connection into `conns_`: the message is dropped. Or two forward servers are answered the same
    id and the second one goes down. -/
theorem advertised_dropped :
    (∃ t : Threads 1 1, Reaches Threads.step Threads.Free (Threads.ofSystem (luaInit 1)) t ∧
      Advertised t 0 10031 5 ∧ looksUp t 2 0 10031 = true ∧
      (t.sys.keepers 0).conns_.find 10031 = none ∧
      (t.step (.exec 2)).map (fun t' => t'.todo 2) = some []) ∧
    ∃ t : Threads 1 2, Reaches Threads.step Threads.Free (Threads.ofSystem (luaInit 2)) t ∧
      Advertised t 0 10031 5 ∧ looksUp t 2 0 10031 = true ∧
      (t.sys.keepers 0).conns_.find 10031 = none := by
  constructor
  · obtain ⟨t, ht, hans, hsent, hlisted, halive, hlooks, hnone, hdrop⟩ : ∃ t : Threads 1 1,
        Reaches Threads.step Threads.Free (Threads.ofSystem (luaInit 1)) t ∧
          (0, 10031, 5) ∈ t.answered ∧ addSent t 10031 5 = true ∧
          10031 ∈ (t.sys.hub.forwards (t.sys.keepers 0).serverID_).map ForwardServerData.id ∧
          alive t.sys 5 = true ∧ looksUp t 2 0 10031 = true ∧
          (t.sys.keepers 0).conns_.find 10031 = none ∧
          (t.step (.exec 2)).map (fun t' => t'.todo 2) = some [] :=
      exists_reaches (luaThreads 1 ++ [.act (.forwardConnectKeeper 0 0 "127.0.0.1"),
        .act (.deliver 5 0), .exec 5, .exec 5, .exec 5, .act (.deliver 3 0)] ++ luaLookup 6)
        (by decide +kernel)
    exact ⟨t, ht, ⟨hans, hsent, hlisted, halive⟩, hlooks, hnone, hdrop⟩
  · obtain ⟨t, ht, hans, hsent, hlisted, halive, hlooks, hnone⟩ : ∃ t : Threads 1 2,
        Reaches Threads.step Threads.Free (Threads.ofSystem (luaInit 2)) t ∧
          (0, 10031, 5) ∈ t.answered ∧ addSent t 10031 5 = true ∧
          10031 ∈ (t.sys.hub.forwards (t.sys.keepers 0).serverID_).map ForwardServerData.id ∧
          alive t.sys 5 = true ∧ looksUp t 2 0 10031 = true ∧
          (t.sys.keepers 0).conns_.find 10031 = none :=
      exists_reaches (luaThreads 2 ++ [.act (.forwardConnectKeeper 0 0 "127.0.0.1"),
        .act (.forwardConnectKeeper 1 0 "127.0.0.1"), .act (.deliver 5 0), .act (.deliver 7 0),
        .exec 5, .exec 5, .exec 5, .exec 5, .exec 5, .exec 7, .exec 7, .exec 7, .exec 7, .exec 7,
        .act (.deliver 3 0), .act (.deliver 3 0), .act (.down 7), .exec 7] ++ luaLookup 8)
        (by decide +kernel)
    exact ⟨t, ht, ⟨hans, hsent, hlisted, halive⟩, hlooks, hnone⟩

end Mmvx.Cluster
