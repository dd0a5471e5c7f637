/-
  The system with the loops of the keepers.

  A keeper has a main loop for its connection to the hub and loops for its forward servers, so its
  callbacks interleave with each other. Here a callback at an end of a keeper begins when its
  message is taken, and then does its operations one by one (`todo`), in any order with the steps of
  all others; the next callback at that end waits for it. Keepers and forward servers may also start
  again. The callbacks of the other processes are single steps, as in `System`.

  Every run of `System` is a run here in which no callback is interrupted (`threads_of_system`).
-/
import Mmvx.Cluster.Model
import Mmvx.Server.KeeperOps

namespace Mmvx.Cluster

open Mmvx.Lib Mmvx.Server

variable {nk nf : Nat}

structure Threads (nk nf : Nat) where
  sys : System nk nf
  /-- What the callback that runs at an end of a keeper has still to do. -/
  todo : Nat → List (Tagged Op)
  /-- The ids that queries were answered: the keeper, the id, and its end of the connection. Nothing
      depends on them. -/
  answered : List (Fin nk × UInt16 × Nat)
  /-- How many answers each forward process has processed. Nothing depends on them. -/
  answers : Fin nf → Nat

inductive ThreadAction (nk nf : Nat) where
  | act (a : Action nk nf)
  /-- The callback that runs at the end `p` does its next operation. -/
  | exec (p : Nat)
  /-- A process dies and starts again with empty tables. -/
  | restartKeeper (j : Fin nk)
  | restartForward (i : Fin nf)
  deriving DecidableEq, Repr

/-- The keeper whose end this is. -/
def keeperOf (i : Info nk nf) : Option (Fin nk) :=
  match i.role with
  | .keeperHub j | .keeperServer j => some j
  | _ => none

theorem keeperOf_eq_none {i : Info nk nf} (hhub : ∀ j, i.role ≠ .keeperHub j)
    (hserver : ∀ j, i.role ≠ .keeperServer j) : keeperOf i = none := by
  unfold keeperOf
  split
  · rename_i j hj
    exact absurd hj (hhub j)
  · rename_i j hj
    exact absurd hj (hserver j)
  · rfl

def isKeeper (j : Fin nk) (i : Info nk nf) : Bool := keeperOf i = some j

def isForward (f : Fin nf) (i : Info nk nf) : Bool := i.role = .forwardKeeper f

/-- The id that `onQuery` answers. -/
def answeredId (k : KeeperServer) (conn : TcpConnection) : Message → Option UInt16
  | .keeperQuery m => (k.serverConfig_.find? (k.matchesQuery conn m)).map ServerConfig.id
  | _ => none

namespace Threads

/-- Nothing is connected and no callback runs. -/
def ofSystem (s : System nk nf) : Threads nk nf := ⟨s, fun _ => [], [], fun _ => 0⟩

/-- A callback with the operations `ops` begins at the end `p`, unless another one runs there. -/
def begin (t : Threads nk nf) (p : Nat) (s : System nk nf) (cause : Option Request)
    (ops : List Op) : Option (Threads nk nf) :=
  if t.todo p = [] then
    some { t with sys := s, todo := Function.update t.todo p (ops.map fun op => ⟨cause, op⟩) }
  else none

def deliver (t : Threads nk nf) (p : Nat) (rand : Int32) : Option (Threads nk nf) :=
  match t.sys.links.receive p with
  | some (e, m, links) =>
    let s := { t.sys with links := links }
    match e.info.role with
    | .keeperHub _ => t.begin p s m.cause (KeeperServer.hubMessageOps m.val)
    | .keeperServer j =>
      let conn := e.info.conn p
      let new := (answeredId (s.keepers j) conn m.val).toList.map fun f => (j, f, p)
      { t with answered := new ++ t.answered }.begin p s m.cause
        ((s.keepers j).messageOps conn m.val)
    | .forwardKeeper i =>
      match m.val with
      | .keeperAnswer _ =>
        some { t with
          sys := s.onMessage p e.info rand m
          answers := Function.update t.answers i (t.answers i + 1) }
      | _ => some { t with sys := s.onMessage p e.info rand m }
    | _ => some { t with sys := s.onMessage p e.info rand m }
  | none => none

def down (t : Threads nk nf) (p : Nat) : Option (Threads nk nf) :=
  match t.sys.links[p]? with
  | some e =>
    if e.state = .kDisconnected then none
    else
      let s := { t.sys with links := t.sys.links.close p }
      match e.info.role with
      | .keeperHub _ => t.begin p s none KeeperServer.hubDownOps
      | .keeperServer j => t.begin p s none ((s.keepers j).downOps (e.info.conn p))
      | _ => some { t with sys := s.onDown p e.info }
  | none => none

def keeperConnectHub (t : Threads nk nf) (j : Fin nk) : Option (Threads nk nf) :=
  if (t.sys.keepers j).hubConn_ = none then
    let i : Info nk nf := Info.unnamed (.keeperHub j)
    let p := t.sys.links.length
    t.begin p (t.sys.connect i (Info.unnamed .hubServer)) none
      ((t.sys.keepers j).hubUpOps (i.conn p))
  else none

/-- The next operation at the end `p`, which is an end of the keeper `j`. -/
def execAt (t : Threads nk nf) (p : Nat) (j : Fin nk) : Option (Threads nk nf) :=
  match t.todo p with
  | op :: rest =>
    let r := (t.sys.keepers j).exec op.val
    some { t with
      sys := t.sys.withKeeper j op.cause (r.1, r.2.1)
      todo := Function.update t.todo p (r.2.2.map (fun e => ⟨op.cause, .effect e⟩) ++ rest) }
  | [] => none

def exec (t : Threads nk nf) (p : Nat) : Option (Threads nk nf) :=
  match t.sys.links[p]? with
  | some e => (keeperOf e.info).bind (t.execAt p)
  | none => none

def restartKeeper (t : Threads nk nf) (j : Fin nk) : Threads nk nf :=
  { t with
    sys := { t.sys with
      keepers := Function.update t.sys.keepers j (t.sys.keepers j).restart
      links := t.sys.links.closeAll (isKeeper j) }
    todo := fun p =>
      match t.sys.links[p]? with
      | some e => if isKeeper j e.info then [] else t.todo p
      | none => t.todo p }

def restartForward (t : Threads nk nf) (i : Fin nf) : Threads nk nf :=
  { t with
    sys := { t.sys with
      forwards := Function.update t.sys.forwards i .empty
      links := t.sys.links.closeAll (isForward i) }
    answers := Function.update t.answers i 0 }

def step (t : Threads nk nf) : ThreadAction nk nf → Option (Threads nk nf)
  | .act (.deliver p rand) => t.deliver p rand
  | .act (.down p) => t.down p
  | .act (.keeperConnectHub j) => t.keeperConnectHub j
  | .act a => (t.sys.step a).map fun s => { t with sys := s }
  | .exec p => t.exec p
  | .restartKeeper j => some (t.restartKeeper j)
  | .restartForward i => some (t.restartForward i)

/-- The steps of `System` that take several steps here. -/
def isSplit : Action nk nf → Bool
  | .deliver _ _ | .down _ | .keeperConnectHub _ => true
  | _ => false

theorem step_act (t : Threads nk nf) {a : Action nk nf} (h : isSplit a = false) :
    t.step (.act a) = (t.sys.step a).map fun s => { t with sys := s } := by
  cases a with
  | deliver p rand => cases h
  | down p => cases h
  | keeperConnectHub j => cases h
  | _ => rfl

/-! ## What each step does -/

/-- All that a message does. -/
theorem deliver_cases {t t' : Threads nk nf} {p : Nat} {rand : Int32}
    (h : t.deliver p rand = some t') :
    ∃ e m l, t.sys.links.receive p = some (e, m, l) ∧
      ((∃ j, e.info.role = .keeperHub j ∧
        t.begin p { t.sys with links := l } m.cause (KeeperServer.hubMessageOps m.val) = some t') ∨
      (∃ j new, e.info.role = .keeperServer j ∧
        new = (answeredId (t.sys.keepers j) (e.info.conn p) m.val).toList.map (fun f => (j, f, p)) ∧
        { t with answered := new ++ t.answered }.begin p { t.sys with links := l } m.cause
          ((t.sys.keepers j).messageOps (e.info.conn p) m.val) = some t') ∨
      (∃ i a, e.info.role = .forwardKeeper i ∧ m.val = .keeperAnswer a ∧ t' = { t with
        sys := { t.sys with links := l }.withForward i m.cause ((t.sys.forwards i).onAnswer a)
        answers := Function.update t.answers i (t.answers i + 1) }) ∨
      (∃ i, e.info.role = .forwardKeeper i ∧ (∀ a, m.val ≠ .keeperAnswer a) ∧ t' = { t with
        sys := { t.sys with links := l }.withForward i m.cause
          ((t.sys.forwards i).onMessage (e.info.conn p) rand m.val) }) ∨
      (keeperOf e.info = none ∧ (∀ i, e.info.role ≠ .forwardKeeper i) ∧
        t' = { t with sys := { t.sys with links := l }.onMessage p e.info rand m })) := by
  unfold deliver at h
  split at h
  · rename_i e m l hr
    refine ⟨e, m, l, hr, ?_⟩
    dsimp only at h
    split at h
    · rename_i j hrole
      exact Or.inl ⟨j, hrole, h⟩
    · rename_i j hrole
      exact Or.inr (Or.inl ⟨j, _, hrole, rfl, h⟩)
    · rename_i i hrole
      split at h
      · rename_i a ha
        obtain rfl := Option.some.inj h
        refine Or.inr (Or.inr (Or.inl ⟨i, a, hrole, ha, ?_⟩))
        rw [System.onMessage, hrole, ha]
        rfl
      · rename_i hne
        obtain rfl := Option.some.inj h
        refine Or.inr (Or.inr (Or.inr (Or.inl ⟨i, hrole, fun a ha => hne a ha, ?_⟩)))
        rw [System.onMessage, hrole]
    · rename_i hhub hserver hforward
      exact Or.inr (Or.inr (Or.inr (Or.inr ⟨keeperOf_eq_none hhub hserver, hforward,
        (Option.some.inj h).symm⟩)))
  · cases h

/-- All that happens when an end goes down. -/
theorem down_cases {t t' : Threads nk nf} {p : Nat} (h : t.down p = some t') :
    ∃ e, t.sys.links[p]? = some e ∧ e.state ≠ .kDisconnected ∧
      ((∃ j, e.info.role = .keeperHub j ∧
        t.begin p { t.sys with links := t.sys.links.close p } none KeeperServer.hubDownOps =
          some t') ∨
      (∃ j, e.info.role = .keeperServer j ∧
        t.begin p { t.sys with links := t.sys.links.close p } none
          ((t.sys.keepers j).downOps (e.info.conn p)) = some t') ∨
      (keeperOf e.info = none ∧
        t' = { t with sys := { t.sys with links := t.sys.links.close p }.onDown p e.info })) := by
  unfold down at h
  split at h
  · rename_i e he
    split at h
    · cases h
    · rename_i hup
      refine ⟨e, he, hup, ?_⟩
      dsimp only at h
      split at h
      · rename_i j hrole
        exact Or.inl ⟨j, hrole, h⟩
      · rename_i j hrole
        exact Or.inr (Or.inl ⟨j, hrole, h⟩)
      · rename_i hhub hserver
        exact Or.inr (Or.inr ⟨keeperOf_eq_none hhub hserver, (Option.some.inj h).symm⟩)
  · cases h

/-- All that an operation at `p` does. -/
theorem execAt_cases {t t' : Threads nk nf} {p : Nat} {j : Fin nk}
    (h : t.execAt p j = some t') : ∃ op rest, t.todo p = op :: rest ∧
      t'.sys = t.sys.withKeeper j op.cause
        (((t.sys.keepers j).exec op.val).1, ((t.sys.keepers j).exec op.val).2.1) ∧
      t'.todo = Function.update t.todo p
        (((t.sys.keepers j).exec op.val).2.2.map (fun e => ⟨op.cause, .effect e⟩) ++ rest) ∧
      t'.answered = t.answered ∧ t'.answers = t.answers := by
  unfold execAt at h
  split at h
  · rename_i op rest htodo
    obtain rfl := Option.some.inj h
    exact ⟨op, rest, htodo, rfl, rfl, rfl, rfl⟩
  · cases h

/-- All that a step is. -/
theorem step_cases {t t' : Threads nk nf} {a : ThreadAction nk nf} (h : t.step a = some t') :
    (∃ p rand, a = .act (.deliver p rand) ∧ t.deliver p rand = some t') ∨
    (∃ p, a = .act (.down p) ∧ t.down p = some t') ∨
    (∃ j, a = .act (.keeperConnectHub j) ∧ t.keeperConnectHub j = some t') ∨
    (∃ b s', isSplit b = false ∧ t.sys.step b = some s' ∧ t' = { t with sys := s' }) ∨
    (∃ p, a = .exec p ∧ t.exec p = some t') ∨
    (∃ j, t' = t.restartKeeper j) ∨ ∃ i, t' = t.restartForward i := by
  match a with
  | .act (.deliver p rand) => exact Or.inl ⟨p, rand, rfl, h⟩
  | .act (.down p) => exact Or.inr (Or.inl ⟨p, rfl, h⟩)
  | .act (.keeperConnectHub j) => exact Or.inr (Or.inr (Or.inl ⟨j, rfl, h⟩))
  | .exec p => exact Or.inr (Or.inr (Or.inr (Or.inr (Or.inl ⟨p, rfl, h⟩))))
  | .restartKeeper j =>
    exact Or.inr (Or.inr (Or.inr (Or.inr (Or.inr (Or.inl ⟨j, (Option.some.inj h).symm⟩)))))
  | .restartForward i =>
    exact Or.inr (Or.inr (Or.inr (Or.inr (Or.inr (Or.inr ⟨i, (Option.some.inj h).symm⟩)))))
  | .act b =>
    by_cases hb : isSplit b = true
    · match b, hb with
      | .deliver p rand, _ => exact Or.inl ⟨p, rand, rfl, h⟩
      | .down p, _ => exact Or.inr (Or.inl ⟨p, rfl, h⟩)
      | .keeperConnectHub j, _ => exact Or.inr (Or.inr (Or.inl ⟨j, rfl, h⟩))
    · have hb' : isSplit b = false := by simpa using hb
      rw [step_act t hb'] at h
      obtain ⟨s', hs', rfl⟩ := Option.map_eq_some_iff.mp h
      exact Or.inr (Or.inr (Or.inr (Or.inl ⟨b, s', hb', hs', rfl⟩)))

/-- A callback goes on in a restart or is gone. -/
theorem todo_restartKeeper (t : Threads nk nf) (j : Fin nk) (p : Nat) :
    (t.restartKeeper j).todo p = [] ∨ (t.restartKeeper j).todo p = t.todo p := by
  simp only [restartKeeper]
  split
  · split
    · exact Or.inl rfl
    · exact Or.inr rfl
  · exact Or.inr rfl

end Threads

/-! ## A callback that is not interrupted -/

namespace System

theorem apply_setKeepers (s : System nk nf) (K : Fin nk → KeeperServer) (cause : Option Request)
    (e : Effect) :
    apply cause { s with keepers := K } e = { apply cause s e with keepers := K } := by
  cases e <;> rfl

theorem applyAll_setKeepers (s : System nk nf) (K : Fin nk → KeeperServer)
    (cause : Option Request) (es : List Effect) :
    { s with keepers := K }.applyAll cause es = { s.applyAll cause es with keepers := K } := by
  induction es generalizing s with
  | nil => rfl
  | cons e es ih => rw [applyAll_cons, apply_setKeepers, ih, applyAll_cons]

theorem keepers_withKeeper (s : System nk nf) (j : Fin nk) (cause : Option Request)
    (r : KeeperServer × List Effect) : (s.withKeeper j cause r).keepers j = r.1 := by
  rw [withKeeper, (applyAll_frame cause _ _).2.2.1]
  exact Function.update_self _ _ _

/-- One callback after the other. -/
theorem withKeeper_withKeeper (s : System nk nf) (j : Fin nk) (cause : Option Request)
    (r r' : KeeperServer × List Effect) : (s.withKeeper j cause r).withKeeper j cause r' =
      s.withKeeper j cause (r'.1, r.2 ++ r'.2) := by
  unfold withKeeper
  rw [applyAll_append, applyAll_setKeepers s (Function.update s.keepers j r.1),
    applyAll_setKeepers s (Function.update s.keepers j r'.1)]
  dsimp only
  rw [Function.update_idem]

theorem withKeeper_self (s : System nk nf) (j : Fin nk) (cause : Option Request)
    (es : List Effect) : s.withKeeper j cause (s.keepers j, es) = s.applyAll cause es := by
  rw [withKeeper, Function.update_eq_self]

end System

namespace Threads

/-- Any step may follow. -/
abbrev Free (_ : Threads nk nf) (_ : ThreadAction nk nf) : Prop := True

/-- `p` is an end of the keeper `j`. -/
def EndOf (s : System nk nf) (p : Nat) (j : Fin nk) : Prop :=
  ∃ i q, s.links.label p = some (i, q) ∧ keeperOf i = some j

theorem EndOf.withKeeper {s : System nk nf} {p : Nat} {j : Fin nk} (h : EndOf s p j) (j' : Fin nk)
    (cause : Option Request) (r : KeeperServer × List Effect) :
    EndOf (s.withKeeper j' cause r) p j := by
  obtain ⟨i, q, hl, hi⟩ := h
  refine ⟨i, q, ?_, hi⟩
  rw [System.withKeeper, (System.applyAll_frame cause _ _).2.2.2.2.2]
  exact hl

theorem exec_eq {t : Threads nk nf} {p : Nat} {j : Fin nk} (h : EndOf t.sys p j) :
    t.exec p = t.execAt p j := by
  obtain ⟨i, q, hl, hi⟩ := h
  obtain ⟨e, he, rfl, rfl⟩ := Links.getElem?_of_label hl
  rw [exec, he]
  dsimp only
  rw [hi, Option.bind_some]

/-- The sends that are left of lookups. -/
theorem reaches_effects (cause : Option Request) (p : Nat) (j : Fin nk) (es : List Effect)
    (rest : List (Tagged Op)) (t : Threads nk nf) (hp : EndOf t.sys p j)
    (htodo : t.todo p = es.map (fun e => ⟨cause, .effect e⟩) ++ rest) :
    Reaches step Free t { t with
      sys := t.sys.withKeeper j cause (t.sys.keepers j, es)
      todo := Function.update t.todo p rest } := by
  induction es generalizing t with
  | nil =>
    rw [System.withKeeper_self, show rest = t.todo p from htodo.symm, Function.update_eq_self]
    exact .refl
  | cons e es ih =>
    let t₁ : Threads nk nf := { t with
      sys := t.sys.withKeeper j cause (t.sys.keepers j, [e])
      todo := Function.update t.todo p (es.map (fun e => ⟨cause, .effect e⟩) ++ rest) }
    have hstep : step t (.exec p) = some t₁ := by
      rw [step, exec_eq hp, execAt, htodo]
      rfl
    have h := ih t₁ (hp.withKeeper _ _ _) (Function.update_self _ _ _)
    have hsys : t₁.sys.withKeeper j cause (t₁.sys.keepers j, es) =
        t.sys.withKeeper j cause (t.sys.keepers j, e :: es) := by
      rw [System.keepers_withKeeper, System.withKeeper_withKeeper]
      rfl
    rw [hsys, show Function.update t₁.todo p rest = Function.update t.todo p rest from
      Function.update_idem _ _ _] at h
    exact (Reaches.refl.step trivial hstep).trans h

/-- The operations of a callback one after the other are `execAll`. -/
theorem reaches_execAll (cause : Option Request) (p : Nat) (j : Fin nk) (ops : List Op)
    (t : Threads nk nf) (hp : EndOf t.sys p j)
    (htodo : t.todo p = ops.map fun op => ⟨cause, op⟩) :
    Reaches step Free t { t with
      sys := t.sys.withKeeper j cause ((t.sys.keepers j).execAll ops)
      todo := Function.update t.todo p [] } := by
  induction ops generalizing t with
  | nil =>
    rw [KeeperServer.execAll, System.withKeeper_self, show [] = t.todo p from htodo.symm,
      Function.update_eq_self]
    exact .refl
  | cons op ops ih =>
    let r := (t.sys.keepers j).exec op
    let rest : List (Tagged Op) := ops.map fun op => ⟨cause, op⟩
    let t₁ : Threads nk nf := { t with
      sys := t.sys.withKeeper j cause (r.1, r.2.1)
      todo := Function.update t.todo p (r.2.2.map (fun e => ⟨cause, .effect e⟩) ++ rest) }
    have hstep : step t (.exec p) = some t₁ := by
      rw [step, exec_eq hp, execAt, htodo]
      rfl
    have hp₁ : EndOf t₁.sys p j := hp.withKeeper _ _ _
    -- the send on the connection that was looked up
    let t₂ : Threads nk nf := { t₁ with
      sys := t₁.sys.withKeeper j cause (t₁.sys.keepers j, r.2.2)
      todo := Function.update t₁.todo p rest }
    have hlater : Reaches step Free t₁ t₂ :=
      reaches_effects cause p j r.2.2 rest t₁ hp₁ (Function.update_self _ _ _)
    have h := ih t₂ (hp₁.withKeeper _ _ _) (Function.update_self _ _ _)
    have hk₁ : t₁.sys.keepers j = r.1 := System.keepers_withKeeper _ _ _ _
    have hk₂ : t₂.sys.keepers j = r.1 := (System.keepers_withKeeper _ _ _ _).trans hk₁
    have hsys : t₂.sys.withKeeper j cause ((t₂.sys.keepers j).execAll ops) =
        t.sys.withKeeper j cause ((t.sys.keepers j).execAll (op :: ops)) := by
      rw [hk₂]
      simp only [t₂, t₁, System.withKeeper_withKeeper, KeeperServer.execAll]
      rfl
    have htodo₂ : Function.update t₂.todo p [] = Function.update t.todo p [] := by
      simp only [t₂, t₁, Function.update_idem]
    rw [hsys, htodo₂] at h
    exact ((Reaches.refl.step trivial hstep).trans hlater).trans h

/-- A callback from its beginning to its end. -/
theorem reaches_callback {t₀ t : Threads nk nf} {a : ThreadAction nk nf} {p : Nat} {j : Fin nk}
    {s : System nk nf} {cause : Option Request} {ops : List Op} (hidle : t.todo = fun _ => [])
    (hp : EndOf s p j) (hstep : step t₀ a = t.begin p s cause ops) :
    Reaches step Free t₀ { t with sys := s.withKeeper j cause ((s.keepers j).execAll ops) } := by
  rw [begin, if_pos (by rw [hidle])] at hstep
  let t₁ : Threads nk nf := { t with
    sys := s
    todo := Function.update t.todo p (ops.map fun op => ⟨cause, op⟩) }
  have h := reaches_execAll cause p j ops t₁ hp (Function.update_self _ _ _)
  have hempty : Function.update t₁.todo p [] = t.todo := by
    rw [Function.update_idem, show [] = t.todo p by rw [hidle], Function.update_eq_self]
  rw [hempty] at h
  exact (Reaches.refl.step trivial hstep).trans h

theorem endOf_receive {t : Threads nk nf} {p : Nat} {e : Endpoint (Info nk nf) (Tagged Message)}
    {m : Tagged Message} {l : Links (Info nk nf) (Tagged Message)} {j : Fin nk}
    (hr : t.sys.links.receive p = some (e, m, l)) (hj : keeperOf e.info = some j) :
    EndOf { t.sys with links := l } p j := by
  refine ⟨e.info, e.peer, ?_, hj⟩
  rw [Links.label_receive hr]
  exact Links.label_of_getElem? (Links.receive_eq_some hr).1

theorem endOf_close {t : Threads nk nf} {p : Nat} {e : Endpoint (Info nk nf) (Tagged Message)}
    {j : Fin nk} (he : t.sys.links[p]? = some e) (hj : keeperOf e.info = some j) :
    EndOf { t.sys with links := t.sys.links.close p } p j := by
  refine ⟨e.info, e.peer, ?_, hj⟩
  rw [Links.label_close]
  exact Links.label_of_getElem? he

/-- No callback of a keeper runs, and the rest is `s`. -/
def IdleAt (t : Threads nk nf) (s : System nk nf) : Prop := t.sys = s ∧ t.todo = fun _ => []

theorem simulate_deliver {t : Threads nk nf} {s' : System nk nf} {p : Nat} {rand : Int32}
    (hidle : t.todo = fun _ => []) (hs : t.sys.deliver p rand = some s') :
    ∃ t', Reaches step Free t t' ∧ IdleAt t' s' := by
  unfold System.deliver at hs
  split at hs
  · rename_i e m l hr
    obtain rfl := Option.some.inj hs
    have hstep : step t (.act (.deliver p rand)) = t.deliver p rand := rfl
    rw [deliver, hr] at hstep
    dsimp only at hstep
    split at hstep
    · rename_i j hrole
      have h := reaches_callback hidle (endOf_receive hr (by rw [keeperOf, hrole])) hstep
      rw [KeeperServer.execAll_onHubMessage] at h
      exact ⟨_, h, by rw [System.onMessage, hrole], hidle⟩
    · rename_i j hrole
      have h := reaches_callback (by exact hidle) (endOf_receive hr (by rw [keeperOf, hrole])) hstep
      rw [KeeperServer.execAll_onMessage] at h
      exact ⟨_, h, by rw [System.onMessage, hrole], hidle⟩
    · split at hstep
      · exact ⟨_, Reaches.refl.step trivial hstep, rfl, hidle⟩
      · exact ⟨_, Reaches.refl.step trivial hstep, rfl, hidle⟩
    · exact ⟨_, Reaches.refl.step trivial hstep, rfl, hidle⟩
  · cases hs

theorem simulate_down {t : Threads nk nf} {s' : System nk nf} {p : Nat}
    (hidle : t.todo = fun _ => []) (hs : t.sys.down p = some s') :
    ∃ t', Reaches step Free t t' ∧ IdleAt t' s' := by
  unfold System.down at hs
  split at hs
  · rename_i e he
    split at hs
    · cases hs
    · rename_i hup
      obtain rfl := Option.some.inj hs
      have hstep : step t (.act (.down p)) = t.down p := rfl
      rw [down, he] at hstep
      dsimp only at hstep
      rw [if_neg hup] at hstep
      split at hstep
      · rename_i j hrole
        have h := reaches_callback hidle (endOf_close he (by rw [keeperOf, hrole])) hstep
        rw [KeeperServer.execAll_onHubConnectionDown] at h
        exact ⟨_, h, by rw [System.onDown, hrole], hidle⟩
      · rename_i j hrole
        have h := reaches_callback hidle (endOf_close he (by rw [keeperOf, hrole])) hstep
        rw [KeeperServer.execAll_onConnection] at h
        exact ⟨_, h, by rw [System.onDown, hrole], hidle⟩
      · exact ⟨_, Reaches.refl.step trivial hstep, rfl, hidle⟩
  · cases hs

theorem simulate_keeperConnectHub {t : Threads nk nf} {s' : System nk nf} {j : Fin nk}
    (hidle : t.todo = fun _ => []) (hs : t.sys.keeperConnectHub j = some s') :
    ∃ t', Reaches step Free t t' ∧ IdleAt t' s' := by
  unfold System.keeperConnectHub at hs
  split at hs
  · rename_i hnone
    obtain rfl := Option.some.inj hs
    have hstep : step t (.act (.keeperConnectHub j)) = t.keeperConnectHub j := rfl
    rw [keeperConnectHub, if_pos hnone] at hstep
    have hp : EndOf (t.sys.connect (Info.unnamed (.keeperHub j)) (Info.unnamed .hubServer))
        t.sys.links.length j := by
      refine ⟨Info.unnamed (.keeperHub j), t.sys.links.length + 1, ?_, rfl⟩
      simp [System.connect, Links.label, Links.connect]
    rw [← KeeperServer.execAll_onHubConnectionUp]
    exact ⟨_, reaches_callback hidle hp hstep, rfl, hidle⟩
  · cases hs

theorem simulate_step {t : Threads nk nf} {s' : System nk nf} {a : Action nk nf}
    (hidle : t.todo = fun _ => []) (hs : t.sys.step a = some s') :
    ∃ t', Reaches step Free t t' ∧ IdleAt t' s' := by
  by_cases ha : isSplit a = true
  · match a, ha with
    | .deliver p rand, _ => exact simulate_deliver hidle hs
    | .down p, _ => exact simulate_down hidle hs
    | .keeperConnectHub j, _ => exact simulate_keeperConnectHub hidle hs
  · have hstep := step_act t (by simpa using ha)
    rw [hs, Option.map_some] at hstep
    exact ⟨_, Reaches.refl.step trivial hstep, rfl, hidle⟩

end Threads

/-- **Every run in which the callbacks of the keepers are single steps is a run here.** -/
theorem threads_of_system {C : System nk nf → Action nk nf → Prop} {s₀ s : System nk nf}
    (h : Reaches System.step C s₀ s) :
    ∃ t, Reaches Threads.step Threads.Free (Threads.ofSystem s₀) t ∧ t.IdleAt s := by
  induction h with
  | refl => exact ⟨_, .refl, rfl, rfl⟩
  | step _ _ hs ih =>
    obtain ⟨t, ht, rfl, hidle⟩ := ih
    obtain ⟨t', ht', hidle'⟩ := Threads.simulate_step hidle hs
    exact ⟨t', ht.trans ht', hidle'⟩

end Mmvx.Cluster
