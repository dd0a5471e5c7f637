/-
  The whole system: clients, a logon server, a hub, `nk` keepers and `nf` forward servers, joined by
  TCP connections.

  A step is one callback of one process, with all its effects: a message is delivered, an end of a
  connection goes up or down, a database task runs, a client acts, or a process starts again. The
  order of steps is arbitrary. An end that goes down may lose the last messages that it has sent,
  since `sendInLoop` gives up when it is `kDisconnected` and `handleClose` drops `outputBuffer_`;
  each of them is a step `lose`, at any time after the end went down. Every effect carries the
  request that caused it: the number of a message that a client sent, with the logon server's end of
  the client's connection; effects of a callback carry the request of the message it handles. `log`
  records, newest first, what the specification speaks about. Neither the requests nor the log
  influence what the servers do.
-/
import Mathlib.Logic.Function.Basic
import Mmvx.Lib.Links
import Mmvx.Lib.Run
import Mmvx.Server.Forward
import Mmvx.Server.Hub
import Mmvx.Server.Keeper
import Mmvx.Server.Logon

namespace Mmvx.Cluster

open Mmvx.Lib Mmvx.Server

/-- The `number`-th message of the clients, sent on the connection with the end `client` at the
    logon server. -/
structure Request where
  client : Nat
  number : Nat
  deriving DecidableEq, Repr

structure Tagged (α : Type) where
  cause : Option Request
  val : α
  deriving DecidableEq, Repr

/-- Whose end of which kind of connection an endpoint is. -/
inductive Role (nk nf : Nat) where
  | client
  | logonServer
  | logonHub
  | hubServer
  | keeperHub (j : Fin nk)
  | keeperServer (j : Fin nk)
  | forwardKeeper (i : Fin nf)
  deriving DecidableEq, Repr

structure Info (nk nf : Nat) where
  role : Role nk nf
  name : String
  peerIp : String
  deriving DecidableEq, Repr

/-- The connection of the end `p` as a callback sees it. -/
def Info.conn {nk nf : Nat} (i : Info nk nf) (p : Nat) : TcpConnection := ⟨p, i.name, i.peerIp⟩

/-- Only the names of client connections and of connections to a keeper are used. -/
def Info.unnamed {nk nf : Nat} (r : Role nk nf) : Info nk nf := ⟨r, "", ""⟩

inductive Event where
  /-- A client sends a message. -/
  | request (r : Request) (m : Message)
  /-- A server sends a message on a connection that is `kConnected` at its end. -/
  | sent (conn : Nat) (m : Tagged Message)
  | shutdown (conn : Nat)
  | call (c : Tagged Call)
  deriving DecidableEq, Repr

structure System (nk nf : Nat) where
  logon : LogonServer
  hub : HubServer
  keepers : Fin nk → KeeperServer
  forwards : Fin nf → KeeperClient
  links : Links (Info nk nf) (Tagged Message)
  /-- `mysqlConnectionPool_.queue_`. -/
  tasks : List (Tagged Task)
  requests : Nat
  log : List Event

namespace System

variable {nk nf : Nat}

/-- All processes have started and nothing is connected. -/
def init (logon : LogonServer) (keepers : Fin nk → KeeperServer) : System nk nf where
  logon := logon
  hub := .empty
  keepers := keepers
  forwards := fun _ => .empty
  links := []
  tasks := []
  requests := 0
  log := []

/-! ## Effects -/

def apply (cause : Option Request) (s : System nk nf) : Effect → System nk nf
  | .send p m =>
    { s with
      links := s.links.send p ⟨cause, m⟩
      log := if s.links.connected p then .sent p ⟨cause, m⟩ :: s.log else s.log }
  | .shutdown p => { s with links := s.links.shutdown p, log := .shutdown p :: s.log }
  | .put t => { s with tasks := s.tasks ++ [⟨cause, t⟩] }
  | .call c => { s with log := .call ⟨cause, c⟩ :: s.log }

def applyAll (s : System nk nf) (cause : Option Request) (es : List Effect) : System nk nf :=
  es.foldl (apply cause) s

section

variable (cause : Option Request) (s : System nk nf) (e : Effect) (es : List Effect)

@[simp] theorem apply_logon : (apply cause s e).logon = s.logon := by cases e <;> rfl

@[simp] theorem apply_hub : (apply cause s e).hub = s.hub := by cases e <;> rfl

@[simp] theorem apply_keepers : (apply cause s e).keepers = s.keepers := by cases e <;> rfl

@[simp] theorem apply_forwards : (apply cause s e).forwards = s.forwards := by cases e <;> rfl

@[simp] theorem apply_requests : (apply cause s e).requests = s.requests := by cases e <;> rfl

@[simp] theorem apply_label (p : Nat) :
    Links.label (apply cause s e).links p = s.links.label p := by
  cases e with
  | send q m => exact Links.label_send s.links q p ⟨cause, m⟩
  | shutdown q => exact Links.label_shutdown s.links q p
  | put t => rfl
  | call c => rfl

theorem applyAll_cons : s.applyAll cause (e :: es) = (apply cause s e).applyAll cause es := rfl

theorem applyAll_append (es' : List Effect) :
    s.applyAll cause (es ++ es') = (s.applyAll cause es).applyAll cause es' := by
  rw [applyAll, List.foldl_append]
  rfl

/-- What is kept by every effect is kept by a list of them. -/
theorem applyAll_induction {P : System nk nf → Prop} (init : P s)
    (next : ∀ s' e, e ∈ es → P s' → P (apply cause s' e)) : P (s.applyAll cause es) := by
  induction es generalizing s with
  | nil => exact init
  | cons e es ih =>
    rw [applyAll_cons]
    refine ih (apply cause s e) (next s e List.mem_cons_self init) ?_
    exact fun s' e' he' => next s' e' (List.mem_cons_of_mem _ he')

/-- Effects change neither the tables nor what the ends are. -/
theorem applyAll_frame :
    (s.applyAll cause es).logon = s.logon ∧ (s.applyAll cause es).hub = s.hub ∧
      (s.applyAll cause es).keepers = s.keepers ∧ (s.applyAll cause es).forwards = s.forwards ∧
      (s.applyAll cause es).requests = s.requests ∧
      ∀ p, Links.label (s.applyAll cause es).links p = s.links.label p := by
  apply applyAll_induction cause s es (P := fun s' => s'.logon = s.logon ∧ s'.hub = s.hub ∧
    s'.keepers = s.keepers ∧ s'.forwards = s.forwards ∧ s'.requests = s.requests ∧
    ∀ p, Links.label s'.links p = s.links.label p)
  · exact ⟨rfl, rfl, rfl, rfl, rfl, fun _ => rfl⟩
  · rintro s' e - ⟨h1, h2, h3, h4, h5, h6⟩
    refine ⟨?_, ?_, ?_, ?_, ?_, ?_⟩ <;> simp_all

theorem log_subset_apply : s.log ⊆ (apply cause s e).log := by
  cases e with
  | send p m =>
    simp only [apply]
    split
    · exact List.subset_cons_self _ _
    · exact List.Subset.refl _
  | shutdown p => exact List.subset_cons_self _ _
  | put t => exact List.Subset.refl _
  | call c => exact List.subset_cons_self _ _

theorem log_subset_applyAll : s.log ⊆ (s.applyAll cause es).log := by
  apply applyAll_induction cause s es (P := fun s' => s.log ⊆ s'.log)
  · exact List.Subset.refl _
  · intro s' e _ h
    exact List.Subset.trans h (log_subset_apply cause s' e)

/-- Servers make no requests. -/
theorem request_of_applyAll {r : Request} {m : Message}
    (h : .request r m ∈ (s.applyAll cause es).log) : .request r m ∈ s.log := by
  revert h
  refine applyAll_induction cause s es (P := fun s' => .request r m ∈ s'.log → _) id ?_
  intro s' e _ ih h
  apply ih
  cases e with
  | send p m' =>
    simp only [apply] at h
    split at h
    · simpa using h
    · exact h
  | shutdown p => simpa [apply] using h
  | put t => exact h
  | call c => simpa [apply] using h

/-- What an effect can do to an end, its inbox apart. -/
theorem getElem?_apply {p : Nat} {x' : Endpoint (Info nk nf) (Tagged Message)}
    (h : (apply cause s e).links[p]? = some x') :
    ∃ x, s.links[p]? = some x ∧ x'.info = x.info ∧
      (x'.state = x.state ∨ (x.state = .kConnected ∧ x'.state = .kDisconnecting ∧
        .shutdown p ∈ (apply cause s e).log)) := by
  cases e with
  | send q m =>
    obtain ⟨x, hx, rfl | ⟨-, rfl⟩⟩ := Links.getElem?_send h
    · exact ⟨_, hx, rfl, Or.inl rfl⟩
    · exact ⟨x, hx, rfl, Or.inl rfl⟩
  | shutdown q =>
    obtain ⟨x, hx, rfl | ⟨rfl, hst, rfl⟩⟩ := Links.getElem?_shutdown h
    · exact ⟨_, hx, rfl, Or.inl rfl⟩
    · exact ⟨x, hx, rfl, Or.inr ⟨hst, rfl, List.mem_cons_self⟩⟩
  | put t => exact ⟨x', h, rfl, Or.inl rfl⟩
  | call c => exact ⟨x', h, rfl, Or.inl rfl⟩

end

/-- A callback of each process. -/
def withLogon (s : System nk nf) (cause : Option Request) (r : LogonServer × List Effect) :
    System nk nf :=
  { s with logon := r.1 }.applyAll cause r.2

def withHub (s : System nk nf) (cause : Option Request) (r : HubServer × List Effect) :
    System nk nf :=
  { s with hub := r.1 }.applyAll cause r.2

def withKeeper (s : System nk nf) (j : Fin nk) (cause : Option Request)
    (r : KeeperServer × List Effect) : System nk nf :=
  { s with keepers := Function.update s.keepers j r.1 }.applyAll cause r.2

def withForward (s : System nk nf) (i : Fin nf) (cause : Option Request)
    (r : KeeperClient × List Effect) : System nk nf :=
  { s with forwards := Function.update s.forwards i r.1 }.applyAll cause r.2

/-- The message callback of the end `p`. -/
def onMessage (s : System nk nf) (p : Nat) (i : Info nk nf) (rand : Int32) (m : Tagged Message) :
    System nk nf :=
  match i.role with
  | .client => s
  | .logonServer => s.withLogon m.cause (s.logon.onMessage (i.conn p) m.val)
  | .logonHub => s.withLogon m.cause (s.logon.onHubClientMessage (i.conn p) m.val)
  | .hubServer => s.withHub m.cause (s.hub.onMessage (i.conn p) m.val)
  | .keeperHub j => s.withKeeper j m.cause ((s.keepers j).onHubMessage m.val)
  | .keeperServer j => s.withKeeper j m.cause ((s.keepers j).onMessage (i.conn p) m.val)
  | .forwardKeeper f =>
    s.withForward f m.cause ((s.forwards f).onMessage (i.conn p) rand m.val)

/-- The connection callback of the end `p` when it goes down. -/
def onDown (s : System nk nf) (p : Nat) (i : Info nk nf) : System nk nf :=
  match i.role with
  | .client => s
  | .logonServer => s.withLogon none (s.logon.onConnectionDown (i.conn p))
  | .logonHub => s.withLogon none s.logon.onHubClientConnectionDown
  | .hubServer => s.withHub none (s.hub.onConnection (i.conn p))
  | .keeperHub j => s.withKeeper j none (s.keepers j).onHubConnectionDown
  | .keeperServer j => s.withKeeper j none ((s.keepers j).onConnection (i.conn p))
  | .forwardKeeper f => s.withForward f none (s.forwards f).onConnectionDown

/-! ## Steps -/

end System

inductive Action (nk nf : Nat) where
  /-- A client connects to the logon server. -/
  | clientConnect
  /-- The client with the end `p` sends any message. -/
  | clientSend (p : Nat) (m : Message)
  /-- The next message under way to `p` is delivered. -/
  | deliver (p : Nat) (rand : Int32)
  /-- The end `p` goes down. -/
  | down (p : Nat)
  /-- The last message under way to `p` is lost with its peer, which is down. -/
  | lose (p : Nat)
  /-- A worker of the pool runs a task. -/
  | runTask (n : Nat) (result : QueryResult)
  | logonConnectHub
  | keeperConnectHub (j : Fin nk)
  | forwardConnectKeeper (i : Fin nf) (j : Fin nk) (ip : String)
  /-- A client connects to a forward server, leaves it, or presents a session. -/
  | forwardUp (i : Fin nf)
  | forwardDown (i : Fin nf)
  | forwardLogon (i : Fin nf) (uid : Int64) (session : Int32)
  /-- A process dies and starts again with empty tables. -/
  | restartLogon
  | restartHub
  deriving DecidableEq, Repr

namespace System

variable {nk nf : Nat}

/-- A `TcpClient` connects: the ends are `s.links.length` and `s.links.length + 1`. -/
def connect (s : System nk nf) (a b : Info nk nf) : System nk nf :=
  { s with links := s.links.connect a b }

/-- `TcpServer::newConnection` of the logon server, for a client. -/
def clientConnect (s : System nk nf) : System nk nf :=
  let (connName, server_) := s.logon.server_.newConnection
  let i : Info nk nf := ⟨.logonServer, connName, ""⟩
  (s.connect (Info.unnamed .client) i).withLogon none
    ({ s.logon with server_ := server_ }.onConnectionUp (i.conn (s.links.length + 1)))

def clientSend (s : System nk nf) (p : Nat) (m : Message) : Option (System nk nf) :=
  match s.links[p]? with
  | some e =>
    if e.info.role = .client ∧ e.state = .kConnected then
      some { s with
        links := s.links.send p ⟨some ⟨e.peer, s.requests⟩, m⟩
        requests := s.requests + 1
        log := .request ⟨e.peer, s.requests⟩ m :: s.log }
    else none
  | none => none

def deliver (s : System nk nf) (p : Nat) (rand : Int32) : Option (System nk nf) :=
  match s.links.receive p with
  | some (e, m, links) => some ({ s with links := links }.onMessage p e.info rand m)
  | none => none

def down (s : System nk nf) (p : Nat) : Option (System nk nf) :=
  match s.links[p]? with
  | some e =>
    if e.state = .kDisconnected then none
    else some ({ s with links := s.links.close p }.onDown p e.info)
  | none => none

def lose (s : System nk nf) (p : Nat) : Option (System nk nf) :=
  (s.links.lose p).map fun r => { s with links := r.2.2 }

def runTask (s : System nk nf) (n : Nat) (result : QueryResult) : Option (System nk nf) :=
  match s.tasks[n]? with
  | some t =>
    some ({ s with tasks := s.tasks.eraseIdx n }.applyAll t.cause
      (s.logon.queryLogonAccount t.val result))
  | none => none

def logonConnectHub (s : System nk nf) : Option (System nk nf) :=
  if s.logon.hubConn_ = none then
    let i : Info nk nf := Info.unnamed .logonHub
    some ((s.connect i (Info.unnamed .hubServer)).withLogon none
      (s.logon.onHubClientConnectionUp (i.conn s.links.length)))
  else none

def keeperConnectHub (s : System nk nf) (j : Fin nk) : Option (System nk nf) :=
  if (s.keepers j).hubConn_ = none then
    let i : Info nk nf := Info.unnamed (.keeperHub j)
    some ((s.connect i (Info.unnamed .hubServer)).withKeeper j none
      ((s.keepers j).onHubConnectionUp (i.conn s.links.length)))
  else none

/-- `TcpServer::newConnection` of the keeper, for a forward server at `ip`. -/
def forwardConnectKeeper (s : System nk nf) (i : Fin nf) (j : Fin nk) (ip : String) :
    Option (System nk nf) :=
  if (s.forwards i).conn_ = none then
    let (connName, server_) := (s.keepers j).server_.newConnection
    let a : Info nk nf := Info.unnamed (.forwardKeeper i)
    let s' := s.connect a ⟨.keeperServer j, connName, ip⟩
    let s' := { s' with
      keepers := Function.update s.keepers j { s.keepers j with server_ := server_ } }
    some (s'.withForward i none ((s.forwards i).onConnectionUp (a.conn s.links.length)))
  else none

def isLogon (i : Info nk nf) : Bool :=
  match i.role with
  | .logonServer | .logonHub => true
  | _ => false

def isHub (i : Info nk nf) : Bool :=
  match i.role with
  | .hubServer => true
  | _ => false

def step (s : System nk nf) : Action nk nf → Option (System nk nf)
  | .clientConnect => some s.clientConnect
  | .clientSend p m => s.clientSend p m
  | .deliver p rand => s.deliver p rand
  | .down p => s.down p
  | .lose p => s.lose p
  | .runTask n result => s.runTask n result
  | .logonConnectHub => s.logonConnectHub
  | .keeperConnectHub j => s.keeperConnectHub j
  | .forwardConnectKeeper i j ip => s.forwardConnectKeeper i j ip
  | .forwardUp i => (s.forwards i).onClientUp.map (s.withForward i none)
  | .forwardDown i => (s.forwards i).onClientDown.map (s.withForward i none)
  | .forwardLogon i uid session =>
    ((s.forwards i).onLogonForward uid session).map fun k => s.withForward i none (k, [])
  | .restartLogon =>
    some { s with logon := s.logon.restart, tasks := [], links := s.links.closeAll isLogon }
  | .restartHub => some { s with hub := .empty, links := s.links.closeAll isHub }

theorem lose_eq_some {s s' : System nk nf} {p : Nat} (h : s.lose p = some s') :
    ∃ e m l, s.links.lose p = some (e, m, l) ∧ s' = { s with links := l } := by
  obtain ⟨⟨e, m, l⟩, hl, rfl⟩ := Option.map_eq_some_iff.mp h
  exact ⟨e, m, l, hl, rfl⟩

end System

end Mmvx.Cluster
