/-
  The names of connections, and the tables that are keyed by them.

  `TcpServer::newConnection` (muduo/net/TcpServer.cc) prints the address it listens at and the
  number of the connection into 32 bytes. An address of 19 characters leaves room for the ten digits
  of any `int`; a longer one does not, and then different numbers give one name
  (`connName_collides`).
  Both `connections_` of the server and `clientConns_` of `LogonServer` keep one connection for a
  name, so this is exactly when they lose none that is alive (`names_unique_iff`).
-/
import Mathlib.Algebra.Group.Nat.Defs
import Mmvx.Lib.Entries
import Mmvx.Lib.Run
import Mmvx.Server.Logon

namespace Mmvx.Server

open Mmvx.Lib

/-- `struct sockaddr_in`: the four bytes of the address, and the port. -/
structure SockaddrIn where
  sin_addr : UInt8 × UInt8 × UInt8 × UInt8
  sin_port : UInt16
  deriving DecidableEq, Repr

/-- `sockets::toIpPort`: `inet_ntop` and `":%u"`; at most 21 characters. -/
def SockaddrIn.toIpPort (addr : SockaddrIn) : String :=
  let (a, b, c, d) := addr.sin_addr
  toString a.toNat ++ "." ++ toString b.toNat ++ "." ++ toString c.toNat ++ "." ++
    toString d.toNat ++ ":" ++ toString addr.sin_port.toNat

/-- The name of the connection with the number `id`. -/
def connName (name_ hostport_ : String) (id : Nat) : String :=
  (TcpServer.newConnection ⟨name_, hostport_, id⟩).1

/-! ## Names -/

section

variable {name_ hostport_ : String}

/-- What `snprintf` would print, with room enough. -/
def fullName (hostport_ : String) (id : Nat) : List Char :=
  ':' :: hostport_.toList ++ '#' :: Nat.toDigits 10 id

theorem length_fullName (hostport_ : String) (id : Nat) :
    (fullName hostport_ id).length = hostport_.length + 2 + (Nat.toDigits 10 id).length := by
  simp only [fullName, List.length_append, List.length_cons, String.length_toList]
  omega

theorem toList_connName (name_ hostport_ : String) (id : Nat) :
    (connName name_ hostport_ id).toList = name_.toList ++ (fullName hostport_ id).take 31 := by
  simp [connName, TcpServer.newConnection, fullName]

/-- An address of 19 characters leaves room for every number. -/
theorem take_fullName (h : hostport_.length ≤ 19) {id : Nat} (hid : id < 2 ^ 31) :
    (fullName hostport_ id).take 31 = fullName hostport_ id := by
  have hdigits : (Nat.toDigits 10 id).length ≤ 10 := by
    rw [Nat.length_toDigits_le_iff (by decide) (by decide)]
    omega
  rw [List.take_of_length_le]
  rw [length_fullName]
  omega

theorem connName_injective (h : hostport_.length ≤ 19) {i j : Nat} (hi : i < 2 ^ 31)
    (hj : j < 2 ^ 31) (heq : connName name_ hostport_ i = connName name_ hostport_ j) : i = j := by
  have hlist := congrArg String.toList heq
  rw [toList_connName, toList_connName, take_fullName h hi, take_fullName h hj,
    List.append_cancel_left_eq] at hlist
  have hdigits : Nat.toDigits 10 i = Nat.toDigits 10 j := by simpa [fullName] using hlist
  have hvalue := congrArg (fun ds => Nat.ofDigitChars 10 ds 0) hdigits
  simpa only [Nat.ofDigitChars_ten_toDigits] using hvalue

/-- A longer one cuts the tenth digit. -/
theorem connName_collides (h : 20 ≤ hostport_.length) :
    connName name_ hostport_ 1000000000 = connName name_ hostport_ 1000000001 := by
  have hcut {d : Nat} (hd : d < 10) : (fullName hostport_ (10 * 100000000 + d)).take 31 =
      (fullName hostport_ 100000000).take 31 := by
    have hfull : fullName hostport_ (10 * 100000000 + d) =
        fullName hostport_ 100000000 ++ Nat.toDigits 10 d := by
      rw [fullName, ← Nat.toDigits_append_toDigits (by decide) (by decide) hd]
      simp [fullName]
    have hnine : 9 ≤ (Nat.toDigits 10 100000000).length := by
      by_contra hshort
      have hlt := (Nat.length_toDigits_le_iff (n := 100000000) (b := 10) (k := 8) (by decide)
        (by decide)).mp (by omega)
      exact absurd hlt (by decide)
    rw [hfull, List.take_append_of_le_length]
    rw [length_fullName]
    omega
  rw [← String.toList_inj, toList_connName, toList_connName]
  have hzero := hcut (d := 0) (by decide)
  have hone := hcut (d := 1) (by decide)
  exact congrArg (name_.toList ++ ·) (hzero.trans hone.symm)

end

/-! ## The tables -/

/-- How far a connection is. -/
inductive ConnPhase where
  /-- `newConnection` has run, `connectEstablished` not yet. -/
  | accepted
  | up
  /-- `handleClose` has called the connection callback, `removeConnectionInLoop` has not yet run. -/
  | down
  | removed
  deriving DecidableEq, Repr

/-- `LogonServer` with its `TcpServer`, and all connections it ever had, oldest first. -/
structure Tables where
  logon : LogonServer
  connections_ : OrdMap String Nat
  conns : List (String × ConnPhase)

inductive TableAction where
  | newConnection
  | connectEstablished (p : Nat)
  | handleClose (p : Nat)
  | removeConnectionInLoop (p : Nat)
  deriving DecidableEq, Repr

namespace Tables

def init (name_ : String) (addr : SockaddrIn) (serverID_ : UInt16) : Tables where
  logon := ⟨⟨name_, addr.toIpPort, 1⟩, serverID_, .empty, none⟩
  connections_ := .empty
  conns := []

/-- `nextConnId_` is an `int`, so what follows after the last connection is left open. -/
def newConnection (s : Tables) : Option Tables :=
  if s.logon.server_.nextConnId_ < 2 ^ 31 then
    let (connName, server_) := s.logon.server_.newConnection
    some {
      logon := { s.logon with server_ := server_ }
      connections_ := s.connections_.insert connName s.conns.length
      conns := s.conns ++ [(connName, .accepted)] }
  else none

def step (s : Tables) : TableAction → Option Tables
  | .newConnection => s.newConnection
  | .connectEstablished p =>
    match s.conns[p]? with
    | some (name, .accepted) =>
      some { s with
        logon := (s.logon.onConnectionUp ⟨p, name, ""⟩).1
        conns := s.conns.set p (name, .up) }
    | _ => none
  | .handleClose p =>
    match s.conns[p]? with
    | some (name, .up) =>
      some { s with
        logon := (s.logon.onConnectionDown ⟨p, name, ""⟩).1
        conns := s.conns.set p (name, .down) }
    | _ => none
  | .removeConnectionInLoop p =>
    match s.conns[p]? with
    | some (name, .down) =>
      some { s with
        connections_ := s.connections_.erase name
        conns := s.conns.set p (name, .removed) }
    | _ => none

/-- Every connection that has not been removed is in `connections_`, and every one that is up is in
    `clientConns_`. -/
def Kept (s : Tables) : Prop :=
  ∀ p name phase, s.conns[p]? = some (name, phase) →
    (phase ≠ .removed → s.connections_.find name = some p) ∧
      (phase = .up → s.logon.clientConns_.find name = some p)

/-- The connections are numbered from 1 and named by their numbers. -/
structure Numbered (name_ hostport_ : String) (s : Tables) : Prop where
  server : s.logon.server_ = ⟨name_, hostport_, s.conns.length + 1⟩
  bound : s.conns.length < 2 ^ 31
  names : ∀ p c, s.conns[p]? = some c → c.1 = connName name_ hostport_ (p + 1)

variable {name_ hostport_ : String} {s s' : Tables}

/-- What a step does to the connections. -/
inductive Moves (s : Tables) : Tables → Prop
  | accept (h : s.logon.server_.nextConnId_ < 2 ^ 31) : Moves s {
      logon := { s.logon with server_ := s.logon.server_.newConnection.2 }
      connections_ := s.connections_.insert s.logon.server_.newConnection.1 s.conns.length
      conns := s.conns ++ [(s.logon.server_.newConnection.1, .accepted)] }
  | up {p : Nat} {name : String} (hp : s.conns[p]? = some (name, .accepted)) : Moves s { s with
      logon := { s.logon with clientConns_ := s.logon.clientConns_.insert name p }
      conns := s.conns.set p (name, .up) }
  | down {p : Nat} {name : String} (hp : s.conns[p]? = some (name, .up)) : Moves s { s with
      logon := { s.logon with clientConns_ := s.logon.clientConns_.erase name }
      conns := s.conns.set p (name, .down) }
  | remove {p : Nat} {name : String} (hp : s.conns[p]? = some (name, .down)) : Moves s { s with
      connections_ := s.connections_.erase name
      conns := s.conns.set p (name, .removed) }

theorem step_moves {a : TableAction} (h : s.step a = some s') : Moves s s' := by
  cases a with
  | newConnection =>
    dsimp only [step, newConnection] at h
    split at h
    · rename_i hlt
      obtain rfl := Option.some.inj h
      exact .accept hlt
    · cases h
  | connectEstablished p =>
    dsimp only [step] at h
    split at h
    · rename_i hp
      obtain rfl := Option.some.inj h
      exact .up hp
    · cases h
  | handleClose p =>
    dsimp only [step] at h
    split at h
    · rename_i hp
      obtain rfl := Option.some.inj h
      exact .down hp
    · cases h
  | removeConnectionInLoop p =>
    dsimp only [step] at h
    split at h
    · rename_i hp
      obtain rfl := Option.some.inj h
      exact .remove hp
    · cases h

/-- A connection changes its phase and keeps its name. -/
theorem Numbered.phase (h : Numbered name_ hostport_ s) {p : Nat} {name : String}
    {phase phase' : ConnPhase} (hp : s.conns[p]? = some (name, phase))
    (hserver : s'.logon.server_ = s.logon.server_)
    (hconns : s'.conns = s.conns.set p (name, phase')) : Numbered name_ hostport_ s' where
  server := by rw [hserver, h.server, hconns, List.length_set]
  bound := by rw [hconns, List.length_set]; exact h.bound
  names q c hq := by
    rw [hconns] at hq
    rcases getElem?_set_cases hq with ⟨rfl, rfl⟩ | ⟨-, hq⟩
    · exact h.names q (name, phase) hp
    · exact h.names q c hq

theorem Numbered.moves (h : Numbered name_ hostport_ s) (hm : Moves s s') :
    Numbered name_ hostport_ s' := by
  cases hm with
  | accept hlt =>
    rw [h.server] at hlt ⊢
    dsimp only at hlt
    refine ⟨?_, ?_, ?_⟩
    · dsimp only
      rw [List.length_append]
      rfl
    · rw [List.length_append]
      exact hlt
    · intro p c hp
      rcases getElem?_concat_cases hp with hp | ⟨rfl, rfl⟩
      · exact h.names p c hp
      · rfl
  | up hp => exact h.phase hp rfl rfl
  | down hp => exact h.phase hp rfl rfl
  | remove hp => exact h.phase hp rfl rfl

/-- Different connections have different names. -/
theorem Numbered.name_ne (h : Numbered name_ hostport_ s) (hlen : hostport_.length ≤ 19) {p q : Nat}
    {c c' : String × ConnPhase} (hp : s.conns[p]? = some c) (hq : s.conns[q]? = some c')
    (hpq : p ≠ q) : c.1 ≠ c'.1 := by
  obtain ⟨hplt, -⟩ := List.getElem?_eq_some_iff.mp hp
  obtain ⟨hqlt, -⟩ := List.getElem?_eq_some_iff.mp hq
  have hbound := h.bound
  rw [h.names p c hp, h.names q c' hq]
  intro heq
  have hid := connName_injective hlen (by omega) (by omega) heq
  omega

/-- One connection changes its phase; the entries under other names stay. -/
theorem Kept.phase (h : Kept s) {p : Nat} {name : String} {phase : ConnPhase}
    (hconns : s'.conns = s.conns.set p (name, phase))
    (hself : (phase ≠ .removed → s'.connections_.find name = some p) ∧
      (phase = .up → s'.logon.clientConns_.find name = some p))
    (hother : ∀ q c, q ≠ p → s.conns[q]? = some c →
      s'.connections_.find c.1 = s.connections_.find c.1 ∧
        s'.logon.clientConns_.find c.1 = s.logon.clientConns_.find c.1) : Kept s' := by
  intro q name' phase' hq
  rw [hconns] at hq
  rcases getElem?_set_cases hq with ⟨rfl, heq⟩ | ⟨hne, hq⟩
  · cases heq
    exact hself
  · obtain ⟨hconn, hclient⟩ := hother q _ hne hq
    rw [hconn, hclient]
    exact h q name' phase' hq

/-- As long as names differ, no entry of a live connection is touched. -/
theorem Kept.moves (h : Kept s) (hn : Numbered name_ hostport_ s) (hlen : hostport_.length ≤ 19)
    (hm : Moves s s') : Kept s' := by
  have hn' := hn.moves hm
  cases hm with
  | accept hlt =>
    intro q name phase hq
    have hnew : (s.conns ++ [(s.logon.server_.newConnection.1, .accepted)])[s.conns.length]? =
        some (s.logon.server_.newConnection.1, .accepted) := List.getElem?_concat_length
    rcases getElem?_concat_cases hq with hold | ⟨rfl, heq⟩
    · obtain ⟨hqlt, -⟩ := List.getElem?_eq_some_iff.mp hold
      have hne : name ≠ s.logon.server_.newConnection.1 :=
        hn'.name_ne hlen hq hnew (Nat.ne_of_lt hqlt)
      dsimp only
      rw [OrdMap.find_insert, if_neg hne]
      exact h q name phase hold
    · cases heq
      dsimp only
      rw [OrdMap.find_insert, if_pos rfl]
      exact ⟨fun _ => rfl, fun hup => by cases hup⟩
  | @up p name hp =>
    refine h.phase rfl ⟨fun _ => (h p name _ hp).1 (by simp), ?_⟩ ?_
    · intro _
      exact (OrdMap.find_insert _ _ _ _).trans (if_pos rfl)
    · intro q c hne hq
      exact ⟨rfl, (OrdMap.find_insert _ _ _ _).trans (if_neg (hn.name_ne hlen hq hp hne))⟩
  | @down p name hp =>
    refine h.phase rfl ⟨fun _ => (h p name _ hp).1 (by simp), fun hup => by cases hup⟩ ?_
    intro q c hne hq
    exact ⟨rfl, (OrdMap.find_erase _ _ _).trans (if_neg (hn.name_ne hlen hq hp hne))⟩
  | @remove p name hp =>
    refine h.phase rfl ⟨fun hrem => absurd rfl hrem, fun hup => by cases hup⟩ ?_
    intro q c hne hq
    exact ⟨(OrdMap.find_erase _ _ _).trans (if_neg (hn.name_ne hlen hq hp hne)), rfl⟩

variable (name_) (addr : SockaddrIn) (serverID_ : UInt16)

theorem numbered_init : Numbered name_ addr.toIpPort (init name_ addr serverID_) where
  server := rfl
  bound := by show 0 < 2 ^ 31; decide
  names p c hp := by cases hp

/-- Any number of connections can be alive at once. -/
theorem exists_accepted (n : Nat) (hn : n < 2 ^ 31) :
    ∃ s, Reaches step (fun _ _ => True) (init name_ addr serverID_) s ∧
      Numbered name_ addr.toIpPort s ∧ s.conns.length = n ∧ ∀ c ∈ s.conns, c.2 = .accepted := by
  induction n with
  | zero =>
    exact ⟨_, .refl, numbered_init name_ addr serverID_, rfl, fun c hc => by cases hc⟩
  | succ n ih =>
    obtain ⟨s, hs, hnum, rfl, hacc⟩ := ih (by omega)
    have hlt : s.logon.server_.nextConnId_ < 2 ^ 31 := by
      rw [hnum.server]
      exact hn
    have hstep : s.step .newConnection = s.newConnection := rfl
    unfold newConnection at hstep
    rw [if_pos hlt] at hstep
    refine ⟨_, hs.step trivial hstep, hnum.moves (step_moves hstep), List.length_append, ?_⟩
    intro c hc
    rcases List.mem_append.mp hc with hc | hc
    · exact hacc c hc
    · rw [List.mem_singleton.mp hc]

variable {name_ addr serverID_}

theorem kept_reaches (hlen : addr.toIpPort.length ≤ 19)
    (h : Reaches step (fun _ _ => True) (init name_ addr serverID_) s) : Kept s := by
  refine (h.invariant (P := fun s => Numbered name_ addr.toIpPort s ∧ Kept s)
    ⟨numbered_init name_ addr serverID_, fun p name phase hp => by cases hp⟩ ?_).2
  rintro s a s' ⟨hn, hk⟩ _ hs
  have hm := step_moves hs
  exact ⟨hn.moves hm, hk.moves hn hlen hm⟩

/-- With a long address a connection that is alive is overwritten. -/
theorem exists_lost (name_ : String) (serverID_ : UInt16) (hlen : 20 ≤ addr.toIpPort.length) :
    ∃ s, Reaches step (fun _ _ => True) (init name_ addr serverID_) s ∧ ¬ Kept s := by
  obtain ⟨s, hs, hnum, hcount, hacc⟩ := exists_accepted name_ addr serverID_ 1000000001 (by decide)
  refine ⟨s, hs, ?_⟩
  intro hk
  have hentry (p : Nat) (hp : p < s.conns.length) :
      s.connections_.find (connName name_ addr.toIpPort (p + 1)) = some p := by
    obtain ⟨⟨name, phase⟩, hget⟩ : ∃ c, s.conns[p]? = some c := ⟨_, List.getElem?_eq_getElem hp⟩
    obtain rfl : name = _ := hnum.names p _ hget
    obtain rfl : phase = _ := hacc _ (List.mem_of_getElem? hget)
    exact (hk p _ _ hget).1 (by simp)
  have hone := hentry 999999999 (by omega)
  have htwo := hentry 1000000000 (by omega)
  rw [connName_collides hlen] at hone
  exact absurd (hone.symm.trans htwo) (by decide)

/-- The names of all connections that a server can have differ. -/
def NamesDiffer (name_ : String) (addr : SockaddrIn) : Prop :=
  ∀ i j, 1 ≤ i → i < 2 ^ 31 → 1 ≤ j → j < 2 ^ 31 → i ≠ j →
    connName name_ addr.toIpPort i ≠ connName name_ addr.toIpPort j

/-- No live connection is ever lost from a table. -/
def NoneLost (name_ : String) (addr : SockaddrIn) (serverID_ : UInt16) : Prop :=
  ∀ s, Reaches step (fun _ _ => True) (init name_ addr serverID_) s → Kept s

/-- **Connection names are unique** exactly when the listen address, as printed by `toIpPort`, has
    at most 19 characters, for any name of the server and all numbers that an `int` can have. Then,
    and only then, the tables keep every live connection, in whatever order connections are accepted,
    come up, go down and are removed. -/
theorem names_unique_iff (name_ : String) (addr : SockaddrIn) (serverID_ : UInt16) :
    (NamesDiffer name_ addr ↔ addr.toIpPort.length ≤ 19) ∧
      (NoneLost name_ addr serverID_ ↔ addr.toIpPort.length ≤ 19) := by
  refine ⟨⟨?_, ?_⟩, ⟨?_, ?_⟩⟩
  · intro h
    by_contra hlong
    refine h 1000000000 1000000001 (by decide) (by decide) (by decide) (by decide) (by decide) ?_
    exact connName_collides (by omega)
  · intro hlen i j _ hi _ hj hne heq
    exact hne (connName_injective hlen hi hj heq)
  · intro h
    by_contra hlong
    obtain ⟨s, hs, hlost⟩ := exists_lost name_ serverID_ (Nat.lt_of_not_le hlong)
    exact hlost (h s hs)
  · intro hlen s hs
    exact kept_reaches hlen hs

/-- At 192.168.100.200:10011 the connections 1000000000 and 1000000001 have one name. -/
theorem names_collide :
    ¬ ∀ (name_ : String) (addr : SockaddrIn) (serverID_ : UInt16),
      NamesDiffer name_ addr ∧ NoneLost name_ addr serverID_ := by
  intro h
  refine (h "LogonServer" ⟨(192, 168, 100, 200), 10011⟩ 10011).1 1000000000 1000000001 (by decide)
    (by decide) (by decide) (by decide) (by decide) ?_
  exact connName_collides (by decide)

end Tables

end Mmvx.Server
