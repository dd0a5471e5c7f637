/-
  Remote procedure calls (muduo/net/protorpc/RpcChannel.{h,cc}).

  Two channels at the ends of a connection, each with its services and its calls. `CallMethod` may
  run in any thread: it takes a number, enters the call into `outstandings_` under the mutex, and
  sends; these are steps of their own. A service answers when it likes (`done`), at once or later,
  and in any order. The connection stays up; every call passes a response object.

  What one side calls and the other serves is one direction of the protocol of `Mmvx.Net.RpcCalls`
  (`step_view`); the messages of the two directions do not disturb each other. Hence every call gets
  one answer, its own (`rpc_exactly_once`).
-/
import Mathlib.Logic.Function.Basic
import Mmvx.Lib.OrdMap
import Mmvx.Lib.Run
import Mmvx.Net.RpcCalls

namespace Mmvx.Net.Rpc

open Mmvx.Lib

inductive MessageType where
  | REQUEST
  | RESPONSE
  | ERROR
  deriving DecidableEq, Repr

inductive ErrorCode where
  | NO_ERROR
  | WRONG_PROTO
  | NO_SERVICE
  | NO_METHOD
  | INVALID_REQUEST
  | INVALID_RESPONSE
  | TIMEOUT
  deriving DecidableEq, Repr

structure RpcMessage where
  type : MessageType
  id : Nat
  service : Option (List UInt8)
  method : Option (List UInt8)
  request : Option (List UInt8)
  response : Option (List UInt8)
  error : Option ErrorCode
  deriving DecidableEq, Repr

/-- What a request asks for. -/
structure RequestBody where
  service : List UInt8
  method : List UInt8
  request : List UInt8
  deriving DecidableEq, Repr

structure ResponseBody where
  response : Option (List UInt8)
  error : Option ErrorCode
  deriving DecidableEq, Repr

def requestMessage (q : Numbered RequestBody) : RpcMessage :=
  ⟨.REQUEST, q.id, some q.body.service, some q.body.method, some q.body.request, none, none⟩

def responseMessage (r : Numbered ResponseBody) : RpcMessage :=
  ⟨.RESPONSE, r.id, none, none, none, r.body.response, r.body.error⟩

def asRequest (m : RpcMessage) : Option (Numbered RequestBody) :=
  if m.type = .REQUEST then
    some ⟨m.id, m.service.getD [], m.method.getD [], m.request.getD []⟩
  else none

def asResponse (m : RpcMessage) : Option (Numbered ResponseBody) :=
  if m.type = .RESPONSE then some ⟨m.id, m.response, m.error⟩ else none

/-- The services by name, their methods by name, and which requests they can parse. -/
abbrev Services := Option (List UInt8 → Option (List UInt8 → Option (List UInt8 → Bool)))

/-- The value of `error` in `onRpcMessage`. -/
def lookup (services_ : Services) (q : RequestBody) : ErrorCode :=
  match services_ with
  | none => .NO_SERVICE
  | some services =>
    match services q.service with
    | none => .NO_SERVICE
    | some service =>
      match service q.method with
      | none => .NO_METHOD
      | some parse => if parse q.request then .NO_ERROR else .INVALID_REQUEST

structure Channel where
  /-- The calls, in the order of `id_.incrementAndGet()`. -/
  calls : List (Call RequestBody ResponseBody)
  outstandings_ : OrdMap Nat Nat
  /-- The requests whose service has not called `doneCallback` yet. -/
  serving : List (Numbered RequestBody)
  answered : List (Numbered RequestBody × Numbered ResponseBody)

structure Peers where
  channel : Bool → Channel
  /-- What is under way to each side. -/
  link : Bool → List RpcMessage
  /-- An assertion has failed. -/
  failed : Bool

inductive RpcAction where
  | call (b : Bool) (q : RequestBody)
  | register (b : Bool) (k : Nat)
  | send (b : Bool) (k : Nat)
  | receive (b : Bool)
  /-- The service of the `j`-th request that is served answers. -/
  | done (b : Bool) (j : Nat) (response : List UInt8)
  deriving DecidableEq, Repr

namespace Peers

def init : Peers := ⟨fun _ => ⟨[], .empty, [], []⟩, fun _ => [], false⟩

def setChannel (s : Peers) (b : Bool) (c : Channel) : Peers :=
  { s with channel := Function.update s.channel b c }

/-- `codec_.send` at side `b`. -/
def transmit (s : Peers) (b : Bool) (m : RpcMessage) : Peers :=
  { s with link := Function.update s.link (!b) (s.link (!b) ++ [m]) }

/-- The next message is taken off the link of side `b`. -/
def pop (s : Peers) (b : Bool) (rest : List RpcMessage) : Peers :=
  { s with link := Function.update s.link b rest }

/-- An answer to `q` at side `b`. -/
def answer (s : Peers) (b : Bool) (q : Numbered RequestBody) (r : ResponseBody) : Peers :=
  (s.setChannel b { s.channel b with
    answered := (s.channel b).answered ++ [(q, ⟨q.id, r⟩)] }).transmit b (responseMessage ⟨q.id, r⟩)

def callMethod (s : Peers) (b : Bool) (q : RequestBody) : Peers :=
  s.setChannel b { s.channel b with
    calls := (s.channel b).calls ++ [⟨⟨Calls.number (s.channel b).calls.length, q⟩, .numbered, []⟩] }

/-- The part of `onRpcMessage` for a response. -/
def onResponse (s : Peers) (b : Bool) (m : RpcMessage) : Peers :=
  if m.response.isSome ∨ m.error.isSome then
    match (s.channel b).outstandings_.find m.id with
    | none => s
    | some k =>
      match (s.channel b).calls[k]? with
      | none => s
      | some c => s.setChannel b { s.channel b with
          outstandings_ := (s.channel b).outstandings_.erase m.id
          calls := (s.channel b).calls.set k
            { c with ran := c.ran ++ [⟨m.id, m.response, m.error⟩] } }
  else { s with failed := true }

variable (services : Bool → Services)

/-- The part of `onRpcMessage` for a request. -/
def onRequest (s : Peers) (b : Bool) (q : Numbered RequestBody) : Peers :=
  match lookup (services b) q.body with
  | .NO_ERROR => s.setChannel b { s.channel b with serving := (s.channel b).serving ++ [q] }
  | error => s.answer b q ⟨none, some error⟩

def onRpcMessage (s : Peers) (b : Bool) (m : RpcMessage) : Peers :=
  match m.type with
  | .RESPONSE => s.onResponse b m
  | .REQUEST =>
    s.onRequest services b ⟨m.id, m.service.getD [], m.method.getD [], m.request.getD []⟩
  | .ERROR => s

def step (s : Peers) : RpcAction → Option Peers
  | .call b q => some (s.callMethod b q)
  | .register b k =>
    match (s.channel b).calls[k]? with
    | some c =>
      if c.phase = .numbered then
        some (s.setChannel b { s.channel b with
          calls := (s.channel b).calls.set k { c with phase := .registered }
          outstandings_ := (s.channel b).outstandings_.insert c.request.id k })
      else none
    | none => none
  | .send b k =>
    match (s.channel b).calls[k]? with
    | some c =>
      if c.phase = .registered then
        some ((s.setChannel b { s.channel b with
          calls := (s.channel b).calls.set k { c with phase := .sent } }).transmit b
            (requestMessage c.request))
      else none
    | none => none
  | .receive b =>
    match s.link b with
    | [] => none
    | m :: rest => some ((s.pop b rest).onRpcMessage services b m)
  | .done b j response =>
    match (s.channel b).serving[j]? with
    | some q => some ((s.setChannel b { s.channel b with
        serving := (s.channel b).serving.eraseIdx j }).answer b q ⟨some response, none⟩)
    | none => none

/-- The calls of side `b`. -/
def view (s : Peers) (b : Bool) : Calls RequestBody ResponseBody where
  calls := (s.channel b).calls
  table := (s.channel b).outstandings_.find
  requests := (s.link (!b)).filterMap asRequest
  serving := (s.channel (!b)).serving
  responses := (s.link b).filterMap asResponse
  answered := (s.channel (!b)).answered

/-! ## What a step does to the calls of a side -/

variable {services} {s s' : Peers} {b c : Bool} {a : RpcAction}

@[simp] theorem not_ne (b : Bool) : (!b) ≠ b := by cases b <;> decide

@[simp] theorem ne_not (b : Bool) : b ≠ !b := by cases b <;> decide

@[simp] theorem channel_setChannel_self (s : Peers) (b : Bool) (x : Channel) :
    (s.setChannel b x).channel b = x := Function.update_self ..

@[simp] theorem channel_setChannel_not (s : Peers) (b : Bool) (x : Channel) :
    (s.setChannel b x).channel (!b) = s.channel (!b) := Function.update_of_ne (not_ne b) ..

@[simp] theorem channel_setChannel_of_not (s : Peers) (b : Bool) (x : Channel) :
    (s.setChannel (!b) x).channel b = s.channel b := Function.update_of_ne (ne_not b) ..

@[simp] theorem link_setChannel (s : Peers) (b : Bool) (x : Channel) :
    (s.setChannel b x).link = s.link := rfl

@[simp] theorem channel_transmit (s : Peers) (b : Bool) (m : RpcMessage) :
    (s.transmit b m).channel = s.channel := rfl

@[simp] theorem link_transmit_not (s : Peers) (b : Bool) (m : RpcMessage) :
    (s.transmit b m).link (!b) = s.link (!b) ++ [m] := Function.update_self ..

@[simp] theorem link_transmit_self (s : Peers) (b : Bool) (m : RpcMessage) :
    (s.transmit b m).link b = s.link b := Function.update_of_ne (ne_not b) ..

@[simp] theorem link_transmit_of_not (s : Peers) (b : Bool) (m : RpcMessage) :
    (s.transmit (!b) m).link b = s.link b ++ [m] := by
  have h := link_transmit_not s (!b) m
  rwa [Bool.not_not] at h

@[simp] theorem asRequest_requestMessage (q : Numbered RequestBody) :
    asRequest (requestMessage q) = some q := rfl

@[simp] theorem asResponse_requestMessage (q : Numbered RequestBody) :
    asResponse (requestMessage q) = none := rfl

@[simp] theorem asRequest_responseMessage (r : Numbered ResponseBody) :
    asRequest (responseMessage r) = none := rfl

@[simp] theorem asResponse_responseMessage (r : Numbered ResponseBody) :
    asResponse (responseMessage r) = some r := rfl

/-- A side is one of the two. -/
theorem eq_or_eq_not (b c : Bool) : c = b ∨ c = !b := by cases b <;> cases c <;> decide

/-- An answer of side `b` does not matter for the calls of that side. -/
theorem view_answer_self (s : Peers) (b : Bool) (q : Numbered RequestBody) (r : ResponseBody) :
    (s.answer b q r).view b = s.view b := by
  simp [view, answer]

theorem view_answer_other (s : Peers) (b : Bool) (q : Numbered RequestBody) (r : ResponseBody) :
    (s.answer b q r).view (!b) = { s.view (!b) with
      responses := (s.view (!b)).responses ++ [⟨q.id, r⟩]
      answered := (s.view (!b)).answered ++ [(q, ⟨q.id, r⟩)] } := by
  simp [view, answer]

@[simp] theorem channel_pop (s : Peers) (b : Bool) (rest : List RpcMessage) :
    (s.pop b rest).channel = s.channel := rfl

@[simp] theorem link_pop_self (s : Peers) (b : Bool) (rest : List RpcMessage) :
    (s.pop b rest).link b = rest := Function.update_self ..

@[simp] theorem link_pop_not (s : Peers) (b : Bool) (rest : List RpcMessage) :
    (s.pop b rest).link (!b) = s.link (!b) := Function.update_of_ne (not_ne b) ..

theorem view_pop_self (s : Peers) (b : Bool) (rest : List RpcMessage) :
    (s.pop b rest).view b = { s.view b with responses := rest.filterMap asResponse } := by
  simp [view]

theorem view_pop_other (s : Peers) (b : Bool) (rest : List RpcMessage) :
    (s.pop b rest).view (!b) = { s.view (!b) with requests := rest.filterMap asRequest } := by
  simp [view]

/-- A request is served or refused. -/
theorem onRequest_cases (services : Bool → Services) (s : Peers) (b : Bool)
    (q : Numbered RequestBody) :
    (lookup (services b) q.body = .NO_ERROR ∧ s.onRequest services b q =
      s.setChannel b { s.channel b with serving := (s.channel b).serving ++ [q] }) ∨
    (lookup (services b) q.body ≠ .NO_ERROR ∧ s.onRequest services b q =
      s.answer b q ⟨none, some (lookup (services b) q.body)⟩) := by
  unfold onRequest
  split
  · exact .inl ⟨‹_›, rfl⟩
  · exact .inr ⟨‹_›, rfl⟩

theorem view_onRequest_self (s : Peers) (b : Bool) (q : Numbered RequestBody) :
    (s.onRequest services b q).view b = s.view b := by
  rcases onRequest_cases services s b q with ⟨-, heq⟩ | ⟨-, heq⟩
  · rw [heq]
    simp [view]
  · rw [heq]
    exact view_answer_self s b q _

theorem view_onResponse_other (s : Peers) (b : Bool) (m : RpcMessage) :
    (s.onResponse b m).view (!b) = s.view (!b) := by
  unfold onResponse
  split
  · split
    · rfl
    · split
      · rfl
      · simp [view]
  · rfl

theorem find_erase_eq (m : OrdMap Nat Nat) (k : Nat) :
    (m.erase k).find = fun i => if i = k then none else m.find i := by
  funext i
  exact OrdMap.find_erase m k i

theorem find_insert_eq (m : OrdMap Nat Nat) (k j : Nat) :
    (m.insert k j).find = fun i => if i = k then some j else m.find i := by
  funext i
  exact OrdMap.find_insert m k i j

theorem onResponse_deliver {m : RpcMessage} {k : Nat} {c : Call RequestBody ResponseBody}
    (hm : m.response.isSome ∨ m.error.isSome) (hfind : (s.channel b).outstandings_.find m.id = some k)
    (hk : (s.channel b).calls[k]? = some c) :
    s.onResponse b m = s.setChannel b { s.channel b with
      outstandings_ := (s.channel b).outstandings_.erase m.id
      calls := (s.channel b).calls.set k
        { c with ran := c.ran ++ [⟨m.id, m.response, m.error⟩] } } := by
  unfold onResponse
  rw [if_pos hm, hfind]
  dsimp only
  rw [hk]

/-- A message to side `b`, and the calls of that side. -/
theorem receive_self {m : RpcMessage} {rest : List RpcMessage} (h : (s.view b).Good)
    (hlink : s.link b = m :: rest)
    (hm : m.type = .RESPONSE → m.response.isSome ∨ m.error.isSome) :
    (s.view b).Moves (((s.pop b rest).onRpcMessage services b m).view b) ∨
      ((s.pop b rest).onRpcMessage services b m).view b = s.view b := by
  have hresponses : (s.view b).responses = (m :: rest).filterMap asResponse := by
    rw [← hlink]
    rfl
  unfold onRpcMessage
  cases htype : m.type with
  | REQUEST =>
    right
    rw [List.filterMap_cons_none (by simp [asResponse, htype])] at hresponses
    rw [view_onRequest_self, view_pop_self, ← hresponses]
  | ERROR =>
    right
    rw [List.filterMap_cons_none (by simp [asResponse, htype])] at hresponses
    rw [view_pop_self, ← hresponses]
  | RESPONSE =>
    left
    rw [List.filterMap_cons_some (b := ⟨m.id, m.response, m.error⟩)
      (by simp [asResponse, htype])] at hresponses
    obtain ⟨k, c, hk, -, -, -, hfind, -⟩ := h.waiting (by rw [hresponses]; exact List.mem_cons_self)
    dsimp only
    rw [onResponse_deliver (s := s.pop b rest) (hm htype) hfind hk]
    have hview : ((s.pop b rest).setChannel b { s.channel b with
        outstandings_ := (s.channel b).outstandings_.erase m.id
        calls := (s.channel b).calls.set k
          { c with ran := c.ran ++ [⟨m.id, m.response, m.error⟩] } }).view b =
        { s.view b with
          responses := rest.filterMap asResponse
          table := fun i => if i = m.id then none else (s.view b).table i
          calls := (s.view b).calls.set k
            { c with ran := c.ran ++ [⟨m.id, m.response, m.error⟩] } } := by
      simp [view, find_erase_eq]
    exact hview ▸ .deliver hresponses hfind hk

/-- A message to side `b`, and the calls of the other side. -/
theorem receive_other (services : Bool → Services) {m : RpcMessage} {rest : List RpcMessage}
    (hlink : s.link b = m :: rest) :
    (s.view (!b)).Moves (((s.pop b rest).onRpcMessage services b m).view (!b)) ∨
      ((s.pop b rest).onRpcMessage services b m).view (!b) = s.view (!b) := by
  have hrequests : (s.view (!b)).requests = (m :: rest).filterMap asRequest := by
    rw [← hlink]
    simp [view]
  unfold onRpcMessage
  cases htype : m.type with
  | RESPONSE =>
    right
    rw [List.filterMap_cons_none (by simp [asRequest, htype])] at hrequests
    dsimp only
    rw [view_onResponse_other, view_pop_other, ← hrequests]
  | ERROR =>
    right
    rw [List.filterMap_cons_none (by simp [asRequest, htype])] at hrequests
    rw [view_pop_other, ← hrequests]
  | REQUEST =>
    left
    obtain ⟨q, hq⟩ : ∃ q : Numbered RequestBody,
        q = ⟨m.id, m.service.getD [], m.method.getD [], m.request.getD []⟩ := ⟨_, rfl⟩
    rw [List.filterMap_cons_some (b := q) (by simp [asRequest, htype, hq])] at hrequests
    dsimp only
    rw [← hq]
    rcases onRequest_cases services (s.pop b rest) b q with ⟨-, heq⟩ | ⟨-, heq⟩
    · rw [heq]
      have hview : ((s.pop b rest).setChannel b { (s.pop b rest).channel b with
          serving := ((s.pop b rest).channel b).serving ++ [q] }).view (!b) =
          { s.view (!b) with
            requests := rest.filterMap asRequest
            serving := (s.view (!b)).serving ++ [q] } := by
        simp [view]
      exact hview ▸ .serve hrequests
    · rw [heq, view_answer_other, view_pop_other]
      exact .refuse hrequests _

/-- A response at the head of the link. -/
theorem fine_head {m : RpcMessage} {rest : List RpcMessage} (hlink : s.link b = m :: rest)
    (htype : m.type = .RESPONSE)
    (hfine : ∀ r ∈ (s.view b).responses, r.body.response.isSome ∨ r.body.error.isSome) :
    m.response.isSome ∨ m.error.isSome := by
  have hmem : (⟨m.id, m.response, m.error⟩ : Numbered ResponseBody) ∈ (s.view b).responses := by
    simp only [view, hlink]
    rw [List.filterMap_cons_some (b := ⟨m.id, m.response, m.error⟩) (by simp [asResponse, htype])]
    exact List.mem_cons_self
  exact hfine _ hmem

/-- **Each side's calls are one run of the protocol**: a step of the system is a step of the calls of
    a side, or does not matter for them. -/
theorem step_view (h : (s.view b).Good)
    (hfine : ∀ r ∈ (s.view b).responses, r.body.response.isSome ∨ r.body.error.isSome)
    (hs : s.step services a = some s') :
    (s.view b).Moves (s'.view b) ∨ s'.view b = s.view b := by
  cases a with
  | call c q =>
    obtain rfl := Option.some.inj hs
    rcases eq_or_eq_not b c with rfl | rfl
    · left
      have hview : (s.callMethod c q).view c = { s.view c with
          calls := (s.view c).calls ++
            [⟨⟨Calls.number (s.view c).calls.length, q⟩, .numbered, []⟩] } := by
        simp [view, callMethod]
      exact hview ▸ .call q
    · right
      simp [view, callMethod]
  | register c k =>
    dsimp only [step] at hs
    split at hs
    · rename_i x hk
      split at hs
      · rename_i hphase
        obtain rfl := Option.some.inj hs
        rcases eq_or_eq_not b c with rfl | rfl
        · left
          have hview : (s.setChannel c { s.channel c with
              calls := (s.channel c).calls.set k { x with phase := .registered }
              outstandings_ := (s.channel c).outstandings_.insert x.request.id k }).view c =
              { s.view c with
                calls := (s.view c).calls.set k { x with phase := .registered }
                table := fun i => if i = x.request.id then some k else (s.view c).table i } := by
            simp [view, find_insert_eq]
          exact hview ▸ .register hk hphase
        · right
          simp [view]
      · cases hs
    · cases hs
  | send c k =>
    dsimp only [step] at hs
    split at hs
    · rename_i x hk
      split at hs
      · rename_i hphase
        obtain rfl := Option.some.inj hs
        rcases eq_or_eq_not b c with rfl | rfl
        · left
          have hview : ((s.setChannel c { s.channel c with
              calls := (s.channel c).calls.set k { x with phase := .sent } }).transmit c
                (requestMessage x.request)).view c =
              { s.view c with
                calls := (s.view c).calls.set k { x with phase := .sent }
                requests := (s.view c).requests ++ [x.request] } := by
            simp [view]
          exact hview ▸ .send hk hphase
        · right
          simp [view]
      · cases hs
    · cases hs
  | receive c =>
    dsimp only [step] at hs
    split at hs
    · cases hs
    · rename_i m rest hlink
      obtain rfl := Option.some.inj hs
      rcases eq_or_eq_not b c with rfl | rfl
      · exact receive_self h hlink fun htype => fine_head hlink htype hfine
      · have hother := receive_other services hlink
        rw [Bool.not_not] at hother
        exact hother
  | done c j response =>
    dsimp only [step] at hs
    split at hs
    · rename_i q hj
      obtain rfl := Option.some.inj hs
      rcases eq_or_eq_not b c with rfl | rfl
      · right
        rw [view_answer_self]
        simp [view]
      · left
        have hanswer := view_answer_other (s.setChannel (!b) { s.channel (!b) with
          serving := (s.channel (!b)).serving.eraseIdx j }) (!b) q ⟨some response, none⟩
        rw [Bool.not_not] at hanswer
        have hview : (s.setChannel (!b) { s.channel (!b) with
            serving := (s.channel (!b)).serving.eraseIdx j }).view b =
            { s.view b with serving := (s.view b).serving.eraseIdx j } := by
          simp [view]
        rw [hanswer, hview]
        exact .done hj _
    · cases hs

/-! ## Runs -/

/-- A request that can be served gets the answer of its service, another one its error. -/
def Proper (services_ : Services) (q : RequestBody) (r : ResponseBody) : Prop :=
  if lookup services_ q = .NO_ERROR then ∃ response, r = ⟨some response, none⟩
  else r = ⟨none, some (lookup services_ q)⟩

theorem Proper.some {services_ : Services} {q : RequestBody} {r : ResponseBody}
    (h : Proper services_ q r) : r.response.isSome ∨ r.error.isSome := by
  unfold Proper at h
  split at h
  · obtain ⟨response, rfl⟩ := h
    exact .inl rfl
  · rw [h]
    exact .inr rfl

/-- What is served and what has been answered at each side. -/
structure Honest (services : Bool → Services) (s : Peers) : Prop where
  serving : ∀ b, ∀ q ∈ (s.channel b).serving, lookup (services b) q.body = .NO_ERROR
  answered : ∀ b, ∀ x ∈ (s.channel b).answered, Proper (services b) x.1.body x.2.body
  asserts : s.failed = false

theorem Honest.setChannel (h : Honest services s) {x : Channel}
    (hserving : ∀ q ∈ x.serving, lookup (services b) q.body = .NO_ERROR)
    (hanswered : ∀ y ∈ x.answered, Proper (services b) y.1.body y.2.body) :
    Honest services (s.setChannel b x) where
  serving c := by
    rcases eq_or_eq_not b c with rfl | rfl
    · rwa [channel_setChannel_self]
    · rw [channel_setChannel_not]
      exact h.serving _
  answered c := by
    rcases eq_or_eq_not b c with rfl | rfl
    · rwa [channel_setChannel_self]
    · rw [channel_setChannel_not]
      exact h.answered _
  asserts := h.asserts

theorem Honest.link {l : Bool → List RpcMessage} (h : Honest services s) :
    Honest services { s with link := l } :=
  ⟨h.serving, h.answered, h.asserts⟩

theorem Honest.answer (h : Honest services s) {q : Numbered RequestBody} {r : ResponseBody}
    (hr : Proper (services b) q.body r) : Honest services (s.answer b q r) := by
  refine Honest.link (h.setChannel (h.serving b) ?_)
  intro y hy
  rcases List.mem_append.mp hy with hold | hnew
  · exact h.answered b y hold
  · obtain rfl := List.mem_singleton.mp hnew
    exact hr

theorem Honest.onRequest (h : Honest services s) (q : Numbered RequestBody) :
    Honest services (s.onRequest services b q) := by
  rcases onRequest_cases services s b q with ⟨hlookup, heq⟩ | ⟨hlookup, heq⟩
  · rw [heq]
    refine h.setChannel ?_ (h.answered b)
    intro q' hq'
    rcases List.mem_append.mp hq' with hold | hnew
    · exact h.serving b q' hold
    · obtain rfl := List.mem_singleton.mp hnew
      exact hlookup
  · rw [heq]
    exact h.answer (by rw [Proper, if_neg hlookup])

theorem Honest.onResponse (h : Honest services s) {m : RpcMessage}
    (hm : m.response.isSome ∨ m.error.isSome) : Honest services (s.onResponse b m) := by
  unfold Peers.onResponse
  rw [if_pos hm]
  split
  · exact h
  · split
    · exact h
    · exact h.setChannel (h.serving b) (h.answered b)

theorem Honest.step (h : Honest services s)
    (hfine : ∀ b, ∀ r ∈ (s.view b).responses, r.body.response.isSome ∨ r.body.error.isSome)
    (hs : s.step services a = some s') : Honest services s' := by
  cases a with
  | call c q =>
    obtain rfl := Option.some.inj hs
    exact h.setChannel (h.serving c) (h.answered c)
  | register c k =>
    dsimp only [Peers.step] at hs
    split at hs
    · split at hs
      · obtain rfl := Option.some.inj hs
        exact h.setChannel (h.serving c) (h.answered c)
      · cases hs
    · cases hs
  | send c k =>
    dsimp only [Peers.step] at hs
    split at hs
    · rename_i x _
      split at hs
      · obtain rfl := Option.some.inj hs
        have hset : Honest services (s.setChannel c { s.channel c with
            calls := (s.channel c).calls.set k { x with phase := .sent } }) :=
          h.setChannel (h.serving c) (h.answered c)
        exact hset.link
      · cases hs
    · cases hs
  | receive c =>
    dsimp only [Peers.step] at hs
    split at hs
    · cases hs
    · rename_i m rest hlink
      obtain rfl := Option.some.inj hs
      have hpop : Honest services (s.pop c rest) := h.link
      unfold onRpcMessage
      cases htype : m.type with
      | REQUEST => exact hpop.onRequest _
      | ERROR => exact hpop
      | RESPONSE => exact hpop.onResponse (fine_head hlink htype (hfine c))
  | done c j response =>
    dsimp only [Peers.step] at hs
    split at hs
    · rename_i q hj
      obtain rfl := Option.some.inj hs
      have hlookup := h.serving c q (List.mem_of_getElem? hj)
      have hrest : Honest services (s.setChannel c { s.channel c with
          serving := (s.channel c).serving.eraseIdx j }) :=
        h.setChannel (fun q' hq' => h.serving c q' (List.mem_of_mem_eraseIdx hq')) (h.answered c)
      exact hrest.answer (by rw [Proper, if_pos hlookup]; exact ⟨response, rfl⟩)
    · cases hs

structure Sound (services : Bool → Services) (s : Peers) : Prop where
  calls : ∀ b, (s.view b).Good
  honest : Honest services s

theorem sound_init : Sound services init where
  calls _ := Calls.good_init
  honest := ⟨by simp [init], by simp [init], rfl⟩

theorem Sound.fine (h : Sound services s) (b : Bool) :
    ∀ r ∈ (s.view b).responses, r.body.response.isSome ∨ r.body.error.isSome := by
  intro r hr
  obtain ⟨k, c, -, -, hans⟩ := (h.calls b).responses r hr
  exact (h.honest.answered (!b) _ hans).some

theorem Sound.step (h : Sound services s)
    (hlen : ∀ b, (s.channel b).calls.length < 18446744073709551616)
    (hs : s.step services a = some s') : Sound services s' where
  calls b := by
    rcases step_view (h.calls b) (h.fine b) hs with hm | heq
    · exact (h.calls b).moves (hlen b) hm
    · rw [heq]
      exact h.calls b
  honest := h.honest.step h.fine hs

/-- **Calls are answered exactly once.** In every interleaving of the calls, messages and services of
    the two sides, while neither side has made 2^64 calls, no assertion fails; the closure of a call
    runs at most once, and not before the request is sent; it runs with the answer to that request,
    which is its service's or says why there is none; and when nothing is under way and nothing is
    being served, every call that was sent has been answered. -/
theorem rpc_exactly_once (services : Bool → Services) (s : Peers)
    (h : Reaches (step services)
      (fun s _ => ∀ b, (s.channel b).calls.length < 18446744073709551616) init s) :
    s.failed = false ∧ ∀ (b : Bool) (k : Nat) (c : _), (s.channel b).calls[k]? = some c →
      c.ran.length ≤ 1 ∧ (c.phase ≠ .sent → c.ran = []) ∧
      (∀ r ∈ c.ran, (c.request, r) ∈ (s.channel (!b)).answered ∧
        Proper (services (!b)) c.request.body r.body) ∧
      (c.phase = .sent → s.link b = [] → s.link (!b) = [] → (s.channel (!b)).serving = [] →
        c.ran.length = 1) := by
  have hsound : Sound services s := by
    refine h.invariant sound_init ?_
    intro s a s' hs hlen hstep
    exact hs.step hlen hstep
  refine ⟨hsound.honest.asserts, ?_⟩
  intro b k c hk
  have hgood := hsound.calls b
  have htokens := hgood.tokens k c hk
  refine ⟨?_, ?_, ?_, ?_⟩
  · split at htokens <;> omega
  · intro hphase
    rw [if_neg hphase] at htokens
    exact List.eq_nil_of_length_eq_zero (by omega)
  · intro r hr
    have hans := hgood.ran k c hk r hr
    exact ⟨hans, hsound.honest.answered (!b) _ hans⟩
  · intro hphase hlink hlink' hserving
    have hnone : (s.view b).tokens c.request.id = 0 := by
      simp [Calls.tokens, view, hlink, hlink', hserving]
    rw [if_pos hphase] at htokens
    omega

/-- Both sides call; one call is refused, the other served. -/
theorem rpc_exactly_once_two : ∃ s,
    Reaches (step fun b => if b then some fun _ => some fun _ => some fun _ => true else none)
      (fun s _ => ∀ b, (s.channel b).calls.length < 18446744073709551616) init s ∧
    (s.channel false).calls.map (·.ran.length) = [1] ∧
    (s.channel true).calls.map (·.ran.length) = [1] ∧ s.failed = false := by
  obtain ⟨s, hs, hleft, hright⟩ : ∃ s,
      Reaches (step fun b => if b then some fun _ => some fun _ => some fun _ => true else none)
        (fun s _ => ∀ b, (s.channel b).calls.length < 18446744073709551616) init s ∧
      (s.channel false).calls.map (·.ran.length) = [1] ∧
      (s.channel true).calls.map (·.ran.length) = [1] :=
    exists_reaches [.call false ⟨[1], [2], [3]⟩, .call true ⟨[4], [5], [6]⟩, .register true 0,
      .register false 0, .send false 0, .send true 0, .receive true, .receive false,
      .done true 0 [7], .receive true, .receive false] (by decide +kernel)
  exact ⟨s, hs, hleft, hright, (rpc_exactly_once _ s hs).1⟩

end Peers

end Mmvx.Net.Rpc
