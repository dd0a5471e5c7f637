/-
  Connections of an HTTP server (muduo/net/http/HttpServer.cc, HttpResponse.{h,cc}).

  A connection is its state, its context, its input buffer, and what has been sent on it. Each call
  of `onMessage` brings some more bytes of the stream; it serves at most one request. So the
  requests served are the first ones of the stream, however it is cut, and each call catches up by
  one (`http_segmentation`); a client that waits for its answers is served at once
  (`http_round_trip`). An answer can close the connection: the requests after it are served, but
  their answers are not sent any more (`texts`).

  A line that is refused stays in the buffer and is parsed again with the next bytes. If its method
  was accepted before, the assertion of `setMethod` then fails (`http_aborts_iff`).
-/
import Mmvx.Base.Timestamp
import Mmvx.Net.HttpStream
import Mmvx.Net.TcpConnection

namespace Mmvx.Net.Http

open Mmvx.Lib Mmvx.Base

structure HttpResponse where
  headers_ : OrdMap (List UInt8) (List UInt8)
  statusCode_ : Int
  statusMessage_ : List UInt8
  closeConnection_ : Bool
  body_ : List UInt8

def HttpResponse.new (close : Bool) : HttpResponse := ⟨.empty, 0, [], close, []⟩

def HttpResponse.appendToBuffer (response : HttpResponse) : List UInt8 :=
  snprintf 32 (ascii "HTTP/1.1 " ++ decimal response.statusCode_ ++ ascii " ") ++
    response.statusMessage_ ++ ascii "\r\n" ++
    (if response.closeConnection_ then ascii "Connection: close\r\n"
      else snprintf 32 (ascii "Content-Length: " ++ decimal response.body_.length ++ ascii "\r\n") ++
        ascii "Connection: Keep-Alive\r\n") ++
    response.headers_.entries.flatMap (fun h => h.1 ++ ascii ": " ++ h.2 ++ ascii "\r\n") ++
    ascii "\r\n" ++ response.body_

def defaultHttpCallback (_ : HttpRequest) (resp : HttpResponse) : HttpResponse :=
  { resp with statusCode_ := 404, statusMessage_ := ascii "Not Found", closeConnection_ := true }

/-- What a handler sends, and whether it then shuts the connection down. -/
structure Reply where
  text : List UInt8
  close : Bool
  deriving DecidableEq, Repr

structure HttpConnection where
  state_ : StateE
  context : HttpContext
  inputBuffer : List UInt8
  /-- The requests that `httpCallback_` has been called with, and how often a line was refused. -/
  served : List HttpRequest
  refusals : Nat
  /-- What `send` has accepted. -/
  sent : List (List UInt8)

inductive Outcome where
  | aborts
  | hangs
  | ok (conn : HttpConnection)

namespace HttpConnection

/-- `onConnection`. -/
def new : HttpConnection := ⟨.kConnected, .new, [], [], 0, []⟩

/-- `TcpConnection::send`. -/
def send (message : List UInt8) (conn : HttpConnection) : HttpConnection :=
  if conn.state_ = .kConnected then { conn with sent := conn.sent ++ [message] } else conn

/-- `TcpConnection::shutdown`. -/
def shutdown (conn : HttpConnection) : HttpConnection :=
  if conn.state_ = .kConnected then { conn with state_ := .kDisconnecting } else conn

def reply (r : Reply) (conn : HttpConnection) : HttpConnection :=
  if r.close then (conn.send r.text).shutdown else conn.send r.text

end HttpConnection

def badRequest : Reply := ⟨ascii "HTTP/1.1 400 Bad Request\r\n\r\n", true⟩

section

variable (httpCallback_ : HttpRequest → HttpResponse → HttpResponse)

/-- The response of `onRequest`. -/
def answer (req : HttpRequest) : Reply :=
  let connection := req.getHeader (ascii "Connection")
  let close := connection = ascii "close" ∨
    (req.version_ = .kHttp10 ∧ connection ≠ ascii "Keep-Alive")
  let response := httpCallback_ req (.new (decide close))
  ⟨response.appendToBuffer, response.closeConnection_⟩

def onRequest (req : HttpRequest) (conn : HttpConnection) : HttpConnection :=
  { conn.reply (answer httpCallback_ req) with served := conn.served ++ [req] }

/-- The first half of `onMessage`, after the call of `parseRequest`. -/
def afterParse (ok : Bool) (context : HttpContext) (buf : List UInt8) (conn : HttpConnection) :
    HttpConnection :=
  let conn := { conn with context := context, inputBuffer := buf }
  if ok then conn else { conn.reply badRequest with refusals := conn.refusals + 1 }

/-- The second half of `onMessage`. -/
def serve (conn : HttpConnection) : HttpConnection :=
  if conn.context.state_ = .kGotAll then
    { onRequest httpCallback_ conn.context.request_ conn with context := conn.context.reset }
  else conn

/-- `onMessage` with the bytes that were received and the time of their receipt. -/
def onMessage (msg : List UInt8 × Int) (conn : HttpConnection) : Outcome :=
  match parseRequest msg.2 conn.context (conn.inputBuffer ++ msg.1) with
  | .aborts => .aborts
  | .hangs => .hangs
  | .returns ok context buf => .ok (serve httpCallback_ (afterParse ok context buf conn))

def onMessages : List (List UInt8 × Int) → HttpConnection → Outcome
  | [], conn => .ok conn
  | msg :: msgs, conn =>
    match onMessage httpCallback_ msg conn with
    | .ok conn' => onMessages msgs conn'
    | .aborts => .aborts
    | .hangs => .hangs

end

theorem onMessages_append (cb : HttpRequest → HttpResponse → HttpResponse)
    (msgs msgs' : List (List UInt8 × Int)) (conn : HttpConnection) :
    onMessages cb (msgs ++ msgs') conn =
      match onMessages cb msgs conn with
      | .ok conn' => onMessages cb msgs' conn'
      | .aborts => .aborts
      | .hangs => .hangs := by
  induction msgs generalizing conn with
  | nil => rfl
  | cons msg msgs ih =>
    rw [List.cons_append, onMessages, onMessages]
    cases onMessage cb msg conn with
    | ok conn' => exact ih conn'
    | aborts => rfl
    | hangs => rfl

/-- The bytes of the messages. -/
def stream (msgs : List (List UInt8 × Int)) : List UInt8 := msgs.flatMap Prod.fst

/-! ## What is sent -/

/-- The texts of replies that are made one after the other. Nothing is sent after the first one that
    closes the connection. -/
def texts : List Reply → List (List UInt8)
  | [] => []
  | r :: rs => r.text :: if r.close then [] else texts rs

theorem texts_concat (rs : List Reply) (r : Reply) :
    texts (rs ++ [r]) = if rs.any (·.close) then texts rs else texts rs ++ [r.text] := by
  induction rs with
  | nil => cases hclose : r.close <;> simp [texts, hclose]
  | cons r' rs ih =>
    rw [List.cons_append, texts, texts, List.any_cons, ih]
    cases r'.close <;> cases rs.any (·.close) <;> simp

/-- If at most the last reply closes the connection, everything is sent. -/
theorem texts_eq_map {rs : List Reply} (h : ∀ r ∈ rs.dropLast, r.close = false) :
    texts rs = rs.map (·.text) := by
  induction rs with
  | nil => rfl
  | cons r rs ih =>
    rw [texts, List.map_cons]
    cases rs with
    | nil => simp [texts]
    | cons r' rs =>
      rw [List.dropLast_cons_cons] at h
      rw [h r List.mem_cons_self, if_neg (by simp)]
      rw [ih fun r'' hr'' => h r'' (List.mem_cons_of_mem r hr'')]

namespace HttpConnection

/-- The connection has made these replies. -/
structure Replied (rs : List Reply) (conn : HttpConnection) : Prop where
  state : conn.state_ = if rs.any (·.close) then .kDisconnecting else .kConnected
  sent : conn.sent = texts rs

theorem Replied.congr {rs : List Reply} {conn conn' : HttpConnection} (h : conn.Replied rs)
    (hstate : conn'.state_ = conn.state_) (hsent : conn'.sent = conn.sent) : conn'.Replied rs :=
  ⟨hstate.trans h.state, hsent.trans h.sent⟩

theorem Replied.connected_iff {rs : List Reply} {conn : HttpConnection} (h : conn.Replied rs) :
    conn.state_ = .kConnected ↔ ∀ r ∈ rs, r.close = false := by
  rw [h.state]
  split
  · rename_i hany
    obtain ⟨r, hr, hclose⟩ := List.any_eq_true.mp hany
    refine iff_of_false (by decide) fun hopen => ?_
    rw [hopen r hr] at hclose
    cases hclose
  · rename_i hany
    refine iff_of_true rfl fun r hr => Bool.eq_false_iff.mpr fun hclose => ?_
    exact hany (List.any_eq_true.mpr ⟨r, hr, hclose⟩)

theorem Replied.reply {rs : List Reply} {conn : HttpConnection} (h : conn.Replied rs) (r : Reply) :
    (conn.reply r).Replied (rs ++ [r]) := by
  obtain ⟨hstate, hsent⟩ := h
  cases hclosed : rs.any (·.close) with
  | true =>
    rw [hclosed, if_pos rfl] at hstate
    have hsame : conn.reply r = conn := by simp [HttpConnection.reply, send, shutdown, hstate]
    rw [hsame]
    refine ⟨?_, ?_⟩
    · rw [hstate, List.any_append, hclosed, Bool.true_or, if_pos rfl]
    · rw [hsent, texts_concat, if_pos hclosed]
  | false =>
    rw [hclosed, if_neg (by simp)] at hstate
    have hreply : conn.reply r = { conn with
        state_ := if r.close then .kDisconnecting else .kConnected
        sent := conn.sent ++ [r.text] } := by
      cases hclose : r.close <;> simp [HttpConnection.reply, send, shutdown, hstate, hclose]
    rw [hreply]
    refine ⟨?_, ?_⟩
    · rw [List.any_append, hclosed, Bool.false_or]
      simp
    · rw [texts_concat, hclosed, if_neg Bool.false_ne_true, ← hsent]

section

variable (r : Reply) (conn : HttpConnection)

/-- A reply leaves the rest as it is. -/
theorem reply_eq : conn.reply r = { conn with
    state_ := (conn.reply r).state_
    sent := (conn.reply r).sent } := by
  unfold reply shutdown send
  split <;> split <;> rfl

@[simp] theorem context_reply : (conn.reply r).context = conn.context :=
  congrArg (·.context) (reply_eq r conn)

@[simp] theorem inputBuffer_reply : (conn.reply r).inputBuffer = conn.inputBuffer :=
  congrArg (·.inputBuffer) (reply_eq r conn)

@[simp] theorem served_reply : (conn.reply r).served = conn.served :=
  congrArg (·.served) (reply_eq r conn)

@[simp] theorem refusals_reply : (conn.reply r).refusals = conn.refusals :=
  congrArg (·.refusals) (reply_eq r conn)

end

end HttpConnection

/-- The answers to the requests that were served, and those to a line that was refused. -/
def replies (httpCallback_ : HttpRequest → HttpResponse → HttpResponse) (conn : HttpConnection) :
    List Reply :=
  conn.served.map (answer httpCallback_) ++ List.replicate conn.refusals badRequest

/-! ## A line that is refused -/

/-- The method of the line is accepted. -/
def Started (line : List UInt8) : Prop :=
  32 ∈ line ∧ HttpRequest.methodOf (line.takeWhile (· ≠ 32)) ≠ .kInvalid

instance (line : List UInt8) : Decidable (Started line) := inferInstanceAs (Decidable (_ ∧ _))

theorem method_setTarget (target : List UInt8) (request : HttpRequest) :
    (request.setTarget target).method_ = request.method_ := by
  unfold HttpRequest.setTarget
  split <;> rfl

theorem method_setVersion (version : List UInt8) (request : HttpRequest) :
    (request.setVersion version).2.method_ = request.method_ := by
  unfold HttpRequest.setVersion
  split
  · split
    · rfl
    · split <;> rfl
  · rfl

theorem started_iff {line : List UInt8} {b : UInt8} {rest : List UInt8}
    (h : line.dropWhile (· ≠ 32) = b :: rest) :
    Started line ↔ HttpRequest.methodOf (line.takeWhile (· ≠ 32)) ≠ .kInvalid := by
  refine and_iff_right ?_
  by_contra hno
  rw [dropWhile_no_sep hno] at h
  cases h

theorem not_started {line : List UInt8} (h : line.dropWhile (· ≠ 32) = []) : ¬ Started line := by
  rintro ⟨hmem, -⟩
  have hno := (List.dropWhile_eq_nil_iff.mp h) 32 hmem
  simp at hno

/-- The method stays set. -/
theorem method_processRequestLine {line : List UInt8} {ok : Bool} {req : HttpRequest}
    (h : processRequestLine line .new = some (ok, req)) :
    req.method_ ≠ .kInvalid ↔ Started line := by
  unfold processRequestLine at h
  split at h
  · rename_i hno
    cases h
    exact iff_of_false (fun hm => hm rfl) (not_started hno)
  · rename_i b rest hspace
    rw [started_iff hspace]
    rw [if_neg (by simp [HttpRequest.new])] at h
    dsimp only at h
    split at h
    · cases h
      rfl
    · split at h
      · cases h
        rfl
      · have hreq : _ = req := congrArg Prod.snd (Option.some.inj h)
        rw [← hreq, method_setVersion, method_setTarget]

/-- A line that was refused is refused again, or aborts. -/
theorem processRequestLine_again {line : List UInt8} {request : HttpRequest}
    (hm : request.method_ ≠ .kInvalid ↔ Started line) :
    processRequestLine line request = if Started line then none else some (false, request) := by
  unfold processRequestLine
  split
  · rename_i hno
    rw [if_neg (not_started hno)]
  · rename_i b rest hspace
    by_cases hstarted : Started line
    · rw [if_pos hstarted, if_pos (hm.mpr hstarted)]
    · have hinvalid : request.method_ = .kInvalid := by
        by_contra hne
        exact hstarted (hm.mp hne)
      have htoken : HttpRequest.methodOf (line.takeWhile (· ≠ 32)) = .kInvalid := by
        by_contra hne
        exact hstarted ((started_iff hspace).mpr hne)
      rw [if_neg hstarted, if_neg (not_not.mpr hinvalid), htoken]
      dsimp only
      rw [if_pos rfl, ← hinvalid]

/-! ## A connection and its stream -/

/-- The connection is in the middle of a request whose bytes so far are `z`. -/
structure Open (z : List UInt8) (conn : HttpConnection) : Prop where
  none : conn.refusals = 0
  live : conn.context.Live
  resume : ∀ y p, Parses 0 conn.context.erase (conn.inputBuffer ++ y) p → Parses 0 .new (z ++ y) p

/-- The connection is at a request line that it has refused. -/
structure Stuck (z : List UInt8) (conn : HttpConnection) : Prop where
  some : 0 < conn.refusals
  buffer : z = conn.inputBuffer
  line : conn.context.state_ = .kExpectRequestLine
  refused : ∃ line rest request, findCRLF conn.inputBuffer = Option.some (line, rest) ∧
    processRequestLine line .new = Option.some (false, request) ∧
    (conn.context.request_.method_ ≠ .kInvalid ↔ Started line)

/-- What a connection has made of the stream `x`. -/
structure Reads (httpCallback_ : HttpRequest → HttpResponse → HttpResponse) (x : List UInt8)
    (conn : HttpConnection) (z : List UInt8) : Prop where
  order : ∀ y, requests (x ++ y) = conn.served.map (·.content) ++ requests (z ++ y)
  left : ∀ y, framing.rest (x ++ y) = framing.rest (z ++ y)
  replied : conn.Replied (replies httpCallback_ conn)
  phase : Open z conn ∨ Stuck z conn

variable {cb : HttpRequest → HttpResponse → HttpResponse} {x z : List UInt8}
  {conn conn' : HttpConnection} {msg : List UInt8 × Int}

theorem reads_new : Reads cb [] .new [] where
  order _ := rfl
  left _ := rfl
  replied := ⟨rfl, rfl⟩
  phase := .inl ⟨rfl, .inl rfl, fun _ _ h => h⟩

/-- The call wants more. -/
theorem Open.wants {c : HttpContext} {buf : List UInt8} (h : Open z conn)
    (hp : Parses msg.2 conn.context (conn.inputBuffer ++ msg.1) (.returns true c buf))
    (hc : c.Live) : Open (z ++ msg.1) { conn with context := c, inputBuffer := buf } where
  none := h.none
  live := hc
  resume y p h' := by
    have hall := hp.erase.resume (live_erase.mpr hc) h'
    rw [List.append_assoc] at hall ⊢
    exact h.resume _ _ hall

theorem serve_all {c : HttpContext} (hs : c.state_ = .kGotAll) (buf : List UInt8)
    (conn : HttpConnection) : serve cb (afterParse true c buf conn) =
      { onRequest cb c.request_ { conn with context := c, inputBuffer := buf } with
        context := c.reset } :=
  if_pos hs

/-- The call has a whole request. -/
theorem Reads.all {c : HttpContext} {buf : List UInt8} (h : Reads cb x conn z) (ho : Open z conn)
    (hp : Parses msg.2 conn.context (conn.inputBuffer ++ msg.1) (.returns true c buf))
    (hs : c.state_ = .kGotAll) :
    Reads cb (x ++ msg.1) (serve cb (afterParse true c buf conn)) buf := by
  have hdone : ∀ c' buf', Parse.returns true c.erase buf = .returns true c' buf' → ¬ c'.Live := by
    rintro c' _ ⟨⟩ hc
    exact not_gotAll hc hs
  have hspec (y : List UInt8) :
      Parses 0 .new (z ++ msg.1 ++ y) (.returns true c.erase (buf ++ y)) := by
    have hall := hp.erase.append hdone y
    rw [List.append_assoc] at hall ⊢
    exact ho.resume _ _ hall
  have hrequest : c.erase.request_ = c.request_.content := by
    rw [erase_other (by rw [hs]; decide)]
  rw [serve_all hs]
  refine ⟨?_, ?_, ?_, .inl ⟨?_, .inl rfl, ?_⟩⟩
  · intro y
    rw [List.append_assoc, h.order, ← List.append_assoc, requests_all (hspec y) hs, hrequest]
    simp [onRequest]
  · intro y
    rw [List.append_assoc, h.left, ← List.append_assoc, rest_all (hspec y) hs]
  · have hreplies : replies cb { onRequest cb c.request_
        { conn with context := c, inputBuffer := buf } with context := c.reset } =
          replies cb conn ++ [answer cb c.request_] := by
      simp [replies, onRequest, ho.none]
    have hconn : HttpConnection.Replied (replies cb conn)
        { conn with context := c, inputBuffer := buf } := h.replied.congr rfl rfl
    rw [hreplies]
    exact (hconn.reply (answer cb c.request_)).congr rfl rfl
  · simpa [onRequest] using ho.none
  · intro y p h'
    simpa [onRequest, erase_reset] using h'

section

variable (c : HttpContext) (buf : List UInt8) (conn : HttpConnection)

@[simp] theorem context_refuse : (afterParse false c buf conn).context = c :=
  HttpConnection.context_reply _ _

@[simp] theorem inputBuffer_refuse : (afterParse false c buf conn).inputBuffer = buf :=
  HttpConnection.inputBuffer_reply _ _

@[simp] theorem served_refuse : (afterParse false c buf conn).served = conn.served :=
  HttpConnection.served_reply _ _

@[simp] theorem refusals_refuse : (afterParse false c buf conn).refusals = conn.refusals + 1 := rfl

end

theorem serve_refuse {c : HttpContext} (hs : c.state_ = .kExpectRequestLine) (buf : List UInt8)
    (conn : HttpConnection) :
    serve cb (afterParse false c buf conn) = afterParse false c buf conn := by
  apply if_neg
  rw [context_refuse, hs]
  decide

/-- The call refuses a line, and the next one finds it there again. -/
theorem Reads.refuse {c : HttpContext} {buf y : List UInt8} (h : Reads cb x conn z)
    (hstuck : Stuck (z ++ y) (afterParse false c buf conn)) :
    Reads cb (x ++ y) (afterParse false c buf conn) (z ++ y) := by
  refine ⟨?_, ?_, ?_, .inr hstuck⟩
  · intro y'
    rw [List.append_assoc, h.order, List.append_assoc, served_refuse]
  · intro y'
    rw [List.append_assoc, h.left, List.append_assoc]
  · have hreplies : replies cb (afterParse false c buf conn) = replies cb conn ++ [badRequest] := by
      rw [replies, replies, served_refuse, refusals_refuse, List.replicate_succ', List.append_assoc]
    have hconn : HttpConnection.Replied (replies cb conn)
        { conn with context := c, inputBuffer := buf } := h.replied.congr rfl rfl
    rw [hreplies]
    exact (hconn.reply badRequest).congr rfl rfl

/-- A line is refused for the first time. -/
theorem Reads.refuses {c : HttpContext} {buf : List UInt8} (h : Reads cb x conn z)
    (ho : Open z conn)
    (hp : Parses msg.2 conn.context (conn.inputBuffer ++ msg.1) (.returns false c buf)) :
    Reads cb (x ++ msg.1) (afterParse false c buf conn) (z ++ msg.1) := by
  obtain ⟨rfl, -, hs, -⟩ := hp.refused
  obtain ⟨hbuf, -, -, line, rest, hline, hprocess⟩ := (ho.resume _ _ hp.erase).refused
  have hmethod : c.erase.request_.method_ = c.request_.method_ := by
    rw [erase_line hs]
    rfl
  apply h.refuse
  refine ⟨Nat.succ_pos _, ?_, ?_, line, rest, _, ?_, hprocess, ?_⟩
  · rw [inputBuffer_refuse]
    exact hbuf.symm
  · rw [context_refuse]
    exact hs
  · rw [inputBuffer_refuse, hbuf]
    exact hline
  · rw [context_refuse, ← hmethod]
    exact method_processRequestLine hprocess

/-- A line that was refused is refused again with each message, or aborts. -/
theorem Stuck.again (h : Stuck z conn) (msg : List UInt8 × Int) :
    ∃ line rest, findCRLF (framing.rest z) = Option.some (line, rest) ∧
      ((Started line ∧ ∀ y, Parses msg.2 conn.context (conn.inputBuffer ++ y) .aborts) ∨
        (¬ Started line ∧ ∀ y, Parses msg.2 conn.context (conn.inputBuffer ++ y)
          (.returns false conn.context (conn.inputBuffer ++ y)))) := by
  obtain ⟨line, rest, request, hline, hprocess, hm⟩ := h.refused
  have hagain := processRequestLine_again hm
  have hstop : framing.rest z = z := by
    rw [h.buffer]
    have hrefuses : Parses 0 .new conn.inputBuffer (.returns false _ _) :=
      .stop (.refuse hline rfl hprocess)
    exact framing.rest_stop (framing.head_refuse_stop (head_refuses hrefuses))
  refine ⟨line, rest, ?_, ?_⟩
  · rw [hstop, h.buffer]
    exact hline
  · by_cases hstarted : Started line
    · rw [if_pos hstarted] at hagain
      exact .inl ⟨hstarted, fun y => .stop (.abort (cutLine_append hline y) h.line hagain)⟩
    · rw [if_neg hstarted] at hagain
      exact .inr ⟨hstarted, fun y => .stop (.refuse (cutLine_append hline y) h.line hagain)⟩

theorem Reads.again (h : Reads cb x conn z) (hs : Stuck z conn) (y : List UInt8) :
    Reads cb (x ++ y) (afterParse false conn.context (conn.inputBuffer ++ y) conn) (z ++ y) := by
  obtain ⟨line, rest, request, hline, hprocess, hm⟩ := hs.refused
  apply h.refuse
  refine ⟨Nat.succ_pos _, ?_, ?_, line, rest ++ y, request, ?_, hprocess, ?_⟩
  · rw [inputBuffer_refuse, hs.buffer]
  · rw [context_refuse]
    exact hs.line
  · rw [inputBuffer_refuse]
    exact cutLine_append hline y
  · rw [context_refuse]
    exact hm

/-! ## Messages -/

theorem requests_wants {c : HttpContext} {buf : List UInt8}
    (h : Parses 0 .new z (.returns true c buf)) (hc : c.Live) : requests z = [] :=
  framing.items_stop (framing.head_more_stop (head_wants h hc))

theorem requests_refuses {c : HttpContext} {buf : List UInt8}
    (h : Parses 0 .new z (.returns false c buf)) : requests z = [] :=
  framing.items_stop (framing.head_refuse_stop (head_refuses h))

theorem Stuck.parses (h : Stuck z conn) : ∃ c, Parses 0 .new z (.returns false c z) := by
  obtain ⟨line, rest, request, hline, hprocess, -⟩ := h.refused
  rw [h.buffer]
  exact ⟨_, .stop (.refuse hline rfl hprocess)⟩

/-- The first line that is not part of a whole request is one whose method is accepted. -/
def BadStart (x : List UInt8) : Prop :=
  ∃ line rest, findCRLF (framing.rest x) = some (line, rest) ∧ Started line

/-- A message that is served, as far as it can be. -/
def Serves (cb : HttpRequest → HttpResponse → HttpResponse) (x : List UInt8)
    (msg : List UInt8 × Int) (conn : HttpConnection) : Prop :=
  ∃ conn' z', onMessage cb msg conn = .ok conn' ∧ Reads cb (x ++ msg.1) conn' z' ∧
    conn'.served.length = min (conn.served.length + 1) (requests (x ++ msg.1)).length

theorem Reads.length (h : Reads cb x conn z) (y : List UInt8) :
    (requests (x ++ y)).length = conn.served.length + (requests (z ++ y)).length := by
  rw [h.order, List.length_append, List.length_map]

theorem Reads.open_message (h : Reads cb x conn z) (ho : Open z conn) (msg : List UInt8 × Int) :
    Serves cb x msg conn := by
  have hparses := parses (t := msg.2) ho.live (conn.inputBuffer ++ msg.1)
  have hends := hparses.ends
  have hlength := h.length msg.1
  unfold Serves onMessage
  generalize parseRequest msg.2 conn.context (conn.inputBuffer ++ msg.1) = p at hparses hends
  cases hends with
  | @wants c buf hc hline =>
    have hserve : serve cb (afterParse true c buf conn) =
        { conn with context := c, inputBuffer := buf } := if_neg (not_gotAll hc)
    refine ⟨_, z ++ msg.1, rfl, ?_, ?_⟩
    · rw [hserve]
      refine ⟨?_, ?_, h.replied.congr rfl rfl, .inl (ho.wants hparses hc)⟩
      · intro y
        rw [List.append_assoc, h.order, List.append_assoc]
      · intro y
        rw [List.append_assoc, h.left, List.append_assoc]
    · rw [hserve, hlength, requests_wants (ho.resume _ _ hparses.erase) (live_erase.mpr hc)]
      simp
  | @all c buf hs hlt hsuffix =>
    have hserved : (serve cb (afterParse true c buf conn)).served =
        conn.served ++ [c.request_] := by
      rw [serve_all hs]
      rfl
    refine ⟨_, buf, rfl, h.all ho hparses hs, ?_⟩
    rw [hserved, hlength, requests_all (ho.resume _ _ hparses.erase) hs]
    simp
  | @refuses line rest request hs hline hp =>
    have hserve := @serve_refuse cb { conn.context with request_ := request } hs
      (conn.inputBuffer ++ msg.1) conn
    refine ⟨_, z ++ msg.1, rfl, ?_, ?_⟩
    · rw [hserve]
      exact h.refuses ho hparses
    · rw [hserve, served_refuse, hlength, requests_refuses (ho.resume _ _ hparses.erase)]
      simp
  | aborts hs hline hp =>
    -- a new context does not abort, and this one behaves like a new one
    have hspec := (ho.resume _ _ hparses.erase).ends
    cases hspec with
    | aborts _ _ hp' => exact absurd hp' (processRequestLine_new _)

theorem Reads.stuck_message (h : Reads cb x conn z) (hs : Stuck z conn) (msg : List UInt8 × Int) :
    (BadStart x ∧ onMessage cb msg conn = .aborts) ∨ (¬ BadStart x ∧ Serves cb x msg conn) := by
  have hrest := h.left []
  rw [List.append_nil, List.append_nil] at hrest
  obtain ⟨line, rest, hline, hcases⟩ := hs.again msg
  rw [← hrest] at hline
  rcases hcases with ⟨hstarted, hp⟩ | ⟨hstarted, hp⟩
  · refine .inl ⟨⟨line, rest, hline, hstarted⟩, ?_⟩
    rw [onMessage, (hp msg.1).eq]
  · refine .inr ⟨?_, ?_⟩
    · rintro ⟨line', rest', hline', hstarted'⟩
      rw [hline] at hline'
      cases hline'
      exact hstarted hstarted'
    · have hserve := @serve_refuse cb _ hs.line (conn.inputBuffer ++ msg.1) conn
      obtain ⟨c, hparses⟩ := hs.parses
      refine ⟨_, z ++ msg.1, ?_, h.again hs msg.1, ?_⟩
      · rw [onMessage, (hp msg.1).eq]
        exact congrArg _ hserve
      · rw [served_refuse, h.length, requests_refuses (hparses.append (by rintro _ _ ⟨⟩) msg.1)]
        simp

theorem Reads.message (h : Reads cb x conn z) (msg : List UInt8 × Int) :
    ((0 < conn.refusals ∧ BadStart x) ∧ onMessage cb msg conn = .aborts) ∨
      (¬ (0 < conn.refusals ∧ BadStart x) ∧ Serves cb x msg conn) := by
  rcases h.phase with ho | hs
  · refine .inr ⟨?_, h.open_message ho msg⟩
    rintro ⟨hpos, -⟩
    rw [ho.none] at hpos
    cases hpos
  · rcases h.stuck_message hs msg with ⟨hbad, habort⟩ | ⟨hbad, hserves⟩
    · exact .inl ⟨⟨hs.some, hbad⟩, habort⟩
    · exact .inr ⟨fun hboth => hbad hboth.2, hserves⟩

theorem reads_messages {msgs : List (List UInt8 × Int)} (h : Reads cb x conn z)
    (hrun : onMessages cb msgs conn = .ok conn') :
    ∃ z', Reads cb (x ++ stream msgs) conn' z' := by
  induction msgs generalizing x conn z with
  | nil =>
    cases hrun
    exact ⟨z, by rw [stream, List.flatMap_nil, List.append_nil]; exact h⟩
  | cons msg msgs ih =>
    rw [onMessages] at hrun
    rcases h.message msg with ⟨-, habort⟩ | ⟨-, conn₁, z₁, hmessage, h₁, -⟩
    · rw [habort] at hrun
      cases hrun
    · rw [hmessage] at hrun
      obtain ⟨z', h'⟩ := ih h₁ hrun
      rw [List.append_assoc] at h'
      exact ⟨z', h'⟩

theorem Reads.stuck_served (h : Reads cb x conn z) (hpos : 0 < conn.refusals) :
    conn.served.map (·.content) = requests x := by
  rcases h.phase with ho | hs
  · rw [ho.none] at hpos
    cases hpos
  · obtain ⟨c, hparses⟩ := hs.parses
    have hall := h.order []
    rw [List.append_nil, List.append_nil, requests_refuses hparses, List.append_nil] at hall
    exact hall.symm

theorem stream_concat (msgs : List (List UInt8 × Int)) (msg : List UInt8 × Int) :
    stream (msgs ++ [msg]) = stream msgs ++ msg.1 := by
  simp [stream]

/-- **However a stream is cut into messages**, the server does not hang. The requests it has served
    are the first ones of the stream, and each message catches up by one. They are answered in their
    order, and after them the lines that are refused, for which all requests before have been served;
    but nothing is sent after the first reply that closes the connection. -/
theorem http_segmentation (httpCallback_ : HttpRequest → HttpResponse → HttpResponse)
    (msgs : List (List UInt8 × Int)) (msg : List UInt8 × Int) (conn : HttpConnection)
    (h : onMessages httpCallback_ msgs .new = .ok conn) :
    onMessage httpCallback_ msg conn ≠ .hangs ∧
      ∀ conn', onMessage httpCallback_ msg conn = .ok conn' →
        conn'.served.map (·.content) <+: requests (stream (msgs ++ [msg])) ∧
        conn'.served.length =
          min (conn.served.length + 1) (requests (stream (msgs ++ [msg]))).length ∧
        conn'.sent = texts (replies httpCallback_ conn') ∧
        (conn'.state_ = .kConnected ↔ ∀ r ∈ replies httpCallback_ conn', r.close = false) ∧
        (0 < conn'.refusals →
          conn'.served.map (·.content) = requests (stream (msgs ++ [msg]))) := by
  obtain ⟨z, hreads⟩ := reads_messages reads_new h
  rw [List.nil_append] at hreads
  rcases hreads.message msg with ⟨-, habort⟩ | ⟨-, conn₁, z₁, hok, hreads₁, hlength⟩
  · rw [habort]
    refine ⟨by simp, ?_⟩
    intro conn' hok
    cases hok
  · rw [hok, stream_concat]
    refine ⟨by simp, ?_⟩
    rintro conn' ⟨⟩
    refine ⟨?_, hlength, hreads₁.replied.sent, hreads₁.replied.connected_iff, hreads₁.stuck_served⟩
    have hall := hreads₁.order []
    rw [List.append_nil, List.append_nil] at hall
    exact ⟨_, hall.symm⟩

/-- Two requests in one message: the second one is served with the next message. The answer to the
    first one closes the connection. -/
theorem http_segmentation_two : ∃ conn conn',
    onMessages defaultHttpCallback
      [(ascii "GET /a HTTP/1.1\r\n\r\nGET /b HTTP/1.1\r\n\r\n", 1)] .new = .ok conn ∧
    conn.served.length = 1 ∧
    onMessage defaultHttpCallback (ascii "G", 2) conn = .ok conn' ∧
    conn'.served.length = min 2 (requests (stream
      [(ascii "GET /a HTTP/1.1\r\n\r\nGET /b HTTP/1.1\r\n\r\n", 1), (ascii "G", 2)])).length ∧
    conn'.sent = texts (replies defaultHttpCallback conn') ∧ conn'.sent.length = 1 := by
  obtain ⟨conn, conn', h, hone, hok, hsent⟩ : ∃ conn conn', onMessages defaultHttpCallback
      [(ascii "GET /a HTTP/1.1\r\n\r\nGET /b HTTP/1.1\r\n\r\n", 1)] .new = .ok conn ∧
      conn.served.length = 1 ∧ onMessage defaultHttpCallback (ascii "G", 2) conn = .ok conn' ∧
      conn'.sent.length = 1 := ⟨_, _, rfl, rfl, rfl, rfl⟩
  obtain ⟨-, hlength, htexts, -⟩ := (http_segmentation _ _ (ascii "G", 2) conn h).2 conn' hok
  rw [hone] at hlength
  exact ⟨conn, conn', h, hone, hok, hlength, htexts, hsent⟩

/-- **A message aborts the server** exactly when a line has been refused whose method was accepted:
    the line is parsed again, with a request that has its method already. -/
theorem http_aborts_iff (httpCallback_ : HttpRequest → HttpResponse → HttpResponse)
    (msgs : List (List UInt8 × Int)) (msg : List UInt8 × Int) (conn : HttpConnection)
    (h : onMessages httpCallback_ msgs .new = .ok conn) :
    onMessage httpCallback_ msg conn = .aborts ↔
      0 < conn.refusals ∧ ∃ line rest, findCRLF (framing.rest (stream msgs)) = some (line, rest) ∧
        Started line := by
  obtain ⟨z, hreads⟩ := reads_messages reads_new h
  rw [List.nil_append] at hreads
  rcases hreads.message msg with ⟨hbad, habort⟩ | ⟨hbad, conn₁, z₁, hok, -⟩
  · exact iff_of_true habort hbad
  · refine iff_of_false ?_ hbad
    rw [hok]
    simp

theorem http_aborts_iff_version : ∃ conn,
    onMessages defaultHttpCallback [(ascii "GET / HTTP/2.0\r\n", 1)] .new = .ok conn ∧
      onMessage defaultHttpCallback (ascii "H", 2) conn = .aborts := by
  obtain ⟨conn, h, hone⟩ : ∃ conn, onMessages defaultHttpCallback
      [(ascii "GET / HTTP/2.0\r\n", 1)] .new = .ok conn ∧ conn.refusals = 1 := ⟨_, rfl, rfl⟩
  refine ⟨conn, h, (http_aborts_iff _ _ _ conn h).mpr ⟨by omega, ?_⟩⟩
  rw [framing.rest_stop (framing.head_refuse_stop (e := ()) rfl)]
  exact ⟨ascii "GET / HTTP/2.0", [], by decide, by decide⟩

/-! ## Clients that wait -/

theorem Reads.refused (h : Reads cb x conn z) (hpos : 0 < conn.refusals) : framing.Refused x := by
  rcases h.phase with ho | hs
  · rw [ho.none] at hpos
    cases hpos
  · obtain ⟨c, hparses⟩ := hs.parses
    have hhead := head_refuses hparses
    have hrest := h.left []
    rw [List.append_nil, List.append_nil] at hrest
    refine ⟨(), ?_⟩
    rw [hrest, framing.rest_stop (framing.head_refuse_stop hhead)]
    exact hhead

/-- Messages of a stream in which nothing is refused. -/
theorem Reads.messages {msgs : List (List UInt8 × Int)} (h : Reads cb x conn z)
    (hgood : ¬ framing.Refused (x ++ stream msgs)) :
    ∃ conn' z', onMessages cb msgs conn = .ok conn' ∧ Reads cb (x ++ stream msgs) conn' z' ∧
      (msgs ≠ [] →
        min (conn.served.length + 1) (requests (x ++ stream msgs)).length ≤ conn'.served.length) := by
  induction msgs generalizing x conn z with
  | nil =>
    rw [stream, List.flatMap_nil, List.append_nil]
    exact ⟨conn, z, rfl, h, fun hne => absurd rfl hne⟩
  | cons msg msgs ih =>
    have hstream : x ++ stream (msg :: msgs) = x ++ msg.1 ++ stream msgs := by
      simp [stream]
    rw [hstream] at hgood ⊢
    rcases h.message msg with ⟨⟨hpos, -⟩, -⟩ | ⟨-, conn₁, z₁, hok, h₁, hlength⟩
    · refine absurd ?_ hgood
      rw [List.append_assoc]
      exact (framing.refused_append (h.refused hpos) _).1
    · obtain ⟨conn', z', hrun, h', hcaught⟩ := ih h₁ hgood
      refine ⟨conn', z', ?_, h', ?_⟩
      · rw [onMessages, hok]
        exact hrun
      · intro _
        have hle := h.length msg.1
        cases msgs with
        | nil =>
          cases hrun
          rw [stream, List.flatMap_nil, List.append_nil]
          omega
        | cons msg' msgs =>
          have hcaught' := hcaught (by simp)
          omega

theorem requests_render (r : RequestText) (rest : List UInt8) :
    requests (r.render ++ rest) = r.request :: requests rest ∧
      framing.rest (r.render ++ rest) = framing.rest rest :=
  ⟨requests_all (parses_render r rest) rfl, rest_all (parses_render r rest) rfl⟩

theorem rest_nil : framing.rest [] = [] :=
  framing.rest_stop (framing.head_more_stop rfl)

/-- A stream without a whole request and without a rest is empty. -/
theorem eq_nil_of_requests (hnone : requests z = []) (hrest : framing.rest z = []) : z = [] := by
  have hstop : ∀ b n, framing.head z ≠ .item b n := by
    intro b n hitem
    rw [requests, framing.items_item hitem] at hnone
    cases hnone
  rw [← hrest]
  exact (framing.rest_stop hstop).symm

/-- The messages of one request, after which the connection is as before. -/
theorem Reads.request {msgs : List (List UInt8 × Int)} {r : RequestText} (h : Reads cb x conn [])
    (hmsgs : stream msgs = r.render) :
    ∃ conn', onMessages cb msgs conn = .ok conn' ∧ Reads cb (x ++ r.render) conn' [] ∧
      conn'.served.map (·.content) = conn.served.map (·.content) ++ [r.request] := by
  have hnil : requests [] = [] := framing.items_stop (framing.head_more_stop rfl)
  have horder (y : List UInt8) : requests (x ++ r.render ++ y) =
      conn.served.map (·.content) ++ r.request :: requests y := by
    rw [List.append_assoc, h.order, List.nil_append, (requests_render r y).1]
  have hleft (y : List UInt8) : framing.rest (x ++ r.render ++ y) = framing.rest y := by
    rw [List.append_assoc, h.left, List.nil_append, (requests_render r y).2]
  have hgood : ¬ framing.Refused (x ++ stream msgs) := by
    rintro ⟨e, he⟩
    have hrest := hleft []
    rw [List.append_nil, rest_nil] at hrest
    rw [hmsgs, hrest] at he
    cases he
  have hne : msgs ≠ [] := by
    rintro rfl
    have hlen := congrArg List.length hmsgs
    simp [stream, RequestText.render] at hlen
  obtain ⟨conn', z', hrun, h', hcaught⟩ := h.messages hgood
  rw [hmsgs] at h' hcaught
  -- the last message has caught up
  have hall := h'.order []
  have hone := horder []
  rw [List.append_nil, List.append_nil] at hall
  rw [List.append_nil, hnil] at hone
  have hmin := hcaught hne
  have hlen := congrArg List.length (hone.symm.trans hall)
  simp only [List.length_append, List.length_map, List.length_singleton] at hlen
  rw [hone, List.length_append, List.length_map, List.length_singleton] at hmin
  have hnone : requests z' = [] := List.eq_nil_of_length_eq_zero (by omega)
  have hrest := (h'.left []).symm.trans (hleft [])
  rw [List.append_nil, rest_nil] at hrest
  obtain rfl := eq_nil_of_requests hnone hrest
  refine ⟨conn', hrun, h', ?_⟩
  rw [hnil, List.append_nil] at hall
  exact hall.symm.trans hone

/-- **Requests are read back.** A client that sends the next request after the answer, in whatever
    pieces, has exactly its requests served, in their order. They are answered up to the first answer
    that closes the connection: each once, if that is at most the last one. -/
theorem http_round_trip (httpCallback_ : HttpRequest → HttpResponse → HttpResponse)
    (rs : List (RequestText × List (List UInt8 × Int))) (hcut : ∀ r ∈ rs, stream r.2 = r.1.render) :
    ∃ conn, onMessages httpCallback_ (rs.flatMap (·.2)) .new = .ok conn ∧
      conn.served.map (·.content) = rs.map (·.1.request) ∧
      conn.sent = texts (conn.served.map (answer httpCallback_)) ∧
      ((∀ r ∈ (conn.served.map (answer httpCallback_)).dropLast, r.close = false) →
        conn.sent = conn.served.map fun req => (answer httpCallback_ req).text) := by
  suffices hgen : ∀ x conn, Reads httpCallback_ x conn [] → conn.refusals = 0 →
      ∃ conn' x', onMessages httpCallback_ (rs.flatMap (·.2)) conn = .ok conn' ∧
        Reads httpCallback_ x' conn' [] ∧ conn'.refusals = 0 ∧
        conn'.served.map (·.content) = conn.served.map (·.content) ++ rs.map (·.1.request) by
    obtain ⟨conn, x, hrun, h, hzero, hserved⟩ := hgen [] .new reads_new rfl
    have hsent : conn.sent = texts (conn.served.map (answer httpCallback_)) := by
      rw [h.replied.sent, replies, hzero, List.replicate_zero, List.append_nil]
    refine ⟨conn, hrun, hserved, hsent, fun hopen => ?_⟩
    rw [hsent, texts_eq_map hopen, List.map_map]
    rfl
  induction rs with
  | nil =>
    intro x conn h hzero
    exact ⟨conn, x, rfl, h, hzero, by simp⟩
  | cons r rs ih =>
    intro x conn h hzero
    obtain ⟨conn₁, hrun₁, h₁, hserved₁⟩ := h.request (hcut r List.mem_cons_self)
    have hzero₁ : conn₁.refusals = 0 := by
      by_contra hpos
      obtain ⟨e, he⟩ := h₁.refused (Nat.pos_of_ne_zero hpos)
      have hrest := h₁.left []
      rw [List.append_nil, List.append_nil, rest_nil] at hrest
      rw [hrest] at he
      cases he
    obtain ⟨conn', x', hrun, h', hzero', hserved⟩ :=
      ih (fun r' hr' => hcut r' (List.mem_cons_of_mem r hr')) _ conn₁ h₁ hzero₁
    refine ⟨conn', x', ?_, h', hzero', ?_⟩
    · rw [List.flatMap_cons, onMessages_append, hrun₁]
      exact hrun
    · rw [hserved, hserved₁, List.append_assoc]
      rfl

def indexRequest : RequestText where
  method := .kGet
  version := .kHttp10
  path := ascii "/index.html"
  query := ascii "?a=b"
  headers := [(ascii "Host", ascii "a"), (ascii "Host", ascii "b")]
  method_ok := by decide
  version_ok := by decide
  path_ok := by decide
  query_ok := ⟨by decide, by decide, .inr ⟨ascii "a=b", by decide⟩⟩
  headers_ok := by decide

theorem http_round_trip_pieces : ∃ conn,
    onMessages defaultHttpCallback [(indexRequest.render.take 20, 1), (indexRequest.render.drop 20, 2)]
      .new = .ok conn ∧
      conn.served.map (·.content) = [indexRequest.request] ∧
      conn.sent = conn.served.map fun req => (answer defaultHttpCallback req).text := by
  obtain ⟨conn, hrun, hserved, -, hsent⟩ := http_round_trip defaultHttpCallback
    [(indexRequest, [(indexRequest.render.take 20, 1), (indexRequest.render.drop 20, 2)])] (by
      intro r hr
      obtain rfl := List.mem_singleton.mp hr
      simp [stream])
  have hone := congrArg List.length hserved
  simp only [List.length_map, List.length_singleton] at hone
  refine ⟨conn, hrun, hserved, hsent ?_⟩
  obtain ⟨req, hreq⟩ := List.length_eq_one_iff.mp hone
  simp [hreq]

end Mmvx.Net.Http
