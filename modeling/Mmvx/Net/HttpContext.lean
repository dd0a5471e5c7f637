/-
  The parser of HTTP requests (muduo/net/http/HttpContext.h, HttpRequest.h, and `parseRequest` in
  HttpServer.cc).

  A buffer is the list of its readable bytes. `parseRequest` goes on line by line until it has a
  whole request, a line that it refuses, or no whole line. It aborts where the assertion of
  `setMethod` fails, and hangs in the two states for which its loop has no branch; `fuel` counts the
  turns of the loop, and one for each byte and one more are enough (`parseLoop_enough`).

  A call that stops for want of a line is continued by the next one as if all the bytes had been
  there at once (`Parses.resume`), and more bytes do not change what a call found (`Parses.append`).
-/
import Mathlib.Data.List.DropRight
import Mmvx.Base.Logging
import Mmvx.Lib.Lines
import Mmvx.Lib.OrdMap

namespace Mmvx.Net.Http

open Mmvx.Lib Mmvx.Base

inductive Method where
  | kInvalid
  | kGet
  | kPost
  | kHead
  | kPut
  | kDelete
  deriving DecidableEq, Repr

inductive Version where
  | kUnknown
  | kHttp10
  | kHttp11
  deriving DecidableEq, Repr

structure HttpRequest where
  method_ : Method
  version_ : Version
  path_ : List UInt8
  query_ : List UInt8
  receiveTime_ : Int
  headers_ : OrdMap (List UInt8) (List UInt8)

namespace HttpRequest

def new : HttpRequest := ⟨.kInvalid, .kUnknown, [], [], 0, .empty⟩

def methodOf (m : List UInt8) : Method :=
  if m = ascii "GET" then .kGet
  else if m = ascii "POST" then .kPost
  else if m = ascii "HEAD" then .kHead
  else if m = ascii "PUT" then .kPut
  else if m = ascii "DELETE" then .kDelete
  else .kInvalid

def methodString : Method → List UInt8
  | .kGet => ascii "GET"
  | .kPost => ascii "POST"
  | .kHead => ascii "HEAD"
  | .kPut => ascii "PUT"
  | .kDelete => ascii "DELETE"
  | .kInvalid => ascii "UNKNOWN"

/-- `isspace` of the C locale. -/
def isspace (b : UInt8) : Bool := b = 32 || (9 ≤ b && b ≤ 13)

/-- `addHeader`, of a line that has a colon. -/
def addHeader (line : List UInt8) (request : HttpRequest) : HttpRequest :=
  let field := line.takeWhile (· ≠ 58)
  let value := (((line.dropWhile (· ≠ 58)).drop 1).dropWhile isspace).rdropWhile isspace
  { request with headers_ := request.headers_.insert field value }

def getHeader (request : HttpRequest) (field : List UInt8) : List UInt8 :=
  (request.headers_.find field).getD []

/-- The path and the query of the request line. -/
def setTarget (target : List UInt8) (request : HttpRequest) : HttpRequest :=
  match target.dropWhile (· ≠ 63) with
  | [] => { request with path_ := target }
  | query => { request with path_ := target.takeWhile (· ≠ 63), query_ := query }

/-- The end of the request line. -/
def setVersion (version : List UInt8) (request : HttpRequest) : Bool × HttpRequest :=
  if version.length = 8 ∧ version.take 7 = ascii "HTTP/1." then
    if version[7]? = some 49 then (true, { request with version_ := .kHttp11 })
    else if version[7]? = some 48 then (true, { request with version_ := .kHttp10 })
    else (false, request)
  else (false, request)

/-- `swap` leaves `version_` where it is, so that `HttpContext::reset` keeps it. -/
def reset (request : HttpRequest) : HttpRequest := { new with version_ := request.version_ }

end HttpRequest

/-- `none` where the assertion of `setMethod` fails. -/
def processRequestLine (line : List UInt8) (request : HttpRequest) : Option (Bool × HttpRequest) :=
  match line.dropWhile (· ≠ 32) with
  | [] => some (false, request)
  | _ :: rest =>
    if request.method_ ≠ .kInvalid then none
    else
      let request := { request with method_ := HttpRequest.methodOf (line.takeWhile (· ≠ 32)) }
      if request.method_ = .kInvalid then some (false, request)
      else
        match rest.dropWhile (· ≠ 32) with
        | [] => some (false, request)
        | _ :: version =>
          some ((request.setTarget (rest.takeWhile (· ≠ 32))).setVersion version)

inductive HttpRequestParseState where
  | kExpectRequestLine
  | kExpectHeaders
  | kExpectBody
  | kGotAll
  deriving DecidableEq, Repr

structure HttpContext where
  state_ : HttpRequestParseState
  request_ : HttpRequest

def HttpContext.new : HttpContext := ⟨.kExpectRequestLine, .new⟩

def HttpContext.reset (context : HttpContext) : HttpContext :=
  ⟨.kExpectRequestLine, context.request_.reset⟩

/-- How a call of `parseRequest` ends. -/
inductive Parse where
  | aborts
  | hangs
  | returns (ok : Bool) (context : HttpContext) (buf : List UInt8)

def findCRLF (buf : List UInt8) : Option (List UInt8 × List UInt8) := cutLine 13 10 buf

/-- What a turn of the loop does: it ends the call, or goes on with what is left. -/
inductive Turn where
  | stop (p : Parse)
  | again (context : HttpContext) (buf : List UInt8)

/-- The branch of the loop for a request line. -/
def turnRequestLine (receiveTime : Int) (context : HttpContext) (buf : List UInt8) : Turn :=
  match findCRLF buf with
  | none => .stop (.returns true context buf)
  | some (line, rest) =>
    match processRequestLine line context.request_ with
    | none => .stop .aborts
    -- what the line has set stays set, and the line stays in the buffer
    | some (false, request) => .stop (.returns false { context with request_ := request } buf)
    | some (true, request) =>
      .again ⟨.kExpectHeaders, { request with receiveTime_ := receiveTime }⟩ rest

/-- The branch of the loop for a header. -/
def turnHeaders (context : HttpContext) (buf : List UInt8) : Turn :=
  match findCRLF buf with
  | none => .stop (.returns true context buf)
  | some (line, rest) =>
    if 58 ∈ line then .again { context with request_ := context.request_.addHeader line } rest
    -- any line without a colon ends the headers
    else .stop (.returns true { context with state_ := .kGotAll } rest)

def turn (receiveTime : Int) (context : HttpContext) (buf : List UInt8) : Turn :=
  match context.state_ with
  | .kExpectRequestLine => turnRequestLine receiveTime context buf
  | .kExpectHeaders => turnHeaders context buf
  | .kExpectBody => .again context buf
  | .kGotAll => .again context buf

def parseLoop (receiveTime : Int) : Nat → HttpContext → List UInt8 → Parse
  | 0, _, _ => .hangs
  | fuel + 1, context, buf =>
    match turn receiveTime context buf with
    | .stop p => p
    | .again context' buf' => parseLoop receiveTime fuel context' buf'

def parseRequest (receiveTime : Int) (context : HttpContext) (buf : List UInt8) : Parse :=
  parseLoop receiveTime (buf.length + 1) context buf

/-! ## A turn of the loop -/

/-- The states for which the loop has a branch. -/
def HttpContext.Live (context : HttpContext) : Prop :=
  context.state_ = .kExpectRequestLine ∨ context.state_ = .kExpectHeaders

/-- What a turn does in such a state. -/
inductive Turns (t : Int) (c : HttpContext) (buf : List UInt8) : Turn → Prop
  | wait (hc : c.Live) (hline : findCRLF buf = none) : Turns t c buf (.stop (.returns true c buf))
  | abort {line rest : List UInt8} (hline : findCRLF buf = some (line, rest))
      (hs : c.state_ = .kExpectRequestLine) (hp : processRequestLine line c.request_ = none) :
      Turns t c buf (.stop .aborts)
  | refuse {line rest : List UInt8} {request : HttpRequest}
      (hline : findCRLF buf = some (line, rest)) (hs : c.state_ = .kExpectRequestLine)
      (hp : processRequestLine line c.request_ = some (false, request)) :
      Turns t c buf (.stop (.returns false { c with request_ := request } buf))
  | accept {line rest : List UInt8} {request : HttpRequest}
      (hline : findCRLF buf = some (line, rest)) (hs : c.state_ = .kExpectRequestLine)
      (hp : processRequestLine line c.request_ = some (true, request)) :
      Turns t c buf (.again ⟨.kExpectHeaders, { request with receiveTime_ := t }⟩ rest)
  | header {line rest : List UInt8} (hline : findCRLF buf = some (line, rest))
      (hs : c.state_ = .kExpectHeaders) (hcolon : 58 ∈ line) :
      Turns t c buf (.again { c with request_ := c.request_.addHeader line } rest)
  | all {line rest : List UInt8} (hline : findCRLF buf = some (line, rest))
      (hs : c.state_ = .kExpectHeaders) (hcolon : 58 ∉ line) :
      Turns t c buf (.stop (.returns true { c with state_ := .kGotAll } rest))

variable {t : Int} {c c' : HttpContext} {buf buf' y : List UInt8} {p : Parse} {u : Turn}

theorem turns (hc : c.Live) (t : Int) (buf : List UInt8) : Turns t c buf (turn t c buf) := by
  cases hline : findCRLF buf with
  | none =>
    have hturn : turn t c buf = .stop (.returns true c buf) := by
      rcases hc with hs | hs
      · simp only [turn, hs, turnRequestLine, hline]
      · simp only [turn, hs, turnHeaders, hline]
    exact hturn ▸ .wait hc hline
  | some x =>
    obtain ⟨line, rest⟩ := x
    rcases hc with hs | hs
    · cases hp : processRequestLine line c.request_ with
      | none =>
        simp only [turn, hs, turnRequestLine, hline, hp]
        exact .abort hline hs hp
      | some x =>
        obtain ⟨ok, request⟩ := x
        cases ok with
        | false =>
          simp only [turn, hs, turnRequestLine, hline, hp]
          exact hs ▸ .refuse hline hs hp
        | true =>
          simp only [turn, hs, turnRequestLine, hline, hp]
          exact .accept hline hs hp
    · by_cases hcolon : 58 ∈ line
      · simp only [turn, hs, turnHeaders, hline, if_pos hcolon]
        exact hs ▸ .header hline hs hcolon
      · simp only [turn, hs, turnHeaders, hline, if_neg hcolon]
        exact .all hline hs hcolon

/-- A turn depends on the first line only, so that it is determined by what it can do. -/
theorem Turns.eq (h : Turns t c buf u) : turn t c buf = u := by
  cases h with
  | wait hc hline =>
    rcases hc with hs | hs
    · simp only [turn, hs, turnRequestLine, hline]
    · simp only [turn, hs, turnHeaders, hline]
  | abort hline hs hp => simp only [turn, hs, turnRequestLine, hline, hp]
  | refuse hline hs hp => simp only [turn, hs, turnRequestLine, hline, hp]
  | accept hline hs hp => simp only [turn, hs, turnRequestLine, hline, hp]
  | header hline hs hcolon => simp only [turn, hs, turnHeaders, hline, if_pos hcolon]
  | all hline hs hcolon => simp only [turn, hs, turnHeaders, hline, if_neg hcolon]

/-- A turn that goes on has taken a line, and there is a branch for what comes next. -/
theorem Turns.shorter (h : Turns t c buf (.again c' buf')) :
    c'.Live ∧ buf'.length < buf.length := by
  cases h with
  | accept hline hs hp => exact ⟨.inr rfl, length_cutLine hline⟩
  | header hline hs hcolon => exact ⟨.inr hs, length_cutLine hline⟩

theorem Turns.suffix (h : Turns t c buf (.again c' buf')) : buf' <:+ buf := by
  cases h with
  | accept hline hs hp => exact suffix_cutLine hline
  | header hline hs hcolon => exact suffix_cutLine hline

/-! ## The loop -/

theorem parseLoop_enough (hc : c.Live) {n m : Nat} (hn : buf.length < n) (hm : buf.length < m) :
    parseLoop t n c buf = parseLoop t m c buf := by
  induction n generalizing c buf m with
  | zero => cases hn
  | succ n ih =>
    cases m with
    | zero => cases hm
    | succ m =>
      rw [parseLoop, parseLoop]
      have hturns := turns hc t buf
      cases hu : turn t c buf with
      | stop p => rfl
      | again c' buf' =>
        rw [hu] at hturns
        obtain ⟨hc', hlt⟩ := hturns.shorter
        exact ih hc' (by omega) (by omega)

theorem parseRequest_stop (h : Turns t c buf (.stop p)) : parseRequest t c buf = p := by
  rw [parseRequest, parseLoop, h.eq]

theorem parseRequest_again (h : Turns t c buf (.again c' buf')) :
    parseRequest t c buf = parseRequest t c' buf' := by
  obtain ⟨hc', hlt⟩ := h.shorter
  rw [parseRequest, parseLoop, h.eq]
  exact parseLoop_enough hc' hlt (Nat.lt_succ_self _)

/-- The turns of a call, up to its end. -/
inductive Parses (t : Int) : HttpContext → List UInt8 → Parse → Prop
  | stop {c : HttpContext} {buf : List UInt8} {p : Parse} (h : Turns t c buf (.stop p)) :
      Parses t c buf p
  | again {c c' : HttpContext} {buf buf' : List UInt8} {p : Parse}
      (h : Turns t c buf (.again c' buf')) (hnext : Parses t c' buf' p) : Parses t c buf p

theorem Parses.eq (h : Parses t c buf p) : parseRequest t c buf = p := by
  induction h with
  | stop h => exact parseRequest_stop h
  | again h _ ih => rw [parseRequest_again h, ih]

theorem parses (hc : c.Live) (buf : List UInt8) : Parses t c buf (parseRequest t c buf) := by
  induction h : buf.length using Nat.strongRecOn generalizing c buf with
  | _ n ih =>
    have hturns := turns hc t buf
    cases hu : turn t c buf with
    | stop p =>
      rw [hu] at hturns
      rw [parseRequest_stop hturns]
      exact .stop hturns
    | again c' buf' =>
      rw [hu] at hturns
      obtain ⟨hc', hlt⟩ := hturns.shorter
      rw [parseRequest_again hturns]
      exact .again hturns (ih buf'.length (h ▸ hlt) hc' buf' rfl)

/-- How a call ends: for want of a line, with a whole request, with a line that it refuses, or
    where the assertion of `setMethod` fails. -/
inductive Ends (c : HttpContext) (buf : List UInt8) : Parse → Prop
  | wants {c' : HttpContext} {buf' : List UInt8} (hc : c'.Live) (hline : findCRLF buf' = none) :
      Ends c buf (.returns true c' buf')
  | all {c' : HttpContext} {buf' : List UInt8} (hs : c'.state_ = .kGotAll)
      (hlt : buf'.length < buf.length) (hsuffix : buf' <:+ buf) :
      Ends c buf (.returns true c' buf')
  | refuses {line rest : List UInt8} {request : HttpRequest} (hs : c.state_ = .kExpectRequestLine)
      (hline : findCRLF buf = some (line, rest))
      (hp : processRequestLine line c.request_ = some (false, request)) :
      Ends c buf (.returns false { c with request_ := request } buf)
  | aborts {line rest : List UInt8} (hs : c.state_ = .kExpectRequestLine)
      (hline : findCRLF buf = some (line, rest))
      (hp : processRequestLine line c.request_ = none) : Ends c buf .aborts

theorem Parses.ends (h : Parses t c buf p) : Ends c buf p := by
  induction h with
  | stop h =>
    cases h with
    | wait hc hline => exact .wants hc hline
    | abort hline hs hp => exact .aborts hs hline hp
    | refuse hline hs hp => exact .refuses hs hline hp
    | all hline hs hcolon => exact .all rfl (length_cutLine hline) (suffix_cutLine hline)
  | @again c c' buf buf' p h _ ih =>
    -- the request line is the first line, so only the first turn can refuse
    have hlt := h.shorter.2
    have hs' : c'.state_ = .kExpectHeaders := by
      cases h with
      | accept hline hs hp => rfl
      | header hline hs hcolon => exact hs
    cases ih with
    | wants hc hline => exact .wants hc hline
    | all hs hlt' hsuffix => exact .all hs (Nat.lt_trans hlt' hlt) (hsuffix.trans h.suffix)
    | refuses hs _ _ =>
      rw [hs'] at hs
      cases hs
    | aborts hs _ _ =>
      rw [hs'] at hs
      cases hs

theorem Parses.refused (h : Parses t c buf (.returns false c' buf')) :
    buf' = buf ∧ c.state_ = .kExpectRequestLine ∧ c'.state_ = .kExpectRequestLine ∧
      ∃ line rest, findCRLF buf = some (line, rest) ∧
        processRequestLine line c.request_ = some (false, c'.request_) := by
  have hends := h.ends
  cases hends with
  | refuses hs hline hp => exact ⟨rfl, hs, hs, _, _, hline, hp⟩

/-! ## More bytes -/

def Parse.append (y : List UInt8) : Parse → Parse
  | .returns ok c buf => .returns ok c (buf ++ y)
  | .aborts => .aborts
  | .hangs => .hangs

theorem Turns.append_again (h : Turns t c buf (.again c' buf')) (y : List UInt8) :
    Turns t c (buf ++ y) (.again c' (buf' ++ y)) := by
  cases h with
  | accept hline hs hp => exact .accept (cutLine_append hline y) hs hp
  | header hline hs hcolon => exact .header (cutLine_append hline y) hs hcolon

/-- Where a call wants more, the next one goes on as if all the bytes had been there at once. -/
theorem Parses.resume (h : Parses t c buf (.returns true c' buf')) (hc' : c'.Live)
    (h' : Parses t c' (buf' ++ y) p) : Parses t c (buf ++ y) p := by
  generalize hq : Parse.returns true c' buf' = q at h
  induction h with
  | stop h =>
    cases h with
    | wait hc hline =>
      cases hq
      exact h'
    | all hline hs hcolon =>
      cases hq
      rcases hc' with hs' | hs' <;> cases hs'
    | _ => cases hq
  | again h _ ih => exact .again (h.append_again y) (ih hq)

/-- More bytes do not change what a call has found. -/
theorem Parses.append (h : Parses t c buf p)
    (hdone : ∀ c' buf', p = .returns true c' buf' → ¬ c'.Live) (y : List UInt8) :
    Parses t c (buf ++ y) (p.append y) := by
  induction h with
  | stop h =>
    cases h with
    | wait hc hline => exact absurd hc (hdone _ _ rfl)
    | abort hline hs hp => exact .stop (.abort (cutLine_append hline y) hs hp)
    | refuse hline hs hp => exact .stop (.refuse (cutLine_append hline y) hs hp)
    | all hline hs hcolon => exact .stop (.all (cutLine_append hline y) hs hcolon)
  | again h _ ih => exact .again (h.append_again y) (ih hdone)

end Mmvx.Net.Http
