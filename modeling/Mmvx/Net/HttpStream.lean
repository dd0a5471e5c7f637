/-
  The requests in a stream of bytes.

  `requests` reads a whole stream: from each request on it parses with a new context. What a context
  keeps from the request before (its version) and the time of receipt do not matter for the rest
  (`Parses.erase`). A request that is written as a client writes it is read back, with the later of
  two headers of one name (`head_render`).
-/
import Mmvx.Lib.Framing
import Mmvx.Net.HttpContext

namespace Mmvx.Net.Http

open Mmvx.Lib Mmvx.Base

/-! ## What a context keeps -/

/-- A request without the time of its receipt. -/
def HttpRequest.content (request : HttpRequest) : HttpRequest := { request with receiveTime_ := 0 }

/-- A request before its version has been read. -/
def HttpRequest.blank (request : HttpRequest) : HttpRequest :=
  { request with version_ := .kUnknown, receiveTime_ := 0 }

def HttpContext.erase (c : HttpContext) : HttpContext :=
  ⟨c.state_, if c.state_ = .kExpectRequestLine then c.request_.blank else c.request_.content⟩

def Parse.erase : Parse → Parse
  | .returns ok c buf => .returns ok c.erase buf
  | .aborts => .aborts
  | .hangs => .hangs

theorem erase_reset (c : HttpContext) : c.reset.erase = .new := rfl

theorem erase_line {c : HttpContext} (h : c.state_ = .kExpectRequestLine) :
    c.erase = ⟨.kExpectRequestLine, c.request_.blank⟩ := by
  rw [HttpContext.erase, if_pos h, h]

theorem erase_other {c : HttpContext} (h : c.state_ ≠ .kExpectRequestLine) :
    c.erase = ⟨c.state_, c.request_.content⟩ := by
  rw [HttpContext.erase, if_neg h]

theorem setTarget_blank (target : List UInt8) (request : HttpRequest) :
    request.blank.setTarget target = (request.setTarget target).blank := by
  unfold HttpRequest.setTarget
  split <;> rfl

theorem setVersion_blank (version : List UInt8) (request : HttpRequest) :
    request.blank.setVersion version = ((request.setVersion version).1,
      if (request.setVersion version).1 then (request.setVersion version).2.content
      else (request.setVersion version).2.blank) := by
  unfold HttpRequest.setVersion
  split
  · split
    · rfl
    · split <;> rfl
  · rfl

/-- The request line does not depend on the version and the time that were there. -/
theorem processRequestLine_blank (line : List UInt8) (request : HttpRequest) :
    processRequestLine line request.blank = (processRequestLine line request).map fun x =>
      (x.1, if x.1 then x.2.content else x.2.blank) := by
  unfold processRequestLine
  split
  · rfl
  · rename_i rest _
    have hsame : request.blank.method_ = request.method_ := rfl
    by_cases hm : request.method_ ≠ .kInvalid
    · rw [hsame, if_pos hm, if_pos hm]
      rfl
    · rw [hsame, if_neg hm, if_neg hm]
      dsimp only
      split
      · rfl
      · split
        · rfl
        · rename_i version _
          have htarget := setTarget_blank (rest.takeWhile (· ≠ 32))
            { request with method_ := HttpRequest.methodOf (line.takeWhile (· ≠ 32)) }
          rw [Option.map_some, ← setVersion_blank, ← htarget]
          rfl

variable {t : Int} {c c' : HttpContext} {buf buf' : List UInt8} {p : Parse}

theorem live_erase : c.erase.Live ↔ c.Live := Iff.rfl

theorem Turns.erase_again (h : Turns t c buf (.again c' buf')) :
    Turns 0 c.erase buf (.again c'.erase buf') := by
  cases h with
  | @accept line _ request hline hs hp =>
    have hp' := processRequestLine_blank line c.request_
    rw [hp] at hp'
    rw [erase_line hs]
    have hturns : Turns 0 ⟨.kExpectRequestLine, c.request_.blank⟩ buf
        (.again ⟨.kExpectHeaders, { request.content with receiveTime_ := 0 }⟩ buf') :=
      .accept hline rfl hp'
    exact hturns
  | header hline hs hcolon =>
    rw [erase_other (by rw [hs]; decide), erase_other (by dsimp only; rw [hs]; decide)]
    exact .header hline hs hcolon

theorem Turns.erase_stop (h : Turns t c buf (.stop p)) : Turns 0 c.erase buf (.stop p.erase) := by
  cases h with
  | wait hc hline => exact .wait (live_erase.mpr hc) hline
  | @abort line rest hline hs hp =>
    have hp' := processRequestLine_blank line c.request_
    rw [hp] at hp'
    rw [erase_line hs]
    exact .abort hline rfl hp'
  | @refuse line rest request hline hs hp =>
    have hp' := processRequestLine_blank line c.request_
    rw [hp] at hp'
    have hturns : Turns 0 ⟨.kExpectRequestLine, c.request_.blank⟩ buf
        (.stop (.returns false ⟨.kExpectRequestLine, request.blank⟩ buf)) :=
      .refuse hline rfl hp'
    have herase : HttpContext.erase { c with request_ := request } =
        ⟨.kExpectRequestLine, request.blank⟩ := erase_line hs
    rw [Parse.erase, erase_line hs, herase]
    exact hturns
  | all hline hs hcolon =>
    rw [erase_other (by rw [hs]; decide)]
    exact .all hline hs hcolon

/-- What a context keeps does not matter. -/
theorem Parses.erase (h : Parses t c buf p) : Parses 0 c.erase buf p.erase := by
  induction h with
  | stop h => exact .stop h.erase_stop
  | again h _ ih => exact .again h.erase_again ih

/-! ## The requests of a stream -/

theorem live_new : HttpContext.new.Live := .inl rfl

/-- A new context never fails the assertion of `setMethod`. -/
theorem processRequestLine_new (line : List UInt8) : processRequestLine line .new ≠ none := by
  unfold processRequestLine
  split
  · simp
  · rw [if_neg (by simp [HttpRequest.new])]
    dsimp only
    split
    · simp
    · split <;> simp

/-- The first request of a stream. -/
def headRequest (x : List UInt8) : Head HttpRequest Unit :=
  match parseRequest 0 .new x with
  | .returns true c rest =>
    if c.state_ = .kGotAll then .item c.request_ (x.length - rest.length) else .more
  | .returns false _ _ => .refuse ()
  | .aborts => .refuse ()
  | .hangs => .refuse ()

theorem head_all (h : Parses 0 .new buf (.returns true c buf')) (hs : c.state_ = .kGotAll) :
    headRequest buf = .item c.request_ (buf.length - buf'.length) := by
  rw [headRequest, h.eq]
  exact if_pos hs

theorem not_gotAll (hc : c.Live) : c.state_ ≠ .kGotAll := by
  intro hs
  rcases hc with hs' | hs'
  · rw [hs] at hs'
    cases hs'
  · rw [hs] at hs'
    cases hs'

theorem head_wants (h : Parses 0 .new buf (.returns true c buf')) (hc : c.Live) :
    headRequest buf = .more := by
  rw [headRequest, h.eq]
  exact if_neg (not_gotAll hc)

theorem head_refuses (h : Parses 0 .new buf (.returns false c buf')) :
    headRequest buf = .refuse () := by
  rw [headRequest, h.eq]

/-- A new context finds a whole request, wants more, or refuses. -/
theorem new_cases (x : List UInt8) :
    (∃ c rest, Parses 0 .new x (.returns true c rest) ∧ c.state_ = .kGotAll ∧
      rest.length < x.length ∧ rest <:+ x) ∨
    (∃ c rest, Parses 0 .new x (.returns true c rest) ∧ c.Live) ∨
    ∃ c, Parses 0 .new x (.returns false c x) := by
  have hparses := parses (t := 0) live_new x
  have hends := hparses.ends
  generalize parseRequest 0 .new x = p at hparses hends
  cases hends with
  | wants hc hline => exact .inr (.inl ⟨_, _, hparses, hc⟩)
  | all hs hlt hsuffix => exact .inl ⟨_, _, hparses, hs, hlt, hsuffix⟩
  | refuses hs hline hp => exact .inr (.inr ⟨_, hparses⟩)
  | aborts hs hline hp => exact absurd hp (processRequestLine_new _)

/-- The requests of a stream. -/
def framing : Framing UInt8 HttpRequest Unit where
  head := headRequest
  item_size := by
    intro x r n h
    rcases new_cases x with ⟨c, rest, hp, hs, hlt, -⟩ | ⟨c, rest, hp, hc⟩ | ⟨c, hp⟩
    · rw [head_all hp hs] at h
      cases h
      omega
    · rw [head_wants hp hc] at h
      cases h
    · rw [head_refuses hp] at h
      cases h
  item_append := by
    intro x r n y h
    rcases new_cases x with ⟨c, rest, hp, hs, hlt, -⟩ | ⟨c, rest, hp, hc⟩ | ⟨c, hp⟩
    · have hp' := hp.append (by rintro c' _ ⟨⟩ hc; exact not_gotAll hc hs) y
      rw [← h, head_all hp hs, head_all hp' hs, List.length_append, List.length_append]
      rw [Nat.add_sub_add_right]
    · rw [head_wants hp hc] at h
      cases h
    · rw [head_refuses hp] at h
      cases h
  refuse_append := by
    intro x e y h
    rcases new_cases x with ⟨c, rest, hp, hs, hlt, -⟩ | ⟨c, rest, hp, hc⟩ | ⟨c, hp⟩
    · rw [head_all hp hs] at h
      cases h
    · rw [head_wants hp hc] at h
      cases h
    · exact head_refuses (hp.append (by rintro c' _ ⟨⟩) y)

/-- The whole requests at the front of a stream, up to a line that is refused. -/
def requests (x : List UInt8) : List HttpRequest := framing.items x

theorem drop_all (h : Parses 0 .new buf (.returns true c buf')) (hs : c.state_ = .kGotAll) :
    buf.drop (buf.length - buf'.length) = buf' := by
  have hends := h.ends
  cases hends with
  | wants hc hline => exact absurd hs (not_gotAll hc)
  | all _ hlt hsuffix => exact (List.suffix_iff_eq_drop.mp hsuffix).symm

theorem requests_all (h : Parses 0 .new buf (.returns true c buf')) (hs : c.state_ = .kGotAll) :
    requests buf = c.request_ :: requests buf' := by
  rw [requests, framing.items_item (head_all h hs), drop_all h hs]
  rfl

theorem rest_all (h : Parses 0 .new buf (.returns true c buf')) (hs : c.state_ = .kGotAll) :
    framing.rest buf = framing.rest buf' := by
  rw [framing.rest_item (head_all h hs), drop_all h hs]

/-! ## Requests as they are written -/

def versionString : Version → List UInt8
  | .kHttp10 => ascii "HTTP/1.0"
  | .kHttp11 => ascii "HTTP/1.1"
  | .kUnknown => ascii "unknown"

/-- The value of a header, without blanks around it. -/
def Trimmed (value : List UInt8) : Prop :=
  value.dropWhile HttpRequest.isspace = value ∧ value.rdropWhile HttpRequest.isspace = value

instance (value : List UInt8) : Decidable (Trimmed value) := inferInstanceAs (Decidable (_ ∧ _))

/-- A request that can be written: no part of it holds what ends the part. -/
structure RequestText where
  method : Method
  version : Version
  path : List UInt8
  query : List UInt8
  headers : List (List UInt8 × List UInt8)
  method_ok : method ≠ .kInvalid
  version_ok : version ≠ .kUnknown
  path_ok : 32 ∉ path ∧ 63 ∉ path ∧ 10 ∉ path
  query_ok : 32 ∉ query ∧ 10 ∉ query ∧ (query = [] ∨ ∃ q, query = 63 :: q)
  headers_ok : ∀ h ∈ headers, 58 ∉ h.1 ∧ 10 ∉ h.1 ∧ 10 ∉ h.2 ∧ Trimmed h.2

namespace RequestText

def requestLine (r : RequestText) : List UInt8 :=
  HttpRequest.methodString r.method ++ 32 :: ((r.path ++ r.query) ++ 32 :: versionString r.version)

def headerLine (h : List UInt8 × List UInt8) : List UInt8 := h.1 ++ 58 :: 32 :: h.2

def headerText (hs : List (List UInt8 × List UInt8)) : List UInt8 :=
  hs.flatMap fun h => headerLine h ++ [13, 10]

def render (r : RequestText) : List UInt8 :=
  r.requestLine ++ [13, 10] ++ headerText r.headers ++ [13, 10]

def headerMap (hs : List (List UInt8 × List UInt8)) (m : OrdMap (List UInt8) (List UInt8)) :
    OrdMap (List UInt8) (List UInt8) :=
  hs.foldl (fun m h => m.insert h.1 h.2) m

/-- The request that is meant; of two headers of one name the later one counts. -/
def request (r : RequestText) : HttpRequest :=
  ⟨r.method, r.version, r.path, r.query, 0, headerMap r.headers .empty⟩

end RequestText

theorem methodOf_methodString {m : Method} (h : m ≠ .kInvalid) :
    HttpRequest.methodOf (HttpRequest.methodString m) = m := by
  cases m with
  | kInvalid => exact absurd rfl h
  | _ => decide

theorem methodString_ok (m : Method) :
    32 ∉ HttpRequest.methodString m ∧ 10 ∉ HttpRequest.methodString m := by
  cases m <;> decide

theorem versionString_ok (v : Version) : 10 ∉ versionString v := by
  cases v <;> decide

theorem setVersion_versionString {v : Version} (h : v ≠ .kUnknown) (request : HttpRequest) :
    request.setVersion (versionString v) = (true, { request with version_ := v }) := by
  cases v with
  | kUnknown => exact absurd rfl h
  | kHttp10 =>
    unfold HttpRequest.setVersion
    rw [if_pos (by decide), if_neg (by decide), if_pos (by decide)]
  | kHttp11 =>
    unfold HttpRequest.setVersion
    rw [if_pos (by decide), if_pos (by decide)]

theorem setTarget_text {path query : List UInt8} (hpath : 63 ∉ path)
    (hquery : query = [] ∨ ∃ q, query = 63 :: q) (request : HttpRequest)
    (hnone : request.query_ = []) :
    request.setTarget (path ++ query) = { request with path_ := path, query_ := query } := by
  rcases hquery with rfl | ⟨q, rfl⟩
  · rw [List.append_nil, HttpRequest.setTarget, dropWhile_no_sep hpath]
    simp only [← hnone]
  · rw [HttpRequest.setTarget, dropWhile_word hpath, takeWhile_word hpath]

theorem processRequestLine_text (r : RequestText) :
    processRequestLine r.requestLine .new =
      some (true, ⟨r.method, r.version, r.path, r.query, 0, .empty⟩) := by
  have hmethod := (methodString_ok r.method).1
  have htarget : 32 ∉ r.path ++ r.query := by
    rw [List.mem_append, not_or]
    exact ⟨r.path_ok.1, r.query_ok.1⟩
  have hname := methodOf_methodString r.method_ok
  unfold processRequestLine RequestText.requestLine
  rw [dropWhile_word hmethod, takeWhile_word hmethod, hname]
  dsimp only
  rw [if_neg (by simp [HttpRequest.new]), if_neg r.method_ok, dropWhile_word htarget,
    takeWhile_word htarget]
  dsimp only
  rw [setTarget_text r.path_ok.2.1 r.query_ok.2.2 _ rfl, setVersion_versionString r.version_ok]
  rfl

theorem addHeader_text {h : List UInt8 × List UInt8} (hfield : 58 ∉ h.1) (hvalue : Trimmed h.2)
    (request : HttpRequest) :
    request.addHeader (RequestText.headerLine h) =
      { request with headers_ := request.headers_.insert h.1 h.2 } := by
  unfold HttpRequest.addHeader RequestText.headerLine
  rw [takeWhile_word hfield, dropWhile_word hfield, List.drop_one, List.tail_cons,
    List.dropWhile_cons_of_pos (by decide), hvalue.1, hvalue.2]

/-- The headers and the empty line. -/
theorem parses_headers {hs : List (List UInt8 × List UInt8)}
    (hok : ∀ h ∈ hs, 58 ∉ h.1 ∧ 10 ∉ h.1 ∧ 10 ∉ h.2 ∧ Trimmed h.2) (request : HttpRequest)
    (rest : List UInt8) :
    Parses 0 ⟨.kExpectHeaders, request⟩ (RequestText.headerText hs ++ 13 :: 10 :: rest)
      (.returns true ⟨.kGotAll,
        { request with headers_ := RequestText.headerMap hs request.headers_ }⟩ rest) := by
  induction hs generalizing request with
  | nil =>
    have hline : findCRLF ([] ++ 13 :: 10 :: rest) = some ([], rest) :=
      cutLine_line (by decide) List.not_mem_nil rest
    exact .stop (.all hline rfl List.not_mem_nil)
  | cons h hs ih =>
    obtain ⟨hcolon, hfield, hvalue, htrim⟩ := hok h List.mem_cons_self
    have htext : RequestText.headerText (h :: hs) ++ 13 :: 10 :: rest =
        RequestText.headerLine h ++ 13 :: 10 :: (RequestText.headerText hs ++ 13 :: 10 :: rest) := by
      simp [RequestText.headerText]
    have hno : 10 ∉ RequestText.headerLine h := by
      simp [RequestText.headerLine, hfield, hvalue]
    have hline : findCRLF (RequestText.headerLine h ++ 13 :: 10 :: _) = some (_, _) :=
      cutLine_line (by decide) hno (RequestText.headerText hs ++ 13 :: 10 :: rest)
    have hnext := ih (fun h' hh' => hok h' (List.mem_cons_of_mem h hh'))
      (request.addHeader (RequestText.headerLine h))
    rw [addHeader_text hcolon htrim] at hnext
    rw [htext]
    refine .again (.header hline rfl (by simp [RequestText.headerLine])) ?_
    rw [addHeader_text hcolon htrim]
    exact hnext

theorem parses_render (r : RequestText) (rest : List UInt8) :
    Parses 0 .new (r.render ++ rest) (.returns true ⟨.kGotAll, r.request⟩ rest) := by
  have htext : r.render ++ rest =
      r.requestLine ++ 13 :: 10 :: (RequestText.headerText r.headers ++ 13 :: 10 :: rest) := by
    simp [RequestText.render]
  have hno : 10 ∉ r.requestLine := by
    have hmethod := (methodString_ok r.method).2
    have hversion := versionString_ok r.version
    simp [RequestText.requestLine, hmethod, hversion, r.path_ok.2.2, r.query_ok.2.1]
  have hline : findCRLF (r.requestLine ++ 13 :: 10 :: _) = some (_, _) :=
    cutLine_line (by decide) hno (RequestText.headerText r.headers ++ 13 :: 10 :: rest)
  rw [htext]
  exact .again (.accept hline rfl (processRequestLine_text r)) (parses_headers r.headers_ok _ rest)

end Mmvx.Net.Http
