/-
  `muduo::Logger` (muduo/base/Logging.{h,cc}): a log record is one `LogStream`, begun by the
  constructor and ended by the destructor with the place in the source and a newline.

  Nothing leaves the buffer, but the trailer is inserted like everything else: what does not fit is
  dropped, the newline included. `log_line_iff` says for which fill levels and file names the record
  ends with a newline.
-/
import Mmvx.Base.LogStream

namespace Mmvx.Base

open Mmvx.Lib

inductive LogLevel where
  | TRACE
  | DEBUG
  | INFO
  | WARN
  | ERROR
  | FATAL
  deriving DecidableEq, Repr

/-- The bytes of a string literal. -/
def ascii (s : String) : List UInt8 := s.toList.map fun c => UInt8.ofNat c.toNat

/-- `LogLevelName`. -/
def LogLevel.name : LogLevel → List UInt8
  | .TRACE => ascii "TRACE "
  | .DEBUG => ascii "DEBUG "
  | .INFO => ascii "INFO  "
  | .WARN => ascii "WARN  "
  | .ERROR => ascii "ERROR "
  | .FATAL => ascii "FATAL "

/-- `Logger::SourceFile`: what follows the last `/`. -/
def sourceFile (path : List UInt8) : List UInt8 := (path.reverse.takeWhile (· ≠ 47)).reverse

/-- An `int`. -/
def Integer.ofInt32 (v : Int32) : Integer where
  type := .int
  value := v.toInt
  min_le := Int32.le_toInt v
  le_max := Int.le_sub_one_of_lt (Int32.toInt_lt v)

/-- What the constructor gets from its surroundings: the formatted time, the id of the thread and
    `strerror`. -/
structure LogContext where
  time : List UInt8
  microseconds : List UInt8
  tidString : List UInt8
  strerror : Int32 → List UInt8

structure Logger where
  stream_ : LogStream
  level_ : LogLevel
  line_ : Int32
  basename_ : List UInt8

namespace Logger

/-- The four constructors. -/
inductive Kind where
  | info
  | level (level : LogLevel)
  | func (level : LogLevel) (func : List UInt8)
  /-- `toAbort` and the `errno` at the call. -/
  | sys (toAbort : Bool) (errno : Int32)

def Kind.logLevel : Kind → LogLevel
  | .info => .INFO
  | .level l => l
  | .func l _ => l
  | .sys true _ => .FATAL
  | .sys false _ => .ERROR

def Kind.savedErrno : Kind → Int32
  | .sys _ errno => errno
  | _ => 0

/-- What the constructor inserts, `formatTime` first. -/
def header (ctx : LogContext) (kind : Kind) : List Insertion :=
  [.string ctx.time, .string ctx.microseconds, .string ctx.tidString,
    .string kind.logLevel.name] ++
  (if kind.savedErrno ≠ 0 then
    [.cstr (some (ctx.strerror kind.savedErrno)), .cstr (some (ascii " (errno=")),
      .integer (.ofInt32 kind.savedErrno), .cstr (some (ascii ") "))]
  else []) ++
  match kind with
  | .func _ func => [.cstr (some func), .char 32]
  | _ => []

/-- `Logger(file, line, …)`. -/
def create (ctx : LogContext) (kind : Kind) (file : List UInt8) (line : Int32) : Option Logger :=
  ((LogStream.mk ⟨[]⟩).insertAll (header ctx kind)).map fun s =>
    ⟨s, kind.logLevel, line, sourceFile file⟩

/-- `logger.stream() << x << y …`. -/
def insertAll (lg : Logger) (xs : List Insertion) : Option Logger :=
  (lg.stream_.insertAll xs).map fun s => { lg with stream_ := s }

/-- What `finish` inserts. -/
def trailer (lg : Logger) : List Insertion :=
  [.cstr (some [32, 45, 32]), .string lg.basename_, .char 58, .integer (.ofInt32 lg.line_),
    .char 10]

/-- What the destructor hands to `g_output`. -/
def record (lg : Logger) : Option (List UInt8) :=
  (lg.stream_.insertAll lg.trailer).map fun s => s.buffer_.bytes

/-- The record is inside the buffer and ends with a newline. -/
def OneLine (lg : Logger) : Prop :=
  ∃ r, lg.record = some r ∧ r.length ≤ kSmallBuffer ∧ r.getLast? = some 10

/-- The room that is left behind `" - "`. -/
def roomAfterDash (lg : Logger) : Nat :=
  if 3 < lg.stream_.room then lg.stream_.room - 3 else lg.stream_.room

/-- There is room for the file name, or for none of it, and for `:` and the newline. Or nothing that
    is inserted last fits, and what is there ends with a newline. -/
def Terminates (lg : Logger) : Prop :=
  (3 ≤ lg.roomAfterDash ∧
    (lg.roomAfterDash ≤ lg.basename_.length ∨ lg.basename_.length + 3 ≤ lg.roomAfterDash)) ∨
  (lg.stream_.room = 1 ∧ lg.stream_.buffer_.bytes.getLast? = some 10) ∨
  (lg.roomAfterDash = lg.basename_.length + 1 ∧ lg.basename_.getLast? = some 10)

instance (lg : Logger) : Decidable lg.Terminates := inferInstanceAs (Decidable (_ ∨ _ ∨ _))

end Logger

namespace Logger

open LogStream

variable {lg : Logger}

theorem record_eq (h : 0 < lg.stream_.room) :
    lg.record = some ((lg.trailer.foldl after lg.stream_).buffer_.bytes) := by
  rw [record, (insertAll_eq h _).1, Option.map_some]

/-- The stream when all but the line number and the newline have been inserted. -/
def untilColon (lg : Logger) : LogStream :=
  ((lg.stream_.after (.cstr (some [32, 45, 32]))).after (.string lg.basename_)).after (.char 58)

/-- The number takes so little of the room it asks for that the newline still fits. -/
theorem trailer_last :
    (lg.trailer.foldl after lg.stream_).buffer_.bytes.getLast? =
      if 2 ≤ lg.untilColon.room then some 10 else lg.untilColon.buffer_.bytes.getLast? := by
  have hfold : lg.trailer.foldl after lg.stream_ =
      (lg.untilColon.after (.integer (.ofInt32 lg.line_))).after (.char 10) := by
    simp only [trailer, List.foldl_cons, List.foldl_nil, untilColon]
  rw [hfold]
  have hlen := length_decimal_le (.ofInt32 lg.line_)
  by_cases hnum : kMaxNumericSize ≤ lg.untilColon.room
  · have hroom : 2 ≤ (lg.untilColon.put (decimal (Integer.ofInt32 lg.line_).value)).room := by
      rw [room_put]
      unfold kMaxNumericSize at hnum
      omega
    have htwo : 2 ≤ lg.untilColon.room := by
      unfold kMaxNumericSize at hnum
      omega
    have hput : lg.untilColon.after (.integer (.ofInt32 lg.line_)) =
        lg.untilColon.put (decimal (Integer.ofInt32 lg.line_).value) := after_put hnum
    rw [hput, after_put (x := .char _) hroom, if_pos htwo]
    exact getLast?_put _ rfl
  · rw [after_drop (x := .integer _) hnum]
    split
    · rename_i htwo
      rw [after_put (x := .char _) htwo]
      exact getLast?_put _ rfl
    · rename_i htwo
      rw [after_drop (x := .char _) htwo]

/-- One byte of room, and a newline before it. -/
def AtEnd (s : LogStream) : Prop := s.room = 1 ∧ s.buffer_.bytes.getLast? = some 10

/-- An insertion that ends with another byte does not lead there. -/
theorem atEnd_after (s : LogStream) {x : Insertion} {c : UInt8} (hc : (text x).1.getLast? = some c)
    (hne : c ≠ 10) : AtEnd (s.after x) ↔ AtEnd s := by
  have hlen := length_text_lt x
  have hpos : 0 < (text x).1.length := List.length_pos_of_mem (List.mem_of_getLast? hc)
  unfold AtEnd
  by_cases h : (text x).2 ≤ s.room
  · rw [after_put h]
    refine iff_of_false ?_ ?_
    · rintro ⟨-, hlast⟩
      rw [getLast?_put s hc] at hlast
      exact hne (Option.some.inj hlast)
    · rintro ⟨hone, -⟩
      omega
  · rw [after_drop h]

/-- The room behind the file name. -/
theorem room_after_name (s : LogStream) (name : List UInt8) :
    (s.after (.string name)).room =
      if name.length < s.room then s.room - name.length else s.room := by
  by_cases h : name.length < s.room
  · have hput : s.after (.string name) = s.put name := after_put (x := .string name) h
    rw [hput, room_put, if_pos h]
  · rw [after_drop (x := .string name) h, if_neg h]

theorem room_after_dash : (lg.stream_.after (.cstr (some [32, 45, 32]))).room = lg.roomAfterDash := by
  unfold roomAfterDash
  by_cases h : 3 < lg.stream_.room
  · rw [after_put (x := .cstr (some [32, 45, 32])) h, room_put, if_pos h]
    rfl
  · rw [after_drop (x := .cstr (some [32, 45, 32])) h, if_neg h]

theorem atEnd_after_name (s : LogStream) (name : List UInt8) :
    AtEnd (s.after (.string name)) ↔
      AtEnd s ∨ s.room = name.length + 1 ∧ name.getLast? = some 10 := by
  unfold AtEnd
  rw [room_after_name]
  by_cases h : name.length < s.room
  · have hput : s.after (.string name) = s.put name := after_put (x := .string name) h
    rw [if_pos h, hput]
    cases hlast : name.getLast? with
    | none =>
      obtain rfl := List.getLast?_eq_none_iff.mp hlast
      simp [put]
    | some c =>
      have hpos : 0 < name.length := List.length_pos_of_mem (List.mem_of_getLast? hlast)
      rw [getLast?_put s hlast]
      constructor
      · rintro ⟨hone, hc⟩
        exact Or.inr ⟨by omega, hc⟩
      · rintro (⟨hone, -⟩ | ⟨hroom, hc⟩)
        · omega
        · exact ⟨by omega, hc⟩
  · rw [if_neg h, after_drop (x := .string name) h]
    constructor
    · exact Or.inl
    · rintro (hend | ⟨hroom, -⟩)
      · exact hend
      · omega

theorem room_untilColon :
    2 ≤ lg.untilColon.room ↔ 3 ≤ lg.roomAfterDash ∧
      (lg.roomAfterDash ≤ lg.basename_.length ∨ lg.basename_.length + 3 ≤ lg.roomAfterDash) := by
  have hname := room_after_name (lg.stream_.after (.cstr (some [32, 45, 32]))) lg.basename_
  rw [room_after_dash] at hname
  have hcolon : 2 ≤ lg.untilColon.room ↔
      3 ≤ ((lg.stream_.after (.cstr (some [32, 45, 32]))).after (.string lg.basename_)).room := by
    unfold untilColon
    by_cases h :
        2 ≤ ((lg.stream_.after (.cstr (some [32, 45, 32]))).after (.string lg.basename_)).room
    · rw [after_put (x := .char _) h, room_put]
      simp only [text, List.length_singleton]
      omega
    · rw [after_drop (x := .char _) h]
      omega
  rw [hcolon, hname]
  split <;> omega

/-- The record of a logger with room for one byte at least. -/
theorem oneLine_iff (h : 0 < lg.stream_.room) : lg.OneLine ↔ lg.Terminates := by
  obtain ⟨-, hpos⟩ := insertAll_eq h lg.trailer
  have hle := Nat.le_of_lt (length_lt_of_room hpos)
  rw [FixedBuffer.length] at hle
  have hcolon : AtEnd lg.untilColon ↔
      AtEnd lg.stream_ ∨ lg.roomAfterDash = lg.basename_.length + 1 ∧
        lg.basename_.getLast? = some 10 := by
    rw [untilColon, atEnd_after _ (x := .char 58) (c := 58) rfl (by decide), atEnd_after_name,
      atEnd_after _ (x := .cstr (some [32, 45, 32])) (c := 32) rfl (by decide), room_after_dash]
  have hroom : 0 < lg.untilColon.room :=
    room_pos_after (room_pos_after (room_pos_after h _) _) _
  have hlast : lg.OneLine ↔ 2 ≤ lg.untilColon.room ∨ AtEnd lg.untilColon := by
    unfold OneLine
    rw [record_eq h]
    constructor
    · rintro ⟨r, hr, -, hend⟩
      rw [← Option.some.inj hr, trailer_last] at hend
      split at hend
      · rename_i htwo
        exact Or.inl htwo
      · exact Or.inr ⟨by omega, hend⟩
    · intro hend
      refine ⟨_, rfl, hle, ?_⟩
      rw [trailer_last]
      split
      · rfl
      · rename_i htwo
        exact (hend.resolve_left htwo).2
  rw [hlast, hcolon, room_untilColon]
  rfl

/-- The logger that a statement has filled when its destructor runs. -/
theorem create_insertAll (ctx : LogContext) (kind : Kind) (file : List UInt8) (line : Int32)
    (xs : List Insertion) :
    ∃ lg, (create ctx kind file line).bind (insertAll · xs) = some lg ∧ 0 < lg.stream_.room ∧
      lg.stream_ = xs.foldl after ((header ctx kind).foldl after ⟨⟨[]⟩⟩) ∧
      lg.basename_ = sourceFile file := by
  have hempty : 0 < (LogStream.mk ⟨[]⟩).room := by decide
  obtain ⟨hheader, hpos⟩ := insertAll_eq hempty (header ctx kind)
  obtain ⟨hxs, hpos'⟩ := insertAll_eq hpos xs
  refine ⟨⟨_, kind.logLevel, line, sourceFile file⟩, ?_, hpos', rfl, rfl⟩
  rw [create, hheader, Option.map_some, Option.bind_some, Logger.insertAll, hxs, Option.map_some]

end Logger

open Logger in
/-- **A log record is one terminated line** exactly when the trailer leaves room for its newline. For
    every logger and every sequence of insertions into it, no write leaves the buffer. The record
    ends with a newline if and only if `Terminates` holds when the destructor runs: the room behind
    `" - "` is three bytes at least, and it is not one or two bytes more than the file name. (Or no
    byte of the trailer fits, or the file name only, and what is there ends with a newline.) -/
theorem log_line_iff (ctx : LogContext) (kind : Kind) (file : List UInt8) (line : Int32)
    (xs : List Insertion) :
    ∃ lg, (Logger.create ctx kind file line).bind (Logger.insertAll · xs) = some lg ∧
      lg.stream_.buffer_.length ≤ kSmallBuffer ∧ (lg.OneLine ↔ lg.Terminates) := by
  obtain ⟨lg, hlg, hpos, -, -⟩ := create_insertAll ctx kind file line xs
  exact ⟨lg, hlg, Nat.le_of_lt (LogStream.length_lt_of_room hpos), oneLine_iff hpos⟩

/-- The surroundings of a logger in the thread 1234 at the first second of 2015. -/
def exampleContext : LogContext where
  time := ascii "20150101 00:00:00"
  microseconds := ascii ".000000Z "
  tidString := ascii " 1234 "
  strerror := fun _ => ascii "Success"

/-- 3961 times `a`. -/
def longText : List UInt8 := List.replicate 3961 97

/-- `LOG_INFO` of a text of 3961 bytes: the header has 38, so that one byte is left, and the whole
    trailer is dropped. -/
theorem log_line_unterminated :
    ¬ ∀ (ctx : LogContext) (kind : Logger.Kind) (file : List UInt8) (line : Int32)
      (xs : List Insertion) (lg : Logger),
      (Logger.create ctx kind file line).bind (Logger.insertAll · xs) = some lg → lg.OneLine := by
  intro h
  obtain ⟨lg, hlg, hpos, hstream, hname⟩ :=
    Logger.create_insertAll exampleContext .info (ascii "HubServer.cc") 42 [.string longText]
  have hline := (Logger.oneLine_iff hpos).mp (h _ _ _ _ _ lg hlg)
  unfold Logger.Terminates Logger.roomAfterDash at hline
  rw [hstream, hname] at hline
  revert hline
  decide +kernel

end Mmvx.Base
