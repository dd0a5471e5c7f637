/-
  `muduo::AsyncLogging` (muduo/base/AsyncLogging.{h,cc}): any number of threads put lines into
  buffers, and one thread writes the buffers to a log file.

  Model. `append` and the swap of the back end are critical sections of one mutex and are one step
  each; what the back end does outside of its critical section is taken in smaller steps, so lines
  may come in between. A wait ends by a notification, by its timeout or for no reason, so it may end
  at any time. An assertion that fails and the use of a null pointer lead to the phase `aborted`.

  The back end owns two spare buffers at the top of its loop and lends them to the front end.
  `async_never_aborts`: it always gets two buffers back, and no assertion fails. `async_stream`: in
  every run the files and the buffers together are the lines in their order, each as a whole, as far
  as a line is shorter than a buffer. Only when more than 25 buffers are swapped at once are lines
  lost: all but those of the first two of these buffers, and a notice is written instead.

  Nothing is written after the loop: what is in the buffers when the back end has finished is lost.
-/
import Mmvx.Base.LogFile
import Mmvx.Lib.Run

namespace Mmvx.Base

open Mmvx.Lib

/-- The size of the buffers of the source. -/
def kLargeBuffer : Nat := 4000 * 1000

namespace AsyncLogging

/-- Where the back end is. -/
inductive Phase where
  | notStarted
  /-- Between `thread_.start()` and the latch. -/
  | starting
  /-- Before the condition of the loop. -/
  | top
  /-- In `waitForSeconds`. -/
  | waiting
  /-- Behind the critical section. -/
  | swapped
  /-- Before buffer `i` of the loop that writes. -/
  | writing (i : Nat)
  /-- Behind that loop. -/
  | refill
  | finished
  | aborted
  deriving DecidableEq, Repr

/-- The object, and the variables of `threadFunc`. A pointer to a buffer may be null. -/
structure State (SIZE : Nat) where
  running_ : Bool
  currentBuffer_ : Option (FixedBuffer SIZE)
  nextBuffer_ : Option (FixedBuffer SIZE)
  buffers_ : List (FixedBuffer SIZE)
  phase : Phase
  newBuffer1 : Option (FixedBuffer SIZE)
  newBuffer2 : Option (FixedBuffer SIZE)
  buffersToWrite : List (FixedBuffer SIZE)
  output : Option LogFile
  deriving DecidableEq, Repr

/-- What the threads can do. A step of the back end comes with what it sees of its surroundings: the
    text of the time for a notice, the clock and `fwrite`. -/
inductive Action where
  | append (logline : List UInt8)
  | start
  | stop
  | thread (stamp : List UInt8) (env : LogEnv)
  deriving DecidableEq, Repr

variable {SIZE : Nat} (cfg : LogSettings)

/-- The constructor. -/
def initial (SIZE : Nat) : State SIZE where
  running_ := false
  currentBuffer_ := some ⟨[]⟩
  nextBuffer_ := some ⟨[]⟩
  buffers_ := []
  phase := .notStarted
  newBuffer1 := none
  newBuffer2 := none
  buffersToWrite := []
  output := none

def abort (s : State SIZE) : State SIZE := { s with phase := .aborted }

/-! ## The front end -/

/-- `currentBuffer_->append(logline, len)`, into a given buffer. -/
def putLine (buf : FixedBuffer SIZE) (logline : List UInt8) (s : State SIZE) : State SIZE :=
  match buf.append logline with
  | some buf => { s with currentBuffer_ := some buf }
  | none => abort s

def append (logline : List UInt8) (s : State SIZE) : State SIZE :=
  match s.currentBuffer_ with
  | none => abort s
  | some cur =>
    if cur.avail > logline.length then putLine cur logline s
    else
      -- the next buffer if there is one, and a new one otherwise
      putLine (s.nextBuffer_.getD ⟨[]⟩) logline
        { s with buffers_ := s.buffers_ ++ [cur], nextBuffer_ := none }

/-! ## The back end -/

/-- The part of the critical section behind the wait. -/
def swap (s : State SIZE) : State SIZE :=
  { s with
    buffers_ := []
    currentBuffer_ := s.newBuffer1
    buffersToWrite := s.buffers_ ++ s.currentBuffer_.toList
    newBuffer1 := none
    nextBuffer_ := if s.nextBuffer_.isSome then s.nextBuffer_ else s.newBuffer2
    newBuffer2 := if s.nextBuffer_.isSome then s.newBuffer2 else none
    phase := .swapped }

/-- A buffer that is there and empty. -/
def isEmptyBuffer (buf : Option (FixedBuffer SIZE)) : Bool := buf.any fun b => b.length == 0

/-- The assertions at the top of the loop, and the critical section up to the wait. -/
def loop (s : State SIZE) : State SIZE :=
  if isEmptyBuffer s.newBuffer1 ∧ isEmptyBuffer s.newBuffer2 ∧ s.buffersToWrite.isEmpty then
    if s.buffers_.isEmpty then { s with phase := .waiting } else swap s
  else abort s

/-- The notice about `n` buffers. -/
def notice (stamp : List UInt8) (n : Nat) : List UInt8 :=
  snprintf 256 (ascii "Dropped log messages at " ++ stamp ++ ascii ", " ++
    decimal ((n : Int) - 2) ++ ascii " larger buffers\n")

/-- `output.append`, and then the phase. -/
def write (text : List UInt8) (env : LogEnv) (next : State SIZE → State SIZE) (s : State SIZE) :
    State SIZE :=
  match s.output.bind (LogFile.append cfg text env) with
  | some output => next { s with output := some output }
  | none => abort s

/-- Too many buffers are dropped. -/
def dropBuffers (stamp : List UInt8) (env : LogEnv) (s : State SIZE) : State SIZE :=
  if s.buffersToWrite.isEmpty then abort s
  else if s.buffersToWrite.length > 25 then
    write cfg (notice stamp s.buffersToWrite.length) env (fun s =>
      { s with buffersToWrite := s.buffersToWrite.take 2, phase := .writing 0 }) s
  else { s with phase := .writing 0 }

/-- One turn of the loop that writes. -/
def writeBuffer (i : Nat) (env : LogEnv) (s : State SIZE) : State SIZE :=
  match s.buffersToWrite[i]? with
  | some buf => write cfg buf.bytes env (fun s => { s with phase := .writing (i + 1) }) s
  | none => { s with phase := .refill }

/-- `buffersToWrite.pop_back()` and `reset()`, if the spare buffer is gone; the assertion says that
    there is one to take. -/
def takeBack (spare : Option (FixedBuffer SIZE)) (bufs : List (FixedBuffer SIZE)) :
    Option (Option (FixedBuffer SIZE) × List (FixedBuffer SIZE)) :=
  match spare with
  | some buf => some (some buf, bufs)
  | none => if bufs.isEmpty then none else some (some ⟨[]⟩, bufs.dropLast)

/-- The spare buffers are taken back from what has been written. -/
def refill (s : State SIZE) : State SIZE :=
  match takeBack s.newBuffer1 (s.buffersToWrite.take 2) with
  | none => abort s
  | some (newBuffer1, bufs) =>
    match takeBack s.newBuffer2 bufs with
    | none => abort s
    | some (newBuffer2, _) =>
      { s with newBuffer1, newBuffer2, buffersToWrite := [], phase := .top }

/-- One step of `threadFunc`. -/
def thread (stamp : List UInt8) (env : LogEnv) (s : State SIZE) : Option (State SIZE) :=
  match s.phase with
  | .starting =>
    if s.running_ then
      some <| match LogFile.create cfg env.rollNow with
        | some output => { s with
            output := some output, newBuffer1 := some ⟨[]⟩, newBuffer2 := some ⟨[]⟩, phase := .top }
        | none => abort s
    else some (abort s)
  | .top => some (if s.running_ then loop s else { s with phase := .finished })
  | .waiting => some (swap s)
  | .swapped => some (dropBuffers cfg stamp env s)
  | .writing i => some (writeBuffer cfg i env s)
  | .refill => some (refill s)
  | .notStarted | .finished | .aborted => none

/-- `start` returns when the latch is open, so `stop` comes later. -/
def step (s : State SIZE) : Action → Option (State SIZE)
  | .append logline => if s.phase = .aborted then none else some (append logline s)
  | .start =>
    if s.phase = .notStarted then some { s with running_ := true, phase := .starting } else none
  | .stop =>
    if s.phase = .notStarted ∨ s.phase = .starting ∨ s.phase = .aborted then none
    else some { s with running_ := false }
  | .thread stamp env => thread cfg stamp env s

/-! ## What is in flight -/

/-- The bytes of buffers, one behind the other. -/
def bytesOf (bufs : List (FixedBuffer SIZE)) : List UInt8 := bufs.flatMap (·.bytes)

/-- The buffers that the back end has still to write. -/
def toWrite (s : State SIZE) : List (FixedBuffer SIZE) :=
  match s.phase with
  | .swapped => s.buffersToWrite
  | .writing i => s.buffersToWrite.drop i
  | _ => []

/-- The bytes that are in the buffers, in the order in which they will be written. -/
def pending (s : State SIZE) : List UInt8 :=
  bytesOf (toWrite s) ++ bytesOf s.buffers_ ++ bytesOf s.currentBuffer_.toList

/-- The lines of a run that fit into a buffer. -/
def accepted (SIZE : Nat) (as : List Action) : List (List UInt8) :=
  as.filterMap fun
    | .append logline => if logline.length < SIZE then some logline else none
    | _ => none

/-- The clock and `fwrite` behave in every step of the back end, and the clock is behind the
    epoch. -/
def EnvsOk (as : List Action) : Prop :=
  ∀ stamp env, Action.thread stamp env ∈ as → LogFile.EnvOk env ∧ 0 < env.rollNow

/-! ## The spare buffers -/

/-- The two spare buffers are there, empty. -/
def Spare (s : State SIZE) : Prop := s.newBuffer1 = some ⟨[]⟩ ∧ s.newBuffer2 = some ⟨[]⟩

/-- One spare buffer is lent, or both; as many can be taken back. -/
def Lent (s : State SIZE) : Prop :=
  s.newBuffer1 = none ∧ s.buffersToWrite ≠ [] ∧
    (s.newBuffer2 = some ⟨[]⟩ ∨ s.newBuffer2 = none ∧ 2 ≤ s.buffersToWrite.length)

/-- The buffers in each phase, and the chunks that the log file holds. -/
structure Pool (s : State SIZE) (chunks : List (List UInt8)) : Prop where
  current : ∃ cur, s.currentBuffer_ = some cur ∧ cur.length ≤ SIZE
  next : s.nextBuffer_ = some ⟨[]⟩ ∨ s.nextBuffer_ = none ∧ s.buffers_ ≠ []
  phase : match s.phase with
    | .notStarted => chunks = [] ∧ s.buffersToWrite = []
    | .starting => s.running_ = true ∧ chunks = [] ∧ s.buffersToWrite = []
    | .top | .waiting => Spare s ∧ s.buffersToWrite = []
    | .swapped | .writing _ | .refill => Lent s
    | .finished => True
    | .aborted => False
  output : match s.phase with
    | .notStarted | .starting => s.output = none
    | _ => ∃ log, s.output = some log ∧ LogFile.Holds cfg log chunks

/-- A line is put into a buffer if there is more room than it needs, and dropped otherwise. -/
theorem append_eq (hSIZE : SIZE ≤ 2147483647) {buf : FixedBuffer SIZE} (h : buf.length ≤ SIZE)
    (data : List UInt8) :
    buf.append data =
      some (if data.length < SIZE - buf.length then ⟨buf.bytes ++ data⟩ else buf) := by
  have hmod : (buf.avail % 2 ^ 64).toNat = SIZE - buf.length := by
    unfold FixedBuffer.avail
    omega
  unfold FixedBuffer.append
  rw [hmod]
  by_cases hfit : data.length < SIZE - buf.length
  · rw [if_pos hfit, if_pos hfit, FixedBuffer.write, if_pos (by omega), List.take_length]
  · rw [if_neg (by omega), if_neg hfit]

@[simp] theorem bytesOf_nil : bytesOf ([] : List (FixedBuffer SIZE)) = [] := rfl

@[simp] theorem bytesOf_cons (buf : FixedBuffer SIZE) (bufs : List (FixedBuffer SIZE)) :
    bytesOf (buf :: bufs) = buf.bytes ++ bytesOf bufs := List.flatMap_cons

@[simp] theorem bytesOf_append (bufs bufs' : List (FixedBuffer SIZE)) :
    bytesOf (bufs ++ bufs') = bytesOf bufs ++ bytesOf bufs' := List.flatMap_append

variable {cfg} {s : State SIZE} {chunks : List (List UInt8)}

/-- The front end changes nothing of the back end. -/
theorem Pool.front (h : Pool cfg s chunks) {cur : FixedBuffer SIZE} (hcur : cur.length ≤ SIZE)
    {next : Option (FixedBuffer SIZE)} {bufs : List (FixedBuffer SIZE)}
    (hnext : next = some ⟨[]⟩ ∨ next = none ∧ bufs ≠ []) :
    Pool cfg { s with currentBuffer_ := some cur, nextBuffer_ := next, buffers_ := bufs } chunks :=
  ⟨⟨cur, rfl, hcur⟩, hnext, h.phase, h.output⟩

theorem pool_append (hSIZE : SIZE ≤ 2147483647) (h : Pool cfg s chunks) (l : List UInt8) :
    Pool cfg (append l s) chunks ∧
      pending (append l s) = pending s ++ if l.length < SIZE then l else [] := by
  obtain ⟨cur, hcur, hlen⟩ := h.current
  unfold append
  rw [hcur]
  dsimp only
  by_cases hroom : l.length < SIZE - cur.length
  · have hput : putLine cur l s = { s with currentBuffer_ := some ⟨cur.bytes ++ l⟩ } := by
      rw [putLine, append_eq hSIZE hlen, if_pos hroom]
    rw [if_pos (by unfold FixedBuffer.avail; omega), hput, if_pos (by omega)]
    refine ⟨h.front ?_ h.next, ?_⟩
    · simp only [FixedBuffer.length, List.length_append] at hroom ⊢
      omega
    · show bytesOf (toWrite s) ++ bytesOf s.buffers_ ++ bytesOf [⟨cur.bytes ++ l⟩] =
        bytesOf (toWrite s) ++ bytesOf s.buffers_ ++ bytesOf s.currentBuffer_.toList ++ l
      rw [hcur]
      simp
  · have hnext : s.nextBuffer_.getD ⟨[]⟩ = ⟨[]⟩ := by
      rcases h.next with hn | ⟨hn, -⟩ <;> rw [hn] <;> rfl
    have hzero : FixedBuffer.length (⟨[]⟩ : FixedBuffer SIZE) ≤ SIZE := Nat.zero_le SIZE
    have hempty := append_eq hSIZE hzero l
    rw [if_neg (by unfold FixedBuffer.avail; omega), hnext, putLine, hempty]
    dsimp only
    rw [show SIZE - FixedBuffer.length (⟨[]⟩ : FixedBuffer SIZE) = SIZE from rfl]
    refine ⟨h.front ?_ (Or.inr ⟨rfl, by simp⟩), ?_⟩
    · split
      · simp only [FixedBuffer.length, List.nil_append]
        omega
      · exact Nat.zero_le SIZE
    · show bytesOf (toWrite s) ++ bytesOf (s.buffers_ ++ [cur]) ++
          bytesOf [if l.length < SIZE then ⟨[] ++ l⟩ else ⟨[]⟩] =
        bytesOf (toWrite s) ++ bytesOf s.buffers_ ++ bytesOf s.currentBuffer_.toList ++ _
      rw [hcur]
      split <;> simp

/-! ## The stream of the lines -/

/-- What the logger is for: lines are accepted at one end and written at the other. A drop loses a
    part of what is not written yet, behind what it keeps, and writes a notice. `n` counts the
    drops, `written` is what has been written and `rest` what is still to write. -/
inductive Stream : Nat → List (List UInt8) → List UInt8 → List UInt8 → Prop
  | init : Stream 0 [] [] []
  | accept {n lines written rest} (l : List UInt8) :
    Stream n lines written rest → Stream n (lines ++ [l]) written (rest ++ l)
  | write {n lines written rest} (b : List UInt8) :
    Stream n lines written (b ++ rest) → Stream n lines (written ++ b) rest
  | drop {n lines written} (keep lost rest stamp : List UInt8) (k : Nat) :
    Stream n lines written (keep ++ lost ++ rest) →
      Stream (n + 1) lines (written ++ notice stamp k) (keep ++ rest)

/-- Without a drop nothing is lost. -/
theorem Stream.eq_flatten {lines : List (List UInt8)} {written rest : List UInt8} {n : Nat}
    (h : Stream n lines written rest) (hn : n = 0) : written ++ rest = lines.flatten := by
  induction h with
  | init => rfl
  | accept l _ ih =>
    rw [← List.append_assoc, ih hn]
    simp
  | write b _ ih =>
    rw [List.append_assoc]
    exact ih hn
  | drop => omega

/-- The buffers are in order, and they and the files hold the stream. -/
structure Inv (cfg : LogSettings) (s : State SIZE) (lines : List (List UInt8)) (n : Nat) : Prop where
  holds : ∃ chunks, Pool cfg s chunks ∧ Stream n lines chunks.flatten (pending s)

theorem inv_initial (cfg : LogSettings) (SIZE : Nat) : Inv cfg (initial SIZE) [] 0 := by
  refine ⟨[], ⟨⟨⟨[]⟩, rfl, Nat.zero_le SIZE⟩, Or.inl rfl, ⟨rfl, rfl⟩, rfl⟩, ?_⟩
  exact Stream.init

theorem inv_append (hSIZE : SIZE ≤ 2147483647) {lines : List (List UInt8)} {n : Nat}
    (h : Inv cfg s lines n) (l : List UInt8) :
    Inv cfg (append l s) (lines ++ if l.length < SIZE then [l] else []) n := by
  obtain ⟨chunks, hpool, hstream⟩ := h
  obtain ⟨hpool', hpending⟩ := pool_append hSIZE hpool l
  refine ⟨chunks, hpool', ?_⟩
  rw [hpending]
  split
  · exact hstream.accept l
  · rwa [List.append_nil, List.append_nil]

/-- The current buffer goes with the others, and the spare buffers take their places. -/
theorem pool_swap (h : Pool cfg s chunks) (hspare : Spare s)
    (hout : ∃ log, s.output = some log ∧ LogFile.Holds cfg log chunks)
    (hwrite : toWrite s = []) :
    Pool cfg (swap s) chunks ∧ pending (swap s) = pending s := by
  obtain ⟨cur, hcur, -⟩ := h.current
  obtain ⟨hnew1, hnew2⟩ := hspare
  refine ⟨⟨⟨⟨[]⟩, hnew1, Nat.zero_le SIZE⟩, ?_, ?_, hout⟩, ?_⟩
  · rcases h.next with hn | ⟨hn, -⟩
    · refine Or.inl ?_
      simp [swap, hn]
    · refine Or.inl ?_
      simp [swap, hn, hnew2]
  · refine ⟨rfl, ?_, ?_⟩
    · simp [swap, hcur]
    · rcases h.next with hn | ⟨hn, hne⟩
      · refine Or.inl ?_
        simp [swap, hn, hnew2]
      · -- both are lent: the front end has filled a buffer before
        refine Or.inr ⟨by simp [swap, hn], ?_⟩
        have := List.length_pos_iff.mpr hne
        simp only [swap, hcur, Option.toList_some, List.length_append, List.length_singleton]
        omega
  · show bytesOf (s.buffers_ ++ s.currentBuffer_.toList) ++ bytesOf [] ++
      bytesOf s.newBuffer1.toList = bytesOf (toWrite s) ++ _ ++ _
    rw [hwrite, hnew1]
    simp

theorem Lent.takeBack (h : Lent s) :
    ∃ bufs bufs', takeBack s.newBuffer1 (s.buffersToWrite.take 2) = some (some ⟨[]⟩, bufs) ∧
      AsyncLogging.takeBack s.newBuffer2 bufs = some (some ⟨[]⟩, bufs') := by
  obtain ⟨hnew1, hne, hnew2⟩ := h
  have htake : (s.buffersToWrite.take 2).isEmpty = false := by
    cases hbufs : s.buffersToWrite with
    | nil => exact absurd hbufs hne
    | cons b bufs => rfl
  refine ⟨(s.buffersToWrite.take 2).dropLast, ?_⟩
  rcases hnew2 with hnew2 | ⟨hnew2, hlen⟩
  · refine ⟨(s.buffersToWrite.take 2).dropLast, ?_, ?_⟩
    · simp [AsyncLogging.takeBack, hnew1, htake]
    · simp [AsyncLogging.takeBack, hnew2]
  · have htwo : ((s.buffersToWrite.take 2).dropLast).isEmpty = false := by
      rw [← Bool.not_eq_true, List.isEmpty_iff_length_eq_zero]
      simp
      omega
    refine ⟨(s.buffersToWrite.take 2).dropLast.dropLast, ?_, ?_⟩
    · simp [AsyncLogging.takeBack, hnew1, htake]
    · simp [AsyncLogging.takeBack, hnew2, htwo]

/-- A text is written to the log file. -/
theorem write_eq (hout : ∃ log, s.output = some log ∧ LogFile.Holds cfg log chunks)
    (text : List UInt8) {env : LogEnv} (henv : LogFile.EnvOk env)
    (next : State SIZE → State SIZE) :
    ∃ log, write cfg text env next s = next { s with output := some log } ∧
      LogFile.Holds cfg log (chunks ++ [text]) := by
  obtain ⟨log, hlog, hholds⟩ := hout
  obtain ⟨log', happend, hholds'⟩ := LogFile.holds_append hholds text henv
  refine ⟨log', ?_, hholds'⟩
  rw [write, hlog, Option.bind_some, happend]

variable {lines : List (List UInt8)} {n : Nat} {env : LogEnv}

theorem inv_dropBuffers (stamp : List UInt8) (h : Inv cfg s lines n) (hphase : s.phase = .swapped)
    (henv : LogFile.EnvOk env) :
    ∃ n', Inv cfg (dropBuffers cfg stamp env s) lines n' ∧
      (n' = n ∨ 25 < s.buffersToWrite.length) := by
  obtain ⟨chunks, hpool, hstream⟩ := h
  have hlent : Lent s := by
    have := hpool.phase
    rwa [hphase] at this
  have hout : ∃ log, s.output = some log ∧ LogFile.Holds cfg log chunks := by
    have := hpool.output
    rwa [hphase] at this
  have hpending : pending s = bytesOf s.buffersToWrite ++ bytesOf s.buffers_ ++
      bytesOf s.currentBuffer_.toList := by
    unfold pending toWrite
    rw [hphase]
  unfold dropBuffers
  rw [if_neg (by simpa using hlent.2.1)]
  split
  · rename_i hmany
    obtain ⟨log, hwrite, hholds⟩ := write_eq hout (notice stamp s.buffersToWrite.length) henv
      fun s => { s with buffersToWrite := s.buffersToWrite.take 2, phase := .writing 0 }
    rw [hwrite]
    refine ⟨n + 1, ⟨_, ⟨hpool.current, hpool.next, ?_, ⟨log, rfl, hholds⟩⟩, ?_⟩, Or.inr hmany⟩
    · refine ⟨hlent.1, ?_, ?_⟩
      · intro hnil
        have := congrArg List.length hnil
        simp only [List.length_take, List.length_nil] at this
        omega
      · rcases hlent.2.2 with hnew | ⟨hnew, -⟩
        · exact Or.inl hnew
        · exact Or.inr ⟨hnew, by simp only [List.length_take]; omega⟩
    · show Stream (n + 1) lines (chunks ++ [_]).flatten (bytesOf ((s.buffersToWrite.take 2).drop 0) ++
        bytesOf s.buffers_ ++ bytesOf s.currentBuffer_.toList)
      rw [hpending, ← List.take_append_drop 2 s.buffersToWrite, bytesOf_append, List.append_assoc]
        at hstream
      have hdrop := hstream.drop _ _ _ stamp s.buffersToWrite.length
      simpa using hdrop
  · refine ⟨n, ⟨chunks, ⟨hpool.current, hpool.next, hlent, hout⟩, ?_⟩, Or.inl rfl⟩
    rw [hpending] at hstream
    exact hstream

theorem inv_writeBuffer {i : Nat} (h : Inv cfg s lines n) (hphase : s.phase = .writing i)
    (henv : LogFile.EnvOk env) : Inv cfg (writeBuffer cfg i env s) lines n := by
  obtain ⟨chunks, hpool, hstream⟩ := h
  have hlent : Lent s := by
    have := hpool.phase
    rwa [hphase] at this
  have hout : ∃ log, s.output = some log ∧ LogFile.Holds cfg log chunks := by
    have := hpool.output
    rwa [hphase] at this
  have hpending : pending s = bytesOf (s.buffersToWrite.drop i) ++ bytesOf s.buffers_ ++
      bytesOf s.currentBuffer_.toList := by
    unfold pending toWrite
    rw [hphase]
  rw [hpending] at hstream
  unfold writeBuffer
  cases hget : s.buffersToWrite[i]? with
  | none =>
    refine ⟨chunks, ⟨hpool.current, hpool.next, hlent, hout⟩, ?_⟩
    rw [List.drop_eq_nil_of_le (List.getElem?_eq_none_iff.mp hget)] at hstream
    exact hstream
  | some buf =>
    obtain ⟨log, hwrite, hholds⟩ := write_eq hout buf.bytes henv
      fun s => { s with phase := .writing (i + 1) }
    dsimp only
    rw [hwrite]
    refine ⟨_, ⟨hpool.current, hpool.next, hlent, ⟨log, rfl, hholds⟩⟩, ?_⟩
    obtain ⟨hi, hbuf⟩ := List.getElem?_eq_some_iff.mp hget
    rw [List.drop_eq_getElem_cons hi, hbuf, bytesOf_cons, List.append_assoc, List.append_assoc]
      at hstream
    show Stream n lines (chunks ++ [buf.bytes]).flatten (bytesOf (s.buffersToWrite.drop (i + 1)) ++
      bytesOf s.buffers_ ++ bytesOf s.currentBuffer_.toList)
    rw [List.flatten_append, List.append_assoc]
    simpa using hstream.write

theorem inv_refill (h : Inv cfg s lines n) (hphase : s.phase = .refill) :
    Inv cfg (refill s) lines n := by
  obtain ⟨chunks, hpool, hstream⟩ := h
  have hlent : Lent s := by
    have := hpool.phase
    rwa [hphase] at this
  have hout : ∃ log, s.output = some log ∧ LogFile.Holds cfg log chunks := by
    have := hpool.output
    rwa [hphase] at this
  obtain ⟨bufs, bufs', hfirst, hsecond⟩ := hlent.takeBack
  unfold refill
  rw [hfirst]
  dsimp only
  rw [hsecond]
  refine ⟨chunks, ⟨hpool.current, hpool.next, ⟨⟨rfl, rfl⟩, rfl⟩, hout⟩, ?_⟩
  unfold pending toWrite at hstream
  rw [hphase] at hstream
  exact hstream

theorem inv_swap (h : Inv cfg s lines n) (hphase : s.phase = .top ∨ s.phase = .waiting) :
    Inv cfg (swap s) lines n := by
  obtain ⟨chunks, hpool, hstream⟩ := h
  have hspare : Spare s := by
    have := hpool.phase
    rcases hphase with hphase | hphase <;> rw [hphase] at this <;> exact this.1
  have hout : ∃ log, s.output = some log ∧ LogFile.Holds cfg log chunks := by
    have := hpool.output
    rcases hphase with hphase | hphase <;> rw [hphase] at this <;> exact this
  have hwrite : toWrite s = [] := by
    unfold toWrite
    rcases hphase with hphase | hphase <;> rw [hphase]
  obtain ⟨hpool', hpending⟩ := pool_swap hpool hspare hout hwrite
  refine ⟨chunks, hpool', ?_⟩
  rwa [hpending]

theorem inv_loop (h : Inv cfg s lines n) (hphase : s.phase = .top) : Inv cfg (loop s) lines n := by
  have hswap := inv_swap h (Or.inl hphase)
  obtain ⟨chunks, hpool, hstream⟩ := h
  have hspare := hpool.phase
  rw [hphase] at hspare
  obtain ⟨⟨hnew1, hnew2⟩, hnone⟩ := hspare
  have hout := hpool.output
  rw [hphase] at hout
  have hasserts : isEmptyBuffer s.newBuffer1 ∧ isEmptyBuffer s.newBuffer2 ∧
      s.buffersToWrite.isEmpty := by
    rw [hnew1, hnew2, hnone]
    exact ⟨rfl, rfl, rfl⟩
  unfold loop
  rw [if_pos hasserts]
  split
  · refine ⟨chunks, ⟨hpool.current, hpool.next, ⟨⟨hnew1, hnew2⟩, hnone⟩, hout⟩, ?_⟩
    unfold pending toWrite at hstream
    rw [hphase] at hstream
    exact hstream
  · exact hswap

/-- A step of the back end keeps the invariant, and drops only if there are too many buffers. -/
theorem inv_thread (stamp : List UInt8) (h : Inv cfg s lines n) (henv : LogFile.EnvOk env)
    (hpos : 0 < env.rollNow) {s' : State SIZE} (hstep : thread cfg stamp env s = some s') :
    ∃ n', Inv cfg s' lines n' ∧ (n' = n ∨ 25 < s.buffersToWrite.length) := by
  unfold thread at hstep
  cases hphase : s.phase with
  | notStarted | finished | aborted => rw [hphase] at hstep; cases hstep
  | starting =>
    rw [hphase] at hstep
    obtain ⟨chunks, hpool, hstream⟩ := h
    have hstart := hpool.phase
    rw [hphase] at hstart
    obtain ⟨hrunning, rfl, hnone⟩ := hstart
    obtain ⟨log, hlog, hholds⟩ := LogFile.holds_create cfg henv.clock hpos
    simp only [hrunning, if_true, hlog, Option.some.injEq] at hstep
    subst hstep
    refine ⟨n, ⟨[], ⟨hpool.current, hpool.next, ⟨⟨rfl, rfl⟩, hnone⟩, ⟨log, rfl, hholds⟩⟩, ?_⟩,
      Or.inl rfl⟩
    unfold pending toWrite at hstream
    rw [hphase] at hstream
    exact hstream
  | top =>
    rw [hphase] at hstep
    obtain rfl := Option.some.inj hstep
    refine ⟨n, ?_, Or.inl rfl⟩
    split
    · exact inv_loop h hphase
    · obtain ⟨chunks, hpool, hstream⟩ := h
      have hout := hpool.output
      rw [hphase] at hout
      refine ⟨chunks, ⟨hpool.current, hpool.next, trivial, hout⟩, ?_⟩
      unfold pending toWrite at hstream
      rw [hphase] at hstream
      exact hstream
  | waiting =>
    rw [hphase] at hstep
    obtain rfl := Option.some.inj hstep
    exact ⟨n, inv_swap h (Or.inr hphase), Or.inl rfl⟩
  | swapped =>
    rw [hphase] at hstep
    obtain rfl := Option.some.inj hstep
    exact inv_dropBuffers stamp h hphase henv
  | writing i =>
    rw [hphase] at hstep
    obtain rfl := Option.some.inj hstep
    exact ⟨n, inv_writeBuffer h hphase henv, Or.inl rfl⟩
  | refill =>
    rw [hphase] at hstep
    obtain rfl := Option.some.inj hstep
    exact ⟨n, inv_refill h hphase, Or.inl rfl⟩

/-! ## Runs -/

theorem accepted_append (as : List Action) (a : Action) :
    accepted SIZE (as ++ [a]) = accepted SIZE as ++ accepted SIZE [a] := List.filterMap_append

/-- A run passes a state in which more than 25 buffers have been swapped. -/
def Overruns (cfg : LogSettings) (SIZE : Nat) (as : List Action) : Prop :=
  ∃ pre t, pre <+: as ∧ run (step cfg) (initial SIZE) pre = some t ∧ 25 < t.buffersToWrite.length

theorem inv_start (h : Inv cfg s lines n) (hphase : s.phase = .notStarted) :
    Inv cfg { s with running_ := true, phase := .starting } lines n := by
  obtain ⟨chunks, hpool, hstream⟩ := h
  have hnone := hpool.phase
  have hout := hpool.output
  rw [hphase] at hnone hout
  refine ⟨chunks, ⟨hpool.current, hpool.next, ⟨rfl, hnone.1, hnone.2⟩, hout⟩, ?_⟩
  unfold pending toWrite at hstream
  rw [hphase] at hstream
  exact hstream

theorem inv_stop (h : Inv cfg s lines n) (hphase : s.phase ≠ .starting) :
    Inv cfg { s with running_ := false } lines n := by
  obtain ⟨chunks, hpool, hstream⟩ := h
  refine ⟨chunks, ⟨hpool.current, hpool.next, ?_, hpool.output⟩, hstream⟩
  have hphases := hpool.phase
  cases hcase : s.phase with
  | starting => exact absurd hcase hphase
  | notStarted | top | waiting | swapped | writing i | refill | finished | aborted =>
    rw [hcase] at hphases
    exact hphases

/-- Every run keeps the invariant, and drops only after an overrun. -/
theorem inv_run (hSIZE : SIZE ≤ 2147483647) {as : List Action}
    (hrun : run (step cfg) (initial SIZE) as = some s) (henvs : EnvsOk as) :
    ∃ n, Inv cfg s (accepted SIZE as) n ∧ (n = 0 ∨ Overruns cfg SIZE as) := by
  refine run_history (P := fun as s => EnvsOk as → ∃ n, Inv cfg s (accepted SIZE as) n ∧
    (n = 0 ∨ Overruns cfg SIZE as)) ?_ ?_ hrun henvs
  · intro _
    exact ⟨0, inv_initial cfg SIZE, Or.inl rfl⟩
  · intro as a s s' ih hs hstep henvs
    obtain ⟨n, hinv, hdrops⟩ := ih fun stamp env hmem => henvs stamp env (List.mem_append_left _ hmem)
    have hdrops' : n = 0 ∨ Overruns cfg SIZE (as ++ [a]) :=
      hdrops.imp_right fun ⟨pre, t, hpre, ht, hlen⟩ =>
        ⟨pre, t, hpre.trans (List.prefix_append _ _), ht, hlen⟩
    rw [accepted_append]
    cases a with
    | append l =>
      simp only [step] at hstep
      split at hstep
      · cases hstep
      · obtain rfl := Option.some.inj hstep
        refine ⟨n, ?_, hdrops'⟩
        have hline : accepted SIZE [.append l] = if l.length < SIZE then [l] else [] := by
          unfold accepted
          by_cases hlen : l.length < SIZE <;> simp [hlen]
        rw [hline]
        exact inv_append hSIZE hinv l
    | start =>
      simp only [step] at hstep
      split at hstep
      · rename_i hphase
        obtain rfl := Option.some.inj hstep
        refine ⟨n, ?_, hdrops'⟩
        rw [show accepted SIZE [.start] = [] from rfl, List.append_nil]
        exact inv_start hinv hphase
      · cases hstep
    | stop =>
      simp only [step] at hstep
      split at hstep
      · cases hstep
      · rename_i hphase
        obtain rfl := Option.some.inj hstep
        refine ⟨n, ?_, hdrops'⟩
        rw [show accepted SIZE [.stop] = [] from rfl, List.append_nil]
        exact inv_stop hinv fun hstarting => hphase (Or.inr (Or.inl hstarting))
    | thread stamp env =>
      obtain ⟨henv, hpos⟩ := henvs stamp env (by simp)
      obtain ⟨n', hinv', hn'⟩ := inv_thread stamp hinv henv hpos hstep
      rw [show accepted SIZE [.thread stamp env] = [] from rfl, List.append_nil]
      refine ⟨n', hinv', ?_⟩
      rcases hn' with rfl | hmany
      · exact hdrops'
      · exact Or.inr ⟨as, s, List.prefix_append _ _, hs, hmany⟩

/-- **The back end gets its buffers back.** In every run, whatever lines come in while it works, no
    assertion of the back end fails and no null pointer is used, and the back end can go on unless
    it has not been started or has finished. -/
theorem async_never_aborts (hSIZE : SIZE ≤ 2147483647) {as : List Action}
    (hrun : run (step cfg) (initial SIZE) as = some s) (henvs : EnvsOk as) :
    s.phase ≠ .aborted ∧
      (s.phase = .notStarted ∨ s.phase = .finished ∨
        ∀ stamp env, (step cfg s (.thread stamp env)).isSome = true) := by
  obtain ⟨n, ⟨chunks, hpool, -⟩, -⟩ := inv_run hSIZE hrun henvs
  have hphase := hpool.phase
  refine ⟨?_, ?_⟩
  · intro haborted
    rw [haborted] at hphase
    exact hphase
  · cases hcase : s.phase with
    | notStarted => exact Or.inl rfl
    | finished => exact Or.inr (Or.inl rfl)
    | aborted =>
      rw [hcase] at hphase
      exact hphase.elim
    | starting =>
      rw [hcase] at hphase
      refine Or.inr (Or.inr fun stamp env => ?_)
      simp [step, thread, hcase, hphase.1]
    | top | waiting | swapped | writing i | refill =>
      refine Or.inr (Or.inr fun stamp env => ?_)
      simp [step, thread, hcase]

/-- The bytes of all files of the log, oldest first. -/
def fileBytes (s : State SIZE) : List UInt8 :=
  s.output.toList.flatMap fun log => (LogFile.files log).flatMap (·.bytes)

theorem bytes_of_holds {log : LogFile} (h : LogFile.Holds cfg log chunks) :
    (LogFile.files log).flatMap (·.bytes) = chunks.flatten := by
  obtain ⟨groups, hgroups, rfl⟩ := h.2.groups
  rw [List.flatMap_def, hgroups, List.flatten_flatten]

theorem fileBytes_eq (hpool : Pool cfg s chunks) : fileBytes s = chunks.flatten := by
  have hout := hpool.output
  have hphase := hpool.phase
  cases hcase : s.phase with
  | notStarted =>
    rw [hcase] at hout hphase
    rw [fileBytes, hout, hphase.1]
    rfl
  | starting =>
    rw [hcase] at hout hphase
    rw [fileBytes, hout, hphase.2.1]
    rfl
  | top | waiting | swapped | writing i | refill | finished | aborted =>
    rw [hcase] at hout
    obtain ⟨log, hlog, hholds⟩ := hout
    rw [fileBytes, hlog, Option.toList_some, List.flatMap_singleton, bytes_of_holds hholds]

/-- **Lines are written in order and as a whole.** In every run the files and the buffers hold the
    stream of the lines that fit into a buffer, up to drops. In a run that never swaps more than 25
    buffers at once nothing is dropped: the bytes of the files and of the buffers together are the
    lines, in their order. -/
theorem async_stream (hSIZE : SIZE ≤ 2147483647) {as : List Action}
    (hrun : run (step cfg) (initial SIZE) as = some s) (henvs : EnvsOk as) :
    (∃ n, Stream n (accepted SIZE as) (fileBytes s) (pending s)) ∧
      (¬ Overruns cfg SIZE as → fileBytes s ++ pending s = (accepted SIZE as).flatten) := by
  obtain ⟨n, ⟨chunks, hpool, hstream⟩, hdrops⟩ := inv_run hSIZE hrun henvs
  rw [← fileBytes_eq hpool] at hstream
  refine ⟨⟨n, hstream⟩, ?_⟩
  intro hrare
  rcases hdrops with rfl | hover
  · exact hstream.eq_flatten rfl
  · exact absurd hover hrare

/-- Two lines before the buffers are swapped, and one after it. -/
def shortRun : List Action :=
  let back := Action.thread [] ⟨1700000000, 1700000000, []⟩
  [.append [97, 10], .start, back, back, .append [98, 98, 98, 98, 98, 10], back, back, back,
    .append [99, 10], back, back, .stop, back]

def shortSettings : LogSettings := ⟨[108], 1000, 1024, [104], 1⟩

theorem envsOk_shortRun : EnvsOk shortRun := by
  intro stamp env hmem
  have henv : env = ⟨1700000000, 1700000000, []⟩ := by
    simp only [shortRun, List.mem_cons, Action.thread.injEq, reduceCtorEq, List.not_mem_nil,
      false_or, or_false] at hmem
    rcases hmem with h | h | h | h | h | h | h | h <;> exact h.2
  subst henv
  exact ⟨⟨by decide, by decide⟩, by decide⟩

theorem async_never_aborts_short : ∃ s, run (step shortSettings) (initial kLargeBuffer) shortRun = some s ∧
    s.phase = .finished ∧ s.phase ≠ .aborted := by
  obtain ⟨s, hrun, hphase⟩ : ∃ s, run (step shortSettings) (initial kLargeBuffer) shortRun = some s ∧
      s.phase = .finished := exists_run shortRun (by decide +kernel)
  exact ⟨s, hrun, hphase, (async_never_aborts (by decide) hrun envsOk_shortRun).1⟩

/-- Two lines are written, and the third one stays in a buffer. -/
theorem async_stream_short : ∃ s, run (step shortSettings) (initial kLargeBuffer) shortRun = some s ∧
    pending s = [99, 10] ∧
    fileBytes s ++ pending s = (accepted kLargeBuffer shortRun).flatten := by
  obtain ⟨s, hrun, hpending⟩ : ∃ s, run (step shortSettings) (initial kLargeBuffer) shortRun = some s ∧
      pending s = [99, 10] := exists_run shortRun (by decide +kernel)
  refine ⟨s, hrun, hpending, (async_stream (by decide) hrun envsOk_shortRun).2 ?_⟩
  rintro ⟨pre, t, hpre, ht, hmany⟩
  have hall : ∀ k ≤ shortRun.length, (run (step shortSettings) (initial kLargeBuffer) (shortRun.take k)).all
      (fun t => decide (t.buffersToWrite.length ≤ 25)) = true := by decide +kernel
  have hk := hall pre.length hpre.length_le
  rw [← List.prefix_iff_eq_take.mp hpre, ht, Option.all_some] at hk
  have := of_decide_eq_true hk
  omega

end AsyncLogging

end Mmvx.Base
