/-
  `muduo::LogFile` (muduo/base/LogFile.{h,cc}) and the `FileUtil::AppendFile` under it
  (muduo/base/FileUtil.{h,cc}): a log that goes on in a new file when the old one is large or a new
  day has begun.

  A file is named after the second in which it is opened, and is opened for appending: a second file
  of one second would be the first one again. `log_file_lines`: whatever the clock reads, also if it
  is set back, no two files of a log have one name, and the lines are in the files in their order,
  each in one file as a whole.

  What `fwrite` takes of a piece and what the clock reads come from outside. The bytes that `stdio`
  has taken are the file's; when they reach the disk is left open.
-/
import Mmvx.Base.Timestamp

namespace Mmvx.Base

open Mmvx.Lib

/-- What a call sees of its surroundings: the clock as `append_unlocked` and as `getLogFileName`
    read it, and how much each `fwrite` takes before those that take all. -/
structure LogEnv where
  now : Int
  rollNow : Int
  takes : List Nat
  deriving DecidableEq, Repr

/-! ## AppendFile -/

/-- A file, the second after which it is named, and the bytes that `stdio` has taken. -/
structure AppendFile where
  opened : Int
  filename : List UInt8
  bytes : List UInt8
  writtenBytes_ : Nat
  deriving DecidableEq, Repr

namespace AppendFile

/-- The loop of `append`: what is taken of the rest of a line. It ends when nothing is taken. -/
def writeRest : List Nat → List UInt8 → List UInt8
  | _, [] => []
  | [], rest => rest
  | 0 :: _, _ => []
  | n :: takes, rest => rest.take n ++ writeRest takes (rest.drop n)

/-- `append`. The loop begins behind what the first `fwrite` has taken. -/
def append (file : AppendFile) (logline : List UInt8) (takes : List Nat) : AppendFile :=
  let taken := match takes with
    | [] => logline
    | n :: takes => logline.take n ++ writeRest takes (logline.drop n)
  { file with bytes := file.bytes ++ taken, writtenBytes_ := file.writtenBytes_ + logline.length }

end AppendFile

/-! ## LogFile -/

/-- What does not change: the arguments of the constructor, and the names of the host and of the
    process. -/
structure LogSettings where
  basename_ : List UInt8
  rollSize_ : Nat
  checkEveryN_ : Int
  hostname : List UInt8
  pid : Int
  deriving DecidableEq, Repr

/-- The files that have been left are kept, oldest first. -/
structure LogFile where
  count_ : Int
  startOfPeriod_ : Int
  lastRoll_ : Int
  lastFlush_ : Int
  file_ : Option AppendFile
  closed : List AppendFile
  deriving DecidableEq, Repr

namespace LogFile

def kRollPerSeconds_ : Int := 86400

variable (cfg : LogSettings)

/-- `strftime(".%Y%m%d-%H%M%S.")`. -/
def timeText (tm : Tm) : List UInt8 :=
  [46] ++ decimal (tm.tm_year + 1900) ++ zeroPadded 2 (tm.tm_mon + 1) ++ zeroPadded 2 tm.tm_mday ++
    [45] ++ zeroPadded 2 tm.tm_hour ++ zeroPadded 2 tm.tm_min ++ zeroPadded 2 tm.tm_sec ++ [46]

def getLogFileName (now : Int) : Option (List UInt8) :=
  (TimeZone.gmtimeR now).map fun tm =>
    cfg.basename_ ++ timeText tm ++ cfg.hostname ++ ([46] ++ decimal cfg.pid) ++ ascii ".log"

def rollFile (now : Int) (log : LogFile) : Option LogFile :=
  (getLogFileName cfg now).map fun filename =>
    if now > log.lastRoll_ then
      { log with
        lastRoll_ := now
        lastFlush_ := now
        startOfPeriod_ := now.tdiv kRollPerSeconds_ * kRollPerSeconds_
        file_ := some ⟨now, filename, [], 0⟩
        closed := log.closed ++ log.file_.toList }
    else log

/-- The constructor. -/
def create (now : Int) : Option LogFile := rollFile cfg now ⟨0, 0, 0, 0, none, []⟩

/-- What `append_unlocked` does every `checkEveryN_` lines. -/
def checkPeriod (env : LogEnv) (log : LogFile) : Option LogFile :=
  let thisPeriod := env.now.tdiv kRollPerSeconds_ * kRollPerSeconds_
  (if thisPeriod ≠ log.startOfPeriod_ then rollFile cfg env.rollNow log else some log).map
    fun log => { log with lastFlush_ := env.now }

/-- `append_unlocked`; `none` if there is no file. -/
def append (logline : List UInt8) (env : LogEnv) (log : LogFile) : Option LogFile :=
  log.file_.bind fun file =>
    let file := file.append logline env.takes
    let log := { log with file_ := some file }
    if file.writtenBytes_ > cfg.rollSize_ then rollFile cfg env.rollNow log
    else if log.count_ + 1 ≥ cfg.checkEveryN_ then checkPeriod cfg env { log with count_ := 0 }
    else some { log with count_ := log.count_ + 1 }

/-- Lines one after the other. -/
def appendAll : List (List UInt8 × LogEnv) → LogFile → Option LogFile
  | [], log => some log
  | (logline, env) :: rest, log => (append cfg logline env log).bind (appendAll rest)

/-- The files of a log, oldest first. -/
def files (log : LogFile) : List AppendFile := log.closed ++ log.file_.toList

/-! ## Names -/

theorem zeroPadded_two_inj {v v' : Int} (hv : 0 ≤ v ∧ v < 100) (hv' : 0 ≤ v' ∧ v' < 100)
    (h : zeroPadded 2 v = zeroPadded 2 v') : v = v' := by
  rw [zeroPadded_eq (by decide) hv.1 (by omega), zeroPadded_eq (by decide) hv'.1 (by omega)] at h
  have := fixedWidth_inj (by omega) (by omega) h
  omega

theorem length_zeroPadded_two {v : Int} (hv : 0 ≤ v ∧ v < 100) : (zeroPadded 2 v).length = 2 := by
  rw [zeroPadded_eq (by decide) hv.1 (by omega), length_fixedWidth]

theorem decimal_inj {v v' : Int} (h : decimal v = decimal v') : v = v' := by
  have hv := (canonical_decimal v).reads
  rw [h, (canonical_decimal v').reads] at hv
  exact (Option.some.inj hv).symm

/-- The fields of a proper time have two digits. -/
theorem twoDigits_of_proper {tm : Tm} (h : TimeZone.Proper tm) :
    (0 ≤ tm.tm_mon + 1 ∧ tm.tm_mon + 1 < 100) ∧ (0 ≤ tm.tm_mday ∧ tm.tm_mday < 100) ∧
      (0 ≤ tm.tm_hour ∧ tm.tm_hour < 100) ∧ (0 ≤ tm.tm_min ∧ tm.tm_min < 100) ∧
      (0 ≤ tm.tm_sec ∧ tm.tm_sec < 100) := by
  obtain ⟨hs, hm, hh, hge, hle, hday, hday'⟩ := h
  have hdays := daysInMonth_bounds (TimeZone.date tm).year (TimeZone.date tm).month
  simp only [TimeZone.date] at *
  omega

/-- The text tells the time. -/
theorem timeText_inj {tm tm' : Tm} (h : TimeZone.Proper tm) (h' : TimeZone.Proper tm')
    (heq : timeText tm = timeText tm') : TimeZone.SameTime tm tm' := by
  obtain ⟨hmon, hmday, hhour, hmin, hsec⟩ := twoDigits_of_proper h
  obtain ⟨hmon', hmday', hhour', hmin', hsec'⟩ := twoDigits_of_proper h'
  unfold timeText at heq
  have heq := List.append_cancel_right heq
  obtain ⟨heq, hs⟩ := List.append_inj' heq
    (by rw [length_zeroPadded_two hsec, length_zeroPadded_two hsec'])
  obtain ⟨heq, hm⟩ := List.append_inj' heq
    (by rw [length_zeroPadded_two hmin, length_zeroPadded_two hmin'])
  obtain ⟨heq, hh⟩ := List.append_inj' heq
    (by rw [length_zeroPadded_two hhour, length_zeroPadded_two hhour'])
  have heq := List.append_cancel_right heq
  obtain ⟨heq, hd⟩ := List.append_inj' heq
    (by rw [length_zeroPadded_two hmday, length_zeroPadded_two hmday'])
  obtain ⟨heq, hmo⟩ := List.append_inj' heq
    (by rw [length_zeroPadded_two hmon, length_zeroPadded_two hmon'])
  have hy := decimal_inj (List.append_cancel_left heq)
  have hmo := zeroPadded_two_inj hmon hmon' hmo
  exact ⟨zeroPadded_two_inj hsec hsec' hs, zeroPadded_two_inj hmin hmin' hm,
    zeroPadded_two_inj hhour hhour' hh, zeroPadded_two_inj hmday hmday' hd, by omega, by omega⟩

/-- Files of different seconds have different names. -/
theorem getLogFileName_inj {now now' : Int} (h : TimeZone.UtcRange now)
    (h' : TimeZone.UtcRange now') {filename : List UInt8}
    (hname : getLogFileName cfg now = some filename)
    (hname' : getLogFileName cfg now' = some filename) : now = now' := by
  obtain ⟨tm, htm, hproper, hback⟩ := TimeZone.fromUtcTime_toUtcTime h true
  obtain ⟨tm', htm', hproper', hback'⟩ := TimeZone.fromUtcTime_toUtcTime h' true
  rw [getLogFileName, TimeZone.gmtimeR, htm, Option.map_some] at hname
  rw [getLogFileName, TimeZone.gmtimeR, htm', Option.map_some] at hname'
  have heq := Option.some.inj (hname.trans hname'.symm)
  have htext : timeText tm = timeText tm' := by
    have h1 := List.append_cancel_right (List.append_cancel_right (List.append_cancel_right heq))
    exact List.append_cancel_left h1
  have hsame := TimeZone.fromUtcTime_congr (timeText_inj hproper hproper' htext)
  rw [hback, hback'] at hsame
  exact Option.some.inj hsame

theorem getLogFileName_some {now : Int} (h : TimeZone.UtcRange now) :
    ∃ filename, getLogFileName cfg now = some filename := by
  obtain ⟨tm, htm, -⟩ := TimeZone.fromUtcTime_toUtcTime h true
  rw [getLogFileName, TimeZone.gmtimeR, htm]
  exact ⟨_, rfl⟩

/-! ## Lines -/

/-- `fwrite` takes something whenever it is called again for a line, and the clock is in a year that
    can be formatted. -/
structure EnvOk (env : LogEnv) : Prop where
  takes : ∀ n ∈ env.takes.tail, n ≠ 0
  clock : TimeZone.UtcRange env.rollNow

theorem writeRest_eq {takes : List Nat} (h : ∀ n ∈ takes, n ≠ 0) (rest : List UInt8) :
    AppendFile.writeRest takes rest = rest := by
  induction takes generalizing rest with
  | nil => cases rest <;> rfl
  | cons n takes ih =>
    cases rest with
    | nil => rfl
    | cons b rest =>
      cases n with
      | zero => exact absurd rfl (h 0 List.mem_cons_self)
      | succ n =>
        have hrest := ih (fun m hm => h m (List.mem_cons_of_mem _ hm)) ((b :: rest).drop (n + 1))
        show (b :: rest).take (n + 1) ++ AppendFile.writeRest takes ((b :: rest).drop (n + 1)) = _
        rw [hrest, List.take_append_drop]

/-- A line that is taken in pieces is taken as a whole. -/
theorem append_bytes (file : AppendFile) (logline : List UInt8) {env : LogEnv} (h : EnvOk env) :
    (file.append logline env.takes).bytes = file.bytes ++ logline := by
  have htakes := h.takes
  unfold AppendFile.append
  cases hcase : env.takes with
  | nil => rfl
  | cons n takes =>
    rw [hcase, List.tail_cons] at htakes
    simp only
    rw [writeRest_eq htakes, List.take_append_drop]

/-- The files of a log: named after seconds that increase, up to the last roll, and with whole lines
    in them. -/
structure Good (fs : List AppendFile) (lastRoll : Int) (lines : List (List UInt8)) : Prop where
  nonempty : fs ≠ []
  increasing : fs.Pairwise fun f g => f.opened < g.opened
  opened_le : ∀ f ∈ fs, f.opened ≤ lastRoll
  named : ∀ f ∈ fs, TimeZone.UtcRange f.opened ∧ getLogFileName cfg f.opened = some f.filename
  groups : ∃ groups : List (List (List UInt8)),
    fs.map (·.bytes) = groups.map List.flatten ∧ groups.flatten = lines

variable {cfg}

/-- A line goes to the end of the last file. -/
theorem Good.append {closed : List AppendFile} {file : AppendFile} {lastRoll : Int}
    {lines : List (List UInt8)} (h : Good cfg (closed ++ [file]) lastRoll lines)
    (logline : List UInt8) {env : LogEnv} (henv : EnvOk env) :
    Good cfg (closed ++ [file.append logline env.takes]) lastRoll (lines ++ [logline]) := by
  obtain ⟨-, hincr, hle, hnamed, groups, hgroups, hlines⟩ := h
  have hopened : (file.append logline env.takes).opened = file.opened := rfl
  have hfilename : (file.append logline env.takes).filename = file.filename := rfl
  refine ⟨by simp, ?_, ?_, ?_, ?_⟩
  · rw [List.pairwise_append] at hincr ⊢
    simpa [hopened] using hincr
  · intro f hf
    rcases List.mem_append.mp hf with hf | hf
    · exact hle f (List.mem_append_left _ hf)
    · rw [List.mem_singleton.mp hf, hopened]
      exact hle file (by simp)
  · intro f hf
    rcases List.mem_append.mp hf with hf | hf
    · exact hnamed f (List.mem_append_left _ hf)
    · rw [List.mem_singleton.mp hf, hopened, hfilename]
      exact hnamed file (by simp)
  · rw [List.map_append, List.map_singleton] at hgroups
    obtain ⟨gs, gl, rfl, hgs, hgl⟩ := List.map_eq_append_iff.mp hgroups.symm
    obtain ⟨g, rfl, hg⟩ := List.map_eq_singleton_iff.mp hgl
    refine ⟨gs ++ [g ++ [logline]], ?_, ?_⟩
    · rw [List.map_append, List.map_append, hgs, List.map_singleton, List.map_singleton,
        append_bytes file logline henv, ← hg, List.flatten_append]
      simp
    · rw [← hlines]
      simp

/-- A new file is empty, and its second is later than all others. -/
theorem Good.roll {fs : List AppendFile} {lastRoll now : Int} {lines : List (List UInt8)}
    {filename : List UInt8} (h : fs = [] ∧ lines = [] ∨ Good cfg fs lastRoll lines)
    (hnow : TimeZone.UtcRange now) (hlt : lastRoll < now)
    (hname : getLogFileName cfg now = some filename) :
    Good cfg (fs ++ [⟨now, filename, [], 0⟩]) now lines := by
  rcases h with ⟨rfl, rfl⟩ | ⟨-, hincr, hle, hnamed, groups, hgroups, hlines⟩
  · refine ⟨by simp, by simp, by simp, ?_, [[]], rfl, rfl⟩
    simp only [List.nil_append, List.mem_singleton, forall_eq]
    exact ⟨hnow, hname⟩
  · refine ⟨by simp, ?_, ?_, ?_, groups ++ [[]], ?_, ?_⟩
    · refine List.pairwise_append.mpr ⟨hincr, by simp, ?_⟩
      intro f hf g hg
      rw [List.mem_singleton.mp hg]
      exact Int.lt_of_le_of_lt (hle f hf) hlt
    · intro f hf
      rcases List.mem_append.mp hf with hf | hf
      · exact Int.le_of_lt (Int.lt_of_le_of_lt (hle f hf) hlt)
      · rw [List.mem_singleton.mp hf]
    · intro f hf
      rcases List.mem_append.mp hf with hf | hf
      · exact hnamed f hf
      · rw [List.mem_singleton.mp hf]
        exact ⟨hnow, hname⟩
    · rw [List.map_append, List.map_append, hgroups]
      rfl
    · rw [List.flatten_append, hlines]
      simp

/-- A log whose files hold the lines. -/
def Holds (cfg : LogSettings) (log : LogFile) (lines : List (List UInt8)) : Prop :=
  log.file_.isSome = true ∧ Good cfg (files log) log.lastRoll_ lines

theorem holds_rollFile {log : LogFile} {lines : List (List UInt8)} (h : Holds cfg log lines)
    {now : Int} (hnow : TimeZone.UtcRange now) :
    ∃ log', rollFile cfg now log = some log' ∧ Holds cfg log' lines := by
  obtain ⟨filename, hname⟩ := getLogFileName_some cfg hnow
  refine ⟨_, by rw [rollFile, hname, Option.map_some], ?_⟩
  split
  · rename_i hlt
    exact ⟨rfl, Good.roll (Or.inr h.2) hnow hlt hname⟩
  · exact h

theorem holds_create (cfg : LogSettings) {now : Int} (hnow : TimeZone.UtcRange now) (hpos : 0 < now) :
    ∃ log, create cfg now = some log ∧ Holds cfg log [] := by
  obtain ⟨filename, hname⟩ := getLogFileName_some cfg hnow
  refine ⟨_, by rw [create, rollFile, hname, Option.map_some], ?_⟩
  rw [if_pos hpos]
  have hfirst : Good cfg ([] ++ [⟨now, filename, [], 0⟩]) now [] :=
    Good.roll (Or.inl ⟨rfl, rfl⟩) hnow hpos hname
  exact ⟨rfl, hfirst⟩

/-- A line is added, and a file at most. -/
theorem holds_append {log : LogFile} {lines : List (List UInt8)} (h : Holds cfg log lines)
    (logline : List UInt8) {env : LogEnv} (henv : EnvOk env) :
    ∃ log', append cfg logline env log = some log' ∧ Holds cfg log' (lines ++ [logline]) := by
  obtain ⟨hfile, hgood⟩ := h
  obtain ⟨file, hfile⟩ := Option.isSome_iff_exists.mp hfile
  unfold files at hgood
  rw [hfile, Option.toList_some] at hgood
  have hholds : Holds cfg { log with file_ := some (file.append logline env.takes) }
      (lines ++ [logline]) := ⟨rfl, hgood.append logline henv⟩
  unfold append
  rw [hfile, Option.bind_some]
  dsimp only
  split
  · exact holds_rollFile hholds henv.clock
  · split
    · unfold checkPeriod
      dsimp only
      split
      · have hholds' : Holds cfg { log with
            file_ := some (file.append logline env.takes), count_ := 0 } (lines ++ [logline]) := hholds
        obtain ⟨log', hlog', hroll⟩ := holds_rollFile hholds' henv.clock
        exact ⟨{ log' with lastFlush_ := env.now }, by rw [hlog', Option.map_some], hroll⟩
      · exact ⟨_, rfl, hholds⟩
    · exact ⟨_, rfl, hholds⟩

theorem holds_appendAll {log : LogFile} {lines : List (List UInt8)} (h : Holds cfg log lines)
    {items : List (List UInt8 × LogEnv)} (hitems : ∀ item ∈ items, EnvOk item.2) :
    ∃ log', appendAll cfg items log = some log' ∧
      Holds cfg log' (lines ++ items.map Prod.fst) := by
  induction items generalizing log lines with
  | nil => exact ⟨log, rfl, by simpa using h⟩
  | cons item items ih =>
    obtain ⟨log', hlog', h'⟩ := holds_append h item.1 (hitems item List.mem_cons_self)
    obtain ⟨log'', hlog'', h''⟩ := ih h' fun i hi => hitems i (List.mem_cons_of_mem _ hi)
    refine ⟨log'', ?_, ?_⟩
    · show (append cfg item.1 item.2 log).bind (appendAll cfg items) = _
      rw [hlog', Option.bind_some, hlog'']
    · rwa [List.map_cons, List.append_cons]

/-- The names of the files of a log are different. -/
theorem Good.nodup_names {fs : List AppendFile} {lastRoll : Int} {lines : List (List UInt8)}
    (h : Good cfg fs lastRoll lines) : (fs.map (·.filename)).Nodup := by
  rw [List.Nodup, List.pairwise_map]
  refine (List.pairwise_iff_forall_sublist.mpr ?_)
  intro f g hsub heq
  have hf := h.named f (hsub.subset (by simp))
  have hg := h.named g (hsub.subset (by simp))
  have hlt := List.pairwise_iff_forall_sublist.mp h.increasing hsub
  have := getLogFileName_inj cfg hf.1 hg.1 hf.2 (by rw [heq]; exact hg.2)
  omega

/-- **Rolling keeps the lines.** For every log that is opened at a positive time and every sequence
    of lines, whatever the clock reads and however `fwrite` takes a line in pieces: the lines are
    written, no two files have one name, and the files hold the lines in their order, each in one
    file as a whole. -/
theorem log_file_lines (cfg : LogSettings) {now : Int} (hnow : TimeZone.UtcRange now)
    (hpos : 0 < now) {items : List (List UInt8 × LogEnv)} (hitems : ∀ item ∈ items, EnvOk item.2) :
    ∃ log, (create cfg now).bind (appendAll cfg items) = some log ∧
      ((files log).map (·.filename)).Nodup ∧
      ∃ groups : List (List (List UInt8)),
        (files log).map (·.bytes) = groups.map List.flatten ∧
        groups.flatten = items.map Prod.fst := by
  obtain ⟨log, hlog, h⟩ := holds_create cfg hnow hpos
  obtain ⟨log', hlog', h'⟩ := holds_appendAll h hitems
  exact ⟨log', by rw [hlog, Option.bind_some, hlog'], h'.2.nodup_names, h'.2.groups⟩

/-- Two lines and a roll between them, and a clock that is set back. -/
theorem log_file_lines_two :
    ∃ log, (create ⟨[108], 3, 1024, [104], 1⟩ 1700000000).bind
        (appendAll ⟨[108], 3, 1024, [104], 1⟩ [([97, 97, 97, 10], ⟨1700000001, 1700000001, [1, 2]⟩),
          ([98, 10], ⟨1699999999, 1699999999, []⟩)]) = some log ∧
      ((files log).map (·.filename)).Nodup ∧
      ∃ groups : List (List (List UInt8)),
        (files log).map (·.bytes) = groups.map List.flatten ∧
        groups.flatten = [[97, 97, 97, 10], [98, 10]] := by
  refine log_file_lines _ (by decide) (by decide) ?_
  intro item hitem
  simp only [List.mem_cons, List.not_mem_nil, or_false] at hitem
  rcases hitem with rfl | rfl
  · exact ⟨by decide, by decide⟩
  · exact ⟨by decide, by decide⟩

end LogFile

end Mmvx.Base
