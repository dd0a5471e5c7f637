/-
  A `muduo::TimeZone` (muduo/base/TimeZone.{h,cc}) that is given by a table: the offsets of the zone
  and the transitions between them.

  A table is searched by seconds of UTC on the way to the local time, and by local seconds on the
  way back. When clocks are set back an hour is passed twice, and `fromLocalTime` tells the two
  passes apart by `tm_isdst` only. `local_round_trip`: in a table whose transitions are an hour
  apart or more, and whose clocks are only ever set back by the hour with which summer time ends,
  the way back from the local time of a second leads to the second.

  `gmtime_r` and `timegm` are `toUtcTime` and `fromUtcTime`, as the comments of the header say.
-/
import Mmvx.Base.TimeZone
import Mmvx.Lib.LowerBound

namespace Mmvx.Base

open Mmvx.Lib

structure Transition where
  gmttime : Int
  localtime : Int
  localtimeIdx : Nat
  deriving DecidableEq, Repr

structure Localtime where
  gmtOffset : Int
  isDst : Bool
  arrbIdx : Nat
  deriving DecidableEq, Repr

/-- `TimeZone::Data`; the abbreviations are one text in which each ends with a zero. -/
structure ZoneData where
  transitions : List Transition
  localtimes : List Localtime
  abbreviation : List UInt8
  deriving DecidableEq, Repr

/-- What `Comp` compares. -/
def Transition.key (compareGmt : Bool) (tr : Transition) : Int :=
  if compareGmt then tr.gmttime else tr.localtime

namespace TimeZone

/-- The offset of a transition; `none` if the index is outside of the table. -/
def localtimeOf (data : ZoneData) (tr : Transition) : Option Localtime :=
  data.localtimes[tr.localtimeIdx]?

def findLocaltime (data : ZoneData) (sentry : Transition) (compareGmt : Bool) :
    Option Localtime :=
  let key := Transition.key compareGmt
  if data.transitions.isEmpty ∨ (data.transitions.head?).any (fun tr => key sentry < key tr) then
    data.localtimes.head?
  else
    let transI := lowerBound (fun tr => decide (key tr < key sentry)) data.transitions
    match data.transitions[transI]? with
    | some tr =>
      if key sentry = key tr then localtimeOf data tr
      -- the assertion says that there is a transition before this one
      else if transI = 0 then none
      else (data.transitions[transI - 1]?).bind (localtimeOf data)
    | none => (data.transitions.getLast?).bind (localtimeOf data)

/-- `gmtime_r`. -/
def gmtimeR (seconds : Int) : Option Tm := toUtcTime seconds true

/-- `timegm`. -/
def timegm (tm : Tm) : Option Int := fromUtcTime tm

def toLocalTime (data : ZoneData) (seconds : Int) : Option Tm := do
  let loc ← findLocaltime data ⟨seconds, 0, 0⟩ true
  let localTime ← gmtimeR (seconds + loc.gmtOffset)
  return { localTime with
    tm_isdst := if loc.isDst then 1 else 0
    tm_gmtoff := loc.gmtOffset
    tm_zone := (data.abbreviation.drop loc.arrbIdx).takeWhile (· ≠ 0) }

/-- The seconds that `fromLocalTime` takes off in the second pass of an hour. -/
def dstCorrection (data : ZoneData) (localTm : Tm) (seconds : Int) (loc : Localtime) :
    Option Int :=
  if localTm.tm_isdst ≠ 0 then
    (toLocalTime data (seconds - loc.gmtOffset)).map fun tryTm =>
      if tryTm.tm_isdst = 0 ∧ tryTm.tm_hour = localTm.tm_hour ∧ tryTm.tm_min = localTm.tm_min then
        3600
      else 0
  else some 0

def fromLocalTime (data : ZoneData) (localTm : Tm) : Option Int := do
  let seconds ← timegm localTm
  let loc ← findLocaltime data ⟨0, seconds, 0⟩ false
  let correction ← dstCorrection data localTm seconds loc
  return seconds - correction - loc.gmtOffset

/-- `TimeZone(eastOfUtc, name)`. -/
def fixed (eastOfUtc : Int) (name : List UInt8) : ZoneData :=
  ⟨[], [⟨eastOfUtc, false, 0⟩], name⟩

/-! ## Lookup -/

/-- Binary search finds the last transition that is not after the key, and the first offset of the
    table if there is none. -/
theorem findLocaltime_eq {data : ZoneData} {sentry : Transition} {gmt : Bool}
    {pre post : List Transition} (htable : data.transitions = pre ++ post)
    (hsorted : data.transitions.Pairwise fun a b => a.key gmt < b.key gmt)
    (hpre : ∀ tr ∈ pre, tr.key gmt ≤ sentry.key gmt)
    (hpost : ∀ tr ∈ post, sentry.key gmt < tr.key gmt) :
    findLocaltime data sentry gmt =
      match pre.getLast? with
      | none => data.localtimes.head?
      | some tr => localtimeOf data tr := by
  rcases List.eq_nil_or_concat pre with rfl | ⟨pre, last, rfl⟩
  · unfold findLocaltime
    rw [if_pos]
    · rfl
    · rw [htable]
      cases post with
      | nil => exact Or.inl rfl
      | cons tr post => exact Or.inr (by simpa using hpost tr List.mem_cons_self)
  · rw [List.concat_eq_append] at htable hpre ⊢
    have hlast : last.key gmt ≤ sentry.key gmt := hpre last (by simp)
    have hbefore : ∀ tr ∈ pre, tr.key gmt < last.key gmt := by
      rw [htable] at hsorted
      intro tr htr
      exact (List.pairwise_append.mp (List.pairwise_append.mp hsorted).1).2.2 tr htr last (by simp)
    have hguard : ¬ (data.transitions.isEmpty ∨
        (data.transitions.head?).any (fun tr => sentry.key gmt < tr.key gmt)) := by
      rw [htable]
      cases pre with
      | nil => simpa using hlast
      | cons tr pre => simpa using hpre tr (by simp)
    unfold findLocaltime
    rw [if_neg hguard]
    simp only [List.getLast?_append, List.getLast?_singleton, Option.some_or]
    by_cases heq : last.key gmt = sentry.key gmt
    · -- the transition itself is found
      have hfound : lowerBound (fun tr => decide (tr.key gmt < sentry.key gmt)) data.transitions =
          pre.length := by
        rw [htable, List.append_assoc]
        refine lowerBound_append ?_ ?_
        · intro tr htr
          have := hbefore tr htr
          simp
          omega
        · intro tr htr
          rcases List.mem_append.mp htr with htr | htr
          · rw [List.mem_singleton.mp htr]
            simp
            omega
          · have := hpost tr htr
            simp
            omega
      have hget : data.transitions[pre.length]? = some last := by
        rw [htable]
        simp
      rw [hfound, hget]
      simp only [heq, if_true]
    · have hfound : lowerBound (fun tr => decide (tr.key gmt < sentry.key gmt)) data.transitions =
          (pre ++ [last]).length := by
        rw [htable]
        refine lowerBound_append ?_ ?_
        · intro tr htr
          rcases List.mem_append.mp htr with htr | htr
          · have := hbefore tr htr
            simp
            omega
          · rw [List.mem_singleton.mp htr]
            simp
            omega
        · intro tr htr
          have := hpost tr htr
          simp
          omega
      rw [hfound]
      cases post with
      | nil => simp [htable]
      | cons tr post =>
        -- a later one is found, and the one before it is taken
        have := hpost tr List.mem_cons_self
        have hget : data.transitions[(pre ++ [last]).length]? = some tr := by
          rw [htable, List.getElem?_append_right (Nat.le_refl _), Nat.sub_self]
          rfl
        have hprev : data.transitions[(pre ++ [last]).length - 1]? = some last := by
          rw [htable]
          simp
        rw [hget]
        simp only
        rw [if_neg (by omega), if_neg (by simp), hprev]
        rfl

/-! ## Tables -/

/-- Clocks are set forward, or back by the hour with which summer time ends. -/
def Change (before after : Localtime) : Prop :=
  before.gmtOffset ≤ after.gmtOffset ∨
    before.isDst = true ∧ after.isDst = false ∧ before.gmtOffset = after.gmtOffset + 3600

instance (before after : Localtime) : Decidable (Change before after) :=
  inferInstanceAs (Decidable (_ ∨ _))

/-- The transitions from an offset on: each begins an offset of the table, an hour or more before
    the later ones on both clocks. -/
def Follows (data : ZoneData) (before : Localtime) : List Transition → Prop
  | [] => True
  | tr :: rest =>
    match localtimeOf data tr with
    | none => False
    | some after =>
      tr.localtime = tr.gmttime + after.gmtOffset ∧ Change before after ∧
        (∀ next ∈ rest, tr.gmttime + 3600 ≤ next.gmttime ∧ tr.localtime + 3600 ≤ next.localtime) ∧
        Follows data after rest

instance decFollows (data : ZoneData) :
    (before : Localtime) → (trs : List Transition) → Decidable (Follows data before trs)
  | _, [] => isTrue trivial
  | before, tr :: rest =>
    match h : localtimeOf data tr with
    | none => isFalse (by simp [Follows, h])
    | some after =>
      have := decFollows data after rest
      decidable_of_iff (tr.localtime = tr.gmttime + after.gmtOffset ∧ Change before after ∧
        (∀ next ∈ rest, tr.gmttime + 3600 ≤ next.gmttime ∧ tr.localtime + 3600 ≤ next.localtime) ∧
        Follows data after rest) (by simp [Follows, h])

/-- The table of a zone in which every second has its local time. -/
structure Regular (data : ZoneData) : Prop where
  follows : ∃ first, data.localtimes.head? = some first ∧ Follows data first data.transitions
  offset : ∀ loc ∈ data.localtimes, -86400 ≤ loc.gmtOffset ∧ loc.gmtOffset ≤ 86400

theorem Follows.cons {data : ZoneData} {before : Localtime} {tr : Transition}
    {rest : List Transition} (h : Follows data before (tr :: rest)) :
    ∃ after, localtimeOf data tr = some after ∧ tr.localtime = tr.gmttime + after.gmtOffset ∧
      Change before after ∧
      (∀ next ∈ rest, tr.gmttime + 3600 ≤ next.gmttime ∧ tr.localtime + 3600 ≤ next.localtime) ∧
      Follows data after rest := by
  unfold Follows at h
  cases hloc : localtimeOf data tr with
  | none =>
    rw [hloc] at h
    exact h.elim
  | some after =>
    rw [hloc] at h
    exact ⟨after, rfl, h.1, h.2.1, h.2.2.1, h.2.2.2⟩

theorem Follows.sorted {data : ZoneData} {before : Localtime} {trs : List Transition}
    (h : Follows data before trs) (gmt : Bool) :
    trs.Pairwise fun a b => a.key gmt < b.key gmt := by
  induction trs generalizing before with
  | nil => exact List.Pairwise.nil
  | cons tr rest ih =>
    obtain ⟨after, -, -, -, hapart, hrest⟩ := h.cons
    refine List.pairwise_cons.mpr ⟨?_, ih hrest⟩
    intro next hnext
    obtain ⟨hgmt, hlocal⟩ := hapart next hnext
    cases gmt with
    | true =>
      simp only [Transition.key, if_true]
      omega
    | false =>
      simp only [Transition.key, Bool.false_eq_true, if_false]
      omega

/-- The offset that is in force after some transitions. -/
def InForce (data : ZoneData) (first : Localtime) (pre : List Transition) (cur : Localtime) : Prop :=
  match pre.getLast? with
  | none => cur = first
  | some tr => localtimeOf data tr = some cur ∧ tr.localtime = tr.gmttime + cur.gmtOffset

/-- A table at a second: the transitions so far, the offset in force and what follows. -/
theorem Follows.split {data : ZoneData} {before : Localtime} {trs : List Transition}
    (h : Follows data before trs) (t : Int) :
    ∃ pre post cur, trs = pre ++ post ∧ (∀ tr ∈ pre, tr.gmttime ≤ t) ∧
      (∀ tr ∈ post, t < tr.gmttime) ∧ InForce data before pre cur ∧ Follows data cur post := by
  induction trs generalizing before with
  | nil => exact ⟨[], [], before, rfl, by simp, by simp, rfl, trivial⟩
  | cons tr rest ih =>
    obtain ⟨after, hloc, hlocal, -, hapart, hrest⟩ := h.cons
    by_cases ht : t < tr.gmttime
    · refine ⟨[], tr :: rest, before, rfl, by simp, ?_, rfl, h⟩
      intro next hnext
      rcases List.mem_cons.mp hnext with rfl | hnext
      · exact ht
      · have := (hapart next hnext).1
        omega
    · obtain ⟨pre, post, cur, rfl, hpre, hpost, hforce, hfollows⟩ := ih hrest
      refine ⟨tr :: pre, post, cur, rfl, ?_, hpost, ?_, hfollows⟩
      · intro next hnext
        rcases List.mem_cons.mp hnext with rfl | hnext
        · omega
        · exact hpre next hnext
      · cases pre with
        | nil =>
          obtain rfl : cur = after := hforce
          exact ⟨hloc, hlocal⟩
        | cons next pre =>
          unfold InForce at hforce ⊢
          rw [List.getLast?_cons_cons]
          exact hforce

/-- What is found among the transitions so far is the offset in force. -/
theorem InForce.found {data : ZoneData} {first cur : Localtime} {pre : List Transition}
    (h : InForce data first pre cur) (hfirst : data.localtimes.head? = some first) :
    (match pre.getLast? with
      | none => data.localtimes.head?
      | some tr => localtimeOf data tr) = some cur := by
  unfold InForce at h
  cases hlast : pre.getLast? with
  | none =>
    rw [hlast] at h
    rw [h]
    exact hfirst
  | some tr =>
    rw [hlast] at h
    exact h.1

/-- The transitions so far have begun on the local clock as well. -/
theorem InForce.localtime_le {data : ZoneData} {first cur : Localtime} {pre : List Transition}
    {t : Int} (h : InForce data first pre cur) (hpre : ∀ tr ∈ pre, tr.gmttime ≤ t)
    (hsorted : pre.Pairwise fun a b => a.key false < b.key false) :
    ∀ tr ∈ pre, tr.localtime ≤ t + cur.gmtOffset := by
  rcases List.eq_nil_or_concat pre with rfl | ⟨pre, last, rfl⟩
  · simp
  · rw [List.concat_eq_append] at *
    unfold InForce at h
    rw [List.getLast?_append, List.getLast?_singleton, Option.some_or] at h
    have hlast := hpre last (by simp)
    intro tr htr
    rcases List.mem_append.mp htr with htr | htr
    · have hlt : tr.localtime < last.localtime :=
        (List.pairwise_append.mp hsorted).2.2 tr htr last (by simp)
      have := h.2
      omega
    · rw [List.mem_singleton.mp htr, h.2]
      omega

section RoundTrip

variable {data : ZoneData} {first : Localtime} (hfirst : data.localtimes.head? = some first)
  (hfollows : Follows data first data.transitions)

include hfirst hfollows

/-- The offset of a second. -/
theorem findLocaltime_gmt {pre post : List Transition} {cur : Localtime} {t : Int}
    (htable : data.transitions = pre ++ post) (hpre : ∀ tr ∈ pre, tr.gmttime ≤ t)
    (hpost : ∀ tr ∈ post, t < tr.gmttime) (hforce : InForce data first pre cur) (l : Int) (i : Nat) :
    findLocaltime data ⟨t, l, i⟩ true = some cur := by
  refine (findLocaltime_eq htable (hfollows.sorted true) ?_ ?_).trans (hforce.found hfirst)
  · exact hpre
  · exact hpost

/-- The offset of a local second. -/
theorem findLocaltime_local {pre post : List Transition} {cur : Localtime} {t l : Int}
    (htable : data.transitions = pre ++ post) (hpre : ∀ tr ∈ pre, tr.gmttime ≤ t)
    (hforce : InForce data first pre cur) (hl : t + cur.gmtOffset = l)
    (hpost : ∀ tr ∈ post, l < tr.localtime) (g : Int) (i : Nat) :
    findLocaltime data ⟨g, l, i⟩ false = some cur := by
  have hsorted := hfollows.sorted false
  have hlocal : ∀ tr ∈ pre, tr.localtime ≤ l := by
    rw [← hl]
    refine hforce.localtime_le hpre ?_
    rw [htable] at hsorted
    exact (List.pairwise_append.mp hsorted).1
  refine (findLocaltime_eq htable hsorted ?_ ?_).trans (hforce.found hfirst)
  · exact hlocal
  · exact hpost

end RoundTrip

/-- The local time of a second whose offset is known. -/
theorem toLocalTime_eq {data : ZoneData} {cur : Localtime} {t : Int} {tm : Tm}
    (hfind : findLocaltime data ⟨t, 0, 0⟩ true = some cur)
    (htm : toUtcTime (t + cur.gmtOffset) true = some tm) :
    toLocalTime data t = some { tm with
      tm_isdst := if cur.isDst then 1 else 0
      tm_gmtoff := cur.gmtOffset
      tm_zone := (data.abbreviation.drop cur.arrbIdx).takeWhile (· ≠ 0) } := by
  unfold toLocalTime
  rw [hfind]
  simp only [Option.bind_eq_bind, Option.bind_some, gmtimeR, htm]
  rfl

/-- The way back needs the fields only. -/
theorem fromUtcTime_congr {a b : Tm} (h : SameTime a b) : fromUtcTime a = fromUtcTime b := by
  obtain ⟨hs, hm, hh, hd, hmon, hy⟩ := h
  unfold fromUtcTime
  rw [hs, hm, hh, hd, hmon, hy]

/-- The way back if the offset in force is found again. -/
theorem fromLocalTime_same {data : ZoneData} {cur : Localtime} {t : Int} {tm : Tm}
    (hback : fromUtcTime tm = some (t + cur.gmtOffset)) (hto : toLocalTime data t = some tm)
    (hfind : findLocaltime data ⟨0, t + cur.gmtOffset, 0⟩ false = some cur) :
    fromLocalTime data tm = some t := by
  have hcorrection : dstCorrection data tm (t + cur.gmtOffset) cur = some 0 := by
    unfold dstCorrection
    split
    · rename_i hne
      rw [Int.add_sub_cancel, hto, Option.map_some, if_neg]
      intro hzero
      exact hne hzero.1
    · rfl
  unfold fromLocalTime
  simp only [timegm, hback, Option.bind_eq_bind, Option.bind_some, hfind, hcorrection]
  rw [Int.sub_zero, Int.add_sub_cancel]
  rfl

/-- The way back from the first pass of the hour that is passed twice: the offset of the second pass
    is found, and an hour is taken off. -/
theorem fromLocalTime_first_pass {data : ZoneData} {cur after : Localtime} {t : Int} {tm : Tm}
    (hback : fromUtcTime tm = some (t + cur.gmtOffset)) (hdst : tm.tm_isdst = 1)
    (hoffset : cur.gmtOffset = after.gmtOffset + 3600)
    (hfind : findLocaltime data ⟨0, t + cur.gmtOffset, 0⟩ false = some after)
    (hto : ∃ tryTm, toLocalTime data (t + 3600) = some tryTm ∧ tryTm.tm_isdst = 0 ∧
      tryTm.tm_hour = tm.tm_hour ∧ tryTm.tm_min = tm.tm_min) :
    fromLocalTime data tm = some t := by
  obtain ⟨tryTm, htry, hzero, hhour, hmin⟩ := hto
  have hcorrection : dstCorrection data tm (t + cur.gmtOffset) after = some 3600 := by
    unfold dstCorrection
    rw [if_pos (by rw [hdst]; decide), show t + cur.gmtOffset - after.gmtOffset = t + 3600 by omega,
      htry, Option.map_some, if_pos ⟨hzero, hhour, hmin⟩]
  unfold fromLocalTime
  simp only [timegm, hback, Option.bind_eq_bind, Option.bind_some, hfind, hcorrection]
  rw [show t + cur.gmtOffset - 3600 - after.gmtOffset = t by omega]
  rfl

/-- **Local time round trip.** In a regular table every second, as far as no date overflows, has a
    local time, and `fromLocalTime` leads back to the second, also in an hour that is passed
    twice. -/
theorem local_round_trip {data : ZoneData} (hdata : Regular data) {t : Int}
    (hlow : UtcRange (t - 86400)) (hhigh : UtcRange (t + 86400)) :
    ∃ tm, toLocalTime data t = some tm ∧ fromLocalTime data tm = some t := by
  obtain ⟨⟨first, hfirst, hfollows⟩, hoffset⟩ := hdata
  obtain ⟨pre, post, cur, htable, hpre, hpost, hforce, hnext⟩ := hfollows.split t
  have hcur : -86400 ≤ cur.gmtOffset ∧ cur.gmtOffset ≤ 86400 := by
    refine hoffset cur ?_
    have := hforce.found hfirst
    split at this
    · exact List.mem_of_mem_head? this
    · exact List.mem_of_getElem? this
  have hrange : UtcRange (t + cur.gmtOffset) := by
    obtain ⟨hl, -⟩ := hlow
    obtain ⟨-, hh⟩ := hhigh
    exact ⟨by omega, by omega⟩
  obtain ⟨tm, htm, -, hback⟩ := fromUtcTime_toUtcTime hrange true
  have hto := toLocalTime_eq (findLocaltime_gmt hfirst hfollows htable hpre hpost hforce 0 0) htm
  refine ⟨_, hto, ?_⟩
  have hback' : fromUtcTime { tm with
      tm_isdst := if cur.isDst then 1 else 0
      tm_gmtoff := cur.gmtOffset
      tm_zone := (data.abbreviation.drop cur.arrbIdx).takeWhile (· ≠ 0) } =
      some (t + cur.gmtOffset) := (fromUtcTime_congr ⟨rfl, rfl, rfl, rfl, rfl, rfl⟩).trans hback
  by_cases hagain : ∀ tr ∈ post, t + cur.gmtOffset < tr.localtime
  · exact fromLocalTime_same hback' hto
      (findLocaltime_local hfirst hfollows htable hpre hforce rfl hagain 0 0)
  · -- the next transition has begun on the local clock: it sets the clock back
    cases post with
    | nil => exact absurd (by simp) hagain
    | cons tr rest =>
      obtain ⟨after, hloc, hlocal, hchange, hapart, -⟩ := hnext.cons
      have ht := hpost tr List.mem_cons_self
      have hbegun : tr.localtime ≤ t + cur.gmtOffset := by
        by_contra hlate
        refine hagain fun next hmem => ?_
        rcases List.mem_cons.mp hmem with rfl | hmem
        · omega
        · have := (hapart next hmem).2
          omega
      obtain hforward | ⟨hdst, hstd, hhour⟩ := hchange
      · omega
      have htable' : data.transitions = (pre ++ [tr]) ++ rest := by
        rw [htable, List.append_assoc]
        rfl
      have hpre' : ∀ next ∈ pre ++ [tr], next.gmttime ≤ t + 3600 := by
        intro next hmem
        rcases List.mem_append.mp hmem with hmem | hmem
        · have := hpre next hmem
          omega
        · rw [List.mem_singleton.mp hmem]
          omega
      have hpost' : ∀ next ∈ rest, t + 3600 < next.gmttime := by
        intro next hmem
        have := (hapart next hmem).1
        omega
      have hforce' : InForce data first (pre ++ [tr]) after := by
        unfold InForce
        rw [List.getLast?_append, List.getLast?_singleton, Option.some_or]
        exact ⟨hloc, hlocal⟩
      have hsame : t + 3600 + after.gmtOffset = t + cur.gmtOffset := by omega
      have htry := toLocalTime_eq
        (findLocaltime_gmt hfirst hfollows htable' hpre' hpost' hforce' 0 0) (by rw [hsame]; exact htm)
      refine fromLocalTime_first_pass hback' (by simp [hdst]) hhour
        (findLocaltime_local hfirst hfollows htable' hpre' hforce' hsame ?_ 0 0)
        ⟨_, htry, by simp [hstd], rfl, rfl⟩
      intro next hmem
      have := (hapart next hmem).2
      omega

/-- Central European time, with one summer. -/
def oneSummer : ZoneData where
  transitions := [⟨1000000, 1007200, 0⟩, ⟨9000000, 9003600, 1⟩]
  localtimes := [⟨7200, true, 0⟩, ⟨3600, false, 5⟩]
  abbreviation := [67, 69, 83, 84, 0, 67, 69, 84, 0]

/-- Two seconds with one local time: half past two when summer time ends, before and after. -/
theorem local_round_trip_autumn :
    (∃ tm, toLocalTime oneSummer 8998200 = some tm ∧
      fromLocalTime oneSummer tm = some 8998200) ∧
    ∃ tm, toLocalTime oneSummer 9001800 = some tm ∧
      fromLocalTime oneSummer tm = some 9001800 := by
  have hzone : Regular oneSummer := ⟨⟨⟨7200, true, 0⟩, rfl, by decide⟩, by decide⟩
  exact ⟨local_round_trip hzone (by decide) (by decide),
    local_round_trip hzone (by decide) (by decide)⟩

end TimeZone

end Mmvx.Base
