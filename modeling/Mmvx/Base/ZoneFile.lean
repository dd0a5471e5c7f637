/-
  `readTimeZoneFile` (muduo/base/TimeZone.cc): a table of transitions from a TZif file.

  An exception ends the reading and is caught: the table keeps what has been read so far, and the
  result is `true` all the same. `zone_file_read_back`: the table that a file holds is read back,
  whatever follows in the file, and whatever the file, all transitions of a table that is read
  begin an offset of the table at the local second they say.

  An index outside of a vector and a negative length of an array are undefined, and give `none`.
  Whether the stack has room for the array of `readBytes` is not modelled.
-/
import Mmvx.Base.LocalTime
import Mmvx.Lib.BigEndian
import Mmvx.Lib.Reader

namespace Mmvx.Base

open Mmvx.Lib

namespace ZoneFile

/-! ## class File -/

def readBytes (n : Nat) : Reader (List UInt8) := fun f =>
  if f.length < n then .error "no enough data" else .ok (f.take n, f.drop n)

def readInt32 : Reader Int := fun f =>
  if f.length < 4 then .error "bad int32_t data"
  else .ok (toSigned 32 (beNat (f.take 4)), f.drop 4)

def readUInt8 : Reader Nat := fun f =>
  match f with
  | [] => .error "bad uint8_t data"
  | b :: f => .ok (b.toNat, f)

/-! ## readTimeZoneFile -/

structure Counts where
  timecnt : Int
  typecnt : Int
  charcnt : Int

def readHead : Reader Counts := do
  let head ← readBytes 4
  if head ≠ [84, 90, 105, 102] then throw "bad head"
  let _version ← readBytes 1
  let _reserved ← readBytes 15
  let _isgmtcnt ← readInt32
  let _isstdcnt ← readInt32
  let _leapcnt ← readInt32
  let timecnt ← readInt32
  let typecnt ← readInt32
  let charcnt ← readInt32
  return ⟨timecnt, typecnt, charcnt⟩

/-- What is read before the table is touched: the seconds of the transitions and the indices of
    their offsets. A vector cannot be reserved for a negative count. -/
def readTimes : Reader (Counts × List Int × List Nat) := do
  let counts ← readHead
  if counts.timecnt < 0 then throw "vector::reserve"
  let times ← readInt32.many counts.timecnt.toNat
  let indices ← readUInt8.many counts.timecnt.toNat
  return (counts, times, indices)

def readLocaltime : Reader Localtime := do
  let gmtoff ← readInt32
  let isdst ← readUInt8
  let abbrind ← readUInt8
  return ⟨gmtoff, isdst ≠ 0, abbrind⟩

/-- The offsets are put into the table one by one: those before an exception stay. -/
def readLocaltimes : Nat → List UInt8 → List Localtime × Except String (List UInt8)
  | 0, f => ([], .ok f)
  | n + 1, f =>
    match readLocaltime.run f with
    | .error e => ([], .error e)
    | .ok (loc, f) => (loc :: (readLocaltimes n f).1, (readLocaltimes n f).2)

/-- The transition at a second to an offset of the table. -/
def transitionOf (locs : List Localtime) (time : Int) (idx : Nat) : Option Transition :=
  (locs[idx]?).map fun loc => ⟨time, time + loc.gmtOffset, idx⟩

def transitionsOf (locs : List Localtime) : List Int → List Nat → Option (List Transition)
  | time :: times, idx :: indices =>
    (transitionOf locs time idx).bind fun tr =>
      (transitionsOf locs times indices).map fun trs => tr :: trs
  | _, _ => some []

/-- The table behind the transitions. -/
def readRest (counts : Counts) (times : List Int) (indices : List Nat) (f : List UInt8) :
    Option ZoneData :=
  match readLocaltimes counts.typecnt.toNat f with
  | (locs, .error _) => some ⟨[], locs, []⟩
  | (locs, .ok f) =>
    (transitionsOf locs times indices).bind fun transitions =>
      if counts.charcnt < 0 then none
      else
        match (readBytes counts.charcnt.toNat).run f with
        | .error _ => some ⟨transitions, locs, []⟩
        | .ok (abbreviation, _) => some ⟨transitions, locs, abbreviation⟩

/-- `none` for a file that cannot be opened. -/
def readTimeZoneFile : Option (List UInt8) → Option ZoneData
  | none => some ⟨[], [], []⟩
  | some f =>
    match readTimes.run f with
    | .error _ => some ⟨[], [], []⟩
    | .ok ((counts, times, indices), f) => readRest counts times indices f

/-! ## The format -/

def int32Bytes (x : Int) : List UInt8 := beBytes 4 (x % 4294967296).toNat

/-- A `ttinfo`. -/
def localtimeBytes (loc : Localtime) : List UInt8 :=
  int32Bytes loc.gmtOffset ++ [if loc.isDst then 1 else 0, UInt8.ofNat loc.arrbIdx]

/-- What precedes the transitions: the version, what is reserved, and the counts of what the reader
    does not use. -/
structure Preamble where
  version : UInt8
  reserved : List UInt8
  isgmtcnt : Int
  isstdcnt : Int
  leapcnt : Int
  length_reserved : reserved.length = 15

/-- The counts are behind what precedes them. -/
def headBytes (pre : Preamble) (timecnt typecnt charcnt : Int) : List UInt8 :=
  [84, 90, 105, 102] ++ ([pre.version] ++ (pre.reserved ++ (int32Bytes pre.isgmtcnt ++
    (int32Bytes pre.isstdcnt ++ (int32Bytes pre.leapcnt ++ (int32Bytes timecnt ++
      (int32Bytes typecnt ++ int32Bytes charcnt)))))))

/-- The first block of a TZif file. -/
def tzif (pre : Preamble) (data : ZoneData) : List UInt8 :=
  headBytes pre data.transitions.length data.localtimes.length data.abbreviation.length ++
    ((data.transitions.flatMap fun tr => int32Bytes tr.gmttime) ++
      data.transitions.flatMap fun tr => [UInt8.ofNat tr.localtimeIdx]) ++
    (data.localtimes.flatMap localtimeBytes ++ data.abbreviation)

/-- A table whose entries have the widths of the format. -/
structure Fits (data : ZoneData) : Prop where
  times : ∀ tr ∈ data.transitions, -2147483648 ≤ tr.gmttime ∧ tr.gmttime ≤ 2147483647
  index : ∀ tr ∈ data.transitions, tr.localtimeIdx < 256
  offset : ∀ tr ∈ data.transitions,
    transitionOf data.localtimes tr.gmttime tr.localtimeIdx = some tr
  offsets : ∀ loc ∈ data.localtimes, -2147483648 ≤ loc.gmtOffset ∧ loc.gmtOffset ≤ 2147483647
  names : ∀ loc ∈ data.localtimes, loc.arrbIdx < 256
  length_transitions : data.transitions.length ≤ 2147483647
  length_localtimes : data.localtimes.length ≤ 2147483647
  length_abbreviation : data.abbreviation.length ≤ 2147483647

/-! ## Reading back -/

open Reader

theorem reads_readBytes (bs : List UInt8) : Reads (readBytes bs.length) bs bs := by
  intro rest
  show readBytes bs.length (bs ++ rest) = _
  unfold readBytes
  rw [if_neg (by rw [List.length_append]; omega), List.take_left, List.drop_left]

theorem length_int32Bytes (x : Int) : (int32Bytes x).length = 4 := length_beBytes 4 _

theorem reads_word {bs : List UInt8} (hbs : bs.length = 4) :
    Reads readInt32 bs (toSigned 32 (beNat bs)) := by
  intro rest
  show readInt32 (bs ++ rest) = _
  unfold readInt32
  rw [if_neg (by rw [List.length_append]; omega), List.take_left' hbs, List.drop_left' hbs]

theorem reads_readInt32 {x : Int} (hx : -2147483648 ≤ x ∧ x ≤ 2147483647) :
    Reads readInt32 (int32Bytes x) x := by
  have hvalue : toSigned 32 (beNat (int32Bytes x)) = x := by
    rw [int32Bytes, beNat_beBytes, Nat.mod_eq_of_lt (by omega), toSigned,
      Int.toNat_of_nonneg (by omega)]
    exact (Int.emod_bmod x 4294967296).trans (Int.bmod_eq_of_le (by omega) (by omega))
  have h := reads_word (length_int32Bytes x)
  rwa [hvalue] at h

theorem reads_readUInt8 {n : Nat} (hn : n < 256) : Reads readUInt8 [UInt8.ofNat n] n := by
  intro rest
  show Except.ok ((UInt8.ofNat n).toNat, rest) = _
  rw [UInt8.toNat_ofNat_of_lt' hn]

theorem reads_readLocaltime {loc : Localtime}
    (hoffset : -2147483648 ≤ loc.gmtOffset ∧ loc.gmtOffset ≤ 2147483647)
    (hname : loc.arrbIdx < 256) : Reads readLocaltime (localtimeBytes loc) loc := by
  have hdst : Reads readUInt8 [if loc.isDst then 1 else 0] (if loc.isDst then 1 else 0) := by
    cases loc.isDst with
    | true => exact reads_readUInt8 (n := 1) (by decide)
    | false => exact reads_readUInt8 (n := 0) (by decide)
  have hlast := (reads_readUInt8 hname).map fun abbrind =>
    Localtime.mk loc.gmtOffset (decide ((if loc.isDst then 1 else 0) ≠ 0)) abbrind
  have hloc : Localtime.mk loc.gmtOffset (decide ((if loc.isDst then 1 else 0) ≠ 0)) loc.arrbIdx =
      loc := by
    obtain ⟨gmtOffset, isDst, arrbIdx⟩ := loc
    cases isDst <;> rfl
  rw [hloc] at hlast
  exact (reads_readInt32 hoffset).bind (hdst.bind hlast)

theorem readLocaltimes_eq {locs : List Localtime}
    (hoffset : ∀ loc ∈ locs, -2147483648 ≤ loc.gmtOffset ∧ loc.gmtOffset ≤ 2147483647)
    (hname : ∀ loc ∈ locs, loc.arrbIdx < 256) (rest : List UInt8) :
    readLocaltimes locs.length (locs.flatMap localtimeBytes ++ rest) = (locs, .ok rest) := by
  induction locs with
  | nil => rfl
  | cons loc locs ih =>
    have hloc := reads_readLocaltime (hoffset loc List.mem_cons_self) (hname loc List.mem_cons_self)
    have ih' := ih (fun l hl => hoffset l (List.mem_cons_of_mem _ hl))
      (fun l hl => hname l (List.mem_cons_of_mem _ hl))
    rw [List.length_cons, List.flatMap_cons, List.append_assoc, readLocaltimes, hloc]
    dsimp only
    rw [ih']

theorem transitionsOf_eq {locs : List Localtime} {trs : List Transition}
    (h : ∀ tr ∈ trs, transitionOf locs tr.gmttime tr.localtimeIdx = some tr) :
    transitionsOf locs (trs.map (·.gmttime)) (trs.map (·.localtimeIdx)) = some trs := by
  induction trs with
  | nil => rfl
  | cons tr trs ih =>
    rw [List.map_cons, List.map_cons, transitionsOf, h tr List.mem_cons_self, Option.bind_some,
      ih fun t ht => h t (List.mem_cons_of_mem _ ht), Option.map_some]

theorem reads_readHead (pre : Preamble) {t y c : Int} (ht : -2147483648 ≤ t ∧ t ≤ 2147483647)
    (hy : -2147483648 ≤ y ∧ y ≤ 2147483647) (hc : -2147483648 ≤ c ∧ c ≤ 2147483647) :
    Reads readHead (headBytes pre t y c) ⟨t, y, c⟩ := by
  have hreserved : Reads (readBytes 15) pre.reserved pre.reserved := by
    have h := reads_readBytes pre.reserved
    rwa [pre.length_reserved] at h
  refine (reads_readBytes [84, 90, 105, 102]).bind ?_
  refine (reads_readBytes [pre.version]).bind ?_
  refine hreserved.bind ?_
  refine (reads_word (length_int32Bytes pre.isgmtcnt)).bind ?_
  refine (reads_word (length_int32Bytes pre.isstdcnt)).bind ?_
  refine (reads_word (length_int32Bytes pre.leapcnt)).bind ?_
  refine (reads_readInt32 ht).bind ?_
  refine (reads_readInt32 hy).bind ?_
  exact (reads_readInt32 hc).map _

theorem reads_readTimes (pre : Preamble) {data : ZoneData} (hdata : Fits data) :
    Reads readTimes
      (headBytes pre data.transitions.length data.localtimes.length data.abbreviation.length ++
        ((data.transitions.flatMap fun tr => int32Bytes tr.gmttime) ++
          data.transitions.flatMap fun tr => [UInt8.ofNat tr.localtimeIdx]))
      (⟨data.transitions.length, data.localtimes.length, data.abbreviation.length⟩,
        data.transitions.map (·.gmttime), data.transitions.map (·.localtimeIdx)) := by
  have ht := hdata.length_transitions
  have hy := hdata.length_localtimes
  have hc := hdata.length_abbreviation
  refine (reads_readHead pre ⟨by omega, by omega⟩ ⟨by omega, by omega⟩ ⟨by omega, by omega⟩).bind ?_
  dsimp only
  rw [if_neg (by omega), Int.toNat_natCast]
  refine (Reads.many fun tr htr => reads_readInt32 (hdata.times tr htr)).bind ?_
  exact (Reads.many fun tr htr => reads_readUInt8 (hdata.index tr htr)).map _

/-- What a table keeps from a file is consistent. -/
theorem transitionsOf_consistent {locs : List Localtime} :
    ∀ {times : List Int} {indices : List Nat} {trs : List Transition},
      transitionsOf locs times indices = some trs →
      ∀ tr ∈ trs, ∃ loc, locs[tr.localtimeIdx]? = some loc ∧
        tr.localtime = tr.gmttime + loc.gmtOffset
  | time :: times, idx :: indices, trs, h => by
    rw [transitionsOf] at h
    obtain ⟨tr, htr, h⟩ := Option.bind_eq_some_iff.mp h
    obtain ⟨rest, hrest, rfl⟩ := Option.map_eq_some_iff.mp h
    intro t ht
    rcases List.mem_cons.mp ht with rfl | ht
    · obtain ⟨loc, hloc, rfl⟩ := Option.map_eq_some_iff.mp htr
      exact ⟨loc, hloc, rfl⟩
    · exact transitionsOf_consistent hrest t ht
  | [], _, trs, h => by
    cases h
    intro tr htr
    cases htr
  | _ :: _, [], trs, h => by
    cases h
    intro tr htr
    cases htr

/-- The transitions begin offsets of the table, at the local seconds they say. -/
def Consistent (data : ZoneData) : Prop :=
  ∀ tr ∈ data.transitions, ∃ loc, data.localtimes[tr.localtimeIdx]? = some loc ∧
    tr.localtime = tr.gmttime + loc.gmtOffset

theorem consistent_nil (locs : List Localtime) (names : List UInt8) :
    Consistent ⟨[], locs, names⟩ := by
  intro tr htr
  cases htr

theorem readRest_consistent {counts : Counts} {times : List Int} {indices : List Nat}
    {f : List UInt8} {data : ZoneData} (h : readRest counts times indices f = some data) :
    Consistent data := by
  unfold readRest at h
  split at h
  · cases h
    exact consistent_nil _ _
  · obtain ⟨trs, htrs, h⟩ := Option.bind_eq_some_iff.mp h
    split at h
    · cases h
    · split at h
      · cases h
        exact transitionsOf_consistent htrs
      · cases h
        exact transitionsOf_consistent htrs

theorem readTimeZoneFile_some {f : List UInt8} {counts : Counts} {times : List Int}
    {indices : List Nat} {rest : List UInt8}
    (h : readTimes.run f = .ok ((counts, times, indices), rest)) :
    readTimeZoneFile (some f) = readRest counts times indices rest := by
  simp only [readTimeZoneFile, h]

/-- **Zone files are read back.** The table that the first block of a file holds is read back,
    whatever follows in the file. Whatever the file, each transition of a table that is read begins
    an offset of the table, at the second of UTC plus that offset. -/
theorem zone_file_read_back :
    (∀ (pre : Preamble) (data : ZoneData) (rest : List UInt8), Fits data →
      readTimeZoneFile (some (tzif pre data ++ rest)) = some data) ∧
    ∀ (file : Option (List UInt8)) (data : ZoneData), readTimeZoneFile file = some data →
      Consistent data := by
  refine ⟨?_, ?_⟩
  · intro pre data rest hdata
    have htimes := reads_readTimes pre hdata (data.localtimes.flatMap localtimeBytes ++
      data.abbreviation ++ rest)
    have habbreviation := reads_readBytes data.abbreviation rest
    unfold tzif
    rw [List.append_assoc _ _ rest, readTimeZoneFile_some htimes]
    unfold readRest
    rw [Int.toNat_natCast, List.append_assoc, readLocaltimes_eq hdata.offsets hdata.names]
    dsimp only
    rw [transitionsOf_eq hdata.offset, Option.bind_some, if_neg (by omega), Int.toNat_natCast,
      habbreviation]
  · intro file data hdata
    cases file with
    | none =>
      cases hdata
      exact consistent_nil _ _
    | some f =>
      simp only [readTimeZoneFile] at hdata
      split at hdata
      · cases hdata
        exact consistent_nil _ _
      · exact readRest_consistent hdata

/-- A file with one summer, and a footer behind it. -/
theorem zone_file_read_back_one_summer :
    readTimeZoneFile (some (tzif ⟨50, List.replicate 15 0, 2, 2, 0, rfl⟩ TimeZone.oneSummer ++
      [10, 67, 69, 84, 10])) = some TimeZone.oneSummer := by
  refine zone_file_read_back.1 _ _ _ ?_
  constructor <;> decide

end ZoneFile

end Mmvx.Base
