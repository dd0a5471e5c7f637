/-
  The texts of times: `muduo::Timestamp` (muduo/base/Timestamp.{h,cc}) and `Logger::Impl::formatTime`
  (muduo/base/Logging.cc).

  `formatted_order`: until the end of the year 9999 the formatted texts of timestamps are in the
  order of the times, so lines that begin with them are in the order of time when they are sorted as
  texts.

  `formatTime` keeps the text of the last second for each thread and formats the second again only
  if it has changed. `format_time_cached`: while the time zone stays the same, the kept text is what
  would be formatted. The zone of a text is not kept with it: after `setTimeZone` the first texts of
  a thread are still those of the old zone if its second has not changed.

  A timestamp is its microseconds since the epoch.
-/
import Mmvx.Base.LocalTime
import Mmvx.Base.Logging
import Mmvx.Lib.FixedWidth

namespace Mmvx.Base

open Mmvx.Lib

/-! ## Formats of snprintf -/

/-- `%0wd`. -/
def zeroPadded (w : Nat) (v : Int) : List UInt8 :=
  if v < 0 then
    45 :: (List.replicate (w - 1 - (numeral 10 v.natAbs).length) 48 ++ numeral 10 v.natAbs)
  else List.replicate (w - (numeral 10 v.natAbs).length) 48 ++ numeral 10 v.natAbs

/-- `%wd`. -/
def spacePadded (w : Nat) (v : Int) : List UInt8 :=
  List.replicate (w - (decimal v).length) 32 ++ decimal v

/-- `snprintf(buf, size, …)`: the text without its terminator. -/
def snprintf (size : Nat) (text : List UInt8) : List UInt8 := text.take (size - 1)

/-- `%4d%02d%02d %02d:%02d:%02d`. -/
def secondText (tm : Tm) : List UInt8 :=
  spacePadded 4 (tm.tm_year + 1900) ++ zeroPadded 2 (tm.tm_mon + 1) ++ zeroPadded 2 tm.tm_mday ++
    [32] ++ zeroPadded 2 tm.tm_hour ++ [58] ++ zeroPadded 2 tm.tm_min ++ [58] ++
    zeroPadded 2 tm.tm_sec

namespace Timestamp

def kMicroSecondsPerSecond : Int := 1000000

def invalid : Int := 0

def valid (microSecondsSinceEpoch : Int) : Bool := 0 < microSecondsSinceEpoch

def toFormattedString (microSecondsSinceEpoch : Int) (showMicroseconds : Bool) :
    Option (List UInt8) :=
  let seconds := microSecondsSinceEpoch.tdiv kMicroSecondsPerSecond
  let microseconds := microSecondsSinceEpoch.tmod kMicroSecondsPerSecond
  (TimeZone.gmtimeR seconds).map fun tm =>
    if showMicroseconds then snprintf 32 (secondText tm ++ [46] ++ zeroPadded 6 microseconds)
    else snprintf 32 (secondText tm)

end Timestamp

/-! ## Texts of a fixed width -/

theorem zeroPadded_eq {w : Nat} {v : Int} (hw : 0 < w) (hv : 0 ≤ v) (hv' : v.toNat < 10 ^ w) :
    zeroPadded w v = fixedWidth w v.toNat := by
  have habs : v.natAbs = v.toNat := by omega
  rw [zeroPadded, if_neg (by omega), habs]
  exact replicate_append_numeral hw hv'

/-- A year of four digits. -/
theorem spacePadded_eq {v : Int} (hv : 1000 ≤ v) (hv' : v ≤ 9999) :
    spacePadded 4 v = fixedWidth 4 v.toNat := by
  have habs : v.natAbs = v.toNat := by omega
  have htext : decimal v = numeral 10 v.toNat := by
    rw [decimal, if_neg (by omega), habs]
    rfl
  have hfour := replicate_append_numeral (w := 4) (n := v.toNat) (by decide) (by omega)
  have hlen : (numeral 10 v.toNat).length = 4 := by
    rw [numeral_eq, if_neg (by omega), numeral_eq, if_neg (by omega), numeral_eq,
      if_neg (by omega), numeral_eq, if_pos (by omega)]
    rfl
  rw [spacePadded, htext, ← hfour, hlen]
  rfl

/-- The fields of a second of a year of four digits, and a microsecond. -/
structure FourDigitYear (x : Tm × Int) : Prop where
  year : 1000 ≤ x.1.tm_year + 1900 ∧ x.1.tm_year + 1900 ≤ 9999
  month : 0 ≤ x.1.tm_mon ∧ x.1.tm_mon < 12
  day : 1 ≤ x.1.tm_mday ∧ x.1.tm_mday ≤ 31
  hour : 0 ≤ x.1.tm_hour ∧ x.1.tm_hour < 24
  min : 0 ≤ x.1.tm_min ∧ x.1.tm_min < 60
  sec : 0 ≤ x.1.tm_sec ∧ x.1.tm_sec < 60
  micro : 0 ≤ x.2 ∧ x.2 < 1000000

/-- The digits of a text as one number. -/
def textKey (x : Tm × Int) : Nat :=
  ((((((x.1.tm_year + 1900).toNat * 100 + (x.1.tm_mon + 1).toNat) * 100 + x.1.tm_mday.toNat) * 100 +
    x.1.tm_hour.toNat) * 100 + x.1.tm_min.toNat) * 100 + x.1.tm_sec.toNat) * 1000000 + x.2.toNat

/-- The text with the widths of its fields. -/
def fixedText (x : Tm × Int) : List UInt8 :=
  fixedWidth 4 (x.1.tm_year + 1900).toNat ++ fixedWidth 2 (x.1.tm_mon + 1).toNat ++
    fixedWidth 2 x.1.tm_mday.toNat ++ [32] ++ fixedWidth 2 x.1.tm_hour.toNat ++ [58] ++
    fixedWidth 2 x.1.tm_min.toNat ++ [58] ++ fixedWidth 2 x.1.tm_sec.toNat ++ [46] ++
    fixedWidth 6 x.2.toNat

theorem secondText_eq {tm : Tm} {us : Int} (h : FourDigitYear (tm, us)) :
    secondText tm ++ [46] ++ zeroPadded 6 us = fixedText (tm, us) := by
  obtain ⟨⟨hy, hy'⟩, ⟨hm, hm'⟩, ⟨hd, hd'⟩, ⟨hh, hh'⟩, ⟨hmi, hmi'⟩, ⟨hs, hs'⟩, ⟨hu, hu'⟩⟩ := h
  simp only at *
  unfold secondText fixedText
  rw [spacePadded_eq hy hy', zeroPadded_eq (v := tm.tm_mon + 1) (by decide) (by omega) (by omega),
    zeroPadded_eq (v := tm.tm_mday) (by decide) (by omega) (by omega),
    zeroPadded_eq (v := tm.tm_hour) (by decide) hh (by omega),
    zeroPadded_eq (v := tm.tm_min) (by decide) hmi (by omega),
    zeroPadded_eq (v := tm.tm_sec) (by decide) hs (by omega),
    zeroPadded_eq (v := us) (by decide) hu (by omega)]

/-- The texts are in the order of their digits. -/
theorem fixedText_ordered : OrderedBy FourDigitYear fixedText textKey := by
  have hyear : OrderedBy FourDigitYear (fun x => fixedWidth 4 (x.1.tm_year + 1900).toNat) _ :=
    .fixed fun x hx => by
      have := hx.year
      omega
  have hmonth : OrderedBy FourDigitYear (fun x => fixedWidth 2 (x.1.tm_mon + 1).toNat) _ :=
    .fixed fun x hx => by
      have := hx.month
      omega
  have hday : OrderedBy FourDigitYear (fun x => fixedWidth 2 x.1.tm_mday.toNat) _ :=
    .fixed fun x hx => by
      have := hx.day
      omega
  have hhour : OrderedBy FourDigitYear (fun x => fixedWidth 2 x.1.tm_hour.toNat) _ :=
    .fixed fun x hx => by
      have := hx.hour
      omega
  have hmin : OrderedBy FourDigitYear (fun x => fixedWidth 2 x.1.tm_min.toNat) _ :=
    .fixed fun x hx => by
      have := hx.min
      omega
  have hsec : OrderedBy FourDigitYear (fun x => fixedWidth 2 x.1.tm_sec.toNat) _ :=
    .fixed fun x hx => by
      have := hx.sec
      omega
  have hmicro : OrderedBy FourDigitYear (fun x => fixedWidth 6 x.2.toNat) _ :=
    .fixed fun x hx => by
      have := hx.micro
      omega
  have hdate := ((hyear.append hmonth (K := 100) fun x hx => by have := hx.month; omega).append hday
    (K := 100) fun x hx => by have := hx.day; omega).separated [32]
  have htime := ((((hdate.append hhour (K := 100) fun x hx => by have := hx.hour; omega).separated
    [58]).append hmin (K := 100) fun x hx => by have := hx.min; omega).separated [58]).append hsec
    (K := 100) fun x hx => by have := hx.sec; omega
  exact (htime.separated [46]).append hmicro fun x hx => by have := hx.micro; omega

/-! ## The order of time -/

/-- A date as one number. -/
def dateKey (d : YearMonthDay) : Int := (d.year * 100 + d.month) * 100 + d.day

theorem daysInMonth_bounds (year month : Int) :
    1 ≤ daysInMonth year month ∧ daysInMonth year month ≤ 31 := by
  unfold daysInMonth
  split
  · split <;> omega
  · split <;> omega

theorem dateKey_next {d : YearMonthDay} (h : d.Valid) : dateKey d < dateKey d.next := by
  have hdays := daysInMonth_bounds d.year d.month
  obtain ⟨hge, hle, hday, hday'⟩ := h
  unfold YearMonthDay.next dateKey
  split
  · simp only
    omega
  · split <;> simp only <;> omega

/-- Later days have later dates. -/
theorem dateKey_lt {n n' : Int} (hn : -32044 ≤ n) (hlt : n < n') (hn' : n' ≤ kMaxJulianDayNumber)
    {d d' : YearMonthDay} (hd : getYearMonthDay n = some d) (hd' : getYearMonthDay n' = some d') :
    dateKey d < dateKey d' := by
  obtain ⟨k, rfl⟩ : ∃ k : Nat, n' = n + 1 + k := ⟨(n' - n - 1).toNat, by omega⟩
  induction k generalizing d' with
  | zero =>
    obtain ⟨e, he, hvalid, -⟩ := getYearMonthDay_valid hn (by omega)
    obtain rfl : d = e := Option.some.inj (hd.symm.trans he)
    rw [Int.natCast_zero, Int.add_zero, getYearMonthDay_succ hn (by omega), hd,
      Option.map_some] at hd'
    obtain rfl := Option.some.inj hd'
    exact dateKey_next hvalid
  | succ k ih =>
    obtain ⟨e, he, hvalid, -⟩ := getYearMonthDay_valid (n := n + 1 + k) (by omega) (by omega)
    have hlast : n + 1 + ((k + 1 : Nat) : Int) = n + 1 + k + 1 := by omega
    rw [hlast, getYearMonthDay_succ (by omega) (by omega), he, Option.map_some] at hd'
    obtain rfl := Option.some.inj hd'
    exact Int.lt_trans (ih (by omega) (by omega) he) (dateKey_next hvalid)

/-- The microseconds of the years 1970 to 9999. -/
def InYears (us : Int) : Prop := 0 ≤ us ∧ us < 253402300800000000

instance (us : Int) : Decidable (InYears us) := inferInstanceAs (Decidable (_ ∧ _))

/-- The days of these years. -/
theorem year_of_day {n : Int} (hn : 2440588 ≤ n) (hn' : n ≤ 5373484) {d : YearMonthDay}
    (hd : getYearMonthDay n = some d) : 1970 ≤ d.year ∧ d.year ≤ 9999 := by
  have hfirst : getYearMonthDay 2440588 = some ⟨1970, 1, 1⟩ := by decide
  have hlast : getYearMonthDay 5373484 = some ⟨9999, 12, 31⟩ := by decide
  obtain ⟨e, he, hvalid, -⟩ := getYearMonthDay_valid (n := n) (by omega)
    (by unfold kMaxJulianDayNumber; omega)
  obtain rfl : d = e := Option.some.inj (hd.symm.trans he)
  have hdays := daysInMonth_bounds d.year d.month
  obtain ⟨hge, hle, hday, hday'⟩ := hvalid
  constructor
  · rcases Int.lt_or_eq_of_le hn with hlt | rfl
    · have hkey := dateKey_lt (by decide) hlt (by unfold kMaxJulianDayNumber; omega) hfirst hd
      simp only [dateKey] at hkey
      omega
    · rw [hfirst] at hd
      obtain rfl := Option.some.inj hd
      decide
  · rcases Int.lt_or_eq_of_le hn' with hlt | rfl
    · have hkey := dateKey_lt (by omega) hlt (by decide) hd hlast
      simp only [dateKey] at hkey
      omega
    · rw [hlast] at hd
      obtain rfl := Option.some.inj hd
      decide

/-- A date of these years and a microsecond of the day. -/
def fieldsKey (d : YearMonthDay) (s u : Int) : Int :=
  (((dateKey d * 100 + s / 60 / 60) * 100 + s / 60 % 60) * 100 + s % 60) * 1000000 + u

/-- The text of a timestamp and the number that its digits are. -/
theorem toFormattedString_eq {us : Int} (h : InYears us) :
    ∃ d tm, getYearMonthDay (us / 1000000 / 86400 + 2440588) = some d ∧
      Timestamp.toFormattedString us true = some (fixedText (tm, us % 1000000)) ∧
      FourDigitYear (tm, us % 1000000) ∧
      (textKey (tm, us % 1000000) : Int) =
        fieldsKey d (us / 1000000 % 86400) (us % 1000000) := by
  obtain ⟨hlow, hhigh⟩ := h
  have hrange : TimeZone.UtcRange (us / 1000000) := ⟨by omega, by omega⟩
  obtain ⟨d, yearDay, wday, hd, hvalid, -, htm⟩ := TimeZone.toUtcTime_eq hrange true
  obtain ⟨hyear, hyear'⟩ := year_of_day (by omega) (by omega) hd
  have hdays := daysInMonth_bounds d.year d.month
  obtain ⟨hge, hle, hday, hday'⟩ := hvalid
  have hdiv : us.tdiv 1000000 = us / 1000000 := Int.tdiv_eq_ediv_of_nonneg hlow
  have hmod : us.tmod 1000000 = us % 1000000 := Int.tmod_eq_emod_of_nonneg hlow
  obtain ⟨tm, htm, hsec, hmin, hhour, hmday, hmon, hyr⟩ :
      ∃ tm, TimeZone.toUtcTime (us / 1000000) true = some tm ∧
        tm.tm_sec = us / 1000000 % 86400 % 60 ∧ tm.tm_min = us / 1000000 % 86400 / 60 % 60 ∧
        tm.tm_hour = us / 1000000 % 86400 / 60 / 60 ∧ tm.tm_mday = d.day ∧
        tm.tm_mon = d.month - 1 ∧ tm.tm_year = d.year - 1900 :=
    ⟨_, htm, rfl, rfl, rfl, rfl, rfl, rfl⟩
  have hfields : FourDigitYear (tm, us % 1000000) := by
    constructor <;> simp only <;> omega
  refine ⟨d, tm, hd, ?_, hfields, ?_⟩
  · have hlen : (fixedText (tm, us % 1000000)).length ≤ 31 := by simp [fixedText]
    simp only [Timestamp.toFormattedString, Timestamp.kMicroSecondsPerSecond, TimeZone.gmtimeR,
      hdiv, hmod, htm, Option.map_some, if_true]
    rw [secondText_eq hfields, snprintf, List.take_of_length_le hlen]
  · simp only [textKey, fieldsKey, dateKey]
    omega

theorem fieldsKey_lt {d d' : YearMonthDay} {s s' u u' : Int} (hs : 0 ≤ s) (hs' : s < 86400)
    (ht : 0 ≤ s') (ht' : s' < 86400) (hu : 0 ≤ u) (hu' : u < 1000000) (hv : 0 ≤ u')
    (hv' : u' < 1000000)
    (h : dateKey d < dateKey d' ∨ dateKey d = dateKey d' ∧ s * 1000000 + u < s' * 1000000 + u') :
    fieldsKey d s u < fieldsKey d' s' u' := by
  unfold fieldsKey
  omega

/-- Later times have larger numbers. -/
theorem fieldsKey_of_lt {us us' : Int} (h : InYears us) (h' : InYears us') (hlt : us < us')
    {d d' : YearMonthDay} (hd : getYearMonthDay (us / 1000000 / 86400 + 2440588) = some d)
    (hd' : getYearMonthDay (us' / 1000000 / 86400 + 2440588) = some d') :
    fieldsKey d (us / 1000000 % 86400) (us % 1000000) <
      fieldsKey d' (us' / 1000000 % 86400) (us' % 1000000) := by
  obtain ⟨hlow, -⟩ := h
  obtain ⟨-, hhigh⟩ := h'
  refine fieldsKey_lt (by omega) (by omega) (by omega) (by omega) (by omega) (by omega) (by omega)
    (by omega) ?_
  rcases Int.lt_or_le (us / 1000000 / 86400) (us' / 1000000 / 86400) with hday | hday
  · exact Or.inl (dateKey_lt (by omega) (by omega) (by unfold kMaxJulianDayNumber; omega) hd hd')
  · have hsame : us / 1000000 / 86400 = us' / 1000000 / 86400 := by omega
    rw [hsame, hd'] at hd
    obtain rfl := Option.some.inj hd
    exact Or.inr ⟨rfl, by omega⟩

/-- **Formatted times sort like times.** Until the end of the year 9999 every timestamp from the
    epoch on has a formatted text, and of two timestamps the earlier one has the smaller text. -/
theorem formatted_order {us us' : Int} (h : InYears us) (h' : InYears us') :
    ∃ text text', Timestamp.toFormattedString us true = some text ∧
      Timestamp.toFormattedString us' true = some text' ∧ (text < text' ↔ us < us') := by
  obtain ⟨d, tm, hd, htext, hfields, hkey⟩ := toFormattedString_eq h
  obtain ⟨d', tm', hd', htext', hfields', hkey'⟩ := toFormattedString_eq h'
  refine ⟨_, _, htext, htext', ?_⟩
  rw [fixedText_ordered.lt _ _ hfields hfields', ← Int.ofNat_lt, hkey, hkey']
  constructor
  · intro hlt
    by_contra hge
    rcases Int.lt_or_eq_of_le (Int.not_lt.mp hge) with hgt | heq
    · have := fieldsKey_of_lt h' h hgt hd' hd
      omega
    · subst heq
      rw [hd] at hd'
      obtain rfl := Option.some.inj hd'
      omega
  · intro hlt
    exact fieldsKey_of_lt h h' hlt hd hd'

/-- The last microsecond of 1999 and the first of 2000. -/
theorem formatted_order_2000 :
    ∃ text text', Timestamp.toFormattedString 946684799999999 true = some text ∧
      Timestamp.toFormattedString 946684800000000 true = some text' ∧
      (text < text' ↔ (946684799999999 : Int) < 946684800000000) :=
  formatted_order (by decide) (by decide)

/-! ## formatTime -/

/-- The variables of a thread: `t_time` up to its terminator, and `t_lastSecond`. -/
structure TimeCache where
  t_time : List UInt8
  t_lastSecond : Int
  deriving DecidableEq, Repr

/-- What they are before the first record of a thread. -/
def TimeCache.initial : TimeCache := ⟨[], 0⟩

/-- The second of a record. -/
def secondOf (us : Int) : Int := us.tdiv Timestamp.kMicroSecondsPerSecond

/-- The broken-down time of a second in `g_logTimeZone`, which is UTC if it is not valid. -/
def logTm (zone : Option ZoneData) (seconds : Int) : Option Tm :=
  match zone with
  | some data => TimeZone.toLocalTime data seconds
  | none => TimeZone.gmtimeR seconds

/-- The text of a second, and the assertion about its length. -/
def formatSecond (zone : Option ZoneData) (seconds : Int) : Option (List UInt8) :=
  (logTm zone seconds).bind fun tm =>
    if (secondText tm).length = 17 then some (snprintf 32 (secondText tm)) else none

/-- The fraction of a second, and the assertion about its length. -/
def formatMicroseconds (zone : Option ZoneData) (us : Int) : Option (List UInt8) :=
  let text := 46 :: zeroPadded 6 (us.tmod Timestamp.kMicroSecondsPerSecond)
  if zone.isSome then
    if (text ++ [32]).length = 8 then some (text ++ [32]) else none
  else if (text ++ [90, 32]).length = 9 then some (text ++ [90, 32])
  else none

/-- `formatTime`: what is kept, and the two texts that are inserted. `T` asserts that the kept text
    has 17 bytes. -/
def formatTime (zone : Option ZoneData) (us : Int) (cache : TimeCache) :
    Option (TimeCache × List UInt8 × List UInt8) :=
  (if secondOf us ≠ cache.t_lastSecond then
    (formatSecond zone (secondOf us)).map fun text => ⟨text, secondOf us⟩
  else some cache).bind fun cache =>
    (formatMicroseconds zone us).bind fun micro =>
      if cache.t_time.length = 17 then some (cache, cache.t_time, micro) else none

/-- The texts without a cache. -/
def formatPlain (zone : Option ZoneData) (us : Int) : Option (List UInt8 × List UInt8) :=
  (formatSecond zone (secondOf us)).bind fun text =>
    (formatMicroseconds zone us).map fun micro => (text, micro)

/-- The texts of the records of a thread, each with the zone that is set when it is written. -/
def formatAll : TimeCache → List (Option ZoneData × Int) → Option (List (List UInt8 × List UInt8))
  | _, [] => some []
  | cache, r :: rs =>
    (formatTime r.1 r.2 cache).bind fun (cache, texts) =>
      (formatAll cache rs).map fun rest => texts :: rest

/-- The kept text is that of the last second in a zone. -/
def TimeCache.Holds (cache : TimeCache) (zone : Option ZoneData) : Prop :=
  formatSecond zone cache.t_lastSecond = some cache.t_time

theorem length_formatSecond {zone : Option ZoneData} {seconds : Int} {text : List UInt8}
    (h : formatSecond zone seconds = some text) : text.length = 17 := by
  obtain ⟨tm, -, htext⟩ := Option.bind_eq_some_iff.mp h
  split at htext
  · rename_i hlen
    obtain rfl := Option.some.inj htext
    rw [snprintf, List.length_take, hlen]
    rfl
  · cases htext

/-- A record in another second, or in the second of a text of the same zone. -/
theorem formatTime_eq {zone : Option ZoneData} {us : Int} {cache : TimeCache}
    (h : secondOf us = cache.t_lastSecond → cache.Holds zone) :
    formatTime zone us cache = (formatPlain zone us).map fun texts =>
      (⟨texts.1, secondOf us⟩, texts.1, texts.2) := by
  unfold formatTime formatPlain
  by_cases hsecond : secondOf us = cache.t_lastSecond
  · have hholds := h hsecond
    have hlen := length_formatSecond hholds
    rw [if_neg (not_not.mpr hsecond), hsecond, hholds, Option.bind_some, Option.bind_some]
    cases hmicro : formatMicroseconds zone us with
    | none => rfl
    | some micro => rw [Option.bind_some, if_pos hlen, Option.map_some, Option.map_some]
  · rw [if_pos hsecond]
    cases htext : formatSecond zone (secondOf us) with
    | none => rfl
    | some text =>
      have hlen := length_formatSecond htext
      rw [Option.map_some, Option.bind_some, Option.bind_some]
      cases hmicro : formatMicroseconds zone us with
      | none => rfl
      | some micro => rw [Option.bind_some, if_pos hlen, Option.map_some, Option.map_some]

/-- The records in one second that follow each other are written in one zone. -/
def SameZone (r r' : Option ZoneData × Int) : Prop := secondOf r.2 = secondOf r'.2 → r.1 = r'.1

theorem formatAll_eq {rs : List (Option ZoneData × Int)} {cache : TimeCache}
    (hfirst : ∀ r ∈ rs.head?, secondOf r.2 = cache.t_lastSecond → cache.Holds r.1)
    (hzone : rs.IsChain SameZone) :
    formatAll cache rs = rs.mapM fun r => formatPlain r.1 r.2 := by
  induction rs generalizing cache with
  | nil => rfl
  | cons r rs ih =>
    rw [formatAll, List.mapM_cons, formatTime_eq (hfirst r rfl)]
    cases hplain : formatPlain r.1 r.2 with
    | none => rfl
    | some texts =>
      obtain ⟨text, micro⟩ := texts
      obtain ⟨text', htext, hmicro⟩ := Option.bind_eq_some_iff.mp hplain
      obtain ⟨micro', -, heq⟩ := Option.map_eq_some_iff.mp hmicro
      obtain ⟨rfl, rfl⟩ := Prod.mk.inj heq
      have hrest : formatAll ⟨text', secondOf r.2⟩ rs = rs.mapM fun r => formatPlain r.1 r.2 := by
        refine ih ?_ hzone.of_cons
        intro r' hr' hsame
        have hlink := hzone.rel_head? hr'
        rw [← hlink hsame.symm]
        exact htext
      rw [Option.map_some, Option.bind_some]
      show (formatAll ⟨text', secondOf r.2⟩ rs).map _ = _
      rw [hrest]
      simp only [Option.bind_eq_bind, Option.bind_some]
      cases rs.mapM (fun r => formatPlain r.1 r.2) <;> rfl

/-- **The kept text of a second is what would be formatted.** For every sequence of records of a
    thread, at any times in any order, whose first record is not in second `0` and whose records in
    one second, as far as they follow each other, are written in one zone: the texts are those that
    are formatted without a cache. -/
theorem format_time_cached {rs : List (Option ZoneData × Int)}
    (hfirst : ∀ r ∈ rs.head?, secondOf r.2 ≠ 0) (hzone : rs.IsChain SameZone) :
    formatAll .initial rs = rs.mapM fun r => formatPlain r.1 r.2 := by
  refine formatAll_eq ?_ hzone
  intro r hr hsame
  exact absurd hsame (hfirst r hr)

/-- Two records in one second, and one in another zone. -/
theorem format_time_cached_three :
    formatAll .initial [(none, 1700000000123456), (none, 1700000000654321),
      (some (TimeZone.fixed 28800 []), 1700000001000000)] =
      [(none, 1700000000123456), (none, 1700000000654321),
        (some (TimeZone.fixed 28800 []), 1700000001000000)].mapM
        fun r : Option ZoneData × Int => formatPlain r.1 r.2 := by
  refine format_time_cached ?_ ?_
  · intro r hr
    obtain rfl := Option.some.inj hr
    decide
  · refine .cons_cons (fun _ => rfl) (.cons_cons ?_ (.singleton _))
    intro h
    exact absurd h (by decide)

end Mmvx.Base
