/-
  The static functions of `muduo::TimeZone` (muduo/base/TimeZone.{h,cc}): a second of UTC as a
  broken-down time, and back.

  `utc_round_trip`: for every second from the year -4799 on for which no date overflows,
  `fromUtcTime` inverts `toUtcTime`, whose fields are a date of the calendar and a time of the day;
  and every such date and time is that of the second `fromUtcTime` gives.
-/
import Mmvx.Base.Date

namespace Mmvx.Base

/-- `struct tm`. -/
structure Tm where
  tm_sec : Int
  tm_min : Int
  tm_hour : Int
  tm_mday : Int
  tm_mon : Int
  tm_year : Int
  tm_wday : Int
  tm_yday : Int
  tm_isdst : Int
  tm_gmtoff : Int
  tm_zone : List UInt8
  deriving DecidableEq, Repr

def kSecondsPerDay : Int := 86400

/-- `static_cast<int>`. -/
def castInt (x : Int) : Int := x.bmod 4294967296

namespace TimeZone

/-- The day since the epoch and the second of the day. -/
def splitSeconds (secondsSinceEpoch : Int) : Option (Int × Int) :=
  let seconds := castInt (secondsSinceEpoch.tmod kSecondsPerDay)
  let days := castInt (secondsSinceEpoch.tdiv kSecondsPerDay)
  if seconds < 0 then (int32 (days - 1)).map fun d => (d, seconds + kSecondsPerDay)
  else some (days, seconds)

/-- `tm_yday`, which is left `0` if it is not asked for. -/
def dayOfYear (date : Date) (year : Int) (yday : Bool) : Option Int :=
  if yday then
    (Date.ofYearMonthDay year 1 1).bind fun startOfYear =>
      int32 (date.julianDayNumber - startOfYear.julianDayNumber)
  else some 0

def toUtcTime (secondsSinceEpoch : Int) (yday : Bool) : Option Tm := do
  let (days, seconds) ← splitSeconds secondsSinceEpoch
  let date := Date.mk (← int32 (days + Date.kJulianDayOf1970_01_01))
  let ymd ← date.yearMonthDay
  let wday ← date.weekDay
  let yearDay ← dayOfYear date ymd.year yday
  return {
    tm_sec := seconds % 60
    tm_min := seconds / 60 % 60
    tm_hour := seconds / 60 / 60
    tm_mday := ymd.day
    tm_mon := ymd.month - 1
    tm_year := ymd.year - 1900
    tm_wday := wday
    tm_yday := yearDay
    tm_isdst := 0
    tm_gmtoff := 0
    tm_zone := [71, 77, 84] }

/-- The overload with six arguments. -/
def fromUtcFields (year month day hour minute seconds : Int) : Option Int := do
  let date ← Date.ofYearMonthDay year month day
  let secondsInDay ← sum32 (← int32 (hour * 3600)) [← int32 (minute * 60), seconds]
  let days ← int32 (date.julianDayNumber - Date.kJulianDayOf1970_01_01)
  return days * kSecondsPerDay + secondsInDay

def fromUtcTime (utc : Tm) : Option Int := do
  let year ← int32 (utc.tm_year + 1900)
  let month ← int32 (utc.tm_mon + 1)
  fromUtcFields year month utc.tm_mday utc.tm_hour utc.tm_min utc.tm_sec

/-- The seconds from the year -4799 on of the days for which the formulas of `Date` do not
    overflow. -/
def UtcRange (seconds : Int) : Prop := -213608966400 ≤ seconds ∧ seconds < 46172011392000

instance (seconds : Int) : Decidable (UtcRange seconds) := inferInstanceAs (Decidable (_ ∧ _))

/-- The date of a broken-down time. -/
def date (tm : Tm) : YearMonthDay := ⟨tm.tm_year + 1900, tm.tm_mon + 1, tm.tm_mday⟩

/-- A time of a day and a date of the calendar. -/
structure Proper (tm : Tm) : Prop where
  sec : 0 ≤ tm.tm_sec ∧ tm.tm_sec < 60
  min : 0 ≤ tm.tm_min ∧ tm.tm_min < 60
  hour : 0 ≤ tm.tm_hour ∧ tm.tm_hour < 24
  valid : (date tm).Valid

theorem int32_some {x : Int} (h : -2147483648 ≤ x ∧ x ≤ 2147483647) : int32 x = some x := if_pos h

/-- Days are counted downwards before the epoch, and the second of the day is never negative. -/
theorem splitSeconds_eq {t : Int} (ht : UtcRange t) :
    splitSeconds t = some (t / 86400, t % 86400) := by
  obtain ⟨hlow, hhigh⟩ := ht
  have hmod := Int.tmod_def t 86400
  have hcast {x : Int} (h : -2147483648 ≤ x ∧ x ≤ 2147483647) : castInt x = x := by
    unfold castInt
    rw [Int.bmod_eq_of_le (by omega) (by omega)]
  rcases Int.le_total 0 t with hpos | hneg
  · have hdiv : t.tdiv 86400 = t / 86400 := Int.tdiv_eq_ediv_of_nonneg hpos
    have hs : castInt (t.tmod kSecondsPerDay) = t % 86400 := by
      rw [kSecondsPerDay, hcast (by omega)]
      omega
    have hd : castInt (t.tdiv kSecondsPerDay) = t / 86400 := by
      rw [kSecondsPerDay, hdiv, hcast (by omega)]
    simp only [splitSeconds, hs, hd]
    rw [if_neg (by omega)]
  · have hdiv : t.tdiv 86400 = -(-t / 86400) := by
      rw [← Int.tdiv_eq_ediv_of_nonneg (by omega), Int.neg_tdiv, Int.neg_neg]
    have hs : castInt (t.tmod kSecondsPerDay) = t.tmod 86400 := by
      rw [kSecondsPerDay, hcast (by omega)]
    have hd : castInt (t.tdiv kSecondsPerDay) = -(-t / 86400) := by
      rw [kSecondsPerDay, hdiv, hcast (by omega)]
    simp only [splitSeconds, hs, hd]
    split
    · rw [int32_some (by omega), Option.map_some, kSecondsPerDay]
      congr 2 <;> omega
    · congr 2 <;> omega

/-- The first day of a year has a number, and the days of the year are not far from it. -/
theorem startOfYear_eq {d : YearMonthDay} (h : d.Valid) (hr : d.InRange) (hyear : -4799 ≤ d.year) :
    ∃ n, getJulianDayNumber d.year 1 1 = some n ∧ n ≤ d.toMarch.number - 32044 ∧
      d.toMarch.number - 32044 ≤ n + 430 := by
  have hmarch := valid_toMarch h hr
  have hstart : (YearMonthDay.mk d.year 1 1).Valid := by
    constructor <;> simp [daysInMonth]
  have hrange : (YearMonthDay.mk d.year 1 1).InRange := ⟨Or.inl (by simp only; omega), hr.2⟩
  have hfirst : (YearMonthDay.mk d.year 1 1).toMarch = ⟨d.year + 4799, 10, 0⟩ := by
    simp [YearMonthDay.toMarch]
  refine ⟨_, getJulianDayNumber_eq hstart hrange, ?_⟩
  rw [hfirst]
  obtain ⟨he, he', -⟩ := hmarch.dayOfYear
  obtain ⟨year, month, day⟩ := d
  have hge := h.month_ge
  have hday := h.day_ge
  have h4 : (year + 4799) / 4 ≤ (year + 4800) / 4 ∧ (year + 4800) / 4 ≤ (year + 4799) / 4 + 1 := by
    omega
  have h100 : (year + 4799) / 100 ≤ (year + 4800) / 100 ∧
      (year + 4800) / 100 ≤ (year + 4799) / 100 + 1 := by omega
  have h400 : (year + 4799) / 400 ≤ (year + 4800) / 400 ∧
      (year + 4800) / 400 ≤ (year + 4799) / 400 + 1 := by omega
  simp only [YearMonthDay.toMarch, March.number] at *
  by_cases h2 : month ≤ 2
  · simp only [if_pos h2, daysBefore] at *
    omega
  · simp only [if_neg h2, daysBefore] at *
    omega

theorem year_ge {d : YearMonthDay} (h : d.Valid) (hr : d.InRange) (hn : 306 ≤ d.toMarch.number) :
    -4799 ≤ d.year := by
  by_contra hyear
  have hmarch := valid_toMarch h hr
  obtain ⟨hr, -⟩ := hr
  obtain ⟨year, month, day⟩ := d
  obtain rfl : year = -4800 := by
    simp only at hr hyear
    omega
  obtain ⟨-, hge, hle, hday, hday'⟩ := hmarch
  have h12 := h.month_le
  simp only [YearMonthDay.toMarch, March.number, March.daysIn] at *
  rw [if_neg (by omega)] at hday' hn hge hle hday
  simp only [daysBefore] at *
  rw [if_neg (by omega)] at hday'
  omega

/-- The fields of the broken-down time of a second. -/
theorem toUtcTime_eq {t : Int} (ht : UtcRange t) (yday : Bool) :
    ∃ d yearDay wday, getYearMonthDay (t / 86400 + 2440588) = some d ∧ d.Valid ∧ d.InRange ∧
      toUtcTime t yday = some {
        tm_sec := t % 86400 % 60
        tm_min := t % 86400 / 60 % 60
        tm_hour := t % 86400 / 60 / 60
        tm_mday := d.day
        tm_mon := d.month - 1
        tm_year := d.year - 1900
        tm_wday := wday
        tm_yday := yearDay
        tm_isdst := 0
        tm_gmtoff := 0
        tm_zone := [71, 77, 84] } := by
  have hsplit := splitSeconds_eq ht
  obtain ⟨hlow, hhigh⟩ := ht
  obtain ⟨n, hn⟩ : ∃ n, t / 86400 + 2440588 = n := ⟨_, rfl⟩
  have hn0 : -31738 ≤ n := by omega
  have hn1 : n ≤ kMaxJulianDayNumber := by
    unfold kMaxJulianDayNumber
    omega
  obtain ⟨d, hd, hvalid, hrange, hnumber, hmarch⟩ := getYearMonthDay_valid (by omega) hn1
  have hyear := year_ge hvalid hrange (by omega)
  obtain ⟨start, hstart, hle, hge⟩ := startOfYear_eq hvalid hrange hyear
  unfold kMaxJulianDayNumber at hn1
  have hyday : dayOfYear ⟨n⟩ d.year yday = some (if yday then n - start else 0) := by
    cases yday with
    | true =>
      rw [dayOfYear, if_pos rfl, Date.ofYearMonthDay, hstart]
      exact int32_some (x := n - start) (by omega)
    | false => rfl
  have hwday : (Date.mk n).weekDay = some ((n + 1).tmod 7) := by
    rw [Date.weekDay, int32_some (by simp only; omega)]
    rfl
  refine ⟨d, if yday then n - start else 0, (n + 1).tmod 7, by rw [hn, hd], hvalid, hrange, ?_⟩
  unfold toUtcTime
  rw [hsplit]
  simp only [Option.bind_eq_bind, Option.bind_some, Date.kJulianDayOf1970_01_01]
  rw [hn, int32_some (by omega), Option.bind_some, Date.yearMonthDay, hd, Option.bind_some, hwday,
    Option.bind_some, hyday, Option.bind_some]
  rfl

/-- The time of the day and the day lead back to the second. -/
theorem fromUtcFields_eq {d : YearMonthDay} {n s : Int}
    (hd : getJulianDayNumber d.year d.month d.day = some n) (hs : 0 ≤ s) (hs' : s < 86400)
    (hn : -32044 ≤ n) (hn' : n ≤ kMaxJulianDayNumber) :
    fromUtcFields d.year d.month d.day (s / 60 / 60) (s / 60 % 60) (s % 60) =
      some ((n - 2440588) * 86400 + s) := by
  unfold kMaxJulianDayNumber at hn'
  unfold fromUtcFields
  rw [Date.ofYearMonthDay, hd]
  simp only [Option.map_some, Option.bind_eq_bind, Option.bind_some, Date.kJulianDayOf1970_01_01,
    kSecondsPerDay]
  simp (disch := omega) only [int32_eq, sum32_cons, sum32_nil, Option.bind_some, Option.pure_def]
  congr 1
  omega

/-- The way back from the broken-down time of a second. -/
theorem fromUtcTime_toUtcTime {t : Int} (ht : UtcRange t) (yday : Bool) :
    ∃ tm, toUtcTime t yday = some tm ∧ Proper tm ∧ fromUtcTime tm = some t := by
  obtain ⟨d, yearDay, wday, hd, hvalid, hrange, htm⟩ := toUtcTime_eq ht yday
  obtain ⟨hlow, hhigh⟩ := ht
  refine ⟨_, htm, ?_, ?_⟩
  · refine ⟨by simp only; omega, by simp only; omega, by simp only; omega, ?_⟩
    simp only [date, Int.sub_add_cancel]
    exact hvalid
  · have hn0 : -32044 ≤ t / 86400 + 2440588 := by omega
    have hn1 : t / 86400 + 2440588 ≤ kMaxJulianDayNumber := by
      unfold kMaxJulianDayNumber
      omega
    obtain ⟨d', hd', -, -, hnumber, -⟩ := getYearMonthDay_valid hn0 hn1
    obtain rfl : d = d' := Option.some.inj (hd.symm.trans hd')
    have hj := getJulianDayNumber_eq hvalid hrange
    rw [hnumber, Int.add_sub_cancel] at hj
    have hyears : -4800 ≤ d.year ∧ d.year ≤ 1465102 := by
      have := hrange.1
      have := hrange.2
      omega
    have hge := hvalid.month_ge
    have hle := hvalid.month_le
    simp only [fromUtcTime, Int.sub_add_cancel]
    rw [int32_some (by omega), int32_some (by omega)]
    simp only [Option.bind_eq_bind, Option.bind_some]
    rw [fromUtcFields_eq hj (by omega) (by omega) hn0 hn1]
    congr 1
    omega

/-- The date and the time of the day are the same. -/
def SameTime (a b : Tm) : Prop :=
  a.tm_sec = b.tm_sec ∧ a.tm_min = b.tm_min ∧ a.tm_hour = b.tm_hour ∧ a.tm_mday = b.tm_mday ∧
    a.tm_mon = b.tm_mon ∧ a.tm_year = b.tm_year

/-- The numbers of the dates of these years. -/
theorem number_range {d : YearMonthDay} (h : d.Valid) (hr : d.InRange) (hyear : -4799 ≤ d.year)
    (hyear' : d.year ≤ 1465101) :
    306 ≤ d.toMarch.number ∧ d.toMarch.number ≤ kMaxJulianDayNumber + 32044 := by
  have hmarch := valid_toMarch h hr
  obtain ⟨he, he', -⟩ := hmarch.dayOfYear
  obtain ⟨hy, -, -, hday, -⟩ := hmarch
  obtain ⟨year, month, day⟩ := d
  have hge := h.month_ge
  simp only [YearMonthDay.toMarch, March.number, kMaxJulianDayNumber] at *
  by_cases h2 : month ≤ 2
  · simp only [if_pos h2, daysBefore] at *
    omega
  · simp only [if_neg h2, daysBefore] at *
    omega

/-- **UTC round trip.** For every second from the year -4799 on for which the formulas of `Date` do
    not overflow, `toUtcTime` gives a time of a day and a date of the calendar, and `fromUtcTime`
    leads back to the second. Every proper time of a date of these years is the time of exactly the
    second that `fromUtcTime` gives. -/
theorem utc_round_trip (yday : Bool) :
    (∀ t, UtcRange t → ∃ tm, toUtcTime t yday = some tm ∧ Proper tm ∧ fromUtcTime tm = some t) ∧
    ∀ tm, Proper tm → -4799 ≤ (date tm).year → (date tm).year ≤ 1465101 →
      ∃ t, fromUtcTime tm = some t ∧ UtcRange t ∧
        ∃ tm', toUtcTime t yday = some tm' ∧ SameTime tm' tm := by
  refine ⟨fun t ht => fromUtcTime_toUtcTime ht yday, ?_⟩
  intro tm hproper hyear hyear'
  obtain ⟨⟨hs0, hs1⟩, ⟨hm0, hm1⟩, ⟨hh0, hh1⟩, hvalid⟩ := hproper
  have hrange : (date tm).InRange := ⟨Or.inl (by omega), by omega⟩
  have hmarch := valid_toMarch hvalid hrange
  have hj := getJulianDayNumber_eq hvalid hrange
  obtain ⟨hlow, hhigh⟩ := number_range hvalid hrange hyear hyear'
  obtain ⟨n, hn⟩ : ∃ n, (date tm).toMarch.number - 32044 = n := ⟨_, rfl⟩
  obtain ⟨s, hs⟩ : ∃ s, tm.tm_hour * 3600 + tm.tm_min * 60 + tm.tm_sec = s := ⟨_, rfl⟩
  have hn1 : n ≤ kMaxJulianDayNumber := by omega
  have hymd : getYearMonthDay n = some (date tm) := by
    rw [getYearMonthDay_eq (by omega) hn1, ← hn, Int.sub_add_cancel, ofNumber_number hmarch,
      toYearMonthDay_toMarch hvalid.month_ge hvalid.month_le]
  have hle := hvalid.month_le
  have hge := hvalid.month_ge
  have hfrom : fromUtcTime tm = some ((n - 2440588) * 86400 + s) := by
    rw [hn] at hj
    have hfields := fromUtcFields_eq (s := s) hj (by omega) (by omega) (by omega) hn1
    rw [show s / 60 / 60 = tm.tm_hour by omega, show s / 60 % 60 = tm.tm_min by omega,
      show s % 60 = tm.tm_sec by omega] at hfields
    unfold fromUtcTime
    rw [int32_some (x := tm.tm_year + 1900) (by simp only [date] at hyear hyear'; omega),
      int32_some (x := tm.tm_mon + 1) (by simp only [date] at hge hle; omega)]
    exact hfields
  have ht : UtcRange ((n - 2440588) * 86400 + s) := by
    unfold kMaxJulianDayNumber at hn1
    exact ⟨by omega, by omega⟩
  obtain ⟨d, yearDay, wday, hd, -, -, htm⟩ := toUtcTime_eq ht yday
  rw [show ((n - 2440588) * 86400 + s) / 86400 + 2440588 = n by omega, hymd] at hd
  obtain rfl := Option.some.inj hd
  refine ⟨_, hfrom, ht, _, htm, ?_⟩
  rw [show ((n - 2440588) * 86400 + s) % 86400 = s by omega]
  refine ⟨?_, ?_, ?_, ?_, ?_, ?_⟩ <;> simp only [date] <;> omega

/-- The last second before the epoch. -/
theorem utc_round_trip_before_epoch :
    ∃ tm, toUtcTime (-1) false = some tm ∧ Proper tm ∧ fromUtcTime tm = some (-1) :=
  (utc_round_trip false).1 (-1) (by decide)

end TimeZone

end Mmvx.Base
