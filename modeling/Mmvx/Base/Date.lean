/-
  `muduo::Date` (muduo/base/Date.{h,cc}): a day is its Julian day number, and two closed formulas in
  `int` arithmetic lead to the calendar and back.

  The calendar itself is stated by its rules: the leap years, the length of each month and the day
  after a day. `date_calendar`: from 1 March of the year -4800 on, for as long as no operation
  overflows, the formulas are inverse to each other, meet real dates only, and the next number is
  the next day of the calendar.

  Signed overflow is undefined; an operation that overflows gives `none`.
-/
import Mathlib.Tactic.Ring

namespace Mmvx.Base

/-- An `int`. -/
def int32 (x : Int) : Option Int := if -2147483648 ≤ x ∧ x ≤ 2147483647 then some x else none

/-- A sum of `int`, from the left to the right. -/
def sum32 (x : Int) (xs : List Int) : Option Int := xs.foldlM (fun acc y => int32 (acc + y)) x

structure YearMonthDay where
  year : Int
  month : Int
  day : Int
  deriving DecidableEq, Repr

def getJulianDayNumber (year month day : Int) : Option Int := do
  let a := (← int32 (14 - month)).tdiv 12
  let y ← sum32 year [4800, -a]
  let m ← sum32 month [12 * a, -3]
  let days := (← sum32 (← int32 (153 * m)) [2]).tdiv 5
  sum32 day [days, ← int32 (y * 365), y.tdiv 4, -y.tdiv 100, y.tdiv 400, -32045]

def getYearMonthDay (julianDayNumber : Int) : Option YearMonthDay := do
  let a ← int32 (julianDayNumber + 32044)
  let b := (← sum32 (← int32 (4 * a)) [3]).tdiv 146097
  let c ← int32 (a - (← int32 (b * 146097)).tdiv 4)
  let d := (← sum32 (← int32 (4 * c)) [3]).tdiv 1461
  let e ← int32 (c - (← int32 (1461 * d)).tdiv 4)
  let m := (← sum32 (← int32 (5 * e)) [2]).tdiv 153
  let day ← sum32 e [-(← sum32 (← int32 (153 * m)) [2]).tdiv 5, 1]
  let month ← sum32 m [3, -(12 * m.tdiv 10)]
  let year ← sum32 (← int32 (b * 100)) [d, -4800, m.tdiv 10]
  return ⟨year, month, day⟩

/-- A `Date` is its Julian day number. -/
structure Date where
  julianDayNumber : Int
  deriving DecidableEq, Repr

namespace Date

def kDaysPerWeek : Int := 7

def kJulianDayOf1970_01_01 : Int := 2440588

example : getJulianDayNumber 1970 1 1 = some kJulianDayOf1970_01_01 := by decide

def ofYearMonthDay (y m d : Int) : Option Date := (getJulianDayNumber y m d).map Date.mk

def yearMonthDay (date : Date) : Option YearMonthDay := getYearMonthDay date.julianDayNumber

/-- Sunday is `0`. -/
def weekDay (date : Date) : Option Int :=
  (int32 (date.julianDayNumber + 1)).map fun n => n.tmod kDaysPerWeek

end Date

/-! ## The calendar -/

def isLeap (year : Int) : Bool := year % 4 = 0 && (year % 100 ≠ 0 || year % 400 = 0)

def daysInMonth (year month : Int) : Int :=
  if month = 2 then (if isLeap year then 29 else 28)
  else if month = 4 ∨ month = 6 ∨ month = 9 ∨ month = 11 then 30
  else 31

namespace YearMonthDay

/-- A date of the calendar. -/
structure Valid (d : YearMonthDay) : Prop where
  month_ge : 1 ≤ d.month
  month_le : d.month ≤ 12
  day_ge : 1 ≤ d.day
  day_le : d.day ≤ daysInMonth d.year d.month

instance (d : YearMonthDay) : Decidable d.Valid :=
  decidable_of_iff (1 ≤ d.month ∧ d.month ≤ 12 ∧ 1 ≤ d.day ∧ d.day ≤ daysInMonth d.year d.month)
    ⟨fun h => ⟨h.1, h.2.1, h.2.2.1, h.2.2.2⟩, fun h => ⟨h.1, h.2, h.3, h.4⟩⟩

/-- The day after a day. -/
def next (d : YearMonthDay) : YearMonthDay :=
  if d.day < daysInMonth d.year d.month then { d with day := d.day + 1 }
  else if d.month < 12 then ⟨d.year, d.month + 1, 1⟩
  else ⟨d.year + 1, 1, 1⟩

/-- Not before 1 March of the year -4800, from which the formulas count, and not after the year in
    which `4 * a + 3` overflows. -/
def InRange (d : YearMonthDay) : Prop :=
  (-4800 < d.year ∨ d.year = -4800 ∧ 3 ≤ d.month) ∧ d.year ≤ 1465102

end YearMonthDay

/-! ## Years that start in March -/

/-- A date of a year that starts in March: the year from -4800 on, the month and the day from 0
    on. -/
@[ext] structure March where
  year : Int
  month : Int
  day : Int

/-- The days before a month of a year that starts in March. -/
def daysBefore (m : Int) : Int := (153 * m + 2) / 5

namespace March

/-- The leap day is the last day of the year. -/
def daysIn (year month : Int) : Int :=
  if month = 11 then (if isLeap (year - 4799) then 29 else 28)
  else daysBefore (month + 1) - daysBefore month

structure Valid (d : March) : Prop where
  year_ge : 0 ≤ d.year
  month_ge : 0 ≤ d.month
  month_le : d.month ≤ 11
  day_ge : 0 ≤ d.day
  day_lt : d.day < daysIn d.year d.month

/-- The days since 1 March of the year -4800. -/
def number (d : March) : Int :=
  daysBefore d.month + d.day + d.year * 365 + d.year / 4 - d.year / 100 + d.year / 400

/-- The day with a number, a century and a year at a time. -/
def ofNumber (a : Int) : March :=
  let b := (4 * a + 3) / 146097
  let c := a - b * 146097 / 4
  let d := (4 * c + 3) / 1461
  let e := c - 1461 * d / 4
  let m := (5 * e + 2) / 153
  ⟨b * 100 + d, m, e - daysBefore m⟩

end March

/-- 28 and 29 February end the year before. -/
def YearMonthDay.toMarch (d : YearMonthDay) : March :=
  if d.month ≤ 2 then ⟨d.year + 4799, d.month + 9, d.day - 1⟩
  else ⟨d.year + 4800, d.month - 3, d.day - 1⟩

def March.toYearMonthDay (d : March) : YearMonthDay :=
  ⟨d.year - 4800 + d.month / 10, d.month + 3 - 12 * (d.month / 10), d.day + 1⟩

theorem toYearMonthDay_toMarch {d : YearMonthDay} (hge : 1 ≤ d.month) (hle : d.month ≤ 12) :
    d.toMarch.toYearMonthDay = d := by
  obtain ⟨year, month, day⟩ := d
  simp only [YearMonthDay.toMarch, March.toYearMonthDay] at hge hle ⊢
  split <;> simp only [YearMonthDay.mk.injEq] <;> omega

theorem month_toYearMonthDay (d : March) :
    d.toYearMonthDay.month = d.month + 3 - 12 * (d.month / 10) := rfl

theorem toMarch_toYearMonthDay {d : March} (hge : 0 ≤ d.month) (hle : d.month ≤ 11) :
    d.toYearMonthDay.toMarch = d := by
  have hmonth := month_toYearMonthDay d
  unfold YearMonthDay.toMarch
  split
  · ext <;> simp only [March.toYearMonthDay] <;> omega
  · ext <;> simp only [March.toYearMonthDay] <;> omega

/-- The lengths of the months agree. -/
theorem daysIn_toMarch {d : YearMonthDay} (hge : 1 ≤ d.month) (hle : d.month ≤ 12) :
    March.daysIn d.toMarch.year d.toMarch.month = daysInMonth d.year d.month := by
  obtain ⟨year, month, day⟩ := d
  simp only at hge hle
  have hcases : month = 1 ∨ month = 2 ∨ month = 3 ∨ month = 4 ∨ month = 5 ∨ month = 6 ∨
      month = 7 ∨ month = 8 ∨ month = 9 ∨ month = 10 ∨ month = 11 ∨ month = 12 := by omega
  rcases hcases with rfl | rfl | rfl | rfl | rfl | rfl | rfl | rfl | rfl | rfl | rfl | rfl <;>
    simp [YearMonthDay.toMarch, March.daysIn, daysInMonth, daysBefore]

theorem valid_toMarch {d : YearMonthDay} (h : d.Valid) (hr : d.InRange) : d.toMarch.Valid := by
  have hdays := daysIn_toMarch h.month_ge h.month_le
  obtain ⟨hge, hle, hday, hday'⟩ := h
  obtain ⟨hr, -⟩ := hr
  refine ⟨?_, ?_, ?_, ?_, ?_⟩
  · unfold YearMonthDay.toMarch
    split <;> simp only <;> omega
  · unfold YearMonthDay.toMarch
    split <;> simp only <;> omega
  · unfold YearMonthDay.toMarch
    split <;> simp only <;> omega
  · unfold YearMonthDay.toMarch
    split <;> simp only <;> omega
  · rw [hdays]
    unfold YearMonthDay.toMarch
    split <;> simp only <;> omega

theorem valid_toYearMonthDay {d : March} (h : d.Valid) : d.toYearMonthDay.Valid := by
  have hmarch := toMarch_toYearMonthDay h.month_ge h.month_le
  have hge : 1 ≤ d.toYearMonthDay.month := by
    have := h.month_ge
    have := h.month_le
    simp only [March.toYearMonthDay]
    omega
  have hle : d.toYearMonthDay.month ≤ 12 := by
    have := h.month_ge
    have := h.month_le
    simp only [March.toYearMonthDay]
    omega
  have hdays := daysIn_toMarch hge hle
  rw [hmarch] at hdays
  refine ⟨hge, hle, ?_, ?_⟩
  · have := h.day_ge
    simp only [March.toYearMonthDay]
    omega
  · rw [← hdays]
    have := h.day_lt
    simp only [March.toYearMonthDay]
    omega

/-! ## Numbers and dates -/

theorem isLeap_iff (year : Int) :
    isLeap year = true ↔ year % 4 = 0 ∧ (year % 100 ≠ 0 ∨ year % 400 = 0) := by
  simp [isLeap]

/-- The last day of a leap year is day 365 of the year. -/
theorem March.Valid.dayOfYear {d : March} (h : d.Valid) :
    0 ≤ daysBefore d.month + d.day ∧ daysBefore d.month + d.day ≤ 365 ∧
      (daysBefore d.month + d.day = 365 → isLeap (d.year - 4799) = true) := by
  obtain ⟨year, month, day⟩ := d
  obtain ⟨-, hge, hle, hday, hday'⟩ := h
  simp only [March.daysIn, daysBefore] at *
  split at hday'
  · split at hday' <;> refine ⟨by omega, by omega, ?_⟩
    · intro _
      assumption
    · omega
  · exact ⟨by omega, by omega, by omega⟩

/-- The century and the year of the century are found from the number. -/
theorem century_eq {b r e : Int} (hr : 0 ≤ r) (hr' : r < 100) (he : 0 ≤ e) (he' : e ≤ 365)
    (hleap : e = 365 → (r + 1) % 4 = 0 ∧ (r + 1 = 100 → (b + 1) % 4 = 0)) {y a : Int}
    (hy : y = 100 * b + r) (ha : a = e + y * 365 + y / 4 - y / 100 + y / 400) :
    (4 * a + 3) / 146097 = b ∧ a - b * 146097 / 4 = e + 365 * r + r / 4 ∧
      (4 * (e + 365 * r + r / 4) + 3) / 1461 = r ∧ e + 365 * r + r / 4 - 1461 * r / 4 = e := by
  have h100 : y / 100 = b := by omega
  have h400 : y / 400 = b / 4 := by omega
  have h4 : y / 4 = 25 * b + r / 4 := by omega
  rw [h100, h400, h4, hy] at ha
  exact ⟨by omega, by omega, by omega, by omega⟩

theorem ofNumber_number {d : March} (h : d.Valid) : March.ofNumber d.number = d := by
  obtain ⟨he, he', hleap⟩ := h.dayOfYear
  obtain ⟨year, month, day⟩ := d
  obtain ⟨hy, hge, hle, hday, hday'⟩ := h
  simp only at *
  have hr : 0 ≤ year % 100 := by omega
  have hr' : year % 100 < 100 := by omega
  obtain ⟨hb, hc, hd, hyear⟩ := century_eq (b := year / 100) hr hr' he he'
    (by
      intro h365
      have := (isLeap_iff _).mp (hleap h365)
      omega)
    (y := year) (by omega) rfl
  have hmonth : (5 * (daysBefore month + day) + 2) / 153 = month := by
    simp only [March.daysIn, daysBefore] at *
    split at hday'
    · split at hday' <;> omega
    · omega
  simp only [March.ofNumber, March.number]
  rw [hb, hc, hd, hyear, hmonth]
  rw [March.mk.injEq]
  exact ⟨by omega, rfl, by omega⟩

/-- What is left of a century. -/
theorem century_bounds {a b c : Int} (ha : 0 ≤ a) (hb : b = (4 * a + 3) / 146097)
    (hc : c = a - b * 146097 / 4) :
    0 ≤ b ∧ 0 ≤ c ∧ c ≤ 36524 ∧ (c = 36524 → (b + 1) % 4 = 0) := by
  have hquarter : b * 146097 / 4 = 36524 * b + b / 4 := by omega
  have hle : 146097 * b ≤ 4 * a + 3 := by omega
  have hlt : 4 * a + 3 < 146097 * b + 146097 := by omega
  have hb0 : 0 ≤ b := by omega
  obtain rfl : a = c + 36524 * b + b / 4 := by omega
  clear hb hc hquarter
  exact ⟨hb0, by omega, by omega, by omega⟩

/-- What is left of a year. -/
theorem year_bounds {c d e : Int} (hc : 0 ≤ c) (hc' : c ≤ 36524) (hd : d = (4 * c + 3) / 1461)
    (he : e = c - 1461 * d / 4) :
    0 ≤ d ∧ d < 100 ∧ 0 ≤ e ∧ e ≤ 365 ∧
      (e = 365 → (d + 1) % 4 = 0 ∧ (d + 1 = 100 → c = 36524)) := by
  have hquarter : 1461 * d / 4 = 365 * d + d / 4 := by omega
  rw [hquarter] at he
  exact ⟨by omega, by omega, by omega, by omega, by omega⟩

/-- The last year of a century is followed by a leap year in every fourth century only. -/
theorem isLeap_century {b d : Int} (hd : 0 ≤ d) (hd' : d < 100) (h4 : (d + 1) % 4 = 0)
    (h100 : d + 1 = 100 → (b + 1) % 4 = 0) : isLeap (b * 100 + d - 4799) = true := by
  rw [isLeap_iff]
  exact ⟨by omega, by omega⟩

/-- A number below 366 is a day of a year, and 365 of a leap year only. -/
theorem month_bounds {y e m : Int} (he : 0 ≤ e) (he' : e ≤ 365)
    (hleap : e = 365 → isLeap (y - 4799) = true) (hm : m = (5 * e + 2) / 153) :
    0 ≤ m ∧ m ≤ 11 ∧ 0 ≤ e - daysBefore m ∧ e - daysBefore m < March.daysIn y m := by
  simp only [March.daysIn, daysBefore]
  refine ⟨by omega, by omega, by omega, ?_⟩
  split
  · split
    · omega
    · have : e ≠ 365 := fun h => absurd (hleap h) ‹_›
      omega
  · omega

theorem valid_ofNumber {a : Int} (ha : 0 ≤ a) :
    (March.ofNumber a).Valid ∧ (March.ofNumber a).number = a := by
  obtain ⟨b, hb⟩ : ∃ b, b = (4 * a + 3) / 146097 := ⟨_, rfl⟩
  obtain ⟨c, hc⟩ : ∃ c, c = a - b * 146097 / 4 := ⟨_, rfl⟩
  obtain ⟨d, hd⟩ : ∃ d, d = (4 * c + 3) / 1461 := ⟨_, rfl⟩
  obtain ⟨e, he⟩ : ∃ e, e = c - 1461 * d / 4 := ⟨_, rfl⟩
  obtain ⟨m, hm⟩ : ∃ m, m = (5 * e + 2) / 153 := ⟨_, rfl⟩
  obtain ⟨hb0, hc0, hc1, hc2⟩ := century_bounds ha hb hc
  obtain ⟨hd0, hd1, he0, he1, he2⟩ := year_bounds hc0 hc1 hd he
  have hleap : e = 365 → isLeap (b * 100 + d - 4799) = true := by
    intro h
    obtain ⟨h4, h100⟩ := he2 h
    exact isLeap_century hd0 hd1 h4 fun h' => hc2 (h100 h')
  obtain ⟨hm0, hm1, hday, hday'⟩ := month_bounds he0 he1 hleap hm
  have hof : March.ofNumber a = ⟨b * 100 + d, m, e - daysBefore m⟩ := by
    simp only [March.ofNumber]
    rw [← hb, ← hc, ← hd, ← he, ← hm]
  rw [hof]
  refine ⟨⟨by simp only; omega, hm0, hm1, hday, hday'⟩, ?_⟩
  simp only [March.number]
  have hquarter : b * 146097 / 4 = 36524 * b + b / 4 := by omega
  have hyear : 1461 * d / 4 = 365 * d + d / 4 := by omega
  have h4 : (b * 100 + d) / 4 = 25 * b + d / 4 := by omega
  have h100 : (b * 100 + d) / 100 = b := by omega
  have h400 : (b * 100 + d) / 400 = b / 4 := by omega
  rw [h4, h100, h400]
  omega

/-! ## The formulas of the code -/

theorem int32_eq {x : Int} (h : -2147483648 ≤ x) (h' : x ≤ 2147483647) : int32 x = some x :=
  if_pos ⟨h, h'⟩

theorem sum32_nil (x : Int) : sum32 x [] = some x := rfl

theorem sum32_cons {x y : Int} (ys : List Int) (h : -2147483648 ≤ x + y)
    (h' : x + y ≤ 2147483647) : sum32 x (y :: ys) = sum32 (x + y) ys := by
  rw [sum32, List.foldlM_cons, int32_eq h h']
  rfl

/-- `a` is 1 in January and February, and nothing overflows. -/
theorem getJulianDayNumber_of {year month day a y m : Int} (ha : (14 - month).tdiv 12 = a)
    (hy : year + 4800 + -a = y) (hm : month + 12 * a + -3 = m) (ha0 : 0 ≤ a) (ha1 : a ≤ 1)
    (hy0 : 0 ≤ y) (hy1 : y ≤ 1469902) (hm0 : 0 ≤ m) (hm1 : m ≤ 11) (hd0 : 1 ≤ day)
    (hd1 : day ≤ 31) :
    getJulianDayNumber year month day = some ((March.mk y m (day - 1)).number - 32044) := by
  have hmonth : (153 * m + 2).tdiv 5 = daysBefore m := Int.tdiv_eq_ediv_of_nonneg (by omega)
  have hdays : 0 ≤ daysBefore m ∧ daysBefore m ≤ 337 := by
    unfold daysBefore
    omega
  have hdiv (k : Int) : y.tdiv k = y / k := Int.tdiv_eq_ediv_of_nonneg hy0
  unfold getJulianDayNumber
  simp (disch := omega) only [int32_eq, sum32_cons, sum32_nil, Option.bind_eq_bind,
    Option.bind_some, ha, hy, hm, hmonth, hdiv, March.number]
  congr 1
  omega

theorem getJulianDayNumber_eq {d : YearMonthDay} (h : d.Valid) (hr : d.InRange) :
    getJulianDayNumber d.year d.month d.day = some (d.toMarch.number - 32044) := by
  obtain ⟨hge, hle, hday, hday'⟩ := h
  obtain ⟨hr, hr'⟩ := hr
  have hday31 : d.day ≤ 31 := by
    unfold daysInMonth at hday'
    split at hday' <;> split at hday' <;> omega
  have ha : (14 - d.month).tdiv 12 = (14 - d.month) / 12 :=
    Int.tdiv_eq_ediv_of_nonneg (by omega)
  rw [getJulianDayNumber_of ha rfl rfl (by omega) (by omega) (by omega) (by omega) (by omega)
    (by omega) hday hday31]
  congr 3
  unfold YearMonthDay.toMarch
  split <;> ext <;> simp only <;> omega

/-- The largest number for which `4 * a + 3` is an `int`. -/
def kMaxJulianDayNumber : Int := 536838867

theorem int_bind (x : Int) (f : Int → Option YearMonthDay) : (some x >>= f) = f x := rfl

/-- The results of the operations, given that they are small. -/
theorem getYearMonthDay_of {n a b c d e m k t : Int} (ha : n + 32044 = a)
    (hb : (4 * a + 3).tdiv 146097 = b) (hc : a - (b * 146097).tdiv 4 = c)
    (hd : (4 * c + 3).tdiv 1461 = d) (he : c - (1461 * d).tdiv 4 = e)
    (hm : (5 * e + 2).tdiv 153 = m) (hk : (153 * m + 2).tdiv 5 = k) (ht : m.tdiv 10 = t)
    (hb0 : 0 ≤ b) (hb1 : b * 146097 ≤ 4 * a + 3) (ha1 : 4 * a + 3 ≤ 2147483647) (hc0 : 0 ≤ c)
    (hc1 : c ≤ 36524) (hd0 : 0 ≤ d) (hd1 : d < 100) (he0 : 0 ≤ e) (he1 : e ≤ 365) (hm0 : 0 ≤ m)
    (hm1 : m ≤ 12) (hk0 : 0 ≤ k) (hk1 : k ≤ 368) (ht0 : 0 ≤ t) (ht1 : t ≤ 1) :
    getYearMonthDay n =
      some ⟨b * 100 + d + -4800 + t, m + 3 + -(12 * t), e + -k + 1⟩ := by
  have ha0 : -2 ≤ 4 * a + 3 := by omega
  unfold getYearMonthDay
  rw [ha]
  rw [int32_eq (x := a) (by omega) (by omega), int_bind,
    int32_eq (x := 4 * a) (by omega) (by omega), int_bind,
    sum32_cons [] (by omega) (by omega), sum32_nil, int_bind, hb]
  dsimp only
  rw [int32_eq (x := b * 146097) (by omega) (by omega), int_bind, hc,
    int32_eq (x := c) (by omega) (by omega), int_bind,
    int32_eq (x := 4 * c) (by omega) (by omega), int_bind,
    sum32_cons [] (by omega) (by omega), sum32_nil, int_bind, hd]
  rw [int32_eq (x := 1461 * d) (by omega) (by omega), int_bind, he,
    int32_eq (x := e) (by omega) (by omega), int_bind,
    int32_eq (x := 5 * e) (by omega) (by omega), int_bind,
    sum32_cons [] (by omega) (by omega), sum32_nil, int_bind, hm]
  clear ha hb hc hd he hm
  simp (disch := omega) only [int32_eq, int_bind, sum32_cons, sum32_nil, hk, ht,
    Option.pure_def]

theorem getYearMonthDay_eq {n : Int} (hn : -32044 ≤ n) (hn' : n ≤ kMaxJulianDayNumber) :
    getYearMonthDay n = some (March.ofNumber (n + 32044)).toYearMonthDay := by
  unfold kMaxJulianDayNumber at hn'
  obtain ⟨a, ha⟩ : ∃ a, n + 32044 = a := ⟨_, rfl⟩
  obtain ⟨b, hb⟩ : ∃ b, (4 * a + 3) / 146097 = b := ⟨_, rfl⟩
  obtain ⟨c, hc⟩ : ∃ c, a - b * 146097 / 4 = c := ⟨_, rfl⟩
  obtain ⟨d, hd⟩ : ∃ d, (4 * c + 3) / 1461 = d := ⟨_, rfl⟩
  obtain ⟨e, he⟩ : ∃ e, c - 1461 * d / 4 = e := ⟨_, rfl⟩
  obtain ⟨m, hm⟩ : ∃ m, (5 * e + 2) / 153 = m := ⟨_, rfl⟩
  have ha0 : 0 ≤ a := by omega
  have ha1 : 4 * a + 3 ≤ 2147483647 := by omega
  have hb1 : b * 146097 ≤ 4 * a + 3 := by omega
  obtain ⟨hb0, hc0, hc1, -⟩ := century_bounds ha0 hb.symm hc.symm
  obtain ⟨hd0, hd1, he0, he1, -⟩ := year_bounds hc0 hc1 hd.symm he.symm
  have hof : March.ofNumber a = ⟨b * 100 + d, m, e - daysBefore m⟩ := by
    simp only [March.ofNumber]
    rw [hb, hc, hd, he, hm]
  have hm0 : 0 ≤ m := by omega
  have hm1 : m ≤ 12 := by omega
  have hdiv {x k y : Int} (hx : 0 ≤ x) (h : x / k = y) : x.tdiv k = y := by
    rw [Int.tdiv_eq_ediv_of_nonneg hx, h]
  have hdays : 0 ≤ daysBefore m ∧ daysBefore m ≤ 368 := by
    unfold daysBefore
    omega
  have hlast : 0 ≤ m / 10 ∧ m / 10 ≤ 1 := by omega
  rw [ha, hof, getYearMonthDay_of ha (hdiv (by omega) hb)
    (by rw [hdiv (by omega) rfl]; exact hc) (hdiv (by omega) hd)
    (by rw [hdiv (by omega) rfl]; exact he) (hdiv (by omega) hm)
    (hdiv (by omega) rfl) (hdiv hm0 rfl) hb0 hb1 ha1 hc0 hc1 hd0 hd1 he0 he1 hm0 hm1 hdays.1
    hdays.2 hlast.1 hlast.2]
  clear hb hc hd he hm
  simp only [March.toYearMonthDay, daysBefore, Option.some.injEq, YearMonthDay.mk.injEq]
  omega

/-! ## The next day -/

/-- The day after a day of a year that starts in March. -/
def March.next (d : March) : March :=
  if d.day + 1 < March.daysIn d.year d.month then { d with day := d.day + 1 }
  else if d.month < 11 then ⟨d.year, d.month + 1, 0⟩
  else ⟨d.year + 1, 0, 0⟩

theorem month_next {d : YearMonthDay} (hge : 1 ≤ d.month) (hle : d.month ≤ 12) :
    1 ≤ d.next.month ∧ d.next.month ≤ 12 := by
  unfold YearMonthDay.next
  split
  · exact ⟨hge, hle⟩
  · split
    · exact ⟨by simp only; omega, by simp only; omega⟩
    · exact ⟨Int.le_refl 1, by simp only; omega⟩

theorem toMarch_next {d : YearMonthDay} (hge : 1 ≤ d.month) (hle : d.month ≤ 12) :
    d.next.toMarch = d.toMarch.next := by
  have hdays := daysIn_toMarch hge hle
  obtain ⟨year, month, day⟩ := d
  simp only [YearMonthDay.next, March.next] at *
  rw [hdays]
  have hday : (YearMonthDay.mk year month day).toMarch.day = day - 1 := by
    unfold YearMonthDay.toMarch
    split <;> rfl
  rw [hday, Int.sub_add_cancel]
  by_cases hlast : day < daysInMonth year month
  · rw [if_pos hlast, if_pos hlast]
    simp only [YearMonthDay.toMarch]
    split <;> ext <;> simp only <;> omega
  · rw [if_neg hlast, if_neg hlast]
    -- February ends the year before, and January follows December
    by_cases h2 : month ≤ 2
    · simp only [YearMonthDay.toMarch, if_pos h2, if_pos (show month < 12 by omega)]
      split <;> split <;> ext <;> simp only <;> omega
    · simp only [YearMonthDay.toMarch, if_neg h2]
      by_cases h12 : month < 12
      · simp only [if_pos h12]
        split <;> split <;> ext <;> simp only <;> omega
      · simp only [if_neg h12]
        split <;> split <;> ext <;> simp only <;> omega

theorem valid_next {d : March} (h : d.Valid) : d.next.Valid := by
  obtain ⟨hy, hge, hle, hday, hday'⟩ := h
  have hpos (y m : Int) (hm : 0 ≤ m) (hm' : m ≤ 11) : 0 < March.daysIn y m := by
    simp only [March.daysIn, daysBefore]
    split
    · split <;> omega
    · omega
  unfold March.next
  split
  · exact ⟨hy, hge, hle, by simp only; omega, ‹_›⟩
  · split
    · exact ⟨hy, by simp only; omega, by simp only; omega, by simp only; omega,
        hpos _ _ (by simp only; omega) (by simp only; omega)⟩
    · exact ⟨by simp only; omega, by simp only; omega, by simp only; omega, by simp only; omega,
        hpos _ _ (by simp only; omega) (by simp only; omega)⟩

theorem number_next {d : March} (h : d.Valid) : d.next.number = d.number + 1 := by
  obtain ⟨year, month, day⟩ := d
  obtain ⟨-, hge, hle, hday, hday'⟩ := h
  simp only [March.next] at *
  split
  · simp only [March.number]
    omega
  · split
    · simp only [March.daysIn, daysBefore, March.number] at *
      split at hday'
      · omega
      · omega
    · obtain rfl : month = 11 := by omega
      have hleap := isLeap_iff (year - 4799)
      simp only [March.daysIn, daysBefore, March.number, if_pos] at *
      by_cases hl : isLeap (year - 4799) = true
      · rw [if_pos hl] at *
        have := hleap.mp hl
        omega
      · rw [if_neg hl] at *
        have := (not_congr hleap).mp hl
        omega

/-- The code's date of a number is a date of the calendar, and the number is its Julian day. -/
theorem getYearMonthDay_valid {n : Int} (hn : -32044 ≤ n) (hn' : n ≤ kMaxJulianDayNumber) :
    ∃ d, getYearMonthDay n = some d ∧ d.Valid ∧ d.InRange ∧ d.toMarch.number = n + 32044 ∧
      d.toMarch.Valid := by
  obtain ⟨hvalid, hnumber⟩ := valid_ofNumber (a := n + 32044) (by omega)
  have hmarch := toMarch_toYearMonthDay hvalid.month_ge hvalid.month_le
  refine ⟨_, getYearMonthDay_eq hn hn', valid_toYearMonthDay hvalid, ?_, ?_, ?_⟩
  · obtain ⟨hy, hge, hle, hday, -⟩ := hvalid
    unfold kMaxJulianDayNumber at hn'
    simp only [March.number, daysBefore] at hnumber
    simp only [YearMonthDay.InRange, March.toYearMonthDay]
    omega
  · rw [hmarch, hnumber]
  · rw [hmarch]
    exact hvalid

theorem getYearMonthDay_succ {n : Int} (hn : -32044 ≤ n) (hn' : n < kMaxJulianDayNumber) :
    getYearMonthDay (n + 1) = (getYearMonthDay n).map YearMonthDay.next := by
  obtain ⟨d, hd, hvalid, -, hnumber, hmarch⟩ := getYearMonthDay_valid hn (by omega)
  have hnext := toMarch_next hvalid.month_ge hvalid.month_le
  have hsucc : n + 1 + 32044 = d.toMarch.next.number := by
    rw [number_next hmarch, hnumber]
    omega
  obtain ⟨hge, hle⟩ := month_next hvalid.month_ge hvalid.month_le
  rw [hd, Option.map_some, getYearMonthDay_eq (by omega) (by omega), hsucc,
    ofNumber_number (valid_next hmarch), ← hnext, toYearMonthDay_toMarch hge hle]

/-- **The Julian day formulas are the calendar.** Every number from 1 March of the year -4800 on for
    which `4 * a + 3` does not overflow has a date of the calendar, whose Julian day number it is.
    Every date of the calendar in this range has a number, and is the date of that number. The date
    of the next number is the next day. -/
theorem date_calendar :
    (∀ n, -32044 ≤ n → n ≤ kMaxJulianDayNumber →
      ∃ d, getYearMonthDay n = some d ∧ d.Valid ∧ d.InRange ∧
        getJulianDayNumber d.year d.month d.day = some n) ∧
    (∀ d : YearMonthDay, d.Valid → d.InRange →
      ∃ n, getJulianDayNumber d.year d.month d.day = some n ∧ -32044 ≤ n ∧
        (n ≤ kMaxJulianDayNumber → getYearMonthDay n = some d)) ∧
    ∀ n, -32044 ≤ n → n < kMaxJulianDayNumber →
      getYearMonthDay (n + 1) = (getYearMonthDay n).map YearMonthDay.next := by
  refine ⟨?_, ?_, ?_⟩
  · intro n hn hn'
    obtain ⟨d, hd, hvalid, hrange, hnumber, -⟩ := getYearMonthDay_valid hn hn'
    refine ⟨d, hd, hvalid, hrange, ?_⟩
    rw [getJulianDayNumber_eq hvalid hrange, hnumber]
    congr 1
    omega
  · intro d hvalid hrange
    have hmarch := valid_toMarch hvalid hrange
    have hnonneg : 0 ≤ d.toMarch.number := by
      obtain ⟨he, -, -⟩ := hmarch.dayOfYear
      have := hmarch.year_ge
      simp only [March.number]
      omega
    refine ⟨_, getJulianDayNumber_eq hvalid hrange, by omega, ?_⟩
    intro hle
    rw [getYearMonthDay_eq (by omega) hle, Int.sub_add_cancel, ofNumber_number hmarch,
      toYearMonthDay_toMarch hvalid.month_ge hvalid.month_le]
  · intro n hn hn'
    exact getYearMonthDay_succ hn hn'

/-- 29 February 2000 is a date, and 1 March follows it. -/
theorem date_calendar_leap_day :
    (∃ d, getYearMonthDay 2451604 = some d ∧ d.Valid ∧ d.InRange ∧
      getJulianDayNumber d.year d.month d.day = some 2451604) ∧
    getYearMonthDay 2451604 = some ⟨2000, 2, 29⟩ ∧
    getYearMonthDay (2451604 + 1) = some ⟨2000, 3, 1⟩ := by
  have h := date_calendar.2.2 2451604 (by decide) (by decide)
  have hd : getYearMonthDay 2451604 = some ⟨2000, 2, 29⟩ := by decide
  refine ⟨date_calendar.1 2451604 (by decide) (by decide), hd, ?_⟩
  rw [h, hd]
  decide

end Mmvx.Base
