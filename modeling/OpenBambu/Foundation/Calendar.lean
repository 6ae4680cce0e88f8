import Mathlib.Tactic.Ring
import Mathlib.Tactic.SplitIfs

/-!
# Broken-down time

`gmtime` and `timegm` over the proleptic Gregorian calendar. The days are counted in years that start
with March, so that the leap day is the last one of its year and the months have fixed places.
-/

namespace OpenBambu.Foundation

/-- The fields of a `struct tm` in UTC: years from 1900 and months from 0. -/
structure Tm where
  year : Int
  mon : Int
  mday : Int
  hour : Int
  min : Int
  sec : Int
  deriving DecidableEq, Repr

/-- From 1 March of the year 0 to 1 January 1970. -/
def epochDay : Int := 719468

/-- The days of the years from March to February in front of year `y`. -/
def yearStart (y : Int) : Int := 365 * y + y / 4 - y / 100 + y / 400

/-- The days of a year in front of its month `m`, where March is month 0. -/
def monthStart (m : Int) : Int := (153 * m + 2) / 5

/-- Months beyond the year are carried over, and the other fields may have any value. -/
def timegm (tm : Tm) : Int :=
  let y := tm.year + 1900 + tm.mon / 12
  let m := tm.mon % 12
  let day := yearStart (if m < 2 then y - 1 else y) + monthStart ((m + 10) % 12) + tm.mday - 1 - epochDay
  day * 86400 + tm.hour * 3600 + tm.min * 60 + tm.sec

/-- The place of a day in a cycle of 400 years: centuries, cycles of four years, years, and the days
left. The last day of a cycle belongs to its last century, the last of a century's cycle to its last year. -/
structure Cycle where
  century : Int
  four : Int
  year : Int
  day : Int

def cycleOf (doe : Int) : Cycle :=
  let century := min (doe / 36524) 3
  let doc := doe - century * 36524
  let four := doc / 1461
  let year := min ((doc - four * 1461) / 365) 3
  ⟨century, four, year, doc - four * 1461 - year * 365⟩

/-- The fields of a day of the year `y` in its month `m`, both counted from March. -/
def marchTm (y m day secs : Int) : Tm where
  year := (if m < 10 then y else y + 1) - 1900
  mon := (m + 2) % 12
  mday := day - monthStart m + 1
  hour := secs / 3600
  min := secs % 3600 / 60
  sec := secs % 60

def Cycle.tm (c : Cycle) (era secs : Int) : Tm :=
  marchTm (400 * era + 100 * c.century + 4 * c.four + c.year) ((5 * c.day + 2) / 153) c.day secs

def gmtime (t : Int) : Tm :=
  let days := t / 86400 + epochDay
  (cycleOf (days % 146097)).tm (days / 146097) (t % 86400)

/-- What a place in the cycle is bounded by, and the day it stands for. -/
structure Cycle.Places (c : Cycle) (doe : Int) : Prop where
  century : 0 ≤ c.century ∧ c.century ≤ 3
  four : 0 ≤ c.four ∧ c.four ≤ 24
  year : 0 ≤ c.year ∧ c.year ≤ 3
  day : 0 ≤ c.day ∧ c.day ≤ 365
  doe : c.century * 36524 + c.four * 1461 + c.year * 365 + c.day = doe

theorem cycleOf_places {doe : Int} (h : 0 ≤ doe) (h' : doe < 146097) : (cycleOf doe).Places doe := by
  have hcentury : 0 ≤ min (doe / 36524) 3 ∧ min (doe / 36524) 3 ≤ 3 := by omega
  have hdoc : 0 ≤ doe - min (doe / 36524) 3 * 36524 ∧ doe - min (doe / 36524) 3 * 36524 ≤ 36524 := by omega
  generalize hc : min (doe / 36524) 3 = century at hcentury hdoc
  generalize hd : doe - century * 36524 = doc at hdoc
  have hfour : 0 ≤ doc / 1461 ∧ doc / 1461 ≤ 24 := by omega
  have hday : 0 ≤ doc - doc / 1461 * 1461 ∧ doc - doc / 1461 * 1461 ≤ 1460 := by omega
  refine ⟨?_, ?_, ?_, ?_, ?_⟩
  all_goals simp only [cycleOf, hc, hd]
  · exact hcentury
  · exact hfour
  · omega
  · omega
  · omega

/-- Counting the years of a day one by one or cycle by cycle comes to the same day. -/
theorem Cycle.Places.yearStart {c : Cycle} {doe : Int} (h : c.Places doe) (era : Int) :
    yearStart (400 * era + 100 * c.century + 4 * c.four + c.year) + c.day = 146097 * era + doe := by
  obtain ⟨hcentury, hfour, hyear, hday, hdoe⟩ := h
  have hfours : (400 * era + 100 * c.century + 4 * c.four + c.year) / 4 =
      100 * era + 25 * c.century + c.four := by omega
  have hcenturies : (400 * era + 100 * c.century + 4 * c.four + c.year) / 100 = 4 * era + c.century := by
    omega
  have heras : (400 * era + 100 * c.century + 4 * c.four + c.year) / 400 = era := by omega
  rw [Foundation.yearStart, hfours, hcenturies, heras]
  omega

/-- The month of a day, and the day in its month. -/
theorem month_bounds {day : Int} (h : 0 ≤ day) (h' : day ≤ 365) :
    0 ≤ (5 * day + 2) / 153 ∧ (5 * day + 2) / 153 ≤ 11 ∧
      monthStart ((5 * day + 2) / 153) ≤ day ∧ day ≤ monthStart ((5 * day + 2) / 153) + 30 := by
  rw [monthStart]
  omega

theorem timegm_marchTm {m : Int} (h : 0 ≤ m ∧ m ≤ 11) (y day secs : Int) :
    timegm (marchTm y m day secs) = (yearStart y + day - epochDay) * 86400 + secs := by
  have hcarry : (m + 2) % 12 / 12 = 0 := by omega
  have hmon : (m + 2) % 12 % 12 = (m + 2) % 12 := by omega
  have hplace : ((m + 2) % 12 + 10) % 12 = m := by omega
  have hmarch : (if (m + 2) % 12 < 2 then (if m < 10 then y else y + 1) - 1900 + 1900 + 0 - 1
      else (if m < 10 then y else y + 1) - 1900 + 1900 + 0) = y := by
    split_ifs <;> omega
  simp only [timegm, marchTm, hcarry, hmon, hplace, hmarch]
  omega

theorem timegm_tm {c : Cycle} {doe : Int} (h : c.Places doe) (era secs : Int) :
    timegm (c.tm era secs) = (146097 * era + doe - epochDay) * 86400 + secs := by
  have hmonth := month_bounds h.day.1 h.day.2
  rw [Cycle.tm, timegm_marchTm ⟨hmonth.1, hmonth.2.1⟩, h.yearStart era]

theorem timegm_gmtime (t : Int) : timegm (gmtime t) = t := by
  have hplaces := cycleOf_places (Int.emod_nonneg (t / 86400 + epochDay) (by decide : (146097 : Int) ≠ 0))
    (Int.emod_lt_of_pos _ (by decide))
  rw [gmtime, timegm_tm hplaces]
  omega

/-- The fields of a day, and a year of at most four digits. -/
structure Tm.Civil (tm : Tm) : Prop where
  year : 0 ≤ tm.year + 1900 ∧ tm.year + 1900 ≤ 9999
  mon : 0 ≤ tm.mon ∧ tm.mon ≤ 11
  mday : 1 ≤ tm.mday ∧ tm.mday ≤ 31
  hour : 0 ≤ tm.hour ∧ tm.hour ≤ 23
  min : 0 ≤ tm.min ∧ tm.min ≤ 59
  sec : 0 ≤ tm.sec ∧ tm.sec ≤ 59

/-- Some 300 years around 1970. -/
def NearEpoch (t : Int) : Prop := -(10 ^ 10) ≤ t ∧ t ≤ 10 ^ 10

theorem marchTm_civil {y m day secs : Int} (hy : 0 ≤ y ∧ y ≤ 9998)
    (hday : monthStart m ≤ day ∧ day ≤ monthStart m + 30) (hsecs : 0 ≤ secs ∧ secs < 86400) :
    (marchTm y m day secs).Civil := by
  refine ⟨?_, ?_, ?_, ?_, ?_, ?_⟩
  all_goals simp only [marchTm]
  · split_ifs <;> omega
  all_goals omega

theorem year_bounds {y day days : Int} (h : yearStart y + day = days) (hday : 0 ≤ day ∧ day ≤ 365)
    (hdays : 400 ≤ days ∧ days ≤ 10 ^ 6) : 0 ≤ y ∧ y ≤ 9998 := by
  rw [yearStart] at h
  omega

theorem gmtime_civil {t : Int} (h : NearEpoch t) : (gmtime t).Civil := by
  obtain ⟨hlow, hhigh⟩ := h
  have hplaces := cycleOf_places (Int.emod_nonneg (t / 86400 + epochDay) (by decide : (146097 : Int) ≠ 0))
    (Int.emod_lt_of_pos _ (by decide))
  have hdays : 400 ≤ t / 86400 + epochDay ∧ t / 86400 + epochDay ≤ 10 ^ 6 := by
    rw [epochDay]
    omega
  have hyear := hplaces.yearStart ((t / 86400 + epochDay) / 146097)
  rw [Int.mul_ediv_add_emod] at hyear
  have hmonth := month_bounds hplaces.day.1 hplaces.day.2
  apply marchTm_civil (year_bounds hyear hplaces.day hdays) hmonth.2.2
  exact ⟨Int.emod_nonneg _ (by decide), Int.emod_lt_of_pos _ (by decide)⟩

/-! ## Years -/

/-- A later year starts later. -/
theorem yearStart_add_le {a b : Int} (h : a < b) : yearStart a + 365 * (b - a) ≤ yearStart b := by
  have ha : a / 100 = a / 4 / 25 := by omega
  have hb : b / 100 = b / 4 / 25 := by omega
  have hq : a / 4 ≤ b / 4 := Int.ediv_le_ediv (by decide) h.le
  have hcenturies : a / 4 - a / 4 / 25 ≤ b / 4 - b / 4 / 25 := by omega
  have heras : a / 400 ≤ b / 400 := Int.ediv_le_ediv (by decide) h.le
  rw [yearStart, yearStart, ha, hb]
  omega

/-- How two years lie to each other, and how far apart they start. -/
theorem yearStart_order (a b : Int) :
    (a < b ∧ yearStart a + 365 * (b - a) ≤ yearStart b) ∨ (a = b ∧ yearStart a = yearStart b) ∨
      (b < a ∧ yearStart b + 365 * (a - b) ≤ yearStart a) := by
  rcases lt_trichotomy a b with h | h | h
  · exact .inl ⟨h, yearStart_add_le h⟩
  · exact .inr (.inl ⟨h, h ▸ rfl⟩)
  · exact .inr (.inr ⟨h, yearStart_add_le h⟩)

/-- Where a time lies in the years that start with March. -/
structure Place (t y day : Int) : Prop where
  day_bounds : 0 ≤ day ∧ day ≤ 365
  days : yearStart y + day = t / 86400 + epochDay
  tm : gmtime t = marchTm y ((5 * day + 2) / 153) day (t % 86400)

theorem exists_place (t : Int) : ∃ y day, Place t y day := by
  have hplaces := cycleOf_places (Int.emod_nonneg (t / 86400 + epochDay) (by decide : (146097 : Int) ≠ 0))
    (Int.emod_lt_of_pos _ (by decide))
  have hdays := hplaces.yearStart ((t / 86400 + epochDay) / 146097)
  rw [Int.mul_ediv_add_emod] at hdays
  exact ⟨_, _, hplaces.day, hdays, rfl⟩

/-- Between the second and the last but one day of a year no two years meet. -/
theorem gmtime_marchTm {y day secs : Int} (hday : 0 < day ∧ day < 365) (hsecs : 0 ≤ secs ∧ secs < 86400) :
    gmtime ((yearStart y + day - epochDay) * 86400 + secs) = marchTm y ((5 * day + 2) / 153) day secs := by
  obtain ⟨y', day', hplace⟩ := exists_place ((yearStart y + day - epochDay) * 86400 + secs)
  have hdiv : ((yearStart y + day - epochDay) * 86400 + secs) / 86400 = yearStart y + day - epochDay := by omega
  have hmod : ((yearStart y + day - epochDay) * 86400 + secs) % 86400 = secs := by omega
  have hdays := hplace.days
  have hbounds := hplace.day_bounds
  rw [hdiv] at hdays
  have hyear : y' = y := by
    have horder := yearStart_order y' y
    omega
  subst hyear
  have hsame : day' = day := by omega
  rw [hplace.tm, hmod, hsame]

theorem timegm_sec (tm : Tm) (s : Int) : timegm { tm with sec := s } = timegm tm - tm.sec + s := by
  simp only [timegm]
  omega

namespace Place

variable {t y day : Int}

theorem year_eq (h : Place t y day) : (gmtime t).year = (if day < 306 then y else y + 1) - 1900 := by
  have hmonth : (5 * day + 2) / 153 < 10 ↔ day < 306 := by omega
  rw [h.tm, marchTm, if_congr hmonth rfl rfl]

/-- The same date and minute in another year. -/
theorem timegm_year (h : Place t y day) (k : Int) :
    timegm { gmtime t with year := (gmtime t).year + k, sec := 0 } =
      (yearStart (y + k) + day - epochDay) * 86400 + (t % 86400 - t % 60) := by
  have hm := month_bounds h.day_bounds.1 h.day_bounds.2
  have hsec : t % 86400 % 60 = t % 60 := by omega
  have hmarch := timegm_marchTm ⟨hm.1, hm.2.1⟩ (y + k) day (t % 86400)
  have hyear : (if (5 * day + 2) / 153 < 10 then y else y + 1) - 1900 + k =
      (if (5 * day + 2) / 153 < 10 then y + k else y + k + 1) - 1900 := by
    split_ifs <;> omega
  have hfields : { gmtime t with year := (gmtime t).year + k, sec := 0 } =
      { marchTm (y + k) ((5 * day + 2) / 153) day (t % 86400) with sec := 0 } := by
    rw [h.tm]
    simp only [marchTm, hyear]
  rw [hfields, timegm_sec, hmarch, ← hsec]
  simp only [marchTm]
  omega

end Place

theorem gmtime_fields (t : Int) : (0 ≤ (gmtime t).mon ∧ (gmtime t).mon ≤ 11) ∧
    (1 ≤ (gmtime t).mday ∧ (gmtime t).mday ≤ 31) ∧ (0 ≤ (gmtime t).hour ∧ (gmtime t).hour ≤ 23) ∧
      (0 ≤ (gmtime t).min ∧ (gmtime t).min ≤ 59) := by
  obtain ⟨y, day, hplace⟩ := exists_place t
  have hm := month_bounds hplace.day_bounds.1 hplace.day_bounds.2
  rw [hplace.tm]
  simp only [marchTm]
  omega

end OpenBambu.Foundation
