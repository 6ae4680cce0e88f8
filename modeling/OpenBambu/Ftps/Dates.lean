import OpenBambu.Ftps.Listing

/-!
# Dates in listings

`ls -l` leaves the year of a recent file out and `parse_ls_line` puts it back from its own clock.
The server prints its local time, so its new year is not that of the client.
-/

namespace OpenBambu.Ftps

open OpenBambu.Foundation

/-! ## The year that is left out -/

/-- A time is recent on a clock when it is at most half a year of 31556952 seconds old. -/
def Recent (localNow t : Int) : Prop := localNow - 31556952 / 2 ≤ t ∧ t ≤ localNow

instance (localNow t : Int) : Decidable (Recent localNow t) := instDecidableAnd

/-- The minute of `t` in the year of the client's clock. -/
def inYearOf (now t : Int) : Int := timegm { gmtime t with year := (gmtime now).year, sec := 0 }

/-- The year of a time is the current one, or the one before it and the time would lie more than
183 days ahead if it were of the current one. -/
def YearFound (now t : Int) : Prop :=
  (gmtime t).year = (gmtime now).year ∨
    ((gmtime t).year = (gmtime now).year - 1 ∧ now + kSixMonths < inYearOf now t)

/-- `yearless` from the fields that a listing shows of `t`. -/
def guessed (now t : Int) : Int :=
  yearless ⟨0, (gmtime t).mon, (gmtime t).mday, (gmtime t).hour, (gmtime t).min, 0⟩ now

theorem guessed_eq (now t : Int) : guessed now t =
    if inYearOf now t > now + kSixMonths then
      timegm { gmtime (inYearOf now t) with year := (gmtime (inYearOf now t)).year - 1 }
    else inYearOf now t := rfl

section Year

variable {now t y day y' day' : Int}

/-- The years of two times that are at most 184 days apart follow each other at most. -/
theorem years_near (ht : Place t y day) (hnow : Place now y' day') (hlow : now ≤ t + 184 * 86400)
    (hhigh : t ≤ now + 86400) :
    (gmtime t).year = (gmtime now).year ∨ (gmtime t).year = (gmtime now).year - 1 ∨
      (gmtime t).year = (gmtime now).year + 1 := by
  have ht' := ht.days
  have hnow' := hnow.days
  have hday := ht.day_bounds
  have hday' := hnow.day_bounds
  have horder := yearStart_order y y'
  rw [ht.year_eq, hnow.year_eq]
  split_ifs <;> omega

theorem inYearOf_eq (ht : Place t y day) : inYearOf now t =
    (yearStart (y + ((gmtime now).year - (gmtime t).year)) + day - epochDay) * 86400 + (t % 86400 - t % 60) := by
  rw [← ht.timegm_year, inYearOf, add_sub_cancel]

theorem inYearOf_same (h : (gmtime t).year = (gmtime now).year) : inYearOf now t = t - t % 60 := by
  obtain ⟨y, day, ht⟩ := exists_place t
  have hdays := ht.days
  rw [inYearOf_eq ht, h, sub_self, add_zero]
  omega

theorem inYearOf_later (h : (gmtime t).year = (gmtime now).year - 1) :
    t - t % 60 + 365 * 86400 ≤ inYearOf now t := by
  obtain ⟨y, day, ht⟩ := exists_place t
  have hdays := ht.days
  have hnext := yearStart_add_le (lt_add_one y)
  rw [inYearOf_eq ht, h, sub_sub_cancel]
  omega

theorem inYearOf_earlier (h : (gmtime t).year = (gmtime now).year + 1) :
    inYearOf now t + 365 * 86400 ≤ t - t % 60 := by
  obtain ⟨y, day, ht⟩ := exists_place t
  have hdays := ht.days
  have hprevious := yearStart_add_le (sub_one_lt y)
  have hshift : (gmtime now).year - (gmtime t).year = -1 := by omega
  rw [inYearOf_eq ht, hshift, ← sub_eq_add_neg]
  omega

/-- A day in a later year is later. -/
theorem day_lt_of_year_lt (h : (gmtime now).year < (gmtime t).year) : now / 86400 < t / 86400 := by
  obtain ⟨y, day, ht⟩ := exists_place t
  obtain ⟨y', day', hnow⟩ := exists_place now
  have hdays := ht.days
  have hdays' := hnow.days
  have hbounds := ht.day_bounds
  have hbounds' := hnow.day_bounds
  have horder := yearStart_order y' y
  rw [ht.year_eq, hnow.year_eq] at h
  split_ifs at h <;> omega

/-- The year before the one that was tried first, for a time of its second half. -/
theorem rolled_back (h : (gmtime t).year = (gmtime now).year - 1) (hlow : now ≤ t + 184 * 86400) :
    timegm { gmtime (inYearOf now t) with year := (gmtime (inYearOf now t)).year - 1 } = t - t % 60 := by
  obtain ⟨y, day, ht⟩ := exists_place t
  obtain ⟨y', day', hnow⟩ := exists_place now
  have hdays := ht.days
  have hdays' := hnow.days
  have hbounds := ht.day_bounds
  have hbounds' := hnow.day_bounds
  have hyear := h
  have horder := yearStart_order y y'
  rw [ht.year_eq, hnow.year_eq] at hyear
  have hinside : 0 < day ∧ day < 365 := by
    split_ifs at hyear <;> omega
  rw [inYearOf_eq ht, h, sub_sub_cancel, gmtime_marchTm hinside (by omega)]
  have hmonth := month_bounds hbounds.1 hbounds.2
  have hback : { marchTm (y + 1) ((5 * day + 2) / 153) day (t % 86400 - t % 60) with
      year := (marchTm (y + 1) ((5 * day + 2) / 153) day (t % 86400 - t % 60)).year - 1 } =
      marchTm y ((5 * day + 2) / 153) day (t % 86400 - t % 60) := by
    simp only [marchTm, Tm.mk.injEq, and_true]
    split_ifs <;> omega
  rw [hback, timegm_marchTm ⟨hmonth.1, hmonth.2.1⟩]
  omega

/-- The minute of a time near the client's clock is found, or missed, by its year. -/
theorem guessed_iff (hnow : 0 < now) (hlow : now ≤ t + 184 * 86400) (hhigh : t ≤ now + 86400) :
    ((guessed now t).toNat : Int) = t - t % 60 ↔ 0 ≤ t - t % 60 ∧ YearFound now t := by
  have hsix : kSixMonths = 183 * 86400 := rfl
  obtain ⟨y, day, ht⟩ := exists_place t
  obtain ⟨y', day', hplace⟩ := exists_place now
  rw [guessed_eq, YearFound]
  rcases years_near ht hplace hlow hhigh with h | h | h
  · -- the same year
    rw [inYearOf_same h, if_neg (by omega), and_iff_left (.inl h)]
    omega
  · -- the year before
    have hlater := inYearOf_later h
    have hother : (gmtime t).year ≠ (gmtime now).year := by omega
    by_cases hahead : inYearOf now t > now + kSixMonths
    · rw [if_pos hahead, rolled_back h hlow, and_iff_left (.inr ⟨h, hahead⟩)]
      omega
    · rw [if_neg hahead]
      refine iff_of_false (by omega) ?_
      rintro ⟨-, hsame | ⟨-, hfar⟩⟩
      · exact hother hsame
      · exact hahead hfar
  · -- the year after, which only a clock ahead of the client's can show
    have hearlier := inYearOf_earlier h
    have hlater := day_lt_of_year_lt (by omega : (gmtime now).year < (gmtime t).year)
    rw [if_neg (by omega)]
    refine iff_of_false (by omega) ?_
    · rintro ⟨-, hsame | ⟨hbefore, -⟩⟩ <;> omega

end Year

/-! ## The date columns -/

def monthNames : List Bytes :=
  [ascii "Jan", ascii "Feb", ascii "Mar", ascii "Apr", ascii "May", ascii "Jun",
    ascii "Jul", ascii "Aug", ascii "Sep", ascii "Oct", ascii "Nov", ascii "Dec"]

def monthText (mon : Int) : Bytes := monthNames[mon.toNat]?.getD []

def twoDigits (n : Int) : Bytes := [digitByte (n.toNat / 10), digitByte (n.toNat % 10)]

def yearText (y : Int) : Bytes := if y < 0 then Ascii.minus :: decimal (-y).toNat else decimal y.toNat

/-- The last of the three columns: a time of the day for a recent file and a year for others. -/
def timeText (localNow t : Int) : Bytes :=
  if Recent localNow t then twoDigits (gmtime t).hour ++ Ascii.colon :: twoDigits (gmtime t).min
  else yearText ((gmtime t).year + 1900)

/-- What the columns tell of `t`: its minute or its day. -/
def shown (localNow t : Int) : Int := if Recent localNow t then t - t % 60 else t - t % 86400

/-- The row has been printed for a file of the time `t` when the server's clock was at `localNow`,
both of them local times. -/
structure PrintedAt (r : Row) (localNow t : Int) : Prop where
  month : r.month.text = monthText (gmtime t).mon
  day : r.day.text = decimal (gmtime t).mday.toNat
  time : r.time.text = timeText localNow t

theorem lsMonthIndex_monthText {mon : Int} (h : 0 ≤ mon ∧ mon ≤ 11) :
    (lsMonthIndex (monthText mon) : Int) = mon + 1 := by
  have hall : ∀ m : Fin 12, (lsMonthIndex (monthText (m : Nat)) : Int) = (m : Nat) + 1 := by decide +kernel
  have hm := hall ⟨mon.toNat, by omega⟩
  simpa [Int.toNat_of_nonneg h.1] using hm

theorem atoi_decimal {n : Nat} (h : n < 2 ^ 31) : atoi (decimal n) = n := by
  rw [atoi_digits (decimal_digits n) (by rwa [ofDecimal_decimal]), ofDecimal_decimal]

theorem atoi_minus {n : Nat} (h : n < 2 ^ 31) : atoi (Ascii.minus :: decimal n) = -n := by
  have hspace : (Ascii.minus :: decimal n).dropWhile isspace = Ascii.minus :: decimal n :=
    dropWhile_head fun c hc => by obtain rfl := Option.some.inj hc; decide
  obtain ⟨-, -, -, hrun⟩ := digits_scanned (decimal_digits n)
  simp only [atoi, hspace, List.head?_cons, true_or, if_true, List.tail_cons, hrun, ofDecimal_decimal]
  exact int_of_long (by omega) (by omega)

theorem atoi_yearText {y : Int} (hlow : -2 ^ 31 < y) (hhigh : y < 2 ^ 31) : atoi (yearText y) = y := by
  unfold yearText
  split_ifs with h
  · rw [atoi_minus (by omega), Int.toNat_of_nonneg (by omega), neg_neg]
  · rw [atoi_decimal (by omega), Int.toNat_of_nonneg (by omega)]

theorem twoDigits_spec {n : Int} (h : 0 ≤ n ∧ n ≤ 59) :
    atoi (twoDigits n) = n ∧ Ascii.colon ∉ twoDigits n := by
  have hall : ∀ m : Fin 60, atoi (twoDigits (m : Nat)) = (m : Nat) ∧ Ascii.colon ∉ twoDigits (m : Nat) := by
    decide +kernel
  have hm := hall ⟨n.toNat, by omega⟩
  simpa [Int.toNat_of_nonneg h.1] using hm

theorem colon_not_mem_yearText (y : Int) : Ascii.colon ∉ yearText y := by
  have hdigits : ∀ n, Ascii.colon ∉ decimal n := fun n hmem => absurd (decimal_digits n _ hmem) (by decide)
  unfold yearText
  split_ifs
  · rw [List.mem_cons, not_or]
    exact ⟨by decide, hdigits _⟩
  · exact hdigits _

theorem yearText_ne_nil (y : Int) : yearText y ≠ [] := by
  unfold yearText
  split_ifs
  · exact List.cons_ne_nil _ _
  · exact decimal_ne_nil _

section Columns

variable {r : Row} {localNow now t : Int}

/-- The columns of a recent file are a time without a year. -/
theorem lsTime_recent (hr : PrintedAt r localNow t) (hrecent : Recent localNow t) :
    lsTime r.month.text r.day.text r.time.text now 0 = (guessed now t).toNat := by
  obtain ⟨hmon, hmday, hhour, hmin⟩ := gmtime_fields t
  obtain ⟨hatoiHour, hcolon⟩ := twoDigits_spec (n := (gmtime t).hour) (by omega)
  obtain ⟨hatoiMin, -⟩ := twoDigits_spec hmin
  have hmo := lsMonthIndex_monthText hmon
  have hday : atoi (decimal (gmtime t).mday.toNat) = (gmtime t).mday := by
    rw [atoi_decimal (by omega), Int.toNat_of_nonneg (by omega)]
  have hguess : (⟨0, (lsMonthIndex (monthText (gmtime t).mon) : Int) - 1, (gmtime t).mday, (gmtime t).hour,
      (gmtime t).min, 0⟩ : Tm) = ⟨0, (gmtime t).mon, (gmtime t).mday, (gmtime t).hour, (gmtime t).min, 0⟩ := by
    rw [hmo, add_sub_cancel_right]
  rw [hr.month, hr.day, hr.time, timeText, if_pos hrecent, lsTime, hday,
    if_pos ⟨by omega, by omega, by simp [twoDigits]⟩, cut_of_not_mem hcolon]
  dsimp only
  rw [hatoiHour, hatoiMin, hguess, ← guessed]
  split_ifs <;> omega

/-- The columns of any other file are a date. -/
theorem lsTime_dated (hr : PrintedAt r localNow t) (hold : ¬Recent localNow t)
    (hlow : -2 ^ 31 < (gmtime t).year + 1900) (hhigh : (gmtime t).year + 1900 < 2 ^ 31) :
    (lsTime r.month.text r.day.text r.time.text now 0 : Int) = t - t % 86400 ↔ 0 ≤ t - t % 86400 := by
  obtain ⟨hmon, hmday, -, -⟩ := gmtime_fields t
  obtain ⟨y, day, hplace⟩ := exists_place t
  have hdays := hplace.days
  have hmonth := month_bounds hplace.day_bounds.1 hplace.day_bounds.2
  have hmo := lsMonthIndex_monthText hmon
  have hday : atoi (decimal (gmtime t).mday.toNat) = (gmtime t).mday := by
    rw [atoi_decimal (by omega), Int.toNat_of_nonneg (by omega)]
  have hmidnight : timegm ⟨(gmtime t).year + 1900 - 1900, (lsMonthIndex (monthText (gmtime t).mon) : Int) - 1,
      (gmtime t).mday, 0, 0, 0⟩ = t - t % 86400 := by
    have hfields : (⟨(gmtime t).year, (gmtime t).mon, (gmtime t).mday, 0, 0, 0⟩ : Tm) =
        marchTm y ((5 * day + 2) / 153) day 0 := by
      rw [hplace.tm]
      rfl
    rw [hmo, add_sub_cancel_right, add_sub_cancel_right, hfields, timegm_marchTm ⟨hmonth.1, hmonth.2.1⟩]
    omega
  rw [hr.month, hr.day, hr.time, timeText, if_neg hold, lsTime, hday,
    if_pos ⟨by omega, by omega, yearText_ne_nil _⟩, cut_eq_none (colon_not_mem_yearText _)]
  dsimp only
  rw [atoi_yearText hlow hhigh, hmidnight]
  split_ifs with hepoch hpos
  · omega
  · omega
  · -- a year before 1970
    have hbefore := @day_lt_of_year_lt t 0 (by rw [show (gmtime 0).year = 70 by decide]; omega)
    omega

end Columns

theorem mtime_line (r : Row) (now : Int) :
    (parseLsLine r.line .fresh now).mtime = lsTime r.month.text r.day.text r.time.text now 0 := by
  have hfront : (r.name ++ r.kind.behind).head? ≠ some Ascii.sp := by
    rw [List.head?_append_of_ne_nil _ r.some_name]
    exact r.name_front
  rw [Row.line, parseLsLine_columns r (by simp [r.some_name]) hfront]

/-- The time of a row, printed by a server whose clock is at most 14 hours from the client's, is what
its columns tell exactly when that is not before the epoch and, without a year, the year is found. -/
theorem parseLsLine_mtime_iff (r : Row) (now offset t : Int) (hnow : 0 < now)
    (hoffset : -50400 ≤ offset ∧ offset ≤ 50400)
    (hyear : -2 ^ 31 < (gmtime t).year + 1900 ∧ (gmtime t).year + 1900 < 2 ^ 31)
    (hr : PrintedAt r (now + offset) t) :
    ((parseLsLine r.line .fresh now).mtime : Int) = shown (now + offset) t ↔
      0 ≤ shown (now + offset) t ∧ (Recent (now + offset) t → YearFound now t) := by
  rw [mtime_line, shown]
  by_cases hrecent : Recent (now + offset) t
  · have hlow := hrecent.1
    have hhigh := hrecent.2
    rw [lsTime_recent hr hrecent, if_pos hrecent, guessed_iff hnow (by omega) (by omega),
      forall_prop_of_true hrecent]
  · rw [if_neg hrecent, lsTime_dated hr hrecent hyear.1 hyear.2, and_iff_left (absurd · hrecent)]

theorem exists_row (month day time : Column) :
    ∃ r : Row, r.month = month ∧ r.day = day ∧ r.time = time :=
  ⟨{ kind := .regular
     name := ascii "cube.3mf"
     size := 7
     mode := .of (ascii "-rw-r--r--") (by decide)
     links := .of (ascii "1") (by decide)
     owner := .of (ascii "root") (by decide)
     group := .of (ascii "root") (by decide)
     sizes := .of (ascii "7") (by decide)
     month, day, time
     crlf := true
     mode_kind := by decide
     size_text := by decide
     size_fits := by decide
     some_name := by decide
     name_front := by decide
     name_line := by decide
     name_cr := by decide
     link := nofun }, rfl, rfl, rfl⟩

/-- 15 March 2026, 14:25, seen on 21 April. -/
theorem parseLsLine_mtime_of_march :
    ∃ r : Row, r.time.text = ascii "14:25" ∧ (parseLsLine r.line .fresh 1776823200).mtime = 1773584700 := by
  obtain ⟨r, hmonth, hday, htime⟩ := exists_row (.of (ascii "Mar") (by decide)) (.of (ascii "15") (by decide))
    (.of (ascii "14:25") (by decide))
  have hr : PrintedAt r (1776823200 + 0) 1773584700 :=
    ⟨by rw [hmonth]; decide +kernel, by rw [hday]; decide +kernel, by rw [htime]; decide +kernel⟩
  have hfound := (parseLsLine_mtime_iff r 1776823200 0 1773584700 (by decide) (by decide) (by decide +kernel) hr).mpr
    ⟨by decide +kernel, fun _ => .inl (by decide +kernel)⟩
  have hshown : shown (1776823200 + 0) 1773584700 = 1773584700 := by decide +kernel
  exact ⟨r, by rw [htime]; rfl, by omega⟩

/-- New year on a server east of Greenwich: 1 January 2026, 03:00, when it is still 2025 in UTC. -/
theorem mtime_year_off : ¬∀ (r : Row) (now offset t : Int), 0 < now → -50400 ≤ offset ∧ offset ≤ 50400 →
    Recent (now + offset) t → PrintedAt r (now + offset) t →
      ((parseLsLine r.line .fresh now).mtime : Int) = shown (now + offset) t := by
  intro h
  obtain ⟨r, hmonth, hday, htime⟩ := exists_row (.of (ascii "Jan") (by decide)) (.of (ascii "1") (by decide))
    (.of (ascii "03:00") (by decide))
  have hr : PrintedAt r (1767211200 + 28800) 1767236400 :=
    ⟨by rw [hmonth]; decide +kernel, by rw [hday]; decide +kernel, by rw [htime]; decide +kernel⟩
  have hrecent : Recent (1767211200 + 28800) 1767236400 := by decide
  have hread := h r 1767211200 28800 1767236400 (by decide) (by decide) hrecent hr
  have hline : (parseLsLine r.line .fresh 1767211200).mtime =
      lsTime r.month.text r.day.text r.time.text 1767211200 0 := mtime_line r _
  rw [hline, lsTime_recent hr hrecent] at hread
  exact absurd hread (by decide +kernel)

end OpenBambu.Ftps
