import Mathlib.Tactic

/-!
# The Gregorian calendar

The year, month and day of a day counted from 1 January 1970, in eras of 400 years
that begin on 1 March. The date tells the day.
-/

namespace Foundation

structure Date where
  year : ℤ
  month : ℤ
  day : ℤ
deriving DecidableEq

/-- Days of an era of 400 years, and of a century, four years and a year in it. -/
def eraDays : ℤ := 146097

def centuryDays : ℤ := 36524

def quadDays : ℤ := 1461

/-- A day of an era, cut into its century, the century's four years, the year, and the
day. The last of four centuries, and of four years, may have a day more. -/
structure EraDay where
  century : ℤ
  quad : ℤ
  year : ℤ
  day : ℤ

def eraDay (doe : ℤ) : EraDay :=
  let century := min (doe / centuryDays) 3
  let r := doe - century * centuryDays
  let quad := r / quadDays
  let s := r - quad * quadDays
  let year := min (s / 365) 3
  ⟨century, quad, year, s - year * 365⟩

/-- The date of a day of an era; January and February end the year before. -/
def EraDay.date (era : ℤ) (d : EraDay) : Date :=
  let mp := (5 * d.day + 2) / 153
  let month := if mp < 10 then mp + 3 else mp - 9
  ⟨era * 400 + d.century * 100 + d.quad * 4 + d.year + (if month ≤ 2 then 1 else 0), month,
    d.day - (153 * mp + 2) / 5 + 1⟩

/-- The date of a day. -/
def dateOf (n : ℤ) : Date :=
  (eraDay ((n + 719468) % eraDays)).date ((n + 719468) / eraDays)

/-- The day of a date. -/
def dayOf (d : Date) : ℤ :=
  let year := d.year - (if d.month ≤ 2 then 1 else 0)
  let yoe := year % 400
  let mp := if 2 < d.month then d.month - 3 else d.month + 9
  year / 400 * eraDays + (yoe * 365 + yoe / 4 - yoe / 100) + (153 * mp + 2) / 5 + d.day - 1 -
    719468

/-- The parts of a day of an era are in range. -/
structure EraDay.Ranges (d : EraDay) : Prop where
  century : 0 ≤ d.century ∧ d.century ≤ 3
  quad : 0 ≤ d.quad ∧ d.quad ≤ 24
  year : 0 ≤ d.year ∧ d.year ≤ 3
  day : 0 ≤ d.day ∧ d.day ≤ 365

/-- The parts make the day. -/
theorem eraDay_spec {doe : ℤ} (h : 0 ≤ doe) (h' : doe < eraDays) :
    (eraDay doe).Ranges ∧ (eraDay doe).century * centuryDays + (eraDay doe).quad * quadDays +
      (eraDay doe).year * 365 + (eraDay doe).day = doe := by
  simp only [eraDay, eraDays, centuryDays, quadDays] at *
  constructor
  · constructor <;> simp only <;> omega
  · omega

theorem dayOf_date (era : ℤ) {d : EraDay} (h : d.Ranges) : dayOf (d.date era) =
    era * eraDays + d.century * centuryDays + d.quad * quadDays + d.year * 365 + d.day -
      719468 := by
  obtain ⟨hcentury, hquad, hyear, hday⟩ := h
  simp only [dayOf, EraDay.date, eraDays, centuryDays, quadDays]
  split_ifs <;> omega

/-- **The date tells the day.** -/
theorem dayOf_dateOf (n : ℤ) : dayOf (dateOf n) = n := by
  have hdiv : (n + 719468) / eraDays * eraDays + (n + 719468) % eraDays = n + 719468 :=
    Int.ediv_mul_add_emod _ _
  obtain ⟨hranges, hsum⟩ := @eraDay_spec ((n + 719468) % eraDays)
    (Int.emod_nonneg _ (by decide)) (Int.emod_lt_of_pos _ (by decide))
  rw [dateOf, dayOf_date _ hranges]
  omega

theorem dateOf_injective : Function.Injective dateOf :=
  Function.LeftInverse.injective dayOf_dateOf

/-- The last day of a leap year, and the first of the next. -/
example : dateOf 11322 = ⟨2000, 12, 31⟩ ∧ dateOf 11323 = ⟨2001, 1, 1⟩ := by decide

end Foundation
