import Ziftbook.Foundation.Calendar
import Ziftbook.Foundation.Segments
import Ziftbook.Ledger.Written
import Ziftbook.LocalTime

/-!
# Dates in the browser

`Date.parse`, `toISOString` and what `lib/calendar.ts` checks of a text before it takes
it for a date or an instant. A text in the form `toISOString` or the server's `isoformat`
writes is read here; what the browser makes of any other is a parameter.
-/

namespace Ziftbook

open Foundation

/-! ## § Writing an instant -/

/-- The year as `toISOString` writes it: with a sign and six digits out of 0 to 9999. -/
def isoYear (year : ℤ) : List Char :=
  if 0 ≤ year ∧ year ≤ 9999 then numeral 10 4 year.toNat
  else (if year < 0 then '-' else '+') :: numeral 10 6 year.natAbs

/-- `toISOString` of an instant in milliseconds. -/
def toISOString (t : ℤ) : List Char :=
  let date := dateOf (t / dayMs)
  let time := t % dayMs
  isoYear date.year ++ '-' :: (numeral 10 2 date.month.toNat ++ '-' ::
    (numeral 10 2 date.day.toNat ++ 'T' :: (numeral 10 2 (time / 3600000).toNat ++ ':' ::
      (numeral 10 2 (time / 60000 % 60).toNat ++ ':' :: (numeral 10 2 (time / 1000 % 60).toNat ++
        '.' :: (numeral 10 3 (time % 1000).toNat ++ ['Z']))))))

/-! ## § Reading one -/

/-- Milliseconds, or none. -/
def readMillis : List Char → Option (ℕ × List Char)
  | '.' :: cs => readDigits 3 cs
  | cs => some (0, cs)

/-- `Z`, or an offset, in minutes. -/
def readOffset (cs : List Char) : Option ℤ :=
  match cs with
  | ['Z'] => some 0
  | sign :: cs => do
      let (hh, cs) ← readDigits 2 cs
      let cs ← readChar ':' cs
      let (mm, cs) ← readDigits 2 cs
      if cs = [] ∧ hh < 24 ∧ mm < 60 then
        if sign = '+' then some (60 * hh + mm)
        else if sign = '-' then some (-(60 * hh + mm))
        else none
      else none
  | [] => none

/-- A time as `toISOString` and the server write it. -/
def readInstant (cs : List Char) : Option ℤ := do
  let (year, cs) ← readDigits 4 cs
  let cs ← readChar '-' cs
  let (month, cs) ← readDigits 2 cs
  let cs ← readChar '-' cs
  let (day, cs) ← readDigits 2 cs
  let cs ← readChar 'T' cs
  let (hh, cs) ← readDigits 2 cs
  let cs ← readChar ':' cs
  let (mm, cs) ← readDigits 2 cs
  let cs ← readChar ':' cs
  let (ss, cs) ← readDigits 2 cs
  let (ms, cs) ← readMillis cs
  let offset ← readOffset cs
  let date : Date := ⟨year, month, day⟩
  if dateOf (dayOf date) = date ∧ hh < 24 ∧ mm < 60 ∧ ss < 60 then
    some (dayMs * dayOf date + 3600000 * hh + 60000 * mm + 1000 * ss + ms - 60000 * offset)
  else none

/-- What the browser makes of a text in another form. -/
structure Browser where
  parse : List Char → Option ℤ

/-- `Date.parse`. -/
def Browser.dateParse (browser : Browser) (cs : List Char) : Option ℤ :=
  match readInstant cs with
  | some t => some t
  | none => browser.parse cs

/-! ## § Reading back what was written -/

theorem dateOf_ranges (n : ℤ) : 1 ≤ (dateOf n).month ∧ (dateOf n).month ≤ 12 ∧
    1 ≤ (dateOf n).day ∧ (dateOf n).day ≤ 31 := by
  obtain ⟨hranges, _⟩ := @eraDay_spec ((n + 719468) % eraDays)
    (Int.emod_nonneg _ (by decide)) (Int.emod_lt_of_pos _ (by decide))
  obtain ⟨hlow, hhigh⟩ := hranges.day
  unfold dateOf
  generalize eraDay ((n + 719468) % eraDays) = d at hlow hhigh
  simp only [EraDay.date]
  split_ifs
  all_goals omega

/-- The instant's year has four digits. -/
def FourDigits (t : ℤ) : Prop :=
  0 ≤ (dateOf (t / dayMs)).year ∧ (dateOf (t / dayMs)).year ≤ 9999

instance (t : ℤ) : Decidable (FourDigits t) := inferInstanceAs (Decidable (_ ∧ _))

/-- **`Date.parse` reads `toISOString`** of a year of four digits. -/
theorem readInstant_toISOString {t : ℤ} (h : FourDigits t) :
    readInstant (toISOString t) = some t := by
  obtain ⟨hmonth, hmonth', hday, hday'⟩ := dateOf_ranges (t / dayMs)
  have hdate := dayOf_dateOf (t / dayMs)
  unfold FourDigits at h
  have htext : toISOString t = (let date := dateOf (t / dayMs)
      numeral 10 4 date.year.toNat ++ '-' :: (numeral 10 2 date.month.toNat ++ '-' ::
        (numeral 10 2 date.day.toNat ++ 'T' :: (numeral 10 2 (t % dayMs / 3600000).toNat ++ ':' ::
          (numeral 10 2 (t % dayMs / 60000 % 60).toNat ++ ':' ::
            (numeral 10 2 (t % dayMs / 1000 % 60).toNat ++
              '.' :: (numeral 10 3 (t % dayMs % 1000).toNat ++ ['Z']))))))) := by
    rw [toISOString, isoYear, if_pos h]
  rw [htext]
  generalize hdateOf : dateOf (t / dayMs) = date at *
  have htime : 0 ≤ t % dayMs ∧ t % dayMs < dayMs :=
    ⟨Int.emod_nonneg _ (by decide), Int.emod_lt_of_pos _ (by decide)⟩
  have hwhole : t / dayMs * dayMs + t % dayMs = t := Int.ediv_mul_add_emod ..
  generalize t % dayMs = time at *
  have hms : dayMs = 86400000 := by decide
  rw [hms] at htime hwhole
  have hsame : (⟨date.year.toNat, date.month.toNat, date.day.toNat⟩ : Date) = date := by
    rw [Int.toNat_of_nonneg h.1, Int.toNat_of_nonneg (by omega), Int.toNat_of_nonneg (by omega)]
  unfold readInstant
  simp only
  apply bind_of_eq_some (readDigits_numeral (by omega))
  apply bind_of_eq_some rfl
  apply bind_of_eq_some (readDigits_numeral (by omega))
  apply bind_of_eq_some rfl
  apply bind_of_eq_some (readDigits_numeral (by omega))
  apply bind_of_eq_some rfl
  apply bind_of_eq_some (readDigits_numeral (by omega))
  apply bind_of_eq_some rfl
  apply bind_of_eq_some (readDigits_numeral (by omega))
  apply bind_of_eq_some rfl
  apply bind_of_eq_some (readDigits_numeral (by omega))
  apply bind_of_eq_some (readDigits_numeral (by omega))
  apply bind_of_eq_some rfl
  simp only [hsame, hdate, hms]
  rw [if_pos ⟨hdateOf, by omega, by omega, by omega⟩]
  congr 1
  omega

/-! ## § What a link may carry -/

/-- `^\d{4}-\d{2}-\d{2}`: the three numbers, and what follows. -/
def dateHead (cs : List Char) : Option (Date × List Char) := do
  let (year, cs) ← readDigits 4 cs
  let cs ← readChar '-' cs
  let (month, cs) ← readDigits 2 cs
  let cs ← readChar '-' cs
  let (day, cs) ← readDigits 2 cs
  return (⟨year, month, day⟩, cs)

/-- A whole number in a template. -/
def jsNumber (n : ℤ) : List Char :=
  if n < 0 then '-' :: decimal n.natAbs else decimal n.natAbs

/-- `addDaysISO` of the three numbers. `Date.UTC` takes a year below 100 for one of the
1900s, and any month and day as so many from the year's beginning; the year is printed
unpadded. -/
def addDaysISO (date : Date) (days : ℤ) : List Char :=
  let year := if 0 ≤ date.year ∧ date.year ≤ 99 then 1900 + date.year else date.year
  let months := date.month - 1
  let first := dayOf ⟨year + months / 12, months % 12 + 1, 1⟩
  let shown := dateOf (first + (date.day + days) - 1)
  jsNumber shown.year ++ '-' :: (numeral 10 2 shown.month.toNat ++ '-' ::
    numeral 10 2 shown.day.toNat)

/-- `validDate` of a text that is there. -/
def validDate (value : List Char) : Prop :=
  match dateHead value with
  | some (date, []) => addDaysISO date 0 = value
  | _ => False

instance : DecidablePred validDate := fun value => by
  unfold validDate
  split
  · exact inferInstanceAs (Decidable (_ = _))
  · exact instDecidableFalse

/-- The instant of a text that begins with a date and a `T`. -/
def Browser.askedInstant (browser : Browser) (value : List Char) : Option ℤ :=
  match dateHead value with
  | some (_, 'T' :: _) => browser.dateParse value
  | _ => none

/-- `validInstant`. -/
def Browser.validInstant (browser : Browser) (value : Option (List Char)) : Option (List Char) :=
  (value.bind browser.askedInstant).map toISOString

example : validDate "2024-02-29".toList ∧ ¬ validDate "2023-02-29".toList ∧
    ¬ validDate "0099-01-01".toList ∧ ¬ validDate "0999-01-01".toList := by decide +kernel

variable {browser : Browser}

theorem dateHead_toISOString {t : ℤ} (h : FourDigits t) :
    ∃ date rest, dateHead (toISOString t) = some (date, 'T' :: rest) := by
  obtain ⟨hmonth, hmonth', hday, hday'⟩ := dateOf_ranges (t / dayMs)
  unfold FourDigits at h
  obtain ⟨rest, hrest⟩ : ∃ rest, toISOString t = numeral 10 4 (dateOf (t / dayMs)).year.toNat ++
      '-' :: (numeral 10 2 (dateOf (t / dayMs)).month.toNat ++ '-' ::
        (numeral 10 2 (dateOf (t / dayMs)).day.toNat ++ 'T' :: rest)) :=
    ⟨_, by rw [toISOString, isoYear, if_pos h]⟩
  refine ⟨⟨(dateOf (t / dayMs)).year.toNat, (dateOf (t / dayMs)).month.toNat,
    (dateOf (t / dayMs)).day.toNat⟩, rest, ?_⟩
  rw [hrest]
  unfold dateHead
  apply bind_of_eq_some (readDigits_numeral (by omega))
  apply bind_of_eq_some rfl
  apply bind_of_eq_some (readDigits_numeral (by omega))
  apply bind_of_eq_some rfl
  apply bind_of_eq_some (readDigits_numeral (by omega))
  rfl

/-- A year with a sign is no date's. -/
theorem dateHead_signed {sign : Char} (h : sign = '+' ∨ sign = '-') (cs : List Char) :
    dateHead (sign :: cs) = none := by
  have hdigits : readDigits 4 (sign :: cs) = none := by
    refine if_neg fun hnum => ?_
    have hsign := hnum.2 sign (List.mem_cons_self ..)
    rcases h with rfl | rfl
    · exact absurd hsign (by decide)
    · exact absurd hsign (by decide)
  rw [dateHead, hdigits]
  rfl

/-- **An instant printed is taken again** exactly when its year has four digits. -/
theorem validInstant_toISOString {t : ℤ} :
    browser.validInstant (some (toISOString t)) = some (toISOString t) ↔ FourDigits t := by
  constructor
  · intro h
    by_contra hyear
    have hsigned : ∃ sign cs, (sign = '+' ∨ sign = '-') ∧ toISOString t = sign :: cs := by
      have hyear : isoYear (dateOf (t / dayMs)).year =
          (if (dateOf (t / dayMs)).year < 0 then '-' else '+') ::
            numeral 10 6 (dateOf (t / dayMs)).year.natAbs := if_neg hyear
      by_cases hneg : (dateOf (t / dayMs)).year < 0
      · rw [if_pos hneg] at hyear
        exact ⟨'-', _, Or.inr rfl, by rw [toISOString, hyear, List.cons_append]⟩
      · rw [if_neg hneg] at hyear
        exact ⟨'+', _, Or.inl rfl, by rw [toISOString, hyear, List.cons_append]⟩
    obtain ⟨sign, cs, hsign, heq⟩ := hsigned
    rw [heq, Browser.validInstant, Option.bind_some, Browser.askedInstant,
      dateHead_signed hsign] at h
    cases h
  · intro h
    obtain ⟨date, rest, hhead⟩ := dateHead_toISOString h
    rw [Browser.validInstant, Option.bind_some, Browser.askedInstant, hhead]
    show (browser.dateParse (toISOString t)).map toISOString = _
    rw [Browser.dateParse, readInstant_toISOString h]
    rfl

end Ziftbook
