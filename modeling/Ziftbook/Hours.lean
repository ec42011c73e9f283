import Mathlib.Data.String.Basic
import Ziftbook.Blocks
import Ziftbook.Foundation.Clipping
import Ziftbook.Foundation.Neighbours
import Ziftbook.Foundation.Numerals

/-!
# Saving a week of hours

`replace_week` and `replace_opening_hours` of `app/schedule.py`. A body's shifts
are texts; what is saved are rows. A member's week must lie inside the opening
hours, when the business has any.
-/

namespace Ziftbook

open Foundation Foundation.Neighbours

/-- `MAX_SHIFTS`. -/
def maxShifts : ℕ := 50

/-! ## § Times of day -/

/-- `datetime.time`, to the minute. -/
structure TimeOfDay where
  minutes : ℤ
  inDay : 0 ≤ minutes ∧ minutes < dayMinutes
deriving DecidableEq

/-- The characters of `HH_MM`: `([01][0-9]|2[0-3]):[0-5][0-9]`. -/
def IsHhmm (h h' colon m m' : Char) : Prop :=
  ((h = '0' ∨ h = '1') ∧ ('0' ≤ h' ∧ h' ≤ '9') ∨ h = '2' ∧ ('0' ≤ h' ∧ h' ≤ '3')) ∧
    colon = ':' ∧ ('0' ≤ m ∧ m ≤ '5') ∧ ('0' ≤ m' ∧ m' ≤ '9')

instance (h h' colon m m' : Char) : Decidable (IsHhmm h h' colon m m') :=
  inferInstanceAs (Decidable (_ ∧ _))

/-- The minute of the day the digits write. -/
def clockMinutes (h h' m m' : Char) : ℕ :=
  60 * numeralValue 10 [h, h'] + numeralValue 10 [m, m']

theorem digitOf_of_decimal {c : Char} (h : '0' ≤ c ∧ c ≤ '9') : digitOf c = c.toNat - 48 := by
  unfold digitOf
  rw [if_pos h]
  rfl

theorem toNat_of_decimal {c d : Char} (h : '0' ≤ c ∧ c ≤ d) : 48 ≤ c.toNat ∧ c.toNat ≤ d.toNat :=
  ⟨h.1, h.2⟩

/-- The digits of a time: two of an hour, two of a minute of it. -/
theorem IsHhmm.digits {h h' colon m m' : Char} (hp : IsHhmm h h' colon m m') :
    (10 * digitOf h + digitOf h' < 24 ∧ 10 * digitOf m + digitOf m' < 60) ∧
      ∀ c ∈ [h, h', m, m'], '0' ≤ c ∧ c ≤ '9' := by
  obtain ⟨hhour, _, hm, hm'⟩ := hp
  have h59 : ('5' : Char) ≤ '9' := by decide
  have h39 : ('3' : Char) ≤ '9' := by decide
  have hm9 : '0' ≤ m ∧ m ≤ '9' := ⟨hm.1, Char.le_trans hm.2 h59⟩
  have hmle := toNat_of_decimal hm
  have hmle' := toNat_of_decimal hm'
  have h5 : ('5' : Char).toNat = 53 := rfl
  have h9 : ('9' : Char).toNat = 57 := rfl
  have hmin : 10 * digitOf m + digitOf m' < 60 := by
    rw [digitOf_of_decimal hm9, digitOf_of_decimal hm']
    omega
  rcases hhour with ⟨hh, hh'⟩ | ⟨rfl, hh'⟩
  · have hle := toNat_of_decimal hh'
    have hhour : 10 * digitOf h + digitOf h' < 24 := by
      rw [digitOf_of_decimal hh']
      rcases hh with rfl | rfl
      · show 10 * 0 + (h'.toNat - 48) < 24
        omega
      · show 10 * 1 + (h'.toNat - 48) < 24
        omega
    have hh9 : '0' ≤ h ∧ h ≤ '9' := by rcases hh with rfl | rfl <;> decide
    refine ⟨⟨hhour, hmin⟩, ?_⟩
    simp only [List.mem_cons, List.not_mem_nil, or_false]
    rintro c (rfl | rfl | rfl | rfl)
    exacts [hh9, hh', hm9, hm']
  · have hle := toNat_of_decimal hh'
    have h3 : ('3' : Char).toNat = 51 := rfl
    have hh9 : '0' ≤ h' ∧ h' ≤ '9' := ⟨hh'.1, Char.le_trans hh'.2 h39⟩
    have hhour : 10 * digitOf '2' + digitOf h' < 24 := by
      rw [digitOf_of_decimal hh9]
      show 10 * 2 + (h'.toNat - 48) < 24
      omega
    refine ⟨⟨hhour, hmin⟩, ?_⟩
    simp only [List.mem_cons, List.not_mem_nil, or_false]
    rintro c (rfl | rfl | rfl | rfl)
    exacts [by decide, hh9, hm9, hm']

theorem numeralValue_pair (c d : Char) : numeralValue 10 [c, d] = 10 * digitOf c + digitOf d := by
  show (0 * 10 + digitOf c) * 10 + digitOf d = _
  ring

theorem IsHhmm.inDay {h h' colon m m' : Char} (hp : IsHhmm h h' colon m m') :
    (0 : ℤ) ≤ clockMinutes h h' m m' ∧ (clockMinutes h h' m m' : ℤ) < dayMinutes := by
  obtain ⟨⟨hhour, hmin⟩, _⟩ := hp.digits
  rw [clockMinutes, numeralValue_pair, numeralValue_pair, dayMinutes]
  omega

/-- A text `HH_MM` matches, as `time.fromisoformat` reads it. -/
def hhmm (s : String) : Option TimeOfDay :=
  match s.toList with
  | [h, h', colon, m, m'] =>
      if hp : IsHhmm h h' colon m m' then some ⟨clockMinutes h h' m m', hp.inDay⟩ else none
  | _ => none

/-- `f"{at:%H:%M}"`. -/
def TimeOfDay.text (t : TimeOfDay) : String :=
  String.ofList (numeral 10 2 (t.minutes / 60).toNat ++ ':' :: numeral 10 2 (t.minutes % 60).toNat)

theorem digitChar_digitOf {c : Char} (h : '0' ≤ c ∧ c ≤ '9') : Nat.digitChar (digitOf c) = c := by
  have hall : ∀ n < 10, Nat.digitChar n = Char.ofNat (48 + n) := by decide
  have hbounds := toNat_of_decimal h
  have h9 : ('9' : Char).toNat = 57 := rfl
  rw [digitOf_of_decimal h, hall _ (by omega), show 48 + (c.toNat - 48) = c.toNat by omega]
  exact Char.ofNat_toNat c

/-- Two decimal digits are the numeral of the number they write. -/
theorem numeral_numeralValue {c d : Char} (hc : '0' ≤ c ∧ c ≤ '9') (hd : '0' ≤ d ∧ d ≤ '9') :
    numeral 10 2 (numeralValue 10 [c, d]) = [c, d] := by
  have hle : ∀ {e : Char}, '0' ≤ e ∧ e ≤ '9' → digitOf e < 10 := by
    intro e he
    have hbounds := toNat_of_decimal he
    have h9 : ('9' : Char).toNat = 57 := rfl
    rw [digitOf_of_decimal he]
    omega
  have hclt := hle hc
  have hdlt := hle hd
  show [Nat.digitChar (numeralValue 10 [c, d] / 10 % 10),
    Nat.digitChar (numeralValue 10 [c, d] % 10)] = [c, d]
  rw [numeralValue_pair, show (10 * digitOf c + digitOf d) / 10 % 10 = digitOf c by omega,
    show (10 * digitOf c + digitOf d) % 10 = digitOf d by omega, digitChar_digitOf hc,
    digitChar_digitOf hd]

/-- **A time has one text.** -/
theorem eq_text_of_hhmm {s : String} {t : TimeOfDay} (h : hhmm s = some t) : s = t.text := by
  unfold hhmm at h
  split at h
  · rename_i h1 h2 colon m1 m2 hlist
    split_ifs at h with hp
    obtain ⟨⟨hhour, hmin⟩, hdigits⟩ := hp.digits
    have hcolon : colon = ':' := hp.2.1
    rw [← numeralValue_pair] at hhour hmin
    rw [← Option.some.inj h, ← String.ofList_toList (s := s), hlist]
    show String.ofList _ = String.ofList (
      numeral 10 2 (((clockMinutes h1 h2 m1 m2 : ℕ) : ℤ) / 60).toNat ++ ':' ::
        numeral 10 2 (((clockMinutes h1 h2 m1 m2 : ℕ) : ℤ) % 60).toNat)
    rw [show (((clockMinutes h1 h2 m1 m2 : ℕ) : ℤ) / 60).toNat = numeralValue 10 [h1, h2] by
        rw [clockMinutes]; omega,
      show (((clockMinutes h1 h2 m1 m2 : ℕ) : ℤ) % 60).toNat = numeralValue 10 [m1, m2] by
        rw [clockMinutes]; omega,
      numeral_numeralValue (hdigits h1 (by simp)) (hdigits h2 (by simp)),
      numeral_numeralValue (hdigits m1 (by simp)) (hdigits m2 (by simp)), hcolon]
    rfl
  · cases h

/-- **Every time printed is read back.** -/
theorem hhmm_text (t : TimeOfDay) : hhmm t.text = some t := by
  have hrange := t.inDay
  rw [dayMinutes] at hrange
  obtain ⟨n, hn⟩ := Int.eq_ofNat_of_zero_le hrange.1
  have hhours : ∀ k < 24, let c := Nat.digitChar (k / 10 % 10)
      let d := Nat.digitChar (k % 10)
      (c = '0' ∨ c = '1') ∧ ('0' ≤ d ∧ d ≤ '9') ∨ c = '2' ∧ ('0' ≤ d ∧ d ≤ '3') := by decide
  have hminutes : ∀ k < 60, let c := Nat.digitChar (k / 10 % 10)
      let d := Nat.digitChar (k % 10)
      ('0' ≤ c ∧ c ≤ '5') ∧ ('0' ≤ d ∧ d ≤ '9') := by decide
  have hp : IsHhmm (Nat.digitChar (n / 60 / 10 % 10)) (Nat.digitChar (n / 60 % 10)) ':'
      (Nat.digitChar (n % 60 / 10 % 10)) (Nat.digitChar (n % 60 % 10)) :=
    ⟨hhours (n / 60) (by omega), rfl, hminutes (n % 60) (by omega)⟩
  have hlist : t.text.toList = [Nat.digitChar (n / 60 / 10 % 10), Nat.digitChar (n / 60 % 10), ':',
      Nat.digitChar (n % 60 / 10 % 10), Nat.digitChar (n % 60 % 10)] := by
    rw [TimeOfDay.text, String.toList_ofList, show (t.minutes / 60).toNat = n / 60 by omega,
      show (t.minutes % 60).toNat = n % 60 by omega]
    rfl
  have hvalue : clockMinutes (Nat.digitChar (n / 60 / 10 % 10)) (Nat.digitChar (n / 60 % 10))
      (Nat.digitChar (n % 60 / 10 % 10)) (Nat.digitChar (n % 60 % 10)) = n := by
    have hdigit : ∀ k < 10, digitOf (Nat.digitChar k) = k := by decide
    rw [clockMinutes, numeralValue_pair, numeralValue_pair, hdigit _ (by omega),
      hdigit _ (by omega), hdigit _ (by omega), hdigit _ (by omega)]
    omega
  unfold hhmm
  rw [hlist]
  show (if hp : IsHhmm _ _ _ _ _ then _ else _) = _
  rw [dif_pos hp]
  obtain ⟨minutes, _⟩ := t
  simp only [Option.some.injEq, TimeOfDay.mk.injEq]
  rw [hvalue]
  exact hn.symm

/-- **Texts of times are ordered as the times.** -/
theorem text_lt_text {t u : TimeOfDay} : t.text < u.text ↔ t.minutes < u.minutes := by
  have ht := t.inDay
  have hu := u.inDay
  rw [dayMinutes] at ht hu
  show t.text.toList < u.text.toList ↔ _
  rw [TimeOfDay.text, TimeOfDay.text, String.toList_ofList, String.toList_ofList,
    numeral_append_lt_iff (by decide) (by decide) (by omega) (by omega)]
  have htail : (':' :: numeral 10 2 (t.minutes % 60).toNat) <
      (':' :: numeral 10 2 (u.minutes % 60).toNat) ↔
      (t.minutes % 60).toNat < (u.minutes % 60).toNat := by
    rw [List.cons_lt_cons_iff, ← List.append_nil (numeral 10 2 (t.minutes % 60).toNat),
      ← List.append_nil (numeral 10 2 (u.minutes % 60).toNat),
      numeral_append_lt_iff (by decide) (by decide) (by omega) (by omega)]
    simp
  rw [htail]
  omega

theorem clockText_inj {t u : TimeOfDay} : t.text = u.text ↔ t.minutes = u.minutes := by
  constructor
  · intro h
    have hlt : ¬ t.text < u.text := by
      rw [h, text_lt_text]
      exact lt_irrefl _
    have hgt : ¬ u.text < t.text := by
      rw [h, text_lt_text]
      exact lt_irrefl _
    rw [text_lt_text] at hlt hgt
    exact le_antisymm (not_lt.mp hgt) (not_lt.mp hlt)
  · intro h
    obtain ⟨m, hm⟩ := t
    obtain ⟨n, hn⟩ := u
    subst h
    rfl

/-! ## § The rows of a body -/

/-- A body's shift. -/
structure Shift where
  weekday : ℤ
  startsAt : String
  endsAt : String
deriving DecidableEq

/-- `(weekday, start, end)`, as parsed. -/
structure Parsed where
  weekday : ℤ
  startsAt : TimeOfDay
  endsAt : TimeOfDay
  iso : 1 ≤ weekday ∧ weekday ≤ 7
deriving DecidableEq

/-- The shift's interval of the day, in minutes. -/
def Parsed.span (r : Parsed) : ℤ × ℤ := (r.startsAt.minutes, r.endsAt.minutes)

/-- What pydantic admits, parsed. -/
def Shift.parse (s : Shift) : Option Parsed :=
  if hiso : 1 ≤ s.weekday ∧ s.weekday ≤ 7 then
    (hhmm s.startsAt).bind fun start =>
      (hhmm s.endsAt).map fun stop => ⟨s.weekday, start, stop, hiso⟩
  else none

/-- A body of at most `MAX_SHIFTS`, each shift admitted. -/
def parseWeek (shifts : List Shift) : Option (List Parsed) :=
  if shifts.length ≤ maxShifts then shifts.mapM Shift.parse else none

/-- Python's order on the parsed rows. -/
def parsedLE (r s : Parsed) : Prop :=
  toLex (r.weekday, toLex r.span) ≤ toLex (s.weekday, toLex s.span)

instance : DecidableRel parsedLE := fun _ _ => inferInstanceAs (Decidable (_ ≤ _))

instance : Std.Total parsedLE := ⟨fun _ _ => le_total _ _⟩

instance : IsTrans Parsed parsedLE := ⟨fun _ _ _ => le_trans⟩

/-- Whether the shift of one row begins before a row of the same day ends. -/
def overlapsNext (r s : Parsed) : Bool :=
  r.weekday = s.weekday ∧ s.startsAt.minutes < r.endsAt.minutes

/-- Whether two shifts on one day overlap. Touching isn't overlapping. -/
def overlapping (rows : List Parsed) : Bool :=
  anyNeighbours overlapsNext (rows.insertionSort parsedLE)

/-- Whether a shift fits entirely inside one of a weekday's joined opening shifts. -/
def within (shift : ℤ × ℤ) (envelope : List (ℤ × ℤ)) : Prop :=
  ∃ opening ∈ envelope, opening.1 ≤ shift.1 ∧ shift.2 ≤ opening.2

instance (shift : ℤ × ℤ) (envelope : List (ℤ × ℤ)) : Decidable (within shift envelope) :=
  inferInstanceAs (Decidable (∃ opening ∈ envelope, _))

/-- The row stored, when its shift ends after it starts. -/
def Parsed.row (r : Parsed) (h : r.startsAt.minutes < r.endsAt.minutes) : Row where
  weekday := r.weekday
  startsAt := r.startsAt.minutes
  endsAt := r.endsAt.minutes
  iso := r.iso
  ordered := h
  inDay := ⟨r.startsAt.inDay.1, r.endsAt.inDay.2⟩

/-- `to_shifts`. -/
def Row.shift (r : Row) : Shift where
  weekday := r.weekday
  startsAt := TimeOfDay.text ⟨r.startsAt, r.inDay.1, by have := r.ordered; have := r.inDay; omega⟩
  endsAt := TimeOfDay.text ⟨r.endsAt, by have := r.ordered; have := r.inDay; omega, r.inDay.2⟩

/-- `ORDER BY weekday, starts_at`. -/
def startLE (r s : Row) : Prop := toLex (r.weekday, r.startsAt) ≤ toLex (s.weekday, s.startsAt)

instance : DecidableRel startLE := fun _ _ => inferInstanceAs (Decidable (_ ≤ _))

/-- A week as a read answers it. -/
def readShifts (rows : List Row) : List Shift := (rows.insertionSort startLE).map Row.shift

/-! ## § The two saves -/

/-- What a save leaves: the tables, whether the week changed, and the answer. -/
structure SavedWeek where
  db : Db
  changed : Bool
  week : List Shift

/-- The checks both saves make of the rows; those that pass are stored. -/
def checkedRows (rows : List Parsed) : Except ApiError (List Row) :=
  if hends : ∀ r ∈ rows, r.startsAt.minutes < r.endsAt.minutes then
    if overlapping rows then .error ⟨422, .overlappingHours⟩
    else .ok (rows.pmap Parsed.row hends)
  else .error ⟨422, .endNotAfterStart⟩

/-- A member's rows of `working_hours`. -/
def Db.weekOf (db : Db) (memberId : ℕ) : List Row :=
  (db.workingHours.filter fun w => w.memberId = memberId).map WorkingHour.row

/-- The weekday of the first row outside the opening hours. -/
def outside (rows : List Parsed) (envelope : List (ℤ × List (ℤ × ℤ))) : Option ℤ :=
  (rows.find? fun r => ¬ within r.span ((envelope.lookup r.weekday).getD [])).map Parsed.weekday

/-- The member's rows deleted and the new ones inserted. -/
def Db.saveWeek (db : Db) (memberId : ℕ) (stored : List Row) : SavedWeek :=
  let saved := { db with
    workingHours := db.workingHours.filter (fun w => w.memberId ≠ memberId) ++
      stored.map fun row => ⟨memberId, row⟩ }
  ⟨saved, (db.weekOf memberId).insertionSort rowLE ≠ stored, readShifts (saved.weekOf memberId)⟩

def Db.saveOpeningHours (db : Db) (stored : List Row) : SavedWeek :=
  ⟨{ db with openingHours := stored }, db.openingHours.insertionSort rowLE ≠ stored,
    readShifts stored⟩

/-- `replace_week`; `editOwn` is the setting `workers_edit_own_hours`. The table's own
overlap rule repeats the check made before. -/
def replaceWeek (db : Db) (current : Session) (editOwn : Bool) (memberId : ℕ)
    (shifts : List Shift) : Except ApiError SavedWeek := do
  let parsed ← found (parseWeek shifts) ⟨422, .invalidRequest⟩
  let user ← found (db.memberUser memberId) ⟨404, .notFound⟩
  require (current.owner = true ∨ (user = current.userId ∧ editOwn = true)) ⟨403, .ownerOnly⟩
  let rows := parsed.insertionSort parsedLE
  let stored ← checkedRows rows
  let openDays := byWeekday db.openingHours
  if openDays ≠ [] then
    match outside rows openDays with
    | some weekday => .error ⟨422, .outsideOpeningHours weekday⟩
    | none => .ok ()
  .ok (db.saveWeek memberId stored)

/-- `replace_opening_hours`, of an owner. -/
def replaceOpeningHours (db : Db) (current : Session) (shifts : List Shift) :
    Except ApiError SavedWeek := do
  require (current.owner = true) ⟨403, .ownerOnly⟩
  let parsed ← found (parseWeek shifts) ⟨422, .invalidRequest⟩
  let rows := parsed.insertionSort parsedLE
  require (rows ≠ []) ⟨422, .openingHoursRequired⟩
  let stored ← checkedRows rows
  .ok (db.saveOpeningHours stored)

/-! ## § What a save is refused for -/

/-- The rows are of different days, or one has ended when the other begins. -/
def Parsed.Apart (r s : Parsed) : Prop :=
  r.weekday = s.weekday →
    r.endsAt.minutes ≤ s.startsAt.minutes ∨ s.endsAt.minutes ≤ r.startsAt.minutes

theorem Parsed.Apart.symm {r s : Parsed} (h : r.Apart s) : s.Apart r := fun hday =>
  (h hday.symm).symm

theorem parsedLE_day {r s : Parsed} (h : parsedLE r s) : r.weekday ≤ s.weekday :=
  (Prod.Lex.toLex_le_toLex'.mp h).1

theorem parsedLE_start {r s : Parsed} (h : parsedLE r s) (hday : r.weekday = s.weekday) :
    r.startsAt.minutes ≤ s.startsAt.minutes :=
  (Prod.Lex.toLex_le_toLex'.mp ((Prod.Lex.toLex_le_toLex'.mp h).2 hday)).1

/-- **Neighbours of the sorted rows decide whether any two rows overlap.** -/
theorem overlapping_eq_false {rows : List Parsed}
    (hends : ∀ r ∈ rows, r.startsAt.minutes < r.endsAt.minutes) :
    overlapping rows = false ↔ rows.Pairwise Parsed.Apart := by
  refine anyNeighbours_sorted (fun _ _ => Parsed.Apart.symm) ?_ ?_
  · intro r hr s hs hle
    have hrends := hends r hr
    have hsends := hends s hs
    have hstart := parsedLE_start hle
    simp only [overlapsNext, decide_eq_false_iff_not, Parsed.Apart]
    constructor
    · intro hfree hday
      left
      by_contra hlate
      exact hfree ⟨hday, not_le.mp hlate⟩
    · rintro hapart ⟨hday, hlt⟩
      have hle := hstart hday
      rcases hapart hday with h | h <;> omega
  · intro r hr s hs t ht hrs hst hR hS hday
    have hsends := hends s hs
    have htends := hends t ht
    have hrends := hends r hr
    have hmid : r.weekday = s.weekday :=
      le_antisymm (parsedLE_day hrs) (hday ▸ parsedLE_day hst)
    have hstart := parsedLE_start hrs hmid
    have hstart' := parsedLE_start hst (hmid ▸ hday)
    rcases hR hmid with h | h
    · rcases hS (hmid ▸ hday) with h' | h'
      · exact Or.inl (by omega)
      · exact Or.inl (by omega)
    · omega

theorem checkedRows_eq_ok {rows : List Parsed} {stored : List Row} :
    checkedRows rows = .ok stored ↔
      ∃ hends : ∀ r ∈ rows, r.startsAt.minutes < r.endsAt.minutes,
        rows.Pairwise Parsed.Apart ∧ stored = rows.pmap Parsed.row hends := by
  unfold checkedRows
  split_ifs with hends hover
  · constructor
    · intro h
      cases h
    · rintro ⟨_, hapart, _⟩
      rw [(overlapping_eq_false hends).mpr hapart] at hover
      cases hover
  · have hfree := (overlapping_eq_false hends).mp (Bool.eq_false_iff.mpr hover)
    constructor
    · intro h
      cases h
      exact ⟨hends, hfree, rfl⟩
    · rintro ⟨_, _, rfl⟩
      rfl
  · constructor
    · intro h
      cases h
    · rintro ⟨hall, _⟩
      exact absurd hall hends

/-- What a save stores satisfies the table's overlap rule. -/
theorem nonOverlapping_of_checkedRows {rows : List Parsed} {stored : List Row}
    (h : checkedRows rows = .ok stored) : NonOverlapping stored := by
  obtain ⟨hends, hapart, rfl⟩ := checkedRows_eq_ok.mp h
  refine List.Pairwise.pmap hapart hends ?_
  intro r _ s _ hrs
  exact hrs

theorem outside_eq_none {rows : List Parsed} {envelope : List (ℤ × List (ℤ × ℤ))} :
    outside rows envelope = none ↔
      ∀ r ∈ rows, within r.span ((envelope.lookup r.weekday).getD []) := by
  rw [outside, Option.map_eq_none_iff, List.find?_eq_none]
  simp

/-- What every save asks of a body's rows. -/
structure Sound (rows : List Parsed) : Prop where
  ends : ∀ r ∈ rows, r.startsAt.minutes < r.endsAt.minutes
  apart : rows.Pairwise Parsed.Apart

theorem checkedRows_sorted {rows : List Parsed} :
    (∃ stored, checkedRows (rows.insertionSort parsedLE) = .ok stored) ↔ Sound rows := by
  have hperm := List.perm_insertionSort parsedLE rows
  constructor
  · rintro ⟨stored, h⟩
    obtain ⟨hends, hapart, _⟩ := checkedRows_eq_ok.mp h
    exact ⟨fun r hr => hends r (hperm.mem_iff.mpr hr),
      (hperm.pairwise_iff Parsed.Apart.symm).mp hapart⟩
  · rintro ⟨hends, hapart⟩
    exact ⟨_, checkedRows_eq_ok.mpr ⟨fun r hr => hends r (hperm.mem_iff.mp hr),
      (hperm.pairwise_iff Parsed.Apart.symm).mpr hapart, rfl⟩⟩

/-- **A member's week is saved** by one who may change it exactly when its rows are sound
and lie inside the opening hours, if there are any. -/
theorem replaceWeek_accepts {db : Db} {current : Session} {editOwn : Bool} {memberId user : ℕ}
    {shifts : List Shift} (huser : db.memberUser memberId = some user)
    (hallowed : current.owner = true ∨ (user = current.userId ∧ editOwn = true)) :
    (∃ saved, replaceWeek db current editOwn memberId shifts = .ok saved) ↔
      ∃ rows, parseWeek shifts = some rows ∧ Sound rows ∧ (db.openingHours ≠ [] →
        ∀ r ∈ rows, within r.span (dayShifts db.openingHours r.weekday)) := by
  have hmem : ∀ {rows : List Parsed} {r}, r ∈ rows.insertionSort parsedLE ↔ r ∈ rows :=
    List.mem_insertionSort parsedLE
  constructor
  · rintro ⟨saved, h⟩
    simp only [replaceWeek, found_bind_eq_ok, require_bind_eq_ok] at h
    obtain ⟨rows, hparse, _, _, _, h⟩ := h
    obtain ⟨stored, hstored, h⟩ := bind_eq_ok.mp h
    refine ⟨rows, hparse, checkedRows_sorted.mp ⟨stored, hstored⟩, ?_⟩
    intro hopen r hr
    rw [if_pos (byWeekday_eq_nil.not.mpr hopen)] at h
    cases hout : outside (rows.insertionSort parsedLE) (byWeekday db.openingHours) with
    | some weekday => rw [hout] at h; cases h
    | none =>
        have hin := outside_eq_none.mp hout r (hmem.mpr hr)
        rwa [lookup_byWeekday] at hin
  · rintro ⟨rows, hparse, hsound, hin⟩
    obtain ⟨stored, hstored⟩ := checkedRows_sorted.mpr hsound
    refine ⟨db.saveWeek memberId stored, ?_⟩
    simp only [replaceWeek, found_bind_eq_ok, require_bind_eq_ok]
    refine ⟨rows, hparse, user, huser, hallowed, bind_eq_ok.mpr ⟨stored, hstored, ?_⟩⟩
    split_ifs with hopen
    · have hout : outside (rows.insertionSort parsedLE) (byWeekday db.openingHours) = none := by
        refine outside_eq_none.mpr fun r hr => ?_
        rw [lookup_byWeekday]
        exact hin (byWeekday_eq_nil.not.mp hopen) r (hmem.mp hr)
      rw [hout]
      rfl
    · rfl

/-- **The opening week is saved** exactly when its rows are sound and there are any. -/
theorem replaceOpeningHours_accepts {db : Db} {current : Session} {shifts : List Shift}
    (howner : current.owner = true) :
    (∃ saved, replaceOpeningHours db current shifts = .ok saved) ↔
      ∃ rows, parseWeek shifts = some rows ∧ Sound rows ∧ rows ≠ [] := by
  have hnil : ∀ rows : List Parsed, rows.insertionSort parsedLE ≠ [] ↔ rows ≠ [] := by
    intro rows
    rw [← List.length_pos_iff, ← List.length_pos_iff, List.length_insertionSort]
  constructor
  · rintro ⟨saved, h⟩
    simp only [replaceOpeningHours, found_bind_eq_ok, require_bind_eq_ok] at h
    obtain ⟨_, rows, hparse, hany, h⟩ := h
    obtain ⟨stored, hstored, _⟩ := bind_eq_ok.mp h
    exact ⟨rows, hparse, checkedRows_sorted.mp ⟨stored, hstored⟩, (hnil rows).mp hany⟩
  · rintro ⟨rows, hparse, hsound, hany⟩
    obtain ⟨stored, hstored⟩ := checkedRows_sorted.mpr hsound
    refine ⟨db.saveOpeningHours stored, ?_⟩
    simp only [replaceOpeningHours, found_bind_eq_ok, require_bind_eq_ok]
    exact ⟨howner, rows, hparse, (hnil rows).mpr hany, bind_eq_ok.mpr ⟨stored, hstored, rfl⟩⟩

end Ziftbook
