import Mathlib.Data.List.DropRight
import Ziftbook.Console.Dates
import Ziftbook.Hours
import Ziftbook.LocalTime

/-!
# The form of a block of time off

The form of `time-off-section.tsx` and the functions of `lib/time-off.ts` it calls. A block is
shown in the form's fields; of the fields changed there a body is made, which the server merges
into the block. A date field holds a date or nothing, a time field a time of day or nothing.
-/

namespace Ziftbook

open Foundation

/-! ## § The form -/

/-- `WhiteSpace` and `LineTerminator` of ECMAScript. -/
def isJsBlank (c : Char) : Bool :=
  let n := c.toNat
  decide ((9 ≤ n ∧ n ≤ 13) ∨ (0x2000 ≤ n ∧ n ≤ 0x200a) ∨
    n ∈ [0x20, 0xa0, 0x1680, 0x2028, 0x2029, 0x202f, 0x205f, 0x3000, 0xfeff])

/-- `trim`. -/
def jsTrim (s : String) : String :=
  String.ofList ((s.toList.dropWhile isJsBlank).rdropWhile isJsBlank)

/-- `BlockForm`, without the zone: it is the business's. -/
structure BlockForm where
  allDay : Bool
  firstDay : Option ℤ
  lastDay : Option ℤ
  startTime : Option TimeOfDay
  endTime : Option TimeOfDay
  reason : String
deriving DecidableEq

namespace Zone

/-- What the clock shows at an instant, in the browser's milliseconds. -/
def shownMs (tz : Zone) (t : ℤ) : ℤ := t / 1000 + tz.offsetMs (t / 1000)

/-- The date it shows. -/
def shownDay (tz : Zone) (t : ℤ) : ℤ := tz.shownMs t / dayMs

theorem shownTime_inDay (tz : Zone) (t : ℤ) : 0 ≤ tz.shownMs t % dayMs / 60000 ∧
    tz.shownMs t % dayMs / 60000 < dayMinutes := by
  simp only [dayMs, dayMinutes]
  omega

/-- The time of day it shows. -/
def shownTime (tz : Zone) (t : ℤ) : TimeOfDay :=
  ⟨tz.shownMs t % dayMs / 60000, shownTime_inDay tz t⟩

end Zone

/-- "09:00", what a whole day's form has for the start of a part of one. -/
def formStart : TimeOfDay := ⟨9 * 60, by decide⟩

/-- "17:00". -/
def formEnd : TimeOfDay := ⟨17 * 60, by decide⟩

/-- `fromBlock`. -/
def fromBlock (tz : Zone) (row : TimeOff) : BlockForm :=
  match row.block with
  | .days first last _ _ =>
      ⟨true, some first, some last, some formStart, some formEnd, row.reason.getD ""⟩
  | .instants s e _ _ =>
      ⟨false, some (tz.shownDay s), some (tz.shownDay s), some (tz.shownTime s),
        some (tz.shownTime e), row.reason.getD ""⟩

/-- The form as it is submitted: a part of a day has one date. -/
def BlockForm.submitted (form : BlockForm) : BlockForm :=
  { form with lastDay := if form.allDay then form.lastDay else form.firstDay }

/-! ## § What is sent -/

inductive BlockProblem
  | missingFirstDay | missingLastDay | missingStart | missingEnd | lastDayBeforeFirst
  | endNotAfterStart
deriving DecidableEq, Repr

/-- Neither the date nor a time of a part of a day was touched. -/
def BlockForm.untouched (form initial : BlockForm) : Prop :=
  initial.allDay = false ∧ form.firstDay = initial.firstDay ∧
    form.startTime = initial.startTime ∧ form.endTime = initial.endTime

instance (form initial : BlockForm) : Decidable (form.untouched initial) :=
  inferInstanceAs (Decidable (_ ∧ _))

/-- `clientProblem`. -/
def clientProblem (form : BlockForm) (initial : Option BlockForm) : Option BlockProblem :=
  match form.firstDay with
  | none => some .missingFirstDay
  | some first =>
      if form.allDay then
        match form.lastDay with
        | none => some .missingLastDay
        -- the texts of dates with years of four digits are in the order of the days
        | some last => if last < first then some .lastDayBeforeFirst else none
      else
        match form.startTime, form.endTime with
        | none, _ => some .missingStart
        | some _, none => some .missingEnd
        | some start, some stop =>
            if ∃ i ∈ initial, form.untouched i then none
            else if stop.minutes ≤ start.minutes then some .endNotAfterStart
            else none

/-- `localToInstant` of two fields, as the server reads it. An empty field has no instant. -/
def fieldInstant (tz : Zone) (fuel : ℕ) (day : Option ℤ) (time : Option TimeOfDay) : Option ℤ := do
  let date := dateOf (← day)
  let time ← time
  let ms ← localToInstant tz fuel date.year date.month date.day (time.minutes / 60)
    (time.minutes % 60)
  return 1000 * ms

/-- `requestBody`'s times. -/
def requestBody (tz : Zone) (fuel : ℕ) (form : BlockForm) : Option Pair := do
  if form.allDay then
    return .days (← form.firstDay) (← form.lastDay)
  else
    return .instants (← fieldInstant tz fuel form.firstDay form.startTime)
      (← fieldInstant tz fuel form.firstDay form.endTime)

/-- `requestBody`'s reason: a blank one is left out. -/
def requestReason (form : BlockForm) : Option String :=
  if jsTrim form.reason = "" then none else some (jsTrim form.reason)

/-- `patchBody`'s reason: a blank one clears the row's. -/
def patchReason (initial current : BlockForm) : Option (Option String) :=
  if jsTrim current.reason ≠ jsTrim initial.reason then some (requestReason current) else none

/-- A field that is sent only if it changed. -/
def sentIf (changed : Prop) [Decidable changed] (value : Option ℤ) : Option (Option ℤ) :=
  if changed then value.map some else some none

/-- `patchBody`'s days and times, as the server reads them. -/
def patchTimes (tz : Zone) (fuel : ℕ) (initial current : BlockForm) : Option TimeOffChange := do
  if current.allDay ≠ initial.allDay then
    -- another kind: the complete new pair
    if current.allDay then
      return ⟨none, none, some (← current.firstDay), some (← current.lastDay), none⟩
    else
      return ⟨some (← fieldInstant tz fuel current.firstDay current.startTime),
        some (← fieldInstant tz fuel current.firstDay current.endTime), none, none, none⟩
  else if current.allDay then
    return ⟨none, none, ← sentIf (current.firstDay ≠ initial.firstDay) current.firstDay,
      ← sentIf (current.lastDay ≠ initial.lastDay) current.lastDay, none⟩
  else
    let dateChanged := current.firstDay ≠ initial.firstDay
    return ⟨← sentIf (dateChanged ∨ current.startTime ≠ initial.startTime)
        (fieldInstant tz fuel current.firstDay current.startTime),
      ← sentIf (dateChanged ∨ current.endTime ≠ initial.endTime)
        (fieldInstant tz fuel current.firstDay current.endTime), none, none, none⟩

/-- `patchBody`. -/
def patchBody (tz : Zone) (fuel : ℕ) (initial current : BlockForm) : Option TimeOffChange :=
  (patchTimes tz fuel initial current).map fun change =>
    { change with reason := patchReason initial current }

/-! ## § Trimmed texts -/

/-- What is left of a text whose blanks were dropped at the front has none there. -/
theorem dropWhile_rdropWhile {α : Type} {p : α → Bool} (l : List α) :
    ((l.dropWhile p).rdropWhile p).dropWhile p = (l.dropWhile p).rdropWhile p := by
  have hfront : ∀ hl : 0 < (l.dropWhile p).length, ¬ p ((l.dropWhile p).get ⟨0, hl⟩) :=
    List.dropWhile_eq_self_iff.mp (List.dropWhile_idempotent p l)
  refine List.dropWhile_eq_self_iff.mpr fun hl => ?_
  have hprefix : (l.dropWhile p).rdropWhile p <+: l.dropWhile p := List.rdropWhile_prefix p _
  have hhead := hfront (hl.trans_le hprefix.length_le)
  rwa [List.get_eq_getElem, ← hprefix.getElem hl] at hhead

theorem jsTrim_jsTrim (s : String) : jsTrim (jsTrim s) = jsTrim s := by
  simp only [jsTrim, String.toList_ofList]
  rw [dropWhile_rdropWhile, List.rdropWhile_idempotent]

/-! ## § What is read back -/

theorem daysFromCivil_dateOf (n : ℤ) :
    daysFromCivil (dateOf n).year (dateOf n).month (dateOf n).day = n := by
  conv_rhs => rw [← dayOf_dateOf n]
  simp only [daysFromCivil, dayOf, eraDays]
  split_ifs <;> omega

/-- The reading of a date and a time of day. -/
def readingOf (day : ℤ) (time : TimeOfDay) : ℤ := dayMinutes * day + time.minutes

/-- **The fields' instant is the server's.** The browser's walk over a gap ends. -/
theorem fieldInstant_eq {tz : Zone} (hcivil : tz.Civil) {day : ℤ}
    (hyear : 100 ≤ (dateOf day).year) (time : TimeOfDay) :
    ∃ n, ∀ fuel, n ≤ fuel →
      fieldInstant tz fuel (some day) (some time) = some (toUtc tz day time.minutes) := by
  obtain ⟨o, t, o', h⟩ :=
    @exists_around tz.changes tz.base (readingOf day time) hcivil.base hcivil.bounded hcivil.apart
  refine ⟨(t + o' - readingOf day time).toNat + 1, fun fuel hfuel => ?_⟩
  have hlocal : dateUTC (dateOf day).year ((dateOf day).month - 1) (dateOf day).day
      (time.minutes / 60) (time.minutes % 60) = 60000 * readingOf day time := by
    rw [dateUTC, sub_add_cancel, if_neg (by omega), daysFromCivil_dateOf, Int.mul_ediv_add_emod,
      readingOf]
    ring
  have hfound : localToInstant tz fuel (dateOf day).year (dateOf day).month (dateOf day).day
      (time.minutes / 60) (time.minutes % 60) =
        some (60000 * ReadingAround.found (readingOf day time) o t o') := by
    rw [localToInstant, hlocal]
    exact h.localMs_eq hfuel
  have hutc : 1000 * (60000 * ReadingAround.found (readingOf day time) o t o') =
      toUtc tz day time.minutes := by
    rw [← h.minuteOf_eq, toUtc, minute, readingOf]
    ring
  simp only [fieldInstant, Option.bind_eq_bind, Option.bind_some, hfound, Option.pure_def, hutc]

/-- An instant found for a reading is shown as the first one from it on that the clock
shows. -/
theorem shownMs_toUtc (tz : Zone) (day at_ : ℤ) :
    tz.shownMs (toUtc tz day at_) = 60000 * tz.settle (dayMinutes * day + at_) := by
  obtain ⟨-, hshown, -⟩ := tz.settle_spec (dayMinutes * day + at_)
  have hms : toUtc tz day at_ / 1000 = 60000 * tz.minuteOf (dayMinutes * day + at_) := by
    rw [toUtc, minute]
    omega
  rw [Zone.shownMs, hms, Zone.offsetMs, Int.mul_ediv_cancel_left _ (by decide), ← hshown,
    Zone.reading, Zone.minuteOf]
  ring

theorem shownDay_toUtc (tz : Zone) (day at_ : ℤ) :
    tz.shownDay (toUtc tz day at_) = tz.settle (dayMinutes * day + at_) / dayMinutes := by
  rw [Zone.shownDay, shownMs_toUtc, dayMs, dayMinutes]
  omega

theorem shownTime_toUtc (tz : Zone) (day at_ : ℤ) : (tz.shownTime (toUtc tz day at_)).minutes =
    tz.settle (dayMinutes * day + at_) % dayMinutes := by
  show tz.shownMs (toUtc tz day at_) % dayMs / 60000 = _
  rw [shownMs_toUtc, dayMs, dayMinutes]
  omega

/-- A form shows what was typed in another; for a reading that the clock skips, the first after
it. The end of a part of a day has no date of its own. -/
structure BlockForm.Shows (tz : Zone) (shown typed : BlockForm) : Prop where
  allDay : shown.allDay = typed.allDay
  days : typed.allDay = true → shown.firstDay = typed.firstDay ∧ shown.lastDay = typed.lastDay
  start : typed.allDay = false → ∃ first ∈ typed.firstDay, ∃ start ∈ typed.startTime,
    ∃ first' ∈ shown.firstDay, ∃ start' ∈ shown.startTime, first' = first ∧ start' = start ∨
      readingOf first' start' = tz.settle (readingOf first start)
  stop : typed.allDay = false → ∃ first ∈ typed.firstDay, ∃ stop ∈ typed.endTime,
    ∃ stop' ∈ shown.endTime, stop' = stop ∨
      stop'.minutes = tz.settle (readingOf first stop) % dayMinutes
  reason : jsTrim shown.reason = jsTrim typed.reason

section

variable {tz : Zone} {fuel : ℕ} {row : TimeOff} {typed : BlockForm} {block : Block}
  {first last : ℤ} {start stop : TimeOfDay} {s e : ℤ}

theorem fromBlock_reason : (fromBlock tz row).reason = row.reason.getD "" := by
  unfold fromBlock
  split <;> rfl

theorem jsTrim_requestReason : jsTrim ((requestReason typed).getD "") = jsTrim typed.reason := by
  unfold requestReason
  split_ifs with hblank
  · rw [Option.getD_none, ← hblank, jsTrim_jsTrim]
  · rw [Option.getD_some, jsTrim_jsTrim]

/-- The reason an update leaves is the one typed, but for blanks around it. -/
theorem reason_saved : jsTrim (((patchReason (fromBlock tz row).submitted typed.submitted).getD
    row.reason).getD "") = jsTrim typed.reason := by
  have hinitial : (fromBlock tz row).submitted.reason = row.reason.getD "" := fromBlock_reason
  have htyped : typed.submitted.reason = typed.reason := rfl
  have hrequest : requestReason typed.submitted = requestReason typed := rfl
  rw [patchReason, hinitial, htyped, hrequest]
  split_ifs with hchanged
  · rw [Option.getD_some, jsTrim_requestReason]
  · exact (not_not.mp hchanged).symm

theorem shows_days {hordered : first ≤ last} {hlength : last - first < 366}
    (hrow : row.block = .days first last hordered hlength) (hday : typed.allDay = true)
    (hfirst : typed.firstDay = some first) (hlast : typed.lastDay = some last)
    (hreason : jsTrim (row.reason.getD "") = jsTrim typed.reason) :
    (fromBlock tz row).Shows tz typed := by
  have hform : fromBlock tz row = ⟨true, some first, some last, some formStart, some formEnd,
      row.reason.getD ""⟩ := by
    rw [fromBlock, hrow]
  rw [hform]
  exact ⟨hday.symm, fun _ => ⟨hfirst.symm, hlast.symm⟩, fun h => (by rw [hday] at h; cases h),
    fun h => (by rw [hday] at h; cases h), hreason⟩

theorem shows_instants {hordered : s < e} {hlength : e - s ≤ 366 * (dayMinutes * minute)}
    (hrow : row.block = .instants s e hordered hlength) (hpart : typed.allDay = false)
    (hfirst : typed.firstDay = some first) (hstart : typed.startTime = some start)
    (hstop : typed.endTime = some stop)
    (hs : s = toUtc tz first start.minutes ∨ tz.shownDay s = first ∧ tz.shownTime s = start)
    (he : e = toUtc tz first stop.minutes ∨ tz.shownTime e = stop)
    (hreason : jsTrim (row.reason.getD "") = jsTrim typed.reason) :
    (fromBlock tz row).Shows tz typed := by
  have hform : fromBlock tz row = ⟨false, some (tz.shownDay s), some (tz.shownDay s),
      some (tz.shownTime s), some (tz.shownTime e), row.reason.getD ""⟩ := by
    rw [fromBlock, hrow]
  rw [hform]
  refine ⟨hpart.symm, fun h => (by rw [hpart] at h; cases h),
    fun _ => ⟨first, hfirst, start, hstart, _, rfl, _, rfl, ?_⟩,
    fun _ => ⟨first, hfirst, stop, hstop, _, rfl, ?_⟩, hreason⟩
  · rcases hs with rfl | hs
    · refine .inr ?_
      rw [readingOf, shownDay_toUtc, shownTime_toUtc, Int.mul_ediv_add_emod]
      rfl
    · exact .inl hs
  · rcases he with rfl | he
    · exact .inr (shownTime_toUtc tz first stop.minutes)
    · exact .inl he

/-! ## § What the server makes of the body -/

theorem checkedDays_eq_ok (h : checkedDays first last = .ok block) :
    ∃ hordered hlength, block = .days first last hordered hlength := by
  unfold checkedDays at h
  split_ifs at h with hordered hlength
  cases h
  exact ⟨hordered, hlength, rfl⟩

theorem checkedInstants_eq_ok (h : checkedInstants s e = .ok block) :
    ∃ hordered hlength, block = .instants s e hordered hlength := by
  unfold checkedInstants at h
  split_ifs at h with hordered hlength
  cases h
  exact ⟨hordered, hlength, rfl⟩

theorem block_withReason {change : TimeOffChange} {reason : Option (Option String)} {old : Block} :
    { change with reason := reason }.block old = change.block old := rfl

theorem sentIf_some {changed : Prop} [Decidable changed] {value : ℤ} :
    ∃ x, sentIf changed (some value) = some x ∧ (x = none ∧ ¬ changed ∨ x = some value) := by
  unfold sentIf
  split_ifs with h
  · exact ⟨_, rfl, .inr rfl⟩
  · exact ⟨_, rfl, .inl ⟨rfl, h⟩⟩

theorem sentIf_of_not {changed : Prop} [Decidable changed] {value : Option ℤ} (h : ¬ changed) :
    sentIf changed value = some none := if_neg h

/-- Whole days asked for are the block's, whichever of them were sent. -/
theorem patched_days (hday : typed.allDay = true) (hfirst : typed.firstDay = some first)
    (hlast : typed.lastDay = some last) :
    ∃ change, patchTimes tz fuel (fromBlock tz row).submitted typed.submitted = some change ∧
      ∀ block, change.block row.block = .ok block →
        ∃ hordered hlength, block = .days first last hordered hlength := by
  obtain ⟨id, memberId, old, reason, source⟩ := row
  obtain ⟨_, _, _, _, _, _⟩ := typed
  cases hday
  cases hfirst
  cases hlast
  cases old with
  | instants s e hordered hlength =>
      exact ⟨_, rfl, fun block hblock => checkedDays_eq_ok hblock⟩
  | days f l hordered hlength =>
      obtain ⟨x, hx, hfirst⟩ := @sentIf_some (some first ≠ some f) _ first
      obtain ⟨y, hy, hlast⟩ := @sentIf_some (some last ≠ some l) _ last
      refine ⟨⟨none, none, x, y, none⟩, ?_, fun block hblock => ?_⟩
      · show ((sentIf (some first ≠ some f) (some first)).bind fun first =>
          (sentIf (some last ≠ some l) (some last)).bind fun last =>
            some (⟨none, none, first, last, none⟩ : TimeOffChange)) = _
        rw [hx, hy]
        rfl
      · rcases hfirst with ⟨rfl, hfirst⟩ | rfl
        · cases not_not.mp hfirst
          rcases hlast with ⟨rfl, hlast⟩ | rfl
          · cases not_not.mp hlast
            cases hblock
            exact ⟨hordered, hlength, rfl⟩
          · exact checkedDays_eq_ok hblock
        · rcases hlast with ⟨rfl, hlast⟩ | rfl
          · cases not_not.mp hlast
            exact checkedDays_eq_ok hblock
          · exact checkedDays_eq_ok hblock

/-- Of a part of a day, a time that was sent is the block's; one that was not is shown there as
it was typed. -/
theorem patched_instants (hpart : typed.allDay = false) (hfirst : typed.firstDay = some first)
    (hstart : typed.startTime = some start) (hstop : typed.endTime = some stop)
    (hs : fieldInstant tz fuel (some first) (some start) = some s)
    (he : fieldInstant tz fuel (some first) (some stop) = some e) :
    ∃ change, patchTimes tz fuel (fromBlock tz row).submitted typed.submitted = some change ∧
      ∀ block, change.block row.block = .ok block → ∃ s' e' hordered hlength,
        block = .instants s' e' hordered hlength ∧
          (s' = s ∨ tz.shownDay s' = first ∧ tz.shownTime s' = start) ∧
          (e' = e ∨ tz.shownTime e' = stop) := by
  obtain ⟨id, memberId, old, reason, source⟩ := row
  obtain ⟨_, _, _, _, _, _⟩ := typed
  cases hpart
  cases hfirst
  cases hstart
  cases hstop
  cases old with
  | days f l hordered hlength =>
      refine ⟨⟨some s, some e, none, none, none⟩, ?_, fun block hblock => ?_⟩
      · show ((fieldInstant tz fuel (some first) (some start)).bind fun s =>
          (fieldInstant tz fuel (some first) (some stop)).bind fun e =>
            some (⟨some s, some e, none, none, none⟩ : TimeOffChange)) = _
        rw [hs, he]
        rfl
      · obtain ⟨hordered, hlength, rfl⟩ := checkedInstants_eq_ok hblock
        exact ⟨s, e, hordered, hlength, rfl, .inl rfl, .inl rfl⟩
  | instants s₀ e₀ hordered hlength =>
      obtain ⟨x, hx, hstart⟩ := @sentIf_some (some first ≠ some (tz.shownDay s₀) ∨
        some start ≠ some (tz.shownTime s₀)) _ s
      obtain ⟨y, hy, hstop⟩ := @sentIf_some (some first ≠ some (tz.shownDay s₀) ∨
        some stop ≠ some (tz.shownTime e₀)) _ e
      refine ⟨⟨x, y, none, none, none⟩, ?_, fun block hblock => ?_⟩
      · show ((sentIf (some first ≠ some (tz.shownDay s₀) ∨ some start ≠ some (tz.shownTime s₀))
            (fieldInstant tz fuel (some first) (some start))).bind fun startsAt =>
          (sentIf (some first ≠ some (tz.shownDay s₀) ∨ some stop ≠ some (tz.shownTime e₀))
            (fieldInstant tz fuel (some first) (some stop))).bind fun endsAt =>
              some (⟨startsAt, endsAt, none, none, none⟩ : TimeOffChange)) = _
        rw [hs, he, hx, hy]
        rfl
      · have hmerged : ∃ hordered hlength,
            block = .instants (x.getD s₀) (y.getD e₀) hordered hlength := by
          cases x with
          | some _ => exact checkedInstants_eq_ok hblock
          | none =>
              cases y with
              | some _ => exact checkedInstants_eq_ok hblock
              | none =>
                  cases hblock
                  exact ⟨hordered, hlength, rfl⟩
        obtain ⟨hordered, hlength, rfl⟩ := hmerged
        refine ⟨_, _, hordered, hlength, rfl, ?_, ?_⟩
        · rcases hstart with ⟨rfl, hkept⟩ | rfl
          · obtain ⟨hday, htime⟩ := not_or.mp hkept
            exact .inr ⟨(Option.some.inj (not_not.mp hday)).symm,
              (Option.some.inj (not_not.mp htime)).symm⟩
          · exact .inl rfl
        · rcases hstop with ⟨rfl, hkept⟩ | rfl
          · exact .inr (Option.some.inj (not_not.mp (not_or.mp hkept).2)).symm
          · exact .inl rfl

/-- A form in which no more than the reason was changed leaves the block alone. -/
theorem patched_untouched (h : typed = { fromBlock tz row with reason := typed.reason }) :
    (patchTimes tz fuel (fromBlock tz row).submitted typed.submitted).map
      (fun change => change.block row.block) = some (.ok row.block) := by
  have hkept : ∀ {α : Type} {x : α}, ¬ x ≠ x := not_not.mpr rfl
  rw [h]
  obtain ⟨id, memberId, old, reason, source⟩ := row
  cases old with
  | days f l hordered hlength =>
      show ((sentIf (some f ≠ some f) (some f)).bind fun first =>
        (sentIf (some l ≠ some l) (some l)).bind fun last =>
          some (⟨none, none, first, last, none⟩ : TimeOffChange)).map _ = _
      rw [sentIf_of_not hkept, sentIf_of_not hkept]
      rfl
  | instants s₀ e₀ hordered hlength =>
      show ((sentIf (some (tz.shownDay s₀) ≠ some (tz.shownDay s₀) ∨
            some (tz.shownTime s₀) ≠ some (tz.shownTime s₀)) _).bind fun startsAt =>
        (sentIf (some (tz.shownDay s₀) ≠ some (tz.shownDay s₀) ∨
            some (tz.shownTime e₀) ≠ some (tz.shownTime e₀)) _).bind fun endsAt =>
          some (⟨startsAt, endsAt, none, none, none⟩ : TimeOffChange)).map _ = _
      rw [sentIf_of_not (not_or.mpr ⟨hkept, hkept⟩), sentIf_of_not (not_or.mpr ⟨hkept, hkept⟩)]
      rfl

end

/-! ## § The edit -/

/-- What an accepted form has. -/
theorem clientProblem_eq_none {form : BlockForm} {initial : Option BlockForm}
    (h : clientProblem form initial = none) : ∃ first, form.firstDay = some first ∧
      (form.allDay = true → ∃ last, form.lastDay = some last) ∧
      (form.allDay = false → ∃ start stop, form.startTime = some start ∧
        form.endTime = some stop) := by
  obtain ⟨allDay, firstDay, lastDay, startTime, endTime, reason⟩ := form
  cases firstDay with
  | none => cases h
  | some first =>
      refine ⟨first, rfl, ?_, ?_⟩
      · rintro rfl
        cases lastDay with
        | none => cases h
        | some last => exact ⟨last, rfl⟩
      · rintro rfl
        cases startTime with
        | none => cases h
        | some start =>
            cases endTime with
            | none => cases h
            | some stop => exact ⟨start, stop, rfl, rfl⟩

/-- The row an update leaves. -/
theorem updateTimeOff_row {db db' : Db} {now : ℤ} {current : Session} {row : TimeOff}
    {change : TimeOffChange} (hrow : row ∈ db.timeOff.rows)
    (h : updateTimeOff db now current row.id change = .ok db') :
    ∃ block, change.block row.block = .ok block ∧
      { row with block := block, reason := change.reason.getD row.reason } ∈ db'.timeOff.rows := by
  obtain ⟨old, hold, h⟩ := bind_eq_ok.mp h
  obtain ⟨hmem, hid⟩ := manualBlock_eq_ok hold
  obtain rfl : old = row := db.timeOff.eq_of_key hmem hrow hid
  obtain ⟨block, hblock, h⟩ := bind_eq_ok.mp h
  refine ⟨block, hblock, ?_⟩
  simp only at h
  split at h
  · rename_i hsame
    cases h
    rwa [hsame.1, hsame.2]
  · obtain ⟨-, h⟩ := require_bind_eq_ok.mp h
    cases h
    exact List.mem_map.mpr ⟨old, hrow, if_pos rfl⟩

/-- The row a creation adds. -/
theorem createTimeOff_row {db db' : Db} {now : ℤ} {current : Session} {memberId id : ℕ}
    {new : Pair} {reason : Option String}
    (h : createTimeOff db now current memberId new reason id = .ok db') :
    ∃ block, new.checked = .ok block ∧
      ⟨id, memberId, block, reason, .manual⟩ ∈ db'.timeOff.rows := by
  simp only [createTimeOff, found_bind_eq_ok, require_bind_eq_ok] at h
  obtain ⟨_, _, _, h⟩ := h
  obtain ⟨block, hblock, h⟩ := bind_eq_ok.mp h
  simp only [found_bind_eq_ok, require_bind_eq_ok] at h
  obtain ⟨-, timeOff, hinsert, h⟩ := h
  cases h
  obtain ⟨-, hrows⟩ := Table.insert_eq_some hinsert
  exact ⟨block, hblock, hrows ▸ List.mem_append_right _ (List.mem_singleton_self _)⟩

/-- A block made in the form shows there as it was typed. -/
theorem created_shown {db : Db} {typed : BlockForm} (hcivil : db.settings.timezone.Civil)
    (hproblem : clientProblem typed.submitted none = none)
    (hyear : ∀ first ∈ typed.firstDay, 100 ≤ (dateOf first).year) :
    ∃ n, ∀ fuel, n ≤ fuel → ∃ new,
      requestBody db.settings.timezone fuel typed.submitted = some new ∧
      ∀ now current memberId id db', createTimeOff db now current memberId new
          (requestReason typed) id = .ok db' →
        ∃ row ∈ db'.timeOff.rows, row.id = id ∧
          (fromBlock db.settings.timezone row).Shows db.settings.timezone typed := by
  obtain ⟨first, hfirst, hdays, htimes⟩ := clientProblem_eq_none hproblem
  have hwhy := @jsTrim_requestReason typed
  generalize requestReason typed = reason at hwhy ⊢
  cases hkind : typed.allDay with
  | true =>
      obtain ⟨last, hlast⟩ := hdays hkind
      have hnew : ∀ fuel, requestBody db.settings.timezone fuel typed.submitted =
          some (.days first last) := by
        intro fuel
        have hsubmitted : typed.submitted.allDay = true := hkind
        rw [requestBody, if_pos hsubmitted, hfirst, hlast]
        rfl
      have hlast : typed.lastDay = some last := by rwa [BlockForm.submitted, if_pos hkind] at hlast
      refine ⟨0, fun fuel _ => ⟨_, hnew fuel, fun now current memberId id db' hcreate => ?_⟩⟩
      obtain ⟨block, hblock, hmem⟩ := createTimeOff_row hcreate
      obtain ⟨hordered, hlength, rfl⟩ := checkedDays_eq_ok hblock
      exact ⟨_, hmem, rfl, shows_days rfl hkind hfirst hlast hwhy⟩
  | false =>
      obtain ⟨start, stop, hstart, hstop⟩ := htimes hkind
      obtain ⟨n, hs⟩ := fieldInstant_eq hcivil (hyear first hfirst) start
      obtain ⟨m, he⟩ := fieldInstant_eq hcivil (hyear first hfirst) stop
      refine ⟨max n m, fun fuel hfuel => ?_⟩
      have hnew : requestBody db.settings.timezone fuel typed.submitted =
          some (.instants (toUtc db.settings.timezone first start.minutes)
            (toUtc db.settings.timezone first stop.minutes)) := by
        rw [requestBody, if_neg (by rw [BlockForm.submitted, hkind]; decide), hfirst, hstart, hstop,
          hs fuel ((le_max_left n m).trans hfuel), he fuel ((le_max_right n m).trans hfuel)]
        rfl
      refine ⟨_, hnew, fun now current memberId id db' hcreate => ?_⟩
      obtain ⟨block, hblock, hmem⟩ := createTimeOff_row hcreate
      obtain ⟨hordered, hlength, rfl⟩ := checkedInstants_eq_ok hblock
      exact ⟨_, hmem, rfl, shows_instants rfl hkind hfirst hstart hstop (.inl rfl) (.inl rfl) hwhy⟩

/-- **The form shows what was saved.** A block is opened in the form, its fields are changed in
any way the form lets through, and the server takes the body: opened again, it shows the fields
as they were left. If no more than the reason was changed, the block is the one before, to the
second; a part of a day over midnight stays one. -/
theorem edit_shown {db : Db} {row : TimeOff} {typed : BlockForm} (hrow : row ∈ db.timeOff.rows)
    (hcivil : db.settings.timezone.Civil)
    (hproblem : clientProblem typed.submitted
      (some (fromBlock db.settings.timezone row).submitted) = none)
    (hyear : ∀ first ∈ typed.firstDay, 100 ≤ (dateOf first).year) :
    ∃ n, ∀ fuel, n ≤ fuel → ∃ change,
      patchBody db.settings.timezone fuel (fromBlock db.settings.timezone row).submitted
        typed.submitted = some change ∧
      ∀ now current db', updateTimeOff db now current row.id change = .ok db' →
        ∃ row' ∈ db'.timeOff.rows, row'.id = row.id ∧
          (fromBlock db.settings.timezone row').Shows db.settings.timezone typed ∧
          (typed = { fromBlock db.settings.timezone row with reason := typed.reason } →
            row'.block = row.block) := by
  obtain ⟨first, hfirst, hdays, htimes⟩ := clientProblem_eq_none hproblem
  -- with the reason, and taken by the server
  have hsaved : ∀ {fuel times}, patchTimes db.settings.timezone fuel
      (fromBlock db.settings.timezone row).submitted typed.submitted = some times →
      (∀ block, times.block row.block = .ok block → ∀ row' : TimeOff, row'.block = block →
        jsTrim (row'.reason.getD "") = jsTrim typed.reason →
          (fromBlock db.settings.timezone row').Shows db.settings.timezone typed) →
      ∃ change, patchBody db.settings.timezone fuel
          (fromBlock db.settings.timezone row).submitted typed.submitted = some change ∧
        ∀ now current db', updateTimeOff db now current row.id change = .ok db' →
          ∃ row' ∈ db'.timeOff.rows, row'.id = row.id ∧
            (fromBlock db.settings.timezone row').Shows db.settings.timezone typed ∧
            (typed = { fromBlock db.settings.timezone row with reason := typed.reason } →
              row'.block = row.block) := by
    intro fuel times htimes hshows
    have hwhy := @reason_saved db.settings.timezone row typed
    generalize hreason : patchReason (fromBlock db.settings.timezone row).submitted
      typed.submitted = reason at hwhy
    have hpatch : patchBody db.settings.timezone fuel
        (fromBlock db.settings.timezone row).submitted typed.submitted =
          some { times with reason := reason } := by
      rw [patchBody, htimes, hreason, Option.map_some]
    refine ⟨_, hpatch, fun now current db' hupdate => ?_⟩
    obtain ⟨block, hblock, hmem⟩ := updateTimeOff_row hrow hupdate
    rw [block_withReason] at hblock
    refine ⟨_, hmem, rfl, hshows block hblock _ rfl hwhy, fun hsame => ?_⟩
    have hkept := @patched_untouched db.settings.timezone fuel row typed hsame
    rw [htimes, Option.map_some, hblock] at hkept
    exact Except.ok.inj (Option.some.inj hkept)
  cases hkind : typed.allDay with
  | true =>
      obtain ⟨last, hlast⟩ := hdays hkind
      have hlast : typed.lastDay = some last := by rwa [BlockForm.submitted, if_pos hkind] at hlast
      refine ⟨0, fun fuel _ => ?_⟩
      obtain ⟨times, hpatch, hmerged⟩ := patched_days hkind hfirst hlast
      refine hsaved hpatch fun block hblock row' hrow' hwhy => ?_
      obtain ⟨hordered, hlength, rfl⟩ := hmerged block hblock
      exact shows_days hrow' hkind hfirst hlast hwhy
  | false =>
      obtain ⟨start, stop, hstart, hstop⟩ := htimes hkind
      obtain ⟨n, hs⟩ := fieldInstant_eq hcivil (hyear first hfirst) start
      obtain ⟨m, he⟩ := fieldInstant_eq hcivil (hyear first hfirst) stop
      refine ⟨max n m, fun fuel hfuel => ?_⟩
      obtain ⟨times, hpatch, hmerged⟩ := patched_instants hkind hfirst hstart hstop
        (hs fuel ((le_max_left n m).trans hfuel)) (he fuel ((le_max_right n m).trans hfuel))
      refine hsaved hpatch fun block hblock row' hrow' hwhy => ?_
      obtain ⟨s, e, hordered, hlength, rfl, hs, he⟩ := hmerged block hblock
      exact shows_instants hrow' hkind hfirst hstart hstop hs he hwhy

/-- Off from ten in the evening of 2024-03-30 until four in the morning. -/
def nightOff : TimeOff :=
  ⟨1, 1, .instants (minute * 28530540) (minute * 28530840) (by decide) (by decide), none, .manual⟩

def nightOffShop : Db :=
  { Db.solo (Settings.defaults summerTime) freeHour [] with timeOff := ⟨[nightOff], by decide⟩ }

/-- From half past two of 2024-03-31, which the clock skips, until five. -/
def nightOffMoved : BlockForm :=
  ⟨false, some 19813, some 19812, some ⟨150, by decide⟩, some ⟨300, by decide⟩, " late "⟩

theorem edit_shown_nightOff : ∃ n, ∀ fuel, n ≤ fuel → ∃ change,
    patchBody summerTime fuel (fromBlock summerTime nightOff).submitted nightOffMoved.submitted =
      some change ∧
    ∀ now current db', updateTimeOff nightOffShop now current 1 change = .ok db' →
      ∃ row' ∈ db'.timeOff.rows, row'.id = 1 ∧
        (fromBlock summerTime row').Shows summerTime nightOffMoved ∧
        (nightOffMoved = { fromBlock summerTime nightOff with reason := nightOffMoved.reason } →
          row'.block = nightOff.block) :=
  @edit_shown nightOffShop nightOff nightOffMoved (List.mem_singleton_self _) (by decide)
    (by decide +kernel) (by decide +kernel)

/-- The server takes the body. -/
example : ((patchBody summerTime 60 (fromBlock summerTime nightOff).submitted
    nightOffMoved.submitted).map fun change =>
      (updateTimeOff nightOffShop 0 ⟨1, true⟩ 1 change).toOption.map fun db =>
        db.timeOff.rows.map TimeOff.block) =
    some (some [.instants (minute * 28530780) (minute * 28530900) (by decide) (by decide)]) := by
  decide +kernel

end Ziftbook
