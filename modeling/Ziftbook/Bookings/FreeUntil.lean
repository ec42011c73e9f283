import Ziftbook.Bookings.Refundable

/-!
# The deadline a link shows

`_view`'s `free_until` beside `decide`, and the booking page's `cancellationState`.
The row's timestamps come back in the database session's zone, and taking hours from
such a datetime moves its clock reading, not its instant.
-/

namespace Ziftbook

/-! ## § Hours on the clock -/

namespace Zone

/-- The offset in force at an instant, in minutes. -/
def utcoffset (z : Zone) (t : ℤ) : ℤ := offsetAt z.base z.changes (t / minute)

/-- An instant's clock reading, in microseconds. -/
def wall (z : Zone) (t : ℤ) : ℤ := t + minute * z.utcoffset t

/-- The offset of a clock reading with `fold=0`. -/
def fold (z : Zone) (w : ℤ) : ℤ := foldOffset z.base z.changes (w / minute)

/-- `t - timedelta(hours=hours)` for a datetime in the zone: its reading moved back, with
`fold=0`. -/
def minusHours (z : Zone) (t : ℤ) (hours : ℕ) : ℤ :=
  let w := z.wall t - hours * hour
  w - minute * z.fold w

/-- The clock gives the reading `hours` before the offset it has at `t`. -/
def steady (z : Zone) (t : ℤ) (hours : ℕ) : Prop := z.fold (z.wall t - hours * hour) = z.utcoffset t

instance (z : Zone) (t : ℤ) (hours : ℕ) : Decidable (z.steady t hours) :=
  inferInstanceAs (Decidable (_ = _))

/-- The instant is off by what the offset changes. -/
theorem minusHours_eq (z : Zone) (t : ℤ) (hours : ℕ) : z.minusHours t hours =
    t - hours * hour + minute * (z.utcoffset t - z.fold (z.wall t - hours * hour)) := by
  simp only [minusHours]
  rw [wall]
  ring

end Zone

/-! ## § The two pages -/

/-- `_view`'s `free_until`. -/
def Booking.freeUntil (z : Zone) (b : Booking) (decision : Decision) : Option ℤ :=
  if decision.canCancel ∧ decision.refundPct ≠ 0 ∧ b.status ≠ .pending then
    some (z.minusHours (b.earliestStartsAt.getD b.startsAt) b.freeCancellationHours)
  else none

/-- The anchor, less the free hours. -/
def Booking.deadline (b : Booking) : ℤ := b.earliestStartsAt.getD b.startsAt - b.freeWindow

/-- A JavaScript `Date`: whole milliseconds. -/
structure JsDate where
  getTime : ℤ

/-- The instant of a `Date`, in microseconds. -/
def JsDate.instant (d : JsDate) : ℤ := 1000 * d.getTime

inductive CancellationKind
  | before | inside
deriving DecidableEq

structure CancellationState where
  kind : CancellationKind
  freeUntil : JsDate

/-- The booking page's `cancellationState`. -/
def cancellationState (now slotStart : JsDate) (freeCancellationHours : ℕ) : CancellationState :=
  let freeUntil : JsDate := ⟨slotStart.getTime - freeCancellationHours * 3600000⟩
  ⟨if now.getTime ≤ freeUntil.getTime then .before else .inside, freeUntil⟩

variable {z : Zone} {b : Booking} {db : Db} {now t : ℤ}

theorem decideFor_eq (db : Db) (hpending : b.status ≠ .pending) (t : ℤ) :
    db.decideFor b t = b.decide t := by
  rw [Db.decideFor, if_neg hpending]
  rfl

/-- Before the start, a cancel refunds in full up to the deadline. -/
theorem refundPct_eq_iff (hlive : t < b.startsAt) :
    (b.decide t).refundPct = 100 ↔ t ≤ b.deadline := by
  rw [refundPct_decide, Booking.deadline]
  by_cases hfree : b.refundable t
  · simp only [hfree, if_true, true_iff]
    have := hfree.2
    omega
  · simp only [hfree, if_false]
    constructor
    · intro h; cases h
    · intro h
      exact absurd ⟨hlive, by omega⟩ hfree

theorem freeUntil_eq (hpending : b.status ≠ .pending) (hlive : now < b.startsAt) :
    b.freeUntil z (db.decideFor b now) = if now ≤ b.deadline then
      some (z.minusHours (b.earliestStartsAt.getD b.startsAt) b.freeCancellationHours)
    else none := by
  have hfree := refundPct_eq_iff (b := b) hlive
  rw [decideFor_eq db hpending, Booking.freeUntil]
  by_cases hdeadline : now ≤ b.deadline
  · rw [if_pos hdeadline, if_pos]
    refine ⟨(canCancel_decide b now).mpr hlive, ?_, hpending⟩
    rw [hfree.mpr hdeadline]
    decide
  · rw [if_neg hdeadline, if_neg]
    rintro ⟨_, hpct, _⟩
    rw [refundPct_decide] at hfree hpct
    split at hpct
    · rename_i hrefundable
      rw [if_pos hrefundable] at hfree
      exact hdeadline (hfree.mp rfl)
    · exact hpct rfl

/-! ## § When the deadline shown is the deadline -/

/-- The earliest start held. -/
def Booking.anchorAt (b : Booking) : ℤ := b.earliestStartsAt.getD b.startsAt

/-- The read comes after the deadline, or the clock's offset is the same at the anchor and
the free hours before it. Where it is less there, no harm is done if nothing is left
between the deadline and the start. -/
def Booking.readsTrue (z : Zone) (b : Booking) (now : ℤ) : Prop :=
  b.deadline < now ∨ z.steady b.anchorAt b.freeCancellationHours ∨
    (z.fold (z.wall b.anchorAt - b.freeCancellationHours * hour) < z.utcoffset b.anchorAt ∧
      b.startsAt ≤ b.deadline + 1)

instance (z : Zone) (b : Booking) (now : ℤ) : Decidable (b.readsTrue z now) :=
  inferInstanceAs (Decidable (_ ∨ _ ∨ _ ∧ _))

/-- The deadline shown at a read says of each instant from it to the start whether a
cancel refunds in full. -/
def Booking.showsDeadline (z : Zone) (db : Db) (b : Booking) (now : ℤ) : Prop :=
  ∀ t, now ≤ t → t < b.startsAt →
    ((b.decide t).refundPct = 100 ↔ ∃ f, b.freeUntil z (db.decideFor b now) = some f ∧ t ≤ f)

theorem showsDeadline_iff (hpending : b.status ≠ .pending) (hlive : now < b.startsAt)
    (hearliest : ∀ e ∈ b.earliestStartsAt, e ≤ b.startsAt) :
    b.showsDeadline z db now ↔ b.readsTrue z now := by
  have hanchor : b.anchorAt ≤ b.startsAt := by
    unfold Booking.anchorAt
    cases hrow : b.earliestStartsAt with
    | none => exact le_rfl
    | some e => exact hearliest e hrow
  have hdeadline : b.deadline ≤ b.startsAt := by
    have := b.freeWindow_nonneg
    change b.anchorAt - b.freeWindow ≤ _
    omega
  have hminute : (0 : ℤ) < minute := by decide
  set shift := z.utcoffset b.anchorAt -
    z.fold (z.wall b.anchorAt - b.freeCancellationHours * hour) with hshift
  have hshown : z.minusHours (b.earliestStartsAt.getD b.startsAt) b.freeCancellationHours =
      b.deadline + minute * shift := z.minusHours_eq b.anchorAt b.freeCancellationHours
  have hsteady : z.steady b.anchorAt b.freeCancellationHours ↔ shift = 0 := by
    rw [hshift, Zone.steady, sub_eq_zero]
    exact eq_comm
  unfold Booking.showsDeadline Booking.readsTrue
  rw [freeUntil_eq hpending hlive, hshown, hsteady]
  by_cases hread : now ≤ b.deadline
  · simp only [if_pos hread, Option.some.injEq, exists_eq_left']
    constructor
    · intro hall
      rcases lt_trichotomy shift 0 with hneg | hzero | hpos
      · -- The last instant that is free comes after the deadline shown.
        have hless : minute * shift ≤ -minute := by
          have := mul_le_mul_of_nonneg_left (Int.le_sub_one_of_lt hneg) hminute.le
          linarith
        have hlast := hall (min b.deadline (b.startsAt - 1)) (by omega) (by omega)
        rw [refundPct_eq_iff (by omega)] at hlast
        have := hlast.mp (min_le_left ..)
        have hbig : (1 : ℤ) < minute := by decide
        omega
      · exact Or.inr (Or.inl hzero)
      · refine Or.inr (Or.inr ⟨by omega, ?_⟩)
        by_contra hroom
        have hmore : minute ≤ minute * shift := le_mul_of_one_le_right hminute.le hpos
        have hnext := hall (b.deadline + 1) (by omega) (by omega)
        rw [refundPct_eq_iff (by omega)] at hnext
        have := hnext.mpr (by omega)
        omega
    · intro htrue t hfrom hbefore
      rw [refundPct_eq_iff hbefore]
      rcases htrue with hlate | hzero | ⟨hless, hroom⟩
      · omega
      · rw [hzero, mul_zero, add_zero]
      · have hmore : 0 ≤ minute * shift := mul_nonneg hminute.le (by omega)
        omega
  · simp only [if_neg hread, reduceCtorEq, false_and, exists_false, iff_false]
    refine ⟨fun _ => Or.inl (not_le.mp hread), fun _ t hfrom hbefore => ?_⟩
    rw [refundPct_eq_iff hbefore]
    omega

/-- Of a booking never moved, the booking page says what `decide` does. -/
theorem cancellationState_before_iff {start d : JsDate} (hstart : b.startsAt = start.instant)
    (hunmoved : b.anchorAt = b.startsAt) (hbefore : d.getTime < start.getTime) :
    (cancellationState d start b.freeCancellationHours).kind = .before ↔
      (b.decide d.instant).refundPct = 100 := by
  have hlive : d.instant < b.startsAt := by
    rw [hstart, JsDate.instant, JsDate.instant]
    omega
  have hkind : (cancellationState d start b.freeCancellationHours).kind = .before ↔
      d.getTime ≤ start.getTime - b.freeCancellationHours * 3600000 := by
    simp only [cancellationState]
    split
    · simp_all
    · simp_all
  rw [hkind, refundPct_eq_iff hlive]
  change _ ↔ 1000 * d.getTime ≤ b.anchorAt - b.freeCancellationHours * (60 * 60000000)
  rw [hunmoved, hstart, JsDate.instant]
  omega

/-- **The deadline shown is exact when the clock keeps its offset** over the free hours
before the anchor, or the read comes after it; the booking page is exact always. -/
theorem free_until_exact_iff (z : Zone) (db : Db) (b : Booking) (now : ℤ)
    (hpending : b.status ≠ .pending) (hlive : now < b.startsAt)
    (hearliest : ∀ e ∈ b.earliestStartsAt, e ≤ b.startsAt) :
    (b.showsDeadline z db now ∧
      ∀ start d : JsDate, b.startsAt = start.instant → b.anchorAt = b.startsAt →
        d.getTime < start.getTime →
        ((cancellationState d start b.freeCancellationHours).kind = .before ↔
          (b.decide d.instant).refundPct = 100)) ↔ b.readsTrue z now := by
  rw [showsDeadline_iff hpending hlive hearliest]
  exact and_iff_left fun _ _ hstart hunmoved => cancellationState_before_iff hstart hunmoved

/-- An hour forward at noon. -/
def forwardAtNoon : Zone := ⟨60, [(720, 120)], by decide⟩

/-- A confirmed booking a day after noon, free to cancel until two days before. -/
def dayAfterNoon : Booking :=
  newBooking (Settings.defaults (.fixed 0)) halfHour 1 1 1 none (2160 * minute) Standing.settled
    .merchant

theorem free_until_exact_fixed :
    (dayAfterNoon.showsDeadline (.fixed 60) (.solo zeroPolicy halfHour []) (-3000 * minute) ∧
      ∀ start d : JsDate, dayAfterNoon.startsAt = start.instant →
        dayAfterNoon.anchorAt = dayAfterNoon.startsAt → d.getTime < start.getTime →
        ((cancellationState d start dayAfterNoon.freeCancellationHours).kind = .before ↔
          (dayAfterNoon.decide d.instant).refundPct = 100)) :=
  (free_until_exact_iff (.fixed 60) _ dayAfterNoon (-3000 * minute) (by decide) (by decide)
    (by decide)).mpr (by decide)

/-- Read three hours before the deadline, the link shows one an hour later: half an hour
past the deadline, a cancel it calls free refunds nothing. -/
theorem free_until_an_hour_late :
    dayAfterNoon.freeUntil forwardAtNoon
      ((Db.solo zeroPolicy halfHour []).decideFor dayAfterNoon (-900 * minute)) =
        some (-660 * minute) ∧
    (dayAfterNoon.decide (-690 * minute)).refundPct = 0 ∧
    ¬ dayAfterNoon.showsDeadline forwardAtNoon (.solo zeroPolicy halfHour []) (-900 * minute) := by
  have hshown : dayAfterNoon.freeUntil forwardAtNoon
      ((Db.solo zeroPolicy halfHour []).decideFor dayAfterNoon (-900 * minute)) =
        some (-660 * minute) := by decide
  have hnone : (dayAfterNoon.decide (-690 * minute)).refundPct = 0 := by decide
  refine ⟨hshown, hnone, fun hall => ?_⟩
  have hfree := (hall (-690 * minute) (by decide) (by decide)).mpr ⟨_, hshown, by decide⟩
  rw [hnone] at hfree
  cases hfree

end Ziftbook
