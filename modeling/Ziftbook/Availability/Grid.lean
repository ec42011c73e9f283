import Ziftbook.Availability.SlotMeaning
import Ziftbook.Clock

/-!
# Starts on the local grid

`slot_step_minutes` lays a grid of elapsed time from each piece's first grid
time. Where the clock changes by whole hours the grid keeps to local multiples
of the step if its first instant does; a first grid time the clock skips may
begin it anywhere.
-/

namespace Ziftbook

open Foundation.Intervals

/-! ## § Whole hours -/

/-- The clock changes by whole hours only. -/
def Zone.WholeHours (z : Zone) : Prop := ∀ c ∈ z.changes, (60 : ℤ) ∣ c.2 - z.base

instance (z : Zone) : Decidable z.WholeHours :=
  inferInstanceAs (Decidable (∀ c ∈ z.changes, _))

/-- The minute of the day the clock shows at the instant is a multiple of the step. -/
def OnLocalGrid (zone : Zone) (step t : ℤ) : Prop :=
  step ∣ zone.reading (t / minute) % dayMinutes

instance (zone : Zone) (step t : ℤ) : Decidable (OnLocalGrid zone step t) :=
  inferInstanceAs (Decidable (_ ∣ _))

/-- Every offset in force is whole hours from the first. -/
theorem dvd_offsetAt_sub {base : ℤ} {cs : List (ℤ × ℤ)} : ∀ {o : ℤ}, (60 : ℤ) ∣ o - base →
    (∀ c ∈ cs, (60 : ℤ) ∣ c.2 - base) → ∀ u, (60 : ℤ) ∣ offsetAt o cs u - base := by
  induction cs with
  | nil => intro o ho _ u; exact ho
  | cons c cs ih =>
      intro o ho hcs u
      obtain ⟨hc, hcs⟩ := List.forall_mem_cons.mp hcs
      rw [offsetAt]
      split
      · exact ho
      · exact ih hc hcs u

/-- **A whole-hour change moves nothing on the grid.** -/
theorem Zone.WholeHours.dvd_reading {z : Zone} (h : z.WholeHours) {step : ℤ} (hstep : step ∣ 60)
    (u : ℤ) : step ∣ z.reading u ↔ step ∣ u + z.base := by
  have hsub : step ∣ offsetAt z.base z.changes u - z.base :=
    hstep.trans (dvd_offsetAt_sub (by simp) h u)
  have hsplit : z.reading u = u + z.base + (offsetAt z.base z.changes u - z.base) := by
    rw [Zone.reading]
    ring
  rw [hsplit]
  exact dvd_add_left hsub

theorem onLocalGrid_iff {z : Zone} {step : ℤ} (hstep : step ∣ 60) {t : ℤ} :
    OnLocalGrid z step t ↔ step ∣ z.reading (t / minute) := by
  have hday : step ∣ dayMinutes := hstep.trans (by decide)
  exact EuclideanDomain.dvd_mod_iff hday

/-! ## § A piece's grid -/

/-- **Each start of a piece reads on the grid exactly where its first grid time does**: the
first reading from there on that the clock shows. -/
theorem onLocalGrid_of_start {z : Zone} (h : z.WholeHours) {step : ℤ} (hstep : step ∣ 60)
    {day at_ k t : ℤ} (ht : t = toUtc z day at_ + k * (step * minute)) :
    OnLocalGrid z step t ↔ step ∣ z.settle (dayMinutes * day + at_) := by
  have hmin : minute ≠ 0 := by decide
  have hutc : t / minute = z.minuteOf (dayMinutes * day + at_) + k * step := by
    rw [ht, toUtc, show minute * z.minuteOf (dayMinutes * day + at_) + k * (step * minute) =
      minute * (z.minuteOf (dayMinutes * day + at_) + k * step) by ring,
      Int.mul_ediv_cancel_left _ hmin]
  have hshown : z.reading (z.minuteOf (dayMinutes * day + at_)) =
      z.settle (dayMinutes * day + at_) := (z.settle_spec _).2.1
  rw [onLocalGrid_iff hstep, hutc, h.dvd_reading hstep, ← hshown, h.dvd_reading hstep,
    show z.minuteOf (dayMinutes * day + at_) + k * step + z.base =
      z.minuteOf (dayMinutes * day + at_) + z.base + k * step by ring]
  exact dvd_add_left (Dvd.intro_left k rfl)

/-- `slot_step_minutes`: every step divides the hour. -/
theorem slotStep_dvd {step : ℤ} (h : step ∈ [(5 : ℤ), 10, 15, 20, 30, 60]) : step ∣ 60 := by
  simp only [List.mem_cons, List.not_mem_nil, or_false] at h
  rcases h with rfl | rfl | rfl | rfl | rfl | rfl <;> decide

/-- The test of the walk: not before `earliest`, and clear of what is busy. -/
def isFree (timeOff : List (ℤ × ℤ)) (booked : List Booked) (duration buffer pct earliest t : ℤ) :
    Bool :=
  earliest ≤ t && !overlaps (merged (blockedBy timeOff booked pct)) t (t + duration * minute) &&
    !overlaps (merged (booked.map fun b => (b.startsAt, b.endsAt))) t
      (t + (duration + buffer) * minute)

theorem mem_memberSlots_iff {rows : List Row} {timeOff : List (ℤ × ℤ)} {booked : List Booked}
    {opening : List (ℤ × List (ℤ × ℤ))} {zone : Zone}
    {first last duration buffer pct step earliest t : ℤ} (hstep : 0 < step) :
    t ∈ memberSlots rows timeOff booked opening zone first last duration buffer pct step
        earliest hstep ↔
      ∃ day, (first ≤ day ∧ day ≤ last) ∧ ∃ piece ∈ pieces rows opening day, ∃ at_,
        anchor piece.1 step = some at_ ∧ OnWalk zone day duration step piece at_ t ∧
        isFree timeOff booked duration buffer pct earliest t = true := by
  simp only [memberSlots, List.mem_flatMap, mem_localDays, mem_pieceSlots_iff hstep]
  rfl

/-- **Offered starts keep to the slot grid** exactly when every piece that offers one has a
first grid time from which the clock next shows a multiple of the step: one it shows, or one
skipped by a change that jumps to the grid. -/
theorem memberSlots_onGrid {rows : List Row} {timeOff : List (ℤ × ℤ)} {booked : List Booked}
    {opening : List (ℤ × List (ℤ × ℤ))} {zone : Zone}
    {first last duration buffer pct step earliest : ℤ} (hhours : zone.WholeHours)
    (hslot : step ∈ [(5 : ℤ), 10, 15, 20, 30, 60]) (hstep : 0 < step) :
    (∀ t ∈ memberSlots rows timeOff booked opening zone first last duration buffer pct step
        earliest hstep, OnLocalGrid zone step t) ↔
      ∀ day, first ≤ day → day ≤ last → ∀ piece ∈ pieces rows opening day, ∀ at_,
        anchor piece.1 step = some at_ →
        (∃ t, OnWalk zone day duration step piece at_ t ∧
          isFree timeOff booked duration buffer pct earliest t = true) →
        step ∣ zone.settle (dayMinutes * day + at_) := by
  have hdvd := slotStep_dvd hslot
  constructor
  · intro hall day hfirst hlast piece hpiece at_ hanchor hsome
    obtain ⟨t, hon, hfree⟩ := hsome
    have hmem := (mem_memberSlots_iff hstep).mpr
      ⟨day, ⟨hfirst, hlast⟩, piece, hpiece, at_, hanchor, hon, hfree⟩
    obtain ⟨k, hk⟩ := hon.onGrid
    exact (onLocalGrid_of_start hhours hdvd hk).mp (hall t hmem)
  · intro hall t hmem
    obtain ⟨day, ⟨hfirst, hlast⟩, piece, hpiece, at_, hanchor, hon, hfree⟩ :=
      (mem_memberSlots_iff hstep).mp hmem
    obtain ⟨k, hk⟩ := hon.onGrid
    exact (onLocalGrid_of_start hhours hdvd hk).mpr
      (hall day hfirst hlast piece hpiece at_ hanchor ⟨t, hon, hfree⟩)

theorem memberSlots_onGrid_morning :
    (∀ t ∈ memberSlots [morning] [] [] [] (Zone.fixed 60) 0 6 30 0 10 15 0 (by decide),
      OnLocalGrid (Zone.fixed 60) 15 t) ↔
      ∀ day, 0 ≤ day → day ≤ 6 → ∀ piece ∈ pieces [morning] [] day, ∀ at_,
        anchor piece.1 15 = some at_ →
        (∃ t, OnWalk (Zone.fixed 60) day 30 15 piece at_ t ∧ isFree [] [] 30 0 10 0 t = true) →
        15 ∣ (Zone.fixed 60).settle (dayMinutes * day + at_) :=
  memberSlots_onGrid (by decide) (by decide) (by decide)

/-! ## § A first grid time skipped -/

/-- Newfoundland in 2011: from 00:01 to 01:01 on Sunday 13 March. -/
def newfoundland : Zone := ⟨-210, [(21666451, -150)], by decide⟩

/-- A shift from ten past midnight to five. -/
def nightShift : Row := ⟨isoweekday 15046, 10, 300, isoweekday_iso 15046, by decide, by decide⟩

theorem newfoundland_spaced : newfoundland.Spaced := by decide

theorem newfoundland_reading (u : ℤ) :
    newfoundland.reading u = if u < 21666451 then u - 210 else u - 150 := by
  show u + offsetAt (-210) [(21666451, -150)] u = _
  rw [offsetAt, offsetAt]
  split <;> ring

theorem newfoundland_skipped {m : ℤ} (hlow : 1 ≤ m) (hhigh : m ≤ 61) :
    toUtc newfoundland 15046 m = minute * 21666451 := by
  rw [toUtc, newfoundland_spaced.minuteOf_eq]
  · rw [newfoundland_reading, dayMinutes, if_neg (by omega)]
    omega
  · intro u hu
    rw [newfoundland_reading, dayMinutes, if_pos hu]
    omega

theorem newfoundland_five : toUtc newfoundland 15046 300 = minute * 21666690 := by
  rw [toUtc, newfoundland_spaced.minuteOf_eq]
  · rw [newfoundland_reading, dayMinutes, if_neg (by omega)]
    omega
  · intro u hu
    rw [newfoundland_reading, dayMinutes]
    split <;> omega

/-- **The first start of the night reads 01:01**: the shift's first quarter, 00:15, is skipped
by a change that begins a minute past midnight. -/
theorem nightShift_offGrid :
    minute * 21666451 ∈ memberSlots [nightShift] [] [] [] newfoundland 15046 15046 30 0 10 15 0
      (by decide) ∧ ¬ OnLocalGrid newfoundland 15 (minute * 21666451) := by
  have hanchor : IsLeast {m : ℤ | 10 ≤ m ∧ 15 ∣ m} 15 ∧ (15 : ℤ) < dayMinutes :=
    (anchor_eq_some (by decide)).mp (by decide)
  have hmin : (0 : ℤ) < minute := by decide
  constructor
  · refine (mem_memberSlots newfoundland_spaced.forward (by simp) (by decide) (by decide)
      (by decide) (by decide)).mpr ⟨⟨15046, by decide, (10, 300), by decide, ?_, ?_⟩, ?_⟩
    · refine ⟨15, hanchor.1, hanchor.2, 0, ?_⟩
      rw [newfoundland_skipped (by decide) (by decide)]
      ring
    · rw [newfoundland_skipped (by decide) (by decide), newfoundland_five]
      refine Set.Ico_subset_Ico le_rfl ?_
      rw [minute]
      decide
    · exact ⟨by decide, by simp, by simp, by simp⟩
  · decide

/-! ## § Where the clock jumps to the grid -/

/-- Every jump ahead of the zone's lands on a multiple of the step. -/
def Zone.JumpsToGrid (z : Zone) (step : ℤ) : Prop :=
  ∀ c ∈ z.changes, z.reading (c.1 - 1) + 1 < z.reading c.1 → step ∣ z.reading c.1

instance (z : Zone) (step : ℤ) : Decidable (z.JumpsToGrid step) :=
  inferInstanceAs (Decidable (∀ c ∈ z.changes, _))

/-- A reading on the grid is shown, or jumped past to one on the grid. -/
theorem Zone.JumpsToGrid.dvd_settle {z : Zone} {step : ℤ} (h : z.JumpsToGrid step)
    (hspaced : z.Spaced) {w : ℤ} (hw : step ∣ w) : step ∣ z.settle w := by
  obtain ⟨hle, hshown, _⟩ := z.settle_spec w
  rcases eq_or_lt_of_le hle with heq | hlt
  · exact heq ▸ hw
  · -- the minute before still shows less than `w`
    have hread : z.reading (z.minuteOf w) = z.settle w := hshown
    have hbefore : z.reading (z.minuteOf w - 1) < w := hspaced.reading_lt (by omega)
    have hchange : offsetAt z.base z.changes (z.minuteOf w - 1) ≠
        offsetAt z.base z.changes (z.minuteOf w) := by
      intro hsame
      rw [Zone.reading] at hread hbefore
      omega
    obtain ⟨c, hc, hat⟩ := mem_of_offsetAt_ne hchange
    have hjump := h c hc
    rw [hat, hread] at hjump
    exact hjump (by omega)

/-- **A business whose clock jumps only to multiples of its step offers only starts on the
grid**, on every day. -/
theorem memberSlots_onGrid_of_jumps {rows : List Row} {timeOff : List (ℤ × ℤ)}
    {booked : List Booked} {opening : List (ℤ × List (ℤ × ℤ))} {zone : Zone}
    {first last duration buffer pct step earliest : ℤ} (hhours : zone.WholeHours)
    (hspaced : zone.Spaced) (hjumps : zone.JumpsToGrid step)
    (hslot : step ∈ [(5 : ℤ), 10, 15, 20, 30, 60]) (hstep : 0 < step) :
    ∀ t ∈ memberSlots rows timeOff booked opening zone first last duration buffer pct step
        earliest hstep, OnLocalGrid zone step t := by
  intro t hmem
  obtain ⟨day, _, piece, _, at_, hanchor, hon, _⟩ := (mem_memberSlots_iff hstep).mp hmem
  obtain ⟨k, hk⟩ := hon.onGrid
  have hday : step ∣ dayMinutes * day :=
    ((slotStep_dvd hslot).trans (by decide : (60 : ℤ) ∣ dayMinutes)).mul_right day
  have hgrid : step ∣ at_ := ((anchor_eq_some hstep).mp hanchor).1.1.2
  exact (onLocalGrid_of_start hhours (slotStep_dvd hslot) hk).mpr
    (hjumps.dvd_settle hspaced (hday.add hgrid))

end Ziftbook
