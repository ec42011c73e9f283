import Mathlib.Order.BourbakiWitt
import Mathlib.Order.CompletePartialOrder
import Mathlib.Order.Interval.Set.Disjoint
import Ziftbook.Availability.Slots

/-!
# What the slot finder means

`Bookable` says in terms of sets and maximal stretches which instants a worker
can be booked at. `memberSlots` computes exactly these, in every zone in which
`to_utc` never goes back.
-/

namespace Ziftbook

open Foundation.Intervals

/-! ## § One piece -/

theorem anchor_eq_some {start step a : ℤ} (hstep : 0 < step) :
    anchor start step = some a ↔
      IsLeast {m | start ≤ m ∧ step ∣ m} a ∧ a < dayMinutes := by
  have hleast : IsLeast {m | start ≤ m ∧ step ∣ m} (-(-start / step) * step) := by
    have hmul := Int.ediv_mul_le (-start) hstep.ne'
    have hlt := Int.lt_ediv_add_one_mul_self (-start) hstep
    refine ⟨⟨by linarith, Dvd.intro_left _ rfl⟩, ?_⟩
    rintro m ⟨hm, c, rfl⟩
    -- a smaller multiple would lie below the start
    have hc : -(-start / step) ≤ c := by
      by_contra hlt'
      have hc : c + 1 ≤ -(-start / step) := by omega
      have := mul_le_mul_of_nonneg_right hc hstep.le
      linarith
    rw [mul_comm step c]
    exact mul_le_mul_of_nonneg_right hc hstep.le
  simp only [anchor]
  split
  · rename_i hlt
    rw [Option.some.injEq]
    constructor
    · rintro rfl
      exact ⟨hleast, hlt⟩
    · rintro ⟨ha, _⟩
      exact hleast.unique ha
  · rename_i hge
    constructor
    · intro hnone
      cases hnone
    · rintro ⟨ha, hlt⟩
      rw [← hleast.unique ha] at hlt
      exact absurd hlt hge

/-- The walk from a piece's first grid time reaches the start: on the grid, from the opening
or from that time on, in a piece that opens before it closes, and over by its closing. -/
structure OnWalk (zone : Zone) (day duration step : ℤ) (piece : ℤ × ℤ) (at_ t : ℤ) : Prop where
  onGrid : ∃ k : ℤ, t = toUtc zone day at_ + k * (step * minute)
  reached : toUtc zone day piece.1 ≤ t ∨ toUtc zone day at_ ≤ t
  opened : toUtc zone day piece.1 < toUtc zone day piece.2
  ends : t + duration * minute ≤ toUtc zone day piece.2

/-- The walk back ends at the first grid time from the opening on, or stays before it. -/
theorem walkBack_reached {opens stride : ℤ} (hstride : 0 < stride) (start : ℤ) :
    ∃ k : ℤ, walkBack opens stride hstride start = start + k * stride ∧
      ∀ j : ℤ, k ≤ j ↔ opens ≤ start + j * stride ∨ start ≤ start + j * stride := by
  obtain ⟨⟨k, hk⟩, hback, hfrom⟩ := @walkBack_spec opens stride hstride start
  rcases le_or_gt opens start with hopens | hlate
  · have hfrom := hfrom hopens
    rw [hk] at hback hfrom
    refine ⟨k, hk, fun j => ⟨fun hkj => Or.inl ?_, fun hreached => ?_⟩⟩
    · have hle := mul_le_mul_of_nonneg_right hkj hstride.le
      linarith
    · by_contra hlt
      have hle : (j + 1) * stride ≤ k * stride :=
        mul_le_mul_of_nonneg_right (by omega) hstride.le
      rcases hreached with hreached | hreached <;> linarith
  · have hstays : walkBack opens stride hstride start = start := by
      rw [walkBack, if_neg (by omega)]
    refine ⟨0, by rw [hstays]; ring, fun j => ⟨fun hj => Or.inr ?_, fun hreached => ?_⟩⟩
    · have hnonneg := mul_nonneg hj hstride.le
      linarith
    · by_contra hlt
      have hneg : (j + 1) * stride ≤ 0 * stride :=
        mul_le_mul_of_nonneg_right (by omega) hstride.le
      rcases hreached with hreached | hreached <;> linarith

/-- **The starts of a piece**, in any zone. -/
theorem mem_pieceSlots_iff {zone : Zone} {day duration step : ℤ} (hstep : 0 < step)
    {free : ℤ → Bool} {piece : ℤ × ℤ} {t : ℤ} :
    t ∈ pieceSlots zone duration step hstep free day piece ↔
      ∃ at_, anchor piece.1 step = some at_ ∧ OnWalk zone day duration step piece at_ t ∧
        free t = true := by
  have hstride : 0 < step * minute := by rw [minute]; omega
  simp only [pieceSlots]
  split
  · rename_i hnone
    rw [hnone]
    simp
  · rename_i at_ hsome
    simp only [hsome, Option.some.injEq, exists_eq_left']
    obtain ⟨k, hk, hreached⟩ := @walkBack_reached (toUtc zone day piece.1) _ hstride
      (toUtc zone day at_)
    split
    · rename_i hshut
      constructor
      · intro hmem
        cases hmem
      · intro h
        exact absurd h.1.opened (not_lt.mpr hshut)
    · rename_i hopen
      rw [mem_walkOn, hk]
      constructor
      · rintro ⟨⟨j, hj, rfl⟩, hcloses, hfree⟩
        have heq : toUtc zone day at_ + k * (step * minute) + j * (step * minute) =
            toUtc zone day at_ + (k + j) * (step * minute) := by ring
        rw [heq] at hcloses hfree ⊢
        exact ⟨⟨⟨k + j, rfl⟩, (hreached _).mp (by omega), not_le.mp hopen, hcloses⟩, hfree⟩
      · rintro ⟨⟨⟨j, rfl⟩, hfar, _, hcloses⟩, hfree⟩
        have hkj := (hreached j).mpr hfar
        exact ⟨⟨j - k, by omega, by ring⟩, hcloses, hfree⟩

/-- `t` is on the grid of the piece and its appointment lies inside it. -/
structure OnPiece (zone : Zone) (day duration step : ℤ) (piece : ℤ × ℤ) (t : ℤ) :
    Prop where
  onGrid : ∃ start, IsLeast {m | piece.1 ≤ m ∧ step ∣ m} start ∧ start < dayMinutes ∧
    ∃ k : ℤ, t = toUtc zone day start + k * (step * minute)
  inside : Set.Ico t (t + duration * minute) ⊆
    Set.Ico (toUtc zone day piece.1) (toUtc zone day piece.2)

/-- In a zone in which `to_utc` never goes back, a start of the walk is one inside the piece. -/
theorem mem_pieceSlots {zone : Zone} (hzone : zone.Forward) {day duration step : ℤ}
    (hduration : 0 < duration) (hstep : 0 < step) {free : ℤ → Bool} {piece : ℤ × ℤ}
    {t : ℤ} : t ∈ pieceSlots zone duration step hstep free day piece ↔
      OnPiece zone day duration step piece t ∧ free t = true := by
  have hlen : t < t + duration * minute := by rw [minute]; omega
  rw [mem_pieceSlots_iff hstep]
  constructor
  · rintro ⟨at_, hanchor, hwalk, hfree⟩
    obtain ⟨hleast, hmidnight⟩ := (anchor_eq_some hstep).mp hanchor
    obtain ⟨k, hk⟩ := hwalk.onGrid
    have hopens : toUtc zone day piece.1 ≤ toUtc zone day at_ :=
      toUtc_mono hzone (by have := hleast.1.1; omega)
    refine ⟨⟨⟨at_, hleast, hmidnight, k, hk⟩, ?_⟩, hfree⟩
    exact (Set.Ico_subset_Ico_iff hlen).mpr ⟨hwalk.reached.elim id hopens.trans, hwalk.ends⟩
  · rintro ⟨⟨⟨start, hleast, hmidnight, hgrid⟩, hinside⟩, hfree⟩
    obtain ⟨hopens, hcloses⟩ := (Set.Ico_subset_Ico_iff hlen).mp hinside
    exact ⟨start, (anchor_eq_some hstep).mpr ⟨hleast, hmidnight⟩,
      ⟨hgrid, Or.inl hopens, by linarith, hcloses⟩, hfree⟩

/-! ## § Nothing busy in the way -/

/-- Not before `earliest`, the appointment clear of time off and of bookings
with their buffers, and its own buffer clear of the next booking. -/
structure Free (timeOff : List (ℤ × ℤ)) (booked : List Booked)
    (duration buffer pct earliest t : ℤ) : Prop where
  noticed : earliest ≤ t
  working : ∀ x ∈ timeOff, ¬ Meets x t (t + duration * minute)
  after : ∀ b ∈ booked, ¬ Meets (b.startsAt, b.endsAt +
    bufferFor ((b.endsAt - b.startsAt) / minute) b.override pct * minute)
      t (t + duration * minute)
  before : ∀ b ∈ booked, ¬ Meets (b.startsAt, b.endsAt) t (t + (duration + buffer) * minute)

theorem Booked.buffer_nonneg (b : Booked) {pct : ℤ} (hpct : 0 ≤ pct) :
    0 ≤ bufferFor ((b.endsAt - b.startsAt) / minute) b.override pct := by
  refine bufferFor_nonneg ?_ hpct b.tail
  have := b.ordered
  rw [minute]
  omega

/-- The test of the walk is `Free`. -/
theorem free_iff {timeOff : List (ℤ × ℤ)} {booked : List Booked}
    {duration buffer pct earliest t : ℤ} (hoff : ∀ x ∈ timeOff, x.1 ≤ x.2)
    (hduration : 0 < duration) (hbuffer : 0 ≤ buffer) (hpct : 0 ≤ pct) :
    ((decide (earliest ≤ t) &&
      !overlaps (merged (blockedBy timeOff booked pct)) t (t + duration * minute)) &&
      !overlaps (merged (booked.map fun b => (b.startsAt, b.endsAt))) t
        (t + (duration + buffer) * minute)) = true ↔
      Free timeOff booked duration buffer pct earliest t := by
  have hlen : t < t + duration * minute := by rw [minute]; omega
  have htail : t < t + (duration + buffer) * minute := by rw [minute]; omega
  have hraw : ∀ x ∈ booked.map fun b => (b.startsAt, b.endsAt), x.1 ≤ x.2 := by
    intro x hx
    obtain ⟨b, _, rfl⟩ := List.mem_map.mp hx
    exact b.ordered.le
  have hblocked : ∀ x ∈ blockedBy timeOff booked pct, x.1 ≤ x.2 := by
    intro x hx
    rcases List.mem_append.mp hx with hx | hx
    · exact hoff x hx
    · obtain ⟨b, _, rfl⟩ := List.mem_map.mp hx
      have h1 := b.ordered
      have h2 := b.buffer_nonneg hpct
      simp only [minute] at h2 ⊢
      omega
  rw [Bool.and_eq_true, Bool.and_eq_true, decide_eq_true_eq, Bool.not_eq_true',
    Bool.not_eq_true', ← Bool.not_eq_true, ← Bool.not_eq_true,
    overlaps_merged hblocked hlen, overlaps_merged hraw htail]
  constructor
  · rintro ⟨⟨hnotice, hblock⟩, hbook⟩
    refine ⟨hnotice, ?_, ?_, ?_⟩
    · exact fun x hx hm => hblock ⟨x, List.mem_append_left _ hx, hm⟩
    · exact fun b hb hm =>
        hblock ⟨_, List.mem_append_right _ (List.mem_map.mpr ⟨b, hb, rfl⟩), hm⟩
    · exact fun b hb hm => hbook ⟨_, List.mem_map.mpr ⟨b, hb, rfl⟩, hm⟩
  · intro hf
    refine ⟨⟨hf.noticed, ?_⟩, ?_⟩
    · rintro ⟨x, hx, hm⟩
      rcases List.mem_append.mp hx with hx | hx
      · exact hf.working x hx hm
      · obtain ⟨b, hb, rfl⟩ := List.mem_map.mp hx
        exact hf.after b hb hm
    · rintro ⟨x, hx, hm⟩
      obtain ⟨b, hb, rfl⟩ := List.mem_map.mp hx
      exact hf.before b hb hm

/-- **The slot finder, before the meaning of pieces.** -/
theorem mem_memberSlots {rows : List Row} {timeOff : List (ℤ × ℤ)} {booked : List Booked}
    {opening : List (ℤ × List (ℤ × ℤ))} {zone : Zone}
    {first last duration buffer pct step earliest t : ℤ} (hzone : zone.Forward)
    (hoff : ∀ x ∈ timeOff, x.1 ≤ x.2) (hduration : 0 < duration) (hbuffer : 0 ≤ buffer)
    (hpct : 0 ≤ pct) (hstep : 0 < step) :
    t ∈ memberSlots rows timeOff booked opening zone first last duration buffer pct step
        earliest hstep ↔
      (∃ day, (first ≤ day ∧ day ≤ last) ∧ ∃ piece ∈ pieces rows opening day,
        OnPiece zone day duration step piece t) ∧
      Free timeOff booked duration buffer pct earliest t := by
  simp only [memberSlots, List.mem_flatMap, mem_localDays, mem_pieceSlots hzone hduration,
    free_iff hoff hduration hbuffer hpct]
  constructor
  · rintro ⟨day, hday, piece, hpiece, hon, hf⟩
    exact ⟨⟨day, hday, piece, hpiece, hon⟩, hf⟩
  · rintro ⟨⟨day, hday, piece, hpiece, hon⟩, hf⟩
    exact ⟨day, hday, piece, hpiece, hon, hf⟩

/-! ## § The declarative meaning -/

/-- A piece of the day: a joined shift of the worker, cut by one joined opening
interval of that weekday when the business has any opening hours. -/
def IsPiece (rows openingRows : List Row) (day : ℤ) (piece : ℤ × ℤ) : Prop :=
  ∃ shift, IsRun (Works rows (isoweekday day)) shift ∧
    if openingRows = [] then piece = shift
    else ∃ opening, IsRun (Works openingRows (isoweekday day)) opening ∧
      piece = (max shift.1 opening.1, min shift.2 opening.2) ∧ piece.1 < piece.2

/-- The declarative meaning of a bookable start. -/
def Bookable (rows openingRows : List Row) (timeOff : List (ℤ × ℤ)) (booked : List Booked)
    (zone : Zone) (first last duration buffer pct step earliest t : ℤ) : Prop :=
  ∃ day, first ≤ day ∧ day ≤ last ∧ ∃ piece, IsPiece rows openingRows day piece ∧
    OnPiece zone day duration step piece t ∧
    earliest ≤ t ∧
    (∀ x ∈ timeOff, Disjoint (Set.Ico t (t + duration * minute)) (Set.Ico x.1 x.2)) ∧
    (∀ b ∈ booked, Disjoint (Set.Ico t (t + duration * minute))
      (Set.Ico b.startsAt (b.endsAt +
        bufferFor ((b.endsAt - b.startsAt) / minute) b.override pct * minute))) ∧
    ∀ b ∈ booked, Disjoint (Set.Ico t (t + (duration + buffer) * minute))
      (Set.Ico b.startsAt b.endsAt)

theorem mem_pieces {rows openingRows : List Row} (hrows : NonOverlapping rows)
    (hopening : NonOverlapping openingRows) {day : ℤ} {piece : ℤ × ℤ} :
    piece ∈ pieces rows (byWeekday openingRows) day ↔ IsPiece rows openingRows day piece := by
  simp only [pieces, IsPiece, byWeekday_eq_nil, lookup_byWeekday]
  by_cases hnone : openingRows = []
  · simp only [if_pos hnone]
    rw [mem_dayShifts hrows]
    constructor
    · exact fun h => ⟨piece, h, rfl⟩
    · rintro ⟨shift, hshift, rfl⟩
      exact hshift
  · simp only [if_neg hnone, clip, List.mem_flatMap, List.mem_filterMap]
    constructor
    · rintro ⟨shift, hshift, opening, hopen, hpiece⟩
      split at hpiece
      · rename_i hlt
        rw [Option.some.injEq] at hpiece
        refine ⟨shift, (mem_dayShifts hrows).mp hshift, opening,
          (mem_dayShifts hopening).mp hopen, hpiece.symm, ?_⟩
        rw [← hpiece]
        exact hlt
      · cases hpiece
    · rintro ⟨shift, hshift, opening, hopen, rfl, hlt⟩
      exact ⟨shift, (mem_dayShifts hrows).mpr hshift, opening,
        (mem_dayShifts hopening).mpr hopen, if_pos hlt⟩

theorem not_meets_iff_disjoint {x : ℤ × ℤ} {a b : ℤ} (hx : x.1 < x.2) (hab : a < b) :
    ¬ Meets x a b ↔ Disjoint (Set.Ico a b) (Set.Ico x.1 x.2) := by
  rw [Set.Ico_disjoint_Ico, Meets]
  omega

/-- **The slot finder is sound and complete.** -/
theorem memberSlots_iff_bookable {rows openingRows : List Row} {timeOff : List (ℤ × ℤ)}
    {booked : List Booked} {zone : Zone}
    {first last duration buffer pct step earliest : ℤ} (hzone : zone.Forward)
    (hrows : NonOverlapping rows) (hopening : NonOverlapping openingRows)
    (hoff : ∀ x ∈ timeOff, x.1 < x.2) (hduration : 0 < duration) (hbuffer : 0 ≤ buffer)
    (hpct : 0 ≤ pct) (hstep : 0 < step) (t : ℤ) :
    t ∈ memberSlots rows timeOff booked (byWeekday openingRows) zone first last duration
        buffer pct step earliest hstep ↔
      Bookable rows openingRows timeOff booked zone first last duration buffer pct step
        earliest t := by
  have hlen : t < t + duration * minute := by rw [minute]; omega
  have htail : t < t + (duration + buffer) * minute := by rw [minute]; omega
  have hextended : ∀ b : Booked, b.startsAt < b.endsAt +
      bufferFor ((b.endsAt - b.startsAt) / minute) b.override pct * minute := by
    intro b
    have h1 := b.ordered
    have h2 := b.buffer_nonneg hpct
    simp only [minute] at h2 ⊢
    omega
  rw [mem_memberSlots hzone (fun x hx => (hoff x hx).le) hduration hbuffer hpct hstep]
  constructor
  · rintro ⟨⟨day, ⟨hfirst, hlast⟩, piece, hpiece, hon⟩, hfree⟩
    refine ⟨day, hfirst, hlast, piece, (mem_pieces hrows hopening).mp hpiece, hon,
      hfree.noticed, ?_, ?_, ?_⟩
    · exact fun x hx => (not_meets_iff_disjoint (hoff x hx) hlen).mp (hfree.working x hx)
    · exact fun b hb => (not_meets_iff_disjoint (hextended b) hlen).mp (hfree.after b hb)
    · exact fun b hb => (not_meets_iff_disjoint b.ordered htail).mp (hfree.before b hb)
  · rintro ⟨day, hfirst, hlast, piece, hpiece, hon, hnotice, hoff', hafter, hbefore⟩
    refine ⟨⟨day, ⟨hfirst, hlast⟩, piece, (mem_pieces hrows hopening).mpr hpiece, hon⟩,
      hnotice, ?_, ?_, ?_⟩
    · exact fun x hx => (not_meets_iff_disjoint (hoff x hx) hlen).mpr (hoff' x hx)
    · exact fun b hb => (not_meets_iff_disjoint (hextended b) hlen).mpr (hafter b hb)
    · exact fun b hb => (not_meets_iff_disjoint b.ordered htail).mpr (hbefore b hb)

/-! ## § A zone that goes back on itself -/

theorem memberSlots_iff_bookable_morning :
    Bookable [morning] [] [] [⟨600 * minute, 630 * minute, some 15, by decide, by decide⟩]
      (Zone.fixed 60) 0 0 30 0 20 30 0 (480 * minute) :=
  (memberSlots_iff_bookable (Zone.Spaced.forward (by decide)) (by decide) (by decide)
    (by decide) (by decide) (by decide) (by decide) (by decide) (480 * minute)).mp
    (by decide +kernel)

/-- An hour forward at 10:00 UTC, and back again half an hour later. -/
def bouncingZone : Zone := ⟨0, [(600, 60), (630, 0)], by decide⟩

def lateMorning : Row := ⟨4, 640, 760, morning.iso, by decide, by decide⟩

/-- The grid starts at 11:00 local, shown at 10:00 UTC, before the shift opens:
10:40 local is 10:40 UTC. -/
theorem memberSlots_before_opening :
    600 * minute ∈ memberSlots [lateMorning] [] [] (byWeekday []) bouncingZone 0 0 30 0 0 60 0
      (by decide) ∧
    ¬ Bookable [lateMorning] [] [] [] bouncingZone 0 0 30 0 0 60 0 (600 * minute) := by
  refine ⟨by decide +kernel, ?_⟩
  rintro ⟨day, hfirst, hlast, piece, ⟨shift, hshift, hpiece⟩, hon, _⟩
  have hday : day = 0 := le_antisymm hlast hfirst
  subst hday
  rw [if_pos rfl] at hpiece
  have hmem : shift ∈ dayShifts [lateMorning] (isoweekday 0) :=
    (mem_dayShifts (by decide)).mpr hshift
  have hshifts : dayShifts [lateMorning] (isoweekday 0) = [(640, 760)] := by decide
  rw [hshifts, List.mem_singleton] at hmem
  subst hpiece hmem
  have hopens : toUtc bouncingZone 0 640 = 640 * minute := by decide +kernel
  have hinside := (Set.Ico_subset_Ico_iff (by decide)).mp hon.inside
  rw [hopens] at hinside
  exact absurd hinside.1 (by decide)

end Ziftbook
