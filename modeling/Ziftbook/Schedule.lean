import Ziftbook.Foundation.Intervals
import Ziftbook.Zone

/-!
# The working week

Weekly rows in local time (`app/schedule.py`): a member's working hours and
the business's opening hours. One weekday's rows are joined into shifts where
they touch. A weekly row carries its table's CHECKs.
-/

namespace Ziftbook

open Foundation.Intervals

/-- A row of `working_hours` or `opening_hours`. -/
@[ext]
structure Row where
  weekday : ℤ
  startsAt : ℤ
  endsAt : ℤ
  iso : 1 ≤ weekday ∧ weekday ≤ 7
  ordered : startsAt < endsAt
  inDay : 0 ≤ startsAt ∧ endsAt < dayMinutes

instance : DecidableEq Row := fun _ _ => decidable_of_iff _ Row.ext_iff.symm

/-- Thursday, nine to noon. -/
def morning : Row := ⟨4, 540, 720, by decide, by decide, by decide⟩

/-- Friday, midnight to two. -/
def smallHours : Row := ⟨5, 0, 120, by decide, by decide, by decide⟩

/-- `date.isoweekday()`: day 0, 1970-01-01, is a Thursday. -/
def isoweekday (day : ℤ) : ℤ := (day + 3) % 7 + 1

theorem isoweekday_iso (day : ℤ) : 1 ≤ isoweekday day ∧ isoweekday day ≤ 7 := by
  unfold isoweekday
  omega

/-- Python's order on `(weekday, start, end)`. -/
def rowLE (r s : Row) : Prop :=
  toLex (r.weekday, toLex (r.startsAt, r.endsAt)) ≤
    toLex (s.weekday, toLex (s.startsAt, s.endsAt))

instance : DecidableRel rowLE := fun _ _ => inferInstanceAs (Decidable (_ ≤ _))

instance : Std.Total rowLE := ⟨fun _ _ => le_total _ _⟩

instance : IsTrans Row rowLE := ⟨fun _ _ _ => le_trans⟩

/-- The loop body of `day_shifts`, on the reversed list of shifts. -/
def joinTouching (joined : List (ℤ × ℤ)) (shift : ℤ × ℤ) : List (ℤ × ℤ) :=
  match joined with
  | [] => [shift]
  | last :: rest =>
      if shift.1 = last.2 then (last.1, shift.2) :: rest else shift :: last :: rest

/-- One weekday's shifts in local time, touching ones joined. -/
def dayShifts (rows : List Row) (weekday : ℤ) : List (ℤ × ℤ) :=
  ((((rows.filter fun r => r.weekday = weekday).insertionSort rowLE).map
    fun r => (r.startsAt, r.endsAt)).foldl joinTouching []).reverse

/-- Every weekday's joined shifts, keyed by weekday; a weekday with no rows is
absent. -/
def byWeekday (rows : List Row) : List (ℤ × List (ℤ × ℤ)) :=
  (rows.map Row.weekday).dedup.map fun weekday => (weekday, dayShifts rows weekday)

/-- No two rows at different places of the list share a minute of a weekday. -/
def NonOverlapping (rows : List Row) : Prop :=
  rows.Pairwise fun r s =>
    r.weekday = s.weekday → r.endsAt ≤ s.startsAt ∨ s.endsAt ≤ r.startsAt

instance (rows : List Row) : Decidable (NonOverlapping rows) :=
  inferInstanceAs (Decidable (List.Pairwise _ _))

/-- The minute is inside some row of the weekday. -/
def Works (rows : List Row) (weekday : ℤ) (m : ℤ) : Prop :=
  ∃ r ∈ rows, r.weekday = weekday ∧ r.startsAt ≤ m ∧ m < r.endsAt

/-! ## § Joined shifts are the maximal stretches worked -/

/-- The weekday's rows in the order `day_shifts` reads them. -/
def dayRows (rows : List Row) (weekday : ℤ) : List (ℤ × ℤ) :=
  ((rows.filter fun r => r.weekday = weekday).insertionSort rowLE).map
    fun r => (r.startsAt, r.endsAt)

theorem mem_dayRows {rows : List Row} {weekday : ℤ} {x : ℤ × ℤ} :
    x ∈ dayRows rows weekday ↔
      ∃ r ∈ rows, r.weekday = weekday ∧ (r.startsAt, r.endsAt) = x := by
  simp [dayRows, and_assoc]

/-- Sorted and non-overlapping: each row has ended when the next begins. -/
theorem dayRows_ordered {rows : List Row} (h : NonOverlapping rows) (weekday : ℤ) :
    (dayRows rows weekday).Pairwise fun x y => x.2 ≤ y.1 := by
  have hsorted := List.pairwise_insertionSort rowLE (rows.filter fun r => r.weekday = weekday)
  have hfree : ((rows.filter fun r => r.weekday = weekday).insertionSort rowLE).Pairwise
      fun r s => r.weekday = s.weekday → r.endsAt ≤ s.startsAt ∨ s.endsAt ≤ r.startsAt :=
    ((List.perm_insertionSort rowLE _).pairwise_iff fun h heq => (h heq.symm).symm).mpr
      (h.sublist List.filter_sublist)
  rw [dayRows, List.pairwise_map]
  refine (hsorted.and hfree).imp_of_mem ?_
  intro r s hr hs hrs
  simp only [List.mem_insertionSort, List.mem_filter, decide_eq_true_eq] at hr hs
  have hday : r.weekday = s.weekday := hr.2.trans hs.2.symm
  have hstart : r.startsAt ≤ s.startsAt := by
    have hle := (Prod.Lex.toLex_le_toLex'.mp hrs.1).2 hday
    exact (Prod.Lex.toLex_le_toLex'.mp hle).1
  rcases hrs.2 hday with h | h
  · exact h
  · have := s.ordered
    omega

/-- A row's interval is not empty. -/
theorem dayRows_nonempty (rows : List Row) (weekday : ℤ) :
    ∀ x ∈ dayRows rows weekday, x.1 < x.2 := by
  intro x hx
  obtain ⟨r, _, _, rfl⟩ := mem_dayRows.mp hx
  exact r.ordered

theorem dayRows_forward (rows : List Row) (weekday : ℤ) :
    ∀ x ∈ dayRows rows weekday, x.1 ≤ x.2 :=
  fun x hx => (dayRows_nonempty rows weekday x hx).le

theorem dayRows_starts {rows : List Row} (h : NonOverlapping rows) (weekday : ℤ) :
    (dayRows rows weekday).Pairwise fun x y => x.1 ≤ y.1 :=
  (dayRows_ordered h weekday).imp_of_mem fun hx _ hle =>
    (dayRows_forward rows weekday _ hx).trans hle

theorem covers_dayRows {rows : List Row} {weekday p : ℤ} :
    Covers (dayRows rows weekday) p ↔ Works rows weekday p := by
  constructor
  · rintro ⟨x, hx, hp⟩
    obtain ⟨r, hr, hday, rfl⟩ := mem_dayRows.mp hx
    exact ⟨r, hr, hday, hp⟩
  · rintro ⟨r, hr, hday, hp⟩
    exact ⟨_, mem_dayRows.mpr ⟨r, hr, hday, rfl⟩, hp⟩

/-- Where each interval has ended when the next begins, joining the touching
ones is the sweep. -/
theorem foldl_joinTouching {xs : List (ℤ × ℤ)} : ∀ {out : List (ℤ × ℤ)},
    (∀ x ∈ xs, x.1 < x.2) → xs.Pairwise (fun x y => x.2 ≤ y.1) →
    (∀ y ∈ out.head?, ∀ x ∈ xs, y.2 ≤ x.1) →
    xs.foldl joinTouching out = xs.foldl absorb out := by
  induction xs with
  | nil => intro _ _ _ _; rfl
  | cons x xs ih =>
      intro out hne hord hhead
      obtain ⟨hle, hord⟩ := List.pairwise_cons.mp hord
      have hx := hne x (List.mem_cons_self ..)
      have hstep : joinTouching out x = absorb out x := by
        cases out with
        | nil => rfl
        | cons last rest =>
            have hlast := hhead last (by simp) x (List.mem_cons_self ..)
            by_cases htouch : x.1 = last.2
            · simp only [joinTouching, absorb]
              rw [if_pos htouch, if_pos htouch.le, max_eq_right (by omega)]
            · simp only [joinTouching, absorb]
              rw [if_neg htouch, if_neg (by omega)]
      rw [List.foldl_cons, List.foldl_cons, ← hstep]
      refine ih (fun y hy => hne y (List.mem_cons_of_mem _ hy)) hord ?_
      intro y hy z hz
      have hend : y.2 = x.2 := by
        cases out with
        | nil =>
            simp only [joinTouching, List.head?_cons, Option.mem_some_iff] at hy
            rw [← hy]
        | cons last rest =>
            simp only [joinTouching] at hy
            split at hy <;>
              · simp only [List.head?_cons, Option.mem_some_iff] at hy
                rw [← hy]
      rw [hend]
      exact hle z hz

theorem dayShifts_eq_sweep {rows : List Row} (h : NonOverlapping rows) (weekday : ℤ) :
    dayShifts rows weekday = sweep (dayRows rows weekday) := by
  rw [sweep, ← foldl_joinTouching (dayRows_nonempty rows weekday) (dayRows_ordered h weekday)
    (by simp)]
  rfl

theorem separated_dayShifts {rows : List Row} (h : NonOverlapping rows) (weekday : ℤ) :
    Separated (dayShifts rows weekday) := by
  rw [dayShifts_eq_sweep h]
  exact sweep_separated (dayRows_starts h weekday) (dayRows_forward rows weekday)

theorem dayShifts_nonempty {rows : List Row} (h : NonOverlapping rows) (weekday : ℤ) :
    ∀ x ∈ dayShifts rows weekday, x.1 < x.2 := by
  rw [dayShifts_eq_sweep h]
  exact sweep_nonempty (dayRows_nonempty rows weekday)

theorem covers_dayShifts {rows : List Row} (h : NonOverlapping rows) {weekday p : ℤ} :
    Covers (dayShifts rows weekday) p ↔ Works rows weekday p := by
  rw [dayShifts_eq_sweep h, covers_sweep (dayRows_starts h weekday) (dayRows_forward rows weekday)]
  exact covers_dayRows

/-- **The joined shifts of a weekday are the maximal stretches of its rows.** -/
theorem mem_dayShifts {rows : List Row} (h : NonOverlapping rows) {weekday : ℤ}
    {x : ℤ × ℤ} : x ∈ dayShifts rows weekday ↔ IsRun (Works rows weekday) x := by
  rw [(separated_dayShifts h weekday).mem_iff_isRun (dayShifts_nonempty h weekday)]
  exact isRun_congr fun p => covers_dayShifts h

/-- A joined shift lies inside the day, overlapping rows or not. -/
theorem joinTouching_inDay {xs : List (ℤ × ℤ)} : ∀ {out : List (ℤ × ℤ)},
    (∀ x ∈ xs, 0 ≤ x.1 ∧ x.2 < dayMinutes) →
    (∀ x ∈ out, 0 ≤ x.1 ∧ x.2 < dayMinutes) →
    ∀ x ∈ xs.foldl joinTouching out, 0 ≤ x.1 ∧ x.2 < dayMinutes := by
  induction xs with
  | nil => intro out _ hout; exact hout
  | cons x xs ih =>
      intro out hxs hout
      have hx := hxs x (List.mem_cons_self ..)
      refine ih (fun y hy => hxs y (List.mem_cons_of_mem _ hy)) ?_
      intro y hy
      cases out with
      | nil => simp only [joinTouching, List.mem_singleton] at hy; exact hy ▸ hx
      | cons last rest =>
          simp only [joinTouching] at hy
          split at hy
          · rcases List.mem_cons.mp hy with rfl | hy
            · exact ⟨(hout last (List.mem_cons_self ..)).1, hx.2⟩
            · exact hout y (List.mem_cons_of_mem _ hy)
          · rcases List.mem_cons.mp hy with rfl | hy
            · exact hx
            · exact hout y hy

theorem dayShifts_inDay {rows : List Row} {weekday : ℤ} {x : ℤ × ℤ}
    (h : x ∈ dayShifts rows weekday) : 0 ≤ x.1 ∧ x.2 < dayMinutes := by
  rw [dayShifts, List.mem_reverse] at h
  have hrows : ∀ y ∈ dayRows rows weekday, 0 ≤ y.1 ∧ y.2 < dayMinutes := by
    intro y hy
    obtain ⟨r, _, _, rfl⟩ := mem_dayRows.mp hy
    exact r.inDay
  exact joinTouching_inDay hrows (by simp) x h

theorem byWeekday_eq_nil {rows : List Row} : byWeekday rows = [] ↔ rows = [] := by
  simp [byWeekday, List.dedup_eq_nil]

/-- `by_weekday(rows).get(weekday, [])` is the weekday's joined shifts. -/
theorem lookup_byWeekday (rows : List Row) (weekday : ℤ) :
    ((byWeekday rows).lookup weekday).getD [] = dayShifts rows weekday := by
  have main : ∀ days : List ℤ, (weekday ∈ days ∨ dayShifts rows weekday = []) →
      ((days.map fun d => (d, dayShifts rows d)).lookup weekday).getD [] =
        dayShifts rows weekday := by
    intro days
    induction days with
    | nil => rintro (h | h); cases h; simp [h]
    | cons d days ih =>
        intro h
        by_cases hd : weekday = d
        · subst hd
          simp
        · have hd' : (weekday == d) = false := by simpa using hd
          rw [List.map_cons, List.lookup_cons, hd']
          exact ih (by simpa [hd] using h)
  refine main _ ?_
  by_cases hmem : ∃ r ∈ rows, r.weekday = weekday
  · exact Or.inl (by simpa using hmem)
  · right
    have hnone : rows.filter (fun r => r.weekday = weekday) = [] := by
      simpa using fun r hr hday => hmem ⟨r, hr, hday⟩
    rw [dayShifts, hnone]
    rfl

end Ziftbook
