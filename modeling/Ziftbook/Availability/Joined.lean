import Ziftbook.Availability.Clipped

/-!
# What joined intervals answer

Busy time is joined by `merged`, a weekday's rows by `day_shifts`. What is asked of the
joined lists, and of the neighbours of a sorted one by `overlapping`, is answered as if
every interval entered were looked at.
-/

namespace Ziftbook

open Foundation.Intervals

/-! ## § Busy time -/

theorem spans_merged {xs : List (ℤ × ℤ)} (h : ∀ x ∈ xs, x.1 < x.2) : Spans (merged xs) :=
  ⟨(merged_separated fun x hx => (h x hx).le).apart,
    sweep_nonempty fun x hx => h x ((List.mem_insertionSort pairLE).mp hx)⟩

theorem covers_merged {xs : List (ℤ × ℤ)} (h : ∀ x ∈ xs, x.1 < x.2) (p : ℤ) :
    Covers (merged xs) p ↔ Covers xs p := by
  rw [merged, covers_sweep (sorted_by_start xs)]
  · simp [Covers, List.mem_insertionSort]
  · exact fun x hx => (h x ((List.mem_insertionSort pairLE).mp hx)).le

/-- **Merged busy lists answer overlap exactly**, and say what was merged: they are sorted,
apart and not empty, and cover the union. -/
theorem merged_answers {xs : List (ℤ × ℤ)} (h : ∀ x ∈ xs, x.1 < x.2) :
    (∀ a b, a < b → (overlaps (merged xs) a b = true ↔
      ∃ x ∈ xs, ∃ p, (x.1 ≤ p ∧ p < x.2) ∧ a ≤ p ∧ p < b)) ∧
    Spans (merged xs) ∧ ∀ p, Covers (merged xs) p ↔ Covers xs p := by
  refine ⟨fun a b hab => ?_, spans_merged h, covers_merged h⟩
  rw [overlaps_merged (fun x hx => (h x hx).le) hab]
  exact exists_congr fun x => and_congr_right fun hx => meets_iff_exists (h x hx) hab

/-- Nested, equal and touching intervals, asked about the minute after them. -/
theorem merged_answers_nested :
    let xs : List (ℤ × ℤ) := [(4, 6), (0, 10), (0, 10), (10, 12)]
    (overlaps (merged xs) 12 13 = true ↔ ∃ x ∈ xs, ∃ p, (x.1 ≤ p ∧ p < x.2) ∧ 12 ≤ p ∧ p < 13) ∧
      Spans (merged xs) := by
  intro xs
  have hall := @merged_answers xs (by decide)
  exact ⟨hall.1 12 13 (by decide), hall.2.1⟩

/-! ## § A week's rows -/

/-- The rows share a minute of one weekday. -/
def Parsed.Shares (r s : Parsed) : Prop :=
  r.weekday = s.weekday ∧ ∃ m, (r.startsAt.minutes ≤ m ∧ m < r.endsAt.minutes) ∧
    s.startsAt.minutes ≤ m ∧ m < s.endsAt.minutes

/-- Rows are apart, or share a minute. -/
theorem Parsed.shares_iff {r s : Parsed} (hr : r.startsAt.minutes < r.endsAt.minutes)
    (hs : s.startsAt.minutes < s.endsAt.minutes) : r.Shares s ↔ ¬ r.Apart s := by
  have hmeets := @meets_iff_exists ℤ _ r.span _ _ hr hs
  refine (and_congr_right fun _ => hmeets.symm).trans ?_
  rw [Parsed.Apart, Classical.not_imp]
  refine and_congr_right fun _ => ?_
  simp only [Meets, Parsed.span]
  omega

theorem overlapping_eq_true {rows : List Parsed}
    (hends : ∀ r ∈ rows, r.startsAt.minutes < r.endsAt.minutes) :
    overlapping rows = true ↔
      ∃ i j, ∃ (_ : i < j) (_ : j < rows.length), rows[i].Shares rows[j] := by
  rw [← Bool.not_eq_false, overlapping_eq_false hends, List.pairwise_iff_getElem]
  have hshares : ∀ {i j} (hi : i < rows.length) (hj : j < rows.length),
      rows[i].Shares rows[j] ↔ ¬ rows[i].Apart rows[j] := fun hi hj =>
    Parsed.shares_iff (hends _ (List.getElem_mem hi)) (hends _ (List.getElem_mem hj))
  constructor
  · intro hover
    by_contra hnone
    refine hover fun i j hi hj hij => by_contra fun hboth => hnone ?_
    exact ⟨i, j, hij, hj, (hshares hi hj).mpr hboth⟩
  · rintro ⟨i, j, hij, hj, hboth⟩ hapart
    exact (hshares (hij.trans hj) hj).mp hboth (hapart i j _ hj hij)

theorem nonOverlapping_pmap {rows : List Parsed}
    (hends : ∀ r ∈ rows, r.startsAt.minutes < r.endsAt.minutes) (h : overlapping rows = false) :
    NonOverlapping (rows.pmap Parsed.row hends) :=
  nonOverlapping_of_checkedRows
    (checkedRows_eq_ok.mpr ⟨hends, (overlapping_eq_false hends).mp h, rfl⟩)

theorem works_pmap {rows : List Parsed}
    (hends : ∀ r ∈ rows, r.startsAt.minutes < r.endsAt.minutes) {weekday m : ℤ} :
    Works (rows.pmap Parsed.row hends) weekday m ↔
      ∃ r ∈ rows, r.weekday = weekday ∧ r.startsAt.minutes ≤ m ∧ m < r.endsAt.minutes := by
  constructor
  · rintro ⟨stored, hstored, hworks⟩
    obtain ⟨r, hr, rfl⟩ := List.mem_pmap.mp hstored
    exact ⟨r, hr, hworks⟩
  · rintro ⟨r, hr, hworks⟩
    exact ⟨r.row (hends r hr), List.mem_pmap.mpr ⟨r, hr, rfl⟩, hworks⟩

/-- **Stored shifts mean what was entered.** `overlapping` finds a minute shared by two rows at
different places of the list; and where there is none, a weekday's joined shifts are sorted,
apart and not empty, and cover the minutes of its rows. -/
theorem shifts_mean_rows {rows : List Parsed}
    (hends : ∀ r ∈ rows, r.startsAt.minutes < r.endsAt.minutes) :
    (overlapping rows = true ↔
      ∃ i j, ∃ (_ : i < j) (_ : j < rows.length), rows[i].Shares rows[j]) ∧
    (overlapping rows = false → ∀ weekday,
      Spans (dayShifts (rows.pmap Parsed.row hends) weekday) ∧
      ∀ m, Covers (dayShifts (rows.pmap Parsed.row hends) weekday) m ↔
        ∃ r ∈ rows, r.weekday = weekday ∧ r.startsAt.minutes ≤ m ∧ m < r.endsAt.minutes) := by
  refine ⟨overlapping_eq_true hends, fun hfree weekday => ?_⟩
  have hrows := nonOverlapping_pmap hends hfree
  refine ⟨spans_dayShifts hrows weekday, fun m => ?_⟩
  rw [covers_dayShifts hrows, works_pmap hends]

/-- Thursday's afternoon, entered before the morning it touches. -/
def thursday : List Parsed :=
  [⟨4, ⟨720, by decide⟩, ⟨1020, by decide⟩, morning.iso⟩,
    ⟨4, ⟨540, by decide⟩, ⟨720, by decide⟩, morning.iso⟩]

theorem thursday_ends : ∀ r ∈ thursday, r.startsAt.minutes < r.endsAt.minutes := by decide

theorem shifts_mean_thursday :
    Spans (dayShifts (thursday.pmap Parsed.row thursday_ends) 4) ∧
      ∀ m, Covers (dayShifts (thursday.pmap Parsed.row thursday_ends) 4) m ↔
        ∃ r ∈ thursday, r.weekday = 4 ∧ r.startsAt.minutes ≤ m ∧ m < r.endsAt.minutes :=
  (shifts_mean_rows thursday_ends).2 (by decide) 4

end Ziftbook
