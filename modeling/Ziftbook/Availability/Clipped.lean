import Ziftbook.Availability.Slots
import Ziftbook.Hours

/-!
# Shifts cut to the opening hours

What is offered is cut by `clip`; what is saved is refused by `within`. On
shifts as `day_shifts` returns them, the two agree about what lies inside the
opening hours.
-/

namespace Ziftbook

open Foundation.Intervals

theorem clip_eq_inter (shifts envelope : List (ℤ × ℤ)) :
    clip shifts envelope = inter shifts envelope := rfl

/-- A weekday's joined shifts are sorted, apart and not empty. -/
theorem spans_dayShifts {rows : List Row} (h : NonOverlapping rows) (weekday : ℤ) :
    Spans (dayShifts rows weekday) :=
  ⟨(separated_dayShifts h weekday).apart, dayShifts_nonempty h weekday⟩

/-- **`clip` is intersection.** It covers what both lists cover, its pieces are again sorted,
apart and not empty, and it cuts nothing away exactly where every shift is `within` the
opening hours. -/
theorem clip_intersects {shifts envelope : List (ℤ × ℤ)} (hshifts : Spans shifts)
    (henvelope : Spans envelope) :
    (∀ p, Covers (clip shifts envelope) p ↔ Covers shifts p ∧ Covers envelope p) ∧
      Spans (clip shifts envelope) ∧
      ((∀ shift ∈ shifts, within shift envelope) ↔ clip shifts envelope = shifts) := by
  rw [clip_eq_inter]
  exact ⟨covers_inter shifts envelope, hshifts.inter henvelope,
    (inter_eq_left_iff hshifts henvelope).symm⟩

/-- Two shifts beside opening hours that touch neither end of them. -/
theorem clip_intersects_lunch :
    let shifts : List (ℤ × ℤ) := [(540, 720), (780, 1020)]
    let envelope : List (ℤ × ℤ) := [(600, 960)]
    (∀ p, Covers (clip shifts envelope) p ↔ Covers shifts p ∧ Covers envelope p) ∧
      Spans (clip shifts envelope) ∧
      ((∀ shift ∈ shifts, within shift envelope) ↔ clip shifts envelope = shifts) :=
  clip_intersects ⟨by decide, by decide⟩ ⟨by decide, by decide⟩

/-! ## § A week that was saved is offered uncut -/

/-- Rows each within the opening hours are joined to shifts that lie inside them. -/
theorem clip_of_within {rows opening : List Row} (hrows : NonOverlapping rows)
    (hopening : NonOverlapping opening)
    (hin : ∀ r ∈ rows, within (r.startsAt, r.endsAt) (dayShifts opening r.weekday)) (weekday : ℤ) :
    clip (dayShifts rows weekday) (dayShifts opening weekday) = dayShifts rows weekday := by
  have hshifts := spans_dayShifts hrows weekday
  have henvelope := spans_dayShifts hopening weekday
  refine (hshifts.inter henvelope).ext hshifts fun p => ?_
  rw [covers_inter]
  constructor
  · exact And.left
  · intro hp
    obtain ⟨r, hr, hday, hstart, hend⟩ := (covers_dayShifts hrows).mp hp
    obtain ⟨opens, hopens, hlow, hhigh⟩ := hday ▸ hin r hr
    exact ⟨hp, opens, hopens, hlow.trans hstart, hend.trans_le hhigh⟩

/-- The rows a save stored, and where they lie. -/
theorem replaceWeek_eq_ok {db : Db} {current : Session} {editOwn : Bool} {memberId : ℕ}
    {shifts : List Shift} {saved : SavedWeek}
    (h : replaceWeek db current editOwn memberId shifts = .ok saved) :
    ∃ stored, saved = db.saveWeek memberId stored ∧ NonOverlapping stored ∧
      (db.openingHours ≠ [] → ∀ r ∈ stored,
        within (r.startsAt, r.endsAt) (dayShifts db.openingHours r.weekday)) := by
  simp only [replaceWeek, found_bind_eq_ok, require_bind_eq_ok] at h
  obtain ⟨rows, _, _, _, _, h⟩ := h
  obtain ⟨stored, hstored, h⟩ := bind_eq_ok.mp h
  refine ⟨stored, ?_, nonOverlapping_of_checkedRows hstored, ?_⟩
  · split_ifs at h
    · cases hout : outside (rows.insertionSort parsedLE) (byWeekday db.openingHours) with
      | some weekday => rw [hout] at h; cases h
      | none => rw [hout] at h; cases h; rfl
    · cases h
      rfl
  · intro hopen r hr
    obtain ⟨hends, _, rfl⟩ := checkedRows_eq_ok.mp hstored
    obtain ⟨parsed, hparsed, rfl⟩ := List.mem_pmap.mp hr
    rw [if_pos (byWeekday_eq_nil.not.mpr hopen)] at h
    cases hout : outside (rows.insertionSort parsedLE) (byWeekday db.openingHours) with
    | some weekday => rw [hout] at h; cases h
    | none =>
        have hin := outside_eq_none.mp hout parsed hparsed
        rwa [lookup_byWeekday] at hin

theorem weekOf_saveWeek (db : Db) (memberId : ℕ) (stored : List Row) :
    (db.saveWeek memberId stored).db.weekOf memberId = stored := by
  simp only [Db.saveWeek, Db.weekOf, List.filter_append, List.map_append, List.filter_filter,
    List.filter_map, List.map_map]
  have hold : db.workingHours.filter (fun w => decide (w.memberId = memberId) &&
      decide (w.memberId ≠ memberId)) = [] := by
    simp
  rw [hold]
  simp [Function.comp_def]

/-- **A saved week is offered uncut**: on every day the pieces walked are the member's own
shifts. -/
theorem pieces_of_saved {db : Db} {current : Session} {editOwn : Bool} {memberId : ℕ}
    {shifts : List Shift} {saved : SavedWeek} (hopening : NonOverlapping db.openingHours)
    (h : replaceWeek db current editOwn memberId shifts = .ok saved) (day : ℤ) :
    pieces (saved.db.weekOf memberId) (byWeekday saved.db.openingHours) day =
      dayShifts (saved.db.weekOf memberId) (isoweekday day) := by
  obtain ⟨stored, rfl, hstored, hin⟩ := replaceWeek_eq_ok h
  rw [weekOf_saveWeek]
  show pieces stored (byWeekday db.openingHours) day = _
  rw [pieces]
  split_ifs with hnil
  · rfl
  · rw [lookup_byWeekday]
    exact clip_of_within hstored hopening (hin (byWeekday_eq_nil.not.mp hnil)) (isoweekday day)

end Ziftbook
