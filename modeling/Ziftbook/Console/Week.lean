import Ziftbook.Hours

/-!
# The week editor

`lib/week.ts`: the form's check of a week before a save, and the body it sends.
The form compares the texts of times; the server parses them. Both are brought
to one list of weekdays and intervals.
-/

namespace Ziftbook

open Foundation.Intervals Foundation.Neighbours

/-! ## § The form -/

/-- The form's `Shift`: two texts, empty until filled in. -/
structure FormShift where
  start : String
  stop : String
deriving DecidableEq

structure Day where
  weekday : ℤ
  shifts : List FormShift
deriving DecidableEq

/-- `WEEKDAYS`. -/
def weekdays : List ℤ := [1, 2, 3, 4, 5, 6, 7]

/-- The comparison by start puts `a` before `b`, or leaves them as they came. -/
def formLE (a b : FormShift) : Prop := a.start ≤ b.start

instance : DecidableRel formLE := fun _ _ => inferInstanceAs (Decidable (_ ≤ _))

def sortShifts (shifts : List FormShift) : List FormShift := shifts.insertionSort formLE

/-- The GET response as all seven weekdays. -/
def daysFromShifts (shifts : List Shift) : List Day :=
  weekdays.map fun weekday =>
    ⟨weekday, sortShifts ((shifts.filter fun s => s.weekday = weekday).map fun s =>
      ⟨s.startsAt, s.endsAt⟩)⟩

/-- No opening hours at all bound nothing. -/
def envelopeFromShifts (shifts : List Shift) : Option (List Day) :=
  if shifts.length = 0 then none else some (daysFromShifts shifts)

/-- The body's order: by weekday, then by start. -/
def bodyLE (a b : ℤ × FormShift) : Prop :=
  toLex (a.1, a.2.start) ≤ toLex (b.1, b.2.start)

instance : DecidableRel bodyLE := fun _ _ => inferInstanceAs (Decidable (_ ≤ _))

/-- The PUT body: every filled-in shift. -/
def weekBody (days : List Day) : List Shift :=
  ((days.flatMap fun day =>
    (day.shifts.filter fun s => s.start ≠ "" ∧ s.stop ≠ "").map fun s =>
      (day.weekday, s)).insertionSort bodyLE).map fun s => ⟨s.1, s.2.start, s.2.stop⟩

/-- The loop body of `joinShifts`, on the reversed list of shifts. -/
def joinForm (joined : List FormShift) (shift : FormShift) : List FormShift :=
  match joined with
  | [] => [shift]
  | last :: rest =>
      if shift.start = last.stop then ⟨last.start, shift.stop⟩ :: rest else shift :: last :: rest

/-- Touching shifts join. -/
def joinShifts (shifts : List FormShift) : List FormShift :=
  ((sortShifts shifts).foldl joinForm []).reverse

inductive DayProblem
  | timeRequired | endNotAfterStart | overlappingHours | outsideOpeningHours
deriving DecidableEq, Repr

inductive WeekProblem
  | openingHoursRequired | tooMany
deriving DecidableEq, Repr

structure WeekProblems where
  byDay : List (ℤ × DayProblem)
  overall : Option WeekProblem
deriving DecidableEq, Repr

/-- A weekday's entry of `new Map`, where a later one replaces an earlier. -/
def shiftsOn (envelope : List Day) (weekday : ℤ) : List FormShift :=
  ((envelope.map fun d => (d.weekday, d.shifts)).reverse.lookup weekday).getD []

/-- The first problem of a day, in the order the form looks for them. -/
def dayProblem (envelope : Option (List Day)) (day : Day) : Option DayProblem :=
  if day.shifts = [] then none
  else if day.shifts.any fun s => s.start = "" ∨ s.stop = "" then some .timeRequired
  else
    let sorted := sortShifts day.shifts
    if sorted.any fun s => ¬ s.start < s.stop then some .endNotAfterStart
    else if anyNeighbours (fun before shift => shift.start < before.stop) sorted then
      some .overlappingHours
    else if envelope.getD [] ≠ [] then
      let windows := joinShifts (shiftsOn (envelope.getD []) day.weekday)
      if sorted.all fun shift => windows.any fun w =>
          ¬ shift.start < w.start ∧ ¬ w.stop < shift.stop then none
      else some .outsideOpeningHours
    else none

def weekProblems (days : List Day) (envelope : Option (List Day)) (allowEmptyWeek : Bool) :
    WeekProblems :=
  let byDay := days.filterMap fun day => (dayProblem envelope day).map fun p => (day.weekday, p)
  let totalShifts : ℕ := (days.map fun day => day.shifts.length).sum
  let anyOpen := days.any fun day => day.shifts ≠ []
  if 50 < totalShifts then ⟨byDay, some .tooMany⟩
  else if ¬ anyOpen ∧ ¬ allowEmptyWeek then ⟨byDay, some .openingHoursRequired⟩
  else ⟨byDay, none⟩

/-- Nothing to report. -/
def WeekProblems.clear (w : WeekProblems) : Prop := w.byDay = [] ∧ w.overall = none

/-! ## § Complete times -/

/-- Both times are filled in. -/
def FormShift.Complete (s : FormShift) : Prop := (hhmm s.start).isSome ∧ (hhmm s.stop).isSome

instance (s : FormShift) : Decidable s.Complete := inferInstanceAs (Decidable (_ ∧ _))

/-- The minute of the day a text names. -/
def minutesOf (s : String) : ℤ := ((hhmm s).map TimeOfDay.minutes).getD 0

def FormShift.span (s : FormShift) : ℤ × ℤ := (minutesOf s.start, minutesOf s.stop)

theorem minutesOf_text (t : TimeOfDay) : minutesOf t.text = t.minutes := by
  rw [minutesOf, hhmm_text]
  rfl

/-- A complete text is the text of its time. -/
theorem exists_text {s : String} (h : (hhmm s).isSome) : ∃ t : TimeOfDay, s = t.text := by
  obtain ⟨t, ht⟩ := Option.isSome_iff_exists.mp h
  exact ⟨t, eq_text_of_hhmm ht⟩

/-- **Complete texts are compared as their minutes.** -/
theorem lt_iff_minutesOf {s t : String} (hs : (hhmm s).isSome) (ht : (hhmm t).isSome) :
    s < t ↔ minutesOf s < minutesOf t := by
  obtain ⟨u, rfl⟩ := exists_text hs
  obtain ⟨v, rfl⟩ := exists_text ht
  rw [minutesOf_text, minutesOf_text, text_lt_text]

theorem eq_iff_minutesOf {s t : String} (hs : (hhmm s).isSome) (ht : (hhmm t).isSome) :
    s = t ↔ minutesOf s = minutesOf t := by
  obtain ⟨u, rfl⟩ := exists_text hs
  obtain ⟨v, rfl⟩ := exists_text ht
  rw [minutesOf_text, minutesOf_text, clockText_inj]

theorem ne_empty_of_complete {s : String} (h : (hhmm s).isSome) : s ≠ "" := by
  rintro rfl
  exact absurd h (by decide)

/-! ## § A day in minutes -/

/-- Pairs in the order of their starts. -/
def spanLE (x y : ℤ × ℤ) : Prop := x.1 ≤ y.1

instance : DecidableRel spanLE := fun _ _ => inferInstanceAs (Decidable (_ ≤ _))

instance : Std.Total spanLE := ⟨fun _ _ => le_total _ _⟩

instance : IsTrans (ℤ × ℤ) spanLE := ⟨fun _ _ _ => le_trans⟩

theorem map_sortShifts {shifts : List FormShift} (h : ∀ s ∈ shifts, s.Complete) :
    (sortShifts shifts).map FormShift.span =
      (shifts.map FormShift.span).insertionSort spanLE := by
  refine List.map_insertionSort formLE spanLE FormShift.span shifts fun a ha b hb => ?_
  have hlt := lt_iff_minutesOf (h b hb).1 (h a ha).1
  rw [formLE, ← not_lt, hlt, not_lt]
  rfl

/-- Texts join where their minutes do. -/
theorem map_foldl_joinForm {shifts : List FormShift} : ∀ {out : List FormShift},
    (∀ s ∈ shifts, s.Complete) → (∀ s ∈ out, s.Complete) →
    (shifts.foldl joinForm out).map FormShift.span =
      (shifts.map FormShift.span).foldl joinTouching (out.map FormShift.span) := by
  induction shifts with
  | nil => intro _ _ _; rfl
  | cons s shifts ih =>
      intro out hall hout
      have hs := hall s (List.mem_cons_self ..)
      have hrest : ∀ s ∈ shifts, s.Complete := fun s' hs' => hall s' (List.mem_cons_of_mem _ hs')
      rw [List.foldl_cons, List.map_cons, List.foldl_cons]
      cases out with
      | nil => exact ih hrest (by simpa [joinForm] using hs)
      | cons last rest =>
          have hlast := hout last (List.mem_cons_self ..)
          have hrest' : ∀ s ∈ rest, s.Complete :=
            fun s' hs' => hout s' (List.mem_cons_of_mem _ hs')
          have htouch := eq_iff_minutesOf hs.1 hlast.2
          by_cases heq : s.start = last.stop
          · have hjoin : joinForm (last :: rest) s = ⟨last.start, s.stop⟩ :: rest := if_pos heq
            have hjoin' : joinTouching ((last :: rest).map FormShift.span) s.span =
                (last.span.1, s.span.2) :: rest.map FormShift.span := if_pos (htouch.mp heq)
            rw [hjoin, hjoin']
            refine ih hrest fun s' hs' => ?_
            rcases List.mem_cons.mp hs' with rfl | hs'
            · exact ⟨hlast.1, hs.2⟩
            · exact hrest' s' hs'
          · have hjoin : joinForm (last :: rest) s = s :: last :: rest := if_neg heq
            have hjoin' : joinTouching ((last :: rest).map FormShift.span) s.span =
                s.span :: (last :: rest).map FormShift.span := if_neg (htouch.not.mp heq)
            rw [hjoin, hjoin']
            refine ih hrest fun s' hs' => ?_
            rcases List.mem_cons.mp hs' with rfl | hs'
            · exact hs
            · exact hout s' hs'

/-- Of two intervals one has ended when the other begins. -/
def ApartSpans (x y : ℤ × ℤ) : Prop := x.2 ≤ y.1 ∨ y.2 ≤ x.1

/-- What a day's intervals have to satisfy, whatever the opening hours. -/
structure SoundDay (spans : List (ℤ × ℤ)) : Prop where
  ends : ∀ x ∈ spans, x.1 < x.2
  apart : spans.Pairwise ApartSpans

/-- A test on the neighbours of the sorted texts is one on those of the sorted minutes. -/
theorem anyNeighbours_map {shifts : List FormShift} (h : ∀ s ∈ shifts, s.Complete) :
    anyNeighbours (fun before shift : FormShift => decide (shift.start < before.stop)) shifts =
      anyNeighbours (fun x y : ℤ × ℤ => decide (y.1 < x.2)) (shifts.map FormShift.span) := by
  induction shifts with
  | nil => rfl
  | cons a shifts ih =>
      cases shifts with
      | nil => rfl
      | cons b shifts =>
          have ha := h a (List.mem_cons_self ..)
          have hb := h b (List.mem_cons_of_mem _ (List.mem_cons_self ..))
          have hrest := ih fun s hs => h s (List.mem_cons_of_mem _ hs)
          have hhere : decide (b.start < a.stop) = decide (b.span.1 < a.span.2) :=
            decide_eq_decide.mpr (lt_iff_minutesOf hb.1 ha.2)
          show (decide (b.start < a.stop) || _) = (decide (b.span.1 < a.span.2) || _)
          rw [hrest, hhere]
          rfl

/-- **A day without overlapping neighbours is one whose shifts are apart.** -/
theorem anyNeighbours_spans {spans : List (ℤ × ℤ)} (hends : ∀ x ∈ spans, x.1 < x.2) :
    anyNeighbours (fun x y : ℤ × ℤ => decide (y.1 < x.2)) (spans.insertionSort spanLE) = false ↔
      spans.Pairwise ApartSpans := by
  refine anyNeighbours_sorted (fun _ _ => Or.symm) ?_ ?_
  · intro x hx y hy hle
    have hyends := hends y hy
    rw [decide_eq_false_iff_not, not_lt]
    constructor
    · exact Or.inl
    · rintro (h | h)
      · exact h
      · have hstart : x.1 ≤ y.1 := hle
        have hxends := hends x hx
        omega
  · intro x hx y hy z hz hxy hyz hX hY
    have hstart : x.1 ≤ y.1 := hxy
    have hstart' : y.1 ≤ z.1 := hyz
    have hxends := hends x hx
    have hyends := hends y hy
    have hzends := hends z hz
    rcases hX with h | h
    · exact Or.inl (h.trans hstart')
    · omega

/-! ## § The opening hours the form is given -/

/-- A weekday's shifts as the form reads them off the server's answer. -/
def answeredShifts (rows : List Row) (weekday : ℤ) : List FormShift :=
  ((readShifts rows).filter fun s => s.weekday = weekday).map fun s => ⟨s.startsAt, s.endsAt⟩

theorem shiftsOn_daysFromShifts {rows : List Row} {weekday : ℤ} (h : weekday ∈ weekdays) :
    shiftsOn (daysFromShifts (readShifts rows)) weekday =
      sortShifts (answeredShifts rows weekday) := by
  simp only [weekdays, List.mem_cons, List.not_mem_nil, or_false] at h
  rcases h with rfl | rfl | rfl | rfl | rfl | rfl | rfl <;> rfl

theorem answeredShifts_complete {rows : List Row} {weekday : ℤ} :
    ∀ s ∈ answeredShifts rows weekday, s.Complete := by
  intro s hs
  obtain ⟨shift, hshift, rfl⟩ := List.mem_map.mp hs
  obtain ⟨row, _, rfl⟩ := List.mem_map.mp (List.mem_filter.mp hshift).1
  constructor
  · show (hhmm (TimeOfDay.text _)).isSome
    rw [hhmm_text]
    rfl
  · show (hhmm (TimeOfDay.text _)).isSome
    rw [hhmm_text]
    rfl

/-- In minutes they are the weekday's rows, in some order. -/
theorem answeredShifts_perm (rows : List Row) (weekday : ℤ) :
    ((answeredShifts rows weekday).map FormShift.span).Perm (dayRows rows weekday) := by
  have hspans : (answeredShifts rows weekday).map FormShift.span =
      ((rows.insertionSort startLE).filter fun r => r.weekday = weekday).map fun r =>
        (r.startsAt, r.endsAt) := by
    rw [answeredShifts, readShifts, List.filter_map, List.map_map, List.map_map]
    refine List.map_congr_left fun r _ => ?_
    show (minutesOf (TimeOfDay.text _), minutesOf (TimeOfDay.text _)) = _
    rw [minutesOf_text, minutesOf_text]
  rw [hspans, dayRows]
  refine List.Perm.map _ (((List.perm_insertionSort startLE rows).filter _).trans ?_)
  exact (List.perm_insertionSort rowLE _).symm

/-- Rows without overlap are in one order by their starts. -/
theorem eq_dayRows {rows : List Row} (h : NonOverlapping rows) {weekday : ℤ}
    {spans : List (ℤ × ℤ)} (hperm : spans.Perm (dayRows rows weekday))
    (hsorted : spans.Pairwise spanLE) : spans = dayRows rows weekday := by
  have hends := dayRows_nonempty rows weekday
  have hordered := dayRows_ordered h weekday
  refine hperm.eq_of_pairwise ?_ hsorted (hordered.imp_of_mem ?_)
  · intro x y hx hy hxy hyx
    by_contra hne
    have hsymm : (dayRows rows weekday).Pairwise ApartSpans := hordered.imp Or.inl
    have : Std.Symm ApartSpans := ⟨fun _ _ => Or.symm⟩
    have hapart := hsymm.forall (hperm.mem_iff.mp hx) hy hne
    have hxends := hends x (hperm.mem_iff.mp hx)
    have hyends := hends y hy
    have hle : x.1 ≤ y.1 := hxy
    have hge : y.1 ≤ x.1 := hyx
    rcases hapart with h | h <;> omega
  · intro x y hx _ hle
    exact (hends x hx).le.trans hle

/-- **The form joins the opening hours as the server does.** -/
theorem joinShifts_windows {rows : List Row} (h : NonOverlapping rows) {weekday : ℤ}
    (hday : weekday ∈ weekdays) :
    (joinShifts (shiftsOn (daysFromShifts (readShifts rows)) weekday)).map FormShift.span =
      dayShifts rows weekday := by
  have hcomplete := @answeredShifts_complete rows weekday
  have hmem : ∀ {shifts : List FormShift}, (∀ s ∈ shifts, s.Complete) →
      ∀ s ∈ sortShifts shifts, s.Complete :=
    fun hall s hs => hall s ((List.mem_insertionSort formLE).mp hs)
  rw [shiftsOn_daysFromShifts hday, joinShifts, List.map_reverse,
    map_foldl_joinForm (hmem (hmem hcomplete)) (by simp), map_sortShifts (hmem hcomplete),
    map_sortShifts hcomplete]
  have hperm : (((answeredShifts rows weekday).map FormShift.span).insertionSort
      spanLE).insertionSort spanLE |>.Perm (dayRows rows weekday) :=
    (List.perm_insertionSort ..).trans ((List.perm_insertionSort ..).trans
      (answeredShifts_perm rows weekday))
  rw [eq_dayRows h hperm (List.pairwise_insertionSort ..)]
  rfl

theorem joinForm_complete {shifts : List FormShift} : ∀ {out : List FormShift},
    (∀ s ∈ shifts, s.Complete) → (∀ s ∈ out, s.Complete) →
    ∀ s ∈ shifts.foldl joinForm out, s.Complete := by
  induction shifts with
  | nil => intro _ _ hout; exact hout
  | cons s shifts ih =>
      intro out hall hout
      have hs := hall s (List.mem_cons_self ..)
      refine ih (fun s' hs' => hall s' (List.mem_cons_of_mem _ hs')) fun s' hs' => ?_
      cases out with
      | nil =>
          rw [joinForm, List.mem_singleton] at hs'
          exact hs' ▸ hs
      | cons last rest =>
          rw [joinForm] at hs'
          split_ifs at hs' with htouch
          · rcases List.mem_cons.mp hs' with rfl | hs'
            · exact ⟨(hout last (List.mem_cons_self ..)).1, hs.2⟩
            · exact hout s' (List.mem_cons_of_mem _ hs')
          · rcases List.mem_cons.mp hs' with rfl | hs'
            · exact hs
            · exact hout s' hs'

/-! ## § What the form reports -/

theorem windows_complete {rows : List Row} {weekday : ℤ} (hday : weekday ∈ weekdays) :
    ∀ w ∈ joinShifts (shiftsOn (daysFromShifts (readShifts rows)) weekday), w.Complete := by
  intro w hw
  rw [shiftsOn_daysFromShifts hday] at hw
  refine joinForm_complete ?_ (fun _ hnil => absurd hnil List.not_mem_nil) w
    (List.mem_reverse.mp hw)
  intro s hs
  exact answeredShifts_complete s
    ((List.mem_insertionSort formLE).mp ((List.mem_insertionSort formLE).mp hs))

/-- A shift fits a window of the form's exactly when its minutes do. -/
theorem fits_iff {shift : FormShift} {windows : List FormShift} (hshift : shift.Complete)
    (hwindows : ∀ w ∈ windows, w.Complete) :
    (windows.any fun w => ¬ shift.start < w.start ∧ ¬ w.stop < shift.stop) = true ↔
      within shift.span (windows.map FormShift.span) := by
  simp only [List.any_eq_true, decide_eq_true_eq, within, List.mem_map, exists_exists_and_eq_and]
  refine exists_congr fun w => and_congr_right fun hw => ?_
  rw [lt_iff_minutesOf hshift.1 (hwindows w hw).1, lt_iff_minutesOf (hwindows w hw).2 hshift.2,
    not_lt, not_lt]
  rfl

/-- **A day has no problem** when its shifts are sound, and inside the joined windows where
there is an envelope. -/
theorem dayProblem_eq_none {envelope : Option (List Day)} {day : Day}
    (hday : ∀ s ∈ day.shifts, s.Complete)
    (hwindows : ∀ w ∈ joinShifts (shiftsOn (envelope.getD []) day.weekday), w.Complete) :
    dayProblem envelope day = none ↔
      SoundDay (day.shifts.map FormShift.span) ∧ (envelope.getD [] ≠ [] → ∀ s ∈ day.shifts,
        within s.span ((joinShifts (shiftsOn (envelope.getD []) day.weekday)).map
          FormShift.span)) := by
  by_cases hnil : day.shifts = []
  · rw [dayProblem, if_pos hnil, hnil]
    exact iff_of_true rfl ⟨⟨by simp, List.Pairwise.nil⟩, by simp⟩
  have hfilled : ¬ (day.shifts.any fun s => s.start = "" ∨ s.stop = "") = true := by
    simp only [List.any_eq_true, decide_eq_true_eq]
    rintro ⟨s, hs, hempty | hempty⟩
    · exact ne_empty_of_complete (hday s hs).1 hempty
    · exact ne_empty_of_complete (hday s hs).2 hempty
  have hmem : ∀ {s}, s ∈ sortShifts day.shifts ↔ s ∈ day.shifts := List.mem_insertionSort formLE
  have hsorted : ∀ s ∈ sortShifts day.shifts, s.Complete := fun s hs => hday s (hmem.mp hs)
  have hends : ¬ ((sortShifts day.shifts).any fun s => ¬ s.start < s.stop) = true ↔
      ∀ x ∈ day.shifts.map FormShift.span, x.1 < x.2 := by
    simp only [List.any_eq_true, decide_eq_true_eq, not_exists, not_and, not_not,
      List.forall_mem_map, hmem]
    exact forall₂_congr fun s hs => lt_iff_minutesOf (hday s hs).1 (hday s hs).2
  have hover : anyNeighbours (fun before shift : FormShift => decide (shift.start < before.stop))
      (sortShifts day.shifts) = anyNeighbours (fun x y : ℤ × ℤ => decide (y.1 < x.2))
        ((day.shifts.map FormShift.span).insertionSort spanLE) := by
    rw [anyNeighbours_map hsorted, map_sortShifts hday]
  have hfits : ((sortShifts day.shifts).all fun shift =>
        (joinShifts (shiftsOn (envelope.getD []) day.weekday)).any fun w =>
          ¬ shift.start < w.start ∧ ¬ w.stop < shift.stop) = true ↔
      ∀ s ∈ day.shifts, within s.span
        ((joinShifts (shiftsOn (envelope.getD []) day.weekday)).map FormShift.span) := by
    rw [List.all_eq_true]
    simp only [hmem]
    exact forall₂_congr fun s hs => fits_iff (hday s hs) hwindows
  unfold dayProblem
  rw [if_neg hnil, if_neg hfilled]
  simp only
  split_ifs with hend hlap hbound hall
  · refine iff_of_false (by simp) fun h => ?_
    exact hends.mpr h.1.ends hend
  · refine iff_of_false (by simp) fun h => ?_
    rw [hover, (anyNeighbours_spans h.1.ends).mpr h.1.apart] at hlap
    cases hlap
  · have hE := hends.mp hend
    rw [hover, Bool.not_eq_true, anyNeighbours_spans hE] at hlap
    exact iff_of_true rfl ⟨⟨hE, hlap⟩, fun _ => hfits.mp hall⟩
  · refine iff_of_false (by simp) fun h => ?_
    exact hall (hfits.mpr (h.2 hbound))
  · have hE := hends.mp hend
    rw [hover, Bool.not_eq_true, anyNeighbours_spans hE] at hlap
    exact iff_of_true rfl ⟨⟨hE, hlap⟩, fun h => absurd h hbound⟩

theorem weekProblems_clear {days : List Day} {envelope : Option (List Day)}
    {allowEmptyWeek : Bool} : (weekProblems days envelope allowEmptyWeek).clear ↔
      (∀ day ∈ days, dayProblem envelope day = none) ∧
        (days.map fun day => day.shifts.length).sum ≤ 50 ∧
        (allowEmptyWeek = true ∨ ∃ day ∈ days, day.shifts ≠ []) := by
  have hbyDay : (days.filterMap fun day => (dayProblem envelope day).map fun p =>
      (day.weekday, p)) = [] ↔ ∀ day ∈ days, dayProblem envelope day = none := by
    simp only [List.filterMap_eq_nil_iff, Option.map_eq_none_iff]
  simp only [weekProblems, WeekProblems.clear]
  split_ifs with hmany hempty
  · refine iff_of_false (by simp) fun h => ?_
    exact absurd h.2.1 (not_le.mpr hmany)
  · refine iff_of_false (by simp) fun h => ?_
    rcases h.2.2 with hallow | ⟨day, hday, hopen⟩
    · exact hempty.2 hallow
    · exact hempty.1 (List.any_eq_true.mpr ⟨day, hday, by simpa using hopen⟩)
  · rw [hbyDay]
    constructor
    · rintro ⟨hdays, _⟩
      refine ⟨hdays, not_lt.mp hmany, ?_⟩
      by_cases hallow : allowEmptyWeek = true
      · exact Or.inl hallow
      · have hany := not_not.mp fun h => hempty ⟨h, hallow⟩
        obtain ⟨day, hday, hopen⟩ := List.any_eq_true.mp hany
        exact Or.inr ⟨day, hday, by simpa using hopen⟩
    · rintro ⟨hdays, _, _⟩
      exact ⟨hdays, rfl⟩

/-! ## § The body sent -/

/-- A shift's weekday and minutes. -/
def Shift.key (s : Shift) : ℤ × (ℤ × ℤ) := (s.weekday, minutesOf s.startsAt, minutesOf s.endsAt)

def Parsed.key (r : Parsed) : ℤ × (ℤ × ℤ) := (r.weekday, r.span)

/-- The keys of a form's week, day by day. -/
def weekKeys (days : List Day) : List (ℤ × (ℤ × ℤ)) :=
  days.flatMap fun day => day.shifts.map fun s => (day.weekday, s.span)

/-- Every shift of the form is sent, in some order. -/
theorem weekBody_perm {days : List Day} (h : ∀ day ∈ days, ∀ s ∈ day.shifts, s.Complete) :
    (weekBody days).Perm
      (days.flatMap fun day => day.shifts.map fun s => ⟨day.weekday, s.start, s.stop⟩) := by
  have hall : (days.flatMap fun day =>
      (day.shifts.filter fun s => s.start ≠ "" ∧ s.stop ≠ "").map fun s => (day.weekday, s)) =
      days.flatMap fun day => day.shifts.map fun s => (day.weekday, s) := by
    refine List.flatMap_congr fun day hday => ?_
    rw [List.filter_eq_self.mpr]
    intro s hs
    have hs' := h day hday s hs
    exact decide_eq_true ⟨ne_empty_of_complete hs'.1, ne_empty_of_complete hs'.2⟩
  rw [weekBody, hall]
  refine ((List.perm_insertionSort bodyLE _).map _).trans (List.Perm.of_eq ?_)
  rw [List.map_flatMap]
  refine List.flatMap_congr fun day _ => ?_
  rw [List.map_map]
  rfl

/-- The body is parsed, to rows of the same weekdays and minutes. -/
theorem parse_body {shifts : List Shift} (h : ∀ s ∈ shifts, (1 ≤ s.weekday ∧ s.weekday ≤ 7) ∧
    (hhmm s.startsAt).isSome ∧ (hhmm s.endsAt).isSome) :
    ∃ rows, shifts.mapM Shift.parse = some rows ∧ rows.map Parsed.key = shifts.map Shift.key := by
  induction shifts with
  | nil => exact ⟨[], rfl, rfl⟩
  | cons s shifts ih =>
      obtain ⟨rows, hrows, hkeys⟩ := ih fun s' hs' => h s' (List.mem_cons_of_mem _ hs')
      obtain ⟨hiso, hstart, hstop⟩ := h s (List.mem_cons_self ..)
      obtain ⟨t, ht⟩ := Option.isSome_iff_exists.mp hstart
      obtain ⟨u, hu⟩ := Option.isSome_iff_exists.mp hstop
      have hparse : s.parse = some ⟨s.weekday, t, u, hiso⟩ := by
        rw [Shift.parse, dif_pos hiso, ht, hu]
        rfl
      refine ⟨⟨s.weekday, t, u, hiso⟩ :: rows, ?_, ?_⟩
      · rw [List.mapM_cons, hparse, hrows]
        rfl
      · rw [List.map_cons, List.map_cons, hkeys]
        refine congrArg (· :: _) ?_
        show (s.weekday, t.minutes, u.minutes) =
          (s.weekday, minutesOf s.startsAt, minutesOf s.endsAt)
        rw [minutesOf, minutesOf, ht, hu]
        rfl

/-- Of keys: of different days, or one has ended when the other begins. -/
def ApartKeys (x y : ℤ × (ℤ × ℤ)) : Prop := x.1 = y.1 → ApartSpans x.2 y.2

theorem sound_iff_keys {rows : List Parsed} : Sound rows ↔
    (∀ k ∈ rows.map Parsed.key, k.2.1 < k.2.2) ∧ (rows.map Parsed.key).Pairwise ApartKeys := by
  rw [List.pairwise_map, List.forall_mem_map]
  constructor
  · rintro ⟨hends, hapart⟩
    exact ⟨hends, hapart⟩
  · rintro ⟨hends, hapart⟩
    exact ⟨hends, hapart⟩

/-- **A week's rows are sound exactly when each day's are**, a day having one entry. -/
theorem sound_weekKeys {days : List Day} (hdays : (days.map Day.weekday).Nodup) :
    ((∀ k ∈ weekKeys days, k.2.1 < k.2.2) ∧ (weekKeys days).Pairwise ApartKeys) ↔
      ∀ day ∈ days, SoundDay (day.shifts.map FormShift.span) := by
  have hapart : (weekKeys days).Pairwise ApartKeys ↔
      ∀ day ∈ days, (day.shifts.map FormShift.span).Pairwise ApartSpans := by
    rw [weekKeys, List.pairwise_flatMap]
    constructor
    · rintro ⟨hwithin, _⟩ day hday
      have h := hwithin day hday
      rw [List.pairwise_map] at h ⊢
      exact h.imp fun hkeys => hkeys rfl
    · intro hwithin
      refine ⟨fun day hday => ?_, ?_⟩
      · have h := hwithin day hday
        rw [List.pairwise_map] at h ⊢
        refine h.imp fun {s s'} hspans => ?_
        intro _
        exact hspans
      · -- shifts of two entries are of different days
        have hne : days.Pairwise fun d d' => d.weekday ≠ d'.weekday := List.pairwise_map.mp hdays
        refine hne.imp fun {d d'} hne => ?_
        intro k hk k' hk' hsame
        obtain ⟨_, _, rfl⟩ := List.mem_map.mp hk
        obtain ⟨_, _, rfl⟩ := List.mem_map.mp hk'
        exact absurd hsame hne
  have hends : (∀ k ∈ weekKeys days, k.2.1 < k.2.2) ↔
      ∀ day ∈ days, ∀ x ∈ day.shifts.map FormShift.span, x.1 < x.2 := by
    simp only [weekKeys, List.mem_flatMap, List.mem_map]
    constructor
    · rintro h day hday x ⟨s, hs, rfl⟩
      exact h (day.weekday, s.span) ⟨day, hday, s, hs, rfl⟩
    · rintro h k ⟨day, hday, s, hs, rfl⟩
      exact h day hday s.span ⟨s, hs, rfl⟩
  rw [hapart, hends]
  constructor
  · rintro ⟨hE, hA⟩ day hday
    exact ⟨hE day hday, hA day hday⟩
  · intro h
    exact ⟨fun day hday => (h day hday).ends, fun day hday => (h day hday).apart⟩

/-- What the server reads of the body the form sends. -/
theorem parseWeek_weekBody {days : List Day} (hdays : (days.map Day.weekday).Perm weekdays)
    (h : ∀ day ∈ days, ∀ s ∈ day.shifts, s.Complete) :
    (∀ rows, parseWeek (weekBody days) = some rows → (rows.map Parsed.key).Perm (weekKeys days)) ∧
      ((∃ rows, parseWeek (weekBody days) = some rows) ↔
        (days.map fun day => day.shifts.length).sum ≤ 50) := by
  have hperm := weekBody_perm h
  have hvalid : ∀ s ∈ weekBody days, (1 ≤ s.weekday ∧ s.weekday ≤ 7) ∧
      (hhmm s.startsAt).isSome ∧ (hhmm s.endsAt).isSome := by
    intro s hs
    obtain ⟨day, hday, hs⟩ := List.mem_flatMap.mp (hperm.mem_iff.mp hs)
    obtain ⟨shift, hshift, rfl⟩ := List.mem_map.mp hs
    have hin : day.weekday ∈ weekdays := hdays.mem_iff.mp (List.mem_map_of_mem hday)
    refine ⟨?_, h day hday shift hshift⟩
    show 1 ≤ day.weekday ∧ day.weekday ≤ 7
    simp only [weekdays, List.mem_cons, List.not_mem_nil, or_false] at hin
    omega
  obtain ⟨rows, hrows, hkeys⟩ := parse_body hvalid
  have hlength : (weekBody days).length = (days.map fun day => day.shifts.length).sum := by
    rw [hperm.length_eq, List.length_flatMap]
    simp only [List.length_map]
  have hbody : (rows.map Parsed.key).Perm (weekKeys days) := by
    rw [hkeys]
    refine (hperm.map Shift.key).trans (List.Perm.of_eq ?_)
    rw [List.map_flatMap, weekKeys]
    refine List.flatMap_congr fun day _ => ?_
    rw [List.map_map]
    rfl
  rw [parseWeek, hlength, maxShifts]
  split_ifs with hfew
  · refine ⟨fun rows' hrows' => ?_, iff_of_true ⟨rows, hrows⟩ hfew⟩
    rw [hrows] at hrows'
    exact Option.some.inj hrows' ▸ hbody
  · exact ⟨fun _ hnone => (by cases hnone), iff_of_false (by rintro ⟨_, hnone⟩; cases hnone) hfew⟩

/-! ## § The form and the server agree -/

theorem envelopeFromShifts_getD {rows : List Row} :
    (envelopeFromShifts (readShifts rows)).getD [] =
      if rows = [] then [] else daysFromShifts (readShifts rows) := by
  have hlength : (readShifts rows).length = 0 ↔ rows = [] := by
    rw [readShifts, List.length_map, List.length_insertionSort, List.length_eq_zero_iff]
  by_cases hnil : rows = []
  · rw [envelopeFromShifts, if_pos (hlength.mpr hnil), if_pos hnil]
    rfl
  · rw [envelopeFromShifts, if_neg (hlength.not.mpr hnil), if_neg hnil]
    rfl

/-- The rows the server reads lie in the opening hours as the form's shifts do. -/
theorem within_keys {days : List Day} {rows : List Parsed} {opening : List Row}
    (hkeys : (rows.map Parsed.key).Perm (weekKeys days)) :
    (∀ r ∈ rows, within r.span (dayShifts opening r.weekday)) ↔
      ∀ day ∈ days, ∀ s ∈ day.shifts, within s.span (dayShifts opening day.weekday) := by
  have hrows : (∀ r ∈ rows, within r.span (dayShifts opening r.weekday)) ↔
      ∀ k ∈ weekKeys days, within k.2 (dayShifts opening k.1) := by
    constructor
    · intro h k hk
      obtain ⟨r, hr, rfl⟩ := List.mem_map.mp (hkeys.mem_iff.mpr hk)
      exact h r hr
    · intro h r hr
      exact h r.key (hkeys.mem_iff.mp (List.mem_map_of_mem hr))
  rw [hrows]
  simp only [weekKeys, List.mem_flatMap, List.mem_map]
  constructor
  · intro h day hday s hs
    exact h (day.weekday, s.span) ⟨day, hday, s, hs, rfl⟩
  · rintro h k ⟨day, hday, s, hs, rfl⟩
    exact h day hday s hs

/-- **The form reports no problem exactly when the server accepts the body it sends**: of a
member's week beside the opening hours on file, and of the opening week itself. -/
theorem week_accepted {db : Db} {current owner : Session} {editOwn : Bool} {memberId user : ℕ}
    {days : List Day} (hstored : NonOverlapping db.openingHours)
    (huser : db.memberUser memberId = some user)
    (hallowed : current.owner = true ∨ (user = current.userId ∧ editOwn = true))
    (howner : owner.owner = true) (hdays : (days.map Day.weekday).Perm weekdays)
    (hcomplete : ∀ day ∈ days, ∀ s ∈ day.shifts, s.Complete) :
    ((weekProblems days (envelopeFromShifts (readShifts db.openingHours)) true).clear ↔
      ∃ saved, replaceWeek db current editOwn memberId (weekBody days) = .ok saved) ∧
    ((weekProblems days none false).clear ↔
      ∃ saved, replaceOpeningHours db owner (weekBody days) = .ok saved) := by
  have hin : ∀ day ∈ days, day.weekday ∈ weekdays :=
    fun day hday => hdays.mem_iff.mp (List.mem_map_of_mem hday)
  have hnodup : (days.map Day.weekday).Nodup := hdays.nodup_iff.mpr (by decide)
  obtain ⟨hkeys, hparses⟩ := parseWeek_weekBody hdays hcomplete
  -- what the server asks of the rows is what the form asks day by day
  have hsound : ∀ rows, parseWeek (weekBody days) = some rows →
      (Sound rows ↔ ∀ day ∈ days, SoundDay (day.shifts.map FormShift.span)) := by
    intro rows hrows
    have hperm := hkeys rows hrows
    rw [sound_iff_keys, ← sound_weekKeys hnodup, hperm.pairwise_iff]
    · simp only [hperm.mem_iff]
    · exact fun h hday => (h hday.symm).symm
  constructor
  · rw [weekProblems_clear, replaceWeek_accepts huser hallowed]
    have hday : ∀ day ∈ days,
        (dayProblem (envelopeFromShifts (readShifts db.openingHours)) day = none ↔
          SoundDay (day.shifts.map FormShift.span) ∧ (db.openingHours ≠ [] → ∀ s ∈ day.shifts,
            within s.span (dayShifts db.openingHours day.weekday))) := by
      intro day hday
      by_cases hopen : db.openingHours = []
      · rw [dayProblem_eq_none (hcomplete day hday), envelopeFromShifts_getD, if_pos hopen]
        · simp [hopen]
        · rw [envelopeFromShifts_getD, if_pos hopen]
          exact fun w hw => absurd hw List.not_mem_nil
      · rw [dayProblem_eq_none (hcomplete day hday), envelopeFromShifts_getD, if_neg hopen,
          joinShifts_windows hstored (hin day hday)]
        · have hany : daysFromShifts (readShifts db.openingHours) ≠ [] := by
            simp [daysFromShifts, weekdays]
          simp [hopen, hany]
        · rw [envelopeFromShifts_getD, if_neg hopen]
          exact windows_complete (hin day hday)
    constructor
    · rintro ⟨hclear, hfew, _⟩
      obtain ⟨rows, hrows⟩ := hparses.mpr hfew
      refine ⟨rows, hrows, (hsound rows hrows).mpr fun day hd => ((hday day hd).mp
        (hclear day hd)).1, fun hopen => (within_keys (hkeys rows hrows)).mpr fun day hd => ?_⟩
      exact ((hday day hd).mp (hclear day hd)).2 hopen
    · rintro ⟨rows, hrows, hs, hwithin⟩
      refine ⟨fun day hd => (hday day hd).mpr ⟨(hsound rows hrows).mp hs day hd, fun hopen => ?_⟩,
        hparses.mp ⟨rows, hrows⟩, Or.inl rfl⟩
      exact (within_keys (hkeys rows hrows)).mp (hwithin hopen) day hd
  · rw [weekProblems_clear, replaceOpeningHours_accepts howner]
    have hday : ∀ day ∈ days, (dayProblem none day = none ↔
        SoundDay (day.shifts.map FormShift.span)) := by
      intro day hday
      rw [dayProblem_eq_none (hcomplete day hday)]
      · simp
      · exact fun w hw => absurd hw List.not_mem_nil
    have hopen : ∀ rows, parseWeek (weekBody days) = some rows →
        (rows ≠ [] ↔ ∃ day ∈ days, day.shifts ≠ []) := by
      intro rows hrows
      have hnil : rows = [] ↔ weekKeys days = [] := by
        rw [← List.map_eq_nil_iff (f := Parsed.key)]
        exact ⟨fun h => List.nil_perm.mp (h ▸ hkeys rows hrows),
          fun h => List.perm_nil.mp (h ▸ hkeys rows hrows)⟩
      rw [Ne, hnil, weekKeys, List.flatMap_eq_nil_iff]
      simp only [List.map_eq_nil_iff, not_forall, exists_prop]
    constructor
    · rintro ⟨hclear, hfew, hany⟩
      obtain ⟨rows, hrows⟩ := hparses.mpr hfew
      refine ⟨rows, hrows, (hsound rows hrows).mpr fun day hd => (hday day hd).mp (hclear day hd),
        (hopen rows hrows).mpr ?_⟩
      exact hany.resolve_left (by decide)
    · rintro ⟨rows, hrows, hs, hany⟩
      exact ⟨fun day hd => (hday day hd).mpr ((hsound rows hrows).mp hs day hd),
        hparses.mp ⟨rows, hrows⟩, Or.inr ((hopen rows hrows).mp hany)⟩

/-- A Monday of two shifts that touch, sent in either order. -/
def splitWeek : List Day :=
  weekdays.map fun weekday =>
    ⟨weekday, if weekday = 1 then [⟨"12:00", "14:30"⟩, ⟨"09:00", "12:00"⟩] else []⟩

/-- A business open on Mondays from nine to three, in two rows. -/
def splitShop : Db :=
  let early : Row := { morning with weekday := 1, iso := by decide }
  let late : Row := ⟨1, 720, 900, by decide, by decide, by decide⟩
  { Db.solo (Settings.defaults (Zone.fixed 60)) freeHour [] with openingHours := [early, late] }

theorem week_accepted_split :
    ((weekProblems splitWeek (envelopeFromShifts (readShifts splitShop.openingHours)) true).clear ↔
      ∃ saved, replaceWeek splitShop ⟨1, true⟩ false 1 (weekBody splitWeek) = .ok saved) ∧
    ((weekProblems splitWeek none false).clear ↔
      ∃ saved, replaceOpeningHours splitShop ⟨1, true⟩ (weekBody splitWeek) = .ok saved) :=
  @week_accepted splitShop ⟨1, true⟩ ⟨1, true⟩ false 1 1 splitWeek (by decide) rfl (Or.inl rfl) rfl
    (by decide) (by decide)

end Ziftbook
