import Ziftbook.Foundation.Bisect
import Ziftbook.Schedule

/-!
# One worker's slots

`member_slots` of `app/availability.py` and what it calls. Busy time is merged
into separated blocks that `overlaps` searches by bisection; each piece of a
day is walked on a grid from its rounded-up start.
-/

namespace Ziftbook

open Foundation.Intervals Foundation.Bisect

/-- A booking as the slot finder reads it: start, end, its service's buffer
override. -/
@[ext]
structure Booked where
  startsAt : ℤ
  endsAt : ℤ
  override : Option ℤ
  ordered : startsAt < endsAt
  tail : ∀ minutes ∈ override, 0 ≤ minutes

instance : DecidableEq Booked := fun _ _ => decidable_of_iff _ Booked.ext_iff.symm

/-- The gap after an appointment: the service's own buffer, else `pct` of its
length, rounded up. -/
def bufferFor (durationMinutes : ℤ) (override : Option ℤ) (pct : ℤ) : ℤ :=
  override.getD (-(-durationMinutes * pct / 100))

/-- Python's order on pairs. -/
def pairLE (x y : ℤ × ℤ) : Prop := toLex x ≤ toLex y

instance : DecidableRel pairLE := fun _ _ => inferInstanceAs (Decidable (_ ≤ _))

instance : Std.Total pairLE := ⟨fun _ _ => le_total _ _⟩

instance : IsTrans (ℤ × ℤ) pairLE := ⟨fun _ _ _ => le_trans⟩

/-- Sorted, with overlapping or touching intervals joined. -/
def merged (intervals : List (ℤ × ℤ)) : List (ℤ × ℤ) :=
  sweep (intervals.insertionSort pairLE)

/-- One weekday's shifts cut to that weekday's opening shifts. -/
def clip (shifts envelope : List (ℤ × ℤ)) : List (ℤ × ℤ) :=
  shifts.flatMap fun shift => envelope.filterMap fun opening =>
    if max shift.1 opening.1 < min shift.2 opening.2 then
      some (max shift.1 opening.1, min shift.2 opening.2)
    else none

/-- Whether `[start, stop)` meets any of `merged` blocks. -/
def overlaps (blocks : List (ℤ × ℤ)) (start stop : ℤ) : Bool :=
  match blocks[bisectRight (blocks.map Prod.snd) start]? with
  | some block => block.1 < stop
  | none => false

/-- A shift's first slot: its start rounded up to the step. Nothing past
midnight. -/
def anchor (start step : ℤ) : Option ℤ :=
  let minutes := -(-start / step) * step
  if minutes < dayMinutes then some minutes else none

/-- The requested days clamped to `[today, today + horizon]`, and the earliest
bookable instant. -/
def window (now : ℤ) (zone : Zone) (first last notice horizon : ℤ) : ℤ × ℤ × ℤ :=
  let today := dateAt zone now
  (max first today, min last (today + horizon), now + notice * minute)

/-- `while t - stride >= opens: t -= stride`. -/
def walkBack (opens stride : ℤ) (hstride : 0 < stride) (t : ℤ) : ℤ :=
  if opens ≤ t - stride then walkBack opens stride hstride (t - stride) else t
termination_by (t - opens).toNat

/-- `while t + length <= closes`, keeping the instants that are free. -/
def walkOn (closes length stride : ℤ) (hstride : 0 < stride) (free : ℤ → Bool) (t : ℤ) :
    List ℤ :=
  if t + length ≤ closes then
    if free t then t :: walkOn closes length stride hstride free (t + stride)
    else walkOn closes length stride hstride free (t + stride)
  else []
termination_by (closes - length + 1 - t).toNat

/-- Time off and bookings with their buffers: what an appointment may not meet. -/
def blockedBy (timeOff : List (ℤ × ℤ)) (booked : List Booked) (pct : ℤ) : List (ℤ × ℤ) :=
  timeOff ++ booked.map fun b =>
    (b.startsAt, b.endsAt + bufferFor ((b.endsAt - b.startsAt) / minute) b.override pct * minute)

/-- One day's pieces: the weekday's shifts, cut to the opening hours when the
business has any. A weekday missing from them is a day shut. -/
def pieces (rows : List Row) (opening : List (ℤ × List (ℤ × ℤ))) (day : ℤ) :
    List (ℤ × ℤ) :=
  let shifts := dayShifts rows (isoweekday day)
  if opening = [] then shifts
  else clip shifts ((opening.lookup (isoweekday day)).getD [])

def localDays (first last : ℤ) : List ℤ :=
  (List.range (last + 1 - first).toNat).map fun i : ℕ => first + (i : ℤ)

/-- The starts of one piece. -/
def pieceSlots (zone : Zone) (duration step : ℤ) (hstep : 0 < step) (free : ℤ → Bool)
    (day : ℤ) (piece : ℤ × ℤ) : List ℤ :=
  have hstride : 0 < step * minute := by rw [minute]; omega
  let opens := toUtc zone day piece.1
  let closes := toUtc zone day piece.2
  match anchor piece.1 step with
  | none => []
  | some start =>
      if closes ≤ opens then []
      else
        walkOn closes (duration * minute) (step * minute) hstride free
          (walkBack opens (step * minute) hstride (toUtc zone day start))

/-- One worker's bookable starts on local days `first..last`. -/
def memberSlots (rows : List Row) (timeOff : List (ℤ × ℤ)) (booked : List Booked)
    (opening : List (ℤ × List (ℤ × ℤ))) (zone : Zone)
    (first last duration buffer pct step earliest : ℤ) (hstep : 0 < step) : List ℤ :=
  let bookings := merged (booked.map fun b => (b.startsAt, b.endsAt))
  let blocked := merged (blockedBy timeOff booked pct)
  let length := duration * minute
  let tail := (duration + buffer) * minute
  let free := fun t =>
    earliest ≤ t && !overlaps blocked t (t + length) && !overlaps bookings t (t + tail)
  (localDays first last).flatMap fun day =>
    (pieces rows opening day).flatMap (pieceSlots zone duration step hstep free day)

/-! ## § Busy time -/

theorem bufferFor_nonneg {d pct : ℤ} {override : Option ℤ} (hd : 0 ≤ d) (hpct : 0 ≤ pct)
    (ho : ∀ minutes ∈ override, 0 ≤ minutes) : 0 ≤ bufferFor d override pct := by
  cases override with
  | some minutes => exact ho minutes rfl
  | none =>
      have hprod := mul_nonneg hd hpct
      simp only [bufferFor, Option.getD_none, neg_mul]
      omega

theorem bufferFor_mono {d d' pct : ℤ} {override : Option ℤ} (hd : d ≤ d')
    (hpct : 0 ≤ pct) : bufferFor d override pct ≤ bufferFor d' override pct := by
  cases override with
  | some minutes => exact le_rfl
  | none =>
      have hprod := mul_le_mul_of_nonneg_right hd hpct
      simp only [bufferFor, Option.getD_none, neg_mul]
      omega

/-- Neither a buffer nor an appointment exceeds twelve hours. -/
theorem bufferFor_le {d pct : ℤ} {override : Option ℤ} (hd0 : 0 ≤ d) (hd : d ≤ 720)
    (hpct : pct ≤ 100) (ho : ∀ minutes ∈ override, minutes ≤ 240) :
    bufferFor d override pct ≤ 720 := by
  cases override with
  | some minutes =>
      have := ho minutes rfl
      simp only [bufferFor, Option.getD_some]
      omega
  | none =>
      have hprod := mul_le_mul_of_nonneg_left hpct hd0
      simp only [bufferFor, Option.getD_none, neg_mul]
      omega

theorem sorted_by_start (xs : List (ℤ × ℤ)) :
    (xs.insertionSort pairLE).Pairwise fun x y => x.1 ≤ y.1 :=
  (List.pairwise_insertionSort pairLE xs).imp fun h =>
    (Prod.Lex.toLex_le_toLex'.mp h).1

theorem merged_separated {xs : List (ℤ × ℤ)} (h : ∀ x ∈ xs, x.1 ≤ x.2) :
    Separated (merged xs) :=
  sweep_separated (sorted_by_start xs) fun x hx =>
    h x ((List.mem_insertionSort pairLE).mp hx)

/-- The bisected search looks at the only block that can decide the question. -/
theorem overlaps_iff {blocks : List (ℤ × ℤ)} (h : Separated blocks) {a b : ℤ} :
    overlaps blocks a b = true ↔ ∃ x ∈ blocks, Meets x a b := by
  have hends : (blocks.map Prod.snd).Pairwise (· ≤ ·) := by
    rw [List.pairwise_map]
    refine h.apart.imp_of_mem ?_
    intro x y _ hy hxy
    exact hxy.le.trans (h.forward y hy)
  have hsplit := bisectRight_splits hends a
  set i := bisectRight (blocks.map Prod.snd) a with hi
  have hget : ∀ j (hj : j < blocks.length) (hj' : j < (blocks.map Prod.snd).length),
      (blocks.map Prod.snd)[j] = blocks[j].2 := by simp
  by_cases hlen : i < blocks.length
  · have hval : overlaps blocks a b = decide (blocks[i].1 < b) := by
      rw [overlaps, ← hi, List.getElem?_eq_getElem hlen]
    have hafter : a < blocks[i].2 := by
      rw [← hget i hlen (by simpa using hlen)]
      exact hsplit.after i (by simpa using hlen) le_rfl
    rw [hval, decide_eq_true_eq]
    constructor
    · intro hb
      exact ⟨blocks[i], List.getElem_mem hlen, hb, hafter⟩
    · rintro ⟨x, hx, hxb, hax⟩
      obtain ⟨j, hj, rfl⟩ := List.mem_iff_getElem.mp hx
      have hij : i ≤ j := by
        by_contra hlt
        have := hsplit.before j (by simpa using hj) (not_le.mp hlt)
        rw [hget j hj (by simpa using hj)] at this
        omega
      rcases Nat.eq_or_lt_of_le hij with heq | hlt
      · subst heq
        exact hxb
      · have hap := List.pairwise_iff_getElem.mp h.apart i j hlen hj hlt
        have hfw := h.forward _ (List.getElem_mem hlen)
        omega
  · have hval : overlaps blocks a b = false := by
      rw [overlaps, ← hi, List.getElem?_eq_none (not_lt.mp hlen)]
    rw [hval]
    constructor
    · intro hfalse
      cases hfalse
    · rintro ⟨x, hx, _, hax⟩
      obtain ⟨j, hj, rfl⟩ := List.mem_iff_getElem.mp hx
      have := hsplit.before j (by simpa using hj) (by omega)
      rw [hget j hj] at this
      omega

/-- **Merged busy lists answer overlap exactly.** -/
theorem overlaps_merged {xs : List (ℤ × ℤ)} (h : ∀ x ∈ xs, x.1 ≤ x.2) {a b : ℤ}
    (hab : a < b) : overlaps (merged xs) a b = true ↔ ∃ x ∈ xs, Meets x a b := by
  rw [overlaps_iff (merged_separated h), merged, meets_sweep (sorted_by_start xs) _ hab]
  · simp [List.mem_insertionSort]
  · exact fun x hx => h x ((List.mem_insertionSort pairLE).mp hx)

/-! ## § The two walks -/

/-- The walk back stays on the grid and stops within a stride of the opening. -/
theorem walkBack_spec {opens stride : ℤ} (hstride : 0 < stride) (t : ℤ) :
    (∃ k : ℤ, walkBack opens stride hstride t = t + k * stride) ∧
      walkBack opens stride hstride t - stride < opens ∧
      (opens ≤ t → opens ≤ walkBack opens stride hstride t) := by
  fun_induction walkBack opens stride hstride t with
  | case1 t h ih =>
      obtain ⟨⟨k, hk⟩, hlow, hopens⟩ := ih
      exact ⟨⟨k - 1, by rw [hk]; ring⟩, hlow, fun _ => hopens (by omega)⟩
  | case2 t h => exact ⟨⟨0, by ring⟩, by omega, id⟩

theorem mem_walkOn {closes length stride : ℤ} (hstride : 0 < stride) {free : ℤ → Bool}
    {t x : ℤ} : x ∈ walkOn closes length stride hstride free t ↔
      (∃ k : ℤ, 0 ≤ k ∧ x = t + k * stride) ∧ x + length ≤ closes ∧ free x = true := by
  -- the grid from `t` is `t` and the grid from `t + stride`
  have hgrid : ∀ t : ℤ, (∃ k : ℤ, 0 ≤ k ∧ x = t + k * stride) ↔
      x = t ∨ ∃ k : ℤ, 0 ≤ k ∧ x = t + stride + k * stride := by
    intro t
    constructor
    · rintro ⟨k, hk, rfl⟩
      by_cases h0 : k = 0
      · exact Or.inl (by rw [h0]; ring)
      · exact Or.inr ⟨k - 1, by omega, by ring⟩
    · rintro (rfl | ⟨k, hk, rfl⟩)
      · exact ⟨0, le_rfl, by ring⟩
      · exact ⟨k + 1, by omega, by ring⟩
  fun_induction walkOn closes length stride hstride free t with
  | case1 t h hfree ih =>
      have ih : _ ↔ _ := ih
      rw [List.mem_cons, ih, hgrid t]
      constructor
      · rintro (rfl | ⟨hk, hrest⟩)
        · exact ⟨Or.inl rfl, h, hfree⟩
        · exact ⟨Or.inr hk, hrest⟩
      · rintro ⟨rfl | hk, hrest⟩
        · exact Or.inl rfl
        · exact Or.inr ⟨hk, hrest⟩
  | case2 t h hbusy ih =>
      have ih : _ ↔ _ := ih
      rw [ih, hgrid t]
      constructor
      · rintro ⟨hk, hrest⟩
        exact ⟨Or.inr hk, hrest⟩
      · rintro ⟨rfl | hk, hrest⟩
        · exact absurd hrest.2 hbusy
        · exact ⟨hk, hrest⟩
  | case3 t h =>
      constructor
      · intro hmem
        cases hmem
      · rintro ⟨⟨k, hk, rfl⟩, hle, _⟩
        have := mul_nonneg hk hstride.le
        omega

theorem mem_localDays {first last day : ℤ} :
    day ∈ localDays first last ↔ first ≤ day ∧ day ≤ last := by
  simp only [localDays, List.mem_map, List.mem_range]
  constructor
  · rintro ⟨i, hi, rfl⟩
    omega
  · rintro ⟨h1, h2⟩
    exact ⟨(day - first).toNat, by omega, by omega⟩

end Ziftbook
