import Mathlib.Order.Bounds.Basic
import Mathlib.Tactic

/-!
# The business's clock

A time zone is an offset and the UTC minutes at which it changes. Instants are
microseconds since 1970 UTC, days are counted from 1970-01-01, and a time of
day is a number of minutes. `toUtc` is `schedule.to_utc`: a time the clock
shows twice is the first of the two, and a skipped time is the instant the
clock jumps past it.
-/

namespace Ziftbook

/-- One minute, in the microseconds of an instant. -/
def minute : ℤ := 60000000

def second : ℤ := 1000000

/-- Minutes of a day. -/
def dayMinutes : ℤ := 1440

/-- The offset in force at the UTC minute `u`. -/
def offsetAt (o : ℤ) : List (ℤ × ℤ) → ℤ → ℤ
  | [], _ => o
  | (t, o') :: cs, u => if u < t then o else offsetAt o' cs u

/-- The offset a clock reading has with `fold=0`: of a reading shown twice the
earlier one's, of a skipped reading the one in force before the jump. -/
def foldOffset (o : ℤ) : List (ℤ × ℤ) → ℤ → ℤ
  | [], _ => o
  | (t, o') :: cs, w => if w < t + max o o' then o else foldOffset o' cs w

section

variable {o o' t u w : ℤ} {cs : List (ℤ × ℤ)}

theorem offsetAt_of_lt (h : u < t) : offsetAt o ((t, o') :: cs) u = o := if_pos h

theorem offsetAt_of_le (h : t ≤ u) : offsetAt o ((t, o') :: cs) u = offsetAt o' cs u :=
  if_neg (not_lt.mpr h)

theorem foldOffset_of_lt (h : w < t + max o o') : foldOffset o ((t, o') :: cs) w = o := if_pos h

theorem foldOffset_of_le (h : t + max o o' ≤ w) :
    foldOffset o ((t, o') :: cs) w = foldOffset o' cs w := if_neg (not_lt.mpr h)

end

/-- The readings at which the fold-0 offset changes. -/
def walls (o : ℤ) : List (ℤ × ℤ) → List ℤ
  | [] => []
  | (t, o') :: cs => (t + max o o') :: walls o' cs

structure Zone where
  base : ℤ
  changes : List (ℤ × ℤ)
  ascending : changes.Pairwise fun c d => c.1 < d.1

def Zone.fixed (offset : ℤ) : Zone := ⟨offset, [], List.Pairwise.nil⟩

/-- A zone that crosses the date line: local 30 December 2011 does not happen. -/
def apia : Zone := ⟨-600, [(22087320, 840)], by decide⟩

namespace Zone

/-- What the clock shows at the UTC minute `u`. -/
def reading (z : Zone) (u : ℤ) : ℤ := u + offsetAt z.base z.changes u

/-- `wall.replace(tzinfo=tz).astimezone(UTC)`. -/
def asUtc (z : Zone) (w : ℤ) : ℤ := w - foldOffset z.base z.changes w

/-- No reading from here on is a skipped one. -/
def lastWall (z : Zone) : ℤ := (walls z.base z.changes).foldr max 0

end Zone

/-! ## § The walk across a gap ends -/

theorem offsetAt_of_after {cs : List (ℤ × ℤ)} : ∀ {o w : ℤ},
    cs.Pairwise (fun c d => c.1 < d.1) → (∀ x ∈ walls o cs, x ≤ w) →
    offsetAt o cs (w - foldOffset o cs w) = foldOffset o cs w ∧
      ∀ c ∈ cs, c.1 ≤ w - foldOffset o cs w := by
  induction cs with
  | nil => intro o w _ _; exact ⟨rfl, by simp⟩
  | cons c cs ih =>
      obtain ⟨t, o'⟩ := c
      intro o w hasc hw
      obtain ⟨hfirst, hasc⟩ := List.pairwise_cons.mp hasc
      simp only [walls, List.mem_cons, forall_eq_or_imp] at hw
      have hfold : foldOffset o ((t, o') :: cs) w = foldOffset o' cs w := foldOffset_of_le hw.1
      obtain ⟨hoff, hlate⟩ := ih hasc hw.2
      have ht : t ≤ w - foldOffset o' cs w := by
        cases cs with
        | nil =>
            have := le_max_right o o'
            simp only [foldOffset]
            linarith [hw.1]
        | cons d ds =>
            exact (hfirst d (List.mem_cons_self ..)).le.trans (hlate d (List.mem_cons_self ..))
      rw [hfold]
      refine ⟨?_, ?_⟩
      · rw [offsetAt_of_le ht, hoff]
      · intro d hd
        rcases List.mem_cons.mp hd with rfl | hd
        · exact ht
        · exact hlate d hd

theorem le_foldr_max {xs : List ℤ} {x : ℤ} (h : x ∈ xs) : x ≤ xs.foldr max 0 := by
  induction xs with
  | nil => cases h
  | cons y ys ih =>
      rcases List.mem_cons.mp h with rfl | h
      · exact le_max_left ..
      · exact (ih h).trans (le_max_right ..)

namespace Zone

/-- A reading the clock never shows comes before the last change. -/
theorem lt_lastWall {z : Zone} {w : ℤ} (h : z.reading (z.asUtc w) ≠ w) : w < z.lastWall := by
  by_contra hw
  have hall : ∀ x ∈ walls z.base z.changes, x ≤ w :=
    fun x hx => (le_foldr_max hx).trans (not_lt.mp hw)
  have := (offsetAt_of_after z.ascending hall).1
  apply h
  rw [reading, asUtc, this]
  ring

/-- The loop of `to_utc`: a minute on while the clock does not show `w`. -/
def settle (z : Zone) (w : ℤ) : ℤ :=
  if h : z.reading (z.asUtc w) ≠ w then z.settle (w + 1) else w
termination_by (z.lastWall - w).toNat
decreasing_by
  have := lt_lastWall h
  omega

/-- The UTC minute at which the clock shows `w`, or has jumped past it. -/
def minuteOf (z : Zone) (w : ℤ) : ℤ := z.asUtc (z.settle w)

end Zone

/-! ## § What the loop stops at -/

namespace Zone

/-- The loop stops at the first reading from `w` on that the clock shows. -/
theorem settle_spec (z : Zone) (w : ℤ) :
    w ≤ z.settle w ∧ z.reading (z.asUtc (z.settle w)) = z.settle w ∧
      ∀ v, w ≤ v → v < z.settle w → z.reading (z.asUtc v) ≠ v := by
  fun_induction settle z w with
  | case1 w h ih =>
      obtain ⟨hle, hshown, hskipped⟩ := ih
      refine ⟨by omega, hshown, ?_⟩
      intro v hv hlt
      rcases eq_or_lt_of_le hv with rfl | hv
      · exact h
      · exact hskipped v (by omega) hlt
  | case2 w h =>
      exact ⟨le_rfl, not_not.mp h, fun v hv hlt => absurd hv (not_le.mpr hlt)⟩

theorem le_reading_minuteOf (z : Zone) (w : ℤ) : w ≤ z.reading (z.minuteOf w) := by
  obtain ⟨hle, hshown, _⟩ := z.settle_spec w
  rw [minuteOf, hshown]
  exact hle

/-- The search never goes back as the clock reading moves on. -/
def Forward (z : Zone) : Prop := ∀ v w, v ≤ w → z.minuteOf v ≤ z.minuteOf w

/-- No local date is shown after a later one. -/
def DatesForward (z : Zone) : Prop :=
  ∀ u v, u ≤ v → z.reading u / dayMinutes ≤ z.reading v / dayMinutes

end Zone

/-! ## § Zones whose skipped stretches end

A change may skip a stretch of the clock. When no later change falls inside
the time that stretch takes, `to_utc` is the least instant whose reading is at
or after the one asked for. -/

def SpacedFrom (o : ℤ) : List (ℤ × ℤ) → Prop
  | [] => True
  | (t, o') :: cs => (∀ c ∈ cs.head?, o' - o ≤ c.1 - t) ∧ SpacedFrom o' cs

def decideSpacedFrom : (o : ℤ) → (cs : List (ℤ × ℤ)) → Decidable (SpacedFrom o cs)
  | _, [] => .isTrue trivial
  | _, (_, o') :: cs =>
      have := decideSpacedFrom o' cs
      inferInstanceAs (Decidable (_ ∧ _))

instance (o : ℤ) (cs : List (ℤ × ℤ)) : Decidable (SpacedFrom o cs) :=
  decideSpacedFrom o cs

def Zone.Spaced (z : Zone) : Prop := SpacedFrom z.base z.changes

instance (z : Zone) : Decidable z.Spaced :=
  inferInstanceAs (Decidable (SpacedFrom _ _))

/-- A reading at or past the one a change jumps to is not before the change. -/
theorem change_le_asUtc {cs : List (ℤ × ℤ)} : ∀ {t o w : ℤ},
    ((t, o) :: cs).Pairwise (fun c d => c.1 < d.1) → t + o ≤ w →
    t ≤ w - foldOffset o cs w := by
  induction cs with
  | nil => intro t o w _ h; simp only [foldOffset]; omega
  | cons c cs ih =>
      obtain ⟨t', o'⟩ := c
      intro t o w hasc h
      obtain ⟨hfirst, hasc⟩ := List.pairwise_cons.mp hasc
      have hlt : t < t' := hfirst (t', o') (List.mem_cons_self ..)
      simp only [foldOffset]
      split
      · omega
      · rename_i hw
        have := ih (w := w) hasc (by omega)
        omega

variable {o o' t w : ℤ} {cs : List (ℤ × ℤ)}

/-- Up to the next change the offset is the one the last change brought. -/
theorem offsetAt_before_next {u : ℤ} (h : ∀ c ∈ cs.head?, u < c.1) : offsetAt o cs u = o := by
  cases cs with
  | nil => rfl
  | cons c cs => exact offsetAt_of_lt (h c (by simp))

/-- From the change on, a reading is converted by the rest of the zone. -/
theorem fold_past_change {v : ℤ} (hasc : ((t, o') :: cs).Pairwise fun c d => c.1 < d.1)
    (hv : t + max o o' ≤ v) :
    foldOffset o ((t, o') :: cs) v = foldOffset o' cs v ∧ t ≤ v - foldOffset o' cs v ∧
      offsetAt o ((t, o') :: cs) (v - foldOffset o' cs v) =
        offsetAt o' cs (v - foldOffset o' cs v) := by
  have ht : t ≤ v - foldOffset o' cs v := change_le_asUtc hasc (by omega)
  exact ⟨foldOffset_of_le hv, ht, offsetAt_of_le ht⟩

/-- Short of the change the clock shows `w` itself. -/
theorem isLeast_before_change (h : w < t + o) :
    IsLeast {u | w ≤ u + offsetAt o ((t, o') :: cs) u} (w - o) := by
  constructor
  · rw [Set.mem_ofPred_eq, offsetAt_of_lt (by omega)]
    omega
  · intro u hu
    rw [Set.mem_ofPred_eq] at hu
    by_cases htu : u < t
    · rw [offsetAt_of_lt htu] at hu
      omega
    · omega

/-- In the stretch it skips, the change itself is the least instant. -/
theorem isLeast_in_gap (hnext : ∀ c ∈ cs.head?, t < c.1) (hlow : t + o ≤ w) (hhigh : w ≤ t + o') :
    IsLeast {u | w ≤ u + offsetAt o ((t, o') :: cs) u} t := by
  constructor
  · rw [Set.mem_ofPred_eq, offsetAt_of_le le_rfl, offsetAt_before_next hnext]
    exact hhigh
  · intro u hu
    rw [Set.mem_ofPred_eq] at hu
    by_contra hlt
    rw [offsetAt_of_lt (by omega)] at hu
    omega

/-- A reading the change skips is shown at no instant it converts to. -/
theorem not_shown_in_gap {v : ℤ} (hgap : ∀ c ∈ cs.head?, o' - o ≤ c.1 - t) (hlow : t + o ≤ v)
    (hhigh : v < t + o') :
    (v - foldOffset o ((t, o') :: cs) v) +
      offsetAt o ((t, o') :: cs) (v - foldOffset o ((t, o') :: cs) v) ≠ v := by
  have hsoon : ∀ c ∈ cs.head?, v - o < c.1 := by
    intro c hc
    have := hgap c hc
    omega
  rw [foldOffset_of_lt (by omega), offsetAt_of_le (by omega), offsetAt_before_next hsoon]
  omega

/-- The reading it jumps to is shown at the change. -/
theorem fold_at_change (hnext : ∀ c ∈ cs.head?, t < c.1) (hjump : o ≤ o') :
    foldOffset o ((t, o') :: cs) (t + o') = o' := by
  rw [foldOffset_of_le (by omega)]
  cases cs with
  | nil => rfl
  | cons d ds =>
      have := hnext d (by simp)
      exact foldOffset_of_lt (by omega)

/-- **The first reading shown from `w` on is met at the least instant whose
reading is at or after `w`.** By cases on where `w` lies about the first
change: before it, in the stretch it skips, or past it. -/
theorem isLeast_asUtc {cs : List (ℤ × ℤ)} : ∀ {o w s : ℤ},
    cs.Pairwise (fun c d => c.1 < d.1) → SpacedFrom o cs → w ≤ s →
    (s - foldOffset o cs s) + offsetAt o cs (s - foldOffset o cs s) = s →
    (∀ v, w ≤ v → v < s →
      (v - foldOffset o cs v) + offsetAt o cs (v - foldOffset o cs v) ≠ v) →
    IsLeast {u | w ≤ u + offsetAt o cs u} (s - foldOffset o cs s) := by
  induction cs with
  | nil =>
      intro o w s _ _ hle _ hskip
      have hs : s = w := by
        by_contra hne
        exact hskip w le_rfl (by omega) (by simp [offsetAt, foldOffset])
      subst hs
      refine ⟨by simp [offsetAt, foldOffset], ?_⟩
      intro u hu
      simp only [offsetAt, Set.mem_ofPred_eq] at hu
      simp only [foldOffset]
      omega
  | cons c cs ih =>
      obtain ⟨t, o'⟩ := c
      intro o w s hasc hspaced hle hshown hskip
      obtain ⟨hgap, hspaced⟩ := hspaced
      have hnext : ∀ c ∈ cs.head?, t < c.1 := by
        intro c hc
        exact (List.pairwise_cons.mp hasc).1 c (List.mem_of_mem_head? hc)
      by_cases hw : t + max o o' ≤ w
      · -- past the change
        obtain ⟨hfold, hts, hoff⟩ := fold_past_change hasc (hw.trans hle)
        rw [hfold, hoff] at hshown
        have hskip' : ∀ v, w ≤ v → v < s →
            (v - foldOffset o' cs v) + offsetAt o' cs (v - foldOffset o' cs v) ≠ v := by
          intro v hv hvs
          obtain ⟨hf, _, hv'⟩ := fold_past_change hasc (hw.trans hv)
          have := hskip v hv hvs
          rwa [hf, hv'] at this
        obtain ⟨hmem, hleast⟩ := ih (List.pairwise_cons.mp hasc).2 hspaced hle hshown hskip'
        rw [hfold]
        refine ⟨?_, ?_⟩
        · rw [Set.mem_ofPred_eq, hoff]
          exact hmem
        · intro u hu
          rw [Set.mem_ofPred_eq] at hu
          by_cases htu : u < t
          · rw [offsetAt_of_lt htu] at hu
            omega
          · rw [offsetAt_of_le (by omega)] at hu
            exact hleast hu
      · by_cases hwo : w < t + o
        · -- before the change: `w` itself is shown
          have hfold : foldOffset o ((t, o') :: cs) w = o := foldOffset_of_lt (by omega)
          have hs : s = w := by
            by_contra hne
            refine hskip w le_rfl (by omega) ?_
            rw [hfold, offsetAt_of_lt (by omega)]
            ring
          rw [hs, hfold]
          exact isLeast_before_change hwo
        · -- in the skipped stretch: the first reading shown is `t + o'`, at `t`
          have hland : foldOffset o ((t, o') :: cs) (t + o') = o' :=
            fold_at_change hnext (by omega)
          have hs : s = t + o' := by
            rcases lt_trichotomy s (t + o') with hlt | heq | hgt
            · exact absurd hshown (not_shown_in_gap hgap (by omega) hlt)
            · exact heq
            · exfalso
              refine hskip (t + o') (by omega) hgt ?_
              rw [hland, add_sub_cancel_right, offsetAt_of_le le_rfl, offsetAt_before_next hnext]
          rw [hs, hland, add_sub_cancel_right]
          exact isLeast_in_gap hnext (by omega) (by omega)

namespace Zone

/-- **`to_utc` is the least instant at or after a wall time.** -/
theorem Spaced.isLeast_minuteOf {z : Zone} (h : z.Spaced) (w : ℤ) :
    IsLeast {u | w ≤ z.reading u} (z.minuteOf w) := by
  obtain ⟨hle, hshown, hskip⟩ := z.settle_spec w
  exact isLeast_asUtc z.ascending h hle hshown hskip

theorem Spaced.forward {z : Zone} (h : z.Spaced) : z.Forward := by
  intro v w hvw
  refine (h.isLeast_minuteOf v).2 ?_
  exact hvw.trans (z.le_reading_minuteOf w)

theorem Spaced.reading_lt {z : Zone} (h : z.Spaced) {u w : ℤ} (hu : u < z.minuteOf w) :
    z.reading u < w := by
  by_contra hle
  have hmin : z.minuteOf w ≤ u :=
    (h.isLeast_minuteOf w).2 (Set.mem_ofPred_eq ▸ not_lt.mp hle)
  exact absurd hu (not_lt.mpr hmin)

end Zone

/-- `schedule.to_utc`. -/
def toUtc (z : Zone) (day at_ : ℤ) : ℤ := minute * z.minuteOf (dayMinutes * day + at_)

/-- `instant.astimezone(ZoneInfo(zone)).date()`. -/
def dateAt (z : Zone) (instant : ℤ) : ℤ := z.reading (instant / minute) / dayMinutes

/-! ## § Days and their ends -/

theorem toUtc_mono {z : Zone} (h : z.Forward) {d d' m m' : ℤ}
    (hle : dayMinutes * d + m ≤ dayMinutes * d' + m') : toUtc z d m ≤ toUtc z d' m' := by
  have := h _ _ hle
  simp only [toUtc, minute]
  omega

theorem toUtc_div (z : Zone) (d m : ℤ) :
    toUtc z d m / minute = z.minuteOf (dayMinutes * d + m) := by
  simp [toUtc, minute]

/-- An instant from a day's opening on, before its closing, has that local date. -/
theorem dateAt_of_between {z : Zone} (h : z.Spaced) (hdates : z.DatesForward)
    {d opens closes t : ℤ} (hopens : 0 ≤ opens) (hcloses : closes ≤ dayMinutes)
    (ht : toUtc z d opens ≤ t) (ht' : t < toUtc z d closes) : dateAt z t = d := by
  have hday : (0 : ℤ) < dayMinutes := by decide
  have hlow : d ≤ dateAt z t := by
    have hread := z.le_reading_minuteOf (dayMinutes * d + opens)
    have hle : z.minuteOf (dayMinutes * d + opens) ≤ t / minute := by
      rw [← toUtc_div]
      exact Int.ediv_le_ediv (by decide) ht
    refine le_trans ?_ (hdates _ _ hle)
    rw [Int.le_ediv_iff_mul_le hday]
    linarith
  have hhigh : dateAt z t < d + 1 := by
    have hlt : t / minute < z.minuteOf (dayMinutes * d + closes) := by
      rw [← toUtc_div]
      simp only [toUtc, minute] at ht' ⊢
      omega
    have := h.reading_lt hlt
    rw [dateAt, Int.ediv_lt_iff_lt_mul hday]
    linarith
  omega

end Ziftbook
