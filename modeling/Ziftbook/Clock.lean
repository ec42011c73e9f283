import Ziftbook.LocalTime

/-!
# Any zone at all

A zone as a function of the instant, changing on whole minutes and more than
two days apart, and `schedule.to_utc` over it. A zone listed by its changes is
one of these, and there both conversions agree.
-/

namespace Ziftbook

/-- At the UTC minute `u` the offset is not what it was a minute before. -/
def ChangesAt (offset : ℤ → ℤ) (u : ℤ) : Prop :=
  offset (minute * (u - 1)) ≠ offset (minute * u)

/-- `ZoneInfo`: minutes ahead of UTC at each instant. An offset is less than a day, as
`datetime` requires of one. -/
structure Clock where
  offset : ℤ → ℤ
  whole : ∀ t, offset t = offset (minute * (t / minute))
  bounded : ∀ t, -dayMinutes < offset t ∧ offset t < dayMinutes
  apart : ∀ u v, u < v → ChangesAt offset u → ChangesAt offset v → u + 2 * dayMinutes < v

/-- The first of `n` numbers from `lo` on that passes. -/
def firstFrom (lo : ℤ) (n : ℕ) (p : ℤ → Bool) : Option ℤ :=
  ((List.range n).find? fun i : ℕ => p (lo + i)).map fun i : ℕ => lo + i

theorem firstFrom_eq_some {lo u : ℤ} {n : ℕ} {p : ℤ → Bool} (hlo : lo ≤ u) (hhi : u < lo + n)
    (hu : p u = true) (hfirst : ∀ v, lo ≤ v → v < u → p v = false) : firstFrom lo n p = some u := by
  obtain ⟨i, hi⟩ := Int.eq_ofNat_of_zero_le (Int.sub_nonneg.mpr hlo)
  have hadd : lo + (i : ℤ) = u := by omega
  have hfind : (List.range n).find? (fun i : ℕ => p (lo + i)) = some i := by
    rw [List.find?_range_eq_some, hadd]
    refine ⟨hu, List.mem_range.mpr (by omega), fun j hj => ?_⟩
    rw [hfirst (lo + j) (by omega) (by omega)]
    rfl
  rw [firstFrom, hfind, Option.map_some, hadd]

theorem firstFrom_eq_none {lo : ℤ} {n : ℕ} {p : ℤ → Bool}
    (hnone : ∀ v, lo ≤ v → v < lo + n → p v = false) : firstFrom lo n p = none := by
  rw [firstFrom, Option.map_eq_none_iff, List.find?_range_eq_none]
  intro i hi
  rw [hnone (lo + i) (by omega) (by omega)]
  rfl

namespace Clock

variable (c : Clock)

/-! ## § What the clock shows -/

/-- `instant.astimezone(tz)`, in the microseconds of a local date and time. -/
def shows (t : ℤ) : ℤ := t + minute * c.offset t

/-- The offset in force in a UTC minute. -/
def offsetOf (u : ℤ) : ℤ := c.offset (minute * u)

/-- What the clock shows at a UTC minute, in minutes. -/
def reading (u : ℤ) : ℤ := u + c.offsetOf u

/-- The first minute within a day of `w` that passes. -/
def firstNear (w : ℤ) (p : ℤ → Bool) : Option ℤ := firstFrom (w - dayMinutes) 2881 p

/-- `tz.utcoffset` of the reading `w`, with `fold=0`: of a repeated reading that of its first
occurrence, of a skipped one the offset before the change. -/
def utcoffset (w : ℤ) : ℤ :=
  match firstNear w fun u => c.reading u = w with
  | some u => c.offsetOf u
  | none =>
      match firstNear w fun u => w < c.reading u with
      | some u => c.offsetOf (u - 1)
      | none => c.offsetOf w

/-- `wall.replace(tzinfo=tz).astimezone(UTC)`. -/
def asUtc (w : ℤ) : ℤ := w - c.utcoffset w

/-- The loop's test: the reading survives the round trip through UTC. -/
def Kept (w : ℤ) : Prop := c.reading (c.asUtc w) = w

instance (w : ℤ) : Decidable (c.Kept w) := inferInstanceAs (Decidable (_ = _))

/-! ## § Two days hold one change -/

/-- Around the reading `w` the offset goes from `o` to `o'` at the minute `a`. -/
structure Around (w a o o' : ℤ) : Prop where
  low : -dayMinutes < o ∧ o < dayMinutes
  high : -dayMinutes < o' ∧ o' < dayMinutes
  start : w - dayMinutes < a
  before : ∀ u, w - dayMinutes ≤ u → u < a → u ≤ w + dayMinutes → c.offsetOf u = o
  after : ∀ u, a ≤ u → u ≤ w + dayMinutes → c.offsetOf u = o'

variable {c : Clock} {w a o o' : ℤ}

/-- Where nothing changes the offset stays. -/
theorem offsetOf_const {lo hi : ℤ} (h : ∀ u, lo < u → u ≤ hi → ¬ ChangesAt c.offset u) :
    ∀ u, lo ≤ u → u ≤ hi → c.offsetOf u = c.offsetOf lo := by
  intro u hu
  induction u, hu using Int.leInduction with
  | base => intro _; rfl
  | succ u hu ih =>
      intro hhi
      rw [← ih (by omega)]
      have hkeep := not_not.mp (h (u + 1) (by omega) hhi)
      rw [show u + 1 - 1 = u by ring] at hkeep
      exact hkeep.symm

/-- A change near the reading is the only one there. -/
theorem around_of_change (ha : ChangesAt c.offset a) (hlow : w - dayMinutes < a)
    (hhigh : a ≤ w + dayMinutes) : c.Around w a (c.offsetOf (a - 1)) (c.offsetOf a) := by
  have hother : ∀ u, w - dayMinutes < u → u ≤ w + dayMinutes → u ≠ a →
      ¬ ChangesAt c.offset u := by
    intro u hu hu' hne hchange
    rcases lt_or_gt_of_ne hne with hlt | hgt
    · have hfar := c.apart u a hlt hchange ha
      omega
    · have hfar := c.apart a u hgt ha hchange
      omega
  have hbefore : ∀ u, w - dayMinutes ≤ u → u ≤ a - 1 →
      c.offsetOf u = c.offsetOf (w - dayMinutes) :=
    offsetOf_const fun u hu hu' => hother u hu (by omega) (by omega)
  have hafter : ∀ u, a ≤ u → u ≤ w + dayMinutes → c.offsetOf u = c.offsetOf a :=
    offsetOf_const fun u hu hu' => hother u (by omega) hu' (by omega)
  refine ⟨c.bounded _, c.bounded _, hlow, fun u hu hlt _ => ?_, hafter⟩
  rw [hbefore u hu (by omega), hbefore (a - 1) (by omega) le_rfl]

/-- **Around every reading the clock changes once at most.** -/
theorem exists_around (c : Clock) (w : ℤ) : ∃ a o o', c.Around w a o o' := by
  by_cases h : ∃ a, ChangesAt c.offset a ∧ w - dayMinutes < a ∧ a ≤ w + dayMinutes
  · obtain ⟨a, ha, hlow, hhigh⟩ := h
    exact ⟨a, _, _, around_of_change ha hlow hhigh⟩
  · have hconst := @offsetOf_const c (w - dayMinutes) (w + dayMinutes)
      fun u hu hu' hchange => h ⟨u, hchange, hu, hu'⟩
    have hpos : (0 : ℤ) < dayMinutes := by decide
    exact ⟨w + dayMinutes + 1, _, c.offsetOf (w - dayMinutes), c.bounded _, c.bounded _,
      by omega, fun u hu _ hu' => hconst u hu hu', fun u hu hu' => absurd (hu.trans hu') (by omega)⟩

/-! ## § What the round trip makes of a reading -/

theorem firstNear_eq_some {u : ℤ} {p : ℤ → Bool} (hlo : w - dayMinutes ≤ u)
    (hhi : u ≤ w + dayMinutes) (hu : p u = true)
    (hfirst : ∀ v, w - dayMinutes ≤ v → v < u → p v = false) : firstNear w p = some u := by
  refine firstFrom_eq_some hlo ?_ hu hfirst
  rw [dayMinutes] at hhi ⊢
  push_cast
  omega

theorem firstNear_eq_none {p : ℤ → Bool}
    (hnone : ∀ v, w - dayMinutes ≤ v → v ≤ w + dayMinutes → p v = false) :
    firstNear w p = none := by
  refine firstFrom_eq_none fun v hv hv' => hnone v hv ?_
  rw [dayMinutes] at hv' ⊢
  push_cast at hv'
  omega

namespace Around

theorem reading_before (h : c.Around w a o o') {u : ℤ} (hu : w - dayMinutes ≤ u) (hlt : u < a)
    (hu' : u ≤ w + dayMinutes) : c.reading u = u + o := by
  rw [reading, h.before u hu hlt hu']

theorem reading_after (h : c.Around w a o o') {u : ℤ} (hu : a ≤ u) (hu' : u ≤ w + dayMinutes) :
    c.reading u = u + o' := by
  rw [reading, h.after u hu hu']

/-- Long before, the clock has not come to `w`. -/
theorem reading_lt_of_far (c : Clock) {u w : ℤ} (hu : u < w - dayMinutes) : c.reading u < w := by
  have hle := (c.bounded (minute * u)).2
  rw [reading, offsetOf]
  omega

/-- A reading shown before the change: the first minute that shows it. -/
theorem of_before (h : c.Around w a o o') (hw : w < a + o) :
    c.asUtc w = w - o ∧ c.reading (w - o) = w ∧ ∀ u < w - o, c.reading u < w := by
  have hlow := h.low
  have hearly : ∀ u < w - o, c.reading u < w := by
    intro u hu
    rcases lt_or_ge u (w - dayMinutes) with hfar | hnear
    · exact reading_lt_of_far c hfar
    · rw [h.reading_before hnear (by omega) (by omega)]
      omega
  have hshown : c.reading (w - o) = w := by
    rw [h.reading_before (by omega) (by omega) (by omega)]
    omega
  refine ⟨?_, hshown, hearly⟩
  have hfirst : firstNear w (fun u => c.reading u = w) = some (w - o) := by
    refine firstNear_eq_some (by omega) (by omega) (decide_eq_true hshown) ?_
    intro v _ hv
    exact decide_eq_false (hearly v hv).ne
  unfold asUtc utcoffset
  rw [hfirst]
  show w - c.offsetOf (w - o) = w - o
  rw [h.before _ (by omega) (by omega) (by omega)]

/-- A reading shown only from the change on. -/
theorem of_after (h : c.Around w a o o') (hw : a + o ≤ w) (hw' : a + o' ≤ w) :
    c.asUtc w = w - o' ∧ c.reading (w - o') = w ∧ ∀ u < w - o', c.reading u < w := by
  have hhigh := h.high
  have hearly : ∀ u < w - o', c.reading u < w := by
    intro u hu
    rcases lt_or_ge u (w - dayMinutes) with hfar | hnear
    · exact reading_lt_of_far c hfar
    · rcases lt_or_ge u a with hlt | hge
      · rw [h.reading_before hnear hlt (by omega)]
        omega
      · rw [h.reading_after hge (by omega)]
        omega
  have hshown : c.reading (w - o') = w := by
    rw [h.reading_after (by omega) (by omega)]
    omega
  refine ⟨?_, hshown, hearly⟩
  have hfirst : firstNear w (fun u => c.reading u = w) = some (w - o') := by
    refine firstNear_eq_some (by omega) (by omega) (decide_eq_true hshown) ?_
    intro v _ hv
    exact decide_eq_false (hearly v hv).ne
  unfold asUtc utcoffset
  rw [hfirst]
  show w - c.offsetOf (w - o') = w - o'
  rw [h.after _ (by omega) (by omega)]

/-- A skipped reading is taken with the offset before the change, and read back later. -/
theorem of_skipped (h : c.Around w a o o') (hw : a + o ≤ w) (hw' : w < a + o') :
    c.asUtc w = w - o ∧ ¬ c.Kept w := by
  have hlow := h.low
  have hhigh := h.high
  have hstart := h.start
  have hbefore : ∀ u, w - dayMinutes ≤ u → u < a → u ≤ w + dayMinutes → c.reading u < w := by
    intro u hu hlt hu'
    rw [h.reading_before hu hlt hu']
    omega
  have hafter : ∀ u, a ≤ u → u ≤ w + dayMinutes → w < c.reading u := by
    intro u hu hu'
    rw [h.reading_after hu hu']
    omega
  have hnone : firstNear w (fun u => c.reading u = w) = none := by
    refine firstNear_eq_none fun v hv hv' => ?_
    rcases lt_or_ge v a with hlt | hge
    · exact decide_eq_false (hbefore v hv hlt hv').ne
    · exact decide_eq_false (hafter v hge hv').ne'
  have hjump : firstNear w (fun u => w < c.reading u) = some a := by
    refine firstNear_eq_some hstart.le (by omega) (decide_eq_true (hafter a le_rfl (by omega))) ?_
    intro v hv hlt
    exact decide_eq_false (hbefore v hv hlt (by omega)).not_gt
  have hutc : c.asUtc w = w - o := by
    unfold asUtc utcoffset
    rw [hnone, hjump]
    show w - c.offsetOf (a - 1) = w - o
    rw [h.before _ (by omega) (by omega) (by omega)]
  refine ⟨hutc, ?_⟩
  rw [Kept, hutc]
  exact (hafter (w - o) (by omega) (by omega)).ne'

/-- The change that skips a reading skips all those after it up to where it jumps, and
no more. -/
theorem at_reading (h : c.Around w a o o') (hw : a + o ≤ w) (hw' : w < a + o') {v : ℤ}
    (hv : w ≤ v) (hv' : v ≤ a + o') : c.Around v a o o' := by
  have hlow := h.low
  have hhigh := h.high
  have hstart := h.start
  have hat : c.offsetOf a = o' := h.after a le_rfl (by omega)
  have hbefore : c.offsetOf (a - 1) = o := h.before (a - 1) (by omega) (by omega) (by omega)
  have hchange : ChangesAt c.offset a := by
    show c.offsetOf (a - 1) ≠ c.offsetOf a
    rw [hat, hbefore]
    omega
  have haround : c.Around v a (c.offsetOf (a - 1)) (c.offsetOf a) :=
    around_of_change hchange (by omega) (by omega)
  rwa [hat, hbefore] at haround

end Around

/-! ## § The loop of `to_utc` ends -/

/-- In less than two days the clock shows a reading again. -/
theorem exists_kept_soon (c : Clock) (w : ℤ) :
    ∃ n : ℕ, (n : ℤ) < 2 * dayMinutes ∧ c.Kept (w + n) := by
  have hpos : (0 : ℤ) < dayMinutes := by decide
  obtain ⟨a, o, o', h⟩ := c.exists_around w
  rcases lt_or_ge w (a + o) with hbefore | hfrom
  · obtain ⟨hutc, hshown, _⟩ := h.of_before hbefore
    refine ⟨0, by simpa using hpos, ?_⟩
    rw [Nat.cast_zero, add_zero, Kept, hutc, hshown]
  · rcases lt_or_ge w (a + o') with hskipped | hafter
    · have hlow := h.low
      have hhigh := h.high
      obtain ⟨n, hn⟩ := Int.eq_ofNat_of_zero_le (Int.sub_nonneg.mpr hskipped.le)
      refine ⟨n, by omega, ?_⟩
      obtain ⟨hutc, hshown, _⟩ :=
        (h.at_reading hfrom hskipped hskipped.le le_rfl).of_after (by omega) le_rfl
      rw [show w + (n : ℤ) = a + o' by omega, Kept, hutc, hshown]
    · obtain ⟨hutc, hshown, _⟩ := h.of_after hfrom hafter
      refine ⟨0, by simpa using hpos, ?_⟩
      rw [Nat.cast_zero, add_zero, Kept, hutc, hshown]

theorem exists_kept (c : Clock) (w : ℤ) : ∃ n : ℕ, c.Kept (w + n) :=
  (c.exists_kept_soon w).imp fun _ h => h.2

/-- A reading later there is a step less to go. -/
theorem find_kept_lt {c : Clock} {w : ℤ} (h : ¬ c.Kept w) :
    Nat.find (c.exists_kept (w + 1)) < Nat.find (c.exists_kept w) := by
  have hkept := Nat.find_spec (c.exists_kept w)
  cases hn : Nat.find (c.exists_kept w) with
  | zero =>
      rw [hn, Nat.cast_zero, add_zero] at hkept
      exact absurd hkept h
  | succ n =>
      refine Nat.lt_succ_of_le (Nat.find_min' _ ?_)
      rw [hn] at hkept
      rwa [show w + 1 + (n : ℤ) = w + ((n + 1 : ℕ) : ℤ) by push_cast; ring]

/-- The loop of `to_utc`: a minute on while the round trip changes the reading. -/
def settle (c : Clock) (w : ℤ) : ℤ := if ¬ c.Kept w then c.settle (w + 1) else w
termination_by Nat.find (c.exists_kept w)
decreasing_by exact find_kept_lt ‹_›

/-- `schedule.to_utc`. -/
def toUtc (c : Clock) (day at_ : ℤ) : ℤ := minute * c.asUtc (c.settle (dayMinutes * day + at_))

/-- The loop stops at the first reading from `w` on that survives the round trip. -/
theorem settle_spec (c : Clock) (w : ℤ) :
    w ≤ c.settle w ∧ c.Kept (c.settle w) ∧ ∀ v, w ≤ v → v < c.settle w → ¬ c.Kept v := by
  fun_induction settle c w with
  | case1 w h ih =>
      obtain ⟨hle, hkept, hskipped⟩ := ih
      refine ⟨by omega, hkept, fun v hv hlt => ?_⟩
      rcases eq_or_lt_of_le hv with rfl | hv
      · exact h
      · exact hskipped v (by omega) hlt
  | case2 w h => exact ⟨le_rfl, not_not.mp h, fun v hv hlt => absurd hv (not_le.mpr hlt)⟩

/-! ## § What it stops at -/

/-- **The minute found is the first from which the clock shows `w` or later.** By cases on
where `w` lies about the change near it: before it, in the stretch it skips, or past it. -/
theorem isLeast_settle (c : Clock) (w : ℤ) :
    IsLeast {u | w ≤ c.reading u} (c.asUtc (c.settle w)) := by
  obtain ⟨hle, hkept, hskip⟩ := c.settle_spec w
  obtain ⟨a, o, o', h⟩ := c.exists_around w
  have hstays : c.Kept w → c.settle w = w := by
    intro hw
    by_contra hne
    exact hskip w le_rfl (by omega) hw
  have hleast : ∀ m, w ≤ c.reading m → (∀ u < m, c.reading u < w) →
      IsLeast {u | w ≤ c.reading u} m := by
    intro m hm hearly
    refine ⟨hm, fun u hu => ?_⟩
    by_contra hlt
    exact absurd hu (not_le.mpr (hearly u (not_le.mp hlt)))
  rcases lt_or_ge w (a + o) with hbefore | hfrom
  · obtain ⟨hutc, hshown, hearly⟩ := h.of_before hbefore
    rw [hstays (by rw [Kept, hutc, hshown]), hutc]
    exact hleast _ hshown.ge hearly
  · rcases lt_or_ge w (a + o') with hskipped | hafter
    · have hjump : ∀ v, w ≤ v → v < a + o' → ¬ c.Kept v := fun v hv hv' =>
        ((h.at_reading hfrom hskipped hv hv'.le).of_skipped (by omega) hv').2
      obtain ⟨hutc, hshown, hearly⟩ :=
        (h.at_reading hfrom hskipped hskipped.le le_rfl).of_after (by omega) le_rfl
      have hend : c.settle w = a + o' := by
        rcases lt_trichotomy (c.settle w) (a + o') with hlt | heq | hgt
        · exact absurd hkept (hjump _ hle hlt)
        · exact heq
        · exact absurd (by rw [Kept, hutc, hshown]) (hskip (a + o') hskipped.le hgt)
      rw [hend, hutc]
      refine hleast _ (hskipped.le.trans hshown.ge) fun u hu => ?_
      rcases lt_or_ge u (w - dayMinutes) with hfar | hnear
      · exact Around.reading_lt_of_far c hfar
      · have hlow := h.low
        rw [h.reading_before hnear (by omega) (by omega)]
        omega
    · obtain ⟨hutc, hshown, hearly⟩ := h.of_after hfrom hafter
      rw [hstays (by rw [Kept, hutc, hshown]), hutc]
      exact hleast _ hshown.ge hearly

/-- What the clock shows, to the minute. -/
theorem le_shows_iff (c : Clock) (w t : ℤ) :
    minute * w ≤ c.shows t ↔ w ≤ c.reading (t / minute) := by
  rw [shows, reading, offsetOf, c.whole t, minute]
  omega

/-- **`to_utc` is the least instant at or after a wall time.** Its loop ends, in less than
two days' steps, and a later wall time is never an earlier instant. -/
theorem isLeast_toUtc (c : Clock) (day at_ : ℤ) :
    (∃ n : ℕ, (n : ℤ) < 2 * dayMinutes ∧ c.Kept (dayMinutes * day + at_ + n) ∧
      ∀ k < n, ¬ c.Kept (dayMinutes * day + at_ + k)) ∧
    IsLeast {t | minute * (dayMinutes * day + at_) ≤ c.shows t} (c.toUtc day at_) ∧
    ∀ day' at', dayMinutes * day + at_ ≤ dayMinutes * day' + at' →
      c.toUtc day at_ ≤ c.toUtc day' at' := by
  have hleast : ∀ d m, IsLeast {t | minute * (dayMinutes * d + m) ≤ c.shows t} (c.toUtc d m) := by
    intro d m
    obtain ⟨hmem, hlow⟩ := c.isLeast_settle (dayMinutes * d + m)
    have hmin : (0 : ℤ) < minute := by decide
    refine ⟨?_, fun t ht => ?_⟩
    · show _ ≤ c.shows _
      rw [le_shows_iff, toUtc, Int.mul_ediv_cancel_left _ hmin.ne']
      exact hmem
    · have hu := hlow ((c.le_shows_iff _ t).mp ht)
      have hdiv := Int.mul_ediv_self_le (x := t) hmin.ne'
      exact (mul_le_mul_of_nonneg_left hu hmin.le).trans hdiv
  refine ⟨?_, hleast day at_, fun day' at' hlater => ?_⟩
  · refine ⟨Nat.find (c.exists_kept (dayMinutes * day + at_)), ?_, Nat.find_spec (c.exists_kept _),
      fun k hk => Nat.find_min (c.exists_kept _) hk⟩
    obtain ⟨n, hn, hkept⟩ := c.exists_kept_soon (dayMinutes * day + at_)
    have hfind : Nat.find (c.exists_kept (dayMinutes * day + at_)) ≤ n := Nat.find_min' _ hkept
    omega
  · refine (hleast day at_).2 ?_
    have hmin : (0 : ℤ) ≤ minute := by decide
    exact (mul_le_mul_of_nonneg_left hlater hmin).trans (hleast day' at').1

end Clock

/-! ## § A zone listed by its changes -/

/-- The minute the clock first shows `w` or later is the one found. -/
theorem Zone.Spaced.minuteOf_eq {z : Zone} (h : z.Spaced) {w m : ℤ} (hm : w ≤ z.reading m)
    (hearly : ∀ u < m, z.reading u < w) : z.minuteOf w = m := by
  refine (h.isLeast_minuteOf w).unique ⟨hm, fun u hu => ?_⟩
  by_contra hlt
  exact absurd hu (not_le.mpr (hearly u (not_le.mp hlt)))

theorem offsetAt_bounded {cs : List (ℤ × ℤ)} : ∀ {o : ℤ}, -dayMinutes < o ∧ o < dayMinutes →
    (∀ c ∈ cs, -dayMinutes < c.2 ∧ c.2 < dayMinutes) → ∀ u,
    -dayMinutes < offsetAt o cs u ∧ offsetAt o cs u < dayMinutes := by
  induction cs with
  | nil => intro o ho _ u; exact ho
  | cons c cs ih =>
      intro o ho hcs u
      obtain ⟨hc, hcs⟩ := List.forall_mem_cons.mp hcs
      rw [offsetAt]
      split
      · exact ho
      · exact ih hc hcs u

/-- Only where the list says so does the offset change. -/
theorem mem_of_offsetAt_ne {cs : List (ℤ × ℤ)} : ∀ {o u : ℤ},
    offsetAt o cs (u - 1) ≠ offsetAt o cs u → ∃ c ∈ cs, c.1 = u := by
  induction cs with
  | nil => intro o u h; exact absurd rfl h
  | cons c cs ih =>
      intro o u h
      rw [offsetAt, offsetAt] at h
      by_cases hlt : u < c.1
      · rw [if_pos hlt, if_pos (by omega)] at h
        exact absurd rfl h
      · by_cases hat : u - 1 < c.1
        · exact ⟨c, List.mem_cons_self .., by omega⟩
        · rw [if_neg hat, if_neg hlt] at h
          obtain ⟨d, hd, hu⟩ := ih h
          exact ⟨d, List.mem_cons_of_mem _ hd, hu⟩

/-- No change falls inside a stretch another skips: that is less than two days. -/
theorem spacedFrom_of_civil {cs : List (ℤ × ℤ)} : ∀ {o : ℤ}, -dayMinutes < o ∧ o < dayMinutes →
    (∀ c ∈ cs, -dayMinutes < c.2 ∧ c.2 < dayMinutes) →
    (cs.Pairwise fun c d => c.1 + 2 * dayMinutes < d.1) → SpacedFrom o cs := by
  induction cs with
  | nil => intro _ _ _ _; trivial
  | cons c cs ih =>
      intro o ho hcs hapart
      obtain ⟨hc, hcs⟩ := List.forall_mem_cons.mp hcs
      obtain ⟨hfirst, hapart⟩ := List.pairwise_cons.mp hapart
      refine ⟨fun d hd => ?_, ih hc hcs hapart⟩
      have hfar := hfirst d (List.mem_of_mem_head? hd)
      omega

theorem Zone.Civil.spaced {z : Zone} (h : z.Civil) : z.Spaced :=
  spacedFrom_of_civil h.base h.bounded h.apart

/-- A zone listed by its changes, as a function of the instant. -/
def Zone.clock (z : Zone) (h : z.Civil) : Clock where
  offset t := offsetAt z.base z.changes (t / minute)
  whole t := by rw [Int.mul_ediv_cancel_left _ (by decide)]
  bounded t := offsetAt_bounded h.base h.bounded _
  apart u v hlt hu hv := by
    have hmin : minute ≠ 0 := by decide
    simp only [ChangesAt, Int.mul_ediv_cancel_left _ hmin] at hu hv
    obtain ⟨c, hc, rfl⟩ := mem_of_offsetAt_ne hu
    obtain ⟨d, hd, rfl⟩ := mem_of_offsetAt_ne hv
    have hsymm : z.changes.Pairwise fun c d =>
        c.1 + 2 * dayMinutes < d.1 ∨ d.1 + 2 * dayMinutes < c.1 := h.apart.imp Or.inl
    have : Std.Symm fun c d : ℤ × ℤ =>
        c.1 + 2 * dayMinutes < d.1 ∨ d.1 + 2 * dayMinutes < c.1 := ⟨fun _ _ => Or.symm⟩
    have hpos : (0 : ℤ) < dayMinutes := by decide
    rcases hsymm.forall hc hd (by rintro rfl; exact lt_irrefl _ hlt) with hfar | hback
    · exact hfar
    · omega

theorem Zone.reading_clock (z : Zone) (h : z.Civil) (u : ℤ) :
    (z.clock h).reading u = z.reading u := by
  show u + offsetAt z.base z.changes (minute * u / minute) = _
  rw [Int.mul_ediv_cancel_left _ (by decide)]
  rfl

/-- **Both conversions of a wall time agree**: on listed changes the search by bisection is
the search by occurrence. -/
theorem Zone.toUtc_clock {z : Zone} (h : z.Civil) (day at_ : ℤ) :
    (z.clock h).toUtc day at_ = toUtc z day at_ := by
  have hclock := (z.clock h).isLeast_settle (dayMinutes * day + at_)
  have hzone := h.spaced.isLeast_minuteOf (dayMinutes * day + at_)
  simp only [z.reading_clock h] at hclock
  rw [Clock.toUtc, toUtc, hclock.unique hzone]

end Ziftbook
