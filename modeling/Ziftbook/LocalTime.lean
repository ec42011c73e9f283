import Ziftbook.Zone

/-!
# Local times in the browser

`localToInstant` of `lib/time-off.ts` beside `schedule.to_utc`. The browser samples
the offset a day before and a day after a reading, and tries both; the server walks
forward from the reading. Around a reading a zone changes once at most, and there
both find the same instant.
-/

namespace Ziftbook

/-! ## § Dates -/

/-- Days since 1970-01-01 of a date of the Gregorian calendar. -/
def daysFromCivil (y m d : ℤ) : ℤ :=
  let y' := if m ≤ 2 then y - 1 else y
  let era := y' / 400
  let yearOfEra := y' % 400
  let dayOfYear := (153 * (if m ≤ 2 then m + 9 else m - 3) + 2) / 5 + d - 1
  era * 146097 + yearOfEra * 365 + yearOfEra / 4 - yearOfEra / 100 + dayOfYear - 719468

/-- 1970 begins the count, and 2024 was a leap year. -/
example : daysFromCivil 1970 1 1 = 0 ∧ daysFromCivil 2024 3 1 - daysFromCivil 2024 2 28 = 2 ∧
    daysFromCivil 2100 3 1 - daysFromCivil 2100 2 28 = 1 := by decide

/-- `Date.UTC`, with the month counted from 0; a year below 100 is one of the 1900s. -/
def dateUTC (y month d hh mm : ℤ) : ℤ :=
  let y' := if 0 ≤ y ∧ y ≤ 99 then 1900 + y else y
  (dayMinutes * daysFromCivil y' (month + 1) d + (60 * hh + mm)) * 60000

/-! ## § `localToInstant` -/

/-- `DAY_MS`. -/
def dayMs : ℤ := 24 * 60 * 60 * 1000

namespace Zone

/-- `offsetAt`: what `Intl` says the clock is ahead of UTC, in milliseconds. -/
def offsetMs (z : Zone) (utcMillis : ℤ) : ℤ := 60000 * offsetAt z.base z.changes (utcMillis / 60000)

/-- The walk over a skipped stretch, for as many minutes as `fuel`. -/
def walkMs (z : Zone) (offsetAfter : ℤ) : ℕ → ℤ → Option ℤ
  | 0, _ => none
  | fuel + 1, wall =>
      if z.offsetMs (wall - offsetAfter) ≠ offsetAfter then z.walkMs offsetAfter fuel (wall + 60000)
      else some (wall - offsetAfter)

/-- `localToInstant` from `local` on, in milliseconds. -/
def localMs (z : Zone) (fuel : ℕ) (wall : ℤ) : Option ℤ :=
  let offsetBefore := z.offsetMs (wall - dayMs)
  let offsetAfter := z.offsetMs (wall + dayMs)
  if offsetBefore = offsetAfter then some (wall - offsetBefore)
  else
    let candidateBefore := wall - offsetBefore
    let candidateAfter := wall - offsetAfter
    let consistentBefore := z.offsetMs candidateBefore = offsetBefore
    let consistentAfter := z.offsetMs candidateAfter = offsetAfter
    -- A reading shown twice: the first of the two.
    if consistentBefore ∧ consistentAfter then some (min candidateBefore candidateAfter)
    else if consistentBefore then some candidateBefore
    else if consistentAfter then some candidateAfter
    -- A skipped reading: the first minute after the gap.
    else z.walkMs offsetAfter fuel wall

end Zone

/-- `localToInstant` of a date, an hour and a minute, in milliseconds. -/
def localToInstant (z : Zone) (fuel : ℕ) (y m d hh mm : ℤ) : Option ℤ :=
  z.localMs fuel (dateUTC y (m - 1) d hh mm)

/-! ## § One change around a reading -/

/-- Offsets of less than a day, and changes more than two days apart. -/
structure Zone.Civil (z : Zone) : Prop where
  base : -dayMinutes < z.base ∧ z.base < dayMinutes
  bounded : ∀ c ∈ z.changes, -dayMinutes < c.2 ∧ c.2 < dayMinutes
  apart : z.changes.Pairwise fun c d => c.1 + 2 * dayMinutes < d.1

instance (z : Zone) : Decidable z.Civil :=
  decidable_of_iff ((-dayMinutes < z.base ∧ z.base < dayMinutes) ∧
    (∀ c ∈ z.changes, -dayMinutes < c.2 ∧ c.2 < dayMinutes) ∧
    z.changes.Pairwise fun c d => c.1 + 2 * dayMinutes < d.1)
    ⟨fun h => ⟨h.1, h.2.1, h.2.2⟩, fun h => ⟨h.base, h.bounded, h.apart⟩⟩

/-- Around the reading `w` the offset goes from `o` to `o'` at `t`, both as instants have
it and as readings do. -/
structure ReadingAround (base : ℤ) (changes : List (ℤ × ℤ)) (w o t o' : ℤ) : Prop where
  low : -dayMinutes < o ∧ o < dayMinutes
  high : -dayMinutes < o' ∧ o' < dayMinutes
  near : o = o' ∨ w - dayMinutes < t ∧ t ≤ w + dayMinutes
  offset : ∀ u, w - dayMinutes ≤ u → u ≤ max (w + dayMinutes) (t + 2 * dayMinutes) →
    offsetAt base changes u = if u < t then o else o'
  fold : ∀ v, w ≤ v → v ≤ max w (t + max o o') →
    foldOffset base changes v = if v < t + max o o' then o else o'

theorem offsetAt_before {o u : ℤ} {cs : List (ℤ × ℤ)} (h : ∀ c ∈ cs, u < c.1) :
    offsetAt o cs u = o :=
  offsetAt_before_next fun c hc => h c (List.mem_of_mem_head? hc)

theorem foldOffset_before {o v : ℤ} {cs : List (ℤ × ℤ)} (h : ∀ c ∈ cs, v < c.1 + o) :
    foldOffset o cs v = o := by
  cases cs with
  | nil => rfl
  | cons c cs =>
      have hc := h c (List.mem_cons_self ..)
      have := le_max_left o c.2
      exact foldOffset_of_lt (by omega)

/-- By cases on where the first change is: long before the reading, long after it, or
around it. -/
theorem exists_around {cs : List (ℤ × ℤ)} : ∀ {o w : ℤ}, -dayMinutes < o ∧ o < dayMinutes →
    (∀ c ∈ cs, -dayMinutes < c.2 ∧ c.2 < dayMinutes) →
    cs.Pairwise (fun c d => c.1 + 2 * dayMinutes < d.1) →
    ∃ o₁ t o₂, ReadingAround o cs w o₁ t o₂ := by
  induction cs with
  | nil =>
      intro o w ho _ _
      refine ⟨o, w - dayMinutes, o, ho, ho, Or.inl rfl, fun u _ _ => ?_, fun v _ _ => ?_⟩
      · rw [ite_self]
        rfl
      · rw [ite_self]
        rfl
  | cons c cs ih =>
      obtain ⟨t, o'⟩ := c
      intro o w ho hbounded hapart
      obtain ⟨ho', hrest⟩ := List.forall_mem_cons.mp hbounded
      obtain ⟨hnext, hlater⟩ := List.pairwise_cons.mp hapart
      simp only [dayMinutes] at *
      rcases lt_or_ge (w - 1440) t with ht | ht
      · rcases lt_or_ge (w + 1440) t with hlate | hnear
        · -- The change comes after all that is looked at.
          refine ⟨o, w - 1440, o, ho, ho, Or.inl rfl, fun u hu hu' => ?_, fun v hv hv' => ?_⟩
          · rw [ite_self]
            simp only [dayMinutes] at hu'
            exact offsetAt_of_lt (by omega)
          · rw [ite_self]
            have := le_max_left o o'
            exact foldOffset_of_lt (by omega)
        · refine ⟨o, t, o', ho, ho', Or.inr ⟨ht, hnear⟩, fun u hu hu' => ?_, fun v hv hv' => ?_⟩
          · simp only [offsetAt]
            simp only [dayMinutes] at hu'
            rw [offsetAt_before fun c hc => by have := hnext c hc; omega]
          · simp only [foldOffset]
            rw [foldOffset_before fun c hc => by have := hnext c hc; omega]
      · obtain ⟨o₁, t', o₂, h⟩ := ih (w := w) ho' hrest hlater
        refine ⟨o₁, t', o₂, h.low, h.high, h.near, fun u hu hu' => ?_, fun v hv hv' => ?_⟩
        · rw [← h.offset u hu hu']
          simp only [dayMinutes] at hu
          exact offsetAt_of_le (by omega)
        · rw [← h.fold v hv hv']
          exact foldOffset_of_le (by omega)

/-! ## § Both find the same minute -/

namespace ReadingAround

variable {z : Zone} {w o t o' : ℤ}

/-- The UTC minute of the reading: a skipped one is the minute of the change, one shown
twice the first of the two. -/
def found (w o t o' : ℤ) : ℤ := if w < t + o then w - o else if w < t + o' then t else w - o'

theorem asUtc_eq (h : ReadingAround z.base z.changes w o t o') {v : ℤ} (hv : w ≤ v)
    (hv' : v ≤ max w (t + max o o')) :
    z.asUtc v = v - if v < t + max o o' then o else o' := by
  rw [Zone.asUtc, h.fold v hv hv']

theorem reading_eq (h : ReadingAround z.base z.changes w o t o') {u : ℤ} (hu : w - dayMinutes ≤ u)
    (hu' : u ≤ max (w + dayMinutes) (t + 2 * dayMinutes)) :
    z.reading u = u + if u < t then o else o' := by
  rw [Zone.reading, h.offset u hu hu']

/-- The server's walk. -/
theorem minuteOf_eq (h : ReadingAround z.base z.changes w o t o') :
    z.minuteOf w = found w o t o' := by
  have hlow := h.low
  have hhigh := h.high
  simp only [dayMinutes] at hlow hhigh
  unfold found
  split
  · rename_i hbefore
    -- Shown before the change.
    have hmax := le_max_left o o'
    have hutc : z.asUtc w = w - o := by
      rw [h.asUtc_eq le_rfl (le_max_left ..), if_pos (by omega)]
    have hshown : z.reading (z.asUtc w) = w := by
      rw [hutc, h.reading_eq (by simp only [dayMinutes]; omega)
        (by simp only [dayMinutes]; omega), if_pos (by omega)]
      omega
    rw [Zone.minuteOf, Zone.settle, dif_neg (not_not.mpr hshown), hutc]
  · rename_i hnot
    split
    · rename_i hskipped
      have hmax : max o o' = o' := max_eq_right (by omega)
      -- No reading before the end of the gap is shown.
      have hgap : ∀ v, w ≤ v → v < t + o' → z.reading (z.asUtc v) ≠ v := by
        intro v hv hend
        rw [h.asUtc_eq hv (by rw [hmax]; omega), hmax, if_pos hend,
          h.reading_eq (by simp only [dayMinutes]; omega) (by simp only [dayMinutes]; omega),
          if_neg (by omega)]
        omega
      have hend : z.asUtc (t + o') = t := by
        rw [h.asUtc_eq (by omega) (by rw [hmax]; omega), hmax, if_neg (lt_irrefl _)]
        omega
      have hshown : z.reading (z.asUtc (t + o')) = t + o' := by
        rw [hend, h.reading_eq (by simp only [dayMinutes]; omega)
          (by simp only [dayMinutes]; omega), if_neg (lt_irrefl _)]
      obtain ⟨hle, hstop, hfirst⟩ := z.settle_spec w
      have hsettle : z.settle w = t + o' := by
        rcases lt_trichotomy (z.settle w) (t + o') with hlt | heq | hgt
        · exact absurd hstop (hgap _ hle hlt)
        · exact heq
        · exact absurd hshown (hfirst _ (by omega) hgt)
      rw [Zone.minuteOf, hsettle, hend]
    · rename_i hpast
      have hmax : t + max o o' ≤ w := by omega
      have hutc : z.asUtc w = w - o' := by
        rw [h.asUtc_eq le_rfl (le_max_left ..), if_neg (by omega)]
      have hshown : z.reading (z.asUtc w) = w := by
        rw [hutc, h.reading_eq (by simp only [dayMinutes]; omega)
          (by simp only [dayMinutes]; omega), if_neg (by omega)]
        omega
      rw [Zone.minuteOf, Zone.settle, dif_neg (not_not.mpr hshown), hutc]

theorem offsetMs_eq (h : ReadingAround z.base z.changes w o t o') {u : ℤ} (hu : w - dayMinutes ≤ u)
    (hu' : u ≤ max (w + dayMinutes) (t + 2 * dayMinutes)) :
    z.offsetMs (60000 * u) = 60000 * if u < t then o else o' := by
  rw [Zone.offsetMs, Int.mul_ediv_cancel_left _ (by decide), h.offset u hu hu']

/-- The browser's walk ends at the change, `k` minutes on. -/
theorem walkMs_eq (h : ReadingAround z.base z.changes w o t o') (hne : o ≠ o') :
    ∀ {k fuel : ℕ}, k < fuel → w ≤ t + o' - k →
      z.walkMs (60000 * o') fuel (60000 * (t + o' - k)) = some (60000 * t) := by
  have hhigh := h.high
  simp only [dayMinutes] at hhigh
  intro k
  induction k with
  | zero =>
      intro fuel hfuel hw
      obtain ⟨fuel, rfl⟩ := Nat.exists_eq_add_of_lt hfuel
      have hat : 60000 * (t + o' - (0 : ℕ)) - 60000 * o' = 60000 * t := by push_cast; ring
      rw [Zone.walkMs, hat, h.offsetMs_eq (by simp only [dayMinutes]; push_cast at hw; omega)
        (by simp only [dayMinutes]; omega), if_neg (lt_irrefl t), if_neg (not_not.mpr rfl)]
  | succ k ih =>
      intro fuel hfuel hw
      obtain ⟨fuel, rfl⟩ : ∃ n, fuel = n + 1 := ⟨fuel - 1, by omega⟩
      have hat : 60000 * (t + o' - (k + 1 : ℕ)) - 60000 * o' = 60000 * (t - (k + 1)) := by
        push_cast; ring
      have hon : 60000 * (t + o' - (k + 1 : ℕ)) + 60000 = 60000 * (t + o' - k) := by
        push_cast; ring
      push_cast at hw
      have hold : z.offsetMs (60000 * (t - (k + 1))) = 60000 * o := by
        rw [h.offsetMs_eq (by simp only [dayMinutes]; omega) (by simp only [dayMinutes]; omega),
          if_pos (by omega)]
      rw [Zone.walkMs, hat, hold, if_pos (by omega), hon]
      exact ih (by omega) (by omega)

/-- The browser's two candidates, and its walk. -/
theorem localMs_eq (h : ReadingAround z.base z.changes w o t o') {fuel : ℕ}
    (hfuel : (t + o' - w).toNat < fuel) :
    z.localMs fuel (60000 * w) = some (60000 * found w o t o') := by
  have hlow := h.low
  have hhigh := h.high
  have hnear := h.near
  simp only [dayMinutes] at hlow hhigh hnear
  have hbefore : z.offsetMs (60000 * w - dayMs) = 60000 * o := by
    have hday : 60000 * w - dayMs = 60000 * (w - 1440) := by rw [dayMs]; ring
    rw [hday, h.offsetMs_eq (by simp only [dayMinutes]; omega) (by simp only [dayMinutes]; omega)]
    split <;> omega
  have hafter : z.offsetMs (60000 * w + dayMs) = 60000 * o' := by
    have hday : 60000 * w + dayMs = 60000 * (w + 1440) := by rw [dayMs]; ring
    rw [hday, h.offsetMs_eq (by simp only [dayMinutes]; omega) (by simp only [dayMinutes]; omega)]
    split <;> omega
  have hbeforeAt : z.offsetMs (60000 * w - 60000 * o) = 60000 * if w - o < t then o else o' := by
    rw [← mul_sub, h.offsetMs_eq (by simp only [dayMinutes]; omega)
      (by simp only [dayMinutes]; omega)]
  have hafterAt : z.offsetMs (60000 * w - 60000 * o') = 60000 * if w - o' < t then o else o' := by
    rw [← mul_sub, h.offsetMs_eq (by simp only [dayMinutes]; omega)
      (by simp only [dayMinutes]; omega)]
  simp only [Zone.localMs, hbefore, hafter, hbeforeAt, hafterAt]
  by_cases hsame : o = o'
  · subst hsame
    rw [if_pos rfl, ← mul_sub, found]
    congr 2
    split_ifs <;> omega
  · rw [if_neg (by omega)]
    have hfirst : (60000 * (if w - o < t then o else o') = 60000 * o) ↔ w < t + o := by
      split <;> omega
    have hlast : (60000 * (if w - o' < t then o else o') = 60000 * o') ↔ t + o' ≤ w := by
      split <;> omega
    simp only [hfirst, hlast]
    rw [found]
    by_cases hb : w < t + o
    · rw [if_pos hb]
      by_cases ha : t + o' ≤ w
      · rw [if_pos ⟨hb, ha⟩, ← mul_sub]
        congr 1
        omega
      · rw [if_neg fun hboth => ha hboth.2, if_pos hb, ← mul_sub]
    · rw [if_neg fun hboth => hb hboth.1, if_neg hb]
      by_cases ha : t + o' ≤ w
      · rw [if_pos ha, if_neg hb, if_neg (by omega), ← mul_sub]
      · -- A skipped reading: the walk goes on to the end of the gap.
        rw [if_neg ha, if_neg hb, if_pos (by omega)]
        have hwalk := h.walkMs_eq hsame hfuel (by omega)
        have hat : t + o' - ((t + o' - w).toNat : ℤ) = w := by omega
        rw [hat] at hwalk
        exact hwalk

end ReadingAround

/-- **Browser and server agree on local times.** The browser's walk over a gap ends. -/
theorem localToInstant_eq_toUtc (z : Zone) (hcivil : z.Civil) (y m d hh mm : ℤ)
    (hyear : 1900 ≤ y ∧ y ≤ 9000) :
    ∃ n, ∀ fuel, n ≤ fuel → ∃ ms, localToInstant z fuel y m d hh mm = some ms ∧
      1000 * ms = toUtc z (daysFromCivil y m d) (60 * hh + mm) := by
  set w := dayMinutes * daysFromCivil y m d + (60 * hh + mm) with hw
  obtain ⟨o, t, o', h⟩ := exists_around (w := w) hcivil.base hcivil.bounded hcivil.apart
  refine ⟨(t + o' - w).toNat + 1, fun fuel hfuel => ⟨60000 * ReadingAround.found w o t o', ?_, ?_⟩⟩
  · have hlocal : dateUTC y (m - 1) d hh mm = 60000 * w := by
      rw [dateUTC, sub_add_cancel, if_neg (by omega), hw]
      ring
    rw [localToInstant, hlocal]
    exact h.localMs_eq hfuel
  · rw [toUtc, ← hw, h.minuteOf_eq, minute]
    ring

/-- An hour forward at 01:00 UTC on 2024-03-31, and back at 01:00 UTC on 2024-10-27. -/
def summerTime : Zone := ⟨60, [(28530780, 120), (28833180, 60)], by decide⟩

/-- A skipped reading, and one shown twice. -/
theorem localToInstant_eq_toUtc_changes :
    (∃ n, ∀ fuel, n ≤ fuel → ∃ ms, localToInstant summerTime fuel 2024 3 31 2 30 = some ms ∧
      1000 * ms = toUtc summerTime (daysFromCivil 2024 3 31) (60 * 2 + 30)) ∧
    ∃ n, ∀ fuel, n ≤ fuel → ∃ ms, localToInstant summerTime fuel 2024 10 27 2 30 = some ms ∧
      1000 * ms = toUtc summerTime (daysFromCivil 2024 10 27) (60 * 2 + 30) :=
  ⟨localToInstant_eq_toUtc summerTime (by decide) _ _ _ _ _ (by decide),
    localToInstant_eq_toUtc summerTime (by decide) _ _ _ _ _ (by decide)⟩

end Ziftbook
