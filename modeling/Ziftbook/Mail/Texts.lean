import Ziftbook.Bookings.Cancellation
import Ziftbook.Foundation.Calendar
import Ziftbook.Foundation.Segments
import Ziftbook.Jobs.Queue
import Ziftbook.Ledger.Written

/-!
# Instants as texts

What `isoformat` and `timestamp` make of an instant where a dedupe key holds it. Two
instants never have one text.
-/

namespace Ziftbook

open Foundation

/-! ## § ISO texts -/

/-- The `datetime` of an instant, in UTC; the years before 1 and after 9999 have none. -/
def stampAt (t : ℤ) : Option Stamp :=
  let date := dateOf (t / oneDay)
  let time := t % oneDay
  Stamp.ofFields date.year.toNat date.month.toNat date.day.toNat (time / hour).toNat
    (time / minute % 60).toNat (time / second % 60).toNat (time % second).toNat

/-- `isoformat` of an instant read in UTC. No row holds an instant without a
`datetime`; its text is its number. -/
def isoformat (t : ℤ) : List Char :=
  match stampAt t with
  | some s => s.isoformat
  | none => '@' :: (if t < 0 then '-' :: decimal t.natAbs else decimal t.natAbs)

example : isoformat (11322 * oneDay + 90 * minute) = "2000-12-31T01:30:00+00:00".toList := by
  decide +kernel

theorem ofFields_eq_some {year month day hour minute second microsecond : ℕ} {s : Stamp}
    (h : Stamp.ofFields year month day hour minute second microsecond = some s) :
    1 ≤ year ∧ 1 ≤ month ∧ 1 ≤ day ∧ s.year = year ∧ s.month = month ∧ s.day = day ∧
      s.hour = hour ∧ s.minute = minute ∧ s.second = second ∧ s.microsecond = microsecond := by
  unfold Stamp.ofFields at h
  split at h
  · rename_i hranges
    cases h
    exact ⟨hranges.1.1.1, hranges.1.2.1.1, hranges.1.2.2.1, rfl, rfl, rfl, rfl, rfl, rfl, rfl⟩
  · cases h

theorem eq_of_toNat_eq {a b : ℤ} (h : 1 ≤ a.toNat) (hab : a.toNat = b.toNat) : a = b := by
  omega

/-- A time of the day is made of its parts. -/
theorem time_parts {time : ℤ} (h : 0 ≤ time) : time = (time / hour).toNat * hour +
    (time / minute % 60).toNat * minute + (time / second % 60).toNat * second +
      (time % second).toNat := by
  unfold hour minute second
  omega

/-- **A `datetime` names one instant.** -/
theorem stampAt_inj {t t' : ℤ} {s : Stamp} (h : stampAt t = some s) (h' : stampAt t' = some s) :
    t = t' := by
  obtain ⟨hy, hmo, hd, hyear, hmonth, hday, hhour, hminute, hsecond, hmicro⟩ :=
    ofFields_eq_some h
  obtain ⟨_, _, _, hyear', hmonth', hday', hhour', hminute', hsecond', hmicro'⟩ :=
    ofFields_eq_some h'
  have hdate : dateOf (t / oneDay) = dateOf (t' / oneDay) := by
    have h1 := eq_of_toNat_eq hy (hyear.symm.trans hyear')
    have h2 := eq_of_toNat_eq hmo (hmonth.symm.trans hmonth')
    have h3 := eq_of_toNat_eq hd (hday.symm.trans hday')
    revert h1 h2 h3
    generalize dateOf (t / oneDay) = date
    generalize dateOf (t' / oneDay) = date'
    intro h1 h2 h3
    cases date
    cases date'
    simp only at h1 h2 h3
    rw [h1, h2, h3]
  have htime : t % oneDay = t' % oneDay := by
    rw [time_parts (Int.emod_nonneg t (by decide : oneDay ≠ 0)),
      time_parts (Int.emod_nonneg t' (by decide : oneDay ≠ 0)), ← hhour, ← hminute, ← hsecond,
      ← hmicro, hhour', hminute', hsecond', hmicro']
  rw [← Int.ediv_mul_add_emod t oneDay, dateOf_injective hdate, htime,
    Int.ediv_mul_add_emod]

theorem readIso_at (cs : List Char) : readIso ('@' :: cs) = none := by
  have hnone : readDigits 4 ('@' :: cs) = none := by
    apply if_neg
    rintro ⟨_, hnum⟩
    exact absurd (hnum '@' (List.mem_cons_self ..)) (by decide)
  show (readDigits 4 ('@' :: cs)).bind _ = none
  rw [hnone]
  rfl

theorem isoformat_injective : Function.Injective isoformat := by
  intro t t' h
  unfold isoformat at h
  cases hs : stampAt t with
  | some s =>
      cases hs' : stampAt t' with
      | some s' =>
          rw [hs, hs'] at h
          have hsame : some s = some s' := by
            rw [← readIso_isoformat s, show s.isoformat = s'.isoformat from h,
              readIso_isoformat]
          rw [← hsame] at hs'
          exact stampAt_inj hs hs'
      | none =>
          rw [hs, hs'] at h
          have hread := readIso_isoformat s
          rw [show s.isoformat = '@' :: _ from h, readIso_at] at hread
          cases hread
  | none =>
      cases hs' : stampAt t' with
      | some s' =>
          rw [hs, hs'] at h
          have hread := readIso_isoformat s'
          rw [show s'.isoformat = '@' :: _ from h.symm, readIso_at] at hread
          cases hread
      | none =>
          rw [hs, hs'] at h
          obtain ⟨_, h⟩ := List.cons.inj h
          have hne : ∀ n cs, decimal n ≠ '-' :: cs := by
            intro n cs heq
            exact not_mem_decimal (by decide : '-'.isDigit = false) n
              (heq ▸ List.mem_cons_self ..)
          split_ifs at h with hneg hneg' hneg'
          · have := decimal_injective (List.cons.inj h).2
            omega
          · exact absurd h.symm (hne _ _)
          · exact absurd h (hne _ _)
          · have := decimal_injective h
            omega

/-! ## § Timestamps -/

/-- `timestamp()` as a float prints it: the microseconds are exact until the year
2242, and a clock is later than the first second of 1970. -/
def timestamp (now : ℤ) : List Char :=
  (if now < 0 then ['-'] else []) ++
    (decimal (now.natAbs / 1000000) ++ '.' :: fraction 6 (now.natAbs % 1000000))

example : timestamp (1700000000 * second + 120000) = "1700000000.12".toList := by
  decide +kernel

theorem timestamp_injective : Function.Injective timestamp := by
  have habs : ∀ m n : ℕ, decimal (m / 1000000) ++ '.' :: fraction 6 (m % 1000000) =
      decimal (n / 1000000) ++ '.' :: fraction 6 (n % 1000000) → m = n := by
    intro m n h
    have hdot : ∀ k, '.' ∉ decimal k := not_mem_decimal (by decide)
    obtain ⟨hwhole, hrest⟩ := append_inj_of_opens (hdot _) (hdot _) (opens_cons '.' _)
      (opens_cons '.' _) h
    have hwhole := decimal_injective hwhole
    have hfraction := fraction_inj (by decide) (Nat.mod_lt _ (by decide))
      (Nat.mod_lt _ (by decide)) (List.cons.inj hrest).2
    omega
  have hminus : ∀ k cs ds, decimal k ++ cs ≠ '-' :: ds := by
    intro k cs ds heq
    obtain ⟨c, rest, hk, hdigit⟩ := decimal_eq_cons k
    rw [hk] at heq
    have hc : c = '-' := (List.cons.inj (show c :: (rest ++ cs) = '-' :: ds from heq)).1
    rw [hc] at hdigit
    exact absurd hdigit (by decide)
  intro t t' h
  unfold timestamp at h
  split_ifs at h with hneg hneg' hneg'
  · have := habs _ _ (List.cons.inj h).2
    omega
  · exact absurd h.symm (hminus _ _ _)
  · exact absurd h (hminus _ _ _)
  · have := habs _ _ h
    omega

/-- No colon in it. -/
theorem colon_not_mem_timestamp (now : ℤ) : ':' ∉ timestamp now := by
  intro h
  unfold timestamp at h
  rcases List.mem_append.mp h with h | h
  · split_ifs at h
    · exact absurd (List.mem_singleton.mp h) (by decide)
    · cases h
  · rcases List.mem_append.mp h with h | h
    · exact not_mem_decimal (by decide) _ h
    · rcases List.mem_cons.mp h with h | h
      · exact absurd h (by decide)
      · exact absurd (isNumeral_fraction _ _ _ h) (by decide)

end Ziftbook
