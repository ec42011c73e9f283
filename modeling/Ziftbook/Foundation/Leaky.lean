import Mathlib.Tactic

/-!
# Leaky counters

A counter that loses one for each whole period since its anchor. The anchor moves
by whole periods, and restarts when the counter empties, so reading the counter
at two times in turn is reading it at the later one.
-/

namespace Foundation

structure Leaky where
  level : ℕ
  anchor : ℤ
deriving DecidableEq

namespace Leaky

/-- Whole periods since the anchor, never below zero. -/
def due (period : ℤ) (b : Leaky) (now : ℤ) : ℕ := ((now - b.anchor) / period).toNat

/-- The counter at `now`. -/
def leak (period : ℤ) (b : Leaky) (now : ℤ) : Leaky :=
  ⟨b.level - b.due period now,
    if b.level - b.due period now = 0 then now else b.anchor + b.due period now * period⟩

variable {period : ℤ} {b : Leaky} {x y : ℤ}

theorem due_mul_le (hperiod : 0 < period) (h : b.anchor ≤ x) :
    (b.due period x : ℤ) * period ≤ x - b.anchor := by
  have hdue : ((b.due period x : ℕ) : ℤ) = (x - b.anchor) / period :=
    Int.toNat_of_nonneg (Int.ediv_nonneg (by omega) hperiod.le)
  rw [hdue]
  exact Int.ediv_mul_le _ hperiod.ne'

theorem lt_due_succ_mul (hperiod : 0 < period) (h : b.anchor ≤ x) :
    x - b.anchor < (b.due period x + 1 : ℤ) * period := by
  have hdue : ((b.due period x : ℕ) : ℤ) = (x - b.anchor) / period :=
    Int.toNat_of_nonneg (Int.ediv_nonneg (by omega) hperiod.le)
  rw [hdue]
  exact Int.lt_ediv_add_one_mul_self _ hperiod

theorem leak_anchor_le (hperiod : 0 < period) (h : b.anchor ≤ x) :
    (b.leak period x).anchor ≤ x := by
  by_cases hempty : b.level - b.due period x = 0
  · simp [leak, hempty]
  · have := due_mul_le hperiod h
    simp only [leak, hempty, if_false]
    omega

/-- At the time it is read, the anchor is less than a period ago. -/
theorem lt_leak_anchor (hperiod : 0 < period) (h : b.anchor ≤ x) :
    x - period < (b.leak period x).anchor := by
  by_cases hempty : b.level - b.due period x = 0
  · simp only [leak, hempty, if_true]
    omega
  · have := lt_due_succ_mul hperiod h
    simp only [leak, hempty, if_false]
    rw [add_mul] at this
    omega

/-- What a reading loses, the anchor has moved for. -/
theorem leak_spent (hperiod : 0 < period) (h : b.anchor ≤ x) :
    ((b.level - (b.leak period x).level : ℕ) : ℤ) * period ≤
      (b.leak period x).anchor - b.anchor := by
  have hdue := due_mul_le hperiod h
  by_cases hempty : b.level - b.due period x = 0
  · have hle : ((b.level : ℕ) : ℤ) ≤ (b.due period x : ℤ) := by omega
    have := mul_le_mul_of_nonneg_right hle hperiod.le
    simp only [leak, hempty, if_true, Nat.sub_zero]
    omega
  · have hlost : b.level - (b.level - b.due period x) = b.due period x := by omega
    simp only [leak, hempty, if_false, hlost]
    omega

end Leaky

end Foundation
