import Mathlib.Data.List.Sort
import Mathlib.Tactic

/-!
# Binary search for an insertion point

`bisectRight xs x` halves `[lo, hi)` until it is empty. On a sorted list its
answer splits the list: what is at most `x` before it, what exceeds `x` from
it on.
-/

namespace Foundation.Bisect

variable {α : Type*} [LinearOrder α]

/-- The search loop on `[lo, hi)`. -/
def bisectRightFrom (xs : List α) (x : α) (lo hi : ℕ) (hhi : hi ≤ xs.length) : ℕ :=
  if hlt : lo < hi then
    have hmid : (lo + hi) / 2 < xs.length := by omega
    if x < xs[(lo + hi) / 2] then
      bisectRightFrom xs x lo ((lo + hi) / 2) hmid.le
    else
      bisectRightFrom xs x ((lo + hi) / 2 + 1) hi hhi
  else lo
termination_by hi - lo

def bisectRight (xs : List α) (x : α) : ℕ :=
  bisectRightFrom xs x 0 xs.length le_rfl

/-- The answer splits the list at `x`. -/
structure SplitsAt (xs : List α) (x : α) (i : ℕ) : Prop where
  before : ∀ j (hj : j < xs.length), j < i → xs[j] ≤ x
  after : ∀ j (hj : j < xs.length), i ≤ j → x < xs[j]

/-- The loop keeps: everything below `lo` is at most `x`, everything from `hi`
on exceeds it. -/
theorem bisectRightFrom_splits {xs : List α} {x : α} (hsorted : xs.Pairwise (· ≤ ·))
    (lo hi : ℕ) (hhi : hi ≤ xs.length) (hle : lo ≤ hi)
    (hlow : ∀ j (hj : j < xs.length), j < lo → xs[j] ≤ x)
    (hhigh : ∀ j (hj : j < xs.length), hi ≤ j → x < xs[j]) :
    SplitsAt xs x (bisectRightFrom xs x lo hi hhi) := by
  have hmono : ∀ i j (hi : i < xs.length) (hj : j < xs.length), i ≤ j → xs[i] ≤ xs[j] := by
    intro i j hi hj hij
    rcases Nat.eq_or_lt_of_le hij with rfl | hlt
    · exact le_rfl
    · exact List.pairwise_iff_getElem.mp hsorted i j hi hj hlt
  fun_induction bisectRightFrom xs x lo hi hhi with
  | case1 lo hi hhi hlt hmid hx ih =>
      apply ih (by omega) hlow
      intro j hj hij
      exact lt_of_lt_of_le hx (hmono _ _ hmid hj hij)
  | case2 lo hi hhi hlt hmid hx ih =>
      refine ih (by omega) ?_ hhigh
      intro j hj hij
      exact (hmono _ _ hj hmid (by omega)).trans (not_lt.mp hx)
  | case3 lo hi hhi hlt =>
      exact ⟨hlow, fun j hj hij => hhigh j hj (by omega)⟩

/-- **On a sorted list the search finds the insertion point.** -/
theorem bisectRight_splits {xs : List α} (hsorted : xs.Pairwise (· ≤ ·)) (x : α) :
    SplitsAt xs x (bisectRight xs x) :=
  bisectRightFrom_splits hsorted 0 xs.length le_rfl (Nat.zero_le _)
    (fun _ _ h => absurd h (Nat.not_lt_zero _))
    (fun _ hj h => absurd hj (Nat.not_lt.mpr h))

end Foundation.Bisect
