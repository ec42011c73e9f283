import Mathlib.Tactic

/-!
# Counts of what is held

A dictionary counts how often each key is held, and has no entry for a key that is not.
Taking and giving back one key at a time keeps it the tally of the keys held; a count is
an integer, as one that is wrong could be zero or less.
-/

namespace Foundation

variable {κ : Type*} [DecidableEq κ]

/-- A dictionary of counts. -/
abbrev Counts (κ : Type*) := κ → Option ℤ

namespace Counts

def empty : Counts κ := fun _ => none

/-- `counts.get(k, 0)`. -/
def get (t : Counts κ) (k : κ) : ℤ := (t k).getD 0

def set (t : Counts κ) (k : κ) (n : ℤ) : Counts κ := Function.update t k (some n)

/-- `counts[k] = counts.get(k, 0) + 1`. -/
def take (t : Counts κ) (k : κ) : Counts κ := t.set k (t.get k + 1)

/-- One less; the entry is deleted at one. Nothing where there is none. -/
def give (t : Counts κ) (k : κ) : Option (Counts κ) :=
  (t k).map fun n => if n = 1 then Function.update t k none else t.set k (n - 1)

/-- Each key in turn, up to the first that has no entry; whether there was one. -/
def giveAll (t : Counts κ) : List κ → Counts κ × Bool
  | [] => (t, false)
  | k :: ks =>
      match t.give k with
      | none => (t, true)
      | some t' => t'.giveAll ks

/-- **The dictionary tallies the keys held**: it has an entry for each of them, their number. -/
def Tallies (t : Counts κ) (held : List κ) : Prop :=
  ∀ k, t k = if held.count k = 0 then none else some (held.count k : ℤ)

variable {t : Counts κ} {held : List κ} {k : κ}

theorem tallies_empty : (empty : Counts κ).Tallies [] := fun k => by simp [empty]

namespace Tallies

theorem perm (h : t.Tallies held) {held' : List κ} (hperm : held.Perm held') :
    t.Tallies held' := by
  intro k
  rw [h k, hperm.count_eq]

theorem get_eq (h : t.Tallies held) (k : κ) : t.get k = held.count k := by
  rw [Counts.get, h k]
  split_ifs with hnone
  · rw [hnone]
    rfl
  · rfl

theorem take (h : t.Tallies held) (k : κ) : (t.take k).Tallies (k :: held) := by
  intro k'
  by_cases hk : k' = k
  · subst hk
    rw [Counts.take, Counts.set, Function.update_self, h.get_eq, List.count_cons_self,
      if_neg (Nat.succ_ne_zero _)]
    push_cast
    rfl
  · rw [Counts.take, Counts.set, Function.update_of_ne hk, h k', List.count_cons_of_ne (Ne.symm hk)]

theorem foldl_take {ks : List κ} : ∀ {t : Counts κ} {held : List κ}, t.Tallies held →
    (ks.foldl Counts.take t).Tallies (ks ++ held) := by
  induction ks with
  | nil => exact fun h => h
  | cons k ks ih => exact fun h => (ih (h.take k)).perm List.perm_middle

/-- A key that is held can be given back. -/
theorem give (h : t.Tallies (k :: held)) : ∃ t', t.give k = some t' ∧ t'.Tallies held := by
  have hk : t k = some ((held.count k : ℤ) + 1) := by
    rw [h k, List.count_cons_self, if_neg (Nat.succ_ne_zero _)]
    push_cast
    rfl
  have hother : ∀ k' ≠ k, t k' = if held.count k' = 0 then none else some (held.count k' : ℤ) := by
    intro k' hne
    rw [h k', List.count_cons_of_ne (Ne.symm hne)]
  by_cases hlast : held.count k = 0
  · refine ⟨Function.update t k none, ?_, fun k' => ?_⟩
    · rw [Counts.give, hk, hlast]
      rfl
    · by_cases hne : k' = k
      · rw [hne, Function.update_self, if_pos hlast]
      · rw [Function.update_of_ne hne, hother k' hne]
  · refine ⟨t.set k (held.count k), ?_, fun k' => ?_⟩
    · rw [Counts.give, hk, Option.map_some, if_neg (by omega), add_sub_cancel_right]
    · by_cases hne : k' = k
      · rw [hne, Counts.set, Function.update_self, if_neg hlast]
      · rw [Counts.set, Function.update_of_ne hne, hother k' hne]

/-- **What was taken together is given back together**, and no entry is missed. -/
theorem giveAll {ks : List κ} : ∀ {t : Counts κ}, t.Tallies (ks ++ held) →
    (t.giveAll ks).2 = false ∧ (t.giveAll ks).1.Tallies held := by
  induction ks with
  | nil => exact fun h => ⟨rfl, h⟩
  | cons k ks ih =>
      intro t h
      obtain ⟨t', hgive, ht'⟩ := h.give
      rw [Counts.giveAll, hgive]
      exact ih ht'

/-- No count is zero or less. -/
theorem pos (h : t.Tallies held) {n : ℤ} (hk : t k = some n) : 0 < n := by
  rw [h k] at hk
  split_ifs at hk with hnone
  cases hk
  omega

end Tallies

end Counts

end Foundation
