import Mathlib.Tactic

/-!
# Edit distance

An edit puts a letter in, takes one out or puts another in its place, anywhere. How few
edits lead from one word to another is a recursion on the two first letters, whatever
edits one thinks of.
-/

namespace Foundation

variable {α : Type*}

/-- One edit, anywhere in the word. -/
inductive Edit : List α → List α → Prop
  | insert (as bs : List α) (x : α) : Edit (as ++ bs) (as ++ x :: bs)
  | delete (as bs : List α) (x : α) : Edit (as ++ x :: bs) (as ++ bs)
  | replace (as bs : List α) (x y : α) : Edit (as ++ x :: bs) (as ++ y :: bs)

/-- The number of edits leads from the one word to the other. -/
inductive Edits : ℕ → List α → List α → Prop
  | refl (as : List α) : Edits 0 as as
  | step {n : ℕ} {as bs cs : List α} : Edit as bs → Edits n bs cs → Edits (n + 1) as cs

/-- The least number of edits between two words. -/
structure IsDistance (n : ℕ) (as bs : List α) : Prop where
  edits : Edits n as bs
  least : ∀ m, Edits m as bs → n ≤ m

theorem IsDistance.unique {m n : ℕ} {as bs : List α} (h : IsDistance m as bs)
    (h' : IsDistance n as bs) : m = n :=
  le_antisymm (h.least n h'.edits) (h'.least m h.edits)

theorem Edit.cons {as bs : List α} (x : α) (h : Edit as bs) : Edit (x :: as) (x :: bs) := by
  cases h with
  | insert as bs y => exact .insert (x :: as) bs y
  | delete as bs y => exact .delete (x :: as) bs y
  | replace as bs y z => exact .replace (x :: as) bs y z

theorem Edits.cons {n : ℕ} {as bs : List α} (x : α) (h : Edits n as bs) :
    Edits n (x :: as) (x :: bs) := by
  induction h with
  | refl as => exact .refl _
  | step hedit _ ih => exact .step (hedit.cons x) ih

theorem Edit.reverse {as bs : List α} (h : Edit as bs) : Edit as.reverse bs.reverse := by
  cases h with
  | insert as bs x =>
      simp only [List.reverse_append, List.reverse_cons, List.append_assoc]
      exact .insert bs.reverse as.reverse x
  | delete as bs x =>
      simp only [List.reverse_append, List.reverse_cons, List.append_assoc]
      exact .delete bs.reverse as.reverse x
  | replace as bs x y =>
      simp only [List.reverse_append, List.reverse_cons, List.append_assoc]
      exact .replace bs.reverse as.reverse x y

theorem Edits.reverse {n : ℕ} {as bs : List α} (h : Edits n as bs) :
    Edits n as.reverse bs.reverse := by
  induction h with
  | refl as => exact .refl _
  | step hedit _ ih => exact .step hedit.reverse ih

/-- The distance reads the same backwards. -/
theorem IsDistance.reverse {n : ℕ} {as bs : List α} (h : IsDistance n as bs) :
    IsDistance n as.reverse bs.reverse where
  edits := h.edits.reverse
  least := fun m hm => h.least m (by simpa using hm.reverse)

/-! ## § The recursion -/

variable [DecidableEq α]

def cost (x y : α) : ℕ := if x = y then 0 else 1

theorem cost_le (x y : α) : cost x y ≤ 1 := by
  unfold cost
  split <;> omega

/-- The distance, by the first letters. -/
def distance : List α → List α → ℕ
  | [], bs => bs.length
  | as@(_ :: _), [] => as.length
  | x :: as, y :: bs =>
      min (distance as (y :: bs) + 1) (min (distance (x :: as) bs + 1) (distance as bs + cost x y))

@[simp] theorem distance_nil (bs : List α) : distance [] bs = bs.length := by
  rw [distance]

@[simp] theorem distance_nil_right (as : List α) : distance as [] = as.length := by
  cases as <;> rw [distance]

theorem distance_cons (x y : α) (as bs : List α) : distance (x :: as) (y :: bs) =
    min (distance as (y :: bs) + 1)
      (min (distance (x :: as) bs + 1) (distance as bs + cost x y)) := by
  rw [distance]

/-- The three ways to a distance. -/
theorem distance_cons_cases (x y : α) (as bs : List α) :
    distance (x :: as) (y :: bs) = distance as (y :: bs) + 1 ∨
      distance (x :: as) (y :: bs) = distance (x :: as) bs + 1 ∨
        distance (x :: as) (y :: bs) = distance as bs + cost x y := by
  rw [distance_cons]
  omega

theorem distance_delete_le (x : α) (as bs : List α) :
    distance (x :: as) bs ≤ distance as bs + 1 := by
  cases bs with
  | nil => simp
  | cons y bs =>
      rw [distance_cons]
      omega

theorem distance_cons_right_le (y : α) (as bs : List α) :
    distance as (y :: bs) ≤ distance as bs + 1 := by
  cases as with
  | nil => simp
  | cons x as =>
      rw [distance_cons]
      omega

theorem distance_cons_le (x y : α) (as bs : List α) :
    distance (x :: as) (y :: bs) ≤ distance as bs + cost x y := by
  rw [distance_cons]
  omega

theorem distance_self (as : List α) : distance as as = 0 := by
  induction as with
  | nil => simp
  | cons x as ih =>
      have h := distance_cons_le x x as as
      rw [ih, cost, if_pos rfl] at h
      omega

/-- Its edits lead there. -/
theorem edits_distance (as bs : List α) : Edits (distance as bs) as bs := by
  induction as generalizing bs with
  | nil =>
      rw [distance_nil]
      induction bs with
      | nil => exact .refl _
      | cons y bs ih => exact .step (.insert [] [] y) (ih.cons y)
  | cons x as ih =>
      induction bs with
      | nil =>
          rw [distance_nil_right]
          have h := ih []
          rw [distance_nil_right] at h
          exact .step (.delete [] as x) h
      | cons y bs ihb =>
          rcases distance_cons_cases x y as bs with h | h | h
          · rw [h]
            exact .step (.delete [] as x) (ih (y :: bs))
          · rw [h]
            exact .step (.insert [] (x :: as) y) (ihb.cons y)
          · rw [h]
            by_cases hxy : x = y
            · subst hxy
              rw [cost, if_pos rfl]
              exact (ih bs).cons x
            · rw [cost, if_neg hxy]
              exact .step (.replace [] as x y) ((ih bs).cons y)

/-! ## § No fewer edits do -/

/-- Words one edit apart are at distances at most one apart, from anywhere. -/
def Near (as bs : List α) : Prop := ∀ cs, distance as cs ≤ distance bs cs + 1

theorem near_delete (x : α) (as : List α) : Near (x :: as) as := distance_delete_le x as

theorem near_insert (x : α) (as : List α) : Near as (x :: as) := by
  intro cs
  induction cs with
  | nil =>
      rw [distance_nil_right, distance_nil_right, List.length_cons]
      omega
  | cons y cs ih =>
      have hright := distance_cons_right_le y as cs
      rcases distance_cons_cases x y as cs with h | h | h <;> omega

theorem near_replace (x y : α) (as : List α) : Near (x :: as) (y :: as) := by
  intro cs
  induction cs with
  | nil => simp
  | cons z cs ih =>
      have hcost := cost_le x z
      have hdelete := distance_delete_le x as (z :: cs)
      have hright := distance_cons_right_le z (x :: as) cs
      have hboth := distance_cons_le x z as cs
      rcases distance_cons_cases y z as cs with h | h | h <;> omega

theorem Near.cons {as bs : List α} (x : α) (h : Near as bs) : Near (x :: as) (x :: bs) := by
  intro cs
  induction cs with
  | nil => simpa using h []
  | cons z cs ih =>
      have hwhole := h (z :: cs)
      have hrest := h cs
      have hdelete := distance_delete_le x as (z :: cs)
      have hright := distance_cons_right_le z (x :: as) cs
      have hboth := distance_cons_le x z as cs
      rcases distance_cons_cases x z bs cs with h | h | h <;> omega

theorem Near.append {as bs : List α} (p : List α) (h : Near as bs) : Near (p ++ as) (p ++ bs) := by
  induction p with
  | nil => exact h
  | cons x p ih => exact ih.cons x

theorem near_of_edit {as bs : List α} (h : Edit as bs) : Near as bs := by
  cases h with
  | insert as bs x => exact (near_insert x bs).append as
  | delete as bs x => exact (near_delete x bs).append as
  | replace as bs x y => exact (near_replace x y bs).append as

/-- **The recursion is the least number of edits.** -/
theorem isDistance_distance (as bs : List α) : IsDistance (distance as bs) as bs where
  edits := edits_distance as bs
  least := by
    intro m h
    induction h with
    | refl as => rw [distance_self]
    | step hedit _ ih => exact (near_of_edit hedit _).trans (Nat.add_le_add_right ih 1)

theorem distance_reverse (as bs : List α) : distance as.reverse bs.reverse = distance as bs :=
  (isDistance_distance _ _).unique (isDistance_distance as bs).reverse

end Foundation
