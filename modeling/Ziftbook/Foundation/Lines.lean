import Mathlib.Data.List.Basic
import Mathlib.Tactic

/-!
# Lines that are folded

A text is lines, each ended by two marks. A line too long is written in parts, each
part after the first on a line of its own behind a blank. Taking every end with a
blank behind it out of the text leaves the lines whole.
-/

namespace Foundation

variable {α : Type*}

/-! ## § Lines -/

/-- Lines, each ended by `a b`. -/
def terminated (a b : α) (ls : List (List α)) : List α := ls.flatMap fun l => l ++ [a, b]

@[simp] theorem terminated_nil (a b : α) : terminated a b [] = [] := rfl

theorem terminated_cons (a b : α) (l : List α) (ls : List (List α)) :
    terminated a b (l :: ls) = l ++ a :: b :: terminated a b ls := by
  rw [terminated, List.flatMap_cons, List.append_assoc]
  rfl

theorem terminated_append (a b : α) (ls ms : List (List α)) :
    terminated a b (ls ++ ms) = terminated a b ls ++ terminated a b ms :=
  List.flatMap_append

/-- Between the lines, and once at the end. -/
theorem intercalate_append (a b : α) {ls : List (List α)} (h : ls ≠ []) :
    [a, b].intercalate ls ++ [a, b] = terminated a b ls := by
  induction ls with
  | nil => exact absurd rfl h
  | cons l ls ih =>
      cases ls with
      | nil =>
          rw [terminated_cons]
          simp [List.intercalate]
      | cons m ls =>
          rw [terminated_cons, ← ih (by simp), List.intercalate_cons_cons]
          simp

/-- Parts with their blanks are lines of the text. -/
theorem intercalate_terminated {a b s : α} {parts : List (List α)} {p : List α} (rest : List α) :
    [a, b, s].intercalate (p :: parts) ++ a :: b :: rest =
      terminated a b (p :: parts.map (s :: ·)) ++ rest := by
  induction parts generalizing p with
  | nil =>
      rw [List.intercalate_singleton, List.map_nil, terminated_cons]
      simp
  | cons q parts ih =>
      rw [List.intercalate_cons_cons, List.map_cons, terminated_cons, List.append_assoc,
        List.append_assoc, ih]
      simp [terminated_cons]

section Cut

variable [DecidableEq α]

/-- `x` before the first line. -/
def consFirst (x : α) : List (List α) → List (List α)
  | [] => [[x]]
  | l :: ls => (x :: l) :: ls

/-- The text cut at every `a b`. -/
def lines (a b : α) : List α → List (List α)
  | x :: y :: rest =>
      if x = a ∧ y = b then [] :: lines a b rest else consFirst x (lines a b (y :: rest))
  | rest => [rest]

theorem lines_cons_of_ne {a b x : α} (h : x ≠ a) (rest : List α) :
    lines a b (x :: rest) = consFirst x (lines a b rest) := by
  cases rest with
  | nil => rfl
  | cons y rest =>
      rw [lines, if_neg]
      exact fun hboth => h hboth.1

theorem lines_append {a b : α} {l : List α} (h : a ∉ l) (rest : List α) :
    lines a b (l ++ a :: b :: rest) = l :: lines a b rest := by
  induction l with
  | nil =>
      show lines a b (a :: b :: rest) = _
      rw [lines, if_pos ⟨rfl, rfl⟩]
  | cons x l ih =>
      obtain ⟨hne, hl⟩ := not_or.mp (mt List.mem_cons.mpr h)
      rw [List.cons_append, lines_cons_of_ne (Ne.symm hne), ih hl]
      rfl

/-- **Lines are read back**, with nothing after the last end. -/
theorem lines_terminated {a b : α} {ls : List (List α)} (h : ∀ l ∈ ls, a ∉ l) :
    lines a b (terminated a b ls) = ls ++ [[]] := by
  induction ls with
  | nil => rfl
  | cons l ls ih =>
      rw [terminated_cons, lines_append (h l List.mem_cons_self),
        ih fun m hm => h m (List.mem_cons_of_mem _ hm)]
      rfl

end Cut

/-! ## § Folds -/

/-- Every `a b` with a blank behind it, taken out. -/
def unfolded [DecidableEq α] (a b : α) (blank : α → Bool) : List α → List α
  | x :: y :: z :: rest =>
      if x = a ∧ y = b ∧ blank z = true then unfolded a b blank rest
      else x :: unfolded a b blank (y :: z :: rest)
  | rest => rest

section Unfolding

variable [DecidableEq α] {a b : α} {blank : α → Bool}

theorem unfolded_cons {x : α} {rest : List α} (h : ¬ ∃ z, rest.head? = some b ∧ x = a ∧
    rest.tail.head? = some z ∧ blank z = true) :
    unfolded a b blank (x :: rest) = x :: unfolded a b blank rest := by
  match rest with
  | [] => rfl
  | [y] => rfl
  | y :: z :: rest =>
      rw [unfolded, if_neg]
      rintro ⟨hx, hy, hz⟩
      exact h ⟨z, by rw [hy]; rfl, hx, rfl, hz⟩

theorem unfolded_append {l : List α} (h : a ∉ l) (rest : List α) :
    unfolded a b blank (l ++ rest) = l ++ unfolded a b blank rest := by
  induction l with
  | nil => rfl
  | cons x l ih =>
      obtain ⟨hne, hl⟩ := not_or.mp (mt List.mem_cons.mpr h)
      rw [List.cons_append, unfolded_cons, ih hl]
      · rfl
      · rintro ⟨_, _, hx, _⟩
        exact hne hx.symm

theorem unfolded_fold {s : α} (hs : blank s = true) (rest : List α) :
    unfolded a b blank (a :: b :: s :: rest) = unfolded a b blank rest := by
  rw [unfolded, if_pos ⟨rfl, rfl, hs⟩]

/-- An end with no blank behind it stays. -/
theorem unfolded_end (hab : a ≠ b) {rest : List α} (h : ∀ z ∈ rest.head?, blank z = false) :
    unfolded a b blank (a :: b :: rest) = a :: b :: unfolded a b blank rest := by
  rw [unfolded_cons, unfolded_cons]
  · rintro ⟨_, _, hba, _⟩
    exact hab hba.symm
  · rintro ⟨z, _, _, hz, hblank⟩
    rw [h z hz] at hblank
    cases hblank

/-- The parts of a line are put together again. -/
theorem unfolded_intercalate {s : α} (hs : blank s = true) {parts : List (List α)}
    (h : ∀ p ∈ parts, a ∉ p) (rest : List α) :
    unfolded a b blank ([a, b, s].intercalate parts ++ rest) =
      parts.flatten ++ unfolded a b blank rest := by
  induction parts with
  | nil => rfl
  | cons p parts ih =>
      have hp := h p List.mem_cons_self
      have hparts : ∀ q ∈ parts, a ∉ q := fun q hq => h q (List.mem_cons_of_mem _ hq)
      cases parts with
      | nil =>
          rw [List.intercalate_singleton, unfolded_append hp]
          simp
      | cons q parts =>
          rw [List.intercalate_cons_cons, List.append_assoc, List.append_assoc,
            unfolded_append hp]
          show p ++ unfolded a b blank
            (a :: b :: s :: ([a, b, s].intercalate (q :: parts) ++ rest)) = _
          rw [unfolded_fold hs, ih hparts, List.flatten_cons (l := p), List.append_assoc]

/-- The first of the parts begins with what is no blank. -/
def Begun (blank : α → Bool) (parts : List (List α)) : Prop :=
  ∃ c l rest, parts = (c :: l) :: rest ∧ blank c = false

/-- **Unfolding leaves the lines whole.** -/
theorem unfolded_terminated {s : α} (hab : a ≠ b) (hs : blank s = true)
    {folded : List (List (List α))} (hclean : ∀ parts ∈ folded, ∀ p ∈ parts, a ∉ p)
    (hbegun : ∀ parts ∈ folded, Begun blank parts) :
    unfolded a b blank (terminated a b (folded.map [a, b, s].intercalate)) =
      terminated a b (folded.map List.flatten) := by
  induction folded with
  | nil => rfl
  | cons parts folded ih =>
      have hhead : ∀ z ∈ (terminated a b (folded.map [a, b, s].intercalate)).head?,
          blank z = false := by
        intro z hz
        cases folded with
        | nil => cases hz
        | cons next folded =>
            obtain ⟨c, l, rest, rfl, hblank⟩ :=
              hbegun next (List.mem_cons_of_mem _ List.mem_cons_self)
            have hc : z = c := by
              rw [List.map_cons, terminated_cons] at hz
              cases rest with
              | nil =>
                  rw [List.intercalate_singleton] at hz
                  exact (Option.some.inj hz).symm
              | cons q rest =>
                  rw [List.intercalate_cons_cons] at hz
                  exact (Option.some.inj hz).symm
            rw [hc]
            exact hblank
      rw [List.map_cons, List.map_cons, terminated_cons, terminated_cons,
        unfolded_intercalate hs (hclean parts List.mem_cons_self), unfolded_end hab hhead,
        ih (fun ps hps => hclean ps (List.mem_cons_of_mem _ hps))
          fun ps hps => hbegun ps (List.mem_cons_of_mem _ hps)]

end Unfolding

end Foundation
