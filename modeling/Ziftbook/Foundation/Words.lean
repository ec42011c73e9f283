import Mathlib.Data.List.DropRight

/-!
# Stripping and splitting at blanks

A text is a list, and some of its elements are blank. What is left of it without the
blanks at its ends is empty exactly where it has no words.
-/

namespace Foundation

variable {α : Type*} {blank : α → Bool}

/-- The text without the blanks at either end. -/
def strip (blank : α → Bool) (s : List α) : List α := (s.dropWhile blank).rdropWhile blank

/-- The words of a text, one begun already. -/
def wordsFrom (blank : α → Bool) (word : List α) : List α → List (List α)
  | [] => if word.isEmpty then [] else [word]
  | c :: s =>
      if blank c then
        if word.isEmpty then wordsFrom blank [] s else word :: wordsFrom blank [] s
      else wordsFrom blank (word ++ [c]) s

/-- The stretches between blanks. -/
def words (blank : α → Bool) (s : List α) : List (List α) := wordsFrom blank [] s

/-- A text between two that are no blanks stays as it is. -/
theorem strip_eq_self {c d : α} {s : List α} (hc : blank c = false) (hd : blank d = false) :
    strip blank (c :: (s ++ [d])) = c :: (s ++ [d]) := by
  have hfirst : (c :: (s ++ [d])).dropWhile blank = c :: (s ++ [d]) :=
    List.dropWhile_cons_of_neg (by simp [hc])
  rw [strip, hfirst, ← List.cons_append]
  exact List.rdropWhile_concat_neg _ _ _ (by simp [hd])

theorem strip_eq_nil {s : List α} : strip blank s = [] ↔ ∀ c ∈ s, blank c = true := by
  rw [strip, List.rdropWhile_eq_nil_iff]
  constructor
  · intro h
    by_contra hsome
    -- the first that is not blank heads what `dropWhile` leaves
    have hne : s.dropWhile blank ≠ [] := fun hnil => hsome (List.dropWhile_eq_nil_iff.mp hnil)
    have hfirst := List.head_dropWhile_not blank hne
    rw [h _ (List.head_mem hne)] at hfirst
    cases hfirst
  · intro h c hc
    exact h c ((List.dropWhile_suffix blank).subset hc)

theorem wordsFrom_eq_nil {s : List α} : ∀ {word : List α},
    wordsFrom blank word s = [] ↔ word = [] ∧ ∀ c ∈ s, blank c = true := by
  induction s with
  | nil => intro word; cases word <;> simp [wordsFrom]
  | cons c s ih =>
      intro word
      cases hc : blank c with
      | true => cases word <;> simp [wordsFrom, hc, ih]
      | false => simp [wordsFrom, hc, ih]

/-- **A text with something in it has a word.** -/
theorem words_eq_nil {s : List α} : words blank s = [] ↔ strip blank s = [] := by
  rw [words, wordsFrom_eq_nil, strip_eq_nil]
  exact ⟨And.right, fun h => ⟨rfl, h⟩⟩

end Foundation
