import Mathlib.Data.List.Infix

/-!
# Patterns of `LIKE`

A pattern's elements stand for themselves, but for three: one stands for any stretch, one
for any single element, and one makes the element after it stand for itself. A text whose
special elements are escaped stands for itself alone, so between two of the first it stands
for every text that contains it.
-/

namespace Foundation

structure Wildcards (α : Type*) where
  many : α
  one : α
  escape : α
  many_ne_one : many ≠ one
  many_ne_escape : many ≠ escape
  one_ne_escape : one ≠ escape

namespace Wildcards

variable {α : Type*} [DecidableEq α] (w : Wildcards α)

/-- Whether the text is one that the pattern stands for. -/
def like : List α → List α → Bool
  | [], s => s.isEmpty
  | c :: p, s =>
      if c = w.many then s.tails.any (like p)
      else if c = w.one then
        match s with
        | [] => false
        | _ :: s => like p s
      else if c = w.escape then
        match p with
        | [] => false
        | d :: p =>
            match s with
            | [] => false
            | e :: s => d = e && like p s
      else
        match s with
        | [] => false
        | d :: s => c = d && like p s

/-- An element's place in a pattern that stands for it. -/
def literal (c : α) : List α :=
  if c = w.many ∨ c = w.one ∨ c = w.escape then [w.escape, c] else [c]

def quote (s : List α) : List α := s.flatMap w.literal

variable {w} {p s q : List α} {c : α}

theorem like_many : w.like (w.many :: p) s ↔ ∃ t, t <:+ s ∧ w.like p t := by
  rw [like.eq_def]
  simp only [if_pos, List.any_eq_true, List.mem_tails]

theorem and_like_iff {d : α} : (decide (c = d) && w.like p s) = true ↔
    ∃ t, d :: s = c :: t ∧ w.like p t := by
  rw [Bool.and_eq_true, decide_eq_true_eq]
  constructor
  · rintro ⟨rfl, h⟩
    exact ⟨s, rfl, h⟩
  · rintro ⟨t, heq, h⟩
    cases heq
    exact ⟨rfl, h⟩

/-- An element's literal stands for that element. -/
theorem like_literal : w.like (w.literal c ++ p) s ↔ ∃ t, s = c :: t ∧ w.like p t := by
  have hmany := w.many_ne_escape
  have hone := w.one_ne_escape
  unfold literal
  split_ifs with hspecial
  · rw [List.cons_append, like.eq_def]
    simp only [if_neg hmany.symm, if_neg hone.symm, if_pos]
    cases s with
    | nil => simp
    | cons d s => exact and_like_iff
  · simp only [not_or] at hspecial
    rw [List.singleton_append, like.eq_def]
    simp only [if_neg hspecial.1, if_neg hspecial.2.1, if_neg hspecial.2.2]
    cases s with
    | nil => simp
    | cons d s => exact and_like_iff

theorem like_quote : w.like (w.quote q ++ p) s ↔ ∃ t, s = q ++ t ∧ w.like p t := by
  induction q generalizing s with
  | nil => simp [quote]
  | cons c q ih =>
      rw [quote, List.flatMap_cons, List.append_assoc, like_literal]
      constructor
      · rintro ⟨t, rfl, ht⟩
        obtain ⟨u, rfl, hu⟩ := ih.mp ht
        exact ⟨u, rfl, hu⟩
      · rintro ⟨t, rfl, ht⟩
        exact ⟨q ++ t, rfl, ih.mpr ⟨t, rfl, ht⟩⟩

/-- **A quoted text between two of the first is looked for, and nothing else.** -/
theorem like_contains : w.like (w.many :: (w.quote q ++ [w.many])) s ↔ q <:+: s := by
  rw [like_many]
  constructor
  · rintro ⟨_, ⟨r, rfl⟩, h⟩
    obtain ⟨t, rfl, -⟩ := like_quote.mp h
    exact ⟨r, t, by rw [List.append_assoc]⟩
  · rintro ⟨r, t, rfl⟩
    refine ⟨q ++ t, ⟨r, by rw [List.append_assoc]⟩, like_quote.mpr ⟨t, rfl, ?_⟩⟩
    exact like_many.mpr ⟨[], List.nil_suffix, rfl⟩

/-- Quoting goes through a map that keeps the special elements, and only them, special. -/
theorem map_quote {f : α → α} (hmany : ∀ c, f c = w.many ↔ c = w.many)
    (hone : ∀ c, f c = w.one ↔ c = w.one) (hescape : ∀ c, f c = w.escape ↔ c = w.escape) :
    (w.quote q).map f = w.quote (q.map f) := by
  induction q with
  | nil => rfl
  | cons c q ih =>
      rw [quote, List.flatMap_cons, List.map_append, ← quote, ih, List.map_cons, quote,
        quote, List.flatMap_cons]
      congr 1
      simp only [literal, hmany, hone, hescape]
      split_ifs
      · simp [(hescape w.escape).mpr rfl]
      · rfl

/-! ## § Quoting one special element after another -/

/-- Every `c` replaced by the two. -/
def escapeOne (w : Wildcards α) (c : α) (s : List α) : List α :=
  s.flatMap fun d => if d = c then [w.escape, c] else [d]

/-- **Escapes first.** The escape's own quoting must not meet the others'. -/
theorem escapeOne_all (s : List α) :
    w.escapeOne w.one (w.escapeOne w.many (w.escapeOne w.escape s)) = w.quote s := by
  have hmany := w.many_ne_escape
  have hone := w.one_ne_escape
  have hmo := w.many_ne_one
  induction s with
  | nil => rfl
  | cons d s ih =>
      simp only [escapeOne, quote, List.flatMap_cons, List.flatMap_append] at ih ⊢
      rw [ih]
      congr 1
      unfold literal
      by_cases h : d = w.escape
      · subst h
        simp [hmany.symm, hone.symm]
      · by_cases h' : d = w.many
        · subst h'
          simp [hmany, hmo, hone.symm]
        · by_cases h'' : d = w.one
          · subst h''
            simp [hone, hmo.symm]
          · simp [h, h', h'']

end Wildcards

end Foundation
