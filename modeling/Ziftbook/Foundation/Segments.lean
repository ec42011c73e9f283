import Mathlib.Data.List.DropRight
import Ziftbook.Foundation.Numerals

/-!
# Texts in segments

A text built of segments, each opened by a separator it does not contain, is read
back segment by segment. Numbers in decimal and fractions without trailing zeros
are such segments.
-/

namespace Foundation

/-! ## § Cutting -/

/-- The rest of a text: nothing, or a separator first. -/
def Opens {α : Type*} (sep : α) (rest : List α) : Prop := ∀ c ∈ rest.head?, c = sep

theorem opens_nil {α : Type*} (sep : α) : Opens sep [] := by
  intro c hc
  cases hc

theorem opens_cons {α : Type*} (sep : α) (rest : List α) : Opens sep (sep :: rest) := by
  intro c hc
  exact (Option.some.inj hc).symm

/-- **A segment ends where the separator opens the rest.** -/
theorem append_inj_of_opens {α : Type*} {sep : α} {a b r s : List α} (ha : sep ∉ a)
    (hb : sep ∉ b) (hr : Opens sep r) (hs : Opens sep s) (h : a ++ r = b ++ s) :
    a = b ∧ r = s := by
  induction a generalizing b with
  | nil =>
      cases b with
      | nil => exact ⟨rfl, h⟩
      | cons c b =>
          -- the rest would begin inside a segment
          have hopens : c = sep := by
            apply hr
            rw [show r = c :: b ++ s from h]
            rfl
          exact absurd (hopens ▸ List.mem_cons_self ..) hb
  | cons c a ih =>
      cases b with
      | nil =>
          have hopens : c = sep := by
            apply hs
            rw [← show c :: a ++ r = s from h]
            rfl
          exact absurd (hopens ▸ List.mem_cons_self ..) ha
      | cons d b =>
          obtain ⟨rfl, htail⟩ := List.cons.inj (show c :: (a ++ r) = d :: (b ++ s) from h)
          obtain ⟨rfl, hrest⟩ := ih (fun hmem => ha (List.mem_cons_of_mem _ hmem))
            (fun hmem => hb (List.mem_cons_of_mem _ hmem)) htail
          exact ⟨rfl, hrest⟩

/-! ## § Decimals -/

/-- The digits of a number, as many as it has. -/
def decimal (n : ℕ) : List Char := Nat.toDigits 10 n

theorem decimal_injective : Function.Injective decimal := by
  intro m n h
  rw [← Nat.ofDigitChars_ten_toDigits (n := m), ← Nat.ofDigitChars_ten_toDigits (n := n)]
  exact congrArg (fun cs => Nat.ofDigitChars 10 cs 0) h

theorem isDigit_of_mem_decimal {c : Char} {n : ℕ} (h : c ∈ decimal n) : c.isDigit = true :=
  Nat.isDigit_of_mem_toDigits (by decide) (by decide) h

theorem not_mem_decimal {c : Char} (hc : c.isDigit = false) (n : ℕ) : c ∉ decimal n := by
  intro h
  rw [isDigit_of_mem_decimal h] at hc
  cases hc

/-- The first digit. -/
theorem decimal_eq_cons (n : ℕ) : ∃ c cs, decimal n = c :: cs ∧ c.isDigit = true := by
  cases h : decimal n with
  | nil => exact absurd h Nat.toDigits_ne_nil
  | cons c cs => exact ⟨c, cs, rfl, isDigit_of_mem_decimal (h ▸ List.mem_cons_self ..)⟩

/-! ## § Fractions -/

def trimmed (cs : List Char) : List Char := cs.rdropWhile (· = '0')

/-- What is trimmed are zeros. -/
theorem trimmed_append (cs : List Char) :
    trimmed cs ++ List.replicate (cs.length - (trimmed cs).length) '0' = cs := by
  induction cs using List.reverseRecOn with
  | nil => rfl
  | append_singleton cs c ih =>
      unfold trimmed at ih ⊢
      by_cases hc : c = '0'
      · subst hc
        rw [List.rdropWhile_concat_pos _ _ _ (by decide), List.length_append,
          List.length_singleton]
        have hle : (cs.rdropWhile (· = '0')).length ≤ cs.length :=
          (List.rdropWhile_prefix _ cs).length_le
        rw [Nat.sub_add_comm hle, List.replicate_succ', ← List.append_assoc, ih]
      · rw [List.rdropWhile_concat_neg _ _ _ (by simpa using hc)]
        simp

/-- A fraction of `w` digits, without the zeros at its end but for the first digit. -/
def fraction (w n : ℕ) : List Char :=
  match trimmed (numeral 10 w n) with
  | [] => ['0']
  | c :: cs => c :: cs

theorem fraction_append {w : ℕ} (hw : 0 < w) (n : ℕ) :
    fraction w n ++ List.replicate (w - (fraction w n).length) '0' = numeral 10 w n := by
  have h := trimmed_append (numeral 10 w n)
  rw [length_numeral] at h
  unfold fraction
  cases htrimmed : trimmed (numeral 10 w n) with
  | nil =>
      rw [htrimmed] at h
      rw [← h]
      show '0' :: List.replicate (w - 1) '0' = List.replicate w '0'
      rw [← List.replicate_succ, Nat.sub_add_cancel hw]
  | cons c cs =>
      rw [htrimmed] at h
      exact h

theorem fraction_inj {w m n : ℕ} (hw : 0 < w) (hm : m < 10 ^ w) (hn : n < 10 ^ w)
    (h : fraction w m = fraction w n) : m = n := by
  have hnumeral : numeral 10 w m = numeral 10 w n := by
    rw [← fraction_append hw m, h, fraction_append hw n]
  rw [← numeralValue_numeral (by decide) (by decide) hm, hnumeral,
    numeralValue_numeral (by decide) (by decide) hn]

theorem isNumeral_fraction (w n : ℕ) : IsNumeral 10 (fraction w n) := by
  have hall : IsNumeral 10 (numeral 10 w n) := isNumeral_numeral (by decide) (by decide)
  unfold fraction
  cases htrimmed : trimmed (numeral 10 w n) with
  | nil => decide
  | cons c cs =>
      intro d hd
      have hd : d ∈ trimmed (numeral 10 w n) := by
        rw [htrimmed]
        simpa only [htrimmed] using hd
      apply hall
      exact (List.rdropWhile_prefix _ _).subset hd

end Foundation
