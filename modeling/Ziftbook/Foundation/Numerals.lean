import Mathlib.Tactic

/-!
# Numerals of a fixed width

A number below `b ^ w` in base `b`, of at most sixteen digits, as `w` characters
with leading zeros. Reading the characters gives the number back, and texts that
begin with numerals of one width are ordered as their numbers, then as the rest.
-/

namespace Foundation

def numeral (b : ℕ) : ℕ → ℕ → List Char
  | 0, _ => []
  | w + 1, n => numeral b w (n / b) ++ [Nat.digitChar (n % b)]

/-- A character's worth as a digit, in either case; 16 of any other. -/
def digitOf (c : Char) : ℕ :=
  if '0' ≤ c ∧ c ≤ '9' then c.toNat - '0'.toNat
  else if 'a' ≤ c ∧ c ≤ 'f' then c.toNat - 'a'.toNat + 10
  else if 'A' ≤ c ∧ c ≤ 'F' then c.toNat - 'A'.toNat + 10
  else 16

/-- Characters of a text are tried one by one, not out of all there are. -/
instance decidableForallMemText (cs : List Char) (p : Char → Prop) [DecidablePred p] :
    Decidable (∀ c ∈ cs, p c) :=
  List.decidableBAll p cs

def IsNumeral (b : ℕ) (cs : List Char) : Prop := ∀ c ∈ cs, digitOf c < b

instance (b : ℕ) (cs : List Char) : Decidable (IsNumeral b cs) :=
  inferInstanceAs (Decidable (∀ c ∈ cs, _))

/-- The number the digits write. -/
def numeralValue (b : ℕ) (cs : List Char) : ℕ := cs.foldl (fun v c => v * b + digitOf c) 0

variable {b w m n : ℕ} {x y : List Char}

/-! ## § Digits -/

theorem digitOf_digitChar (h : n < 16) : digitOf (Nat.digitChar n) = n := by
  revert h
  decide +revert

theorem digitChar_lt_iff (hm : m < 16) (hn : n < 16) :
    Nat.digitChar m < Nat.digitChar n ↔ m < n := by
  have hall : ∀ i < 16, ∀ j < 16, (Nat.digitChar i < Nat.digitChar j ↔ i < j) := by decide
  exact hall m hm n hn

theorem digitChar_inj (hm : m < 16) (hn : n < 16) (h : Nat.digitChar m = Nat.digitChar n) :
    m = n := by
  rw [← digitOf_digitChar hm, h, digitOf_digitChar hn]

/-! ## § Reading a numeral back -/

@[simp] theorem length_numeral : (numeral b w n).length = w := by
  induction w generalizing n with
  | zero => rfl
  | succ w ih => rw [numeral, List.length_append, ih, List.length_singleton]

theorem isNumeral_numeral (hb : 0 < b) (hle : b ≤ 16) : IsNumeral b (numeral b w n) := by
  induction w generalizing n with
  | zero => intro c hc; cases hc
  | succ w ih =>
      intro c hc
      rcases List.mem_append.mp hc with hc | hc
      · exact ih c hc
      · have hlt : n % b < b := Nat.mod_lt _ hb
        rw [List.mem_singleton.mp hc, digitOf_digitChar (hlt.trans_le hle)]
        exact hlt

theorem numeralValue_numeral (hb : 0 < b) (hle : b ≤ 16) (h : n < b ^ w) :
    numeralValue b (numeral b w n) = n := by
  induction w generalizing n with
  | zero =>
      rw [pow_zero] at h
      show 0 = n
      omega
  | succ w ih =>
      have hdigit : n % b < 16 := (Nat.mod_lt _ hb).trans_le hle
      have hrest : n / b < b ^ w := by
        apply Nat.div_lt_of_lt_mul
        rw [mul_comm]
        exact pow_succ b w ▸ h
      have hvalue := ih hrest
      rw [numeralValue] at hvalue ⊢
      rw [numeral, List.foldl_append, hvalue, List.foldl_cons, List.foldl_nil,
        digitOf_digitChar hdigit]
      exact Nat.div_add_mod' n b

/-! ## § Order -/

/-- **Numerals of one width are ordered as their numbers.** -/
theorem numeral_append_lt_iff (hb : 0 < b) (hle : b ≤ 16) (hm : m < b ^ w) (hn : n < b ^ w) :
    numeral b w m ++ x < numeral b w n ++ y ↔ m < n ∨ m = n ∧ x < y := by
  induction w generalizing m n x y with
  | zero =>
      rw [pow_zero] at hm hn
      have hsame : m = n := by omega
      simp [numeral, hsame]
  | succ w ih =>
      have hrest : ∀ {k}, k < b ^ (w + 1) → k / b < b ^ w := by
        intro k hk
        apply Nat.div_lt_of_lt_mul
        rw [mul_comm]
        exact pow_succ b w ▸ hk
      have hdigit : ∀ k, k % b < 16 := fun k => (Nat.mod_lt k hb).trans_le hle
      have hmsplit := Nat.div_add_mod m b
      have hnsplit := Nat.div_add_mod n b
      have hmlt := Nat.mod_lt m hb
      have hnlt := Nat.mod_lt n hb
      rw [numeral, numeral, List.append_assoc, List.append_assoc, ih (hrest hm) (hrest hn),
        List.singleton_append, List.singleton_append, List.cons_lt_cons_iff,
        digitChar_lt_iff (hdigit m) (hdigit n)]
      -- The leading digits decide, unless they are the same.
      rcases lt_trichotomy (m / b) (n / b) with hlt | heq | hgt
      · have : b * (m / b) + b ≤ b * (n / b) := by
          rw [← Nat.mul_succ]
          exact Nat.mul_le_mul_left b hlt
        constructor
        · intro _; exact Or.inl (by omega)
        · intro _; exact Or.inl hlt
      · have hsame : Nat.digitChar (m % b) = Nat.digitChar (n % b) ↔ m % b = n % b :=
          ⟨digitChar_inj (hdigit m) (hdigit n), fun h => by rw [h]⟩
        rw [heq] at hmsplit
        simp only [heq, lt_irrefl, false_or, true_and, hsame]
        constructor
        · rintro (hlt | ⟨hdig, hxy⟩)
          · exact Or.inl (by omega)
          · exact Or.inr ⟨by omega, hxy⟩
        · rintro (hlt | ⟨hmn, hxy⟩)
          · exact Or.inl (by omega)
          · exact Or.inr ⟨by omega, hxy⟩
      · have : b * (n / b) + b ≤ b * (m / b) := by
          rw [← Nat.mul_succ]
          exact Nat.mul_le_mul_left b hgt
        constructor
        · rintro (hlt | ⟨hsame, _⟩) <;> omega
        · rintro (hlt | ⟨hsame, _⟩) <;> omega

/-- A common beginning does not change the order. -/
theorem append_lt_append_iff {p : List Char} : p ++ x < p ++ y ↔ x < y := by
  induction p with
  | nil => rfl
  | cons c p ih =>
      rw [List.cons_append, List.cons_append, List.cons_lt_cons_iff, ih]
      simp

end Foundation
