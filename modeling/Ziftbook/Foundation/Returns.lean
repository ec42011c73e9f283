import Mathlib.Tactic

/-!
# Computations that return

A computation that may raise returns with a postcondition. The rules follow how it is
built: a value, one computation after another, a handler for some of what is raised, and
one run over a list.
-/

namespace Foundation

universe u

variable {ε : Type*} {α β : Type u} {x : Except ε α} {P Q : α → Prop}

theorem bind_ok_iff {f : α → Except ε β} {b : β} :
    (x >>= f) = .ok b ↔ ∃ a, x = .ok a ∧ f a = .ok b := by
  cases x <;> simp [bind, Except.bind]

theorem bind_error_iff {f : α → Except ε β} {e : ε} :
    (x >>= f) = .error e ↔ x = .error e ∨ ∃ a, x = .ok a ∧ f a = .error e := by
  cases x <;> simp [bind, Except.bind]

/-- `x` raises nothing, and what it returns satisfies `Q`. -/
def Returns (x : Except ε α) (Q : α → Prop) : Prop := ∃ a, x = .ok a ∧ Q a

/-- `try: x` with a handler for what `caught` names; anything else goes on. -/
def handling (caught : ε → Bool) (x handler : Except ε α) : Except ε α :=
  match x with
  | .ok a => .ok a
  | .error e => if caught e then handler else .error e

namespace Returns

theorem ok {a : α} (h : Q a) : Returns (.ok a : Except ε α) Q := ⟨a, rfl, h⟩

theorem mono (h : Returns x P) (himp : ∀ a, P a → Q a) : Returns x Q := by
  obtain ⟨a, hx, ha⟩ := h
  exact ⟨a, hx, himp a ha⟩

theorem of_ok {a : α} (h : Returns x Q) (hx : x = .ok a) : Q a := by
  obtain ⟨b, hb, hQ⟩ := h
  cases hb.symm.trans hx
  exact hQ

theorem bind {f : α → Except ε β} {R : β → Prop} (h : Returns x P)
    (hf : ∀ a, x = .ok a → P a → Returns (f a) R) : Returns (x >>= f) R := by
  obtain ⟨a, rfl, ha⟩ := h
  exact hf a rfl ha

theorem ite {c : Prop} [Decidable c] {x y : Except ε α} (hx : c → Returns x Q)
    (hy : ¬ c → Returns y Q) : Returns (if c then x else y) Q := by
  by_cases hc : c
  · rw [if_pos hc]
    exact hx hc
  · rw [if_neg hc]
    exact hy hc

/-- A handler for all that is raised. -/
theorem handling {caught : ε → Bool} {handler : Except ε α}
    (hraised : ∀ e, x = .error e → caught e = true) (hok : ∀ a, x = .ok a → Q a)
    (hhandler : Returns handler Q) : Returns (handling caught x handler) Q := by
  cases hx : x with
  | ok a => exact .ok (hok a hx)
  | error e =>
      show Returns (if caught e then handler else .error e) Q
      rw [if_pos (hraised e hx)]
      exact hhandler

/-- Each result is that of an element. -/
theorem mapM {f : β → Except ε α} {l : List β} (h : ∀ b ∈ l, Returns (f b) fun _ => True) :
    Returns (l.mapM f) fun as => ∀ a ∈ as, ∃ b ∈ l, f b = .ok a := by
  induction l with
  | nil => exact ⟨[], rfl, by simp⟩
  | cons b l ih =>
      obtain ⟨a, ha, _⟩ := h b (List.mem_cons_self ..)
      obtain ⟨as, has, hall⟩ := ih fun c hc => h c (List.mem_cons_of_mem _ hc)
      refine ⟨a :: as, ?_, ?_⟩
      · rw [List.mapM_cons, ha, has]
        rfl
      · rintro c (_ | ⟨_, hc⟩)
        · exact ⟨b, List.mem_cons_self .., ha⟩
        · obtain ⟨d, hd, hdc⟩ := hall c hc
          exact ⟨d, List.mem_cons_of_mem _ hd, hdc⟩

theorem filterAuxM {γ : Type} {f : γ → Except ε Bool} {l : List γ}
    (h : ∀ b ∈ l, Returns (f b) fun _ => True) : ∀ acc : List γ,
    Returns (l.filterAuxM f acc) fun r => ∀ c ∈ r, c ∈ acc ∨ c ∈ l := by
  induction l with
  | nil => exact fun acc => .ok fun c hc => Or.inl hc
  | cons b l ih =>
      intro acc
      refine (h b (List.mem_cons_self ..)).bind fun keep _ _ => ?_
      refine (ih (fun c hc => h c (List.mem_cons_of_mem _ hc)) _).mono fun r hr c hc => ?_
      rcases hr c hc with hacc | hl
      · cases keep with
        | true =>
            rcases List.mem_cons.mp hacc with rfl | hacc
            · exact Or.inr (List.mem_cons_self ..)
            · exact Or.inl hacc
        | false => exact Or.inl hacc
      · exact Or.inr (List.mem_cons_of_mem _ hl)

/-- What a test keeps is of the list it was run over. -/
theorem filterM {γ : Type} {f : γ → Except ε Bool} {l : List γ}
    (h : ∀ b ∈ l, Returns (f b) fun _ => True) : Returns (l.filterM f) fun r => ∀ c ∈ r, c ∈ l := by
  refine (filterAuxM h []).bind fun r _ hr => .ok fun c hc => ?_
  rcases hr c (List.mem_reverse.mp hc) with hnil | hl
  · cases hnil
  · exact hl

end Returns

end Foundation
