import Ziftbook.Foundation.Rows

/-!
# Locks taken in one order

A transaction waits for a row that another one holds. Where every row waited for ranks
above whatever its waiter holds and another waits for, no circle of waiting closes: of the
transactions that run, one does not wait.
-/

namespace Foundation

/-- Of finitely many, one is not blocked, when whoever is blocked is so by one that ranks
above it or is not blocked itself. -/
theorem exists_not_blocked {ι α : Type*} [LinearOrder α] {running : Finset ι}
    (hne : running.Nonempty) (rank : ι → α) (blocked : ι → Prop)
    (h : ∀ i ∈ running, blocked i → ∃ j ∈ running, blocked j → rank i < rank j) :
    ∃ i ∈ running, ¬ blocked i := by
  by_contra hall
  push Not at hall
  obtain ⟨i, hi, hmax⟩ := running.exists_max_image rank hne
  obtain ⟨j, hj, hlt⟩ := h i hi (hall i hi)
  exact absurd (hlt (hall j hj)) (hmax j hj).not_gt

namespace Rows

variable {κ ρ : Type*} {r r' : Rows κ ρ} {t : ℕ} {k : κ} {s : Strength} {row : Option ρ}

/-! ## § Whom a row is free for -/

section free

variable [DecidableEq κ]

theorem holds_lock_iff (h : r.lock t k s = some r') {t' : ℕ} {k' : κ} {s' : Strength} :
    r'.Holds t' k' s' ↔ (t' = t ∧ k' = k ∧ s' = s) ∨ r.Holds t' k' s' := by
  have hfree := free_of_lock h
  rw [lock, dif_pos hfree] at h
  cases h
  exact holds_cons.trans (by simp)

theorem holds_write_iff (h : r.write t k row = some r') {t' : ℕ} {k' : κ} {s' : Strength} :
    r'.Holds t' k' s' ↔ (t' = t ∧ k' = k ∧ s' = .exclusive) ∨ r.Holds t' k' s' := by
  have hfree := free_of_write h
  rw [write, dif_pos hfree] at h
  cases h
  exact holds_cons.trans (by simp)

theorem isSome_lock : (r.lock t k s).isSome ↔ r.Free t k s := by
  unfold lock
  split <;> simp_all

theorem isSome_write : (r.write t k row).isSome ↔ r.Free t k .exclusive := by
  unfold write
  split <;> simp_all

end free

/-- Whoever holds a row exclusively does not wait for it. -/
theorem free_of_holds (h : r.Holds t k .exclusive) : r.Free t k s := by
  rintro ⟨u, _, s'⟩ hx rfl hne
  exact absurd (eq_of_holds h hx) hne

/-! ## § Who waits for whom -/

/-- The row a transaction wants is another's. -/
def Waits (r : Rows κ ρ) (want : ℕ → Option κ) (t : ℕ) : Prop :=
  ∃ k ∈ want t, ¬ r.Free t k .exclusive

/-- **Nobody waits in a circle.** `want` is the row each transaction asks for next. -/
theorem exists_not_waiting {α : Type*} [LinearOrder α] {running : Finset ℕ}
    (hne : running.Nonempty) {want : ℕ → Option κ} {rank : κ → α}
    (hheld : ∀ x ∈ r.held, x.tx ∈ running)
    (horder : ∀ t u k k' s, want t = some k → r.Holds u k s → u ≠ t → want u = some k' →
      ¬ r.Free u k' .exclusive → rank k < rank k') :
    ∃ t ∈ running, ¬ r.Waits want t := by
  refine exists_not_blocked hne (fun t => (want t).elim ⊥ fun k => (rank k : WithBot α))
    (r.Waits want) fun t _ hwaits => ?_
  obtain ⟨k, hk, hfree⟩ := hwaits
  simp only [Free, not_forall] at hfree
  obtain ⟨x, hx, rfl, htx, -⟩ := hfree
  refine ⟨x.tx, hheld x hx, fun ⟨k', hk', hfree'⟩ => ?_⟩
  have hlt := horder t x.tx x.key k' x.strength hk hx htx hk' hfree'
  rw [Option.mem_def.mp hk, Option.mem_def.mp hk']
  exact WithBot.coe_lt_coe.mpr hlt

end Rows

end Foundation
