import Mathlib.Tactic

/-!
# Savepoints inside a transaction

A transaction keeps its database as it began and as it is at each open savepoint. A
statement that raises fails the transaction, which runs nothing more until it is rolled
back to a savepoint, or as a whole. What a block does to the database inside a savepoint
is what it means outside one, and where it raises it leaves nothing.
-/

namespace Foundation.Savepoints

variable {δ ε α β : Type}

/-- A transaction: the database as it began, as it is, and at the savepoints still open,
the last first. -/
structure Tx (δ : Type) where
  root : δ
  current : δ
  saved : List δ
  aborted : Bool

/-- Rolled back as a whole. -/
def Tx.rollback (t : Tx δ) : δ := t.root

/-- What a computation in a transaction returns or raises; either way the transaction goes on. -/
def Action (δ ε α : Type) := Tx δ → Except ε α × Tx δ

namespace Action

instance : Monad (Action δ ε) where
  pure a := fun t => (.ok a, t)
  bind x f := fun t =>
    match x t with
    | (.ok a, t) => f a t
    | (.error e, t) => (.error e, t)

/-- A value that may be missing. -/
def ofOption (missing : ε) (a : Option α) : Action δ ε α := fun t =>
  match a with
  | some a => (.ok a, t)
  | none => (.error missing, t)

/-- One statement. `failed` is what any statement raises in a transaction that has failed. -/
def exec (failed : ε) (stmt : δ → Except ε (α × δ)) : Action δ ε α := fun t =>
  if t.aborted then (.error failed, t)
  else
    match stmt t.current with
    | .ok (a, d) => (.ok a, { t with current := d })
    | .error e => (.error e, { t with aborted := true })

/-- Which of a savepoint's own statements fail. -/
structure Breaks where
  savepoint : Bool
  release : Bool
  rollback : Bool

/-- `ROLLBACK TO SAVEPOINT`, with the error it is for. -/
def rollbackTo (failed : ε) (breaks : Breaks) (e : ε) : Action δ ε α := fun t =>
  match t.saved with
  | d :: saved =>
      if breaks.rollback then (.error failed, { t with aborted := true })
      else (.error e, { t with current := d, saved := saved, aborted := false })
  | [] => (.error failed, t)

/-- `with begin_nested(): body`. -/
def nested (failed : ε) (breaks : Breaks) (body : Action δ ε α) : Action δ ε α := fun t =>
  if t.aborted || breaks.savepoint then (.error failed, { t with aborted := true })
  else
    match body { t with saved := t.current :: t.saved } with
    | (.ok a, t) =>
        if t.aborted || breaks.release then rollbackTo failed breaks failed t
        else (.ok a, { t with saved := t.saved.tail })
    | (.error e, t) => rollbackTo failed breaks e t

/-! ## § What a block means -/

/-- On a transaction that has not failed the block does to the database what `f` does; where
it raises, only the savepoints and the beginning are sure to stand. -/
def Means (x : Action δ ε α) (f : δ → Except ε (α × δ)) : Prop := ∀ t : Tx δ, t.aborted = false →
  match f t.current with
  | .ok (a, d) => x t = (.ok a, { t with current := d })
  | .error e => ∃ d aborted, x t = (.error e, { t with current := d, aborted := aborted })

variable {x : Action δ ε α} {f : δ → Except ε (α × δ)} {failed missing : ε}

theorem means_pure (a : α) : Means (pure a : Action δ ε α) fun d => .ok (a, d) := fun _ _ => rfl

theorem means_ofOption (a : Option α) : Means (ofOption missing a : Action δ ε α) fun d =>
    match a with
    | some a => .ok (a, d)
    | none => .error missing := by
  intro t _
  cases a with
  | some a => rfl
  | none => exact ⟨t.current, t.aborted, rfl⟩

theorem means_exec (failed : ε) (stmt : δ → Except ε (α × δ)) : Means (exec failed stmt) stmt := by
  intro t ht
  rw [exec, if_neg (by simp [ht])]
  cases stmt t.current with
  | ok r => rfl
  | error e => exact ⟨t.current, true, rfl⟩

theorem Means.bind {y : α → Action δ ε β} {g : α → δ → Except ε (β × δ)} (hx : Means x f)
    (hy : ∀ a, Means (y a) (g a)) : Means (x >>= y) fun d => f d >>= fun r => g r.1 r.2 := by
  intro t ht
  have hrun := hx t ht
  show match f t.current >>= _ with
    | .ok (b, d) => (match x t with
        | (.ok a, t) => y a t
        | (.error e, t) => (.error e, t)) = (.ok b, { t with current := d })
    | .error e => ∃ d aborted, (match x t with
        | (.ok a, t) => y a t
        | (.error e, t) => (.error e, t)) =
          (.error e, { t with current := d, aborted := aborted })
  cases hf : f t.current with
  | ok r =>
      obtain ⟨a, d⟩ := r
      rw [hf] at hrun
      rw [hrun]
      exact hy a { t with current := d } ht
  | error e =>
      rw [hf] at hrun
      obtain ⟨d, aborted, hrun⟩ := hrun
      rw [hrun]
      exact ⟨d, aborted, rfl⟩

/-- What the block does inside a savepoint. -/
def inSavepoint (failed : ε) (breaks : Breaks) (f : δ → Except ε (α × δ)) (d : δ) :
    Except ε (α × δ) :=
  if breaks.savepoint then .error failed
  else
    match f d with
    | .ok r => if breaks.release then .error failed else .ok r
    | .error e => if breaks.rollback then .error failed else .error e

variable {breaks : Breaks} {t : Tx δ}

theorem inSavepoint_eq_ok {d : δ} {r : α × δ} (h : inSavepoint failed breaks f d = .ok r) :
    breaks.savepoint = false ∧ breaks.release = false ∧ f d = .ok r := by
  rw [inSavepoint] at h
  by_cases hsavepoint : breaks.savepoint = true
  · rw [if_pos hsavepoint] at h
    cases h
  · rw [if_neg hsavepoint] at h
    refine ⟨Bool.eq_false_iff.mpr hsavepoint, ?_⟩
    cases hf : f d with
    | error e =>
        rw [hf] at h
        dsimp only at h
        split_ifs at h
    | ok r' =>
        rw [hf] at h
        dsimp only at h
        split_ifs at h with hrelease
        exact ⟨Bool.eq_false_iff.mpr hrelease, h⟩

/-- A rollback to the savepoint brings back the transaction as it was there. -/
theorem rollbackTo_savepoint (ht : t.aborted = false) {e : ε} {d : δ} {aborted : Bool} :
    ∃ t', rollbackTo failed breaks e
        { t with current := d, saved := t.current :: t.saved, aborted := aborted } =
          ((.error (if breaks.rollback then failed else e) : Except ε α), t') ∧
      t'.rollback = t.rollback ∧ (breaks.rollback = false → t' = t) := by
  cases hrollback : breaks.rollback with
  | true =>
      refine ⟨⟨t.root, d, t.current :: t.saved, true⟩, ?_, rfl, fun h => by cases h⟩
      rw [rollbackTo]
      exact if_pos hrollback
  | false =>
      refine ⟨{ t with aborted := false }, ?_, rfl, fun _ => by rw [← ht]⟩
      rw [rollbackTo]
      exact if_neg (by simp [hrollback])

/-- **A block that returns** has done what it means. -/
theorem nested_ok (h : Means x f) (ht : t.aborted = false) {a : α} {d : δ}
    (hok : inSavepoint failed breaks f t.current = .ok (a, d)) :
    nested failed breaks x t = (.ok a, { t with current := d }) := by
  obtain ⟨hsavepoint, hrelease, hf⟩ := inSavepoint_eq_ok hok
  have hrun := h { t with saved := t.current :: t.saved } ht
  rw [hf] at hrun
  rw [nested, if_neg (by simp [ht, hsavepoint]), hrun]
  exact if_neg (by simp [ht, hrelease])

/-- **A block that raises has left nothing**, once the transaction is rolled back, and unless
the savepoint's own statements fail, at once. -/
theorem nested_error (h : Means x f) (ht : t.aborted = false) {e : ε}
    (herror : inSavepoint failed breaks f t.current = .error e) :
    ∃ t', nested failed breaks x t = (.error e, t') ∧ t'.rollback = t.rollback ∧
      (e ≠ failed → t' = t) := by
  have hrun := h { t with saved := t.current :: t.saved } ht
  by_cases hsavepoint : breaks.savepoint = true
  · rw [inSavepoint, if_pos hsavepoint] at herror
    cases herror
    refine ⟨{ t with aborted := true }, ?_, rfl, fun hne => absurd rfl hne⟩
    rw [nested, if_pos (by simp [hsavepoint])]
  · rw [inSavepoint, if_neg hsavepoint] at herror
    rw [nested, if_neg (by simp [ht, hsavepoint])]
    cases hf : f t.current with
    | ok r =>
        -- only the release can have failed
        rw [hf] at herror hrun
        dsimp only at herror hrun
        split_ifs at herror with hrelease
        cases herror
        obtain ⟨t', hback, hroot, _⟩ := @rollbackTo_savepoint _ _ α failed breaks t ht failed r.2
          t.aborted
        rw [ite_self] at hback
        refine ⟨t', ?_, hroot, fun hne => absurd rfl hne⟩
        rw [hrun]
        exact (if_pos (by simp [hrelease])).trans hback
    | error e' =>
        rw [hf] at herror hrun
        obtain ⟨d, aborted, hrun⟩ := hrun
        obtain ⟨t', hback, hroot, hsame⟩ := @rollbackTo_savepoint _ _ α failed breaks t ht e' d
          aborted
        have heq : (if breaks.rollback then failed else e') = e := by
          dsimp only at herror
          split_ifs at herror ⊢ <;> exact Except.error.inj herror
        refine ⟨t', ?_, hroot, fun hne => hsame ?_⟩
        · rw [hrun]
          exact heq ▸ hback
        · cases hrollback : breaks.rollback with
          | true => exact absurd (by rw [← heq, if_pos hrollback]) hne
          | false => rfl

end Action

end Foundation.Savepoints
