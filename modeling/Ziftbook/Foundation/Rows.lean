import Mathlib.Tactic

/-!
# Rows under READ COMMITTED

Rows by their keys: what is committed, what the open transactions have written, and
the row locks they hold. A transaction sees its own writes over what is committed.
A statement that locks or writes a row runs once the row is free of the others'
locks that forbid it, and sees the row committed by then. A commit publishes the
transaction's writes and a rollback drops them; both release its locks.

A lock that another transaction holds keeps the row as it is committed.
-/

namespace Foundation

/-- `FOR SHARE`, or `FOR UPDATE` and a write's own lock. -/
inductive Strength
  | share | exclusive
deriving DecidableEq, Repr

structure Held (κ : Type*) where
  tx : ℕ
  key : κ
  strength : Strength
deriving DecidableEq

/-- A row written, or deleted. -/
structure Written (κ ρ : Type*) where
  tx : ℕ
  key : κ
  row : Option ρ

/-- `written` has the newest first. -/
structure Rows (κ ρ : Type*) where
  committed : κ → Option ρ
  written : List (Written κ ρ)
  held : List (Held κ)
  /-- A writer holds the row. -/
  guarded : ∀ w ∈ written, ⟨w.tx, w.key, .exclusive⟩ ∈ held
  /-- Two transactions hold a row only when both share it. -/
  shared : ∀ x ∈ held, ∀ y ∈ held, x.key = y.key → x.tx ≠ y.tx → x.strength = .share

theorem mem_opened_filter {opened : List ℕ} {tx t : ℕ} :
    t ∈ opened.filter (· ≠ tx) ↔ t ∈ opened ∧ t ≠ tx := by
  simp

namespace Rows

variable {κ ρ : Type*}

def start (rows : κ → Option ρ) : Rows κ ρ :=
  ⟨rows, [], [], fun _ h => (by cases h), fun _ h => (by cases h)⟩

def Holds (r : Rows κ ρ) (t : ℕ) (k : κ) (s : Strength) : Prop := ⟨t, k, s⟩ ∈ r.held

/-- No other transaction holds the row in a way that forbids the lock. -/
def Free (r : Rows κ ρ) (t : ℕ) (k : κ) (s : Strength) : Prop :=
  ∀ x ∈ r.held, x.key = k → x.tx ≠ t → x.strength = .share ∧ s = .share

variable [DecidableEq κ]

instance (r : Rows κ ρ) (t : ℕ) (k : κ) (s : Strength) : Decidable (r.Holds t k s) :=
  inferInstanceAs (Decidable (_ ∈ _))

instance (r : Rows κ ρ) (t : ℕ) (k : κ) (s : Strength) : Decidable (r.Free t k s) :=
  inferInstanceAs (Decidable (∀ x ∈ r.held, _))

/-- What the transaction last wrote of the row. -/
def lastWrite (r : Rows κ ρ) (t : ℕ) (k : κ) : Option (Option ρ) :=
  (r.written.find? fun w => w.tx = t ∧ w.key = k).map Written.row

def seen (r : Rows κ ρ) (t : ℕ) (k : κ) : Option ρ := (r.lastWrite t k).getD (r.committed k)

omit [DecidableEq κ] in
theorem shared_cons {r : Rows κ ρ} {t : ℕ} {k : κ} {s : Strength} (h : r.Free t k s) :
    ∀ x ∈ (⟨t, k, s⟩ :: r.held : List (Held κ)), ∀ y ∈ (⟨t, k, s⟩ :: r.held : List (Held κ)),
      x.key = y.key → x.tx ≠ y.tx → x.strength = .share := by
  intro x hx y hy hkey htx
  rcases List.mem_cons.mp hx with rfl | hx <;> rcases List.mem_cons.mp hy with rfl | hy
  · exact absurd rfl htx
  · exact (h y hy hkey.symm htx.symm).2
  · exact (h x hx hkey htx).1
  · exact r.shared x hx y hy hkey htx

/-- `SELECT … FOR SHARE` or `FOR UPDATE` of one row. -/
def lock (r : Rows κ ρ) (t : ℕ) (k : κ) (s : Strength) : Option (Rows κ ρ) :=
  if h : r.Free t k s then
    some { r with
      held := ⟨t, k, s⟩ :: r.held
      guarded := fun w hw => List.mem_cons_of_mem _ (r.guarded w hw)
      shared := shared_cons h }
  else none

/-- An `INSERT`, `UPDATE` or `DELETE` of one row. -/
def write (r : Rows κ ρ) (t : ℕ) (k : κ) (row : Option ρ) : Option (Rows κ ρ) :=
  if h : r.Free t k .exclusive then
    some { r with
      written := ⟨t, k, row⟩ :: r.written
      held := ⟨t, k, .exclusive⟩ :: r.held
      guarded := by
        intro w hw
        rcases List.mem_cons.mp hw with rfl | hw
        · exact List.mem_cons_self ..
        · exact List.mem_cons_of_mem _ (r.guarded w hw)
      shared := shared_cons h }
  else none

/-- The transaction's writes dropped and its locks released. -/
def rollback (r : Rows κ ρ) (t : ℕ) : Rows κ ρ where
  committed := r.committed
  written := r.written.filter fun w => w.tx ≠ t
  held := r.held.filter fun x => x.tx ≠ t
  guarded := by
    intro w hw
    obtain ⟨hw, ht⟩ := List.mem_filter.mp hw
    exact List.mem_filter.mpr ⟨r.guarded w hw, ht⟩
  shared := by
    intro x hx y hy
    exact r.shared x (List.mem_filter.mp hx).1 y (List.mem_filter.mp hy).1

def commit (r : Rows κ ρ) (t : ℕ) : Rows κ ρ :=
  { r.rollback t with committed := r.seen t }

/-! ## § Locks -/

omit [DecidableEq κ] in
/-- Whoever holds a row exclusively is the only one to hold it. -/
theorem eq_of_holds {r : Rows κ ρ} {t t' : ℕ} {k : κ} {s : Strength}
    (h : r.Holds t k .exclusive) (h' : r.Holds t' k s) : t' = t := by
  by_contra hne
  cases r.shared _ h _ h' rfl (fun heq => hne heq.symm)

theorem holds_of_lastWrite {r : Rows κ ρ} {t : ℕ} {k : κ} {row : Option ρ}
    (h : r.lastWrite t k = some row) : r.Holds t k .exclusive := by
  obtain ⟨w, hw, -⟩ := Option.map_eq_some_iff.mp h
  have hsat := List.find?_some hw
  rw [decide_eq_true_eq] at hsat
  obtain ⟨rfl, rfl⟩ := hsat
  exact r.guarded w (List.mem_of_find?_eq_some hw)

/-- Nobody writes a row that another transaction holds. -/
theorem lastWrite_eq_none_of_holds {r : Rows κ ρ} {t t' : ℕ} {k : κ} {s : Strength}
    (h : r.Holds t' k s) (hne : t' ≠ t) : r.lastWrite t k = none := by
  by_contra hwritten
  obtain ⟨row, hrow⟩ := Option.ne_none_iff_exists'.mp hwritten
  exact hne (eq_of_holds (holds_of_lastWrite hrow) h)

@[simp] theorem seen_of_lastWrite {r : Rows κ ρ} {t : ℕ} {k : κ} {row : Option ρ}
    (h : r.lastWrite t k = some row) : r.seen t k = row := by
  simp [seen, h]

theorem seen_of_unwritten {r : Rows κ ρ} {t : ℕ} {k : κ} (h : r.lastWrite t k = none) :
    r.seen t k = r.committed k := by
  simp [seen, h]

omit [DecidableEq κ] in
@[simp] theorem holds_rollback {r : Rows κ ρ} {t t' : ℕ} {k : κ} {s : Strength} :
    (r.rollback t).Holds t' k s ↔ r.Holds t' k s ∧ t' ≠ t := by
  simp [Holds, rollback]

@[simp] theorem holds_commit {r : Rows κ ρ} {t t' : ℕ} {k : κ} {s : Strength} :
    (r.commit t).Holds t' k s ↔ r.Holds t' k s ∧ t' ≠ t := by
  simp [Holds, rollback, commit]

@[simp] theorem commit_committed {r : Rows κ ρ} {t : ℕ} {k : κ} :
    (r.commit t).committed k = r.seen t k := rfl

omit [DecidableEq κ] in
@[simp] theorem rollback_committed {r : Rows κ ρ} {t : ℕ} :
    (r.rollback t).committed = r.committed := rfl

theorem lastWrite_rollback {r : Rows κ ρ} {t t' : ℕ} {k : κ} (hne : t' ≠ t) :
    (r.rollback t).lastWrite t' k = r.lastWrite t' k := by
  simp only [lastWrite, rollback, List.find?_filter]
  congr 2
  funext w
  by_cases hw : w.tx = t'
  · simp [hw, hne]
  · simp [hw]

theorem lastWrite_rollback_self {r : Rows κ ρ} {t : ℕ} {k : κ} :
    (r.rollback t).lastWrite t k = none := by
  simp only [lastWrite, rollback, List.find?_filter, Option.map_eq_none_iff, List.find?_eq_none]
  intro w _
  by_cases hw : w.tx = t <;> simp [hw]

theorem lastWrite_rollback_eq_some {r : Rows κ ρ} {t t' : ℕ}
    {k : κ} {row : Option ρ} (h : (r.rollback t).lastWrite t' k = some row) :
    t' ≠ t ∧ r.lastWrite t' k = some row := by
  by_cases heq : t' = t
  · rw [heq, lastWrite_rollback_self] at h
    cases h
  · exact ⟨heq, (lastWrite_rollback heq).symm.trans h⟩

/-! ## § What one transaction's statements leave -/

/-- Statements of the transaction, none of them its end. -/
structure Extends (t : ℕ) (r r' : Rows κ ρ) : Prop where
  committed : r'.committed = r.committed
  holds : ∀ {t' k s}, r.Holds t' k s → r'.Holds t' k s
  others : ∀ {t' k s}, t' ≠ t → r'.Holds t' k s → r.Holds t' k s
  lastWrite : ∀ {t' k}, t' ≠ t → r'.lastWrite t' k = r.lastWrite t' k

/-- Anything the transaction does, its end included: the others keep their locks and
writes, and the rows they hold. -/
structure By (t : ℕ) (r r' : Rows κ ρ) : Prop where
  holds : ∀ {t' k s}, t' ≠ t → (r'.Holds t' k s ↔ r.Holds t' k s)
  lastWrite : ∀ {t' k}, t' ≠ t → r'.lastWrite t' k = r.lastWrite t' k
  committed : ∀ {t' k s}, t' ≠ t → r.Holds t' k s → r'.committed k = r.committed k

theorem Extends.refl (t : ℕ) (r : Rows κ ρ) : Extends t r r := ⟨rfl, id, fun _ => id, fun _ => rfl⟩

theorem Extends.trans {t : ℕ} {r r' r'' : Rows κ ρ} (h : Extends t r r') (h' : Extends t r' r'') :
    Extends t r r'' where
  committed := h'.committed.trans h.committed
  holds := fun hx => h'.holds (h.holds hx)
  others := fun hne hx => h.others hne (h'.others hne hx)
  lastWrite := fun hne => (h'.lastWrite hne).trans (h.lastWrite hne)

theorem Extends.by {t : ℕ} {r r' : Rows κ ρ} (h : Extends t r r') : By t r r' where
  holds := fun hne => ⟨h.others hne, h.holds⟩
  lastWrite := h.lastWrite
  committed := fun _ _ => congrFun h.committed _

theorem By.trans {t : ℕ} {r r' r'' : Rows κ ρ} (h : By t r r') (h' : By t r' r'') :
    By t r r'' where
  holds := fun hne => (h'.holds hne).trans (h.holds hne)
  lastWrite := fun hne => (h'.lastWrite hne).trans (h.lastWrite hne)
  committed := fun hne hx =>
    (h'.committed hne ((h.holds hne).mpr hx)).trans (h.committed hne hx)

theorem By.refl (t : ℕ) (r : Rows κ ρ) : By t r r := (Extends.refl t r).by

omit [DecidableEq κ] in
theorem holds_cons {r : Rows κ ρ} {x : Held κ} {t : ℕ} {k : κ} {s : Strength} :
    (⟨t, k, s⟩ ∈ (x :: r.held : List (Held κ))) ↔ ⟨t, k, s⟩ = x ∨ r.Holds t k s :=
  List.mem_cons

section ops

variable {r r' : Rows κ ρ} {t : ℕ} {k : κ} {s : Strength} {row : Option ρ}

theorem free_of_lock (h : r.lock t k s = some r') : r.Free t k s := by
  by_contra hfree
  simp [lock, hfree] at h

theorem free_of_write (h : r.write t k row = some r') : r.Free t k .exclusive := by
  by_contra hfree
  simp [write, hfree] at h

theorem extends_of_lock (h : r.lock t k s = some r') : Extends t r r' := by
  have hfree := free_of_lock h
  rw [lock, dif_pos hfree] at h
  cases h
  refine ⟨rfl, fun hx => List.mem_cons_of_mem _ hx, fun hne hx => ?_, fun _ => rfl⟩
  rcases holds_cons.mp hx with heq | hx
  · cases heq
    exact absurd rfl hne
  · exact hx

theorem holds_of_lock (h : r.lock t k s = some r') : r'.Holds t k s := by
  have hfree := free_of_lock h
  rw [lock, dif_pos hfree] at h
  cases h
  exact List.mem_cons_self ..

theorem lastWrite_of_lock (h : r.lock t k s = some r') {t' : ℕ} {k' : κ} :
    r'.lastWrite t' k' = r.lastWrite t' k' := by
  have hfree := free_of_lock h
  rw [lock, dif_pos hfree] at h
  cases h
  rfl

theorem lastWrite_of_write (h : r.write t k row = some r') {t' : ℕ} {k' : κ} :
    r'.lastWrite t' k' = if t' = t ∧ k' = k then some row else r.lastWrite t' k' := by
  have hfree := free_of_write h
  rw [write, dif_pos hfree] at h
  cases h
  simp only [lastWrite, List.find?_cons]
  by_cases hsame : t' = t ∧ k' = k
  · obtain ⟨rfl, rfl⟩ := hsame
    simp
  · have hno : ¬ (t = t' ∧ k = k') := fun h => hsame ⟨h.1.symm, h.2.symm⟩
    simp [hsame, hno]

theorem extends_of_write (h : r.write t k row = some r') : Extends t r r' := by
  have hlast := @lastWrite_of_write _ _ _ _ _ _ _ _ h
  have hfree := free_of_write h
  rw [write, dif_pos hfree] at h
  cases h
  refine ⟨rfl, fun hx => List.mem_cons_of_mem _ hx, fun hne hx => ?_, fun hne => ?_⟩
  · rcases holds_cons.mp hx with heq | hx
    · cases heq
      exact absurd rfl hne
    · exact hx
  · rw [hlast, if_neg fun h => hne h.1]

/-- The transaction only deletes rows. -/
structure Deletes (t : ℕ) (r r' : Rows κ ρ) : Prop extends Extends t r r' where
  own : ∀ k, r'.lastWrite t k = r.lastWrite t k ∨ r'.lastWrite t k = some none

theorem Deletes.refl (t : ℕ) (r : Rows κ ρ) : Deletes t r r :=
  ⟨Extends.refl t r, fun _ => Or.inl rfl⟩

theorem Deletes.trans {r'' : Rows κ ρ} (h : Deletes t r r') (h' : Deletes t r' r'') :
    Deletes t r r'' := by
  refine ⟨h.toExtends.trans h'.toExtends, fun k => ?_⟩
  rcases h'.own k with hk | hk
  · rw [hk]
    exact h.own k
  · exact Or.inr hk

theorem deletes_of_write (h : r.write t k none = some r') : Deletes t r r' := by
  refine ⟨extends_of_write h, fun k' => ?_⟩
  rw [lastWrite_of_write h]
  by_cases hk : k' = k
  · exact Or.inr (if_pos ⟨rfl, hk⟩)
  · exact Or.inl (if_neg fun h => hk h.2)

theorem Deletes.deleted (h : Deletes t r r') (hk : r.lastWrite t k = some none) :
    r'.lastWrite t k = some none := by
  rcases h.own k with hown | hown
  · exact hown.trans hk
  · exact hown

/-- What the transaction has written but not deleted, it wrote before. -/
theorem Deletes.written (h : Deletes t r r') {x : ρ} (hk : r'.lastWrite t k = some (some x)) :
    r.lastWrite t k = some (some x) := by
  rcases h.own k with hown | hown
  · exact hown.symm.trans hk
  · cases hown.symm.trans hk

theorem by_rollback (r : Rows κ ρ) (t : ℕ) : By t r (r.rollback t) where
  holds := fun hne => by simp [hne]
  lastWrite := lastWrite_rollback
  committed := fun _ _ => rfl

theorem by_commit (r : Rows κ ρ) (t : ℕ) : By t r (r.commit t) where
  holds := fun hne => by simp [hne]
  lastWrite := lastWrite_rollback
  committed := fun hne hx => seen_of_unwritten (lastWrite_eq_none_of_holds hx hne)

end ops

end Rows

end Foundation
