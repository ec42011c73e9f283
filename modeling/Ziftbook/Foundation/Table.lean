import Mathlib.Tactic

/-!
# Tables with a primary key

Rows in insertion order, no two with one key. A statement inserts one row with
a key not yet used, rewrites the rows it selects without changing their keys,
or deletes the rows it selects.
-/

namespace Foundation

variable {α κ : Type*} {key : α → κ}

structure Table (α κ : Type*) (key : α → κ) where
  rows : List α
  keyed : (rows.map key).Nodup

namespace Table

def empty : Table α κ key := ⟨[], by simp⟩

instance : Inhabited (Table α κ key) := ⟨empty⟩

/-- Two rows of a table with one key are one row. -/
theorem eq_of_key (t : Table α κ key) {x y : α} (hx : x ∈ t.rows) (hy : y ∈ t.rows)
    (h : key x = key y) : x = y :=
  List.inj_on_of_nodup_map t.keyed hx hy h

section Find

variable [DecidableEq κ]

def find (t : Table α κ key) (k : κ) : Option α := t.rows.find? fun x => key x = k

theorem find_eq_some {t : Table α κ key} {k : κ} {x : α} :
    t.find k = some x ↔ x ∈ t.rows ∧ key x = k := by
  constructor
  · intro h
    exact ⟨List.mem_of_find?_eq_some h, by simpa using List.find?_some h⟩
  · rintro ⟨hx, rfl⟩
    cases hfind : t.find (key x) with
    | none => simpa using List.find?_eq_none.mp hfind x hx
    | some y =>
        have hy : key y = key x := by simpa using List.find?_some hfind
        rw [t.eq_of_key (List.mem_of_find?_eq_some hfind) hx hy]

theorem find_eq_none {t : Table α κ key} {k : κ} :
    t.find k = none ↔ ∀ x ∈ t.rows, key x ≠ k := by
  simp [find]

/-- A row with a key not yet used. -/
def add (t : Table α κ key) (x : α) (h : ∀ y ∈ t.rows, key y ≠ key x) : Table α κ key where
  rows := t.rows ++ [x]
  keyed := by
    rw [List.map_append, List.nodup_append]
    refine ⟨t.keyed, by simp, ?_⟩
    intro a ha b hb hab
    rw [List.map_singleton, List.mem_singleton] at hb
    obtain ⟨y, hy, rfl⟩ := List.mem_map.mp ha
    exact h y hy (hab.trans hb)

/-- Insert a row, unless its key is taken. -/
def insert (t : Table α κ key) (x : α) : Option (Table α κ key) :=
  if h : key x ∈ t.rows.map key then none
  else some ⟨t.rows ++ [x], by
    rw [List.map_append, List.nodup_append]
    refine ⟨t.keyed, by simp, ?_⟩
    intro a ha b hb hab
    rw [List.map_singleton, List.mem_singleton] at hb
    exact h (by rwa [hab, hb] at ha)⟩

theorem insert_eq_some {t t' : Table α κ key} {x : α} (h : t.insert x = some t') :
    (∀ y ∈ t.rows, key y ≠ key x) ∧ t'.rows = t.rows ++ [x] := by
  unfold insert at h
  split at h
  · cases h
  · rename_i hfresh
    cases h
    refine ⟨?_, rfl⟩
    intro y hy hkey
    exact hfresh (List.mem_map.mpr ⟨y, hy, hkey⟩)

end Find

/-- Rewrite the selected rows. -/
def update (t : Table α κ key) (p : α → Prop) [DecidablePred p] (f : α → α)
    (hf : ∀ x, key (f x) = key x) : Table α κ key where
  rows := t.rows.map fun x => if p x then f x else x
  keyed := by
    have : t.rows.map (key ∘ fun x => if p x then f x else x) = t.rows.map key := by
      refine List.map_congr_left fun x _ => ?_
      simp only [Function.comp_apply]
      split
      · exact hf x
      · rfl
    rw [List.map_map, this]
    exact t.keyed

theorem mem_update {t : Table α κ key} {p : α → Prop} [DecidablePred p] {f : α → α}
    {hf : ∀ x, key (f x) = key x} {y : α} :
    y ∈ (t.update p f hf).rows ↔
      (∃ x ∈ t.rows, p x ∧ f x = y) ∨ (y ∈ t.rows ∧ ¬ p y) := by
  simp only [update, List.mem_map]
  constructor
  · rintro ⟨x, hx, hy⟩
    by_cases hp : p x
    · rw [if_pos hp] at hy
      exact Or.inl ⟨x, hx, hp, hy⟩
    · rw [if_neg hp] at hy
      exact Or.inr (hy ▸ ⟨hx, hp⟩)
  · rintro (⟨x, hx, hp, hy⟩ | ⟨hy, hp⟩)
    · exact ⟨x, hx, by rw [if_pos hp, hy]⟩
    · exact ⟨y, hy, if_neg hp⟩

/-- Each row after an update comes from the row with its key. -/
theorem mem_of_mem_update {t : Table α κ key} {p : α → Prop} [DecidablePred p]
    {f : α → α} {hf : ∀ x, key (f x) = key x} {y : α}
    (h : y ∈ (t.update p f hf).rows) :
    ∃ x ∈ t.rows, key x = key y ∧ (y = x ∨ p x ∧ y = f x) := by
  rcases mem_update.mp h with ⟨x, hx, hp, rfl⟩ | ⟨hy, _⟩
  · exact ⟨x, hx, (hf x).symm, Or.inr ⟨hp, rfl⟩⟩
  · exact ⟨y, hy, rfl, Or.inl rfl⟩

/-- Delete the selected rows. -/
def delete (t : Table α κ key) (p : α → Prop) [DecidablePred p] : Table α κ key where
  rows := t.rows.filter fun x => ¬ p x
  keyed := t.keyed.sublist (List.filter_sublist.map key)

theorem mem_delete {t : Table α κ key} {p : α → Prop} [DecidablePred p] {x : α} :
    x ∈ (t.delete p).rows ↔ x ∈ t.rows ∧ ¬ p x := by
  simp [delete]

end Table

end Foundation
