import Mathlib.Tactic

/-!
# Logs that are replayed

An append-only log of entries, each about one key. What the log says of a key is
the replay of its entries, in order, from the state the key began in.
-/

namespace Foundation.Journal

variable {ε κ σ : Type*}

/-- The state after the entries. -/
def replay (act : σ → ε → σ) (s : σ) (log : List ε) : σ := log.foldl act s

/-- An entry that changes no state. -/
def Idle (act : σ → ε → σ) (e : ε) : Prop := ∀ s, act s e = s

theorem replay_append {act : σ → ε → σ} {s : σ} {log new : List ε} :
    replay act s (log ++ new) = replay act (replay act s log) new := by
  simp [replay]

theorem replay_of_idle {act : σ → ε → σ} {log : List ε} :
    ∀ {s : σ}, (∀ e ∈ log, Idle act e) → replay act s log = s := by
  induction log with
  | nil => intro s _; rfl
  | cons e log ih =>
      intro s h
      rw [replay, List.foldl_cons, h e (List.mem_cons_self ..)]
      exact ih fun e' he' => h e' (List.mem_cons_of_mem _ he')

section About

variable [DecidableEq κ] {key : ε → κ} {k : κ}

/-- The entries about one key. -/
def about (key : ε → κ) (k : κ) (log : List ε) : List ε := log.filter fun e => key e = k

theorem mem_about {log : List ε} {e : ε} : e ∈ about key k log ↔ e ∈ log ∧ key e = k := by
  simp [about]

theorem about_append {log new : List ε} :
    about key k (log ++ new) = about key k log ++ about key k new := by
  simp [about]

theorem about_eq_nil {log : List ε} (h : ∀ e ∈ log, key e ≠ k) : about key k log = [] := by
  rw [List.eq_nil_iff_forall_not_mem]
  intro e he
  exact h e (mem_about.mp he).1 (mem_about.mp he).2

theorem about_singleton {e : ε} (h : key e = k) : about key k [e] = [e] := by
  simp [about, h]

/-- Of entries made one for each row, those about one row's key are its own. -/
theorem about_map {α : Type*} {rows : List α} {entry : α → ε} {x : α} (hx : x ∈ rows)
    (hnodup : (rows.map fun y => key (entry y)).Nodup) :
    about key (key (entry x)) (rows.map entry) = [entry x] := by
  induction rows with
  | nil => cases hx
  | cons y rows ih =>
      rw [List.map_cons, List.nodup_cons] at hnodup
      rw [List.map_cons, ← List.singleton_append, about_append]
      by_cases hxy : key (entry y) = key (entry x)
      · -- the row is the head: the tail has no entry about it
        have hrest : about key (key (entry x)) (rows.map entry) = [] := by
          refine about_eq_nil fun e he hkey => hnodup.1 ?_
          obtain ⟨z, hz, rfl⟩ := List.mem_map.mp he
          rw [hxy, ← hkey]
          exact List.mem_map_of_mem hz
        rw [hrest, List.append_nil]
        rcases List.mem_cons.mp hx with rfl | hx
        · exact about_singleton rfl
        · refine absurd ?_ hnodup.1
          rw [hxy]
          exact List.mem_map_of_mem hx
      · have hhead : about key (key (entry x)) [entry y] = [] :=
          about_eq_nil fun e he => by rwa [List.mem_singleton.mp he]
        rw [hhead, List.nil_append]
        refine ih ?_ hnodup.2
        exact (List.mem_cons.mp hx).resolve_left fun h => hxy (by rw [h])

end About

end Foundation.Journal
