import Ziftbook.Foundation.Rows

/-!
# Two-phase transactions are serial

A transaction reads a row only once it has locked it, and keeps the lock to its end. What
it does is then a list of effects, each on one row: what it writes and what it answers,
from the row it sees. While it runs, what it sees is those effects carried out on what is
committed; so its commit carries all of them out at once.

Nothing here asks that the locks are taken in an order, only that they are held.
-/

namespace Foundation

/-- What a statement makes of one row, and what it answers. -/
structure Effect (κ ρ ω : Type*) where
  key : κ
  act : Option ρ → Option ρ × List ω

variable {κ ρ ω : Type*} [DecidableEq κ]

/-- The rows after an effect, with the answers so far. -/
def Effect.apply (x : (κ → Option ρ) × List ω) (e : Effect κ ρ ω) : (κ → Option ρ) × List ω :=
  (Function.update x.1 e.key (e.act (x.1 e.key)).1, x.2 ++ (e.act (x.1 e.key)).2)

/-- The effects one after another, with nothing between them. -/
def serial (es : List (Effect κ ρ ω)) (rows : κ → Option ρ) : (κ → Option ρ) × List ω :=
  es.foldl Effect.apply (rows, [])

variable {es : List (Effect κ ρ ω)} {e : Effect κ ρ ω} {rows rows' : κ → Option ρ}

@[simp] theorem serial_nil : serial ([] : List (Effect κ ρ ω)) rows = (rows, []) := rfl

theorem serial_concat : serial (es ++ [e]) rows = Effect.apply (serial es rows) e := by
  rw [serial, List.foldl_append]
  rfl

theorem serial_concat_rows : (serial (es ++ [e]) rows).1 =
    Function.update (serial es rows).1 e.key (e.act ((serial es rows).1 e.key)).1 := by
  rw [serial_concat, Effect.apply]

theorem serial_concat_answers : (serial (es ++ [e]) rows).2 =
    (serial es rows).2 ++ (e.act ((serial es rows).1 e.key)).2 := by
  rw [serial_concat, Effect.apply]

theorem serial_append {fs : List (Effect κ ρ ω)} : serial (es ++ fs) rows =
    ((serial fs (serial es rows).1).1, (serial es rows).2 ++ (serial fs (serial es rows).1).2) := by
  induction fs using List.reverseRecOn with
  | nil => simp
  | append_singleton fs f ih =>
      rw [← List.append_assoc, serial_concat, ih, serial_concat]
      simp [Effect.apply]

/-- A row no effect is on stays. -/
theorem serial_rows_of_not_mem {k : κ} (h : ∀ e ∈ es, e.key ≠ k) :
    (serial es rows).1 k = rows k := by
  induction es using List.reverseRecOn with
  | nil => rfl
  | append_singleton es e ih =>
      rw [serial_concat_rows, Function.update_of_ne]
      · exact ih fun e' he' => h e' (List.mem_append_left _ he')
      · exact (h e (List.mem_append_right _ (List.mem_singleton_self e))).symm

/-- The effects look at no row but theirs. -/
theorem serial_congr (h : ∀ e ∈ es, rows e.key = rows' e.key) :
    (∀ k, rows k = rows' k → (serial es rows).1 k = (serial es rows').1 k) ∧
      (serial es rows).2 = (serial es rows').2 := by
  induction es using List.reverseRecOn with
  | nil => exact ⟨fun _ hk => hk, rfl⟩
  | append_singleton es e ih =>
      obtain ⟨hrows, hanswers⟩ := ih fun e' he' => h e' (List.mem_append_left _ he')
      have hsame : (serial es rows).1 e.key = (serial es rows').1 e.key :=
        hrows e.key (h e (List.mem_append_right _ (List.mem_singleton_self e)))
      simp only [serial_concat_rows, serial_concat_answers]
      refine ⟨fun k hk => ?_, by rw [hanswers, hsame]⟩
      by_cases hkey : k = e.key
      · rw [hkey, Function.update_self, Function.update_self, hsame]
      · rw [Function.update_of_ne hkey, Function.update_of_ne hkey]
        exact hrows k hk

/-- The transaction has done the effects, and answered as they do: it holds their rows and
has written no other. -/
structure Follows (r : Rows κ ρ) (t : ℕ) (es : List (Effect κ ρ ω)) (answers : List ω) :
    Prop where
  held : ∀ e ∈ es, r.Holds t e.key .exclusive
  written : ∀ k row, r.lastWrite t k = some row → ∃ e ∈ es, e.key = k
  seen : ∀ k, r.seen t k = (serial es r.committed).1 k
  answers : answers = (serial es r.committed).2

namespace Follows

variable {r r' : Rows κ ρ} {t u : ℕ} {answers : List ω}

theorem start (h : ∀ k, r.lastWrite t k = none) :
    Follows r t ([] : List (Effect κ ρ ω)) [] where
  held := fun _ he => by cases he
  written := fun k row hrow => by rw [h k] at hrow; cases hrow
  seen := fun k => Rows.seen_of_unwritten (h k)
  answers := rfl

/-- A lock changes nothing the transaction sees. -/
theorem lock (h : Follows r t es answers) {k : κ} {s : Strength} (hlock : r.lock t k s = some r') :
    Follows r' t es answers := by
  have hext := Rows.extends_of_lock hlock
  have hlast : ∀ k', r'.lastWrite t k' = r.lastWrite t k' := fun k' => Rows.lastWrite_of_lock hlock
  refine ⟨fun e he => hext.holds (h.held e he), fun k' row hrow => ?_, fun k' => ?_, ?_⟩
  · exact h.written k' row (by rwa [hlast] at hrow)
  · rw [Rows.seen, hlast, hext.committed]
    exact h.seen k'
  · rw [hext.committed]
    exact h.answers

/-- A row written from what the transaction saw of it is one effect more. -/
theorem write (h : Follows r t es answers)
    (hwrite : r.write t e.key (e.act (r.seen t e.key)).1 = some r') :
    Follows r' t (es ++ [e]) (answers ++ (e.act (r.seen t e.key)).2) := by
  have hext := Rows.extends_of_write hwrite
  have hlast : ∀ k, r'.lastWrite t k = if k = e.key then some (e.act (r.seen t e.key)).1
      else r.lastWrite t k := by
    intro k
    rw [Rows.lastWrite_of_write hwrite]
    simp
  refine ⟨fun e' he' => ?_, fun k row hrow => ?_, fun k => ?_, ?_⟩
  · rcases List.mem_append.mp he' with he' | he'
    · exact hext.holds (h.held e' he')
    · rw [List.mem_singleton.mp he']
      exact Rows.holds_of_lastWrite ((hlast e.key).trans (if_pos rfl))
  · rw [hlast] at hrow
    split_ifs at hrow with hk
    · exact ⟨e, List.mem_append_right _ (List.mem_singleton_self e), hk.symm⟩
    · obtain ⟨e', he', hkey⟩ := h.written k row hrow
      exact ⟨e', List.mem_append_left _ he', hkey⟩
  · rw [hext.committed, serial_concat_rows, ← h.seen e.key]
    by_cases hk : k = e.key
    · subst hk
      rw [Function.update_self]
      exact Rows.seen_of_lastWrite ((hlast _).trans (if_pos rfl))
    · rw [Function.update_of_ne hk, Rows.seen, hlast, if_neg hk, hext.committed]
      exact h.seen k
  · rw [hext.committed, serial_concat_answers, ← h.seen e.key, h.answers]

/-- Whatever another transaction does, its end included. -/
theorem by_other (h : Follows r t es answers) (hby : Rows.By u r r') (hne : t ≠ u) :
    Follows r' t es answers := by
  have hlast : ∀ k, r'.lastWrite t k = r.lastWrite t k := fun k => hby.lastWrite hne
  have hkeys : ∀ e ∈ es, r'.committed e.key = r.committed e.key :=
    fun e he => hby.committed hne (h.held e he)
  obtain ⟨hrows, hanswers⟩ := serial_congr hkeys
  refine ⟨fun e he => (hby.holds hne).mpr (h.held e he), fun k row hrow => ?_, fun k => ?_, ?_⟩
  · exact h.written k row (by rwa [hlast] at hrow)
  · by_cases hk : ∃ e ∈ es, e.key = k
    · obtain ⟨e, he, rfl⟩ := hk
      rw [hrows _ (hkeys e he), ← h.seen, Rows.seen, Rows.seen, hlast, hkeys e he]
    · -- a row the transaction is not on is as it is committed
      push Not at hk
      have hnone : r.lastWrite t k = none := by
        by_contra hsome
        obtain ⟨row, hrow⟩ := Option.ne_none_iff_exists'.mp hsome
        obtain ⟨e, he, hkey⟩ := h.written k row hrow
        exact hk e he hkey
      rw [serial_rows_of_not_mem hk, Rows.seen_of_unwritten ((hlast k).trans hnone)]
  · rw [hanswers]
    exact h.answers

/-- **A commit is the transaction, all at once.** -/
theorem commit (h : Follows r t es answers) :
    ((r.commit t).committed, answers) = serial es r.committed :=
  Prod.ext (funext fun k => h.seen k) h.answers

end Follows

end Foundation
