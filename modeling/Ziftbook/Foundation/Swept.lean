import Mathlib.Tactic

/-!
# Sweeping rows nobody sees any more

Rows fade: from some moment on, whoever reads a row does as if it were not there. A sweep
deletes rows that had faded by a horizon, at any moment and whichever it meets. Whoever
reads no earlier than the horizons of the sweeps so far is answered as if nothing had ever
been swept.
-/

namespace Foundation

variable {κ ρ ε ω : Type*} {faded : ℤ → ρ → Prop} {horizon later : ℤ}
  {swept full rows : κ → Option ρ}

/-- The first table is the second without some of the rows faded by the horizon. -/
def Thinned (faded : ℤ → ρ → Prop) (horizon : ℤ) (swept full : κ → Option ρ) : Prop :=
  ∀ k, swept k = full k ∨ swept k = none ∧ ∀ x ∈ full k, faded horizon x

namespace Thinned

theorem refl (rows : κ → Option ρ) : Thinned faded horizon rows rows := fun _ => .inl rfl

theorem mono (hfaded : ∀ n m x, n ≤ m → faded n x → faded m x)
    (h : Thinned faded horizon swept full) (hle : horizon ≤ later) :
    Thinned faded later swept full := fun k =>
  (h k).imp_right fun hk => ⟨hk.1, fun x hx => hfaded _ _ x hle (hk.2 x hx)⟩

/-- A row seen in the thinned table is the full table's. -/
theorem of_some (h : Thinned faded horizon swept full) {k : κ} {x : ρ} (hx : swept k = some x) :
    full k = some x := by
  rcases h k with hk | ⟨hk, -⟩
  · rw [← hk, hx]
  · rw [hk] at hx
    cases hx

/-- Rewritten row by row, with faded rows left to fade. -/
theorem map {f : κ → Option ρ → Option ρ} (h : Thinned faded horizon swept full)
    (hf : ∀ k x, full k = some x → swept k = none → faded horizon x →
      f k none = f k (some x) ∨ f k none = none ∧ ∀ y ∈ f k (some x), faded horizon y) :
    Thinned faded horizon (fun k => f k (swept k)) (fun k => f k (full k)) := by
  intro k
  beta_reduce
  rcases h k with hk | ⟨hk, hfaded⟩
  · exact .inl (by rw [hk])
  · cases hfull : full k with
    | none => exact .inl (by rw [hk])
    | some x =>
        rw [hk]
        exact hf k x hfull hk (hfaded x hfull)

/-- One row more gone. -/
theorem delete (h : Thinned faded horizon swept full) (p : κ → ρ → Prop)
    [∀ k x, Decidable (p k x)] (hp : ∀ k x, p k x → faded horizon x) :
    Thinned faded horizon (fun k => (swept k).filter fun x => ¬ p k x) full := by
  intro k
  beta_reduce
  cases hswept : swept k with
  | none =>
      rcases h k with hk | hk
      · exact .inl (by rw [← hk, hswept]; rfl)
      · exact .inr ⟨rfl, hk.2⟩
  | some x =>
      have hfull := h.of_some hswept
      by_cases hx : p k x
      · refine .inr ⟨by simp [hx], fun y hy => ?_⟩
        rw [hfull, Option.mem_some_iff] at hy
        exact hy ▸ hp k x hx
      · exact .inl (by simp [hx, hfull])

end Thinned

/-! ## § Runs -/

/-- What the readers and writers of the rows do, each at a moment. -/
structure Readers (κ ρ ε ω : Type*) where
  act : (κ → Option ρ) → ε → (κ → Option ρ) × ω
  now : ε → ℤ
  /-- What they rely on of the rows, such as that a key is not in use. -/
  fits : (κ → Option ρ) → ε → Prop

/-- A reader's act, or a sweep: rows that had faded by its horizon, those it meets. -/
inductive SweptEvent (κ ρ ε : Type*)
  | act (e : ε)
  | sweep (upTo : ℤ) (met : κ → ρ → Bool)

def SweptEvent.read? : SweptEvent κ ρ ε → Option ε
  | .act e => some e
  | .sweep _ _ => none

variable (R : Readers κ ρ ε ω) (faded) [∀ n x, Decidable (faded n x)]

/-- What the readers are answered. -/
def answers : (κ → Option ρ) → List (SweptEvent κ ρ ε) → List ω
  | _, [] => []
  | rows, .act e :: es => (R.act rows e).2 :: answers (R.act rows e).1 es
  | rows, .sweep upTo met :: es =>
      answers (fun k => (rows k).filter fun x => ¬ (met k x ∧ faded upTo x)) es

/-- With no sweeps. -/
def unswept : (κ → Option ρ) → List ε → List ω
  | _, [] => []
  | rows, e :: es => (R.act rows e).2 :: unswept (R.act rows e).1 es

/-- Nobody reads from before a horizon that a sweep has had. -/
def Prompt (a b : SweptEvent κ ρ ε) : Prop :=
  match a, b with
  | .sweep upTo _, .act e => upTo ≤ R.now e
  | _, _ => True

/-- The same, with the horizon so far. -/
def InTime : ℤ → List (SweptEvent κ ρ ε) → Prop
  | _, [] => True
  | horizon, .act e :: es => horizon ≤ R.now e ∧ InTime horizon es
  | horizon, .sweep upTo _ :: es => InTime (max horizon upTo) es

/-- What the readers rely on holds of the rows, with nothing swept. -/
def Fitting : (κ → Option ρ) → List ε → Prop
  | _, [] => True
  | rows, e :: es => R.fits rows e ∧ Fitting (R.act rows e).1 es

/-- Whoever reads at a moment is blind to rows that had faded by then, and leaves them so
for whoever reads from the horizon on. -/
def Readers.Blind : Prop :=
  ∀ {horizon swept full e}, Thinned faded horizon swept full → R.fits full e →
    horizon ≤ R.now e → (R.act swept e).2 = (R.act full e).2 ∧
      Thinned faded horizon (R.act swept e).1 (R.act full e).1

variable {R faded}

omit [∀ n x, Decidable (faded n x)] in
theorem inTime_of_prompt {es : List (SweptEvent κ ρ ε)} (hprompt : es.Pairwise (Prompt R)) :
    ∀ {horizon}, (∀ e, .act e ∈ es → horizon ≤ R.now e) → InTime R horizon es := by
  induction es with
  | nil => intros; trivial
  | cons a es ih =>
      intro horizon hle
      obtain ⟨hfirst, hrest⟩ := List.pairwise_cons.mp hprompt
      cases a with
      | act e =>
          exact ⟨hle e (List.mem_cons_self ..), ih hrest fun e' he' =>
            hle e' (List.mem_cons_of_mem _ he')⟩
      | sweep upTo met =>
          exact ih hrest fun e' he' =>
            max_le (hle e' (List.mem_cons_of_mem _ he')) (hfirst _ he')

omit [∀ n x, Decidable (faded n x)] in
theorem exists_le_now (es : List (SweptEvent κ ρ ε)) :
    ∃ horizon, ∀ e, SweptEvent.act e ∈ es → horizon ≤ R.now e := by
  induction es with
  | nil => exact ⟨0, fun e he => by cases he⟩
  | cons a es ih =>
      obtain ⟨horizon, hle⟩ := ih
      cases a with
      | act e =>
          refine ⟨min horizon (R.now e), fun e' he' => ?_⟩
          rcases List.mem_cons.mp he' with heq | he'
          · cases heq
            exact min_le_right _ _
          · exact (min_le_left _ _).trans (hle e' he')
      | sweep upTo met =>
          refine ⟨horizon, fun e' he' => ?_⟩
          rcases List.mem_cons.mp he' with heq | he'
          · cases heq
          · exact hle e' he'

theorem answers_eq_unswept_of_inTime (hfaded : ∀ n m x, n ≤ m → faded n x → faded m x)
    (hblind : R.Blind faded) {es : List (SweptEvent κ ρ ε)} :
    ∀ {horizon swept full}, Thinned faded horizon swept full → InTime R horizon es →
      Fitting R full (es.filterMap SweptEvent.read?) →
      answers faded R swept es = unswept R full (es.filterMap SweptEvent.read?) := by
  induction es with
  | nil => intros; rfl
  | cons e es ih =>
      intro horizon swept full h hin hfits
      cases e with
      | act e =>
          obtain ⟨hnow, hin⟩ := hin
          obtain ⟨hfit, hfits⟩ := hfits
          obtain ⟨hanswer, hrows⟩ := hblind h hfit hnow
          simp only [answers, List.filterMap_cons, SweptEvent.read?, unswept]
          rw [hanswer]
          exact congrArg _ (ih hrows hin hfits)
      | sweep upTo met =>
          refine ih (Thinned.delete (h.mono hfaded (le_max_left horizon upTo)) _ ?_) hin hfits
          exact fun k x hx => hfaded _ _ x (le_max_right horizon upTo) hx.2

/-- **Sweeps are never noticed**, by whoever is not late. -/
theorem answers_eq_unswept (hfaded : ∀ n m x, n ≤ m → faded n x → faded m x)
    (hblind : R.Blind faded) {es : List (SweptEvent κ ρ ε)} (hprompt : es.Pairwise (Prompt R))
    (hfits : Fitting R rows (es.filterMap SweptEvent.read?)) :
    answers faded R rows es = unswept R rows (es.filterMap SweptEvent.read?) := by
  obtain ⟨horizon, hle⟩ := exists_le_now es
  have hrefl : Thinned faded horizon rows rows := Thinned.refl rows
  exact answers_eq_unswept_of_inTime hfaded hblind hrefl (inTime_of_prompt hprompt hle) hfits

end Foundation
