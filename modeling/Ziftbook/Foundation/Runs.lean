import Mathlib.Tactic

/-!
# Runs of a labelled step function

A system is a partial step function: `step s e` is the state after the label
`e`, or nothing when `e` is not possible in `s`. A run executes a list of
labels. Conditions on the steps of a run are stated along it, so an invariant
is proved from one step lemma.
-/

namespace Foundation.Runs

variable {σ τ ε δ : Type*}

/-- The state after the labels, when each is possible in its turn. -/
def run (step : σ → ε → Option σ) : σ → List ε → Option σ
  | s, [] => some s
  | s, e :: es => (step s e).bind fun s' => run step s' es

/-- `ok` holds of every step of the run from `s`. -/
def Along (step : σ → ε → Option σ) (ok : σ → ε → Prop) : σ → List ε → Prop
  | _, [] => True
  | s, e :: es => ok s e ∧ ∀ s', step s e = some s' → Along step ok s' es

def decideAlong (step : σ → ε → Option σ) (ok : σ → ε → Prop) [∀ s e, Decidable (ok s e)] :
    (s : σ) → (es : List ε) → Decidable (Along step ok s es)
  | _, [] => .isTrue trivial
  | s, e :: es =>
      match h : step s e with
      | none => decidable_of_iff (ok s e) (by simp [Along, h])
      | some s' =>
          have := decideAlong step ok s' es
          decidable_of_iff (ok s e ∧ Along step ok s' es) (by simp [Along, h])

instance (step : σ → ε → Option σ) (ok : σ → ε → Prop) [∀ s e, Decidable (ok s e)] (s : σ)
    (es : List ε) : Decidable (Along step ok s es) :=
  decideAlong step ok s es

theorem Along.mono {step : σ → ε → Option σ} {ok ok' : σ → ε → Prop}
    (himp : ∀ s e, ok s e → ok' s e) {es : List ε} :
    ∀ {s : σ}, Along step ok s es → Along step ok' s es := by
  induction es with
  | nil => intro s _; trivial
  | cons e es ih => intro s h; exact ⟨himp s e h.1, fun s' hs' => ih (h.2 s' hs')⟩

theorem Along.and {step : σ → ε → Option σ} {ok ok' : σ → ε → Prop} {es : List ε} :
    ∀ {s : σ}, Along step ok s es → Along step ok' s es →
      Along step (fun s e => ok s e ∧ ok' s e) s es := by
  induction es with
  | nil => intro s _ _; trivial
  | cons e es ih =>
      intro s h h'
      exact ⟨⟨h.1, h'.1⟩, fun s' hs' => ih (h.2 s' hs') (h'.2 s' hs')⟩

theorem along_of_forall {step : σ → ε → Option σ} {p : ε → Prop} {es : List ε}
    (h : ∀ e ∈ es, p e) : ∀ s : σ, Along step (fun _ e => p e) s es := by
  induction es with
  | nil => intro s; trivial
  | cons e es ih =>
      intro s
      exact ⟨h e (List.mem_cons_self ..), fun s' _ =>
        ih (fun e he => h e (List.mem_cons_of_mem _ he)) s'⟩

@[simp] theorem run_nil (step : σ → ε → Option σ) (s : σ) : run step s [] = some s := rfl

theorem run_cons_eq_some {step : σ → ε → Option σ} {s t : σ} {e : ε} {es : List ε} :
    run step s (e :: es) = some t ↔ ∃ s', step s e = some s' ∧ run step s' es = some t := by
  simp [run, Option.bind_eq_some_iff]

theorem run_append {step : σ → ε → Option σ} {s : σ} {es fs : List ε} :
    run step s (es ++ fs) = (run step s es).bind fun s' => run step s' fs := by
  induction es generalizing s with
  | nil => simp
  | cons e es ih =>
      cases h : step s e with
      | none => simp [run, h]
      | some s' => simp [run, h, ih]

/-- **Invariant rule.** What every step meeting `ok` preserves, every run of
such steps preserves. -/
theorem run_invariant {step : σ → ε → Option σ} {ok : σ → ε → Prop} {I : σ → Prop}
    (hstep : ∀ s e s', I s → ok s e → step s e = some s' → I s')
    {es : List ε} : ∀ {s t : σ}, I s → Along step ok s es → run step s es = some t → I t := by
  induction es with
  | nil =>
      intro s t hs _ hrun
      rw [run_nil, Option.some.injEq] at hrun
      exact hrun ▸ hs
  | cons e es ih =>
      intro s t hs hok hrun
      obtain ⟨s', hs', hrun⟩ := run_cons_eq_some.mp hrun
      exact ih (hstep s e s' hs hok.1 hs') (hok.2 s' hs') hrun

theorem along_true {step : σ → ε → Option σ} (s : σ) (es : List ε) :
    Along step (fun _ _ => True) s es := by
  induction es generalizing s with
  | nil => trivial
  | cons e es ih => exact ⟨trivial, fun s' _ => ih s'⟩

/-- The invariant rule when nothing is asked of the steps. -/
theorem run_invariant' {step : σ → ε → Option σ} {I : σ → Prop}
    (hstep : ∀ s e s', I s → step s e = some s' → I s')
    {es : List ε} {s t : σ} (hs : I s) (hrun : run step s es = some t) : I t :=
  run_invariant (fun s e s' h _ => hstep s e s' h) hs (along_true s es) hrun

/-- **Simulation rule.** When each step of the first system is a run of the
second, each run of the first is one of the second. -/
theorem run_simulates {step : σ → ε → Option σ} {step' : τ → δ → Option τ}
    {ok : σ → ε → Prop} {R : σ → τ → Prop}
    (hstep : ∀ s a e s', R s a → ok s e → step s e = some s' →
      ∃ ds a', run step' a ds = some a' ∧ R s' a')
    {es : List ε} : ∀ {s t : σ} {a : τ}, R s a → Along step ok s es →
      run step s es = some t → ∃ ds b, run step' a ds = some b ∧ R t b := by
  induction es with
  | nil =>
      intro s t a hs _ hrun
      rw [run_nil, Option.some.injEq] at hrun
      exact ⟨[], a, rfl, hrun ▸ hs⟩
  | cons e es ih =>
      intro s t a hs hok hrun
      obtain ⟨s', hs', hrun⟩ := run_cons_eq_some.mp hrun
      obtain ⟨ds, a', ha', hR⟩ := hstep s a e s' hs hok.1 hs'
      obtain ⟨ds', b, hb, hR'⟩ := ih hR (hok.2 s' hs') hrun
      exact ⟨ds ++ ds', b, by rw [run_append, ha']; exact hb, hR'⟩

/-! ## § Watched runs -/

/-- What an observer keeps of a run; `see` is told each step, with the states before
and after it. -/
def watch {γ : Type*} (step : σ → ε → Option σ) (see : γ → σ → ε → σ → γ) : γ → σ → List ε → γ
  | g, _, [] => g
  | g, s, e :: es =>
      match step s e with
      | some s' => watch step see (see g s e s') s' es
      | none => g

/-- The invariant rule for a run and what an observer keeps of it. -/
theorem watch_invariant {γ : Type*} {step : σ → ε → Option σ} {see : γ → σ → ε → σ → γ}
    {I : γ → σ → Prop}
    (hstep : ∀ g s e s', I g s → step s e = some s' → I (see g s e s') s') {es : List ε} :
    ∀ {g : γ} {s t : σ}, I g s → run step s es = some t → I (watch step see g s es) t := by
  induction es with
  | nil =>
      intro g s t hs hrun
      rw [run_nil, Option.some.injEq] at hrun
      exact hrun ▸ hs
  | cons e es ih =>
      intro g s t hs hrun
      obtain ⟨s', hs', hrun⟩ := run_cons_eq_some.mp hrun
      rw [watch, hs']
      exact ih (hstep g s e s' hs hs') hrun

end Foundation.Runs
