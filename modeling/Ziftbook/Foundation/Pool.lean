import Ziftbook.Foundation.Runs

/-!
# Threads over a shared state

Threads interleave on a shared state. A thread is the list of its tasks still to
run; executing its first task changes the shared state in one atomic step and
puts further tasks before the rest, or ends the thread. A thread may start, or
die, at any moment, and the world around the threads takes steps of its own.

A property of the shared state and one of every task left to run are shown
together to hold in every state a run reaches, from one condition a step kind.
-/

namespace Foundation

structure Pool (σ τ : Type*) where
  shared : σ
  threads : List (List τ)

variable {σ τ ε β α : Type*}

/-- What the threads run. `next` of an executed task is `none` when it ends its
thread. -/
structure Program (σ τ ε β α : Type*) where
  world : σ → List τ → ε → Option σ
  start : σ → β → Option (σ × List τ)
  exec : σ → τ → α → Option (σ × Option (List τ))

inductive Move (ε β α : Type*)
  | world (e : ε)
  | start (b : β)
  | go (i : ℕ) (a : α)
  | die (i : ℕ)

namespace Pool

def empty (s : σ) : Pool σ τ := ⟨s, []⟩

/-- The tasks some thread still has to run. -/
def tasks (p : Pool σ τ) : List τ := p.threads.flatten

/-- What is left of a thread once its first task has run. -/
def remaining (next : Option (List τ)) (rest : List τ) : List τ :=
  match next with
  | some ts => ts ++ rest
  | none => []

def step (P : Program σ τ ε β α) (p : Pool σ τ) : Move ε β α → Option (Pool σ τ)
  | .world e => (P.world p.shared p.tasks e).map fun s => ⟨s, p.threads⟩
  | .start b => (P.start p.shared b).map fun r => ⟨r.1, p.threads ++ [r.2]⟩
  | .go i a =>
      match p.threads[i]? with
      | some (t :: rest) => (P.exec p.shared t a).map fun r =>
          ⟨r.1, p.threads.set i (remaining r.2 rest)⟩
      | _ => none
  | .die i => some ⟨p.shared, p.threads.set i []⟩

/-- What one step did. -/
inductive Stepped (P : Program σ τ ε β α) (p p' : Pool σ τ) : Move ε β α → Prop
  | world (e : ε) : P.world p.shared p.tasks e = some p'.shared → p'.threads = p.threads →
      Stepped P p p' (.world e)
  | start (b : β) (ts : List τ) : P.start p.shared b = some (p'.shared, ts) →
      p'.threads = p.threads ++ [ts] → Stepped P p p' (.start b)
  | go (i : ℕ) (a : α) (t : τ) (rest : List τ) (next : Option (List τ)) :
      p.threads[i]? = some (t :: rest) → P.exec p.shared t a = some (p'.shared, next) →
      p'.threads = p.threads.set i (remaining next rest) → Stepped P p p' (.go i a)
  | die (i : ℕ) : p'.shared = p.shared → p'.threads = p.threads.set i [] →
      Stepped P p p' (.die i)

theorem stepped {P : Program σ τ ε β α} {p p' : Pool σ τ} {m : Move ε β α}
    (h : step P p m = some p') : Stepped P p p' m := by
  cases m with
  | world e =>
      obtain ⟨s, hs, rfl⟩ := Option.map_eq_some_iff.mp h
      exact .world e hs rfl
  | start b =>
      obtain ⟨r, hr, rfl⟩ := Option.map_eq_some_iff.mp h
      exact .start b r.2 hr rfl
  | go i a =>
      simp only [step] at h
      split at h
      · rename_i t rest hthread
        obtain ⟨r, hr, rfl⟩ := Option.map_eq_some_iff.mp h
        exact .go i a t rest r.2 hthread hr rfl
      · cases h
  | die i =>
      cases h
      exact .die i rfl rfl

/-! ## § Which tasks are left -/

theorem mem_tasks {p : Pool σ τ} {t : τ} : t ∈ p.tasks ↔ ∃ th ∈ p.threads, t ∈ th :=
  List.mem_flatten

theorem mem_tasks_of_getElem {p : Pool σ τ} {i : ℕ} {th : List τ} {t : τ}
    (h : p.threads[i]? = some th) (ht : t ∈ th) : t ∈ p.tasks :=
  mem_tasks.mpr ⟨th, List.mem_of_getElem? h, ht⟩

/-- After a task has run, a task left is one of before or one it put there. -/
theorem mem_tasks_of_set {p p' : Pool σ τ} {i : ℕ} {t : τ} {rest : List τ}
    {next : Option (List τ)} (hthread : p.threads[i]? = some (t :: rest))
    (h : p'.threads = p.threads.set i (remaining next rest)) {u : τ} (hu : u ∈ p'.tasks) :
    u ∈ p.tasks ∨ ∃ ts, next = some ts ∧ u ∈ ts := by
  obtain ⟨th, hth, huth⟩ := mem_tasks.mp hu
  rw [h] at hth
  rcases List.mem_or_eq_of_mem_set hth with hold | rfl
  · exact Or.inl (mem_tasks.mpr ⟨th, hold, huth⟩)
  · cases next with
    | none => cases huth
    | some ts =>
        rcases List.mem_append.mp huth with hnew | hrest
        · exact Or.inr ⟨ts, rfl, hnew⟩
        · exact Or.inl (mem_tasks_of_getElem hthread (List.mem_cons_of_mem _ hrest))

theorem mem_tasks_die {p p' : Pool σ τ} {i : ℕ} (h : p'.threads = p.threads.set i []) {u : τ}
    (hu : u ∈ p'.tasks) : u ∈ p.tasks := by
  obtain ⟨th, hth, huth⟩ := mem_tasks.mp hu
  rw [h] at hth
  rcases List.mem_or_eq_of_mem_set hth with hold | rfl
  · exact mem_tasks.mpr ⟨th, hold, huth⟩
  · cases huth

/-! ## § The task at a thread's head -/

/-- The task the thread runs next. -/
def head (p : Pool σ τ) (i : ℕ) : Option τ := p.threads[i]?.bind List.head?

theorem head_eq_some {p : Pool σ τ} {i : ℕ} {t : τ} :
    p.head i = some t ↔ ∃ rest, p.threads[i]? = some (t :: rest) := by
  unfold head
  cases hthread : p.threads[i]? with
  | none => simp
  | some th => cases th <;> simp [eq_comm]

theorem mem_tasks_of_head {p : Pool σ τ} {i : ℕ} {t : τ} (h : p.head i = some t) :
    t ∈ p.tasks := by
  obtain ⟨rest, hthread⟩ := head_eq_some.mp h
  exact mem_tasks_of_getElem hthread (List.mem_cons_self ..)

theorem head_set_of_ne {p p' : Pool σ τ} {i j : ℕ} {th : List τ} (hij : j ≠ i)
    (h : p'.threads = p.threads.set i th) : p'.head j = p.head j := by
  unfold head
  rw [h, List.getElem?_set_ne hij.symm]

/-- A thread whose head is not of the kind takes none of the kind away. -/
theorem head_kept {p p' : Pool σ τ} {i : ℕ} {th : List τ} {kind : τ → Prop}
    (hi : ∀ t, p.head i = some t → ¬ kind t) (h : p'.threads = p.threads.set i th) {j : ℕ} {t : τ}
    (ht : p.head j = some t) (hkind : kind t) : p'.head j = some t := by
  by_cases hij : j = i
  · subst hij
    exact absurd hkind (hi t ht)
  · rw [head_set_of_ne hij h]
    exact ht

theorem head_set {p p' : Pool σ τ} {i : ℕ} {t : τ} {th : List τ} (hi : p.head i = some t)
    (h : p'.threads = p.threads.set i th) : p'.head i = th.head? := by
  obtain ⟨rest, hthread⟩ := head_eq_some.mp hi
  have hlt : i < p.threads.length := (List.getElem?_eq_some_iff.mp hthread).1
  unfold head
  rw [h, List.getElem?_set_self hlt]
  rfl

theorem head_start {p p' : Pool σ τ} {ts : List τ} (h : p'.threads = p.threads ++ [ts]) :
    (∀ i t, p.head i = some t → p'.head i = some t) ∧
      p'.head p.threads.length = ts.head? := by
  constructor
  · intro i t hi
    obtain ⟨rest, hthread⟩ := head_eq_some.mp hi
    apply head_eq_some.mpr
    refine ⟨rest, ?_⟩
    rw [h, List.getElem?_append_left (List.getElem?_eq_some_iff.mp hthread).1, hthread]
  · unfold head
    rw [h]
    simp

/-! ## § The invariant rule -/

/-- The state satisfies `I`, and every task left to run `ok`. -/
structure Invariant (I : σ → Prop) (ok : σ → τ → Prop) (p : Pool σ τ) : Prop where
  shared : I p.shared
  tasks : ∀ t ∈ p.tasks, ok p.shared t

theorem invariant_empty {I : σ → Prop} {ok : σ → τ → Prop} {s : σ} (h : I s) :
    Invariant I ok (empty s) :=
  ⟨h, fun _ ht => by cases ht⟩

/-- **Step rule.** A step keeps the invariant when what changes the shared state
keeps `I` and what is `ok`, and what it puts there is `ok`. Of a task's execution, only
what the step at hand `may` execute is asked. -/
theorem invariant_step_of {P : Program σ τ ε β α} {I : σ → Prop} {ok : σ → τ → Prop}
    (may : σ → τ → α → Prop) {p p' : Pool σ τ} {m : Move ε β α}
    (hmay : ∀ i a t rest, m = .go i a → p.threads[i]? = some (t :: rest) → may p.shared t a)
    (hworld : ∀ s ts e s', I s → (∀ t ∈ ts, ok s t) → P.world s ts e = some s' →
      I s' ∧ ∀ t ∈ ts, ok s' t)
    (hstart : ∀ s b s' ts, I s → P.start s b = some (s', ts) →
      I s' ∧ (∀ t ∈ ts, ok s' t) ∧ ∀ u, ok s u → ok s' u)
    (hexec : ∀ s t a s' next, I s → ok s t → may s t a → P.exec s t a = some (s', next) →
      I s' ∧ (∀ ts, next = some ts → ∀ u ∈ ts, ok s' u) ∧ ∀ u, ok s u → ok s' u)
    (h : Invariant I ok p) (hstep : step P p m = some p') : Invariant I ok p' := by
  cases stepped hstep with
  | world e he hthreads =>
      obtain ⟨hI, hok⟩ := hworld _ _ e _ h.shared h.tasks he
      exact ⟨hI, fun t ht => hok t (by rwa [Pool.tasks, hthreads] at ht)⟩
  | start b ts hb hthreads =>
      obtain ⟨hI, hnew, hok⟩ := hstart _ b _ ts h.shared hb
      refine ⟨hI, fun t ht => ?_⟩
      rw [Pool.tasks, hthreads, List.flatten_append, List.mem_append] at ht
      rcases ht with ht | ht
      · exact hok t (h.tasks t ht)
      · exact hnew t (by simpa using ht)
  | go i a t rest next hthread hrun hthreads =>
      have ht : ok p.shared t :=
        h.tasks t (mem_tasks_of_getElem hthread (List.mem_cons_self ..))
      obtain ⟨hI, hnew, hok⟩ :=
        hexec _ t a _ next h.shared ht (hmay i a t rest rfl hthread) hrun
      refine ⟨hI, fun u hu => ?_⟩
      rcases mem_tasks_of_set hthread hthreads hu with hold | ⟨ts, hts, hin⟩
      · exact hok u (h.tasks u hold)
      · exact hnew ts hts u hin
  | die i hshared hthreads =>
      refine ⟨hshared ▸ h.shared, fun t ht => ?_⟩
      rw [hshared]
      exact h.tasks t (mem_tasks_die hthreads ht)

theorem invariant_step {P : Program σ τ ε β α} {I : σ → Prop} {ok : σ → τ → Prop}
    (hworld : ∀ s ts e s', I s → (∀ t ∈ ts, ok s t) → P.world s ts e = some s' →
      I s' ∧ ∀ t ∈ ts, ok s' t)
    (hstart : ∀ s b s' ts, I s → P.start s b = some (s', ts) →
      I s' ∧ (∀ t ∈ ts, ok s' t) ∧ ∀ u, ok s u → ok s' u)
    (hexec : ∀ s t a s' next, I s → ok s t → P.exec s t a = some (s', next) →
      I s' ∧ (∀ ts, next = some ts → ∀ u ∈ ts, ok s' u) ∧ ∀ u, ok s u → ok s' u)
    {p p' : Pool σ τ} {m : Move ε β α} (h : Invariant I ok p) (hstep : step P p m = some p') :
    Invariant I ok p' :=
  invariant_step_of (fun _ _ _ => True) (fun _ _ _ _ _ _ => trivial) hworld hstart
    (fun s t a s' next hI hok _ hrun => hexec s t a s' next hI hok hrun) h hstep

end Pool

end Foundation
