import Ziftbook.Jobs.Kept

/-!
# No job ends before it is due

Where a row of the queue comes from, one transaction back. A row is claimed only once
its time has come, and only an attempt at it completes it; a key has one row.
-/

namespace Ziftbook

open Foundation

/-! ## § Rows and attempts, one transaction back -/

/-- What no transaction rewrites of a row. -/
structure Job.Same (i j : Job) : Prop where
  id : j.id = i.id
  kind : j.kind = i.kind
  dedupeKey : j.dedupeKey = i.dedupeKey
  dueAt : j.dueAt = i.dueAt

theorem Job.Same.refl (j : Job) : j.Same j := ⟨rfl, rfl, rfl, rfl⟩

theorem same_record (a : Attempt) (now : ℤ) (outcome : Outcome) (j : Job) :
    j.Same (a.record now outcome j) := by
  unfold Attempt.record
  split
  · exact ⟨rfl, rfl, rfl, rfl⟩
  · cases outcome with
    | returned => exact ⟨rfl, rfl, rfl, rfl⟩
    | raised error => exact ⟨rfl, rfl, rfl, rfl⟩

/-- The row `j` of after a worker's transaction is the row `i` of before. -/
structure Job.Since (w : Workshop) (i j : Job) : Prop where
  before : i ∈ w.jobs.table.rows
  same : i.Same j
  later : i.nextAttemptAt ≤ j.nextAttemptAt
  done : j.completedAt = i.completedAt ∨ ∃ a ∈ w.running, a.jobId = i.id

/-- **A row's origin.** -/
theorem step_row {w w' : Workshop} {now : ℤ} {work : Work} (hstep : w.step (now, work) = some w')
    {j : Job} (hj : j ∈ w'.jobs.table.rows) : (∃ i, Job.Since w i j) ∨
      ∃ kind key dueAt, work = .enqueue kind key dueAt ∧
        (∀ i ∈ w.jobs.table.rows, i.dedupeKey ≠ key) ∧
        j = ⟨w.jobs.nextId, kind, key, dueAt.getD now, dueAt.getD now, 0, none, none, false⟩ := by
  have hstays : ∀ {i}, i ∈ w.jobs.table.rows → Job.Since w i i :=
    fun hi => ⟨hi, Job.Same.refl _, le_rfl, Or.inl rfl⟩
  cases work with
  | enqueue kind key dueAt =>
      cases hstep
      change j ∈ (w.jobs.enqueue now kind key dueAt).table.rows at hj
      unfold Jobs.enqueue at hj
      split at hj
      · exact Or.inl ⟨j, hstays hj⟩
      · rename_i hnew
        rcases List.mem_append.mp hj with hj | hj
        · exact Or.inl ⟨j, hstays hj⟩
        · exact Or.inr ⟨kind, key, dueAt, rfl, fun i hi hkey => hnew ⟨i, hi, hkey⟩,
            List.mem_singleton.mp hj⟩
  | claim kinds locked =>
      cases hstep
      rcases mem_claim.mp hj with ⟨i, hi, rfl⟩ | ⟨hj, _⟩
      · obtain ⟨hrow, _, _, hnext, _⟩ := mem_batch hi
        exact Or.inl ⟨i, hrow, ⟨rfl, rfl, rfl, rfl⟩,
          hnext.trans (now_lt_leaseAt i now).le, Or.inl rfl⟩
      · exact Or.inl ⟨j, hstays hj⟩
  | finish k outcome =>
      obtain ⟨a, ha, rfl⟩ := Option.map_eq_some_iff.mp hstep
      rcases Jobs.mem_update.mp hj with ⟨i, hi, hid, rfl⟩ | ⟨hj, _⟩
      · exact Or.inl ⟨i, hi, same_record .., (settled_record ..).nextAttemptAt.ge,
          Or.inr ⟨a, List.mem_of_getElem? ha, hid.symm⟩⟩
      · exact Or.inl ⟨j, hstays hj⟩
  | crash k =>
      cases hstep
      exact Or.inl ⟨j, hstays hj⟩
  | prune =>
      cases hstep
      exact Or.inl ⟨j, hstays (Table.mem_delete.mp hj).1⟩

/-- **An attempt's origin**: it was under way, or its row's time had come. -/
theorem step_running {w w' : Workshop} {now : ℤ} {work : Work}
    (hstep : w.step (now, work) = some w') {a : Attempt} (ha : a ∈ w'.running) :
    a ∈ w.running ∨ ∃ j ∈ w.jobs.table.rows, j.id = a.jobId ∧ j.nextAttemptAt ≤ now := by
  cases work with
  | enqueue kind key dueAt =>
      cases hstep
      exact Or.inl ha
  | claim kinds locked =>
      cases hstep
      rcases List.mem_append.mp ha with ha | ha
      · exact Or.inl ha
      · obtain ⟨j, hj, rfl⟩ := mem_claim_attempts.mp ha
        obtain ⟨hrow, _, _, hnext, _⟩ := mem_batch hj
        exact Or.inr ⟨j, hrow, rfl, hnext⟩
  | finish k outcome =>
      obtain ⟨_, _, rfl⟩ := Option.map_eq_some_iff.mp hstep
      exact Or.inl (List.mem_of_mem_eraseIdx ha)
  | crash k =>
      cases hstep
      exact Or.inl (List.mem_of_mem_eraseIdx ha)
  | prune =>
      cases hstep
      exact Or.inl ha

theorem step_nextId {w w' : Workshop} {e : ℤ × Work} (hstep : w.step e = some w') :
    w.jobs.nextId ≤ w'.jobs.nextId := by
  obtain ⟨now, work⟩ := e
  cases work with
  | enqueue kind key dueAt =>
      cases hstep
      show w.jobs.nextId ≤ (w.jobs.enqueue now kind key dueAt).nextId
      unfold Jobs.enqueue
      split
      · exact le_rfl
      · exact Nat.le_succ _
  | claim kinds locked =>
      cases hstep
      exact le_rfl
  | finish k outcome =>
      obtain ⟨_, _, rfl⟩ := Option.map_eq_some_iff.mp hstep
      exact le_rfl
  | crash k =>
      cases hstep
      exact le_rfl
  | prune =>
      cases hstep
      exact le_rfl

/-! ## § Due -/

/-- By the time `wall`, no row has been completed, and no attempt is under way, of a
job that was not due; and no two rows have one key. -/
structure Workshop.Prompt (w : Workshop) (wall : ℤ) : Prop where
  rows : ∀ j ∈ w.jobs.table.rows, j.dueAt ≤ j.nextAttemptAt
  running : ∀ a ∈ w.running, a.jobId < w.jobs.nextId ∧
    ∀ j ∈ w.jobs.table.rows, j.id = a.jobId → j.dueAt ≤ wall
  done : ∀ j ∈ w.jobs.table.rows, j.completedAt ≠ none → j.dueAt ≤ wall
  once : ∀ i ∈ w.jobs.table.rows, ∀ j ∈ w.jobs.table.rows, i.dedupeKey = j.dedupeKey → i = j

theorem prompt_empty (wall : ℤ) : Workshop.empty.Prompt wall := by
  refine ⟨?_, ?_, ?_, ?_⟩ <;> simp [Workshop.empty, Jobs.empty, Table.empty]

theorem Workshop.Prompt.mono {w : Workshop} {wall wall' : ℤ} (h : w.Prompt wall)
    (hwall : wall ≤ wall') : w.Prompt wall' :=
  ⟨h.rows, fun a ha => ⟨(h.running a ha).1, fun j hj haj =>
    ((h.running a ha).2 j hj haj).trans hwall⟩, fun j hj hdone => (h.done j hj hdone).trans hwall,
    h.once⟩

/-- **A transaction**, on a clock at most `wall`. -/
theorem prompt_step {w w' : Workshop} {now wall : ℤ} {work : Work} (h : w.Prompt wall)
    (hnow : now ≤ wall) (hstep : w.step (now, work) = some w') : w'.Prompt wall := by
  refine ⟨fun j hj => ?_, fun a ha => ⟨?_, fun j hj haj => ?_⟩, fun j hj hdone => ?_,
    fun i hi j hj hkey => ?_⟩
  · rcases step_row hstep hj with ⟨i, hsince⟩ | ⟨_, _, _, _, _, rfl⟩
    · rw [hsince.same.dueAt]
      exact (h.rows i hsince.before).trans hsince.later
    · exact le_rfl
  · rcases step_running hstep ha with ha | ⟨k, hk, hka, _⟩
    · exact lt_of_lt_of_le (h.running a ha).1 (step_nextId hstep)
    · rw [← hka]
      exact lt_of_lt_of_le (w.jobs.used k hk) (step_nextId hstep)
  · rcases step_row hstep hj with ⟨i, hsince⟩ | ⟨_, _, _, _, _, rfl⟩
    · rw [hsince.same.dueAt]
      rw [hsince.same.id] at haj
      rcases step_running hstep ha with ha | ⟨k, hk, hka, hnext⟩
      · exact (h.running a ha).2 i hsince.before haj
      · rw [← w.jobs.table.eq_of_key hk hsince.before (hka.trans haj.symm)]
        exact ((h.rows k hk).trans hnext).trans hnow
    · -- a new row has an id that no attempt was given for
      rcases step_running hstep ha with ha | ⟨k, hk, hka, _⟩
      · exact absurd haj (h.running a ha).1.ne'
      · exact absurd (haj.trans hka.symm) (w.jobs.used k hk).ne'
  · rcases step_row hstep hj with ⟨i, hsince⟩ | ⟨_, _, _, _, _, rfl⟩
    · rw [hsince.same.dueAt]
      rcases hsince.done with hsame | ⟨a, ha, haj⟩
      · exact h.done i hsince.before (hsame ▸ hdone)
      · exact (h.running a ha).2 i hsince.before haj.symm
    · exact absurd rfl hdone
  · rcases step_row hstep hi with ⟨i0, hi0⟩ | ⟨_, key, _, hwork, hfresh, rfl⟩
    · rcases step_row hstep hj with ⟨j0, hj0⟩ | ⟨_, _, _, _, hfresh, rfl⟩
      · have hsame := h.once i0 hi0.before j0 hj0.before
          (hi0.same.dedupeKey.symm.trans (hkey.trans hj0.same.dedupeKey))
        exact w'.jobs.table.eq_of_key hi hj
          (hi0.same.id.trans ((congrArg Job.id hsame).trans hj0.same.id.symm))
      · exact absurd (hi0.same.dedupeKey.symm.trans hkey) (hfresh i0 hi0.before)
    · rcases step_row hstep hj with ⟨j0, hj0⟩ | ⟨_, _, _, hwork', _, rfl⟩
      · exact absurd (hj0.same.dedupeKey.symm.trans hkey.symm) (hfresh j0 hj0.before)
      · cases hwork.symm.trans hwork'
        rfl

/-- The code's word for a job that is done, skipped or given up. -/
def Job.finished (j : Job) (now : ℤ) : Prop := j.completedAt ≠ none ∨ j.givenUp now

/-- **A job that is finished was due.** -/
theorem Workshop.Prompt.due_of_finished {w : Workshop} {wall : ℤ} (h : w.Prompt wall) {j : Job}
    (hj : j ∈ w.jobs.table.rows) (hfinished : j.finished wall) : j.dueAt ≤ wall := by
  rcases hfinished with hdone | ⟨_, _, hnext⟩
  · exact h.done j hj hdone
  · exact (h.rows j hj).trans hnext

end Ziftbook
