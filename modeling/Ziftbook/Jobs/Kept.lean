import Ziftbook.Jobs.Queue

/-!
# Jobs are neither lost nor run twice at once

An attempt's lease is the time its row names for the next one, so a later claim
of the job is made when every earlier lease has run out. What the attempts and
the deletions so far say of the table is one invariant of every transaction.
-/

namespace Ziftbook

open Foundation

/-! ## § What a job is waiting for -/

/-- The last attempt's lease ran out, and the job was not completed. -/
def Job.givenUp (j : Job) (now : ℤ) : Prop :=
  j.completedAt = none ∧ maxAttempts ≤ j.attempts ∧ j.nextAttemptAt ≤ now

def Job.notYetDue (j : Job) (now : ℤ) : Prop := j.attempts = 0 ∧ now < j.dueAt

/-- An attempt given holds the job. -/
def Workshop.leased (w : Workshop) (j : Job) (now : ℤ) : Prop :=
  ∃ a ∈ w.given, a.jobId = j.id ∧ now < a.leasedUntil

/-- Completed, or with no attempt left. -/
def Job.exhausted (j : Job) : Prop := j.completedAt ≠ none ∨ maxAttempts ≤ j.attempts

/-- The job has been enqueued, and no row of it is open to a claim. -/
def Workshop.over (w : Workshop) (id : ℕ) : Prop :=
  id < w.jobs.nextId ∧ ∀ j ∈ w.jobs.table.rows, j.id = id → j.exhausted

def Workshop.attemptsOf (w : Workshop) (id : ℕ) : ℕ := (w.given.map Attempt.jobId).count id

/-! ## § The batch of a claim -/

theorem mem_batch {jobs : Jobs} {now : ℤ} {kinds : List Kind} {locked : List ℕ} {j : Job}
    (h : j ∈ jobs.batch now kinds locked) : j ∈ jobs.table.rows ∧ j.claimable kinds now := by
  have hsorted := List.mem_of_mem_take h
  rw [List.mem_insertionSort, List.mem_filter] at hsorted
  have hand := of_decide_eq_true hsorted.2
  exact ⟨hsorted.1, hand.1⟩

theorem batch_keyed (jobs : Jobs) (now : ℤ) (kinds : List Kind) (locked : List ℕ) :
    ((jobs.batch now kinds locked).map Job.id).Nodup := by
  have hfilter : ((jobs.table.rows.filter fun j =>
      j.claimable kinds now ∧ j.id ∉ locked).map Job.id).Nodup :=
    jobs.table.keyed.sublist (List.filter_sublist.map _)
  have hsorted := ((List.perm_insertionSort (fun i j : Job => i.nextAttemptAt ≤ j.nextAttemptAt)
    (jobs.table.rows.filter fun j => j.claimable kinds now ∧ j.id ∉ locked)).map
      Job.id).nodup_iff.mpr hfilter
  exact hsorted.sublist ((List.take_sublist ..).map _)

/-- A row the claim leaves has no row of the batch with its id. -/
theorem not_mem_batch_of_id {jobs : Jobs} {now : ℤ} {kinds : List Kind} {locked : List ℕ}
    {j : Job} (hj : j ∈ jobs.table.rows) (hnot : j ∉ jobs.batch now kinds locked) :
    j.id ∉ (jobs.batch now kinds locked).map Job.id := by
  intro hmem
  obtain ⟨i, hi, hid⟩ := List.mem_map.mp hmem
  exact hnot (jobs.table.eq_of_key (mem_batch hi).1 hj hid ▸ hi)

/-- A claim gives a job of its batch one attempt, any other none. -/
theorem count_attempts (jobs : Jobs) (now : ℤ) (kinds : List Kind) (locked : List ℕ) (id : ℕ) :
    (((jobs.claim now kinds locked).2).map Attempt.jobId).count id =
      if id ∈ (jobs.batch now kinds locked).map Job.id then 1 else 0 := by
  have hids : ((jobs.claim now kinds locked).2).map Attempt.jobId =
      (jobs.batch now kinds locked).map Job.id := by
    simp [Jobs.claim, Job.attempt]
  rw [hids, (batch_keyed jobs now kinds locked).count]

/-! ## § The invariant -/

structure Workshop.Kept (w : Workshop) : Prop where
  counted : ∀ j ∈ w.jobs.table.rows, w.attemptsOf j.id = j.attempts ∧ j.attempts ≤ maxAttempts
  capped : ∀ id, w.attemptsOf id ≤ maxAttempts
  known : ∀ a ∈ w.given, a.jobId < w.jobs.nextId
  waiting : ∀ j ∈ w.jobs.table.rows, (j.attempts = 0 ∧ j.nextAttemptAt = j.dueAt) ∨
    ∃ a ∈ w.given, a.jobId = j.id ∧ a.leasedUntil = j.nextAttemptAt
  leases : ∀ j ∈ w.jobs.table.rows, ∀ a ∈ w.given, a.jobId = j.id →
    a.leasedUntil ≤ j.nextAttemptAt
  apart : w.given.Pairwise fun a b => a.jobId = b.jobId → a.leasedUntil ≤ b.claimedAt
  covered : ∀ a ∈ w.given, a.claimedAt + a.kind.jobKind.timeout < a.leasedUntil
  stays : ∀ id < w.jobs.nextId,
    (∃ j ∈ w.jobs.table.rows, j.id = id) ∨ ∃ r ∈ w.pruned, r.1.id = id
  finished : ∀ r ∈ w.pruned, r.1.prunable r.2

theorem kept_empty : Workshop.empty.Kept := by
  refine ⟨?_, ?_, ?_, ?_, ?_, ?_, ?_, ?_, ?_⟩ <;>
    simp [Workshop.empty, Jobs.empty, Table.empty, Workshop.attemptsOf]

/-- A row that a statement rewrote without touching what a claim reads. -/
structure Job.Settled (i j : Job) : Prop where
  id : j.id = i.id
  dueAt : j.dueAt = i.dueAt
  nextAttemptAt : j.nextAttemptAt = i.nextAttemptAt
  attempts : j.attempts = i.attempts
  completedAt : i.completedAt ≠ none → j.completedAt ≠ none

theorem settled_record (a : Attempt) (now : ℤ) (outcome : Outcome) (j : Job) :
    j.Settled (a.record now outcome j) := by
  unfold Attempt.record
  split
  · exact ⟨rfl, rfl, rfl, rfl, fun _ => by simp [Job.skippedAt]⟩
  · cases outcome with
    | returned => exact ⟨rfl, rfl, rfl, rfl, fun _ => by simp [Job.doneAt]⟩
    | raised error => exact ⟨rfl, rfl, rfl, rfl, fun h => h⟩

/-- What becomes of the rows when no attempt is given: each was there, the same to a
claim, and is there still. -/
structure Jobs.SameToClaims (jobs jobs' : Jobs) : Prop where
  nextId : jobs'.nextId = jobs.nextId
  back : ∀ j ∈ jobs'.table.rows, ∃ i ∈ jobs.table.rows, i.Settled j
  forth : ∀ i ∈ jobs.table.rows, ∃ j ∈ jobs'.table.rows, j.id = i.id

theorem sameToClaims_record (jobs : Jobs) (now : ℤ) (a : Attempt) (outcome : Outcome) :
    jobs.SameToClaims (jobs.record now a outcome) := by
  refine ⟨rfl, fun j hj => ?_, fun i hi => ?_⟩
  · rcases Jobs.mem_update.mp hj with ⟨i, hi, _, rfl⟩ | ⟨hj, _⟩
    · exact ⟨i, hi, settled_record ..⟩
    · exact ⟨j, hj, rfl, rfl, rfl, rfl, fun h => h⟩
  · by_cases hid : i.id = a.jobId
    · exact ⟨_, Jobs.mem_update.mpr (Or.inl ⟨i, hi, hid, rfl⟩), a.record_id ..⟩
    · exact ⟨i, Jobs.mem_update.mpr (Or.inr ⟨hi, hid⟩), rfl⟩

theorem Workshop.Kept.settled {w : Workshop} (h : w.Kept) {jobs : Jobs} {running : List Attempt}
    (hsame : w.jobs.SameToClaims jobs) :
    Workshop.Kept ⟨jobs, running, w.given, w.pruned⟩ := by
  refine ⟨fun j hj => ?_, h.capped, fun a ha => ?_, fun j hj => ?_, fun j hj a ha haj => ?_,
    h.apart, h.covered, fun id hid => ?_, h.finished⟩
  · obtain ⟨i, hi, hij⟩ := hsame.back j hj
    rw [hij.id, hij.attempts]
    exact h.counted i hi
  · rw [hsame.nextId]
    exact h.known a ha
  · obtain ⟨i, hi, hij⟩ := hsame.back j hj
    rw [hij.id, hij.attempts, hij.nextAttemptAt, hij.dueAt]
    exact h.waiting i hi
  · obtain ⟨i, hi, hij⟩ := hsame.back j hj
    rw [hij.nextAttemptAt]
    exact h.leases i hi a ha (haj.trans hij.id)
  · rw [hsame.nextId] at hid
    refine (h.stays id hid).imp_left ?_
    rintro ⟨i, hi, rfl⟩
    exact hsame.forth i hi

theorem Workshop.Kept.enqueue {w : Workshop} (h : w.Kept) (now : ℤ) (kind : Kind)
    (dedupeKey : String) (dueAt : Option ℤ) :
    Workshop.Kept { w with jobs := w.jobs.enqueue now kind dedupeKey dueAt } := by
  unfold Jobs.enqueue
  split
  · exact h
  · -- The new row has an id no attempt was given for.
    have hnone : w.attemptsOf w.jobs.nextId = 0 := by
      rw [Workshop.attemptsOf, List.count_eq_zero]
      intro hmem
      obtain ⟨a, ha, haid⟩ := List.mem_map.mp hmem
      exact absurd haid (h.known a ha).ne
    refine ⟨fun j hj => ?_, h.capped, fun a ha => ?_, fun j hj => ?_, fun j hj a ha haj => ?_,
      h.apart, h.covered, fun id hid => ?_, h.finished⟩
    · rcases List.mem_append.mp hj with hj | hj
      · exact h.counted j hj
      · rw [List.mem_singleton.mp hj]
        exact ⟨hnone, Nat.zero_le _⟩
    · exact (h.known a ha).trans (Nat.lt_succ_self _)
    · rcases List.mem_append.mp hj with hj | hj
      · exact h.waiting j hj
      · rw [List.mem_singleton.mp hj]
        exact Or.inl ⟨rfl, rfl⟩
    · rcases List.mem_append.mp hj with hj | hj
      · exact h.leases j hj a ha haj
      · rw [List.mem_singleton.mp hj] at haj
        exact absurd haj (h.known a ha).ne
    · rcases Nat.lt_succ_iff_lt_or_eq.mp hid with hid | rfl
      · refine (h.stays id hid).imp_left ?_
        rintro ⟨j, hj, rfl⟩
        exact ⟨j, List.mem_append_left _ hj, rfl⟩
      · exact Or.inl ⟨_, List.mem_append_right _ (List.mem_singleton.mpr rfl), rfl⟩

/-- Every kind's timeout is below the first lease. -/
theorem timeout_lt_minute (kind : Kind) : kind.jobKind.timeout < minute := by
  cases kind <;> decide

theorem timeout_lt_lease (j : Job) (now : ℤ) :
    now + j.kind.jobKind.timeout < j.leaseAt now := by
  have htimeout := timeout_lt_minute j.kind
  have hpow : (1 : ℤ) ≤ 2 ^ j.attempts := one_le_pow₀ (by norm_num)
  have hlease : minute * 1 ≤ minute * 2 ^ j.attempts :=
    mul_le_mul_of_nonneg_left hpow (by decide)
  unfold Job.leaseAt
  omega

theorem now_lt_leaseAt (j : Job) (now : ℤ) : now < j.leaseAt now := by
  have hpow : (0 : ℤ) < 2 ^ j.attempts := by positivity
  have hlease : 0 < minute * 2 ^ j.attempts := mul_pos (by decide) hpow
  unfold Job.leaseAt
  omega

/-- The rows after a claim: those of the batch, claimed, and the others. -/
theorem mem_claim {jobs : Jobs} {now : ℤ} {kinds : List Kind} {locked : List ℕ} {j : Job} :
    j ∈ (jobs.claim now kinds locked).1.table.rows ↔
      (∃ i ∈ jobs.batch now kinds locked, i.claimed now = j) ∨
        (j ∈ jobs.table.rows ∧ j ∉ jobs.batch now kinds locked) := by
  constructor
  · intro hj
    rcases Jobs.mem_update.mp hj with ⟨i, _, hi, rfl⟩ | hj
    · exact Or.inl ⟨i, hi, rfl⟩
    · exact Or.inr hj
  · rintro (⟨i, hi, rfl⟩ | hj)
    · exact Jobs.mem_update.mpr (Or.inl ⟨i, (mem_batch hi).1, hi, rfl⟩)
    · exact Jobs.mem_update.mpr (Or.inr hj)

theorem mem_claim_attempts {jobs : Jobs} {now : ℤ} {kinds : List Kind} {locked : List ℕ}
    {a : Attempt} :
    a ∈ (jobs.claim now kinds locked).2 ↔
      ∃ j ∈ jobs.batch now kinds locked, j.attempt now = a := by
  simp [Jobs.claim]

theorem attempts_apart (jobs : Jobs) (now : ℤ) (kinds : List Kind) (locked : List ℕ) :
    (jobs.claim now kinds locked).2.Pairwise fun a b => a.jobId ≠ b.jobId := by
  have hkeyed := batch_keyed jobs now kinds locked
  rw [List.Nodup, List.pairwise_map] at hkeyed
  simp only [Jobs.claim, List.pairwise_map]
  exact hkeyed

theorem Workshop.Kept.claim {w : Workshop} (h : w.Kept) (now : ℤ) (kinds : List Kind)
    (locked : List ℕ) (running : List Attempt) :
    Workshop.Kept ⟨(w.jobs.claim now kinds locked).1, running,
      w.given ++ (w.jobs.claim now kinds locked).2, w.pruned⟩ := by
  have hcount : ∀ id, ((w.given ++ (w.jobs.claim now kinds locked).2).map Attempt.jobId).count id =
      w.attemptsOf id + if id ∈ (w.jobs.batch now kinds locked).map Job.id then 1 else 0 := by
    intro id
    rw [List.map_append, List.count_append, count_attempts, Workshop.attemptsOf]
  -- An attempt given before runs out before the claim that gives the next.
  have hbefore : ∀ j ∈ w.jobs.batch now kinds locked, ∀ a ∈ w.given, a.jobId = j.id →
      a.leasedUntil ≤ now := by
    intro j hj a ha haj
    obtain ⟨hrow, _, _, hnext, _⟩ := mem_batch hj
    exact (h.leases j hrow a ha haj).trans hnext
  refine ⟨fun j hj => ?_, fun id => ?_, fun a ha => ?_, fun j hj => ?_, fun j hj a ha haj => ?_,
    ?_, fun a ha => ?_, fun id hid => ?_, h.finished⟩
  · rcases mem_claim.mp hj with ⟨i, hi, rfl⟩ | ⟨hj, hnot⟩
    · obtain ⟨hrow, _, hlt, _⟩ := mem_batch hi
      have hgiven := hcount i.id
      rw [if_pos (List.mem_map_of_mem hi), (h.counted i hrow).1] at hgiven
      exact ⟨hgiven, hlt⟩
    · rw [Workshop.attemptsOf, hcount, if_neg (not_mem_batch_of_id hj hnot)]
      exact h.counted j hj
  · rw [Workshop.attemptsOf, hcount]
    by_cases hmem : id ∈ (w.jobs.batch now kinds locked).map Job.id
    · obtain ⟨i, hi, rfl⟩ := List.mem_map.mp hmem
      obtain ⟨hrow, _, hlt, _⟩ := mem_batch hi
      rw [if_pos hmem, (h.counted i hrow).1]
      exact hlt
    · rw [if_neg hmem]
      exact h.capped id
  · rcases List.mem_append.mp ha with ha | ha
    · exact h.known a ha
    · obtain ⟨j, hj, rfl⟩ := mem_claim_attempts.mp ha
      exact w.jobs.used j (mem_batch hj).1
  · rcases mem_claim.mp hj with ⟨i, hi, rfl⟩ | ⟨hj, _⟩
    · exact Or.inr ⟨i.attempt now, List.mem_append_right _ (mem_claim_attempts.mpr ⟨i, hi, rfl⟩),
        rfl, rfl⟩
    · refine (h.waiting j hj).imp_right ?_
      rintro ⟨a, ha, hrest⟩
      exact ⟨a, List.mem_append_left _ ha, hrest⟩
  · rcases mem_claim.mp hj with ⟨i, hi, rfl⟩ | ⟨hj, hnot⟩
    · rcases List.mem_append.mp ha with ha | ha
      · exact (hbefore i hi a ha haj).trans (now_lt_leaseAt i now).le
      · obtain ⟨k, hk, rfl⟩ := mem_claim_attempts.mp ha
        rw [w.jobs.table.eq_of_key (mem_batch hk).1 (mem_batch hi).1 haj]
        exact le_rfl
    · rcases List.mem_append.mp ha with ha | ha
      · exact h.leases j hj a ha haj
      · obtain ⟨k, hk, rfl⟩ := mem_claim_attempts.mp ha
        exact absurd (haj ▸ List.mem_map_of_mem hk) (not_mem_batch_of_id hj hnot)
  · rw [List.pairwise_append]
    refine ⟨h.apart, (attempts_apart ..).imp fun hne heq => absurd heq hne, ?_⟩
    intro a ha b hb hab
    obtain ⟨j, hj, rfl⟩ := mem_claim_attempts.mp hb
    exact hbefore j hj a ha hab
  · rcases List.mem_append.mp ha with ha | ha
    · exact h.covered a ha
    · obtain ⟨j, _, rfl⟩ := mem_claim_attempts.mp ha
      exact timeout_lt_lease j now
  · refine (h.stays id hid).imp_left ?_
    rintro ⟨j, hj, rfl⟩
    by_cases hmem : j ∈ w.jobs.batch now kinds locked
    · exact ⟨_, mem_claim.mpr (Or.inl ⟨j, hmem, rfl⟩), rfl⟩
    · exact ⟨j, mem_claim.mpr (Or.inr ⟨hj, hmem⟩), rfl⟩

theorem Workshop.Kept.prune {w : Workshop} (h : w.Kept) (now : ℤ) :
    Workshop.Kept ⟨(w.jobs.prune now).1, w.running, w.given,
      w.pruned ++ (w.jobs.prune now).2.map fun j => (j, now)⟩ := by
  have hrow : ∀ j ∈ (w.jobs.prune now).1.table.rows, j ∈ w.jobs.table.rows :=
    fun j hj => (Table.mem_delete.mp hj).1
  refine ⟨fun j hj => h.counted j (hrow j hj), h.capped, h.known,
    fun j hj => h.waiting j (hrow j hj), fun j hj => h.leases j (hrow j hj), h.apart, h.covered,
    fun id hid => ?_, fun r hr => ?_⟩
  · rcases h.stays id hid with ⟨j, hj, rfl⟩ | ⟨r, hr, rfl⟩
    · by_cases hp : j.prunable now
      · refine Or.inr ⟨(j, now), List.mem_append_right _ (List.mem_map_of_mem ?_), rfl⟩
        exact List.mem_filter.mpr ⟨hj, decide_eq_true hp⟩
      · exact Or.inl ⟨j, Table.mem_delete.mpr ⟨hj, hp⟩, rfl⟩
    · exact Or.inr ⟨r, List.mem_append_left _ hr, rfl⟩
  · rcases List.mem_append.mp hr with hr | hr
    · exact h.finished r hr
    · obtain ⟨j, hj, rfl⟩ := List.mem_map.mp hr
      exact of_decide_eq_true (List.mem_filter.mp hj).2

theorem kept_step {w w' : Workshop} {e : ℤ × Work} (h : w.Kept) (hstep : w.step e = some w') :
    w'.Kept := by
  obtain ⟨now, work⟩ := e
  cases work with
  | enqueue kind dedupeKey dueAt =>
      cases hstep
      exact h.enqueue now kind dedupeKey dueAt
  | claim kinds locked =>
      cases hstep
      exact h.claim now kinds locked _
  | finish i outcome =>
      obtain ⟨a, _, rfl⟩ := Option.map_eq_some_iff.mp hstep
      exact h.settled (sameToClaims_record ..)
  | crash i =>
      cases hstep
      exact ⟨h.counted, h.capped, h.known, h.waiting, h.leases, h.apart, h.covered, h.stays,
        h.finished⟩
  | prune =>
      cases hstep
      exact h.prune now

theorem kept_run {es : List (ℤ × Work)} {w : Workshop}
    (hrun : Workshop.empty.run es = some w) : w.Kept :=
  Runs.run_invariant' (fun _ _ _ => kept_step) kept_empty hrun

/-! ## § A job that is over -/

/-- A job that is over is claimed by no step, and stays over. -/
theorem over_step {w w' : Workshop} {e : ℤ × Work} {id : ℕ} (h : w.over id)
    (hstep : w.step e = some w') : w'.over id ∧ w'.attemptsOf id = w.attemptsOf id := by
  obtain ⟨hknown, hover⟩ := h
  obtain ⟨now, work⟩ := e
  cases work with
  | enqueue kind dedupeKey dueAt =>
      cases hstep
      refine ⟨?_, rfl⟩
      unfold Jobs.enqueue
      split
      · exact ⟨hknown, hover⟩
      · refine ⟨hknown.trans (Nat.lt_succ_self _), fun j hj hid => ?_⟩
        rcases List.mem_append.mp hj with hj | hj
        · exact hover j hj hid
        · rw [List.mem_singleton.mp hj] at hid
          exact absurd hid hknown.ne'
  | claim kinds locked =>
      cases hstep
      have hnot : id ∉ (w.jobs.batch now kinds locked).map Job.id := by
        intro hmem
        obtain ⟨j, hj, hid⟩ := List.mem_map.mp hmem
        obtain ⟨hrow, hopen, hlt, _⟩ := mem_batch hj
        rcases hover j hrow hid with hdone | hmax
        · exact hdone hopen
        · omega
      refine ⟨⟨hknown, fun j hj hid => ?_⟩, ?_⟩
      · rcases mem_claim.mp hj with ⟨i, hi, rfl⟩ | ⟨hj, _⟩
        · have hmem : i.id ∈ (w.jobs.batch now kinds locked).map Job.id := List.mem_map_of_mem hi
          exact absurd (hid ▸ hmem) hnot
        · exact hover j hj hid
      · have hnone := count_attempts w.jobs now kinds locked id
        rw [if_neg hnot] at hnone
        show ((w.given ++ (w.jobs.claim now kinds locked).2).map Attempt.jobId).count id = _
        rw [List.map_append, List.count_append, hnone]
        rfl
  | finish i outcome =>
      obtain ⟨a, _, rfl⟩ := Option.map_eq_some_iff.mp hstep
      refine ⟨⟨hknown, fun j hj hid => ?_⟩, rfl⟩
      obtain ⟨k, hk, hkj⟩ := (sameToClaims_record w.jobs now a outcome).back j hj
      rcases hover k hk (hkj.id.symm.trans hid) with hdone | hmax
      · exact Or.inl (hkj.completedAt hdone)
      · exact Or.inr (hkj.attempts ▸ hmax)
  | crash i =>
      cases hstep
      exact ⟨⟨hknown, hover⟩, rfl⟩
  | prune =>
      cases hstep
      exact ⟨⟨hknown, fun j hj => hover j (Table.mem_delete.mp hj).1⟩, rfl⟩

theorem over_run {fs : List (ℤ × Work)} {w w' : Workshop} {id : ℕ} (h : w.over id)
    (hrun : w.run fs = some w') : w'.attemptsOf id = w.attemptsOf id := by
  have hstep : ∀ v e v', (v.over id ∧ v.attemptsOf id = w.attemptsOf id) →
      Workshop.step v e = some v' → v'.over id ∧ v'.attemptsOf id = w.attemptsOf id := by
    rintro v e v' ⟨hv, hcount⟩ hs
    obtain ⟨hv', hsame⟩ := over_step hv hs
    exact ⟨hv', hsame.trans hcount⟩
  exact (Runs.run_invariant' (I := fun v => v.over id ∧ v.attemptsOf id = w.attemptsOf id)
    hstep ⟨h, rfl⟩ hrun).2

/-! ## § The queue -/

/-- A row that is neither completed nor given up waits for its time, is leased, or can
be claimed. -/
theorem Workshop.Kept.waits {w : Workshop} (h : w.Kept) {j : Job}
    (hj : j ∈ w.jobs.table.rows) {kinds : List Kind} (hkind : j.kind ∈ kinds) {now : ℤ}
    (hopen : j.completedAt = none) (hgiven : ¬ j.givenUp now) :
    j.notYetDue now ∨ w.leased j now ∨ j.claimable kinds now := by
  by_cases hnext : j.nextAttemptAt ≤ now
  · refine Or.inr (Or.inr ⟨hopen, ?_, hnext, hkind⟩)
    by_contra hmax
    exact hgiven ⟨hopen, not_lt.mp hmax, hnext⟩
  · rcases h.waiting j hj with ⟨hattempts, hdue⟩ | ⟨a, ha, haj, hlease⟩
    · exact Or.inl ⟨hattempts, by omega⟩
    · exact Or.inr (Or.inl ⟨a, ha, haj, by omega⟩)

theorem finished_of_prunable {j : Job} {now : ℤ} (h : j.prunable now) :
    (∃ at_, j.completedAt = some at_ ∧ at_ < now - retentionDays * oneDay) ∨
      (j.givenUp now ∧ j.nextAttemptAt < now - retentionDays * oneDay) := by
  have hretention : 0 < retentionDays * oneDay := by decide
  rcases h with ⟨at_, hat, hold⟩ | ⟨hopen, hmax, hold⟩
  · exact Or.inl ⟨at_, hat, hold⟩
  · exact Or.inr ⟨⟨hopen, hmax, by omega⟩, hold⟩

/-- **Jobs are neither lost nor run twice at once.** -/
theorem jobs_kept {es : List (ℤ × Work)} {w : Workshop}
    (hrun : Workshop.empty.run es = some w) :
    (∀ id, w.attemptsOf id ≤ maxAttempts) ∧
    (w.given.Pairwise fun a b => a.jobId = b.jobId → a.leasedUntil ≤ b.claimedAt) ∧
    (∀ a ∈ w.given, ∀ ended, ended ≤ a.claimedAt + a.kind.jobKind.timeout →
      ended < a.leasedUntil) ∧
    (∀ id, w.over id → ∀ fs w', w.run fs = some w' → w'.attemptsOf id = w.attemptsOf id) ∧
    (∀ id < w.jobs.nextId,
      (∃ j ∈ w.jobs.table.rows, j.id = id) ∨ ∃ r ∈ w.pruned, r.1.id = id) ∧
    (∀ r ∈ w.pruned,
      (∃ at_, r.1.completedAt = some at_ ∧ at_ < r.2 - retentionDays * oneDay) ∨
        (r.1.givenUp r.2 ∧ r.1.nextAttemptAt < r.2 - retentionDays * oneDay)) ∧
    ∀ j ∈ w.jobs.table.rows, ∀ kinds now, j.kind ∈ kinds → j.completedAt = none →
      ¬ j.givenUp now → j.notYetDue now ∨ w.leased j now ∨ j.claimable kinds now := by
  have h := kept_run hrun
  refine ⟨h.capped, h.apart, fun a ha ended hended => ?_, fun id hover fs w' => over_run hover,
    h.stays, fun r hr => finished_of_prunable (h.finished r hr),
    fun j hj kinds now hkind => h.waits hj hkind⟩
  have := h.covered a ha
  omega

/-- A mail whose first worker crashes is claimed again a minute later, and done. -/
def crashedThenDone : List (ℤ × Work) :=
  [(0, .enqueue .emailSend "email.send:1" none), (0, .claim [.emailSend] []), (1, .crash 0),
    (minute, .claim [.emailSend] []), (minute + second, .finish 0 .returned)]

theorem jobs_kept_crashed : ∃ w, Workshop.empty.run crashedThenDone = some w ∧
    w.attemptsOf 0 = 2 ∧
    (w.given.Pairwise fun a b => a.jobId = b.jobId → a.leasedUntil ≤ b.claimedAt) ∧
    ∀ fs w', w.run fs = some w' → w'.attemptsOf 0 = 2 := by
  have hrun : Workshop.empty.run crashedThenDone =
      some ((Workshop.empty.run crashedThenDone).get (by decide)) := (Option.some_get _).symm
  obtain ⟨_, hapart, _, hover, _⟩ := jobs_kept hrun
  have hdone : ((Workshop.empty.run crashedThenDone).get (by decide)).over 0 := by
    refine ⟨by decide, fun j hj _ => Or.inl ?_⟩
    revert j
    decide
  exact ⟨_, hrun, by decide, hapart, fun fs w' h => hover 0 hdone fs w' h⟩

end Ziftbook
