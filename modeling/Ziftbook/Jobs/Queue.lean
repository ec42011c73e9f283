import Ziftbook.Foundation.Runs
import Ziftbook.Foundation.Table
import Ziftbook.Zone

/-!
# The job queue

`app/jobs.py` on one table: a job is enqueued once for its key, claimed in
batches, run, and its end recorded, each in a transaction of its own. Workers
overlap, and may crash between any two of these.
-/

namespace Ziftbook

open Foundation

/-! ## § Kinds -/

def oneDay : ℤ := dayMinutes * minute

/-- The registered kinds, the keys of `worker.KINDS`. -/
inductive Kind
  | emailSend | emailToken | emailInvite | emailBooking | emailBookingFlood
  | emailContactEmail | mediaDelete | stripeEvent | paymentSettle | erasureHoldPurge
  | erasureLedger
deriving DecidableEq, Repr

structure JobKind where
  timeout : ℤ
  grace : ℤ

/-- `timedelta.max`. -/
def timedeltaMax : ℤ := 1000000000 * oneDay - 1

/-- `worker.KINDS`. -/
def Kind.jobKind : Kind → JobKind
  | .emailSend => ⟨30 * second, 24 * 60 * minute⟩
  | .emailToken => ⟨30 * second, 30 * minute⟩
  | .emailInvite => ⟨30 * second, 24 * 60 * minute⟩
  | .emailBooking => ⟨30 * second, 24 * 60 * minute⟩
  | .emailBookingFlood => ⟨30 * second, 60 * minute⟩
  | .emailContactEmail => ⟨30 * second, 24 * 60 * minute⟩
  | .mediaDelete => ⟨30 * second, 7 * oneDay⟩
  | .stripeEvent => ⟨50 * second, 3 * oneDay⟩
  | .paymentSettle => ⟨50 * second, 7 * oneDay⟩
  | .erasureHoldPurge => ⟨30 * second, timedeltaMax⟩
  | .erasureLedger => ⟨30 * second, 30 * oneDay⟩

/-! ## § The table -/

structure Job where
  id : ℕ
  kind : Kind
  dedupeKey : String
  dueAt : ℤ
  nextAttemptAt : ℤ
  attempts : ℕ
  lastError : Option String
  completedAt : Option ℤ
  skipped : Bool
deriving DecidableEq

/-- The table, and the sequence its ids come from. -/
structure Jobs where
  table : Table Job ℕ Job.id
  nextId : ℕ
  used : ∀ j ∈ table.rows, j.id < nextId

def Jobs.empty : Jobs := ⟨Table.empty, 0, by simp [Table.empty]⟩

/-- `MAX_ATTEMPTS`. -/
def maxAttempts : ℕ := 5

/-- `RETENTION_DAYS`. -/
def retentionDays : ℤ := 30

/-- A statement that rewrites the selected rows. -/
def Jobs.update (jobs : Jobs) (p : Job → Prop) [DecidablePred p] (f : Job → Job)
    (hid : ∀ j, (f j).id = j.id) : Jobs where
  table := jobs.table.update p f hid
  nextId := jobs.nextId
  used := by
    intro j hj
    obtain ⟨i, hi, hid, _⟩ := Table.mem_of_mem_update hj
    rw [← hid]
    exact jobs.used i hi

theorem Jobs.mem_update {jobs : Jobs} {p : Job → Prop} [DecidablePred p] {f : Job → Job}
    {hid : ∀ j, (f j).id = j.id} {j : Job} :
    j ∈ (jobs.update p f hid).table.rows ↔
      (∃ i ∈ jobs.table.rows, p i ∧ f i = j) ∨ (j ∈ jobs.table.rows ∧ ¬ p j) :=
  @Table.mem_update _ _ _ jobs.table p _ f hid j

/-- `ENQUEUE`: nothing when a kept job has the key. -/
def Jobs.enqueue (jobs : Jobs) (now : ℤ) (kind : Kind) (dedupeKey : String)
    (dueAt : Option ℤ) : Jobs :=
  if ∃ j ∈ jobs.table.rows, j.dedupeKey = dedupeKey then jobs
  else
    { table := jobs.table.add
        ⟨jobs.nextId, kind, dedupeKey, dueAt.getD now, dueAt.getD now, 0, none, none, false⟩
        fun j hj => (jobs.used j hj).ne
      nextId := jobs.nextId + 1
      used := by
        intro j hj
        rcases List.mem_append.mp hj with hj | hj
        · exact (jobs.used j hj).trans (Nat.lt_succ_self _)
        · rw [List.mem_singleton.mp hj]
          exact Nat.lt_succ_self _ }

/-- `CLAIM`'s condition on a row. -/
def Job.claimable (j : Job) (kinds : List Kind) (now : ℤ) : Prop :=
  j.completedAt = none ∧ j.attempts < maxAttempts ∧ j.nextAttemptAt ≤ now ∧ j.kind ∈ kinds

instance (j : Job) (kinds : List Kind) (now : ℤ) : Decidable (j.claimable kinds now) :=
  inferInstanceAs (Decidable (_ ∧ _ ∧ _ ∧ _))

/-- `now() + interval '1 minute' * 2 ^ attempts`. -/
def Job.leaseAt (j : Job) (now : ℤ) : ℤ := now + minute * 2 ^ j.attempts

def Job.claimed (j : Job) (now : ℤ) : Job :=
  { j with attempts := j.attempts + 1, nextAttemptAt := j.leaseAt now }

/-- The rows `CLAIM` selects: the first 20 claimable ones that no other transaction
has locked. -/
def Jobs.batch (jobs : Jobs) (now : ℤ) (kinds : List Kind) (locked : List ℕ) : List Job :=
  ((jobs.table.rows.filter fun j => j.claimable kinds now ∧ j.id ∉ locked).insertionSort
    fun i j => i.nextAttemptAt ≤ j.nextAttemptAt).take 20

/-- One attempt at a job, as `CLAIM` returns it. -/
structure Attempt where
  jobId : ℕ
  kind : Kind
  attempts : ℕ
  overdue : ℤ
  claimedAt : ℤ
  leasedUntil : ℤ
deriving DecidableEq

def Job.attempt (j : Job) (now : ℤ) : Attempt :=
  ⟨j.id, j.kind, j.attempts + 1, now - j.dueAt, now, j.leaseAt now⟩

/-- `CLAIM`. -/
def Jobs.claim (jobs : Jobs) (now : ℤ) (kinds : List Kind) (locked : List ℕ) :
    Jobs × List Attempt :=
  let batch := jobs.batch now kinds locked
  (jobs.update (fun j => j ∈ batch) (fun j => j.claimed now) fun _ => rfl,
    batch.map fun j => j.attempt now)

/-- `PRUNE`'s condition on a row. -/
def Job.prunable (j : Job) (now : ℤ) : Prop :=
  (∃ at_ ∈ j.completedAt, at_ < now - retentionDays * oneDay) ∨
    (j.completedAt = none ∧ maxAttempts ≤ j.attempts ∧
      j.nextAttemptAt < now - retentionDays * oneDay)

instance (j : Job) (now : ℤ) : Decidable (j.prunable now) :=
  inferInstanceAs (Decidable (_ ∨ _))

/-- `PRUNE`, with the rows it returns. -/
def Jobs.prune (jobs : Jobs) (now : ℤ) : Jobs × List Job :=
  ({ table := jobs.table.delete fun j => j.prunable now
     nextId := jobs.nextId
     used := fun j hj => jobs.used j (Table.mem_delete.mp hj).1 },
    jobs.table.rows.filter fun j => j.prunable now)

/-! ## § The end of a run -/

/-- How a handler ended: it returned, or raised or ran out of time. -/
inductive Outcome
  | returned
  | raised (error : String)

def Job.skippedAt (j : Job) (now : ℤ) : Job := { j with completedAt := some now, skipped := true }

def Job.doneAt (j : Job) (now : ℤ) : Job := { j with completedAt := some now }

def Job.failedWith (j : Job) (error : String) : Job := { j with lastError := some error }

/-- The statement `_run` records the end of an attempt with: a job overdue beyond its
kind's grace is skipped, its handler never called. -/
def Attempt.record (a : Attempt) (now : ℤ) (outcome : Outcome) (j : Job) : Job :=
  if a.kind.jobKind.grace < a.overdue then j.skippedAt now
  else
    match outcome with
    | .returned => j.doneAt now
    | .raised error => j.failedWith error

theorem Attempt.record_id (a : Attempt) (now : ℤ) (outcome : Outcome) (j : Job) :
    (a.record now outcome j).id = j.id := by
  unfold Attempt.record
  split
  · rfl
  · cases outcome <;> rfl

/-- `UPDATE jobs SET … WHERE id = :id`. -/
def Jobs.record (jobs : Jobs) (now : ℤ) (a : Attempt) (outcome : Outcome) : Jobs :=
  jobs.update (fun j => j.id = a.jobId) (a.record now outcome) fun _ => a.record_id ..

/-! ## § Workers -/

/-- The table and the attempts under way. `given` and `pruned` keep what the table
forgets: every attempt ever given, and every row deleted with the time of its
deletion. -/
structure Workshop where
  jobs : Jobs
  running : List Attempt
  given : List Attempt
  pruned : List (Job × ℤ)

def Workshop.empty : Workshop := ⟨.empty, [], [], []⟩

inductive Work
  | enqueue (kind : Kind) (dedupeKey : String) (dueAt : Option ℤ)
  | claim (kinds : List Kind) (locked : List ℕ)
  | finish (i : ℕ) (outcome : Outcome)
  | crash (i : ℕ)
  | prune

/-- One committed transaction on its own clock value, or an attempt lost. -/
def Workshop.step (w : Workshop) (e : ℤ × Work) : Option Workshop :=
  match e.2 with
  | .enqueue kind dedupeKey dueAt =>
      some { w with jobs := w.jobs.enqueue e.1 kind dedupeKey dueAt }
  | .claim kinds locked =>
      let (jobs, attempts) := w.jobs.claim e.1 kinds locked
      some { w with
        jobs := jobs
        running := w.running ++ attempts
        given := w.given ++ attempts }
  | .finish i outcome => w.running[i]?.map fun a =>
      { w with jobs := w.jobs.record e.1 a outcome, running := w.running.eraseIdx i }
  | .crash i => some { w with running := w.running.eraseIdx i }
  | .prune =>
      let (jobs, deleted) := w.jobs.prune e.1
      some { w with jobs := jobs, pruned := w.pruned ++ deleted.map fun j => (j, e.1) }

def Workshop.run (w : Workshop) (es : List (ℤ × Work)) : Option Workshop :=
  Runs.run Workshop.step w es

end Ziftbook
