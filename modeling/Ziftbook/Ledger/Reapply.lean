import Ziftbook.Jobs.Queue
import Ziftbook.Ledger.Reading
import Ziftbook.LocalTime
import Ziftbook.Machine

/-!
# Re-applying erasures

`ledger.reapply`, in one transaction over every business of a restored database, and the
erase core it calls. The bookings an erasure ends are those live at the entry's time; those
the core refuses over are live at the transaction's.
-/

namespace Ziftbook

open Foundation

/-! ## § The restored database -/

/-- Microseconds since 1970. -/
def Stamp.instant (s : Stamp) : ℤ :=
  (dayMinutes * daysFromCivil s.year s.month s.day + 60 * s.hour + s.minute) * Ziftbook.minute +
    s.second * Ziftbook.second + s.microsecond

/-- One business: its tables, when its clients were erased, and when the newest of its
bookings and booking events was written. -/
structure Business where
  id : ℕ
  db : Db
  erasedAt : ℕ → Option ℤ
  writtenAt : Option ℤ
  erased_iff : ∀ c ∈ db.clients.rows, c.erased = (erasedAt c.id).isSome

/-- What a run counts; `paidEnded` are the bookings it logs by id. -/
structure Report where
  entries : ℕ
  reapplied : ℕ
  alreadyErased : ℕ
  absent : ℕ
  cancelled : ℕ
  paidEnded : List ℕ
  skipped : List (List Char)
deriving DecidableEq

/-- A row of `audit_events` or `platform_audit_events`, with a run's report. -/
structure AuditRecord where
  createdAt : ℤ
  report : Option Report
deriving DecidableEq

structure Restored where
  businesses : Table Business ℕ Business.id
  jobs : Jobs
  audit : List AuditRecord

/-- `Refused` with its exit code, or any other error. -/
inductive ReapplyError
  | refused (code : ℕ)
  | raised
deriving DecidableEq

/-! ## § `check_window` -/

/-- `NEWEST_GLOBAL`. -/
def Restored.newestGlobal (r : Restored) : Option ℤ :=
  (r.audit.map AuditRecord.createdAt ++ r.jobs.table.rows.filterMap Job.completedAt).max?

/-- `NEWEST_IN_BUSINESS`. -/
def Business.newest (b : Business) : Option ℤ :=
  (b.writtenAt.toList ++ b.db.clients.rows.filterMap fun c => b.erasedAt c.id).max?

/-- `ERASED_FROM`. -/
def Business.erasedFrom (b : Business) (since : ℤ) : List ℕ :=
  (b.db.clients.rows.filter fun c : Client => ∃ at_ ∈ b.erasedAt c.id, since ≤ at_).map Client.id

/-- `RETENTION`. -/
def retention : ℤ := 14 * oneDay

/-- `check_window`, on the clock it reads. -/
def Restored.checkWindow (r : Restored) (clock : ℤ) (since : Option ℤ)
    (entries : List LedgerEntry) : Except ReapplyError Unit :=
  let erased := r.businesses.rows.flatMap fun b => b.erasedFrom (since.getD (clock - retention))
  let latest := ((r.newestGlobal :: r.businesses.rows.map Business.newest).filterMap id).max?
  if ∃ s ∈ since, ∀ newest ∈ latest, newest < s then .error (.refused 2)
  else if erased ≠ [] ∧ ∀ id ∈ erased, ∀ e ∈ entries, e.clientId.number ≠ id then
    .error (.refused 1)
  else .ok ()

/-! ## § The erase core -/

def Client.blank (c : Client) : Client := { c with email := none, erased := true }

/-- The tables once the client is blanked. -/
def Db.blankClient (db : Db) (clientId : ℕ) : Db :=
  { db with
    clients := db.clients.update (fun c => c.id = clientId) Client.blank fun _ => rfl
    links := db.links.filter fun l =>
      ¬ ∃ b ∈ db.bookings.rows, b.id = l.bookingId ∧ b.clientId = clientId }

theorem Db.mem_blankClient {db : Db} {clientId : ℕ} {c : Client} :
    c ∈ (db.blankClient clientId).clients.rows ↔
      (∃ a ∈ db.clients.rows, a.id = clientId ∧ a.blank = c) ∨
      (c ∈ db.clients.rows ∧ ¬ c.id = clientId) :=
  @Table.mem_update _ _ _ db.clients (fun c => c.id = clientId) _ Client.blank (fun _ => rfl) c

/-- The time a client's erasure keeps is the first one's. -/
def Business.blankClient (b : Business) (now : ℤ) (clientId : ℕ) : Business :=
  { b with
    db := b.db.blankClient clientId
    erasedAt := Function.update b.erasedAt clientId (some ((b.erasedAt clientId).getD now))
    erased_iff := by
      intro c hc
      rcases Db.mem_blankClient.mp hc with ⟨a, _, hid, rfl⟩ | ⟨hc, hid⟩
      · simp [Client.blank, hid]
      · rw [Function.update_of_ne hid]
        exact b.erased_iff c hc }

/-- `erase_client_core`: when the client was erased, or nothing for a client this business
does not have. -/
def Business.eraseClientCore (b : Business) (now : ℤ) (clientId : ℕ) :
    Except ReapplyError (Business × Option ℤ) :=
  if ∃ k ∈ b.db.bookings.rows, k.endsForErasure clientId now then .error .raised
  else
    match b.db.clients.find clientId with
    | none => .ok (b, none)
    | some _ => .ok (b.blankClient now clientId, some ((b.erasedAt clientId).getD now))

/-- A client's erasure by the owner ends its bookings and calls the same core. -/
theorem eraseClient_eq (db : Db) (now : ℤ) (clientId : ℕ) (reason : ErasureReason)
    (at_ : Option ℤ) (actorUserId : Option ℕ) :
    eraseClient db now clientId reason at_ actorUserId =
      (require (¬ ∃ b ∈ (db.endForErasure clientId reason at_ actorUserId now).bookings.rows,
        b.endsForErasure clientId now) ⟨500, .internal⟩ >>= fun _ =>
          .ok ((db.endForErasure clientId reason at_ actorUserId now).blankClient clientId)) := rfl

/-! ## § One erasure again -/

/-- The bookings `END_FOR_ERASURE` returns. -/
def Db.endedFor (db : Db) (clientId : ℕ) (at_ : ℤ) : List ℕ :=
  (db.bookings.rows.filter fun k => k.endsForErasure clientId at_).map Booking.id

/-- `end_for_erasure`, for a re-applied erasure. -/
def Business.endForErasure (b : Business) (now : ℤ) (clientId : ℕ) (at_ : ℤ) : Business :=
  { b with
    db := b.db.endForErasure clientId .erasureReapplied (some at_) none now
    writtenAt :=
      if b.db.endedFor clientId at_ = [] then b.writtenAt else some (max (b.writtenAt.getD now) now)
    erased_iff := b.erased_iff }

/-- `UNSETTLED_OF`. -/
def Db.unsettledOf (db : Db) (ids : List ℕ) : List ℕ :=
  ((db.payments.rows.filter fun p => p.bookingId ∈ ids ∧ p.settledAt = none).map
    Payment.bookingId).dedup

/-- `PAID_OF`. -/
def Db.paidOf (db : Db) (ids : List ℕ) : List ℕ :=
  ((db.payments.rows.filter fun p => p.bookingId ∈ ids ∧ p.status ∈ [.paid, .open] ∧
    p.settledAt = none ∧ p.kind = .pay).map Payment.bookingId).dedup

/-- `payments.settle_ended`. -/
def Jobs.settleEnded (jobs : Jobs) (now : ℤ) (tenantId : ℕ) (ids : List ℕ) : Jobs :=
  ids.foldl (fun jobs bookingId => jobs.enqueue now .paymentSettle
    s!"payment.settle:{tenantId}:{bookingId}:erased" none) jobs

/-- `DUE` in the session's time zone, and how a time is written there. -/
structure SessionClock where
  due : ℤ → ℤ
  isoformat : ℤ → String

/-- `erasure_holds.enqueue_purge`. -/
def Jobs.enqueuePurge (jobs : Jobs) (clock : SessionClock) (now : ℤ) (tenantId clientId : ℕ)
    (erasedAt : ℤ) : Jobs :=
  let dueAt := clock.due erasedAt
  let written := clock.isoformat dueAt
  jobs.enqueue now .erasureHoldPurge s!"erasure.hold_purge:{tenantId}:{clientId}:{written}"
    (some dueAt)

/-- What re-applying one entry leaves of its business and of the jobs, and the bookings it
ended with those that hold money. -/
structure Again where
  business : Business
  jobs : Jobs
  ended : List ℕ
  paidEnded : List ℕ

/-- The body of `reapply`'s loop, for a client on file and not erased. -/
def Business.reapply (b : Business) (clock : SessionClock) (now : ℤ) (jobs : Jobs)
    (clientId : ℕ) (at_ : ℤ) : Except ReapplyError Again := do
  let ended := b.db.endedFor clientId at_
  let b := b.endForErasure now clientId at_
  let jobs := jobs.settleEnded now b.id (b.db.unsettledOf ended)
  let paid := b.db.paidOf ended
  let (b, erasedAt) ← b.eraseClientCore now clientId
  match erasedAt with
  | none => .error .raised
  | some erasedAt => .ok ⟨b, jobs.enqueuePurge clock now b.id clientId erasedAt, ended, paid⟩

/-- The business with that key rewritten. -/
def Restored.withBusiness (r : Restored) (b : Business) (jobs : Jobs) : Restored :=
  { r with
    businesses := r.businesses.update (fun a => a.id = b.id) (fun a => { b with id := a.id })
      fun _ => rfl
    jobs := jobs }

/-- One turn of `reapply`'s loop. -/
def reapplyEntry (clock : SessionClock) (now : ℤ) (run : Restored × Report) (e : LedgerEntry) :
    Except ReapplyError (Restored × Report) :=
  let (r, report) := run
  match r.businesses.find e.tenantId.number with
  | none => .ok (r, { report with absent := report.absent + 1 })
  | some b =>
      match b.db.clients.find e.clientId.number with
      | none => .ok (r, { report with absent := report.absent + 1 })
      | some c =>
          if (b.erasedAt c.id).isSome then
            .ok (r, { report with alreadyErased := report.alreadyErased + 1 })
          else do
            let again ← b.reapply clock now r.jobs c.id e.erasedAt.instant
            return (r.withBusiness again.business again.jobs,
              { report with
                reapplied := report.reapplied + 1
                cancelled := report.cancelled + again.ended.length
                paidEnded := report.paidEnded ++ again.paidEnded })

/-! ## § The run -/

/-- `SKEW`. -/
def skew : ℤ := 5 * minute

/-- A run's arguments, the clocks it reads, and what it finds of other sessions. -/
structure ReapplyRun where
  since : Option Stamp
  skip : List (List Char)
  readAt : ℤ
  latest : Stamp
  latest_eq : latest.instant = readAt + skew
  checkedAt : ℤ
  now : ℤ
  alone : Bool
  connected : ℕ

def ReadError.toReapply : ReadError → ReapplyError
  | .uncaught => .raised
  | .refused code => .refused code

/-- `reapply`: the database its transaction commits, and what it reports. -/
def Restored.reapply (p : Python) (clock : SessionClock) (ledger : Ledger) (run : ReapplyRun)
    (r : Restored) : Except ReapplyError (Restored × Report) := do
  let (entries, skipped) ←
    (ledger.read p run.since run.skip run.latest).mapError ReadError.toReapply
  r.checkWindow run.checkedAt (run.since.map Stamp.instant) entries
  if run.alone = false then .error (.refused 1)
  else if run.connected ≠ 0 then .error (.refused 1)
  else
    let (r, report) ← entries.foldlM (reapplyEntry clock run.now)
      (r, ⟨entries.length, 0, 0, 0, 0, [], skipped⟩)
    return ({ r with audit := r.audit ++ [⟨run.now, some report⟩] }, report)

/-- The database after a run: an error rolls its one transaction back. -/
def Restored.afterReapply (p : Python) (clock : SessionClock) (ledger : Ledger) (run : ReapplyRun)
    (r : Restored) : Restored :=
  match r.reapply p clock ledger run with
  | .ok (r, _) => r
  | .error _ => r

end Ziftbook
