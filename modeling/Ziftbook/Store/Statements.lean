import Ziftbook.Availability.Slots
import Ziftbook.Store.Tables

/-!
# The statements

Each SQL statement of the booking code as a function of the database and the
transaction's clock `now`. A statement that updates one row answers with the
new database, or with no row; a statement that moves a booking may instead be
refused by the exclusion constraint.
-/

namespace Ziftbook

open Foundation

/-! ## § What the constraints refuse -/

/-- `ex_bookings_worker_overlap`: another occupying booking of the worker meets
this one. -/
def Db.excluded (db : Db) (b : Booking) : Prop :=
  b.status ∈ occupying ∧ ∃ c ∈ db.bookings.rows, c.id ≠ b.id ∧ c.workerId = b.workerId ∧
    c.status ∈ occupying ∧ c.meets b.startsAt b.endsAt

instance (db : Db) (b : Booking) : Decidable (db.excluded b) :=
  inferInstanceAs (Decidable (_ ∧ _))

/-- What an UPDATE of one booking that changes its time answers. -/
inductive Moved
  | written (db : Db)
  | noRow
  | overlap

/-- `UPDATE bookings SET … WHERE id = :id AND guard RETURNING`. -/
def Db.updateOne (db : Db) (id : ℕ) (guard : Booking → Prop) [DecidablePred guard]
    (f : Booking → Booking) (hid : ∀ b, (f b).id = b.id)
    (hservice : ∀ b, (f b).serviceId = b.serviceId) : Option Db :=
  if ∃ b ∈ db.bookings.rows, b.id = id ∧ guard b then
    some (db.updateBookings (fun b => b.id = id ∧ guard b) f hid hservice)
  else none

/-- The same, of a row whose new time the exclusion constraint checks. -/
def Db.moveOne (db : Db) (id : ℕ) (guard : Booking → Prop) [DecidablePred guard]
    (f : Booking → Booking) (hid : ∀ b, (f b).id = b.id)
    (hservice : ∀ b, (f b).serviceId = b.serviceId) : Moved :=
  if ∃ b ∈ db.bookings.rows, (b.id = id ∧ guard b) ∧ db.excluded (f b) then .overlap
  else
    match db.updateOne id guard f hid hservice with
    | some db' => .written db'
    | none => .noRow

/-! ## § Expiry -/

/-- `EXPIRE`: every lapsed hold, with its event. -/
def Db.expire (db : Db) (now : ℤ) : Db :=
  let gone := fun b : Booking => b.status ∈ expiring ∧ b.lapsed now
  { db.updateBookings gone (fun b => b.withStatus .expired (by decide)) (fun _ => rfl)
      (fun _ => rfl) with
    events := db.events ++ (db.bookings.rows.filter gone).map fun b =>
      ⟨b.id, .expired, none, none, .empty⟩ }

/-- `EXPIRE_ONE`: one checkout hold given back. -/
def Db.expireOne (db : Db) (id : ℕ) : Option Db :=
  (db.updateOne id (fun b => b.status = .awaitingPayment)
    (fun b => b.withStatus .expired (by decide)) (fun _ => rfl) (fun _ => rfl)).map
    fun db' => db'.record ⟨id, .expired, none, none, .empty⟩

/-! ## § Status changes -/

/-- `PAID`'s SET list: what the business's settings make a new request. -/
def Booking.landed (b : Booking) (pendingTtlHours now : ℤ) : Booking :=
  { b with
    status := if b.autoConfirmAtBooking then .confirmed else .pending
    expiresAt :=
      if b.autoConfirmAtBooking then none else some (now + pendingTtlHours * 60 * minute)
    holds := by
      split
      · intro h; cases h with | tail _ h => cases h with | tail _ h => cases h
      · intro _; rfl }

/-- `PAID`: a payment lands on a checkout whose hold has not passed. -/
def Db.paid (db : Db) (id : ℕ) (pendingTtlHours now : ℤ) : Option Db :=
  db.updateOne id (fun b => b.status = .awaitingPayment ∧ b.unexpired now)
    (fun b => b.landed pendingTtlHours now) (fun _ => rfl) (fun _ => rfl)

/-- A merchant's PATCH target. -/
inductive Target
  | confirmed | declined | cancelledByMerchant | completed | noShow
deriving DecidableEq, Repr

def Target.status : Target → Status
  | .confirmed => .confirmed
  | .declined => .declined
  | .cancelledByMerchant => .cancelledByMerchant
  | .completed => .completed
  | .noShow => .noShow

theorem Target.not_expiring (t : Target) : t.status ∉ expiring := by
  cases t <;> decide

/-- Where a target may come from, and whether the appointment must have
started. -/
structure Rule where
  sources : List Status
  pastOnly : Bool

/-- `TRANSITIONS`. -/
def transitions : Target → Rule
  | .confirmed => ⟨[.pending, .completed], false⟩
  | .declined => ⟨[.pending], false⟩
  | .cancelledByMerchant => ⟨[.pending, .confirmed, .completed], false⟩
  | .completed => ⟨[.confirmed], true⟩
  | .noShow => ⟨[.confirmed, .completed], true⟩

/-- `TRANSITION`'s WHERE clause. -/
def Booking.mayBecome (b : Booking) (rule : Rule) (seen : Option ℤ) (now : ℤ) : Prop :=
  b.status ∈ rule.sources ∧ (b.status ∉ expiring ∨ b.unexpired now) ∧
    (rule.pastOnly = true → b.startsAt ≤ now) ∧ ∀ start ∈ seen, b.startsAt = start

instance (b : Booking) (rule : Rule) (seen : Option ℤ) (now : ℤ) :
    Decidable (b.mayBecome rule seen now) :=
  inferInstanceAs (Decidable (_ ∧ _))

def Db.transition (db : Db) (id : ℕ) (target : Target) (seen : Option ℤ) (now : ℤ) :
    Option Db :=
  db.updateOne id (fun b => b.mayBecome (transitions target) seen now)
    (fun b => b.withStatus target.status target.not_expiring)
    (fun _ => rfl) (fun _ => rfl)

/-- Live for the client: confirmed, or a pending whose deadline has not passed. -/
def Booking.answerable (b : Booking) (now : ℤ) : Prop :=
  b.status = .confirmed ∨ (b.status = .pending ∧ b.unexpired now)

instance (b : Booking) (now : ℤ) : Decidable (b.answerable now) :=
  inferInstanceAs (Decidable (_ ∨ _))

/-- `CLIENT_CANCEL`. -/
def Db.clientCancel (db : Db) (id : ℕ) (now : ℤ) : Option Db :=
  db.updateOne id (fun b => now < b.startsAt ∧ b.answerable now)
    (fun b => b.withStatus .cancelledByClient cancelledByClient_not_expiring) (fun _ => rfl)
    (fun _ => rfl)

/-- `END_FOR_ERASURE`'s WHERE clause, at `at_`. -/
def Booking.endsForErasure (b : Booking) (clientId : ℕ) (at_ : ℤ) : Prop :=
  b.clientId = clientId ∧
    ((b.status = .confirmed ∧ at_ < b.startsAt) ∨ (b.status ∈ expiring ∧ b.unexpired at_))

instance (b : Booking) (clientId : ℕ) (at_ : ℤ) : Decidable (b.endsForErasure clientId at_) :=
  inferInstanceAs (Decidable (_ ∧ _))

/-- A checkout expires; the rest are cancelled by the merchant. -/
def erasureEnding (status : Status) : Status :=
  if status = .awaitingPayment then .expired else .cancelledByMerchant

theorem erasureEnding_not_expiring (status : Status) : erasureEnding status ∉ expiring := by
  cases status <;> decide

/-- `END_FOR_ERASURE`: at the erasure's own time unless `at_` says otherwise. -/
def Db.endForErasure (db : Db) (clientId : ℕ) (reason : ErasureReason) (at_ : Option ℤ)
    (actorUserId : Option ℕ) (now : ℤ) : Db :=
  let ended := fun b : Booking => b.endsForErasure clientId (at_.getD now)
  { db.updateBookings ended
      (fun b => b.withStatus (erasureEnding b.status) (erasureEnding_not_expiring _))
      (fun _ => rfl) (fun _ => rfl) with
    events := db.events ++ (db.bookings.rows.filter ended).map fun b =>
      ⟨b.id, if b.status = .awaitingPayment then .expired
        else .transitioned .cancelledByMerchant, none, actorUserId, .erasure reason at_⟩ }

/-! ## § Moves -/

/-- `CLIENT_NOT_ERASED`. -/
def Db.clientNotErased (db : Db) (b : Booking) : Prop :=
  ¬ ∃ c ∈ db.clients.rows, c.id = b.clientId ∧ c.erased = true

instance (db : Db) (b : Booking) : Decidable (db.clientNotErased b) :=
  inferInstanceAs (Decidable (¬ _))

/-- `LEAST(earliest_starts_at, :new)`; LEAST ignores nulls. -/
def least (earliest : Option ℤ) (new : ℤ) : ℤ := min (earliest.getD new) new

/-- `RESCHEDULE`'s SET list. -/
def Booking.rescheduled (b : Booking) (new : ℤ) : Booking :=
  { b.at new with
    earliestStartsAt := some (least b.earliestStartsAt new)
    rescheduleCount := b.rescheduleCount + 1 }

/-- `PENDING_MOVE`'s: the new time is the anchor. -/
def Booking.pendingMoved (b : Booking) (new : ℤ) : Booking :=
  { b.at new with originalStartsAt := some new, earliestStartsAt := some new }

/-- `MOVE`'s: a time and a worker. -/
def Booking.movedBy (b : Booking) (new : ℤ) (worker : ℕ) (name : Option String) : Booking :=
  { b.at new with
    workerId := worker
    workerDisplayName := name
    earliestStartsAt := some (least b.earliestStartsAt new) }

/-- `RESCHEDULE`: the client's move of a confirmed booking. -/
def Db.reschedule (db : Db) (id : ℕ) (new : ℤ) (seen : ℕ) : Moved :=
  db.moveOne id
    (fun b => b.status = .confirmed ∧ b.rescheduleCount = seen ∧ db.clientNotErased b)
    (fun b => b.rescheduled new) (fun _ => rfl) (fun _ => rfl)

/-- `PENDING_MOVE`: the client's move of a request. -/
def Db.pendingMove (db : Db) (id : ℕ) (new now : ℤ) : Moved :=
  db.moveOne id
    (fun b => b.status = .pending ∧ b.unexpired now ∧ now < b.startsAt ∧
      db.clientNotErased b)
    (fun b => b.pendingMoved new) (fun _ => rfl) (fun _ => rfl)

/-- `MOVE`: the merchant's. -/
def Db.move (db : Db) (id : ℕ) (new : ℤ) (worker : ℕ) (name : Option String) : Moved :=
  db.moveOne id (fun b => b.status = .confirmed ∧ db.clientNotErased b)
    (fun b => b.movedBy new worker name) (fun _ => rfl) (fun _ => rfl)

/-! ## § Inserts -/

/-- A refused insert: `ex_bookings_worker_overlap`, the worker's foreign key, or
any other integrity error. -/
inductive IntegrityError
  | exclusion | worker | other
deriving DecidableEq, Repr

/-- `INSERT_BOOKING`. The foreign keys are the worker's and the service's. -/
def Db.insertBooking (db : Db) (b : Booking) : Except IntegrityError Db :=
  if db.excluded b then .error .exclusion
  else if ¬ ∃ m ∈ db.memberships.rows, m.id = b.workerId then .error .worker
  else
    match h : db.bookings.insert b with
    | none => .error .other
    | some bookings =>
        if hservice : ∃ s ∈ db.services.rows, s.id = b.serviceId then
          .ok { db with
            bookings := bookings
            booked_service := by
              intro c hc
              rw [(Table.insert_eq_some h).2, List.mem_append, List.mem_singleton] at hc
              rcases hc with hc | rfl
              · exact db.booked_service c hc
              · exact hservice }
        else .error .other

/-! ## § Reads -/

/-- `SERVICE`: an archived service is not booked. -/
def Db.service (db : Db) (id : ℕ) : Option Service :=
  (db.services.find id).filter fun s => !s.archived

def Db.member (db : Db) (id : ℕ) : Option Member := db.memberships.find id

structure BookedRow where
  workerId : ℕ
  booked : Booked
deriving DecidableEq

/-- `BOOKED`'s WHERE clause. -/
def Booking.bookedIn (b : Booking) (members : List ℕ) (start stop now : ℤ)
    (exclude : Option ℕ) : Prop :=
  b.workerId ∈ members ∧ b.meets start stop ∧ start - dayMinutes * minute < b.startsAt ∧
    b.status ∈ occupying ∧ (b.status ∉ expiring ∨ b.unexpired now) ∧ ∀ id ∈ exclude, b.id ≠ id

instance (b : Booking) (members : List ℕ) (start stop now : ℤ) (exclude : Option ℕ) :
    Decidable (b.bookedIn members start stop now exclude) :=
  inferInstanceAs (Decidable (_ ∧ _))

/-- The booking with its service's buffer, joined live. -/
def Booking.joined (b : Booking) (s : Service) : BookedRow :=
  ⟨b.workerId, b.startsAt, b.endsAt, s.bufferMinutes, b.ordered,
    fun minutes h => (s.buffer minutes h).1⟩

/-- `BOOKED`. -/
def Db.booked (db : Db) (members : List ℕ) (start stop now : ℤ) (exclude : Option ℕ) :
    List BookedRow :=
  (db.bookings.rows.filter fun b => b.bookedIn members start stop now exclude).filterMap
    fun b => (db.services.find b.serviceId).map b.joined

/-- `day_span`: whole local days as UTC midnights. -/
def daySpan (zone : Zone) (first last : ℤ) : ℤ × ℤ :=
  (toUtc zone first 0, toUtc zone (last + 1) 0)

/-- A block as the UTC interval it covers. -/
def Block.span (zone : Zone) : Block → ℤ × ℤ
  | .instants startsAt endsAt _ _ => (startsAt, endsAt)
  | .days first last _ _ => daySpan zone first last

/-- `TIME_OFF`'s WHERE clause. -/
def Block.near : Block → (first last start stop : ℤ) → Prop
  | .instants startsAt endsAt _ _, _, _, start, stop =>
      startsAt < stop ∧ start < endsAt ∧ start - 366 * (dayMinutes * minute) < startsAt
  | .days firstDay lastDay _ _, first, last, _, _ =>
      firstDay ≤ last ∧ first ≤ lastDay ∧ first - 366 < firstDay

instance (block : Block) (first last start stop : ℤ) :
    Decidable (block.near first last start stop) := by
  cases block <;> exact inferInstanceAs (Decidable (_ ∧ _))

/-- `time_off`: one member's blocked time meeting the days, as UTC intervals. -/
def Db.timeOffOf (db : Db) (member : ℕ) (first last : ℤ) (zone : Zone) (start stop : ℤ) :
    List (ℤ × ℤ) :=
  (db.timeOff.rows.filter fun t => t.memberId = member ∧ t.block.near first last start stop).map
    fun t => t.block.span zone

/-- `CANDIDATES`: working hours of the service's workers who are still members. -/
def Db.candidates (db : Db) (serviceId : ℕ) (memberId : Option ℕ) : List WorkingHour :=
  db.workingHours.filter fun w =>
    (⟨serviceId, w.memberId⟩ : ServiceWorker) ∈ db.serviceWorkers ∧
      (∃ m ∈ db.memberships.rows, m.id = w.memberId ∧ m.role ≠ .removed) ∧
      ∀ id ∈ memberId, w.memberId = id

/-- `sorted(hours)`: the members with hours, by id. -/
def candidateIds (hours : List WorkingHour) : List ℕ :=
  (hours.map WorkingHour.memberId).dedup.insertionSort (· ≤ ·)

/-- `hours[member]`. -/
def hoursOf (hours : List WorkingHour) (member : ℕ) : List Row :=
  (hours.filter fun w => w.memberId = member).map WorkingHour.row

/-- `names[member]`. -/
def Db.nameOf (db : Db) (member : ℕ) : Option String :=
  (db.member member).bind Member.displayName

/-- `PAID_PAYMENT`. -/
def Db.paidPayment (db : Db) (bookingId : ℕ) : Prop :=
  ∃ p ∈ db.payments.rows, p.bookingId = bookingId ∧ p.status = .paid

instance (db : Db) (bookingId : ℕ) : Decidable (db.paidPayment bookingId) :=
  inferInstanceAs (Decidable (∃ p ∈ db.payments.rows, _))

/-- `UPCOMING`: a live appointment of the worker, not over yet. -/
def Db.upcoming (db : Db) (worker : ℕ) (now : ℤ) : Prop :=
  ∃ b ∈ db.bookings.rows, b.workerId = worker ∧ now < b.endsAt ∧
    (b.status = .confirmed ∨ (b.status ∈ expiring ∧ b.unexpired now))

instance (db : Db) (worker : ℕ) (now : ℤ) : Decidable (db.upcoming worker now) :=
  inferInstanceAs (Decidable (∃ b ∈ db.bookings.rows, _))

/-- `IN_THE_WAY`: a live appointment in `after` that `before` did not cover. -/
def Booking.inTheWay (b : Booking) (member : ℕ) (after : ℤ × ℤ) (before : Option (ℤ × ℤ))
    (now : ℤ) : Prop :=
  b.workerId = member ∧ b.meets after.1 after.2 ∧ after.1 - longestBooking < b.startsAt ∧
    now < b.endsAt ∧ b.answerable now ∧ ∀ old ∈ before, ¬ b.meets old.1 old.2

instance (b : Booking) (member : ℕ) (after : ℤ × ℤ) (before : Option (ℤ × ℤ)) (now : ℤ) :
    Decidable (b.inTheWay member after before now) :=
  inferInstanceAs (Decidable (_ ∧ _))

/-- `PENDING_COUNT`: one row for each booking of the client that counts, with the
address that placed it. -/
def Db.pendingCount (db : Db) (clientId : ℕ) (now : ℤ) : List (Option Address) :=
  (db.bookings.rows.filter fun b => b.clientId = clientId ∧
    ((b.status ∈ expiring ∧ b.unexpired now) ∨
      (b.status = .confirmed ∧ b.autoConfirmAtBooking = true ∧ b.source = .bookingPage ∧
        now < b.startsAt))).flatMap fun b =>
    match db.events.filter fun e => e.bookingId = b.id ∧ e.name = .created with
    | [] => [none]
    | created => created.map Event.ip

/-- `RESOLVE`: the live booking a link's hash names. -/
def Db.resolve (db : Db) (tokenHash : ℕ) (now : ℤ) : Option Booking :=
  (db.links.find? fun l => l.tokenHash = tokenHash).bind fun l =>
    (db.bookings.find l.bookingId).filter fun b => now < b.startsAt ∧ b.answerable now

/-- `RESOLVE`'s count of the booking's moves. -/
def Db.moves (db : Db) (bookingId : ℕ) : ℕ :=
  (db.events.filter fun e => e.bookingId = bookingId ∧ e.name = .rescheduled).length

end Ziftbook
