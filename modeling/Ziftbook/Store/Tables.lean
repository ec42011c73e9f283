import Ziftbook.Foundation.Table
import Ziftbook.Schedule

/-!
# One business's tables

Row-level security shows a request the rows of its own business, so a database
here is one business's. A row carries the CHECKs its table makes and the
queries rely on. Ids are numbers, instants microseconds.
-/

namespace Ziftbook

open Foundation

/-! ## § Bookings -/

/-- `ck_bookings_status`. -/
inductive Status
  | awaitingPayment | pending | confirmed | declined | expired
  | cancelledByMerchant | cancelledByClient | completed | noShow
deriving DecidableEq, Repr

/-- The statuses that hold a worker's time. -/
def occupying : List Status := [.awaitingPayment, .pending, .confirmed, .completed]

/-- Those whose hold is provisional and lapses. -/
def expiring : List Status := [.awaitingPayment, .pending]

/-- The endings that send a paid booking's money back. -/
def refunding : List Status := [.declined, .expired, .cancelledByMerchant, .cancelledByClient]

inductive Source
  | bookingPage | merchant | marketplace
deriving DecidableEq, Repr

/-- `ck_bookings_at_most_12_hours`. -/
def longestBooking : ℤ := 720 * minute

structure Booking where
  id : ℕ
  clientId : ℕ
  workerId : ℕ
  serviceId : ℕ
  startsAt : ℤ
  endsAt : ℤ
  status : Status
  expiresAt : Option ℤ
  source : Source
  durationMinutes : ℤ
  priceAmountMinor : ℤ
  priceCurrency : String
  autoConfirmAtBooking : Bool
  workerDisplayName : Option String
  freeCancellationHours : ℕ
  rescheduleCutoffHours : ℕ
  originalStartsAt : Option ℤ
  earliestStartsAt : Option ℤ
  rescheduleCount : ℕ
  maxReschedules : ℕ
  ordered : startsAt < endsAt
  atMost12Hours : endsAt - startsAt ≤ longestBooking
  holds : status ∈ expiring → expiresAt.isSome
deriving DecidableEq

theorem confirmed_holds : Status.confirmed ∈ expiring → (none : Option ℤ).isSome := by decide

theorem cancelledByClient_not_expiring : Status.cancelledByClient ∉ expiring := by decide

/-- `expires_at > now()`; a null is not. -/
def Booking.unexpired (b : Booking) (now : ℤ) : Prop := ∃ e, b.expiresAt = some e ∧ now < e

/-- `expires_at <= now()`; a null is not. -/
def Booking.lapsed (b : Booking) (now : ℤ) : Prop := ∃ e, b.expiresAt = some e ∧ e ≤ now

instance (b : Booking) (now : ℤ) : Decidable (b.unexpired now) :=
  match h : b.expiresAt with
  | some e => decidable_of_iff (now < e) (by simp [Booking.unexpired, h])
  | none => .isFalse (by simp [Booking.unexpired, h])

instance (b : Booking) (now : ℤ) : Decidable (b.lapsed now) :=
  match h : b.expiresAt with
  | some e => decidable_of_iff (e ≤ now) (by simp [Booking.lapsed, h])
  | none => .isFalse (by simp [Booking.lapsed, h])

/-- The booking's interval shares an instant with `[start, stop)`. -/
def Booking.meets (b : Booking) (start stop : ℤ) : Prop := b.startsAt < stop ∧ start < b.endsAt

instance (b : Booking) (start stop : ℤ) : Decidable (b.meets start stop) :=
  inferInstanceAs (Decidable (_ ∧ _))

/-- The length a booking keeps, in whole minutes. -/
def Booking.length (b : Booking) : ℤ := (b.endsAt - b.startsAt) / minute

/-- The row in a status that needs no deadline; the deadline stays. -/
def Booking.withStatus (b : Booking) (status : Status) (h : status ∉ expiring) : Booking :=
  { b with status := status, holds := fun hs => absurd hs h }

/-- The row at another start, its length kept. -/
def Booking.at (b : Booking) (start : ℤ) : Booking :=
  { b with
    startsAt := start
    endsAt := start + (b.endsAt - b.startsAt)
    ordered := by have := b.ordered; omega
    atMost12Hours := by have := b.atMost12Hours; omega }

/-! ## § Services, members and settings -/

structure Service where
  id : ℕ
  durationMinutes : ℤ
  bufferMinutes : Option ℤ
  priceAmountMinor : ℤ
  priceCurrency : String
  archived : Bool
  duration : 5 ≤ durationMinutes ∧ durationMinutes ≤ 720
  buffer : ∀ minutes ∈ bufferMinutes, 0 ≤ minutes ∧ minutes ≤ 240
deriving DecidableEq

/-- An hour, free of charge and without a buffer of its own. -/
def freeHour : Service := ⟨1, 60, none, 0, "EUR", false, by decide, by simp⟩

inductive Role
  | owner | worker | removed
deriving DecidableEq, Repr

structure Member where
  id : ℕ
  userId : ℕ
  displayName : Option String
  role : Role
deriving DecidableEq

structure WorkingHour where
  memberId : ℕ
  row : Row
deriving DecidableEq

structure ServiceWorker where
  serviceId : ℕ
  memberId : ℕ
deriving DecidableEq

/-- `business_settings.BusinessSettings`, with its fields' bounds. -/
structure Settings where
  timezone : Zone
  autoConfirm : Bool
  workersAnswerRequests : Bool
  bufferPct : ℤ
  slotStepMinutes : ℤ
  minNoticeMinutes : ℤ
  bookingHorizonDays : ℤ
  maxPendingPerEmail : ℕ
  pendingTtlHours : ℤ
  freeCancellationHours : ℕ
  rescheduleCutoffHours : ℕ
  maxReschedules : ℕ
  published : Bool
  bufferPct_range : 0 ≤ bufferPct ∧ bufferPct ≤ 100
  slotStep_range : slotStepMinutes ∈ [(5 : ℤ), 10, 15, 20, 30, 60]
  minNotice_range : 0 ≤ minNoticeMinutes ∧ minNoticeMinutes ≤ 10080
  horizon_range : 1 ≤ bookingHorizonDays ∧ bookingHorizonDays ≤ 365
  pendingTtl_range : 1 ≤ pendingTtlHours ∧ pendingTtlHours ≤ 168

theorem Settings.slotStep_pos (s : Settings) : 0 < s.slotStepMinutes := by
  have h := s.slotStep_range
  simp only [List.mem_cons, List.not_mem_nil, or_false] at h
  omega

/-- The settings of a business that saved none, in its zone. -/
def Settings.defaults (zone : Zone) : Settings where
  timezone := zone
  autoConfirm := false
  workersAnswerRequests := false
  bufferPct := 10
  slotStepMinutes := 15
  minNoticeMinutes := 60
  bookingHorizonDays := 60
  maxPendingPerEmail := 3
  pendingTtlHours := 24
  freeCancellationHours := 48
  rescheduleCutoffHours := 24
  maxReschedules := 2
  published := false
  bufferPct_range := by decide
  slotStep_range := by decide
  minNotice_range := by decide
  horizon_range := by decide
  pendingTtl_range := by decide

/-! ## § Time off -/

/-- A block is a pair of instants or a pair of local days (`ck_time_off_kind`). -/
inductive Block
  | instants (startsAt endsAt : ℤ) (ordered : startsAt < endsAt)
      (length : endsAt - startsAt ≤ 366 * (dayMinutes * minute))
  | days (first last : ℤ) (ordered : first ≤ last) (length : last - first < 366)
deriving DecidableEq

inductive BlockSource
  | manual | google
deriving DecidableEq, Repr

structure TimeOff where
  id : ℕ
  memberId : ℕ
  block : Block
  reason : Option String
  source : BlockSource
deriving DecidableEq

/-! ## § Clients, links, events and payments -/

structure Client where
  id : ℕ
  email : Option String
  erased : Bool
deriving DecidableEq

structure Link where
  tokenHash : ℕ
  bookingId : ℕ
deriving DecidableEq

inductive EventName
  | created | rescheduled | consentConfirmed | expired | cancelledByClient
  | transitioned (target : Status)
  | paymentChecked | paid | refunded | refundFailed
deriving DecidableEq, Repr

/-- Why an erasure ended a booking. -/
inductive ErasureReason
  | clientErased | accountErased | erasureReapplied
deriving DecidableEq, Repr

/-- The keys of `booking_events.details` that the code reads back. -/
inductive EventDetails
  | empty
  | moved (previous next : ℤ)
  | refundPct (pct : ℤ)
  | refund (id : Option ℕ)
  | erasure (reason : ErasureReason) (erasedAt : Option ℤ)
deriving DecidableEq, Repr

/-- An address as `ipaddress` parses it. -/
inductive Address
  | v4 (n : ℕ)
  | v6 (n : ℕ)
deriving DecidableEq, Repr

structure Event where
  bookingId : ℕ
  name : EventName
  ip : Option Address
  actorUserId : Option ℕ
  details : EventDetails
deriving DecidableEq

inductive PaymentKind
  | check | pay
deriving DecidableEq, Repr

inductive PaymentStatus
  | open | checked | paid | canceled
deriving DecidableEq, Repr

/-- An intent's id: `seti_` for a setup, `pi_` for a payment. -/
structure IntentId where
  setup : Bool
  number : ℕ
deriving DecidableEq, Repr

structure Payment where
  id : ℕ
  bookingId : ℕ
  kind : PaymentKind
  intentId : IntentId
  amountMinor : ℤ
  currency : String
  status : PaymentStatus
  refundedMinor : ℤ
  refundId : Option ℕ
  refundFailedAt : Option ℤ
  settledAt : Option ℤ
  kind_status : (kind = .check ∧ status ≠ .paid) ∨ (kind = .pay ∧ status ≠ .checked)
  setup_is_a_check : intentId.setup = false ∨ kind = .check
  refunded_range : 0 ≤ refundedMinor ∧ refundedMinor ≤ amountMinor
  refund_needs_paid : refundedMinor = 0 ∨ status = .paid
deriving DecidableEq

theorem nothing_refunded (status : PaymentStatus) : (0 : ℤ) = 0 ∨ status = .paid := Or.inl rfl

/-- The client mails a settled refund enqueues. A refused refund's has no refund;
`late` says the booking was never placed. -/
inductive Mail
  | bookingExpired (bookingId : ℕ) (late : Bool)
  | bookingRefundFailed (bookingId : ℕ) (refund : Option ℕ)
deriving DecidableEq, Repr

/-! ## § The database -/

structure Db where
  settings : Settings
  services : Table Service ℕ Service.id
  serviceWorkers : List ServiceWorker
  memberships : Table Member ℕ Member.id
  workingHours : List WorkingHour
  openingHours : List Row
  timeOff : Table TimeOff ℕ TimeOff.id
  clients : Table Client ℕ Client.id
  bookings : Table Booking ℕ Booking.id
  links : List Link
  events : List Event
  payments : Table Payment ℕ Payment.id
  mails : List Mail
  /-- The foreign key from bookings to services, which nothing deletes. -/
  booked_service : ∀ b ∈ bookings.rows, ∃ s ∈ services.rows, s.id = b.serviceId

/-- A statement that rewrites bookings never moves one to another service. -/
def Db.updateBookings (db : Db) (p : Booking → Prop) [DecidablePred p]
    (f : Booking → Booking) (hid : ∀ b, (f b).id = b.id)
    (hservice : ∀ b, (f b).serviceId = b.serviceId) : Db :=
  { db with
    bookings := db.bookings.update p f hid
    booked_service := by
      intro b hb
      obtain ⟨a, ha, _, rfl | ⟨_, rfl⟩⟩ := Table.mem_of_mem_update hb
      · exact db.booked_service b ha
      · rw [hservice]
        exact db.booked_service a ha }

theorem Db.mem_updateBookings {db : Db} {p : Booking → Prop} [DecidablePred p]
    {f : Booking → Booking} {hid : ∀ b, (f b).id = b.id}
    {hservice : ∀ b, (f b).serviceId = b.serviceId} {b : Booking} :
    b ∈ (db.updateBookings p f hid hservice).bookings.rows ↔
      (∃ a ∈ db.bookings.rows, p a ∧ f a = b) ∨ (b ∈ db.bookings.rows ∧ ¬ p b) := by
  change b ∈ (db.bookings.update p f hid).rows ↔ _
  exact Table.mem_update

/-- A business whose owner gives one service, with one client and no bookings. -/
def Db.solo (settings : Settings) (service : Service) (hours : List Row) : Db where
  settings := settings
  services := ⟨[service], by simp⟩
  serviceWorkers := [⟨service.id, 1⟩]
  memberships := ⟨[⟨1, 1, none, .owner⟩], by simp⟩
  workingHours := hours.map fun row => ⟨1, row⟩
  openingHours := []
  timeOff := Table.empty
  clients := ⟨[⟨1, none, false⟩], by simp⟩
  bookings := Table.empty
  links := []
  events := []
  payments := Table.empty
  mails := []
  booked_service := by simp [Table.empty]

def Db.record (db : Db) (event : Event) : Db := { db with events := db.events ++ [event] }

end Ziftbook
