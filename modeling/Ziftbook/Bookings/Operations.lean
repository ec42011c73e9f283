import Ziftbook.Availability.Offered
import Ziftbook.Bookings.Cancellation

/-!
# The booking writers

Every handler that places, moves or settles a booking, as the code runs it
after it has taken the tenant lock: a function of the database, the
transaction's clock and the request. A request carries what the handler learns
from outside the tables: the id the insert will generate, the form checks made
before any write, whether the payment step is on.
-/

namespace Ziftbook

open Foundation

/-! ## § Placing -/

/-- `limits.ip_key`'s group: an IPv4 address, an IPv6 /64, or one for the rest. -/
inductive IpKey
  | unknown
  | v4 (n : ℕ)
  | v6 (network : ℕ)
deriving DecidableEq, Repr

/-- An IPv4-mapped address is its IPv4 address. -/
def ipKey : Option Address → IpKey
  | none => .unknown
  | some (.v4 n) => .v4 n
  | some (.v6 n) => if n / 2 ^ 32 = 0xffff then .v4 (n % 2 ^ 32) else .v6 (n / 2 ^ 64)

/-- A new booking's status, with the deadline a provisional one needs. -/
structure Standing where
  status : Status
  expiresAt : Option ℤ
  holds : status ∈ expiring → expiresAt.isSome

def Standing.settled : Standing := ⟨.confirmed, none, confirmed_holds⟩

/-- The row `INSERT_BOOKING` writes. -/
def newBooking (settings : Settings) (service : Service) (id clientId workerId : ℕ)
    (name : Option String) (startsAt : ℤ) (standing : Standing) (source : Source) : Booking where
  id := id
  clientId := clientId
  workerId := workerId
  serviceId := service.id
  startsAt := startsAt
  endsAt := startsAt + service.durationMinutes * minute
  status := standing.status
  expiresAt := standing.expiresAt
  source := source
  durationMinutes := service.durationMinutes
  priceAmountMinor := service.priceAmountMinor
  priceCurrency := service.priceCurrency
  autoConfirmAtBooking := settings.autoConfirm
  workerDisplayName := name
  freeCancellationHours := settings.freeCancellationHours
  rescheduleCutoffHours := settings.rescheduleCutoffHours
  originalStartsAt := some startsAt
  earliestStartsAt := some startsAt
  rescheduleCount := 0
  maxReschedules := settings.maxReschedules
  ordered := by have := service.duration; rw [minute]; omega
  atMost12Hours := by have := service.duration; rw [longestBooking, minute]; omega
  holds := standing.holds

/-- `place`: the first candidate the database takes, with its `created` event. -/
def place (db : Db) (settings : Settings) (service : Service) (id clientId : ℕ)
    (startsAt : ℤ) (standing : Standing) (source : Source) (ip : Option Address)
    (actorUserId : Option ℕ) : List ℕ → Except ApiError (Db × Booking)
  | [] => .error ⟨409, .slotTaken⟩
  | candidate :: queue =>
      let booking := newBooking settings service id clientId candidate (db.nameOf candidate)
        startsAt standing source
      match db.insertBooking booking with
      | .ok db' => .ok (db'.record ⟨id, .created, ip, actorUserId, .empty⟩, booking)
      | .error .other => .error ⟨500, .internal⟩
      | .error _ =>
          place db settings service id clientId startsAt standing source ip actorUserId queue

/-- `load[m]` of `by_load`: the member's bookings read that start that day. -/
def loadOn (bookedRows : List BookedRow) (day : ℤ) (zone : Zone) (member : ℕ) : ℕ :=
  (bookedRows.filter fun r =>
    r.workerId = member ∧ dateAt zone r.booked.startsAt = day).length

/-- `by_load`: least loaded that day, then by id. -/
def byLoad (eligible : List ℕ) (bookedRows : List BookedRow) (day : ℤ) (zone : Zone) :
    List ℕ :=
  eligible.insertionSort fun m n =>
    toLex (loadOn bookedRows day zone m, m) ≤ toLex (loadOn bookedRows day zone n, n)

/-- `eligible_for`: who, of these members, can take this exact start. -/
def eligibleFor (db : Db) (now : ℤ) (settings : Settings) (hours : List WorkingHour)
    (startsAt duration : ℤ) (bufferMinutes : Option ℤ) (exclude : Option ℕ) :
    List ℕ × List BookedRow :=
  let day := dateAt settings.timezone startsAt
  let clamped := window now settings.timezone day day settings.minNoticeMinutes
    settings.bookingHorizonDays
  if clamped.2.1 < clamped.1 then ([], [])
  else
    let members := candidateIds hours
    let result := offered db now members hours (byWeekday db.openingHours) settings clamped.1
      clamped.2.1 clamped.2.2 duration (bufferFor duration bufferMinutes settings.bufferPct)
      exclude
    (members.filter fun m => startsAt ∈ result.slotsOf m, result.booked)

/-! ## § The client's own booking -/

/-- The form checks made before any write. -/
inductive FormFault
  | unknownPolicyVersion | purposeNotInPolicyVersion | phoneInvalid | messageInvalid
deriving DecidableEq, Repr

def FormFault.code : FormFault → Code
  | .unknownPolicyVersion => .unknownPolicyVersion
  | .purposeNotInPolicyVersion => .purposeNotInPolicyVersion
  | .phoneInvalid => .phoneInvalid
  | .messageInvalid => .messageInvalid

structure OnlineRequest where
  serviceId : ℕ
  memberId : Option ℕ
  startsAt : ℤ
  address : String
  shownCurrency : Option String
  form : Option FormFault
  /-- `payments.offer` named an account: the payment step is on. -/
  offer : Bool
  payment : Option PaymentKind
  /-- The proving session is still live, or there is none to prove. -/
  held : Bool
  ip : Option Address
  bookingId : ℕ
  clientId : ℕ

/-- `AWAITING_PAYMENT_TTL`, in minutes. -/
def awaitingPaymentTtl : ℤ := 30

/-- `PENDING_ACROSS_IPS`. -/
def pendingAcrossIps : ℕ := 3

/-- `find_or_create`: the client of the address, or a new one. -/
def Db.findOrCreate (db : Db) (address : String) (fresh : ℕ) : Option (Db × ℕ) :=
  match db.clients.rows.find? fun c => c.email = some address with
  | some c => some (db, c.id)
  | none => (db.clients.insert ⟨fresh, some address, false⟩).map fun clients =>
      ({ db with clients := clients }, fresh)

/-- What a new online booking stands as: in checkout, confirmed, or a request. -/
def standingFor (settings : Settings) (offer : Bool) (now : ℤ) : Standing :=
  if offer then ⟨.awaitingPayment, some (now + awaitingPaymentTtl * minute), fun _ => rfl⟩
  else if settings.autoConfirm then Standing.settled
  else ⟨.pending, some (now + settings.pendingTtlHours * hour), fun _ => rfl⟩

/-- `book_online`. -/
def bookOnline (db : Db) (now : ℤ) (new : OnlineRequest) : Except ApiError (Db × Booking) := do
  let service ← found (db.service new.serviceId) ⟨404, .notFound⟩
  let settings := db.settings
  require (settings.published = true) ⟨404, .notFound⟩
  require (∀ currency ∈ new.shownCurrency, currency = service.priceCurrency)
    ⟨409, .currencyChanged⟩
  let hours := db.candidates new.serviceId new.memberId
  let candidates := candidateIds hours
  require (new.form = none) ⟨422, (new.form.map FormFault.code).getD .internal⟩
  require (new.offer = true → new.payment ≠ none) ⟨422, .paymentRequired⟩
  require (new.offer = false → new.payment = none) ⟨422, .paymentNotOffered⟩
  require (new.held = true) ⟨401, .unauthenticated⟩
  let (db, clientId) ← found (db.findOrCreate new.address new.clientId) ⟨500, .internal⟩
  let db := db.expire now
  let day := dateAt settings.timezone new.startsAt
  let clamped := window now settings.timezone day day settings.minNoticeMinutes
    settings.bookingHorizonDays
  require (¬ clamped.2.1 < clamped.1) ⟨409, .slotUnavailable⟩
  let buffer := bufferFor service.durationMinutes service.bufferMinutes settings.bufferPct
  let result := offered db now candidates hours (byWeekday db.openingHours) settings clamped.1
    clamped.2.1 clamped.2.2 service.durationMinutes buffer none
  let eligible := candidates.filter fun c => new.startsAt ∈ result.slotsOf c
  require (eligible ≠ []) ⟨409, .slotUnavailable⟩
  let placedFrom := db.pendingCount clientId now
  let mine := (placedFrom.filter fun ip => ipKey ip = ipKey new.ip).length
  require (mine < settings.maxPendingPerEmail ∧
    placedFrom.length < pendingAcrossIps * settings.maxPendingPerEmail) ⟨429, .rateLimited⟩
  place db settings service new.bookingId clientId new.startsAt
    (standingFor settings new.offer now) .bookingPage new.ip none
    (byLoad eligible result.booked day settings.timezone)

/-! ## § The merchant's booking and move -/

/-- The client of a merchant's booking: one on file, or one made on the spot. -/
inductive ClientChoice
  | known (id : ℕ)
  | fresh (id : ℕ) (email : Option String)
deriving DecidableEq

structure MerchantRequest where
  client : ClientChoice
  serviceId : ℕ
  memberId : Option ℕ
  startsAt : ℤ
  override : Bool
  ip : Option Address
  bookingId : ℕ

/-- `may_book_for`. -/
def Db.mayBookFor (db : Db) (current : Session) (memberId : Option ℕ) : Prop :=
  current.owner = true ∨ ∃ id ∈ memberId, ∃ m ∈ db.member id, m.userId = current.userId

instance (db : Db) (current : Session) (memberId : Option ℕ) :
    Decidable (db.mayBookFor current memberId) :=
  inferInstanceAs (Decidable (_ ∨ _))

/-- Step 5 of `book`: a known client is on file and not erased. -/
def Db.bookingClient (db : Db) : ClientChoice → Except ApiError (Db × ℕ)
  | .known id => do
      require (∃ c ∈ db.clients.rows, c.id = id ∧ c.erased = false) ⟨422, .unknownClient⟩
      .ok (db, id)
  | .fresh id email => do
      let clients ← found (db.clients.insert ⟨id, email, false⟩) ⟨500, .internal⟩
      .ok ({ db with clients := clients }, id)

/-- `book`: with `override` the grid is skipped and only the exclusion constraint
holds. -/
def book (db : Db) (now : ℤ) (current : Session) (new : MerchantRequest) :
    Except ApiError (Db × Booking) := do
  let service ← found (db.service new.serviceId) ⟨404, .notFound⟩
  require (db.mayBookFor current new.memberId) ⟨403, .ownerOnly⟩
  require (¬ (new.override = true ∧ new.memberId = none)) ⟨422, .memberRequired⟩
  let (db, clientId) ← db.bookingClient new.client
  let db := db.expire now
  let hours := db.candidates new.serviceId new.memberId
  require (hours ≠ []) ⟨409, .slotUnavailable⟩
  let settings := db.settings
  let asked := eligibleFor db now settings hours new.startsAt service.durationMinutes
    service.bufferMinutes none
  require (new.override = true ∨ asked.1 ≠ []) ⟨409, .slotUnavailable⟩
  let queue :=
    if new.override then candidateIds hours
    else byLoad asked.1 asked.2 (dateAt settings.timezone new.startsAt) settings.timezone
  place db settings service new.bookingId clientId new.startsAt Standing.settled .merchant
    new.ip (some current.userId) queue

structure MerchantMove where
  startsAt : ℤ
  memberId : Option ℕ
  override : Bool
  ip : Option Address

/-- What an UPDATE that moves a booking answers to the caller. -/
def Moved.orRaise : Moved → ApiError → Except ApiError Db
  | .written db, _ => .ok db
  | .noRow, e => .error e
  | .overlap, _ => .error ⟨409, .slotTaken⟩

/-- `reschedule` of `app/bookings.py`: a member moves a confirmed booking. -/
def reschedule (db : Db) (now : ℤ) (current : Session) (bookingId : ℕ)
    (change : MerchantMove) : Except ApiError Db := do
  let row ← found (db.bookings.find bookingId) ⟨404, .notFound⟩
  let user ← found (db.workerUser row) ⟨404, .notFound⟩
  require (current.mayManage user) ⟨403, .ownerOnly⟩
  let workerId := change.memberId.getD row.workerId
  require (workerId = row.workerId ∨ db.mayBookFor current (some workerId)) ⟨403, .ownerOnly⟩
  require (row.status = .confirmed) ⟨409, .invalidTransition⟩
  require (¬ (change.startsAt = row.startsAt ∧ workerId = row.workerId)) ⟨422, .unchanged⟩
  let db := db.expire now
  let hours := db.candidates row.serviceId (some workerId)
  require (hours ≠ []) ⟨409, .slotUnavailable⟩
  require (change.override = true ∨ (db.service row.serviceId).isSome) ⟨409, .slotUnavailable⟩
  let buffer := (db.service row.serviceId).bind Service.bufferMinutes
  let eligible := (eligibleFor db now db.settings hours change.startsAt row.length buffer
    (some bookingId)).1
  require (change.override = true ∨ eligible ≠ []) ⟨409, .slotUnavailable⟩
  let db' ← (db.move bookingId change.startsAt workerId (db.nameOf workerId)).orRaise
    ⟨409, .invalidTransition⟩
  .ok (db'.record ⟨bookingId, .rescheduled, change.ip, some current.userId,
    .moved row.startsAt change.startsAt⟩)

/-! ## § The booking link -/

/-- `_slots`: the starts this booking's worker could move it to, or nothing once
its service is archived. -/
def linkSlots (db : Db) (row : Booking) (settings : Settings) (now txNow first last : ℤ) :
    Option (List ℤ) :=
  (db.service row.serviceId).map fun service =>
    let hours := db.candidates row.serviceId (some row.workerId)
    let clamped := window now settings.timezone first last settings.minNoticeMinutes
      settings.bookingHorizonDays
    let buffer := bufferFor row.length service.bufferMinutes settings.bufferPct
    (offered db txNow [row.workerId] hours (byWeekday db.openingHours) settings clamped.1
      clamped.2.1 clamped.2.2 row.length buffer (some row.id)).slotsOf row.workerId

/-- `read_availability` of the booking link: no times where the move would be
refused. -/
def readLinkAvailability (db : Db) (now : ℤ) (tokenHash : ℕ) (first last : ℤ) :
    Except ApiError (List ℤ) := do
  require (validRange first last) ⟨422, .invalidRange⟩
  let row ← found (db.resolve tokenHash now) ⟨404, .linkExpired⟩
  let slots :=
    if (db.decideFor row now).canReschedule then
      (linkSlots db row db.settings now now first last).getD []
    else []
  .ok (slots.dedup.insertionSort (· ≤ ·))

structure LinkMove where
  bookingId : ℕ
  startsAt : ℤ
  rescheduleCount : ℕ
  seenStartsAt : Option ℤ
  ip : Option Address

/-- `reschedule` of `app/booking_links.py`: the client moves a confirmed booking,
or a pending one. -/
def linkReschedule (db : Db) (now : ℤ) (tokenHash : ℕ) (body : LinkMove) :
    Except ApiError Db := do
  let row ← found (db.resolve tokenHash now) ⟨404, .linkExpired⟩
  require (body.bookingId = row.id) ⟨409, .linkChanged⟩
  require ((db.decideFor row now).canReschedule = true) ⟨409, .notAllowed⟩
  require (if row.status = .pending then body.seenStartsAt = some row.startsAt
    else body.rescheduleCount = row.rescheduleCount) ⟨409, .changed⟩
  let settings := db.settings
  let day := dateAt settings.timezone body.startsAt
  let slots := linkSlots db row settings now now day day
  require (body.startsAt ∈ slots.getD []) ⟨409, .slotUnavailable⟩
  let db := db.expire now
  let db' ← (if row.status = .pending then db.pendingMove row.id body.startsAt now
    else db.reschedule row.id body.startsAt body.rescheduleCount).orRaise ⟨409, .changed⟩
  .ok (db'.record ⟨row.id, .rescheduled, body.ip, none, .moved row.startsAt body.startsAt⟩)

structure LinkCancel where
  bookingId : ℕ
  refundPct : ℤ
  ip : Option Address

/-- `cancel` of `app/booking_links.py`. -/
def linkCancel (db : Db) (now : ℤ) (tokenHash : ℕ) (body : LinkCancel) : Except ApiError Db := do
  let row ← found (db.resolve tokenHash now) ⟨404, .linkExpired⟩
  require (body.bookingId = row.id) ⟨409, .linkChanged⟩
  let decision := db.decideFor row now
  require (decision.canCancel = true) ⟨409, .notAllowed⟩
  require (body.refundPct = decision.refundPct) ⟨409, .termsChanged⟩
  let db' ← found (db.clientCancel row.id now) ⟨404, .linkExpired⟩
  .ok (db'.record ⟨row.id, .cancelledByClient, body.ip, none, .refundPct decision.refundPct⟩)

structure LinkConsents where
  bookingId : ℕ
  /-- Purposes granted at booking and not withdrawn since. -/
  granted : Bool
  ip : Option Address

/-- `confirm_consents`: once per booking; the consents themselves are the client's. -/
def confirmConsents (db : Db) (now : ℤ) (tokenHash : ℕ) (body : LinkConsents) :
    Except ApiError Db := do
  let row ← found (db.resolve tokenHash now) ⟨404, .linkExpired⟩
  require (body.bookingId = row.id) ⟨409, .linkChanged⟩
  require (body.granted = true ∧
    ¬ ∃ e ∈ db.events, e.bookingId = row.id ∧ e.name = .consentConfirmed)
    ⟨409, .nothingToConfirm⟩
  .ok (db.record ⟨row.id, .consentConfirmed, body.ip, none, .empty⟩)

/-! ## § The merchant's transitions -/

structure StatusChange where
  status : Target
  startsAt : Option ℤ
  ip : Option Address

/-- The transitions a worker who is not an owner may not make, by what the row
was: undoing a `completed`, answering a request unless the business lets
workers, sending a paid payment back, cancelling what has started. -/
def Db.ownersAlone (db : Db) (row : Booking) (target : Target) (now : ℤ) : Prop :=
  row.status = .completed ∨
    (row.status = .pending ∧ db.settings.workersAnswerRequests = false) ∨
    (target.status ∈ refunding ∧
      (db.paidPayment row.id ∨ (target = .cancelledByMerchant ∧ row.startsAt ≤ now)))

instance (db : Db) (row : Booking) (target : Target) (now : ℤ) :
    Decidable (db.ownersAlone row target now) :=
  inferInstanceAs (Decidable (_ ∨ _))

/-- `transition`: a merchant settles a booking. -/
def transition (db : Db) (now : ℤ) (current : Session) (bookingId : ℕ)
    (change : StatusChange) : Except ApiError Db := do
  let row ← found (db.bookings.find bookingId) ⟨404, .notFound⟩
  let user ← found (db.workerUser row) ⟨404, .notFound⟩
  require (current.mayManage user) ⟨403, .ownerOnly⟩
  require (current.owner = true ∨ ¬ db.ownersAlone row change.status now) ⟨403, .ownerOnly⟩
  let db' ← found (db.transition bookingId change.status change.startsAt now)
    ⟨409, if row.status = .pending ∧ ∃ start ∈ change.startsAt, start ≠ row.startsAt
      then .changed else .invalidTransition⟩
  .ok (db'.record ⟨bookingId, .transitioned change.status.status, change.ip,
    some current.userId, .empty⟩)

end Ziftbook
