import Ziftbook.Clients.Records

/-!
# Requests on a business's clients

What each handler that writes a client, a consent or a booking's columns about its client does,
one transaction after another: the booking page, the console, the emailed link, and an
erasure. A refused request leaves nothing.
-/

namespace Ziftbook.Clients

open Foundation Csp

/-! ## § Bookings -/

/-- A live session's holder and their verified address. -/
structure Account where
  userId : ℕ
  email : Text
deriving DecidableEq

/-- What a booking of the page carries. `held` says the proving session is still its holder's
when the transaction reads it again; the times and status are the slot's, found elsewhere. -/
structure PageBooking where
  accounts : List Account
  held : Bool
  name : ClientName
  address : Text
  phone : Text
  locale : Option Locale
  policyVersion : String
  consents : Choices
  message : Option Text
  origin : Origin
  status : Status
  startsAt : ℤ
  expiresAt : Option ℤ
  checkoutHash : Option ℕ
  clock : Purpose → ℤ
  createdAt : ℤ

/-- `create`'s proof: the first live session whose address is the one typed. -/
def PageBooking.proof (new : PageBooking) : Option Account :=
  new.accounts.find? fun a => a.email = new.address

/-- Withdrawals only, and only of a proven address. -/
def PageBooking.withdrawals (new : PageBooking) : Choices :=
  if new.proof.isSome then new.consents.only false else fun _ => none

/-- What the `created` event keeps: of a guest, what was ticked. -/
def PageBooking.kept (new : PageBooking) : Choices :=
  if new.proof.isSome then new.consents else new.consents.only true

def PageBooking.typed (new : PageBooking) (phone : Text) : Person :=
  ⟨new.proof.map Account.userId, new.name, some new.address, some phone, new.locale, none, none⟩

def Register.nextBooking (s : Register) : ℕ :=
  (s.bookings.rows.map Appointment.id).foldr max 0 + 1

theorem Register.lt_nextBooking {s : Register} {b : Appointment} (h : b ∈ s.bookings.rows) :
    b.id < s.nextBooking :=
  lt_foldr_max b.id (List.mem_map_of_mem h)

/-- `place`'s two inserts: the booking and its `created` event. -/
def Register.place (s : Register) (row : ℕ → Appointment) (event : ℕ → Happening)
    (hid : ∀ id, (row id).id = id) : Register :=
  { s with
    bookings := s.bookings.add (row s.nextBooking) fun b hb => by
      rw [hid]
      exact (Register.lt_nextBooking hb).ne
    events := s.events ++ [event s.nextBooking] }

section PhoneNumbers

-- `number`: a typed phone as it is stored, in the business's country
variable (number : Text → Option Text)

/-- `book_online`, of a booking that gets its slot. -/
def Register.bookOnline (s : Register) (new : PageBooking) : Except Refusal Register :=
  if ¬ ∃ l ∈ [Locale.en, .nl, .pt], new.policyVersion = policyVersionFor l then
    .error .unknownPolicyVersion
  else
    match textsFor new.policyVersion new.consents.named with
    | .error e => .error e
    | .ok _ =>
        match number new.phone with
        | none => .error .phoneInvalid
        | some phone =>
            if new.proof.isSome ∧ new.held = false then .error .unauthenticated
            else
              let (s', clientId) := s.findOrCreate (new.typed phone) new.proof.isSome
              match s'.recordConsents clientId new.policyVersion new.withdrawals .bookingPage
                new.origin new.clock with
              | .error e => .error e
              | .ok s' =>
                  .ok (s'.place
                    (fun id => ⟨id, clientId, new.status, new.startsAt, new.expiresAt,
                      some new.name.1, some phone, new.message, none, new.checkoutHash,
                      new.proof.map Account.userId⟩)
                    (fun id => ⟨id, .created, new.origin, some new.policyVersion, some new.kept,
                      none, none, new.createdAt⟩)
                    fun _ => rfl)

/-- `ClientIn`. -/
structure ClientIn where
  name : ClientName
  email : Option Text
  phone : Option Text
  locale : Option Locale

/-- `clients.insert`, its phone as it is stored. -/
def Register.create (s : Register) (new : ClientIn) : Except Refusal (Register × ℕ) :=
  match new.phone with
  | none => s.insert ⟨none, new.name, new.email, none, new.locale, none, none⟩
  | some phone =>
      match number phone with
      | none => .error .phoneInvalid
      | some stored => s.insert ⟨none, new.name, new.email, some stored, new.locale, none, none⟩

/-- The client of a booking made in the console: one on file, or a new one. -/
inductive ClientChoice
  | onFile (id : ℕ)
  | new (client : ClientIn)

structure ConsoleBooking where
  client : ClientChoice
  origin : Origin
  actorUserId : ℕ
  startsAt : ℤ
  createdAt : ℤ

def Register.choose (s : Register) : ClientChoice → Except Refusal (Register × ℕ)
  | .onFile id =>
      match s.live id with
      | none => .error .unknownClient
      | some _ => .ok (s, id)
  | .new client => s.create number client

/-- `book`, of a booking that gets its slot. -/
def Register.book (s : Register) (new : ConsoleBooking) : Except Refusal Register :=
  match s.choose number new.client with
  | .error e => .error e
  | .ok (s, clientId) =>
      .ok (s.place
        (fun id => ⟨id, clientId, .confirmed, new.startsAt, none, none, none, none, none, none,
          none⟩)
        (fun id => ⟨id, .created, new.origin, none, none, some new.actorUserId, none,
          new.createdAt⟩)
        fun _ => rfl)

end PhoneNumbers

/-! ## § The emailed link -/

/-- `RESOLVE`: the booking the link's hash names, while it is live. -/
def Register.resolve (s : Register) (tokenHash : ℕ) (now : ℤ) : Option Appointment :=
  (s.links.find? fun l => l.tokenHash = tokenHash).bind fun l =>
    (s.bookings.find l.bookingId).filter fun b => now < b.startsAt ∧
      (b.status = .confirmed ∨ (b.status = .pending ∧ ∃ e ∈ b.expiresAt, now < e))

structure Confirmation where
  tokenHash : ℕ
  bookingId : ℕ
  origin : Origin
  clock : Purpose → ℤ
  createdAt : ℤ

/-- `dict.fromkeys(purposes, True)`. -/
def granting (purposes : List Purpose) : Choices :=
  fun p => if p ∈ purposes then some true else none

/-- `confirm_consents`. -/
def Register.confirmConsents (s : Register) (now : ℤ) (c : Confirmation) :
    Except Refusal Register :=
  match s.resolve c.tokenHash now with
  | none => .error .linkExpired
  | some b =>
      if c.bookingId ≠ b.id then .error .linkChanged
      else
        match s.consentEvent b.id with
        | none => .error .nothingToConfirm
        | some event =>
            let purposes := s.pendingConsents b.id b.clientId
            if purposes = [] then .error .nothingToConfirm
            else
              match s.recordConsents b.clientId (event.policyVersion.getD "")
                (granting purposes) .bookingPage c.origin c.clock with
              | .error e => .error e
              | .ok s' =>
                  .ok { s' with
                    events := s'.events ++ [⟨b.id, .consentConfirmed, c.origin, none, none, none,
                      none, c.createdAt⟩] }

/-! ## § The console -/

structure MemberRecord where
  clientId : ℕ
  policyVersion : String
  purposes : Choices
  origin : Origin
  clock : Purpose → ℤ

/-- `add_consents`. -/
def Register.addConsents (s : Register) (body : MemberRecord) : Except Refusal Register :=
  match s.live body.clientId with
  | none => .error .notFound
  | some _ => s.recordConsents body.clientId body.policyVersion body.purposes .merchant
      body.origin body.clock

/-! ## § An erasure -/

/-- Still to come at the moment, or held until after it. -/
def Appointment.liveAt (b : Appointment) (at_ : ℤ) : Prop :=
  (b.status = .confirmed ∧ at_ < b.startsAt) ∨
    ((b.status = .pending ∨ b.status = .awaitingPayment) ∧ ∃ e ∈ b.expiresAt, at_ < e)

instance (b : Appointment) (at_ : ℤ) : Decidable (b.liveAt at_) :=
  inferInstanceAs (Decidable (_ ∨ _))

def Appointment.ended (b : Appointment) : Appointment :=
  { b with status := if b.status = .awaitingPayment then .expired else .cancelledByMerchant }

structure Erasure where
  clientId : ℕ
  reason : ErasureReason
  at_ : Option ℤ
  actorUserId : Option ℕ
  announce : Bool
  clock : ℕ → ℤ

/-- `END_FOR_ERASURE`. -/
def Register.endForErasure (s : Register) (now : ℤ) (e : Erasure) : Register :=
  { s with
    bookings := s.bookings.update
      (fun b => b.clientId = e.clientId ∧ b.liveAt (e.at_.getD now)) Appointment.ended
      fun _ => rfl
    events := s.events ++ (s.bookings.rows.filter fun b =>
      b.clientId = e.clientId ∧ b.liveAt (e.at_.getD now)).map fun b =>
        ⟨b.id, if b.status = .awaitingPayment then .expired else .transitioned .cancelledByMerchant,
          ⟨none, none⟩, none, none, e.actorUserId, some e.reason, e.clock b.id⟩ }

/-- Whether the booking is the client's. -/
def Register.isOf (s : Register) (clientId bookingId : ℕ) : Prop :=
  ∃ b ∈ s.bookings.rows, b.id = bookingId ∧ b.clientId = clientId

instance (s : Register) (clientId bookingId : ℕ) : Decidable (s.isOf clientId bookingId) :=
  inferInstanceAs (Decidable (∃ b ∈ s.bookings.rows, _))

/-- `client_money_owed`. -/
def Register.moneyOwed (s : Register) (clientId : ℕ) (now : ℤ) : Prop :=
  ∃ p ∈ s.payments, ∃ b ∈ s.bookings.rows, b.id = p.bookingId ∧ b.clientId = clientId ∧
    (p.refundFailedAt.isSome ∨ (p.settledAt = none ∧
      ((p.status = .open ∧ ¬ (b.status = .awaitingPayment ∧ ∃ e ∈ b.expiresAt, now < e)) ∨
        p.status = .checked ∨ (p.status = .paid ∧ b.status ∈ refunding))))

instance (s : Register) (clientId : ℕ) (now : ℤ) : Decidable (s.moneyOwed clientId now) :=
  inferInstanceAs (Decidable (∃ p ∈ s.payments, _))

/-- `mail.HOLD_TEMPLATES`. -/
def holdTemplates : List String := ["booking_cancelled", "booking_expired", "booking_refund_failed"]

/-- `client_hold_needed`. -/
def Register.holdNeeded (s : Register) (clientId : ℕ) (now : ℤ) : Prop :=
  s.moneyOwed clientId now ∨
    (∃ p ∈ s.payments, s.isOf clientId p.bookingId ∧ 0 < p.refundedMinor ∧
      ∃ at_ ∈ p.settledAt, now - 7 * oneDay < at_) ∨
    ∃ j ∈ s.mails, s.isOf clientId j.bookingId ∧ j.completedAt = none ∧
      (j.attempts < 5 ∨ now < j.nextAttemptAt) ∧ j.template ∈ holdTemplates

instance (s : Register) (clientId : ℕ) (now : ℤ) : Decidable (s.holdNeeded clientId now) :=
  inferInstanceAs (Decidable (_ ∨ _ ∨ _))

/-- An erasure's end of one of the client's bookings, written in this transaction. -/
def Register.announced (s : Register) (clientId : ℕ) (now : ℤ) : Prop :=
  ∃ e ∈ s.events, s.isOf clientId e.bookingId ∧ now ≤ e.createdAt ∧ e.reason.isSome

instance (s : Register) (clientId : ℕ) (now : ℤ) : Decidable (s.announced clientId now) :=
  inferInstanceAs (Decidable (∃ e ∈ s.events, _))

/-- The core's INSERT of a hold, which leaves an earlier one be. -/
def Register.hold (s : Register) (clientId : ℕ) (now : ℤ) (announce : Bool)
    (p : Option Person) : Register :=
  match p.bind Person.email with
  | none => s
  | some email =>
      if (announce = true ∧ s.announced clientId now) ∨ s.holdNeeded clientId now then
        { s with
          holds := (s.holds.insert ⟨clientId, email, p.bind Person.locale,
            now + 30 * oneDay⟩).getD s.holds }
      else s

def Appointment.blanked (b : Appointment) : Appointment :=
  { b with
    clientName := none
    clientPhone := none
    clientMessage := none
    declineMessage := none
    checkoutHash := none
    bookedAs := none }

def Record.erase (now : ℤ) (c : Record) : Record :=
  match c.content with
  | .live _ => { c with content := .erased now }
  | .erased _ => c

@[simp] theorem Record.erase_id (now : ℤ) (c : Record) : (c.erase now).id = c.id := by
  unfold erase
  cases c.content <;> rfl

/-- The core's deletes and updates but for the client's own row. -/
def Register.blank (s : Register) (clientId : ℕ) : Register :=
  { s with
    bookings := s.bookings.update (fun b => b.clientId = clientId) Appointment.blanked fun _ => rfl
    events := s.events.map fun e =>
      if s.isOf clientId e.bookingId ∧ e.actorUserId = none then { e with origin := ⟨none, none⟩ }
      else e
    consents := s.consents.filter fun r => r.clientId ≠ clientId
    links := s.links.filter fun l => ¬ s.isOf clientId l.bookingId }

/-- `erase_client_core`: when the client was erased, or nothing for a client this business
does not have. -/
def Register.eraseClientCore (s : Register) (now : ℤ) (clientId : ℕ) (announce : Bool) :
    Except Refusal (Register × Option ℤ) :=
  if ∃ b ∈ s.bookings.rows, b.clientId = clientId ∧ b.liveAt now then .error .liveBookings
  else
    match s.clients.find clientId with
    | none => .ok (s, none)
    | some c =>
        let s' := { s with
          clients := s.clients.update (fun c => c.id = clientId) (Record.erase now)
            (Record.erase_id now) }
        .ok ((s'.hold clientId now announce c.person?).blank clientId,
          some (match c.content with | .live _ => now | .erased at_ => at_))

/-- The bookings ended, then the core. -/
def Register.erase (s : Register) (now : ℤ) (e : Erasure) : Except Refusal Register :=
  match (s.endForErasure now e).eraseClientCore now e.clientId e.announce with
  | .error r => .error r
  | .ok (s, _) => .ok s

/-- `erasure_holds.purge`. -/
def Register.purgeHolds (s : Register) (now : ℤ) : Register :=
  { s with holds := s.holds.delete fun h => h.purgeAfter ≤ now ∨ ¬ s.holdNeeded h.clientId now }

/-! ## § Any request -/

/-- Another statement on a booking: its status and times, and an event of its own name. -/
structure Change where
  bookingId : ℕ
  status : Status
  startsAt : ℤ
  expiresAt : Option ℤ
  declineMessage : Option Text
  name : EventName
  origin : Origin
  actorUserId : Option ℕ
  createdAt : ℤ
  own : name ≠ .created ∧ name ≠ .consentConfirmed

def Appointment.changed (c : Change) (b : Appointment) : Appointment :=
  { b with
    status := c.status
    startsAt := c.startsAt
    expiresAt := c.expiresAt
    declineMessage := c.declineMessage }

def Register.change (s : Register) (c : Change) : Register :=
  { s with
    bookings := s.bookings.update (fun b => b.id = c.bookingId) (Appointment.changed c) fun _ => rfl
    events := s.events ++
      [⟨c.bookingId, c.name, c.origin, none, none, c.actorUserId, none, c.createdAt⟩] }

inductive Request
  | bookOnline (new : PageBooking)
  | createClient (new : ClientIn)
  | book (new : ConsoleBooking)
  | updateClient (owner : Bool) (id : ℕ) (change : NoteChange)
  | addConsents (body : MemberRecord)
  | confirmConsents (now : ℤ) (c : Confirmation)
  | erase (now : ℤ) (e : Erasure)
  | purgeHolds (now : ℤ)
  | change (c : Change)
  | link (l : LinkRow)
  | others (payments : List Payment) (mails : List BookingMail)

def Register.serve (number : Text → Option Text) (s : Register) :
    Request → Except Refusal Register
  | .bookOnline new => s.bookOnline number new
  | .createClient new => (s.create number new).map Prod.fst
  | .book new => s.book number new
  | .updateClient owner id change => s.updateClient owner id change
  | .addConsents body => s.addConsents body
  | .confirmConsents now c => s.confirmConsents now c
  | .erase now e => s.erase now e
  | .purgeHolds now => .ok (s.purgeHolds now)
  | .change c => .ok (s.change c)
  | .link l => .ok { s with links := s.links ++ [l] }
  | .others payments mails => .ok { s with payments := payments, mails := mails }

/-- The register after one request: a refusal rolls everything back. -/
def Register.after (number : Text → Option Text) (s : Register) (r : Request) : Register :=
  match s.serve number r with
  | .ok s' => s'
  | .error _ => s

/-- The register after the requests. -/
def Register.run (number : Text → Option Text) (s : Register) (rs : List Request) : Register :=
  rs.foldl (Register.after number) s

end Ziftbook.Clients
