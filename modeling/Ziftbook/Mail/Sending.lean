import Ziftbook.Mail.Letters

/-!
# The booking mail job

`send_booking` of `app/mail.py`: what the handler reads in its own transaction, and
whether the mail goes out.
-/

namespace Ziftbook

open Foundation

/-- Who a mail goes to: the client, an erased client's contact hold, or a member. -/
inductive Addressee
  | client (address : String)
  | hold
  | member (userId : ℕ)
deriving DecidableEq

/-- What the handler reads outside the tables: the erased client's hold, whether the
outbox has the mail as sent, and the recipient's quota. -/
structure Beside where
  hold : Bool
  sent : Bool
  overQuota : Bool

/-- `MERCHANT`: a live member of the business. -/
def Db.merchant (db : Db) (userId : ℕ) : Option Member :=
  db.memberships.rows.find? fun m => m.userId = userId ∧ m.role ≠ .removed

/-- The recipient. An erased client is told only through a hold, and the team of one
is told nothing. -/
def Db.addressee (db : Db) (payload : Payload) (client : Client) (beside : Beside) :
    Option Addressee :=
  match payload.userId with
  | none =>
      if client.erased then
        if payload.template ∈ holdTemplates ∧ beside.hold = true then some .hold else none
      else if payload.template = .bookingRefundFailed then none
      else client.email.map .client
  | some userId =>
      if client.erased then none else (db.merchant userId).map fun m => .member m.userId

/-- `REFUND_FAILED`: the event that the mail announces. -/
def Db.failureTold (db : Db) (payload : Payload) : Prop :=
  ∃ i ∈ payload.extra.eventId, ∃ e ∈ db.events[i]?,
    e.bookingId = payload.bookingId ∧ e.name = .refundFailed

instance (db : Db) (payload : Payload) : Decidable (db.failureTold payload) :=
  inferInstanceAs (Decidable (∃ i ∈ payload.extra.eventId, _))

/-- `send_booking`, up to `deliver`. -/
def sendBooking (db : Db) (now : ℤ) (payload : Payload) (beside : Beside) : Option Addressee := do
  let row ← db.bookings.find payload.bookingId
  let client ← db.clients.find row.clientId
  guard (row.status ∈ payload.template.statusFor)
  guard (payload.template = .bookingReceived ∨ payload.template = .bookingRequest →
    ∃ at_ ∈ row.expiresAt, now < at_)
  guard (∀ start ∈ payload.extra.startsAt, start = row.startsAt)
  guard (payload.template = .bookingReminder → now < row.startsAt)
  let addressee ← db.addressee payload client beside
  guard (payload.template = .bookingExpired → (db.paymentLineRow payload.bookingId).isSome)
  guard (payload.template = .bookingRefundFailed → db.failureTold payload)
  guard (beside.sent = false)
  guard (¬ (payload.userId = none ∧ addressee ≠ .hold ∧ beside.overQuota = true))
  some addressee

theorem guard_bind_eq_some {p : Prop} [Decidable p] {α : Type} {x : Option α} {a : α} :
    ((guard p : Option Unit) >>= fun _ => x) = some a ↔ p ∧ x = some a := by
  by_cases hp : p <;> simp [hp]

/-- **A mail that names a start goes out only while it is the booking's.** -/
theorem sendBooking_current {db : Db} {now : ℤ} {payload : Payload} {beside : Beside}
    {addressee : Addressee} (h : sendBooking db now payload beside = some addressee) :
    ∃ row ∈ db.bookings.rows, row.id = payload.bookingId ∧
      row.status ∈ payload.template.statusFor ∧
      ∀ start ∈ payload.extra.startsAt, start = row.startsAt := by
  unfold sendBooking at h
  obtain ⟨row, hrow, h⟩ := Option.bind_eq_some_iff.mp h
  obtain ⟨client, _, h⟩ := Option.bind_eq_some_iff.mp h
  obtain ⟨hstatus, h⟩ := guard_bind_eq_some.mp h
  obtain ⟨_, h⟩ := guard_bind_eq_some.mp h
  obtain ⟨hstart, _⟩ := guard_bind_eq_some.mp h
  obtain ⟨hmem, hid⟩ := Table.find_eq_some.mp hrow
  exact ⟨row, hmem, hid, hstatus, hstart⟩

end Ziftbook
