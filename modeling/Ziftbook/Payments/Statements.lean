import Ziftbook.Errors
import Ziftbook.Store.Statements

/-!
# Payment statements and transactions

The SQL of `app/payments.py`, row by row and on the database, and the
transactions that run it under the tenant lock once the provider has answered.
-/

namespace Ziftbook

open Foundation

/-! ## § Updates of a payment row -/

/-- `MARK_CHECKED`: a setup holds nothing, so it settles at once. -/
def Payment.markChecked (p : Payment) (setup : Bool) (now : ℤ) : Payment :=
  if h : p.status = .open ∧ p.kind = .check then
    { p with
      status := .checked
      settledAt := if setup then some now else none
      kind_status := Or.inl ⟨h.2, by decide⟩
      refund_needs_paid := Or.inl (p.refund_needs_paid.resolve_right (by rw [h.1]; decide)) }
  else p

/-- `MARK_PAID`. -/
def Payment.markPaid (p : Payment) : Payment :=
  if h : p.status = .open ∧ p.kind = .pay then
    { p with
      status := .paid
      kind_status := Or.inr ⟨h.2, by decide⟩
      refund_needs_paid := Or.inr rfl }
  else p

/-- `MARK_CANCELED`. -/
def Payment.markCanceled (p : Payment) (now : ℤ) : Payment :=
  if h : p.status = .open then
    { p with
      status := .canceled
      settledAt := some now
      kind_status := p.kind_status.imp (fun h => ⟨h.1, by decide⟩) fun h => ⟨h.1, by decide⟩
      refund_needs_paid := Or.inl (p.refund_needs_paid.resolve_right (by rw [h]; decide)) }
  else p

/-- `RELEASED`. -/
def Payment.released (p : Payment) (now : ℤ) : Payment :=
  if p.settledAt = none then { p with settledAt := some now } else p

/-- `REFUNDED`'s WHERE clause, and the CHECKs the new row must meet. -/
def Payment.refundable (p : Payment) (due : ℤ) : Prop :=
  p.settledAt = none ∧ (0 ≤ due ∧ due ≤ p.amountMinor) ∧ (due = 0 ∨ p.status = .paid)

instance (p : Payment) (due : ℤ) : Decidable (p.refundable due) :=
  inferInstanceAs (Decidable (_ ∧ _))

/-- `REFUNDED`: whoever gets here first writes it. -/
def Payment.refunded (p : Payment) (due : ℤ) (refundId : Option ℕ) (now : ℤ) : Payment :=
  if h : p.refundable due then
    { p with
      refundedMinor := due
      refundId := p.refundId.or refundId
      settledAt := some now
      refunded_range := h.2.1
      refund_needs_paid := h.2.2 }
  else p

/-- `SET_REFUND_FLAG`: set while less has gone back than the refund settled on. -/
def Payment.setRefundFlag (p : Payment) (refunded now : ℤ) : Payment :=
  { p with
    refundFailedAt :=
      if refunded < p.refundedMinor then some (p.refundFailedAt.getD now) else none }

/-- `SET_REFUND_ID`. -/
def Payment.setRefundId (p : Payment) (refundId : ℕ) : Payment :=
  { p with refundId := p.refundId.or (some refundId) }

@[simp] theorem Payment.markChecked_id (p : Payment) (setup : Bool) (now : ℤ) :
    (p.markChecked setup now).id = p.id := by
  unfold markChecked; split <;> rfl

@[simp] theorem Payment.markPaid_id (p : Payment) : p.markPaid.id = p.id := by
  unfold markPaid; split <;> rfl

@[simp] theorem Payment.markCanceled_id (p : Payment) (now : ℤ) :
    (p.markCanceled now).id = p.id := by
  unfold markCanceled; split <;> rfl

@[simp] theorem Payment.released_id (p : Payment) (now : ℤ) : (p.released now).id = p.id := by
  unfold released; split <;> rfl

@[simp] theorem Payment.refunded_id (p : Payment) (due : ℤ) (refundId : Option ℕ) (now : ℤ) :
    (p.refunded due refundId now).id = p.id := by
  unfold refunded; split <;> rfl

/-- `UPDATE booking_payments … WHERE id = :id`. -/
def Db.updatePayment (db : Db) (id : ℕ) (f : Payment → Payment) (hf : ∀ p, (f p).id = p.id) :
    Db :=
  { db with payments := db.payments.update (fun p => p.id = id) f hf }

/-- `UPDATE booking_payments … WHERE intent_id = :intent`. -/
def Db.updateIntent (db : Db) (intent : IntentId) (f : Payment → Payment)
    (hf : ∀ p, (f p).id = p.id) : Db :=
  { db with payments := db.payments.update (fun p => p.intentId = intent) f hf }

theorem Db.mem_updatePayment {db : Db} {id : ℕ} {f : Payment → Payment}
    {hf : ∀ p, (f p).id = p.id} {p : Payment} (hp : p ∈ db.payments.rows) (hid : p.id = id) :
    f p ∈ (db.updatePayment id f hf).payments.rows :=
  (@Table.mem_update _ _ _ db.payments (fun p => p.id = id) _ f hf (f p)).mpr
    (Or.inl ⟨p, hp, hid, rfl⟩)

/-! ## § Inserts -/

/-- `INSERT_PAYMENT`: a new open row for the booking's price, unless its intent is
on file or `uq_booking_payments_live` finds another live payment. -/
def Db.insertPayment (db : Db) (id bookingId : ℕ) (kind : PaymentKind) (intent : IntentId)
    (amount : ℤ) (currency : String) : Option Db :=
  if hkind : intent.setup = false ∨ kind = .check then
    if hamount : 1 ≤ amount ∧ amount ≤ 1000000 then
      if (∃ p ∈ db.payments.rows, p.intentId = intent ∨
            (p.bookingId = bookingId ∧ p.status ≠ .canceled)) ∨
          ¬ ∃ b ∈ db.bookings.rows, b.id = bookingId ∧ b.priceAmountMinor = amount ∧
            b.priceCurrency = currency then none
      else
        (db.payments.insert
          { id := id, bookingId := bookingId, kind := kind, intentId := intent
            amountMinor := amount, currency := currency, status := .open
            refundedMinor := 0, refundId := none, refundFailedAt := none, settledAt := none
            kind_status := by cases kind <;> decide
            setup_is_a_check := hkind
            refunded_range := ⟨le_rfl, by omega⟩
            refund_needs_paid := nothing_refunded .open }).map fun payments =>
          { db with payments := payments }
    else none
  else none

/-! ## § What the provider says -/

/-- An intent's status, as far as the code tells them apart. -/
inductive IntentStatus
  | waiting | processing | requiresCapture | succeeded | canceled
deriving DecidableEq, Repr

/-- `IntentState`: a SetupIntent has no amount or currency. -/
structure IntentState where
  setup : Bool
  status : IntentStatus
  amount : Option ℤ
  currency : Option String
  amountRefunded : ℤ
  chargedAt : Option ℤ
deriving DecidableEq

/-- `_landed`: an authorisation held (a check), a charge made (a pay) or a
SetupIntent done. -/
def landed (state : IntentState) (kind : PaymentKind) : Bool :=
  if kind = .check ∧ state.setup = false then state.status = .requiresCapture
  else state.status = .succeeded

/-- A payment intent for another amount or currency than its row's. -/
def mismatch (state : IntentState) (row : Payment) : Bool :=
  state.setup = false && (state.amount != some row.amountMinor ||
    state.currency != some row.currency)

/-! ## § Transactions under the lock -/

/-- `_live`: a booking whose checkout is still live becomes a request, or
confirmed, and its event is recorded. -/
def Db.live (db : Db) (now : ℤ) (bookingId : ℕ) (event : EventName) : Db :=
  match db.paid bookingId db.settings.pendingTtlHours now with
  | some db' => db'.record ⟨bookingId, event, none, none, .empty⟩
  | none => db

/-- `_paid`. -/
def Db.landPaid (db : Db) (now : ℤ) (row : Payment) : Db :=
  (db.updatePayment row.id Payment.markPaid Payment.markPaid_id).live now row.bookingId .paid

/-- `_checked`. -/
def Db.landChecked (db : Db) (now : ℤ) (row : Payment) (state : IntentState) : Db :=
  (db.updatePayment row.id (fun p => p.markChecked state.setup now)
    (fun _ => Payment.markChecked_id ..)).live now row.bookingId .paymentChecked

/-- `reconcile`'s write, for the row read before the provider was asked. -/
def Db.reconcile (db : Db) (now : ℤ) (row : Payment) (state : IntentState) : Db :=
  match db.payments.find row.id with
  | none => db
  | some current =>
      if current.status ≠ .open then db
      else if mismatch state row then db
      else if landed state row.kind then
        match row.kind with
        | .check => db.landChecked now row state
        | .pay => db.landPaid now row
      else if state.status = .canceled then
        db.updatePayment row.id (fun p => p.markCanceled now) (fun _ => Payment.markCanceled_id ..)
      else db

/-- `_give_back`, and the hold part of an abandon. -/
def Db.giveBack (db : Db) (bookingId : ℕ) : Db := (db.expireOne bookingId).getD db

/-- `abandon`'s write: no row means the payment landed in between. -/
def Db.abandon (db : Db) (now : ℤ) (bookingId : ℕ) (payment : Option ℕ) :
    Except ApiError Db := do
  let db' ← found (db.expireOne bookingId) ⟨409, .paymentSettled⟩
  match payment with
  | none => .ok db'
  | some id => .ok (db'.updatePayment id (fun p => p.markCanceled now)
      (fun _ => Payment.markCanceled_id ..))

/-- `LIVE_BOOKING`. -/
def Db.checkoutLive (db : Db) (now : ℤ) (bookingId : ℕ) : Prop :=
  ∃ b ∈ db.bookings.rows, b.id = bookingId ∧ b.status = .awaitingPayment ∧ b.unexpired now

instance (db : Db) (now : ℤ) (bookingId : ℕ) : Decidable (db.checkoutLive now bookingId) :=
  inferInstanceAs (Decidable (∃ b ∈ db.bookings.rows, _))

/-- `resume`'s write: the old row ends and the new intent's row begins, while the
checkout is live. -/
def Db.resume (db : Db) (now : ℤ) (bookingId old id : ℕ) (kind : PaymentKind)
    (intent : IntentId) (amount : ℤ) (currency : String) : Except ApiError Db := do
  require (db.checkoutLive now bookingId) ⟨404, .notFound⟩
  found ((db.updatePayment old (fun p => p.markCanceled now)
    (fun _ => Payment.markCanceled_id ..)).insertPayment id bookingId kind intent amount
      currency) ⟨409, .paymentSettled⟩

end Ziftbook
