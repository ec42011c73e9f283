import Ziftbook.Payments.Statements

/-!
# What settle reads and writes

`UNSETTLED`, `SETTLE_ROWS` and `client_money_owed`, the branch `_settle_pass`
takes on a row, what an ending owes, and the transactions of `_refund` and
`refund_changed`.
-/

namespace Ziftbook

open Foundation

/-! ## § What is still owed an answer -/

/-- `UNSETTLED`'s WHERE clause. An `awaiting_payment` row has its deadline, so the
comparison is never null. -/
def Payment.unsettled (p : Payment) (b : Booking) (now : ℤ) : Prop :=
  p.settledAt = none ∧
    ((p.status = .open ∧ ¬ (b.status = .awaitingPayment ∧ b.unexpired now)) ∨
      p.status = .checked ∨ (p.status = .paid ∧ b.status ∈ refunding))

instance (p : Payment) (b : Booking) (now : ℤ) : Decidable (p.unsettled b now) :=
  inferInstanceAs (Decidable (_ ∧ _))

/-- `UNSETTLED`: the bookings the sweep arms a settle job for. -/
def Db.unsettled (db : Db) (now : ℤ) : List Booking :=
  db.bookings.rows.filter fun b =>
    ∃ p ∈ db.payments.rows, p.bookingId = b.id ∧ p.unsettled b now

/-- `client_money_owed`. -/
def Db.clientMoneyOwed (db : Db) (clientId : ℕ) (now : ℤ) : Prop :=
  ∃ p ∈ db.payments.rows, ∃ b ∈ db.bookings.rows, b.id = p.bookingId ∧ b.clientId = clientId ∧
    (p.refundFailedAt ≠ none ∨
      (p.settledAt = none ∧
        ((p.status = .open ∧ ¬ (b.status = .awaitingPayment ∧ b.unexpired now)) ∨
          p.status = .checked ∨
          (p.status = .paid ∧
            b.status ∈ [Status.declined, .expired, .cancelledByMerchant, .cancelledByClient]))))

instance (db : Db) (clientId : ℕ) (now : ℤ) : Decidable (db.clientMoneyOwed clientId now) :=
  inferInstanceAs (Decidable (∃ p ∈ db.payments.rows, _))

/-! ## § The rows of a settle pass -/

/-- A row of `SETTLE_ROWS`; `payment` holds the columns of `p`. -/
structure SettleRow where
  payment : Payment
  live : Bool
  bookingStatus : Status
  ending : Status
  clientPct : Option ℤ
  wasBooked : Bool
  reapplied : Bool
  reappliedAt : Option ℤ
deriving DecidableEq

/-- `ending`: a hold that ran out before the sweep got to it counts as expired. -/
def Booking.ending (b : Booking) (now : ℤ) : Status :=
  if b.status = .awaitingPayment ∧ b.lapsed now then .expired else b.status

/-- `details ->> 'refund_pct'`. -/
def EventDetails.pct : EventDetails → Option ℤ
  | .refundPct pct => some pct
  | _ => none

/-- `details ->> 'reason' = 'erasure_reapplied'`. -/
def EventDetails.reapplied : EventDetails → Bool
  | .erasure .erasureReapplied _ => true
  | _ => false

/-- `details ->> 'erased_at'`. -/
def EventDetails.erasedAt : EventDetails → Option ℤ
  | .erasure _ erasedAt => erasedAt
  | _ => none

/-- The booking's events of one kind, oldest first. -/
def Db.eventsOf (db : Db) (bookingId : ℕ) (p : Event → Prop) [DecidablePred p] : List Event :=
  db.events.filter fun e => e.bookingId = bookingId ∧ p e

/-- `client_pct`: the engine's answer at the time of the client's cancel. -/
def Db.clientPct (db : Db) (bookingId : ℕ) : Option ℤ :=
  (db.eventsOf bookingId fun e => e.name = .cancelledByClient).getLast?.bind fun e =>
    e.details.pct

def Db.settleRow (db : Db) (now : ℤ) (p : Payment) (b : Booking) : SettleRow where
  payment := p
  live := b.status = .awaitingPayment ∧ b.unexpired now
  bookingStatus := b.status
  ending := b.ending now
  clientPct := db.clientPct p.bookingId
  wasBooked := (db.eventsOf p.bookingId fun e => e.name = .paid) ≠ []
  reapplied := (db.eventsOf p.bookingId fun e => e.details.reapplied) ≠ []
  reappliedAt := (db.eventsOf p.bookingId fun e => e.details.reapplied).getLast?.bind fun e =>
    e.details.erasedAt

/-- `SETTLE_ROWS`. -/
def Db.settleRows (db : Db) (now : ℤ) (bookingId : ℕ) : List SettleRow :=
  (db.payments.rows.filter fun p => p.bookingId = bookingId ∧ p.settledAt = none).filterMap
    fun p => (db.bookings.find p.bookingId).map (db.settleRow now p)

/-- What `_settle_pass` does about a row. -/
inductive SettleAction
  | cancel | release | refund | pass
deriving DecidableEq, Repr

def SettleRow.action (row : SettleRow) : SettleAction :=
  if row.payment.status = .open ∧ row.live = false then .cancel
  else if row.payment.status = .checked ∧ row.payment.intentId.setup = false then .release
  else if row.payment.status = .paid ∧ row.ending ∈ refunding then .refund
  else .pass

theorem action_eq_cancel {row : SettleRow} :
    row.action = .cancel ↔ row.payment.status = .open ∧ row.live = false := by
  unfold SettleRow.action
  split_ifs <;> simp_all

theorem action_eq_release {row : SettleRow} (h : row.action = .release) :
    row.payment.status = .checked ∧ row.payment.intentId.setup = false := by
  unfold SettleRow.action at h
  split_ifs at h with h1 h2
  exact h2

theorem action_eq_refund {row : SettleRow} (h : row.action = .refund) :
    row.payment.status = .paid ∧ row.ending ∈ refunding := by
  unfold SettleRow.action at h
  split_ifs at h with h1 h2 h3
  exact h3

/-! ## § What an ending owes -/

/-- `refund_due`, the card fee never kept. -/
def refundDue (amountMinor pct : ℤ) : ℤ := amountMinor * pct / 100

/-- The share of the payment the ending sends back; a client's cancel says its own. -/
def SettleRow.pct (row : SettleRow) : Option ℤ :=
  if row.ending = .cancelledByClient then row.clientPct else some 100

/-- `due`; nothing when the client's cancel recorded no percentage. -/
def SettleRow.due (row : SettleRow) : Option ℤ :=
  row.pct.map (refundDue row.payment.amountMinor)

/-- `held`: what a re-applied erasure ended is not paid more than the provider
shows, unless it was charged after that erasure. -/
def SettleRow.held (row : SettleRow) (due : ℤ) (state : IntentState) : Bool :=
  row.reapplied && decide (state.amountRefunded < due) &&
    match row.reappliedAt, state.chargedAt with
    | some erasedAt, some chargedAt => decide (chargedAt < erasedAt)
    | _, _ => true

/-! ## § The record of a refund -/

/-- How a settle run's refund ended at the provider. -/
inductive RefundOutcome
  | sent | refused | held
deriving DecidableEq, Repr

/-- `ERASED_CLIENT`. -/
def Db.erasedClient (db : Db) (bookingId : ℕ) : Prop :=
  ∃ b ∈ db.bookings.rows, b.id = bookingId ∧
    ∃ c ∈ db.clients.rows, c.id = b.clientId ∧ c.erased = true

instance (db : Db) (bookingId : ℕ) : Decidable (db.erasedClient bookingId) :=
  inferInstanceAs (Decidable (∃ b ∈ db.bookings.rows, _))

/-- `bookings.email`, of a template an erased client still gets: over the quota
only such a client's is enqueued. -/
def Db.email (db : Db) (bookingId : ℕ) (mail : Mail) (overQuota : Bool) : Db :=
  if overQuota = true ∧ ¬ db.erasedClient bookingId then db
  else { db with mails := db.mails ++ [mail] }

/-- `_mail_refund_failed`. -/
def Db.mailRefundFailed (db : Db) (bookingId : ℕ) (refund : Option ℕ) (overQuota : Bool) :
    Db :=
  if db.erasedClient bookingId then
    db.email bookingId (.bookingRefundFailed bookingId refund) overQuota
  else db

/-- `TELL_REFUND_FAILED`: one event per failed refund; a refused create has no
refund, and a null never matches. -/
def Db.tellRefundFailed (db : Db) (bookingId : ℕ) (refund : Option ℕ) : Option Db :=
  if ∃ id ∈ refund, ∃ e ∈ db.events, e.bookingId = bookingId ∧ e.name = .refundFailed ∧
      e.details = .refund (some id) then none
  else some (db.record ⟨bookingId, .refundFailed, none, none, .refund refund⟩)

/-- The failure told, and mailed when it was not told before. -/
def Db.refundFailed (db : Db) (bookingId : ℕ) (refund : Option ℕ) (overQuota : Bool) : Db :=
  match db.tellRefundFailed bookingId refund with
  | some db' => db'.mailRefundFailed bookingId refund overQuota
  | none => db

/-- `REFUNDED` finds its row. -/
def Db.refundOpen (db : Db) (paymentId : ℕ) (due : ℤ) : Prop :=
  ∃ p ∈ db.payments.rows, p.id = paymentId ∧ p.refundable due

instance (db : Db) (paymentId : ℕ) (due : ℤ) : Decidable (db.refundOpen paymentId due) :=
  inferInstanceAs (Decidable (∃ p ∈ db.payments.rows, _))

/-- `SET_REFUND_FLAG`. -/
def Db.setRefundFlag (db : Db) (intent : IntentId) (refunded now : ℤ) : Db :=
  db.updateIntent intent (fun p => p.setRefundFlag refunded now) fun _ => rfl

/-- `REFUNDED` of its row, and the end of a hold that ran out, not yet swept. -/
def Db.writeRefund (db : Db) (now : ℤ) (row : SettleRow) (due : ℤ) (refundId : Option ℕ) : Db :=
  let db := db.updatePayment row.payment.id (fun p => p.refunded due refundId now)
    fun _ => Payment.refunded_id ..
  if row.bookingStatus = .awaitingPayment then db.giveBack row.payment.bookingId else db

/-- What the record says of the refund, by how it ended; `refunded` is the amount
the run last read at the provider. -/
def Db.tellRefund (db : Db) (now : ℤ) (row : SettleRow) (due refunded : ℤ)
    (overQuota : Bool) : RefundOutcome → Db
  | .held => db.setRefundFlag row.payment.intentId refunded now
  | .refused =>
      (db.setRefundFlag row.payment.intentId refunded now).refundFailed
        row.payment.bookingId none overQuota
  | .sent =>
      if 0 < due then
        let db := db.record ⟨row.payment.bookingId, .refunded, none, none, .empty⟩
        if row.ending = .expired then
          db.email row.payment.bookingId
            (.bookingExpired row.payment.bookingId !row.wasBooked) overQuota
        else db
      else db

/-- `_refund`'s record, once the provider has answered: only when `REFUNDED` finds
the row, or another run got there first. -/
def Db.recordRefund (db : Db) (now : ℤ) (row : SettleRow) (due : ℤ) (refundId : Option ℕ)
    (refunded : ℤ) (outcome : RefundOutcome) (overQuota : Bool) : Db :=
  if db.refundOpen row.payment.id due then
    (db.writeRefund now row due refundId).tellRefund now row due refunded overQuota outcome
  else db

/-- `refund_changed`'s write, once the refund and the charge are read. -/
def Db.refundChanged (db : Db) (now : ℤ) (intent : IntentId) (refundId : ℕ) (failed : Bool)
    (refunded : ℤ) (overQuota : Bool) : Db :=
  match db.payments.rows.find? fun p => p.intentId = intent with
  | none => db
  | some payment =>
      let db :=
        if failed then
          (db.refundFailed payment.bookingId (some refundId) overQuota).updateIntent intent
            (fun p => p.setRefundId refundId) fun _ => rfl
        else db
      db.setRefundFlag intent refunded now

end Ziftbook
