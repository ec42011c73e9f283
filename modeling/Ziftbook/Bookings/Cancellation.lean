import Ziftbook.Store.Statements

/-!
# What a client may still do

`app/cancellation.py`'s `decide` and the booking link's `_decide`. The policy is
the snapshot on the booking row, never the live settings.
-/

namespace Ziftbook

def hour : ℤ := 60 * minute

structure Policy where
  freeCancellationHours : ℕ
  rescheduleCutoffHours : ℕ
  maxReschedules : ℕ
deriving DecidableEq

inductive CopyKey
  | started | fullRefundReschedule | fullRefundNoReschedule | noRefundReschedule
  | noRefundNoReschedule | pending
deriving DecidableEq, Repr

structure Decision where
  canCancel : Bool
  canReschedule : Bool
  refundPct : ℤ
  chargePct : ℤ
  copyKey : CopyKey
  reschedulesLeft : ℕ
deriving DecidableEq

/-- `decide`. The refund is anchored to the earliest start ever held, all else to
`startsAt`. -/
def decideTerms (policy : Policy) (startsAt now : ℤ) (rescheduleCount : ℕ)
    (originalStartsAt earliestStartsAt : Option ℤ) : Decision :=
  let lead := startsAt - now
  if lead ≤ 0 then ⟨false, false, 0, 0, .started, 0⟩
  else
    let refundLead := earliestStartsAt.getD startsAt - now
    let free : Bool := (policy.freeCancellationHours : ℤ) * hour ≤ refundLead
    let left := policy.maxReschedules - rescheduleCount
    let canReschedule : Bool := (policy.rescheduleCutoffHours : ℤ) * hour ≤ lead &&
      0 < left && originalStartsAt.isSome
    { canCancel := true
      canReschedule := canReschedule
      refundPct := if free then 100 else 0
      chargePct := 0
      copyKey :=
        match free, canReschedule with
        | true, true => .fullRefundReschedule
        | true, false => .fullRefundNoReschedule
        | false, true => .noRefundReschedule
        | false, false => .noRefundNoReschedule
      reschedulesLeft := if canReschedule then left else 0 }

/-- `PENDING_MOVES`. -/
def pendingMoves : ℕ := 3

/-- `_policy`. -/
def Booking.policy (b : Booking) : Policy :=
  ⟨b.freeCancellationHours, b.rescheduleCutoffHours, b.maxReschedules⟩

/-- `_decide`: a pending is cancelled in full and moved a fixed number of times. -/
def Db.decideFor (db : Db) (b : Booking) (now : ℤ) : Decision :=
  let decision := decideTerms b.policy b.startsAt now b.rescheduleCount b.originalStartsAt
    b.earliestStartsAt
  if b.status = .pending then
    let left := if decision.canCancel then pendingMoves - db.moves b.id else 0
    ⟨decision.canCancel, 0 < left, if db.paidPayment b.id then 100 else 0, 0, .pending, left⟩
  else decision

end Ziftbook
