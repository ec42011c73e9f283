import Ziftbook.Mail.Texts
import Ziftbook.Machine
import Ziftbook.Payments.Figures

/-!
# The booking mails an operation enqueues

`email`, `email_merchants`, `remind` and `announce` of `app/bookings.py`, and what
every operation enqueues with them, in the transaction that commits it: read off the
tables before it and after. A dedupe key keeps its parts here; its text is what the
queue compares.
-/

namespace Ziftbook

open Foundation

/-! ## § Keys -/

def MailTemplate.name : MailTemplate → List Char
  | .bookingReceived => "booking_received".toList
  | .bookingRequest => "booking_request".toList
  | .bookingConfirmed => "booking_confirmed".toList
  | .bookingNew => "booking_new".toList
  | .bookingReminder => "booking_reminder".toList
  | .bookingDeclined => "booking_declined".toList
  | .bookingCancelled => "booking_cancelled".toList
  | .bookingCancelledByClient => "booking_cancelled_by_client".toList
  | .bookingClientCancelled => "booking_client_cancelled".toList
  | .bookingExpired => "booking_expired".toList
  | .bookingClientRescheduled => "booking_client_rescheduled".toList
  | .bookingMovedTeam => "booking_moved_team".toList
  | .bookingRefundFailed => "booking_refund_failed".toList

/-- `HOLD_TEMPLATES`. -/
def holdTemplates : List MailTemplate :=
  [.bookingCancelled, .bookingExpired, .bookingRefundFailed]

/-- What follows the template: a `key_suffix`, made of a count of reschedules, of
moves, the transaction's clock or an event; or a reminder's start. -/
inductive KeySuffix
  | none
  | count (n : ℕ)
  | moves (n : ℕ)
  | clock (now : ℤ)
  | event (id : ℕ)
  | start (startsAt : ℤ)
deriving DecidableEq

def KeySuffix.text : KeySuffix → List Char
  | .none => []
  | .count n => ':' :: 'r' :: decimal n
  | .moves n => ':' :: 'm' :: decimal n
  | .clock now => ':' :: 'm' :: timestamp now
  | .event id => ':' :: decimal id
  | .start startsAt => ':' :: isoformat startsAt

/-- A dedupe key of a booking mail. -/
structure MailKey where
  bookingId : ℕ
  template : MailTemplate
  suffix : KeySuffix
  userId : Option ℕ
deriving DecidableEq

def userText : Option ℕ → List Char
  | none => []
  | some userId => ':' :: decimal userId

def MailKey.text (tenant : ℕ) (k : MailKey) : List Char :=
  "email.booking:".toList ++ (decimal tenant ++ ':' :: (decimal k.bookingId ++
    ':' :: (k.template.name ++ (k.suffix.text ++ userText k.userId))))

def MailKey.dedupeKey (tenant : ℕ) (k : MailKey) : String := String.ofList (k.text tenant)

example : (⟨7, .bookingNew, .moves 2, some 5⟩ : MailKey).dedupeKey 1 =
    "email.booking:1:7:booking_new:m2:5" := by decide +kernel

/-! ## § Letters -/

/-- `extra`. -/
structure Extra where
  startsAt : Option ℤ := none
  previousStartsAt : Option ℤ := none
  memberChanged : Bool := false
  late : Bool := false
  eventId : Option ℕ := none
deriving DecidableEq

structure Payload where
  bookingId : ℕ
  template : MailTemplate
  userId : Option ℕ
  extra : Extra
deriving DecidableEq

/-- What `jobs.enqueue` is called with. -/
structure Letter where
  key : MailKey
  payload : Payload
  dueAt : Option ℤ
deriving DecidableEq

/-- The letter is not a reminder. -/
def Letter.email (l : Letter) : Prop := l.key.template ≠ .bookingReminder

instance (l : Letter) : Decidable l.email := inferInstanceAs (Decidable (_ ≠ _))

namespace Bookings

/-- `email`: nothing over the quota, which is not asked for staff, nor for a mail that
an erased client still gets. -/
def email (db : Db) (bookingId : ℕ) (template : MailTemplate) (userId : Option ℕ)
    (suffix : KeySuffix) (extra : Extra) (overQuota : Bool) : Option Letter :=
  if (userId = none ∧ ¬ (template ∈ holdTemplates ∧ db.erasedClient bookingId)) ∧
      overQuota = true then none
  else some ⟨⟨bookingId, template, suffix, userId⟩, ⟨bookingId, template, userId, extra⟩, none⟩

/-- `MERCHANTS`. -/
def merchants (db : Db) (workerId : ℕ) : List ℕ :=
  ((db.memberships.rows.filter fun m =>
    m.role ≠ .removed ∧ (m.role = .owner ∨ m.id = workerId)).map Member.userId).dedup

/-- `email_merchants`. -/
def emailMerchants (db : Db) (bookingId workerId : ℕ) (template : MailTemplate)
    (suffix : KeySuffix) (extra : Extra) : List Letter :=
  (merchants db workerId).filterMap fun userId =>
    email db bookingId template (some userId) suffix extra false

/-- The reminder of a start, due 24 hours before it. -/
def reminder (bookingId : ℕ) (startsAt : ℤ) : Letter :=
  ⟨⟨bookingId, .bookingReminder, .start startsAt, none⟩,
    ⟨bookingId, .bookingReminder, none, { startsAt := some startsAt }⟩,
    some (startsAt - 24 * hour)⟩

/-- `remind`: nothing when the start is less than 24 hours away. -/
def remind (bookingId : ℕ) (startsAt now : ℤ) : Option Letter :=
  if startsAt - 24 * hour ≤ now then none else some (reminder bookingId startsAt)

/-- The confirmation, which carries the start. -/
def confirm (db : Db) (bookingId : ℕ) (startsAt : ℤ) (suffix : KeySuffix) (overQuota : Bool) :
    Option Letter :=
  email db bookingId .bookingConfirmed none suffix { startsAt := some startsAt } overQuota

/-- The reminder that goes with a confirmation; over the quota there is neither. -/
def remindIf (queued : Option Letter) (bookingId : ℕ) (startsAt now : ℤ) : List Letter :=
  if queued.isSome then (remind bookingId startsAt now).toList else []

/-- `announce`. -/
def announce (db : Db) (now : ℤ) (overQuota : Bool) (b : Booking) : List Letter :=
  if b.status = .confirmed then
    let queued := confirm db b.id b.startsAt .none overQuota
    queued.toList ++ remindIf queued b.id b.startsAt now ++
      emailMerchants db b.id b.workerId .bookingNew .none {}
  else
    (email db b.id .bookingReceived none .none {} overQuota).toList ++
      emailMerchants db b.id b.workerId .bookingRequest .none {}

/-- `tell_team`: never to the member who made the change. -/
def tellTeam (db : Db) (current : Session) (bookingId : ℕ) (userIds : List (Option ℕ))
    (template : MailTemplate) (suffix : KeySuffix) (extra : Extra) (overQuota : Bool) :
    List Letter :=
  (userIds.dedup.filter (· ≠ some current.userId)).filterMap fun userId =>
    email db bookingId template userId suffix extra overQuota

end Bookings

/-- `WORKER_USER`. -/
def Db.userOf (db : Db) (memberId : ℕ) : Option ℕ := (db.member memberId).map Member.userId

/-! ## § What each handler enqueues -/

open Bookings

/-- `create`'s: a checkout is announced when its payment lands. -/
def bookOnlineLetters (db' : Db) (now : ℤ) (new : OnlineRequest) (overQuota : Bool) :
    List Letter :=
  match db'.bookings.find new.bookingId with
  | some b => if new.offer then [] else announce db' now overQuota b
  | none => []

/-- `book`'s: a booking recorded after the fact tells nobody. -/
def bookLetters (db' : Db) (now : ℤ) (current : Session) (new : MerchantRequest)
    (overQuota : Bool) : List Letter :=
  match db'.bookings.find new.bookingId with
  | some b =>
      if now < b.startsAt then
        let queued := confirm db' b.id b.startsAt .none overQuota
        queued.toList ++ remindIf queued b.id b.startsAt now ++
          tellTeam db' current b.id [db'.userOf b.workerId] .bookingNew .none
            { startsAt := some b.startsAt } overQuota
      else []
  | none => []

/-- `transition`'s, by the status the row had. -/
def transitionLetters (db db' : Db) (now : ℤ) (bookingId : ℕ) (change : StatusChange)
    (overQuota : Bool) : List Letter :=
  match db.bookings.find bookingId with
  | some row =>
      if change.status = .confirmed ∧ row.status = .pending then
        let queued := confirm db' bookingId row.startsAt .none overQuota
        queued.toList ++ remindIf queued bookingId row.startsAt now
      else if change.status = .declined then
        (email db' bookingId .bookingDeclined none .none {} overQuota).toList
      else if change.status = .cancelledByMerchant ∧
          (row.status = .pending ∨ row.status = .confirmed) then
        (email db' bookingId .bookingCancelled none .none {} overQuota).toList
      else []
  | none => []

/-- The merchant's `reschedule`'s: a move into the past tells nobody. -/
def rescheduleLetters (db db' : Db) (now : ℤ) (current : Session) (bookingId : ℕ)
    (change : MerchantMove) (overQuota : Bool) : List Letter :=
  match db.bookings.find bookingId with
  | some row =>
      if now < change.startsAt then
        let workerId := change.memberId.getD row.workerId
        let queued := confirm db' bookingId change.startsAt (.clock now) overQuota
        queued.toList ++ remindIf queued bookingId change.startsAt now ++
          tellTeam db' current bookingId [db.workerUser row] .bookingMovedTeam (.clock now)
            { startsAt := some change.startsAt, previousStartsAt := some row.startsAt
              memberChanged := workerId ≠ row.workerId } overQuota ++
          (if workerId ≠ row.workerId then
            tellTeam db' current bookingId [db'.userOf workerId] .bookingNew (.clock now)
              { startsAt := some change.startsAt } overQuota
          else [])
      else []
  | none => []

/-- The client's `reschedule`'s. -/
def linkRescheduleLetters (db db' : Db) (now : ℤ) (tokenHash : ℕ) (overQuota : Bool) :
    List Letter :=
  match db.resolve tokenHash now with
  | some row =>
      match db'.bookings.find row.id with
      | some changed =>
          let moved : Extra :=
            { startsAt := some changed.startsAt, previousStartsAt := some row.startsAt }
          if row.status = .pending then
            let suffix := .moves (db.moves row.id + 1)
            (email db' row.id .bookingReceived none suffix { startsAt := some changed.startsAt }
              overQuota).toList ++
              emailMerchants db' row.id row.workerId .bookingClientRescheduled suffix moved
          else
            let suffix := .count changed.rescheduleCount
            let queued := confirm db' row.id changed.startsAt suffix overQuota
            queued.toList ++
              emailMerchants db' row.id row.workerId .bookingClientRescheduled suffix moved ++
              remindIf queued row.id changed.startsAt now
      | none => []
  | none => []

/-- `cancel`'s. -/
def linkCancelLetters (db db' : Db) (now : ℤ) (tokenHash : ℕ) (overQuota : Bool) :
    List Letter :=
  match db.resolve tokenHash now with
  | some row =>
      (email db' row.id .bookingCancelledByClient none .none {} overQuota).toList ++
        emailMerchants db' row.id row.workerId .bookingClientCancelled .none {}
  | none => []

/-- The booking `_live` finds: the row `PAID` returns, when `reconcile` gets to it. -/
def Db.bookedBy (db : Db) (now : ℤ) (row : Payment) (state : IntentState) : Option Booking :=
  match db.payments.find row.id with
  | some current =>
      if current.status = .open ∧ mismatch state row = false ∧ landed state row.kind = true then
        (db.paid row.bookingId db.settings.pendingTtlHours now).bind fun db' =>
          db'.bookings.find row.bookingId
      else none
  | none => none

/-- `reconcile`'s: the payment landed. -/
def reconcileLetters (db db' : Db) (now : ℤ) (row : Payment) (state : IntentState)
    (overQuota : Bool) : List Letter :=
  match db.bookedBy now row state with
  | some b => announce db' now overQuota b
  | none => []

/-- The letter of a refund's mail; the failure's key names the event just told. -/
def Mail.letter (db' : Db) : Mail → Letter
  | .bookingExpired bookingId late =>
      ⟨⟨bookingId, .bookingExpired, .none, none⟩,
        ⟨bookingId, .bookingExpired, none, { late := late }⟩, none⟩
  | .bookingRefundFailed bookingId _ =>
      ⟨⟨bookingId, .bookingRefundFailed, .event (db'.events.length - 1), none⟩,
        ⟨bookingId, .bookingRefundFailed, none, { eventId := some (db'.events.length - 1) }⟩,
        none⟩

/-- A refund's record's: the mails it has added. -/
def refundLetters (db db' : Db) : List Letter :=
  (db'.mails.drop db.mails.length).map (Mail.letter db')

/-- What an accepted operation enqueues; `db` is before it, `db'` after. -/
def Op.letters (db db' : Db) (now : ℤ) (overQuota : Bool) : Op → List Letter
  | .bookOnline new => bookOnlineLetters db' now new overQuota
  | .book current new => bookLetters db' now current new overQuota
  | .transition _ bookingId change => transitionLetters db db' now bookingId change overQuota
  | .reschedule current bookingId change =>
      rescheduleLetters db db' now current bookingId change overQuota
  | .linkReschedule tokenHash _ => linkRescheduleLetters db db' now tokenHash overQuota
  | .linkCancel tokenHash _ => linkCancelLetters db db' now tokenHash overQuota
  | .reconcile row state => reconcileLetters db db' now row state overQuota
  | .recordRefund .. | .refundChanged .. => refundLetters db db'
  | _ => []

end Ziftbook
