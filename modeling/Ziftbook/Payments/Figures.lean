import Ziftbook.Payments.Owing

/-!
# One refund figure everywhere

The booking link shows a client what a cancel sends back, the cancel records its
share, the mail of an ending prints an amount, and a settle run computes, sends and
records one. Each reads the tables for itself, at its own time; the figure is one.
-/

namespace Ziftbook

open Foundation

/-! ## § What the booking link shows -/

/-- `RESOLVE`'s `paid_minor`. -/
def Db.paidMinor (db : Db) (bookingId : ℕ) : Option ℤ :=
  (db.payments.rows.find? fun p => p.bookingId = bookingId ∧ p.status = .paid).map
    Payment.amountMinor

structure EngineOut where
  canCancel : Bool
  canReschedule : Bool
  refundPct : ℤ
  refundMinor : Option ℤ
  copyKey : CopyKey
  rescheduleCount : ℕ
  reschedulesLeft : ℕ
  freeUntil : Option ℤ
deriving DecidableEq

structure LinkedBooking where
  booking : Booking
  paid : Option ℤ
  engine : EngineOut
deriving DecidableEq

/-- `_view`. -/
def linkView (row : Booking) (paid : Option ℤ) (decision : Decision) : LinkedBooking where
  booking := row
  paid := paid
  engine :=
    { canCancel := decision.canCancel
      canReschedule := decision.canReschedule
      refundPct := decision.refundPct
      refundMinor := paid.map fun paid => refundDue paid decision.refundPct
      copyKey := decision.copyKey
      rescheduleCount := row.rescheduleCount
      reschedulesLeft := decision.reschedulesLeft
      freeUntil :=
        if decision.canCancel = true ∧ decision.refundPct ≠ 0 ∧ row.status ≠ .pending then
          some (row.earliestStartsAt.getD row.startsAt - row.freeCancellationHours * hour)
        else none }

/-- `read` of the booking link. -/
def readLink (db : Db) (now : ℤ) (tokenHash : ℕ) : Except ApiError LinkedBooking := do
  let row ← found (db.resolve tokenHash now) ⟨404, .linkExpired⟩
  .ok (linkView row (db.paidMinor row.id) (db.decideFor row now))

/-- What `cancel` answers: the row read before its write, in the status it has
after, and nothing further allowed. -/
def cancelAnswer (db : Db) (now : ℤ) (tokenHash : ℕ) : Option LinkedBooking :=
  (db.resolve tokenHash now).map fun row =>
    let decision := db.decideFor row now
    linkView (row.withStatus .cancelledByClient cancelledByClient_not_expiring)
      (db.paidMinor row.id) ⟨false, false, decision.refundPct, 0, decision.copyKey, 0⟩

/-! ## § What the mail prints -/

/-- The templates of `STATUS_FOR`. -/
inductive MailTemplate
  | bookingReceived | bookingRequest | bookingConfirmed | bookingNew | bookingReminder
  | bookingDeclined | bookingCancelled | bookingCancelledByClient | bookingClientCancelled
  | bookingExpired | bookingClientRescheduled | bookingMovedTeam | bookingRefundFailed
deriving DecidableEq, Repr

/-- `STATUS_FOR`: a booking in another status is not mailed about. -/
def MailTemplate.statusFor : MailTemplate → List Status
  | .bookingReceived | .bookingRequest => [.pending]
  | .bookingConfirmed | .bookingNew | .bookingReminder | .bookingMovedTeam => [.confirmed]
  | .bookingDeclined => [.declined]
  | .bookingCancelled => [.cancelledByMerchant]
  | .bookingCancelledByClient | .bookingClientCancelled => [.cancelledByClient]
  | .bookingExpired => [.expired]
  | .bookingClientRescheduled => [.confirmed, .pending]
  | .bookingRefundFailed =>
      [.declined, .expired, .cancelledByMerchant, .cancelledByClient]

/-- `ARRIVAL`. -/
def arrival : List MailTemplate :=
  [.bookingRequest, .bookingNew, .bookingReceived, .bookingConfirmed]

/-- `ENDED`. -/
def endedTemplates : List MailTemplate :=
  [.bookingDeclined, .bookingCancelled, .bookingCancelledByClient]

/-- A row of `PAYMENT_LINE`. -/
structure PaymentLineRow where
  status : PaymentStatus
  amountMinor : ℤ
  currency : String
  setup : Bool
  clientPct : Option ℤ
deriving DecidableEq

def Db.paymentLineRow (db : Db) (bookingId : ℕ) : Option PaymentLineRow :=
  (db.payments.rows.find? fun p => p.bookingId = bookingId ∧
    (p.status = .checked ∨ p.status = .paid)).map fun p =>
      ⟨p.status, p.amountMinor, p.currency, p.intentId.setup, db.clientPct bookingId⟩

/-- The sentence `$payment` fills in: none, an arrival's with its key, or what goes
back. A fee kept is another sentence, which a refund without a deduction never has. -/
inductive PaymentLine
  | blank
  | arrival (team setup : Bool) (status : PaymentStatus) (amountMinor : ℤ) (currency : String)
  | refund (amountMinor : ℤ) (currency : String)
deriving DecidableEq

/-- `payment_line`. -/
def Db.paymentLine (db : Db) (template : MailTemplate) (bookingId : ℕ) (status : Status)
    (team : Bool) : PaymentLine :=
  if template ∉ arrival ∧ template ∉ endedTemplates then .blank
  else
    match db.paymentLineRow bookingId with
    | none => .blank
    | some paid =>
        if template ∈ arrival then
          .arrival team paid.setup paid.status paid.amountMinor paid.currency
        else if paid.status ≠ .paid then .blank
        else
          let pct := if status = .cancelledByClient then paid.clientPct.getD 0 else 100
          let due := refundDue paid.amountMinor pct
          if due = 0 then .blank else .refund due paid.currency

/-- `$amount` of a `booking_expired` mail. -/
def Db.expiredAmount (db : Db) (bookingId : ℕ) : Option ℤ :=
  (db.paymentLineRow bookingId).map PaymentLineRow.amountMinor

/-! ## § The booking's one paid payment -/

theorem paidMinor_of_paid {t : Till} (hs : t.Sound) {p : Payment}
    (hp : p ∈ t.db.payments.rows) (hpaid : p.status = .paid) :
    t.db.paidMinor p.bookingId = some p.amountMinor := by
  unfold Db.paidMinor
  cases hfind : t.db.payments.rows.find? fun q => q.bookingId = p.bookingId ∧ q.status = .paid with
  | none =>
      have hnot := List.find?_eq_none.mp hfind p hp
      simp [hpaid] at hnot
  | some q =>
      have hq := List.find?_some hfind
      simp only [decide_eq_true_eq] at hq
      have heq : q = p := by
        apply hs.alone q (List.mem_of_find?_eq_some hfind) p hp hq.1
        · rw [hq.2]; decide
        · rw [hpaid]; decide
      rw [heq]
      rfl

theorem exists_paid_of_paidMinor {db : Db} {bookingId : ℕ} {paid : ℤ}
    (h : db.paidMinor bookingId = some paid) :
    ∃ p ∈ db.payments.rows, p.bookingId = bookingId ∧ p.status = .paid ∧ p.amountMinor = paid := by
  obtain ⟨p, hfind, hamount⟩ := Option.map_eq_some_iff.mp h
  have hp := List.find?_some hfind
  simp only [decide_eq_true_eq] at hp
  exact ⟨p, List.mem_of_find?_eq_some hfind, hp.1, hp.2, hamount⟩

theorem paymentLineRow_of_paid {t : Till} (hs : t.Sound) {p : Payment}
    (hp : p ∈ t.db.payments.rows) (hpaid : p.status = .paid) :
    t.db.paymentLineRow p.bookingId =
      some ⟨.paid, p.amountMinor, p.currency, p.intentId.setup, t.db.clientPct p.bookingId⟩ := by
  unfold Db.paymentLineRow
  cases hfind : t.db.payments.rows.find? fun q => q.bookingId = p.bookingId ∧
      (q.status = .checked ∨ q.status = .paid) with
  | none =>
      have hnot := List.find?_eq_none.mp hfind p hp
      simp [hpaid] at hnot
  | some q =>
      have hq := List.find?_some hfind
      simp only [decide_eq_true_eq] at hq
      have heq : q = p := by
        apply hs.alone q (List.mem_of_find?_eq_some hfind) p hp hq.1
        · rcases hq.2 with h | h <;> rw [h] <;> decide
        · rw [hpaid]; decide
      rw [heq, Option.map_some, hpaid]

/-! ## § One figure -/

/-- The task is a settle run's, on its way to record `due` of the payment. -/
def Task.carries (id : ℕ) (due : ℤ) : Task → Prop
  | .ask (.refundSend row due' _) | .ask (.refundRecheck row due') =>
      row.payment.id = id ∧ due' = due
  | .write (.recordRefund row due' ..) => row.payment.id = id ∧ due' = due
  | _ => False

/-- Whatever tells or moves what goes back of the payment has it at `pct`. -/
structure Desk.OneFigure (d : Desk) (b : Booking) (p : Payment) (pct : ℤ) : Prop where
  recorded : b.status = .cancelledByClient → d.shared.db.clientPct b.id = some pct
  others : b.status ≠ .cancelledByClient → pct = 100
  range : 0 ≤ refundDue p.amountMinor pct ∧ refundDue p.amountMinor pct ≤ p.amountMinor
  computed : ∀ now, (d.shared.db.settleRow now p b).due = some (refundDue p.amountMinor pct)
  mailed : ∀ template ∈ endedTemplates, b.status ∈ template.statusFor → ∀ team,
    d.shared.db.paymentLine template b.id b.status team =
      if refundDue p.amountMinor pct = 0 then .blank
      else .refund (refundDue p.amountMinor pct) p.currency
  expired : b.status = .expired →
    d.shared.db.expiredAmount b.id = some (refundDue p.amountMinor pct)
  carried : ∀ u ∈ d.tasks, ∀ due, u.carries p.id due → due = refundDue p.amountMinor pct
  settled : p.settledAt ≠ none → p.refundedMinor = refundDue p.amountMinor pct

theorem carried_owes {d : Desk} (h : d.Owing) {u : Task} (hu : u ∈ d.tasks) {p : Payment}
    (hp : p ∈ d.shared.db.payments.rows) {due : ℤ} (hcarries : u.carries p.id due) :
    d.shared.db.owes p due := by
  obtain ⟨hok, howed⟩ := h.tasks u hu
  have hmine : ∀ row : SettleRow, d.shared.db.onFile row.payment → row.payment.id = p.id →
      d.shared.db.owes row.payment due → d.shared.db.owes p due := by
    intro row hfile hid ho
    have hlater := hfile.later hp hid
    exact ho.congr hlater.bookingId hlater.amountMinor
  cases u with
  | look l => exact hcarries.elim
  | ask a =>
      cases a with
      | refundSend row due' refunded =>
          obtain ⟨hid, rfl⟩ := hcarries
          exact hmine row hok.1 hid howed
      | refundRecheck row due' =>
          obtain ⟨hid, rfl⟩ := hcarries
          exact hmine row hok.1 hid howed
      | _ => exact hcarries.elim
  | write w =>
      cases w with
      | recordRefund row due' refundId refunded outcome =>
          obtain ⟨hid, rfl⟩ := hcarries
          exact hmine row hok.1 hid howed
      | _ => exact hcarries.elim

theorem refundDue_full (amount : ℤ) : refundDue amount 100 = amount :=
  Int.mul_ediv_cancel amount (by decide)

theorem oneFigure_of_ends {d : Desk} (h : d.Owing) {b : Booking} {p : Payment} {pct : ℤ}
    (hb : b ∈ d.shared.db.bookings.rows) (hp : p ∈ d.shared.db.payments.rows)
    (hid : b.id = p.bookingId) (hpaid : p.status = .paid)
    (hends : d.shared.db.ends p.bookingId pct) : d.OneFigure b p pct := by
  obtain ⟨⟨hsound, howing⟩, _⟩ := h
  obtain ⟨c, hc, hcid, hstatus, hpct⟩ := hends
  have heq : c = b := d.shared.db.bookings.eq_of_key hc hb (hcid.trans hid.symm)
  subst heq
  have hrange : 0 ≤ pct ∧ pct ≤ 100 := by
    obtain ⟨pct', hpct', hrange⟩ := howing.recorded.endPct hb
    cases hpct.symm.trans hpct'
    exact hrange
  have howes : d.shared.db.owes p (refundDue p.amountMinor pct) :=
    ⟨pct, ⟨c, hb, hid, hstatus, hpct⟩, hrange, rfl⟩
  have hline := paymentLineRow_of_paid hsound hp hpaid
  rw [← hid] at hline
  have hothers : c.status ≠ .cancelledByClient → pct = 100 := by
    intro hs
    rw [endPct_of_other hs] at hpct
    exact (Option.some.inj hpct).symm
  constructor
  · intro hs
    rwa [endPct_of_cancelled hs] at hpct
  · exact hothers
  · exact howes.range
  · intro now
    show (d.shared.db.settleRow now p c).pct.map _ = _
    rw [settleRow_pct hid, hpct]
    rfl
  · intro template htemplate _ team
    have harrival : template ∉ arrival := by
      revert htemplate
      cases template <;> decide
    have hshare : (if c.status = .cancelledByClient then (d.shared.db.clientPct c.id).getD 0
        else 100) = pct := by
      by_cases hs : c.status = .cancelledByClient
      · rw [endPct_of_cancelled hs] at hpct
        rw [if_pos hs, hpct]
        rfl
      · rw [if_neg hs, hothers hs]
    simp [Db.paymentLine, htemplate, harrival, hline, hshare]
  · intro hs
    rw [Db.expiredAmount, hline, hothers (by rw [hs]; decide), refundDue_full]
    rfl
  · intro u hu due hcarries
    exact (carried_owes ⟨⟨hsound, howing⟩, by assumption⟩ hu hp hcarries).unique howes
  · intro hsettled
    exact (howing.settled p hp hpaid hsettled).unique howes

/-! ## § A client's cancel -/

/-- An accepted cancel: what the page answers, and what the cancel leaves. -/
theorem linkCancel_records {t : Till} (hs : t.Sound) {db' : Db} {now : ℤ} {tokenHash : ℕ}
    {body : LinkCancel} (h : linkCancel t.db now tokenHash body = .ok db') :
    ∃ row answer, row ∈ t.db.bookings.rows ∧ cancelAnswer t.db now tokenHash = some answer ∧
      answer.booking.id = row.id ∧ answer.engine.refundPct = body.refundPct ∧
      (∀ p ∈ t.db.payments.rows, p.bookingId = row.id → p.status = .paid →
        answer.engine.refundMinor = some (refundDue p.amountMinor body.refundPct)) ∧
      db'.ends row.id body.refundPct ∧ db'.payments = t.db.payments := by
  obtain ⟨row, db1, hrow, hpct, hcancel, rfl⟩ := linkCancel_eq_ok h
  obtain ⟨hmem, _, _⟩ := resolve_eq_some hrow
  obtain ⟨⟨b, hb, hbid, hguard⟩, hdb1⟩ := updateOne_eq_some hcancel
  have hcancelled : b.withStatus .cancelledByClient (by decide) ∈ db1.bookings.rows := by
    rw [hdb1]
    exact Db.mem_updateBookings.mpr (Or.inl ⟨b, hb, ⟨hbid, hguard⟩, rfl⟩)
  have hanswer : cancelAnswer t.db now tokenHash = some (linkView
      (row.withStatus .cancelledByClient (by decide)) (t.db.paidMinor row.id)
      ⟨false, false, (t.db.decideFor row now).refundPct, 0,
        (t.db.decideFor row now).copyKey, 0⟩) := by
    rw [cancelAnswer, hrow]
    rfl
  refine ⟨row, _, hmem, hanswer, rfl, hpct.symm, fun p hp hid hpaid => ?_, ?_, ?_⟩
  · have hpaidMinor := paidMinor_of_paid hs hp hpaid
    rw [hid] at hpaidMinor
    show (t.db.paidMinor row.id).map _ = _
    rw [hpaidMinor, hpct]
    rfl
  · have hended : Status.cancelledByClient ∈ refunding := by decide
    refine ⟨_, hcancelled, hbid, Or.inr hended, (endPct_of_cancelled rfl).trans ?_⟩
    show Db.clientPct _ b.id = _
    rw [hbid, hpct]
    simp [Db.clientPct, Db.eventsOf, Db.record, List.filter_append, EventDetails.pct]
  · rw [hdb1]
    rfl

/-! ## § Every run -/

/-- **One refund figure everywhere**, over every run. From any reachable state on, a
paid payment whose booking has ended has one share of it that everything tells,
computes, carries and records. After a client's cancel that is the share the link
showed, with its amount, as any earlier look at the link that showed the share did. -/
theorem one_refund_figure {d d' : Desk} {ms : List Deed} (hblank : d.Blank)
    (hrun : d.run ms = some d') :
    (∀ b ∈ d'.shared.db.bookings.rows, ∀ p ∈ d'.shared.db.payments.rows, b.id = p.bookingId →
      p.status = .paid → b.status = .awaitingPayment ∨ b.status ∈ refunding →
      ∃ pct, ∀ ms' d'', d'.run ms' = some d'' → ∀ b' ∈ d''.shared.db.bookings.rows,
        ∀ p' ∈ d''.shared.db.payments.rows, b'.id = b.id → p'.id = p.id →
          p'.amountMinor = p.amountMinor ∧ d''.OneFigure b' p' pct) ∧
    ∀ now tokenHash body db', linkCancel d'.shared.db now tokenHash body = .ok db' →
      ∃ answer, cancelAnswer d'.shared.db now tokenHash = some answer ∧
        answer.engine.refundPct = body.refundPct ∧
        ∀ p ∈ d'.shared.db.payments.rows, p.bookingId = answer.booking.id → p.status = .paid →
          answer.engine.refundMinor = some (refundDue p.amountMinor body.refundPct) ∧
          (∀ ms' d'', Desk.run ⟨⟨db', d'.shared.provider⟩, d'.threads⟩ ms' = some d'' →
            ∀ b' ∈ d''.shared.db.bookings.rows, ∀ p' ∈ d''.shared.db.payments.rows,
              b'.id = answer.booking.id → p'.id = p.id →
                p'.amountMinor = p.amountMinor ∧ d''.OneFigure b' p' body.refundPct) ∧
          ∀ ms₀ d₀ ms₁ now₀ tokenHash₀ view paid, d.run ms₀ = some d₀ →
            d₀.run ms₁ = some d' → readLink d₀.shared.db now₀ tokenHash₀ = .ok view →
            view.booking.id = answer.booking.id → view.engine.refundPct = body.refundPct →
            view.paid = some paid → view.engine.refundMinor = answer.engine.refundMinor := by
  have howing := owing_run hblank.owing hrun
  obtain ⟨⟨hsound, hrec⟩, htasks⟩ := howing
  -- from a share on file to every later state
  have hlater : ∀ {e : Desk} {p : Payment} {id : ℕ} {pct : ℤ}, e.Owing →
      p ∈ e.shared.db.payments.rows → p.bookingId = id → p.status = .paid →
      e.shared.db.ends id pct → ∀ ms' e', e.run ms' = some e' →
        ∀ b' ∈ e'.shared.db.bookings.rows, ∀ p' ∈ e'.shared.db.payments.rows, b'.id = id →
          p'.id = p.id → p'.amountMinor = p.amountMinor ∧ e'.OneFigure b' p' pct := by
    intro e p id pct he hp hbooking hpaid hends ms' e' hrun' b' hb' p' hp' hbid hpid
    subst hbooking
    obtain ⟨hfile, hends'⟩ := ends_run he hrun' (onFile_of_mem hp) hpaid hends
    have hl := hfile.later hp' hpid.symm
    have hpaid' : p'.status = .paid := (hl.status_eq (by rw [hpaid]; decide)).trans hpaid
    refine ⟨hl.amountMinor, ?_⟩
    apply oneFigure_of_ends (owing_run he hrun') hb' hp' (hbid.trans hl.bookingId.symm) hpaid'
    rw [hl.bookingId]
    exact hends'
  constructor
  · intro b hb p hp hid hpaid hstatus
    obtain ⟨pct, hpct, _⟩ := hrec.recorded.endPct hb
    refine ⟨pct, fun ms' d'' hrun' b' hb' p' hp' hbid hpid => ?_⟩
    exact hlater ⟨⟨hsound, hrec⟩, htasks⟩ hp rfl hpaid ⟨b, hb, hid, hstatus, hpct⟩ ms' d'' hrun' b'
      hb' p' hp' (hbid.trans hid) hpid
  · intro now tokenHash body db' hcancel
    obtain ⟨row, answer, hrow, hanswer, hbid, hpct, hshown, hends, hpayments⟩ :=
      linkCancel_records hsound hcancel
    have hstep : d'.step (.world (.op now (.linkCancel tokenHash body))) =
        some ⟨⟨db', d'.shared.provider⟩, d'.threads⟩ := by
      simp [Desk.step, Pool.step, till, Till.around, Op.pays, apply, hcancel]
    refine ⟨answer, hanswer, hpct, fun p hp hid hpaid => ⟨?_, ?_, ?_⟩⟩
    · exact hshown p hp (hid.trans hbid) hpaid
    · refine hlater (owing_step ⟨⟨hsound, hrec⟩, htasks⟩ hstep) ?_ hid hpaid (hbid ▸ hends)
      show p ∈ db'.payments.rows
      rw [hpayments]
      exact hp
    · intro ms₀ d₀ ms₁ now₀ tokenHash₀ view paid hrun₀ hrun₁ hread hvid hvpct hvpaid
      simp only [readLink, found_bind_eq_ok] at hread
      obtain ⟨row₀, hrow₀, hread⟩ := hread
      cases hread
      obtain ⟨q, hq, hqid, hqpaid, hqamount⟩ := exists_paid_of_paidMinor hvpaid
      obtain ⟨q', hq', hl⟩ := later_run (owing_run hblank.owing hrun₀).sound hrun₁ hq
      have hqpaid' : q'.status = .paid := (hl.status_eq (by rw [hqpaid]; decide)).trans hqpaid
      have heq : q' = p := by
        apply hsound.alone q' hq' p hp
        · rw [hl.bookingId, hqid, hid]
          exact hvid
        · rw [hqpaid']; decide
        · rw [hpaid]; decide
      subst heq
      rw [hshown q' hp (hid.trans hbid) hpaid, ← hvpct, hl.amountMinor, hqamount]
      have hpaidMinor : d₀.shared.db.paidMinor row₀.id = some paid := hvpaid
      show (d₀.shared.db.paidMinor row₀.id).map _ = _
      rw [hpaidMinor]
      rfl

/-- The checkout paid in time, and the link mailed. -/
def paidWithLink : List Deed :=
  checkoutPaid ++ reconciled 1 2 ++ [.world (.op 2 (.edit (.addLink ⟨1, 1⟩)))]

/-- The client cancels the paid request: the link shows all of it going back. -/
theorem one_refund_figure_cancelled :
    ∃ d' db' answer, openDesk.run paidWithLink = some d' ∧
      linkCancel d'.shared.db 3 1 ⟨1, 100, none⟩ = .ok db' ∧
      cancelAnswer d'.shared.db 3 1 = some answer ∧ answer.engine.refundMinor = some 1000 := by
  have hrun := Option.isSome_iff_exists.mp
    (by decide +kernel : (openDesk.run paidWithLink).isSome)
  have hfacts : ∀ d' ∈ openDesk.run paidWithLink,
      (∃ p ∈ d'.shared.db.payments.rows, p.bookingId = 1 ∧ p.status = .paid ∧
        p.amountMinor = 1000) ∧
      (linkCancel d'.shared.db 3 1 ⟨1, 100, none⟩).toOption.isSome ∧
      ∀ answer ∈ cancelAnswer d'.shared.db 3 1, answer.booking.id = 1 := by decide +kernel
  obtain ⟨d', hd'⟩ := hrun
  obtain ⟨⟨p, hp, hid, hpaid, hamount⟩, hok, hbooking⟩ := hfacts d' hd'
  have hblank : openDesk.Blank := ⟨rfl, rfl, rfl, rfl, rfl, rfl, rfl⟩
  cases hcancel : linkCancel d'.shared.db 3 1 ⟨1, 100, none⟩ with
  | error e =>
      rw [hcancel] at hok
      cases hok
  | ok db' =>
      obtain ⟨answer, hanswer, _, hshown⟩ :=
        (one_refund_figure hblank hd').2 3 1 ⟨1, 100, none⟩ db' hcancel
      refine ⟨d', db', answer, hd', hcancel, hanswer, ?_⟩
      rw [(hshown p hp (hid.trans (hbooking answer hanswer).symm) hpaid).1, hamount]
      rfl

end Ziftbook
