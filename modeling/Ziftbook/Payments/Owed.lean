import Ziftbook.Payments.Sound

/-!
# What an ending owes

Once a booking has ended, or its hold has run out, the share of its payment that
goes back is settled for good: a client's cancel recorded it, every other ending
sends back all. Every settle run in flight, and every row a run has settled,
carries that one figure.
-/

namespace Ziftbook

open Foundation

/-! ## § The figure -/

/-- The share of its payment that a booking's end sends back. -/
def Db.endPct (db : Db) (b : Booking) : Option ℤ :=
  if b.status = .cancelledByClient then db.clientPct b.id else some 100

theorem endPct_of_cancelled {db : Db} {b : Booking} (h : b.status = .cancelledByClient) :
    db.endPct b = db.clientPct b.id :=
  if_pos h

theorem endPct_of_other {db : Db} {b : Booking} (h : b.status ≠ .cancelledByClient) :
    db.endPct b = some 100 :=
  if_neg h

/-- The booking has ended, or is a hold to give up, at this share of its payment. -/
def Db.ends (db : Db) (bookingId : ℕ) (pct : ℤ) : Prop :=
  ∃ b ∈ db.bookings.rows, b.id = bookingId ∧
    (b.status = .awaitingPayment ∨ b.status ∈ refunding) ∧ db.endPct b = some pct

/-- The payment's booking has ended, or is a hold to give up, and `due` goes back. -/
def Db.owes (db : Db) (p : Payment) (due : ℤ) : Prop :=
  ∃ pct, db.ends p.bookingId pct ∧ (0 ≤ pct ∧ pct ≤ 100) ∧ due = refundDue p.amountMinor pct

theorem refundDue_range {amount pct : ℤ} (ha : 0 ≤ amount) (h0 : 0 ≤ pct) (h1 : pct ≤ 100) :
    0 ≤ refundDue amount pct ∧ refundDue amount pct ≤ amount := by
  have hmul : amount * pct ≤ amount * 100 := mul_le_mul_of_nonneg_left h1 ha
  have hnonneg : 0 ≤ amount * pct := mul_nonneg ha h0
  unfold refundDue
  constructor <;> omega

theorem Payment.amountMinor_nonneg (p : Payment) : 0 ≤ p.amountMinor :=
  p.refunded_range.1.trans p.refunded_range.2

theorem Db.owes.range {db : Db} {p : Payment} {due : ℤ} (h : db.owes p due) :
    0 ≤ due ∧ due ≤ p.amountMinor := by
  obtain ⟨pct, _, ⟨h0, h1⟩, rfl⟩ := h
  exact refundDue_range p.amountMinor_nonneg h0 h1

theorem Db.ends.unique {db : Db} {id : ℕ} {pct pct' : ℤ} (h : db.ends id pct)
    (h' : db.ends id pct') : pct = pct' := by
  obtain ⟨b, hb, hid, _, hpct⟩ := h
  obtain ⟨c, hc, hid', _, hpct'⟩ := h'
  have heq : b = c := db.bookings.eq_of_key hb hc (hid.trans hid'.symm)
  subst heq
  exact Option.some.inj (hpct.symm.trans hpct')

/-- A booking owes one figure. -/
theorem Db.owes.unique {db : Db} {p : Payment} {due due' : ℤ} (h : db.owes p due)
    (h' : db.owes p due') : due = due' := by
  obtain ⟨pct, hpct, _, rfl⟩ := h
  obtain ⟨pct', hpct', _, rfl⟩ := h'
  rw [hpct.unique hpct']

/-- The figure is of the booking and the amount, whatever else of the row moves. -/
theorem Db.owes.congr {db : Db} {p q : Payment} {due : ℤ} (h : db.owes p due)
    (hb : q.bookingId = p.bookingId) (ha : q.amountMinor = p.amountMinor) : db.owes q due := by
  unfold Db.owes
  rw [hb, ha]
  exact h

/-! ## § The client's cancel on record -/

/-- Every client's cancel is recorded, with its share. -/
structure Db.Recorded (db : Db) : Prop where
  share : ∀ e ∈ db.events, e.name = .cancelledByClient →
    ∃ pct, e.details = .refundPct pct ∧ 0 ≤ pct ∧ pct ≤ 100
  cancel : ∀ id, db.clientCancelled id → db.cancelRecorded id

theorem Db.Recorded.clientPct {db : Db} (h : db.Recorded) {id : ℕ}
    (hcancelled : db.clientCancelled id) :
    ∃ pct, db.clientPct id = some pct ∧ 0 ≤ pct ∧ pct ≤ 100 := by
  obtain ⟨e, he, hid, hname⟩ := h.cancel id hcancelled
  have hmem : e ∈ db.eventsOf id fun e => e.name = .cancelledByClient := by
    simp [Db.eventsOf, he, hid, hname]
  cases hlast : (db.eventsOf id fun e => e.name = .cancelledByClient).getLast? with
  | none =>
      rw [List.getLast?_eq_none_iff.mp hlast] at hmem
      cases hmem
  | some last =>
      have hin := List.mem_of_getLast? hlast
      simp only [Db.eventsOf, List.mem_filter, decide_eq_true_eq] at hin
      obtain ⟨pct, hdetails, hrange⟩ := h.share last hin.1 hin.2.2
      refine ⟨pct, ?_, hrange⟩
      simp only [Db.clientPct, hlast, Option.bind_some, hdetails, EventDetails.pct]

/-- A booking that has ended, or is a hold to give up, owes a figure. -/
theorem Db.Recorded.endPct {db : Db} (h : db.Recorded) {b : Booking}
    (hb : b ∈ db.bookings.rows) : ∃ pct, db.endPct b = some pct ∧ 0 ≤ pct ∧ pct ≤ 100 := by
  unfold Db.endPct
  split
  · rename_i hs
    exact h.clientPct ⟨b, hb, rfl, hs⟩
  · exact ⟨100, rfl, by decide, by decide⟩

theorem Db.Recorded.owes {db : Db} (h : db.Recorded) {b : Booking} (hb : b ∈ db.bookings.rows)
    (hs : b.status = .awaitingPayment ∨ b.status ∈ refunding) {p : Payment}
    (hid : b.id = p.bookingId) {pct : ℤ} (hpct : db.endPct b = some pct) :
    db.owes p (refundDue p.amountMinor pct) := by
  obtain ⟨pct', hpct', h0, h1⟩ := h.endPct hb
  cases hpct.symm.trans hpct'
  exact ⟨pct, ⟨b, hb, hid, hs, hpct⟩, ⟨h0, h1⟩, rfl⟩

/-- What every operation leaves of the bookings and the clients' cancels. -/
structure Closes (landing : Booking → Prop) (db db' : Db) : Prop where
  bookings : ∀ b ∈ db.bookings.rows, ∃ b' ∈ db'.bookings.rows, b.Carried (landing b) b'
  cancelled : ∀ id, db'.clientCancelled id → db.clientCancelled id ∨ db'.cancelRecorded id
  events : ∃ new, db'.events = db.events ++ new ∧ ∀ e ∈ new, e.name = .cancelledByClient →
    (∃ pct, e.details = .refundPct pct ∧ 0 ≤ pct ∧ pct ≤ 100) ∧
      ∀ b ∈ db.bookings.rows, b.id = e.bookingId →
        b.status ≠ .awaitingPayment ∧ b.status ∉ refunding

theorem Carries.closes {landing : Booking → Prop} {db db' : Db} (h : Carries landing db db') :
    Closes landing db db' := by
  obtain ⟨new, hnew, hplain⟩ := h.events
  exact ⟨h.bookings, h.cancelled, new, hnew, fun e he => (hplain e he).cancel⟩

theorem closes_refl {landing : Booking → Prop} (db : Db) : Closes landing db db :=
  (SameBooks.carries ⟨rfl, rfl, rfl⟩).closes

/-- A refund's record closes nothing but a hold that ran out. -/
theorem closes_recordRefund (db : Db) (now : ℤ) (row : SettleRow) (due : ℤ)
    (refundId : Option ℕ) (refunded : ℤ) (outcome : RefundOutcome) (overQuota : Bool) :
    Closes (fun _ => False) db
      (db.recordRefund now row due refundId refunded outcome overQuota) := by
  rcases recordRefund_tells db now row due refundId refunded outcome overQuota with
    heq | ⟨_, hcarries, htells⟩
  · rw [heq]
    exact closes_refl db
  · obtain ⟨new, hnew, hplain⟩ := hcarries.events
    obtain ⟨told, htold, _, hsettles⟩ := htells.events
    refine ⟨?_, fun id hid => ?_, new ++ told, ?_, fun e he hname => ?_⟩
    · rw [htells.bookings]
      exact hcarries.bookings
    · rw [Db.clientCancelled, htells.bookings] at hid
      refine (hcarries.cancelled id hid).imp_right ?_
      rintro ⟨e, he, hrecorded⟩
      exact ⟨e, by rw [htold]; exact List.mem_append_left _ he, hrecorded⟩
    · rw [htold, hnew, List.append_assoc]
    · rcases List.mem_append.mp he with he | he
      · exact (hplain e he).cancel hname
      · rcases (hsettles e he).1 with hs | hs
        · cases hs.symm.trans hname
        · cases hs.1.symm.trans hname

/-- **Every operation** closes bookings, and lands only the one its payment is for. -/
theorem closes_of_apply {db db' : Db} {now : ℤ} {op : Op} (h : apply db now op = .ok db') :
    Closes (op.landsOn db now) db db' := by
  by_cases hrecords : op.records = false
  · exact (carries_of_apply h hrecords).closes
  · cases op with
    | recordRefund row due refundId refunded outcome overQuota =>
        cases h
        exact closes_recordRefund ..
    | _ => exact absurd rfl hrecords

theorem Closes.recorded {landing : Booking → Prop} {db db' : Db} (h : Closes landing db db')
    (hr : db.Recorded) : db'.Recorded := by
  obtain ⟨new, hnew, hcancels⟩ := h.events
  constructor
  · intro e he hname
    rw [hnew, List.mem_append] at he
    rcases he with he | he
    · exact hr.share e he hname
    · exact (hcancels e he hname).1
  · intro id hid
    rcases h.cancelled id hid with hold | hrecorded
    · obtain ⟨e, he, hrecorded⟩ := hr.cancel id hold
      exact ⟨e, by rw [hnew]; exact List.mem_append_left _ he, hrecorded⟩
    · exact hrecorded

/-- The share of a booking that has ended is not recorded again. -/
theorem Closes.clientPct {landing : Booking → Prop} {db db' : Db} (h : Closes landing db db')
    {b : Booking} (hb : b ∈ db.bookings.rows)
    (hs : b.status = .awaitingPayment ∨ b.status ∈ refunding) :
    db'.clientPct b.id = db.clientPct b.id := by
  obtain ⟨new, hnew, hcancels⟩ := h.events
  have hnone : (new.filter fun e => e.bookingId = b.id ∧ e.name = .cancelledByClient) = [] := by
    rw [List.filter_eq_nil_iff]
    intro e he hsel
    obtain ⟨hid, hname⟩ : e.bookingId = b.id ∧ e.name = .cancelledByClient := by simpa using hsel
    obtain ⟨hawaits, hended⟩ := (hcancels e he hname).2 b hb hid.symm
    exact hs.elim hawaits hended
  simp only [Db.clientPct, Db.eventsOf, hnew, List.filter_append, hnone, List.append_nil]

/-- **An end's share stays**, as long as no payment lands on the booking. -/
theorem Closes.ends {landing : Booking → Prop} {db db' : Db} (h : Closes landing db db')
    {id : ℕ} {pct : ℤ} (he : db.ends id pct)
    (hnot : ∀ b ∈ db.bookings.rows, b.id = id → ¬ landing b) : db'.ends id pct := by
  obtain ⟨b, hb, hid, hs, hpct⟩ := he
  obtain ⟨b', hb', hc⟩ := h.bookings b hb
  have hclient : db'.clientPct b'.id = db.clientPct b.id := by
    rw [hc.id]
    exact h.clientPct hb hs
  refine ⟨b', hb', hc.id.trans hid, ?_, ?_⟩
  · rcases hs with hs | hs
    · rcases hc.awaits hs with ha | he | hl
      · exact Or.inl ha
      · exact Or.inr (by rw [he]; decide)
      · exact absurd hl (hnot b hb hid)
    · exact Or.inr (by rw [hc.ended hs]; exact hs)
  · rw [← hpct]
    rcases hs with hs | hs
    · have hold : b.status ≠ .cancelledByClient := by rw [hs]; decide
      have hnew : b'.status ≠ .cancelledByClient := by
        rcases hc.awaits hs with ha | he | hl
        · rw [ha]; decide
        · rw [he]; decide
        · exact absurd hl (hnot b hb hid)
      rw [endPct_of_other hold, endPct_of_other hnew]
    · unfold Db.endPct
      rw [hclient, hc.ended hs]

/-! ## § Paid rows -/

/-- The payment is refunded `due` by the operation. -/
def Op.recordsFor (op : Op) (id : ℕ) (due : ℤ) : Prop :=
  ∃ row refundId refunded outcome overQuota, row.payment.id = id ∧
    op = .recordRefund row due refundId refunded outcome overQuota

/-- What an operation leaves of a row that is paid after it: the record of a refund
settles it, a release might, and nothing else does. -/
structure Payment.Accounts (op : Op) (p p' : Payment) : Prop where
  id : p'.id = p.id
  settles : p'.status = .paid →
    (p'.settledAt = p.settledAt ∧ p'.refundedMinor = p.refundedMinor) ∨
    op = .writeReleased p.id ∨
    ∃ due, op.recordsFor p.id due ∧ p.refundable due ∧ p'.refundedMinor = due ∧
      p'.settledAt ≠ none

theorem Payment.Accounts.refl (op : Op) (p : Payment) : p.Accounts op p :=
  ⟨rfl, fun _ => Or.inl ⟨rfl, rfl⟩⟩

/-- The row as `_refund`'s record leaves it. -/
def Payment.recorded (p : Payment) (now : ℤ) (row : SettleRow) (due : ℤ)
    (refundId : Option ℕ) (refunded : ℤ) (outcome : RefundOutcome) : Payment :=
  let q := if p.id = row.payment.id then p.refunded due refundId now else p
  if outcome ≠ .sent ∧ q.intentId = row.payment.intentId then q.setRefundFlag refunded now else q

@[simp] theorem Payment.recorded_id (p : Payment) (now : ℤ) (row : SettleRow) (due : ℤ)
    (refundId : Option ℕ) (refunded : ℤ) (outcome : RefundOutcome) :
    (p.recorded now row due refundId refunded outcome).id = p.id := by
  unfold Payment.recorded
  simp only
  split_ifs <;> simp [Payment.setRefundFlag]

/-- The row as `refund_changed`'s write leaves it. -/
def Payment.looked (p : Payment) (now : ℤ) (intent : IntentId) (refundId : ℕ) (failed : Bool)
    (refunded : ℤ) : Payment :=
  if p.intentId = intent then
    (if failed then p.setRefundId refundId else p).setRefundFlag refunded now
  else p

theorem mem_updatePayment_iff {db : Db} {id : ℕ} {f : Payment → Payment}
    {hf : ∀ p, (f p).id = p.id} {p' : Payment} :
    p' ∈ (db.updatePayment id f hf).payments.rows ↔
      ∃ p ∈ db.payments.rows, (if p.id = id then f p else p) = p' :=
  List.mem_map

theorem mem_updateIntent_iff {db : Db} {intent : IntentId} {f : Payment → Payment}
    {hf : ∀ p, (f p).id = p.id} {p' : Payment} :
    p' ∈ (db.updateIntent intent f hf).payments.rows ↔
      ∃ p ∈ db.payments.rows, (if p.intentId = intent then f p else p) = p' :=
  List.mem_map

theorem mem_setRefundFlag {db : Db} {intent : IntentId} {refunded now : ℤ} {p' : Payment} :
    p' ∈ (db.setRefundFlag intent refunded now).payments.rows ↔
      ∃ p ∈ db.payments.rows,
        (if p.intentId = intent then p.setRefundFlag refunded now else p) = p' :=
  mem_updateIntent_iff

theorem writeRefund_payments (db : Db) (now : ℤ) (row : SettleRow) (due : ℤ)
    (refundId : Option ℕ) : (db.writeRefund now row due refundId).payments =
      (db.updatePayment row.payment.id (fun p => p.refunded due refundId now)
        fun _ => Payment.refunded_id ..).payments := by
  unfold Db.writeRefund
  simp only
  split
  · exact giveBack_payments ..
  · rfl

theorem tellRefund_payments (db : Db) (now : ℤ) (row : SettleRow) (due refunded : ℤ)
    (overQuota : Bool) (outcome : RefundOutcome) :
    (db.tellRefund now row due refunded overQuota outcome).payments =
      if outcome = .sent then db.payments
      else (db.setRefundFlag row.payment.intentId refunded now).payments := by
  cases outcome with
  | held => rfl
  | refused => exact refundFailed_payments ..
  | sent =>
      simp only [Db.tellRefund, Db.email, if_true]
      split_ifs <;> rfl

/-- **A refund's record**, row by row. -/
theorem mem_recordRefund {db : Db} {now : ℤ} {row : SettleRow} {due : ℤ}
    {refundId : Option ℕ} {refunded : ℤ} {outcome : RefundOutcome} {overQuota : Bool}
    (hopen : db.refundOpen row.payment.id due) {p' : Payment} :
    p' ∈ (db.recordRefund now row due refundId refunded outcome overQuota).payments.rows ↔
      ∃ p ∈ db.payments.rows, p.recorded now row due refundId refunded outcome = p' := by
  rw [Db.recordRefund, if_pos hopen, tellRefund_payments]
  unfold Payment.recorded
  split
  · rename_i hsent
    rw [writeRefund_payments, mem_updatePayment_iff]
    simp [hsent]
  · rename_i hflag
    rw [mem_setRefundFlag]
    simp only [writeRefund_payments, mem_updatePayment_iff]
    constructor
    · rintro ⟨q, ⟨p, hp, rfl⟩, rfl⟩
      exact ⟨p, hp, by simp [hflag]⟩
    · rintro ⟨p, hp, rfl⟩
      exact ⟨_, ⟨p, hp, rfl⟩, by simp [hflag]⟩

/-- **`refund_changed`'s write**, row by row. -/
theorem mem_refundChanged {db : Db} {now : ℤ} {intent : IntentId} {refundId : ℕ}
    {failed : Bool} {refunded : ℤ} {overQuota : Bool} {p' : Payment} :
    p' ∈ (db.refundChanged now intent refundId failed refunded overQuota).payments.rows ↔
      ∃ p ∈ db.payments.rows, p.looked now intent refundId failed refunded = p' := by
  unfold Db.refundChanged
  split
  · rename_i hnone
    have hother : ∀ p ∈ db.payments.rows, p.intentId ≠ intent := by
      simpa using List.find?_eq_none.mp hnone
    constructor
    · intro hp
      exact ⟨p', hp, if_neg (hother p' hp)⟩
    · rintro ⟨p, hp, rfl⟩
      rw [Payment.looked, if_neg (hother p hp)]
      exact hp
  · rename_i payment _
    rw [mem_setRefundFlag]
    cases failed with
    | false => simp [Payment.looked]
    | true =>
        have hpayments := refundFailed_payments db payment.bookingId (some refundId) overQuota
        have hrow : ∀ p : Payment,
            (if (if p.intentId = intent then p.setRefundId refundId else p).intentId = intent then
              (if p.intentId = intent then p.setRefundId refundId else p).setRefundFlag refunded now
            else if p.intentId = intent then p.setRefundId refundId else p) =
              p.looked now intent refundId true refunded := by
          intro p
          by_cases h : p.intentId = intent
          · have hkeeps : (p.setRefundId refundId).intentId = intent := h
            simp only [Payment.looked, h, if_true, hkeeps]
          · simp only [Payment.looked, h, if_false]
        constructor
        · rintro ⟨q, hq, rfl⟩
          obtain ⟨p, hp, rfl⟩ := mem_updateIntent_iff.mp hq
          exact ⟨p, hpayments ▸ hp, (hrow p).symm⟩
        · rintro ⟨p, hp, rfl⟩
          exact ⟨_, mem_updateIntent_iff.mpr ⟨p, hpayments.symm ▸ hp, rfl⟩, hrow p⟩

theorem accounts_markCanceled (op : Op) (p : Payment) (now : ℤ) :
    p.Accounts op (p.markCanceled now) := by
  refine ⟨Payment.markCanceled_id .., fun hs => Or.inl ?_⟩
  unfold Payment.markCanceled at hs ⊢
  split at hs
  · cases hs
  · rename_i hopen
    rw [dif_neg hopen]
    exact ⟨rfl, rfl⟩

theorem accounts_markPaid (op : Op) (p : Payment) : p.Accounts op p.markPaid := by
  refine ⟨Payment.markPaid_id p, fun _ => Or.inl ?_⟩
  unfold Payment.markPaid
  split <;> exact ⟨rfl, rfl⟩

theorem accounts_markChecked (op : Op) (p : Payment) (setup : Bool) (now : ℤ) :
    p.Accounts op (p.markChecked setup now) := by
  refine ⟨Payment.markChecked_id .., fun hs => Or.inl ?_⟩
  unfold Payment.markChecked at hs ⊢
  split at hs
  · cases hs
  · rename_i hopen
    rw [dif_neg hopen]
    exact ⟨rfl, rfl⟩

theorem accounts_recorded {now : ℤ} {row : SettleRow} {due : ℤ} {refundId : Option ℕ}
    {refunded : ℤ} {outcome : RefundOutcome} {overQuota : Bool} (p : Payment) :
    p.Accounts (.recordRefund row due refundId refunded outcome overQuota)
      (p.recorded now row due refundId refunded outcome) := by
  have hmine : (p.recorded now row due refundId refunded outcome).settledAt =
        (if p.id = row.payment.id then p.refunded due refundId now else p).settledAt ∧
      (p.recorded now row due refundId refunded outcome).refundedMinor =
        (if p.id = row.payment.id then p.refunded due refundId now else p).refundedMinor := by
    unfold Payment.recorded
    simp only
    split_ifs <;> simp [Payment.setRefundFlag]
  obtain ⟨hsettled, hminor⟩ := hmine
  refine ⟨Payment.recorded_id .., fun _ => ?_⟩
  rw [hsettled, hminor]
  by_cases hp : p.id = row.payment.id
  · rw [if_pos hp]
    unfold Payment.refunded
    split
    · rename_i hopen
      exact Or.inr (Or.inr ⟨due, ⟨row, refundId, refunded, outcome, overQuota, hp.symm, rfl⟩,
        hopen, rfl, by simp⟩)
    · exact Or.inl ⟨rfl, rfl⟩
  · rw [if_neg hp]
    exact Or.inl ⟨rfl, rfl⟩

theorem accounts_looked {op : Op} {now : ℤ} {intent : IntentId} {refundId : ℕ} {failed : Bool}
    {refunded : ℤ} (p : Payment) :
    p.Accounts op (p.looked now intent refundId failed refunded) := by
  constructor
  · unfold Payment.looked
    split_ifs <;> rfl
  · intro _
    unfold Payment.looked
    split_ifs <;> exact Or.inl ⟨rfl, rfl⟩

theorem accounts_update {op : Op} {t : Table Payment ℕ Payment.id} {sel : Payment → Prop}
    [DecidablePred sel] {f : Payment → Payment} (hf : ∀ p, (f p).id = p.id)
    (h : ∀ p, sel p → p.Accounts op (f p)) {p' : Payment} (hp' : p' ∈ (t.update sel f hf).rows) :
    ∃ p ∈ t.rows, p.Accounts op p' := by
  rcases Table.mem_update.mp hp' with ⟨p, hp, hsel, rfl⟩ | ⟨hp, _⟩
  · exact ⟨p, hp, h p hsel⟩
  · exact ⟨p', hp, Payment.Accounts.refl op p'⟩

theorem accounts_of_same {op : Op} {db db' : Db} (h : db'.payments = db.payments) {p' : Payment}
    (hp' : p' ∈ db'.payments.rows) : ∃ p ∈ db.payments.rows, p.Accounts op p' :=
  ⟨p', h ▸ hp', Payment.Accounts.refl op p'⟩

theorem accounts_reconcile {db : Db} {now : ℤ} {row : Payment} {state : IntentState} {op : Op}
    {p' : Payment} (hp' : p' ∈ (db.reconcile now row state).payments.rows) :
    ∃ p ∈ db.payments.rows, p.Accounts op p' := by
  unfold Db.reconcile at hp'
  split at hp'
  · exact accounts_of_same rfl hp'
  · split_ifs at hp'
    · exact accounts_of_same rfl hp'
    · exact accounts_of_same rfl hp'
    · split at hp'
      · rw [Db.landChecked, live_payments] at hp'
        exact accounts_update (fun _ => Payment.markChecked_id ..)
          (fun p _ => accounts_markChecked op p _ _) hp'
      · rw [Db.landPaid, live_payments] at hp'
        exact accounts_update Payment.markPaid_id (fun p _ => accounts_markPaid op p) hp'
    · exact accounts_update (fun _ => Payment.markCanceled_id ..)
        (fun p _ => accounts_markCanceled op p now) hp'
    · exact accounts_of_same rfl hp'

/-- **Every operation**: a row paid after it was settled by a release, or by the record
of a refund, or is settled as it was. -/
theorem accounts_of_apply {db db' : Db} {now : ℤ} {op : Op} (h : apply db now op = .ok db')
    {p' : Payment} (hp' : p' ∈ db'.payments.rows) :
    (∃ p ∈ db.payments.rows, p.Accounts op p') ∨ p'.status = .open := by
  have hinsert : ∀ {d d' : Db} {id bookingId : ℕ} {kind : PaymentKind} {intent : IntentId}
      {amount : ℤ} {currency : String},
      d.insertPayment id bookingId kind intent amount currency = some d' →
      p' ∈ d'.payments.rows → p' ∈ d.payments.rows ∨ p'.status = .open := by
    intro d d' id bookingId kind intent amount currency hd hmem
    obtain ⟨_, p, hrows, hopened, _⟩ := insertPayment_opens hd
    rw [hrows, List.mem_append, List.mem_singleton] at hmem
    refine hmem.imp_right ?_
    rintro rfl
    exact hopened.status
  by_cases hpays : op.pays = false
  · exact Or.inl (accounts_of_same (aside_of_apply h hpays).payments hp')
  · cases op with
    | insertPayment id bookingId kind intent amount currency =>
        exact (hinsert (found_eq_ok.mp h) hp').imp_left fun hp =>
          ⟨p', hp, Payment.Accounts.refl _ p'⟩
    | giveBack bookingId =>
        cases h
        exact Or.inl (accounts_of_same (giveBack_payments ..) hp')
    | reconcile row state =>
        cases h
        exact Or.inl (accounts_reconcile hp')
    | resume bookingId old id kind intent amount currency =>
        exact (hinsert (resume_eq_ok h) hp').imp_left fun hp =>
          accounts_update (fun _ => Payment.markCanceled_id ..)
            (fun p _ => accounts_markCanceled _ p now) hp
    | abandon bookingId payment =>
        obtain ⟨db1, hexpire, hdb⟩ := abandon_eq_ok h
        obtain ⟨db2, h2, rfl⟩ := Option.map_eq_some_iff.mp hexpire
        obtain ⟨_, rfl⟩ := updateOne_eq_some h2
        rcases hdb with ⟨_, rfl⟩ | ⟨id, _, rfl⟩
        · exact Or.inl (accounts_of_same rfl hp')
        · exact Or.inl (accounts_update (fun _ => Payment.markCanceled_id ..)
            (fun p _ => accounts_markCanceled _ p now) hp')
    | writeCanceled paymentId =>
        cases h
        exact Or.inl (accounts_update (fun _ => Payment.markCanceled_id ..)
          (fun p _ => accounts_markCanceled _ p now) hp')
    | writeReleased paymentId =>
        cases h
        refine Or.inl (accounts_update (fun _ => Payment.released_id ..) (fun p hp => ?_) hp')
        exact ⟨Payment.released_id p now, fun _ => Or.inr (Or.inl (congrArg _ (Eq.symm hp)))⟩
    | recordRefund row due refundId refunded outcome overQuota =>
        cases h
        by_cases hopen : db.refundOpen row.payment.id due
        · obtain ⟨p, hp, rfl⟩ := (mem_recordRefund hopen).mp hp'
          exact Or.inl ⟨p, hp, accounts_recorded p⟩
        · rw [Db.recordRefund, if_neg hopen] at hp'
          exact Or.inl (accounts_of_same rfl hp')
    | refundChanged intent refundId failed refunded overQuota =>
        cases h
        obtain ⟨p, hp, rfl⟩ := mem_refundChanged.mp hp'
        exact Or.inl ⟨p, hp, accounts_looked p⟩
    | _ => exact absurd rfl hpays

end Ziftbook
