import Ziftbook.Payments.Rows

/-!
# What a payment operation does to bookings, events and mails

A payment that lands makes its booking live, only while the checkout's hold
runs. A refund's record may end a lapsed hold, and is what writes the refund's
one event and its mail. The rest carries the bookings on.
-/

namespace Ziftbook

open Foundation

/-! ## § Landing -/

/-- `reconcile`'s write lands on the booking: the row is still open under the lock,
the provider says it landed, and the hold has not passed. -/
structure Db.Lands (db : Db) (now : ℤ) (row : Payment) (state : IntentState) (b : Booking) :
    Prop where
  booking : b.id = row.bookingId
  unexpired : b.unexpired now
  matched : mismatch state row = false
  landed : landed state row.kind = true
  current : ∃ p ∈ db.payments.rows, p.id = row.id ∧ p.status = .open

/-- The bookings an operation makes live. -/
def Op.landsOn (db : Db) (now : ℤ) : Op → Booking → Prop
  | .reconcile row state, b => db.Lands now row state b
  | _, _ => False

theorem landed_not_client (b : Booking) (hours now : ℤ) :
    (b.landed hours now).status ≠ .cancelledByClient := by
  unfold Booking.landed
  simp only
  split_ifs <;> simp

theorem carries_live {db : Db} {now : ℤ} {bookingId : ℕ} {event : EventName}
    (hrefunded : event ≠ .refunded) (hfailed : event ≠ .refundFailed)
    (hcancel : event ≠ .cancelledByClient) :
    Carries (fun b => b.id = bookingId ∧ b.unexpired now) db
      (db.live now bookingId event) := by
  unfold Db.live
  split
  · rename_i db' h
    obtain ⟨_, rfl⟩ := updateOne_eq_some h
    have hrows : Carries (fun b => b.id = bookingId ∧ b.unexpired now) db (db.updateBookings
        (fun b => b.id = bookingId ∧ b.status = .awaitingPayment ∧ b.unexpired now)
        (fun b => b.landed db.settings.pendingTtlHours now) (fun _ => rfl) fun _ => rfl) := by
      refine carries_updateBookings (fun b hp => ⟨rfl, rfl, fun _ => ?_, fun hb => ?_⟩)
        fun b _ hs => ?_
      · exact Or.inr (Or.inr ⟨hp.1, hp.2.2⟩)
      · rw [hp.2.1] at hb
        exact absurd hb (by decide)
      · exact absurd hs (landed_not_client b _ now)
    refine hrows.record rfl _ rfl rfl rfl fun e he => ?_
    rw [List.mem_singleton.mp he]
    exact plain_of_name hrefunded (fun h => absurd h hfailed) hcancel
  · exact SameBooks.carries ⟨rfl, rfl, rfl⟩

theorem Carries.mono {landing landing' : Booking → Prop} {db db' : Db}
    (h : Carries landing db db') (himp : ∀ b, landing b → landing' b) :
    Carries landing' db db' := by
  refine ⟨fun b hb => ?_, h.cancelled, h.events, h.mails⟩
  obtain ⟨b', hb', hc⟩ := h.bookings b hb
  exact ⟨b', hb', hc.id, hc.clientId, fun hs => (hc.awaits hs).imp_right fun h =>
    h.imp_right (himp b), hc.ended⟩

/-- What precedes without touching the books belongs to it. -/
theorem Carries.after {landing : Booking → Prop} {db db' db'' : Db}
    (h : Carries landing db' db'') (hsame : SameBooks db db') : Carries landing db db'' := by
  refine ⟨hsame.bookings ▸ h.bookings, ?_, ?_, ?_⟩
  · simpa only [Db.clientCancelled, hsame.bookings] using h.cancelled
  · obtain ⟨new, hnew, hplain⟩ := h.events
    refine ⟨new, by rw [hnew, hsame.events], fun e he => ⟨(hplain e he).settles, ?_⟩⟩
    rw [← hsame.bookings]
    exact (hplain e he).cancel
  · rw [← hsame.mails]
    exact h.mails

theorem carries_reconcile (db : Db) (now : ℤ) (row : Payment) (state : IntentState) :
    Carries (db.Lands now row state) db (db.reconcile now row state) := by
  have hsame : ∀ db' : Db, SameBooks db db' → Carries (db.Lands now row state) db db' :=
    fun _ h => h.carries
  unfold Db.reconcile
  split
  · exact hsame db ⟨rfl, rfl, rfl⟩
  · rename_i current hcurrent
    obtain ⟨hmem, hid⟩ := Table.find_eq_some.mp hcurrent
    split_ifs with hopen hmatched hlanded hcanceled
    · exact hsame db ⟨rfl, rfl, rfl⟩
    · exact hsame db ⟨rfl, rfl, rfl⟩
    · have hlands : ∀ b : Booking, b.id = row.bookingId ∧ b.unexpired now →
          db.Lands now row state b := fun b hb =>
        ⟨hb.1, hb.2, by simpa using hmatched, hlanded, current, hmem, hid, not_not.mp hopen⟩
      split
      · exact ((carries_live (by decide) (by decide) (by decide)).mono hlands).after ⟨rfl, rfl, rfl⟩
      · exact ((carries_live (by decide) (by decide) (by decide)).mono hlands).after ⟨rfl, rfl, rfl⟩
    · exact hsame _ ⟨rfl, rfl, rfl⟩
    · exact hsame db ⟨rfl, rfl, rfl⟩

/-- The transaction that lands on a booking moves the payment it read. -/
theorem reconcile_marks {db : Db} {now : ℤ} {row p : Payment} {state : IntentState}
    (hp : p ∈ db.payments.rows) (hid : p.id = row.id) (hkind : p.kind = row.kind)
    (hopen : p.status = .open) (hmatched : mismatch state row = false)
    (hlanded : landed state row.kind = true) :
    ∃ p' ∈ (db.reconcile now row state).payments.rows, p'.id = p.id ∧
      (p'.status = .checked ∨ p'.status = .paid) := by
  have hfind : db.payments.find row.id = some p := Table.find_eq_some.mpr ⟨hp, hid⟩
  simp only [Db.reconcile, hfind, hopen, hmatched, hlanded, ne_eq, not_true_eq_false, if_false,
    Bool.false_eq_true, if_true]
  split
  · rename_i hcheck
    refine ⟨p.markChecked state.setup now, ?_, Payment.markChecked_id .., Or.inl ?_⟩
    · rw [Db.landChecked, live_payments]
      exact Db.mem_updatePayment hp hid
    · simp [Payment.markChecked, hopen, hkind, hcheck]
  · rename_i hpay
    refine ⟨p.markPaid, ?_, Payment.markPaid_id .., Or.inr ?_⟩
    · rw [Db.landPaid, live_payments]
      exact Db.mem_updatePayment hp hid
    · simp [Payment.markPaid, hopen, hkind, hpay]

/-! ## § The refund's record -/

/-- One event and one mail at most, both of the booking's refund. -/
structure Tells (bookingId : ℕ) (db db' : Db) : Prop where
  bookings : db'.bookings = db.bookings
  events : ∃ new, db'.events = db.events ++ new ∧ new.length ≤ 1 ∧
    ∀ e ∈ new, e.settles ∧ e.bookingId = bookingId
  mails : ∃ new, db'.mails = db.mails ++ new ∧ new.length ≤ 1

theorem tells_of_same {bookingId : ℕ} {db db' : Db} (h : SameBooks db db') :
    Tells bookingId db db' :=
  ⟨h.bookings, ⟨[], by simp [h.events], by simp, by simp⟩, ⟨[], by simp [h.mails], by simp⟩⟩

/-- A failed refund is told by at most one event, of no refund when it was refused. -/
theorem refundFailed_tells (db : Db) (bookingId : ℕ) (refund : Option ℕ) (overQuota : Bool) :
    (db.refundFailed bookingId refund overQuota).bookings = db.bookings ∧
      (∃ new, (db.refundFailed bookingId refund overQuota).events = db.events ++ new ∧
        new.length ≤ 1 ∧ ∀ e ∈ new, e = ⟨bookingId, .refundFailed, none, none, .refund refund⟩) ∧
      ∃ new, (db.refundFailed bookingId refund overQuota).mails = db.mails ++ new ∧
        new.length ≤ 1 ∧ ∀ m ∈ new, m = .bookingRefundFailed bookingId refund := by
  unfold Db.refundFailed Db.tellRefundFailed
  split
  · rename_i db' h
    obtain ⟨_, h⟩ := Option.ite_none_left_eq_some.mp h
    cases h
    unfold Db.mailRefundFailed Db.email
    split_ifs
    · exact ⟨rfl, ⟨_, rfl, le_rfl, by simp⟩, ⟨[], by simp [Db.record], by simp, by simp⟩⟩
    · exact ⟨rfl, ⟨_, rfl, le_rfl, by simp⟩, ⟨_, rfl, le_rfl, by simp⟩⟩
    · exact ⟨rfl, ⟨_, rfl, le_rfl, by simp⟩, ⟨[], by simp [Db.record], by simp, by simp⟩⟩
  · exact ⟨rfl, ⟨[], by simp, by simp, by simp⟩, ⟨[], by simp, by simp, by simp⟩⟩

theorem tells_tellRefund (db : Db) (now : ℤ) (row : SettleRow) (due refunded : ℤ)
    (overQuota : Bool) (outcome : RefundOutcome) :
    Tells row.payment.bookingId db (db.tellRefund now row due refunded overQuota outcome) := by
  cases outcome with
  | held => exact tells_of_same ⟨rfl, rfl, rfl⟩
  | refused =>
      obtain ⟨hb, ⟨es, hes, hlen, hall⟩, ⟨ms, hms, hmlen, _⟩⟩ := refundFailed_tells
        (db.setRefundFlag row.payment.intentId refunded now) row.payment.bookingId none overQuota
      refine ⟨hb, ⟨es, hes, hlen, fun e he => ?_⟩, ⟨ms, hms, hmlen⟩⟩
      rw [hall e he]
      exact ⟨Or.inr ⟨rfl, rfl⟩, rfl⟩
  | sent =>
      simp only [Db.tellRefund]
      split_ifs
      · unfold Db.email
        split_ifs
        · exact ⟨rfl, ⟨_, rfl, le_rfl, by simp [Event.settles]⟩, ⟨[], by simp [Db.record], by simp⟩⟩
        · exact ⟨rfl, ⟨_, rfl, le_rfl, by simp [Event.settles]⟩, ⟨_, rfl, le_rfl⟩⟩
      · exact ⟨rfl, ⟨_, rfl, le_rfl, by simp [Event.settles]⟩, ⟨[], by simp [Db.record], by simp⟩⟩
      · exact tells_of_same ⟨rfl, rfl, rfl⟩

theorem carries_writeRefund (db : Db) (now : ℤ) (row : SettleRow) (due : ℤ)
    (refundId : Option ℕ) :
    Carries (fun _ => False) db (db.writeRefund now row due refundId) := by
  unfold Db.writeRefund
  simp only
  split
  · exact (carries_giveBack _ row.payment.bookingId).after ⟨rfl, rfl, rfl⟩
  · exact SameBooks.carries ⟨rfl, rfl, rfl⟩

/-- **A refund's record** writes nothing, or carries the bookings on and tells. -/
theorem recordRefund_tells (db : Db) (now : ℤ) (row : SettleRow) (due : ℤ)
    (refundId : Option ℕ) (refunded : ℤ) (outcome : RefundOutcome) (overQuota : Bool) :
    db.recordRefund now row due refundId refunded outcome overQuota = db ∨
      (db.refundOpen row.payment.id due ∧
        Carries (fun _ => False) db (db.writeRefund now row due refundId) ∧
        Tells row.payment.bookingId (db.writeRefund now row due refundId)
          (db.recordRefund now row due refundId refunded outcome overQuota)) := by
  unfold Db.recordRefund
  split
  · rename_i hopen
    exact Or.inr ⟨hopen, carries_writeRefund .., tells_tellRefund ..⟩
  · exact Or.inl rfl

/-! ## § Every other operation -/

/-- The operation records a refund. -/
def Op.records : Op → Bool
  | .recordRefund .. => true
  | _ => false

theorem carries_refundChanged (db : Db) (now : ℤ) (intent : IntentId) (refundId : ℕ)
    (failed : Bool) (refunded : ℤ) (overQuota : Bool) :
    Carries (fun _ => False) db
      (db.refundChanged now intent refundId failed refunded overQuota) := by
  unfold Db.refundChanged
  split
  · exact SameBooks.carries ⟨rfl, rfl, rfl⟩
  · rename_i payment _
    cases failed with
    | false => exact SameBooks.carries ⟨rfl, rfl, rfl⟩
    | true =>
        obtain ⟨hb, ⟨es, hes, _, hall⟩, ⟨ms, hms, _, hmall⟩⟩ := refundFailed_tells db
          payment.bookingId (some refundId) overQuota
        refine ⟨fun b hb' => ⟨b, ?_, Booking.Carried.refl _ b⟩, fun id hid => Or.inl ?_,
          ⟨es, hes, fun e he => ?_⟩, ⟨ms, hms, fun m hm => ?_⟩⟩
        · change b ∈ (db.refundFailed payment.bookingId (some refundId) overQuota).bookings.rows
          rw [hb]
          exact hb'
        · obtain ⟨b, hb', hrow⟩ := hid
          change b ∈ (db.refundFailed payment.bookingId (some refundId) overQuota).bookings.rows
            at hb'
          exact ⟨b, hb ▸ hb', hrow⟩
        · rw [hall e he]
          exact plain_of_name (by simp) (by simp) (by simp)
        · rw [hmall m hm]
          simp [Mail.settles]

/-- **Every operation but a refund's record** carries the bookings on, and makes
live only the one its payment lands on. -/
theorem carries_of_apply {db db' : Db} {now : ℤ} {op : Op} (h : apply db now op = .ok db')
    (hrecords : op.records = false) : Carries (op.landsOn db now) db db' := by
  by_cases hpays : op.pays = false
  · exact (aside_of_apply h hpays).carries.mono fun _ hf => hf.elim
  · cases op with
    | insertPayment id bookingId kind intent amount currency =>
        exact (insertPayment_opens (found_eq_ok.mp h)).1.carries
    | giveBack bookingId =>
        cases h
        exact carries_giveBack db bookingId
    | reconcile row state =>
        cases h
        exact carries_reconcile db now row state
    | resume bookingId old id kind intent amount currency =>
        have hinsert : Carries (fun _ => False) _ db' := (insertPayment_opens (resume_eq_ok h)).1.carries
        exact hinsert.after ⟨rfl, rfl, rfl⟩
    | abandon bookingId payment =>
        obtain ⟨db1, hexpire, hdb⟩ := abandon_eq_ok h
        have hc : Carries (fun _ => False) db db1 := carries_expireOne hexpire
        rcases hdb with ⟨_, rfl⟩ | ⟨id, _, rfl⟩
        · exact hc
        · exact ⟨hc.bookings, hc.cancelled, hc.events, hc.mails⟩
    | writeCanceled paymentId =>
        cases h
        exact SameBooks.carries ⟨rfl, rfl, rfl⟩
    | writeReleased paymentId =>
        cases h
        exact SameBooks.carries ⟨rfl, rfl, rfl⟩
    | recordRefund => exact absurd hrecords (by simp [Op.records])
    | refundChanged intent refundId failed refunded overQuota =>
        cases h
        exact carries_refundChanged ..
    | _ => exact absurd rfl hpays

end Ziftbook
