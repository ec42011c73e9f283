import Ziftbook.Payments.Owing

/-!
# No money is left unwatched

Every payment not settled is a checkout still under way, or money kept for its
booking, or one the sweep selects for a settle pass; the pass then acts on it and
settles it; and a client is owed money exactly while a booking of theirs is
selected, or a refund of theirs has failed.
-/

namespace Ziftbook

open Foundation

/-! ## § What an unsettled payment waits for -/

/-- Open, its booking's checkout hold still running. -/
def Payment.running (p : Payment) (b : Booking) (now : ℤ) : Prop :=
  p.status = .open ∧ b.status = .awaitingPayment ∧ b.unexpired now

/-- Paid, for a booking being kept, or a hold that ran out and is yet to be swept. -/
def Payment.held (p : Payment) (b : Booking) (now : ℤ) : Prop :=
  p.status = .paid ∧ (b.status ∉ refunding ∨ (b.status = .awaitingPayment ∧ b.lapsed now))

/-- A payment not settled waits for one thing alone. -/
inductive Payment.WaitsFor (p : Payment) (b : Booking) (now : ℤ) : Prop
  | checkout : p.running b now → ¬ p.held b now → ¬ p.unsettled b now → WaitsFor p b now
  | booking : ¬ p.running b now → p.held b now → ¬ p.unsettled b now → WaitsFor p b now
  | settle : ¬ p.running b now → ¬ p.held b now → p.unsettled b now → WaitsFor p b now

theorem not_held_of_status {p : Payment} {b : Booking} {now : ℤ} (h : p.status ≠ .paid) :
    ¬ p.held b now := fun hh => h hh.1

theorem waitsFor {p : Payment} (b : Booking) (now : ℤ) (hnone : p.settledAt = none)
    (hs : p.status ≠ .canceled) : p.WaitsFor b now := by
  cases hstatus : p.status with
  | «open» =>
      have hheld : ¬ p.held b now := not_held_of_status (by rw [hstatus]; decide)
      by_cases hlive : b.status = .awaitingPayment ∧ b.unexpired now
      · refine .checkout ⟨hstatus, hlive⟩ hheld ?_
        rintro ⟨_, ⟨_, hdead⟩ | hc | ⟨hp, _⟩⟩
        · exact hdead hlive
        · cases hstatus.symm.trans hc
        · cases hstatus.symm.trans hp
      · exact .settle (fun hr => hlive hr.2) hheld ⟨hnone, Or.inl ⟨hstatus, hlive⟩⟩
  | checked =>
      refine .settle ?_ (not_held_of_status (by rw [hstatus]; decide))
        ⟨hnone, Or.inr (Or.inl hstatus)⟩
      rintro ⟨ho, _⟩
      cases hstatus.symm.trans ho
  | paid =>
      have hrunning : ¬ p.running b now := by
        rintro ⟨ho, _⟩
        cases hstatus.symm.trans ho
      by_cases hended : b.status ∈ refunding
      · refine .settle hrunning ?_ ⟨hnone, Or.inr (Or.inr ⟨hstatus, hended⟩)⟩
        rintro ⟨_, hkept | ⟨hawaits, _⟩⟩
        · exact hkept hended
        · rw [hawaits] at hended
          exact absurd hended (by decide)
      · refine .booking hrunning ⟨hstatus, Or.inl hended⟩ ?_
        rintro ⟨_, ⟨ho, _⟩ | hc | ⟨_, hin⟩⟩
        · cases hstatus.symm.trans ho
        · cases hstatus.symm.trans hc
        · exact hended hin
  | canceled => exact absurd hstatus hs

/-! ## § The branch of the settle pass -/

theorem ending_mem_refunding {b : Booking} {now : ℤ} :
    b.ending now ∈ refunding ↔
      b.status ∈ refunding ∨ (b.status = .awaitingPayment ∧ b.lapsed now) := by
  unfold Booking.ending
  split
  · rename_i hlapsed
    constructor
    · exact fun _ => Or.inr hlapsed
    · exact fun _ => by decide
  · rename_i hlapsed
    constructor
    · exact Or.inl
    · exact fun h => h.resolve_right hlapsed

/-- The branch on the row of a payment and its booking, in the terms of `UNSETTLED`;
a paid row's lapsed hold is refunded before the sweep expires it. -/
structure SettleAction.Agrees (a : SettleAction) (p : Payment) (b : Booking) (now : ℤ) :
    Prop where
  cancel : a = .cancel ↔ p.status = .open ∧ p.unsettled b now
  release : a = .release ↔ p.status = .checked ∧ p.unsettled b now
  refund : a = .refund ↔ p.status = .paid ∧
    (p.unsettled b now ∨ (b.status = .awaitingPayment ∧ b.lapsed now))
  pass : a = .pass ↔ ¬ p.unsettled b now ∧
    ¬ (p.status = .paid ∧ b.status = .awaitingPayment ∧ b.lapsed now)

theorem unsettled_of_open {p : Payment} {b : Booking} {now : ℤ} (hnone : p.settledAt = none)
    (hs : p.status = .open) :
    p.unsettled b now ↔ ¬ (b.status = .awaitingPayment ∧ b.unexpired now) := by
  simp [Payment.unsettled, hnone, hs]

theorem unsettled_of_checked {p : Payment} {b : Booking} {now : ℤ} (hnone : p.settledAt = none)
    (hs : p.status = .checked) : p.unsettled b now := by
  simp [Payment.unsettled, hnone, hs]

theorem unsettled_of_paid {p : Payment} {b : Booking} {now : ℤ} (hnone : p.settledAt = none)
    (hs : p.status = .paid) : p.unsettled b now ↔ b.status ∈ refunding := by
  simp [Payment.unsettled, hnone, hs]

theorem action_agrees (db : Db) {p : Payment} (b : Booking) (now : ℤ)
    (hnone : p.settledAt = none) (hs : p.status ≠ .canceled)
    (hheld : p.status = .checked → p.intentId.setup = false) :
    (db.settleRow now p b).action.Agrees p b now := by
  have haction : (db.settleRow now p b).action =
      if p.status = .open ∧ decide (b.status = .awaitingPayment ∧ b.unexpired now) = false then
        .cancel
      else if p.status = .checked ∧ p.intentId.setup = false then .release
      else if p.status = .paid ∧ b.ending now ∈ refunding then .refund
      else .pass := rfl
  rw [haction]
  cases hstatus : p.status with
  | «open» =>
      have hiff := @unsettled_of_open p b now hnone hstatus
      by_cases hlive : b.status = .awaitingPayment ∧ b.unexpired now
      · constructor <;> simp [hlive, hstatus, hiff]
      · constructor <;> simp [hlive, hstatus, hiff]
  | checked =>
      have hunsettled := @unsettled_of_checked p b now hnone hstatus
      constructor <;> simp [hstatus, hheld hstatus, hunsettled]
  | paid =>
      have hiff := @unsettled_of_paid p b now hnone hstatus
      by_cases hended : b.ending now ∈ refunding
      · have hending := ending_mem_refunding.mp hended
        constructor <;> simp [hstatus, hended, hiff, hending]
        tauto
      · have hending := fun h => hended (ending_mem_refunding.mpr h)
        constructor <;> simp [hstatus, hended, hiff]
        · tauto
        · tauto
  | canceled => exact absurd hstatus hs

/-! ## § The pass settles what it acts on -/

/-- The operation settles the payment, on whatever clock it runs. -/
def Op.finishes (op : Op) (db : Db) (id : ℕ) : Prop :=
  ∀ now db', apply db now op = .ok db' →
    ∀ p' ∈ db'.payments.rows, p'.id = id → p'.settledAt ≠ none

/-- The write of the row's branch settles its payment; a refund's knows its figure. -/
structure SettleRow.Finishes (row : SettleRow) (db : Db) : Prop where
  cancel : row.action = .cancel → (Op.writeCanceled row.payment.id).finishes db row.payment.id
  release : row.action = .release → (Op.writeReleased row.payment.id).finishes db row.payment.id
  refund : row.action = .refund → ∃ due, row.due = some due ∧
    ∀ refundId refunded outcome overQuota,
      (Op.recordRefund row due refundId refunded outcome overQuota).finishes db row.payment.id

theorem updated_of_id {db : Db} {p p' : Payment} {f : Payment → Payment}
    {hf : ∀ p, (f p).id = p.id} (hp : p ∈ db.payments.rows)
    (hp' : p' ∈ (db.updatePayment p.id f hf).payments.rows) (hid : p'.id = p.id) : p' = f p := by
  obtain ⟨q, hq, rfl⟩ := mem_updatePayment_iff.mp hp'
  by_cases hsel : q.id = p.id
  · rw [if_pos hsel, db.payments.eq_of_key hq hp hsel]
  · rw [if_neg hsel] at hid
    exact absurd hid hsel

theorem finishes_settleRow {db : Db} (hrecorded : db.Recorded) {now : ℤ} {p : Payment}
    {b : Booking} (hp : p ∈ db.payments.rows) (hb : b ∈ db.bookings.rows)
    (hid : b.id = p.bookingId) (hnone : p.settledAt = none) :
    (db.settleRow now p b).Finishes db := by
  refine ⟨fun haction at_ db' h p' hp' hpid => ?_, fun _ at_ db' h p' hp' hpid => ?_,
    fun haction => ?_⟩
  · cases h
    have hopen : p.status = .open := (action_eq_cancel.mp haction).1
    rw [updated_of_id hp hp' hpid, Payment.markCanceled, dif_pos hopen]
    exact fun h => by cases h
  · cases h
    rw [updated_of_id hp hp' hpid, Payment.released, if_pos hnone]
    exact fun h => by cases h
  · obtain ⟨due, hdue, howes⟩ := owesRow_settleRow hrecorded hb hid haction
    refine ⟨due, hdue, fun refundId refunded outcome overQuota at_ db' h p' hp' hpid => ?_⟩
    cases h
    have hrefundable : p.refundable due :=
      ⟨hnone, howes.range, Or.inr (action_eq_refund haction).1⟩
    obtain ⟨q, hq, rfl⟩ := (mem_recordRefund ⟨p, hp, rfl, hrefundable⟩).mp hp'
    have hqp : q = p :=
      db.payments.eq_of_key hq hp ((Payment.recorded_id q ..).symm.trans hpid)
    subst hqp
    unfold Payment.recorded Payment.refunded
    simp only [Db.settleRow, if_true, dif_pos hrefundable]
    split_ifs <;> simp [Payment.setRefundFlag]

/-! ## § Money owed to a client -/

/-- `client_money_owed` is `UNSETTLED` of the client's bookings, and the flags of their
refunds. -/
theorem clientMoneyOwed_iff (db : Db) (clientId : ℕ) (now : ℤ) :
    db.clientMoneyOwed clientId now ↔
      (∃ b ∈ db.unsettled now, b.clientId = clientId) ∨
      ∃ p ∈ db.payments.rows, ∃ b ∈ db.bookings.rows, b.id = p.bookingId ∧
        b.clientId = clientId ∧ p.refundFailedAt ≠ none := by
  constructor
  · rintro ⟨p, hp, b, hb, hid, hclient, hflag | hunsettled⟩
    · exact Or.inr ⟨p, hp, b, hb, hid, hclient, hflag⟩
    · refine Or.inl ⟨b, ?_, hclient⟩
      simp only [Db.unsettled, List.mem_filter, decide_eq_true_eq]
      exact ⟨hb, p, hp, hid.symm, hunsettled⟩
  · rintro (⟨b, hb, hclient⟩ | ⟨p, hp, b, hb, hid, hclient, hflag⟩)
    · simp only [Db.unsettled, List.mem_filter, decide_eq_true_eq] at hb
      obtain ⟨hb, p, hp, hid, hunsettled⟩ := hb
      exact ⟨p, hp, b, hb, hid.symm, hclient, Or.inr hunsettled⟩
    · exact ⟨p, hp, b, hb, hid, hclient, Or.inl hflag⟩

/-! ## § Every reachable state -/

/-- **No stuck money**, in every state that any interleaving reaches and at every
instant: a payment not settled waits for exactly one of its checkout, its kept
booking and a settle pass; the pass reads it, takes the branch `UNSETTLED` selects
it for and settles it; and `client_money_owed` says the same of the client. -/
theorem no_stuck_money {d d' : Desk} {ms : List Deed} (hblank : d.Blank)
    (hrun : d.run ms = some d') (now : ℤ) :
    (∀ p ∈ d'.shared.db.payments.rows, p.settledAt = none →
      ∃ b ∈ d'.shared.db.bookings.rows, b.id = p.bookingId ∧ p.WaitsFor b now) ∧
    (∀ p ∈ d'.shared.db.payments.rows, ∀ b ∈ d'.shared.db.bookings.rows,
      b.id = p.bookingId → p.settledAt = none →
        d'.shared.db.settleRow now p b ∈ d'.shared.db.settleRows now p.bookingId ∧
        (d'.shared.db.settleRow now p b).action.Agrees p b now ∧
        (d'.shared.db.settleRow now p b).Finishes d'.shared.db) ∧
    ∀ clientId, d'.shared.db.clientMoneyOwed clientId now ↔
      (∃ b ∈ d'.shared.db.unsettled now, b.clientId = clientId) ∨
      ∃ p ∈ d'.shared.db.payments.rows, ∃ b ∈ d'.shared.db.bookings.rows,
        b.id = p.bookingId ∧ b.clientId = clientId ∧ p.refundFailedAt ≠ none := by
  obtain ⟨⟨hsound, howing⟩, _⟩ := owing_run hblank.owing hrun
  have hnot : ∀ p ∈ d'.shared.db.payments.rows, p.settledAt = none → p.status ≠ .canceled :=
    fun p hp hnone hc => (hsound.canceled p hp hc).1 hnone
  refine ⟨fun p hp hnone => ?_, fun p hp b hb hid hnone => ⟨?_, ?_, ?_⟩,
    fun clientId => clientMoneyOwed_iff _ clientId now⟩
  · obtain ⟨b, hb, hid⟩ := hsound.booking p hp
    exact ⟨b, hb, hid, waitsFor b now hnone (hnot p hp hnone)⟩
  · refine List.mem_filterMap.mpr ⟨p, ?_, ?_⟩
    · simp [hp, hnone]
    · rw [Table.find_eq_some.mpr ⟨hb, hid⟩]
      rfl
  · exact action_agrees _ b now hnone (hnot p hp hnone) fun hs => hsound.checked p hp hs hnone
  · exact finishes_settleRow howing.recorded hp hb hid hnone

/-- The checkout of the small business, left open: its hold ran out, and a settle pass
is to cancel it. -/
theorem no_stuck_money_left_open :
    ∃ d', openDesk.run (checkoutPaid.take 4) = some d' ∧
      (∃ p ∈ d'.shared.db.payments.rows, p.settledAt = none ∧ p.status = .open) ∧
      (∃ b ∈ d'.shared.db.unsettled (31 * minute), b.clientId = 2) ∧
      d'.shared.db.clientMoneyOwed 2 (31 * minute) := by
  have hrun := Option.isSome_iff_exists.mp
    (by decide +kernel : (openDesk.run (checkoutPaid.take 4)).isSome)
  have hfacts : ∀ d' ∈ openDesk.run (checkoutPaid.take 4),
      (∃ p ∈ d'.shared.db.payments.rows, p.settledAt = none ∧ p.status = .open) ∧
      ∃ b ∈ d'.shared.db.unsettled (31 * minute), b.clientId = 2 := by decide +kernel
  obtain ⟨d', hd'⟩ := hrun
  obtain ⟨hopen, howed⟩ := hfacts d' hd'
  have hblank : openDesk.Blank := ⟨rfl, rfl, rfl, rfl, rfl, rfl, rfl⟩
  exact ⟨d', hd', hopen, howed,
    ((no_stuck_money hblank hd' (31 * minute)).2.2 2).mpr (Or.inl howed)⟩

end Ziftbook
