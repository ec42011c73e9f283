import Ziftbook.Bookings.Effects
import Ziftbook.Foundation.Journal

/-!
# What an operation tells of a booking

The log of `booking_events` beside the rows it is about. Every operation first
tells what it does to standings, and then at most places one booking or moves
one; the invariants of a booking's life are read off this.
-/

namespace Ziftbook

open Foundation

/-! ## § The log -/

/-- The status an event sets: the one it names, or what the snapshot makes of a
paid request. Placing, moves, consents and refunds set none. -/
def EventName.status (auto : Bool) : EventName → Option Status
  | .transitioned target => some target
  | .expired => some .expired
  | .cancelledByClient => some .cancelledByClient
  | .paid | .paymentChecked => some (if auto then .confirmed else .pending)
  | .created | .rescheduled | .consentConfirmed | .refunded | .refundFailed => none

/-- The status after an event. -/
def Event.turn (auto : Bool) (status : Status) (e : Event) : Status :=
  (e.name.status auto).getD status

/-- An event that sets no status. -/
def Event.Silent (e : Event) : Prop := ∀ auto, e.name.status auto = none

theorem Event.Silent.idle {e : Event} (h : e.Silent) (auto : Bool) :
    Journal.Idle (Event.turn auto) e := by
  intro status
  rw [Event.turn, h auto, Option.getD_none]

/-- What the log says of one booking. -/
def Db.logOf (db : Db) (bookingId : ℕ) : List Event :=
  Journal.about Event.bookingId bookingId db.events

/-- The endings nothing leaves. -/
def endings : List Status :=
  [.declined, .expired, .noShow, .cancelledByClient, .cancelledByMerchant]

/-! ## § One booking -/

/-- The columns that only placing and moving write. -/
structure Booking.Stays (b b' : Booking) : Prop where
  id : b'.id = b.id
  startsAt : b'.startsAt = b.startsAt
  originalStartsAt : b'.originalStartsAt = b.originalStartsAt
  earliestStartsAt : b'.earliestStartsAt = b.earliestStartsAt
  rescheduleCount : b'.rescheduleCount = b.rescheduleCount
  maxReschedules : b'.maxReschedules = b.maxReschedules
  autoConfirmAtBooking : b'.autoConfirmAtBooking = b.autoConfirmAtBooking

theorem Booking.Stays.refl (b : Booking) : b.Stays b :=
  ⟨rfl, rfl, rfl, rfl, rfl, rfl, rfl⟩

theorem Booking.Stays.trans {b b' b'' : Booking} (h : b.Stays b') (h' : b'.Stays b'') :
    b.Stays b'' :=
  ⟨h'.id.trans h.id, h'.startsAt.trans h.startsAt,
    h'.originalStartsAt.trans h.originalStartsAt,
    h'.earliestStartsAt.trans h.earliestStartsAt, h'.rescheduleCount.trans h.rescheduleCount,
    h'.maxReschedules.trans h.maxReschedules,
    h'.autoConfirmAtBooking.trans h.autoConfirmAtBooking⟩

theorem stays_withStatus (b : Booking) (status : Status) (h : status ∉ expiring) :
    b.Stays (b.withStatus status h) := ⟨rfl, rfl, rfl, rfl, rfl, rfl, rfl⟩

/-- `b'` is the row `b` in the status that the events `new` tell. -/
structure Booking.Told (b b' : Booking) (new : List Event) : Prop where
  stays : b.Stays b'
  status : b'.status = Journal.replay (Event.turn b.autoConfirmAtBooking) b.status
    (Journal.about Event.bookingId b.id new)
  ended : b.status ∈ endings → b'.status = b.status
  answered : b.status ∉ expiring → b'.status ∉ expiring

/-- Nothing is told of a booking that the events leave out. -/
theorem told_of_about_silent {b : Booking} {new : List Event}
    (h : ∀ e ∈ new, e.bookingId = b.id → e.Silent) : b.Told b new := by
  refine ⟨Booking.Stays.refl b, (Journal.replay_of_idle ?_).symm, fun _ => rfl, fun hb => hb⟩
  intro e he
  obtain ⟨hmem, hid⟩ := Journal.mem_about.mp he
  exact (h e hmem hid).idle _

theorem Booking.Told.trans {b b' b'' : Booking} {new new' : List Event} (h : b.Told b' new)
    (h' : b'.Told b'' new') : b.Told b'' (new ++ new') := by
  refine ⟨h.stays.trans h'.stays, ?_, fun hb => ?_, fun hb => h'.answered (h.answered hb)⟩
  · rw [Journal.about_append, Journal.replay_append, ← h.status, h'.status, h.stays.id,
      h.stays.autoConfirmAtBooking]
  · have heq := h.ended hb
    rw [h'.ended (heq ▸ hb), heq]

/-! ## § The whole table -/

/-- The first phase: each booking in the status that `new` tells, none placed or
moved. -/
structure Db.Logs (db db' : Db) (new : List Event) : Prop where
  events : db'.events = db.events ++ new
  rows : ∀ b' ∈ db'.bookings.rows, ∃ b ∈ db.bookings.rows, b.Told b' new
  kept : ∀ b ∈ db.bookings.rows, ∃ b' ∈ db'.bookings.rows, b'.id = b.id
  unmoved : ∀ e ∈ new, e.name ≠ .rescheduled
  known : ∀ e ∈ new, e.Silent ∨ ∃ b ∈ db.bookings.rows, b.id = e.bookingId

theorem Db.Logs.trans {db db' db'' : Db} {new new' : List Event} (h : db.Logs db' new)
    (h' : db'.Logs db'' new') : db.Logs db'' (new ++ new') := by
  refine ⟨by rw [h'.events, h.events, List.append_assoc], ?_, ?_, ?_, ?_⟩
  · intro b'' hb''
    obtain ⟨b', hb', htold'⟩ := h'.rows b'' hb''
    obtain ⟨b, hb, htold⟩ := h.rows b' hb'
    exact ⟨b, hb, htold.trans htold'⟩
  · intro b hb
    obtain ⟨b', hb', hid⟩ := h.kept b hb
    obtain ⟨b'', hb'', hid'⟩ := h'.kept b' hb'
    exact ⟨b'', hb'', hid'.trans hid⟩
  · intro e he
    rcases List.mem_append.mp he with he | he
    · exact h.unmoved e he
    · exact h'.unmoved e he
  · intro e he
    rcases List.mem_append.mp he with he | he
    · exact h.known e he
    · refine (h'.known e he).imp_right ?_
      rintro ⟨b', hb', hid⟩
      obtain ⟨b, hb, htold⟩ := h.rows b' hb'
      exact ⟨b, hb, htold.stays.id.symm.trans hid⟩

/-- Statements that leave the bookings, and tell only what sets no status. -/
theorem logs_of_same {db db' : Db} {new : List Event} (hb : db'.bookings = db.bookings)
    (hevents : db'.events = db.events ++ new)
    (hnew : ∀ e ∈ new, e.Silent ∧ e.name ≠ .rescheduled) : db.Logs db' new := by
  refine ⟨hevents, ?_, ?_, fun e he => (hnew e he).2, fun e he => Or.inl (hnew e he).1⟩
  · rw [hb]
    exact fun b hmem => ⟨b, hmem, told_of_about_silent fun e he _ => (hnew e he).1⟩
  · rw [hb]
    exact fun b hmem => ⟨b, hmem, rfl⟩

theorem Db.Logs.refl (db : Db) : db.Logs db [] := logs_of_same rfl (by simp) (by simp)

/-- **A statement over bookings** that tells one event of each row it writes. -/
theorem logs_updateBookings {db db' : Db} {p : Booking → Prop} [DecidablePred p]
    {f : Booking → Booking} (hid : ∀ b, (f b).id = b.id)
    (hservice : ∀ b, (f b).serviceId = b.serviceId) (entry : Booking → Event)
    {new : List Event} (hb : db'.bookings = (db.updateBookings p f hid hservice).bookings)
    (hevents : db'.events = db.events ++ new)
    (hwritten : ∀ b ∈ db.bookings.rows, p b →
      Journal.about Event.bookingId b.id new = [entry b])
    (hnew : ∀ e ∈ new, e.name ≠ .rescheduled ∧ ∃ b ∈ db.bookings.rows, p b ∧ b.id = e.bookingId)
    (hstays : ∀ b, p b → b.Stays (f b))
    (hstatus : ∀ b, p b → (f b).status = (entry b).turn b.autoConfirmAtBooking b.status)
    (hopen : ∀ b, p b → b.status ∉ endings)
    (hanswered : ∀ b, p b → b.status ∉ expiring → (f b).status ∉ expiring) :
    db.Logs db' new := by
  refine ⟨hevents, ?_, ?_, fun e he => (hnew e he).1, fun e he => Or.inr ?_⟩
  · rw [hb]
    intro b' hb'
    rcases Db.mem_updateBookings.mp hb' with ⟨b, hmem, hp, rfl⟩ | ⟨hmem, hp⟩
    · refine ⟨b, hmem, hstays b hp, ?_, fun hend => absurd hend (hopen b hp), hanswered b hp⟩
      rw [hwritten b hmem hp]
      exact hstatus b hp
    · -- an event about this row would be of a row written, which it is not
      refine ⟨b', hmem, told_of_about_silent fun e he hid => ?_⟩
      obtain ⟨_, b, hmem', hp', hid'⟩ := hnew e he
      rw [db.bookings.eq_of_key hmem hmem' (hid.symm.trans hid'.symm)] at hp
      exact absurd hp' hp
  · rw [hb]
    intro b hmem
    by_cases hp : p b
    · exact ⟨f b, Db.mem_updateBookings.mpr (Or.inl ⟨b, hmem, hp, rfl⟩), hid b⟩
    · exact ⟨b, Db.mem_updateBookings.mpr (Or.inr ⟨hmem, hp⟩), rfl⟩
  · obtain ⟨_, b, hmem, _, hid'⟩ := hnew e he
    exact ⟨b, hmem, hid'⟩

/-- The one event of each row that a set-wise statement selects. -/
theorem about_selected {db : Db} {p : Booking → Prop} [DecidablePred p]
    {entry : Booking → Event} (hentry : ∀ b, (entry b).bookingId = b.id) {b : Booking}
    (hb : b ∈ db.bookings.rows) (hp : p b) :
    Journal.about Event.bookingId b.id ((db.bookings.rows.filter p).map entry) = [entry b] := by
  rw [← hentry b]
  refine Journal.about_map (List.mem_filter.mpr ⟨hb, decide_eq_true hp⟩) ?_
  have hids : (db.bookings.rows.filter p).map (fun c => (entry c).bookingId) =
      (db.bookings.rows.filter p).map Booking.id := List.map_congr_left fun c _ => hentry c
  rw [hids]
  exact db.bookings.keyed.sublist (List.filter_sublist.map Booking.id)

/-- A one-row statement and its event. -/
theorem logs_updateOne {db db1 db' : Db} {id : ℕ} {guard : Booking → Prop}
    [DecidablePred guard] {f : Booking → Booking} {hid : ∀ b, (f b).id = b.id}
    {hservice : ∀ b, (f b).serviceId = b.serviceId} {e : Event}
    (h : db.updateOne id guard f hid hservice = some db1) (hb : db'.bookings = db1.bookings)
    (hevents : db'.events = db1.events ++ [e]) (hof : e.bookingId = id)
    (hname : e.name ≠ .rescheduled) (hstays : ∀ b, guard b → b.Stays (f b))
    (hstatus : ∀ b, guard b → (f b).status = e.turn b.autoConfirmAtBooking b.status)
    (hopen : ∀ b, guard b → b.status ∉ endings)
    (hanswered : ∀ b, guard b → b.status ∉ expiring → (f b).status ∉ expiring) :
    db.Logs db' [e] := by
  obtain ⟨⟨row, hrow, hrowId, hguard⟩, rfl⟩ := updateOne_eq_some h
  refine logs_updateBookings hid hservice (fun _ => e) hb hevents ?_ ?_ (fun b hp => hstays b hp.2)
    (fun b hp => hstatus b hp.2) (fun b hp => hopen b hp.2) fun b hp => hanswered b hp.2
  · intro b _ hp
    exact Journal.about_singleton (hof.trans hp.1.symm)
  · intro e' he'
    rw [List.mem_singleton.mp he']
    exact ⟨hname, row, hrow, ⟨hrowId, hguard⟩, hrowId.trans hof.symm⟩

/-! ## § Statements -/

theorem logs_expire (db : Db) (now : ℤ) : ∃ new, db.Logs (db.expire now) new := by
  refine ⟨_, logs_updateBookings (f := fun b => b.withStatus .expired (by decide))
    (fun _ => rfl) (fun _ => rfl) (fun b => ⟨b.id, .expired, none, none, .empty⟩) rfl rfl
    (fun b hb hp => ?_) ?_
    (fun b _ => stays_withStatus b _ _) (fun _ _ => rfl) ?_ ?_⟩
  · exact about_selected (p := fun b => b.status ∈ expiring ∧ b.lapsed now)
      (fun _ => rfl) hb hp
  · intro e he
    obtain ⟨b, hb, rfl⟩ := List.mem_map.mp he
    obtain ⟨hmem, hp⟩ := List.mem_filter.mp hb
    exact ⟨by simp, b, hmem, of_decide_eq_true hp, rfl⟩
  · rintro b ⟨hexp, _⟩
    revert hexp
    cases b.status <;> decide
  · rintro b ⟨hexp, _⟩ hnot
    exact absurd hexp hnot

theorem logs_expireOne {db db' : Db} {id : ℕ} (h : db.expireOne id = some db') :
    ∃ new, db.Logs db' new := by
  obtain ⟨db1, hone, rfl⟩ := Option.map_eq_some_iff.mp h
  refine ⟨_, logs_updateOne hone rfl rfl rfl (by simp) (fun b _ => stays_withStatus b _ _)
    (fun _ _ => rfl) ?_ ?_⟩
  · intro b hb
    rw [hb]
    decide
  · intro b _ _
    exact (by decide : Status.expired ∉ expiring)

theorem logs_giveBack (db : Db) (id : ℕ) : ∃ new, db.Logs (db.giveBack id) new := by
  unfold Db.giveBack
  cases h : db.expireOne id with
  | none => exact ⟨[], Db.Logs.refl db⟩
  | some db' => exact logs_expireOne h

theorem logs_endForErasure (db : Db) (clientId : ℕ) (reason : ErasureReason)
    (at_ : Option ℤ) (actor : Option ℕ) (now : ℤ) :
    ∃ new, db.Logs (db.endForErasure clientId reason at_ actor now) new := by
  refine ⟨_, logs_updateBookings
    (f := fun b => b.withStatus (erasureEnding b.status) (erasureEnding_not_expiring _))
    (fun _ => rfl) (fun _ => rfl) (fun b => ⟨b.id, if b.status = .awaitingPayment then .expired
      else .transitioned .cancelledByMerchant, none, actor, .erasure reason at_⟩) rfl rfl
      (fun b hb hp => ?_) ?_ (fun b _ => stays_withStatus b _ _) ?_ ?_ ?_⟩
  · exact about_selected (p := fun b => b.endsForErasure clientId (at_.getD now))
      (fun _ => rfl) hb hp
  · intro e he
    obtain ⟨b, hb, rfl⟩ := List.mem_map.mp he
    obtain ⟨hmem, hp⟩ := List.mem_filter.mp hb
    refine ⟨?_, b, hmem, of_decide_eq_true hp, rfl⟩
    simp only
    split <;> simp
  · -- the event names the status the row now has
    intro b _
    simp only [Event.turn, Booking.withStatus, erasureEnding]
    split <;> rfl
  · rintro b ⟨_, ⟨hconfirmed, _⟩ | ⟨hexp, _⟩⟩
    · rw [hconfirmed]
      decide
    · revert hexp
      cases b.status <;> decide
  · intro b _ _
    exact erasureEnding_not_expiring _

/-- A payment that lands tells what the snapshot makes of the request. -/
theorem logs_live (db : Db) (now : ℤ) (bookingId : ℕ) {event : EventName}
    (h : event = .paid ∨ event = .paymentChecked) :
    ∃ new, db.Logs (db.live now bookingId event) new := by
  unfold Db.live
  cases hpaid : db.paid bookingId db.settings.pendingTtlHours now with
  | none => exact ⟨[], Db.Logs.refl db⟩
  | some db' =>
      refine ⟨_, logs_updateOne hpaid rfl rfl rfl ?_ 
        (fun b _ => ⟨rfl, rfl, rfl, rfl, rfl, rfl, rfl⟩) ?_ ?_ ?_⟩
      · rcases h with rfl | rfl <;> simp
      · intro b _
        rcases h with rfl | rfl <;> rfl
      · rintro b ⟨hb, _⟩
        rw [hb]
        decide
      · rintro b ⟨hb, _⟩ hnot
        rw [hb] at hnot
        exact absurd (by decide) hnot

theorem logs_reconcile (db : Db) (now : ℤ) (row : Payment) (state : IntentState) :
    ∃ new, db.Logs (db.reconcile now row state) new := by
  have hsame : ∀ db1 : Db, db1.bookings = db.bookings → db1.events = db.events →
      db.Logs db1 [] := fun _ hb he => logs_of_same hb (by rw [he, List.append_nil]) (by simp)
  unfold Db.reconcile
  split
  · exact ⟨[], Db.Logs.refl db⟩
  · split
    · exact ⟨[], Db.Logs.refl db⟩
    · split
      · exact ⟨[], Db.Logs.refl db⟩
      · split
        · split
          · obtain ⟨new, hnew⟩ := logs_live (db.updatePayment row.id
              (fun p => p.markChecked state.setup now) fun _ => Payment.markChecked_id ..) now
              row.bookingId (Or.inr rfl)
            have hrow := hsame (db.updatePayment row.id
              (fun p => p.markChecked state.setup now) fun _ => Payment.markChecked_id ..) rfl rfl
            exact ⟨_, hrow.trans hnew⟩
          · obtain ⟨new, hnew⟩ := logs_live (db.updatePayment row.id Payment.markPaid
              Payment.markPaid_id) now row.bookingId (Or.inl rfl)
            have hrow :=
              hsame (db.updatePayment row.id Payment.markPaid Payment.markPaid_id) rfl rfl
            exact ⟨_, hrow.trans hnew⟩
        · split
          · exact ⟨[], hsame _ rfl rfl⟩
          · exact ⟨[], Db.Logs.refl db⟩

theorem logs_refundFailed (db : Db) (bookingId : ℕ) (refund : Option ℕ) (overQuota : Bool) :
    ∃ new, db.Logs (db.refundFailed bookingId refund overQuota) new := by
  unfold Db.refundFailed Db.tellRefundFailed
  split
  · rename_i db' h
    obtain ⟨_, h⟩ := Option.ite_none_left_eq_some.mp h
    cases h
    refine ⟨[⟨bookingId, .refundFailed, none, none, .refund refund⟩],
      logs_of_same ?_ ?_ ?_⟩
    · unfold Db.mailRefundFailed Db.email
      split_ifs <;> rfl
    · unfold Db.mailRefundFailed Db.email
      split_ifs <;> rfl
    · intro e he
      rw [List.mem_singleton.mp he]
      exact ⟨fun _ => rfl, by simp⟩
  · exact ⟨[], Db.Logs.refl db⟩

theorem logs_tellRefund (db : Db) (now : ℤ) (row : SettleRow) (due refunded : ℤ)
    (overQuota : Bool) (outcome : RefundOutcome) :
    ∃ new, db.Logs (db.tellRefund now row due refunded overQuota outcome) new := by
  cases outcome with
  | held => exact ⟨[], logs_of_same rfl (List.append_nil _).symm (by simp)⟩
  | refused =>
      obtain ⟨new, hnew⟩ := logs_refundFailed
        (db.setRefundFlag row.payment.intentId refunded now) row.payment.bookingId none overQuota
      have hflag : db.Logs (db.setRefundFlag row.payment.intentId refunded now) [] :=
        logs_of_same rfl (List.append_nil _).symm (by simp)
      exact ⟨_, hflag.trans hnew⟩
  | sent =>
      simp only [Db.tellRefund]
      by_cases hdue : 0 < due
      · rw [if_pos hdue]
        refine ⟨[⟨row.payment.bookingId, .refunded, none, none, .empty⟩],
          logs_of_same ?_ ?_ ?_⟩
        · unfold Db.email
          split_ifs <;> rfl
        · unfold Db.email
          split_ifs <;> rfl
        · intro e he
          rw [List.mem_singleton.mp he]
          exact ⟨fun _ => rfl, by simp⟩
      · rw [if_neg hdue]
        exact ⟨[], Db.Logs.refl db⟩

theorem logs_recordRefund (db : Db) (now : ℤ) (row : SettleRow) (due : ℤ)
    (refundId : Option ℕ) (refunded : ℤ) (outcome : RefundOutcome) (overQuota : Bool) :
    ∃ new, db.Logs (db.recordRefund now row due refundId refunded outcome overQuota) new := by
  unfold Db.recordRefund
  split
  · obtain ⟨written, hwritten⟩ : ∃ new, db.Logs (db.writeRefund now row due refundId) new := by
      unfold Db.writeRefund
      simp only
      have hpayment : db.Logs (db.updatePayment row.payment.id
          (fun p => p.refunded due refundId now) fun _ => Payment.refunded_id ..) [] :=
        logs_of_same rfl (List.append_nil _).symm (by simp)
      split
      · obtain ⟨new, hnew⟩ := logs_giveBack (db.updatePayment row.payment.id
          (fun p => p.refunded due refundId now) fun _ => Payment.refunded_id ..)
          row.payment.bookingId
        exact ⟨_, hpayment.trans hnew⟩
      · exact ⟨[], hpayment⟩
    obtain ⟨told, htold⟩ := logs_tellRefund (db.writeRefund now row due refundId) now row due
      refunded overQuota outcome
    exact ⟨_, hwritten.trans htold⟩
  · exact ⟨[], Db.Logs.refl db⟩

theorem logs_refundChanged (db : Db) (now : ℤ) (intent : IntentId) (refundId : ℕ)
    (failed : Bool) (refunded : ℤ) (overQuota : Bool) :
    ∃ new, db.Logs (db.refundChanged now intent refundId failed refunded overQuota) new := by
  unfold Db.refundChanged
  split
  · exact ⟨[], Db.Logs.refl db⟩
  · rename_i payment _
    cases failed with
    | false => exact ⟨[], logs_of_same rfl (List.append_nil _).symm (by simp)⟩
    | true =>
        obtain ⟨new, hnew⟩ := logs_refundFailed db payment.bookingId (some refundId) overQuota
        exact ⟨_, hnew.trans (logs_of_same rfl (List.append_nil _).symm (by simp))⟩

/-! ## § Placing and moving -/

/-- Who moves a booking, and when: the merchant, or the client while it is
confirmed or still a request. -/
inductive MoveKind
  | merchant | client | pending
deriving DecidableEq, Repr

/-- The booking an operation moves when it is accepted. -/
def Op.moves (db : Db) (now : ℤ) : Op → Option (ℕ × MoveKind)
  | .reschedule _ bookingId _ => some (bookingId, .merchant)
  | .linkReschedule tokenHash _ => (db.resolve tokenHash now).map fun row =>
      (row.id, if row.status = .pending then .pending else .client)
  | _ => none

/-- What each kind of move makes of the anchor and the count, the booking having
been moved `moved` times. -/
def MoveKind.Writes (moved : ℕ) (b b' : Booking) : MoveKind → Prop
  | .merchant => b.status = .confirmed ∧ b'.originalStartsAt = b.originalStartsAt ∧
      b'.earliestStartsAt = some (least b.earliestStartsAt b'.startsAt) ∧
      b'.rescheduleCount = b.rescheduleCount
  | .client => b.status = .confirmed ∧ b'.originalStartsAt = b.originalStartsAt ∧
      b'.earliestStartsAt = some (least b.earliestStartsAt b'.startsAt) ∧
      b'.rescheduleCount = b.rescheduleCount + 1 ∧ b.rescheduleCount < b.maxReschedules
  | .pending => b.status = .pending ∧ b'.earliestStartsAt = some b'.startsAt ∧
      b'.rescheduleCount = b.rescheduleCount ∧ moved < pendingMoves

/-- `b'` is the row `b` moved. -/
structure Booking.MovedAs (moved : ℕ) (kind : MoveKind) (b b' : Booking) : Prop where
  id : b'.id = b.id
  status : b'.status = b.status
  maxReschedules : b'.maxReschedules = b.maxReschedules
  autoConfirmAtBooking : b'.autoConfirmAtBooking = b.autoConfirmAtBooking
  writes : kind.Writes moved b b'

/-- What one committed operation did to the rows and told of them. -/
inductive Chronicle (db : Db) (moved : Option (ℕ × MoveKind)) (db' : Db) : Prop
  | logs (new : List Event) : moved = none → db.Logs db' new → Chronicle db moved db'
  | places (db1 : Db) (new : List Event) (b : Booking) (e : Event) : moved = none →
      db.Logs db1 new → (∀ r ∈ db1.bookings.rows, r.id ≠ b.id) →
      db'.bookings.rows = db1.bookings.rows ++ [b] → db'.events = db1.events ++ [e] →
      e.name = .created → b.earliestStartsAt = some b.startsAt → b.rescheduleCount = 0 →
      Chronicle db moved db'
  | moves (db1 : Db) (new : List Event) (b b' : Booking) (kind : MoveKind) (e : Event) :
      moved = some (b.id, kind) → db.Logs db1 new → b ∈ db1.bookings.rows →
      b.MovedAs (db.moves b.id) kind b' → b' ∈ db'.bookings.rows →
      (∀ r, r.id ≠ b.id → (r ∈ db'.bookings.rows ↔ r ∈ db1.bookings.rows)) →
      db'.events = db1.events ++ [e] → e.bookingId = b.id → e.name = .rescheduled →
      Chronicle db moved db'

/-- The client found or made first logs nothing. -/
theorem logs_expire_clients (db : Db) (clients : Table Client ℕ Client.id) (now : ℤ) :
    ∃ new, db.Logs (Db.expire { db with clients := clients } now) new := by
  have hclients : db.Logs { db with clients := clients } [] :=
    logs_of_same rfl (List.append_nil _).symm (by simp)
  obtain ⟨new, hlogs⟩ := logs_expire { db with clients := clients } now
  exact ⟨_, hclients.trans hlogs⟩

theorem chronicle_of_place {db db1 db' : Db} {new : List Event} {settings : Settings}
    {service : Service} {id clientId : ℕ} {startsAt : ℤ} {standing : Standing}
    {source : Source} {ip : Option Address} {actor : Option ℕ} {queue : List ℕ} {b : Booking}
    (hlogs : db.Logs db1 new)
    (h : place db1 settings service id clientId startsAt standing source ip actor queue =
      .ok (db', b)) : Chronicle db none db' := by
  obtain ⟨_, _, rfl, db2, hinsert, rfl⟩ := place_eq_ok h
  obtain ⟨_, hrows, hfresh, _⟩ := insertBooking_eq_ok hinsert
  exact .places db1 new _ _ rfl hlogs hfresh hrows
    (congrArg (· ++ [_]) (insertBooking_events hinsert)) rfl rfl rfl

/-- A move leaves the log to the handler, and every other row as it was. -/
theorem moveOne_frame {db db' : Db} {id : ℕ} {guard : Booking → Prop}
    [DecidablePred guard] {f : Booking → Booking} {hid : ∀ b, (f b).id = b.id}
    {hservice : ∀ b, (f b).serviceId = b.serviceId}
    (h : db.moveOne id guard f hid hservice = .written db') :
    db'.events = db.events ∧
      ∀ r, r.id ≠ id → (r ∈ db'.bookings.rows ↔ r ∈ db.bookings.rows) := by
  unfold Db.moveOne at h
  split at h
  · cases h
  · split at h
    · rename_i db1 hone
      cases h
      obtain ⟨_, rfl⟩ := updateOne_eq_some hone
      refine ⟨rfl, fun r hr => ?_⟩
      rw [Db.mem_updateBookings]
      constructor
      · rintro (⟨b, _, hp, rfl⟩ | ⟨hmem, _⟩)
        · exact absurd ((hid b).trans hp.1) hr
        · exact hmem
      · intro hmem
        exact Or.inr ⟨hmem, fun hp => hr hp.1⟩
    · cases h

theorem chronicle_of_move {db db1 db2 : Db} {new : List Event} {id : ℕ}
    {guard : Booking → Prop} [DecidablePred guard] {f : Booking → Booking}
    {hid : ∀ b, (f b).id = b.id} {hservice : ∀ b, (f b).serviceId = b.serviceId}
    {row : Booking} {kind : MoveKind} {e : Event} (hlogs : db.Logs db1 new)
    (h : db1.moveOne id guard f hid hservice = .written db2) (hrow : row ∈ db1.bookings.rows)
    (hrowId : row.id = id) (hmoved : row.MovedAs (db.moves row.id) kind (f row))
    (hof : e.bookingId = id) (hname : e.name = .rescheduled) :
    Chronicle db (some (id, kind)) (db2.record e) := by
  obtain ⟨a, ha, haid, _, _, _, hmem, _⟩ := moveOne_eq_written h
  rw [db1.bookings.eq_of_key ha hrow (haid.trans hrowId.symm)] at hmem
  obtain ⟨hevents, hothers⟩ := moveOne_frame h
  subst hrowId
  exact .moves db1 new row (f row) kind e rfl hlogs hrow hmoved hmem hothers
    (congrArg (· ++ [e]) hevents) hof hname

/-- **A merchant's move** of a confirmed booking. -/
theorem reschedule_chronicle {db db' : Db} {now : ℤ} {current : Session} {bookingId : ℕ}
    {change : MerchantMove} (h : reschedule db now current bookingId change = .ok db') :
    Chronicle db (some (bookingId, .merchant)) db' := by
  obtain ⟨row, db1, hrow, hstatus, hrow1, _, _, hmove, rfl⟩ := reschedule_eq_ok h
  obtain ⟨new, hlogs⟩ := logs_expire db now
  exact chronicle_of_move hlogs hmove hrow1 (Table.find_eq_some.mp hrow).2
    ⟨rfl, rfl, rfl, rfl, hstatus, rfl, rfl, rfl⟩ rfl rfl

/-- **A client's move** stays within the allowance of its booking's status. -/
theorem linkReschedule_chronicle {db db' : Db} {now : ℤ} {tokenHash : ℕ} {body : LinkMove}
    (h : linkReschedule db now tokenHash body = .ok db') :
    Chronicle db (Op.moves db now (.linkReschedule tokenHash body)) db' := by
  obtain ⟨row, db1, hrow, hrow1, hallowed, _, _, hmove, rfl⟩ := linkReschedule_eq_ok h
  obtain ⟨_, hahead, hlive⟩ := resolve_eq_some hrow
  obtain ⟨new, hlogs⟩ := logs_expire db now
  have hmoves : Op.moves db now (.linkReschedule tokenHash body) =
      some (row.id, if row.status = .pending then .pending else .client) := by
    simp [Op.moves, hrow]
  rw [hmoves]
  have hfar : ¬ row.startsAt - now ≤ 0 := by omega
  by_cases hpending : row.status = .pending
  · rw [if_pos hpending] at hmove ⊢
    have hleft : db.moves row.id < pendingMoves := by
      simpa [Db.decideFor, hpending, decideTerms, hfar] using hallowed
    exact chronicle_of_move hlogs hmove hrow1 rfl
      ⟨rfl, rfl, rfl, rfl, hpending, rfl, rfl, hleft⟩ rfl rfl
  · rw [if_neg hpending] at hmove ⊢
    have hconfirmed := hlive.resolve_right fun hp => hpending hp.1
    have hleft : row.rescheduleCount < row.maxReschedules := by
      simp only [Db.decideFor, if_neg hpending, decideTerms, if_neg hfar, Bool.and_eq_true,
        decide_eq_true_eq] at hallowed
      exact Nat.lt_of_sub_pos hallowed.1.2
    exact chronicle_of_move hlogs hmove hrow1 rfl
      ⟨rfl, rfl, rfl, rfl, hconfirmed, rfl, rfl, rfl, hleft⟩ rfl rfl

/-! ## § Every operation -/

theorem logs_edit {db db' : Db} {edit : Edit} (h : db.edit edit = .ok db') : db.Logs db' [] := by
  cases edit with
  | addService service =>
      have hadd := found_eq_ok.mp h
      refine logs_of_same (edit_bookings h) ?_ (by simp)
      unfold Db.addService at hadd
      split at hadd
      · cases hadd
      · cases hadd
        exact (List.append_nil _).symm
  | _ =>
      cases h
      exact logs_of_same rfl (List.append_nil _).symm (by simp)

theorem insertPayment_events {db db' : Db} {id bookingId : ℕ} {kind : PaymentKind}
    {intent : IntentId} {amount : ℤ} {currency : String}
    (h : db.insertPayment id bookingId kind intent amount currency = some db') :
    db'.events = db.events := by
  unfold Db.insertPayment at h
  split at h
  · split at h
    · split at h
      · cases h
      · obtain ⟨payments, _, rfl⟩ := Option.map_eq_some_iff.mp h
        rfl
    · cases h
  · cases h

theorem logs_insertPayment {db db' : Db} {id bookingId : ℕ} {kind : PaymentKind}
    {intent : IntentId} {amount : ℤ} {currency : String}
    (h : db.insertPayment id bookingId kind intent amount currency = some db') :
    db.Logs db' [] :=
  logs_of_same (insertPayment_eq_some h).2
    ((insertPayment_events h).trans (List.append_nil _).symm) (by simp)

/-- **One operation** tells of standings, then places one booking, or moves one. -/
theorem apply_chronicle {db db' : Db} {now : ℤ} {op : Op} (h : apply db now op = .ok db') :
    Chronicle db (op.moves db now) db' := by
  cases op with
  | bookOnline new =>
      obtain ⟨⟨_, b⟩, hbook, rfl⟩ := map_eq_ok.mp h
      obtain ⟨_, clients, _, _, _, _, _, hplace⟩ := bookOnline_eq_ok hbook
      obtain ⟨new, hlogs⟩ := logs_expire_clients db clients now
      exact chronicle_of_place hlogs hplace
  | book current new =>
      obtain ⟨⟨_, b⟩, hbook, rfl⟩ := map_eq_ok.mp h
      obtain ⟨_, clients, _, _, _, _, _, hplace⟩ := book_eq_ok hbook
      obtain ⟨new, hlogs⟩ := logs_expire_clients db clients now
      exact chronicle_of_place hlogs hplace
  | reschedule current bookingId change => exact reschedule_chronicle h
  | linkReschedule tokenHash body => exact linkReschedule_chronicle h
  | linkCancel tokenHash body =>
      obtain ⟨row, db1, _, _, hcancel, rfl⟩ := linkCancel_eq_ok h
      refine .logs _ rfl (logs_updateOne hcancel rfl rfl rfl (by simp)
        (fun b _ => stays_withStatus b _ _) (fun _ _ => rfl) ?_ ?_)
      · rintro b ⟨_, hconfirmed | ⟨hpending, _⟩⟩
        · rw [hconfirmed]
          decide
        · rw [hpending]
          decide
      · intro b _ _
        exact (by decide : Status.cancelledByClient ∉ expiring)
  | confirmConsents tokenHash body =>
      obtain ⟨_, _, rfl⟩ := confirmConsents_eq_ok h
      refine .logs _ rfl (logs_of_same rfl rfl fun e he => ?_)
      rw [List.mem_singleton.mp he]
      exact ⟨fun _ => rfl, by simp⟩
  | transition current bookingId change =>
      obtain ⟨_, db1, _, htransition, rfl⟩ := transition_eq_ok h
      refine .logs _ rfl (logs_updateOne htransition rfl rfl rfl (by simp)
        (fun b _ => stays_withStatus b _ _) (fun _ _ => rfl) ?_ ?_)
      · -- no rule has an ending among its sources
        rintro b ⟨hsource, _⟩ hended
        revert hsource hended
        cases change.status <;> cases b.status <;> decide
      · intro b _ _
        exact change.status.not_expiring
  | sweep =>
      cases h
      obtain ⟨new, hlogs⟩ := logs_expire db now
      exact .logs new rfl hlogs
  | eraseClient clientId reason at_ actorUserId =>
      obtain ⟨_, h⟩ := require_bind_eq_ok.mp h
      cases h
      obtain ⟨new, hlogs⟩ := logs_endForErasure db clientId reason at_ actorUserId now
      exact .logs _ rfl
        (hlogs.trans (logs_of_same rfl (List.append_nil _).symm (by simp)))
  | insertPayment id bookingId kind intent amount currency =>
      exact .logs _ rfl (logs_insertPayment (found_eq_ok.mp h))
  | giveBack bookingId =>
      cases h
      obtain ⟨new, hlogs⟩ := logs_giveBack db bookingId
      exact .logs new rfl hlogs
  | reconcile row state =>
      cases h
      obtain ⟨new, hlogs⟩ := logs_reconcile db now row state
      exact .logs new rfl hlogs
  | resume bookingId old id kind intent amount currency =>
      have hcanceled : db.Logs (db.updatePayment old (fun p => p.markCanceled now)
          fun _ => Payment.markCanceled_id ..) [] :=
        logs_of_same rfl (List.append_nil _).symm (by simp)
      exact .logs _ rfl (hcanceled.trans (logs_insertPayment (resume_eq_ok h)))
  | abandon bookingId payment =>
      obtain ⟨db1, hexpire, hdb⟩ := abandon_eq_ok h
      obtain ⟨new, hlogs⟩ := logs_expireOne hexpire
      rcases hdb with ⟨_, rfl⟩ | ⟨id, _, rfl⟩
      · exact .logs new rfl hlogs
      · exact .logs _ rfl (hlogs.trans (logs_of_same rfl (List.append_nil _).symm (by simp)))
  | writeCanceled paymentId =>
      cases h
      exact .logs _ rfl (logs_of_same rfl (List.append_nil _).symm (by simp))
  | writeReleased paymentId =>
      cases h
      exact .logs _ rfl (logs_of_same rfl (List.append_nil _).symm (by simp))
  | recordRefund row due refundId refunded outcome overQuota =>
      cases h
      obtain ⟨new, hlogs⟩ :=
        logs_recordRefund db now row due refundId refunded outcome overQuota
      exact .logs new rfl hlogs
  | refundChanged intent refundId failed refunded overQuota =>
      cases h
      obtain ⟨new, hlogs⟩ := logs_refundChanged db now intent refundId failed refunded overQuota
      exact .logs new rfl hlogs
  | createTimeOff current memberId new reason id =>
      obtain ⟨_, _, _, _, rfl⟩ := createTimeOff_eq_ok h
      exact .logs _ rfl (logs_of_same rfl (List.append_nil _).symm (by simp))
  | updateTimeOff current id change =>
      rcases updateTimeOff_eq_ok h with rfl | ⟨_, _, _, _, _, _, rfl⟩
      · exact .logs _ rfl (Db.Logs.refl _)
      · exact .logs _ rfl (logs_of_same rfl (List.append_nil _).symm (by simp))
  | deleteTimeOff current id =>
      rw [deleteTimeOff_eq_ok h]
      exact .logs _ rfl (logs_of_same rfl (List.append_nil _).symm (by simp))
  | removeMember current memberId =>
      obtain ⟨_, _, rfl⟩ := removeMember_eq_ok h
      exact .logs _ rfl (logs_of_same rfl (List.append_nil _).symm (by simp))
  | rejoin memberId owner =>
      cases h
      exact .logs _ rfl (logs_of_same rfl (List.append_nil _).symm (by simp))
  | edit edit => exact .logs _ rfl (logs_edit h)

/-! ## § What becomes of one booking -/

theorem Db.Logs.told {db db' : Db} {new : List Event} (h : db.Logs db' new) {b : Booking}
    (hb : b ∈ db.bookings.rows) : ∃ b' ∈ db'.bookings.rows, b.Told b' new := by
  obtain ⟨b', hb', hid⟩ := h.kept b hb
  obtain ⟨c, hc, htold⟩ := h.rows b' hb'
  rw [db.bookings.eq_of_key hc hb (htold.stays.id.symm.trans hid)] at htold
  exact ⟨b', hb', htold⟩

/-- **A booking stays in the table**, told of first and then moved at most. -/
theorem Chronicle.follow {db db' : Db} {moved : Option (ℕ × MoveKind)}
    (h : Chronicle db moved db') {b : Booking} (hb : b ∈ db.bookings.rows) :
    ∃ b1 new, b.Told b1 new ∧ ∃ b' ∈ db'.bookings.rows,
      b' = b1 ∨ ∃ kind, moved = some (b1.id, kind) ∧ b1.MovedAs (db.moves b1.id) kind b' := by
  cases h with
  | logs new _ hlogs =>
      obtain ⟨b', hb', htold⟩ := hlogs.told hb
      exact ⟨b', new, htold, b', hb', Or.inl rfl⟩
  | places db1 new placed e _ hlogs _ hrows _ _ _ _ =>
      obtain ⟨b', hb', htold⟩ := hlogs.told hb
      refine ⟨b', new, htold, b', ?_, Or.inl rfl⟩
      rw [hrows]
      exact List.mem_append_left _ hb'
  | moves db1 new row after kind e hkind hlogs hrow hmoved hmem hothers _ _ _ =>
      obtain ⟨b', hb', htold⟩ := hlogs.told hb
      by_cases hid : b'.id = row.id
      · rw [db1.bookings.eq_of_key hb' hrow hid] at htold
        exact ⟨row, new, htold, after, hmem, Or.inr ⟨kind, hkind, hmoved⟩⟩
      · exact ⟨b', new, htold, b', (hothers b' hid).mpr hb', Or.inl rfl⟩

end Ziftbook
