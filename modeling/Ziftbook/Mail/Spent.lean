import Ziftbook.Bookings.Anchor
import Ziftbook.Bookings.Written
import Ziftbook.Foundation.Fresh
import Ziftbook.Mail.Letters
import Ziftbook.Payments.Refunds

/-!
# Keys that are spent

Read off the tables, which keys of booking mails are used up: a count at most the
booking's, a status it has passed, an event or a clock that is on record. No operation
takes any of it back.
-/

namespace Ziftbook

open Foundation

/-! ## § Spent -/

/-- The statuses in which a mail without suffix has been sent, or never will be. -/
def MailTemplate.past : MailTemplate → Status → Prop
  | .bookingReceived, status | .bookingRequest, status => status ≠ .awaitingPayment
  | .bookingConfirmed, status | .bookingNew, status => status ∉ expiring
  | .bookingDeclined, status => status = .declined
  | .bookingCancelled, status => status = .cancelledByMerchant
  | .bookingCancelledByClient, status | .bookingClientCancelled, status =>
      status = .cancelledByClient
  | _, _ => False

/-- The bookings, and the merchant's moves with their clocks. -/
structure Said where
  db : Db
  moved : List (ℕ × ℤ)

/-- A key that no later mail has. -/
def Said.spent (s : Said) (id : ℕ) (t : MailTemplate) : KeySuffix → Prop
  | .none => (t = .bookingExpired ∧ ∃ late, Mail.bookingExpired id late ∈ s.db.mails) ∨
      ∃ b ∈ s.db.bookings.rows, b.id = id ∧ t.past b.status
  | .count n => ∃ b ∈ s.db.bookings.rows, b.id = id ∧ n ≤ b.rescheduleCount
  | .moves n => n ≤ s.db.moves id
  | .clock now => (id, now) ∈ s.moved
  | .event id => id < s.db.events.length
  | .start _ => False

def Said.Spent (s : Said) (k : MailKey) : Prop := s.spent k.bookingId k.template k.suffix

/-! ## § Onward -/

/-- What no operation takes back of a booking. -/
structure Booking.Onward (b b' : Booking) : Prop where
  id : b'.id = b.id
  ended : b.status ∈ endings → b'.status = b.status
  answered : b.status ∉ expiring → b'.status ∉ expiring
  count : b.rescheduleCount ≤ b'.rescheduleCount

theorem Booking.Onward.trans {b b' b'' : Booking} (h : b.Onward b') (h' : b'.Onward b'') :
    b.Onward b'' := by
  refine ⟨h'.id.trans h.id, fun hb => ?_, fun hb => h'.answered (h.answered hb),
    h.count.trans h'.count⟩
  have hsame := h.ended hb
  exact (h'.ended (hsame ▸ hb)).trans hsame

theorem Booking.Told.onward {b b' : Booking} {new : List Event} (h : b.Told b' new) :
    b.Onward b' :=
  ⟨h.stays.id, h.ended, h.answered, h.stays.rescheduleCount.ge⟩

theorem Booking.MovedAs.onward {b b' : Booking} {moved : ℕ} {kind : MoveKind}
    (h : b.MovedAs moved kind b') : b.Onward b' := by
  refine ⟨h.id, fun _ => h.status, fun hb => h.status ▸ hb, ?_⟩
  have hwrites := h.writes
  cases kind with
  | merchant => exact hwrites.2.2.2.ge
  | client => exact Nat.le.intro hwrites.2.2.2.1.symm
  | pending => exact hwrites.2.2.1.ge

/-- The tables after an operation, of a booking's mails. -/
structure Db.Onward (db db' : Db) : Prop where
  bookings : ∀ b ∈ db.bookings.rows, ∃ b' ∈ db'.bookings.rows, b.Onward b'
  checkouts : db.Checkouts db'
  moves : ∀ id, db.moves id ≤ db'.moves id
  events : db.events.length ≤ db'.events.length
  mails : ∀ m ∈ db.mails, m ∈ db'.mails

/-- The log grows. -/
theorem Chronicle.events {db db' : Db} {moved : Option (ℕ × MoveKind)}
    (h : Chronicle db moved db') : ∃ new, db'.events = db.events ++ new := by
  cases h with
  | logs new _ hlogs => exact ⟨new, hlogs.events⟩
  | places db1 new b e _ hlogs _ _ hevents _ _ _ =>
      exact ⟨new ++ [e], by rw [hevents, hlogs.events, List.append_assoc]⟩
  | moves db1 new b b' kind e _ hlogs _ _ _ _ hevents _ _ =>
      exact ⟨new ++ [e], by rw [hevents, hlogs.events, List.append_assoc]⟩

/-- The mails of refunds are only added to. -/
theorem mails_of_apply {db db' : Db} {now : ℤ} {op : Op} (h : apply db now op = .ok db') :
    ∃ new, db'.mails = db.mails ++ new := by
  by_cases hrecords : op.records = false
  · obtain ⟨new, hnew, _⟩ := (carries_of_apply h hrecords).mails
    exact ⟨new, hnew⟩
  · cases op with
    | recordRefund row due refundId refunded outcome overQuota =>
        cases h
        rcases recordRefund_tells db now row due refundId refunded outcome overQuota with
          hsame | ⟨_, hcarries, htells⟩
        · exact ⟨[], by rw [hsame, List.append_nil]⟩
        · obtain ⟨ms, hms, _⟩ := hcarries.mails
          obtain ⟨ms', hms', _⟩ := htells.mails
          exact ⟨ms ++ ms', by rw [hms', hms, List.append_assoc]⟩
    | _ => exact absurd rfl hrecords

/-- **Every operation goes onward.** -/
theorem apply_onward {db db' : Db} {now : ℤ} {op : Op} (h : apply db now op = .ok db') :
    db.Onward db' := by
  have hchronicle := apply_chronicle h
  obtain ⟨new, hevents⟩ := hchronicle.events
  obtain ⟨ms, hms⟩ := mails_of_apply h
  refine ⟨fun b hb => ?_, apply_checkouts h, fun id => ?_, ?_, fun m hm => ?_⟩
  · obtain ⟨b1, _, htold, b', hb', rfl | ⟨kind, _, hmoved⟩⟩ := hchronicle.follow hb
    · exact ⟨b', hb', htold.onward⟩
    · exact ⟨b', hb', htold.onward.trans hmoved.onward⟩
  · rw [moves_append hevents]
    exact Nat.le_add_right ..
  · rw [hevents, List.length_append]
    exact Nat.le_add_right ..
  · rw [hms]
    exact List.mem_append_left _ hm

/-- A status passed stays passed. -/
theorem Db.Onward.past {db db' : Db} (h : db.Onward db') {b b' : Booking}
    (hb : b ∈ db.bookings.rows) (hb' : b' ∈ db'.bookings.rows) (honward : b.Onward b')
    {t : MailTemplate} (hpast : t.past b.status) : t.past b'.status := by
  have hended : ∀ {status}, status ∈ endings → b.status = status → b'.status = status :=
    fun hmem hstatus => (honward.ended (hstatus ▸ hmem)).trans hstatus
  have hleft : b.status ≠ .awaitingPayment → b'.status ≠ .awaitingPayment :=
    fun hne hs => hne (h.checkouts b' hb' hs b hb honward.id.symm)
  cases t with
  | bookingReceived => exact hleft hpast
  | bookingRequest => exact hleft hpast
  | bookingConfirmed => exact honward.answered hpast
  | bookingNew => exact honward.answered hpast
  | bookingDeclined => exact hended (by decide) hpast
  | bookingCancelled => exact hended (by decide) hpast
  | bookingCancelledByClient => exact hended (by decide) hpast
  | bookingClientCancelled => exact hended (by decide) hpast
  | _ => exact hpast.elim

/-- **What is spent stays spent.** -/
theorem Db.Onward.spent {db db' : Db} (h : db.Onward db') {moved : List (ℕ × ℤ)}
    (new : List (ℕ × ℤ)) {k : MailKey} (hspent : (⟨db, moved⟩ : Said).Spent k) :
    (⟨db', moved ++ new⟩ : Said).Spent k := by
  obtain ⟨id, t, suffix, userId⟩ := k
  cases suffix with
  | none =>
      rcases hspent with ⟨ht, late, hmail⟩ | ⟨b, hb, hid, hpast⟩
      · exact Or.inl ⟨ht, late, h.mails _ hmail⟩
      · obtain ⟨b', hb', honward⟩ := h.bookings b hb
        exact Or.inr ⟨b', hb', honward.id.trans hid, h.past hb hb' honward hpast⟩
  | count n =>
      obtain ⟨b, hb, hid, hn⟩ := hspent
      obtain ⟨b', hb', honward⟩ := h.bookings b hb
      exact ⟨b', hb', honward.id.trans hid, hn.trans honward.count⟩
  | moves n => exact le_trans hspent (h.moves id)
  | clock now => exact List.mem_append_left _ hspent
  | event i => exact lt_of_lt_of_le hspent h.events
  | start startsAt => exact hspent

end Ziftbook
