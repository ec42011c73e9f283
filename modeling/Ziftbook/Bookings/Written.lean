import Ziftbook.Bookings.History

/-!
# The row a handler writes

Which row of the bookings an accepted handler placed, moved or put in another status,
and that every other row is as expiry left it.
-/

namespace Ziftbook

open Foundation

/-! ## § Placing -/

/-- A booking placed after expiry. -/
structure Db.Placed (db : Db) (now : ℤ) (db' : Db) (id : ℕ) (b : Booking) : Prop where
  fresh : ∀ r ∈ db.bookings.rows, r.id ≠ id
  id : b.id = id
  rows : db'.bookings.rows = (db.expire now).bookings.rows ++ [b]

theorem exists_mem_expire {db : Db} {now : ℤ} {b : Booking} (hb : b ∈ db.bookings.rows) :
    ∃ r ∈ (db.expire now).bookings.rows, r.id = b.id := by
  by_cases hp : b.status ∈ expiring ∧ b.lapsed now
  · exact ⟨_, mem_expire.mpr (Or.inl ⟨b, hb, hp, rfl⟩), rfl⟩
  · exact ⟨b, mem_expire.mpr (Or.inr ⟨hb, hp⟩), rfl⟩

theorem Db.Placed.find {db db' : Db} {now : ℤ} {id : ℕ} {b : Booking}
    (h : db.Placed now db' id b) : db'.bookings.find id = some b := by
  apply Table.find_eq_some.mpr
  refine ⟨?_, h.id⟩
  rw [h.rows]
  exact List.mem_append_right _ (List.mem_singleton.mpr rfl)

theorem placed_of_place {db db1 db' : Db} {now : ℤ} {settings : Settings} {service : Service}
    {id clientId : ℕ} {startsAt : ℤ} {standing : Standing} {source : Source}
    {ip : Option Address} {actor : Option ℕ} {queue : List ℕ} {b : Booking}
    (hrows : db1.bookings.rows = (db.expire now).bookings.rows)
    (h : place db1 settings service id clientId startsAt standing source ip actor queue =
      .ok (db', b)) :
    db.Placed now db' id b ∧ b.startsAt = startsAt ∧ b.status = standing.status := by
  obtain ⟨_, _, rfl, db2, hinsert, rfl⟩ := place_eq_ok h
  obtain ⟨_, hrows', hfresh, _⟩ := insertBooking_eq_ok hinsert
  refine ⟨⟨fun r hr hid => ?_, rfl, ?_⟩, rfl, rfl⟩
  · obtain ⟨r', hr', hid'⟩ := @exists_mem_expire db now _ hr
    apply hfresh r'
    · rw [hrows]
      exact hr'
    · exact hid'.trans hid
  · show db2.bookings.rows = _
    rw [hrows', hrows]

theorem bookOnline_placed {db db' : Db} {now : ℤ} {new : OnlineRequest} {b : Booking}
    (h : bookOnline db now new = .ok (db', b)) : db.Placed now db' new.bookingId b ∧
      b.startsAt = new.startsAt ∧ b.status = (standingFor db.settings new.offer now).status := by
  obtain ⟨_, clients, _, _, _, _, _, hplace⟩ := bookOnline_eq_ok h
  refine @placed_of_place db _ _ _ _ _ _ _ _ _ _ _ _ _ _ ?_ hplace
  rfl

theorem book_placed {db db' : Db} {now : ℤ} {current : Session} {new : MerchantRequest}
    {b : Booking} (h : book db now current new = .ok (db', b)) :
    db.Placed now db' new.bookingId b ∧ b.startsAt = new.startsAt ∧ b.status = .confirmed := by
  obtain ⟨_, clients, _, _, _, _, _, hplace⟩ := book_eq_ok h
  refine @placed_of_place db _ _ _ _ _ _ _ _ _ _ _ _ _ _ ?_ hplace
  rfl

/-! ## § Moving -/

/-- The row `row` moved, as `moved`, after expiry. -/
structure Db.Shifted (db : Db) (now : ℤ) (db' : Db) (row moved : Booking) : Prop where
  before : row ∈ db.bookings.rows
  live : row ∈ (db.expire now).bookings.rows
  after : moved ∈ db'.bookings.rows
  id : moved.id = row.id
  status : moved.status = row.status
  others : ∀ r, r.id ≠ row.id →
    (r ∈ db'.bookings.rows ↔ r ∈ (db.expire now).bookings.rows)

theorem shifted_of_move {db db' : Db} {now : ℤ} {guard : Booking → Prop}
    [DecidablePred guard] {f : Booking → Booking} {hid : ∀ b, (f b).id = b.id}
    {hservice : ∀ b, (f b).serviceId = b.serviceId} {row : Booking} (e : Event)
    (h : (db.expire now).moveOne row.id guard f hid hservice = .written db')
    (hrow : row ∈ db.bookings.rows) (hlive : row ∈ (db.expire now).bookings.rows)
    (hstatus : (f row).status = row.status) :
    db.Shifted now (db'.record e) row (f row) := by
  obtain ⟨a, ha, haid, _, _, _, hmem, _⟩ := moveOne_eq_written h
  rw [(db.expire now).bookings.eq_of_key ha hlive haid] at hmem
  exact ⟨hrow, hlive, hmem, hid row, hstatus, (moveOne_frame h).2⟩

theorem Db.Shifted.find {db db' : Db} {now : ℤ} {row moved : Booking}
    (h : db.Shifted now db' row moved) : db'.bookings.find row.id = some moved :=
  Table.find_eq_some.mpr ⟨h.after, h.id⟩

/-- A merchant's move, of a confirmed booking. -/
theorem reschedule_shifted {db db' : Db} {now : ℤ} {current : Session} {bookingId : ℕ}
    {change : MerchantMove} (h : reschedule db now current bookingId change = .ok db') :
    ∃ row moved, db.bookings.find bookingId = some row ∧ db.Shifted now db' row moved ∧
      row.status = .confirmed ∧ moved.startsAt = change.startsAt ∧
      moved.rescheduleCount = row.rescheduleCount := by
  obtain ⟨row, db1, hrow, hstatus, hlive, _, _, hmove, rfl⟩ := reschedule_eq_ok h
  obtain ⟨hmem, hid⟩ := Table.find_eq_some.mp hrow
  subst hid
  exact ⟨row, _, hrow, shifted_of_move _ hmove hmem hlive rfl, hstatus, rfl, rfl⟩

/-- A client's move, of a confirmed booking or of a request. -/
theorem linkReschedule_shifted {db db' : Db} {now : ℤ} {tokenHash : ℕ} {body : LinkMove}
    (h : linkReschedule db now tokenHash body = .ok db') :
    ∃ row moved, db.resolve tokenHash now = some row ∧ db.Shifted now db' row moved ∧
      moved.startsAt = body.startsAt ∧
      ((row.status = .pending ∧ moved.rescheduleCount = row.rescheduleCount) ∨
        (row.status = .confirmed ∧ moved.rescheduleCount = row.rescheduleCount + 1)) := by
  obtain ⟨row, db1, hrow, hlive', _, _, _, hmove, rfl⟩ := linkReschedule_eq_ok h
  obtain ⟨hmem, _, hlive⟩ := resolve_eq_some hrow
  by_cases hpending : row.status = .pending
  · rw [if_pos hpending] at hmove
    exact ⟨row, _, hrow, shifted_of_move _ hmove hmem hlive' rfl, rfl,
      Or.inl ⟨hpending, rfl⟩⟩
  · rw [if_neg hpending] at hmove
    have hconfirmed := hlive.resolve_right fun hp => hpending hp.1
    exact ⟨row, _, hrow, shifted_of_move _ hmove hmem hlive' rfl, rfl,
      Or.inr ⟨hconfirmed, rfl⟩⟩

/-! ## § Answering and cancelling -/

theorem updateOne_written {db db' : Db} {guard : Booking → Prop} [DecidablePred guard]
    {f : Booking → Booking} {hid : ∀ b, (f b).id = b.id}
    {hservice : ∀ b, (f b).serviceId = b.serviceId} {row : Booking}
    (h : db.updateOne row.id guard f hid hservice = some db') (hrow : row ∈ db.bookings.rows) :
    guard row ∧ ∀ r, r ∈ db'.bookings.rows ↔
      r = f row ∨ (r ∈ db.bookings.rows ∧ r.id ≠ row.id) := by
  obtain ⟨⟨a, ha, haid, hguard⟩, rfl⟩ := updateOne_eq_some h
  rw [db.bookings.eq_of_key ha hrow haid] at hguard
  refine ⟨hguard, fun r => ?_⟩
  rw [Db.mem_updateBookings]
  constructor
  · rintro (⟨b, hb, hp, rfl⟩ | ⟨hr, hp⟩)
    · rw [db.bookings.eq_of_key hb hrow hp.1]
      exact Or.inl rfl
    · refine Or.inr ⟨hr, fun hrid => hp ⟨hrid, ?_⟩⟩
      rw [db.bookings.eq_of_key hr hrow hrid]
      exact hguard
  · rintro (rfl | ⟨hr, hrid⟩)
    · exact Or.inl ⟨row, hrow, ⟨rfl, hguard⟩, rfl⟩
    · exact Or.inr ⟨hr, fun hp => hrid hp.1⟩

/-- A merchant's change of status, of a row in one of the target's sources. -/
theorem transition_written {db db' : Db} {now : ℤ} {current : Session} {bookingId : ℕ}
    {change : StatusChange} (h : transition db now current bookingId change = .ok db') :
    ∃ row, db.bookings.find bookingId = some row ∧
      row.mayBecome (transitions change.status) change.startsAt now ∧
      (∀ r, r ∈ db'.bookings.rows ↔
        r = row.withStatus change.status.status change.status.not_expiring ∨
          (r ∈ db.bookings.rows ∧ r.id ≠ bookingId)) := by
  obtain ⟨row, db1, hrow, htransition, rfl⟩ := transition_eq_ok h
  obtain ⟨hmem, hid⟩ := Table.find_eq_some.mp hrow
  subst hid
  exact ⟨row, hrow, updateOne_written htransition hmem⟩

/-- A client's cancel, of a live booking. -/
theorem linkCancel_written {db db' : Db} {now : ℤ} {tokenHash : ℕ} {body : LinkCancel}
    (h : linkCancel db now tokenHash body = .ok db') :
    ∃ row, db.resolve tokenHash now = some row ∧
      row.withStatus .cancelledByClient (by decide) ∈ db'.bookings.rows := by
  obtain ⟨row, db1, hrow, _, hcancel, rfl⟩ := linkCancel_eq_ok h
  exact ⟨row, hrow, ((updateOne_written hcancel (resolve_eq_some hrow).1).2 _).mpr (Or.inl rfl)⟩

/-! ## § Checkouts -/

/-- A row in checkout was in checkout before, or has just been placed. -/
def Db.Checkouts (db db' : Db) : Prop :=
  ∀ b' ∈ db'.bookings.rows, b'.status = .awaitingPayment →
    ∀ b ∈ db.bookings.rows, b.id = b'.id → b.status = .awaitingPayment

theorem checkout_of_expire {db : Db} {now : ℤ} {b' : Booking}
    (hb' : b' ∈ (db.expire now).bookings.rows) (hs : b'.status = .awaitingPayment) :
    b' ∈ db.bookings.rows := by
  rcases mem_expire.mp hb' with ⟨b, _, _, rfl⟩ | ⟨hb', _⟩
  · cases hs
  · exact hb'

theorem Db.Placed.checkouts {db db' : Db} {now : ℤ} {id : ℕ} {b : Booking}
    (h : db.Placed now db' id b) : db.Checkouts db' := by
  intro b' hb' hs r hr hid
  rw [h.rows, List.mem_append, List.mem_singleton] at hb'
  rcases hb' with hb' | rfl
  · rw [db.bookings.eq_of_key hr (checkout_of_expire hb' hs) hid]
    exact hs
  · exact absurd (hid.trans h.id) (h.fresh r hr)

theorem Db.Shifted.checkouts {db db' : Db} {now : ℤ} {row moved : Booking}
    (h : db.Shifted now db' row moved) : db.Checkouts db' := by
  intro b' hb' hs b hb hid
  by_cases hrow : b'.id = row.id
  · rw [db'.bookings.eq_of_key hb' h.after (hrow.trans h.id.symm), h.status] at hs
    rw [db.bookings.eq_of_key hb h.before (hid.trans hrow)]
    exact hs
  · rw [db.bookings.eq_of_key hb (checkout_of_expire ((h.others b' hrow).mp hb') hs) hid]
    exact hs

theorem checkouts_of_quiet {revived : Booking → Prop} {db db' : Db} (h : Quiet revived db db')
    (hrevived : ∀ b, revived b → b.status = .awaitingPayment) : db.Checkouts db' := by
  intro b' hb' hs b hb hid
  obtain ⟨b0, hb0, hfollows⟩ := h.bookings b' hb'
  rw [db.bookings.eq_of_key hb hb0 (hid.trans hfollows.id)]
  rcases hfollows.standing with ⟨hsame, _⟩ | hout | hrev
  · rw [← hsame]
    exact hs
  · exact absurd (hs ▸ List.mem_cons_self) hout
  · exact hrevived b0 hrev

/-- An operation that takes no time and revives at most a checkout. -/
theorem checkouts_of_effect {db db' : Db} {now : ℤ} {op : Op} (h : Effect now op db db')
    (hstart : op.start = none) (hrevived : ∀ b, op.revives b → b.status = .awaitingPayment) :
    db.Checkouts db' := by
  cases h with
  | quiet hquiet => exact checkouts_of_quiet hquiet hrevived
  | reserves b db1 hb _ _ => cases hstart.symm.trans hb
  | configures _ hbookings =>
      intro b' hb' hs b hb hid
      rw [hbookings] at hb'
      rw [db.bookings.eq_of_key hb hb' hid]
      exact hs

/-- **Nothing comes back into checkout.** -/
theorem apply_checkouts {db db' : Db} {now : ℤ} {op : Op} (h : apply db now op = .ok db') :
    db.Checkouts db' := by
  have heffect := apply_effect h
  cases op with
  | bookOnline new =>
      obtain ⟨⟨_, b⟩, hbook, rfl⟩ := map_eq_ok.mp h
      exact (bookOnline_placed hbook).1.checkouts
  | book current new =>
      obtain ⟨⟨_, b⟩, hbook, rfl⟩ := map_eq_ok.mp h
      exact (book_placed hbook).1.checkouts
  | reschedule current bookingId change =>
      obtain ⟨_, _, _, hshifted, _⟩ := reschedule_shifted h
      exact hshifted.checkouts
  | linkReschedule tokenHash body =>
      obtain ⟨_, _, _, hshifted, _⟩ := linkReschedule_shifted h
      exact hshifted.checkouts
  | transition current bookingId change =>
      obtain ⟨row, hrow, _, hrows⟩ := transition_written h
      intro b' hb' hs b hb hid
      rcases (hrows b').mp hb' with rfl | ⟨hb', _⟩
      · -- no target of a transition is a checkout
        have hout : change.status.status ≠ .awaitingPayment := by cases change.status <;> decide
        exact absurd hs hout
      · rw [db.bookings.eq_of_key hb hb' hid]
        exact hs
  | reconcile row state => exact checkouts_of_effect heffect rfl fun b hrev => hrev.1.2
  | _ => exact checkouts_of_effect heffect rfl fun b hrev => hrev.elim

end Ziftbook
