import Ziftbook.Mail.Announced

/-!
# What confirms a booking reminds of it

Wherever an operation makes a booking confirmed, or moves it while it is, its letters
have the reminder of the start it now has.
-/

namespace Ziftbook

open Foundation Bookings

/-! ## § Confirming -/

/-- The operation makes the booking confirmed, or moves it while it is, to start at
`startsAt`. -/
structure Op.Confirms (op : Op) (db : Db) (now : ℤ) (db' : Db) (id : ℕ) (startsAt : ℤ) :
    Prop where
  after : ∃ b ∈ db'.bookings.rows, b.id = id ∧ b.status = .confirmed ∧ b.startsAt = startsAt
  before : (∀ b ∈ db.bookings.rows, b.id ≠ id) ∨
    (∃ b ∈ db.bookings.rows, b.id = id ∧ b.status ∈ expiring) ∨
    ∃ kind, op.moves db now = some (id, kind)

/-- A row that was confirmed already has been moved. -/
theorem Op.Confirms.moves {op : Op} {db db' : Db} {now : ℤ} {id : ℕ} {startsAt : ℤ}
    (h : op.Confirms db now db' id startsAt) {b : Booking} (hb : b ∈ db.bookings.rows)
    (hid : b.id = id) (hstatus : b.status = .confirmed) :
    ∃ kind, op.moves db now = some (id, kind) := by
  rcases h.before with hnone | ⟨r, hr, hrid, hexpiring⟩ | hmoves
  · exact absurd hid (hnone b hb)
  · rw [db.bookings.eq_of_key hr hb (hrid.trans hid.symm), hstatus] at hexpiring
    exact absurd hexpiring (by decide)
  · exact hmoves

/-- An operation that moves nothing leaves no confirmed row as it was and confirms it. -/
theorem Op.Confirms.not_kept {op : Op} {db db' : Db} {now : ℤ} {id : ℕ} {startsAt : ℤ}
    (h : op.Confirms db now db' id startsAt) (hmoves : op.moves db now = none) {b : Booking}
    (hb : b ∈ db.bookings.rows) (hid : b.id = id) : b.status ≠ .confirmed := by
  intro hstatus
  obtain ⟨kind, hkind⟩ := h.moves hb hid hstatus
  cases hmoves.symm.trans hkind

theorem confirmed_of_expire {db : Db} {now : ℤ} {b : Booking}
    (hb : b ∈ (db.expire now).bookings.rows) (hstatus : b.status = .confirmed) :
    b ∈ db.bookings.rows := by
  rcases mem_expire.mp hb with ⟨r, _, _, rfl⟩ | ⟨hb, _⟩
  · cases hstatus
  · exact hb

/-! ## § The reminder among the letters -/

theorem email_isSome (db : Db) (id : ℕ) (t : MailTemplate) (userId : Option ℕ)
    (s : KeySuffix) (extra : Extra) : (email db id t userId s extra false).isSome := by
  unfold email
  rw [if_neg fun h => Bool.false_ne_true h.2]
  rfl

theorem mem_remindIf {queued : Option Letter} (hqueued : queued.isSome) {id : ℕ}
    {startsAt now : ℤ} (hahead : now < startsAt - 24 * hour) :
    reminder id startsAt ∈ remindIf queued id startsAt now := by
  unfold remindIf remind
  rw [if_pos hqueued, if_neg (not_le.mpr hahead)]
  exact List.mem_singleton.mpr rfl

/-- A start that far ahead is ahead. -/
theorem ahead_of_day {now startsAt : ℤ} (h : now < startsAt - 24 * hour) : now < startsAt := by
  have hday : (0 : ℤ) < 24 * hour := by decide
  omega

theorem announce_reminds {db : Db} {now : ℤ} {b : Booking} (hstatus : b.status = .confirmed)
    (hahead : now < b.startsAt - 24 * hour) :
    reminder b.id b.startsAt ∈ announce db now false b := by
  unfold announce
  rw [if_pos hstatus]
  exact List.mem_append_left _ (List.mem_append_right _ (mem_remindIf (email_isSome ..) hahead))

/-! ## § Placing -/

theorem bookOnline_reminds {db db' : Db} {now : ℤ} {new : OnlineRequest} {b : Booking}
    (h : bookOnline db now new = .ok (db', b)) {id : ℕ} {startsAt : ℤ}
    (hconfirms : (Op.bookOnline new).Confirms db now db' id startsAt)
    (hahead : now < startsAt - 24 * hour) :
    reminder id startsAt ∈ bookOnlineLetters db' now new false := by
  obtain ⟨hplaced, _, hstatus⟩ := bookOnline_placed h
  obtain ⟨b', hb', hid, hconfirmed, rfl⟩ := hconfirms.after
  rw [hplaced.rows, List.mem_append, List.mem_singleton] at hb'
  rcases hb' with hb' | rfl
  · exact absurd hconfirmed
      (hconfirms.not_kept rfl (confirmed_of_expire hb' hconfirmed) hid)
  · unfold bookOnlineLetters
    rw [hplaced.find]
    -- a checkout is not confirmed
    have hoffer : ¬ new.offer = true := by
      intro hoffer
      rw [hstatus, standingFor, if_pos hoffer] at hconfirmed
      cases hconfirmed
    show reminder id b'.startsAt ∈ if new.offer then [] else announce db' now false b'
    rw [if_neg hoffer, ← hid]
    exact announce_reminds hconfirmed hahead

theorem book_reminds {db db' : Db} {now : ℤ} {current : Session} {new : MerchantRequest}
    {b : Booking} (h : book db now current new = .ok (db', b)) {id : ℕ} {startsAt : ℤ}
    (hconfirms : (Op.book current new).Confirms db now db' id startsAt)
    (hahead : now < startsAt - 24 * hour) :
    reminder id startsAt ∈ bookLetters db' now current new false := by
  obtain ⟨hplaced, _, _⟩ := book_placed h
  obtain ⟨b', hb', hid, hconfirmed, rfl⟩ := hconfirms.after
  rw [hplaced.rows, List.mem_append, List.mem_singleton] at hb'
  rcases hb' with hb' | rfl
  · exact absurd hconfirmed
      (hconfirms.not_kept rfl (confirmed_of_expire hb' hconfirmed) hid)
  · unfold bookLetters
    rw [hplaced.find]
    simp only
    rw [if_pos (ahead_of_day hahead), ← hid]
    exact List.mem_append_left _ (List.mem_append_right _ (mem_remindIf (email_isSome ..) hahead))

/-! ## § Answering and landing -/

theorem transition_reminds {db db' : Db} {now : ℤ} {current : Session} {bookingId : ℕ}
    {change : StatusChange} (h : transition db now current bookingId change = .ok db') {id : ℕ}
    {startsAt : ℤ}
    (hconfirms : (Op.transition current bookingId change).Confirms db now db' id startsAt)
    (hahead : now < startsAt - 24 * hour) :
    reminder id startsAt ∈ transitionLetters db db' now bookingId change false := by
  obtain ⟨row, hrow, hguard, hrows⟩ := transition_written h
  obtain ⟨hmem, rfl⟩ := Table.find_eq_some.mp hrow
  obtain ⟨b', hb', hid, hconfirmed, rfl⟩ := hconfirms.after
  rcases (hrows b').mp hb' with rfl | ⟨hb', _⟩
  · have htarget : change.status = .confirmed := by
      revert hconfirmed
      cases change.status <;> simp [Booking.withStatus, Target.status]
    -- of the two that become confirmed, a completed booking was answered before
    have hpending : row.status = .pending := by
      have hsource : row.status = .pending ∨ row.status = .completed := by
        simpa [htarget, transitions] using hguard.1
      refine hsource.resolve_right fun hcompleted => ?_
      rcases hconfirms.before with hnone | ⟨r, hr, hrid, hexpiring⟩ | ⟨_, hkind⟩
      · exact hnone row hmem hid
      · rw [db.bookings.eq_of_key hr hmem (hrid.trans hid.symm), hcompleted] at hexpiring
        exact absurd hexpiring (by decide)
      · cases hkind
    unfold transitionLetters
    rw [hrow]
    simp only
    rw [if_pos ⟨htarget, hpending⟩, ← hid]
    exact List.mem_append_right _ (mem_remindIf (email_isSome ..) hahead)
  · exact absurd hconfirmed (hconfirms.not_kept rfl hb' hid)

theorem live_of_none {db : Db} {now : ℤ} {bookingId paymentId : ℕ} {event : EventName}
    {f : Payment → Payment} {hid : ∀ p, (f p).id = p.id}
    (h : db.paid bookingId db.settings.pendingTtlHours now = none) :
    ((db.updatePayment paymentId f hid).live now bookingId event).bookings = db.bookings := by
  have hrow : ¬ ∃ b ∈ db.bookings.rows, b.id = bookingId ∧
      b.status = .awaitingPayment ∧ b.unexpired now := by
    intro hrow
    cases h.symm.trans (if_pos hrow)
  have hpaid : (db.updatePayment paymentId f hid).paid bookingId
      (db.updatePayment paymentId f hid).settings.pendingTtlHours now = none := if_neg hrow
  unfold Db.live
  rw [hpaid]
  rfl

/-- What `reconcile` leaves of the bookings: all as they were, or the one it lands on. -/
theorem reconcile_bookings (db : Db) (now : ℤ) (row : Payment) (state : IntentState) :
    (db.reconcile now row state).bookings = db.bookings ∨
      ∃ current db1, db.payments.find row.id = some current ∧
        (current.status = .open ∧ mismatch state row = false ∧ landed state row.kind = true) ∧
        db.paid row.bookingId db.settings.pendingTtlHours now = some db1 ∧
        (db.reconcile now row state).bookings = db1.bookings := by
  unfold Db.reconcile
  split
  · exact Or.inl rfl
  · rename_i current hcurrent
    split_ifs with hopen hmatched hlanded hcanceled
    · exact Or.inl rfl
    · exact Or.inl rfl
    · have hlands : current.status = .open ∧ mismatch state row = false ∧
          landed state row.kind = true := ⟨not_not.mp hopen, by simpa using hmatched, hlanded⟩
      cases hpaid : db.paid row.bookingId db.settings.pendingTtlHours now with
      | none =>
          split
          · exact Or.inl (live_of_none hpaid)
          · exact Or.inl (live_of_none hpaid)
      | some db1 =>
          refine Or.inr ⟨current, db1, hcurrent, hlands, rfl, ?_⟩
          split
          · exact live_bookings hpaid
          · exact live_bookings hpaid
    · exact Or.inl rfl
    · exact Or.inl rfl

theorem reconcile_reminds {db : Db} {now : ℤ} {row : Payment} {state : IntentState} {id : ℕ}
    {startsAt : ℤ} (hconfirms : (Op.reconcile row state).Confirms db now
      (db.reconcile now row state) id startsAt) (hahead : now < startsAt - 24 * hour) :
    reminder id startsAt ∈
      reconcileLetters db (db.reconcile now row state) now row state false := by
  obtain ⟨b', hb', hid, hconfirmed, rfl⟩ := hconfirms.after
  rcases reconcile_bookings db now row state with
    hsame | ⟨current, db1, hcurrent, hlands, hpaid, hbookings⟩
  · rw [hsame] at hb'
    exact absurd hconfirmed (hconfirms.not_kept rfl hb' hid)
  · rw [hbookings] at hb'
    obtain ⟨⟨r0, hr0, hid0, _⟩, _⟩ := updateOne_eq_some hpaid
    have hlanding := hpaid
    rw [← hid0] at hlanding
    rcases ((updateOne_written hlanding hr0).2 b').mp hb' with hlanded | ⟨hkept, _⟩
    · have hbooked : db.bookedBy now row state = some b' := by
        unfold Db.bookedBy
        rw [hcurrent]
        show (if current.status = .open ∧ mismatch state row = false ∧
          landed state row.kind = true then _ else none) = _
        rw [if_pos hlands, hpaid]
        refine Table.find_eq_some.mpr ⟨hb', ?_⟩
        rw [hlanded]
        exact hid0
      unfold reconcileLetters
      rw [hbooked, ← hid]
      exact announce_reminds hconfirmed hahead
    · exact absurd hconfirmed (hconfirms.not_kept rfl hkept hid)

/-! ## § Moving -/

/-- Of the rows after a move, the confirmed one it confirms is the one moved. -/
theorem Db.Shifted.confirms {db db' : Db} {now : ℤ} {row moved : Booking}
    (h : db.Shifted now db' row moved) {op : Op} {kind : MoveKind}
    (hmoves : op.moves db now = some (row.id, kind)) {id : ℕ} {startsAt : ℤ}
    (hconfirms : op.Confirms db now db' id startsAt) :
    id = row.id ∧ moved.status = .confirmed ∧ moved.startsAt = startsAt := by
  obtain ⟨b', hb', hid, hconfirmed, hstart⟩ := hconfirms.after
  by_cases hrow : b'.id = row.id
  · rw [db'.bookings.eq_of_key hb' h.after (hrow.trans h.id.symm)] at hconfirmed hstart
    exact ⟨hid.symm.trans hrow, hconfirmed, hstart⟩
  · have hkept := confirmed_of_expire ((h.others b' hrow).mp hb') hconfirmed
    obtain ⟨kind', hkind⟩ := hconfirms.moves hkept hid hconfirmed
    have hsame := Option.some.inj (hmoves.symm.trans hkind)
    exact absurd (hid.trans (congrArg Prod.fst hsame).symm) hrow

theorem reschedule_reminds {db db' : Db} {now : ℤ} {current : Session} {bookingId : ℕ}
    {change : MerchantMove} (h : reschedule db now current bookingId change = .ok db') {id : ℕ}
    {startsAt : ℤ}
    (hconfirms : (Op.reschedule current bookingId change).Confirms db now db' id startsAt)
    (hahead : now < startsAt - 24 * hour) :
    reminder id startsAt ∈ rescheduleLetters db db' now current bookingId change false := by
  obtain ⟨row, moved, hrow, hshifted, _, hstarts, _⟩ := reschedule_shifted h
  obtain ⟨_, rfl⟩ := Table.find_eq_some.mp hrow
  obtain ⟨rfl, _, rfl⟩ := @Db.Shifted.confirms _ _ _ _ _ hshifted _ .merchant rfl _ _ hconfirms
  rw [hstarts] at hahead ⊢
  unfold rescheduleLetters
  rw [hrow]
  simp only
  rw [if_pos (ahead_of_day hahead)]
  exact List.mem_append_left _ (List.mem_append_left _ (List.mem_append_right _
    (mem_remindIf (email_isSome ..) hahead)))

theorem linkReschedule_reminds {db db' : Db} {now : ℤ} {tokenHash : ℕ} {body : LinkMove}
    (h : linkReschedule db now tokenHash body = .ok db') {id : ℕ} {startsAt : ℤ}
    (hconfirms : (Op.linkReschedule tokenHash body).Confirms db now db' id startsAt)
    (hahead : now < startsAt - 24 * hour) :
    reminder id startsAt ∈ linkRescheduleLetters db db' now tokenHash false := by
  obtain ⟨row, moved, hrow, hshifted, _, hkind⟩ := linkReschedule_shifted h
  have hmoves : (Op.linkReschedule tokenHash body).moves db now =
      some (row.id, if row.status = .pending then .pending else .client) := by
    rw [Op.moves, hrow]
    rfl
  obtain ⟨rfl, hconfirmed, rfl⟩ := hshifted.confirms hmoves hconfirms
  -- a request that moves stays a request
  have hnot : row.status ≠ .pending := by
    intro hpending
    rw [hshifted.status, hpending] at hconfirmed
    cases hconfirmed
  unfold linkRescheduleLetters
  rw [hrow]
  simp only [hshifted.find]
  rw [if_neg hnot]
  exact List.mem_append_right _ (mem_remindIf (email_isSome ..) hahead)

/-! ## § Every operation -/

/-- An operation that takes no time and revives nothing confirms nothing. -/
theorem not_confirms_of_effect {db db' : Db} {now : ℤ} {op : Op} (h : Effect now op db db')
    (hstart : op.start = none) (hrevives : ∀ b, ¬ op.revives b)
    (hmoves : op.moves db now = none) {id : ℕ} {startsAt : ℤ} :
    ¬ op.Confirms db now db' id startsAt := by
  intro hconfirms
  obtain ⟨b', hb', hid, hconfirmed, _⟩ := hconfirms.after
  cases h with
  | quiet hquiet =>
      obtain ⟨b, hb, hfollows⟩ := hquiet.bookings b' hb'
      rcases hfollows.standing with ⟨hsame, _⟩ | hout | hrevived
      · exact hconfirms.not_kept hmoves hb (hfollows.id.symm.trans hid)
          (hsame.symm.trans hconfirmed)
      · rw [hconfirmed] at hout
        exact hout (by decide)
      · exact hrevives b hrevived
  | reserves b db1 hb _ _ => cases hstart.symm.trans hb
  | configures _ hbookings =>
      rw [hbookings] at hb'
      exact hconfirms.not_kept hmoves hb' hid hconfirmed

/-- **What confirms a booking a day ahead reminds of it**, within the quota. -/
theorem confirms_reminds {db db' : Db} {now : ℤ} {op : Op} (h : apply db now op = .ok db')
    {id : ℕ} {startsAt : ℤ} (hconfirms : op.Confirms db now db' id startsAt)
    (hahead : now < startsAt - 24 * hour) :
    reminder id startsAt ∈ op.letters db db' now false := by
  have heffect := apply_effect h
  cases op with
  | bookOnline new =>
      obtain ⟨⟨_, b⟩, hbook, rfl⟩ := map_eq_ok.mp h
      exact bookOnline_reminds hbook hconfirms hahead
  | book current new =>
      obtain ⟨⟨_, b⟩, hbook, rfl⟩ := map_eq_ok.mp h
      exact book_reminds hbook hconfirms hahead
  | reschedule current bookingId change => exact reschedule_reminds h hconfirms hahead
  | linkReschedule tokenHash body => exact linkReschedule_reminds h hconfirms hahead
  | transition current bookingId change => exact transition_reminds h hconfirms hahead
  | reconcile row state =>
      cases h
      exact reconcile_reminds hconfirms hahead
  | _ => exact absurd hconfirms (not_confirms_of_effect heffect rfl (fun _ hrev => hrev) rfl)

end Ziftbook
