import Ziftbook.Availability.Reading
import Ziftbook.Machine

/-!
# What an operation can do to the bookings

Every operation first changes bookings only in their standing, and then at most
reserves one new time: it places a booking, or moves one. The invariants of
whole runs are read off this, never off the handlers again.
-/

namespace Ziftbook

open Foundation

/-! ## § The two phases -/

/-- Nothing but bookings, events, links, clients and payments differs. -/
structure SameSetup (db db' : Db) : Prop where
  settings : db'.settings = db.settings
  services : db'.services = db.services
  memberships : db'.memberships = db.memberships
  timeOff : db'.timeOff = db.timeOff

theorem SameSetup.refl (db : Db) : SameSetup db db := ⟨rfl, rfl, rfl, rfl⟩

theorem SameSetup.trans {db db' db'' : Db} (h : SameSetup db db') (h' : SameSetup db' db'') :
    SameSetup db db'' :=
  ⟨h'.settings.trans h.settings, h'.services.trans h.services,
    h'.memberships.trans h.memberships, h'.timeOff.trans h.timeOff⟩

/-- The statuses a live appointment may have. -/
def standingStatuses : List Status := [.awaitingPayment, .pending, .confirmed]

/-- `b'` is the row `b` with at most its standing changed: it takes no new time,
and it becomes live again only where `revived` says so. -/
structure Booking.Follows (revived : Prop) (b b' : Booking) : Prop where
  id : b'.id = b.id
  workerId : b'.workerId = b.workerId
  serviceId : b'.serviceId = b.serviceId
  startsAt : b'.startsAt = b.startsAt
  endsAt : b'.endsAt = b.endsAt
  occupies : b'.status ∈ occupying → b.status ∈ occupying
  standing : (b'.status = b.status ∧ b'.expiresAt = b.expiresAt) ∨
    b'.status ∉ standingStatuses ∨ revived

theorem Booking.Follows.refl (revived : Prop) (b : Booking) : b.Follows revived b :=
  ⟨rfl, rfl, rfl, rfl, rfl, fun h => h, Or.inl ⟨rfl, rfl⟩⟩

/-- The first phase: every booking follows one of before. -/
structure Quiet (revived : Booking → Prop) (db db' : Db) : Prop where
  setup : SameSetup db db'
  bookings : ∀ b' ∈ db'.bookings.rows, ∃ b ∈ db.bookings.rows, b.Follows (revived b) b'

theorem quiet_of_bookings {revived : Booking → Prop} {db db' : Db}
    (hsetup : SameSetup db db') (h : db'.bookings = db.bookings) : Quiet revived db db' := by
  refine ⟨hsetup, ?_⟩
  rw [h]
  exact fun b hb => ⟨b, hb, Booking.Follows.refl _ b⟩

theorem Quiet.mono {revived revived' : Booking → Prop} {db db' : Db}
    (h : Quiet revived db db') (himp : ∀ b, revived b → revived' b) :
    Quiet revived' db db' := by
  refine ⟨h.setup, ?_⟩
  intro b' hb'
  obtain ⟨b, hb, hf⟩ := h.bookings b' hb'
  exact ⟨b, hb, hf.id, hf.workerId, hf.serviceId, hf.startsAt, hf.endsAt, hf.occupies,
    hf.standing.imp_right fun hs => hs.imp_right (himp b)⟩

/-- What follows a quiet phase without touching bookings belongs to it. -/
theorem Quiet.extend {revived : Booking → Prop} {db db' db'' : Db}
    (h : Quiet revived db db') (hsetup : SameSetup db' db'')
    (hb : db''.bookings = db'.bookings) : Quiet revived db db'' :=
  ⟨h.setup.trans hsetup, hb ▸ h.bookings⟩

/-- So does what goes before it. -/
theorem Quiet.after {revived : Booking → Prop} {db db' db'' : Db}
    (h : Quiet revived db' db'') (hsetup : SameSetup db db')
    (hb : db'.bookings = db.bookings) : Quiet revived db db'' :=
  ⟨hsetup.trans h.setup, hb ▸ h.bookings⟩

/-- The second phase: `b` takes a new time, all else being as it was. Without
`override` the time is a slot its worker was offered. -/
structure Reserves (now : ℤ) (override : Prop) (db db' : Db) (b : Booking) : Prop where
  setup : SameSetup db db'
  swept : ∀ r ∈ db.bookings.rows, r.status ∈ occupying → r.holdsAt now
  mem : b ∈ db'.bookings.rows
  others : ∀ r ∈ db'.bookings.rows, r = b ∨ (r ∈ db.bookings.rows ∧ r.id ≠ b.id)
  employed : ∃ m ∈ db.memberships.rows, m.id = b.workerId ∧ m.role ≠ .removed
  whole : (∀ r ∈ db.bookings.rows, minute ∣ r.endsAt - r.startsAt) →
    minute ∣ b.endsAt - b.startsAt
  slot : ¬ override → ∃ exclude, (∀ id ∈ exclude, b.id = id) ∧
    db.Slot now b.workerId b.startsAt b.length (db.bufferOf b) exclude

theorem Reserves.extend {now : ℤ} {override : Prop} {db db' db'' : Db} {b : Booking}
    (h : Reserves now override db db' b) (hsetup : SameSetup db' db'')
    (hb : db''.bookings = db'.bookings) : Reserves now override db db'' b :=
  ⟨h.setup.trans hsetup, h.swept, hb ▸ h.mem, hb ▸ h.others, h.employed, h.whole, h.slot⟩

theorem Reserves.mono {now : ℤ} {override override' : Prop} {db db' : Db} {b : Booking}
    (h : Reserves now override db db' b) (himp : override → override') :
    Reserves now override' db db' b :=
  ⟨h.setup, h.swept, h.mem, h.others, h.employed, h.whole, fun hno => h.slot (mt himp hno)⟩

/-! ## § One-row updates -/

theorem quiet_updateBookings {revived : Booking → Prop} {db : Db} {p : Booking → Prop}
    [DecidablePred p] {f : Booking → Booking} {hid : ∀ b, (f b).id = b.id}
    {hservice : ∀ b, (f b).serviceId = b.serviceId}
    (hf : ∀ b ∈ db.bookings.rows, p b → b.Follows (revived b) (f b)) :
    Quiet revived db (db.updateBookings p f hid hservice) := by
  refine ⟨⟨rfl, rfl, rfl, rfl⟩, ?_⟩
  intro b' hb'
  rcases Db.mem_updateBookings.mp hb' with ⟨b, hb, hp, rfl⟩ | ⟨hb, _⟩
  · exact ⟨b, hb, hf b hb hp⟩
  · exact ⟨b', hb, Booking.Follows.refl _ b'⟩

theorem updateOne_eq_some {db db' : Db} {id : ℕ} {guard : Booking → Prop}
    [DecidablePred guard] {f : Booking → Booking} {hid : ∀ b, (f b).id = b.id}
    {hservice : ∀ b, (f b).serviceId = b.serviceId}
    (h : db.updateOne id guard f hid hservice = some db') :
    (∃ b ∈ db.bookings.rows, b.id = id ∧ guard b) ∧
      db' = db.updateBookings (fun b => b.id = id ∧ guard b) f hid hservice := by
  unfold Db.updateOne at h
  split at h
  · rename_i hrow
    cases h
    exact ⟨hrow, rfl⟩
  · cases h

theorem quiet_updateOne {revived : Booking → Prop} {db db' : Db} {id : ℕ}
    {guard : Booking → Prop} [DecidablePred guard] {f : Booking → Booking}
    {hid : ∀ b, (f b).id = b.id} {hservice : ∀ b, (f b).serviceId = b.serviceId}
    (h : db.updateOne id guard f hid hservice = some db')
    (hf : ∀ b, b.id = id → guard b → b.Follows (revived b) (f b)) : Quiet revived db db' := by
  obtain ⟨_, rfl⟩ := updateOne_eq_some h
  exact quiet_updateBookings fun b _ hp => hf b hp.1 hp.2

theorem follows_withStatus {revived : Prop} {b : Booking} {status : Status}
    (hexp : status ∉ expiring) (hocc : status ∈ occupying → b.status ∈ occupying)
    (hstanding : status ∉ standingStatuses ∨ revived) :
    b.Follows revived (b.withStatus status hexp) :=
  ⟨rfl, rfl, rfl, rfl, rfl, hocc, Or.inr hstanding⟩

theorem follows_ended {revived : Prop} {b : Booking} {status : Status}
    (hexp : status ∉ expiring) (hocc : status ∉ occupying) :
    b.Follows revived (b.withStatus status hexp) := by
  refine follows_withStatus hexp (fun h => absurd h hocc) (Or.inl ?_)
  intro h
  cases status <;> revert h hocc <;> decide

/-! ## § Quiet operations -/

theorem quiet_expire (revived : Booking → Prop) (db : Db) (now : ℤ) :
    Quiet revived db (db.expire now) := by
  have hq : Quiet revived db (db.updateBookings (fun b => b.status ∈ expiring ∧ b.lapsed now)
      (fun b => b.withStatus .expired (by decide)) (fun _ => rfl) fun _ => rfl) :=
    quiet_updateBookings fun b _ _ => follows_ended (by decide) (by decide)
  exact hq.extend ⟨rfl, rfl, rfl, rfl⟩ rfl

theorem mem_expire {db : Db} {now : ℤ} {r : Booking} :
    r ∈ (db.expire now).bookings.rows ↔
      (∃ b ∈ db.bookings.rows, (b.status ∈ expiring ∧ b.lapsed now) ∧
        b.withStatus .expired (by decide) = r) ∨
      (r ∈ db.bookings.rows ∧ ¬ (r.status ∈ expiring ∧ r.lapsed now)) := by
  change r ∈ (db.updateBookings (fun b => b.status ∈ expiring ∧ b.lapsed now)
    (fun b => b.withStatus .expired (by decide)) (fun _ => rfl) fun _ => rfl).bookings.rows ↔ _
  exact Db.mem_updateBookings

/-- After expiry an occupying row holds its time. -/
theorem holdsAt_of_expire {db : Db} {now : ℤ} :
    ∀ r ∈ (db.expire now).bookings.rows, r.status ∈ occupying → r.holdsAt now := by
  intro r hr hocc
  refine ⟨hocc, or_iff_not_imp_left.mpr fun hexp => ?_⟩
  rcases mem_expire.mp hr with ⟨b, _, _, rfl⟩ | ⟨_, hlive⟩
  · exact absurd hocc (by decide : Status.expired ∉ occupying)
  · -- an expiring row has a deadline, and it has not passed
    have hholds := r.holds (not_not.mp hexp)
    obtain ⟨e, he⟩ := Option.isSome_iff_exists.mp hholds
    exact ⟨e, he, not_le.mp fun hle => hlive ⟨not_not.mp hexp, e, he, hle⟩⟩

/-- A row that has not lapsed outlives expiry. -/
theorem mem_expire_of_live {db : Db} {now : ℤ} {b : Booking} (hb : b ∈ db.bookings.rows)
    (hlive : b.status ∉ expiring ∨ b.unexpired now) : b ∈ (db.expire now).bookings.rows := by
  refine mem_expire.mpr (Or.inr ⟨hb, ?_⟩)
  rintro ⟨hexp, e, he, hle⟩
  rcases hlive with hlive | ⟨e', he', hlt⟩
  · exact hlive hexp
  · rw [he, Option.some.injEq] at he'
    omega

theorem quiet_expireOne {revived : Booking → Prop} {db db' : Db} {id : ℕ}
    (h : db.expireOne id = some db') : Quiet revived db db' := by
  obtain ⟨db1, h1, rfl⟩ := Option.map_eq_some_iff.mp h
  have hq : Quiet revived db db1 :=
    quiet_updateOne h1 fun b _ _ => follows_ended (by decide) (by decide)
  exact hq.extend ⟨rfl, rfl, rfl, rfl⟩ rfl

theorem quiet_giveBack (revived : Booking → Prop) (db : Db) (id : ℕ) :
    Quiet revived db (db.giveBack id) := by
  unfold Db.giveBack
  cases h : db.expireOne id with
  | none => exact quiet_of_bookings (SameSetup.refl db) rfl
  | some db' => exact quiet_expireOne h

theorem quiet_endForErasure (revived : Booking → Prop) (db : Db) (clientId : ℕ)
    (reason : ErasureReason) (at_ : Option ℤ) (actor : Option ℕ) (now : ℤ) :
    Quiet revived db (db.endForErasure clientId reason at_ actor now) := by
  have hended : ∀ status, erasureEnding status ∉ occupying := by
    intro status
    cases status <;> decide
  have hq : Quiet revived db (db.updateBookings
      (fun b => b.endsForErasure clientId (at_.getD now))
      (fun b => b.withStatus (erasureEnding b.status) (erasureEnding_not_expiring _))
      (fun _ => rfl) fun _ => rfl) :=
    quiet_updateBookings fun b _ _ => follows_ended _ (hended b.status)
  exact hq.extend ⟨rfl, rfl, rfl, rfl⟩ rfl

/-- A payment lands on a checkout, and on nothing else. -/
theorem quiet_live {db : Db} {now : ℤ} {bookingId : ℕ} {event : EventName} :
    Quiet (fun b => b.id = bookingId ∧ b.status = .awaitingPayment) db
      (db.live now bookingId event) := by
  unfold Db.live
  cases h : db.paid bookingId db.settings.pendingTtlHours now with
  | none => exact quiet_of_bookings (SameSetup.refl db) rfl
  | some db' =>
      have hq : Quiet (fun b => b.id = bookingId ∧ b.status = .awaitingPayment) db db' := by
        refine quiet_updateOne h fun b hid hguard => ?_
        refine ⟨rfl, rfl, rfl, rfl, rfl, ?_, Or.inr (Or.inr ⟨hid, hguard.1⟩)⟩
        intro _
        rw [hguard.1]
        decide
      exact hq.extend ⟨rfl, rfl, rfl, rfl⟩ rfl

theorem quiet_reconcile {db : Db} {now : ℤ} {row : Payment} {state : IntentState} :
    Quiet (fun b => (b.id = row.bookingId ∧ b.status = .awaitingPayment) ∧
      landed state row.kind = true) db (db.reconcile now row state) := by
  have hsame : ∀ db' : Db, SameSetup db db' → db'.bookings = db.bookings →
      Quiet (fun b => (b.id = row.bookingId ∧ b.status = .awaitingPayment) ∧
        landed state row.kind = true) db db' := fun _ => quiet_of_bookings
  unfold Db.reconcile
  split
  · exact hsame db (SameSetup.refl db) rfl
  · split
    · exact hsame db (SameSetup.refl db) rfl
    · split
      · exact hsame db (SameSetup.refl db) rfl
      · split
        · rename_i hlanded
          split
          · have hq : Quiet _ _ (db.landChecked now row state) := quiet_live
            exact (hq.mono fun b hb => ⟨hb, hlanded⟩).after ⟨rfl, rfl, rfl, rfl⟩ rfl
          · have hq : Quiet _ _ (db.landPaid now row) := quiet_live
            exact (hq.mono fun b hb => ⟨hb, hlanded⟩).after ⟨rfl, rfl, rfl, rfl⟩ rfl
        · split
          · exact hsame _ ⟨rfl, rfl, rfl, rfl⟩ rfl
          · exact hsame db (SameSetup.refl db) rfl

/-- A transition ends a booking, restores one, or accepts one. -/
theorem quiet_transition {db db' : Db} {id : ℕ} {target : Target} {seen : Option ℤ}
    {now : ℤ} (h : db.transition id target seen now = some db') :
    Quiet (fun b => b.id = id ∧ target = .confirmed ∧
      (b.status = .pending ∨ b.status = .completed)) db db' := by
  refine quiet_updateOne h fun b hid hguard => ?_
  obtain ⟨hsource, _⟩ := hguard
  refine follows_withStatus target.not_expiring ?_ ?_
  · intro _
    revert hsource
    cases target <;> simp [transitions, occupying] <;> tauto
  · cases target with
    | confirmed => exact Or.inr ⟨hid, rfl, by simpa [transitions] using hsource⟩
    | declined => exact Or.inl (by decide)
    | cancelledByMerchant => exact Or.inl (by decide)
    | completed => exact Or.inl (by decide)
    | noShow => exact Or.inl (by decide)

theorem quiet_clientCancel {revived : Booking → Prop} {db db' : Db} {id : ℕ} {now : ℤ}
    (h : db.clientCancel id now = some db') : Quiet revived db db' :=
  quiet_updateOne h fun _ _ _ => follows_ended (by decide) (by decide)

/-! ## § Reserving operations -/

/-- An insert the constraints let through adds the row and does nothing else. -/
theorem insertBooking_cases {db db' : Db} {b : Booking} (h : db.insertBooking b = .ok db') :
    ¬ db.excluded b ∧ ∃ bookings hservice, db.bookings.insert b = some bookings ∧
      db' = { db with bookings := bookings, booked_service := hservice } := by
  unfold Db.insertBooking at h
  split at h
  · cases h
  · rename_i hexcl
    split at h
    · cases h
    · split at h
      · cases h
      · rename_i bookings hins
        split at h
        · cases h
          exact ⟨hexcl, bookings, _, hins, rfl⟩
        · cases h

theorem insertBooking_eq_ok {db db' : Db} {b : Booking} (h : db.insertBooking b = .ok db') :
    SameSetup db db' ∧ db'.bookings.rows = db.bookings.rows ++ [b] ∧
      (∀ r ∈ db.bookings.rows, r.id ≠ b.id) ∧ ¬ db.excluded b := by
  obtain ⟨hexcl, bookings, _, hins, rfl⟩ := insertBooking_cases h
  obtain ⟨hfresh, hrows⟩ := Table.insert_eq_some hins
  exact ⟨⟨rfl, rfl, rfl, rfl⟩, hrows, hfresh, hexcl⟩

theorem insertBooking_events {db db' : Db} {b : Booking} (h : db.insertBooking b = .ok db') :
    db'.events = db.events := by
  obtain ⟨_, _, _, _, rfl⟩ := insertBooking_cases h
  rfl

/-- `place` lands on a candidate, as an insert the constraints let through. -/
theorem place_eq_ok {db db' : Db} {settings : Settings} {service : Service}
    {id clientId : ℕ} {startsAt : ℤ} {standing : Standing} {source : Source}
    {ip : Option Address} {actor : Option ℕ} {queue : List ℕ} {b : Booking}
    (h : place db settings service id clientId startsAt standing source ip actor queue =
      .ok (db', b)) :
    ∃ candidate ∈ queue, b = newBooking settings service id clientId candidate
        (db.nameOf candidate) startsAt standing source ∧
      ∃ db1, db.insertBooking b = .ok db1 ∧ db' = db1.record ⟨id, .created, ip, actor, .empty⟩ := by
  induction queue with
  | nil => simp [place] at h
  | cons candidate queue ih =>
      simp only [place] at h
      split at h
      · rename_i db1 hins
        cases h
        exact ⟨candidate, List.mem_cons_self .., rfl, db1, hins, rfl⟩
      · cases h
      · obtain ⟨c, hc, hrest⟩ := ih h
        exact ⟨c, List.mem_cons_of_mem _ hc, hrest⟩

theorem mem_candidateIds {hours : List WorkingHour} {m : ℕ} :
    m ∈ candidateIds hours ↔ ∃ w ∈ hours, w.memberId = m := by
  simp [candidateIds, List.mem_insertionSort, List.mem_dedup]

theorem employed_of_candidate {db : Db} {service : ℕ} {member : Option ℕ} {w : WorkingHour}
    (h : w ∈ db.candidates service member) :
    ∃ m ∈ db.memberships.rows, m.id = w.memberId ∧ m.role ≠ .removed := by
  simp only [Db.candidates, List.mem_filter, decide_eq_true_eq] at h
  exact h.2.2.1

theorem mem_byLoad {eligible : List ℕ} {rows : List BookedRow} {day : ℤ} {zone : Zone}
    {m : ℕ} : m ∈ byLoad eligible rows day zone ↔ m ∈ eligible := by
  simp [byLoad, List.mem_insertionSort]

/-- A window around one day is that day, when it is not empty. -/
theorem window_day {now : ℤ} {zone : Zone} {day notice horizon : ℤ}
    (h : ¬ (window now zone day day notice horizon).2.1 <
      (window now zone day day notice horizon).1) :
    (window now zone day day notice horizon).1 = day ∧
      (window now zone day day notice horizon).2.1 = day := by
  simp only [window] at *
  omega

theorem newBooking_length (settings : Settings) (service : Service)
    (id clientId workerId : ℕ) (name : Option String) (startsAt : ℤ) (standing : Standing)
    (source : Source) :
    (newBooking settings service id clientId workerId name startsAt standing source).length =
      service.durationMinutes := by
  simp only [Booking.length, newBooking, minute]
  omega

theorem service_eq_some {db : Db} {id : ℕ} {s : Service} (h : db.service id = some s) :
    db.services.find id = some s ∧ s.id = id := by
  obtain ⟨hfind, _⟩ := Option.filter_eq_some_iff.mp h
  exact ⟨hfind, (Table.find_eq_some.mp hfind).2⟩

theorem findOrCreate_eq_some {db db' : Db} {address : String} {fresh id : ℕ}
    (h : db.findOrCreate address fresh = some (db', id)) :
    ∃ clients, db' = { db with clients := clients } := by
  unfold Db.findOrCreate at h
  split at h
  · cases h
    exact ⟨db.clients, rfl⟩
  · obtain ⟨clients, _, heq⟩ := Option.map_eq_some_iff.mp h
    cases heq
    exact ⟨clients, rfl⟩

theorem bookingClient_eq_ok {db db' : Db} {choice : ClientChoice} {id : ℕ}
    (h : db.bookingClient choice = .ok (db', id)) :
    ∃ clients, db' = { db with clients := clients } := by
  cases choice with
  | known id =>
      simp only [Db.bookingClient, require_bind_eq_ok, Except.ok.injEq, Prod.mk.injEq] at h
      exact ⟨db.clients, h.2.1.symm⟩
  | fresh id email =>
      simp only [Db.bookingClient, found_bind_eq_ok, Except.ok.injEq, Prod.mk.injEq] at h
      obtain ⟨clients, _, heq, _⟩ := h
      exact ⟨clients, heq.symm⟩

theorem mem_eligibleFor {db : Db} {now : ℤ} {settings : Settings} {hours : List WorkingHour}
    {startsAt duration : ℤ} {bufferMinutes : Option ℤ} {exclude : Option ℕ} {m : ℕ}
    (h : m ∈ (eligibleFor db now settings hours startsAt duration bufferMinutes exclude).1) :
    m ∈ candidateIds hours ∧ ∃ earliest,
      startsAt ∈ (offered db now (candidateIds hours) hours (byWeekday db.openingHours) settings
        (dateAt settings.timezone startsAt) (dateAt settings.timezone startsAt) earliest duration
        (bufferFor duration bufferMinutes settings.bufferPct) exclude).slotsOf m := by
  unfold eligibleFor at h
  simp only at h
  split at h
  · cases h
  · rename_i hopen
    obtain ⟨h1, h2⟩ := window_day hopen
    rw [h1, h2] at h
    obtain ⟨hm, hslot⟩ := List.mem_filter.mp h
    exact ⟨hm, _, of_decide_eq_true hslot⟩

/-- A placed booking reserves the time its candidate was offered. -/
theorem reserves_of_place {db db' : Db} {now : ℤ} {override : Prop} {settings : Settings}
    {service : Service} {serviceId id clientId : ℕ} {memberId : Option ℕ} {startsAt : ℤ}
    {standing : Standing} {source : Source} {ip : Option Address} {actor : Option ℕ}
    {queue : List ℕ} {b : Booking} (hservice : db.service serviceId = some service)
    (hswept : ∀ r ∈ db.bookings.rows, r.status ∈ occupying → r.holdsAt now)
    (hqueue : ∀ m ∈ queue, m ∈ candidateIds (db.candidates serviceId memberId))
    (hslot : ¬ override → ∀ m ∈ queue, db.Slot now m startsAt service.durationMinutes
      (bufferFor service.durationMinutes service.bufferMinutes db.settings.bufferPct) none)
    (h : place db settings service id clientId startsAt standing source ip actor queue =
      .ok (db', b)) : Reserves now override db db' b := by
  obtain ⟨candidate, hmem, hb, db1, hins, rfl⟩ := place_eq_ok h
  obtain ⟨hsetup, hrows, hfresh, _⟩ := insertBooking_eq_ok hins
  obtain ⟨hfind, hid⟩ := service_eq_some hservice
  have hlength : b.length = service.durationMinutes := by
    rw [hb]
    exact newBooking_length ..
  have hbuffer : db.bufferOf b =
      bufferFor service.durationMinutes service.bufferMinutes db.settings.bufferPct := by
    have hbservice : b.serviceId = serviceId := by rw [hb]; exact hid
    rw [Db.bufferOf_eq (hbservice ▸ hfind), hlength]
  have hworker : b.workerId = candidate := by rw [hb]; rfl
  have hstart : b.startsAt = startsAt := by rw [hb]; rfl
  refine ⟨hsetup.trans ⟨rfl, rfl, rfl, rfl⟩, hswept, ?_, ?_, ?_, ?_, ?_⟩
  · change b ∈ db1.bookings.rows
    rw [hrows]
    exact List.mem_append_right _ (List.mem_singleton.mpr rfl)
  · intro r hr
    change r ∈ db1.bookings.rows at hr
    rw [hrows, List.mem_append, List.mem_singleton] at hr
    rcases hr with hr | hr
    · exact Or.inr ⟨hr, hfresh r hr⟩
    · exact Or.inl hr
  · obtain ⟨w, hw, hwm⟩ := mem_candidateIds.mp (hqueue candidate hmem)
    rw [hworker, ← hwm]
    exact employed_of_candidate hw
  · intro _
    rw [hb]
    exact ⟨service.durationMinutes, by simp only [newBooking]; ring⟩
  · intro hno
    refine ⟨none, by simp, ?_⟩
    rw [hlength, hbuffer, hworker, hstart]
    exact hslot hno candidate hmem

/-- An accepted online booking is placed on a candidate that was offered the time, once
lapsed holds have expired. -/
theorem bookOnline_eq_ok {db db' : Db} {now : ℤ} {new : OnlineRequest} {b : Booking}
    (h : bookOnline db now new = .ok (db', b)) :
    ∃ service clients clientId queue, db.service new.serviceId = some service ∧
      (∀ m ∈ queue, m ∈ candidateIds (db.candidates new.serviceId new.memberId)) ∧
      (∀ m ∈ queue, (Db.expire { db with clients := clients } now).Slot now m new.startsAt
        service.durationMinutes (bufferFor service.durationMinutes service.bufferMinutes
          db.settings.bufferPct) none) ∧
      place (Db.expire { db with clients := clients } now) db.settings service new.bookingId
        clientId new.startsAt (standingFor db.settings new.offer now) .bookingPage new.ip none
        queue = .ok (db', b) := by
  simp only [bookOnline, found_bind_eq_ok, require_bind_eq_ok] at h
  obtain ⟨service, hservice, _, _, _, _, _, _, ⟨db0, clientId⟩, hclient, hopen, _, _, hplace⟩ := h
  obtain ⟨clients, rfl⟩ := findOrCreate_eq_some hclient
  obtain ⟨h1, h2⟩ := window_day hopen
  rw [h1, h2] at hplace
  refine ⟨service, clients, clientId, _, hservice, fun m hm => ?_, fun m hm => ?_, hplace⟩
  · exact (List.mem_filter.mp (mem_byLoad.mp hm)).1
  · exact ⟨_, new.serviceId, new.memberId, _,
      of_decide_eq_true (List.mem_filter.mp (mem_byLoad.mp hm)).2⟩

/-- An accepted merchant's booking is placed the same way; with `override` on any
candidate. -/
theorem book_eq_ok {db db' : Db} {now : ℤ} {current : Session} {new : MerchantRequest}
    {b : Booking} (h : book db now current new = .ok (db', b)) :
    ∃ service clients clientId queue, db.service new.serviceId = some service ∧
      (∀ m ∈ queue, m ∈ candidateIds (db.candidates new.serviceId new.memberId)) ∧
      (¬ new.override = true → ∀ m ∈ queue,
        (Db.expire { db with clients := clients } now).Slot now m new.startsAt
          service.durationMinutes (bufferFor service.durationMinutes service.bufferMinutes
            db.settings.bufferPct) none) ∧
      place (Db.expire { db with clients := clients } now) db.settings service new.bookingId
        clientId new.startsAt Standing.settled .merchant new.ip (some current.userId) queue =
          .ok (db', b) := by
  simp only [book, found_bind_eq_ok, require_bind_eq_ok] at h
  obtain ⟨service, hservice, _, _, h⟩ := h
  obtain ⟨⟨db0, clientId⟩, hclient, h⟩ := bind_eq_ok.mp h
  simp only [require_bind_eq_ok] at h
  obtain ⟨_, _, hplace⟩ := h
  obtain ⟨clients, rfl⟩ := bookingClient_eq_ok hclient
  refine ⟨service, clients, clientId, _, hservice, fun m hm => ?_, fun hno m hm => ?_, hplace⟩
  · split at hm
    · exact hm
    · exact (mem_eligibleFor (mem_byLoad.mp hm)).1
  · rw [if_neg hno] at hm
    obtain ⟨_, earliest, hslot⟩ := mem_eligibleFor (mem_byLoad.mp hm)
    exact ⟨_, new.serviceId, new.memberId, earliest, hslot⟩

theorem startsAt_of_place {db db' : Db} {settings : Settings} {service : Service}
    {id clientId : ℕ} {startsAt : ℤ} {standing : Standing} {source : Source}
    {ip : Option Address} {actor : Option ℕ} {queue : List ℕ} {b : Booking}
    (h : place db settings service id clientId startsAt standing source ip actor queue =
      .ok (db', b)) : b.startsAt = startsAt := by
  obtain ⟨_, _, rfl, _⟩ := place_eq_ok h
  rfl

/-- **An online booking** expires lapsed holds, then reserves an offered time. -/
theorem bookOnline_effect {db db' : Db} {now : ℤ} {new : OnlineRequest} {b : Booking}
    (h : bookOnline db now new = .ok (db', b)) :
    b.startsAt = new.startsAt ∧
      ∃ db1, Quiet (fun _ => False) db db1 ∧ Reserves now False db1 db' b := by
  obtain ⟨service, clients, _, _, hservice, hqueue, hslot, hplace⟩ := bookOnline_eq_ok h
  refine ⟨startsAt_of_place hplace, Db.expire { db with clients := clients } now, ?_, ?_⟩
  · exact (quiet_expire _ { db with clients := clients } now).after ⟨rfl, rfl, rfl, rfl⟩ rfl
  · exact reserves_of_place hservice holdsAt_of_expire hqueue (fun _ => hslot) hplace

/-- **A merchant's booking** does the same; with `override` any time. -/
theorem book_effect {db db' : Db} {now : ℤ} {current : Session} {new : MerchantRequest}
    {b : Booking} (h : book db now current new = .ok (db', b)) :
    b.startsAt = new.startsAt ∧
      ∃ db1, Quiet (fun _ => False) db db1 ∧ Reserves now (new.override = true) db1 db' b := by
  obtain ⟨service, clients, _, _, hservice, hqueue, hslot, hplace⟩ := book_eq_ok h
  refine ⟨startsAt_of_place hplace, Db.expire { db with clients := clients } now, ?_, ?_⟩
  · exact (quiet_expire _ { db with clients := clients } now).after ⟨rfl, rfl, rfl, rfl⟩ rfl
  · exact reserves_of_place hservice holdsAt_of_expire hqueue hslot hplace

/-! ## § Moves -/

theorem moveOne_eq_written {db db' : Db} {id : ℕ} {guard : Booking → Prop}
    [DecidablePred guard] {f : Booking → Booking} {hid : ∀ b, (f b).id = b.id}
    {hservice : ∀ b, (f b).serviceId = b.serviceId}
    (h : db.moveOne id guard f hid hservice = .written db') :
    ∃ b ∈ db.bookings.rows, b.id = id ∧ guard b ∧ ¬ db.excluded (f b) ∧
      SameSetup db db' ∧ f b ∈ db'.bookings.rows ∧
      ∀ r ∈ db'.bookings.rows, r = f b ∨ (r ∈ db.bookings.rows ∧ r.id ≠ id) := by
  unfold Db.moveOne at h
  split at h
  · cases h
  · rename_i hfree
    split at h
    · rename_i db1 hone
      cases h
      obtain ⟨⟨b, hb, hbid, hguard⟩, rfl⟩ := updateOne_eq_some hone
      refine ⟨b, hb, hbid, hguard, fun hx => hfree ⟨b, hb, ⟨hbid, hguard⟩, hx⟩,
        ⟨rfl, rfl, rfl, rfl⟩, ?_, ?_⟩
      · exact Db.mem_updateBookings.mpr (Or.inl ⟨b, hb, ⟨hbid, hguard⟩, rfl⟩)
      · intro r hr
        rcases Db.mem_updateBookings.mp hr with ⟨a, ha, hp, rfl⟩ | ⟨hr, hp⟩
        · rw [db.bookings.eq_of_key ha hb (hp.1.trans hbid.symm)]
          exact Or.inl rfl
        · refine Or.inr ⟨hr, fun hrid => hp ⟨hrid, ?_⟩⟩
          rwa [db.bookings.eq_of_key hr hb (hrid.trans hbid.symm)]
    · cases h

theorem orRaise_eq_ok {moved : Moved} {e : ApiError} {db' : Db}
    (h : moved.orRaise e = .ok db') : moved = .written db' := by
  cases moved with
  | written db =>
      cases h
      rfl
  | noRow => cases h
  | overlap => cases h

/-- `b'` is the row `b` at `start`, its length, service and standing kept. -/
structure Booking.MovedTo (b b' : Booking) (start : ℤ) : Prop where
  id : b'.id = b.id
  serviceId : b'.serviceId = b.serviceId
  startsAt : b'.startsAt = start
  span : b'.endsAt - b'.startsAt = b.endsAt - b.startsAt
  status : b'.status = b.status
  expiresAt : b'.expiresAt = b.expiresAt

theorem movedTo_rescheduled (b : Booking) (new : ℤ) : b.MovedTo (b.rescheduled new) new :=
  ⟨rfl, rfl, rfl, by simp [Booking.rescheduled, Booking.at], rfl, rfl⟩

theorem movedTo_pendingMoved (b : Booking) (new : ℤ) : b.MovedTo (b.pendingMoved new) new :=
  ⟨rfl, rfl, rfl, by simp [Booking.pendingMoved, Booking.at], rfl, rfl⟩

theorem movedTo_movedBy (b : Booking) (new : ℤ) (worker : ℕ) (name : Option String) :
    b.MovedTo (b.movedBy new worker name) new :=
  ⟨rfl, rfl, rfl, by simp [Booking.movedBy, Booking.at], rfl, rfl⟩

/-- A moved booking reserves the time its worker was offered. -/
theorem reserves_of_move {db db' : Db} {now start : ℤ} {override : Prop} {id : ℕ}
    {guard : Booking → Prop} [DecidablePred guard] {f : Booking → Booking}
    {hid : ∀ b, (f b).id = b.id} {hservice : ∀ b, (f b).serviceId = b.serviceId} {row : Booking}
    (h : db.moveOne id guard f hid hservice = .written db') (hrow : row ∈ db.bookings.rows)
    (hrowId : row.id = id) (hf : row.MovedTo (f row) start)
    (hswept : ∀ r ∈ db.bookings.rows, r.status ∈ occupying → r.holdsAt now)
    (hemployed : ∃ m ∈ db.memberships.rows, m.id = (f row).workerId ∧ m.role ≠ .removed)
    (hslot : ¬ override → db.Slot now (f row).workerId start row.length (db.bufferOf row)
      (some id)) : Reserves now override db db' (f row) := by
  obtain ⟨a, ha, haid, _, _, hsetup, hnew, hothers⟩ := moveOne_eq_written h
  have ha' : a = row := db.bookings.eq_of_key ha hrow (haid.trans hrowId.symm)
  subst ha'
  have hlength : (f a).length = a.length := by rw [Booking.length, hf.span, Booking.length]
  refine ⟨hsetup, hswept, hnew, ?_, hemployed, ?_, ?_⟩
  · intro r hr
    rcases hothers r hr with hr | ⟨hr, hne⟩
    · exact Or.inl hr
    · exact Or.inr ⟨hr, fun he => hne (he.trans (hf.id.trans haid))⟩
  · intro hwhole
    rw [hf.span]
    exact hwhole a ha
  · intro hno
    refine ⟨some id, fun k hk => ?_, ?_⟩
    · cases hk
      exact hf.id.trans haid
    · have hbuffer : db.bufferOf (f a) = db.bufferOf a := by
        rw [Db.bufferOf, Db.bufferOf, hlength, hf.serviceId]
      rw [hlength, hbuffer, hf.startsAt]
      exact hslot hno

theorem candidate_named {db : Db} {service : ℕ} {m : ℕ} {w : WorkingHour}
    (h : w ∈ db.candidates service (some m)) : w.memberId = m := by
  simp only [Db.candidates, List.mem_filter, decide_eq_true_eq] at h
  exact h.2.2.2 m rfl

/-- An accepted merchant's move is of a confirmed booking, to a worker who was offered the
time; with `override` to any. -/
theorem reschedule_eq_ok {db db' : Db} {now : ℤ} {current : Session} {bookingId : ℕ}
    {change : MerchantMove} (h : reschedule db now current bookingId change = .ok db') :
    ∃ row db1, db.bookings.find bookingId = some row ∧ row.status = .confirmed ∧
      row ∈ (db.expire now).bookings.rows ∧
      (∃ m ∈ db.memberships.rows, m.id = change.memberId.getD row.workerId ∧
        m.role ≠ .removed) ∧
      (¬ change.override = true → (db.expire now).Slot now (change.memberId.getD row.workerId)
        change.startsAt row.length ((db.expire now).bufferOf row) (some bookingId)) ∧
      (db.expire now).move bookingId change.startsAt (change.memberId.getD row.workerId)
        ((db.expire now).nameOf (change.memberId.getD row.workerId)) = .written db1 ∧
      db' = db1.record ⟨bookingId, .rescheduled, change.ip, some current.userId,
        .moved row.startsAt change.startsAt⟩ := by
  simp only [reschedule, found_bind_eq_ok, require_bind_eq_ok] at h
  obtain ⟨row, hrow, user, _, _, _, hstatus, _, hhours, hservice, heligible, h⟩ := h
  obtain ⟨db1, hmove, h⟩ := bind_eq_ok.mp h
  cases h
  refine ⟨row, db1, hrow, hstatus, ?_, ?_, fun hno => ?_, orRaise_eq_ok hmove, rfl⟩
  · exact mem_expire_of_live (Table.find_eq_some.mp hrow).1 (Or.inl (by rw [hstatus]; decide))
  · obtain ⟨w, hw⟩ := List.exists_mem_of_ne_nil _ hhours
    obtain ⟨m, hm, hmid, hrole⟩ := employed_of_candidate hw
    exact ⟨m, hm, hmid.trans (candidate_named hw), hrole⟩
  · obtain ⟨service, hservice⟩ := Option.isSome_iff_exists.mp (hservice.resolve_left hno)
    obtain ⟨m, hm⟩ := List.exists_mem_of_ne_nil _ (heligible.resolve_left hno)
    obtain ⟨hcandidate, earliest, hslot⟩ := mem_eligibleFor hm
    obtain ⟨w, hw, rfl⟩ := mem_candidateIds.mp hcandidate
    rw [candidate_named hw, hservice] at hslot
    rw [Db.bufferOf_eq (service_eq_some hservice).1]
    exact ⟨_, row.serviceId, _, earliest, hslot⟩

/-- **A merchant's move** expires lapsed holds, then moves the booking to a slot
its new worker was offered, the booking itself out of the way. -/
theorem reschedule_effect {db db' : Db} {now : ℤ} {current : Session} {bookingId : ℕ}
    {change : MerchantMove} (h : reschedule db now current bookingId change = .ok db') :
    ∃ b db1, b.startsAt = change.startsAt ∧ Quiet (fun _ => False) db db1 ∧
      Reserves now (change.override = true) db1 db' b := by
  obtain ⟨row, db1, hrow, _, hrow1, hemployed, hslot, hmove, rfl⟩ := reschedule_eq_ok h
  have hmoved := movedTo_movedBy row change.startsAt (change.memberId.getD row.workerId)
    ((db.expire now).nameOf (change.memberId.getD row.workerId))
  refine ⟨_, db.expire now, hmoved.startsAt, quiet_expire _ db now, ?_⟩
  exact Reserves.extend (reserves_of_move hmove hrow1 (Table.find_eq_some.mp hrow).2 hmoved
    holdsAt_of_expire hemployed hslot) ⟨rfl, rfl, rfl, rfl⟩ rfl

theorem resolve_eq_some {db : Db} {tokenHash : ℕ} {now : ℤ} {row : Booking}
    (h : db.resolve tokenHash now = some row) :
    row ∈ db.bookings.rows ∧ now < row.startsAt ∧ row.answerable now := by
  obtain ⟨link, _, h⟩ := Option.bind_eq_some_iff.mp h
  obtain ⟨hfind, hlive⟩ := Option.filter_eq_some_iff.mp h
  exact ⟨(Table.find_eq_some.mp hfind).1, of_decide_eq_true hlive⟩

/-- A link's booking has not lapsed. -/
theorem mem_expire_of_resolve {db : Db} {tokenHash : ℕ} {now : ℤ} {row : Booking}
    (h : db.resolve tokenHash now = some row) : row ∈ (db.expire now).bookings.rows := by
  obtain ⟨hmem, _, hlive⟩ := resolve_eq_some h
  refine mem_expire_of_live hmem ?_
  rcases hlive with hconfirmed | hpending
  · exact Or.inl (by rw [hconfirmed]; decide)
  · exact Or.inr hpending.2

/-- The link's slots for one day are offered starts of the booking's worker. -/
theorem slot_of_linkSlots {db : Db} {row : Booking} {now start : ℤ}
    (h : start ∈ (linkSlots db row db.settings now now (dateAt db.settings.timezone start)
      (dateAt db.settings.timezone start)).getD []) :
    db.Slot now row.workerId start row.length (db.bufferOf row) (some row.id) := by
  unfold linkSlots at h
  cases hservice : db.service row.serviceId with
  | none => simp [hservice] at h
  | some service =>
      simp only [hservice, Option.map_some, Option.getD_some] at h
      obtain ⟨_, hopen, _⟩ := mem_slotsOf_offered.mp h
      obtain ⟨h1, h2⟩ := window_day (not_lt.mpr hopen)
      rw [h1, h2] at h
      rw [Db.bufferOf_eq (service_eq_some hservice).1]
      exact ⟨_, row.serviceId, _, _, h⟩

theorem Db.Slot.expire {db : Db} {now : ℤ} {worker : ℕ} {start duration buffer : ℤ}
    {exclude : Option ℕ} (h : db.Slot now worker start duration buffer exclude) :
    (db.expire now).Slot now worker start duration buffer exclude := by
  obtain ⟨members, service, member, earliest, h⟩ := h
  refine ⟨members, service, member, earliest, ?_⟩
  rw [offered_expire]
  exact h

/-- An accepted client's move is to a slot of the booking's own worker, within what the
policy leaves. -/
theorem linkReschedule_eq_ok {db db' : Db} {now : ℤ} {tokenHash : ℕ} {body : LinkMove}
    (h : linkReschedule db now tokenHash body = .ok db') :
    ∃ row db1, db.resolve tokenHash now = some row ∧ row ∈ (db.expire now).bookings.rows ∧
      (db.decideFor row now).canReschedule = true ∧
      (if row.status = .pending then body.seenStartsAt = some row.startsAt
        else body.rescheduleCount = row.rescheduleCount) ∧
      (db.expire now).Slot now row.workerId body.startsAt row.length (db.bufferOf row)
        (some row.id) ∧
      (if row.status = .pending then (db.expire now).pendingMove row.id body.startsAt now
        else (db.expire now).reschedule row.id body.startsAt body.rescheduleCount) =
          .written db1 ∧
      db' = db1.record ⟨row.id, .rescheduled, body.ip, none,
        .moved row.startsAt body.startsAt⟩ := by
  simp only [linkReschedule, found_bind_eq_ok, require_bind_eq_ok] at h
  obtain ⟨row, hrow, _, hallowed, hseen, hstart, h⟩ := h
  obtain ⟨db1, hmove, h⟩ := bind_eq_ok.mp h
  cases h
  exact ⟨row, db1, hrow, mem_expire_of_resolve hrow, hallowed, hseen,
    (slot_of_linkSlots hstart).expire, orRaise_eq_ok hmove, rfl⟩

/-- **A client's move**, of a confirmed booking or a request, does the same for
the booking's own worker. -/
theorem linkReschedule_effect {db db' : Db} {now : ℤ} {tokenHash : ℕ} {body : LinkMove}
    (h : linkReschedule db now tokenHash body = .ok db') :
    ∃ b db1, b.startsAt = body.startsAt ∧ Quiet (fun _ => False) db db1 ∧
      Reserves now False db1 db' b := by
  obtain ⟨row, db1, _, hrow1, _, _, hslot, hmove, rfl⟩ := linkReschedule_eq_ok h
  split at hmove
  · have hmoved := movedTo_pendingMoved row body.startsAt
    refine ⟨_, db.expire now, hmoved.startsAt, quiet_expire _ db now, ?_⟩
    exact Reserves.extend (reserves_of_move hmove hrow1 rfl hmoved holdsAt_of_expire
      hslot.employed fun _ => hslot) ⟨rfl, rfl, rfl, rfl⟩ rfl
  · have hmoved := movedTo_rescheduled row body.startsAt
    refine ⟨_, db.expire now, hmoved.startsAt, quiet_expire _ db now, ?_⟩
    exact Reserves.extend (reserves_of_move hmove hrow1 rfl hmoved holdsAt_of_expire
      hslot.employed fun _ => hslot) ⟨rfl, rfl, rfl, rfl⟩ rfl

/-! ## § Cancels and answers -/

/-- An accepted client's cancel has seen the refund it is due. -/
theorem linkCancel_eq_ok {db db' : Db} {now : ℤ} {tokenHash : ℕ} {body : LinkCancel}
    (h : linkCancel db now tokenHash body = .ok db') :
    ∃ row db1, db.resolve tokenHash now = some row ∧
      body.refundPct = (db.decideFor row now).refundPct ∧
      db.clientCancel row.id now = some db1 ∧
      db' = db1.record ⟨row.id, .cancelledByClient, body.ip, none,
        .refundPct (db.decideFor row now).refundPct⟩ := by
  simp only [linkCancel, found_bind_eq_ok, require_bind_eq_ok] at h
  obtain ⟨row, hrow, _, _, hpct, db1, hcancel, h⟩ := h
  cases h
  exact ⟨row, db1, hrow, hpct, hcancel, rfl⟩

theorem confirmConsents_eq_ok {db db' : Db} {now : ℤ} {tokenHash : ℕ} {body : LinkConsents}
    (h : confirmConsents db now tokenHash body = .ok db') :
    ∃ row, db.resolve tokenHash now = some row ∧
      db' = db.record ⟨row.id, .consentConfirmed, body.ip, none, .empty⟩ := by
  simp only [confirmConsents, found_bind_eq_ok, require_bind_eq_ok] at h
  obtain ⟨row, hrow, _, _, h⟩ := h
  cases h
  exact ⟨row, hrow, rfl⟩

theorem transition_eq_ok {db db' : Db} {now : ℤ} {current : Session} {bookingId : ℕ}
    {change : StatusChange} (h : transition db now current bookingId change = .ok db') :
    ∃ row db1, db.bookings.find bookingId = some row ∧
      db.transition bookingId change.status change.startsAt now = some db1 ∧
      db' = db1.record ⟨bookingId, .transitioned change.status.status, change.ip,
        some current.userId, .empty⟩ := by
  simp only [transition, found_bind_eq_ok, require_bind_eq_ok] at h
  obtain ⟨row, hrow, _, _, _, _, db1, htransition, h⟩ := h
  cases h
  exact ⟨row, db1, hrow, htransition, rfl⟩

/-! ## § Checkouts taken up and given up -/

theorem resume_eq_ok {db db' : Db} {now : ℤ} {bookingId old id : ℕ} {kind : PaymentKind}
    {intent : IntentId} {amount : ℤ} {currency : String}
    (h : db.resume now bookingId old id kind intent amount currency = .ok db') :
    (db.updatePayment old (fun p => p.markCanceled now)
      (fun _ => Payment.markCanceled_id ..)).insertPayment id bookingId kind intent amount
        currency = some db' := by
  simp only [Db.resume, require_bind_eq_ok, found_eq_ok] at h
  exact h.2

theorem abandon_eq_ok {db db' : Db} {now : ℤ} {bookingId : ℕ} {payment : Option ℕ}
    (h : db.abandon now bookingId payment = .ok db') :
    ∃ db1, db.expireOne bookingId = some db1 ∧ ((payment = none ∧ db' = db1) ∨
      ∃ id, payment = some id ∧ db' = db1.updatePayment id (fun p => p.markCanceled now)
        (fun _ => Payment.markCanceled_id ..)) := by
  simp only [Db.abandon, found_bind_eq_ok] at h
  obtain ⟨db1, hexpire, h⟩ := h
  cases payment with
  | none =>
      cases h
      exact ⟨db', hexpire, Or.inl ⟨rfl, rfl⟩⟩
  | some id =>
      cases h
      exact ⟨db1, hexpire, Or.inr ⟨id, rfl, rfl⟩⟩

/-! ## § Every operation -/

/-- The bookings an operation may make live again. -/
def Op.revives : Op → Booking → Prop
  | .transition _ bookingId change, b => b.id = bookingId ∧ change.status = .confirmed ∧
      (b.status = .pending ∨ b.status = .completed)
  | .reconcile row state, b => (b.id = row.bookingId ∧ b.status = .awaitingPayment) ∧
      landed state row.kind = true
  | _, _ => False

/-- The start an operation asks a time for. -/
def Op.start : Op → Option ℤ
  | .bookOnline new => some new.startsAt
  | .book _ new => some new.startsAt
  | .reschedule _ _ change => some change.startsAt
  | .linkReschedule _ body => some body.startsAt
  | _ => none

/-- The merchant's `override`: the grid is skipped. -/
def Op.overrides : Op → Bool
  | .book _ new => new.override
  | .reschedule _ _ change => change.override
  | _ => false

/-- The operations on what bookings are checked against. -/
def Op.configures : Op → Prop
  | .createTimeOff .. | .updateTimeOff .. | .deleteTimeOff .. | .removeMember .. | .rejoin ..
  | .edit _ => True
  | _ => False

/-- What one committed operation did. -/
inductive Effect (now : ℤ) (op : Op) (db db' : Db) : Prop
  | quiet : Quiet op.revives db db' → Effect now op db db'
  | reserves (b : Booking) (db1 : Db) : op.start = some b.startsAt →
      Quiet (fun _ => False) db db1 → Reserves now (op.overrides = true) db1 db' b →
      Effect now op db db'
  | configures : op.configures → db'.bookings = db.bookings → Effect now op db db'

theorem edit_bookings {db db' : Db} {edit : Edit} (h : db.edit edit = .ok db') :
    db'.bookings = db.bookings := by
  cases edit with
  | addService service => exact (Db.addService_eq_some (found_eq_ok.mp h)).bookings
  | _ =>
      cases h
      rfl

theorem insertPayment_eq_some {db db' : Db} {id bookingId : ℕ} {kind : PaymentKind}
    {intent : IntentId} {amount : ℤ} {currency : String}
    (h : db.insertPayment id bookingId kind intent amount currency = some db') :
    SameSetup db db' ∧ db'.bookings = db.bookings := by
  unfold Db.insertPayment at h
  split at h
  · split at h
    · split at h
      · cases h
      · obtain ⟨payments, _, rfl⟩ := Option.map_eq_some_iff.mp h
        exact ⟨⟨rfl, rfl, rfl, rfl⟩, rfl⟩
    · cases h
  · cases h

theorem sameSetup_refundFailed (db : Db) (bookingId : ℕ) (refund : Option ℕ)
    (overQuota : Bool) : SameSetup db (db.refundFailed bookingId refund overQuota) ∧
      (db.refundFailed bookingId refund overQuota).bookings = db.bookings := by
  unfold Db.refundFailed Db.tellRefundFailed
  split
  · rename_i db' h
    obtain ⟨_, h⟩ := Option.ite_none_left_eq_some.mp h
    cases h
    unfold Db.mailRefundFailed Db.email
    split_ifs <;> exact ⟨⟨rfl, rfl, rfl, rfl⟩, rfl⟩
  · exact ⟨SameSetup.refl db, rfl⟩

theorem quiet_writeRefund (revived : Booking → Prop) (db : Db) (now : ℤ) (row : SettleRow)
    (due : ℤ) (refundId : Option ℕ) :
    Quiet revived db (db.writeRefund now row due refundId) := by
  unfold Db.writeRefund
  simp only
  split
  · exact (quiet_giveBack revived _ row.payment.bookingId).after ⟨rfl, rfl, rfl, rfl⟩ rfl
  · exact quiet_of_bookings ⟨rfl, rfl, rfl, rfl⟩ rfl

theorem sameSetup_tellRefund (db : Db) (now : ℤ) (row : SettleRow) (due refunded : ℤ)
    (overQuota : Bool) (outcome : RefundOutcome) :
    SameSetup db (db.tellRefund now row due refunded overQuota outcome) ∧
      (db.tellRefund now row due refunded overQuota outcome).bookings = db.bookings := by
  cases outcome with
  | held => exact ⟨⟨rfl, rfl, rfl, rfl⟩, rfl⟩
  | refused =>
      have hflag : SameSetup db (db.setRefundFlag row.payment.intentId refunded now) :=
        ⟨rfl, rfl, rfl, rfl⟩
      obtain ⟨hsetup, hb⟩ := sameSetup_refundFailed
        (db.setRefundFlag row.payment.intentId refunded now) row.payment.bookingId none overQuota
      exact ⟨hflag.trans hsetup, hb⟩
  | sent =>
      simp only [Db.tellRefund, Db.email]
      split_ifs <;> exact ⟨⟨rfl, rfl, rfl, rfl⟩, rfl⟩

theorem quiet_recordRefund (revived : Booking → Prop) (db : Db) (now : ℤ) (row : SettleRow)
    (due : ℤ) (refundId : Option ℕ) (refunded : ℤ) (outcome : RefundOutcome)
    (overQuota : Bool) :
    Quiet revived db (db.recordRefund now row due refundId refunded outcome overQuota) := by
  unfold Db.recordRefund
  split
  · obtain ⟨hsetup, hb⟩ := sameSetup_tellRefund (db.writeRefund now row due refundId) now row due
      refunded overQuota outcome
    exact (quiet_writeRefund revived db now row due refundId).extend hsetup hb
  · exact quiet_of_bookings (SameSetup.refl db) rfl

theorem quiet_refundChanged (revived : Booking → Prop) (db : Db) (now : ℤ)
    (intent : IntentId) (refundId : ℕ) (failed : Bool) (refunded : ℤ) (overQuota : Bool) :
    Quiet revived db (db.refundChanged now intent refundId failed refunded overQuota) := by
  unfold Db.refundChanged
  split
  · exact quiet_of_bookings (SameSetup.refl db) rfl
  · rename_i payment _
    cases failed with
    | false => exact quiet_of_bookings ⟨rfl, rfl, rfl, rfl⟩ rfl
    | true =>
        obtain ⟨hsetup, hb⟩ := sameSetup_refundFailed db payment.bookingId (some refundId)
          overQuota
        exact quiet_of_bookings (hsetup.trans ⟨rfl, rfl, rfl, rfl⟩) hb

/-- **One operation** stays quiet, reserves one time, or configures. -/
theorem apply_effect {db db' : Db} {now : ℤ} {op : Op} (h : apply db now op = .ok db') :
    Effect now op db db' := by
  cases op with
  | bookOnline new =>
      obtain ⟨⟨_, b⟩, hbook, rfl⟩ := map_eq_ok.mp h
      obtain ⟨hstart, db1, hquiet, hres⟩ := bookOnline_effect hbook
      exact .reserves b db1 (congrArg some hstart.symm) hquiet (hres.mono False.elim)
  | book current new =>
      obtain ⟨⟨_, b⟩, hbook, rfl⟩ := map_eq_ok.mp h
      obtain ⟨hstart, db1, hquiet, hres⟩ := book_effect hbook
      exact .reserves b db1 (congrArg some hstart.symm) hquiet hres
  | reschedule current bookingId change =>
      obtain ⟨b, db1, hstart, hquiet, hres⟩ := reschedule_effect h
      exact .reserves b db1 (congrArg some hstart.symm) hquiet hres
  | linkReschedule tokenHash body =>
      obtain ⟨b, db1, hstart, hquiet, hres⟩ := linkReschedule_effect h
      exact .reserves b db1 (congrArg some hstart.symm) hquiet (hres.mono False.elim)
  | linkCancel tokenHash body =>
      obtain ⟨_, db1, _, _, hcancel, rfl⟩ := linkCancel_eq_ok h
      exact .quiet ((quiet_clientCancel hcancel).extend ⟨rfl, rfl, rfl, rfl⟩ rfl)
  | confirmConsents tokenHash body =>
      obtain ⟨_, _, rfl⟩ := confirmConsents_eq_ok h
      exact .quiet (quiet_of_bookings ⟨rfl, rfl, rfl, rfl⟩ rfl)
  | transition current bookingId change =>
      obtain ⟨_, db1, _, htransition, rfl⟩ := transition_eq_ok h
      exact .quiet ((quiet_transition htransition).extend ⟨rfl, rfl, rfl, rfl⟩ rfl)
  | sweep =>
      cases h
      exact .quiet (quiet_expire _ db now)
  | eraseClient clientId reason at_ actorUserId =>
      obtain ⟨_, h⟩ := require_bind_eq_ok.mp h
      cases h
      exact .quiet ((quiet_endForErasure _ db clientId reason at_ actorUserId now).extend
        ⟨rfl, rfl, rfl, rfl⟩ rfl)
  | insertPayment id bookingId kind intent amount currency =>
      obtain ⟨hsetup, hb⟩ := insertPayment_eq_some (found_eq_ok.mp h)
      exact .quiet (quiet_of_bookings hsetup hb)
  | giveBack bookingId =>
      cases h
      exact .quiet (quiet_giveBack _ db bookingId)
  | reconcile row state =>
      cases h
      exact .quiet quiet_reconcile
  | resume bookingId old id kind intent amount currency =>
      obtain ⟨hsetup, hb⟩ := insertPayment_eq_some (resume_eq_ok h)
      have hq : Quiet (fun _ => False) _ db' := quiet_of_bookings hsetup hb
      exact .quiet (hq.after ⟨rfl, rfl, rfl, rfl⟩ rfl)
  | abandon bookingId payment =>
      obtain ⟨db1, hexpire, hdb⟩ := abandon_eq_ok h
      have hq : Quiet (Op.revives (.abandon bookingId payment)) db db1 :=
        quiet_expireOne hexpire
      rcases hdb with ⟨_, rfl⟩ | ⟨id, _, rfl⟩
      · exact .quiet hq
      · exact .quiet (hq.extend ⟨rfl, rfl, rfl, rfl⟩ rfl)
  | writeCanceled paymentId =>
      cases h
      exact .quiet (quiet_of_bookings ⟨rfl, rfl, rfl, rfl⟩ rfl)
  | writeReleased paymentId =>
      cases h
      exact .quiet (quiet_of_bookings ⟨rfl, rfl, rfl, rfl⟩ rfl)
  | recordRefund row due refundId refunded outcome overQuota =>
      cases h
      exact .quiet (quiet_recordRefund ..)
  | refundChanged intent refundId failed refunded overQuota =>
      cases h
      exact .quiet (quiet_refundChanged ..)
  | createTimeOff current memberId new reason id =>
      obtain ⟨_, _, _, _, rfl⟩ := createTimeOff_eq_ok h
      exact .configures trivial rfl
  | updateTimeOff current id change =>
      rcases updateTimeOff_eq_ok h with rfl | ⟨_, _, _, _, _, _, rfl⟩
      · exact .configures trivial rfl
      · exact .configures trivial rfl
  | deleteTimeOff current id =>
      rw [deleteTimeOff_eq_ok h]
      exact .configures trivial rfl
  | removeMember current memberId =>
      obtain ⟨_, _, rfl⟩ := removeMember_eq_ok h
      exact .configures trivial rfl
  | rejoin memberId owner =>
      cases h
      exact .configures trivial rfl
  | edit edit => exact .configures trivial (edit_bookings h)

/-! ## § Lengths -/

theorem Quiet.whole {revived : Booking → Prop} {db db' : Db} (h : Quiet revived db db')
    (hwhole : db.Whole) : db'.Whole := by
  intro b' hb'
  obtain ⟨b, hb, hf⟩ := h.bookings b' hb'
  rw [hf.startsAt, hf.endsAt]
  exact hwhole b hb

theorem Reserves.whole_db {now : ℤ} {override : Prop} {db db' : Db} {b : Booking}
    (h : Reserves now override db db' b) (hwhole : db.Whole) : db'.Whole := by
  intro r hr
  rcases h.others r hr with rfl | ⟨hr, _⟩
  · exact h.whole hwhole
  · exact hwhole r hr

/-- Lengths stay whole minutes, whatever is done. -/
theorem whole_step {w w' : World} {e : ℤ × Op} (h : w.db.Whole) (hstep : w.step e = some w') :
    w'.db.Whole := by
  obtain ⟨_, happly | hsame⟩ := World.step_cases hstep
  · cases apply_effect happly with
    | quiet hquiet => exact hquiet.whole h
    | reserves b db1 _ hquiet hres => exact hres.whole_db (hquiet.whole h)
    | configures _ hbookings =>
        intro b hb
        rw [hbookings] at hb
        exact h b hb
  · rwa [hsame]

theorem whole_run {w w' : World} {es : List (ℤ × Op)} (hempty : w.db.bookings.rows = [])
    (hrun : w.run es = some w') : w'.db.Whole := by
  refine Runs.run_invariant' (fun _ _ _ hs hstep => whole_step hs hstep) ?_ hrun
  intro b hb
  rw [hempty] at hb
  cases hb

end Ziftbook
