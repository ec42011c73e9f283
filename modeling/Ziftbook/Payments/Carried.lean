import Ziftbook.Bookings.Effects
import Ziftbook.Payments.Threads

/-!
# What an operation leaves of bookings, events and mails

Read off once for every operation: a booking in checkout stays there or expires,
unless a payment lands on it; an ending stays as it is; the events and mails of a
settled refund are written by its record alone. Operations that are not the
payment code's leave the payments as they were.
-/

namespace Ziftbook

open Foundation

/-! ## § Bookings -/

/-- `b'` is the row `b` later on; it leaves a checkout alive only by `landing`. -/
structure Booking.Carried (landing : Prop) (b b' : Booking) : Prop where
  id : b'.id = b.id
  clientId : b'.clientId = b.clientId
  awaits : b.status = .awaitingPayment →
    b'.status = .awaitingPayment ∨ b'.status = .expired ∨ landing
  ended : b.status ∈ refunding → b'.status = b.status

theorem Booking.Carried.refl (landing : Prop) (b : Booking) : b.Carried landing b :=
  ⟨rfl, rfl, Or.inl, fun _ => rfl⟩

theorem Booking.Carried.trans {landing : Prop} {b b' b'' : Booking} (h : b.Carried landing b')
    (h' : b'.Carried False b'') : b.Carried landing b'' := by
  refine ⟨h'.id.trans h.id, h'.clientId.trans h.clientId, fun hb => ?_, fun hb => ?_⟩
  · rcases h.awaits hb with ha | he | hl
    · exact (h'.awaits ha).imp_right fun h => h.imp_right False.elim
    · have hended : b'.status ∈ refunding := by rw [he]; decide
      exact Or.inr (Or.inl ((h'.ended hended).trans he))
    · exact Or.inr (Or.inr hl)
  · have heq := h.ended hb
    rw [← heq]
    exact h'.ended (heq ▸ hb)

/-! ## § Events and mails -/

/-- The events a settle run's refund writes: it went, or was refused. -/
def Event.settles (e : Event) : Prop :=
  e.name = .refunded ∨ (e.name = .refundFailed ∧ e.details = .refund none)

instance (e : Event) : Decidable e.settles := inferInstanceAs (Decidable (_ ∨ _))

/-- The mails that go with them. -/
def Mail.settles : Mail → Prop
  | .bookingExpired .. | .bookingRefundFailed _ none => True
  | .bookingRefundFailed _ (some _) => False

instance (m : Mail) : Decidable m.settles := by
  unfold Mail.settles
  split <;> infer_instance

/-- An event that settles no refund; a client's cancel says its share, and is of a
booking neither in checkout nor ended. -/
structure Db.Plain (db : Db) (e : Event) : Prop where
  settles : ¬ e.settles
  cancel : e.name = .cancelledByClient →
    (∃ pct, e.details = .refundPct pct ∧ 0 ≤ pct ∧ pct ≤ 100) ∧
      ∀ b ∈ db.bookings.rows, b.id = e.bookingId →
        b.status ≠ .awaitingPayment ∧ b.status ∉ refunding

theorem plain_of_name {db : Db} {e : Event} (hrefunded : e.name ≠ .refunded)
    (hfailed : e.name = .refundFailed → e.details ≠ .refund none)
    (hcancel : e.name ≠ .cancelledByClient) : db.Plain e :=
  ⟨fun h => h.elim hrefunded fun h => hfailed h.1 h.2, fun h => absurd h hcancel⟩

/-- The client's cancel of the booking is recorded. -/
def Db.cancelRecorded (db : Db) (bookingId : ℕ) : Prop :=
  ∃ e ∈ db.events, e.bookingId = bookingId ∧ e.name = .cancelledByClient

/-- The booking is cancelled by its client already. -/
def Db.clientCancelled (db : Db) (bookingId : ℕ) : Prop :=
  ∃ b ∈ db.bookings.rows, b.id = bookingId ∧ b.status = .cancelledByClient

/-- Bookings carried on, and events and mails only added, none settling; a client's
cancel is recorded. -/
structure Carries (landing : Booking → Prop) (db db' : Db) : Prop where
  bookings : ∀ b ∈ db.bookings.rows, ∃ b' ∈ db'.bookings.rows, b.Carried (landing b) b'
  cancelled : ∀ id, db'.clientCancelled id → db.clientCancelled id ∨ db'.cancelRecorded id
  events : ∃ new, db'.events = db.events ++ new ∧ ∀ e ∈ new, db.Plain e
  mails : ∃ new, db'.mails = db.mails ++ new ∧ ∀ m ∈ new, ¬ m.settles

/-- Nothing of the three has changed. -/
structure SameBooks (db db' : Db) : Prop where
  bookings : db'.bookings = db.bookings
  events : db'.events = db.events
  mails : db'.mails = db.mails

theorem SameBooks.carries {landing : Booking → Prop} {db db' : Db} (h : SameBooks db db') :
    Carries landing db db' := by
  refine ⟨fun b hb => ⟨b, h.bookings ▸ hb, Booking.Carried.refl _ b⟩, fun id hid => Or.inl ?_,
    ⟨[], ?_, by simp⟩, ⟨[], ?_, by simp⟩⟩
  · rwa [Db.clientCancelled, h.bookings] at hid
  · simp [h.events]
  · simp [h.mails]

theorem Carries.trans {landing : Booking → Prop} {db db' db'' : Db}
    (h : Carries landing db db') (h' : Carries (fun _ => False) db' db'')
    (hlanding : ∀ b, landing b → False) : Carries landing db db'' := by
  obtain ⟨es, hes, hplain⟩ := h.events
  obtain ⟨es', hes', hplain'⟩ := h'.events
  obtain ⟨ms, hms, hquiet⟩ := h.mails
  obtain ⟨ms', hms', hquiet'⟩ := h'.mails
  refine ⟨fun b hb => ?_, fun id hid => ?_, ⟨es ++ es', ?_, ?_⟩, ⟨ms ++ ms', ?_, ?_⟩⟩
  · obtain ⟨b', hb', hc⟩ := h.bookings b hb
    obtain ⟨b'', hb'', hc'⟩ := h'.bookings b' hb'
    exact ⟨b'', hb'', hc.trans hc'⟩
  · rcases h'.cancelled id hid with hid' | hid'
    · refine (h.cancelled id hid').imp_right ?_
      rintro ⟨e, he, hrecorded⟩
      exact ⟨e, by rw [hes']; exact List.mem_append_left _ he, hrecorded⟩
    · exact Or.inr hid'
  · rw [hes', hes, List.append_assoc]
  · intro e he
    rcases List.mem_append.mp he with he | he
    · exact hplain e he
    · refine ⟨(hplain' e he).settles, fun hname => ⟨((hplain' e he).cancel hname).1, ?_⟩⟩
      intro b hb hid
      obtain ⟨b', hb', hc⟩ := h.bookings b hb
      obtain ⟨hawaits, hended⟩ := ((hplain' e he).cancel hname).2 b' hb' (hc.id.trans hid)
      refine ⟨fun hb => ?_, fun hb => hended ((hc.ended hb) ▸ hb)⟩
      rcases hc.awaits hb with ha | he | hl
      · exact hawaits ha
      · exact hended (by rw [he]; decide)
      · exact hlanding b hl
  · rw [hms', hms, List.append_assoc]
  · intro m hm
    rcases List.mem_append.mp hm with hm | hm
    · exact hquiet m hm
    · exact hquiet' m hm

/-! ## § Statements -/

theorem carried_updateBookings {landing : Booking → Prop} {db : Db} {p : Booking → Prop}
    [DecidablePred p] {f : Booking → Booking} {hid : ∀ b, (f b).id = b.id}
    {hservice : ∀ b, (f b).serviceId = b.serviceId}
    (hf : ∀ b, p b → b.Carried (landing b) (f b)) : ∀ b ∈ db.bookings.rows,
      ∃ b' ∈ (db.updateBookings p f hid hservice).bookings.rows, b.Carried (landing b) b' := by
  intro b hb
  by_cases hp : p b
  · exact ⟨f b, Db.mem_updateBookings.mpr (Or.inl ⟨b, hb, hp, rfl⟩), hf b hp⟩
  · exact ⟨b, Db.mem_updateBookings.mpr (Or.inr ⟨hb, hp⟩), Booking.Carried.refl _ b⟩

theorem carries_updateBookings {landing : Booking → Prop} {db : Db} {p : Booking → Prop}
    [DecidablePred p] {f : Booking → Booking} {hid : ∀ b, (f b).id = b.id}
    {hservice : ∀ b, (f b).serviceId = b.serviceId}
    (hf : ∀ b, p b → b.Carried (landing b) (f b))
    (hcancel : ∀ b, p b → (f b).status = .cancelledByClient → b.status = .cancelledByClient) :
    Carries landing db (db.updateBookings p f hid hservice) := by
  refine ⟨carried_updateBookings hf, ?_, ⟨[], by simp [Db.updateBookings], by simp⟩,
    ⟨[], by simp [Db.updateBookings], by simp⟩⟩
  · rintro id ⟨b', hb', hbid, hs⟩
    rcases Db.mem_updateBookings.mp hb' with ⟨b, hb, hp, rfl⟩ | ⟨hb, _⟩
    · exact Or.inl ⟨b, hb, (hid b).symm.trans hbid, hcancel b hp hs⟩
    · exact Or.inl ⟨b', hb, hbid, hs⟩

/-- Statements that write plain events after the rows. -/
theorem Carries.record {landing : Booking → Prop} {db db' db'' : Db}
    (h : Carries landing db db') (hevents : db'.events = db.events) (new : List Event)
    (hnew : db''.events = db'.events ++ new) (hbookings : db''.bookings = db'.bookings)
    (hmails : db''.mails = db'.mails) (hplain : ∀ e ∈ new, db.Plain e) :
    Carries landing db db'' := by
  refine ⟨?_, fun id hid => ?_, ⟨new, by rw [hnew, hevents], hplain⟩, ?_⟩
  · rw [hbookings]
    exact h.bookings
  · rw [Db.clientCancelled, hbookings] at hid
    refine (h.cancelled id hid).imp_right ?_
    rintro ⟨e, he, hrecorded⟩
    exact ⟨e, by rw [hnew]; exact List.mem_append_left _ he, hrecorded⟩
  · rw [hmails]
    exact h.mails

theorem carried_withStatus {landing : Prop} {b : Booking} {status : Status}
    (h : status ∉ expiring) (hawaits : b.status = .awaitingPayment → status = .expired)
    (hended : b.status ∉ refunding) : b.Carried landing (b.withStatus status h) :=
  ⟨rfl, rfl, fun hb => Or.inr (Or.inl (hawaits hb)), fun hb => absurd hb hended⟩

theorem not_ended_of_expiring {b : Booking} (h : b.status ∈ expiring) :
    b.status ∉ refunding := by
  revert h
  cases b.status <;> decide

theorem carries_expire (db : Db) (now : ℤ) : Carries (fun _ => False) db (db.expire now) := by
  have hrows : Carries (fun _ => False) db (db.updateBookings
      (fun b => b.status ∈ expiring ∧ b.lapsed now) (fun b => b.withStatus .expired (by decide))
      (fun _ => rfl) fun _ => rfl) :=
    carries_updateBookings
      (fun b hp => carried_withStatus _ (fun _ => rfl) (not_ended_of_expiring hp.1))
      fun _ _ h => by cases h
  refine hrows.record rfl _ rfl rfl rfl ?_
  intro e he
  obtain ⟨b, _, rfl⟩ := List.mem_map.mp he
  exact plain_of_name (by simp) (by simp) (by simp)

theorem carries_expireOne {db db' : Db} {id : ℕ} (h : db.expireOne id = some db') :
    Carries (fun _ => False) db db' := by
  obtain ⟨db1, h1, rfl⟩ := Option.map_eq_some_iff.mp h
  obtain ⟨_, rfl⟩ := updateOne_eq_some h1
  have hrows : Carries (fun _ => False) db (db.updateBookings
      (fun b => b.id = id ∧ b.status = .awaitingPayment)
      (fun b => b.withStatus .expired (by decide)) (fun _ => rfl) fun _ => rfl) :=
    carries_updateBookings
      (fun b hp => carried_withStatus _ (fun _ => rfl) (by rw [hp.2]; decide))
      fun _ _ h => by cases h
  refine hrows.record rfl _ rfl rfl rfl ?_
  intro e he
  rw [List.mem_singleton.mp he]
  exact plain_of_name (by simp) (by simp) (by simp)

theorem carries_giveBack (db : Db) (id : ℕ) : Carries (fun _ => False) db (db.giveBack id) := by
  unfold Db.giveBack
  cases h : db.expireOne id with
  | none => exact SameBooks.carries ⟨rfl, rfl, rfl⟩
  | some db' => exact carries_expireOne h

theorem erasureEnding_not_client (status : Status) :
    erasureEnding status ≠ .cancelledByClient := by
  cases status <;> decide

theorem carries_endForErasure (db : Db) (clientId : ℕ) (reason : ErasureReason)
    (at_ : Option ℤ) (actor : Option ℕ) (now : ℤ) :
    Carries (fun _ => False) db (db.endForErasure clientId reason at_ actor now) := by
  have hrows : Carries (fun _ => False) db (db.updateBookings
      (fun b => b.endsForErasure clientId (at_.getD now))
      (fun b => b.withStatus (erasureEnding b.status) (erasureEnding_not_expiring _))
      (fun _ => rfl) fun _ => rfl) := by
    refine carries_updateBookings (fun b hp => carried_withStatus _ (fun hb => ?_) ?_)
      fun b _ h => absurd h (erasureEnding_not_client b.status)
    · simp [erasureEnding, hb]
    · rcases hp.2 with hc | he
      · rw [hc.1]; decide
      · exact not_ended_of_expiring he.1
  refine hrows.record rfl _ rfl rfl rfl ?_
  intro e he
  obtain ⟨b, _, rfl⟩ := List.mem_map.mp he
  refine plain_of_name ?_ ?_ ?_ <;> (simp only; split <;> simp)

theorem carries_moveOne {db db' : Db} {id : ℕ} {guard : Booking → Prop}
    [DecidablePred guard] {f : Booking → Booking} {hid : ∀ b, (f b).id = b.id}
    {hservice : ∀ b, (f b).serviceId = b.serviceId}
    (h : db.moveOne id guard f hid hservice = .written db')
    (hf : ∀ b : Booking, b.Carried False (f b)) (hs : ∀ b : Booking, (f b).status = b.status) :
    Carries (fun _ => False) db db' ∧ db'.events = db.events ∧ db'.payments = db.payments := by
  unfold Db.moveOne at h
  split at h
  · cases h
  · split at h
    · rename_i db1 hone
      cases h
      obtain ⟨_, rfl⟩ := updateOne_eq_some hone
      exact ⟨carries_updateBookings (fun b _ => hf b) fun b _ h => hs b ▸ h, rfl, rfl⟩
    · cases h

theorem carries_insertBooking {db db' : Db} {b : Booking} (h : db.insertBooking b = .ok db')
    (hs : b.status ≠ .cancelledByClient) :
    Carries (fun _ => False) db db' ∧ db'.events = db.events ∧ db'.payments = db.payments := by
  have hrows := (insertBooking_eq_ok h).2.1
  obtain ⟨_, _, _, _, rfl⟩ := insertBooking_cases h
  refine ⟨⟨fun r hr => ⟨r, ?_, Booking.Carried.refl _ r⟩, ?_, ⟨[], by simp, by simp⟩,
    ⟨[], by simp, by simp⟩⟩, rfl, rfl⟩
  · rw [hrows]
    exact List.mem_append_left _ hr
  · rintro id ⟨r, hr, hid, hrs⟩
    rw [hrows, List.mem_append, List.mem_singleton] at hr
    rcases hr with hr | rfl
    · exact Or.inl ⟨r, hr, hid, hrs⟩
    · exact absurd hrs hs

/-! ## § Operations that are not the payment code's -/

theorem decideFor_refundPct (db : Db) (b : Booking) (now : ℤ) :
    0 ≤ (db.decideFor b now).refundPct ∧ (db.decideFor b now).refundPct ≤ 100 := by
  unfold Db.decideFor decideTerms
  simp only
  split_ifs <;> simp

theorem carries_transition {db db' : Db} {id : ℕ} {target : Target} {seen : Option ℤ}
    {now : ℤ} (h : db.transition id target seen now = some db') :
    Carries (fun _ => False) db db' ∧ db'.events = db.events ∧ db'.payments = db.payments := by
  obtain ⟨_, rfl⟩ := updateOne_eq_some h
  refine ⟨carries_updateBookings (fun b hp => ?_) fun b _ h => ?_, rfl, rfl⟩
  · have hsource := hp.2.1
    refine carried_withStatus target.not_expiring (fun hb => ?_) ?_
    · rw [hb] at hsource
      revert hsource
      cases target <;> decide
    · revert hsource
      cases target <;> cases b.status <;> decide
  · revert h
    cases target <;> simp [Booking.withStatus, Target.status]

/-- A client's cancel, with its event. -/
theorem carries_clientCancel {db db1 db' : Db} {id : ℕ} {now pct : ℤ} {ip : Option Address}
    (h : db.clientCancel id now = some db1) (hpct : 0 ≤ pct ∧ pct ≤ 100)
    (hdb : db' = db1.record ⟨id, .cancelledByClient, ip, none, .refundPct pct⟩) :
    Carries (fun _ => False) db db' ∧ db'.payments = db.payments := by
  obtain ⟨⟨b, hb, hid, _, hanswerable⟩, hdb1⟩ := updateOne_eq_some h
  have hopen : ∀ c : Booking, c.answerable now →
      c.status ≠ .awaitingPayment ∧ c.status ∉ refunding := by
    rintro c (hc | ⟨hc, _⟩) <;> rw [hc] <;> decide
  have hrows : ∀ c ∈ db.bookings.rows, ∃ c' ∈ db1.bookings.rows, c.Carried False c' := by
    rw [hdb1]
    refine carried_updateBookings fun c hp => ?_
    obtain ⟨hawaits, hended⟩ := hopen c hp.2.2
    exact carried_withStatus _ (fun hc => absurd hc hawaits) hended
  have hcancelled : ∀ k, db1.clientCancelled k → db.clientCancelled k ∨ k = id := by
    rintro k ⟨c, hc, hck, hcs⟩
    rw [hdb1] at hc
    obtain ⟨a, ha, rfl⟩ := List.mem_map.mp hc
    by_cases hp : a.id = id ∧ now < a.startsAt ∧ a.answerable now
    · simp only [hp, and_self, if_true] at hck
      exact Or.inr (hck.symm.trans hp.1)
    · simp only [hp, if_false] at hck hcs
      exact Or.inl ⟨a, ha, hck, hcs⟩
  subst hdb hdb1
  refine ⟨⟨hrows, fun k hk => (hcancelled k hk).imp_right ?_, ⟨_, rfl, fun e he => ?_⟩,
    ⟨[], by simp [Db.record, Db.updateBookings], by simp⟩⟩, rfl⟩
  · rintro rfl
    exact ⟨_, List.mem_append_right _ (List.mem_singleton.mpr rfl), rfl, rfl⟩
  · rw [List.mem_singleton.mp he]
    refine ⟨by simp [Event.settles], fun _ => ⟨⟨pct, rfl, hpct⟩, fun c hc hcid => ?_⟩⟩
    rw [db.bookings.eq_of_key hc hb (hcid.trans hid.symm)]
    exact hopen b hanswerable

/-- What an operation that is not the payment code's leaves. -/
structure Aside (db db' : Db) : Prop where
  carries : Carries (fun _ => False) db db'
  payments : db'.payments = db.payments

theorem Aside.trans {db db' db'' : Db} (h : Aside db db') (h' : Aside db' db'') :
    Aside db db'' :=
  ⟨h.carries.trans h'.carries fun _ hf => hf, h'.payments.trans h.payments⟩

theorem aside_of_same {db db' : Db} (h : SameBooks db db') (hp : db'.payments = db.payments) :
    Aside db db' :=
  ⟨h.carries, hp⟩

theorem aside_expire (db : Db) (now : ℤ) : Aside db (db.expire now) :=
  ⟨carries_expire db now, rfl⟩

theorem aside_place {db db' : Db} {settings : Settings} {service : Service}
    {id clientId : ℕ} {startsAt : ℤ} {standing : Standing} {source : Source}
    {ip : Option Address} {actor : Option ℕ} {queue : List ℕ} {b : Booking}
    (h : place db settings service id clientId startsAt standing source ip actor queue =
      .ok (db', b)) (hs : standing.status ≠ .cancelledByClient) : Aside db db' := by
  obtain ⟨_, _, hb, db1, hinsert, rfl⟩ := place_eq_ok h
  obtain ⟨hcarries, hevents, hpayments⟩ := carries_insertBooking hinsert (by rw [hb]; exact hs)
  refine ⟨hcarries.record hevents _ rfl rfl rfl fun e he => ?_, hpayments⟩
  rw [List.mem_singleton.mp he]
  exact plain_of_name (by simp) (by simp) (by simp)

theorem Booking.MovedTo.carried {b b' : Booking} {start : ℤ} (h : b.MovedTo b' start)
    (hclient : b'.clientId = b.clientId) : b.Carried False b' :=
  ⟨h.id, hclient, fun hb => Or.inl (h.status.trans hb), fun _ => h.status⟩

theorem aside_move {db db1 db' : Db} {id : ℕ} {guard : Booking → Prop}
    [DecidablePred guard] {f : Booking → Booking} {hid : ∀ b, (f b).id = b.id}
    {hservice : ∀ b, (f b).serviceId = b.serviceId} {ip : Option Address}
    {actor : Option ℕ} {old new : ℤ} (h : db.moveOne id guard f hid hservice = .written db1)
    (hf : ∀ b : Booking, ∃ start, b.MovedTo (f b) start ∧ (f b).clientId = b.clientId)
    (hdb : db' = db1.record ⟨id, .rescheduled, ip, actor, .moved old new⟩) : Aside db db' := by
  obtain ⟨hcarries, hevents, hpayments⟩ := carries_moveOne h
    (fun b => by obtain ⟨_, hm, hc⟩ := hf b; exact hm.carried hc)
    fun b => by obtain ⟨_, hm, _⟩ := hf b; exact hm.status
  subst hdb
  refine ⟨hcarries.record hevents _ rfl rfl rfl fun e he => ?_, hpayments⟩
  rw [List.mem_singleton.mp he]
  exact plain_of_name (by simp) (by simp) (by simp)

theorem aside_edit {db db' : Db} {edit : Edit} (h : db.edit edit = .ok db') : Aside db db' := by
  cases edit with
  | addService service =>
      have hadd := found_eq_ok.mp h
      unfold Db.addService at hadd
      split at hadd
      · cases hadd
      · cases hadd
        exact aside_of_same ⟨rfl, rfl, rfl⟩ rfl
  | _ =>
      cases h
      exact aside_of_same ⟨rfl, rfl, rfl⟩ rfl

theorem standingFor_not_client (settings : Settings) (offer : Bool) (now : ℤ) :
    (standingFor settings offer now).status ≠ .cancelledByClient := by
  unfold standingFor
  split_ifs <;> simp [Standing.settled]

/-- **Every other operation** carries the bookings on and leaves the payments. -/
theorem aside_of_apply {db db' : Db} {now : ℤ} {op : Op} (h : apply db now op = .ok db')
    (hpays : op.pays = false) : Aside db db' := by
  cases op with
  | bookOnline new =>
      obtain ⟨⟨_, b⟩, hbook, rfl⟩ := map_eq_ok.mp h
      obtain ⟨_, clients, _, _, _, _, _, hplace⟩ := bookOnline_eq_ok hbook
      have hclients : Aside db { db with clients := clients } := aside_of_same ⟨rfl, rfl, rfl⟩ rfl
      exact hclients.trans ((aside_expire _ now).trans
        (aside_place hplace (standingFor_not_client _ _ now)))
  | book current new =>
      obtain ⟨⟨_, b⟩, hbook, rfl⟩ := map_eq_ok.mp h
      obtain ⟨_, clients, _, _, _, _, _, hplace⟩ := book_eq_ok hbook
      have hclients : Aside db { db with clients := clients } := aside_of_same ⟨rfl, rfl, rfl⟩ rfl
      exact hclients.trans ((aside_expire _ now).trans (aside_place hplace (by decide)))
  | reschedule current bookingId change =>
      obtain ⟨row, db1, _, _, _, _, _, hmove, rfl⟩ := reschedule_eq_ok h
      exact (aside_expire db now).trans
        (aside_move hmove (fun b => ⟨_, movedTo_movedBy b _ _ _, rfl⟩) rfl)
  | linkReschedule tokenHash body =>
      obtain ⟨row, db1, _, _, _, _, _, hmove, rfl⟩ := linkReschedule_eq_ok h
      refine (aside_expire db now).trans ?_
      split at hmove
      · exact aside_move hmove (fun b => ⟨_, movedTo_pendingMoved b _, rfl⟩) rfl
      · exact aside_move hmove (fun b => ⟨_, movedTo_rescheduled b _, rfl⟩) rfl
  | linkCancel tokenHash body =>
      obtain ⟨row, db1, _, _, hcancel, rfl⟩ := linkCancel_eq_ok h
      obtain ⟨hcarries, hpayments⟩ :=
        carries_clientCancel hcancel (decideFor_refundPct db row now) rfl
      exact ⟨hcarries, hpayments⟩
  | confirmConsents tokenHash body =>
      obtain ⟨_, _, rfl⟩ := confirmConsents_eq_ok h
      have hsame : Carries (fun _ => False) db db := (⟨rfl, rfl, rfl⟩ : SameBooks db db).carries
      refine ⟨hsame.record rfl _ rfl rfl rfl fun e he => ?_, rfl⟩
      rw [List.mem_singleton.mp he]
      exact plain_of_name (by simp) (by simp) (by simp)
  | transition current bookingId change =>
      obtain ⟨_, db1, _, htransition, rfl⟩ := transition_eq_ok h
      obtain ⟨hcarries, hevents, hpayments⟩ := carries_transition htransition
      refine ⟨hcarries.record hevents _ rfl rfl rfl fun e he => ?_, hpayments⟩
      rw [List.mem_singleton.mp he]
      exact plain_of_name (by simp) (by simp) (by simp)
  | sweep =>
      cases h
      exact aside_expire db now
  | eraseClient clientId reason at_ actorUserId =>
      obtain ⟨_, h⟩ := require_bind_eq_ok.mp h
      cases h
      have hended : Aside db (db.endForErasure clientId reason at_ actorUserId now) :=
        ⟨carries_endForErasure db clientId reason at_ actorUserId now, rfl⟩
      exact hended.trans (aside_of_same ⟨rfl, rfl, rfl⟩ rfl)
  | createTimeOff current memberId new reason id =>
      obtain ⟨_, _, _, _, rfl⟩ := createTimeOff_eq_ok h
      exact aside_of_same ⟨rfl, rfl, rfl⟩ rfl
  | updateTimeOff current id change =>
      rcases updateTimeOff_eq_ok h with rfl | ⟨_, _, _, _, _, _, rfl⟩
      · exact aside_of_same ⟨rfl, rfl, rfl⟩ rfl
      · exact aside_of_same ⟨rfl, rfl, rfl⟩ rfl
  | deleteTimeOff current id =>
      rw [deleteTimeOff_eq_ok h]
      exact aside_of_same ⟨rfl, rfl, rfl⟩ rfl
  | removeMember current memberId =>
      obtain ⟨_, _, rfl⟩ := removeMember_eq_ok h
      exact aside_of_same ⟨rfl, rfl, rfl⟩ rfl
  | rejoin memberId owner =>
      cases h
      exact aside_of_same ⟨rfl, rfl, rfl⟩ rfl
  | edit edit => exact aside_edit h
  | _ => exact absurd hpays (by simp [Op.pays])

end Ziftbook
