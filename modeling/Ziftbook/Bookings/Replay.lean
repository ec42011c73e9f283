import Ziftbook.Bookings.History

/-!
# The log replays to the status

A dozen statements write a booking's status, and each writes its event. From the
status the booking was placed in, its events in order give the status it has; and
nothing takes a booking out of an ending.
-/

namespace Ziftbook

open Foundation

def Db.statusOf (db : Db) (bookingId : ℕ) : Option Status :=
  (db.bookings.find bookingId).map Booking.status

theorem statusOf_eq_some {db : Db} {bookingId : ℕ} {status : Status} :
    db.statusOf bookingId = some status ↔
      ∃ b ∈ db.bookings.rows, b.id = bookingId ∧ b.status = status := by
  rw [Db.statusOf, Option.map_eq_some_iff]
  constructor
  · rintro ⟨b, hfind, hstatus⟩
    obtain ⟨hb, hid⟩ := Table.find_eq_some.mp hfind
    exact ⟨b, hb, hid, hstatus⟩
  · rintro ⟨b, hb, hid, hstatus⟩
    exact ⟨b, Table.find_eq_some.mpr ⟨hb, hid⟩, hstatus⟩

/-- The status a run placed the booking in: the first it is on file with. -/
def World.opened (w : World) (es : List (ℤ × Op)) (bookingId : ℕ) : Option Status :=
  Runs.watch World.step (fun first _ _ w' => first.or (w'.db.statusOf bookingId)) none w es

/-! ## § The invariant -/

/-- The booking, placed in `first`, has the status its events tell; one not yet
placed has no event that sets a status. -/
structure Db.Replays (bookingId : ℕ) (first : Option Status) (db : Db) : Prop where
  missing : (∀ b ∈ db.bookings.rows, b.id ≠ bookingId) →
    first = none ∧ ∀ e ∈ db.events, e.bookingId = bookingId → e.Silent
  placed : ∀ b ∈ db.bookings.rows, b.id = bookingId → ∃ status, first = some status ∧
    Journal.replay (Event.turn b.autoConfirmAtBooking) status (db.logOf bookingId) = b.status

/-- The first status known stays the first. -/
theorem Db.Replays.first {bookingId : ℕ} {first : Option Status} {db : Db}
    (h : db.Replays bookingId first) : first.or (db.statusOf bookingId) = first := by
  cases first with
  | some status => rfl
  | none =>
      rw [Option.none_or]
      cases hstatus : db.statusOf bookingId with
      | none => rfl
      | some status =>
          obtain ⟨b, hb, hid, _⟩ := statusOf_eq_some.mp hstatus
          obtain ⟨_, hfirst, _⟩ := h.placed b hb hid
          cases hfirst

theorem Db.Logs.replays {bookingId : ℕ} {first : Option Status} {db db' : Db}
    {new : List Event} (h : db.Logs db' new) (hreplays : db.Replays bookingId first) :
    db'.Replays bookingId first := by
  refine ⟨fun hmissing => ?_, fun b' hb' hid => ?_⟩
  · have hbefore : ∀ b ∈ db.bookings.rows, b.id ≠ bookingId := by
      intro b hb hid
      obtain ⟨b', hb', hid'⟩ := h.kept b hb
      exact hmissing b' hb' (hid'.trans hid)
    obtain ⟨hfirst, hsilent⟩ := hreplays.missing hbefore
    refine ⟨hfirst, fun e he hof => ?_⟩
    rw [h.events] at he
    rcases List.mem_append.mp he with he | he
    · exact hsilent e he hof
    · rcases h.known e he with hs | ⟨b, hb, hid⟩
      · exact hs
      · exact absurd (hid.trans hof) (hbefore b hb)
  · obtain ⟨b, hb, htold⟩ := h.rows b' hb'
    have hbid : b.id = bookingId := htold.stays.id.symm.trans hid
    obtain ⟨status, hfirst, hreplay⟩ := hreplays.placed b hb hbid
    refine ⟨status, hfirst, ?_⟩
    rw [Db.logOf, h.events, Journal.about_append, Journal.replay_append,
      htold.stays.autoConfirmAtBooking, htold.status, hbid]
    exact congrArg (fun s => Journal.replay _ s _) hreplay

/-- An event that sets no status leaves the invariant, on the rows as they are. -/
theorem Db.Replays.record {bookingId : ℕ} {first : Option Status} {db db' : Db} {e : Event}
    (h : db.Replays bookingId first) (hevents : db'.events = db.events ++ [e])
    (hsilent : e.Silent)
    (hkept : ∀ b ∈ db.bookings.rows, b.id = bookingId →
      ∃ b' ∈ db'.bookings.rows, b'.id = bookingId)
    (hrows : ∀ b' ∈ db'.bookings.rows, b'.id = bookingId → ∃ b ∈ db.bookings.rows,
      b.id = bookingId ∧ b'.status = b.status ∧
        b'.autoConfirmAtBooking = b.autoConfirmAtBooking) : db'.Replays bookingId first := by
  refine ⟨fun hmissing => ?_, fun b' hb' hid => ?_⟩
  · have hbefore : ∀ b ∈ db.bookings.rows, b.id ≠ bookingId := by
      intro b hb hid
      obtain ⟨b', hb', hid'⟩ := hkept b hb hid
      exact hmissing b' hb' hid'
    obtain ⟨hfirst, hall⟩ := h.missing hbefore
    refine ⟨hfirst, fun e' he' hof => ?_⟩
    rw [hevents] at he'
    rcases List.mem_append.mp he' with he' | he'
    · exact hall e' he' hof
    · rwa [List.mem_singleton.mp he']
  · obtain ⟨b, hb, hbid, hstatus, hauto⟩ := hrows b' hb' hid
    obtain ⟨status, hfirst, hreplay⟩ := h.placed b hb hbid
    refine ⟨status, hfirst, ?_⟩
    have hnew : ∀ e' ∈ Journal.about Event.bookingId bookingId [e],
        Journal.Idle (Event.turn b.autoConfirmAtBooking) e' := by
      intro e' he'
      rw [List.mem_singleton.mp (Journal.mem_about.mp he').1]
      exact hsilent.idle _
    rw [Db.logOf, hevents, Journal.about_append, Journal.replay_append, hauto, hstatus,
      Journal.replay_of_idle hnew]
    exact hreplay

theorem silent_of_created {e : Event} (h : e.name = .created) : e.Silent := by
  intro auto
  rw [h]
  rfl

theorem silent_of_rescheduled {e : Event} (h : e.name = .rescheduled) : e.Silent := by
  intro auto
  rw [h]
  rfl

/-! ## § Steps -/

theorem replays_step {bookingId : ℕ} {first : Option Status} {w w' : World} {e : ℤ × Op}
    (h : w.db.Replays bookingId first) (hstep : w.step e = some w') :
    w'.db.Replays bookingId (first.or (w'.db.statusOf bookingId)) := by
  obtain ⟨_, happly | hsame⟩ := World.step_cases hstep
  · cases apply_chronicle happly with
    | logs new _ hlogs =>
        have h' := hlogs.replays h
        rwa [h'.first]
    | places db1 new b e' _ hlogs hfresh hrows hevents hname _ _ =>
        have h1 := hlogs.replays h
        have hsilent := silent_of_created hname
        have hmem : b ∈ w'.db.bookings.rows := by
          rw [hrows]
          exact List.mem_append_right _ (List.mem_singleton.mpr rfl)
        by_cases hb : b.id = bookingId
        · -- the booking placed: all the log says of it sets no status
          obtain ⟨rfl, hall⟩ := h1.missing fun r hr hid => hfresh r hr (hid.trans hb.symm)
          rw [Option.none_or, statusOf_eq_some.mpr ⟨b, hmem, hb, rfl⟩]
          refine ⟨fun hmissing => absurd hb (hmissing b hmem), fun b' hb' hid => ?_⟩
          rw [w'.db.bookings.eq_of_key hb' hmem (hid.trans hb.symm)]
          refine ⟨b.status, rfl, Journal.replay_of_idle fun e'' he'' => ?_⟩
          obtain ⟨he'', hof⟩ := Journal.mem_about.mp he''
          rw [hevents] at he''
          rcases List.mem_append.mp he'' with he'' | he''
          · exact (hall e'' he'' hof).idle _
          · rw [List.mem_singleton.mp he'']
            exact hsilent.idle _
        · have h' : w'.db.Replays bookingId first := by
            refine h1.record hevents hsilent (fun r hr hid => ⟨r, ?_, hid⟩) fun r hr hid => ?_
            · rw [hrows]
              exact List.mem_append_left _ hr
            · rw [hrows] at hr
              rcases List.mem_append.mp hr with hr | hr
              · exact ⟨r, hr, hid, rfl, rfl⟩
              · rw [List.mem_singleton.mp hr] at hid
                exact absurd hid hb
          rwa [h'.first]
    | moves db1 new b b' kind e' _ hlogs hb hmoved hmem hothers hevents hof hname =>
        have h' : w'.db.Replays bookingId first := by
          refine (hlogs.replays h).record hevents (silent_of_rescheduled hname) ?_ ?_
          · intro r hr hid
            by_cases hrb : r.id = b.id
            · exact ⟨b', hmem, hmoved.id.trans (hrb.symm.trans hid)⟩
            · exact ⟨r, (hothers r hrb).mpr hr, hid⟩
          · intro r hr hid
            by_cases hrb : r.id = b.id
            · rw [w'.db.bookings.eq_of_key hr hmem (hrb.trans hmoved.id.symm)]
              exact ⟨b, hb, hrb.symm.trans hid, hmoved.status, hmoved.autoConfirmAtBooking⟩
            · exact ⟨r, (hothers r hrb).mp hr, hid, rfl, rfl⟩
        rwa [h'.first]
  · rw [hsame, h.first]
    exact h

/-- **Endings are final.** No operation takes a booking out of one. -/
theorem ended_step {w w' : World} {e : ℤ × Op} {b : Booking} (hb : b ∈ w.db.bookings.rows)
    (hended : b.status ∈ endings) (hstep : w.step e = some w') :
    w'.db.statusOf b.id = some b.status := by
  rw [statusOf_eq_some]
  obtain ⟨_, happly | hsame⟩ := World.step_cases hstep
  · obtain ⟨b1, new, htold, b', hb', rfl | ⟨kind, _, hmoved⟩⟩ := (apply_chronicle happly).follow hb
    · exact ⟨b', hb', htold.stays.id, htold.ended hended⟩
    · exact ⟨b', hb', hmoved.id.trans htold.stays.id, hmoved.status.trans (htold.ended hended)⟩
  · rw [hsame]
    exact ⟨b, hb, rfl, rfl⟩

/-! ## § Runs -/

/-- **The log replays to the status.** In a business that began with no booking,
each booking's status is the one its events tell, in order, from the status it was
placed in; and no operation takes it out of an ending. -/
theorem log_replays {w w' : World} {es : List (ℤ × Op)} (hrows : w.db.bookings.rows = [])
    (hlog : w.db.events = []) (hrun : w.run es = some w') :
    ∀ b ∈ w'.db.bookings.rows,
      (∃ status, w.opened es b.id = some status ∧
        Journal.replay (Event.turn b.autoConfirmAtBooking) status (w'.db.logOf b.id) = b.status) ∧
      (b.status ∈ endings → ∀ e w'', w'.step e = some w'' →
        w''.db.statusOf b.id = some b.status) := by
  intro b hb
  have hstart : w.db.Replays b.id none := by
    refine ⟨fun _ => ⟨rfl, fun e he => ?_⟩, fun c hc => ?_⟩
    · rw [hlog] at he
      cases he
    · rw [hrows] at hc
      cases hc
  have hreplays : w'.db.Replays b.id (w.opened es b.id) :=
    Runs.watch_invariant (I := fun first w => w.db.Replays b.id first)
      (fun _ _ _ _ h hstep => replays_step h hstep) hstart hrun
  exact ⟨hreplays.placed b hb rfl, fun hended e w'' hstep => ended_step hb hended hstep⟩

/-- The shop of `thursdayShop`, open to clients. -/
def publishedShop : World :=
  ⟨.solo { Settings.defaults (.fixed 0) with published := true } halfHour [morning],
    0⟩

/-- The payment of the first booking, open. -/
def openPayment : Payment where
  id := 1
  bookingId := 1
  kind := .pay
  intentId := ⟨false, 1⟩
  amountMinor := 1000
  currency := "EUR"
  status := .open
  refundedMinor := 0
  refundId := none
  refundFailedAt := none
  settledAt := none
  kind_status := by decide
  setup_is_a_check := by decide
  refunded_range := by decide
  refund_needs_paid := nothing_refunded .open

/-- A client books ten o'clock and pays; the owner accepts, marks it completed,
restores it, and cancels it. -/
def paidThenCancelled : List (ℤ × Op) :=
  [(0, .bookOnline ⟨1, none, 600 * minute, "client", none, none, true, some .pay, true, none,
      1, 2⟩),
    (0, .insertPayment 1 1 .pay ⟨false, 1⟩ 1000 "EUR"),
    (minute, .reconcile openPayment ⟨false, .succeeded, some 1000, some "EUR", 0, some 0⟩),
    (2 * minute, ownerSets 1 .confirmed), (610 * minute, ownerSets 1 .completed),
    (615 * minute, ownerSets 1 .confirmed), (620 * minute, ownerSets 1 .cancelledByMerchant)]

theorem log_replays_paid : ∃ w, publishedShop.run paidThenCancelled = some w ∧
    ∃ b ∈ w.db.bookings.rows, b.status = .cancelledByMerchant ∧
      (w.db.logOf b.id).map Event.name = [.created, .paid, .transitioned .confirmed,
        .transitioned .completed, .transitioned .confirmed, .transitioned .cancelledByMerchant] ∧
      (∃ status, publishedShop.opened paidThenCancelled b.id = some status ∧
        Journal.replay (Event.turn b.autoConfirmAtBooking) status (w.db.logOf b.id) = b.status) ∧
      (b.status ∈ endings → ∀ e w', w.step e = some w' →
        w'.db.statusOf b.id = some b.status) := by
  have hfacts : ∀ w ∈ publishedShop.run paidThenCancelled, ∃ b ∈ w.db.bookings.rows,
      b.status = .cancelledByMerchant ∧
      (w.db.logOf b.id).map Event.name = [.created, .paid, .transitioned .confirmed,
          .transitioned .completed, .transitioned .confirmed,
          .transitioned .cancelledByMerchant] := by
    decide +kernel
  obtain ⟨w, hrun⟩ := Option.isSome_iff_exists.mp
    (by decide +kernel : (publishedShop.run paidThenCancelled).isSome)
  obtain ⟨b, hb, hstatus, hlog⟩ := hfacts w hrun
  exact ⟨w, hrun, b, hb, hstatus, hlog, log_replays rfl rfl hrun b hb⟩

end Ziftbook
