import Ziftbook.Bookings.Guarded

/-!
# Live appointments and their workers

A member is removed only without upcoming appointments, and a booking is placed
with or moved to members still here. Neither looks when a booking becomes live
again, so no removed member holds one over the runs in which none does.
-/

namespace Ziftbook

open Foundation

/-- `UPCOMING`'s clause: a live appointment, a checkout included, not over yet. -/
def Booking.upcoming (b : Booking) (now : ℤ) : Prop :=
  (b.status = .confirmed ∨ (b.status ∈ expiring ∧ b.unexpired now)) ∧ now < b.endsAt

instance (b : Booking) (now : ℤ) : Decidable (b.upcoming now) :=
  inferInstanceAs (Decidable (_ ∧ _))

/-- The booking's worker has been removed, and has not come back. -/
def Db.workerGone (db : Db) (b : Booking) : Prop :=
  ∃ m ∈ db.memberships.rows, m.id = b.workerId ∧ m.role = .removed

instance (db : Db) (b : Booking) : Decidable (db.workerGone b) :=
  inferInstanceAs (Decidable (∃ m ∈ db.memberships.rows, _))

theorem upcoming_liveness : Liveness Booking.upcoming where
  standing := by
    rintro b now ⟨hconfirmed | ⟨hexp, _⟩, _⟩
    · rw [hconfirmed]
      decide
    · revert hexp
      cases b.status <;> decide
  unended := fun h => h.2
  mono := by
    rintro b now now' ⟨hlive, hend⟩ hle
    refine ⟨hlive.imp_right ?_, hle.trans_lt hend⟩
    rintro ⟨hexp, e, he, hlt⟩
    exact ⟨hexp, e, he, hle.trans_lt hlt⟩
  same := by
    rintro b b' now hstatus hexpires hends ⟨hlive, hend⟩
    refine ⟨?_, hends ▸ hend⟩
    simpa only [Booking.unexpired, hstatus, hexpires] using hlive

theorem workerGone_settled : Settled Db.workerGone := by
  intro db db' b b' hsetup hworker _ _
  simp only [Db.workerGone, hsetup.memberships, hworker]

theorem Db.upcoming_iff {db : Db} {worker : ℕ} {now : ℤ} :
    db.upcoming worker now ↔
      ∃ b ∈ db.bookings.rows, b.workerId = worker ∧ b.upcoming now := by
  simp only [Db.upcoming, Booking.upcoming]
  constructor
  · rintro ⟨b, hb, hworker, hend, hlive⟩
    exact ⟨b, hb, hworker, hlive, hend⟩
  · rintro ⟨b, hb, hworker, hlive, hend⟩
    exact ⟨b, hb, hworker, hend, hlive⟩

/-- A time is reserved with a member still here. -/
theorem Reserves.not_workerGone {now : ℤ} {override : Prop} {db db' : Db} {b : Booking}
    (h : Reserves now override db db' b) : ¬ db.workerGone b := by
  obtain ⟨m, hm, hmid, hrole⟩ := h.employed
  rintro ⟨m', hm', hmid', hremoved⟩
  have hsame : m' = m := db.memberships.eq_of_key hm' hm (hmid'.trans hmid.symm)
  exact hrole (hsame ▸ hremoved)

/-! ## § Members change -/

/-- A removal finds the member without upcoming appointments; no other
configuration removes anyone. -/
theorem staffed_configures {db db' : Db} {now now' : ℤ} {op : Op}
    (h : apply db now op = .ok db') (hop : op.configures) (hle : now ≤ now')
    (hstaffed : db.Guarded Booking.upcoming Db.workerGone now') :
    db'.Guarded Booking.upcoming Db.workerGone now' := by
  have hsame : ∀ db1 : Db, db1.bookings = db.bookings → db1.memberships = db.memberships →
      db1.Guarded Booking.upcoming Db.workerGone now' := by
    rintro db1 hbookings hmembers b hb hup ⟨m, hm, hgone⟩
    rw [hbookings] at hb
    rw [hmembers] at hm
    exact hstaffed b hb hup ⟨m, hm, hgone⟩
  cases op with
  | createTimeOff current memberId new reason id =>
      obtain ⟨_, _, _, _, rfl⟩ := createTimeOff_eq_ok h
      exact hsame _ rfl rfl
  | updateTimeOff current id change =>
      rcases updateTimeOff_eq_ok h with rfl | ⟨_, _, _, _, _, _, rfl⟩
      · exact hstaffed
      · exact hsame _ rfl rfl
  | deleteTimeOff current id =>
      rw [deleteTimeOff_eq_ok h]
      exact hsame _ rfl rfl
  | removeMember current memberId =>
      obtain ⟨member, hfree, rfl⟩ := removeMember_eq_ok h
      rintro b hb hup ⟨m, hm, hmid, hremoved⟩
      dsimp only at hm
      rcases Table.mem_update.mp hm with ⟨old, _, hold, rfl⟩ | ⟨hm, _⟩
      · exact hfree (Db.upcoming_iff.mpr
          ⟨b, hb, hmid.symm.trans hold, upcoming_liveness.mono hup hle⟩)
      · exact hstaffed b hb hup ⟨m, hm, hmid, hremoved⟩
  | rejoin memberId owner =>
      cases h
      rintro b hb hup ⟨m, hm, hmid, hremoved⟩
      dsimp only [Db.rejoin] at hm
      rcases Table.mem_update.mp hm with ⟨old, hold, _, rfl⟩ | ⟨hm, _⟩
      · cases owner <;> cases hremoved
      · exact hstaffed b hb hup ⟨m, hm, hmid, hremoved⟩
  | edit edit =>
      cases edit with
      | addService service =>
          have hadded := Db.addService_eq_some (found_eq_ok.mp h)
          exact hsame _ hadded.bookings hadded.memberships
      | _ =>
          cases h
          exact hsame _ rfl rfl
  | _ => exact hop.elim

/-! ## § Runs -/

/-- No booking is made live again, by a payment or a transition to confirmed,
that has not ended and whose worker has been removed. -/
def World.StaffedStep (w : World) (e : ℤ × Op) : Prop :=
  ∀ b ∈ w.db.bookings.rows, e.2.revives b → max w.latest e.1 < b.endsAt → ¬ w.db.workerGone b

/-- The service of `thursdayShop` is given by a worker. -/
def staffedShop : World :=
  ⟨{ thursdayShop.db with
      memberships := ⟨[⟨1, 1, none, .owner⟩, ⟨2, 2, none, .worker⟩], by decide⟩
      serviceWorkers := [⟨1, 2⟩]
      workingHours := [⟨2, morning⟩] }, 0⟩

/-- 10:00 and 11:00 are booked, and 10:00 cancelled; the removal of the worker is
refused. -/
def cancelledThenRemoved : List (ℤ × Op) :=
  [(0, ownerBooks 1 (600 * minute)), (0, ownerBooks 2 (660 * minute)),
    (60 * minute, ownerSets 1 .cancelledByMerchant), (60 * minute, .removeMember owner 2)]

/-- 10:00–10:30 is booked, marked completed at 10:10 and restored at 10:20, and its
worker removed in between. -/
def restoredAfterRemoval : List (ℤ × Op) :=
  [(0, ownerBooks 1 (600 * minute)), (610 * minute, ownerSets 1 .completed),
    (615 * minute, .removeMember owner 2), (620 * minute, ownerSets 1 .confirmed)]

end Ziftbook
