import Ziftbook.Bookings.Guarded

/-!
# Time off and live appointments

A new block is refused over the member's live appointments, and a new time over
the worker's blocks. Neither looks when a booking becomes live again, so the two
stay apart over the runs in which none does under a block.
-/

namespace Ziftbook

open Foundation Foundation.Intervals

/-- The booking still lies ahead, or runs: the client counts on it. -/
def Booking.ahead (b : Booking) (now : ℤ) : Prop := b.answerable now ∧ now < b.endsAt

instance (b : Booking) (now : ℤ) : Decidable (b.ahead now) :=
  inferInstanceAs (Decidable (_ ∧ _))

/-- A block of its worker overlaps the booking. -/
def Db.blocks (db : Db) (b : Booking) : Prop :=
  ∃ o ∈ db.timeOff.rows, o.memberId = b.workerId ∧
    b.meets (o.block.span db.settings.timezone).1 (o.block.span db.settings.timezone).2

instance (db : Db) (b : Booking) : Decidable (db.blocks b) :=
  inferInstanceAs (Decidable (∃ o ∈ db.timeOff.rows, _))

theorem ahead_liveness : Liveness Booking.ahead where
  standing := by
    rintro b now ⟨hconfirmed | ⟨hpending, _⟩, _⟩
    · rw [hconfirmed]
      decide
    · rw [hpending]
      decide
  unended := fun h => h.2
  mono := by
    rintro b now now' ⟨hlive, hend⟩ hle
    refine ⟨hlive.imp_right ?_, hle.trans_lt hend⟩
    rintro ⟨hpending, e, he, hlt⟩
    exact ⟨hpending, e, he, hle.trans_lt hlt⟩
  same := by
    rintro b b' now hstatus hexpires hends ⟨hlive, hend⟩
    refine ⟨?_, hends ▸ hend⟩
    simpa only [Booking.answerable, Booking.unexpired, hstatus, hexpires] using hlive

theorem blocks_settled : Settled Db.blocks := by
  intro db db' b b' hsetup hworker hstart hend
  simp only [Db.blocks, Booking.meets, hsetup.timeOff, hsetup.settings, hworker, hstart, hend]

/-! ## § A new time -/

/-- A reserved slot is clear of its worker's blocks. -/
theorem Reserves.not_blocks {now : ℤ} {override : Prop} {db db' : Db} {b : Booking}
    (h : Reserves now override db db' b) (hoffered : ¬ override) (hwhole : db.Whole)
    (hzone : db.settings.timezone.Forward) : ¬ db.blocks b := by
  obtain ⟨exclude, _, hslot⟩ := h.slot hoffered
  have hminutes := h.whole hwhole
  have hpos := length_pos hminutes
  have hlen := length_mul_minute hminutes
  rintro ⟨o, ho, hworker, hstart, hend⟩
  refine (hslot.facts hzone hpos (db.bufferOf_range b).1).clear_of_block hzone ho hworker ?_
  exact ⟨by linarith, hstart⟩

/-! ## § Blocks change -/

/-- A new or changed block that no live appointment is in the way of. -/
theorem not_meets_of_free {db : Db} {now now' : ℤ} {member : ℕ} {after : Block}
    {before : Option Block} (h : ¬ db.inTheWay now member after before) (hle : now ≤ now')
    {b : Booking} (hb : b ∈ db.bookings.rows) (hworker : b.workerId = member)
    (hahead : b.ahead now')
    (hbefore : ∀ old ∈ before, ¬ b.meets (old.span db.settings.timezone).1
      (old.span db.settings.timezone).2) :
    ¬ b.meets (after.span db.settings.timezone).1 (after.span db.settings.timezone).2 := by
  intro hmeets
  obtain ⟨hlive, hend⟩ := ahead_liveness.mono hahead hle
  have hmax := b.atMost12Hours
  refine h ⟨b, hb, hworker, hmeets, ?_, hend, hlive, ?_⟩
  · have := hmeets.2
    omega
  · intro old hold
    obtain ⟨block, hblock, rfl⟩ := Option.mem_map.mp hold
    exact hbefore block hblock

/-- The timezone stays as it is. -/
def Op.keepsZone (db : Db) : Op → Prop
  | .edit (.settings settings) => settings.timezone = db.settings.timezone
  | _ => True

/-- What configures the business puts no block over an appointment ahead. -/
theorem clear_configures {db db' : Db} {now now' : ℤ} {op : Op} (h : apply db now op = .ok db')
    (hop : op.configures) (hkeeps : op.keepsZone db) (hle : now ≤ now')
    (hclear : db.Guarded Booking.ahead Db.blocks now') :
    db'.Guarded Booking.ahead Db.blocks now' := by
  -- with no more blocks and the same zone, nothing is blocked anew
  have hfewer : ∀ db1 : Db, db1.bookings.rows = db.bookings.rows →
      db1.timeOff.rows ⊆ db.timeOff.rows → db1.settings.timezone = db.settings.timezone →
      db1.Guarded Booking.ahead Db.blocks now' := by
    rintro db1 hbookings hsub hzone b hb hahead ⟨o, ho, hworker, hmeets⟩
    rw [hbookings] at hb
    rw [hzone] at hmeets
    exact hclear b hb hahead ⟨o, hsub ho, hworker, hmeets⟩
  cases op with
  | createTimeOff current memberId new reason id =>
      obtain ⟨block, timeOff, hfree, hinsert, rfl⟩ := createTimeOff_eq_ok h
      obtain ⟨_, hrows⟩ := Table.insert_eq_some hinsert
      rintro b hb hahead ⟨o, ho, hworker, hmeets⟩
      rw [hrows, List.mem_append, List.mem_singleton] at ho
      rcases ho with ho | rfl
      · exact hclear b hb hahead ⟨o, ho, hworker, hmeets⟩
      · exact not_meets_of_free hfree hle hb hworker.symm hahead (by simp) hmeets
  | updateTimeOff current id change =>
      rcases updateTimeOff_eq_ok h with rfl | ⟨old, hold, hid, block, reason, hfree, rfl⟩
      · exact hclear
      · rintro b hb hahead ⟨o, ho, hworker, hmeets⟩
        dsimp only at ho
        rcases Table.mem_update.mp ho with ⟨t, ht, htid, rfl⟩ | ⟨ho, _⟩
        · have htold : t = old := db.timeOff.eq_of_key ht hold (htid.trans hid.symm)
          subst htold
          refine not_meets_of_free hfree hle hb hworker.symm hahead ?_ hmeets
          rintro block' hblock' hmeets'
          cases hblock'
          exact hclear b hb hahead ⟨t, ht, hworker, hmeets'⟩
        · exact hclear b hb hahead ⟨o, ho, hworker, hmeets⟩
  | deleteTimeOff current id =>
      rw [deleteTimeOff_eq_ok h]
      exact hfewer _ rfl (fun o ho => (Table.mem_delete.mp ho).1) rfl
  | removeMember current memberId =>
      obtain ⟨member, _, rfl⟩ := removeMember_eq_ok h
      exact hfewer _ rfl (fun o ho => (Table.mem_delete.mp ho).1) rfl
  | rejoin memberId owner =>
      cases h
      exact hfewer _ rfl (fun o ho => ho) rfl
  | edit edit =>
      cases edit with
      | settings settings =>
          cases h
          exact hfewer _ rfl (fun o ho => ho) hkeeps
      | addService service =>
          have hadded := Db.addService_eq_some (found_eq_ok.mp h)
          exact hfewer _ (congrArg _ hadded.bookings)
            (fun o ho => by rwa [hadded.timeOff] at ho) (congrArg _ hadded.settings)
      | updateService service =>
          cases h
          exact hfewer _ rfl (fun o ho => ho) rfl
      | serviceWorkers workers =>
          cases h
          exact hfewer _ rfl (fun o ho => ho) rfl
      | workingHours hours =>
          cases h
          exact hfewer _ rfl (fun o ho => ho) rfl
      | openingHours rows =>
          cases h
          exact hfewer _ rfl (fun o ho => ho) rfl
      | addLink link =>
          cases h
          exact hfewer _ rfl (fun o ho => ho) rfl
  | _ => exact hop.elim

/-! ## § Runs -/

/-- The steps the two checks suffice for: no `override`, a constant timezone, and
no booking made live again, by a payment or a transition to confirmed, that has
not ended and that a block of its worker overlaps. -/
structure World.CalmStep (w : World) (e : ℤ × Op) : Prop where
  offered : e.2.overrides = false
  zone : e.2.keepsZone w.db
  revived : ∀ b ∈ w.db.bookings.rows, e.2.revives b → max w.latest e.1 < b.endsAt →
    ¬ w.db.blocks b

/-- What runs of such steps keep. -/
structure World.ClearOf (zone : Zone) (w : World) : Prop where
  clear : w.db.Guarded Booking.ahead Db.blocks w.latest
  whole : w.db.Whole
  zone_eq : w.db.settings.timezone = zone

theorem keepsZone_apply {db db' : Db} {now : ℤ} {op : Op} (h : apply db now op = .ok db')
    (hkeeps : op.keepsZone db) : db'.settings.timezone = db.settings.timezone := by
  cases apply_effect h with
  | quiet hquiet => rw [hquiet.setup.settings]
  | reserves b db1 _ hquiet hres => rw [hres.setup.settings, hquiet.setup.settings]
  | configures hop _ =>
      cases op with
      | createTimeOff current memberId new reason id =>
          obtain ⟨_, _, _, _, rfl⟩ := createTimeOff_eq_ok h
          rfl
      | updateTimeOff current id change =>
          rcases updateTimeOff_eq_ok h with rfl | ⟨_, _, _, _, _, _, rfl⟩
          · rfl
          · rfl
      | deleteTimeOff current id =>
          rw [deleteTimeOff_eq_ok h]
      | removeMember current memberId =>
          obtain ⟨_, _, rfl⟩ := removeMember_eq_ok h
          rfl
      | rejoin memberId owner =>
          cases h
          rfl
      | edit edit =>
          cases edit with
          | addService service =>
              exact congrArg _ (Db.addService_eq_some (found_eq_ok.mp h)).settings
          | settings settings =>
              cases h
              exact hkeeps
          | _ =>
              cases h
              rfl
      | _ => exact hop.elim

theorem clearOf_step {zone : Zone} (hzone : zone.Forward) {w w' : World} {e : ℤ × Op}
    (h : w.ClearOf zone) (hok : w.CalmStep e) (hstep : w.step e = some w') :
    w'.ClearOf zone := by
  have hforward : w.db.settings.timezone.Forward := h.zone_eq ▸ hzone
  refine ⟨?_, whole_step h.whole hstep, ?_⟩
  · refine guarded_step ahead_liveness blocks_settled h.clear hstep hok.revived ?_ ?_
    · intro b db1 hquiet hres
      exact hres.not_blocks (by simp [hok.offered]) (hquiet.whole h.whole)
        (hquiet.setup.settings ▸ hforward)
    · intro happly hop
      exact clear_configures happly hop hok.zone (le_max_right ..)
  · obtain ⟨_, happly | hsame⟩ := World.step_cases hstep
    · exact (keepsZone_apply happly hok.zone).trans h.zone_eq
    · rw [hsame, h.zone_eq]

/-- Thursday 10:00–11:00 off, and then a booking at 9:00. -/
def offThenBooked : List (ℤ × Op) :=
  [(0, .createTimeOff owner 1 (.instants (600 * minute) (660 * minute)) none 1),
    (0, ownerBooks 1 (540 * minute))]

/-- 10:00–10:30 is booked, marked completed at 10:10 and restored at 10:20, and
the rest of the morning taken off in between. -/
def restored : List (ℤ × Op) :=
  [(0, ownerBooks 1 (600 * minute)), (610 * minute, ownerSets 1 .completed),
    (615 * minute, .createTimeOff owner 1 (.instants (615 * minute) (660 * minute)) none 1),
    (620 * minute, ownerSets 1 .confirmed)]

/-- A clock that shows Sunday 10:00 for an hour, three days early. -/
def earlySunday : Zone := ⟨-1200, [(3540, 1380), (3600, -1200)], by decide⟩

def sundayShop : World :=
  ⟨.solo (.defaults earlySunday) halfHour [⟨7, 600, 720, by decide, by decide, by decide⟩], 0⟩

/-- That hour is taken off, and then booked. -/
def bookedUnderBlock : List (ℤ × Op) :=
  [(0, .createTimeOff owner 1 (.instants (3540 * minute) (3570 * minute)) none 1),
    (0, ownerBooks 1 (3540 * minute))]

/-- A run without `override` at a constant timezone after which a block covers a
live appointment that has not ended. -/
def World.CoversLive (w : World) (es : List (ℤ × Op)) : Prop :=
  Runs.Along World.step (fun w e => e.2.overrides = false ∧ e.2.keepsZone w.db) w es ∧
    w.db.bookings.rows = [] ∧
    ∃ w', w.run es = some w' ∧ ∃ b ∈ w'.db.bookings.rows, b.ahead w'.latest ∧ w'.db.blocks b

end Ziftbook
