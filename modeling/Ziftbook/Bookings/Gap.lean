import Ziftbook.Bookings.Effects
import Ziftbook.Foundation.Diary

/-!
# The gap between appointments

The bookings that hold time are a diary: each worker is a resource, and a
booking leaves it clear at its end and its buffer. Every operation is a run of
that diary, so two appointments of one worker never come closer than the
earlier one's buffer.
-/

namespace Ziftbook

open Foundation

/-- A booking as an entry of the diary. -/
def Db.entry (db : Db) (b : Booking) : Diary.Entry ℕ ℕ ℤ :=
  ⟨b.id, b.workerId, b.startsAt, b.endsAt + db.bufferOf b * minute⟩

/-- The diary a database keeps: the bookings in an occupying status. -/
def Db.diary (db : Db) : Set (Diary.Entry ℕ ℕ ℤ) :=
  {e | ∃ b ∈ db.bookings.rows, b.status ∈ occupying ∧ db.entry b = e}

theorem bufferOf_congr {db db' : Db} {b b' : Booking} (hservices : db'.services = db.services)
    (hpct : db'.settings = db.settings) (hlength : b'.length = b.length)
    (hservice : b'.serviceId = b.serviceId) : db'.bufferOf b' = db.bufferOf b := by
  rw [Db.bufferOf, Db.bufferOf, hservices, hpct, hlength, hservice]

/-! ## § The quiet phase -/

theorem Booking.Follows.entry_eq {revived : Prop} {db db' : Db} {b b' : Booking}
    (h : b.Follows revived b') (hsetup : SameSetup db db') : db'.entry b' = db.entry b := by
  have hbuffer : db'.bufferOf b' = db.bufferOf b :=
    bufferOf_congr hsetup.services hsetup.settings
      (by rw [Booking.length, Booking.length, h.startsAt, h.endsAt]) h.serviceId
  rw [Db.entry, Db.entry, hbuffer, h.id, h.workerId, h.startsAt, h.endsAt]

/-- A quiet phase only lets entries go. -/
theorem Quiet.diary_subset {revived : Booking → Prop} {db db' : Db}
    (h : Quiet revived db db') : db'.diary ⊆ db.diary := by
  rintro e ⟨b', hb', hocc, rfl⟩
  obtain ⟨b, hb, hf⟩ := h.bookings b' hb'
  exact ⟨b, hb, hf.occupies hocc, (hf.entry_eq h.setup).symm⟩

/-! ## § The reserving phase -/

/-- A reserved slot fits the diary. -/
theorem Reserves.fits {now : ℤ} {override : Prop} {db db' : Db} {b : Booking}
    (h : Reserves now override db db' b) (hoffered : ¬ override) (hwhole : db.Whole)
    (hzone : db.settings.timezone.Forward)
    (hroomy : Roomy db.settings.timezone (dateAt db.settings.timezone b.startsAt)) :
    Diary.Fits db.diary (db'.entry b) := by
  rintro e ⟨a, ha, hocc, rfl⟩ hkey hworker
  obtain ⟨exclude, hexclude, hslot⟩ := h.slot hoffered
  have hminutes := h.whole hwhole
  have hpos := length_pos hminutes
  have hbuffer : db'.bufferOf b = db.bufferOf b :=
    bufferOf_congr h.setup.services h.setup.settings rfl rfl
  have hrange := db.bufferOf_range b
  have happart := (hslot.facts hzone hpos hrange.1).apart hroomy hpos hrange.2 ha hworker
    (h.swept a ha hocc) (by
      intro id hid heq
      exact hkey (heq.trans (hexclude id hid).symm))
  refine happart.imp (fun hle => hle) fun hle => ?_
  have hlen := length_mul_minute hminutes
  change b.endsAt + db'.bufferOf b * minute ≤ a.startsAt
  rw [hbuffer]
  linarith

/-- Afterwards the diary holds the new entry, and of the others what it held. -/
theorem Reserves.diary_subset {now : ℤ} {override : Prop} {db db' : Db} {b : Booking}
    (h : Reserves now override db db' b) :
    db'.diary ⊆ Diary.write db.diary (db'.entry b) := by
  rintro e ⟨r, hr, hocc, rfl⟩
  rcases h.others r hr with rfl | ⟨hr, hid⟩
  · exact Or.inl rfl
  · refine Or.inr ⟨⟨r, hr, hocc, ?_⟩, hid⟩
    rw [Db.entry, Db.entry, bufferOf_congr h.setup.services h.setup.settings rfl rfl]

/-! ## § Configuring operations -/

/-- The buffer settings and the services' overrides stay fixed. -/
def Op.keepsBuffers (db : Db) : Op → Bool
  | .edit (.settings settings) => settings.bufferPct = db.settings.bufferPct
  | .edit (.updateService service) =>
      (db.services.find service.id).all fun old => service.bufferMinutes = old.bufferMinutes
  | _ => true

theorem find_updateService {db : Db} {service : Service}
    (h : ∀ old ∈ db.services.find service.id, service.bufferMinutes = old.bufferMinutes)
    (id : ℕ) : ((db.updateService service).services.find id).bind Service.bufferMinutes =
      (db.services.find id).bind Service.bufferMinutes := by
  cases hfind : db.services.find id with
  | none =>
      have hnone : (db.updateService service).services.find id = none := by
        refine Table.find_eq_none.mpr fun s hs => ?_
        rcases Db.mem_updateService.mp hs with ⟨old, hold, _, rfl⟩ | ⟨hs, _⟩
        · exact Table.find_eq_none.mp hfind old hold
        · exact Table.find_eq_none.mp hfind s hs
      rw [hnone]
  | some old =>
      obtain ⟨hold, rfl⟩ := Table.find_eq_some.mp hfind
      by_cases hid : old.id = service.id
      · have hnew : (db.updateService service).services.find old.id =
            some { service with id := old.id } :=
          Table.find_eq_some.mpr ⟨Db.mem_updateService.mpr (Or.inl ⟨old, hold, hid, rfl⟩), rfl⟩
        rw [hnew]
        exact h old (hid ▸ hfind)
      · have hsame : (db.updateService service).services.find old.id = some old :=
          Table.find_eq_some.mpr ⟨Db.mem_updateService.mpr (Or.inr ⟨hold, hid⟩), rfl⟩
        rw [hsame]

theorem find_addService {db db' : Db} {service : Service} (h : db.AddedService db' service)
    {b : Booking} (hb : b ∈ db.bookings.rows) :
    db'.services.find b.serviceId = db.services.find b.serviceId := by
  obtain ⟨s, hs, hid, hfind⟩ := db.find_service hb
  rw [hfind]
  refine Table.find_eq_some.mpr ⟨?_, hid⟩
  rw [h.services]
  exact List.mem_append_left _ hs

/-- What configures the business changes no booking's buffer. -/
theorem bufferOf_configures {db db' : Db} {now : ℤ} {op : Op} (h : apply db now op = .ok db')
    (hop : op.configures) (hkeeps : op.keepsBuffers db = true) {b : Booking}
    (hb : b ∈ db.bookings.rows) : db'.bufferOf b = db.bufferOf b := by
  cases op with
  | createTimeOff current memberId new reason id =>
      obtain ⟨_, _, _, _, rfl⟩ := createTimeOff_eq_ok h
      rfl
  | updateTimeOff current id change =>
      rcases updateTimeOff_eq_ok h with rfl | ⟨_, _, _, _, _, _, rfl⟩
      · rfl
      · rfl
  | deleteTimeOff current id =>
      rw [deleteTimeOff_eq_ok h]
      rfl
  | removeMember current memberId =>
      obtain ⟨_, _, rfl⟩ := removeMember_eq_ok h
      rfl
  | rejoin memberId owner =>
      cases h
      rfl
  | edit edit =>
      cases edit with
      | settings settings =>
          cases h
          have hpct : settings.bufferPct = db.settings.bufferPct := of_decide_eq_true hkeeps
          simp only [Db.bufferOf, hpct]
      | addService service =>
          have hadded := Db.addService_eq_some (found_eq_ok.mp h)
          rw [Db.bufferOf, Db.bufferOf, hadded.settings, find_addService hadded hb]
      | updateService service =>
          cases h
          have hbuffer : ∀ old ∈ db.services.find service.id,
              service.bufferMinutes = old.bufferMinutes := by
            simpa [Op.keepsBuffers, Option.all_eq_true] using hkeeps
          rw [Db.bufferOf, Db.bufferOf, find_updateService hbuffer]
          rfl
      | serviceWorkers workers =>
          cases h
          rfl
      | workingHours hours =>
          cases h
          rfl
      | openingHours rows =>
          cases h
          rfl
      | addLink link =>
          cases h
          rfl
  | _ => exact hop.elim

/-! ## § Runs -/

/-- No `override`, and the buffer settings stay fixed. -/
structure World.Plain (w : World) (e : ℤ × Op) : Prop where
  offered : e.2.overrides = false
  buffers : e.2.keepsBuffers w.db = true

instance (w : World) (e : ℤ × Op) : Decidable (w.Plain e) :=
  decidable_of_iff (e.2.overrides = false ∧ e.2.keepsBuffers w.db = true)
    ⟨fun h => ⟨h.1, h.2⟩, fun h => ⟨h.offered, h.buffers⟩⟩

/-- A plain step whose reads are wide enough: where it takes a time, local time
never goes back, and the days beside that time's day are at least twelve hours
long, as the longest buffer is. -/
structure World.GapStep (w : World) (e : ℤ × Op) : Prop extends w.Plain e where
  forward : ∀ start, e.2.start = some start → w.db.settings.timezone.Forward
  roomy : ∀ start, e.2.start = some start →
    Roomy w.db.settings.timezone (dateAt w.db.settings.timezone start)

/-- The business is at the diary, and lengths are whole minutes. -/
def World.Keeps (w : World) (d : Set (Diary.Entry ℕ ℕ ℤ)) : Prop :=
  w.db.diary = d ∧ w.db.Whole

/-- **Each step of the business is a run of the diary.** -/
theorem step_refines_diary {w w' : World} {d : Set (Diary.Entry ℕ ℕ ℤ)} {e : ℤ × Op}
    (h : w.Keeps d) (hok : w.GapStep e) (hstep : w.step e = some w') :
    ∃ actions d', Runs.run Diary.step d actions = some d' ∧ w'.Keeps d' := by
  obtain ⟨rfl, hwhole⟩ := h
  have hwhole' := whole_step hwhole hstep
  obtain ⟨_, happly | hsame⟩ := World.step_cases hstep
  · cases apply_effect happly with
    | quiet hquiet =>
        refine ⟨[.keep w'.db.diary], _, ?_, rfl, hwhole'⟩
        simp [Runs.run, Diary.step_keep hquiet.diary_subset]
    | reserves b db1 hstart hquiet hres =>
        have hfits := hres.fits (by simp [hok.offered]) (hquiet.whole hwhole)
          (hquiet.setup.settings ▸ hok.forward _ hstart)
          (hquiet.setup.settings ▸ hok.roomy _ hstart)
        exact ⟨_, _, Diary.run_rewrite hquiet.diary_subset hfits hres.diary_subset, rfl, hwhole'⟩
    | configures hop hbookings =>
        have hsub : w'.db.diary ⊆ w.db.diary := by
          rintro x ⟨b, hb, hocc, rfl⟩
          rw [hbookings] at hb
          refine ⟨b, hb, hocc, ?_⟩
          rw [Db.entry, Db.entry, bufferOf_configures happly hop hok.buffers hb]
        refine ⟨[.keep w'.db.diary], _, ?_, rfl, hwhole'⟩
        simp [Runs.run, Diary.step_keep hsub]
  · exact ⟨[], _, rfl, by rw [hsame], hwhole'⟩

/-- A run of such steps is a run of the diary. -/
theorem run_refines_diary {w w' : World} {es : List (ℤ × Op)} (hwhole : w.db.Whole)
    (hok : Runs.Along World.step World.GapStep w es) (hrun : w.run es = some w') :
    ∃ actions, Runs.run Diary.step w.db.diary actions = some w'.db.diary := by
  obtain ⟨actions, d, hactions, rfl, _⟩ := Runs.run_simulates
    (fun _ _ _ _ hR hok hstep => step_refines_diary hR hok hstep)
    (show w.Keeps w.db.diary from ⟨rfl, hwhole⟩) hok hrun
  exact ⟨actions, hactions⟩

/-- **No double booking, buffers included.** From no bookings, over steps the
window is wide enough for, two bookings of one worker that hold their time at
the latest clock keep the earlier one's buffer between them. -/
theorem gap_of_run {w w' : World} {es : List (ℤ × Op)} (hempty : w.db.bookings.rows = [])
    (hok : Runs.Along World.step World.GapStep w es) (hrun : w.run es = some w')
    {a b : Booking} (ha : a ∈ w'.db.bookings.rows) (hb : b ∈ w'.db.bookings.rows)
    (hne : a ≠ b) (hworker : a.workerId = b.workerId) (ha' : a.holdsAt w'.latest)
    (hb' : b.holdsAt w'.latest) (hstart : a.startsAt ≤ b.startsAt) :
    a.endsAt + bufferFor a.length ((w'.db.services.find a.serviceId).bind
      Service.bufferMinutes) w'.db.settings.bufferPct * minute ≤ b.startsAt := by
  have hwhole : w.db.Whole := by
    intro c hc
    rw [hempty] at hc
    cases hc
  have hspaced : Diary.Spaced w.db.diary := by
    rintro e ⟨c, hc, _⟩
    rw [hempty] at hc
    cases hc
  obtain ⟨actions, hactions⟩ := run_refines_diary hwhole hok hrun
  refine (Diary.spaced_run hspaced hactions).clear_le ⟨a, ha, ha'.1, rfl⟩ ⟨b, hb, hb'.1, rfl⟩
    (fun hid => hne (w'.db.bookings.eq_of_key ha hb hid)) hworker hstart ?_
  have hordered := b.ordered
  have hbuffer := mul_nonneg (w'.db.bufferOf_range b).1 (by decide : (0 : ℤ) ≤ minute)
  change b.startsAt < b.endsAt + w'.db.bufferOf b * minute
  omega

def twoAppointments : List (ℤ × Op) :=
  [(0, ownerBooks 1 (600 * minute)), (0, ownerBooks 2 (540 * minute))]

theorem gap_of_run_thursday : ∃ w, thursdayShop.run twoAppointments = some w ∧
    w.db.bookings.rows.length = 2 ∧
    ∀ a ∈ w.db.bookings.rows, ∀ b ∈ w.db.bookings.rows, a ≠ b → a.startsAt ≤ b.startsAt →
      a.endsAt + bufferFor a.length ((w.db.services.find a.serviceId).bind
        Service.bufferMinutes) w.db.settings.bufferPct * minute ≤ b.startsAt := by
  have hok : Runs.Along World.step World.GapStep thursdayShop twoAppointments := by
    have hplain : Runs.Along World.step (fun w e => w.Plain e ∧
        w.db.settings.timezone.Spaced ∧ ∀ start ∈ e.2.start, Roomy w.db.settings.timezone
          (dateAt w.db.settings.timezone start)) thursdayShop twoAppointments := by
      decide +kernel
    exact hplain.mono fun w e h => ⟨h.1, fun _ _ => h.2.1.forward, h.2.2⟩
  have hheld : ∀ w ∈ thursdayShop.run twoAppointments, w.db.bookings.rows.length = 2 ∧
      ∀ a ∈ w.db.bookings.rows, a.workerId = 1 ∧ a.holdsAt w.latest := by
    decide +kernel
  obtain ⟨w, hrun⟩ := Option.isSome_iff_exists.mp
    (by decide +kernel : (thursdayShop.run twoAppointments).isSome)
  obtain ⟨htwo, hheld⟩ := hheld w hrun
  refine ⟨w, hrun, htwo, fun a ha b hb hne hstart => ?_⟩
  exact gap_of_run rfl hok hrun ha hb hne ((hheld a ha).1.trans (hheld b hb).1.symm)
    (hheld a ha).2 (hheld b hb).2 hstart

/-! ## § Where the day before is skipped -/

/-- Thursday 23:00–23:59 and Saturday 0:00–2:00. -/
def nightHours : List Row :=
  [⟨4, 1380, 1439, morning.iso, by decide, by decide⟩,
    ⟨6, 0, 120, by decide, smallHours.ordered, smallHours.inDay⟩]

def apiaShop : World := ⟨.solo (.defaults apia) halfHour nightHours, 0⟩

/-- Thursday 23:15, then Saturday 0:00, fifteen minutes after the first ends. -/
def overTheDateLine : List (ℤ × Op) :=
  [(22085280 * minute, ownerBooks 1 (22087275 * minute)),
    (22085280 * minute, ownerBooks 2 (22087320 * minute))]

theorem gap_lost_over_skipped_day :
    Runs.Along World.step World.Plain apiaShop overTheDateLine ∧
      ∃ w, apiaShop.run overTheDateLine = some w ∧
        ∃ a ∈ w.db.bookings.rows, ∃ b ∈ w.db.bookings.rows, a ≠ b ∧ a.workerId = b.workerId ∧
          a.holdsAt w.latest ∧ b.holdsAt w.latest ∧ a.startsAt ≤ b.startsAt ∧
          b.startsAt < a.endsAt + bufferFor a.length ((w.db.services.find a.serviceId).bind
            Service.bufferMinutes) w.db.settings.bufferPct * minute := by
  refine ⟨by decide +kernel, _, (Option.some_get (by decide +kernel)).symm, ?_⟩
  decide +kernel

end Ziftbook
