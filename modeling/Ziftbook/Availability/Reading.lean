import Ziftbook.Availability.Offered

/-!
# What the padded reads see

`offered` reads bookings and time off over a window a day wider on each side
than the days asked about. For a start on one day, that window holds every
block that could matter, and every booking when the local days around it are
long enough for a buffer.
-/

namespace Ziftbook

open Foundation Foundation.Intervals

/-! ## § The answer of `offered` -/

theorem lookup_map_pair {β : Type*} (f : ℕ → β) (members : List ℕ) (m : ℕ) :
    (members.map fun k => (k, f k)).lookup m = if m ∈ members then some (f m) else none := by
  induction members with
  | nil => rfl
  | cons k members ih =>
      by_cases h : m = k
      · subst h
        simp
      · have h' : (m == k) = false := by simpa using h
        rw [List.map_cons, List.lookup_cons, h']
        simp [ih, h]

theorem mem_slotsOf_offered {db : Db} {now : ℤ} {members : List ℕ}
    {hours : List WorkingHour} {opening : List (ℤ × List (ℤ × ℤ))} {settings : Settings}
    {first last earliest duration buffer t : ℤ} {exclude : Option ℕ} {m : ℕ} :
    t ∈ (offered db now members hours opening settings first last earliest duration buffer
        exclude).slotsOf m ↔
      m ∈ members ∧ first ≤ last ∧
        t ∈ memberSlots (hoursOf hours m)
          (db.timeOffOf m first last settings.timezone
            (readWindow settings.timezone first last).1
            (readWindow settings.timezone first last).2)
          (((db.booked members (readWindow settings.timezone first last).1
            (readWindow settings.timezone first last).2 now exclude).filter
              fun r => r.workerId = m).map BookedRow.booked)
          opening settings.timezone first last duration buffer settings.bufferPct
          settings.slotStepMinutes earliest settings.slotStep_pos := by
  by_cases hguard : members = [] ∨ last < first
  · rw [offered, if_pos hguard]
    constructor
    · intro hmem
      cases hmem
    · rintro ⟨hm, hle, _⟩
      rcases hguard with rfl | hlt
      · cases hm
      · omega
  · rw [offered, if_neg hguard]
    simp only [Offered.slotsOf, lookup_map_pair]
    have hle : first ≤ last := by
      by_contra hlt
      exact hguard (Or.inr (by omega))
    by_cases hm : m ∈ members
    · simp [hm, hle]
    · simp [hm]

theorem mem_booked {db : Db} {members : List ℕ} {start stop now : ℤ} {exclude : Option ℕ}
    {r : BookedRow} :
    r ∈ db.booked members start stop now exclude ↔
      ∃ b ∈ db.bookings.rows, b.bookedIn members start stop now exclude ∧
        ∃ s ∈ db.services.rows, s.id = b.serviceId ∧ b.joined s = r := by
  simp only [Db.booked, List.mem_filterMap, List.mem_filter, decide_eq_true_eq,
    Option.map_eq_some_iff, Table.find_eq_some]
  constructor
  · rintro ⟨b, ⟨hb, hin⟩, s, ⟨hs, hid⟩, rfl⟩
    exact ⟨b, hb, hin, s, hs, hid, rfl⟩
  · rintro ⟨b, hb, hin, s, hs, hid, rfl⟩
    exact ⟨b, ⟨hb, hin⟩, s, ⟨hs, hid⟩, rfl⟩

/-- What `booked()` reads does not change when the lapsed holds are expired. -/
theorem booked_expire (db : Db) (members : List ℕ) (start stop now : ℤ)
    (exclude : Option ℕ) :
    (db.expire now).booked members start stop now exclude =
      db.booked members start stop now exclude := by
  have main : ∀ rows : List Booking,
      (rows.map fun b => if b.status ∈ expiring ∧ b.lapsed now then
        b.withStatus .expired (by decide) else b).filter
          (fun b => b.bookedIn members start stop now exclude) =
        rows.filter fun b => b.bookedIn members start stop now exclude := by
    intro rows
    induction rows with
    | nil => rfl
    | cons b rows ih =>
        rw [List.map_cons, List.filter_cons, List.filter_cons, ih]
        by_cases hgone : b.status ∈ expiring ∧ b.lapsed now
        · rw [if_pos hgone]
          have hbefore : ¬ b.bookedIn members start stop now exclude := by
            rintro ⟨_, _, _, _, hlive, _⟩
            rcases hlive with hlive | ⟨e, he, hlt⟩
            · exact hlive hgone.1
            · obtain ⟨e', he', hle⟩ := hgone.2
              rw [he, Option.some.injEq] at he'
              omega
          have hafter : ¬ (b.withStatus .expired (by decide)).bookedIn members start stop now
              exclude := by
            rintro ⟨_, _, _, hocc, _⟩
            exact absurd hocc (by decide : Status.expired ∉ occupying)
          simp [hbefore, hafter]
        · rw [if_neg hgone]
  simp only [Db.booked, Db.expire, Db.updateBookings, Table.update]
  rw [main]

/-- Expiry frees nothing that the read did not already take as free. -/
theorem offered_expire (db : Db) (now : ℤ) (members : List ℕ) (hours : List WorkingHour)
    (opening : List (ℤ × List (ℤ × ℤ))) (settings : Settings)
    (first last earliest duration buffer : ℤ) (exclude : Option ℕ) :
    offered (db.expire now) now members hours opening settings first last earliest duration
        buffer exclude =
      offered db now members hours opening settings first last earliest duration buffer
        exclude := by
  simp only [offered, booked_expire]
  rfl

/-! ## § One day's slots -/

theorem pieces_inDay {rows : List Row} {opening : List (ℤ × List (ℤ × ℤ))} {day : ℤ}
    {piece : ℤ × ℤ} (h : piece ∈ pieces rows opening day) :
    0 ≤ piece.1 ∧ piece.2 < dayMinutes := by
  unfold pieces at h
  split at h
  · exact dayShifts_inDay h
  · simp only [clip, List.mem_flatMap, List.mem_filterMap] at h
    obtain ⟨shift, hshift, open_, _, hpiece⟩ := h
    have hin := dayShifts_inDay hshift
    split at hpiece
    · rw [Option.some.injEq] at hpiece
      rw [← hpiece]
      exact ⟨hin.1.trans (le_max_left ..), lt_of_le_of_lt (min_le_left ..) hin.2⟩
    · cases hpiece

theorem exists_row_of_pieces {rows : List Row} {opening : List (ℤ × List (ℤ × ℤ))}
    {day : ℤ} {piece : ℤ × ℤ} (h : piece ∈ pieces rows opening day) : rows ≠ [] := by
  rintro rfl
  have hnil : dayShifts [] (isoweekday day) = [] := rfl
  unfold pieces at h
  rw [hnil] at h
  split at h <;> simp [clip] at h

/-- The appointment of a start lies in its local day. -/
theorem OnPiece.inDay {zone : Zone} (hzone : zone.Forward) {day duration step : ℤ}
    {piece : ℤ × ℤ} {t : ℤ} (hduration : 0 < duration)
    (hpiece : 0 ≤ piece.1 ∧ piece.2 < dayMinutes)
    (h : OnPiece zone day duration step piece t) :
    toUtc zone day 0 ≤ t ∧ t + duration * minute ≤ toUtc zone (day + 1) 0 := by
  have hlen : t < t + duration * minute := by rw [minute]; omega
  have hin := (Set.Ico_subset_Ico_iff hlen).mp h.inside
  have hlow : toUtc zone day 0 ≤ toUtc zone day piece.1 := toUtc_mono hzone (by omega)
  have hhigh : toUtc zone day piece.2 ≤ toUtc zone (day + 1) 0 :=
    toUtc_mono hzone (by rw [dayMinutes] at *; omega)
  exact ⟨hlow.trans hin.1, hin.2.trans hhigh⟩

/-- A start that some write found offered, on the local date it asked about. -/
def Db.Slot (db : Db) (now : ℤ) (worker : ℕ) (start duration buffer : ℤ)
    (exclude : Option ℕ) : Prop :=
  ∃ (members : List ℕ) (service : ℕ) (member : Option ℕ) (earliest : ℤ),
    start ∈ (offered db now members (db.candidates service member)
      (byWeekday db.openingHours) db.settings (dateAt db.settings.timezone start)
      (dateAt db.settings.timezone start) earliest duration buffer exclude).slotsOf worker

/-- The local days before and after have room for the longest buffer. -/
def Roomy (zone : Zone) (day : ℤ) : Prop :=
  toUtc zone (day - 1) 0 + 720 * minute ≤ toUtc zone day 0 ∧
    toUtc zone (day + 1) 0 + 720 * minute ≤ toUtc zone (day + 2) 0

instance (zone : Zone) (day : ℤ) : Decidable (Roomy zone day) :=
  inferInstanceAs (Decidable (_ ∧ _))

/-- The member's blocks that a read for one day takes in. -/
def Db.offOn (db : Db) (worker : ℕ) (day : ℤ) : List (ℤ × ℤ) :=
  let zone := db.settings.timezone
  db.timeOffOf worker day day zone (readWindow zone day day).1 (readWindow zone day day).2

/-- The member's bookings that a read for one day takes in. -/
def Db.busyOn (db : Db) (now : ℤ) (members : List ℕ) (worker : ℕ) (day : ℤ)
    (exclude : Option ℕ) : List Booked :=
  let zone := db.settings.timezone
  ((db.booked members (readWindow zone day day).1 (readWindow zone day day).2 now
    exclude).filter fun r => r.workerId = worker).map BookedRow.booked

/-- What a slot's day and reads come to. -/
structure SlotFacts (db : Db) (now : ℤ) (worker : ℕ) (start duration buffer : ℤ)
    (exclude : Option ℕ) : Prop where
  inDay : toUtc db.settings.timezone (dateAt db.settings.timezone start) 0 ≤ start ∧
    start + duration * minute ≤
      toUtc db.settings.timezone (dateAt db.settings.timezone start + 1) 0
  free : ∃ members, worker ∈ members ∧ ∃ earliest,
    Free (db.offOn worker (dateAt db.settings.timezone start))
      (db.busyOn now members worker (dateAt db.settings.timezone start) exclude)
      duration buffer db.settings.bufferPct earliest start

theorem span_forward {zone : Zone} (hzone : zone.Forward) (block : Block) :
    (block.span zone).1 ≤ (block.span zone).2 := by
  cases block with
  | instants s e h _ => exact h.le
  | days first last h _ => exact toUtc_mono hzone (by rw [dayMinutes]; omega)

theorem timeOffOf_forward {db : Db} {zone : Zone} (hzone : zone.Forward) {m : ℕ}
    {first last start stop : ℤ} : ∀ x ∈ db.timeOffOf m first last zone start stop,
    x.1 ≤ x.2 := by
  intro x hx
  obtain ⟨t, _, rfl⟩ := List.mem_map.mp hx
  exact span_forward hzone t.block

/-- A slot's worker is still a member. -/
theorem Db.Slot.employed {db : Db} {now : ℤ} {worker : ℕ} {start duration buffer : ℤ}
    {exclude : Option ℕ} (h : db.Slot now worker start duration buffer exclude) :
    ∃ m ∈ db.memberships.rows, m.id = worker ∧ m.role ≠ .removed := by
  obtain ⟨members, service, member, earliest, hmem⟩ := h
  obtain ⟨_, _, hslot⟩ := mem_slotsOf_offered.mp hmem
  -- a slot lies in a piece, a piece comes from a row of hours, and those are of
  -- members still here
  simp only [memberSlots, List.mem_flatMap] at hslot
  obtain ⟨day, _, piece, hpiece, _⟩ := hslot
  obtain ⟨row, hrow⟩ := List.exists_mem_of_ne_nil _ (exists_row_of_pieces hpiece)
  simp only [hoursOf, List.mem_map, List.mem_filter, decide_eq_true_eq] at hrow
  obtain ⟨w, ⟨hw, rfl⟩, _⟩ := hrow
  simp only [Db.candidates, List.mem_filter, decide_eq_true_eq] at hw
  exact hw.2.2.1

theorem Db.Slot.facts {db : Db} {now : ℤ} {worker : ℕ} {start duration buffer : ℤ}
    {exclude : Option ℕ} (h : db.Slot now worker start duration buffer exclude)
    (hzone : db.settings.timezone.Forward) (hduration : 0 < duration)
    (hbuffer : 0 ≤ buffer) : SlotFacts db now worker start duration buffer exclude := by
  obtain ⟨members, service, member, earliest, hmem⟩ := h
  obtain ⟨hm, _, hslot⟩ := mem_slotsOf_offered.mp hmem
  obtain ⟨⟨day, ⟨hfirst, hlast⟩, piece, hpiece, hon⟩, hfree⟩ :=
    (mem_memberSlots hzone (timeOffOf_forward hzone) hduration hbuffer
      db.settings.bufferPct_range.1 db.settings.slotStep_pos).mp hslot
  have hday : day = dateAt db.settings.timezone start := le_antisymm hlast hfirst
  subst hday
  exact ⟨hon.inDay hzone hduration (pieces_inDay hpiece), members, hm, earliest, hfree⟩

/-! ## § Time off and the window -/

/-- A block that meets an appointment on one of the days is one the read takes in. -/
theorem Block.near_of_meets {zone : Zone} (hzone : zone.Forward) {block : Block}
    {first last a b : ℤ} (hlow : toUtc zone first 0 ≤ a) (hhigh : b ≤ toUtc zone (last + 1) 0)
    (h : Meets (block.span zone) a b) :
    block.near first last (readWindow zone first last).1 (readWindow zone first last).2 := by
  have hbefore : toUtc zone (first - 1) 0 ≤ toUtc zone first 0 :=
    toUtc_mono hzone (by rw [dayMinutes]; omega)
  have hafter : toUtc zone (last + 1) 0 ≤ toUtc zone (last + 2) 0 :=
    toUtc_mono hzone (by rw [dayMinutes]; omega)
  obtain ⟨hs, he⟩ := h
  cases block with
  | instants s e hordered hlength =>
      simp only [Block.span] at hs he
      change s < toUtc zone (last + 2) 0 ∧ toUtc zone (first - 1) 0 < e ∧
        toUtc zone (first - 1) 0 - 366 * (dayMinutes * minute) < s
      omega
  | days firstDay lastDay hordered hlength =>
      simp only [Block.span, daySpan] at hs he
      show firstDay ≤ last ∧ first ≤ lastDay ∧ first - 366 < firstDay
      have hfirst : firstDay < last + 1 := by
        by_contra hge
        have : toUtc zone (last + 1) 0 ≤ toUtc zone firstDay 0 :=
          toUtc_mono hzone (by rw [dayMinutes]; omega)
        omega
      have hlast : first < lastDay + 1 := by
        by_contra hge
        have : toUtc zone (lastDay + 1) 0 ≤ toUtc zone first 0 :=
          toUtc_mono hzone (by rw [dayMinutes]; omega)
        omega
      omega

/-- **A slot is clear of every block of its member.** -/
theorem SlotFacts.clear_of_block {db : Db} {now : ℤ} {worker : ℕ}
    {start duration buffer : ℤ} {exclude : Option ℕ}
    (h : SlotFacts db now worker start duration buffer exclude)
    (hzone : db.settings.timezone.Forward) {o : TimeOff}
    (ho : o ∈ db.timeOff.rows) (hworker : o.memberId = worker) :
    ¬ Meets (o.block.span db.settings.timezone) start (start + duration * minute) := by
  intro hmeets
  obtain ⟨members, _, earliest, hfree⟩ := h.free
  obtain ⟨hlow, hhigh⟩ := h.inDay
  refine hfree.working (o.block.span db.settings.timezone) ?_ hmeets
  refine List.mem_map.mpr ⟨o, List.mem_filter.mpr ⟨ho, ?_⟩, rfl⟩
  rw [decide_eq_true_eq]
  exact ⟨hworker, Block.near_of_meets hzone hlow hhigh hmeets⟩

/-! ## § Bookings and the window -/

/-- A booking that holds its time at `now`: occupying, and not lapsed. -/
def Booking.holdsAt (b : Booking) (now : ℤ) : Prop :=
  b.status ∈ occupying ∧ (b.status ∉ expiring ∨ b.unexpired now)

instance (b : Booking) (now : ℤ) : Decidable (b.holdsAt now) :=
  inferInstanceAs (Decidable (_ ∧ _))

/-- `buffer_for` of a booking: its service's own buffer, or its length's share. -/
def Db.bufferOf (db : Db) (b : Booking) : ℤ :=
  bufferFor b.length ((db.services.find b.serviceId).bind Service.bufferMinutes)
    db.settings.bufferPct

theorem Db.bufferOf_eq {db : Db} {b : Booking} {s : Service}
    (h : db.services.find b.serviceId = some s) :
    db.bufferOf b = bufferFor b.length s.bufferMinutes db.settings.bufferPct := by
  rw [Db.bufferOf, h]
  rfl

theorem Db.find_service (db : Db) {b : Booking} (hb : b ∈ db.bookings.rows) :
    ∃ s ∈ db.services.rows, s.id = b.serviceId ∧ db.services.find b.serviceId = some s := by
  obtain ⟨s, hs, hid⟩ := db.booked_service b hb
  exact ⟨s, hs, hid, Table.find_eq_some.mpr ⟨hs, hid⟩⟩

theorem Booking.length_range (b : Booking) : 0 ≤ b.length ∧ b.length ≤ 720 := by
  have h1 := b.ordered
  have h2 := b.atMost12Hours
  simp only [Booking.length, longestBooking, minute] at *
  omega

/-- Lengths are whole minutes. -/
def Db.Whole (db : Db) : Prop := ∀ b ∈ db.bookings.rows, minute ∣ b.endsAt - b.startsAt

instance (db : Db) : Decidable db.Whole := inferInstanceAs (Decidable (∀ b ∈ _, _))

theorem length_mul_minute {b : Booking} (h : minute ∣ b.endsAt - b.startsAt) :
    b.length * minute = b.endsAt - b.startsAt :=
  Int.ediv_mul_cancel h

theorem length_pos {b : Booking} (h : minute ∣ b.endsAt - b.startsAt) : 0 < b.length := by
  have heq := length_mul_minute h
  have hlt := b.ordered
  rw [minute] at heq
  omega

theorem Db.bufferOf_range (db : Db) (b : Booking) :
    0 ≤ db.bufferOf b ∧ db.bufferOf b ≤ 720 := by
  have hoverride : ∀ m ∈ (db.services.find b.serviceId).bind Service.bufferMinutes,
      0 ≤ m ∧ m ≤ 240 := by
    intro m hm
    obtain ⟨s, _, hs⟩ := Option.bind_eq_some_iff.mp hm
    exact s.buffer m hs
  have hlen := b.length_range
  exact ⟨bufferFor_nonneg hlen.1 db.settings.bufferPct_range.1 fun m hm => (hoverride m hm).1,
    bufferFor_le hlen.1 hlen.2 db.settings.bufferPct_range.2 fun m hm => (hoverride m hm).2⟩

/-- A booking of the member that meets the read's window is read, with its buffer. -/
theorem Db.exists_mem_busyOn {db : Db} {now : ℤ} {members : List ℕ} {worker : ℕ} {day : ℤ}
    {exclude : Option ℕ} {b : Booking} (hmember : worker ∈ members)
    (hb : b ∈ db.bookings.rows) (hworker : b.workerId = worker) (hholds : b.holdsAt now)
    (hexclude : ∀ id ∈ exclude, b.id ≠ id)
    (hstart : b.startsAt < toUtc db.settings.timezone (day + 2) 0)
    (hend : toUtc db.settings.timezone (day - 1) 0 < b.endsAt) :
    ∃ r ∈ db.busyOn now members worker day exclude, r.startsAt = b.startsAt ∧
      r.endsAt = b.endsAt ∧ bufferFor ((r.endsAt - r.startsAt) / minute) r.override
        db.settings.bufferPct = db.bufferOf b := by
  obtain ⟨s, hs, hid, hfind⟩ := db.find_service hb
  have hmax := b.atMost12Hours
  refine ⟨(b.joined s).booked, ?_, rfl, rfl, ?_⟩
  · refine List.mem_map.mpr ⟨b.joined s, List.mem_filter.mpr ⟨?_, decide_eq_true hworker⟩, rfl⟩
    refine mem_booked.mpr ⟨b, hb, ?_, s, hs, hid, rfl⟩
    refine ⟨hworker ▸ hmember, ⟨hstart, hend⟩, ?_, hholds.1, hholds.2, hexclude⟩
    change toUtc db.settings.timezone (day - 1) 0 - dayMinutes * minute < b.startsAt
    simp only [longestBooking, dayMinutes, minute] at *
    omega
  · rw [Db.bufferOf_eq hfind]
    rfl

/-- A slot's appointment meets no booking of its worker. -/
theorem SlotFacts.disjoint {db : Db} {now : ℤ} {worker : ℕ} {start duration buffer : ℤ}
    {exclude : Option ℕ} (h : SlotFacts db now worker start duration buffer exclude)
    (hzone : db.settings.timezone.Forward) {b : Booking} (hb : b ∈ db.bookings.rows)
    (hworker : b.workerId = worker) (hholds : b.holdsAt now)
    (hexclude : ∀ id ∈ exclude, b.id ≠ id) :
    ¬ b.meets start (start + duration * minute) := by
  rintro ⟨hstart, hend⟩
  obtain ⟨members, hmember, earliest, hfree⟩ := h.free
  obtain ⟨hlow, hhigh⟩ := h.inDay
  set zone := db.settings.timezone
  set day := dateAt zone start
  have hbefore : toUtc zone (day - 1) 0 ≤ toUtc zone day 0 :=
    toUtc_mono hzone (by rw [dayMinutes]; omega)
  have hafter : toUtc zone (day + 1) 0 ≤ toUtc zone (day + 2) 0 :=
    toUtc_mono hzone (by rw [dayMinutes]; omega)
  have htail : 0 ≤ db.bufferOf b * minute :=
    mul_nonneg (db.bufferOf_range b).1 (by decide)
  obtain ⟨r, hr, hrstart, hrend, hrtail⟩ := Db.exists_mem_busyOn hmember hb hworker hholds
    hexclude (show b.startsAt < toUtc zone (day + 2) 0 by omega)
    (show toUtc zone (day - 1) 0 < b.endsAt by omega)
  refine hfree.after r hr ?_
  rw [hrtail]
  simp only [Meets]
  omega

/-- **A slot keeps its gap to every booking of its worker**, in both directions:
the booking's buffer before the slot, the slot's own before the booking. -/
theorem SlotFacts.apart {db : Db} {now : ℤ} {worker : ℕ} {start duration buffer : ℤ}
    {exclude : Option ℕ} (h : SlotFacts db now worker start duration buffer exclude)
    (hroomy : Roomy db.settings.timezone (dateAt db.settings.timezone start))
    (hduration : 0 < duration) (hbuffer : buffer ≤ 720)
    {b : Booking} (hb : b ∈ db.bookings.rows) (hworker : b.workerId = worker)
    (hholds : b.holdsAt now) (hexclude : ∀ id ∈ exclude, b.id ≠ id) :
    b.endsAt + db.bufferOf b * minute ≤ start ∨
      start + (duration + buffer) * minute ≤ b.startsAt := by
  obtain ⟨members, hmember, earliest, hfree⟩ := h.free
  obtain ⟨hlow, hhigh⟩ := h.inDay
  obtain ⟨hbefore, hafter⟩ := hroomy
  set zone := db.settings.timezone
  set day := dateAt zone start
  have hordered := b.ordered
  have hmax := b.atMost12Hours
  have htail0 : 0 ≤ db.bufferOf b * minute :=
    mul_nonneg (db.bufferOf_range b).1 (by decide)
  have htail : db.bufferOf b * minute ≤ 720 * minute :=
    mul_le_mul_of_nonneg_right (db.bufferOf_range b).2 (by decide)
  by_contra hclash
  rw [not_or, not_le, not_le] at hclash
  -- otherwise the booking is one the window holds
  have hlonger : (duration + buffer) * minute ≤ duration * minute + 720 * minute := by
    simp only [minute]; omega
  obtain ⟨r, hr, hrstart, hrend, hrtail⟩ := Db.exists_mem_busyOn hmember hb hworker hholds
    hexclude (show b.startsAt < toUtc zone (day + 2) 0 by omega)
    (show toUtc zone (day - 1) 0 < b.endsAt by omega)
  have hnotAfter := hfree.after r hr
  have hnotBefore := hfree.before r hr
  rw [hrtail] at hnotAfter
  simp only [Meets] at hnotAfter hnotBefore
  have hlen : 0 < duration * minute := by rw [minute]; omega
  omega

end Ziftbook
