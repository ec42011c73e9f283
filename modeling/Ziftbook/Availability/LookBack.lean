import Ziftbook.Availability.Reading

/-!
# Bounded look-backs

`BOOKED`, `TIME_OFF`, `RANGE` and `IN_THE_WAY` test an overlap by a window of start
times. What the same conditions select without the window is defined beside them: the
tables' CHECKs make the answers the same, where the clock never changes twice within two
hours.
-/

namespace Ziftbook

open Foundation.Intervals

/-! ## § Zones with days of at least twelve hours -/

/-- By how much the clock goes forward at each change. -/
def jumps (o : ℤ) : List (ℤ × ℤ) → List ℤ
  | [] => []
  | (_, o') :: cs => (o' - o) :: jumps o' cs

/-- The clock changes by at most two hours at once. -/
def Zone.AtMostTwoHours (z : Zone) : Prop := ∀ j ∈ jumps z.base z.changes, |j| ≤ 120

/-- Two changes are two hours apart, or more. -/
def Zone.TwoHoursApart (z : Zone) : Prop := z.changes.Pairwise fun c d => c.1 + 120 ≤ d.1

instance (z : Zone) : Decidable z.AtMostTwoHours := inferInstanceAs (Decidable (∀ j ∈ _, _))

instance (z : Zone) : Decidable z.TwoHoursApart := inferInstanceAs (Decidable (List.Pairwise _ _))

section Clock

variable {o u v : ℤ} {cs : List (ℤ × ℤ)}

theorem spacedFrom_of_apart (hsmall : ∀ j ∈ jumps o cs, |j| ≤ 120)
    (hapart : cs.Pairwise fun c d => c.1 + 120 ≤ d.1) : SpacedFrom o cs := by
  induction cs generalizing o with
  | nil => trivial
  | cons c cs ih =>
      obtain ⟨t, o'⟩ := c
      obtain ⟨hnext, hapart⟩ := List.pairwise_cons.mp hapart
      obtain ⟨hjump, hsmall⟩ := List.forall_mem_cons.mp hsmall
      refine ⟨fun c hc => ?_, ih hsmall hapart⟩
      have hlater := hnext c (List.mem_of_mem_head? hc)
      have hforward := (abs_le.mp hjump).2
      simp only at hlater
      omega

/-- From a minute with no change before it, the clock gains two hours for each two hours
begun. -/
theorem offsetAt_le_of_later (hsmall : ∀ j ∈ jumps o cs, |j| ≤ 120)
    (hapart : cs.Pairwise fun c d => c.1 + 120 ≤ d.1) (hlater : ∀ c ∈ cs.head?, u ≤ c.1)
    (huv : u ≤ v) : offsetAt o cs v ≤ o + 120 * ((v - u) / 120 + 1) := by
  induction cs generalizing o u with
  | nil =>
      show o ≤ _
      omega
  | cons c cs ih =>
      obtain ⟨t, o'⟩ := c
      obtain ⟨hnext, hapart⟩ := List.pairwise_cons.mp hapart
      obtain ⟨hjump, hsmall⟩ := List.forall_mem_cons.mp hsmall
      have hforward := (abs_le.mp hjump).2
      have hut : u ≤ t := hlater (t, o') rfl
      have hhead : ∀ c ∈ cs.head?, t + 120 ≤ c.1 := fun c hc => hnext c (List.mem_of_mem_head? hc)
      by_cases hv : v < t
      · have hbefore : offsetAt o ((t, o') :: cs) v = o := if_pos hv
        omega
      have hafter : offsetAt o ((t, o') :: cs) v = offsetAt o' cs v := if_neg hv
      rw [hafter]
      by_cases hlong : t + 120 ≤ v
      · have hrest := ih hsmall hapart hhead hlong
        omega
      · have hsame : offsetAt o' cs v = o' :=
          offsetAt_before_next fun c hc => (not_le.mp hlong).trans_le (hhead c hc)
        omega

/-- The same, from the offset a minute earlier. -/
theorem offsetAt_le (hsmall : ∀ j ∈ jumps o cs, |j| ≤ 120)
    (hapart : cs.Pairwise fun c d => c.1 + 120 ≤ d.1) (huv : u ≤ v) :
    offsetAt o cs v ≤ offsetAt o cs (u - 1) + 120 * ((v - u) / 120 + 1) := by
  induction cs generalizing o with
  | nil =>
      show o ≤ o + _
      omega
  | cons c cs ih =>
      obtain ⟨t, o'⟩ := c
      by_cases hu : u - 1 < t
      · have hbefore : offsetAt o ((t, o') :: cs) (u - 1) = o := if_pos hu
        rw [hbefore]
        apply offsetAt_le_of_later hsmall hapart _ huv
        rintro c ⟨⟩
        show u ≤ t
        omega
      · obtain ⟨hnext, hapart⟩ := List.pairwise_cons.mp hapart
        obtain ⟨_, hsmall⟩ := List.forall_mem_cons.mp hsmall
        have hbefore : offsetAt o ((t, o') :: cs) (u - 1) = offsetAt o' cs (u - 1) := if_neg hu
        have hafter : offsetAt o ((t, o') :: cs) v = offsetAt o' cs v := if_neg (by omega)
        rw [hbefore, hafter]
        exact ih hsmall hapart

end Clock

theorem Zone.spaced_of_apart {z : Zone} (hsmall : z.AtMostTwoHours) (hapart : z.TwoHoursApart) :
    z.Spaced := spacedFrom_of_apart hsmall hapart

/-- A day on the clock takes twelve hours, or more. -/
theorem Zone.minuteOf_day_le {z : Zone} (hsmall : z.AtMostTwoHours) (hapart : z.TwoHoursApart)
    (w : ℤ) : z.minuteOf w + 720 ≤ z.minuteOf (w + 1440) := by
  have hspaced := Zone.spaced_of_apart hsmall hapart
  set u := z.minuteOf w with hu
  set v := z.minuteOf (w + 1440) with hv
  have hreached : w + 1440 ≤ v + offsetAt z.base z.changes v := z.le_reading_minuteOf (w + 1440)
  have hbefore : u - 1 + offsetAt z.base z.changes (u - 1) < w :=
    hspaced.reading_lt (hu ▸ Int.sub_one_lt_of_le le_rfl)
  have huv : u ≤ v := hspaced.forward w (w + 1440) (by omega)
  have hgain := offsetAt_le (u := u) hsmall hapart huv
  by_contra hshort
  omega

theorem midnights_apart {z : Zone} (hsmall : z.AtMostTwoHours) (hapart : z.TwoHoursApart)
    (d : ℤ) : toUtc z d 0 + 720 * minute ≤ toUtc z (d + 1) 0 := by
  have hday := Zone.minuteOf_day_le hsmall hapart (dayMinutes * d)
  have hnext : dayMinutes * (d + 1) + 0 = dayMinutes * d + 1440 := by
    rw [dayMinutes]
    ring
  rw [toUtc, toUtc, hnext, add_zero, minute]
  omega

/-! ## § Reads without a look-back -/

/-- `BOOKED`'s conditions on a booking, whenever it is. -/
def Booking.occupies (b : Booking) (members : List ℕ) (now : ℤ) (exclude : Option ℕ) : Prop :=
  b.workerId ∈ members ∧ b.status ∈ occupying ∧ (b.status ∉ expiring ∨ b.unexpired now) ∧
    ∀ id ∈ exclude, b.id ≠ id

instance (b : Booking) (members : List ℕ) (now : ℤ) (exclude : Option ℕ) :
    Decidable (b.occupies members now exclude) := inferInstanceAs (Decidable (_ ∧ _))

/-- All the bookings that occupy the members. -/
def Db.allBooked (db : Db) (members : List ℕ) (now : ℤ) (exclude : Option ℕ) : List BookedRow :=
  (db.bookings.rows.filter fun b => b.occupies members now exclude).filterMap
    fun b => (db.services.find b.serviceId).map b.joined

/-- All of a member's time off. -/
def Db.allTimeOffOf (db : Db) (member : ℕ) (zone : Zone) : List (ℤ × ℤ) :=
  (db.timeOff.rows.filter fun t => t.memberId = member).map fun t => t.block.span zone

/-- `offered`'s slots from all the bookings and all the time off. -/
def slotsOfAll (db : Db) (now : ℤ) (members : List ℕ) (hours : List WorkingHour)
    (opening : List (ℤ × List (ℤ × ℤ))) (settings : Settings)
    (first last earliest duration buffer : ℤ) (exclude : Option ℕ) : List (ℕ × List ℤ) :=
  if members = [] ∨ last < first then []
  else
    members.map fun m =>
      (m, memberSlots (hoursOf hours m) (db.allTimeOffOf m settings.timezone)
        (((db.allBooked members now exclude).filter fun r => r.workerId = m).map BookedRow.booked)
        opening settings.timezone first last duration buffer settings.bufferPct
        settings.slotStepMinutes earliest settings.slotStep_pos)

/-- The order of the agenda: `ORDER BY starts_at, id`. -/
def bookingLE (x y : Booking × Client) : Prop :=
  toLex (x.1.startsAt, x.1.id) ≤ toLex (y.1.startsAt, y.1.id)

instance : DecidableRel bookingLE := fun _ _ => inferInstanceAs (Decidable (_ ≤ _))

/-- Bookings with their clients, in the agenda's order. -/
def Db.withClients (db : Db) (bookings : List Booking) : List (Booking × Client) :=
  (bookings.filterMap fun b => (db.clients.find b.clientId).map fun c => (b, c)).insertionSort
    bookingLE

/-- The statuses the agenda shows. -/
def agendaStatuses : List Status := occupying.filter (· ≠ .awaitingPayment) ++ [.noShow]

/-- `RANGE`'s conditions on a booking but the look-back. -/
def Db.onAgenda (db : Db) (now from_ to_ : ℤ) (everyone : Bool) (me : ℕ) (b : Booking) : Prop :=
  b.meets from_ to_ ∧ b.status ∈ agendaStatuses ∧ ¬ (b.status ∈ expiring ∧ b.lapsed now) ∧
    (everyone = true ∨
      (db.memberships.rows.find? fun m => m.userId = me).map Member.id = some b.workerId)

instance (db : Db) (now from_ to_ : ℤ) (everyone : Bool) (me : ℕ) (b : Booking) :
    Decidable (db.onAgenda now from_ to_ everyone me b) := inferInstanceAs (Decidable (_ ∧ _))

/-- `RANGE`. -/
def Db.range (db : Db) (now from_ to_ : ℤ) (everyone : Bool) (me : ℕ) : List (Booking × Client) :=
  db.withClients (db.bookings.rows.filter fun b =>
    db.onAgenda now from_ to_ everyone me b ∧ from_ - longestBooking < b.startsAt)

def Db.wholeRange (db : Db) (now from_ to_ : ℤ) (everyone : Bool) (me : ℕ) :
    List (Booking × Client) :=
  db.withClients (db.bookings.rows.filter (db.onAgenda now from_ to_ everyone me))

/-- `IN_THE_WAY`: at most five rows, and how many there are. -/
def Db.rowsInTheWay (db : Db) (now : ℤ) (member : ℕ) (after : ℤ × ℤ) (before : Option (ℤ × ℤ)) :
    List (Booking × Client) × ℕ :=
  let rows := db.withClients (db.bookings.rows.filter fun b => b.inTheWay member after before now)
  (rows.take 5, rows.length)

/-- `IN_THE_WAY`'s conditions on a booking but the look-back. -/
def Booking.covered (b : Booking) (member : ℕ) (after : ℤ × ℤ) (before : Option (ℤ × ℤ))
    (now : ℤ) : Prop :=
  b.workerId = member ∧ b.meets after.1 after.2 ∧ now < b.endsAt ∧ b.answerable now ∧
    ∀ old ∈ before, ¬ b.meets old.1 old.2

instance (b : Booking) (member : ℕ) (after : ℤ × ℤ) (before : Option (ℤ × ℤ)) (now : ℤ) :
    Decidable (b.covered member after before now) := inferInstanceAs (Decidable (_ ∧ _))

def Db.allInTheWay (db : Db) (now : ℤ) (member : ℕ) (after : ℤ × ℤ) (before : Option (ℤ × ℤ)) :
    List (Booking × Client) × ℕ :=
  let rows := db.withClients (db.bookings.rows.filter fun b => b.covered member after before now)
  (rows.take 5, rows.length)

variable {db : Db} {zone : Zone} {now first last duration buffer pct step earliest t : ℤ}
  {members : List ℕ} {exclude : Option ℕ} {worker : ℕ}

/-! ## § The agenda and the time-off check -/

/-- A booking that meets an interval started less than twelve hours before it. -/
theorem Booking.started_after {b : Booking} {start stop : ℤ} (h : b.meets start stop) :
    start - longestBooking < b.startsAt := by
  have hlength := b.atMost12Hours
  have hend := h.2
  omega

theorem range_eq_wholeRange (db : Db) (now from_ to_ : ℤ) (everyone : Bool) (me : ℕ) :
    db.range now from_ to_ everyone me = db.wholeRange now from_ to_ everyone me := by
  have hrows : ∀ b ∈ db.bookings.rows,
      decide (db.onAgenda now from_ to_ everyone me b ∧ from_ - longestBooking < b.startsAt) =
        decide (db.onAgenda now from_ to_ everyone me b) := by
    intro b _
    rw [decide_eq_decide]
    exact ⟨And.left, fun h => ⟨h, Booking.started_after h.1⟩⟩
  rw [Db.range, Db.wholeRange, List.filter_congr hrows]

theorem rowsInTheWay_eq_all (db : Db) (now : ℤ) (member : ℕ) (after : ℤ × ℤ)
    (before : Option (ℤ × ℤ)) :
    db.rowsInTheWay now member after before = db.allInTheWay now member after before := by
  have hrows : ∀ b ∈ db.bookings.rows, decide (b.inTheWay member after before now) =
      decide (b.covered member after before now) := by
    intro b _
    rw [decide_eq_decide]
    constructor
    · rintro ⟨hworker, hmeets, _, hrest⟩
      exact ⟨hworker, hmeets, hrest⟩
    · rintro ⟨hworker, hmeets, hrest⟩
      exact ⟨hworker, hmeets, Booking.started_after hmeets, hrest⟩
  rw [Db.rowsInTheWay, Db.allInTheWay, List.filter_congr hrows]

/-! ## § Slots -/

/-- The walk keeps the instants that are free, in their order. -/
theorem walkOn_eq_filter {closes length stride : ℤ} (hstride : 0 < stride) (free : ℤ → Bool)
    (t : ℤ) : walkOn closes length stride hstride free t =
      (walkOn closes length stride hstride (fun _ => true) t).filter free := by
  fun_induction walkOn closes length stride hstride free t with
  | case1 t h hfree ih =>
      have hall : walkOn closes length stride hstride (fun _ => true) t =
          t :: walkOn closes length stride hstride (fun _ => true) (t + stride) := by
        conv_lhs => rw [walkOn, if_pos h, if_pos rfl]
      rw [hall, List.filter_cons_of_pos hfree]
      exact congrArg _ ih
  | case2 t h hbusy ih =>
      have hall : walkOn closes length stride hstride (fun _ => true) t =
          t :: walkOn closes length stride hstride (fun _ => true) (t + stride) := by
        conv_lhs => rw [walkOn, if_pos h, if_pos rfl]
      rw [hall, List.filter_cons_of_neg hbusy]
      exact ih
  | case3 t h =>
      rw [walkOn, if_neg h]
      rfl

theorem pieceSlots_eq_filter (zone : Zone) (duration step : ℤ) (hstep : 0 < step)
    (free : ℤ → Bool) (day : ℤ) (piece : ℤ × ℤ) :
    pieceSlots zone duration step hstep free day piece =
      (pieceSlots zone duration step hstep (fun _ => true) day piece).filter free := by
  simp only [pieceSlots]
  split
  · rfl
  · split
    · rfl
    · exact walkOn_eq_filter _ _ _

/-- Slots depend on the busy time only by what is free inside the days' pieces. -/
theorem memberSlots_congr {rows : List Row} {timeOff timeOff' : List (ℤ × ℤ)}
    {booked booked' : List Booked} {opening : List (ℤ × List (ℤ × ℤ))} (hzone : zone.Forward)
    (hoff : ∀ x ∈ timeOff, x.1 ≤ x.2) (hoff' : ∀ x ∈ timeOff', x.1 ≤ x.2)
    (hduration : 0 < duration) (hbuffer : 0 ≤ buffer) (hpct : 0 ≤ pct) (hstep : 0 < step)
    (h : ∀ t, toUtc zone first 0 ≤ t → t + duration * minute ≤ toUtc zone (last + 1) 0 →
      (Free timeOff booked duration buffer pct earliest t ↔
        Free timeOff' booked' duration buffer pct earliest t)) :
    memberSlots rows timeOff booked opening zone first last duration buffer pct step earliest
        hstep =
      memberSlots rows timeOff' booked' opening zone first last duration buffer pct step earliest
        hstep := by
  unfold memberSlots
  apply List.flatMap_congr
  intro day hday
  apply List.flatMap_congr
  intro piece hpiece
  rw [pieceSlots_eq_filter]
  conv_rhs => rw [pieceSlots_eq_filter]
  apply List.filter_congr
  intro t ht
  rw [Bool.eq_iff_iff, free_iff hoff hduration hbuffer hpct, free_iff hoff' hduration hbuffer hpct]
  obtain ⟨hfirst, hlast⟩ := mem_localDays.mp hday
  obtain ⟨hon, _⟩ := (mem_pieceSlots hzone hduration hstep).mp ht
  obtain ⟨hlow, hhigh⟩ := hon.inDay hzone hduration (pieces_inDay hpiece)
  have hopens : toUtc zone first 0 ≤ toUtc zone day 0 :=
    toUtc_mono hzone (by rw [dayMinutes]; omega)
  have hcloses : toUtc zone (day + 1) 0 ≤ toUtc zone (last + 1) 0 :=
    toUtc_mono hzone (by rw [dayMinutes]; omega)
  exact h t (hopens.trans hlow) (hhigh.trans hcloses)

theorem mem_allBooked {r : BookedRow} : r ∈ db.allBooked members now exclude ↔
    ∃ b ∈ db.bookings.rows, b.occupies members now exclude ∧
      ∃ s ∈ db.services.rows, s.id = b.serviceId ∧ b.joined s = r := by
  simp only [Db.allBooked, List.mem_filterMap, List.mem_filter, decide_eq_true_eq,
    Option.map_eq_some_iff, Foundation.Table.find_eq_some]
  constructor
  · rintro ⟨b, ⟨hb, hocc⟩, s, ⟨hs, hid⟩, rfl⟩
    exact ⟨b, hb, hocc, s, hs, hid, rfl⟩
  · rintro ⟨b, hb, hocc, s, hs, hid, rfl⟩
    exact ⟨b, ⟨hb, hocc⟩, s, ⟨hs, hid⟩, rfl⟩

/-- What is read is some of all there is. -/
theorem mem_allBooked_of_booked {r : BookedRow} {start stop : ℤ}
    (h : r ∈ db.booked members start stop now exclude) : r ∈ db.allBooked members now exclude := by
  obtain ⟨b, hb, ⟨hworker, _, _, hstatus, hlive, hexclude⟩, hservice⟩ := mem_booked.mp h
  exact mem_allBooked.mpr ⟨b, hb, ⟨hworker, hstatus, hlive, hexclude⟩, hservice⟩

/-- A booking that meets the read's window is read. -/
theorem mem_booked_of_meets {r : BookedRow} {start stop : ℤ}
    (h : r ∈ db.allBooked members now exclude) (hstart : r.booked.startsAt < stop)
    (hend : start < r.booked.endsAt) : r ∈ db.booked members start stop now exclude := by
  obtain ⟨b, hb, ⟨hworker, hstatus, hlive, hexclude⟩, s, hs, hid, rfl⟩ := mem_allBooked.mp h
  have hmeets : b.meets start stop := ⟨hstart, hend⟩
  have hlook : start - dayMinutes * minute < b.startsAt := by
    have := Booking.started_after hmeets
    simp only [longestBooking, dayMinutes, minute] at *
    omega
  exact mem_booked.mpr ⟨b, hb, ⟨hworker, hmeets, hlook, hstatus, hlive, hexclude⟩, s, hs, hid, rfl⟩

/-- The gap after any booking is at most twelve hours. -/
theorem buffer_le_of_allBooked {r : BookedRow} (hpct : pct ≤ 100)
    (h : r ∈ db.allBooked members now exclude) :
    bufferFor ((r.booked.endsAt - r.booked.startsAt) / minute) r.booked.override pct * minute ≤
      720 * minute := by
  obtain ⟨b, _, _, s, _, _, rfl⟩ := mem_allBooked.mp h
  have hlength := b.length_range
  apply mul_le_mul_of_nonneg_right _ (by decide)
  exact bufferFor_le hlength.1 hlength.2 hpct fun m hm => (s.buffer m hm).2

/-- **What the reads leave out meets no slot.** -/
theorem free_of_reads_iff (hsmall : zone.AtMostTwoHours) (hapart : zone.TwoHoursApart)
    (hpct : pct ≤ 100) (hbuffer : buffer ≤ 720) (hlow : toUtc zone first 0 ≤ t)
    (hhigh : t + duration * minute ≤ toUtc zone (last + 1) 0) :
    Free (db.timeOffOf worker first last zone (readWindow zone first last).1
        (readWindow zone first last).2)
      (((db.booked members (readWindow zone first last).1 (readWindow zone first last).2 now
        exclude).filter fun r => r.workerId = worker).map BookedRow.booked)
      duration buffer pct earliest t ↔
    Free (db.allTimeOffOf worker zone)
      (((db.allBooked members now exclude).filter fun r => r.workerId = worker).map
        BookedRow.booked) duration buffer pct earliest t := by
  have hzone := (Zone.spaced_of_apart hsmall hapart).forward
  have hroom : 0 ≤ 720 * minute := by decide
  have hbefore : (readWindow zone first last).1 + 720 * minute ≤ toUtc zone first 0 := by
    have hday := midnights_apart hsmall hapart (first - 1)
    rwa [sub_add_cancel] at hday
  have hafter : toUtc zone (last + 1) 0 + 720 * minute ≤ (readWindow zone first last).2 := by
    have hday := midnights_apart hsmall hapart (last + 1)
    rwa [add_assoc] at hday
  have htail : (duration + buffer) * minute ≤ duration * minute + 720 * minute := by
    simp only [minute]
    omega
  constructor
  · intro hfree
    refine ⟨hfree.noticed, ?_, ?_, ?_⟩
    · intro x hx hmeets
      obtain ⟨o, ho, rfl⟩ := List.mem_map.mp hx
      obtain ⟨hrow, hworker⟩ := List.mem_filter.mp ho
      have hnear := Block.near_of_meets hzone hlow hhigh hmeets
      refine hfree.working _ (List.mem_map.mpr ⟨o, List.mem_filter.mpr ⟨hrow, ?_⟩, rfl⟩) hmeets
      exact decide_eq_true ⟨of_decide_eq_true hworker, hnear⟩
    · intro b hb hmeets
      obtain ⟨r, hr, rfl⟩ := List.mem_map.mp hb
      obtain ⟨hrow, hworker⟩ := List.mem_filter.mp hr
      have hgap := buffer_le_of_allBooked hpct hrow
      obtain ⟨hs, he⟩ := hmeets
      have hread : r ∈ db.booked members (readWindow zone first last).1
          (readWindow zone first last).2 now exclude :=
        mem_booked_of_meets hrow (by omega) (by simp only at he; omega)
      exact hfree.after _ (List.mem_map.mpr ⟨r, List.mem_filter.mpr ⟨hread, hworker⟩, rfl⟩) ⟨hs, he⟩
    · intro b hb hmeets
      obtain ⟨r, hr, rfl⟩ := List.mem_map.mp hb
      obtain ⟨hrow, hworker⟩ := List.mem_filter.mp hr
      obtain ⟨hs, he⟩ := hmeets
      have hread : r ∈ db.booked members (readWindow zone first last).1
          (readWindow zone first last).2 now exclude :=
        mem_booked_of_meets hrow (by simp only at hs; omega) (by simp only at he; omega)
      exact hfree.before _ (List.mem_map.mpr ⟨r, List.mem_filter.mpr ⟨hread, hworker⟩, rfl⟩)
        ⟨hs, he⟩
  · intro hfree
    refine ⟨hfree.noticed, ?_, ?_, ?_⟩
    · intro x hx
      obtain ⟨o, ho, rfl⟩ := List.mem_map.mp hx
      obtain ⟨hrow, hnear⟩ := List.mem_filter.mp ho
      refine hfree.working _ (List.mem_map.mpr ⟨o, List.mem_filter.mpr ⟨hrow, ?_⟩, rfl⟩)
      exact decide_eq_true (of_decide_eq_true hnear).1
    · intro b hb
      obtain ⟨r, hr, rfl⟩ := List.mem_map.mp hb
      obtain ⟨hrow, hworker⟩ := List.mem_filter.mp hr
      exact hfree.after _ (List.mem_map.mpr
        ⟨r, List.mem_filter.mpr ⟨mem_allBooked_of_booked hrow, hworker⟩, rfl⟩)
    · intro b hb
      obtain ⟨r, hr, rfl⟩ := List.mem_map.mp hb
      obtain ⟨hrow, hworker⟩ := List.mem_filter.mp hr
      exact hfree.before _ (List.mem_map.mpr
        ⟨r, List.mem_filter.mpr ⟨mem_allBooked_of_booked hrow, hworker⟩, rfl⟩)

/-- **Bounded look-backs lose nothing.** In a zone whose clock changes by at most two hours
at once and not twice within two hours, the slots offered are those of all the bookings and
all the time off; the agenda and the time-off check select what they would without a
look-back. -/
theorem look_back_loses_nothing (db : Db) (now : ℤ) (settings : Settings)
    (hsmall : settings.timezone.AtMostTwoHours) (hapart : settings.timezone.TwoHoursApart) :
    (∀ (members : List ℕ) (hours : List WorkingHour) (opening : List (ℤ × List (ℤ × ℤ)))
        (first last earliest duration buffer : ℤ) (exclude : Option ℕ),
      0 < duration → 0 ≤ buffer → buffer ≤ 720 →
        (offered db now members hours opening settings first last earliest duration buffer
            exclude).slots =
          slotsOfAll db now members hours opening settings first last earliest duration buffer
            exclude) ∧
    (∀ (from_ to_ : ℤ) (everyone : Bool) (me : ℕ),
      db.range now from_ to_ everyone me = db.wholeRange now from_ to_ everyone me) ∧
    ∀ (member : ℕ) (after : ℤ × ℤ) (before : Option (ℤ × ℤ)),
      db.rowsInTheWay now member after before = db.allInTheWay now member after before := by
  refine ⟨?_, fun from_ to_ everyone me => range_eq_wholeRange db now from_ to_ everyone me,
    fun member after before => rowsInTheWay_eq_all db now member after before⟩
  intro members hours opening first last earliest duration buffer exclude hduration hbuffer hle
  have hzone := (Zone.spaced_of_apart hsmall hapart).forward
  unfold offered slotsOfAll
  split
  · rfl
  apply List.map_congr_left
  intro m _
  have hall : ∀ x ∈ db.allTimeOffOf m settings.timezone, x.1 ≤ x.2 := by
    intro x hx
    obtain ⟨o, _, rfl⟩ := List.mem_map.mp hx
    exact span_forward hzone o.block
  apply congrArg (Prod.mk m)
  apply memberSlots_congr hzone (timeOffOf_forward hzone) hall hduration hbuffer
    settings.bufferPct_range.1
  intro t hlow hhigh
  exact free_of_reads_iff hsmall hapart settings.bufferPct_range.2 hle hlow hhigh

/-! ## § A day of eleven hours -/

/-- An hour forward on every hour of a day, and two at the end of it. -/
def hurryingZone : Zone where
  base := 0
  changes := [(0, 60), (60, 120), (120, 180), (180, 240), (240, 300), (300, 360), (360, 420),
    (420, 480), (480, 540), (540, 600), (600, 660), (660, 780)]
  ascending := by decide

/-- Twelve hours of a service with a gap as long as itself, up to the midnight before. -/
def longBooking : Booking where
  id := 1
  clientId := 1
  workerId := 1
  serviceId := 1
  startsAt := -720 * minute
  endsAt := 0
  status := .confirmed
  expiresAt := none
  source := .merchant
  durationMinutes := 720
  priceAmountMinor := 1000
  priceCurrency := "EUR"
  autoConfirmAtBooking := false
  workerDisplayName := none
  freeCancellationHours := 48
  rescheduleCutoffHours := 24
  originalStartsAt := some (-720 * minute)
  earliestStartsAt := some (-720 * minute)
  rescheduleCount := 0
  maxReschedules := 2
  ordered := by decide
  atMost12Hours := by decide
  holds := confirmed_holds

/-- Its worker works from midnight on Fridays; day 1 is one. -/
def hurriedShop (zone : Zone) : Db :=
  { Db.solo { Settings.defaults zone with bufferPct := 100, bufferPct_range := by decide }
      ⟨1, 720, none, 1000, "EUR", false, by decide, freeHour.buffer⟩ [smallHours] with
    bookings := ⟨[longBooking], by simp⟩
    booked_service := by simp [Db.solo, longBooking] }

def slotsOnFriday (zone : Zone) : List (ℕ × List ℤ) :=
  let db := hurriedShop zone
  (offered db 0 [1] db.workingHours [] db.settings 1 1 0 30 0 none).slots

def allSlotsOnFriday (zone : Zone) : List (ℕ × List ℤ) :=
  let db := hurriedShop zone
  slotsOfAll db 0 [1] db.workingHours [] db.settings 1 1 0 30 0 none

/-- The booking's gap lasts beyond the eleven hours the next day takes, and is not read. -/
theorem look_back_loses_a_booking :
    hurryingZone.AtMostTwoHours ∧ hurryingZone.Spaced ∧
      slotsOnFriday hurryingZone ≠ allSlotsOnFriday hurryingZone := by
  refine ⟨by decide, by decide, ?_⟩
  decide +kernel

theorem look_back_loses_nothing_on_friday :
    (hurriedShop (.fixed 0)).bookings.rows = [longBooking] ∧
      slotsOnFriday (.fixed 0) = allSlotsOnFriday (.fixed 0) :=
  ⟨rfl, (look_back_loses_nothing (hurriedShop (.fixed 0)) 0 (hurriedShop (.fixed 0)).settings
    (by decide) (by decide)).1 [1] _ [] 1 1 0 30 0 none (by decide) (by decide) (by decide)⟩

end Ziftbook
