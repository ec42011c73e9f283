import Ziftbook.Bookings.Effects

/-!
# What is shown can be booked

The reads offer starts over a range of days; a write asks again about one start,
over its own local day. The narrower read sees less that is busy, so a start
offered over the range is offered to the write, and the database's constraints
let it through.
-/

namespace Ziftbook

open Foundation Foundation.Intervals

/-! ## § One read inside another -/

theorem Free.subset {timeOff timeOff' : List (ℤ × ℤ)} {booked booked' : List Booked}
    {duration buffer pct earliest t : ℤ}
    (h : Free timeOff booked duration buffer pct earliest t) (hoff : timeOff' ⊆ timeOff)
    (hbooked : booked' ⊆ booked) : Free timeOff' booked' duration buffer pct earliest t :=
  ⟨h.noticed, fun x hx => h.working x (hoff hx), fun b hb => h.after b (hbooked hb),
    fun b hb => h.before b (hbooked hb)⟩

section Narrower

variable {zone : Zone} {first last first' last' : ℤ}

theorem readWindow_mono (hzone : zone.Forward) (hfirst : first ≤ first')
    (hlast : last' ≤ last) :
    (readWindow zone first last).1 ≤ (readWindow zone first' last').1 ∧
      (readWindow zone first' last').2 ≤ (readWindow zone first last).2 := by
  constructor
  · exact toUtc_mono hzone (by rw [dayMinutes]; omega)
  · exact toUtc_mono hzone (by rw [dayMinutes]; omega)

theorem timeOffOf_subset {db : Db} {m : ℕ} (hzone : zone.Forward) (hfirst : first ≤ first')
    (hlast : last' ≤ last) :
    db.timeOffOf m first' last' zone (readWindow zone first' last').1
        (readWindow zone first' last').2 ⊆
      db.timeOffOf m first last zone (readWindow zone first last).1
        (readWindow zone first last).2 := by
  obtain ⟨hlow, hhigh⟩ := readWindow_mono hzone hfirst hlast
  intro x hx
  simp only [Db.timeOffOf, List.mem_map, List.mem_filter, decide_eq_true_eq] at hx ⊢
  obtain ⟨t, ⟨ht, hm, hnear⟩, rfl⟩ := hx
  refine ⟨t, ⟨ht, hm, ?_⟩, rfl⟩
  cases hblock : t.block with
  | instants s e _ _ =>
      rw [hblock] at hnear
      simp only [Block.near] at hnear ⊢
      omega
  | days f l _ _ =>
      rw [hblock] at hnear
      simp only [Block.near] at hnear ⊢
      omega

theorem booked_subset {db : Db} {now : ℤ} {m : ℕ} {members members' : List ℕ}
    {exclude : Option ℕ} (hzone : zone.Forward) (hfirst : first ≤ first')
    (hlast : last' ≤ last) (hm : m ∈ members) :
    ((db.booked members' (readWindow zone first' last').1 (readWindow zone first' last').2 now
        exclude).filter fun r => r.workerId = m).map BookedRow.booked ⊆
      ((db.booked members (readWindow zone first last).1 (readWindow zone first last).2 now
        exclude).filter fun r => r.workerId = m).map BookedRow.booked := by
  obtain ⟨hlow, hhigh⟩ := readWindow_mono hzone hfirst hlast
  intro x hx
  simp only [List.mem_map, List.mem_filter, decide_eq_true_eq, mem_booked] at hx ⊢
  obtain ⟨r, ⟨⟨b, hb, hin, s, hs, hid, rfl⟩, hworker⟩, rfl⟩ := hx
  obtain ⟨_, ⟨hstart, hend⟩, hback, hocc, hlive, hexclude⟩ := hin
  have hworker' : b.workerId = m := hworker
  refine ⟨_, ⟨⟨b, hb, ⟨hworker' ▸ hm, ⟨by omega, by omega⟩, by omega, hocc, hlive, hexclude⟩,
    s, hs, hid, rfl⟩, hworker⟩, rfl⟩

end Narrower

/-- **A start offered over a range is offered on its own day.** -/
theorem slotsOf_narrow {db : Db} {now : ℤ} {members : List ℕ} {hours : List WorkingHour}
    {opening : List (ℤ × List (ℤ × ℤ))} {settings : Settings}
    {first last earliest duration buffer t : ℤ} {exclude : Option ℕ} {m : ℕ}
    (hzone : settings.timezone.Spaced) (hdates : settings.timezone.DatesForward)
    (hduration : 0 < duration) (hbuffer : 0 ≤ buffer)
    (h : t ∈ (offered db now members hours opening settings first last earliest duration buffer
      exclude).slotsOf m) :
    (first ≤ dateAt settings.timezone t ∧ dateAt settings.timezone t ≤ last) ∧
      ∀ members' hours', m ∈ members' → hoursOf hours' m = hoursOf hours m →
        t ∈ (offered db now members' hours' opening settings (dateAt settings.timezone t)
          (dateAt settings.timezone t) earliest duration buffer exclude).slotsOf m := by
  have hforward := hzone.forward
  obtain ⟨hm, _, hslot⟩ := mem_slotsOf_offered.mp h
  obtain ⟨⟨day, ⟨hfirst, hlast⟩, piece, hpiece, hon⟩, hfree⟩ :=
    (mem_memberSlots hforward (timeOffOf_forward hforward) hduration hbuffer
      settings.bufferPct_range.1 settings.slotStep_pos).mp hslot
  have hlen : t < t + duration * minute := by rw [minute]; omega
  have hin := (Set.Ico_subset_Ico_iff hlen).mp hon.inside
  obtain ⟨hopens, hcloses⟩ := pieces_inDay hpiece
  have hday : dateAt settings.timezone t = day :=
    dateAt_of_between hzone hdates hopens hcloses.le hin.1 (hlen.trans_le hin.2)
  rw [hday]
  refine ⟨⟨hfirst, hlast⟩, fun members' hours' hm' hhours => ?_⟩
  refine mem_slotsOf_offered.mpr ⟨hm', le_rfl, ?_⟩
  rw [hhours]
  refine (mem_memberSlots hforward (timeOffOf_forward hforward) hduration hbuffer
    settings.bufferPct_range.1 settings.slotStep_pos).mpr
    ⟨⟨day, ⟨le_rfl, le_rfl⟩, piece, hpiece, hon⟩, hfree.subset ?_ ?_⟩
  · exact timeOffOf_subset hforward hfirst hlast
  · exact booked_subset hforward hfirst hlast hm

/-- The clamped window of one of its days is that day, with the same notice. -/
theorem window_narrow {now : ℤ} {zone : Zone} {first last notice horizon day : ℤ}
    (hfirst : (window now zone first last notice horizon).1 ≤ day)
    (hlast : day ≤ (window now zone first last notice horizon).2.1) :
    window now zone day day notice horizon =
      (day, day, (window now zone first last notice horizon).2.2) := by
  simp only [window, Prod.mk.injEq, and_true] at *
  omega

/-- So a write that asks about the start's own day finds that day open and the
start offered. -/
theorem slotsOf_asked {db : Db} {now : ℤ} {members : List ℕ} {hours : List WorkingHour}
    {opening : List (ℤ × List (ℤ × ℤ))} {settings : Settings}
    {first last notice horizon duration buffer t : ℤ} {exclude : Option ℕ} {m : ℕ}
    (hzone : settings.timezone.Spaced) (hdates : settings.timezone.DatesForward)
    (hduration : 0 < duration) (hbuffer : 0 ≤ buffer)
    (h : t ∈ (offered db now members hours opening settings
      (window now settings.timezone first last notice horizon).1
      (window now settings.timezone first last notice horizon).2.1
      (window now settings.timezone first last notice horizon).2.2 duration buffer
      exclude).slotsOf m) :
    ∃ earliest, window now settings.timezone (dateAt settings.timezone t)
        (dateAt settings.timezone t) notice horizon =
          (dateAt settings.timezone t, dateAt settings.timezone t, earliest) ∧
      ∀ members' hours', m ∈ members' → hoursOf hours' m = hoursOf hours m →
        t ∈ (offered db now members' hours' opening settings (dateAt settings.timezone t)
          (dateAt settings.timezone t) earliest duration buffer exclude).slotsOf m := by
  obtain ⟨⟨hfirst, hlast⟩, hnarrow⟩ := slotsOf_narrow hzone hdates hduration hbuffer h
  exact ⟨_, window_narrow hfirst hlast, hnarrow⟩

/-! ## § The public answer -/

/-- What `compute` offers is a slot of a member asked about. -/
theorem slot_of_offers {db : Db} {now : ℤ} {service : Service} {memberId : Option ℕ}
    {first last start : ℤ} {exclude : Option ℕ} {worker : ℕ}
    (h : (compute db now service memberId first last exclude).offers worker start) :
    start ∈ (offered db now
      ((candidateIds (db.candidates service.id none)).filter
        fun m => memberId = none ∨ memberId = some m)
      (db.candidates service.id none) (byWeekday db.openingHours) db.settings
      (window now db.settings.timezone first last db.settings.minNoticeMinutes
        db.settings.bookingHorizonDays).1
      (window now db.settings.timezone first last db.settings.minNoticeMinutes
        db.settings.bookingHorizonDays).2.1
      (window now db.settings.timezone first last db.settings.minNoticeMinutes
        db.settings.bookingHorizonDays).2.2
      service.durationMinutes
      (bufferFor service.durationMinutes service.bufferMinutes db.settings.bufferPct)
      exclude).slotsOf worker := by
  obtain ⟨i, j, takers, hstart, htakers, hi, hworker⟩ := h
  simp only [compute] at hstart htakers hworker
  rw [List.getElem?_map, hstart, Option.map_some, Option.some.injEq] at htakers
  subst htakers
  obtain ⟨⟨w, k⟩, hw, rfl⟩ := List.mem_map.mp hi
  obtain ⟨hzip, hslot⟩ := List.mem_filter.mp hw
  have hget := List.mem_zipIdx_iff_getElem?.mp hzip
  simp only at hget hworker
  rw [hget, Option.some.injEq] at hworker
  subst hworker
  exact of_decide_eq_true hslot

/-- Naming a worker changes none of their hours. -/
theorem hoursOf_named {db : Db} {service worker : ℕ} {member : Option ℕ}
    (h : member = none ∨ member = some worker) :
    hoursOf (db.candidates service member) worker =
      hoursOf (db.candidates service none) worker := by
  rcases h with rfl | rfl
  · rfl
  · have hfilter : (db.candidates service (some worker)).filter
        (fun w => w.memberId = worker) =
        (db.candidates service none).filter fun w => w.memberId = worker := by
      simp only [Db.candidates, List.filter_filter]
      refine List.filter_congr fun w _ => ?_
      by_cases hw : w.memberId = worker
      · simp [hw]
      · simp [hw]
    rw [hoursOf, hoursOf, hfilter]

theorem candidate_of_named {db : Db} {service worker : ℕ} {member : Option ℕ}
    (h : member = none ∨ member = some worker)
    (hworker : worker ∈ candidateIds (db.candidates service none)) :
    worker ∈ candidateIds (db.candidates service member) := by
  obtain ⟨w, hw, rfl⟩ := mem_candidateIds.mp hworker
  refine mem_candidateIds.mpr ⟨w, ?_, rfl⟩
  simp only [Db.candidates, List.mem_filter, decide_eq_true_eq] at hw ⊢
  refine ⟨hw.1, hw.2.1, hw.2.2.1, ?_⟩
  rcases h with rfl | rfl
  · simp
  · simp

/-- The constraints let an offered start in, once lapsed holds are expired. -/
theorem not_excluded_of_slot {db : Db} {now : ℤ} {worker : ℕ} {start duration buffer : ℤ}
    {exclude : Option ℕ} (h : db.Slot now worker start duration buffer exclude)
    (hzone : db.settings.timezone.Forward) (hduration : 0 < duration) (hbuffer : 0 ≤ buffer)
    (hswept : ∀ r ∈ db.bookings.rows, r.status ∈ occupying → r.holdsAt now) {b : Booking}
    (hworker : b.workerId = worker) (hstart : b.startsAt = start)
    (hend : b.endsAt = start + duration * minute) (hexclude : ∀ id ∈ exclude, b.id = id) :
    ¬ db.excluded b := by
  rintro ⟨_, c, hc, hid, hcworker, hocc, hmeets⟩
  rw [hstart, hend] at hmeets
  refine (h.facts hzone hduration hbuffer).disjoint hzone hc (hcworker.trans hworker)
    (hswept c hc hocc) ?_ hmeets
  intro id hid' heq
  exact hid (heq.trans (hexclude id hid').symm)

theorem insertBooking_eq_error {db : Db} {b : Booking} {err : IntegrityError}
    (hfree : ¬ db.excluded b) (hmember : ∃ m ∈ db.memberships.rows, m.id = b.workerId)
    (h : db.insertBooking b = .error err) : err = .other := by
  unfold Db.insertBooking at h
  rw [if_neg hfree, if_neg (not_not.mpr hmember)] at h
  split at h
  · cases h
    rfl
  · split at h
    · cases h
    · cases h
      rfl

/-- With only offered candidates, `place` does not run out. -/
theorem place_eq_error {db : Db} {now : ℤ} {settings : Settings} {service : Service}
    {id clientId : ℕ} {startsAt buffer : ℤ} {standing : Standing} {source : Source}
    {ip : Option Address} {actor : Option ℕ} {queue : List ℕ} {e : ApiError}
    (hzone : db.settings.timezone.Forward) (hbuffer : 0 ≤ buffer)
    (hswept : ∀ r ∈ db.bookings.rows, r.status ∈ occupying → r.holdsAt now)
    (hqueue : queue ≠ [])
    (hslot : ∀ c ∈ queue, db.Slot now c startsAt service.durationMinutes buffer none)
    (h : place db settings service id clientId startsAt standing source ip actor queue =
      .error e) : e.code = .internal := by
  cases queue with
  | nil => exact absurd rfl hqueue
  | cons c queue =>
      have hslot := hslot c (List.mem_cons_self ..)
      have hfree : ¬ db.excluded (newBooking settings service id clientId c (db.nameOf c)
          startsAt standing source) :=
        not_excluded_of_slot hslot hzone (by have := service.duration; omega) hbuffer hswept
          rfl rfl rfl (by simp)
      have hmember : ∃ m ∈ db.memberships.rows, m.id = c := by
        obtain ⟨m, hm, hmid, _⟩ := hslot.employed
        exact ⟨m, hm, hmid⟩
      -- so the first candidate goes in, or the insert fails for another reason
      simp only [place] at h
      split at h
      · cases h
      · cases h
        rfl
      · rename_i err hother herr
        exact absurd (insertBooking_eq_error hfree hmember herr) hother

theorem readAvailability_eq_ok {db : Db} {now : ℤ} {limited : Bool} {serviceId : ℕ}
    {memberId : Option ℕ} {first last : ℤ} {answer : Answer}
    (h : readAvailability db now limited serviceId memberId first last = .ok answer) :
    ∃ service, db.service serviceId = some service ∧ service.id = serviceId ∧
      answer = compute db now service memberId first last none := by
  simp only [readAvailability, require_bind_eq_ok, found_bind_eq_ok] at h
  obtain ⟨_, _, service, hservice, _, h⟩ := h
  cases h
  exact ⟨service, hservice, (service_eq_some hservice).2, rfl⟩

/-- The form checks refuse nothing for its time. -/
theorem FormFault.code_ne (fault : FormFault) :
    fault.code ≠ .slotUnavailable ∧ fault.code ≠ .slotTaken := by
  cases fault <;> decide

/-- **What the public page shows can be booked**, with its worker named or none. -/
theorem bookOnline_of_shown {db : Db} {now : ℤ} {limited : Bool} {serviceId : ℕ}
    {memberId : Option ℕ} {first last start : ℤ} {answer : Answer} {worker : ℕ}
    (hzone : db.settings.timezone.Spaced) (hdates : db.settings.timezone.DatesForward)
    (hread : readAvailability db now limited serviceId memberId first last = .ok answer)
    (hoffer : answer.offers worker start) {new : OnlineRequest}
    (hservice : new.serviceId = serviceId) (hstart : new.startsAt = start)
    (hworker : new.memberId = none ∨ new.memberId = some worker) {e : ApiError}
    (h : bookOnline db now new = .error e) :
    e.code ≠ .slotUnavailable ∧ e.code ≠ .slotTaken := by
  obtain ⟨service, hfound, hid, rfl⟩ := readAvailability_eq_ok hread
  have hshown := slot_of_offers hoffer
  have hbuffer : 0 ≤ bufferFor service.durationMinutes service.bufferMinutes
      db.settings.bufferPct :=
    bufferFor_nonneg (by have := service.duration; omega) db.settings.bufferPct_range.1
      fun m hm => (service.buffer m hm).1
  have hduration : 0 < service.durationMinutes := by have := service.duration; omega
  obtain ⟨earliest, hwindow, hnarrow⟩ :=
    slotsOf_asked hzone hdates hduration hbuffer hshown
  have hchosen : worker ∈ candidateIds (db.candidates service.id none) :=
    (List.mem_filter.mp (mem_slotsOf_offered.mp hshown).1).1
  subst hstart hservice
  rw [hid] at hchosen hnarrow
  have hcandidate := candidate_of_named hworker hchosen
  have hasked := hnarrow _ _ hcandidate (hoursOf_named hworker)
  simp only [bookOnline, found_bind_eq_error, require_bind_eq_error] at h
  rcases h with ⟨_, rfl⟩ | ⟨service', hservice', h⟩
  · simp
  rw [hfound, Option.some.injEq] at hservice'
  subst hservice'
  rcases h with ⟨_, rfl⟩ | ⟨_, h⟩
  · simp
  rcases h with ⟨_, rfl⟩ | ⟨_, h⟩
  · simp
  rcases h with ⟨_, rfl⟩ | ⟨_, h⟩
  · cases hform : new.form with
    | none => simp
    | some fault => simpa using fault.code_ne
  rcases h with ⟨_, rfl⟩ | ⟨_, h⟩
  · simp
  rcases h with ⟨_, rfl⟩ | ⟨_, h⟩
  · simp
  rcases h with ⟨_, rfl⟩ | ⟨_, h⟩
  · simp
  rcases h with ⟨_, rfl⟩ | ⟨⟨db0, clientId⟩, hclient, h⟩
  · simp
  obtain ⟨clients, rfl⟩ := findOrCreate_eq_some hclient
  simp only [hwindow, offered_expire] at h
  rcases h with ⟨hshut, _⟩ | ⟨_, h⟩
  · exact absurd (lt_irrefl _) hshut
  rcases h with ⟨hnone, _⟩ | ⟨heligible, h⟩
  · exact absurd (List.ne_nil_of_mem (List.mem_filter.mpr
      ⟨hcandidate, decide_eq_true hasked⟩)) hnone
  rcases h with ⟨_, rfl⟩ | ⟨_, h⟩
  · simp
  obtain ⟨c, hc⟩ := List.exists_mem_of_ne_nil _ heligible
  have hcode : e.code = .internal := by
    refine place_eq_error ?_ hbuffer holdsAt_of_expire
      (List.ne_nil_of_mem (mem_byLoad.mpr hc)) (fun c hc => ?_) h
    · exact hzone.forward
    have hslot := of_decide_eq_true (List.mem_filter.mp (mem_byLoad.mp hc)).2
    exact Db.Slot.expire ⟨_, new.serviceId, new.memberId, earliest, hslot⟩
  rw [hcode]
  simp

/-! ## § The link's answer -/

theorem moveOne_eq_overlap {db : Db} {id : ℕ} {guard : Booking → Prop}
    [DecidablePred guard] {f : Booking → Booking} {hid : ∀ b, (f b).id = b.id}
    {hservice : ∀ b, (f b).serviceId = b.serviceId}
    (h : db.moveOne id guard f hid hservice = .overlap) :
    ∃ b ∈ db.bookings.rows, b.id = id ∧ db.excluded (f b) := by
  unfold Db.moveOne at h
  split at h
  · rename_i hrow
    obtain ⟨b, hb, ⟨hbid, _⟩, hexcl⟩ := hrow
    exact ⟨b, hb, hbid, hexcl⟩
  · split at h <;> cases h

/-- A move to an offered start meets no other booking. -/
theorem moveOne_ne_overlap {db : Db} {now start buffer : ℤ} {row : Booking}
    {guard : Booking → Prop} [DecidablePred guard] {f : Booking → Booking}
    {hid : ∀ b, (f b).id = b.id} {hservice : ∀ b, (f b).serviceId = b.serviceId}
    (hslot : db.Slot now (f row).workerId start row.length buffer (some row.id))
    (hzone : db.settings.timezone.Forward) (hwhole : minute ∣ row.endsAt - row.startsAt)
    (hbuffer : 0 ≤ buffer)
    (hswept : ∀ r ∈ db.bookings.rows, r.status ∈ occupying → r.holdsAt now)
    (hrow : row ∈ db.bookings.rows) (hf : row.MovedTo (f row) start) :
    db.moveOne row.id guard f hid hservice ≠ .overlap := by
  intro hoverlap
  obtain ⟨b, hb, hbid, hexcl⟩ := moveOne_eq_overlap hoverlap
  have hb' : b = row := db.bookings.eq_of_key hb hrow hbid
  subst hb'
  have hend : (f b).endsAt = start + b.length * minute := by
    have := hf.span
    have := hf.startsAt
    rw [length_mul_minute hwhole]
    omega
  refine not_excluded_of_slot hslot hzone (length_pos hwhole) hbuffer hswept rfl hf.startsAt
    hend ?_ hexcl
  intro k hk
  cases hk
  exact hf.id

/-- What the link's read offers is offered on the start's own day. -/
theorem linkSlots_asked {db : Db} {row : Booking} {now first last start : ℤ}
    (hzone : db.settings.timezone.Spaced) (hdates : db.settings.timezone.DatesForward)
    (hwhole : minute ∣ row.endsAt - row.startsAt)
    (h : start ∈ (linkSlots db row db.settings now now first last).getD []) :
    start ∈ (linkSlots db row db.settings now now (dateAt db.settings.timezone start)
      (dateAt db.settings.timezone start)).getD [] := by
  unfold linkSlots at h ⊢
  cases hservice : db.service row.serviceId with
  | none => simp [hservice] at h
  | some service =>
      simp only [hservice, Option.map_some, Option.getD_some] at h ⊢
      have hbuffer : 0 ≤ bufferFor row.length service.bufferMinutes db.settings.bufferPct :=
        bufferFor_nonneg row.length_range.1 db.settings.bufferPct_range.1
          fun m hm => (service.buffer m hm).1
      obtain ⟨earliest, hwindow, hnarrow⟩ :=
        slotsOf_asked hzone hdates (length_pos hwhole) hbuffer h
      simp only [hwindow]
      exact hnarrow _ _ (List.mem_singleton_self _) rfl

theorem orRaise_eq_error {moved : Moved} {err e : ApiError} (hne : moved ≠ .overlap)
    (h : moved.orRaise err = .error e) : e = err := by
  cases moved with
  | written => cases h
  | noRow =>
      cases h
      rfl
  | overlap => exact absurd rfl hne

/-- **What the booking link shows can be booked.** -/
theorem linkReschedule_of_shown {db : Db} {now : ℤ} {tokenHash : ℕ} {first last start : ℤ}
    {slots : List ℤ} (hzone : db.settings.timezone.Spaced)
    (hdates : db.settings.timezone.DatesForward) (hwhole : db.Whole)
    (hread : readLinkAvailability db now tokenHash first last = .ok slots)
    (hshown : start ∈ slots) {body : LinkMove} (hstart : body.startsAt = start)
    {e : ApiError} (h : linkReschedule db now tokenHash body = .error e) :
    e.code ≠ .notAllowed ∧ e.code ≠ .slotUnavailable ∧ e.code ≠ .slotTaken := by
  subst hstart
  simp only [readLinkAvailability, require_bind_eq_ok, found_bind_eq_ok] at hread
  obtain ⟨_, row, hrow, hread⟩ := hread
  cases hread
  rw [List.mem_insertionSort, List.mem_dedup] at hshown
  have hmem := (resolve_eq_some hrow).1
  -- the read shows nothing when the booking may not be moved
  have hmay : (db.decideFor row now).canReschedule = true := by
    by_contra hno
    rw [if_neg hno] at hshown
    cases hshown
  rw [if_pos hmay] at hshown
  have hasked := linkSlots_asked hzone hdates (hwhole row hmem) hshown
  have hslot := (slot_of_linkSlots hasked).expire
  have hrow1 := mem_expire_of_resolve hrow
  have hbuffer := (db.bufferOf_range row).1
  simp only [linkReschedule, found_bind_eq_error, require_bind_eq_error] at h
  rcases h with ⟨_, rfl⟩ | ⟨row', hrow', h⟩
  · simp
  rw [hrow, Option.some.injEq] at hrow'
  subst hrow'
  rcases h with ⟨_, rfl⟩ | ⟨_, h⟩
  · simp
  rcases h with ⟨hno, _⟩ | ⟨_, h⟩
  · exact absurd hmay hno
  rcases h with ⟨_, rfl⟩ | ⟨_, h⟩
  · simp
  rcases h with ⟨hno, _⟩ | ⟨_, h⟩
  · exact absurd hasked hno
  rcases bind_eq_error.mp h with hmove | ⟨_, _, hdone⟩
  · have he : e = ⟨409, .changed⟩ := by
      refine orRaise_eq_error ?_ hmove
      split
      · exact moveOne_ne_overlap hslot hzone.forward (hwhole row hmem) hbuffer
          holdsAt_of_expire hrow1 (movedTo_pendingMoved row body.startsAt)
      · exact moveOne_ne_overlap hslot hzone.forward (hwhole row hmem) hbuffer
          holdsAt_of_expire hrow1 (movedTo_rescheduled row body.startsAt)
    subst he
    simp
  · cases hdone

/-- Open on Thursdays 9:00–12:00, its page published. -/
def publicShop : Db :=
  .solo { Settings.defaults (.fixed 0) with published := true } halfHour [morning]

def guestBooks (start : ℤ) : OnlineRequest :=
  ⟨1, none, start, "guest", none, none, false, none, true, none, 1, 2⟩

/-- Two hours forward at 23:00 UTC, and back seventy minutes later. -/
def doubleJump : Zone := ⟨0, [(1380, 120), (1450, 0)], by decide⟩

/-- Open on Thursdays 22:00–23:30, the end of which is skipped. -/
def lateShop : Db :=
  .solo { Settings.defaults doubleJump with published := true } halfHour
    [⟨4, 1320, 1410, morning.iso, by decide, by decide⟩]

/-- A confirmed booking of the service, worker and client numbered 1. -/
def confirmedBooking (id : ℕ) (startsAt endsAt : ℤ) (ordered : startsAt < endsAt)
    (atMost12Hours : endsAt - startsAt ≤ longestBooking) : Booking :=
  ⟨id, 1, 1, 1, startsAt, endsAt, .confirmed, none, .merchant, 30, 1000, "EUR", false, none, 48, 24,
    some startsAt, some startsAt, 0, 2, ordered, atMost12Hours, confirmed_holds⟩

/-- A booking at 10:00 that lasts a second over half an hour, and one at 11:00. -/
def oddShop : Db :=
  { Db.solo (.defaults (.fixed 0)) ⟨1, 30, some 0, 1000, "EUR", false, halfHour.duration, by decide⟩
      [morning] with
    bookings := ⟨[confirmedBooking 1 (600 * minute) (630 * minute + 1000000) (by decide)
        (by decide),
      confirmedBooking 2 (660 * minute) (690 * minute) (by decide) (by decide)], by decide⟩
    links := [⟨1, 1⟩]
    booked_service := by decide }

end Ziftbook
