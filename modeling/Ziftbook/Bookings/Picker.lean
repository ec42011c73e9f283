import Ziftbook.Bookings.Shown

/-!
# The merchant's picker and the move

The merchant picks a new time from a read that sizes starts by the service as
it is now; the move keeps the booking's own length. They agree while the
booking is no longer than its service.
-/

namespace Ziftbook

open Foundation Foundation.Intervals

/-! ## § A shorter appointment in the same place -/

theorem Free.shorter {timeOff : List (ℤ × ℤ)} {booked : List Booked}
    {duration duration' buffer buffer' pct earliest t : ℤ}
    (h : Free timeOff booked duration buffer pct earliest t) (hduration : duration' ≤ duration)
    (hbuffer : buffer' ≤ buffer) : Free timeOff booked duration' buffer' pct earliest t := by
  have hlen : t + duration' * minute ≤ t + duration * minute := by rw [minute]; omega
  have htail : t + (duration' + buffer') * minute ≤ t + (duration + buffer) * minute := by
    rw [minute]; omega
  exact ⟨h.noticed, fun x hx hmeets => h.working x hx (Meets.mono_stop hmeets hlen),
    fun b hb hmeets => h.after b hb (Meets.mono_stop hmeets hlen),
    fun b hb hmeets => h.before b hb (Meets.mono_stop hmeets htail)⟩

theorem OnPiece.shorter {zone : Zone} {day duration duration' step : ℤ} {piece : ℤ × ℤ} {t : ℤ}
    (h : OnPiece zone day duration step piece t) (hduration : duration' ≤ duration) :
    OnPiece zone day duration' step piece t := by
  refine ⟨h.onGrid, (Set.Ico_subset_Ico_right ?_).trans h.inside⟩
  rw [minute]
  omega

/-- A start offered to an appointment is offered to a shorter one. -/
theorem slotsOf_shorter {db : Db} {now : ℤ} {members : List ℕ} {hours : List WorkingHour}
    {opening : List (ℤ × List (ℤ × ℤ))} {settings : Settings}
    {first last earliest duration duration' buffer buffer' t : ℤ} {exclude : Option ℕ} {m : ℕ}
    (hzone : settings.timezone.Forward) (hduration : 0 < duration') (hle : duration' ≤ duration)
    (hbuffer : 0 ≤ buffer') (hle' : buffer' ≤ buffer)
    (h : t ∈ (offered db now members hours opening settings first last earliest duration buffer
      exclude).slotsOf m) :
    t ∈ (offered db now members hours opening settings first last earliest duration' buffer'
      exclude).slotsOf m := by
  obtain ⟨hm, hdays, hslot⟩ := mem_slotsOf_offered.mp h
  obtain ⟨⟨day, hday, piece, hpiece, hon⟩, hfree⟩ :=
    (mem_memberSlots hzone (timeOffOf_forward hzone) (hduration.trans_le hle)
      (hbuffer.trans hle') settings.bufferPct_range.1 settings.slotStep_pos).mp hslot
  refine mem_slotsOf_offered.mpr ⟨hm, hdays, ?_⟩
  exact (mem_memberSlots hzone (timeOffOf_forward hzone) hduration hbuffer
    settings.bufferPct_range.1 settings.slotStep_pos).mpr
    ⟨⟨day, hday, piece, hpiece, hon.shorter hle⟩, hfree.shorter hle hle'⟩

/-! ## § The move of a picked start -/

theorem readMerchantAvailability_eq_ok {db : Db} {now : ℤ} {current : Session}
    {serviceId : ℕ} {memberId : Option ℕ} {first last : ℤ} {exclude : Option ℕ} {answer : Answer}
    (h : readMerchantAvailability db now current serviceId memberId first last exclude =
      .ok answer) :
    ∃ service, db.service serviceId = some service ∧
      answer = compute db now service memberId first last exclude := by
  simp only [readMerchantAvailability, require_bind_eq_ok, found_bind_eq_ok] at h
  obtain ⟨_, service, hservice, _, h⟩ := h
  cases h
  exact ⟨service, hservice, rfl⟩

theorem eligibleFor_mem {db : Db} {now : ℤ} {settings : Settings} {hours : List WorkingHour}
    {start duration earliest : ℤ} {bufferMinutes : Option ℤ} {exclude : Option ℕ} {m : ℕ}
    (hwindow : window now settings.timezone (dateAt settings.timezone start)
      (dateAt settings.timezone start) settings.minNoticeMinutes settings.bookingHorizonDays =
        (dateAt settings.timezone start, dateAt settings.timezone start, earliest))
    (hm : m ∈ candidateIds hours)
    (hslot : start ∈ (offered db now (candidateIds hours) hours (byWeekday db.openingHours)
      settings (dateAt settings.timezone start) (dateAt settings.timezone start) earliest duration
      (bufferFor duration bufferMinutes settings.bufferPct) exclude).slotsOf m) :
    m ∈ (eligibleFor db now settings hours start duration bufferMinutes exclude).1 := by
  unfold eligibleFor
  simp only [hwindow]
  rw [if_neg (lt_irrefl _)]
  exact List.mem_filter.mpr ⟨hm, decide_eq_true hslot⟩

/-- **A picked start can be moved to**, of a booking no longer than its service. -/
theorem reschedule_of_picked {db : Db} {now : ℤ} {reader mover : Session}
    {memberId : Option ℕ} {first last start : ℤ} {answer : Answer} {b : Booking}
    (hzone : db.settings.timezone.Spaced) (hdates : db.settings.timezone.DatesForward)
    (hwhole : db.Whole) (hb : b ∈ db.bookings.rows)
    (hlength : ∀ service ∈ db.service b.serviceId, b.length ≤ service.durationMinutes)
    (hread : readMerchantAvailability db now reader b.serviceId memberId first last (some b.id) =
      .ok answer)
    (hoffer : answer.offers b.workerId start) {change : MerchantMove}
    (hstart : change.startsAt = start)
    (hworker : change.memberId = none ∨ change.memberId = some b.workerId) {e : ApiError}
    (h : reschedule db now mover b.id change = .error e) :
    e.code ≠ .slotUnavailable ∧ e.code ≠ .slotTaken := by
  subst hstart
  obtain ⟨service, hservice, rfl⟩ := readMerchantAvailability_eq_ok hread
  have hid := (service_eq_some hservice).2
  have hle := hlength service hservice
  have hwholeB := hwhole b hb
  have hpos := length_pos hwholeB
  have hbuffer : 0 ≤ bufferFor b.length service.bufferMinutes db.settings.bufferPct :=
    bufferFor_nonneg hpos.le db.settings.bufferPct_range.1 fun m hm => (service.buffer m hm).1
  have hbuffers : bufferFor b.length service.bufferMinutes db.settings.bufferPct ≤
      bufferFor service.durationMinutes service.bufferMinutes db.settings.bufferPct :=
    bufferFor_mono hle db.settings.bufferPct_range.1
  have hshown := slot_of_offers hoffer
  obtain ⟨earliest, hwindow, hnarrow⟩ := slotsOf_asked hzone hdates (hpos.trans_le hle)
    (hbuffer.trans hbuffers) hshown
  have hchosen : b.workerId ∈ candidateIds (db.candidates service.id none) :=
    (List.mem_filter.mp (mem_slotsOf_offered.mp hshown).1).1
  rw [hid] at hchosen hnarrow
  have hcandidate := candidate_of_named (Or.inr rfl) hchosen
  have hasked := slotsOf_shorter hzone.forward hpos hle hbuffer hbuffers
    (hnarrow _ _ hcandidate (hoursOf_named (Or.inr rfl)))
  have hwhom : change.memberId.getD b.workerId = b.workerId := by
    rcases hworker with hnone | hsome
    · rw [hnone]
      rfl
    · rw [hsome]
      rfl
  simp only [reschedule, found_bind_eq_error, require_bind_eq_error] at h
  rcases h with ⟨_, rfl⟩ | ⟨row, hrow, h⟩
  · simp
  have hrow' : row = b := by
    obtain ⟨hmem, hrid⟩ := Table.find_eq_some.mp hrow
    exact db.bookings.eq_of_key hmem hb hrid
  subst hrow'
  simp only [hwhom] at h
  rcases h with ⟨_, rfl⟩ | ⟨_, _, h⟩
  · simp
  rcases h with ⟨_, rfl⟩ | ⟨_, h⟩
  · simp
  rcases h with ⟨_, rfl⟩ | ⟨_, h⟩
  · simp
  rcases h with ⟨_, rfl⟩ | ⟨hconfirmed, h⟩
  · simp
  rcases h with ⟨_, rfl⟩ | ⟨_, h⟩
  · simp
  obtain ⟨w, hw, _⟩ := mem_candidateIds.mp hcandidate
  rcases h with ⟨hno, _⟩ | ⟨_, h⟩
  · exact absurd (List.ne_nil_of_mem hw) hno
  rcases h with ⟨hno, _⟩ | ⟨_, h⟩
  · exact absurd (Or.inr (Option.isSome_iff_exists.mpr ⟨service, hservice⟩)) hno
  rcases h with ⟨hno, _⟩ | ⟨_, h⟩
  · refine absurd (Or.inr (List.ne_nil_of_mem (eligibleFor_mem hwindow hcandidate ?_))) hno
    have hservice1 : (db.expire now).service row.serviceId = some service := hservice
    rw [hservice1, offered_expire]
    exact hasked
  have hslot : (db.expire now).Slot now row.workerId change.startsAt row.length _ (some row.id) :=
    Db.Slot.expire ⟨_, row.serviceId, some row.workerId, earliest, hasked⟩
  rcases bind_eq_error.mp h with hmove | ⟨_, _, hdone⟩
  · have he : e = ⟨409, .invalidTransition⟩ := by
      refine orRaise_eq_error ?_ hmove
      exact moveOne_ne_overlap hslot hzone.forward hwholeB hbuffer holdsAt_of_expire
        (mem_expire_of_live hb (Or.inl (by rw [hconfirmed]; decide)))
        (movedTo_movedBy row change.startsAt row.workerId _)
    subst he
    simp
  · cases hdone

/-- **The picker agrees with the move** in every state a run reaches, for a
booking no longer than its service has since become. -/
theorem picker_of_run {w w' : World} {es : List (ℤ × Op)} (hempty : w.db.bookings.rows = [])
    (hrun : w.run es = some w') (hzone : w'.db.settings.timezone.Spaced)
    (hdates : w'.db.settings.timezone.DatesForward) {b : Booking}
    (hb : b ∈ w'.db.bookings.rows)
    (hlength : ∀ service ∈ w'.db.service b.serviceId, b.length ≤ service.durationMinutes)
    {now : ℤ} {reader mover : Session} {memberId : Option ℕ} {first last : ℤ} {answer : Answer}
    (hread : readMerchantAvailability w'.db now reader b.serviceId memberId first last
      (some b.id) = .ok answer) {change : MerchantMove}
    (hoffer : answer.offers b.workerId change.startsAt)
    (hworker : change.memberId = none ∨ change.memberId = some b.workerId) {e : ApiError}
    (h : reschedule w'.db now mover b.id change = .error e) :
    e.code ≠ .slotUnavailable ∧ e.code ≠ .slotTaken :=
  reschedule_of_picked hzone hdates (whole_run hempty hrun) hb hlength hread hoffer rfl hworker h

/-- Thursday 9:30 is picked for the booking of 10:00. -/
theorem picker_of_run_thursday :
    ∃ w, thursdayShop.run [(0, ownerBooks 1 (600 * minute))] = some w ∧
      ∃ b ∈ w.db.bookings.rows, ∃ answer,
        readMerchantAvailability w.db 0 owner b.serviceId none 0 0 (some b.id) = .ok answer ∧
        answer.offers b.workerId (570 * minute) ∧
        ∀ e, reschedule w.db 0 owner b.id ⟨570 * minute, none, false, none⟩ = .error e →
          e.code ≠ .slotUnavailable ∧ e.code ≠ .slotTaken := by
  have hfacts : ∀ w ∈ thursdayShop.run [(0, ownerBooks 1 (600 * minute))],
      w.db.settings.timezone.Spaced ∧ w.db.settings.timezone.changes = [] ∧
      ∃ b ∈ w.db.bookings.rows, (∀ service ∈ w.db.service b.serviceId,
        b.length ≤ service.durationMinutes) ∧
        readMerchantAvailability w.db 0 owner b.serviceId none 0 0 (some b.id) =
          .ok (compute w.db 0 halfHour none 0 0 (some b.id)) ∧
        (compute w.db 0 halfHour none 0 0 (some b.id)).slots[2]? = some (570 * minute) ∧
        (compute w.db 0 halfHour none 0 0 (some b.id)).slotWorkers[2]? = some [0] ∧
        (compute w.db 0 halfHour none 0 0 (some b.id)).workers[0]? = some b.workerId := by
    decide +kernel
  obtain ⟨w, hrun⟩ := Option.isSome_iff_exists.mp (by decide +kernel :
    (thursdayShop.run [(0, ownerBooks 1 (600 * minute))]).isSome)
  obtain ⟨hzone, hfixed, b, hb, hlength, hread, hslot, htakers, hwho⟩ := hfacts w hrun
  have hdates : w.db.settings.timezone.DatesForward := by
    intro u v huv
    simp only [Zone.reading, hfixed, offsetAt, dayMinutes]
    omega
  have hoffer : (compute w.db 0 halfHour none 0 0 (some b.id)).offers b.workerId
      (570 * minute) := ⟨0, 2, [0], hslot, htakers, List.mem_singleton_self _, hwho⟩
  refine ⟨w, hrun, b, hb, _, hread, hoffer, fun e h => ?_⟩
  refine picker_of_run rfl hrun hzone hdates hb hlength hread ?_ ?_ h
  · exact hoffer
  · exact Or.inl rfl

/-! ## § After a service is shortened -/

/-- The shop of `thursdayShop`, its service an hour long. -/
def hourShop : World :=
  ⟨.solo (.defaults (.fixed 0)) ⟨1, 60, some 30, 1000, "EUR", false, freeHour.duration,
    halfHour.buffer⟩ [morning], 0⟩

/-- An hour is booked at 10:00, and the service then halved. -/
def shortened : List (ℤ × Op) :=
  [(0, ownerBooks 1 (600 * minute)), (0, .edit (.updateService halfHour))]

theorem picked_but_refused :
    ∃ w, hourShop.run shortened = some w ∧ ∃ b ∈ w.db.bookings.rows, b.status = .confirmed ∧
      ∃ answer, readMerchantAvailability w.db 0 owner b.serviceId none 0 0 (some b.id) =
        .ok answer ∧ answer.offers b.workerId (690 * minute) ∧
        reschedule w.db 0 owner b.id ⟨690 * minute, none, false, none⟩ =
          .error ⟨409, .slotUnavailable⟩ := by
  have hfacts : ∀ w ∈ hourShop.run shortened, ∃ b ∈ w.db.bookings.rows, b.status = .confirmed ∧
        readMerchantAvailability w.db 0 owner b.serviceId none 0 0 (some b.id) =
          .ok (compute w.db 0 halfHour none 0 0 (some b.id)) ∧
        (compute w.db 0 halfHour none 0 0 (some b.id)).slots[10]? = some (690 * minute) ∧
        (compute w.db 0 halfHour none 0 0 (some b.id)).slotWorkers[10]? = some [0] ∧
        (compute w.db 0 halfHour none 0 0 (some b.id)).workers[0]? = some b.workerId ∧
        refusal (reschedule w.db 0 owner b.id ⟨690 * minute, none, false, none⟩) =
          some ⟨409, .slotUnavailable⟩ := by
    decide +kernel
  obtain ⟨w, hrun⟩ := Option.isSome_iff_exists.mp
    (by decide +kernel : (hourShop.run shortened).isSome)
  obtain ⟨b, hb, hstatus, hread, hslot, htakers, hwho, hrefused⟩ := hfacts w hrun
  exact ⟨w, hrun, b, hb, hstatus, _, hread,
    ⟨0, 10, [0], hslot, htakers, List.mem_singleton_self _, hwho⟩, refusal_eq_some.mp hrefused⟩

end Ziftbook
