import Ziftbook.Ledger.Reapplied

/-!
# Runs that finish every client

`reapply` as a whole: its reads, its refusals, its one transaction, and a second run over
the same entries. `read` passes entries up to `SKEW` ahead, and there lies the one way a run
raises.
-/

namespace Ziftbook

open Foundation

variable {clock : SessionClock} {now : ℤ} {e : LedgerEntry} {es entries : List LedgerEntry}
  {b b' : Business} {r r' : Restored} {p : Python} {ledger : Ledger} {run : ReapplyRun}
  {skipped : List (List Char)}

/-! ## § The run -/

/-- Past its reads and refusals a run is its loop, and the audit event. -/
theorem Restored.reapply_eq
    (hread : ledger.read p run.since run.skip run.latest = .ok (entries, skipped))
    (hwindow : r.checkWindow run.checkedAt (run.since.map Stamp.instant) entries = .ok ())
    (halone : run.alone = true) (hconnected : run.connected = 0) :
    r.reapply p clock ledger run =
      (entries.foldlM (reapplyEntry clock run.now)
        (r, ⟨entries.length, 0, 0, 0, 0, [], skipped⟩) >>= fun out =>
          .ok ({ out.1 with audit := out.1.audit ++ [⟨run.now, some out.2⟩] }, out.2)) := by
  simp only [Restored.reapply, hread, Except.mapError, except_ok_bind, hwindow, halone,
    Bool.true_eq_false, if_false, hconnected, ne_eq, not_true_eq_false]
  rfl

/-- A run that returns ran its loop over the entries it read. -/
theorem Restored.reapply_cases {out : Restored × Report}
    (hread : ledger.read p run.since run.skip run.latest = .ok (entries, skipped))
    (h : r.reapply p clock ledger run = .ok out) :
    ∃ last, entries.foldlM (reapplyEntry clock run.now)
        (r, ⟨entries.length, 0, 0, 0, 0, [], skipped⟩) = .ok last ∧
      out = ({ last.1 with audit := last.1.audit ++ [⟨run.now, some last.2⟩] }, last.2) := by
  cases hwindow : r.checkWindow run.checkedAt (run.since.map Stamp.instant) entries with
  | error err =>
      simp only [Restored.reapply, hread, Except.mapError, except_ok_bind, hwindow] at h
      exact absurd h (by rintro ⟨⟩)
  | ok _ =>
      by_cases halone : run.alone = false
      · simp only [Restored.reapply, hread, Except.mapError, except_ok_bind, hwindow,
          if_pos halone] at h
        exact absurd h (by rintro ⟨⟩)
      · by_cases hconnected : run.connected ≠ 0
        · simp only [Restored.reapply, hread, Except.mapError, except_ok_bind, hwindow,
            if_neg halone, if_pos hconnected] at h
          exact absurd h (by rintro ⟨⟩)
        · rw [Restored.reapply_eq hread hwindow (by simpa using halone) (by simpa using hconnected)]
            at h
          cases hfold : entries.foldlM (reapplyEntry clock run.now)
              (r, ⟨entries.length, 0, 0, 0, 0, [], skipped⟩) with
          | error err =>
              rw [hfold] at h
              exact absurd h (by rintro ⟨⟩)
          | ok last =>
              rw [hfold] at h
              exact ⟨last, rfl, (Except.ok.inj h).symm⟩

/-- Every client of `r` the entries list is erased in `r'`. -/
def AllErased (entries : List LedgerEntry) (r r' : Restored) : Prop :=
  ∀ e ∈ entries, ∀ b ∈ r.businesses.rows, ∀ c ∈ b.db.clients.rows, e.isFor b.id c.id →
    ∃ b' ∈ r'.businesses.rows, b'.id = b.id ∧
      ∃ c' ∈ b'.db.clients.rows, c'.id = c.id ∧ c'.erased = true

/-- A run over the entries finishes every client they list: it raises nothing, the bookings
the core would refuse over are ended as of an entry's time, and a second run over the same
entries changes no business and no job. -/
structure Finishes (p : Python) (clock : SessionClock) (ledger : Ledger) (run : ReapplyRun)
    (r : Restored) (entries : List LedgerEntry) : Prop where
  returns : ∃ out, r.reapply p clock ledger run = .ok out
  ends : ∀ e ∈ entries, ∀ b ∈ r.businesses.rows, e.WaitsIn b → ∀ k ∈ b.db.bookings.rows,
    k.endsForErasure e.clientId.number run.now →
      ∃ b' ∈ (r.afterReapply p clock ledger run).businesses.rows, b'.id = b.id ∧
        ∃ k' ∈ b'.db.bookings.rows, ∃ e' ∈ entries, e'.isFor b.id e.clientId.number ∧
          k.endsForErasure e.clientId.number e'.erasedAt.instant ∧ k' = k.endedByErasure
  erased : AllErased entries r (r.afterReapply p clock ledger run)
  again : ∀ p' clock' ledger' run' skipped',
    Ledger.read p' ledger' run'.since run'.skip run'.latest = .ok (entries, skipped') →
      ((r.afterReapply p clock ledger run).afterReapply p' clock' ledger' run').businesses =
        (r.afterReapply p clock ledger run).businesses ∧
      ((r.afterReapply p clock ledger run).afterReapply p' clock' ledger' run').jobs =
        (r.afterReapply p clock ledger run).jobs

theorem Restored.Progress.allErased (hp : r.Progress now es r') : AllErased es r r' := by
  intro e he b hb c hc hfor
  obtain ⟨b', hb', hrel⟩ := hp.forth b hb
  obtain ⟨c', hc', hid⟩ := (hrel.held c.id).mpr ⟨c, hc, rfl⟩
  refine ⟨b', hb', hrel.id, c', hc', hid, ?_⟩
  rw [b'.erased_iff c' hc', hid]
  exact hrel.erased e he c.id hfor ⟨c, hc, rfl⟩

/-- Nobody an entry lists waits once the loop has been over it. -/
theorem Restored.Progress.none_waits (hp : r.Progress now es r') (he : e ∈ es)
    (hb' : b' ∈ r'.businesses.rows) : ¬ e.WaitsIn b' := by
  rintro ⟨hid, hheld, hnone⟩
  obtain ⟨b, _, hrel⟩ := hp.back b' hb'
  have hsome := hrel.erased e he _ ⟨hid.symm.trans hrel.id, rfl⟩ ((hrel.held _).mp hheld)
  rw [hnone] at hsome
  exact Bool.false_ne_true hsome

theorem Restored.Progress.ends (hp : r.Progress now es r') (he : e ∈ es)
    (hb : b ∈ r.businesses.rows) (hwaits : e.WaitsIn b) {k : Booking}
    (hk : k ∈ b.db.bookings.rows) (hlive : k.endsForErasure e.clientId.number now) :
    ∃ b' ∈ r'.businesses.rows, b'.id = b.id ∧ ∃ k' ∈ b'.db.bookings.rows, ∃ e' ∈ es,
      e'.isFor b.id e.clientId.number ∧
        k.endsForErasure e.clientId.number e'.erasedAt.instant ∧ k' = k.endedByErasure := by
  obtain ⟨b', hb', hrel⟩ := hp.forth b hb
  obtain ⟨k', hk', hfrom⟩ := hrel.ended k hk
  rcases hfrom with rfl | ⟨e', he', hfor, hends, rfl⟩
  · have hfor : e.isFor b.id e.clientId.number := ⟨hwaits.1.symm, rfl⟩
    exact absurd hlive (hrel.clear e he _ hfor hwaits.2.1 hwaits.2.2 k' hk')
  · rw [hlive.1] at hfor hends
    exact ⟨b', hb', hrel.id, _, hk', e', he', hfor, hends, rfl⟩

/-- A second run over the same entries leaves every business and the jobs. -/
theorem Restored.Progress.again (hp : r.Progress now entries r')
    (hread : ledger.read p run.since run.skip run.latest = .ok (entries, skipped)) :
    (r'.afterReapply p clock ledger run).businesses = r'.businesses ∧
      (r'.afterReapply p clock ledger run).jobs = r'.jobs := by
  unfold Restored.afterReapply
  cases hrun : r'.reapply p clock ledger run with
  | error err => exact ⟨rfl, rfl⟩
  | ok out =>
      obtain ⟨last, hlast, rfl⟩ := Restored.reapply_cases hread hrun
      obtain ⟨report', hskips⟩ := @fold_skips clock run.now r' entries
        (fun e he b hb => hp.none_waits he hb) ⟨entries.length, 0, 0, 0, 0, [], skipped⟩
      rw [hskips] at hlast
      obtain rfl := Except.ok.inj hlast
      exact ⟨rfl, rfl⟩

/-- **Re-applied erasures finish the client unless the entry's time is ahead of the
database's.** A run applies every entry or changes nothing. It finishes every client listed
exactly when none of them, at its first entry, has a booking that is still to come by the
transaction's clock and no longer by the entry's time. -/
theorem reapply_finishes_iff (p : Python) (clock : SessionClock) (ledger : Ledger)
    (run : ReapplyRun) (r : Restored) (entries : List LedgerEntry) (skipped : List (List Char))
    (hread : ledger.read p run.since run.skip run.latest = .ok (entries, skipped))
    (hwindow : r.checkWindow run.checkedAt (run.since.map Stamp.instant) entries = .ok ())
    (halone : run.alone = true) (hconnected : run.connected = 0) :
    (AllErased entries r (r.afterReapply p clock ledger run) ∨
      r.afterReapply p clock ledger run = r) ∧
    (Finishes p clock ledger run r entries ↔ NoneStranded r run.now [] entries) := by
  have hp := Restored.Progress.refl run.now r
  have hloop := @Restored.Progress.fold_iff clock run.now r entries [] r
    ⟨entries.length, 0, 0, 0, 0, [], skipped⟩ hp
  have hdone : ∀ out, r.reapply p clock ledger run = .ok out →
      r.Progress run.now entries (r.afterReapply p clock ledger run) := by
    intro out hout
    obtain ⟨last, hlast, rfl⟩ := Restored.reapply_cases hread hout
    have hlastp := hp.fold entries hlast
    unfold Restored.afterReapply
    rw [hout]
    exact ⟨hlastp.forth, hlastp.back⟩
  refine ⟨?_, ?_, ?_⟩
  · cases hrun : r.reapply p clock ledger run with
    | error err =>
        right
        unfold Restored.afterReapply
        rw [hrun]
    | ok out => exact Or.inl (hdone out hrun).allErased
  · rintro ⟨⟨out, hout⟩, _, _, _⟩
    obtain ⟨last, hlast, _⟩ := Restored.reapply_cases hread hout
    exact hloop.mp ⟨last, hlast⟩
  · intro hnone
    obtain ⟨last, hlast⟩ := hloop.mpr hnone
    have hrun : r.reapply p clock ledger run = _ :=
      Restored.reapply_eq hread hwindow halone hconnected
    rw [hlast, except_ok_bind] at hrun
    have hprogress := hdone _ hrun
    exact ⟨⟨_, hrun⟩, fun e he b hb hwaits k hk hlive => hprogress.ends he hb hwaits hk hlive,
      hprogress.allErased, fun _ _ _ _ _ hread' => hprogress.again hread'⟩

/-- An entry dated by the transaction's clock strands nobody. -/
theorem not_strands_of_le (h : e.erasedAt.instant ≤ now) : ¬ e.Strands r now := by
  rintro ⟨b, _, _, k, _, _, ⟨_, hlater, hover⟩ | ⟨_, d, _, hlater, hover⟩⟩
  · omega
  · omega

theorem noneStranded_of_le (h : ∀ e ∈ entries, e.erasedAt.instant ≤ now) :
    NoneStranded r now es entries := by
  rintro before e after rfl _
  exact not_strands_of_le (h e (by simp))

/-- The client erased at noon, with an appointment a minute before it. -/
def elevenFiftyNine : Booking where
  id := 7
  clientId := 3
  workerId := 1
  serviceId := 1
  startsAt := erasedAtNoon.erasedAt.instant - minute
  endsAt := erasedAtNoon.erasedAt.instant + 29 * minute
  status := .confirmed
  expiresAt := none
  source := .bookingPage
  durationMinutes := 30
  priceAmountMinor := 1000
  priceCurrency := "EUR"
  autoConfirmAtBooking := true
  workerDisplayName := none
  freeCancellationHours := 48
  rescheduleCutoffHours := 24
  originalStartsAt := some (erasedAtNoon.erasedAt.instant - minute)
  earliestStartsAt := some (erasedAtNoon.erasedAt.instant - minute)
  rescheduleCount := 0
  maxReschedules := 2
  ordered := by decide +kernel
  atMost12Hours := by decide +kernel
  holds := confirmed_holds

/-- The backup of that morning. -/
def noonBackup : Restored where
  businesses := ⟨[{
    id := 1
    db := { Db.solo (.defaults (.fixed 0)) halfHour [] with
      clients := ⟨[⟨3, none, false⟩], by simp⟩
      bookings := ⟨[elevenFiftyNine], by simp⟩
      booked_service := by simp [elevenFiftyNine, Db.solo, halfHour] }
    erasedAt := fun _ => none
    writtenAt := none
    erased_iff := by simp }], by simp⟩
  jobs := .empty
  audit := []

def utcClock : SessionClock := ⟨fun at_ => at_ + 30 * oneDay, fun _ => "2026-03-31T12:00:00+00:00"⟩

/-- A run two minutes from noon: `sooner` before it, or after. -/
def nearNoon (sooner : Bool) : ReapplyRun where
  since := none
  skip := []
  readAt := erasedAtNoon.erasedAt.instant + if sooner then -2 * minute else 2 * minute
  latest := { erasedAtNoon.erasedAt with
    minute := if sooner then 3 else 7
    minute_range := by split <;> decide }
  latest_eq := by cases sooner <;> decide +kernel
  checkedAt := erasedAtNoon.erasedAt.instant
  now := erasedAtNoon.erasedAt.instant + if sooner then -2 * minute else 2 * minute
  alone := true
  connected := 0

theorem nearNoon_reads (sooner : Bool) :
    twoErasures.read noOtherText (nearNoon sooner).since (nearNoon sooner).skip
      (nearNoon sooner).latest = .ok ([erasedAtNine, erasedAtNoon], []) ∧
    noonBackup.checkWindow (nearNoon sooner).checkedAt ((nearNoon sooner).since.map Stamp.instant)
      [erasedAtNine, erasedAtNoon] = .ok () := by
  cases sooner <;> decide +kernel

theorem reapply_finishes_after_noon :
    Finishes noOtherText utcClock twoErasures (nearNoon false) noonBackup
      [erasedAtNine, erasedAtNoon] :=
  (reapply_finishes_iff noOtherText utcClock twoErasures (nearNoon false) noonBackup
    [erasedAtNine, erasedAtNoon] [] (nearNoon_reads false).1 (nearNoon_reads false).2 rfl
      rfl).2.mpr (noneStranded_of_le (by decide +kernel))

/-- Two minutes before noon by the database, inside the five `read` allows: the appointment
at 11:59 is over at noon, so nothing ends it, and the core raises. -/
theorem reapply_raises_before_noon :
    twoErasures.read noOtherText (nearNoon true).since (nearNoon true).skip
        (nearNoon true).latest = .ok ([erasedAtNine, erasedAtNoon], []) ∧
      noonBackup.checkWindow (nearNoon true).checkedAt ((nearNoon true).since.map Stamp.instant)
        [erasedAtNine, erasedAtNoon] = .ok () ∧
      (nearNoon true).alone = true ∧ (nearNoon true).connected = 0 ∧
      ¬ Finishes noOtherText utcClock twoErasures (nearNoon true) noonBackup
        [erasedAtNine, erasedAtNoon] := by
  refine ⟨(nearNoon_reads true).1, (nearNoon_reads true).2, rfl, rfl, ?_⟩
  rintro ⟨⟨out, hout⟩, _, _, _⟩
  obtain ⟨last, hlast, _⟩ := Restored.reapply_cases (nearNoon_reads true).1 hout
  have hloop := (Restored.Progress.fold_iff _ (Restored.Progress.refl _ _)).mp ⟨last, hlast⟩
  refine hloop [erasedAtNine] erasedAtNoon [] rfl (by decide +kernel) ?_
  refine ⟨_, List.mem_singleton.mpr rfl, ⟨rfl, ⟨_, List.mem_singleton.mpr rfl, rfl⟩, rfl⟩,
    elevenFiftyNine, List.mem_singleton.mpr rfl, rfl, Or.inl ⟨rfl, ?_, ?_⟩⟩
  · decide +kernel
  · decide +kernel

end Ziftbook
