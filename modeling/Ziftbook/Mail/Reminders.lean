import Ziftbook.Mail.Confirming
import Ziftbook.Mail.Once
import Ziftbook.Mail.Sending

/-!
# Reminders follow the appointment

A reminder is keyed by its start, so a booking moved away and back meets its own old
job. While that job has not finished it is the reminder again; a finished one that is
still kept takes the new one's place and sends nothing.
-/

namespace Ziftbook

open Foundation Bookings

/-! ## § The queue on the wall clock -/

theorem prompt_postAll (tenant : ℕ) {now wall : ℤ} (hnow : now ≤ wall) (ls : List Letter)
    {w : Workshop} (h : w.Prompt wall) :
    Workshop.Prompt { w with jobs := w.jobs.postAll tenant now ls } wall := by
  induction ls generalizing w with
  | nil => exact h
  | cons l ls ih =>
      have hposted : Workshop.Prompt { w with jobs := w.jobs.post tenant now l } wall :=
        @prompt_step w _ now wall (.enqueue .emailBooking (l.key.dedupeKey tenant) l.dueAt) h
          hnow rfl
      exact ih hposted

/-- What is known of the queue: its jobs are of letters, and none ended early. -/
structure Office.Timed (o : Office) : Prop where
  recorded : o.Recorded
  prompt : o.shop.Prompt o.wall

theorem Office.Blank.timed {o : Office} (h : o.Blank) : o.Timed := by
  refine ⟨h.recorded, ?_⟩
  rw [h.shop]
  exact prompt_empty o.wall

theorem timed_step {o o' : Office} {e : ℤ × OfficeMove} (h : o.Timed)
    (hstep : o.step e = some o') : o'.Timed := by
  refine ⟨recorded_step h.recorded hstep, ?_⟩
  cases office_stepped hstep with
  | deed wall m overQuota hwall hopened _ _ hshop hwall' _ _ =>
      rw [hshop, hwall']
      exact prompt_postAll o.tenant hopened _ (h.prompt.mono hwall)
  | work wall now w hwall hnow _ hshop _ _ hwall' _ _ =>
      rw [hwall']
      exact prompt_step (h.prompt.mono hwall) hnow hshop

theorem timed_run {o o' : Office} {es : List (ℤ × OfficeMove)} (h : o.Blank)
    (hrun : o.run es = some o') : o'.Timed :=
  Runs.run_invariant' (fun _ _ _ hs hstep => timed_step hs hstep) h.timed hrun

/-! ## § The reminder of a start -/

def reminderKey (tenant id : ℕ) (startsAt : ℤ) : String :=
  (reminder id startsAt).key.dedupeKey tenant

/-- A reminder job for exactly that start is in the queue, not yet finished. -/
def Workshop.Reminds (w : Workshop) (tenant id : ℕ) (startsAt wall : ℤ) : Prop :=
  ∃ j ∈ w.jobs.table.rows, j.Carries tenant (reminder id startsAt) ∧ ¬ j.finished wall

/-- No job that is kept for that start has finished. -/
def Workshop.Unfinished (w : Workshop) (tenant id : ℕ) (startsAt wall : ℤ) : Prop :=
  ∀ j ∈ w.jobs.table.rows, j.dedupeKey = reminderKey tenant id startsAt → ¬ j.finished wall

theorem reminder_proper (id : ℕ) (startsAt : ℤ) : (reminder id startsAt).key.Proper :=
  ⟨rfl, fun _ => rfl⟩

/-- A kept job with a reminder's key is the reminder's. -/
theorem Office.Recorded.reminder {o : Office} (h : o.Recorded) {j : Job}
    (hj : j ∈ o.shop.jobs.table.rows) {id : ℕ} {startsAt : ℤ}
    (hkey : j.dedupeKey = reminderKey o.tenant id startsAt) :
    j.Carries o.tenant (reminder id startsAt) := by
  obtain ⟨l, hl, hcarries⟩ := h.jobs j hj (hkey ▸ bookingText_isPrefix o.tenant _)
  have hsame := dedupeKey_inj (h.written l hl).proper (reminder_proper id startsAt)
    (hcarries.dedupeKey.symm.trans hkey)
  have hnot : ¬ l.email := by
    show ¬ l.key.template ≠ .bookingReminder
    rw [hsame]
    exact fun hne => hne rfl
  obtain ⟨id', startsAt', rfl⟩ := (h.written l hl).reminder hnot
  obtain ⟨rfl, _, hsuffix, _⟩ := MailKey.mk.inj hsame
  rw [KeySuffix.start.inj hsuffix] at hcarries
  exact hcarries

/-- **A reminder does not finish before its day.** -/
theorem Office.Timed.unfinished {o : Office} (h : o.Timed) {wall : ℤ} (hwall : o.wall ≤ wall)
    (id : ℕ) {startsAt : ℤ} (hearly : wall < startsAt - 24 * hour) :
    o.shop.Unfinished o.tenant id startsAt wall := by
  intro j hj hkey hfinished
  have hdue := (h.recorded.reminder hj hkey).dueAt _ rfl
  have hle := (h.prompt.mono hwall).due_of_finished hj hfinished
  omega

/-! ## § Reminders follow -/

/-- A new job has not finished. -/
theorem Job.Of.not_finished {tenant : ℕ} {now wall : ℤ} {l : Letter} {j : Job}
    (h : j.Of tenant now l) : ¬ j.finished wall := by
  rintro (hdone | ⟨_, hmax, _⟩)
  · exact hdone h.completedAt
  · rw [h.attempts] at hmax
    exact absurd hmax (by decide)

/-- **Posting a reminder** leaves one that has not finished just when no finished one
was kept. -/
theorem reminds_iff_unfinished {o o' : Office} {wall : ℤ} {m : Deed} {overQuota : Bool}
    (h : o.Timed) (hstep : o.step (wall, .deed m overQuota) = some o') {id : ℕ} {startsAt : ℤ}
    (hletter : reminder id startsAt ∈ o.desk.letters m overQuota) :
    o'.shop.Reminds o'.tenant id startsAt wall ↔ o.shop.Unfinished o.tenant id startsAt wall := by
  have h' := timed_step h hstep
  cases office_stepped hstep with
  | deed _ _ _ _ _ _ htenant hshop _ _ _ =>
      have hposted := posted_postAll o.tenant (o.desk.opened m wall)
        (o.desk.letters m overQuota) o.shop.jobs
      have hjobs : o'.shop.jobs = o.shop.jobs.postAll o.tenant (o.desk.opened m wall)
          (o.desk.letters m overQuota) := by rw [hshop]; rfl
      rw [← hjobs] at hposted
      constructor
      · rintro ⟨j, hj, hcarries, hnot⟩ i hi hkey
        rw [h'.prompt.once i (hposted.kept i hi) j hj
          (hkey.trans (htenant ▸ hcarries.dedupeKey.symm))]
        exact hnot
      · intro hunfinished
        obtain ⟨j, hj, hkey⟩ := hposted.posted _ hletter
        refine ⟨j, hj, h'.recorded.reminder hj (htenant ▸ hkey), ?_⟩
        rcases hposted.rows j hj with hbefore | ⟨l, _, hof, _⟩
        · exact hunfinished j hbefore hkey
        · exact hof.not_finished

/-- **Reminders follow the appointment.** In every run, when an operation makes a
booking confirmed, or moves it while it is, to a start more than a day after its clock,
within the quota, then a reminder of that start waits in the queue as it commits, just
when no finished one was kept; none is before that day. And a mail that names a start
goes out only while it is the booking's. -/
theorem reminders_follow {o o' o'' : Office} {es : List (ℤ × OfficeMove)} {wall : ℤ} {m : Deed}
    {c : Commit} {id : ℕ} {startsAt : ℤ} (h : o.Blank) (hrun : o.run es = some o')
    (hstep : o'.step (wall, .deed m false) = some o'') (hcommit : o'.desk.commit m = some c)
    (hconfirms : c.op.Confirms o'.desk.shared.db c.now c.db id startsAt)
    (hahead : c.now < startsAt - 24 * hour) :
    (o''.shop.Reminds o''.tenant id startsAt wall ↔
        o'.shop.Unfinished o'.tenant id startsAt wall) ∧
      (wall < startsAt - 24 * hour → o'.shop.Unfinished o'.tenant id startsAt wall) ∧
      ∀ db now payload beside addressee,
        sendBooking db now payload beside = some addressee →
        ∃ row ∈ db.bookings.rows, row.id = payload.bookingId ∧
          ∀ start ∈ payload.extra.startsAt, start = row.startsAt := by
  have htimed := timed_run h hrun
  have hwall : o'.wall ≤ wall := by
    cases office_stepped hstep with
    | deed _ _ _ hwall _ _ _ _ _ _ _ => exact hwall
  have hletter : reminder id startsAt ∈ o'.desk.letters m false := by
    unfold Desk.letters
    rw [hcommit]
    exact confirms_reminds (commit_eq_some hcommit).2 hconfirms hahead
  refine ⟨reminds_iff_unfinished htimed hstep hletter, htimed.unfinished hwall id, ?_⟩
  intro db now payload beside addressee hsent
  obtain ⟨row, hrow, hid, _, hstart⟩ := sendBooking_current hsent
  exact ⟨row, hrow, hid, hstart⟩

/-- Ten o'clock of the second Thursday, whose reminder is due a day before. -/
def tenOfThursday : ℤ := nextThursday 600

theorem reminders_follow_moved : ∃ o' o'' c, openOffice.run requestMoved = some o' ∧
    o'.step movedBack = some o'' ∧
    o'.desk.commit (.world (.op (3 * minute) (.reschedule owner 1
      ⟨tenOfThursday, none, false, none⟩))) = some c ∧
    o''.shop.Reminds o''.tenant 1 tenOfThursday (3 * minute) ∧
    ((o''.shop.Reminds o''.tenant 1 tenOfThursday (3 * minute) ↔
        o'.shop.Unfinished o'.tenant 1 tenOfThursday (3 * minute)) ∧
      (3 * minute < tenOfThursday - 24 * hour →
        o'.shop.Unfinished o'.tenant 1 tenOfThursday (3 * minute)) ∧
      ∀ db now payload beside addressee,
        sendBooking db now payload beside = some addressee →
        ∃ row ∈ db.bookings.rows, row.id = payload.bookingId ∧
          ∀ start ∈ payload.extra.startsAt, start = row.startsAt) := by
  have hblank : openOffice.Blank := ⟨⟨rfl, rfl, rfl, rfl, rfl, rfl, rfl⟩, rfl, rfl, rfl⟩
  obtain ⟨o'', hboth⟩ := Option.isSome_iff_exists.mp (by decide +kernel :
    ((openOffice.run requestMoved).bind fun o' => o'.step movedBack).isSome)
  obtain ⟨o', hrun, hstep⟩ := Option.bind_eq_some_iff.mp hboth
  have hfacts : ∀ o' ∈ openOffice.run requestMoved,
      ∃ c ∈ o'.desk.commit (.world (.op (3 * minute) (.reschedule owner 1
        ⟨tenOfThursday, none, false, none⟩))), c.now = 3 * minute ∧
      (∃ b ∈ c.db.bookings.rows, b.id = 1 ∧ b.status = .confirmed ∧
        b.startsAt = tenOfThursday) ∧
      c.op.moves o'.desk.shared.db c.now = some (1, .merchant) := by
    decide +kernel
  obtain ⟨c, hcommit, hnow, hafter, hmoves⟩ := hfacts o' hrun
  have hahead : c.now < tenOfThursday - 24 * hour := by
    rw [hnow]
    decide
  have hfollow := reminders_follow hblank hrun hstep hcommit
    ⟨hafter, Or.inr (Or.inr ⟨_, hmoves⟩)⟩ hahead
  exact ⟨o', o'', c, hrun, hstep, hcommit, hfollow.1.mpr (hfollow.2.1 (by decide)), hfollow⟩

instance (tenant : ℕ) (l : Letter) (j : Job) : Decidable (j.Carries tenant l) :=
  decidable_of_iff (j.kind = .emailBooking ∧ j.dedupeKey = l.key.dedupeKey tenant ∧
    ∀ dueAt ∈ l.dueAt, j.dueAt = dueAt)
    ⟨fun h => ⟨h.1, h.2.1, h.2.2⟩, fun h => ⟨h.kind, h.dedupeKey, h.dueAt⟩⟩

instance (j : Job) (now : ℤ) : Decidable (j.finished now) :=
  inferInstanceAs (Decidable (_ ∨ _ ∧ _ ∧ _))

instance (w : Workshop) (tenant id : ℕ) (startsAt wall : ℤ) :
    Decidable (w.Reminds tenant id startsAt wall) :=
  inferInstanceAs (Decidable (∃ j ∈ w.jobs.table.rows, _ ∧ _))

/-- The owner moves the booking from ten to half past eleven; a day before ten a worker
runs the reminder of ten, which finds the booking elsewhere. -/
def reminderSpent : List (ℤ × OfficeMove) :=
  [serves 0 (.bookOnline ⟨1, none, tenOfThursday, "client", none, none, false, none, true, none,
      1, 2⟩),
    serves minute (ownerSets 1 .confirmed),
    serves (2 * minute) (.reschedule owner 1 ⟨nextThursday 690, none, false, none⟩),
    (tenOfThursday - 24 * hour, .work (tenOfThursday - 24 * hour) (.claim [.emailBooking] [])),
    (tenOfThursday - 24 * hour, .work (tenOfThursday - 24 * hour) (.finish 4 .returned))]

/-- The move back to ten reads the clock a second before the reminder was due. -/
def movesBack : Op := .reschedule owner 1 ⟨tenOfThursday, none, false, none⟩

/-- It waited for the lock, and commits a second after. -/
theorem reminder_dropped : ∃ o' o'' c, openOffice.run reminderSpent = some o' ∧
    o'.step (tenOfThursday - 24 * hour + second,
      .deed (.world (.op (tenOfThursday - 24 * hour - second) movesBack)) false) = some o'' ∧
    o'.desk.commit (.world (.op (tenOfThursday - 24 * hour - second) movesBack)) = some c ∧
    c.op.Confirms o'.desk.shared.db c.now c.db 1 tenOfThursday ∧
    c.now < tenOfThursday - 24 * hour ∧
    ¬ o''.shop.Reminds o''.tenant 1 tenOfThursday (tenOfThursday - 24 * hour + second) := by
  obtain ⟨o'', hboth⟩ := Option.isSome_iff_exists.mp (by decide +kernel :
    ((openOffice.run reminderSpent).bind fun o' => o'.step
      (tenOfThursday - 24 * hour + second, .deed (.world
        (.op (tenOfThursday - 24 * hour - second) movesBack)) false)).isSome)
  obtain ⟨o', hrun, hstep⟩ := Option.bind_eq_some_iff.mp hboth
  have hfacts : ∀ o' ∈ openOffice.run reminderSpent,
      ∃ c ∈ o'.desk.commit (.world (.op (tenOfThursday - 24 * hour - second) movesBack)),
      c.now < tenOfThursday - 24 * hour ∧
      (∃ b ∈ c.db.bookings.rows, b.id = 1 ∧ b.status = .confirmed ∧
        b.startsAt = tenOfThursday) ∧
      c.op.moves o'.desk.shared.db c.now = some (1, .merchant) := by
    decide +kernel
  have hmissing : ∀ o' ∈ openOffice.run reminderSpent, ∀ o'' ∈ o'.step
      (tenOfThursday - 24 * hour + second, .deed (.world
        (.op (tenOfThursday - 24 * hour - second) movesBack)) false),
      ¬ o''.shop.Reminds o''.tenant 1 tenOfThursday (tenOfThursday - 24 * hour + second) := by
    decide +kernel
  obtain ⟨c, hcommit, hahead, hafter, hmoves⟩ := hfacts o' hrun
  exact ⟨o', o'', c, hrun, hstep, hcommit, ⟨hafter, Or.inr (Or.inr ⟨_, hmoves⟩)⟩, hahead,
    hmissing o' hrun o'' hstep⟩

end Ziftbook
