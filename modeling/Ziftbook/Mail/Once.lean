import Ziftbook.Jobs.Early
import Ziftbook.Mail.Changes
import Ziftbook.Payments.Repaid

/-!
# Every announced change queues its own mail

The keys posted so far are spent, so no later operation builds one of them again, and
the queue holds no job that a new letter's insert could meet.
-/

namespace Ziftbook

open Foundation Bookings

/-! ## § One transaction -/

/-- **A step of the business** posts keys that were not used, and spends them. -/
theorem desk_posts {d d' : Desk} {m : Deed} (h : d.Repaid) (hstep : d.step m = some d')
    {moved : List (ℕ × ℤ)} (hmoved : (moved ++ d.merchantMove m).Nodup) (overQuota : Bool) :
    (⟨d.shared.db, moved⟩ : Said).Posts ⟨d'.shared.db, moved ++ d.merchantMove m⟩
        (d.letters m overQuota) ∧
      Spends Said.Spent ⟨d.shared.db, moved⟩ ⟨d'.shared.db, moved ++ d.merchantMove m⟩
        (emailKeys (d.letters m overQuota)) := by
  have htold : d'.shared.db.Told := (repaid_step h hstep).shared.2.told
  have hdb : d'.shared.db = d.dbAfter m := step_dbAfter hstep
  rw [hdb] at htold ⊢
  unfold Desk.dbAfter Desk.letters Desk.merchantMove at *
  cases hcommit : d.commit m with
  | none =>
      rw [hcommit] at hmoved
      refine ⟨posts_nil _ _, fun k hk => ?_, List.nodup_nil, ?_, ?_⟩
      · exact (List.append_nil moved).symm ▸ hk
      · exact fun k hk => absurd hk List.not_mem_nil
      · exact fun k hk => absurd hk List.not_mem_nil
  | some c =>
      rw [hcommit] at hmoved htold
      obtain ⟨_, happly⟩ := commit_eq_some hcommit
      have hposts := letters_post happly htold hmoved overQuota
      exact ⟨hposts, fun k hk => (apply_onward happly).spent _ hk, hposts.nodup, hposts.fresh,
        hposts.spent⟩

/-- A merchant's moves differ, of one operation. -/
theorem merchantMove_nodup (d : Desk) (m : Deed) : (d.merchantMove m).Nodup := by
  unfold Desk.merchantMove
  split
  · rename_i c _
    unfold Op.merchantMove
    split
    · exact List.nodup_singleton _
    · exact List.nodup_nil
  · exact List.nodup_nil

/-- A letter as the call sites build it. -/
structure Letter.Written (l : Letter) : Prop where
  proper : l.key.Proper
  reminder : ¬ l.email → ∃ id startsAt, l = reminder id startsAt

/-- Its letters are so, whatever was sent. -/
theorem letters_written {d d' : Desk} {m : Deed} (h : d.Repaid) (hstep : d.step m = some d')
    (overQuota : Bool) : ∀ l ∈ d.letters m overQuota, l.Written := by
  have hposts := (@desk_posts d d' m h hstep [] (merchantMove_nodup d m) overQuota).1
  exact fun l hl => ⟨hposts.proper l hl, hposts.reminders l hl⟩

/-! ## § The queue's keys -/

/-- The texts that a booking's mails have before their business. -/
def bookingText : List Char := "email.booking:".toList

theorem bookingText_isPrefix (tenant : ℕ) (k : MailKey) :
    bookingText.isPrefixOf (k.dedupeKey tenant).toList = true := by
  rw [MailKey.dedupeKey, String.toList_ofList, List.isPrefixOf_iff_prefix]
  exact List.prefix_append _ _

/-- The job of a letter. -/
structure Job.Carries (tenant : ℕ) (l : Letter) (j : Job) : Prop where
  kind : j.kind = .emailBooking
  dedupeKey : j.dedupeKey = l.key.dedupeKey tenant
  dueAt : ∀ dueAt ∈ l.dueAt, j.dueAt = dueAt

theorem Job.Of.carries {tenant : ℕ} {now : ℤ} {l : Letter} {j : Job} (h : j.Of tenant now l) :
    j.Carries tenant l := by
  refine ⟨h.kind, h.dedupeKey, fun dueAt hdue => ?_⟩
  rw [h.dueAt, Option.mem_def.mp hdue]
  rfl

/-- What is known of a business and its queue. -/
structure Office.Recorded (o : Office) : Prop where
  repaid : o.desk.Repaid
  written : ∀ l ∈ o.posted, l.Written
  used : o.moved.Nodup →
    Used Said.Spent ⟨o.desk.shared.db, o.moved⟩ (emailKeys o.posted)
  jobs : ∀ j ∈ o.shop.jobs.table.rows, bookingText.isPrefixOf j.dedupeKey.toList = true →
    ∃ l ∈ o.posted, j.Carries o.tenant l

theorem Office.Blank.recorded {o : Office} (h : o.Blank) : o.Recorded := by
  refine ⟨h.desk.repaid, fun l hl => ?_, fun _ => ?_, fun j hj => ?_⟩
  · rw [h.posted] at hl
    exact absurd hl List.not_mem_nil
  · rw [h.posted]
    exact Used.nil _ _
  · rw [h.shop] at hj
    exact absurd hj List.not_mem_nil

/-- **One step.** -/
theorem recorded_step {o o' : Office} {e : ℤ × OfficeMove} (h : o.Recorded)
    (hstep : o.step e = some o') : o'.Recorded := by
  cases office_stepped hstep with
  | deed wall m overQuota _ _ hdesk htenant hshop _ hposted hmoved =>
      have hafter := posted_postAll o.tenant (o.desk.opened m wall) (o.desk.letters m overQuota)
        o.shop.jobs
      refine ⟨repaid_step h.repaid hdesk, fun l hl => ?_, fun hnodup => ?_, fun j hj hbooking => ?_⟩
      · rw [hposted] at hl
        rcases List.mem_append.mp hl with hl | hl
        · exact h.written l hl
        · exact letters_written h.repaid hdesk overQuota l hl
      · rw [hmoved] at hnodup
        rw [hposted, hmoved, emailKeys_append]
        exact (h.used (List.nodup_append.mp hnodup).1).step
          (desk_posts h.repaid hdesk hnodup overQuota).2
      · rw [hshop] at hj
        rw [hposted, htenant]
        rcases hafter.rows j hj with hj | ⟨l, hl, hof, _⟩
        · obtain ⟨l, hl, hcarries⟩ := h.jobs j hj hbooking
          exact ⟨l, List.mem_append_left _ hl, hcarries⟩
        · exact ⟨l, List.mem_append_right _ hl, hof.carries⟩
  | work wall now w _ _ helsewhere hshop hdesk htenant _ hposted hmoved =>
      refine ⟨hdesk ▸ h.repaid, hposted ▸ h.written, ?_, fun j hj hbooking => ?_⟩
      · rw [hdesk, hposted, hmoved]
        exact h.used
      · rw [hposted, htenant]
        rcases step_row hshop hj with ⟨i, hsince⟩ | ⟨kind, key, dueAt, rfl, _, rfl⟩
        · rw [hsince.same.dedupeKey] at hbooking
          obtain ⟨l, hl, hcarries⟩ := h.jobs i hsince.before hbooking
          exact ⟨l, hl, hsince.same.kind.trans hcarries.kind,
            hsince.same.dedupeKey.trans hcarries.dedupeKey,
            fun dueAt hdue => hsince.same.dueAt.trans (hcarries.dueAt dueAt hdue)⟩
        · -- other callers' keys begin otherwise
          change (!bookingText.isPrefixOf key.toList) = true at helsewhere
          rw [hbooking] at helsewhere
          cases helsewhere

theorem recorded_run {o o' : Office} {es : List (ℤ × OfficeMove)} (h : o.Blank)
    (hrun : o.run es = some o') : o'.Recorded :=
  Runs.run_invariant' (fun _ _ _ hs hstep => recorded_step hs hstep) h.recorded hrun

/-! ## § Every change its own job -/

/-- Letters with one key, no reminders, of one operation are one letter. -/
theorem eq_of_emailKey {ls : List Letter} (h : (emailKeys ls).Nodup) {l l' : Letter}
    (hl : l ∈ ls) (hl' : l' ∈ ls) (hemail : l.email) (hkey : l.key = l'.key) : l = l' := by
  have hemail' : l'.email := by
    show l'.key.template ≠ .bookingReminder
    rw [← hkey]
    exact hemail
  exact List.inj_on_of_nodup_map h (List.mem_filter.mpr ⟨hl, decide_eq_true hemail⟩)
    (List.mem_filter.mpr ⟨hl', decide_eq_true hemail'⟩) hkey

/-- **A step's mails are added.** -/
theorem mails_added {o o' : Office} {e : ℤ × OfficeMove} (h : o.Recorded)
    (hstep : o.step e = some o') (hclocks : o'.moved.Nodup) :
    ∃ new, o'.posted = o.posted ++ new ∧ ∀ l ∈ new, l.email →
      ∃ now, ∃ j ∈ o'.shop.jobs.table.rows, o.shop.jobs.nextId ≤ j.id ∧ j.Of o'.tenant now l := by
  cases office_stepped hstep with
  | work wall now w _ _ _ _ _ _ _ hposted _ =>
      exact ⟨[], by rw [hposted, List.append_nil], fun _ hl => absurd hl List.not_mem_nil⟩
  | deed wall m overQuota _ _ hdesk htenant hshop _ hposted hmoved =>
      rw [hmoved] at hclocks
      have hproper := fun l hl => (letters_written h.repaid hdesk overQuota l hl).proper
      obtain ⟨hposts, hspends⟩ := desk_posts h.repaid hdesk hclocks overQuota
      have hafter := posted_postAll o.tenant (o.desk.opened m wall) (o.desk.letters m overQuota)
        o.shop.jobs
      refine ⟨_, hposted, fun l hl hemail => ⟨o.desk.opened m wall, ?_⟩⟩
      obtain ⟨j, hj, hkey⟩ := hafter.posted l hl
      rw [hshop, htenant]
      refine ⟨j, hj, ?_⟩
      rcases hafter.rows j hj with hbefore | ⟨l', hl', hof, hid⟩
      · -- the job would be of a letter posted before, with this key
        obtain ⟨l0, hl0, hcarries⟩ := h.jobs j hbefore (hkey ▸ bookingText_isPrefix o.tenant l.key)
        have hsame := dedupeKey_inj (h.written l0 hl0).proper (hproper l hl)
          (hcarries.dedupeKey.symm.trans hkey)
        have hemail0 : l0.email := by
          show l0.key.template ≠ .bookingReminder
          rw [hsame]
          exact hemail
        have hused := h.used (List.nodup_append.mp hclocks).1
        exact absurd (mem_emailKeys.mpr ⟨l0, hl0, hemail0, hsame⟩)
          (hused.not_mem hspends l.key (mem_emailKeys.mpr ⟨l, hl, hemail, rfl⟩))
      · have hsame := dedupeKey_inj (hproper l hl) (hproper l' hl') (hkey.symm.trans hof.dedupeKey)
        rw [eq_of_emailKey hposts.nodup hl hl' hemail hsame]
        exact ⟨hid, hof⟩

/-- **Every announced change queues its own mail.** In every run of a business that
began blank, its merchants' moves of one booking reading different clocks, no two mails
have one dedupe key, and the mails of each operation are all added to the queue. -/
theorem announced_once {o o' o'' : Office} {es : List (ℤ × OfficeMove)} {e : ℤ × OfficeMove}
    (h : o.Blank) (hrun : o.run es = some o') (hstep : o'.step e = some o'')
    (hclocks : o''.moved.Nodup) :
    ((o''.posted.filter Letter.email).map fun l => l.key.dedupeKey o''.tenant).Nodup ∧
      ∃ new, o''.posted = o'.posted ++ new ∧ ∀ l ∈ new, l.email →
        ∃ now, ∃ j ∈ o''.shop.jobs.table.rows, o'.shop.jobs.nextId ≤ j.id ∧
          j.Of o''.tenant now l := by
  have hrecorded := recorded_run h hrun
  have hrecorded' := recorded_step hrecorded hstep
  refine ⟨?_, mails_added hrecorded hstep hclocks⟩
  have hkeys := (hrecorded'.used hclocks).nodup
  unfold emailKeys at hkeys
  rw [show (fun l : Letter => l.key.dedupeKey o''.tenant) =
    (fun k : MailKey => k.dedupeKey o''.tenant) ∘ Letter.key from rfl, ← List.map_map]
  refine hkeys.map_on fun k hk k' hk' heq => ?_
  obtain ⟨l, hl, rfl⟩ := List.mem_map.mp hk
  obtain ⟨l', hl', rfl⟩ := List.mem_map.mp hk'
  exact dedupeKey_inj (hrecorded'.written l (List.mem_filter.mp hl).1).proper
    (hrecorded'.written l' (List.mem_filter.mp hl').1).proper heq

/-- A published business and its empty queue. -/
def openOffice : Office := ⟨1, openDesk, .empty, 0, [], []⟩

/-- An operation that reads the clock and commits at once, within the quota. -/
def serves (now : ℤ) (op : Op) : ℤ × OfficeMove := (now, .deed (.world (.op now op)) false)

/-- A request for ten is accepted, and its owner moves it to half past eleven; a worker
claims what is due. -/
def requestMoved : List (ℤ × OfficeMove) :=
  [serves 0 (.bookOnline ⟨1, none, nextThursday 600, "client", none, none, false, none, true, none,
      1, 2⟩),
    serves minute (ownerSets 1 .confirmed),
    serves (2 * minute) (.reschedule owner 1 ⟨nextThursday 690, none, false, none⟩),
    (2 * minute, .work (2 * minute) (.claim [.emailBooking] []))]

/-- The owner moves it back to ten. -/
def movedBack : ℤ × OfficeMove :=
  serves (3 * minute) (.reschedule owner 1 ⟨nextThursday 600, none, false, none⟩)

theorem announced_once_moved : ∃ o' o'', openOffice.run requestMoved = some o' ∧
    o'.step movedBack = some o'' ∧
    (o''.posted.filter Letter.email).map (fun l => l.key.dedupeKey o''.tenant) =
      ["email.booking:1:1:booking_received", "email.booking:1:1:booking_request:1",
        "email.booking:1:1:booking_confirmed", "email.booking:1:1:booking_confirmed:m120.0",
        "email.booking:1:1:booking_confirmed:m180.0"] ∧
    ((o''.posted.filter Letter.email).map fun l => l.key.dedupeKey o''.tenant).Nodup ∧
      ∃ new, o''.posted = o'.posted ++ new ∧ ∀ l ∈ new, l.email →
        ∃ now, ∃ j ∈ o''.shop.jobs.table.rows, o'.shop.jobs.nextId ≤ j.id ∧
          j.Of o''.tenant now l := by
  have hblank : openOffice.Blank := ⟨⟨rfl, rfl, rfl, rfl, rfl, rfl, rfl⟩, rfl, rfl, rfl⟩
  have hfacts : ∀ o' ∈ openOffice.run requestMoved, ∀ o'' ∈ o'.step movedBack,
      o''.moved.Nodup ∧ (o''.posted.filter Letter.email).map
        (fun l => l.key.dedupeKey o''.tenant) =
      ["email.booking:1:1:booking_received", "email.booking:1:1:booking_request:1",
        "email.booking:1:1:booking_confirmed", "email.booking:1:1:booking_confirmed:m120.0",
        "email.booking:1:1:booking_confirmed:m180.0"] := by
    decide +kernel
  obtain ⟨o'', hboth⟩ := Option.isSome_iff_exists.mp (by decide +kernel :
    ((openOffice.run requestMoved).bind fun o' => o'.step movedBack).isSome)
  obtain ⟨o', hrun, hstep⟩ := Option.bind_eq_some_iff.mp hboth
  obtain ⟨hclocks, hkeys⟩ := hfacts o' hrun o'' hstep
  exact ⟨o', o'', hrun, hstep, hkeys, announced_once hblank hrun hstep hclocks⟩

end Ziftbook
