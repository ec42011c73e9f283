import Ziftbook.Mail.Keys
import Ziftbook.Mail.Spent

/-!
# What an operation's letters spend

Every call site's keys are unspent before its operation and spent after it, whoever
they are for: a count or an event it has just added, the clock of its own move, or a
status the booking has just reached.
-/

namespace Ziftbook

open Foundation Bookings

/-! ## § Copies -/

/-- The keys of the letters that are no reminders. -/
def emailKeys (ls : List Letter) : List MailKey := (ls.filter Letter.email).map Letter.key

theorem emailKeys_append (ls ls' : List Letter) :
    emailKeys (ls ++ ls') = emailKeys ls ++ emailKeys ls' := by
  unfold emailKeys
  rw [List.filter_append, List.map_append]

theorem mem_emailKeys {ls : List Letter} {k : MailKey} :
    k ∈ emailKeys ls ↔ ∃ l ∈ ls, l.email ∧ l.key = k := by
  unfold emailKeys
  simp only [List.mem_map, List.mem_filter, decide_eq_true_eq, and_assoc]

/-- One mail, to different recipients. -/
structure Copies (id : ℕ) (t : MailTemplate) (s : KeySuffix) (ls : List Letter) : Prop where
  key : ∀ l ∈ ls, l.key.bookingId = id ∧ l.key.template = t ∧ l.key.suffix = s
  nodup : (ls.map Letter.key).Nodup

theorem email_eq_some {db : Db} {id : ℕ} {t : MailTemplate} {userId : Option ℕ}
    {s : KeySuffix} {extra : Extra} {overQuota : Bool} {l : Letter}
    (h : email db id t userId s extra overQuota = some l) : l.key = ⟨id, t, s, userId⟩ := by
  unfold email at h
  split_ifs at h
  rw [← Option.some.inj h]

theorem copies_email (db : Db) (id : ℕ) (t : MailTemplate) (userId : Option ℕ) (s : KeySuffix)
    (extra : Extra) (overQuota : Bool) :
    Copies id t s (email db id t userId s extra overQuota).toList := by
  cases h : email db id t userId s extra overQuota with
  | none => exact ⟨fun _ hl => absurd hl List.not_mem_nil, List.nodup_nil⟩
  | some l =>
      refine ⟨fun l' hl' => ?_, List.nodup_singleton _⟩
      rw [List.mem_singleton.mp hl', email_eq_some h]
      exact ⟨rfl, rfl, rfl⟩

/-- To each recipient of a list without repeats. -/
theorem copies_filterMap {α : Type*} {recipients : List α} {userId : α → Option ℕ} (db : Db)
    (id : ℕ) (t : MailTemplate) (s : KeySuffix) (extra : Extra) (overQuota : Bool)
    (hnodup : recipients.Nodup) (huser : Function.Injective userId) :
    Copies id t s (recipients.filterMap fun a =>
      email db id t (userId a) s extra overQuota) := by
  refine ⟨fun l hl => ?_, ?_⟩
  · obtain ⟨a, _, ha⟩ := List.mem_filterMap.mp hl
    rw [email_eq_some ha]
    exact ⟨rfl, rfl, rfl⟩
  · rw [List.map_filterMap]
    refine hnodup.filterMap fun a a' k hk hk' => ?_
    obtain ⟨l, hl, rfl⟩ := Option.map_eq_some_iff.mp hk
    obtain ⟨l', hl', heq⟩ := Option.map_eq_some_iff.mp hk'
    rw [email_eq_some hl, email_eq_some hl'] at heq
    exact huser (MailKey.mk.inj heq).2.2.2.symm

theorem copies_emailMerchants (db : Db) (id workerId : ℕ) (t : MailTemplate) (s : KeySuffix)
    (extra : Extra) : Copies id t s (emailMerchants db id workerId t s extra) :=
  copies_filterMap db id t s extra false (List.nodup_dedup _) (Option.some_injective _)

theorem copies_tellTeam (db : Db) (current : Session) (id : ℕ) (userIds : List (Option ℕ))
    (t : MailTemplate) (s : KeySuffix) (extra : Extra) (overQuota : Bool) :
    Copies id t s (tellTeam db current id userIds t s extra overQuota) := by
  have huser : Function.Injective fun userId : Option ℕ => userId := fun _ _ h => h
  exact copies_filterMap db id t s extra overQuota ((List.nodup_dedup _).filter _) huser

/-! ## § Letters of an operation -/

/-- A booking's mails, one to each recipient of each of the kinds `parts`, and its
reminders. -/
structure Voices (id : ℕ) (parts : List (MailTemplate × KeySuffix)) (ls : List Letter) : Prop where
  reminders : ∀ l ∈ ls, ¬ l.email → ∃ startsAt, l = reminder id startsAt
  keys : ∀ l ∈ ls, l.email →
    l.key.bookingId = id ∧ (l.key.template, l.key.suffix) ∈ parts
  nodup : (emailKeys ls).Nodup

theorem voices_nil (id : ℕ) (parts : List (MailTemplate × KeySuffix)) : Voices id parts [] :=
  ⟨fun _ hl => absurd hl List.not_mem_nil, fun _ hl => absurd hl List.not_mem_nil,
    List.nodup_nil⟩

theorem Copies.voices {id : ℕ} {t : MailTemplate} {s : KeySuffix} {ls : List Letter}
    (h : Copies id t s ls) (ht : t ≠ .bookingReminder) : Voices id [(t, s)] ls := by
  refine ⟨fun l hl hreminder => ?_, fun l hl _ => ?_, ?_⟩
  · apply absurd _ hreminder
    show l.key.template ≠ .bookingReminder
    rw [(h.key l hl).2.1]
    exact ht
  · obtain ⟨hid, htemplate, hsuffix⟩ := h.key l hl
    rw [htemplate, hsuffix]
    exact ⟨hid, List.mem_singleton.mpr rfl⟩
  · exact h.nodup.sublist (List.filter_sublist.map _)

/-- Mails of other kinds follow. -/
theorem Voices.append {id : ℕ} {parts parts' : List (MailTemplate × KeySuffix)}
    {ls ls' : List Letter} (h : Voices id parts ls) (h' : Voices id parts' ls')
    (hdisjoint : ∀ part ∈ parts, part ∉ parts') : Voices id (parts ++ parts') (ls ++ ls') := by
  refine ⟨fun l hl => ?_, fun l hl hemail => ?_, ?_⟩
  · rcases List.mem_append.mp hl with hl | hl
    · exact h.reminders l hl
    · exact h'.reminders l hl
  · rcases List.mem_append.mp hl with hl | hl
    · exact ⟨(h.keys l hl hemail).1, List.mem_append_left _ (h.keys l hl hemail).2⟩
    · exact ⟨(h'.keys l hl hemail).1, List.mem_append_right _ (h'.keys l hl hemail).2⟩
  · rw [emailKeys_append, List.nodup_append]
    refine ⟨h.nodup, h'.nodup, ?_⟩
    rintro k hk _ hk' rfl
    obtain ⟨l, hl, hemail, hkey⟩ := mem_emailKeys.mp hk
    obtain ⟨l', hl', hemail', hkey'⟩ := mem_emailKeys.mp hk'
    have hpart := (h.keys l hl hemail).2
    rw [hkey, ← hkey'] at hpart
    exact hdisjoint _ hpart (h'.keys l' hl' hemail').2

theorem voices_remindIf (queued : Option Letter) (id : ℕ) (startsAt now : ℤ) :
    Voices id [] (remindIf queued id startsAt now) := by
  unfold remindIf remind
  split_ifs
  · exact voices_nil id []
  · refine ⟨fun l hl _ => ⟨startsAt, List.mem_singleton.mp hl⟩, fun l hl hemail => ?_,
      List.nodup_nil⟩
    · rw [List.mem_singleton.mp hl] at hemail
      exact absurd rfl hemail
  · exact voices_nil id []

theorem Voices.reminded {id : ℕ} {parts : List (MailTemplate × KeySuffix)} {ls : List Letter}
    (h : Voices id parts ls) (queued : Option Letter) (startsAt now : ℤ) :
    Voices id parts (ls ++ remindIf queued id startsAt now) := by
  have happend := h.append (voices_remindIf queued id startsAt now)
    fun _ _ => List.not_mem_nil
  rwa [List.append_nil] at happend

/-! ## § Spending -/

/-- A kind of mail not sent before the operation, and spent by it. -/
structure Said.Uses (s s' : Said) (id : ℕ) (part : MailTemplate × KeySuffix) : Prop where
  takes : part.1.takes part.2
  fresh : ¬ s.spent id part.1 part.2
  spent : s'.spent id part.1 part.2

/-- What an operation enqueues. -/
structure Said.Posts (s s' : Said) (ls : List Letter) : Prop where
  proper : ∀ l ∈ ls, l.key.Proper
  reminders : ∀ l ∈ ls, ¬ l.email → ∃ id startsAt, l = reminder id startsAt
  nodup : (emailKeys ls).Nodup
  fresh : ∀ k ∈ emailKeys ls, ¬ s.Spent k
  spent : ∀ k ∈ emailKeys ls, s'.Spent k

theorem Voices.posts {id : ℕ} {parts : List (MailTemplate × KeySuffix)} {ls : List Letter}
    {s s' : Said} (h : Voices id parts ls) (huses : ∀ part ∈ parts, s.Uses s' id part) :
    s.Posts s' ls := by
  have hpart : ∀ k ∈ emailKeys ls, s.Uses s' k.bookingId (k.template, k.suffix) := by
    intro k hk
    obtain ⟨l, hl, hemail, rfl⟩ := mem_emailKeys.mp hk
    rw [(h.keys l hl hemail).1]
    exact huses _ (h.keys l hl hemail).2
  refine ⟨fun l hl => ?_, fun l hl hreminder => ⟨id, h.reminders l hl hreminder⟩, h.nodup,
    fun k hk => (hpart k hk).fresh, fun k hk => (hpart k hk).spent⟩
  by_cases hemail : l.email
  · have huse := hpart l.key (mem_emailKeys.mpr ⟨l, hl, hemail, rfl⟩)
    exact ⟨huse.takes, fun ht => absurd ht hemail⟩
  · obtain ⟨startsAt, rfl⟩ := h.reminders l hl hemail
    exact ⟨rfl, fun _ => rfl⟩

theorem posts_nil (s s' : Said) : s.Posts s' [] :=
  (voices_nil 0 []).posts fun _ hpart => absurd hpart List.not_mem_nil

/-- A mail without suffix, of a status the booking reaches. -/
theorem uses_none {s s' : Said} {id : ℕ} {t : MailTemplate} {b : Booking}
    (htakes : t.takes .none) (hexpired : t ≠ .bookingExpired)
    (hbefore : ∀ r ∈ s.db.bookings.rows, r.id = id → ¬ t.past r.status)
    (hb : b ∈ s'.db.bookings.rows) (hid : b.id = id) (hpast : t.past b.status) :
    s.Uses s' id (t, .none) := by
  refine ⟨htakes, ?_, Or.inr ⟨b, hb, hid, hpast⟩⟩
  rintro (⟨ht, _⟩ | ⟨r, hr, hrid, hrpast⟩)
  · exact hexpired ht
  · exact hbefore r hr hrid hrpast

/-! ## § Announcing -/

/-- What `announce` says of a status. -/
def announced (status : Status) : List (MailTemplate × KeySuffix) :=
  if status = .confirmed then [(.bookingConfirmed, .none), (.bookingNew, .none)]
  else [(.bookingReceived, .none), (.bookingRequest, .none)]

theorem voices_announce (db : Db) (now : ℤ) (overQuota : Bool) (b : Booking) :
    Voices b.id (announced b.status) (announce db now overQuota b) := by
  unfold announce announced
  split_ifs
  · have hconfirmed := (copies_email db b.id .bookingConfirmed none .none
      { startsAt := some b.startsAt } overQuota).voices (by decide)
    have hnew := (copies_emailMerchants db b.id b.workerId .bookingNew .none {}).voices (by decide)
    exact (hconfirmed.reminded _ _ _).append hnew (by decide)
  · have hreceived := (copies_email db b.id .bookingReceived none .none {} overQuota).voices
      (by decide)
    have hrequest := (copies_emailMerchants db b.id b.workerId .bookingRequest .none {}).voices
      (by decide)
    exact hreceived.append hrequest (by decide)

/-- A booking announced was not in the tables, or in checkout. -/
theorem uses_announced {s s' : Said} {b : Booking}
    (hbefore : ∀ r ∈ s.db.bookings.rows, r.id = b.id → r.status = .awaitingPayment)
    (hb : b ∈ s'.db.bookings.rows) (hstatus : b.status ≠ .awaitingPayment) :
    ∀ part ∈ announced b.status, s.Uses s' b.id part := by
  intro part hpart
  unfold announced at hpart
  split_ifs at hpart with hconfirmed
  · have hanswered : b.status ∉ expiring := by rw [hconfirmed]; decide
    have hnot : ∀ r ∈ s.db.bookings.rows, r.id = b.id → ¬ r.status ∉ expiring := by
      intro r hr hid hne
      rw [hbefore r hr hid] at hne
      exact hne (by decide)
    rcases List.mem_pair.mp hpart with rfl | rfl
    · exact uses_none (by decide) (by decide) hnot hb rfl hanswered
    · exact uses_none (by decide) (by decide) hnot hb rfl hanswered
  · have hnot : ∀ r ∈ s.db.bookings.rows, r.id = b.id → ¬ r.status ≠ .awaitingPayment :=
      fun r hr hid hne => hne (hbefore r hr hid)
    rcases List.mem_pair.mp hpart with rfl | rfl
    · exact uses_none (by decide) (by decide) hnot hb rfl hstatus
    · exact uses_none (by decide) (by decide) hnot hb rfl hstatus

theorem posts_announce {s s' : Said} {b : Booking} (db : Db) (now : ℤ) (overQuota : Bool)
    (hbefore : ∀ r ∈ s.db.bookings.rows, r.id = b.id → r.status = .awaitingPayment)
    (hb : b ∈ s'.db.bookings.rows) (hstatus : b.status ≠ .awaitingPayment) :
    s.Posts s' (announce db now overQuota b) :=
  (voices_announce db now overQuota b).posts (uses_announced hbefore hb hstatus)

/-- An online booking is announced, unless it is in checkout. -/
theorem bookOnline_posts {db db' : Db} {now : ℤ} {new : OnlineRequest} {b : Booking}
    (h : bookOnline db now new = .ok (db', b)) (moved : List (ℕ × ℤ)) (overQuota : Bool) :
    (⟨db, moved⟩ : Said).Posts ⟨db', moved⟩ (bookOnlineLetters db' now new overQuota) := by
  obtain ⟨hplaced, _, hstatus⟩ := bookOnline_placed h
  unfold bookOnlineLetters
  rw [hplaced.find]
  show (⟨db, moved⟩ : Said).Posts ⟨db', moved⟩
    (if new.offer = true then [] else announce db' now overQuota b)
  split_ifs with hoffer
  · exact posts_nil _ _
  · refine posts_announce db' now overQuota (fun r hr hid => ?_)
      (Table.find_eq_some.mp hplaced.find).1 ?_
    · exact absurd (hid.trans hplaced.id) (hplaced.fresh r hr)
    · rw [hstatus, standingFor, if_neg hoffer]
      split_ifs <;> simp [Standing.settled]

/-- A merchant's booking is announced, unless it is in the past. -/
theorem book_posts {db db' : Db} {now : ℤ} {current : Session} {new : MerchantRequest}
    {b : Booking} (h : book db now current new = .ok (db', b)) (moved : List (ℕ × ℤ))
    (overQuota : Bool) :
    (⟨db, moved⟩ : Said).Posts ⟨db', moved⟩ (bookLetters db' now current new overQuota) := by
  obtain ⟨hplaced, _, hstatus⟩ := book_placed h
  have hannounced : announced b.status = [(.bookingConfirmed, .none), (.bookingNew, .none)] := by
    rw [hstatus]
    rfl
  have huses := @uses_announced ⟨db, moved⟩ ⟨db', moved⟩ b
    (fun r hr hid => absurd (hid.trans hplaced.id) (hplaced.fresh r hr))
    (Table.find_eq_some.mp hplaced.find).1 (by rw [hstatus]; decide)
  rw [hannounced] at huses
  unfold bookLetters
  rw [hplaced.find]
  simp only
  split_ifs
  · have hconfirmed := (copies_email db' b.id .bookingConfirmed none .none
      { startsAt := some b.startsAt } overQuota).voices (by decide)
    have hnew := (copies_tellTeam db' current b.id [db'.userOf b.workerId] .bookingNew .none
      { startsAt := some b.startsAt } overQuota).voices (by decide)
    exact ((hconfirmed.reminded _ _ _).append hnew (by decide)).posts huses
  · exact posts_nil _ _

/-! ## § Landing -/

theorem live_bookings {db : Db} {now : ℤ} {bookingId paymentId : ℕ} {event : EventName}
    {f : Payment → Payment} {hid : ∀ p, (f p).id = p.id} {db1 : Db}
    (h : db.paid bookingId db.settings.pendingTtlHours now = some db1) :
    ((db.updatePayment paymentId f hid).live now bookingId event).bookings = db1.bookings := by
  obtain ⟨hrow, rfl⟩ := updateOne_eq_some h
  have hpaid : (db.updatePayment paymentId f hid).paid bookingId
      (db.updatePayment paymentId f hid).settings.pendingTtlHours now = some
      ((db.updateBookings (fun b => b.id = bookingId ∧ b.status = .awaitingPayment ∧
        b.unexpired now) (fun b => b.landed db.settings.pendingTtlHours now) (fun _ => rfl)
        fun _ => rfl).updatePayment paymentId f hid) := if_pos hrow
  unfold Db.live
  rw [hpaid]
  rfl

/-- The booking a payment lands on was in checkout. -/
theorem bookedBy_eq_some {db : Db} {now : ℤ} {row : Payment} {state : IntentState} {b : Booking}
    (h : db.bookedBy now row state = some b) :
    (∀ r ∈ db.bookings.rows, r.id = b.id → r.status = .awaitingPayment) ∧
      b.status ≠ .awaitingPayment ∧ b ∈ (db.reconcile now row state).bookings.rows := by
  unfold Db.bookedBy at h
  split at h
  · rename_i current hcurrent
    split_ifs at h with hlands
    obtain ⟨hopen, hmatched, hlanded⟩ := hlands
    obtain ⟨db1, hpaid, hfind⟩ := Option.bind_eq_some_iff.mp h
    obtain ⟨⟨r0, hr0, hid0, _⟩, _⟩ := updateOne_eq_some hpaid
    obtain ⟨hb, hid⟩ := Table.find_eq_some.mp hfind
    rw [← hid0] at hpaid
    obtain ⟨⟨hawaiting, _⟩, hrows⟩ := updateOne_written hpaid hr0
    have hbooked : b = r0.landed db.settings.pendingTtlHours now :=
      ((hrows b).mp hb).resolve_right fun hother => hother.2 (hid.trans hid0.symm)
    have hbookings : (db.reconcile now row state).bookings = db1.bookings := by
      rw [hid0] at hpaid
      simp only [Db.reconcile, hcurrent, hopen, hmatched, hlanded, ne_eq, not_true_eq_false,
        if_false, Bool.false_eq_true, if_true]
      split
      · exact live_bookings hpaid
      · exact live_bookings hpaid
    refine ⟨fun r hr hrid => ?_, ?_, ?_⟩
    · rw [db.bookings.eq_of_key hr hr0 (hrid.trans (hid.trans hid0.symm))]
      exact hawaiting
    · rw [hbooked]
      unfold Booking.landed
      simp only
      split_ifs <;> decide
    · rw [hbookings]
      exact hb
  · cases h

theorem reconcile_posts (db : Db) (now : ℤ) (row : Payment) (state : IntentState)
    (moved : List (ℕ × ℤ)) (overQuota : Bool) :
    (⟨db, moved⟩ : Said).Posts ⟨db.reconcile now row state, moved⟩
      (reconcileLetters db (db.reconcile now row state) now row state overQuota) := by
  unfold reconcileLetters
  cases h : db.bookedBy now row state with
  | none => exact posts_nil _ _
  | some b =>
      obtain ⟨hbefore, hstatus, hb⟩ := bookedBy_eq_some h
      exact posts_announce _ now overQuota hbefore hb hstatus

end Ziftbook
