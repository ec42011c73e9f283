import Ziftbook.Mail.Announced
import Ziftbook.Mail.Office

/-!
# Every change announces itself

What the letters of answers, cancellations, moves and refunds spend, and from it of
every operation: none of their keys has been used, whatever was sent before.
-/

namespace Ziftbook

open Foundation Bookings

/-! ## § Answers and cancellations -/

/-- A mail of the status that one booking has changed to. -/
theorem uses_status {db db' : Db} {moved : List (ℕ × ℤ)} {row after : Booking}
    {t : MailTemplate} (hrow : row ∈ db.bookings.rows) (hafter : after ∈ db'.bookings.rows)
    (hid : after.id = row.id) (htakes : t.takes .none) (hexpired : t ≠ .bookingExpired)
    (hbefore : ¬ t.past row.status) (hpast : t.past after.status) :
    (⟨db, moved⟩ : Said).Uses ⟨db', moved⟩ row.id (t, .none) := by
  refine uses_none htakes hexpired (fun r hr hrid => ?_) hafter hid hpast
  rw [db.bookings.eq_of_key hr hrow hrid]
  exact hbefore

theorem transition_posts {db db' : Db} {now : ℤ} {current : Session} {bookingId : ℕ}
    {change : StatusChange} (h : transition db now current bookingId change = .ok db')
    (moved : List (ℕ × ℤ)) (overQuota : Bool) : (⟨db, moved⟩ : Said).Posts ⟨db', moved⟩
      (transitionLetters db db' now bookingId change overQuota) := by
  obtain ⟨row, hrow, hguard, hrows⟩ := transition_written h
  obtain ⟨hmem, rfl⟩ := Table.find_eq_some.mp hrow
  have hafter := (hrows _).mpr (Or.inl rfl)
  have huses : ∀ {t : MailTemplate}, t.takes .none → t ≠ .bookingExpired →
      ¬ t.past row.status → t.past change.status.status →
      ∀ part ∈ [(t, KeySuffix.none)], (⟨db, moved⟩ : Said).Uses ⟨db', moved⟩ row.id part := by
    intro t htakes hexpired hbefore hpast part hpart
    rw [List.mem_singleton.mp hpart]
    exact uses_status hmem hafter rfl htakes hexpired hbefore hpast
  unfold transitionLetters
  rw [hrow]
  simp only
  split_ifs with haccepted hdeclined hcancelled
  · have hvoices := (copies_email db' row.id .bookingConfirmed none .none
      { startsAt := some row.startsAt } overQuota).voices (by decide)
    refine (hvoices.reminded _ _ _).posts (huses (by decide) (by decide) ?_ ?_)
    · show ¬ row.status ∉ expiring
      rw [haccepted.2]
      decide
    · show change.status.status ∉ expiring
      rw [haccepted.1]
      decide
  · have hvoices := (copies_email db' row.id .bookingDeclined none .none {} overQuota).voices
      (by decide)
    refine hvoices.posts (huses (by decide) (by decide) ?_ ?_)
    · -- only a request is declined
      have hpending : row.status = .pending := by simpa [hdeclined, transitions] using hguard.1
      show row.status ≠ .declined
      rw [hpending]
      decide
    · show change.status.status = .declined
      rw [hdeclined]
      rfl
  · have hvoices := (copies_email db' row.id .bookingCancelled none .none {} overQuota).voices
      (by decide)
    refine hvoices.posts (huses (by decide) (by decide) ?_ ?_)
    · show row.status ≠ .cancelledByMerchant
      rcases hcancelled.2 with hpending | hconfirmed
      · rw [hpending]
        decide
      · rw [hconfirmed]
        decide
    · show change.status.status = .cancelledByMerchant
      rw [hcancelled.1]
      rfl
  · exact posts_nil _ _

theorem linkCancel_posts {db db' : Db} {now : ℤ} {tokenHash : ℕ} {body : LinkCancel}
    (h : linkCancel db now tokenHash body = .ok db') (moved : List (ℕ × ℤ))
    (overQuota : Bool) : (⟨db, moved⟩ : Said).Posts ⟨db', moved⟩
      (linkCancelLetters db db' now tokenHash overQuota) := by
  obtain ⟨row, hrow, hafter⟩ := linkCancel_written h
  obtain ⟨hmem, _, hlive⟩ := resolve_eq_some hrow
  have hbefore : row.status ≠ .cancelledByClient := by
    rcases hlive with hconfirmed | ⟨hpending, _⟩
    · rw [hconfirmed]
      decide
    · rw [hpending]
      decide
  have hclient := (copies_email db' row.id .bookingCancelledByClient none .none {} overQuota).voices
    (by decide)
  have hteam := (copies_emailMerchants db' row.id row.workerId .bookingClientCancelled .none
    {}).voices (by decide)
  unfold linkCancelLetters
  rw [hrow]
  refine (hclient.append hteam (by decide)).posts fun part hpart => ?_
  rcases List.mem_pair.mp hpart with rfl | rfl
  · exact uses_status hmem hafter rfl (by decide) (by decide) hbefore rfl
  · exact uses_status hmem hafter rfl (by decide) (by decide) hbefore rfl

/-! ## § Moves -/

/-- A merchant's move is told under its clock, which no other move of the booking read. -/
theorem reschedule_posts {db db' : Db} {now : ℤ} {current : Session} {bookingId : ℕ}
    {change : MerchantMove} (h : reschedule db now current bookingId change = .ok db')
    {moved : List (ℕ × ℤ)} (hmoved : (moved ++ [(bookingId, now)]).Nodup) (overQuota : Bool) :
    (⟨db, moved⟩ : Said).Posts ⟨db', moved ++ [(bookingId, now)]⟩
      (rescheduleLetters db db' now current bookingId change overQuota) := by
  obtain ⟨row, _, hrow, _⟩ := reschedule_shifted h
  have huses : ∀ part ∈ [(MailTemplate.bookingConfirmed, KeySuffix.clock now)] ++
      [(.bookingMovedTeam, .clock now)] ++ [(.bookingNew, .clock now)],
      (⟨db, moved⟩ : Said).Uses ⟨db', moved ++ [(bookingId, now)]⟩ bookingId part := by
    have hfresh : (bookingId, now) ∉ moved := fun hmem =>
      (List.nodup_append.mp hmoved).2.2 _ hmem _ (List.mem_singleton.mpr rfl) rfl
    have hspent : (bookingId, now) ∈ moved ++ [(bookingId, now)] :=
      List.mem_append_right _ (List.mem_singleton.mpr rfl)
    intro part hpart
    simp only [List.mem_append, List.mem_singleton, or_assoc] at hpart
    rcases hpart with rfl | rfl | rfl
    · exact ⟨Or.inl rfl, hfresh, hspent⟩
    · exact ⟨Or.inr (Or.inr rfl), hfresh, hspent⟩
    · exact ⟨Or.inr (Or.inl rfl), hfresh, hspent⟩
  have hclock : ∀ {t t' : MailTemplate}, t ≠ t' → ∀ part ∈ [(t, KeySuffix.clock now)],
      part ∉ [(t', KeySuffix.clock now)] := by
    intro t t' hne part hpart hpart'
    rw [List.mem_singleton.mp hpart] at hpart'
    exact hne (Prod.mk.inj (List.mem_singleton.mp hpart')).1
  have hclient := ((copies_email db' bookingId .bookingConfirmed none (.clock now)
    { startsAt := some change.startsAt } overQuota).voices (by decide)).reminded
    (confirm db' bookingId change.startsAt (.clock now) overQuota) change.startsAt now
  have hteam := (copies_tellTeam db' current bookingId [db.workerUser row] .bookingMovedTeam
    (.clock now) { startsAt := some change.startsAt, previousStartsAt := some row.startsAt
                   memberChanged := change.memberId.getD row.workerId ≠ row.workerId }
    overQuota).voices (by decide)
  have hboth := hclient.append hteam (hclock (by decide))
  unfold rescheduleLetters
  rw [hrow]
  simp only
  split_ifs with hahead hmember
  · -- the member it is moved to is told of it as new
    have hnew := (copies_tellTeam db' current bookingId
      [db'.userOf (change.memberId.getD row.workerId)] .bookingNew (.clock now)
      { startsAt := some change.startsAt } overQuota).voices (by decide)
    refine (hboth.append hnew fun part hpart => ?_).posts huses
    rcases List.mem_append.mp hpart with hpart | hpart
    · exact hclock (by decide) part hpart
    · exact hclock (by decide) part hpart
  · rw [List.append_nil]
    exact hboth.posts fun part hpart => huses part (List.mem_append_left _ hpart)
  · exact posts_nil _ _

/-- A move is on record. -/
theorem Chronicle.moves_lt {db db' : Db} {id : ℕ} {kind : MoveKind}
    (h : Chronicle db (some (id, kind)) db') : db.moves id < db'.moves id := by
  cases h with
  | logs _ hnone _ => cases hnone
  | places _ _ _ _ hnone _ _ _ _ _ _ _ => cases hnone
  | moves db1 new b b' kind' e hmoves hlogs _ _ _ _ hevents hof hname =>
      obtain ⟨rfl, _⟩ := Prod.mk.inj (Option.some.inj hmoves)
      have hone : ([e].filter fun e => e.bookingId = b.id ∧ e.name = .rescheduled) = [e] := by
        simp [hof, hname]
      rw [moves_append hevents, hone, moves_append hlogs.events]
      exact Nat.lt_succ_of_le (Nat.le_add_right ..)

theorem linkReschedule_posts {db db' : Db} {now : ℤ} {tokenHash : ℕ} {body : LinkMove}
    (h : linkReschedule db now tokenHash body = .ok db') (moved : List (ℕ × ℤ))
    (overQuota : Bool) : (⟨db, moved⟩ : Said).Posts ⟨db', moved⟩
      (linkRescheduleLetters db db' now tokenHash overQuota) := by
  obtain ⟨row, changed, hrow, hshifted, _, hkind⟩ := linkReschedule_shifted h
  have hmoves : db.moves row.id < db'.moves row.id := by
    have hchronicle := linkReschedule_chronicle h
    rw [Op.moves, hrow] at hchronicle
    exact hchronicle.moves_lt
  unfold linkRescheduleLetters
  rw [hrow]
  simp only [hshifted.find]
  rcases hkind with ⟨hpending, _⟩ | ⟨hconfirmed, hcount⟩
  · rw [if_pos hpending]
    have hclient := (copies_email db' row.id .bookingReceived none (.moves (db.moves row.id + 1))
      { startsAt := some changed.startsAt } overQuota).voices (by decide)
    have hteam := (copies_emailMerchants db' row.id row.workerId .bookingClientRescheduled
      (.moves (db.moves row.id + 1)) { startsAt := some changed.startsAt
                                       previousStartsAt := some row.startsAt }).voices (by decide)
    refine (hclient.append hteam (by simp)).posts fun part hpart => ?_
    rcases List.mem_pair.mp hpart with rfl | rfl
    · exact ⟨Or.inl rfl, Nat.not_succ_le_self _, hmoves⟩
    · exact ⟨Or.inr rfl, Nat.not_succ_le_self _, hmoves⟩
  · rw [if_neg (by rw [hconfirmed]; decide)]
    have hfresh : ¬ ∃ b ∈ db.bookings.rows, b.id = row.id ∧
        changed.rescheduleCount ≤ b.rescheduleCount := by
      rintro ⟨b, hb, hid, hle⟩
      rw [db.bookings.eq_of_key hb hshifted.before hid, hcount] at hle
      exact Nat.not_succ_le_self _ hle
    have hspent : ∃ b ∈ db'.bookings.rows, b.id = row.id ∧
        changed.rescheduleCount ≤ b.rescheduleCount :=
      ⟨changed, hshifted.after, hshifted.id, le_rfl⟩
    have hclient := (copies_email db' row.id .bookingConfirmed none
      (.count changed.rescheduleCount) { startsAt := some changed.startsAt } overQuota).voices
      (by decide)
    have hteam := (copies_emailMerchants db' row.id row.workerId .bookingClientRescheduled
      (.count changed.rescheduleCount) { startsAt := some changed.startsAt
                                         previousStartsAt := some row.startsAt }).voices (by decide)
    refine ((hclient.append hteam (by simp)).reminded _ _ _).posts fun part hpart => ?_
    rcases List.mem_pair.mp hpart with rfl | rfl
    · exact ⟨Or.inl rfl, hfresh, hspent⟩
    · exact ⟨Or.inr rfl, hfresh, hspent⟩

/-! ## § Refunds -/

theorem giveBack_mails (db : Db) (id : ℕ) : (db.giveBack id).mails = db.mails := by
  unfold Db.giveBack
  cases h : db.expireOne id with
  | none => rfl
  | some db' =>
      obtain ⟨db1, hone, rfl⟩ := Option.map_eq_some_iff.mp h
      obtain ⟨_, rfl⟩ := updateOne_eq_some hone
      rfl

theorem writeRefund_mails (db : Db) (now : ℤ) (row : SettleRow) (due : ℤ)
    (refundId : Option ℕ) : (db.writeRefund now row due refundId).mails = db.mails := by
  unfold Db.writeRefund
  simp only
  split
  · exact giveBack_mails _ _
  · rfl

/-- The mails added, at most one and with it an event. -/
structure Db.Mails (db db' : Db) (new : List Mail) : Prop where
  mails : db'.mails = db.mails ++ new
  atMost : new.length ≤ 1
  told : new ≠ [] → db.events.length < db'.events.length

theorem mails_of_same {db db' : Db} (h : db'.mails = db.mails) : db.Mails db' [] :=
  ⟨by rw [h, List.append_nil], Nat.zero_le _, fun hne => absurd rfl hne⟩

theorem mails_of_record {db db' : Db} {e : Event} {new : List Mail}
    (hevents : db'.events = db.events ++ [e]) (hmails : db'.mails = db.mails ++ new)
    (hlen : new.length ≤ 1) : db.Mails db' new := by
  refine ⟨hmails, hlen, fun _ => ?_⟩
  rw [hevents, List.length_append]
  exact Nat.lt_succ_self _

theorem mails_refundFailed (db : Db) (bookingId : ℕ) (refund : Option ℕ) (overQuota : Bool) :
    ∃ new, db.Mails (db.refundFailed bookingId refund overQuota) new := by
  unfold Db.refundFailed Db.tellRefundFailed
  split
  · rename_i db' h
    obtain ⟨_, h⟩ := Option.ite_none_left_eq_some.mp h
    cases h
    unfold Db.mailRefundFailed Db.email
    split_ifs
    · exact ⟨[], mails_of_same rfl⟩
    · exact ⟨_, mails_of_record rfl rfl le_rfl⟩
    · exact ⟨[], mails_of_same rfl⟩
  · exact ⟨[], mails_of_same rfl⟩

theorem mails_tellRefund (db : Db) (now : ℤ) (row : SettleRow) (due refunded : ℤ)
    (overQuota : Bool) (outcome : RefundOutcome) :
    ∃ new, db.Mails (db.tellRefund now row due refunded overQuota outcome) new := by
  cases outcome with
  | held => exact ⟨[], mails_of_same rfl⟩
  | refused =>
      -- the flag is on the payment
      obtain ⟨new, hnew⟩ := mails_refundFailed
        (db.setRefundFlag row.payment.intentId refunded now) row.payment.bookingId none overQuota
      exact ⟨new, hnew.mails, hnew.atMost, hnew.told⟩
  | sent =>
      simp only [Db.tellRefund, Db.email]
      split_ifs
      · exact ⟨[], mails_of_same rfl⟩
      · exact ⟨_, mails_of_record rfl rfl le_rfl⟩
      · exact ⟨[], mails_of_same rfl⟩
      · exact ⟨[], mails_of_same rfl⟩

theorem mails_recordRefund (db : Db) (now : ℤ) (row : SettleRow) (due : ℤ)
    (refundId : Option ℕ) (refunded : ℤ) (outcome : RefundOutcome) (overQuota : Bool) :
    ∃ new, db.Mails (db.recordRefund now row due refundId refunded outcome overQuota) new := by
  unfold Db.recordRefund
  split
  · obtain ⟨new, hnew⟩ := mails_tellRefund (db.writeRefund now row due refundId) now row due
      refunded overQuota outcome
    obtain ⟨es, hes, _⟩ := (carries_writeRefund db now row due refundId).events
    refine ⟨new, by rw [hnew.mails, writeRefund_mails], hnew.atMost, fun hne => ?_⟩
    refine lt_of_le_of_lt ?_ (hnew.told hne)
    rw [hes, List.length_append]
    exact Nat.le_add_right ..
  · exact ⟨[], mails_of_same rfl⟩

theorem mails_refundChanged (db : Db) (now : ℤ) (intent : IntentId) (refundId : ℕ)
    (failed : Bool) (refunded : ℤ) (overQuota : Bool) :
    ∃ new, db.Mails (db.refundChanged now intent refundId failed refunded overQuota) new := by
  unfold Db.refundChanged
  split
  · exact ⟨[], mails_of_same rfl⟩
  · rename_i payment _
    cases failed with
    | false => exact ⟨[], mails_of_same rfl⟩
    | true =>
        obtain ⟨new, hnew⟩ := mails_refundFailed db payment.bookingId (some refundId) overQuota
        exact ⟨new, hnew.mails, hnew.atMost, hnew.told⟩

/-- A settled refund's mail is the booking's first. -/
theorem Db.Told.expired_once {db db' : Db} {new : List Mail} (h : db'.Told)
    (hmails : db'.mails = db.mails ++ new) {id : ℕ} {late late' : Bool}
    (hnew : .bookingExpired id late ∈ new) : .bookingExpired id late' ∉ db.mails := by
  intro hbefore
  have hlen := (h.once id).2
  rw [settlingMails_append hmails, List.length_append] at hlen
  have hone : 0 < (db.settlingMails id).length :=
    List.length_pos_of_mem (List.mem_filter.mpr ⟨hbefore, by simp [Mail.bookingId, Mail.settles]⟩)
  have htwo : 0 < (new.filter fun m => m.bookingId = id ∧ m.settles).length :=
    List.length_pos_of_mem (List.mem_filter.mpr ⟨hnew, by simp [Mail.bookingId, Mail.settles]⟩)
  omega

theorem copies_letter (db' : Db) (m : Mail) : Copies (m.letter db').key.bookingId
    (m.letter db').key.template (m.letter db').key.suffix [m.letter db'] := by
  refine ⟨fun l hl => ?_, List.nodup_singleton _⟩
  rw [List.mem_singleton.mp hl]
  exact ⟨rfl, rfl, rfl⟩

/-- **A refund's mail** is its booking's one mail of an expired checkout, or of the
event just told. -/
theorem refund_posts {db db' : Db} {new : List Mail} (h : db.Mails db' new) (htold : db'.Told)
    (moved : List (ℕ × ℤ)) :
    (⟨db, moved⟩ : Said).Posts ⟨db', moved⟩ (refundLetters db db') := by
  have hletters : refundLetters db db' = new.map (Mail.letter db') := by
    unfold refundLetters
    rw [h.mails, List.drop_left]
  rw [hletters]
  cases new with
  | nil => exact posts_nil _ _
  | cons m rest =>
      have hrest : rest = [] := List.length_eq_zero_iff.mp (Nat.le_zero.mp
        (Nat.le_of_succ_le_succ h.atMost))
      subst hrest
      have hgrew := h.told (List.cons_ne_nil _ _)
      have hmem : m ∈ db'.mails := by
        rw [h.mails]
        exact List.mem_append_right _ (List.mem_singleton.mpr rfl)
      cases m with
      | bookingExpired id late =>
          refine
            ((copies_letter db' (.bookingExpired id late)).voices (by simp [Mail.letter])).posts
            fun part hpart => ?_
          rw [List.mem_singleton.mp hpart]
          refine ⟨⟨by simp [Mail.letter], by simp [Mail.letter]⟩, ?_, Or.inl ⟨rfl, late, hmem⟩⟩
          rintro (⟨_, late', hbefore⟩ | ⟨_, _, _, hpast⟩)
          · exact htold.expired_once h.mails (List.mem_singleton.mpr rfl) hbefore
          · exact hpast
      | bookingRefundFailed id refund =>
          refine ((copies_letter db' (.bookingRefundFailed id refund)).voices
            (by simp [Mail.letter])).posts fun part hpart => ?_
          rw [List.mem_singleton.mp hpart]
          refine ⟨rfl, ?_, ?_⟩
          · show ¬ db'.events.length - 1 < db.events.length
            omega
          · show db'.events.length - 1 < db'.events.length
            omega

/-! ## § Every operation -/

/-- **No operation uses a key again.** -/
theorem letters_post {db db' : Db} {now : ℤ} {op : Op} (h : apply db now op = .ok db')
    (htold : db'.Told) {moved : List (ℕ × ℤ)} (hmoved : (moved ++ op.merchantMove now).Nodup)
    (overQuota : Bool) : (⟨db, moved⟩ : Said).Posts ⟨db', moved ++ op.merchantMove now⟩
      (op.letters db db' now overQuota) := by
  cases op with
  | reschedule current bookingId change => exact reschedule_posts h hmoved overQuota
  | bookOnline new =>
      obtain ⟨⟨_, b⟩, hbook, rfl⟩ := map_eq_ok.mp h
      exact (List.append_nil moved).symm ▸ bookOnline_posts hbook moved overQuota
  | book current new =>
      obtain ⟨⟨_, b⟩, hbook, rfl⟩ := map_eq_ok.mp h
      exact (List.append_nil moved).symm ▸ book_posts hbook moved overQuota
  | transition current bookingId change =>
      exact (List.append_nil moved).symm ▸ transition_posts h moved overQuota
  | linkReschedule tokenHash body =>
      exact (List.append_nil moved).symm ▸ linkReschedule_posts h moved overQuota
  | linkCancel tokenHash body =>
      exact (List.append_nil moved).symm ▸ linkCancel_posts h moved overQuota
  | reconcile row state =>
      cases h
      exact (List.append_nil moved).symm ▸ reconcile_posts db now row state moved overQuota
  | recordRefund row due refundId refunded outcome quota =>
      cases h
      obtain ⟨new, hnew⟩ := mails_recordRefund db now row due refundId refunded outcome quota
      exact (List.append_nil moved).symm ▸ refund_posts hnew htold moved
  | refundChanged intent refundId failed refunded quota =>
      cases h
      obtain ⟨new, hnew⟩ := mails_refundChanged db now intent refundId failed refunded quota
      exact (List.append_nil moved).symm ▸ refund_posts hnew htold moved
  | _ => exact posts_nil _ _

end Ziftbook
