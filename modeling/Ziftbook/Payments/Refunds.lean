import Ziftbook.Payments.Owing

/-!
# What a refund sends, tells and hands on

The provider's totals under every change of its refunds; the events and mails that
settle a refund, which its record alone writes; and, call by call, the tasks a
refund's answers lead to.
-/

namespace Ziftbook

open Foundation

/-! ## § What the provider has sent back -/

/-- A refund that no longer counts. -/
def Refund.fail (r : Refund) : Refund := { r with failed := true }

theorem total_of_rows {s s' : Provider} (p : Refund → Prop) [DecidablePred p]
    (h : s'.refunds.rows = s.refunds.rows) : s'.total p = s.total p := by
  unfold Provider.total
  rw [h]

theorem total_append {s s' : Provider} (p : Refund → Prop) [DecidablePred p] {r : Refund}
    (h : s'.refunds.rows = s.refunds.rows ++ [r]) (hr : r.failed = false) :
    s'.total p = s.total p + if p r then r.amount else 0 := by
  unfold Provider.total
  rw [h, List.filter_append, List.map_append, List.sum_append]
  by_cases hp : p r <;> simp [hp, hr]

theorem total_nonneg (s : Provider) (p : Refund → Prop) [DecidablePred p] : 0 ≤ s.total p := by
  apply List.sum_nonneg
  intro a ha
  obtain ⟨r, _, rfl⟩ := List.mem_map.mp ha
  exact r.positive.le

theorem total_mono (s : Provider) {p q : Refund → Prop} [DecidablePred p] [DecidablePred q]
    (h : ∀ r ∈ s.refunds.rows, p r → q r) : s.total p ≤ s.total q := by
  unfold Provider.total
  revert h
  generalize s.refunds.rows = rows
  intro h
  induction rows with
  | nil => exact le_rfl
  | cons r rows ih =>
      have hrest := ih fun x hx => h x (List.mem_cons_of_mem _ hx)
      have hpos := r.positive
      have hhead := h r (List.mem_cons_self ..)
      by_cases hf : r.failed = false
      · by_cases hp : p r
        · simpa [hf, hp, hhead hp] using hrest
        · by_cases hq : q r
          · simp only [hf, hp, hq, and_true, decide_true, decide_false, List.filter_cons_of_pos,
              Bool.false_eq_true, not_false_eq_true, List.filter_cons_of_neg, List.map_cons,
              List.sum_cons] at hrest ⊢
            omega
          · simpa [hf, hp, hq] using hrest
      · simpa [hf] using hrest

/-- A refund that fails takes its amount off, and nothing else does. -/
theorem total_fail {s s' : Provider} (p : Refund → Prop) [DecidablePred p] {id : ℕ}
    (h : s'.refunds.rows = s.refunds.rows.map fun r => if r.id = id then r.fail else r) :
    s'.total p ≤ s.total p := by
  unfold Provider.total
  rw [h]
  clear h
  induction s.refunds.rows with
  | nil => exact le_rfl
  | cons r rows ih =>
      have hpos := r.positive
      by_cases hid : r.id = id
      · have hfailed : r.fail.failed = true := rfl
        by_cases hr : p r ∧ r.failed = false
        · simp [hid, hfailed, hr] at ih ⊢
          omega
        · simpa [hid, hfailed, hr] using ih
      · by_cases hr : p r ∧ r.failed = false
        · simpa [hid, hr] using ih
        · simpa [hid, hr] using ih

/-- A total the failed refund is no part of stays. -/
theorem total_fail_other {s s' : Provider} (p : Refund → Prop) [DecidablePred p] {id : ℕ}
    (h : s'.refunds.rows = s.refunds.rows.map fun r => if r.id = id then r.fail else r)
    (hother : ∀ r ∈ s.refunds.rows, r.id = id → ¬ p r ∧ ¬ p r.fail) : s'.total p = s.total p := by
  unfold Provider.total
  rw [h]
  clear h
  revert hother
  induction s.refunds.rows with
  | nil => exact fun _ => rfl
  | cons r rows ih =>
      intro hother
      have hrest := ih fun x hx => hother x (List.mem_cons_of_mem _ hx)
      by_cases hid : r.id = id
      · obtain ⟨hp, hpfail⟩ := hother r (List.mem_cons_self ..) hid
        simpa [hid, hp, hpfail] using hrest
      · by_cases hr : p r ∧ r.failed = false
        · simpa [hid, hr] using hrest
        · simpa [hid, hr] using hrest

/-! ## § What a settled refund tells -/

def Mail.bookingId : Mail → ℕ
  | .bookingExpired id _ | .bookingRefundFailed id _ => id

/-- The events of the booking that settled a refund. -/
def Db.settlings (db : Db) (bookingId : ℕ) : List Event :=
  db.events.filter fun e => e.bookingId = bookingId ∧ e.settles

/-- The mails that went with them. -/
def Db.settlingMails (db : Db) (bookingId : ℕ) : List Mail :=
  db.mails.filter fun m => m.bookingId = bookingId ∧ m.settles

/-- The booking's payment has been settled by a refund, or by the decision to send
nothing. -/
def Db.refundSettled (db : Db) (bookingId : ℕ) : Prop :=
  ∃ p ∈ db.payments.rows, p.bookingId = bookingId ∧ p.status = .paid ∧ p.settledAt ≠ none

/-- A settled refund is told once, and none is told that is not settled. -/
structure Db.Told (db : Db) : Prop where
  events : ∀ e ∈ db.events, e.settles → db.refundSettled e.bookingId
  mails : ∀ m ∈ db.mails, m.settles → db.refundSettled m.bookingId
  once : ∀ id, (db.settlings id).length ≤ 1 ∧ (db.settlingMails id).length ≤ 1

theorem settlings_append {db db' : Db} {new : List Event} (h : db'.events = db.events ++ new)
    (id : ℕ) : db'.settlings id =
      db.settlings id ++ new.filter fun e => e.bookingId = id ∧ e.settles := by
  simp only [Db.settlings, h, List.filter_append]

theorem settlingMails_append {db db' : Db} {new : List Mail} (h : db'.mails = db.mails ++ new)
    (id : ℕ) : db'.settlingMails id =
      db.settlingMails id ++ new.filter fun m => m.bookingId = id ∧ m.settles := by
  simp only [Db.settlingMails, h, List.filter_append]

theorem tellRefund_mails (db : Db) (now : ℤ) (row : SettleRow) (due refunded : ℤ)
    (overQuota : Bool) (outcome : RefundOutcome) :
    ∃ new, (db.tellRefund now row due refunded overQuota outcome).mails = db.mails ++ new ∧
      new.length ≤ 1 ∧ ∀ m ∈ new, m.bookingId = row.payment.bookingId := by
  cases outcome with
  | held => exact ⟨[], by simp [Db.tellRefund, Db.setRefundFlag, Db.updateIntent], by simp⟩
  | refused =>
      obtain ⟨_, _, ms, hms, hlen, hall⟩ := refundFailed_tells
        (db.setRefundFlag row.payment.intentId refunded now) row.payment.bookingId none overQuota
      refine ⟨ms, hms, hlen, fun m hm => ?_⟩
      rw [hall m hm]
      rfl
  | sent =>
      simp only [Db.tellRefund, Db.email]
      split_ifs
      · exact ⟨[], by simp [Db.record], by simp⟩
      · exact ⟨_, rfl, le_rfl, by simp [Mail.bookingId]⟩
      · exact ⟨[], by simp [Db.record], by simp⟩
      · exact ⟨[], by simp, by simp⟩

/-- Statements that are not a refund's record tell of no settled refund. -/
theorem settles_of_carries {landing : Booking → Prop} {db db' : Db}
    (hc : Carries landing db db') :
    (∀ e ∈ db'.events, e.settles → e ∈ db.events) ∧
      (∀ m ∈ db'.mails, m.settles → m ∈ db.mails) ∧
      ∀ id, db'.settlings id = db.settlings id ∧ db'.settlingMails id = db.settlingMails id := by
  obtain ⟨es, hes, hplain⟩ := hc.events
  obtain ⟨ms, hms, hquiet⟩ := hc.mails
  refine ⟨fun e he hs => ?_, fun m hm hs => ?_, fun id => ⟨?_, ?_⟩⟩
  · rw [hes, List.mem_append] at he
    exact he.resolve_right fun he => (hplain e he).settles hs
  · rw [hms, List.mem_append] at hm
    exact hm.resolve_right fun hm => hquiet m hm hs
  · have hnone : (es.filter fun e => e.bookingId = id ∧ e.settles) = [] := by
      rw [List.filter_eq_nil_iff]
      intro e he hsel
      exact (hplain e he).settles (of_decide_eq_true hsel).2
    rw [settlings_append hes, hnone, List.append_nil]
  · have hnone : (ms.filter fun m => m.bookingId = id ∧ m.settles) = [] := by
      rw [List.filter_eq_nil_iff]
      intro m hm hsel
      exact hquiet m hm (of_decide_eq_true hsel).2
    rw [settlingMails_append hms, hnone, List.append_nil]

theorem told_of_carries {landing : Booking → Prop} {db db' : Db} (h : db.Told)
    (hc : Carries landing db db')
    (hsettled : ∀ id, db.refundSettled id → db'.refundSettled id) : db'.Told := by
  obtain ⟨hevents, hmails, hsame⟩ := settles_of_carries hc
  constructor
  · exact fun e he hs => hsettled _ (h.events e (hevents e he hs) hs)
  · exact fun m hm hs => hsettled _ (h.mails m (hmails m hm hs) hs)
  · intro id
    rw [(hsame id).1, (hsame id).2]
    exact h.once id

/-- What the record of a refund adds: at most one event and one mail, of its booking. -/
theorem recordRefund_adds {db : Db} {now : ℤ} {row : SettleRow} {due : ℤ}
    {refundId : Option ℕ} {refunded : ℤ} {outcome : RefundOutcome} {overQuota : Bool}
    (hopen : db.refundOpen row.payment.id due) :
    ∃ db1 es ms, Carries (fun _ => False) db db1 ∧
      (db.recordRefund now row due refundId refunded outcome overQuota).events =
        db1.events ++ es ∧
      (db.recordRefund now row due refundId refunded outcome overQuota).mails =
        db1.mails ++ ms ∧
      es.length ≤ 1 ∧ ms.length ≤ 1 ∧ (∀ e ∈ es, e.bookingId = row.payment.bookingId) ∧
      ∀ m ∈ ms, m.bookingId = row.payment.bookingId := by
  have hrecord : db.recordRefund now row due refundId refunded outcome overQuota =
      (db.writeRefund now row due refundId).tellRefund now row due refunded overQuota
        outcome := by
    rw [Db.recordRefund, if_pos hopen]
  obtain ⟨es, hes, hlen, hall⟩ := (tells_tellRefund (db.writeRefund now row due refundId) now row
    due refunded overQuota outcome).events
  obtain ⟨ms, hms, hmlen, hmall⟩ := tellRefund_mails (db.writeRefund now row due refundId) now row
    due refunded overQuota outcome
  rw [hrecord]
  exact ⟨_, es, ms, carries_writeRefund db now row due refundId, hes, hms, hlen, hmlen,
    fun e he => (hall e he).2, hmall⟩

/-- Other bookings are told nothing. -/
theorem recordRefund_other {db : Db} {now : ℤ} {row : SettleRow} {due : ℤ}
    {refundId : Option ℕ} {refunded : ℤ} {outcome : RefundOutcome} {overQuota : Bool}
    {id : ℕ} (hid : id ≠ row.payment.bookingId) :
    (db.recordRefund now row due refundId refunded outcome overQuota).settlings id =
        db.settlings id ∧
      (db.recordRefund now row due refundId refunded outcome overQuota).settlingMails id =
        db.settlingMails id := by
  by_cases hopen : db.refundOpen row.payment.id due
  · obtain ⟨db1, es, ms, hcarries, hes, hms, _, _, hall, hmall⟩ := @recordRefund_adds db now row
      due refundId refunded outcome overQuota hopen
    obtain ⟨hevents, hmails⟩ := (settles_of_carries hcarries).2.2 id
    have hnone : (es.filter fun e => e.bookingId = id ∧ e.settles) = [] := by
      rw [List.filter_eq_nil_iff]
      intro e he hsel
      exact hid ((of_decide_eq_true hsel).1.symm.trans (hall e he))
    have hnone' : (ms.filter fun m => m.bookingId = id ∧ m.settles) = [] := by
      rw [List.filter_eq_nil_iff]
      intro m hm hsel
      exact hid ((of_decide_eq_true hsel).1.symm.trans (hmall m hm))
    rw [settlings_append hes, settlingMails_append hms, hevents, hmails, hnone, hnone',
      List.append_nil, List.append_nil]
    exact ⟨rfl, rfl⟩
  · rw [Db.recordRefund, if_neg hopen]
    exact ⟨rfl, rfl⟩

/-- **The record of a refund** tells of it once, the first time. -/
theorem told_recordRefund {db : Db} (h : db.Told) {now : ℤ} {row : SettleRow} {due : ℤ}
    {refundId : Option ℕ} {refunded : ℤ} {outcome : RefundOutcome} {overQuota : Bool}
    (hopen : db.refundOpen row.payment.id due)
    (hfirst : ¬ db.refundSettled row.payment.bookingId)
    (hsettled : ∀ id, db.refundSettled id →
      (db.recordRefund now row due refundId refunded outcome overQuota).refundSettled id)
    (hmine : (db.recordRefund now row due refundId refunded outcome overQuota).refundSettled
      row.payment.bookingId) :
    (db.recordRefund now row due refundId refunded outcome overQuota).Told := by
  obtain ⟨db1, es, ms, hcarries, hes, hms, hlen, hmlen, hall, hmall⟩ := @recordRefund_adds db now
    row due refundId refunded outcome overQuota hopen
  obtain ⟨hevents, hmails, hsame⟩ := settles_of_carries hcarries
  constructor
  · intro e he hs
    rw [hes, List.mem_append] at he
    rcases he with he | he
    · exact hsettled _ (h.events e (hevents e he hs) hs)
    · rw [hall e he]
      exact hmine
  · intro m hm hs
    rw [hms, List.mem_append] at hm
    rcases hm with hm | hm
    · exact hsettled _ (h.mails m (hmails m hm hs) hs)
    · rw [hmall m hm]
      exact hmine
  · intro id
    by_cases hid : id = row.payment.bookingId
    · subst hid
      have hnone : db.settlings row.payment.bookingId = [] := by
        rw [Db.settlings, List.filter_eq_nil_iff]
        intro e he hsel
        have hsel := of_decide_eq_true hsel
        exact hfirst (hsel.1 ▸ h.events e he hsel.2)
      have hnone' : db.settlingMails row.payment.bookingId = [] := by
        rw [Db.settlingMails, List.filter_eq_nil_iff]
        intro m hm hsel
        have hsel := of_decide_eq_true hsel
        exact hfirst (hsel.1 ▸ h.mails m hm hsel.2)
      rw [settlings_append hes, settlingMails_append hms, (hsame _).1, (hsame _).2, hnone, hnone',
        List.nil_append, List.nil_append]
      exact ⟨(List.length_filter_le ..).trans hlen, (List.length_filter_le ..).trans hmlen⟩
    · rw [(recordRefund_other hid).1, (recordRefund_other hid).2]
      exact h.once id

/-! ## § What a refund's calls hand on -/

/-- The tasks that send, record or look at a refund. -/
def Task.refunds : Task → Prop
  | .ask (.refundSend ..) | .ask (.refundRetrieve _) | .ask (.refundCharge _) => True
  | .write (.recordRefund ..) | .write (.refundChanged ..) => True
  | _ => False

/-- What such a task was handed by the call before it, and on what answer. -/
inductive Ask.Hands (s s' : Provider) : Ask → Task → Prop
  | held {row due state} : s.state row.payment.intentId = some state →
      row.held due state = true →
      Hands s s' (.refundRead row) (.write (.recordRefund row due none state.amountRefunded .held))
  | send {row due state} : s.state row.payment.intentId = some state →
      Hands s s' (.refundRead row) (.ask (.refundSend row due state.amountRefunded))
  | enough {row due state} : s.state row.payment.intentId = some state →
      due ≤ state.amountRefunded →
      Hands s s' (.refundRead row) (.write (.recordRefund row due none state.amountRefunded .sent))
  | sent {row due refunded id} :
      s.Refunding s' row.payment.id row.payment.intentId (due - refunded) (some id) →
      Hands s s' (.refundSend row due refunded)
        (.write (.recordRefund row due (some id) refunded .sent))
  | rechecked {row due state} : s.state row.payment.intentId = some state →
      Hands s s' (.refundRecheck row due) (.write (.recordRefund row due none state.amountRefunded
        (if state.amountRefunded < due then .refused else .sent)))
  | retrieved {id refund} : s.refunds.find id = some refund →
      Hands s s' (.refundRetrieve id) (.ask (.refundCharge refund))
  | charged {refund state} : s.state refund.intent = some state →
      Hands s s' (.refundCharge refund)
        (.write (.refundChanged refund.intent refund.id refund.failed state.amountRefunded))

theorem settling_hands {s s' : Provider} {turn : Turn} {rows : List SettleRow} {bookingId : ℕ}
    {final reconciled : Bool} {next : Option (List Task)}
    (h : (Ask.settling rows bookingId final reconciled).answered s turn = some (s', next)) :
    ∀ ts, next = some ts → ∀ u ∈ ts, ¬ u.refunds := by
  cases rows with
  | nil =>
      simp only [Ask.answered] at h
      split_ifs at h <;> cases h <;> simp [Task.refunds]
  | cons row rows =>
      simp only [Ask.answered] at h
      split at h
      · obtain ⟨⟨s1, status⟩, _, heq⟩ := Option.map_eq_some_iff.mp h
        simp only at heq
        split_ifs at heq <;> cases heq <;> simp [Task.refunds]
      · obtain ⟨⟨s1, status⟩, _, heq⟩ := Option.map_eq_some_iff.mp h
        simp only at heq
        split_ifs at heq <;> cases heq <;> simp [Task.refunds]
      · cases h
        simp [Task.refunds]
      · cases h
        simp [Task.refunds]

/-- **A call** hands on a refund's task only as the refund's own calls do. -/
theorem ask_hands {s s' : Provider} {turn : Turn} {a : Ask} {next : Option (List Task)}
    (h : a.run s turn = some (s', next)) :
    ∀ ts, next = some ts → ∀ u ∈ ts, u.refunds → a.Hands s s' u := by
  unfold Ask.run at h
  split at h
  · obtain ⟨rfl, rfl⟩ := Prod.mk.inj (Option.some.inj h)
    cases a <;> simp [Ask.unreachable, Task.refunds]
  · cases a with
    | settling rows bookingId final reconciled =>
        exact fun ts hts u hu hr => absurd hr (settling_hands h ts hts u hu)
    | refundRead row =>
        obtain ⟨state, hstate, heq⟩ := Option.map_eq_some_iff.mp h
        split at heq
        · cases heq
          simp
        · rename_i due hdue
          split_ifs at heq with hheld hless <;> cases heq <;>
            simp only [Option.some.injEq, forall_eq', List.mem_singleton, forall_eq]
          · exact fun _ => .held hstate hheld
          · exact fun _ => .send hstate
          · exact fun _ => .enough hstate (not_lt.mp hless)
    | refundSend row due refunded =>
        obtain ⟨⟨s1, answer⟩, hs, heq⟩ := Option.map_eq_some_iff.mp h
        cases answer with
        | none =>
            cases heq
            simp [Task.refunds]
        | some id =>
            cases heq
            simp only [Option.some.injEq, forall_eq', List.mem_singleton, forall_eq]
            exact fun _ => .sent (refund_eq_some hs)
    | refundRecheck row due =>
        obtain ⟨state, hstate, heq⟩ := Option.map_eq_some_iff.mp h
        cases heq
        simp only [Option.some.injEq, forall_eq', List.mem_singleton, forall_eq]
        exact fun _ => .rechecked hstate
    | refundRetrieve refundId =>
        obtain ⟨refund, hrefund, heq⟩ := Option.map_eq_some_iff.mp h
        cases heq
        simp only [Option.some.injEq, forall_eq', List.mem_singleton, forall_eq]
        exact fun _ => .retrieved hrefund
    | refundCharge refund =>
        obtain ⟨state, hstate, heq⟩ := Option.map_eq_some_iff.mp h
        cases heq
        simp only [Option.some.injEq, forall_eq', List.mem_singleton, forall_eq]
        exact fun _ => .charged hstate
    | resumeRetrieve r =>
        obtain ⟨state, _, heq⟩ := Option.map_eq_some_iff.mp h
        split_ifs at heq <;> cases heq <;> simp [Task.refunds]
    | resumeCancel r =>
        obtain ⟨⟨s1, status⟩, _, heq⟩ := Option.map_eq_some_iff.mp h
        simp only at heq
        split_ifs at heq <;> cases heq <;> simp [Task.refunds]
    | resumeReplay live kind =>
        obtain ⟨state, _, heq⟩ := Option.map_eq_some_iff.mp h
        split_ifs at heq <;> cases heq <;> simp [Task.refunds]
    | abandonCancel bookingId payment =>
        obtain ⟨⟨s1, status⟩, _, heq⟩ := Option.map_eq_some_iff.mp h
        simp only at heq
        split_ifs at heq <;> cases heq <;> simp [Task.refunds]
    | _ =>
        obtain ⟨_, _, heq⟩ := Option.map_eq_some_iff.mp h
        cases heq
        simp [Task.refunds]

/-- A read of the tables hands on no refund's task. -/
theorem look_hands {db : Db} {now : ℤ} {l : Look} {ts : List Task}
    (h : l.run db now = some ts) : ∀ u ∈ ts, ¬ u.refunds := by
  cases l with
  | readPayment intent =>
      simp only [Look.run] at h
      split at h <;> cases h <;> simp [Task.refunds]
  | settlePass bookingId final =>
      cases h
      simp [Task.refunds]
  | resumeBeaten r made =>
      simp only [Look.run] at h
      split at h
      · split_ifs at h <;> cases h <;> simp [Task.refunds]
      · cases h
        simp [Task.refunds]
  | abandon bookingId =>
      simp only [Look.run] at h
      split at h
      · split_ifs at h
        split at h
        · split_ifs at h <;> cases h <;> simp [Task.refunds]
        · cases h
          simp [Task.refunds]
      · cases h
  | _ =>
      simp only [Look.run] at h
      split at h
      · split_ifs at h <;> cases h <;> simp [Task.refunds]
      · cases h

theorem refused_hands {w : Write} {e : Option ApiError} {ts : List Task}
    (h : w.refused e = some ts) : ∀ u ∈ ts, ¬ u.refunds := by
  cases w with
  | insert booking kind made =>
      cases h
      simp [Task.refunds]
  | resume r made =>
      cases e with
      | none => cases h
      | some e =>
          simp only [Write.refused] at h
          split_ifs at h <;> cases h <;> simp [Task.refunds]
  | _ => cases h

/-- A record that found its row hands on a look at its refund. -/
theorem committed_hands {db : Db} {w : Write} {u : Task} (hu : u ∈ w.committed db) :
    ∃ row due id refunded, w = .recordRefund row due (some id) refunded .sent ∧
      db.refundOpen row.payment.id due ∧ u = .ask (.refundRetrieve id) := by
  unfold Write.committed at hu
  split at hu
  · rename_i row due id refunded
    split_ifs at hu with hopen
    · exact ⟨row, due, id, refunded, rfl, hopen, List.mem_singleton.mp hu⟩
    · cases hu
  · cases hu

end Ziftbook
