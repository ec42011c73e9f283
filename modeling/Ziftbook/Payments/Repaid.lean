import Ziftbook.Payments.Refunds

/-!
# A refund is made once

Between a settle run's call to the provider and its record anything may happen: the
run dies, another run is ahead of it, the business refunds by hand. The key holds
back a second refund as long as it is kept, and once it is forgotten a new run has
read what went; the record is written by whoever gets there first.
-/

namespace Ziftbook

open Foundation

/-! ## § The invariant -/

/-- This program's refunds are of paid payments, come to what is due at most, and
are told once. -/
structure Till.Repaid (t : Till) : Prop where
  keyed : ∀ r ∈ t.provider.refunds.rows, ∀ id, r.key = some id →
    ∃ p ∈ t.db.payments.rows, p.id = id ∧ p.status = .paid ∧ p.intentId = r.intent
  sent : ∀ p ∈ t.db.payments.rows, t.provider.sentFor p.id = 0 ∨
    ∃ due, t.db.owes p due ∧ t.provider.sentFor p.id ≤ due
  told : t.db.Told

/-- A run about to send has read all that went, unless a key still kept holds it back. -/
def Task.spared (s : Provider) : Task → Prop
  | .ask (.refundSend row _ refunded) =>
      (∃ k ∈ s.kept, k.payment = row.payment.id) ∨ s.sentFor row.payment.id ≤ refunded
  | _ => True

theorem spared_of_not_refunds {s : Provider} {u : Task} (h : ¬ u.refunds) : u.spared s := by
  cases u with
  | ask a =>
      cases a with
      | refundSend row due refunded => exact absurd trivial h
      | _ => trivial
  | _ => trivial

theorem exists_keyed {s : Provider} {id : ℕ} (h : s.sentFor id ≠ 0) :
    ∃ r ∈ s.refunds.rows, r.key = some id := by
  by_contra hnone
  apply h
  unfold Provider.sentFor Provider.total
  rw [List.filter_eq_nil_iff.mpr]
  · rfl
  · intro r hr hsel
    exact hnone ⟨r, hr, (of_decide_eq_true hsel).1⟩

/-- The payment a refund of this program was made for. -/
theorem Till.Repaid.keyed_eq {t : Till} (h : t.Repaid) {r : Refund}
    (hr : r ∈ t.provider.refunds.rows) {p : Payment} (hp : p ∈ t.db.payments.rows)
    (hkey : r.key = some p.id) : p.status = .paid ∧ p.intentId = r.intent := by
  obtain ⟨q, hq, hid, hpaid, hintent⟩ := h.keyed r hr p.id hkey
  have heq : q = p := t.db.payments.eq_of_key hq hp hid
  subst heq
  exact ⟨hpaid, hintent⟩

/-! ## § What the tables do -/

theorem Till.Grows.refundSettled {t t' : Till} (h : t.Grows t') {id : ℕ}
    (hs : t.db.refundSettled id) : t'.db.refundSettled id := by
  obtain ⟨p, hp, hid, hpaid, hsettled⟩ := hs
  obtain ⟨p', hp', hlater⟩ := h.payments p hp
  have hopen : p.status ≠ .open := by rw [hpaid]; decide
  refine ⟨p', hp', hlater.bookingId.trans hid, (hlater.status_eq hopen).trans hpaid, ?_⟩
  intro hnone
  exact hsettled (hlater.unsettled hopen hnone)

/-- Payments that move on keep what was sent within what they owe. -/
theorem repaid_db {t : Till} {db' : Db} (h : t.Repaid) (hgrows : t.Grows ⟨db', t.provider⟩)
    (hholds : t.Holds ⟨db', t.provider⟩) (htold : db'.Told) :
    (⟨db', t.provider⟩ : Till).Repaid := by
  have hmoved : ∀ r ∈ t.provider.refunds.rows, ∀ id, r.key = some id →
      ∃ p ∈ t.db.payments.rows, ∃ p' ∈ db'.payments.rows, p.Later p' ∧ p'.id = id ∧
        p.status = .paid ∧ p'.status = .paid ∧ p'.intentId = r.intent := by
    intro r hr id hkey
    obtain ⟨p, hp, hid, hpaid, hintent⟩ := h.keyed r hr id hkey
    obtain ⟨p', hp', hlater⟩ := hgrows.payments p hp
    exact ⟨p, hp, p', hp', hlater, hlater.id.trans hid, hpaid,
      (hlater.status_eq (by rw [hpaid]; decide)).trans hpaid, hlater.intentId.trans hintent⟩
  constructor
  · intro r hr id hkey
    obtain ⟨_, _, p', hp', _, hid, _, hpaid, hintent⟩ := hmoved r hr id hkey
    exact ⟨p', hp', hid, hpaid, hintent⟩
  · intro p' hp'
    by_cases hzero : t.provider.sentFor p'.id = 0
    · exact Or.inl hzero
    · obtain ⟨r, hr, hkey⟩ := exists_keyed hzero
      obtain ⟨p, hp, q', hq', hlater, hid, hpaid, _, _⟩ := hmoved r hr p'.id hkey
      have heq : q' = p' := db'.payments.eq_of_key hq' hp' hid
      subst heq
      rw [hlater.id] at hzero ⊢
      obtain ⟨due, howes, hle⟩ := (h.sent p hp).resolve_left hzero
      have howes' := hholds.owes (onFile_of_mem hp) hpaid howes
      exact Or.inr ⟨due, howes'.congr hlater.bookingId hlater.amountMinor, hle⟩
  · exact htold

/-- The record finds its row paid and not settled, and leaves it settled. -/
theorem refundOpen_moves {t : Till} {row : SettleRow} {due : ℤ} (now : ℤ)
    (refundId : Option ℕ) (refunded : ℤ) (outcome : RefundOutcome) (overQuota : Bool)
    (hs : t.Sound) (hok : t.db.onFile row.payment ∧ row.payment.status = .paid)
    (hopen : t.db.refundOpen row.payment.id due) :
    ¬ t.db.refundSettled row.payment.bookingId ∧
      ∃ p' ∈ (t.db.recordRefund now row due refundId refunded outcome overQuota).payments.rows,
        p'.id = row.payment.id ∧ p'.bookingId = row.payment.bookingId ∧ p'.status = .paid ∧
          p'.settledAt ≠ none := by
  obtain ⟨p, hp, hid, hrefundable⟩ := hopen
  have hlater := hok.1.later hp hid.symm
  have hpaid : p.status = .paid := (hlater.status_eq (by rw [hok.2]; decide)).trans hok.2
  constructor
  · rintro ⟨q, hq, hbooking, hqpaid, hsettled⟩
    have heq : q = p := by
      apply hs.alone q hq p hp
      · rw [hbooking, hlater.bookingId]
      · rw [hqpaid]; decide
      · rw [hpaid]; decide
    subst heq
    exact hsettled hrefundable.1
  · refine ⟨_, (mem_recordRefund ⟨p, hp, hid, hrefundable⟩).mpr ⟨p, hp, rfl⟩, ?_, ?_, ?_, ?_⟩
    · rw [Payment.recorded_id, hid]
    · have hbooking : (p.recorded now row due refundId refunded outcome).bookingId =
          p.bookingId := by
        unfold Payment.recorded Payment.refunded
        simp only
        split_ifs <;> rfl
      rw [hbooking, hlater.bookingId]
    · have hstatus : (p.recorded now row due refundId refunded outcome).status = p.status := by
        unfold Payment.recorded Payment.refunded
        simp only
        split_ifs <;> rfl
      rw [hstatus, hpaid]
    · unfold Payment.recorded Payment.refunded
      simp only [hid, if_true, dif_pos hrefundable]
      split_ifs <;> simp [Payment.setRefundFlag]

/-- **A transaction** tells of a settled refund once. -/
theorem told_write {t : Till} {turn : Turn} {w : Write} {db' : Db} (hs : t.Sound)
    (h : t.db.Told) (hok : w.ok t) (happly : apply t.db turn.now (w.op turn) = .ok db') :
    db'.Told := by
  have hgrows := grows_of_turned (turned_of_apply happly)
  by_cases hrecords : (w.op turn).records = false
  · exact told_of_carries h (carries_of_apply happly hrecords) fun _ => hgrows.refundSettled
  · cases w with
    | recordRefund row due refundId refunded outcome =>
        cases happly
        by_cases hopen : t.db.refundOpen row.payment.id due
        · obtain ⟨hfirst, p', hp', _, hbooking, hpaid, hsettled⟩ :=
            refundOpen_moves turn.now refundId refunded outcome turn.overQuota hs hok hopen
          exact told_recordRefund h hopen hfirst (fun _ => hgrows.refundSettled)
            ⟨p', hp', hbooking, hpaid, hsettled⟩
        · rw [Db.recordRefund, if_neg hopen]
          exact h
    | _ => exact absurd rfl hrecords

/-! ## § What the provider does -/

/-- No payment has more sent back for it, and no refund is new of this program's. -/
structure Provider.SendsNoMore (s s' : Provider) : Prop where
  keyed : ∀ r ∈ s'.refunds.rows, ∀ id, r.key = some id →
    ∃ q ∈ s.refunds.rows, q.key = some id ∧ q.intent = r.intent
  sent : ∀ id, s'.sentFor id ≤ s.sentFor id

theorem sendsNoMore_of_rows {s s' : Provider} (h : s'.refunds.rows = s.refunds.rows) :
    s.SendsNoMore s' := by
  constructor
  · intro r hr id hkey
    exact ⟨r, h ▸ hr, hkey, rfl⟩
  · intro id
    exact (total_of_rows _ h).le

theorem sendsNoMore_handRefund {s s' : Provider} {intent : IntentId} {amount : ℤ} {id : ℕ}
    (h : s.handRefund intent amount id = some s') : s.SendsNoMore s' := by
  obtain ⟨hpos, hinsert⟩ := handRefund_eq_some h
  obtain ⟨_, hrows, _⟩ := insertRefund_eq_some hinsert
  constructor
  · intro r hr payment hkey
    rw [hrows, List.mem_append, List.mem_singleton] at hr
    rcases hr with hr | rfl
    · exact ⟨r, hr, hkey, rfl⟩
    · cases hkey
  · intro payment
    have htotal := total_append (fun r => r.key = some payment) hrows rfl
    rw [if_neg (by simp), add_zero] at htotal
    exact htotal.le

theorem sendsNoMore_failRefund {s s' : Provider} {id : ℕ} (h : s.failRefund id = some s') :
    s.SendsNoMore s' := by
  obtain ⟨_, rfl⟩ := failRefund_eq_some h
  constructor
  · intro r hr payment hkey
    obtain ⟨q, hq, rfl⟩ : ∃ q ∈ s.refunds.rows, (if q.id = id then q.fail else q) = r :=
      List.mem_map.mp hr
    refine ⟨q, hq, ?_⟩
    by_cases hid : q.id = id
    · rw [if_pos hid] at hkey ⊢
      exact ⟨hkey, rfl⟩
    · rw [if_neg hid] at hkey ⊢
      exact ⟨hkey, rfl⟩
  · intro payment
    exact total_fail _ rfl

theorem Provider.SendsNoMore.repaid {t : Till} {s' : Provider}
    (h : t.provider.SendsNoMore s') (hr : t.Repaid) : (⟨t.db, s'⟩ : Till).Repaid := by
  constructor
  · intro r hmem id hkey
    obtain ⟨q, hq, hqkey, hintent⟩ := h.keyed r hmem id hkey
    rw [← hintent]
    exact hr.keyed q hq id hqkey
  · intro p hp
    rcases hr.sent p hp with hzero | ⟨due, howes, hle⟩
    · left
      apply le_antisymm
      · exact hzero ▸ h.sent p.id
      · exact total_nonneg _ _
    · exact Or.inr ⟨due, howes, (h.sent p.id).trans hle⟩
  · exact hr.told

theorem Provider.SendsNoMore.spared {s s' : Provider} (h : s.SendsNoMore s')
    (hkept : ∀ k ∈ s.kept, k ∈ s'.kept) {u : Task} (hu : u.spared s) : u.spared s' := by
  cases u with
  | ask a =>
      cases a with
      | refundSend row due refunded =>
          refine Or.imp ?_ ?_ hu
          · rintro ⟨k, hk, hpayment⟩
            exact ⟨k, hkept k hk, hpayment⟩
          · exact (h.sent row.payment.id).trans
      | _ => trivial
  | _ => trivial

/-- **A refund sent** under a key not kept: all that went for the payment was read
before, so what goes now tops it up to what is due. -/
theorem repaid_made {t : Till} (h : t.Repaid) {row : SettleRow} {due refunded : ℤ} {id : ℕ}
    {hpos : 0 < due - refunded} {s1 : Provider}
    (hok : t.db.onFile row.payment ∧ row.payment.status = .paid)
    (howes : t.db.owes row.payment due)
    (hspared : (Task.ask (.refundSend row due refunded)).spared t.provider)
    (hfresh : ∀ k ∈ t.provider.kept, k.payment ≠ row.payment.id)
    (hinsert : t.provider.insertRefund
      ⟨id, row.payment.intentId, due - refunded, some row.payment.id, false, hpos⟩ = some s1)
    (k : KeptKey) (hk : k.payment = row.payment.id) :
    (⟨t.db, { s1 with kept := k :: s1.kept }⟩ : Till).Repaid ∧
      ∀ u : Task, u.spared t.provider → u.spared { s1 with kept := k :: s1.kept } := by
  obtain ⟨_, hrows, _, hkept, _⟩ := insertRefund_eq_some hinsert
  have hread : t.provider.sentFor row.payment.id ≤ refunded := by
    rcases hspared with ⟨k', hk', hpayment⟩ | hread
    · exact absurd hpayment (hfresh k' hk')
    · exact hread
  have hsent : ∀ payment : ℕ, ({ s1 with kept := k :: s1.kept } : Provider).sentFor payment =
      t.provider.sentFor payment + if row.payment.id = payment then due - refunded else 0 := by
    intro payment
    have htotal := total_append (fun r => r.key = some payment) hrows rfl
    simp only [Option.some.injEq] at htotal
    exact htotal
  obtain ⟨p, hp, hlater⟩ := hok.1
  have hpaid : p.status = .paid := (hlater.status_eq (by rw [hok.2]; decide)).trans hok.2
  refine ⟨⟨?_, ?_, h.told⟩, ?_⟩
  · intro r hr payment hkey
    change r ∈ s1.refunds.rows at hr
    rw [hrows, List.mem_append, List.mem_singleton] at hr
    rcases hr with hr | rfl
    · exact h.keyed r hr payment hkey
    · cases hkey
      exact ⟨p, hp, hlater.id, hpaid, hlater.intentId⟩
  · intro q hq
    rw [hsent]
    by_cases hmine : row.payment.id = q.id
    · have heq : p = q := t.db.payments.eq_of_key hp hq (hlater.id.trans hmine)
      subst heq
      rw [if_pos hmine, ← hmine]
      exact Or.inr ⟨due, howes.congr hlater.bookingId hlater.amountMinor, by omega⟩
    · rw [if_neg hmine, add_zero]
      exact h.sent q hq
  · intro u hu
    cases u with
    | ask a =>
        cases a with
        | refundSend row' due' refunded' =>
            by_cases hmine : row.payment.id = row'.payment.id
            · exact Or.inl ⟨k, List.mem_cons_self .., hk.trans hmine⟩
            · refine Or.imp ?_ ?_ hu
              · rintro ⟨k', hk', hpayment⟩
                exact ⟨k', List.mem_cons_of_mem _ (hkept.symm ▸ hk'), hpayment⟩
              · intro hle
                rw [hsent, if_neg hmine, add_zero]
                exact hle
        | _ => trivial
    | _ => trivial

/-- **A call** sends what is due at most. -/
theorem repaid_ask {t : Till} {s' : Provider} {a : Ask} {next : Option (List Task)}
    (h : t.Repaid) (hok : a.ok t) (howed : (Task.ask a).owed t.db)
    (hspared : (Task.ask a).spared t.provider) (hasked : t.provider.Asked s' a next) :
    (⟨t.db, s'⟩ : Till).Repaid ∧ ∀ u : Task, u.spared t.provider → u.spared s' := by
  rcases hasked with hquiet | ⟨row, due, refunded, answer, rfl, hrefund, _⟩
  · have hsame : t.provider.SendsNoMore s' := sendsNoMore_of_rows (by rw [hquiet.refunds])
    exact ⟨hsame.repaid h, fun u hu => hsame.spared (fun k hk => hquiet.kept.symm ▸ hk) hu⟩
  · cases hrefund with
    | again k _ _ _ hs _ =>
        rw [hs]
        exact ⟨h, fun _ hu => hu⟩
    | refused hs _ =>
        rw [hs]
        exact ⟨h, fun _ hu => hu⟩
    | made id hpos s1 hfresh hinsert hs _ =>
        rw [hs]
        exact repaid_made h hok howed hspared hfresh hinsert _ rfl

/-! ## § Every step -/

/-- What the tables show of the refunds of an intent that is not a SetupIntent. -/
theorem state_amountRefunded {s : Provider} {intent : IntentId} {state : IntentState}
    (h : s.state intent = some state) (hsetup : intent.setup = false) :
    state.amountRefunded = s.amountRefunded intent := by
  obtain ⟨i, _, rfl⟩ := Option.map_eq_some_iff.mp h
  rw [if_neg (by rw [hsetup]; decide)]

/-- A paid payment's intent is charged. -/
theorem setup_of_paid {p : Payment} (h : p.status = .paid) : p.intentId.setup = false := by
  apply p.setup_is_a_check.resolve_right
  intro hcheck
  rcases p.kind_status with ⟨_, hpaid⟩ | ⟨hpay, _⟩
  · exact hpaid h
  · cases hcheck.symm.trans hpay

/-- What a run reads before it sends is all that went for its payment. -/
theorem spared_hands {t : Till} {s' : Provider} {a : Ask} {u : Task} (h : t.Repaid)
    (hok : a.ok t) (hhands : a.Hands t.provider s' u) : u.spared t.provider := by
  cases hhands with
  | send hstate =>
      rename_i row due state
      right
      obtain ⟨p, hp, hlater⟩ := hok.1
      rw [state_amountRefunded hstate (setup_of_paid hok.2)]
      apply total_mono
      intro r hr hkey
      rw [← hlater.id] at hkey
      rw [← hlater.intentId]
      exact (h.keyed_eq hr hp hkey).2.symm
  | _ => trivial

/-- **A task** leaves the payments repaid, and what it hands on spares them. -/
theorem exec_repaid {t t' : Till} {u : Task} {turn : Turn} {next : Option (List Task)}
    (hs : t.Sound) (ho : t.Owing) (h : t.Repaid) (hok : u.ok t) (howed : u.owed t.db)
    (hspared : u.spared t.provider) (hexec : t.exec u turn = some (t', next)) :
    t'.Repaid ∧ (∀ v : Task, v.spared t.provider → v.spared t'.provider) ∧
      ∀ ts, next = some ts → ∀ v ∈ ts, v.spared t'.provider := by
  cases u with
  | look l =>
      cases hexec
      refine ⟨h, fun _ hv => hv, fun ts hts v hv => ?_⟩
      split_ifs at hts
      exact spared_of_not_refunds (look_hands hts v hv)
  | ask a =>
      obtain ⟨⟨s, next⟩, ha, heq⟩ := Option.map_eq_some_iff.mp hexec
      cases heq
      obtain ⟨hasked, _⟩ := ask_next hok ha
      obtain ⟨hrepaid, hkeeps⟩ := repaid_ask h hok howed hspared hasked
      refine ⟨hrepaid, hkeeps, fun ts hts v hv => ?_⟩
      by_cases hv' : v.refunds
      · exact hkeeps v (spared_hands h hok (ask_hands ha ts hts v hv hv'))
      · exact spared_of_not_refunds hv'
  | write w =>
      cases hexec
      rcases write_cases t.db turn w with ⟨hdb, e, hrefused⟩ | ⟨happly, hcommitted⟩
      · rw [hdb]
        refine ⟨h, fun _ hv => hv, fun ts hts v hv => ?_⟩
        exact spared_of_not_refunds (refused_hands (hrefused ▸ hts) v hv)
      · have hholds := (owing_write hs ho hok howed happly).1
        refine ⟨repaid_db h (grows_of_turned (turned_of_apply happly)) hholds
          (told_write hs h.told hok happly), fun _ hv => hv, fun ts hts v hv => ?_⟩
        rw [hcommitted] at hts
        cases hts
        obtain ⟨_, _, id, _, _, _, rfl⟩ := committed_hands hv
        trivial

/-- **What happens around the threads** leaves them so; a key is forgotten only when no
run may use it any more. -/
theorem around_repaid {t t' : Till} {tasks : List Task} {e : Around} (hs : t.Sound)
    (ho : t.Owing) (h : t.Repaid) (hspared : ∀ u ∈ tasks, u.spared t.provider)
    (he : t.around tasks e = some t') : t'.Repaid ∧ ∀ u ∈ tasks, u.spared t'.provider := by
  have hsame : ∀ {s : Provider}, t.provider.SendsNoMore s → s.kept = t.provider.kept →
      (⟨t.db, s⟩ : Till).Repaid ∧ ∀ u ∈ tasks, u.spared s := by
    intro s hs hkept
    exact ⟨hs.repaid h, fun u hu => hs.spared (fun k hk => hkept.symm ▸ hk) (hspared u hu)⟩
  have hgrows := (around_sound hs he).2
  have hholds := (around_owing hs ho he).2
  cases e with
  | op now op =>
      rcases around_op he with rfl | ⟨db', haside, rfl⟩
      · exact ⟨h, hspared⟩
      · refine ⟨repaid_db h hgrows hholds ?_, hspared⟩
        exact told_of_carries h.told haside.carries fun _ => hgrows.refundSettled
  | advance intent status chargedAt =>
      obtain ⟨s, hadvance, rfl⟩ := Option.map_eq_some_iff.mp he
      have hquiet := advance_eq_some hadvance
      exact hsame (sendsNoMore_of_rows (by rw [hquiet.refunds])) hquiet.kept
  | handRefund intent amount id =>
      obtain ⟨s, hhand, rfl⟩ := Option.map_eq_some_iff.mp he
      obtain ⟨_, hinsert⟩ := handRefund_eq_some hhand
      exact hsame (sendsNoMore_handRefund hhand) (insertRefund_eq_some hinsert).2.2.2.1
  | failRefund id =>
      obtain ⟨s, hfail, rfl⟩ := Option.map_eq_some_iff.mp he
      refine hsame (sendsNoMore_failRefund hfail) ?_
      rw [(failRefund_eq_some hfail).2]
  | forget payment =>
      simp only [Till.around] at he
      split_ifs at he with hused
      cases he
      have hsends : t.provider.SendsNoMore (t.provider.forget payment) := sendsNoMore_of_rows rfl
      refine ⟨hsends.repaid h, fun u hu => ?_⟩
      have hold := hspared u hu
      have hunused : ¬ u.mayUse payment := fun huse => hused ⟨u, hu, huse⟩
      cases u with
      | ask a =>
          cases a with
          | refundSend row due refunded =>
              refine Or.imp ?_ ?_ hold
              · rintro ⟨k, hk, hpayment⟩
                refine ⟨k, List.mem_filter.mpr ⟨hk, ?_⟩, hpayment⟩
                rw [hpayment]
                exact decide_eq_true hunused
              · exact (hsends.sent row.payment.id).trans
          | _ => trivial
      | _ => trivial

theorem enter_repaid {t t' : Till} {e : Entry} {ts : List Task} (h : t.Repaid)
    (he : t.enter e = some (t', ts)) :
    t'.Repaid ∧ (∀ u ∈ ts, u.spared t'.provider) ∧
      ∀ u : Task, u.spared t.provider → u.spared t'.provider := by
  cases e with
  | start bookingId kind =>
      obtain ⟨b, _, heq⟩ := Option.map_eq_some_iff.mp he
      cases heq
      exact ⟨h, by simp [Task.spared], fun _ hu => hu⟩
  | refundEvent refundId =>
      cases he
      have hsends : t.provider.SendsNoMore
          { t.provider with events := t.provider.events.erase refundId } :=
        sendsNoMore_of_rows rfl
      exact ⟨hsends.repaid h, by simp [Task.spared],
        fun u hu => hsends.spared (fun _ hk => hk) hu⟩
  | _ =>
      cases he
      exact ⟨h, by simp [Task.spared], fun _ hu => hu⟩

/-- What the program sends back is what is due at most, in every interleaving. -/
abbrev Desk.Repaid (d : Desk) : Prop :=
  Pool.Invariant (fun t => (t.Sound ∧ t.Owing) ∧ t.Repaid)
    (fun t u => (u.ok t ∧ u.owed t.db) ∧ u.spared t.provider) d

theorem Desk.Repaid.owing {d : Desk} (h : d.Repaid) : d.Owing :=
  ⟨h.shared.1, fun u hu => (h.tasks u hu).1⟩

theorem repaid_step {d d' : Desk} {m : Deed} (h : d.Repaid) (hstep : d.step m = some d') :
    d'.Repaid := by
  refine Pool.invariant_step (P := till) ?_ ?_ ?_ h hstep
  · rintro t ts e t' ⟨⟨hs, ho⟩, hr⟩ hok he
    obtain ⟨hs', hgrows⟩ := around_sound hs he
    obtain ⟨ho', hholds⟩ := around_owing hs ho he
    obtain ⟨hr', hspared⟩ := around_repaid hs ho hr (fun u hu => (hok u hu).2) he
    exact ⟨⟨⟨hs', ho'⟩, hr'⟩, fun u hu =>
      ⟨⟨hgrows.ok (hok u hu).1.1, hholds.owed (hok u hu).1.1 (hok u hu).1.2⟩, hspared u hu⟩⟩
  · rintro t e t' ts ⟨⟨hs, ho⟩, hr⟩ he
    obtain ⟨hs', hgrows, hnew⟩ := enter_sound hs he
    obtain ⟨ho', hholds, hnew'⟩ := enter_owing ho he
    obtain ⟨hr', hnew'', hspared⟩ := enter_repaid hr he
    exact ⟨⟨⟨hs', ho'⟩, hr'⟩, fun u hu => ⟨⟨hnew u hu, hnew' u hu⟩, hnew'' u hu⟩,
      fun u hu => ⟨⟨hgrows.ok hu.1.1, hholds.owed hu.1.1 hu.1.2⟩, hspared u hu.2⟩⟩
  · rintro t u turn t' next ⟨⟨hs, ho⟩, hr⟩ ⟨⟨hok, howed⟩, hspared⟩ he
    obtain ⟨hs', hgrows, hnext⟩ := exec_sound hs hok he
    obtain ⟨ho', hholds, hnext'⟩ := exec_owing hs ho hok howed he
    obtain ⟨hr', hkeeps, hnext''⟩ := exec_repaid hs ho hr hok howed hspared he
    exact ⟨⟨⟨hs', ho'⟩, hr'⟩,
      fun ts hts v hv => ⟨⟨hnext ts hts v hv, hnext' ts hts v hv⟩, hnext'' ts hts v hv⟩,
      fun v hv => ⟨⟨hgrows.ok hv.1.1, hholds.owed hv.1.1 hv.1.2⟩, hkeeps v hv.2⟩⟩

theorem repaid_run {d d' : Desk} {ms : List Deed} (h : d.Repaid) (hrun : d.run ms = some d') :
    d'.Repaid :=
  Runs.run_invariant' (fun _ _ _ hs hstep => repaid_step hs hstep) h hrun

theorem Desk.Blank.repaid {d : Desk} (h : d.Blank) : d.Repaid := by
  obtain ⟨hshared, _⟩ := h.owing
  refine ⟨⟨hshared, ⟨fun r hr => ?_, fun p hp => ?_, ⟨fun e he => ?_, fun m hm => ?_,
    fun id => ?_⟩⟩⟩, fun u hu => ?_⟩
  · rw [h.refunds] at hr
    cases hr
  · rw [h.payments] at hp
    cases hp
  · rw [h.events] at he
    cases he
  · rw [h.mails] at hm
    cases hm
  · simp [Db.settlings, Db.settlingMails, h.events, h.mails]
  · rw [Pool.tasks, h.threads] at hu
    cases hu

/-! ## § The record of a refund -/

/-- The step is a settle run's record of the payment's refund, and gets there first. -/
def Desk.settles (d : Desk) (m : Deed) (id : ℕ) : Prop :=
  ∃ i turn row due refundId refunded outcome rest, m = .go i turn ∧ turn.failed = false ∧
    d.threads[i]? = some (.write (.recordRefund row due refundId refunded outcome) :: rest) ∧
    row.payment.id = id ∧ d.shared.db.refundOpen id due

/-- What one step writes to the tables. -/
inductive Desk.Wrote (d d' : Desk) (m : Deed) : Prop
  | nothing : d'.shared.db = d.shared.db → Wrote d d' m
  | aside : Aside d.shared.db d'.shared.db → Wrote d d' m
  | task (i : ℕ) (turn : Turn) (w : Write) (rest : List Task) : m = .go i turn →
      turn.failed = false → d.threads[i]? = some (.write w :: rest) →
      apply d.shared.db turn.now (w.op turn) = .ok d'.shared.db → Wrote d d' m

theorem step_wrote {d d' : Desk} {m : Deed} (h : d.step m = some d') : d.Wrote d' m := by
  cases Pool.stepped h with
  | world e he _ =>
      rcases around_db he with hdb | ⟨now, op, _, hpays, happly⟩
      · exact .nothing hdb
      · exact .aside (aside_of_apply happly hpays)
  | start e ts he _ => exact .nothing (enter_db he)
  | go i turn u rest next hthread he _ =>
      rcases exec_db he with hdb | ⟨w, rfl, hdb⟩
      · exact .nothing hdb
      · cases hfailed : turn.failed with
        | true =>
            apply Desk.Wrote.nothing
            rw [hdb, Write.run, if_pos hfailed]
        | false =>
            rcases write_cases d.shared.db turn w with ⟨hsame, _⟩ | ⟨happly, _⟩
            · exact .nothing (hdb.trans hsame)
            · exact .task i turn w rest rfl hfailed hthread (hdb ▸ happly)
  | die i hshared _ => exact .nothing (by rw [hshared])

/-- A paid row on file has been settled. -/
def Db.paidSettled (db : Db) (id : ℕ) : Prop :=
  ∃ p ∈ db.payments.rows, p.id = id ∧ p.status = .paid ∧ p.settledAt ≠ none

theorem paidSettled_step {d d' : Desk} {m : Deed} (h : d.Sound) (hstep : d.step m = some d')
    {id : ℕ} (hs : d.shared.db.paidSettled id) : d'.shared.db.paidSettled id := by
  obtain ⟨p, hp, hid, hpaid, hsettled⟩ := hs
  obtain ⟨p', hp', hlater⟩ := (grows_step h hstep).payments p hp
  have hopen : p.status ≠ .open := by rw [hpaid]; decide
  refine ⟨p', hp', hlater.id.trans hid, (hlater.status_eq hopen).trans hpaid, ?_⟩
  intro hnone
  exact hsettled (hlater.unsettled hopen hnone)

theorem not_settles {d : Desk} {m : Deed} {id : ℕ} (h : d.shared.db.paidSettled id) :
    ¬ d.settles m id := by
  rintro ⟨_, _, _, due, _, _, _, _, _, _, _, _, q, hq, hqid, hrefundable⟩
  obtain ⟨p, hp, hid, _, hsettled⟩ := h
  have heq : p = q := d.shared.db.payments.eq_of_key hp hq (hid.trans hqid.symm)
  subst heq
  exact hsettled hrefundable.1

/-- The record leaves its row settled. -/
theorem paidSettled_of_settles {d d' : Desk} {m : Deed} (h : d.Repaid)
    (hstep : d.step m = some d') {id : ℕ} (hm : d.settles m id) :
    d'.shared.db.paidSettled id := by
  obtain ⟨i, turn, row, due, refundId, refunded, outcome, rest, rfl, hfailed, hthread, rfl,
    hopen⟩ := hm
  cases Pool.stepped hstep with
  | go i turn u rest' next hthread' he _ =>
      cases hthread.symm.trans hthread'
      have hok := (h.tasks _ (Pool.mem_tasks_of_getElem hthread (List.mem_cons_self ..))).1.1
      obtain ⟨_, p', hp', hid, _, hpaid, hsettled⟩ := refundOpen_moves turn.now refundId refunded
        outcome turn.overQuota h.shared.1.1 hok hopen
      have hdb : d'.shared.db = d.shared.db.recordRefund turn.now row due refundId refunded
          outcome turn.overQuota := by
        rw [← congrArg (fun r : Till × Option (List Task) => r.1.db) (Option.some.inj he)]
        simp [Write.run, hfailed, apply, Write.op]
      exact ⟨p', hdb ▸ hp', hid, hpaid, hsettled⟩

/-- **Only the record** settles a paid row. -/
theorem settles_of_settled {d d' : Desk} {m : Deed} (h : d.Repaid) (hstep : d.step m = some d')
    {p p' : Payment} (hp : p ∈ d.shared.db.payments.rows) (hpaid : p.status = .paid)
    (hnone : p.settledAt = none) (hp' : p' ∈ d'.shared.db.payments.rows) (hid : p'.id = p.id)
    (hsettled : p'.settledAt ≠ none) : d.settles m p.id := by
  have hsame : d'.shared.db.payments ≠ d.shared.db.payments := by
    intro hsame
    have heq : p' = p := d.shared.db.payments.eq_of_key (hsame ▸ hp') hp hid
    exact hsettled (heq ▸ hnone)
  cases step_wrote hstep with
  | nothing hdb => exact absurd (by rw [hdb]) hsame
  | aside haside => exact absurd haside.payments hsame
  | task i turn w rest hm hfailed hthread happly =>
      obtain ⟨⟨hok, howed⟩, _⟩ :=
        h.tasks _ (Pool.mem_tasks_of_getElem hthread (List.mem_cons_self ..))
      obtain ⟨q, hq, hlater⟩ := (grows_step h.owing.sound hstep).payments p hp
      have heq : q = p' := d'.shared.db.payments.eq_of_key hq hp' (hlater.id.trans hid.symm)
      subst heq
      have hpaid' : q.status = .paid := (hlater.status_eq (by rw [hpaid]; decide)).trans hpaid
      obtain ⟨o, ho, haccounts⟩ := (accounts_of_apply happly hp').resolve_right
        (by rw [hpaid']; decide)
      have heq : o = p :=
        d.shared.db.payments.eq_of_key ho hp (haccounts.id.symm.trans hlater.id)
      subst heq
      rcases haccounts.settles hpaid' with ⟨hsame, _⟩ | hreleased | ⟨due, hrec, hopen, _, _⟩
      · exact absurd (hsame.trans hnone) hsettled
      · cases w with
        | released row =>
            have hlater' := hok.1.later hp (Op.writeReleased.inj hreleased)
            rw [hlater'.status_eq hok.2, howed] at hpaid
            cases hpaid
        | _ => cases hreleased
      · obtain ⟨row, refundId, refunded, outcome, overQuota, hrow, hop⟩ := hrec
        cases w with
        | recordRefund row' due' refundId' refunded' outcome' =>
            cases hop
            exact ⟨i, turn, row, due, refundId, refunded, outcome, rest, hm, hfailed, hthread,
              hrow, o, hp, rfl, hopen⟩
        | _ => cases hop

/-- **Only the record** tells of a settled refund. -/
theorem settles_of_told {d d' : Desk} {m : Deed} (h : d.Repaid) (hstep : d.step m = some d')
    {bookingId : ℕ} (htold : d'.shared.db.settlings bookingId ≠ d.shared.db.settlings bookingId ∨
      d'.shared.db.settlingMails bookingId ≠ d.shared.db.settlingMails bookingId) :
    ∃ p ∈ d.shared.db.payments.rows, p.bookingId = bookingId ∧ d.settles m p.id := by
  have hcarried : ∀ {landing : Booking → Prop}, ¬ Carries landing d.shared.db d'.shared.db := by
    intro landing hcarries
    obtain ⟨hevents, hmails⟩ := (settles_of_carries hcarries).2.2 bookingId
    exact htold.elim (fun hne => hne hevents) fun hne => hne hmails
  have hchanged : d'.shared.db ≠ d.shared.db := by
    intro hdb
    rw [hdb] at htold
    exact htold.elim (fun hne => hne rfl) fun hne => hne rfl
  cases step_wrote hstep with
  | nothing hdb => exact absurd hdb hchanged
  | aside haside => exact absurd haside.carries hcarried
  | task i turn w rest hm hfailed hthread happly =>
      have hrecords : ¬ (w.op turn).records = false :=
        fun hrecords => hcarried (carries_of_apply happly hrecords)
      cases w with
      | recordRefund row due refundId refunded outcome =>
          obtain ⟨⟨hok, _⟩, _⟩ :=
            h.tasks _ (Pool.mem_tasks_of_getElem hthread (List.mem_cons_self ..))
          have hdb := Except.ok.inj happly
          have hopen : d.shared.db.refundOpen row.payment.id due := by
            by_contra hclosed
            apply hchanged
            rw [← hdb, Db.recordRefund, if_neg hclosed]
          obtain ⟨p, hp, hlater⟩ := hok.1
          refine ⟨p, hp, ?_, i, turn, row, due, refundId, refunded, outcome, rest, hm, hfailed,
            hthread, hlater.id.symm, hlater.id ▸ hopen⟩
          -- the event is of the row's booking
          rw [hlater.bookingId]
          by_contra hother
          obtain ⟨hevents, hmails⟩ := recordRefund_other (Ne.symm hother)
          rw [← hdb] at htold
          exact htold.elim (fun hne => hne hevents) fun hne => hne hmails
      | _ => exact absurd rfl hrecords

/-! ## § Every run -/

/-- What was sent for a payment is what it owes at most. -/
theorem Till.Repaid.sentFor_le {t : Till} (h : t.Repaid) {p : Payment}
    (hp : p ∈ t.db.payments.rows) {due : ℤ} (howes : t.db.owes p due) :
    t.provider.sentFor p.id ≤ due := by
  rcases h.sent p hp with hzero | ⟨due', howes', hle⟩
  · rw [hzero]
    exact howes.range.1
  · rw [howes.unique howes']
    exact hle

/-- **A refund at most once**, in every interleaving of settle runs that may die, the
provider forgetting keys no run uses, refunds failing and refunds by hand. What this
program sends back and does not fail is for a payment on file, and comes at most to
what its booking owes: the figure a run about to send carries, and the one recorded.
One step alone settles a paid row, and that step alone tells of it: no later step of
any run settles the row again. -/
theorem refund_at_most_once {d d' : Desk} {ms : List Deed} (hblank : d.Blank)
    (hrun : d.run ms = some d') :
    (∀ r ∈ d'.shared.provider.refunds.rows, ∀ id, r.key = some id →
      ∃ p ∈ d'.shared.db.payments.rows, p.id = id ∧ p.status = .paid ∧ p.intentId = r.intent) ∧
    (∀ p ∈ d'.shared.db.payments.rows,
      (∀ due, d'.shared.db.owes p due →
        d'.shared.provider.sentFor p.id ≤ due ∧ due ≤ p.amountMinor) ∧
      ((∀ due, ¬ d'.shared.db.owes p due) → d'.shared.provider.sentFor p.id = 0) ∧
      (p.status = .paid → p.settledAt ≠ none →
        d'.shared.provider.sentFor p.id ≤ p.refundedMinor)) ∧
    (∀ row due refunded, Task.ask (.refundSend row due refunded) ∈ d'.tasks →
      d'.shared.provider.sentFor row.payment.id ≤ due ∧ due ≤ row.payment.amountMinor) ∧
    (∀ bookingId, (d'.shared.db.settlings bookingId).length ≤ 1 ∧
      (d'.shared.db.settlingMails bookingId).length ≤ 1) ∧
    ∀ m d'', d'.step m = some d'' →
      (∀ p ∈ d'.shared.db.payments.rows, p.status = .paid → p.settledAt = none →
        ∀ p' ∈ d''.shared.db.payments.rows, p'.id = p.id → p'.settledAt ≠ none →
          d'.settles m p.id) ∧
      (∀ bookingId, d''.shared.db.settlings bookingId ≠ d'.shared.db.settlings bookingId ∨
          d''.shared.db.settlingMails bookingId ≠ d'.shared.db.settlingMails bookingId →
        ∃ p ∈ d'.shared.db.payments.rows, p.bookingId = bookingId ∧ d'.settles m p.id) ∧
      ∀ id, d'.settles m id → ∀ ms' e m', d''.run ms' = some e → ¬ e.settles m' id := by
  have h := repaid_run hblank.repaid hrun
  have hr := h.shared.2
  refine ⟨hr.keyed, fun p hp => ⟨fun due howes => ?_, fun hnone => ?_, fun hpaid hsettled => ?_⟩,
    fun row due refunded htask => ?_, hr.told.once, fun m d'' hstep => ⟨?_, ?_, ?_⟩⟩
  · exact ⟨hr.sentFor_le hp howes, howes.range.2⟩
  · apply (hr.sent p hp).resolve_right
    rintro ⟨due, howes, _⟩
    exact hnone due howes
  · exact hr.sentFor_le hp (h.shared.1.2.settled p hp hpaid hsettled)
  · obtain ⟨⟨hok, howes⟩, _⟩ := h.tasks _ htask
    obtain ⟨p, hp, hlater⟩ := hok.1
    rw [← hlater.id]
    exact ⟨hr.sentFor_le hp (howes.congr hlater.bookingId hlater.amountMinor), howes.range.2⟩
  · intro p hp hpaid hnone p' hp' hid hsettled
    exact settles_of_settled h hstep hp hpaid hnone hp' hid hsettled
  · intro bookingId htold
    exact settles_of_told h hstep htold
  · intro id hm ms' e m' hrun'
    have hkeeps : ∀ (d : Desk) (m : Deed) (d' : Desk), d.Sound ∧ d.shared.db.paidSettled id →
        d.step m = some d' → d'.Sound ∧ d'.shared.db.paidSettled id :=
      fun _ _ _ h hstep => ⟨sound_step h.1 hstep, paidSettled_step h.1 hstep h.2⟩
    have hstart : d''.Sound ∧ d''.shared.db.paidSettled id :=
      ⟨(repaid_step h hstep).owing.sound, paidSettled_of_settles h hstep hm⟩
    exact not_settles (Runs.run_invariant' hkeeps hstart hrun').2

/-- The settle run `i`, `n` steps of it, on the clock of a hold that ran out. -/
def settled (i n : ℕ) : List Deed :=
  .start (.settle 1) :: List.replicate n (.go i { now := 31 * minute, fresh := 5 })

/-- A late payment, refunded by a run that dies before its record; another run records. -/
def refundedTwice : List Deed := checkoutPaid ++ settled 1 10 ++ [.die 1] ++ settled 2 4

/-- All of the late payment went back once, and was told once. -/
theorem refund_at_most_once_crashed :
    ∃ d', openDesk.run refundedTwice = some d' ∧
      (∃ p ∈ d'.shared.db.payments.rows, p.status = .paid ∧ p.settledAt ≠ none ∧
        d'.shared.provider.sentFor p.id = 1000 ∧ 1000 ≤ p.refundedMinor) ∧
      (d'.shared.db.settlings 1).length = 1 ∧ (d'.shared.db.settlingMails 1).length ≤ 1 := by
  have hrun := Option.isSome_iff_exists.mp
    (by decide +kernel : (openDesk.run refundedTwice).isSome)
  have hfacts : ∀ d' ∈ openDesk.run refundedTwice,
      (∃ p ∈ d'.shared.db.payments.rows, p.status = .paid ∧ p.settledAt ≠ none ∧
        d'.shared.provider.sentFor p.id = 1000 ∧ 1000 ≤ p.refundedMinor) ∧
      (d'.shared.db.settlings 1).length = 1 := by decide +kernel
  obtain ⟨d', hd'⟩ := hrun
  obtain ⟨hsent, htold⟩ := hfacts d' hd'
  have hblank : openDesk.Blank := ⟨rfl, rfl, rfl, rfl, rfl, rfl, rfl⟩
  exact ⟨d', hd', hsent, htold, ((refund_at_most_once hblank hd').2.2.2.1 1).2⟩

end Ziftbook
