import Ziftbook.Payments.Repaid

/-!
# What a look at a refund goes by

Each change of what a charge has had refunded is announced by an event of a refund
on it. A payment's flag and figure are untouched until its refund is recorded, and
no two payments are on one intent. What a run read before it writes is never
negative, and the refund it was answered is on the intent it asked about.
-/

namespace Ziftbook

open Foundation

/-! ## § Announced changes -/

/-- The refund is on the intent. -/
def Provider.refundOn (s : Provider) (id : ℕ) (intent : IntentId) : Prop :=
  ∃ r ∈ s.refunds.rows, r.id = id ∧ r.intent = intent

instance (s : Provider) (id : ℕ) (intent : IntentId) : Decidable (s.refundOn id intent) :=
  inferInstanceAs (Decidable (∃ r ∈ s.refunds.rows, _))

/-- A refund event of the intent is announced, and no run has taken it yet. -/
def Provider.announced (s : Provider) (intent : IntentId) : Prop :=
  ∃ id ∈ s.events, s.refundOn id intent

instance (s : Provider) (intent : IntentId) : Decidable (s.announced intent) :=
  inferInstanceAs (Decidable (∃ id ∈ s.events, _))

/-- What changes on a charge is announced, and nothing announced is lost. -/
structure Provider.Announces (s s' : Provider) : Prop where
  refundOn : ∀ id intent, s.refundOn id intent → s'.refundOn id intent
  announced : ∀ intent, s.announced intent → s'.announced intent
  amount : ∀ intent, s'.amountRefunded intent = s.amountRefunded intent ∨ s'.announced intent

theorem announces_of_same {s s' : Provider} (hrefunds : s'.refunds.rows = s.refunds.rows)
    (hevents : s'.events = s.events) : s.Announces s' := by
  have hon : ∀ id intent, s.refundOn id intent → s'.refundOn id intent := by
    rintro id intent ⟨r, hr, hid⟩
    exact ⟨r, hrefunds.symm ▸ hr, hid⟩
  constructor
  · exact hon
  · rintro intent ⟨id, hid, hrefund⟩
    exact ⟨id, hevents.symm ▸ hid, hon id intent hrefund⟩
  · intro intent
    exact Or.inl (total_of_rows _ hrefunds)

theorem Provider.Announces.refl (s : Provider) : s.Announces s := announces_of_same rfl rfl

theorem refundOn_made {s s' : Provider} {refund : Refund} (h : s.insertRefund refund = some s') :
    s'.refundOn refund.id refund.intent := by
  obtain ⟨_, hrows, _⟩ := insertRefund_eq_some h
  exact ⟨refund, by rw [hrows]; simp, rfl, rfl⟩

/-- A refund is made. -/
theorem announces_insertRefund {s s' : Provider} {refund : Refund}
    (h : s.insertRefund refund = some s') : s.Announces s' := by
  obtain ⟨_, hrows, _, _, hevents⟩ := insertRefund_eq_some h
  have hon : ∀ id intent, s.refundOn id intent → s'.refundOn id intent := by
    rintro id intent ⟨r, hr, hid⟩
    exact ⟨r, by rw [hrows]; exact List.mem_append_left _ hr, hid⟩
  constructor
  · exact hon
  · rintro intent ⟨id, hid, hrefund⟩
    exact ⟨id, by rw [hevents]; exact List.mem_append_left _ hid, hon id intent hrefund⟩
  · intro intent
    by_cases hmine : refund.intent = intent
    · right
      exact ⟨refund.id, by rw [hevents]; simp, hmine ▸ refundOn_made h⟩
    · left
      unfold Provider.amountRefunded Provider.total
      rw [hrows, List.filter_append]
      simp [hmine]

/-- A refund fails. -/
theorem announces_failRefund {s s' : Provider} {id : ℕ} (h : s.failRefund id = some s') :
    s.Announces s' := by
  obtain ⟨⟨failed, hfailed, hfid⟩, rfl⟩ := failRefund_eq_some h
  have hon : ∀ k intent, s.refundOn k intent → Provider.refundOn { s with
      refunds := s.refunds.update (fun r => r.id = id) (fun r => { r with failed := true })
        fun _ => rfl
      events := s.events ++ [id] } k intent := by
    rintro k intent ⟨r, hr, hrid, hintent⟩
    refine ⟨if r.id = id then r.fail else r, List.mem_map.mpr ⟨r, hr, rfl⟩, ?_, ?_⟩
    · split_ifs <;> exact hrid
    · split_ifs <;> exact hintent
  constructor
  · exact hon
  · rintro intent ⟨k, hk, hrefund⟩
    exact ⟨k, List.mem_append_left _ hk, hon k intent hrefund⟩
  · intro intent
    by_cases hmine : failed.intent = intent
    · right
      exact ⟨id, by simp, hon id intent ⟨failed, hfailed, hfid, hmine⟩⟩
    · left
      refine total_fail_other (fun r => r.intent = intent) rfl fun r hr hid => ?_
      rw [s.refunds.eq_of_key hr hfailed (hid.trans hfid.symm)]
      exact ⟨hmine, hmine⟩

/-- **A call** changes a charge only with an event. -/
theorem Provider.Asked.announces {s s' : Provider} {a : Ask} {next : Option (List Task)}
    (h : s.Asked s' a next) : s.Announces s' := by
  rcases h with hquiet | ⟨row, due, refunded, answer, _, hrefund, _⟩
  · exact announces_of_same (by rw [hquiet.refunds]) hquiet.events
  · cases hrefund with
    | again k _ _ _ hs _ => rw [hs]; exact .refl s
    | refused hs _ => rw [hs]; exact .refl s
    | made id hpos s1 _ hinsert hs _ =>
        rw [hs]
        have hann := announces_insertRefund hinsert
        exact ⟨hann.refundOn, hann.announced, hann.amount⟩

/-- So does everything the provider does on its own. -/
theorem announces_around {t t' : Till} {tasks : List Task} {e : Around}
    (h : t.around tasks e = some t') : t.provider.Announces t'.provider := by
  cases e with
  | op now op =>
      rcases around_op h with rfl | ⟨db', _, rfl⟩
      · exact .refl _
      · exact .refl _
  | advance intent status chargedAt =>
      obtain ⟨s, hadvance, rfl⟩ := Option.map_eq_some_iff.mp h
      have hquiet := advance_eq_some hadvance
      exact announces_of_same (by rw [hquiet.refunds]) hquiet.events
  | handRefund intent amount id =>
      obtain ⟨s, hhand, rfl⟩ := Option.map_eq_some_iff.mp h
      exact announces_insertRefund (handRefund_eq_some hhand).2
  | failRefund id =>
      obtain ⟨s, hfail, rfl⟩ := Option.map_eq_some_iff.mp h
      exact announces_failRefund hfail
  | forget payment =>
      simp only [Till.around] at h
      split_ifs at h
      cases h
      exact announces_of_same rfl rfl

/-! ## § Rows after a refund's writes -/

theorem Payment.setRefundFlag_ne_none {p : Payment} {refunded now : ℤ} :
    (p.setRefundFlag refunded now).refundFailedAt ≠ none ↔ refunded < p.refundedMinor := by
  unfold Payment.setRefundFlag
  by_cases h : refunded < p.refundedMinor <;> simp [h]

/-- The row the record settles, before its flag is set. -/
def Payment.settledBy (p : Payment) (now : ℤ) (row : SettleRow) (due : ℤ)
    (refundId : Option ℕ) : Payment :=
  if p.id = row.payment.id then p.refunded due refundId now else p

theorem settledBy_same {p : Payment} {now : ℤ} {row : SettleRow} {due : ℤ}
    {refundId : Option ℕ} : (p.settledBy now row due refundId).intentId = p.intentId ∧
      (p.settledBy now row due refundId).refundFailedAt = p.refundFailedAt := by
  unfold Payment.settledBy Payment.refunded
  split_ifs <;> exact ⟨rfl, rfl⟩

theorem settledBy_cases (p : Payment) (now : ℤ) (row : SettleRow) (due : ℤ)
    (refundId : Option ℕ) :
    p.settledBy now row due refundId = p ∨
      (p.id = row.payment.id ∧ p.refundable due ∧
        (p.settledBy now row due refundId).refundedMinor = due ∧
        (p.settledBy now row due refundId).settledAt ≠ none) := by
  unfold Payment.settledBy
  split_ifs with hid
  · unfold Payment.refunded
    split
    · rename_i hopen
      exact Or.inr ⟨hid, hopen, rfl, by simp⟩
    · exact Or.inl rfl
  · exact Or.inl rfl

/-- What the record leaves of a row: its figure, and its flag. -/
theorem recorded_row (p : Payment) (now : ℤ) (row : SettleRow) (due : ℤ)
    (refundId : Option ℕ) (refunded : ℤ) (outcome : RefundOutcome) :
    (p.recorded now row due refundId refunded outcome).refundedMinor =
        (p.settledBy now row due refundId).refundedMinor ∧
      (p.recorded now row due refundId refunded outcome).settledAt =
        (p.settledBy now row due refundId).settledAt ∧
      (p.recorded now row due refundId refunded outcome).intentId = p.intentId ∧
      ((p.recorded now row due refundId refunded outcome).refundFailedAt ≠ none ↔
        if outcome ≠ .sent ∧ p.intentId = row.payment.intentId then
          refunded < (p.settledBy now row due refundId).refundedMinor
        else p.refundFailedAt ≠ none) := by
  have hsame := @settledBy_same p now row due refundId
  have hrow : p.recorded now row due refundId refunded outcome =
      if outcome ≠ .sent ∧ (p.settledBy now row due refundId).intentId = row.payment.intentId then
        (p.settledBy now row due refundId).setRefundFlag refunded now
      else p.settledBy now row due refundId := rfl
  rw [hrow, hsame.1]
  split_ifs
  · exact ⟨rfl, rfl, hsame.1, Payment.setRefundFlag_ne_none⟩
  · exact ⟨rfl, rfl, hsame.1, by rw [hsame.2]⟩

/-- What a look leaves of a row. -/
theorem looked_row (p : Payment) (now : ℤ) (intent : IntentId) (refundId : ℕ) (failed : Bool)
    (refunded : ℤ) :
    (p.looked now intent refundId failed refunded).refundedMinor = p.refundedMinor ∧
      (p.looked now intent refundId failed refunded).settledAt = p.settledAt ∧
      (p.looked now intent refundId failed refunded).intentId = p.intentId ∧
      ((p.looked now intent refundId failed refunded).refundFailedAt ≠ none ↔
        if p.intentId = intent then refunded < p.refundedMinor else p.refundFailedAt ≠ none) := by
  unfold Payment.looked
  split_ifs
  · exact ⟨rfl, rfl, rfl, Payment.setRefundFlag_ne_none⟩
  · exact ⟨rfl, rfl, rfl, Payment.setRefundFlag_ne_none⟩
  · exact ⟨rfl, rfl, rfl, Iff.rfl⟩

/-! ## § What the rows and the tasks go by -/

/-- One payment an intent; no figure before its refund's record, and no flag without a
figure; and a kept key's refund is on the key's intent. -/
structure Till.Flags (t : Till) : Prop where
  sole : ∀ p ∈ t.db.payments.rows, ∀ q ∈ t.db.payments.rows, p.intentId = q.intentId → p = q
  fresh : ∀ p ∈ t.db.payments.rows, p.settledAt = none → p.refundedMinor = 0
  clear : ∀ p ∈ t.db.payments.rows, p.refundedMinor = 0 → p.refundFailedAt = none
  kept : ∀ k ∈ t.provider.kept, t.provider.refundOn k.refund k.intent

/-- What a task read and was answered. -/
def Task.reads (s : Provider) : Task → Prop
  | .ask (.refundSend _ _ refunded) => 0 ≤ refunded
  | .write (.recordRefund row due refundId refunded outcome) => 0 ≤ refunded ∧
      (∀ id ∈ refundId, outcome = .sent ∧ s.refundOn id row.payment.intentId) ∧
      (refundId = none → (outcome = .sent ↔ due ≤ refunded))
  | .write (.refundChanged _ _ _ refunded) => 0 ≤ refunded
  | _ => True

theorem reads_of_not_refunds {s : Provider} {u : Task} (h : ¬ u.refunds) : u.reads s := by
  cases u with
  | look l => trivial
  | ask a =>
      cases a with
      | refundSend row due refunded => exact absurd trivial h
      | _ => trivial
  | write w =>
      cases w with
      | recordRefund row due refundId refunded outcome => exact absurd trivial h
      | refundChanged intent refundId failed refunded => exact absurd trivial h
      | _ => trivial

theorem Provider.Announces.reads {s s' : Provider} (h : s.Announces s') {u : Task}
    (hu : u.reads s) : u.reads s' := by
  cases u with
  | look l => trivial
  | ask a =>
      cases a with
      | refundSend row due refunded => exact hu
      | _ => trivial
  | write w =>
      cases w with
      | recordRefund row due refundId refunded outcome =>
          obtain ⟨hnonneg, hsome, hnone⟩ := hu
          refine ⟨hnonneg, fun id hid => ?_, hnone⟩
          obtain ⟨hsent, hon⟩ := hsome id hid
          exact ⟨hsent, h.refundOn id _ hon⟩
      | refundChanged intent refundId failed refunded => exact hu
      | _ => trivial

/-- A row with no figure shows no shortfall, and a row with one is charged. -/
theorem setup_of_figure {p : Payment} (h : p.refundedMinor ≠ 0) : p.intentId.setup = false :=
  setup_of_paid (p.refund_needs_paid.resolve_left h)

theorem refundedMinor_of_open {p : Payment} (h : p.status = .open) : p.refundedMinor = 0 := by
  apply p.refund_needs_paid.resolve_right
  rw [h]
  decide

/-- What was sent is never negative, as an intent's state shows it. -/
theorem state_nonneg {s : Provider} {intent : IntentId} {state : IntentState}
    (h : s.state intent = some state) : 0 ≤ state.amountRefunded := by
  obtain ⟨i, _, rfl⟩ := Option.map_eq_some_iff.mp h
  split_ifs
  · exact le_rfl
  · exact total_nonneg _ _

/-- **A transaction** keeps the rows so. -/
theorem flags_write {t : Till} {turn : Turn} {w : Write} {db' : Db} (h : t.Flags)
    (hreads : (Task.write w).reads t.provider)
    (happly : apply t.db turn.now (w.op turn) = .ok db') : (⟨db', t.provider⟩ : Till).Flags := by
  have hturned := turned_of_apply happly
  have hrows : ∀ p' ∈ db'.payments.rows, (p'.settledAt = none → p'.refundedMinor = 0) ∧
      (p'.refundedMinor = 0 → p'.refundFailedAt = none) := by
    intro p' hp'
    by_cases hop : (w.op turn).refunds = false
    · rcases hturned.back p' hp' with ⟨p, hp, hturns⟩ | hopened
      · obtain ⟨hminor, hflag⟩ := hturns.refund hop
        rw [hminor, hflag]
        refine ⟨fun hnone => ?_, h.clear p hp⟩
        by_cases hopen : p.status = .open
        · exact refundedMinor_of_open hopen
        · exact h.fresh p hp (hturns.later.unsettled hopen hnone)
      · exact ⟨fun _ => hopened.refundedMinor, fun _ => hopened.refundFailedAt⟩
    · cases w with
      | recordRefund row due refundId refunded outcome =>
          cases happly
          by_cases hopen : t.db.refundOpen row.payment.id due
          · obtain ⟨p, hp, rfl⟩ := (mem_recordRefund hopen).mp hp'
            obtain ⟨hminor, hsettled, _, hflag⟩ :=
              recorded_row p turn.now row due refundId refunded outcome
            rw [hminor, hsettled]
            have hfigure : (p.settledBy turn.now row due refundId).refundedMinor = 0 →
                p.refundedMinor = 0 := by
              intro hzero
              rcases settledBy_cases p turn.now row due refundId with hsame | ⟨_, hrefundable, _⟩
              · rwa [hsame] at hzero
              · exact h.fresh p hp hrefundable.1
            constructor
            · intro hnone
              rcases settledBy_cases p turn.now row due refundId with hsame | ⟨_, _, _, hset⟩
              · rw [hsame] at hnone ⊢
                exact h.fresh p hp hnone
              · exact absurd hnone hset
            · intro hzero
              by_contra hne
              have hshort := hflag.mp hne
              split_ifs at hshort
              · have hnonneg : 0 ≤ refunded := hreads.1
                omega
              · exact hshort (h.clear p hp (hfigure hzero))
          · rw [Db.recordRefund, if_neg hopen] at hp'
            exact ⟨h.fresh p' hp', h.clear p' hp'⟩
      | refundChanged intent refundId failed refunded =>
          cases happly
          obtain ⟨p, hp, rfl⟩ := mem_refundChanged.mp hp'
          obtain ⟨hminor, hsettled, _, hflag⟩ :=
            looked_row p turn.now intent refundId failed refunded
          rw [hminor, hsettled]
          refine ⟨h.fresh p hp, fun hzero => ?_⟩
          by_contra hne
          have hshort := hflag.mp hne
          split_ifs at hshort
          · have hnonneg : 0 ≤ refunded := hreads
            omega
          · exact hshort (h.clear p hp hzero)
      | _ => exact absurd rfl hop
  refine ⟨fun p' hp' q' hq' hintent => ?_, fun p' hp' => (hrows p' hp').1,
    fun p' hp' => (hrows p' hp').2, h.kept⟩
  rcases hturned.back p' hp' with ⟨p, hp, htp⟩ | hopened
  · rcases hturned.back q' hq' with ⟨q, hq, htq⟩ | hopened
    · have hsame : p.intentId = q.intentId := by
        rw [← htp.later.intentId, ← htq.later.intentId]
        exact hintent
      apply db'.payments.eq_of_key hp' hq'
      rw [htp.later.id, htq.later.id, h.sole p hp q hq hsame]
    · exact hopened.sole p' hp' hintent
  · exact (hopened.sole q' hq' hintent.symm).symm

/-- **A call** is answered a refund on the intent it was for. -/
theorem flags_ask {t : Till} {s' : Provider} {a : Ask} {next : Option (List Task)}
    (h : t.Flags) (hasked : t.provider.Asked s' a next) : (⟨t.db, s'⟩ : Till).Flags := by
  refine ⟨h.sole, h.fresh, h.clear, fun k hk => ?_⟩
  have hann := hasked.announces
  rcases hasked with hquiet | ⟨row, due, refunded, answer, _, hrefund, _⟩
  · exact hann.refundOn _ _ (h.kept k (hquiet.kept ▸ hk))
  · cases hrefund with
    | again _ _ _ _ hs _ =>
        rw [hs] at hk ⊢
        exact h.kept k hk
    | refused hs _ =>
        rw [hs] at hk ⊢
        exact h.kept k hk
    | made id hpos s1 _ hinsert hs _ =>
        obtain ⟨_, _, _, hkept, _⟩ := insertRefund_eq_some hinsert
        rw [hs] at hk hann
        change k ∈ _ :: s1.kept at hk
        rw [List.mem_cons, hkept] at hk
        rw [hs]
        rcases hk with rfl | hk
        · exact refundOn_made hinsert
        · exact hann.refundOn _ _ (h.kept k hk)

theorem reads_hands {t : Till} {s' : Provider} {a : Ask} {u : Task} (h : t.Flags)
    (hreads : (Task.ask a).reads t.provider) (hhands : a.Hands t.provider s' u) :
    u.reads s' := by
  cases hhands with
  | held hstate hheld =>
      refine ⟨state_nonneg hstate, by simp, fun _ => ?_⟩
      have hless := hheld
      simp only [SettleRow.held, Bool.and_eq_true, decide_eq_true_eq] at hless
      simp [not_le.mpr hless.1.2]
  | send hstate => exact state_nonneg hstate
  | enough hstate hle => exact ⟨state_nonneg hstate, by simp, fun _ => by simp [hle]⟩
  | sent hrefund =>
      rename_i row due refunded id
      refine ⟨hreads, fun k hk => ⟨rfl, ?_⟩, by simp⟩
      cases hk
      cases hrefund with
      | again k hk _ hintent hs hanswer =>
          cases hanswer
          rw [hs, ← hintent]
          exact h.kept k hk
      | refused _ hanswer => cases hanswer
      | made id' hpos s1 _ hinsert hs hanswer =>
          cases hanswer
          rw [hs]
          exact refundOn_made hinsert
  | rechecked hstate =>
      refine ⟨state_nonneg hstate, by simp, fun _ => ?_⟩
      split_ifs with hless
      · simp [not_le.mpr hless]
      · simp [not_lt.mp hless]
  | retrieved _ => trivial
  | charged hstate => exact state_nonneg hstate

/-! ## § Every step -/

theorem flags_of_provider {t : Till} {s' : Provider} (h : t.Flags)
    (hann : t.provider.Announces s') (hkept : ∀ k ∈ s'.kept, k ∈ t.provider.kept) :
    (⟨t.db, s'⟩ : Till).Flags :=
  ⟨h.sole, h.fresh, h.clear, fun k hk => hann.refundOn _ _ (h.kept k (hkept k hk))⟩

theorem flags_of_payments {t : Till} {db' : Db} (h : t.Flags)
    (hsame : db'.payments = t.db.payments) : (⟨db', t.provider⟩ : Till).Flags :=
  ⟨hsame.symm ▸ h.sole, hsame.symm ▸ h.fresh, hsame.symm ▸ h.clear, h.kept⟩

theorem around_flags {t t' : Till} {tasks : List Task} {e : Around} (h : t.Flags)
    (he : t.around tasks e = some t') : t'.Flags := by
  have hann := announces_around he
  cases e with
  | op now op =>
      rcases around_op he with rfl | ⟨db', haside, rfl⟩
      · exact h
      · exact flags_of_payments h haside.payments
  | advance intent status chargedAt =>
      obtain ⟨s, hadvance, rfl⟩ := Option.map_eq_some_iff.mp he
      exact flags_of_provider h hann fun k hk => (advance_eq_some hadvance).kept ▸ hk
  | handRefund intent amount id =>
      obtain ⟨s, hhand, rfl⟩ := Option.map_eq_some_iff.mp he
      obtain ⟨_, hinsert⟩ := handRefund_eq_some hhand
      exact flags_of_provider h hann fun k hk =>
        (insertRefund_eq_some hinsert).2.2.2.1 ▸ hk
  | failRefund id =>
      obtain ⟨s, hfail, rfl⟩ := Option.map_eq_some_iff.mp he
      refine flags_of_provider h hann fun k hk => ?_
      rw [(failRefund_eq_some hfail).2] at hk
      exact hk
  | forget payment =>
      simp only [Till.around] at he
      split_ifs at he
      cases he
      exact flags_of_provider h hann fun k hk => List.mem_of_mem_filter hk

theorem enter_flags {t t' : Till} {e : Entry} {ts : List Task} (h : t.Flags)
    (he : t.enter e = some (t', ts)) : t'.Flags ∧ (∀ u ∈ ts, u.reads t'.provider) ∧
      ∀ u : Task, u.reads t.provider → u.reads t'.provider := by
  cases e with
  | start bookingId kind =>
      obtain ⟨b, _, heq⟩ := Option.map_eq_some_iff.mp he
      cases heq
      exact ⟨h, by simp [Task.reads], fun _ hu => hu⟩
  | refundEvent refundId =>
      cases he
      exact ⟨⟨h.sole, h.fresh, h.clear, h.kept⟩, by simp [Task.reads], fun _ hu => hu⟩
  | _ =>
      cases he
      exact ⟨h, by simp [Task.reads], fun _ hu => hu⟩

/-- **A task** keeps the rows so, and hands on what it read. -/
theorem exec_flags {t t' : Till} {u : Task} {turn : Turn} {next : Option (List Task)}
    (h : t.Flags) (hok : u.ok t) (hreads : u.reads t.provider)
    (hexec : t.exec u turn = some (t', next)) :
    t'.Flags ∧ t.provider.Announces t'.provider ∧
      ∀ ts, next = some ts → ∀ v ∈ ts, v.reads t'.provider := by
  cases u with
  | look l =>
      cases hexec
      refine ⟨h, .refl _, fun ts hts v hv => ?_⟩
      split_ifs at hts
      exact reads_of_not_refunds (look_hands hts v hv)
  | ask a =>
      obtain ⟨⟨s, next⟩, ha, heq⟩ := Option.map_eq_some_iff.mp hexec
      cases heq
      obtain ⟨hasked, _⟩ := ask_next hok ha
      refine ⟨flags_ask h hasked, hasked.announces, fun ts hts v hv => ?_⟩
      by_cases hv' : v.refunds
      · exact reads_hands h hreads (ask_hands ha ts hts v hv hv')
      · exact reads_of_not_refunds hv'
  | write w =>
      cases hexec
      rcases write_cases t.db turn w with ⟨hdb, e, hrefused⟩ | ⟨happly, hcommitted⟩
      · rw [hdb]
        exact ⟨h, .refl _, fun ts hts v hv =>
          reads_of_not_refunds (refused_hands (hrefused ▸ hts) v hv)⟩
      · refine ⟨flags_write h hreads happly, .refl _, fun ts hts v hv => ?_⟩
        rw [hcommitted] at hts
        cases hts
        obtain ⟨_, _, id, _, _, _, rfl⟩ := committed_hands hv
        trivial

/-- The rows and the tasks go by what was read and answered, in every interleaving. -/
abbrev Desk.Flags (d : Desk) : Prop :=
  Pool.Invariant (fun t => t.Sound ∧ t.Flags) (fun t u => u.ok t ∧ u.reads t.provider) d

theorem flags_step {d d' : Desk} {m : Deed} (h : d.Flags) (hstep : d.step m = some d') :
    d'.Flags := by
  refine Pool.invariant_step (P := till) ?_ ?_ ?_ h hstep
  · rintro t ts e t' ⟨hs, hf⟩ hok he
    obtain ⟨hs', hgrows⟩ := around_sound hs he
    exact ⟨⟨hs', around_flags hf he⟩, fun u hu =>
      ⟨hgrows.ok (hok u hu).1, (announces_around he).reads (hok u hu).2⟩⟩
  · rintro t e t' ts ⟨hs, hf⟩ he
    obtain ⟨hs', hgrows, hnew⟩ := enter_sound hs he
    obtain ⟨hf', hnew', hreads⟩ := enter_flags hf he
    exact ⟨⟨hs', hf'⟩, fun u hu => ⟨hnew u hu, hnew' u hu⟩,
      fun u hu => ⟨hgrows.ok hu.1, hreads u hu.2⟩⟩
  · rintro t u turn t' next ⟨hs, hf⟩ ⟨hok, hreads⟩ he
    obtain ⟨hs', hgrows, hnext⟩ := exec_sound hs hok he
    obtain ⟨hf', hann, hnext'⟩ := exec_flags hf hok hreads he
    exact ⟨⟨hs', hf'⟩, fun ts hts v hv => ⟨hnext ts hts v hv, hnext' ts hts v hv⟩,
      fun v hv => ⟨hgrows.ok hv.1, hann.reads hv.2⟩⟩

theorem Desk.Blank.flags {d : Desk} (h : d.Blank) : d.Flags := by
  refine ⟨⟨sound_of_empty h.payments, ⟨fun p hp => ?_, fun p hp => ?_, fun p hp => ?_,
    fun k hk => ?_⟩⟩, fun u hu => ?_⟩
  · rw [h.payments] at hp
    cases hp
  · rw [h.payments] at hp
    cases hp
  · rw [h.payments] at hp
    cases hp
  · rw [h.kept] at hk
    cases hk
  · rw [Pool.tasks, h.threads] at hu
    cases hu

end Ziftbook
