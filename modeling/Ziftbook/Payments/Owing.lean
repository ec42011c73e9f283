import Ziftbook.Payments.InStep
import Ziftbook.Payments.Owed

/-!
# One figure in flight and on file

What a settle run read, and what it carries until it writes, is what the booking
owes; so is what any run has written. It stays so in every state a run of the
desk reaches.
-/

namespace Ziftbook

open Foundation

/-! ## § What a task carries -/

/-- What the row's own columns say is due is what its booking owes. -/
def Db.owesRow (db : Db) (row : SettleRow) : Prop :=
  ∃ due, row.due = some due ∧ db.owes row.payment due

def Task.owed (db : Db) : Task → Prop
  | .ask (.settling rows ..) => ∀ row ∈ rows, row.action = .refund → db.owesRow row
  | .ask (.refundRead row) => db.owesRow row
  | .ask (.refundSend row due _) | .ask (.refundRecheck row due) => db.owes row.payment due
  | .write (.recordRefund row due ..) => db.owes row.payment due
  | .write (.released row) => row.payment.status = .checked
  | _ => True

structure Till.Owing (t : Till) : Prop where
  recorded : t.db.Recorded
  settled : ∀ p ∈ t.db.payments.rows, p.status = .paid → p.settledAt ≠ none →
    t.db.owes p p.refundedMinor

/-- The share at which a paid row's booking ended stays. -/
def Till.Holds (t t' : Till) : Prop :=
  ∀ row pct, t.db.onFile row → row.status = .paid → t.db.ends row.bookingId pct →
    t'.db.ends row.bookingId pct

theorem Till.Holds.of_db {t t' : Till} (h : t'.db = t.db) : t.Holds t' := by
  intro row pct _ _ he
  rw [h]
  exact he

/-- What is owed of a paid row on file stays owed. -/
theorem Till.Holds.owes {t t' : Till} (h : t.Holds t') {row : Payment} {due : ℤ}
    (hfile : t.db.onFile row) (hpaid : row.status = .paid) (ho : t.db.owes row due) :
    t'.db.owes row due := by
  obtain ⟨pct, hends, hrange, hdue⟩ := ho
  exact ⟨pct, h row pct hfile hpaid hends, hrange, hdue⟩

/-- What a task carries outlives every step. -/
theorem Till.Holds.owed {t t' : Till} (h : t.Holds t') {u : Task} (hok : u.ok t)
    (ho : u.owed t.db) : u.owed t'.db := by
  have hrow : ∀ row : SettleRow, t.db.onFile row.payment → row.payment.status = .paid →
      t.db.owesRow row → t'.db.owesRow row := by
    rintro row hfile hpaid ⟨due, hdue, ho⟩
    exact ⟨due, hdue, h.owes hfile hpaid ho⟩
  cases u with
  | look l => trivial
  | ask a =>
      cases a with
      | settling rows bookingId final reconciled =>
          intro row hmem haction
          exact hrow row (hok row hmem) (action_eq_refund haction).1 (ho row hmem haction)
      | refundRead row => exact hrow row hok.1 hok.2 ho
      | refundSend row due refunded => exact h.owes hok.1 hok.2 ho
      | refundRecheck row due => exact h.owes hok.1 hok.2 ho
      | _ => trivial
  | write w =>
      cases w with
      | recordRefund row due refundId refunded outcome =>
          exact h.owes hok.1 hok.2 ho
      | released row => exact ho
      | _ => trivial

/-! ## § Transactions -/

/-- A booking with a paid payment has no other payment to land on it. -/
theorem not_lands {t : Till} {turn : Turn} {w : Write} (hs : t.Sound) (hok : w.ok t)
    {row : Payment} (hfile : t.db.onFile row) (hpaid : row.status = .paid) {b : Booking}
    (hb : b.id = row.bookingId) : ¬ (w.op turn).landsOn t.db turn.now b := by
  cases w with
  | reconcile read state =>
      rintro ⟨hbooking, _, _, _, q, hq, hqid, hopen⟩
      obtain ⟨p, hp, hlater⟩ := hfile
      have hps : p.status = .paid := (hlater.status_eq (by rw [hpaid]; decide)).trans hpaid
      have hqb : q.bookingId = read.bookingId := (hok.1.later hq hqid.symm).bookingId
      have heq : p = q := by
        apply hs.alone p hp q hq
        · rw [hlater.bookingId, hqb, ← hb, hbooking]
        · rw [hps]; decide
        · rw [hopen]; decide
      rw [heq, hopen] at hps
      cases hps
  | _ => exact fun hf => hf

theorem holds_of_closes {t : Till} {db' : Db} {landing : Booking → Prop}
    (h : Closes landing t.db db')
    (hnot : ∀ row : Payment, t.db.onFile row → row.status = .paid →
      ∀ b : Booking, b.id = row.bookingId → ¬ landing b) : t.Holds ⟨db', t.provider⟩ :=
  fun row _ hfile hpaid he => h.ends he fun b _ hid => hnot row hfile hpaid b hid

/-- An operation keeps what is on file settled on its figure. -/
theorem owing_of_apply {t : Till} {db' : Db} {now : ℤ} {op : Op} (hs : t.Sound) (ho : t.Owing)
    (happly : apply t.db now op = .ok db') (hholds : t.Holds ⟨db', t.provider⟩)
    (hreleases : ∀ p ∈ t.db.payments.rows, p.status = .paid → op ≠ .writeReleased p.id)
    (hrecords : ∀ p ∈ t.db.payments.rows, p.status = .paid → ∀ due, op.recordsFor p.id due →
      t.db.owes p due) : (⟨db', t.provider⟩ : Till).Owing := by
  refine ⟨(closes_of_apply happly).recorded ho.recorded, fun p' hp' hpaid hsettled => ?_⟩
  have hnotopen : p'.status ≠ .open := by rw [hpaid]; decide
  obtain ⟨p, hp, haccounts⟩ := (accounts_of_apply happly hp').resolve_right hnotopen
  obtain ⟨q, hq, hturns⟩ := ((turned_of_apply happly).back p' hp').resolve_right
    fun hopened => hnotopen hopened.status
  have heq : q = p := t.db.payments.eq_of_key hq hp (hturns.later.id.symm.trans haccounts.id)
  subst heq
  have hlater := hturns.later
  have hwas : q.settledAt = p'.settledAt → q.status = .paid := by
    intro hsame
    rcases hlater.moved with hmoved | hopen
    · exact hmoved.symm.trans hpaid
    · exact absurd (hsame.symm.trans (hs.opened q hq hopen)) hsettled
  rcases haccounts.settles hpaid with ⟨hsame, hminor⟩ | hreleased | ⟨due, hrec, hopen, hminor, _⟩
  · have hqpaid := hwas hsame.symm
    have howes := ho.settled q hq hqpaid (hsame ▸ hsettled)
    rw [hminor]
    exact (hholds.owes (onFile_of_mem hq) hqpaid howes).congr hlater.bookingId
      hlater.amountMinor
  · rcases hlater.moved with hmoved | hopen
    · exact absurd hreleased (hreleases q hq (hmoved.symm.trans hpaid))
    · rcases hturns.landed (Or.inr hpaid) with hsame | ⟨_, hlands⟩
      · rw [hopen, hpaid] at hsame
        cases hsame
      · rw [hreleased] at hlands
        exact hlands.elim
  · have hqpaid : q.status = .paid := by
      rcases hlater.moved with hmoved | hopen'
      · exact hmoved.symm.trans hpaid
      · rcases hturns.landed (Or.inr hpaid) with hsame | ⟨_, hlands⟩
        · exact hsame.trans hpaid
        · obtain ⟨row, refundId, refunded, outcome, overQuota, _, rfl⟩ := hrec
          exact hlands.elim
    rw [hminor]
    exact (hholds.owes (onFile_of_mem hq) hqpaid (hrecords q hq hqpaid due hrec)).congr
      hlater.bookingId hlater.amountMinor

/-- What a task relies on and carries makes its transaction settle on the figure. -/
theorem owing_write {t : Till} {turn : Turn} {w : Write} {db' : Db} (hs : t.Sound)
    (ho : t.Owing) (hok : w.ok t) (howed : (Task.write w).owed t.db)
    (happly : apply t.db turn.now (w.op turn) = .ok db') :
    t.Holds ⟨db', t.provider⟩ ∧ (⟨db', t.provider⟩ : Till).Owing := by
  have hholds : t.Holds ⟨db', t.provider⟩ := holds_of_closes (closes_of_apply happly)
    fun row hfile hpaid b hb => not_lands hs hok hfile hpaid hb
  refine ⟨hholds, owing_of_apply hs ho happly hholds (fun p hp hpaid hop => ?_)
    fun p hp hpaid due hrec => ?_⟩
  · cases w with
    | released row =>
        have hlater := hok.1.later hp (Op.writeReleased.inj hop)
        rw [hlater.status_eq hok.2, howed] at hpaid
        cases hpaid
    | _ => cases hop
  · obtain ⟨row, refundId, refunded, outcome, overQuota, hid, hop⟩ := hrec
    cases w with
    | recordRefund row' due' refundId' refunded' outcome' =>
        cases hop
        have hlater := hok.1.later hp hid
        exact howed.congr hlater.bookingId hlater.amountMinor
    | _ => cases hop

/-! ## § Looks and calls hand on the figure -/

/-- The share a settle row takes is its booking's. -/
theorem settleRow_pct {db : Db} {now : ℤ} {p : Payment} {b : Booking}
    (hid : b.id = p.bookingId) : (db.settleRow now p b).pct = db.endPct b := by
  have hclient : b.ending now = .cancelledByClient ↔ b.status = .cancelledByClient := by
    unfold Booking.ending
    split
    · rename_i hlapsed
      simp [hlapsed.1]
    · rfl
  show (if b.ending now = .cancelledByClient then db.clientPct p.bookingId else some 100) = _
  unfold Db.endPct
  rw [hid]
  exact if_congr hclient rfl rfl

/-- The row a settle pass is to refund says what its booking owes. -/
theorem owesRow_settleRow {db : Db} (h : db.Recorded) {now : ℤ} {p : Payment} {b : Booking}
    (hb : b ∈ db.bookings.rows) (hid : b.id = p.bookingId)
    (haction : (db.settleRow now p b).action = .refund) : db.owesRow (db.settleRow now p b) := by
  have hending : b.ending now ∈ refunding := (action_eq_refund haction).2
  have hstatus : b.status = .awaitingPayment ∨ b.status ∈ refunding := by
    unfold Booking.ending at hending
    split at hending
    · rename_i hlapsed
      exact Or.inl hlapsed.1
    · exact Or.inr hending
  obtain ⟨pct, hpct, _⟩ := h.endPct hb
  have hdue : (db.settleRow now p b).due = some (refundDue p.amountMinor pct) := by
    show (db.settleRow now p b).pct.map _ = _
    rw [settleRow_pct hid, hpct]
    rfl
  exact ⟨_, hdue, h.owes hb hstatus hid hpct⟩

/-- A read hands on what its rows say is owed. -/
theorem look_owed {db : Db} (h : db.Recorded) {now : ℤ} {l : Look} {ts : List Task}
    (hl : l.run db now = some ts) : ∀ u ∈ ts, u.owed db := by
  cases l with
  | readPayment intent =>
      simp only [Look.run] at hl
      split at hl <;> cases hl <;> simp [Task.owed]
  | sync bookingId =>
      simp only [Look.run] at hl
      split at hl
      · split_ifs at hl <;> cases hl <;> simp [Task.owed]
      · cases hl
  | resume bookingId kind =>
      simp only [Look.run] at hl
      split at hl
      · split_ifs at hl <;> cases hl <;> simp [Task.owed]
      · cases hl
  | resumeBeaten r made =>
      simp only [Look.run] at hl
      split at hl
      · split_ifs at hl <;> cases hl <;> simp [Task.owed]
      · cases hl
        simp [Task.owed]
  | abandon bookingId =>
      simp only [Look.run] at hl
      split at hl
      · split_ifs at hl
        split at hl
        · split_ifs at hl <;> cases hl <;> simp [Task.owed]
        · cases hl
          simp [Task.owed]
      · cases hl
  | settlePass bookingId final =>
      cases hl
      intro u hu
      rw [List.mem_singleton] at hu
      subst hu
      intro row hrow haction
      obtain ⟨p, _, b, hb, _, _, hid, rfl⟩ := mem_settleRows hrow
      exact owesRow_settleRow h hb hid haction

/-- The branch a settle pass takes on its next row hands on what the rest owe. -/
theorem settling_owed {s s' : Provider} {turn : Turn} {db : Db} {rows : List SettleRow}
    {bookingId : ℕ} {final reconciled : Bool} {next : Option (List Task)}
    (howed : ∀ row ∈ rows, row.action = .refund → db.owesRow row)
    (h : (Ask.settling rows bookingId final reconciled).answered s turn = some (s', next)) :
    ∀ ts, next = some ts → ∀ u ∈ ts, u.owed db := by
  cases rows with
  | nil =>
      simp only [Ask.answered] at h
      split_ifs at h <;> cases h <;> simp [Task.owed]
  | cons row rows =>
      have hrest : ∀ reconciled : Bool,
          (Task.ask (.settling rows bookingId final reconciled)).owed db :=
        fun _ r hr => howed r (List.mem_cons_of_mem _ hr)
      simp only [Ask.answered] at h
      split at h
      · obtain ⟨⟨s1, status⟩, _, heq⟩ := Option.map_eq_some_iff.mp h
        simp only at heq
        split_ifs at heq <;> cases heq
        · simpa [Task.owed] using hrest reconciled
        · simp
        · simpa [Task.owed] using hrest true
      · rename_i haction
        obtain ⟨⟨s1, status⟩, _, heq⟩ := Option.map_eq_some_iff.mp h
        simp only at heq
        split_ifs at heq <;> cases heq
        · simp only [Option.some.injEq, forall_eq', List.mem_cons, List.not_mem_nil, or_false,
            forall_eq_or_imp, forall_eq]
          exact ⟨(action_eq_release haction).1, hrest _⟩
        · simp
      · rename_i haction
        cases h
        simp only [Option.some.injEq, forall_eq', List.mem_cons, List.not_mem_nil, or_false,
          forall_eq_or_imp, forall_eq]
        exact ⟨howed row (List.mem_cons_self ..) haction, hrest _⟩
      · cases h
        simp only [Option.some.injEq, forall_eq', List.mem_singleton, forall_eq]
        exact hrest _

/-- A call hands on the figure it was made for. -/
theorem ask_owed {s s' : Provider} {turn : Turn} {db : Db} {a : Ask}
    {next : Option (List Task)} (howed : (Task.ask a).owed db)
    (h : a.run s turn = some (s', next)) : ∀ ts, next = some ts → ∀ u ∈ ts, u.owed db := by
  unfold Ask.run at h
  split at h
  · obtain ⟨rfl, rfl⟩ := Prod.mk.inj (Option.some.inj h)
    cases a <;> simp [Ask.unreachable, Task.owed]
  · cases a with
    | settling rows bookingId final reconciled => exact settling_owed howed h
    | refundRead row =>
        obtain ⟨state, _, heq⟩ := Option.map_eq_some_iff.mp h
        obtain ⟨due, hdue, howes⟩ := howed
        simp only [hdue] at heq
        split_ifs at heq <;> cases heq <;> simp only [Option.some.injEq, forall_eq',
          List.mem_singleton, forall_eq] <;> exact howes
    | refundSend row due refunded =>
        obtain ⟨⟨s1, answer⟩, _, heq⟩ := Option.map_eq_some_iff.mp h
        cases answer <;> cases heq <;> simp only [Option.some.injEq, forall_eq',
          List.mem_singleton, forall_eq] <;> exact howed
    | refundRecheck row due =>
        obtain ⟨state, _, heq⟩ := Option.map_eq_some_iff.mp h
        cases heq
        simp only [Option.some.injEq, forall_eq', List.mem_singleton, forall_eq]
        exact howed
    | resumeRetrieve r =>
        obtain ⟨state, _, heq⟩ := Option.map_eq_some_iff.mp h
        split_ifs at heq <;> cases heq <;> simp [Task.owed]
    | resumeCancel r =>
        obtain ⟨⟨s1, status⟩, _, heq⟩ := Option.map_eq_some_iff.mp h
        simp only at heq
        split_ifs at heq <;> cases heq <;> simp [Task.owed]
    | resumeReplay live kind =>
        obtain ⟨state, _, heq⟩ := Option.map_eq_some_iff.mp h
        split_ifs at heq <;> cases heq <;> simp [Task.owed]
    | abandonCancel bookingId payment =>
        obtain ⟨⟨s1, status⟩, _, heq⟩ := Option.map_eq_some_iff.mp h
        simp only at heq
        split_ifs at heq <;> cases heq <;> simp [Task.owed]
    | _ =>
        obtain ⟨_, _, heq⟩ := Option.map_eq_some_iff.mp h
        cases heq
        simp [Task.owed]

theorem refused_owed {db : Db} {w : Write} {e : Option ApiError} {ts : List Task}
    (h : w.refused e = some ts) : ∀ u ∈ ts, u.owed db := by
  cases w with
  | insert booking kind made =>
      cases h
      simp [Task.owed]
  | resume r made =>
      cases e with
      | none => cases h
      | some e =>
          simp only [Write.refused] at h
          split_ifs at h <;> cases h <;> simp [Task.owed]
  | _ => cases h

theorem committed_owed {db db' : Db} {w : Write} : ∀ u ∈ w.committed db, u.owed db' := by
  unfold Write.committed
  split
  · split_ifs <;> simp [Task.owed]
  · simp

/-! ## § Every step -/

theorem owing_ask {t : Till} (h : t.Owing) (s : Provider) : (⟨t.db, s⟩ : Till).Owing :=
  ⟨h.recorded, h.settled⟩

/-- **A task** leaves what is on file settled on its figure, and hands the figure on. -/
theorem exec_owing {t t' : Till} {u : Task} {turn : Turn} {next : Option (List Task)}
    (hs : t.Sound) (ho : t.Owing) (hok : u.ok t) (howed : u.owed t.db)
    (h : t.exec u turn = some (t', next)) :
    t'.Owing ∧ t.Holds t' ∧ ∀ ts, next = some ts → ∀ v ∈ ts, v.owed t'.db := by
  cases u with
  | look l =>
      cases h
      refine ⟨ho, Till.Holds.of_db rfl, fun ts hts => ?_⟩
      split_ifs at hts
      exact look_owed ho.recorded hts
  | ask a =>
      obtain ⟨⟨s, next⟩, ha, heq⟩ := Option.map_eq_some_iff.mp h
      cases heq
      exact ⟨owing_ask ho s, Till.Holds.of_db rfl, ask_owed howed ha⟩
  | write w =>
      cases h
      rcases write_cases t.db turn w with ⟨hdb, e, hrefused⟩ | ⟨happly, hcommitted⟩
      · rw [hdb]
        exact ⟨ho, Till.Holds.of_db rfl, fun ts hts => refused_owed (hrefused ▸ hts)⟩
      · obtain ⟨hholds, howing⟩ := owing_write hs ho hok howed happly
        refine ⟨howing, hholds, fun ts hts => ?_⟩
        rw [hcommitted] at hts
        cases hts
        exact committed_owed

/-- **What happens around the threads** leaves what is owed. -/
theorem around_owing {t t' : Till} {tasks : List Task} {e : Around} (hs : t.Sound)
    (ho : t.Owing) (h : t.around tasks e = some t') : t'.Owing ∧ t.Holds t' := by
  cases e with
  | op now op =>
      simp only [Till.around] at h
      split_ifs at h with hpays
      split at h
      · rename_i db' happly
        cases h
        have hcloses : Closes (fun _ => False) t.db db' :=
          (aside_of_apply happly (Bool.eq_false_iff.mpr hpays)).carries.closes
        have hholds : t.Holds ⟨db', t.provider⟩ :=
          holds_of_closes hcloses fun _ _ _ _ _ hf => hf
        refine ⟨owing_of_apply hs ho happly hholds (fun p _ _ hop => ?_)
          fun p _ _ due hrec => ?_, hholds⟩
        · rw [hop] at hpays
          exact hpays rfl
        · obtain ⟨_, _, _, _, _, _, rfl⟩ := hrec
          exact absurd rfl hpays
      · cases h
        exact ⟨ho, Till.Holds.of_db rfl⟩
  | forget payment =>
      simp only [Till.around] at h
      split_ifs at h
      cases h
      exact ⟨owing_ask ho _, Till.Holds.of_db rfl⟩
  | _ =>
      obtain ⟨s, _, rfl⟩ := Option.map_eq_some_iff.mp h
      exact ⟨owing_ask ho s, Till.Holds.of_db rfl⟩

theorem enter_owing {t t' : Till} {e : Entry} {ts : List Task} (ho : t.Owing)
    (h : t.enter e = some (t', ts)) : t'.Owing ∧ t.Holds t' ∧ ∀ u ∈ ts, u.owed t'.db := by
  have hdb := enter_db h
  refine ⟨⟨hdb ▸ ho.recorded, hdb ▸ ho.settled⟩, Till.Holds.of_db hdb, ?_⟩
  cases e with
  | start bookingId kind =>
      obtain ⟨b, _, heq⟩ := Option.map_eq_some_iff.mp h
      cases heq
      simp [Task.owed]
  | _ =>
      cases h
      simp [Task.owed]

/-- The tables are sound and settled on their figures, and every task carries one. -/
abbrev Desk.Owing (d : Desk) : Prop :=
  Pool.Invariant (fun t => t.Sound ∧ t.Owing) (fun t u => u.ok t ∧ u.owed t.db) d

theorem owing_step {d d' : Desk} {m : Deed} (h : d.Owing) (hstep : d.step m = some d') :
    d'.Owing := by
  refine Pool.invariant_step (P := till) ?_ ?_ ?_ h hstep
  · rintro t ts e t' ⟨hs, ho⟩ hok he
    obtain ⟨hs', hgrows⟩ := around_sound hs he
    obtain ⟨ho', hholds⟩ := around_owing hs ho he
    exact ⟨⟨hs', ho'⟩, fun u hu =>
      ⟨hgrows.ok (hok u hu).1, hholds.owed (hok u hu).1 (hok u hu).2⟩⟩
  · rintro t e t' ts ⟨hs, ho⟩ he
    obtain ⟨hs', hgrows, hnew⟩ := enter_sound hs he
    obtain ⟨ho', hholds, hnew'⟩ := enter_owing ho he
    exact ⟨⟨hs', ho'⟩, fun u hu => ⟨hnew u hu, hnew' u hu⟩,
      fun u hu => ⟨hgrows.ok hu.1, hholds.owed hu.1 hu.2⟩⟩
  · rintro t u turn t' next ⟨hs, ho⟩ ⟨hok, howed⟩ he
    obtain ⟨hs', hgrows, hnext⟩ := exec_sound hs hok he
    obtain ⟨ho', hholds, hnext'⟩ := exec_owing hs ho hok howed he
    exact ⟨⟨hs', ho'⟩, fun ts hts v hv => ⟨hnext ts hts v hv, hnext' ts hts v hv⟩,
      fun v hv => ⟨hgrows.ok hv.1, hholds.owed hv.1 hv.2⟩⟩

theorem owing_run {d d' : Desk} {ms : List Deed} (h : d.Owing) (hrun : d.run ms = some d') :
    d'.Owing :=
  Runs.run_invariant' (fun _ _ _ hs hstep => owing_step hs hstep) h hrun

/-- One step of the desk keeps the share a paid row's booking ended at. -/
theorem holds_step {d d' : Desk} {m : Deed} (h : d.Owing) (hstep : d.step m = some d') :
    d.shared.Holds d'.shared := by
  obtain ⟨hs, ho⟩ := h.shared
  cases Pool.stepped hstep with
  | world e he _ => exact (around_owing hs ho he).2
  | start e ts he _ => exact (enter_owing ho he).2.1
  | go i turn u rest next hthread he _ =>
      obtain ⟨hok, howed⟩ := h.tasks u (Pool.mem_tasks_of_getElem hthread (List.mem_cons_self ..))
      exact (exec_owing hs ho hok howed he).2.1
  | die i hshared _ =>
      rw [hshared]
      exact Till.Holds.of_db rfl

/-- A whole run keeps it. -/
theorem ends_run {d d' : Desk} {ms : List Deed} (h : d.Owing) (hrun : d.run ms = some d')
    {p : Payment} {pct : ℤ} (hfile : d.shared.db.onFile p) (hpaid : p.status = .paid)
    (hends : d.shared.db.ends p.bookingId pct) :
    d'.shared.db.onFile p ∧ d'.shared.db.ends p.bookingId pct := by
  have hkeeps : ∀ (e : Desk) (m : Deed) (e' : Desk),
      e.Owing ∧ e.shared.db.onFile p ∧ e.shared.db.ends p.bookingId pct → e.step m = some e' →
        e'.Owing ∧ e'.shared.db.onFile p ∧ e'.shared.db.ends p.bookingId pct := by
    rintro e m e' ⟨ho, hfile, hends⟩ hstep
    refine ⟨owing_step ho hstep, ?_, holds_step ho hstep p pct hfile hpaid hends⟩
    exact (grows_step ⟨ho.shared.1, fun u hu => (ho.tasks u hu).1⟩ hstep).onFile hfile
  exact (Runs.run_invariant' hkeeps ⟨h, hfile, hends⟩ hrun).2

theorem Desk.Owing.sound {d : Desk} (h : d.Owing) : d.Sound :=
  ⟨h.shared.1, fun u hu => (h.tasks u hu).1⟩

/-- A business before its first booking. -/
structure Desk.Blank (d : Desk) : Prop where
  threads : d.threads = []
  payments : d.shared.db.payments.rows = []
  bookings : d.shared.db.bookings.rows = []
  events : d.shared.db.events = []
  mails : d.shared.db.mails = []
  refunds : d.shared.provider.refunds.rows = []
  kept : d.shared.provider.kept = []

theorem Desk.Blank.owing {d : Desk} (h : d.Blank) : d.Owing := by
  refine ⟨⟨sound_of_empty h.payments, ⟨⟨fun e he => ?_, ?_⟩, fun p hp => ?_⟩⟩, fun u hu => ?_⟩
  · rw [h.events] at he
    cases he
  · rintro id ⟨b, hb, _⟩
    rw [h.bookings] at hb
    cases hb
  · rw [h.payments] at hp
    cases hp
  · rw [Pool.tasks, h.threads] at hu
    cases hu

end Ziftbook
