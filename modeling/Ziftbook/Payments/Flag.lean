import Ziftbook.Payments.Looking

/-!
# The flag of a failed refund

A look at a refund reads the charge outside the lock and sets the flag inside it. A
look that wrote last what it read first leaves the flag behind the provider; so does
the record of a refund that another run had made. When no run does either, the flag
follows the provider: whatever changes there, a look at it is still to come.
-/

namespace Ziftbook

open Foundation

/-! ## § A look still to come -/

/-- The task looks at a refund: it is to read it, its charge, or to write what it read. -/
def Task.looking : Task → Prop
  | .ask (.refundRetrieve _) | .ask (.refundCharge _) | .write (.refundChanged ..) => True
  | _ => False

instance Task.decidableLooking (u : Task) : Decidable u.looking := by
  unfold Task.looking
  split <;> infer_instance

/-- The look is at a refund on the intent, and writes what the provider shows now, or
is yet to read it. -/
def Task.looksAt (s : Provider) (intent : IntentId) : Task → Prop
  | .ask (.refundRetrieve id) => s.refundOn id intent
  | .ask (.refundCharge refund) => refund.intent = intent
  | .write (.refundChanged on _ _ refunded) => on = intent ∧ refunded = s.amountRefunded intent
  | _ => False

instance (s : Provider) (intent : IntentId) (u : Task) : Decidable (u.looksAt s intent) := by
  unfold Task.looksAt
  split <;> infer_instance

theorem looking_of_looksAt {s : Provider} {intent : IntentId} {u : Task}
    (h : u.looksAt s intent) : u.looking := by
  cases u with
  | look l => exact h
  | ask a => cases a <;> trivial
  | write w => cases w <;> trivial

/-- A look at the intent is announced or under way, beside the thread `i`. -/
def Desk.answersBeside (d : Desk) (i : ℕ) (intent : IntentId) : Prop :=
  d.shared.provider.announced intent ∨
    ∃ j ∈ List.range d.threads.length, j ≠ i ∧
      ∃ u ∈ d.head j, u.looksAt d.shared.provider intent

instance (d : Desk) (i : ℕ) (intent : IntentId) : Decidable (d.answersBeside i intent) :=
  inferInstanceAs (Decidable (_ ∨ _))

/-- What a run read of the intent says of the row's figure what the provider says now. -/
def Provider.agrees (s : Provider) (intent : IntentId) (refunded figure : ℤ) : Prop :=
  refunded < figure ↔ s.amountRefunded intent < figure

instance (s : Provider) (intent : IntentId) (refunded figure : ℤ) :
    Decidable (s.agrees intent refunded figure) := inferInstanceAs (Decidable (_ ↔ _))

/-- The task writes the flag by what it read, which is not overtaken. A record that was
answered its refund's id looks again itself. -/
def Desk.timelyWrite (d : Desk) (i : ℕ) : Task → Prop
  | .write (.refundChanged intent _ _ refunded) => d.answersBeside i intent ∨
      ∀ p ∈ d.shared.db.payments.rows, p.intentId = intent →
        d.shared.provider.agrees intent refunded p.refundedMinor
  | .write (.recordRefund row due none refunded _) => d.answersBeside i row.payment.intentId ∨
      (d.shared.db.refundOpen row.payment.id due →
        d.shared.provider.agrees row.payment.intentId refunded due)
  | _ => True

instance (d : Desk) (i : ℕ) (u : Task) : Decidable (d.timelyWrite i u) := by
  unfold Desk.timelyWrite
  split <;> infer_instance

/-- No look at a refund is cut short, and no write of the flag is overtaken. -/
def Desk.timely (d : Desk) : Deed → Prop
  | .go i turn => ∀ u ∈ d.head i, (u.looking → turn.failed = false) ∧
      (turn.failed = false → d.timelyWrite i u)
  | .die i => ∀ u ∈ d.head i, ¬ u.looking
  | _ => True

instance (d : Desk) (m : Deed) : Decidable (d.timely m) := by
  unfold Desk.timely
  split <;> infer_instance

/-! ## § The flag follows the provider -/

/-- The flag is set exactly while less has gone back than the refund settled on. -/
def Payment.flagRight (p : Payment) (s : Provider) : Prop :=
  p.refundFailedAt ≠ none ↔ s.amountRefunded p.intentId < p.refundedMinor

instance (p : Payment) (s : Provider) : Decidable (p.flagRight s) :=
  inferInstanceAs (Decidable (_ ↔ _))

/-- A look at the intent is announced or under way. -/
def Desk.answers (d : Desk) (intent : IntentId) : Prop :=
  d.shared.provider.announced intent ∨ ∃ i, ∃ u ∈ d.head i, u.looksAt d.shared.provider intent

/-- Every payment's flag is right, or a look at its refunds is still to come. -/
def Desk.Follows (d : Desk) : Prop :=
  ∀ p ∈ d.shared.db.payments.rows, p.flagRight d.shared.provider ∨ d.answers p.intentId

theorem flagRight_of_zero {p : Payment} {s : Provider} (hzero : p.refundedMinor = 0)
    (hclear : p.refundFailedAt = none) : p.flagRight s := by
  have hnonneg : 0 ≤ s.amountRefunded p.intentId := total_nonneg s _
  unfold Payment.flagRight
  rw [hzero, hclear]
  constructor
  · intro hne
    exact absurd rfl hne
  · intro hlt
    omega

/-- A look is kept as it is, or what it is about has been announced again. -/
theorem Provider.Announces.looksAt {s s' : Provider} (h : s.Announces s') {intent : IntentId}
    {u : Task} (hu : u.looksAt s intent) : u.looksAt s' intent ∨ s'.announced intent := by
  cases u with
  | look l => exact absurd hu id
  | ask a =>
      cases a with
      | refundRetrieve id => exact Or.inl (h.refundOn id intent hu)
      | refundCharge refund => exact Or.inl hu
      | _ => exact absurd hu id
  | write w =>
      cases w with
      | refundChanged on refundId failed refunded =>
          rcases h.amount intent with hsame | hannounced
          · exact Or.inl ⟨hu.1, hu.2.trans hsame.symm⟩
          · exact Or.inr hannounced
      | _ => exact absurd hu id

/-- A look at the thread `i` or at any other that has kept its task is still to come. -/
theorem answers_kept {d d' : Desk} (hann : d.shared.provider.Announces d'.shared.provider)
    {intent : IntentId} (hheads : ∀ i u, d.head i = some u → u.looksAt d.shared.provider intent →
      d'.head i = some u) (h : d.answers intent) : d'.answers intent := by
  rcases h with hannounced | ⟨i, u, hu, hlooks⟩
  · exact Or.inl (hann.announced intent hannounced)
  · rcases hann.looksAt hlooks with hlooks' | hannounced
    · exact Or.inr ⟨i, u, hheads i u hu hlooks, hlooks'⟩
    · exact Or.inl hannounced

theorem flagRight_kept {s s' : Provider} (hann : s.Announces s') {p : Payment}
    (h : p.flagRight s) : p.flagRight s' ∨ s'.announced p.intentId := by
  rcases hann.amount p.intentId with hsame | hannounced
  · left
    unfold Payment.flagRight
    rw [hsame]
    exact h
  · exact Or.inr hannounced

/-- A step that leaves a row's figure and flag, and every look at its intent. -/
theorem follows_kept {d d' : Desk} (hann : d.shared.provider.Announces d'.shared.provider)
    {p p' : Payment} (hheads : ∀ i u, d.head i = some u →
      u.looksAt d.shared.provider p.intentId → d'.head i = some u)
    (hintent : p'.intentId = p.intentId) (hminor : p'.refundedMinor = p.refundedMinor)
    (hflag : p'.refundFailedAt ≠ none ↔ p.refundFailedAt ≠ none)
    (h : p.flagRight d.shared.provider ∨ d.answers p.intentId) :
    p'.flagRight d'.shared.provider ∨ d'.answers p'.intentId := by
  have hright : p'.flagRight d'.shared.provider ↔ p.flagRight d'.shared.provider := by
    unfold Payment.flagRight
    rw [hintent, hminor, hflag]
  rw [hright, hintent]
  rcases h with hp | hanswers
  · exact (flagRight_kept hann hp).imp_right Or.inl
  · exact Or.inr (answers_kept hann hheads hanswers)

/-! ## § Each step -/

theorem follows_world {d d' : Desk} {e : Around} (h : d.Follows)
    (he : d.shared.around d.tasks e = some d'.shared) (hthreads : d'.threads = d.threads) :
    d'.Follows := by
  have hheads : ∀ i u, d.head i = some u → d'.head i = some u := by
    intro i u hu
    unfold Pool.head at hu ⊢
    rw [hthreads]
    exact hu
  have hsame : d'.shared.db.payments = d.shared.db.payments := by
    rcases around_db he with hdb | ⟨now, op, _, hpays, happly⟩
    · rw [hdb]
    · exact (aside_of_apply happly hpays).payments
  intro p hp
  exact follows_kept (announces_around he) (fun i u hu _ => hheads i u hu) rfl rfl Iff.rfl
    (h p (hsame ▸ hp))

/-- Taking a refund event begins a look at its refund. -/
theorem follows_start {d d' : Desk} {e : Entry} {ts : List Task} (h : d.Follows)
    (he : d.shared.enter e = some (d'.shared, ts)) (hthreads : d'.threads = d.threads ++ [ts]) :
    d'.Follows := by
  obtain ⟨hheads, hnew⟩ := Pool.head_start hthreads
  have hdb := enter_db he
  cases e with
  | refundEvent refundId =>
      have hevents : d'.shared.provider.events = d.shared.provider.events.erase refundId ∧
          d'.shared.provider.refunds = d.shared.provider.refunds ∧
          ts = [.ask (.refundRetrieve refundId)] := by
        obtain ⟨hshared, hts⟩ := Prod.mk.inj (Option.some.inj he)
        rw [← hshared]
        exact ⟨rfl, rfl, hts.symm⟩
      obtain ⟨hevents, hrefunds, rfl⟩ := hevents
      have hon : ∀ id intent, d.shared.provider.refundOn id intent →
          d'.shared.provider.refundOn id intent := by
        rintro id intent ⟨r, hr, hid⟩
        exact ⟨r, hrefunds.symm ▸ hr, hid⟩
      have hamount : ∀ intent, d'.shared.provider.amountRefunded intent =
          d.shared.provider.amountRefunded intent :=
        fun intent => total_of_rows _ (by rw [hrefunds])
      intro p hp
      rw [hdb] at hp
      rcases h p hp with hright | ⟨id, hid, hrefund⟩ | ⟨i, u, hu, hlooks⟩
      · left
        unfold Payment.flagRight
        rw [hamount]
        exact hright
      · right
        by_cases hmine : id = refundId
        · exact Or.inr ⟨_, _, hnew, hmine ▸ hon id _ hrefund⟩
        · refine Or.inl ⟨id, ?_, hon id _ hrefund⟩
          rw [hevents]
          exact (List.mem_erase_of_ne hmine).mpr hid
      · refine Or.inr (Or.inr ⟨i, u, hheads i u hu, ?_⟩)
        cases u with
        | look l => exact absurd hlooks id
        | ask a =>
            cases a with
            | refundRetrieve id => exact hon id _ hlooks
            | refundCharge refund => exact hlooks
            | _ => exact absurd hlooks id
        | write w =>
            cases w with
            | refundChanged on refundId failed refunded =>
                exact ⟨hlooks.1, hlooks.2.trans (hamount _).symm⟩
            | _ => exact absurd hlooks id
  | start bookingId kind =>
      obtain ⟨b, _, heq⟩ := Option.map_eq_some_iff.mp he
      have hshared := (Prod.mk.inj heq).1
      intro p hp
      rw [hdb] at hp
      exact follows_kept (hshared ▸ .refl _) (fun i u hu _ => hheads i u hu) rfl rfl Iff.rfl
        (h p hp)
  | _ =>
      have hshared := (Prod.mk.inj (Option.some.inj he)).1
      intro p hp
      rw [hdb] at hp
      exact follows_kept (hshared ▸ .refl _) (fun i u hu _ => hheads i u hu) rfl rfl Iff.rfl
        (h p hp)

/-- A thread that dies with no look to make takes none away. -/
theorem follows_die {d d' : Desk} {i : ℕ} (h : d.Follows) (ht : d.timely (.die i))
    (hshared : d'.shared = d.shared) (hthreads : d'.threads = d.threads.set i []) :
    d'.Follows := by
  intro p hp
  rw [hshared] at hp
  exact follows_kept (hshared ▸ .refl _) (fun j u hu hlooks =>
    Pool.head_kept ht hthreads hu (looking_of_looksAt hlooks)) rfl rfl Iff.rfl (h p hp)

section Go

variable {d d' : Desk} {i : ℕ} {turn : Turn} {u : Task} {rest : List Task}
  {next : Option (List Task)}

/-- The looks of the other threads are kept, and those announced. -/
theorem answers_of_beside (hann : d.shared.provider.Announces d'.shared.provider)
    (hthreads : d'.threads = d.threads.set i (Pool.remaining next rest)) {intent : IntentId}
    (h : d.answersBeside i intent) : d'.answers intent := by
  rcases h with hannounced | ⟨j, _, hij, v, hv, hlooks⟩
  · exact Or.inl (hann.announced intent hannounced)
  · rcases hann.looksAt hlooks with hlooks' | hannounced
    · refine Or.inr ⟨j, v, ?_, hlooks'⟩
      rw [Pool.head_set_of_ne hij hthreads]
      exact hv
    · exact Or.inl hannounced

/-- The thread's own look leads to the next, or to the write of what the charge shows. -/
theorem follows_look (hd : d.Flags) (h : d.Follows) {a : Ask} (hhead : d.head i = some (.ask a))
    (hlook : (Task.ask a).looking) (hfailed : turn.failed = false)
    (hexec : d.shared.exec (.ask a) turn = some (d'.shared, next))
    (hthreads : d'.threads = d.threads.set i (Pool.remaining next rest)) : d'.Follows := by
  obtain ⟨⟨s, next'⟩, ha, heq⟩ := Option.map_eq_some_iff.mp hexec
  obtain ⟨hshared, rfl⟩ := Prod.mk.inj heq
  have hnext : s = d.shared.provider ∧ ∃ v, next' = some [v] ∧
      ∀ p ∈ d.shared.db.payments.rows, (Task.ask a).looksAt d.shared.provider p.intentId →
        p.flagRight d.shared.provider ∨ v.looksAt d.shared.provider p.intentId := by
    unfold Ask.run at ha
    rw [hfailed] at ha
    cases a with
    | refundRetrieve id =>
        obtain ⟨refund, hrefund, heq⟩ := Option.map_eq_some_iff.mp ha
        cases heq
        refine ⟨rfl, _, rfl, fun p _ hlooks => Or.inr ?_⟩
        obtain ⟨hmem, hid⟩ := Table.find_eq_some.mp hrefund
        obtain ⟨r, hr, hrid, hintent⟩ := hlooks
        rw [d.shared.provider.refunds.eq_of_key hr hmem (hrid.trans hid.symm)] at hintent
        exact hintent
    | refundCharge refund =>
        obtain ⟨state, hstate, heq⟩ := Option.map_eq_some_iff.mp ha
        cases heq
        refine ⟨rfl, _, rfl, fun p hp hlooks => ?_⟩
        by_cases hzero : p.refundedMinor = 0
        · exact Or.inl (flagRight_of_zero hzero (hd.shared.2.clear p hp hzero))
        · have hintent : refund.intent = p.intentId := hlooks
          refine Or.inr ⟨hintent, ?_⟩
          rw [← hintent]
          exact state_amountRefunded hstate (hintent ▸ setup_of_figure hzero)
    | _ => exact absurd hlook id
  obtain ⟨rfl, v, rfl, hlooks'⟩ := hnext
  have hnew : d'.head i = some v := (Pool.head_set hhead hthreads).trans rfl
  have hdb : d'.shared.db = d.shared.db := by rw [← hshared]
  have hprovider : d'.shared.provider = d.shared.provider := by rw [← hshared]
  intro p hp
  rw [hdb] at hp
  unfold Desk.answers
  rw [hprovider]
  rcases h p hp with hright | hannounced | ⟨j, w, hw, hlooks⟩
  · exact Or.inl hright
  · exact Or.inr (Or.inl hannounced)
  · by_cases hij : j = i
    · subst hij
      cases hhead.symm.trans hw
      exact (hlooks' p hp hlooks).imp_right fun hv => Or.inr ⟨j, v, hnew, hv⟩
    · refine Or.inr (Or.inr ⟨j, w, ?_, hlooks⟩)
      rw [Pool.head_set_of_ne hij hthreads]
      exact hw

/-- A look's write sets the flag right, unless it is overtaken by a later look. -/
theorem follows_looked (h : d.Follows) {intent : IntentId} {refundId : ℕ} {failed : Bool}
    {refunded : ℤ}
    (hhead : d.head i = some (.write (.refundChanged intent refundId failed refunded)))
    (ht : d.timelyWrite i (.write (.refundChanged intent refundId failed refunded)))
    (hfailed : turn.failed = false)
    (hexec : d.shared.exec (.write (.refundChanged intent refundId failed refunded)) turn =
      some (d'.shared, next))
    (hthreads : d'.threads = d.threads.set i (Pool.remaining next rest)) : d'.Follows := by
  have hshared := (Prod.mk.inj (Option.some.inj hexec)).1
  have hprovider : d'.shared.provider = d.shared.provider := by rw [← hshared]
  have hann : d.shared.provider.Announces d'.shared.provider := hprovider ▸ .refl _
  have hdb : d'.shared.db = d.shared.db.refundChanged turn.now intent refundId failed refunded
      turn.overQuota := by
    rw [← hshared]
    simp [Write.run, hfailed, apply, Write.op]
  intro p' hp'
  rw [hdb] at hp'
  obtain ⟨p, hp, rfl⟩ := mem_refundChanged.mp hp'
  obtain ⟨hminor, _, hsame, hflag⟩ := looked_row p turn.now intent refundId failed refunded
  by_cases hmine : p.intentId = intent
  · rw [if_pos hmine] at hflag
    rcases ht with hbeside | hagrees
    · right
      rw [hsame, hmine]
      exact answers_of_beside hann hthreads hbeside
    · left
      unfold Payment.flagRight
      rw [hflag, hsame, hminor, hmine, hprovider]
      exact hagrees p hp hmine
  · rw [if_neg hmine] at hflag
    refine follows_kept hann (fun j v hv hlooks => ?_) hsame hminor hflag (h p hp)
    refine Pool.head_kept (fun w hw hlooks => ?_) hthreads hv hlooks
    cases hhead.symm.trans hw
    exact hmine hlooks.1.symm

/-- A record's own look is still to come, or what it read of the charge is still so. -/
theorem follows_recorded (hd : d.Flags) (h : d.Follows) {row : SettleRow} {due : ℤ}
    {refundId : Option ℕ} {refunded : ℤ} {outcome : RefundOutcome}
    (hhead : d.head i = some (.write (.recordRefund row due refundId refunded outcome)))
    (ht : d.timelyWrite i (.write (.recordRefund row due refundId refunded outcome)))
    (hfailed : turn.failed = false)
    (hexec : d.shared.exec (.write (.recordRefund row due refundId refunded outcome)) turn =
      some (d'.shared, next))
    (hthreads : d'.threads = d.threads.set i (Pool.remaining next rest)) : d'.Follows := by
  obtain ⟨hok, hnonneg, hsome, hnone⟩ := hd.tasks _ (Pool.mem_tasks_of_head hhead)
  obtain ⟨hshared, hnext⟩ := Prod.mk.inj (Option.some.inj hexec)
  have hprovider : d'.shared.provider = d.shared.provider := by rw [← hshared]
  have hann : d.shared.provider.Announces d'.shared.provider := hprovider ▸ .refl _
  have hheads : ∀ intent j v, d.head j = some v → v.looksAt d.shared.provider intent →
      d'.head j = some v := by
    intro intent j v hv hlooks
    refine Pool.head_kept (fun w hw hlooks => ?_) hthreads hv hlooks
    cases hhead.symm.trans hw
    exact hlooks
  have hdb : d'.shared.db = d.shared.db.recordRefund turn.now row due refundId refunded outcome
      turn.overQuota := by
    rw [← hshared]
    simp [Write.run, hfailed, apply, Write.op]
  intro p' hp'
  rw [hdb] at hp'
  by_cases hopen : d.shared.db.refundOpen row.payment.id due
  · obtain ⟨p, hp, rfl⟩ := (mem_recordRefund hopen).mp hp'
    obtain ⟨hminor, _, hsame, hflag⟩ := recorded_row p turn.now row due refundId refunded outcome
    by_cases hmine : p.id = row.payment.id
    · obtain ⟨q, hq, hqid, hrefundable⟩ := hopen
      have heq : q = p := d.shared.db.payments.eq_of_key hq hp (hqid.trans hmine.symm)
      subst heq
      have hintent : q.intentId = row.payment.intentId := (hok.1.later hq hmine.symm).intentId
      have hfigure : (q.settledBy turn.now row due refundId).refundedMinor = due := by
        rw [Payment.settledBy, if_pos hmine, Payment.refunded, dif_pos hrefundable]
      rw [hsame]
      cases refundId with
      | some id =>
          obtain ⟨rfl, hon⟩ := hsome id rfl
          right
          refine Or.inr ⟨i, .ask (.refundRetrieve id), ?_, ?_⟩
          · have hcommitted : next = some [.ask (.refundRetrieve id)] := by
              rw [← hnext]
              have hfound : d.shared.db.refundOpen row.payment.id due := ⟨q, hq, hqid, hrefundable⟩
              simp [Write.run, hfailed, apply, Write.op, Write.committed, hfound]
            rw [hcommitted] at hthreads
            exact (Pool.head_set hhead hthreads).trans rfl
          · show d'.shared.provider.refundOn id q.intentId
            rw [hprovider, hintent]
            exact hon
      | none =>
          rcases ht with hbeside | hagrees
          · right
            rw [hintent]
            exact answers_of_beside hann hthreads hbeside
          · left
            have hread := hagrees ⟨q, hq, hqid, hrefundable⟩
            have hclear : q.refundFailedAt = none :=
              hd.shared.2.clear q hq (hd.shared.2.fresh q hq hrefundable.1)
            unfold Payment.flagRight
            rw [hflag, hsame, hminor, hfigure, hprovider, hintent]
            refine Iff.trans ?_ hread
            by_cases hsent : outcome = .sent
            · have hle : due ≤ refunded := (hnone rfl).mp hsent
              simp [hsent, hclear, hle]
            · have hlt : refunded < due := not_le.mp fun hle => hsent ((hnone rfl).mpr hle)
              simp [hsent, hlt]
    · -- the record's row is the only one on its intent
      have hother : p.intentId ≠ row.payment.intentId := by
        intro hintent
        obtain ⟨q, hq, hlater⟩ := hok.1
        have heq := hd.shared.2.sole p hp q hq (hintent.trans hlater.intentId.symm)
        exact hmine (heq ▸ hlater.id)
      have hfigure : p.settledBy turn.now row due refundId = p := if_neg hmine
      rw [if_neg fun hboth => hother hboth.2] at hflag
      rw [hfigure] at hminor
      exact follows_kept hann (hheads p.intentId) hsame hminor hflag (h p hp)
  · rw [Db.recordRefund, if_neg hopen] at hp'
    exact follows_kept hann (hheads p'.intentId) rfl rfl Iff.rfl (h p' hp')

/-- A task that is no look, and records no refund, leaves the flags and the looks. -/
theorem follows_other (hd : d.Flags) (h : d.Follows) (hhead : d.head i = some u)
    (hlook : ¬ u.looking)
    (hrecord : ∀ row due refundId refunded outcome,
      u ≠ .write (.recordRefund row due refundId refunded outcome))
    (hexec : d.shared.exec u turn = some (d'.shared, next))
    (hthreads : d'.threads = d.threads.set i (Pool.remaining next rest)) : d'.Follows := by
  obtain ⟨hok, hreads⟩ := hd.tasks u (Pool.mem_tasks_of_head hhead)
  have hann := (exec_flags hd.shared.2 hok hreads hexec).2.1
  have hheads : ∀ intent j v, d.head j = some v → v.looksAt d.shared.provider intent →
      d'.head j = some v := by
    intro intent j v hv hlooks
    refine Pool.head_kept (fun w hw => ?_) hthreads hv (looking_of_looksAt hlooks)
    cases hhead.symm.trans hw
    exact hlook
  have hsame : d'.shared.db = d.shared.db → d'.Follows := by
    intro hdb p hp
    rw [hdb] at hp
    exact follows_kept hann (hheads p.intentId) rfl rfl Iff.rfl (h p hp)
  rcases exec_db hexec with hdb | ⟨w, rfl, hdb⟩
  · exact hsame hdb
  · rcases write_cases d.shared.db turn w with ⟨hdb', _⟩ | ⟨happly, _⟩
    · exact hsame (hdb.trans hdb')
    · have hop : (w.op turn).refunds = false := by
        cases w with
        | recordRefund row due refundId refunded outcome =>
            exact absurd rfl (hrecord row due refundId refunded outcome)
        | refundChanged intent refundId failed refunded => exact absurd trivial hlook
        | _ => rfl
      intro p' hp'
      rw [hdb] at hp'
      rcases (turned_of_apply happly).back p' hp' with ⟨p, hp, hturns⟩ | hopened
      · obtain ⟨hminor, hflag⟩ := hturns.refund hop
        exact follows_kept hann (hheads p.intentId) hturns.later.intentId hminor (by rw [hflag])
          (h p hp)
      · exact Or.inl (flagRight_of_zero hopened.refundedMinor hopened.refundFailedAt)

theorem follows_go (hd : d.Flags) (h : d.Follows) (ht : d.timely (.go i turn))
    (hhead : d.head i = some u) (hexec : d.shared.exec u turn = some (d'.shared, next))
    (hthreads : d'.threads = d.threads.set i (Pool.remaining next rest)) : d'.Follows := by
  obtain ⟨hwhole, htimely⟩ := ht u hhead
  have hnothing : ∀ w, u = .write w → turn.failed = true → ¬ u.looking → d'.Follows := by
    rintro w rfl hfailed hlook
    have hdb : d'.shared.db = d.shared.db := by
      rw [← (Prod.mk.inj (Option.some.inj hexec)).1, Write.run, if_pos hfailed]
    have hprovider : d'.shared.provider = d.shared.provider := by
      rw [← (Prod.mk.inj (Option.some.inj hexec)).1]
    intro p hp
    rw [hdb] at hp
    refine follows_kept (hprovider ▸ .refl _) (fun j v hv hlooks => ?_) rfl rfl Iff.rfl (h p hp)
    refine Pool.head_kept (fun w hw => ?_) hthreads hv (looking_of_looksAt hlooks)
    cases hhead.symm.trans hw
    exact hlook
  by_cases hlook : u.looking
  · have hfailed := hwhole hlook
    cases u with
    | look l => exact absurd hlook id
    | ask a => exact follows_look hd h hhead hlook hfailed hexec hthreads
    | write w =>
        cases w with
        | refundChanged intent refundId failed refunded =>
            exact follows_looked h hhead (htimely hfailed) hfailed hexec hthreads
        | _ => exact absurd hlook id
  · cases u with
    | write w =>
        cases w with
        | recordRefund row due refundId refunded outcome =>
            cases hfailed : turn.failed with
            | true => exact hnothing _ rfl hfailed hlook
            | false => exact follows_recorded hd h hhead (htimely hfailed) hfailed hexec hthreads
        | _ => exact follows_other hd h hhead hlook (by simp) hexec hthreads
    | _ => exact follows_other hd h hhead hlook (by simp) hexec hthreads

end Go

/-- **One timely step** keeps every flag right, or a look at it to come. -/
theorem follows_step {d d' : Desk} {m : Deed} (hd : d.Flags) (h : d.Follows) (ht : d.timely m)
    (hstep : d.step m = some d') : d'.Follows := by
  cases Pool.stepped hstep with
  | world e he hthreads => exact follows_world h he hthreads
  | start e ts he hthreads => exact follows_start h he hthreads
  | go i turn u rest next hthread he hthreads =>
      exact follows_go hd h ht (Pool.head_eq_some.mpr ⟨rest, hthread⟩) he hthreads
  | die i hshared hthreads => exact follows_die h ht hshared hthreads

/-! ## § Every run -/

/-- Every run has finished, and every refund event has been taken. -/
def Desk.quiet (d : Desk) : Prop := d.tasks = [] ∧ d.shared.provider.events = []

instance (d : Desk) : Decidable d.quiet := inferInstanceAs (Decidable (_ ∧ _))

theorem not_answers_of_quiet {d : Desk} (h : d.quiet) (intent : IntentId) :
    ¬ d.answers intent := by
  rintro (⟨id, hid, _⟩ | ⟨i, u, hu, _⟩)
  · rw [h.2] at hid
    cases hid
  · have hmem := Pool.mem_tasks_of_head hu
    rw [h.1] at hmem
    cases hmem

/-- **The flag converges to the truth** in every interleaving whose looks are not cut
short and whose writes of the flag are not overtaken: once all is quiet, it is set
exactly while the provider shows less refunded than the refund settled on. -/
theorem flag_of_run {d d' : Desk} {ms : List Deed} (hblank : d.Blank)
    (htimely : Runs.Along Desk.step Desk.timely d ms) (hrun : d.run ms = some d')
    (hquiet : d'.quiet) : ∀ p ∈ d'.shared.db.payments.rows, p.flagRight d'.shared.provider := by
  have hkeeps : ∀ (d : Desk) (m : Deed) (d' : Desk), d.Flags ∧ d.Follows → d.timely m →
      d.step m = some d' → d'.Flags ∧ d'.Follows :=
    fun _ _ _ ⟨hd, h⟩ ht hstep => ⟨flags_step hd hstep, follows_step hd h ht hstep⟩
  have hstart : d.Flags ∧ d.Follows := by
    refine ⟨hblank.flags, fun p hp => ?_⟩
    rw [hblank.payments] at hp
    cases hp
  intro p hp
  obtain ⟨_, h⟩ := Runs.run_invariant hkeeps hstart htimely hrun
  exact (h p hp).resolve_right (not_answers_of_quiet hquiet p.intentId)

/-- A late payment refunded, and the refund failing: the run `3` is told, and reads it. -/
def refundFails : List Deed :=
  checkoutPaid ++ settled 1 15 ++ [.start (.refundEvent 5)] ++
    List.replicate 3 (.go 2 { now := 31 * minute }) ++
    [.world (.failRefund 5), .start (.refundEvent 5)] ++
    List.replicate 2 (.go 3 { now := 31 * minute })

/-- The business refunds by hand, and the run `4` looks at that. -/
def handLooked : List Deed :=
  [.world (.handRefund firstIntent 1000 6), .start (.refundEvent 6)] ++
    List.replicate 3 (.go 4 { now := 31 * minute })

/-- The run `3` writes what it read. -/
def overtaken : List Deed := [.go 3 { now := 31 * minute }]

/-- Told in turn, the two looks leave the flag clear. -/
theorem flag_of_run_in_turn :
    ∃ d', openDesk.run (refundFails ++ overtaken ++ handLooked) = some d' ∧
      ∃ p ∈ d'.shared.db.payments.rows, p.refundedMinor = 1000 ∧
        p.flagRight d'.shared.provider := by
  have hrun := Option.isSome_iff_exists.mp
    (by decide +kernel : (openDesk.run (refundFails ++ overtaken ++ handLooked)).isSome)
  have hfacts : ∀ d' ∈ openDesk.run (refundFails ++ overtaken ++ handLooked),
      d'.quiet ∧ ∃ p ∈ d'.shared.db.payments.rows, p.refundedMinor = 1000 := by decide +kernel
  obtain ⟨d', hd'⟩ := hrun
  obtain ⟨hquiet, p, hp, hminor⟩ := hfacts d' hd'
  have hblank : openDesk.Blank := ⟨rfl, rfl, rfl, rfl, rfl, rfl, rfl⟩
  have htimely : Runs.Along Desk.step Desk.timely openDesk
      (refundFails ++ overtaken ++ handLooked) := by decide +kernel
  exact ⟨d', hd', p, hp, hminor, flag_of_run hblank htimely hd' hquiet p hp⟩

/-- The run `3` writes last what it read first: the flag stays, though all went back. -/
theorem flag_overtaken :
    ∃ d', openDesk.run (refundFails ++ handLooked ++ overtaken) = some d' ∧ d'.quiet ∧
      ∃ p ∈ d'.shared.db.payments.rows, p.refundFailedAt ≠ none ∧ p.refundedMinor = 1000 ∧
        d'.shared.provider.amountRefunded p.intentId = 1000 ∧
        ¬ p.flagRight d'.shared.provider := by
  have hrun := Option.isSome_iff_exists.mp
    (by decide +kernel : (openDesk.run (refundFails ++ handLooked ++ overtaken)).isSome)
  have hfacts : ∀ d' ∈ openDesk.run (refundFails ++ handLooked ++ overtaken), d'.quiet ∧
      ∃ p ∈ d'.shared.db.payments.rows, p.refundFailedAt ≠ none ∧ p.refundedMinor = 1000 ∧
        d'.shared.provider.amountRefunded p.intentId = 1000 ∧
        ¬ p.flagRight d'.shared.provider := by decide +kernel
  obtain ⟨d', hd'⟩ := hrun
  exact ⟨d', hd', hfacts d' hd'⟩

end Ziftbook
