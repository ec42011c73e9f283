import Ziftbook.Payments.Landing

/-!
# What every task may rely on

A task holds rows it read some time ago. They are still on file, perhaps moved
on since; a row it is about to cancel has been canceled at the provider. This
and the soundness of the payment table hold in every state a run reaches.
-/

namespace Ziftbook

open Foundation

/-! ## § The provider's intents -/

/-- Only intents differ, and those canceled stay so. -/
structure Provider.Quiet (s s' : Provider) : Prop where
  refunds : s'.refunds = s.refunds
  kept : s'.kept = s.kept
  events : s'.events = s.events
  canceled : ∀ i, s.canceled i → s'.canceled i

theorem Provider.Quiet.refl (s : Provider) : s.Quiet s := ⟨rfl, rfl, rfl, fun _ h => h⟩

theorem quiet_setStatus {s : Provider} {intent : IntentId} {i : Intent}
    {status : IntentStatus} {chargedAt : Option ℤ} (hi : s.intents.find intent = some i)
    (hlive : i.status ≠ .canceled) : s.Quiet (s.setStatus intent status chargedAt) := by
  refine ⟨rfl, rfl, rfl, ?_⟩
  rintro j ⟨k, hk, rfl, hcanceled⟩
  obtain ⟨hmem, hid⟩ := Table.find_eq_some.mp hi
  refine ⟨k, Provider.mem_setStatus.mpr (Or.inr ⟨hk, fun hkid => ?_⟩), rfl, hcanceled⟩
  rw [s.intents.eq_of_key hk hmem (hkid.trans hid.symm)] at hcanceled
  exact hlive hcanceled

/-- `cancel_intent` answers `canceled` only of an intent that is. -/
theorem cancel_eq_some {s s' : Provider} {intent : IntentId} {status : IntentStatus}
    (h : s.cancel intent = some (s', status)) :
    s.Quiet s' ∧ (status = .canceled → s'.canceled intent) := by
  obtain ⟨i, hi, h⟩ := Option.map_eq_some_iff.mp h
  obtain ⟨hmem, hid⟩ := Table.find_eq_some.mp hi
  split at h
  · rename_i hcancelable
    cases h
    refine ⟨quiet_setStatus hi fun hc => ?_, fun _ => ?_⟩
    · rw [hc] at hcancelable
      exact hcancelable
    · exact ⟨_, Provider.mem_setStatus.mpr (Or.inl ⟨i, hmem, hid, rfl⟩), hid, rfl⟩
  · cases h
    exact ⟨Provider.Quiet.refl s, fun hc => ⟨i, hmem, hid, hc⟩⟩

theorem create_eq_some {s s' : Provider} {key : IntentKey} {id : IntentId} {amount : ℤ}
    {currency : String} (h : s.create key id amount currency = some s') : s.Quiet s' := by
  unfold Provider.create at h
  split at h
  · split at h
    · cases h
      exact Provider.Quiet.refl s
    · cases h
  · obtain ⟨intents, hinsert, rfl⟩ := Option.map_eq_some_iff.mp h
    refine ⟨rfl, rfl, rfl, ?_⟩
    rintro j ⟨k, hk, hkj⟩
    refine ⟨k, ?_, hkj⟩
    rw [(Table.insert_eq_some hinsert).2]
    exact List.mem_append_left _ hk

theorem state_eq_some {s : Provider} {intent : IntentId} {state : IntentState}
    (h : s.state intent = some state) :
    state.setup = intent.setup ∧ (state.status = .canceled → s.canceled intent) := by
  obtain ⟨i, hi, rfl⟩ := Option.map_eq_some_iff.mp h
  obtain ⟨hmem, hid⟩ := Table.find_eq_some.mp hi
  split
  · rename_i hsetup
    exact ⟨hsetup.symm, fun hc => ⟨i, hmem, hid, hc⟩⟩
  · rename_i hsetup
    exact ⟨(Bool.eq_false_iff.mpr hsetup).symm, fun hc => ⟨i, hmem, hid, hc⟩⟩

theorem insertRefund_eq_some {s s' : Provider} {refund : Refund}
    (h : s.insertRefund refund = some s') :
    (∀ r ∈ s.refunds.rows, r.id ≠ refund.id) ∧ s'.refunds.rows = s.refunds.rows ++ [refund] ∧
      s'.intents = s.intents ∧ s'.kept = s.kept ∧ s'.events = s.events ++ [refund.id] := by
  obtain ⟨refunds, hinsert, rfl⟩ := Option.map_eq_some_iff.mp h
  obtain ⟨hfresh, hrows⟩ := Table.insert_eq_some hinsert
  exact ⟨hfresh, hrows, rfl, rfl, rfl⟩

/-- What a refund under the payment's key does: answers or refuses a key kept, or
makes a refund the charge covers, and keeps it. -/
inductive Provider.Refunding (s s' : Provider) (payment : ℕ) (intent : IntentId) (amount : ℤ)
    (answer : Option ℕ) : Prop
  | again (k : KeptKey) : k ∈ s.kept → k.payment = payment → k.intent = intent → s' = s →
      answer = some k.refund → Refunding s s' payment intent amount answer
  | refused : s' = s → answer = none → Refunding s s' payment intent amount answer
  | made (id : ℕ) (h : 0 < amount) (s1 : Provider) : (∀ k ∈ s.kept, k.payment ≠ payment) →
      s.insertRefund ⟨id, intent, amount, some payment, false, h⟩ = some s1 →
      s' = { s1 with kept := ⟨payment, intent, amount, id⟩ :: s1.kept } → answer = some id →
      Refunding s s' payment intent amount answer

theorem refund_eq_some {s s' : Provider} {payment id : ℕ} {intent : IntentId} {amount : ℤ}
    {willing : Bool} {answer : Option ℕ}
    (h : s.refund payment intent amount id willing = some (s', answer)) :
    s.Refunding s' payment intent amount answer := by
  unfold Provider.refund at h
  split at h
  · rename_i k hk
    have hkey : k.payment = payment := by simpa using List.find?_some hk
    split at h
    · rename_i hsame
      cases h
      exact .again k (List.mem_of_find?_eq_some hk) hkey hsame.1 rfl rfl
    · cases h
      exact .refused rfl rfl
  · rename_i hnone
    have hfresh : ∀ k ∈ s.kept, k.payment ≠ payment := by
      simpa using List.find?_eq_none.mp hnone
    split at h
    · rename_i hpos
      split at h
      · obtain ⟨s1, hs1, heq⟩ := Option.map_eq_some_iff.mp h
        cases heq
        exact .made id hpos s1 hfresh hs1 rfl rfl
      · cases h
        exact .refused rfl rfl
    · cases h
      exact .refused rfl rfl

theorem Provider.Refunding.canceled {s s' : Provider} {payment : ℕ} {intent : IntentId}
    {amount : ℤ} {answer : Option ℕ} (h : s.Refunding s' payment intent amount answer)
    {i : IntentId} (hi : s.canceled i) : s'.canceled i := by
  cases h with
  | again k _ _ _ hs _ => rwa [hs]
  | refused hs _ => rwa [hs]
  | made id hpos s1 _ hs1 hs _ =>
      obtain ⟨_, _, hintents, _⟩ := insertRefund_eq_some hs1
      rw [hs]
      change ∃ k ∈ s1.intents.rows, _
      rw [hintents]
      exact hi

/-! ## § What a task relies on -/

/-- The row, read some time ago, is on file, and has perhaps moved on. -/
def Db.onFile (db : Db) (row : Payment) : Prop := ∃ p ∈ db.payments.rows, row.Later p

/-- The row may be canceled: it has left `open`, or its intent is canceled. -/
def Till.closable (t : Till) (row : Payment) : Prop :=
  ∃ p ∈ t.db.payments.rows, row.Later p ∧ (p.status = .open → t.provider.canceled p.intentId)

theorem closable_of_canceled {t : Till} {row : Payment} (h : t.db.onFile row)
    (hc : t.provider.canceled row.intentId) : t.closable row := by
  obtain ⟨p, hp, hlater⟩ := h
  exact ⟨p, hp, hlater, fun _ => hlater.intentId.symm ▸ hc⟩

theorem closable_of_closed {t : Till} {row : Payment} (h : t.db.onFile row)
    (hs : row.status ≠ .open) : t.closable row := by
  obtain ⟨p, hp, hlater⟩ := h
  exact ⟨p, hp, hlater, fun hopen => absurd (hlater.status_eq hs ▸ hopen) hs⟩

def Ask.ok (t : Till) : Ask → Prop
  | .retrieve row => t.db.onFile row
  | .resumeRetrieve r | .resumeCancel r => t.db.onFile r.payment
  | .resumeCreate r => t.closable r.payment
  | .abandonCancel _ payment => t.db.onFile payment
  | .settling rows .. => ∀ row ∈ rows, t.db.onFile row.payment
  | .refundRead row | .refundSend row .. | .refundRecheck row _ =>
      t.db.onFile row.payment ∧ row.payment.status = .paid
  | _ => True

def Write.ok (t : Till) : Write → Prop
  | .reconcile row state => t.db.onFile row ∧ state.setup = row.intentId.setup ∧
      (state.status = .canceled → t.provider.canceled row.intentId)
  | .resume r _ => t.closable r.payment
  | .abandon _ payment => ∀ p ∈ payment, t.closable p
  | .canceled row => t.closable row.payment
  | .released row => t.db.onFile row.payment ∧ row.payment.status ≠ .open
  | .recordRefund row .. => t.db.onFile row.payment ∧ row.payment.status = .paid
  | _ => True

def Task.ok (t : Till) : Task → Prop
  | .look _ => True
  | .ask a => a.ok t
  | .write w => w.ok t

/-- Payments have moved on, and canceled intents stay canceled. -/
structure Till.Grows (t t' : Till) : Prop where
  payments : ∀ p ∈ t.db.payments.rows, ∃ p' ∈ t'.db.payments.rows, p.Later p'
  canceled : ∀ i, t.provider.canceled i → t'.provider.canceled i

theorem Till.Grows.onFile {t t' : Till} (h : t.Grows t') {row : Payment}
    (hrow : t.db.onFile row) : t'.db.onFile row := by
  obtain ⟨p, hp, hlater⟩ := hrow
  obtain ⟨p', hp', hlater'⟩ := h.payments p hp
  exact ⟨p', hp', hlater.trans hlater'⟩

theorem Till.Grows.closable {t t' : Till} (h : t.Grows t') {row : Payment}
    (hrow : t.closable row) : t'.closable row := by
  obtain ⟨p, hp, hlater, hc⟩ := hrow
  obtain ⟨p', hp', hlater'⟩ := h.payments p hp
  refine ⟨p', hp', hlater.trans hlater', fun hopen => ?_⟩
  have hp : p.status = .open := hlater'.moved.elim (fun hs => hs ▸ hopen) fun hs => hs
  rw [hlater'.intentId]
  exact h.canceled _ (hc hp)

/-- What a task relies on outlives every step. -/
theorem Till.Grows.ok {t t' : Till} (h : t.Grows t') {u : Task} (hu : u.ok t) : u.ok t' := by
  cases u with
  | look l => trivial
  | ask a =>
      cases a with
      | retrieve row => exact h.onFile hu
      | resumeRetrieve r => exact h.onFile hu
      | resumeCancel r => exact h.onFile hu
      | resumeCreate r => exact h.closable hu
      | abandonCancel bookingId payment => exact h.onFile hu
      | settling rows bookingId final reconciled => exact fun row hrow => h.onFile (hu row hrow)
      | refundRead row => exact ⟨h.onFile hu.1, hu.2⟩
      | refundSend row due refunded => exact ⟨h.onFile hu.1, hu.2⟩
      | refundRecheck row due => exact ⟨h.onFile hu.1, hu.2⟩
      | _ => trivial
  | write w =>
      cases w with
      | reconcile row state => exact ⟨h.onFile hu.1, hu.2.1, fun hc => h.canceled _ (hu.2.2 hc)⟩
      | resume r made => exact h.closable hu
      | abandon bookingId payment => exact fun p hp => h.closable (hu p hp)
      | canceled row => exact h.closable hu
      | released row => exact ⟨h.onFile hu.1, hu.2⟩
      | recordRefund row due refundId refunded outcome => exact ⟨h.onFile hu.1, hu.2⟩
      | _ => trivial

/-! ## § Looks and calls hand on what they rely on -/

theorem livePayment_eq_some {db : Db} {bookingId : ℕ} {p : Payment} {n : ℕ}
    (h : db.livePayment bookingId = some (p, n)) :
    p ∈ db.payments.rows ∧ p.bookingId = bookingId := by
  obtain ⟨q, hq, heq⟩ := Option.map_eq_some_iff.mp h
  cases heq
  have hmem : p ∈ db.payments.rows.filter fun p => p.bookingId = bookingId := by
    rcases Option.or_eq_some_iff.mp hq with hlast | ⟨_, hlast⟩
    · exact (List.mem_filter.mp (List.mem_of_getLast? hlast)).1
    · exact List.mem_of_getLast? hlast
  simpa using hmem

theorem checkout_eq_some {db : Db} {bookingId : ℕ} {b : Booking} {payment : Option (Payment × ℕ)}
    (h : db.checkout bookingId = some (b, payment)) : payment = db.livePayment bookingId := by
  obtain ⟨_, _, heq⟩ := Option.map_eq_some_iff.mp h
  cases heq
  rfl

theorem onFile_of_mem {db : Db} {p : Payment} (h : p ∈ db.payments.rows) : db.onFile p :=
  ⟨p, h, Payment.Later.refl p⟩

theorem mem_settleRows {db : Db} {now : ℤ} {bookingId : ℕ} {row : SettleRow}
    (h : row ∈ db.settleRows now bookingId) :
    ∃ p ∈ db.payments.rows, ∃ b ∈ db.bookings.rows, p.bookingId = bookingId ∧
      p.settledAt = none ∧ b.id = p.bookingId ∧ row = db.settleRow now p b := by
  obtain ⟨p, hp, hrow⟩ := List.mem_filterMap.mp h
  obtain ⟨b, hb, rfl⟩ := Option.map_eq_some_iff.mp hrow
  obtain ⟨hmem, hid⟩ := Table.find_eq_some.mp hb
  simp only [List.mem_filter, decide_eq_true_eq] at hp
  exact ⟨p, hp.1, b, hmem, hp.2.1, hp.2.2, hid, rfl⟩

/-- A read hands on rows it has just read. -/
theorem look_next {t : Till} {now : ℤ} {l : Look} {ts : List Task}
    (h : l.run t.db now = some ts) : ∀ u ∈ ts, u.ok t := by
  cases l with
  | readPayment intent =>
      simp only [Look.run] at h
      split at h
      · cases h
        simp
      · rename_i row hrow
        cases h
        simpa [Task.ok, Ask.ok] using onFile_of_mem (List.mem_of_find?_eq_some hrow)
  | sync bookingId =>
      simp only [Look.run] at h
      split at h
      · split_ifs at h <;> cases h <;> simp [Task.ok]
      · cases h
  | resume bookingId kind =>
      simp only [Look.run] at h
      split at h
      · rename_i booking payment n hcheckout
        have hmem := (livePayment_eq_some (checkout_eq_some hcheckout).symm).1
        split_ifs at h with hdone hlive hopen
        · cases h
          simpa [Task.ok, Ask.ok] using onFile_of_mem hmem
        · cases h
          simpa [Task.ok, Ask.ok] using closable_of_closed (onFile_of_mem hmem) hopen
      · cases h
  | resumeBeaten r made =>
      simp only [Look.run] at h
      split at h
      · split_ifs at h <;> cases h <;> simp [Task.ok, Ask.ok]
      · cases h
        simp [Task.ok, Ask.ok]
  | abandon bookingId =>
      simp only [Look.run] at h
      split at h
      · rename_i booking payment hcheckout
        split_ifs at h with hlive
        split at h
        · rename_i payment n
          have hmem := (livePayment_eq_some (checkout_eq_some hcheckout).symm).1
          split_ifs at h with hopen
          · cases h
            simpa [Task.ok, Ask.ok] using onFile_of_mem hmem
          · cases h
            simpa [Task.ok, Write.ok] using closable_of_closed (onFile_of_mem hmem) hopen
        · cases h
          simp [Task.ok, Write.ok]
      · cases h
  | settlePass bookingId final =>
      cases h
      simp only [List.mem_singleton, forall_eq, Task.ok, Ask.ok]
      intro row hrow
      obtain ⟨p, hp, b, _, _, _, _, rfl⟩ := mem_settleRows hrow
      exact onFile_of_mem hp

/-- The provider after a call: only intents differ, or the call was for a refund. -/
def Provider.Asked (s s' : Provider) (a : Ask) (next : Option (List Task)) : Prop :=
  s.Quiet s' ∨ ∃ row due refunded answer, a = .refundSend row due refunded ∧
    s.Refunding s' row.payment.id row.payment.intentId (due - refunded) answer ∧
    next = some (match answer with
      | some id => [.write (.recordRefund row due (some id) refunded .sent)]
      | none => [.ask (.refundRecheck row due)])

theorem Provider.Asked.canceled {s s' : Provider} {a : Ask} {next : Option (List Task)}
    (h : s.Asked s' a next) {i : IntentId} (hi : s.canceled i) : s'.canceled i := by
  rcases h with hquiet | ⟨_, _, _, _, _, hrefund, _⟩
  · exact hquiet.canceled i hi
  · exact hrefund.canceled hi

/-- The branch a settle pass takes on its next row. -/
theorem settling_next {t : Till} {turn : Turn} {rows : List SettleRow} {bookingId : ℕ}
    {final reconciled : Bool} {s' : Provider} {next : Option (List Task)}
    (hok : ∀ row ∈ rows, t.db.onFile row.payment)
    (h : (Ask.settling rows bookingId final reconciled).answered t.provider turn =
      some (s', next)) :
    t.provider.Asked s' (.settling rows bookingId final reconciled) next ∧
      ∀ ts, next = some ts → ∀ u ∈ ts, u.ok ⟨t.db, s'⟩ := by
  cases rows with
  | nil =>
      simp only [Ask.answered] at h
      split_ifs at h <;> cases h <;>
        exact ⟨Or.inl (Provider.Quiet.refl _), by simp [Task.ok]⟩
  | cons row rows =>
      have hrow := hok row (List.mem_cons_self ..)
      have hrest : ∀ r ∈ rows, t.db.onFile r.payment :=
        fun r hr => hok r (List.mem_cons_of_mem _ hr)
      simp only [Ask.answered] at h
      split at h
      · obtain ⟨⟨s, status⟩, hs, heq⟩ := Option.map_eq_some_iff.mp h
        obtain ⟨hquiet, hcanceled⟩ := cancel_eq_some hs
        simp only at heq
        split_ifs at heq with hstatus hfinal <;> cases heq <;> refine ⟨Or.inl hquiet, ?_⟩
        · have hclosable : (⟨t.db, s'⟩ : Till).closable row.payment :=
            closable_of_canceled hrow (hcanceled hstatus)
          simpa [Task.ok, Write.ok, Ask.ok] using ⟨hclosable, hrest⟩
        · simp
        · simpa [Task.ok, Ask.ok] using hrest
      · rename_i haction
        obtain ⟨⟨s, status⟩, hs, heq⟩ := Option.map_eq_some_iff.mp h
        obtain ⟨hquiet, _⟩ := cancel_eq_some hs
        simp only at heq
        have hchecked : row.payment.status ≠ .open := by
          rw [(action_eq_release haction).1]
          decide
        split_ifs at heq with hstatus <;> cases heq <;> refine ⟨Or.inl hquiet, ?_⟩
        · simpa [Task.ok, Write.ok, Ask.ok] using ⟨⟨hrow, hchecked⟩, hrest⟩
        · simp
      · rename_i haction
        cases h
        refine ⟨Or.inl (Provider.Quiet.refl _), ?_⟩
        simpa [Task.ok, Ask.ok] using ⟨⟨hrow, (action_eq_refund haction).1⟩, hrest⟩
      · cases h
        refine ⟨Or.inl (Provider.Quiet.refl _), ?_⟩
        simpa [Task.ok, Ask.ok] using hrest

/-- A call hands on what it was told, and rows it may rely on. -/
theorem ask_next {t : Till} {turn : Turn} {a : Ask} {s' : Provider}
    {next : Option (List Task)} (hok : a.ok t) (h : a.run t.provider turn = some (s', next)) :
    t.provider.Asked s' a next ∧ ∀ ts, next = some ts → ∀ u ∈ ts, u.ok ⟨t.db, s'⟩ := by
  have hsame : ∀ s : Provider, s = t.provider → t.provider.Asked s a next :=
    fun s hs => Or.inl (hs ▸ Provider.Quiet.refl _)
  unfold Ask.run at h
  split at h
  · -- the call failed
    obtain ⟨rfl, rfl⟩ := Prod.mk.inj (Option.some.inj h)
    refine ⟨Or.inl (Provider.Quiet.refl _), ?_⟩
    cases a <;> simp [Ask.unreachable, Task.ok, Write.ok]
  · cases a with
    | create booking kind =>
        obtain ⟨s, hs, heq⟩ := Option.map_eq_some_iff.mp h
        cases heq
        exact ⟨Or.inl (create_eq_some hs), by simp [Task.ok, Write.ok]⟩
    | retrieve row =>
        obtain ⟨state, hstate, heq⟩ := Option.map_eq_some_iff.mp h
        cases heq
        refine ⟨hsame _ rfl, ?_⟩
        simpa [Task.ok, Write.ok] using ⟨hok, state_eq_some hstate⟩
    | resumeRetrieve r =>
        obtain ⟨state, hstate, heq⟩ := Option.map_eq_some_iff.mp h
        split_ifs at heq with hlanded hcanceled hswitching <;> cases heq
        · exact ⟨hsame _ rfl, by simp [Task.ok]⟩
        · refine ⟨hsame _ rfl, ?_⟩
          simpa [Task.ok, Ask.ok] using
            closable_of_canceled hok ((state_eq_some hstate).2 hcanceled)
        · refine ⟨hsame _ rfl, ?_⟩
          simpa [Task.ok, Ask.ok] using hok
        · exact ⟨hsame _ rfl, by simp⟩
    | resumeCancel r =>
        obtain ⟨⟨s, status⟩, hs, heq⟩ := Option.map_eq_some_iff.mp h
        obtain ⟨hquiet, hcanceled⟩ := cancel_eq_some hs
        simp only at heq
        split_ifs at heq with hstatus <;> cases heq
        · refine ⟨Or.inl hquiet, ?_⟩
          simpa [Task.ok, Ask.ok] using
            closable_of_canceled (t := ⟨t.db, s'⟩) hok (hcanceled hstatus)
        · exact ⟨Or.inl hquiet, by simp [Task.ok]⟩
    | resumeCreate r =>
        obtain ⟨s, hs, heq⟩ := Option.map_eq_some_iff.mp h
        cases heq
        have hquiet := create_eq_some hs
        have hgrows : t.Grows ⟨t.db, s'⟩ :=
          ⟨fun p hp => ⟨p, hp, Payment.Later.refl p⟩, hquiet.canceled⟩
        refine ⟨Or.inl hquiet, ?_⟩
        simpa [Task.ok, Write.ok] using hgrows.closable hok
    | resumeReplay live kind =>
        obtain ⟨state, hstate, heq⟩ := Option.map_eq_some_iff.mp h
        split_ifs at heq <;> cases heq
        · exact ⟨hsame _ rfl, by simp [Task.ok]⟩
        · exact ⟨hsame _ rfl, by simp⟩
    | orphan made =>
        obtain ⟨⟨s, status⟩, hs, heq⟩ := Option.map_eq_some_iff.mp h
        cases heq
        exact ⟨Or.inl (cancel_eq_some hs).1, by simp⟩
    | abandonCancel bookingId payment =>
        obtain ⟨⟨s, status⟩, hs, heq⟩ := Option.map_eq_some_iff.mp h
        obtain ⟨hquiet, hcanceled⟩ := cancel_eq_some hs
        simp only at heq
        split_ifs at heq with hstatus <;> cases heq
        · refine ⟨Or.inl hquiet, ?_⟩
          simpa [Task.ok, Write.ok] using
            closable_of_canceled (t := ⟨t.db, s'⟩) hok (hcanceled hstatus)
        · exact ⟨Or.inl hquiet, by simp [Task.ok]⟩
    | settling rows bookingId final reconciled => exact settling_next hok h
    | refundRead row =>
        obtain ⟨state, hstate, heq⟩ := Option.map_eq_some_iff.mp h
        split at heq
        · cases heq
          exact ⟨hsame _ rfl, by simp⟩
        · split_ifs at heq <;> cases heq <;> refine ⟨hsame _ rfl, ?_⟩ <;>
            simpa [Task.ok, Write.ok, Ask.ok] using hok
    | refundSend row due refunded =>
        obtain ⟨⟨s, answer⟩, hs, heq⟩ := Option.map_eq_some_iff.mp h
        have hrefund := refund_eq_some hs
        cases answer with
        | none =>
            cases heq
            refine ⟨Or.inr ⟨row, due, refunded, none, rfl, hrefund, rfl⟩, ?_⟩
            simp only [Option.some.injEq, forall_eq', List.mem_singleton, forall_eq]
            exact hok
        | some id =>
            cases heq
            refine ⟨Or.inr ⟨row, due, refunded, some id, rfl, hrefund, rfl⟩, ?_⟩
            simp only [Option.some.injEq, forall_eq', List.mem_singleton, forall_eq]
            exact hok
    | refundRecheck row due =>
        obtain ⟨state, hstate, heq⟩ := Option.map_eq_some_iff.mp h
        cases heq
        refine ⟨hsame _ rfl, ?_⟩
        simp only [Option.some.injEq, forall_eq', List.mem_singleton, forall_eq]
        exact hok
    | refundRetrieve refundId =>
        obtain ⟨refund, hrefund, heq⟩ := Option.map_eq_some_iff.mp h
        cases heq
        exact ⟨hsame _ rfl, by simp [Task.ok, Ask.ok]⟩
    | refundCharge refund =>
        obtain ⟨state, hstate, heq⟩ := Option.map_eq_some_iff.mp h
        cases heq
        exact ⟨hsame _ rfl, by simp [Task.ok, Write.ok]⟩

end Ziftbook
