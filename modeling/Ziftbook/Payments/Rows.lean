import Ziftbook.Payments.Carried

/-!
# What an operation does to the payments

A payment row keeps what it is about, leaves `open` once, and is settled once.
Which operation may move it where is read off here for every operation.
-/

namespace Ziftbook

open Foundation

/-! ## § A row later on -/

/-- `p'` is the row `p` later on. -/
structure Payment.Later (p p' : Payment) : Prop where
  id : p'.id = p.id
  bookingId : p'.bookingId = p.bookingId
  kind : p'.kind = p.kind
  intentId : p'.intentId = p.intentId
  amountMinor : p'.amountMinor = p.amountMinor
  currency : p'.currency = p.currency
  moved : p'.status = p.status ∨ p.status = .open
  settled : p.status ≠ .open → ∀ t, p.settledAt = some t → p'.settledAt = some t

theorem Payment.Later.refl (p : Payment) : p.Later p :=
  ⟨rfl, rfl, rfl, rfl, rfl, rfl, Or.inl rfl, fun _ _ h => h⟩

/-- A row past `open` stays where it is. -/
theorem Payment.Later.status_eq {p p' : Payment} (h : p.Later p') (hp : p.status ≠ .open) :
    p'.status = p.status :=
  h.moved.resolve_right hp

theorem Payment.Later.trans {p p' p'' : Payment} (h : p.Later p') (h' : p'.Later p'') :
    p.Later p'' := by
  refine ⟨h'.id.trans h.id, h'.bookingId.trans h.bookingId, h'.kind.trans h.kind,
    h'.intentId.trans h.intentId, h'.amountMinor.trans h.amountMinor,
    h'.currency.trans h.currency, ?_, fun hp t ht => ?_⟩
  · rcases h.moved with hs | hopen
    · rw [← hs]
      exact h'.moved
    · exact Or.inr hopen
  · exact h'.settled (h.status_eq hp ▸ hp) t (h.settled hp t ht)

theorem Payment.Later.unsettled {p p' : Payment} (h : p.Later p') (hp : p.status ≠ .open)
    (hp' : p'.settledAt = none) : p.settledAt = none := by
  cases hat : p.settledAt with
  | none => rfl
  | some t => rw [h.settled hp t hat] at hp'; cases hp'

/-! ## § What an operation may do to a row -/

/-- The payments an operation may cancel. -/
def Op.cancels : Op → ℕ → Prop
  | .reconcile row state, id => row.id = id ∧ state.status = .canceled
  | .resume _ old .., id => old = id
  | .abandon _ payment, id => payment = some id
  | .writeCanceled paymentId, id => paymentId = id
  | _, _ => False

/-- The payments an operation may land. -/
def Op.lands : Op → ℕ → Prop
  | .reconcile row state, id => row.id = id ∧ landed state row.kind = true
  | _, _ => False

/-- The payments an operation may settle without closing them. -/
def Op.settles : Op → ℕ → Prop
  | .writeReleased paymentId, id => paymentId = id
  | .recordRefund row .., id => row.payment.id = id
  | _, _ => False

/-- What it read was a SetupIntent. -/
def Op.setup : Op → Bool
  | .reconcile _ state => state.setup
  | _ => false

/-- The operations that write a refund. -/
def Op.refunds : Op → Bool
  | .recordRefund .. | .refundChanged .. => true
  | _ => false

/-- `p'` is the row `p` after the operation. -/
structure Payment.Turns (op : Op) (p p' : Payment) : Prop where
  later : p.Later p'
  canceled : p'.status = .canceled →
    p.status = .canceled ∨ (op.cancels p.id ∧ p'.settledAt ≠ none)
  landed : p'.status = .checked ∨ p'.status = .paid →
    p.status = p'.status ∨ (p.status = .open ∧ op.lands p.id)
  checked : p'.status = .checked → p'.settledAt = none →
    (p.status = .checked ∧ p.settledAt = none) ∨ op.setup = false
  opened : p'.status = .open → p'.settledAt = p.settledAt ∨ op.settles p.id
  refund : op.refunds = false →
    p'.refundedMinor = p.refundedMinor ∧ p'.refundFailedAt = p.refundFailedAt

theorem Payment.Turns.refl (op : Op) (p : Payment) : p.Turns op p :=
  ⟨Later.refl p, Or.inl, fun _ => Or.inl rfl, fun h hnone => Or.inl ⟨h, hnone⟩,
    fun _ => Or.inl rfl, fun _ => ⟨rfl, rfl⟩⟩

theorem Payment.Turns.trans {op : Op} {p p' p'' : Payment} (h : p.Turns op p')
    (h' : p'.Turns op p'') : p.Turns op p'' := by
  refine ⟨h.later.trans h'.later, fun hs => ?_, fun hs => ?_, fun hs hnone => ?_, fun hs => ?_,
    fun hop => ?_⟩
  · rcases h'.canceled hs with hp' | ⟨hop, hsettled⟩
    · refine (h.canceled hp').imp_right fun ⟨hop, hsettled⟩ => ⟨hop, fun hnone => ?_⟩
      exact hsettled (h'.later.unsettled (by rw [hp']; decide) hnone)
    · exact Or.inr ⟨h.later.id ▸ hop, hsettled⟩
  · rcases h'.landed hs with hp' | ⟨hopen, hop⟩
    · rw [← hp'] at hs ⊢
      exact h.landed hs
    · refine Or.inr ⟨?_, h.later.id ▸ hop⟩
      exact h.later.moved.elim (fun hp => hp ▸ hopen) fun hp => hp
  · rcases h'.checked hs hnone with ⟨hp', hnone'⟩ | hop
    · exact h.checked hp' hnone'
    · exact Or.inr hop
  · have hp' : p'.status = .open := h'.later.moved.elim (fun hp => hp ▸ hs) fun hp => hp
    rcases h'.opened hs with heq | hop
    · rw [heq]
      exact h.opened hp'
    · exact Or.inr (h.later.id ▸ hop)
  · obtain ⟨h1, h2⟩ := h.refund hop
    obtain ⟨h3, h4⟩ := h'.refund hop
    exact ⟨h3.trans h1, h4.trans h2⟩

/-! ## § Each update of a row -/

theorem turns_markCanceled {op : Op} {p : Payment} (now : ℤ) (h : op.cancels p.id) :
    p.Turns op (p.markCanceled now) := by
  unfold Payment.markCanceled
  split
  · rename_i hopen
    exact ⟨⟨rfl, rfl, rfl, rfl, rfl, rfl, Or.inr hopen, fun hne => absurd hopen hne⟩,
      fun _ => Or.inr ⟨h, by simp⟩, by simp, by simp, by simp, fun _ => ⟨rfl, rfl⟩⟩
  · exact Payment.Turns.refl op p

theorem turns_markPaid {op : Op} {p : Payment} (h : op.lands p.id) :
    p.Turns op p.markPaid := by
  unfold Payment.markPaid
  split
  · rename_i hopen
    exact ⟨⟨rfl, rfl, rfl, rfl, rfl, rfl, Or.inr hopen.1, fun hne => absurd hopen.1 hne⟩,
      by simp, fun _ => Or.inr ⟨hopen.1, h⟩, by simp, by simp, fun _ => ⟨rfl, rfl⟩⟩
  · exact Payment.Turns.refl op p

theorem turns_markChecked {op : Op} {p : Payment} {setup : Bool} (now : ℤ)
    (h : op.lands p.id) (hsetup : op.setup = setup) :
    p.Turns op (p.markChecked setup now) := by
  unfold Payment.markChecked
  split
  · rename_i hopen
    refine ⟨⟨rfl, rfl, rfl, rfl, rfl, rfl, Or.inr hopen.1, fun hne => absurd hopen.1 hne⟩,
      by simp, fun _ => Or.inr ⟨hopen.1, h⟩, fun _ hnone => Or.inr ?_, by simp,
      fun _ => ⟨rfl, rfl⟩⟩
    rw [hsetup]
    by_contra htrue
    simp [htrue] at hnone
  · exact Payment.Turns.refl op p

theorem turns_released {op : Op} {p : Payment} (now : ℤ) (h : op.settles p.id) :
    p.Turns op (p.released now) := by
  unfold Payment.released
  split
  · rename_i hnone
    exact ⟨⟨rfl, rfl, rfl, rfl, rfl, rfl, Or.inl rfl, fun _ t ht => by rw [hnone] at ht; cases ht⟩,
      Or.inl, fun _ => Or.inl rfl, by simp, fun _ => Or.inr h, fun _ => ⟨rfl, rfl⟩⟩
  · exact Payment.Turns.refl op p

theorem turns_refunded {op : Op} {p : Payment} {due : ℤ} {refundId : Option ℕ} (now : ℤ)
    (h : op.settles p.id) (hop : op.refunds = true) :
    p.Turns op (p.refunded due refundId now) := by
  unfold Payment.refunded
  split
  · rename_i hopen
    refine ⟨⟨rfl, rfl, rfl, rfl, rfl, rfl, Or.inl rfl, fun _ t ht => ?_⟩,
      Or.inl, fun _ => Or.inl rfl, by simp, fun _ => Or.inr h, fun hno => ?_⟩
    · rw [hopen.1] at ht
      cases ht
    · rw [hop] at hno
      cases hno
  · exact Payment.Turns.refl op p

theorem turns_flagged {op : Op} {p : Payment} (refunded now : ℤ) (hop : op.refunds = true) :
    p.Turns op (p.setRefundFlag refunded now) :=
  ⟨⟨rfl, rfl, rfl, rfl, rfl, rfl, Or.inl rfl, fun _ _ h => h⟩, Or.inl, fun _ => Or.inl rfl,
    fun h hnone => Or.inl ⟨h, hnone⟩, fun _ => Or.inl rfl,
    fun hno => by rw [hop] at hno; cases hno⟩

theorem turns_setRefundId {op : Op} {p : Payment} (refundId : ℕ) :
    p.Turns op (p.setRefundId refundId) :=
  ⟨⟨rfl, rfl, rfl, rfl, rfl, rfl, Or.inl rfl, fun _ _ h => h⟩, Or.inl, fun _ => Or.inl rfl,
    fun h hnone => Or.inl ⟨h, hnone⟩, fun _ => Or.inl rfl, fun _ => ⟨rfl, rfl⟩⟩

/-! ## § What an operation does to the table -/

/-- `p` has just been inserted: open, for a booking on file, the only payment of it
that is not canceled, and the only one on its intent. -/
structure Db.Opened (db : Db) (p : Payment) : Prop where
  status : p.status = .open
  settledAt : p.settledAt = none
  refundedMinor : p.refundedMinor = 0
  refundFailedAt : p.refundFailedAt = none
  booking : ∃ b ∈ db.bookings.rows, b.id = p.bookingId
  alone : ∀ q ∈ db.payments.rows, q.bookingId = p.bookingId → q.status ≠ .canceled → q = p
  sole : ∀ q ∈ db.payments.rows, q.intentId = p.intentId → q = p

/-- Every payment turns by the operation, and there is no other. -/
structure Rewritten (op : Op) (db db' : Db) : Prop where
  forth : ∀ p ∈ db.payments.rows, ∃ p' ∈ db'.payments.rows, p.Turns op p'
  back : ∀ p' ∈ db'.payments.rows, ∃ p ∈ db.payments.rows, p.Turns op p'

/-- Every payment turns by the operation, and what is new has just been opened. -/
structure Turned (op : Op) (db db' : Db) : Prop where
  forth : ∀ p ∈ db.payments.rows, ∃ p' ∈ db'.payments.rows, p.Turns op p'
  back : ∀ p' ∈ db'.payments.rows, (∃ p ∈ db.payments.rows, p.Turns op p') ∨ db'.Opened p'

theorem rewritten_of_same {op : Op} {db db' : Db} (h : db'.payments = db.payments) :
    Rewritten op db db' := by
  refine ⟨fun p hp => ⟨p, h ▸ hp, Payment.Turns.refl op p⟩, fun p hp => ⟨p, ?_, ?_⟩⟩
  · rwa [h] at hp
  · exact Payment.Turns.refl op p

theorem rewritten_update {op : Op} {db db' : Db} {sel : Payment → Prop} [DecidablePred sel]
    {f : Payment → Payment} (hf : ∀ p, (f p).id = p.id)
    (hdb : db'.payments = db.payments.update sel f hf) (h : ∀ p, sel p → p.Turns op (f p)) :
    Rewritten op db db' := by
  refine ⟨fun p hp => ?_, fun p' hp' => ?_⟩
  · rw [hdb]
    by_cases hsel : sel p
    · exact ⟨f p, Table.mem_update.mpr (Or.inl ⟨p, hp, hsel, rfl⟩), h p hsel⟩
    · exact ⟨p, Table.mem_update.mpr (Or.inr ⟨hp, hsel⟩), Payment.Turns.refl op p⟩
  · rw [hdb] at hp'
    rcases Table.mem_update.mp hp' with ⟨p, hp, hsel, rfl⟩ | ⟨hp, _⟩
    · exact ⟨p, hp, h p hsel⟩
    · exact ⟨p', hp, Payment.Turns.refl op p'⟩

/-- `MARK_CANCELED` of one row. -/
theorem rewritten_markCanceled {op : Op} {db db' : Db} {now : ℤ} {id : ℕ}
    (hdb : db'.payments = (db.updatePayment id (fun p => p.markCanceled now)
      fun _ => Payment.markCanceled_id ..).payments)
    (h : op.cancels id) : Rewritten op db db' :=
  rewritten_update (fun _ => Payment.markCanceled_id ..) hdb fun p (hp : p.id = id) =>
    turns_markCanceled now (hp ▸ h)

theorem Rewritten.trans {op : Op} {db db' db'' : Db} (h : Rewritten op db db')
    (h' : Rewritten op db' db'') : Rewritten op db db'' := by
  refine ⟨fun p hp => ?_, fun p'' hp'' => ?_⟩
  · obtain ⟨p', hp', ht⟩ := h.forth p hp
    obtain ⟨p'', hp'', ht'⟩ := h'.forth p' hp'
    exact ⟨p'', hp'', ht.trans ht'⟩
  · obtain ⟨p', hp', ht'⟩ := h'.back p'' hp''
    obtain ⟨p, hp, ht⟩ := h.back p' hp'
    exact ⟨p, hp, ht.trans ht'⟩

theorem Rewritten.turned {op : Op} {db db' : Db} (h : Rewritten op db db') : Turned op db db' :=
  ⟨h.forth, fun p' hp' => Or.inl (h.back p' hp')⟩

/-- `INSERT_PAYMENT` opens one payment. -/
theorem insertPayment_opens {db db' : Db} {id bookingId : ℕ} {kind : PaymentKind}
    {intent : IntentId} {amount : ℤ} {currency : String}
    (h : db.insertPayment id bookingId kind intent amount currency = some db') :
    SameBooks db db' ∧ ∃ p, db'.payments.rows = db.payments.rows ++ [p] ∧ db'.Opened p ∧
      p.intentId = intent ∧ p.bookingId = bookingId := by
  unfold Db.insertPayment at h
  split at h
  · split at h
    · split at h
      · cases h
      · rename_i hfree
        obtain ⟨payments, hinsert, rfl⟩ := Option.map_eq_some_iff.mp h
        obtain ⟨hfresh, hrows⟩ := Table.insert_eq_some hinsert
        obtain ⟨hlive, hbooking⟩ := not_or.mp hfree
        obtain ⟨b, hb, hid, _⟩ := not_not.mp hbooking
        refine ⟨⟨rfl, rfl, rfl⟩, _, hrows, ⟨rfl, rfl, rfl, rfl, ⟨b, hb, hid⟩, ?_, ?_⟩, rfl, rfl⟩
        · intro q hq hqb hqs
          rw [hrows, List.mem_append, List.mem_singleton] at hq
          exact hq.resolve_left fun hq => hlive ⟨q, hq, Or.inr ⟨hqb, hqs⟩⟩
        · intro q hq hqi
          rw [hrows, List.mem_append, List.mem_singleton] at hq
          exact hq.resolve_left fun hq => hlive ⟨q, hq, Or.inl hqi⟩
    · cases h
  · cases h

theorem Rewritten.insert {op : Op} {db db' db'' : Db} (h : Rewritten op db db')
    {id bookingId : ℕ} {kind : PaymentKind} {intent : IntentId} {amount : ℤ} {currency : String}
    (hinsert : db'.insertPayment id bookingId kind intent amount currency = some db'') :
    Turned op db db'' := by
  obtain ⟨_, p, hrows, hopened, _⟩ := insertPayment_opens hinsert
  refine ⟨fun q hq => ?_, fun q hq => ?_⟩
  · obtain ⟨q', hq', ht⟩ := h.forth q hq
    exact ⟨q', by rw [hrows]; exact List.mem_append_left _ hq', ht⟩
  · rw [hrows, List.mem_append, List.mem_singleton] at hq
    rcases hq with hq | rfl
    · exact Or.inl (h.back q hq)
    · exact Or.inr hopened

theorem live_payments (db : Db) (now : ℤ) (bookingId : ℕ) (event : EventName) :
    (db.live now bookingId event).payments = db.payments := by
  unfold Db.live
  split
  · rename_i db' h
    obtain ⟨_, rfl⟩ := updateOne_eq_some h
    rfl
  · rfl

theorem giveBack_payments (db : Db) (bookingId : ℕ) :
    (db.giveBack bookingId).payments = db.payments := by
  unfold Db.giveBack
  cases h : db.expireOne bookingId with
  | none => rfl
  | some db' =>
      obtain ⟨db1, h1, rfl⟩ := Option.map_eq_some_iff.mp h
      obtain ⟨_, rfl⟩ := updateOne_eq_some h1
      rfl

theorem rewritten_reconcile (db : Db) (now : ℤ) (row : Payment) (state : IntentState) :
    Rewritten (.reconcile row state) db (db.reconcile now row state) := by
  unfold Db.reconcile
  split
  · exact rewritten_of_same rfl
  · split_ifs with hopen hmismatch hlanded hcanceled
    · exact rewritten_of_same rfl
    · exact rewritten_of_same rfl
    · split
      · exact rewritten_update (fun _ => Payment.markChecked_id ..) (live_payments ..)
          fun p hp => turns_markChecked now ⟨Eq.symm hp, hlanded⟩ rfl
      · exact rewritten_update (fun _ => Payment.markPaid_id ..) (live_payments ..)
          fun p hp => turns_markPaid ⟨Eq.symm hp, hlanded⟩
    · exact rewritten_markCanceled rfl ⟨rfl, hcanceled⟩
    · exact rewritten_of_same rfl

theorem refundFailed_payments (db : Db) (bookingId : ℕ) (refund : Option ℕ)
    (overQuota : Bool) : (db.refundFailed bookingId refund overQuota).payments = db.payments := by
  unfold Db.refundFailed Db.tellRefundFailed
  split
  · rename_i db' h
    obtain ⟨_, h⟩ := Option.ite_none_left_eq_some.mp h
    cases h
    unfold Db.mailRefundFailed Db.email
    split_ifs <;> rfl
  · rfl

theorem rewritten_setRefundFlag {op : Op} {db db' : Db} {intent : IntentId} {refunded now : ℤ}
    (hop : op.refunds = true)
    (hdb : db'.payments = (db.setRefundFlag intent refunded now).payments) :
    Rewritten op db db' :=
  rewritten_update (fun p => (rfl : (p.setRefundFlag refunded now).id = p.id)) hdb
    fun _ _ => turns_flagged refunded now hop

theorem rewritten_recordRefund (db : Db) (now : ℤ) (row : SettleRow) (due : ℤ)
    (refundId : Option ℕ) (refunded : ℤ) (outcome : RefundOutcome) (overQuota : Bool) :
    Rewritten (.recordRefund row due refundId refunded outcome overQuota) db
      (db.recordRefund now row due refundId refunded outcome overQuota) := by
  unfold Db.recordRefund
  split
  · have hwrite : Rewritten (.recordRefund row due refundId refunded outcome overQuota) db
        (db.writeRefund now row due refundId) := by
      refine rewritten_update (fun p => Payment.refunded_id p due refundId now)
        (?_ : _ = db.payments.update (fun p => p.id = row.payment.id) _ _) fun p hp =>
          turns_refunded now (Eq.symm hp) rfl
      unfold Db.writeRefund
      simp only
      split
      · exact giveBack_payments ..
      · rfl
    refine hwrite.trans ?_
    cases outcome with
    | held => exact rewritten_setRefundFlag rfl rfl
    | refused => exact rewritten_setRefundFlag rfl (refundFailed_payments ..)
    | sent =>
        refine rewritten_of_same ?_
        simp only [Db.tellRefund, Db.email]
        split_ifs <;> rfl
  · exact rewritten_of_same rfl

theorem rewritten_refundChanged (db : Db) (now : ℤ) (intent : IntentId) (refundId : ℕ)
    (failed : Bool) (refunded : ℤ) (overQuota : Bool) :
    Rewritten (.refundChanged intent refundId failed refunded overQuota) db
      (db.refundChanged now intent refundId failed refunded overQuota) := by
  unfold Db.refundChanged
  split
  · exact rewritten_of_same rfl
  · rename_i payment _
    cases failed with
    | false => exact rewritten_setRefundFlag rfl rfl
    | true =>
        set db1 := db.refundFailed payment.bookingId (some refundId) overQuota
        have htold : Rewritten (.refundChanged intent refundId true refunded overQuota) db db1 :=
          rewritten_of_same (refundFailed_payments ..)
        have hid : Rewritten (.refundChanged intent refundId true refunded overQuota) db1
            (db1.updateIntent intent (fun p => p.setRefundId refundId) fun _ => rfl) :=
          rewritten_update (fun p => (rfl : (p.setRefundId refundId).id = p.id)) rfl
            fun p _ => turns_setRefundId refundId
        exact (htold.trans hid).trans (rewritten_setRefundFlag rfl rfl)

/-- **Every operation** turns the payments by what it is. -/
theorem turned_of_apply {db db' : Db} {now : ℤ} {op : Op} (h : apply db now op = .ok db') :
    Turned op db db' := by
  by_cases hpays : op.pays = false
  · exact (rewritten_of_same (aside_of_apply h hpays).payments).turned
  · cases op with
    | insertPayment id bookingId kind intent amount currency =>
        exact (rewritten_of_same rfl).insert (found_eq_ok.mp h)
    | giveBack bookingId =>
        cases h
        exact (rewritten_of_same (giveBack_payments ..)).turned
    | reconcile row state =>
        cases h
        exact (rewritten_reconcile ..).turned
    | resume bookingId old id kind intent amount currency =>
        have hcancels : Op.cancels (.resume bookingId old id kind intent amount currency) old :=
          rfl
        exact (rewritten_markCanceled rfl hcancels).insert (resume_eq_ok h)
    | abandon bookingId payment =>
        obtain ⟨db1, hexpire, hdb⟩ := abandon_eq_ok h
        obtain ⟨db2, h2, rfl⟩ := Option.map_eq_some_iff.mp hexpire
        obtain ⟨_, rfl⟩ := updateOne_eq_some h2
        have hexpired : ∀ op, Rewritten op db (Db.record (db.updateBookings
            (fun b => b.id = bookingId ∧ b.status = .awaitingPayment)
            (fun b => b.withStatus .expired (by decide)) (fun _ => rfl) fun _ => rfl)
            ⟨bookingId, .expired, none, none, .empty⟩) := fun op => rewritten_of_same rfl
        rcases hdb with ⟨_, rfl⟩ | ⟨id, rfl, rfl⟩
        · exact (hexpired _).turned
        · have hcancels : Op.cancels (.abandon bookingId (some id)) id := rfl
          exact ((hexpired _).trans (rewritten_markCanceled rfl hcancels)).turned
    | writeCanceled paymentId =>
        cases h
        have hcancels : Op.cancels (.writeCanceled paymentId) paymentId := rfl
        exact (rewritten_markCanceled rfl hcancels).turned
    | writeReleased paymentId =>
        cases h
        have hsettles : ∀ p : Payment, p.id = paymentId →
            Op.settles (.writeReleased paymentId) p.id := fun p hp => Eq.symm hp
        exact (rewritten_update (fun p => Payment.released_id p now) rfl fun p hp =>
          turns_released now (hsettles p hp)).turned
    | recordRefund row due refundId refunded outcome overQuota =>
        cases h
        exact (rewritten_recordRefund ..).turned
    | refundChanged intent refundId failed refunded overQuota =>
        cases h
        exact (rewritten_refundChanged ..).turned
    | _ => exact absurd rfl hpays

end Ziftbook
