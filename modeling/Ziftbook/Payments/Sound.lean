import Ziftbook.Payments.OnFile

/-!
# The payment table in every reachable state

One payment of a booking at most is not canceled; a canceled one is settled and
its intent is canceled at the provider; an open one is not settled; a checked
one not settled holds an authorisation. Every step of every thread keeps this.
-/

namespace Ziftbook

open Foundation

structure Till.Sound (t : Till) : Prop where
  booking : ∀ p ∈ t.db.payments.rows, ∃ b ∈ t.db.bookings.rows, b.id = p.bookingId
  alone : ∀ p ∈ t.db.payments.rows, ∀ q ∈ t.db.payments.rows, p.bookingId = q.bookingId →
    p.status ≠ .canceled → q.status ≠ .canceled → p = q
  opened : ∀ p ∈ t.db.payments.rows, p.status = .open → p.settledAt = none
  canceled : ∀ p ∈ t.db.payments.rows, p.status = .canceled →
    p.settledAt ≠ none ∧ t.provider.canceled p.intentId
  checked : ∀ p ∈ t.db.payments.rows, p.status = .checked → p.settledAt = none →
    p.intentId.setup = false

/-- A business with no payments yet. -/
theorem sound_of_empty {t : Till} (h : t.db.payments.rows = []) : t.Sound := by
  constructor <;> intro p hp <;> rw [h] at hp <;> cases hp

theorem Till.Sound.ask {t : Till} (h : t.Sound) {s : Provider}
    (hcanceled : ∀ i, t.provider.canceled i → s.canceled i) : (⟨t.db, s⟩ : Till).Sound :=
  ⟨h.booking, h.alone, h.opened,
    fun p hp hc => ⟨(h.canceled p hp hc).1, hcanceled _ (h.canceled p hp hc).2⟩, h.checked⟩

/-! ## § Writes -/

/-- What an operation on the payments has to respect. -/
structure Op.Fits (op : Op) (t : Till) : Prop where
  cancels : ∀ p ∈ t.db.payments.rows, op.cancels p.id → p.status = .open →
    t.provider.canceled p.intentId
  settles : ∀ p ∈ t.db.payments.rows, op.settles p.id → p.status ≠ .open
  lands : ∀ p ∈ t.db.payments.rows, op.lands p.id → op.setup = p.intentId.setup

/-- An operation that turns the payments keeps them sound. -/
theorem Till.Sound.turned {t : Till} (h : t.Sound) {op : Op} {db' : Db} (hfits : op.Fits t)
    (hturned : Turned op t.db db')
    (hbookings : ∀ b ∈ t.db.bookings.rows, ∃ b' ∈ db'.bookings.rows, b'.id = b.id) :
    (⟨db', t.provider⟩ : Till).Sound := by
  refine ⟨fun p' hp' => ?_, fun p' hp' q' hq' hb hp hq => ?_, fun p' hp' hs => ?_,
    fun p' hp' hs => ?_, fun p' hp' hs hnone => ?_⟩
  · rcases hturned.back p' hp' with ⟨p, hp, ht⟩ | hopened
    · obtain ⟨b, hb, hid⟩ := h.booking p hp
      obtain ⟨b', hb', hid'⟩ := hbookings b hb
      exact ⟨b', hb', (hid'.trans hid).trans ht.later.bookingId.symm⟩
    · exact hopened.booking
  · rcases hturned.back p' hp' with ⟨p, hpm, htp⟩ | hopened
    · rcases hturned.back q' hq' with ⟨q, hqm, htq⟩ | hopened
      · -- both are older: the rows they come from were one
        have halive : ∀ {r r' : Payment}, r.Later r' → r'.status ≠ .canceled →
            r.status ≠ .canceled := by
          intro r r' hl hr' hr
          exact hr' ((hl.status_eq (by rw [hr]; decide)).trans hr)
        have hb' : p.bookingId = q.bookingId := by
          rw [← htp.later.bookingId, ← htq.later.bookingId]
          exact hb
        have heq : p = q :=
          h.alone p hpm q hqm hb' (halive htp.later hp) (halive htq.later hq)
        refine db'.payments.eq_of_key hp' hq' ?_
        rw [htp.later.id, htq.later.id, heq]
      · exact hopened.alone p' hp' hb hp
    · exact (hopened.alone q' hq' hb.symm hq).symm
  · rcases hturned.back p' hp' with ⟨p, hp, ht⟩ | hopened
    · have hopen : p.status = .open := ht.later.moved.elim (fun he => he ▸ hs) fun he => he
      rcases ht.opened hs with heq | hsettles
      · rw [heq]
        exact h.opened p hp hopen
      · exact absurd hopen (hfits.settles p hp hsettles)
    · exact hopened.settledAt
  · rcases hturned.back p' hp' with ⟨p, hp, ht⟩ | hopened
    · by_cases hopen : p.status = .open
      · rcases ht.canceled hs with hc | ⟨hcancels, hsettled⟩
        · rw [hopen] at hc
          cases hc
        · refine ⟨hsettled, ?_⟩
          rw [ht.later.intentId]
          exact hfits.cancels p hp hcancels hopen
      · have hc : p.status = .canceled := (ht.later.status_eq hopen).symm.trans hs
        obtain ⟨hsettled, hcanceled⟩ := h.canceled p hp hc
        refine ⟨fun hnone => hsettled (ht.later.unsettled hopen hnone), ?_⟩
        rw [ht.later.intentId]
        exact hcanceled
    · rw [hopened.status] at hs
      cases hs
  · rcases hturned.back p' hp' with ⟨p, hp, ht⟩ | hopened
    · rw [ht.later.intentId]
      rcases ht.checked hs hnone with ⟨hc, hnone'⟩ | hsetup
      · exact h.checked p hp hc hnone'
      · rcases ht.landed (Or.inl hs) with heq | ⟨_, hlands⟩
        · have hc : p.status = .checked := heq.trans hs
          exact h.checked p hp hc (ht.later.unsettled (by rw [hc]; decide) hnone)
        · rw [← hfits.lands p hp hlands]
          exact hsetup
    · rw [hopened.status] at hs
      cases hs

/-- A row on file and the payment of its id are about the same. -/
theorem Db.onFile.later {db : Db} {row p : Payment} (h : db.onFile row)
    (hp : p ∈ db.payments.rows) (hid : row.id = p.id) : row.Later p := by
  obtain ⟨q, hq, hlater⟩ := h
  rwa [db.payments.eq_of_key hp hq (hid.symm.trans hlater.id.symm)]

theorem Till.closable.canceled {t : Till} {row p : Payment} (h : t.closable row)
    (hp : p ∈ t.db.payments.rows) (hid : row.id = p.id) (hopen : p.status = .open) :
    t.provider.canceled p.intentId := by
  obtain ⟨q, hq, hlater, hc⟩ := h
  have heq : p = q := t.db.payments.eq_of_key hp hq (hid.symm.trans hlater.id.symm)
  subst heq
  exact hc hopen

/-- What a task relies on is what its operation has to respect. -/
theorem fits_of_ok {t : Till} {turn : Turn} {w : Write} (h : w.ok t) : (w.op turn).Fits t := by
  cases w with
  | reconcile row state =>
      refine ⟨fun p hp hc _ => ?_, fun p hp hf => hf.elim, fun p hp hl => ?_⟩
      · rw [(h.1.later hp hc.1).intentId]
        exact h.2.2 hc.2
      · rw [(h.1.later hp hl.1).intentId]
        exact h.2.1
  | resume r made =>
      exact ⟨fun p hp hc hopen => h.canceled hp hc hopen, fun p hp hf => hf.elim,
        fun p hp hf => hf.elim⟩
  | abandon bookingId payment =>
      refine ⟨fun p hp hc hopen => ?_, fun p hp hf => hf.elim, fun p hp hf => hf.elim⟩
      obtain ⟨row, hrow, hid⟩ := Option.map_eq_some_iff.mp hc
      exact (h row hrow).canceled hp hid hopen
  | canceled row =>
      exact ⟨fun p hp hc hopen => h.canceled hp hc hopen, fun p hp hf => hf.elim,
        fun p hp hf => hf.elim⟩
  | released row =>
      refine ⟨fun p hp hf => hf.elim, fun p hp hid hopen => ?_, fun p hp hf => hf.elim⟩
      exact h.2 (((h.1.later hp hid).status_eq h.2).symm.trans hopen)
  | recordRefund row due refundId refunded outcome =>
      refine ⟨fun p hp hf => hf.elim, fun p hp hid hopen => ?_, fun p hp hf => hf.elim⟩
      have hpaid := (h.1.later hp hid).status_eq (by rw [h.2]; decide)
      rw [h.2, hopen] at hpaid
      cases hpaid
  | _ => exact ⟨fun p hp hf => hf.elim, fun p hp hf => hf.elim, fun p hp hf => hf.elim⟩

/-- Every operation keeps the bookings' rows. -/
theorem bookings_of_apply {db db' : Db} {now : ℤ} {op : Op} (h : apply db now op = .ok db') :
    ∀ b ∈ db.bookings.rows, ∃ b' ∈ db'.bookings.rows, b'.id = b.id := by
  by_cases hrecords : op.records = false
  · intro b hb
    obtain ⟨b', hb', hc⟩ := (carries_of_apply h hrecords).bookings b hb
    exact ⟨b', hb', hc.id⟩
  · cases op with
    | recordRefund row due refundId refunded outcome overQuota =>
        cases h
        intro b hb
        rcases recordRefund_tells db now row due refundId refunded outcome overQuota with
          heq | ⟨_, hc, ht⟩
        · exact ⟨b, heq.symm ▸ hb, rfl⟩
        · obtain ⟨b', hb', hc'⟩ := hc.bookings b hb
          exact ⟨b', ht.bookings.symm ▸ hb', hc'.id⟩
    | _ => exact absurd rfl hrecords

theorem refused_next {t : Till} {w : Write} {e : Option ApiError} {ts : List Task}
    (h : w.refused e = some ts) : ∀ u ∈ ts, u.ok t := by
  cases w with
  | insert booking kind made =>
      cases h
      simp [Task.ok, Write.ok]
  | resume r made =>
      cases e with
      | none => cases h
      | some e =>
          simp only [Write.refused] at h
          split_ifs at h <;> cases h <;> simp [Task.ok, Ask.ok]
  | _ => cases h

theorem committed_next {t : Till} {db : Db} {w : Write} : ∀ u ∈ w.committed db, u.ok t := by
  unfold Write.committed
  split
  · split_ifs <;> simp [Task.ok, Ask.ok]
  · simp

/-! ## § Every step -/

theorem Till.Grows.refl (t : Till) : t.Grows t :=
  ⟨fun p hp => ⟨p, hp, Payment.Later.refl p⟩, fun _ h => h⟩

theorem grows_ask {t : Till} {s : Provider}
    (h : ∀ i, t.provider.canceled i → s.canceled i) : t.Grows ⟨t.db, s⟩ :=
  ⟨fun p hp => ⟨p, hp, Payment.Later.refl p⟩, h⟩

theorem grows_of_turned {t : Till} {op : Op} {db' : Db} (h : Turned op t.db db') :
    t.Grows ⟨db', t.provider⟩ := by
  refine ⟨fun p hp => ?_, fun _ h => h⟩
  obtain ⟨p', hp', ht⟩ := h.forth p hp
  exact ⟨p', hp', ht.later⟩

/-- **A task** keeps the table sound, and leaves tasks that may rely on theirs. -/
theorem exec_sound {t t' : Till} {u : Task} {turn : Turn} {next : Option (List Task)}
    (hs : t.Sound) (hok : u.ok t) (h : t.exec u turn = some (t', next)) :
    t'.Sound ∧ t.Grows t' ∧ ∀ ts, next = some ts → ∀ v ∈ ts, v.ok t' := by
  cases u with
  | look l =>
      cases h
      refine ⟨hs, Till.Grows.refl t, fun ts hts => ?_⟩
      split_ifs at hts
      exact look_next hts
  | ask a =>
      obtain ⟨⟨s, next⟩, ha, heq⟩ := Option.map_eq_some_iff.mp h
      cases heq
      obtain ⟨hasked, hnext⟩ := ask_next hok ha
      exact ⟨hs.ask fun _ hi => hasked.canceled hi, grows_ask fun _ hi => hasked.canceled hi, hnext⟩
  | write w =>
      cases h
      rcases write_cases t.db turn w with ⟨hdb, e, hrefused⟩ | ⟨happly, hcommitted⟩
      · rw [hdb]
        exact ⟨hs, Till.Grows.refl t, fun ts hts => refused_next (hrefused ▸ hts)⟩
      · have hturned := turned_of_apply happly
        refine ⟨hs.turned (fits_of_ok hok) hturned (bookings_of_apply happly),
          grows_of_turned hturned, fun ts hts => ?_⟩
        rw [hcommitted] at hts
        cases hts
        exact committed_next

/-- An operation that is not the payment code's moves no payment. -/
theorem aside_sound {t : Till} {db' : Db} (hs : t.Sound) (h : Aside t.db db') :
    (⟨db', t.provider⟩ : Till).Sound := by
  refine ⟨fun p hp => ?_, ?_, ?_, ?_, ?_⟩
  · dsimp only at hp
    rw [h.payments] at hp
    obtain ⟨b, hb, hid⟩ := hs.booking p hp
    obtain ⟨b', hb', hc⟩ := h.carries.bookings b hb
    exact ⟨b', hb', hc.id.trans hid⟩
  · exact h.payments.symm ▸ hs.alone
  · exact h.payments.symm ▸ hs.opened
  · exact h.payments.symm ▸ hs.canceled
  · exact h.payments.symm ▸ hs.checked

theorem advance_eq_some {s s' : Provider} {intent : IntentId} {status : IntentStatus}
    {chargedAt : Option ℤ} (h : s.advance intent status chargedAt = some s') : s.Quiet s' := by
  obtain ⟨i, hi, h⟩ := Option.bind_eq_some_iff.mp h
  split at h
  · cases h
  · rename_i hfinal
    cases h
    refine quiet_setStatus hi fun hc => hfinal ?_
    rw [hc]
    trivial

theorem handRefund_eq_some {s s' : Provider} {intent : IntentId} {amount : ℤ} {id : ℕ}
    (h : s.handRefund intent amount id = some s') :
    ∃ hpos, s.insertRefund ⟨id, intent, amount, none, false, hpos⟩ = some s' := by
  unfold Provider.handRefund at h
  split at h
  · rename_i hpos
    split at h
    · exact ⟨hpos, h⟩
    · cases h
  · cases h

theorem failRefund_eq_some {s s' : Provider} {id : ℕ} (h : s.failRefund id = some s') :
    (∃ r ∈ s.refunds.rows, r.id = id) ∧ s' = { s with
      refunds := s.refunds.update (fun r => r.id = id) (fun r => { r with failed := true })
        fun _ => rfl
      events := s.events ++ [id] } := by
  unfold Provider.failRefund at h
  split at h
  · rename_i hex
    cases h
    obtain ⟨r, hr, hid, _⟩ := hex
    exact ⟨⟨r, hr, hid⟩, rfl⟩
  · cases h

/-- Another operation changes nothing, or leaves the payments aside. -/
theorem around_op {t t' : Till} {tasks : List Task} {now : ℤ} {op : Op}
    (h : t.around tasks (.op now op) = some t') :
    t' = t ∨ ∃ db', Aside t.db db' ∧ t' = ⟨db', t.provider⟩ := by
  simp only [Till.around] at h
  split_ifs at h with hpays
  split at h
  · rename_i db' happly
    cases h
    exact Or.inr ⟨db', aside_of_apply happly (Bool.eq_false_iff.mpr hpays), rfl⟩
  · cases h
    exact Or.inl rfl

/-- **What happens around the threads** keeps the table sound. -/
theorem around_sound {t t' : Till} {tasks : List Task} {e : Around} (hs : t.Sound)
    (h : t.around tasks e = some t') : t'.Sound ∧ t.Grows t' := by
  have hintents : ∀ s : Provider, s.intents = t.provider.intents →
      (⟨t.db, s⟩ : Till).Sound ∧ t.Grows ⟨t.db, s⟩ := by
    intro s hs'
    have hc : ∀ i, t.provider.canceled i → s.canceled i := by
      rintro i ⟨k, hk, hi⟩
      exact ⟨k, hs' ▸ hk, hi⟩
    exact ⟨hs.ask hc, grows_ask hc⟩
  cases e with
  | op now op =>
      rcases around_op h with rfl | ⟨db', haside, rfl⟩
      · exact ⟨hs, Till.Grows.refl _⟩
      · refine ⟨aside_sound hs haside, fun p hp => ⟨p, ?_, Payment.Later.refl p⟩, fun _ h => h⟩
        exact haside.payments.symm ▸ hp
  | advance intent status chargedAt =>
      obtain ⟨s, hadvance, rfl⟩ := Option.map_eq_some_iff.mp h
      have hc := (advance_eq_some hadvance).canceled
      exact ⟨hs.ask hc, grows_ask hc⟩
  | handRefund intent amount id =>
      obtain ⟨s, hhand, rfl⟩ := Option.map_eq_some_iff.mp h
      obtain ⟨_, hinsert⟩ := handRefund_eq_some hhand
      exact hintents s (insertRefund_eq_some hinsert).2.2.1
  | failRefund id =>
      obtain ⟨s, hfail, rfl⟩ := Option.map_eq_some_iff.mp h
      obtain ⟨_, rfl⟩ := failRefund_eq_some hfail
      exact hintents _ rfl
  | forget payment =>
      simp only [Till.around] at h
      split_ifs at h
      cases h
      exact hintents _ rfl

/-- **A thread** begins with tasks that rely on nothing. -/
theorem enter_sound {t t' : Till} {e : Entry} {ts : List Task} (hs : t.Sound)
    (h : t.enter e = some (t', ts)) : t'.Sound ∧ t.Grows t' ∧ ∀ u ∈ ts, u.ok t' := by
  cases e with
  | start bookingId kind =>
      obtain ⟨b, _, heq⟩ := Option.map_eq_some_iff.mp h
      cases heq
      exact ⟨hs, Till.Grows.refl t, by simp [Task.ok, Ask.ok]⟩
  | refundEvent refundId =>
      cases h
      refine ⟨hs.ask fun _ h => h, grows_ask fun _ h => h, by simp [Task.ok, Ask.ok]⟩
  | _ =>
      cases h
      exact ⟨hs, Till.Grows.refl t, by simp [Task.ok]⟩

/-- The table is sound, and every task may rely on what it holds. -/
abbrev Desk.Sound (d : Desk) : Prop := Pool.Invariant Till.Sound (fun t u => u.ok t) d

theorem sound_step {d d' : Desk} {m : Deed} (h : d.Sound) (hstep : d.step m = some d') :
    d'.Sound := by
  refine Pool.invariant_step (P := till) ?_ ?_ ?_ h hstep
  · intro t ts e t' hs hok he
    obtain ⟨hs', hgrows⟩ := around_sound hs he
    exact ⟨hs', fun u hu => hgrows.ok (hok u hu)⟩
  · intro t e t' ts hs he
    obtain ⟨hs', hgrows, hnew⟩ := enter_sound hs he
    exact ⟨hs', hnew, fun u hu => hgrows.ok hu⟩
  · intro t u turn t' next hs hok he
    obtain ⟨hs', hgrows, hnext⟩ := exec_sound hs hok he
    exact ⟨hs', hnext, fun v hv => hgrows.ok hv⟩

theorem sound_run {d d' : Desk} {ms : List Deed} (h : d.Sound) (hrun : d.run ms = some d') :
    d'.Sound :=
  Runs.run_invariant' (fun _ _ _ hs hstep => sound_step hs hstep) h hrun

end Ziftbook
