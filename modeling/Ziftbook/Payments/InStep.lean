import Ziftbook.Payments.Sound

/-!
# Payment and booking stay in step

Whatever the order of the threads: a payment leaves `open` once, is canceled only
after its intent, and a booking leaves its checkout alive only in the
transaction that lands one of its payments.
-/

namespace Ziftbook

open Foundation

/-- The payment went through: nothing else lands its booking. -/
def PaymentStatus.hasLanded : PaymentStatus → Prop
  | .checked | .paid => True
  | _ => False

/-- One step `m` moves payments one way, and a booking out of its checkout only as
one of its payments lands, on the clock of the transaction that lands it. -/
structure Desk.InStep (d d' : Desk) (m : Deed) : Prop where
  moves : ∀ p ∈ d.shared.db.payments.rows, ∃ p' ∈ d'.shared.db.payments.rows, p'.id = p.id ∧
    (p'.status = p.status ∨
      (p.status = .open ∧ p'.status ∈ [PaymentStatus.checked, .paid, .canceled]))
  stays : ∀ i, d.shared.provider.canceled i → d'.shared.provider.canceled i
  lands : ∀ b ∈ d.shared.db.bookings.rows, b.status = .awaitingPayment →
    ∀ b' ∈ d'.shared.db.bookings.rows, b'.id = b.id →
      b'.status = .pending ∨ b'.status = .confirmed →
      ∃ i turn, m = .go i turn ∧ b.unexpired turn.now ∧
        ∃ p ∈ d.shared.db.payments.rows, ∃ p' ∈ d'.shared.db.payments.rows,
          p.bookingId = b.id ∧ p'.id = p.id ∧ p.status = .open ∧ p'.status.hasLanded

/-! ## § A booking leaves its checkout -/

/-- A booking that no payment lands on stays in its checkout, or expires. -/
theorem carried_stays {db db' : Db} {landing : Booking → Prop} (h : Carries landing db db')
    {b b' : Booking} (hb : b ∈ db.bookings.rows) (hawaits : b.status = .awaitingPayment)
    (hb' : b' ∈ db'.bookings.rows) (hid : b'.id = b.id)
    (hlive : b'.status = .pending ∨ b'.status = .confirmed) : landing b := by
  obtain ⟨c, hc, hcarried⟩ := h.bookings b hb
  have heq : b' = c := db'.bookings.eq_of_key hb' hc (hid.trans hcarried.id.symm)
  subst heq
  rcases hcarried.awaits hawaits with hs | hs | hl
  · rw [hs] at hlive
    rcases hlive with hlive | hlive <;> cases hlive
  · rw [hs] at hlive
    rcases hlive with hlive | hlive <;> cases hlive
  · exact hl

/-- **A transaction** that makes a checkout's booking live lands its payment. -/
theorem write_lands {t : Till} {turn : Turn} {w : Write} (hok : w.ok t) {b b' : Booking}
    (hb : b ∈ t.db.bookings.rows) (hawaits : b.status = .awaitingPayment)
    (hb' : b' ∈ (w.run t.db turn).1.bookings.rows) (hid : b'.id = b.id)
    (hlive : b'.status = .pending ∨ b'.status = .confirmed) :
    b.unexpired turn.now ∧ ∃ p ∈ t.db.payments.rows,
      ∃ p' ∈ (w.run t.db turn).1.payments.rows,
        p.bookingId = b.id ∧ p'.id = p.id ∧ p.status = .open ∧ p'.status.hasLanded := by
  rcases write_cases t.db turn w with ⟨hdb, _⟩ | ⟨happly, _⟩
  · rw [hdb] at hb'
    have hsame : Carries (fun _ => False) t.db t.db := SameBooks.carries ⟨rfl, rfl, rfl⟩
    exact (carried_stays hsame hb hawaits hb' hid hlive).elim
  · by_cases hrecords : (w.op turn).records = false
    · have hlands := carried_stays (carries_of_apply happly hrecords) hb hawaits hb' hid hlive
      cases w with
      | reconcile row state =>
          obtain ⟨hbooking, hunexpired, hmatched, hlanded, p, hp, hpid, hopen⟩ := hlands
          have hlater := hok.1.later hp hpid.symm
          obtain ⟨p', hp', hpid', hstatus⟩ :=
            reconcile_marks hp hpid hlater.kind hopen hmatched hlanded
          refine ⟨hunexpired, p, hp, p', ?_, hlater.bookingId.trans hbooking.symm, hpid', hopen, ?_⟩
          · have heq := Except.ok.inj happly
            exact heq ▸ hp'
          · rcases hstatus with hs | hs <;> rw [hs] <;> trivial
      | _ => exact hlands.elim
    · cases w with
      | recordRefund row due refundId refunded outcome =>
          have heq := Except.ok.inj happly
          rw [← heq] at hb'
          rcases recordRefund_tells t.db turn.now row due refundId refunded outcome
              turn.overQuota with hsame | ⟨_, hcarries, htells⟩
          · have hnone : Carries (fun _ => False) t.db t.db := SameBooks.carries ⟨rfl, rfl, rfl⟩
            rw [hsame] at hb'
            exact (carried_stays hnone hb hawaits hb' hid hlive).elim
          · rw [htells.bookings] at hb'
            exact (carried_stays hcarries hb hawaits hb' hid hlive).elim
      | _ => exact absurd rfl hrecords

/-- One step of the desk, in terms of what it did to the till. -/
theorem grows_step {d d' : Desk} {m : Deed} (h : d.Sound) (hstep : d.step m = some d') :
    d.shared.Grows d'.shared := by
  cases Pool.stepped hstep with
  | world e he _ => exact (around_sound h.shared he).2
  | start e ts he _ => exact (enter_sound h.shared he).2.1
  | go i turn u rest next hthread he _ =>
      have hu := h.tasks u (Pool.mem_tasks_of_getElem hthread (List.mem_cons_self ..))
      exact (exec_sound h.shared hu he).2.1
  | die i hshared _ =>
      rw [hshared]
      exact Till.Grows.refl _

theorem inStep_step {d d' : Desk} {m : Deed} (h : d.Sound) (hstep : d.step m = some d') :
    d.InStep d' m := by
  have hgrows := grows_step h hstep
  have hsame : Carries (fun _ => False) d.shared.db d.shared.db :=
    SameBooks.carries ⟨rfl, rfl, rfl⟩
  refine ⟨fun p hp => ?_, hgrows.canceled, fun b hb hawaits b' hb' hid hlive => ?_⟩
  · obtain ⟨p', hp', hlater⟩ := hgrows.payments p hp
    refine ⟨p', hp', hlater.id, ?_⟩
    by_cases hs : p'.status = p.status
    · exact Or.inl hs
    · have hopen := hlater.moved.resolve_left hs
      rw [hopen] at hs
      exact Or.inr ⟨hopen, by revert hs; cases p'.status <;> simp⟩
  · cases Pool.stepped hstep with
    | world e he _ =>
        exfalso
        rcases around_db he with hdb | ⟨now, op, _, hpays, happly⟩
        · exact carried_stays hsame hb hawaits (hdb ▸ hb') hid hlive
        · exact carried_stays (aside_of_apply happly hpays).carries hb hawaits hb' hid hlive
    | start e ts he _ =>
        exact (carried_stays hsame hb hawaits (enter_db he ▸ hb') hid hlive).elim
    | go i turn u rest next hthread he _ =>
        have hu := h.tasks u (Pool.mem_tasks_of_getElem hthread (List.mem_cons_self ..))
        rcases exec_db he with hdb | ⟨w, rfl, hdb⟩
        · exact (carried_stays hsame hb hawaits (hdb ▸ hb') hid hlive).elim
        · refine ⟨i, turn, rfl, ?_⟩
          rw [hdb] at hb' ⊢
          exact write_lands hu hb hawaits hb' hid hlive
    | die i hshared _ =>
        rw [hshared] at hb'
        exact (carried_stays hsame hb hawaits hb' hid hlive).elim

/-! ## § Whole runs -/

/-- A payment keeps what it is about through a whole run, and leaves `open` once. -/
theorem later_run {d d' : Desk} {ms : List Deed} (h : d.Sound) (hrun : d.run ms = some d')
    {p : Payment} (hp : p ∈ d.shared.db.payments.rows) :
    ∃ p' ∈ d'.shared.db.payments.rows, p.Later p' := by
  have hkeeps : ∀ (e : Desk) (m : Deed) (e' : Desk), e.Sound ∧ e.shared.db.onFile p →
      e.step m = some e' → e'.Sound ∧ e'.shared.db.onFile p :=
    fun e m e' hs hstep => ⟨sound_step hs.1 hstep, (grows_step hs.1 hstep).onFile hs.2⟩
  exact (Runs.run_invariant' hkeeps ⟨h, onFile_of_mem hp⟩ hrun).2

/-- No thread is under way, and no payment has been made. -/
def Desk.Fresh (d : Desk) : Prop := d.threads = [] ∧ d.shared.db.payments.rows = []

theorem Desk.Fresh.sound {d : Desk} (h : d.Fresh) : d.Sound := by
  refine ⟨sound_of_empty h.2, fun u hu => ?_⟩
  rw [Pool.tasks, h.1] at hu
  cases hu

/-- **The payment and booking machines stay in step**, in every state that any
interleaving reaches: at most one payment of a booking is not canceled, a
canceled one's intent is canceled for good, at most one payment ever lands a
booking, and every next step moves both machines together. -/
theorem machines_in_step {d d' : Desk} {ms : List Deed} (hfresh : d.Fresh)
    (hrun : d.run ms = some d') :
    (∀ p ∈ d'.shared.db.payments.rows, ∀ q ∈ d'.shared.db.payments.rows,
      p.bookingId = q.bookingId → p.status ≠ .canceled → q.status ≠ .canceled → p = q) ∧
    (∀ p ∈ d'.shared.db.payments.rows, p.status = .canceled →
      d'.shared.provider.canceled p.intentId) ∧
    (∀ ms' d'', d'.run ms' = some d'' → ∀ p ∈ d'.shared.db.payments.rows,
      ∀ q ∈ d''.shared.db.payments.rows, p.status.hasLanded → q.status.hasLanded →
        p.bookingId = q.bookingId → p.id = q.id) ∧
    ∀ m d'', d'.step m = some d'' → d'.InStep d'' m := by
  have hsound := sound_run hfresh.sound hrun
  refine ⟨hsound.shared.alone, fun p hp hc => (hsound.shared.canceled p hp hc).2, ?_,
    fun m d'' hstep => inStep_step hsound hstep⟩
  intro ms' d'' hrun' p hp q hq hpl hql hb
  have hnot : ∀ {s : PaymentStatus}, s.hasLanded → s ≠ .canceled ∧ s ≠ .open := by
    intro s hs
    cases s <;> simp_all [PaymentStatus.hasLanded]
  obtain ⟨p', hp', hlater⟩ := later_run hsound hrun' hp
  have hstatus := hlater.status_eq (hnot hpl).2
  have heq := (sound_run hsound hrun').shared.alone p' hp' q hq (hlater.bookingId.trans hb)
    (hstatus ▸ (hnot hpl).1) (hnot hql).1
  rw [← heq, hlater.id]

/-- A checkout paid in time, the webhook's reconcile, then the return page's. -/
theorem machines_in_step_checkout :
    ∃ d', openDesk.run (checkoutPaid ++ reconciled 1 2 ++ reconciled 2 3) = some d' ∧
      (∃ p ∈ d'.shared.db.payments.rows, p.status = .paid) ∧
      ∀ p ∈ d'.shared.db.payments.rows, ∀ q ∈ d'.shared.db.payments.rows,
        p.bookingId = q.bookingId → p.status ≠ .canceled → q.status ≠ .canceled → p = q := by
  refine ⟨_, (Option.some_get (by decide +kernel)).symm, by decide +kernel, ?_⟩
  exact (machines_in_step (d := openDesk) ⟨rfl, rfl⟩
    (Option.some_get (by decide +kernel)).symm).1

end Ziftbook
