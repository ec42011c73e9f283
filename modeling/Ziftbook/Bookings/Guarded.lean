import Ziftbook.Bookings.Effects

/-!
# What holds of every live booking

Time off and removals each refuse to harm a live booking, and a new time is
refused where harm is already done. This is the common argument: what is left
open is only a booking that becomes live again.
-/

namespace Ziftbook

open Foundation

/-- A notion of live that a booking's standing and end decide, and that time
only takes away. -/
structure Liveness (live : Booking → ℤ → Prop) : Prop where
  standing : ∀ {b now}, live b now → b.status ∈ standingStatuses
  unended : ∀ {b now}, live b now → now < b.endsAt
  mono : ∀ {b now now'}, live b now' → now ≤ now' → live b now
  same : ∀ {b b' : Booking} {now}, b'.status = b.status → b'.expiresAt = b.expiresAt →
    b'.endsAt = b.endsAt → live b' now → live b now

/-- A harm that the setup and a booking's worker and time decide. -/
def Settled (harm : Db → Booking → Prop) : Prop :=
  ∀ {db db' : Db} {b b' : Booking}, SameSetup db db' → b'.workerId = b.workerId →
    b'.startsAt = b.startsAt → b'.endsAt = b.endsAt → (harm db' b' ↔ harm db b)

/-- No live booking is harmed. -/
def Db.Guarded (live : Booking → ℤ → Prop) (harm : Db → Booking → Prop) (db : Db) (now : ℤ) :
    Prop :=
  ∀ b ∈ db.bookings.rows, live b now → ¬ harm db b

section Guarded

variable {live : Booking → ℤ → Prop} {harm : Db → Booking → Prop}

theorem Db.Guarded.mono (hlive : Liveness live) {db : Db} {now now' : ℤ}
    (h : db.Guarded live harm now) (hle : now ≤ now') : db.Guarded live harm now' :=
  fun b hb hlive' => h b hb (hlive.mono hlive' hle)

theorem guarded_of_empty {db : Db} {now : ℤ} (h : db.bookings.rows = []) :
    db.Guarded live harm now := by
  intro b hb
  rw [h] at hb
  cases hb

/-- A quiet phase harms only what it revives. -/
theorem Quiet.guarded (hlive : Liveness live) (hharm : Settled harm)
    {revived : Booking → Prop} {db db' : Db} {now : ℤ} (h : Quiet revived db db')
    (hguarded : db.Guarded live harm now)
    (hrevived : ∀ b ∈ db.bookings.rows, revived b → now < b.endsAt → ¬ harm db b) :
    db'.Guarded live harm now := by
  intro b' hb' hlive'
  obtain ⟨b, hb, hf⟩ := h.bookings b' hb'
  rw [hharm h.setup hf.workerId hf.startsAt hf.endsAt]
  rcases hf.standing with ⟨hstatus, hexpires⟩ | hended | hrev
  · exact hguarded b hb (hlive.same hstatus hexpires hf.endsAt hlive')
  · exact absurd (hlive.standing hlive') hended
  · exact hrevived b hb hrev (hf.endsAt ▸ hlive.unended hlive')

/-- A reserving phase harms only what it places. -/
theorem Reserves.guarded (hharm : Settled harm) {now now' : ℤ} {override : Prop} {db db' : Db}
    {b : Booking} (h : Reserves now override db db' b) (hguarded : db.Guarded live harm now')
    (hnew : ¬ harm db b) : db'.Guarded live harm now' := by
  intro r hr hlive'
  rw [hharm h.setup rfl rfl rfl]
  rcases h.others r hr with rfl | ⟨hr, _⟩
  · exact hnew
  · exact hguarded r hr hlive'

/-- **One step keeps live bookings unharmed**, when what it revives, places or
configures does. -/
theorem guarded_step (hlive : Liveness live) (hharm : Settled harm) {w w' : World}
    {e : ℤ × Op} (h : w.db.Guarded live harm w.latest) (hstep : w.step e = some w')
    (hrevived : ∀ b ∈ w.db.bookings.rows, e.2.revives b → max w.latest e.1 < b.endsAt →
      ¬ harm w.db b)
    (hplaced : ∀ b db1, Quiet (fun _ => False) w.db db1 →
      Reserves e.1 (e.2.overrides = true) db1 w'.db b → ¬ harm db1 b)
    (hconfigured : apply w.db e.1 e.2 = .ok w'.db → e.2.configures →
      w.db.Guarded live harm (max w.latest e.1) → w'.db.Guarded live harm (max w.latest e.1)) :
    w'.db.Guarded live harm w'.latest := by
  obtain ⟨hlatest, happly | hsame⟩ := World.step_cases hstep
  · rw [hlatest]
    have hguarded := h.mono hlive (le_max_left w.latest e.1)
    cases apply_effect happly with
    | quiet hquiet => exact hquiet.guarded hlive hharm hguarded hrevived
    | reserves b db1 _ hquiet hres =>
        have hquietly := hquiet.guarded hlive hharm hguarded fun _ _ hfalse => hfalse.elim
        exact hres.guarded hharm hquietly (hplaced b db1 hquiet hres)
    | configures hop _ => exact hconfigured happly hop hguarded
  · rw [hlatest, hsame]
    exact h.mono hlive (le_max_left ..)

end Guarded

end Ziftbook
