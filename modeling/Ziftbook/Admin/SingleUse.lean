import Ziftbook.Admin.SecondFactor

/-!
# A code and a charge are single-use

What the log of calls says of the row: which charges it holds, up to which step
its secret has passed, which recovery codes are left. Each is kept by every call,
committed or cut off, on any clocks.
-/

namespace Ziftbook

open Foundation

/-! ## § Reading the log -/

/-- The charge a committed call made. -/
def LogEntry.charged (e : LogEntry) : Option Charge :=
  match e.committed, e.answer with
  | true, .charged _ c => some c
  | _, _ => none

/-- The charge a check was given. -/
def Call.charge : Call → Option Charge
  | .checkSecondFactor charge _ _ => charge
  | .checkTotpEnrolment charge _ _ _ => charge
  | _ => none

/-- The answers of a check that looked at the code. -/
def Reply.checked : Reply → Bool
  | .passed _ | .failed _ | .enrolled => true
  | _ => false

/-- The call accepted the charge: it checked a code against it. -/
def LogEntry.checks (e : LogEntry) (c : Charge) : Prop :=
  e.answer.checked = true ∧ e.call.charge = some c

/-- A check that committed uses its charge up. -/
def LogEntry.uses (e : LogEntry) (c : Charge) : Prop := e.committed = true ∧ e.checks c

/-- The answers that void the charges in flight. -/
def Reply.voids : Reply → Bool
  | .begun | .enrolled | .issued | .recovered _ true => true
  | _ => false

def LogEntry.voids (e : LogEntry) : Prop := e.committed = true ∧ e.answer.voids = true

/-- The charge was made before a call that voided those in flight. -/
def voided (c : Charge) : List LogEntry → Prop
  | [] => False
  | e :: earlier => voided c earlier ∨ (e.voids ∧ ∃ x ∈ earlier, x.charged = some c)

/-- The secret and the time step a committed pass was for. -/
def LogEntry.pass (e : LogEntry) : Option (ℕ × ℤ) :=
  match e.committed, e.answer, e.call with
  | true, .passed _, .checkSecondFactor _ proof (some k) => some (proof, k)
  | true, .enrolled, .checkTotpEnrolment _ proof (some k) _ => some (proof, k)
  | _, _, _ => none

/-- The recovery code a committed pass used. -/
def LogEntry.recovery (e : LogEntry) : Option ℕ :=
  match e.committed, e.answer, e.call with
  | true, .recovered _ _, .useRecoveryCode code => some code
  | _, _, _ => none

/-- The recovery codes a committed enrolment issued. -/
def LogEntry.issued (e : LogEntry) : List ℕ :=
  match e.committed, e.answer, e.call with
  | true, .enrolled, .checkTotpEnrolment _ _ _ codes => codes
  | _, _, _ => []

/-- How often the code has passed. -/
def Account.recoveries (a : Account) (code : ℕ) : ℕ :=
  a.log.countP fun e => e.recovery = some code

/-- How many enrolments issued it. -/
def Account.issues (a : Account) (code : ℕ) : ℕ := a.log.countP fun e => code ∈ e.issued

/-! ## § Charges -/

structure Account.ChargesKept (a : Account) : Prop where
  made : ∀ e ∈ a.log, ∀ c ∈ e.charged, c.serial < a.serials
  used : ∀ e ∈ a.log, ∀ c, e.uses c → c.serial < a.serials
  held : ∀ c ∈ a.factor.charges, (∃ e ∈ a.log, e.charged = some c) ∧
    (∀ e ∈ a.log, ¬ e.uses c) ∧ ¬ voided c a.log

theorem not_voided_of_unmade {c : Charge} {log : List LogEntry}
    (h : ∀ e ∈ log, e.charged ≠ some c) : ¬ voided c log := by
  induction log with
  | nil => exact id
  | cons e log ih =>
      rintro (hv | ⟨_, x, hx, hxc⟩)
      · exact ih (fun x hx => h x (List.mem_cons_of_mem _ hx)) hv
      · exact h x (List.mem_cons_of_mem _ hx) hxc

/-- What a call must do to the charges held: it uses only one of them, makes only a
new one, and leaves only the new one and those it neither used nor voided. -/
structure Account.ChargesOnly (a : Account) (f : Factor) (e : LogEntry) : Prop where
  uses : ∀ c, e.uses c → c ∈ a.factor.charges
  makes : ∀ c ∈ e.charged, c.serial = a.serials ∧ ¬ e.voids ∧ ∀ d, ¬ e.uses d
  leaves : ∀ c ∈ f.charges,
    (c ∈ a.factor.charges ∧ ¬ e.uses c ∧ ¬ e.voids) ∨ e.charged = some c

theorem Account.ChargesKept.extend {a : Account} (h : a.ChargesKept) {e : LogEntry} {f : Factor}
    (honly : a.ChargesOnly f e) :
    Account.ChargesKept ⟨f, a.serials + 1, a.secrets + 1, e :: a.log⟩ := by
  have hserial : ∀ c ∈ a.factor.charges, c.serial < a.serials := by
    intro c hc
    obtain ⟨x, hx, hxc⟩ := (h.held c hc).1
    exact h.made x hx c hxc
  refine ⟨fun x hx c hc => ?_, fun x hx c hu => ?_, fun c hc => ?_⟩
  · rcases List.mem_cons.mp hx with rfl | hx
    · rw [(honly.makes c hc).1]
      exact Nat.lt_succ_self _
    · exact (h.made x hx c hc).trans (Nat.lt_succ_self _)
  · rcases List.mem_cons.mp hx with rfl | hx
    · exact (hserial c (honly.uses c hu)).trans (Nat.lt_succ_self _)
    · exact (h.used x hx c hu).trans (Nat.lt_succ_self _)
  · rcases honly.leaves c hc with ⟨hmem, hunused, hnovoid⟩ | hnew
    · obtain ⟨⟨x, hx, hxc⟩, hearlier, hvoid⟩ := h.held c hmem
      refine ⟨⟨x, List.mem_cons_of_mem _ hx, hxc⟩, fun y hy => ?_, ?_⟩
      · rcases List.mem_cons.mp hy with rfl | hy
        · exact hunused
        · exact hearlier y hy
      · rintro (hv | ⟨hv, _⟩)
        · exact hvoid hv
        · exact hnovoid hv
    · -- The charge is new, so nothing earlier in the log is of it.
      obtain ⟨hc', hnovoid, hnouse⟩ := honly.makes c hnew
      refine ⟨⟨e, List.mem_cons_self .., hnew⟩, fun y hy => ?_, ?_⟩
      · rcases List.mem_cons.mp hy with rfl | hy
        · exact hnouse c
        · intro hu
          have := h.used y hy c hu
          omega
      · rintro (hv | ⟨hv, _⟩)
        · refine not_voided_of_unmade (fun x hx hxc => ?_) hv
          have := h.made x hx c hxc
          omega
        · exact hnovoid hv

/-- A call that found nothing to do, or was cut off. -/
theorem chargesOnly_of_idle {a : Account} {f : Factor} {e : LogEntry}
    (hf : f.charges = a.factor.charges) (h : e.committed = false ∨ e.answer.idle) :
    a.ChargesOnly f e := by
  obtain ⟨now, call, answer, committed⟩ := e
  have huses : ∀ c, ¬ LogEntry.uses ⟨now, call, answer, committed⟩ c := by
    rintro c ⟨hcommitted, hchecked, _⟩
    rcases h with h | h
    · exact absurd (h.symm.trans hcommitted) (by decide)
    · cases answer <;> first | exact h | cases hchecked
  have hvoids : ¬ LogEntry.voids ⟨now, call, answer, committed⟩ := by
    rintro ⟨hcommitted, hvoid⟩
    rcases h with h | h
    · exact absurd (h.symm.trans hcommitted) (by decide)
    · cases answer <;> first | exact h | cases hvoid
  have hcharged : LogEntry.charged ⟨now, call, answer, committed⟩ = none := by
    rcases h with h | h
    · subst h
      rfl
    · cases answer <;> first | exact h.elim | (cases committed <;> rfl)
  refine ⟨fun c hu => absurd hu (huses c), fun c hc => ?_, fun c hc => ?_⟩
  · rw [hcharged] at hc
    cases hc
  · exact Or.inl ⟨hf ▸ hc, huses c, hvoids⟩

theorem mem_without {f : Factor} {c d : Charge} :
    d ∈ f.without (some c) ↔ d ∈ f.charges ∧ d ≠ c := by
  simp [Factor.without]

theorem mem_charging {f : Factor} {now : ℤ} {c d : Charge} (h : d ∈ f.charging now c) :
    d ∈ f.charges ∨ d = c := by
  rw [Factor.charging, List.mem_append, List.mem_singleton, List.mem_filter] at h
  exact h.imp_left And.left

theorem not_uses {e : LogEntry} {c : Charge} (h : e.answer.checked = false) : ¬ e.uses c := by
  rintro ⟨_, hchecked, _⟩
  rw [h] at hchecked
  cases hchecked

theorem not_voids {e : LogEntry} (h : e.answer.voids = false) : ¬ e.voids := by
  rintro ⟨_, hvoids⟩
  rw [h] at hvoids
  cases hvoids

/-- A charge taken, of either kind. -/
theorem chargesOnly_of_charged {a : Account} {f : Factor} {now madeAt : ℤ} {call : Call}
    {failures : ℕ} (hf : f.charges = a.factor.charging now ⟨madeAt, a.serials⟩) :
    a.ChargesOnly f ⟨now, call, .charged failures ⟨madeAt, a.serials⟩, true⟩ := by
  refine ⟨fun c hu => absurd hu (not_uses rfl), fun c hc => ?_, fun c hc => ?_⟩
  · cases hc
    exact ⟨rfl, not_voids rfl, fun d => not_uses rfl⟩
  · rw [hf] at hc
    rcases mem_charging hc with hc | rfl
    · exact Or.inl ⟨hc, not_uses rfl, not_voids rfl⟩
    · exact Or.inr rfl

/-- A check of either kind that uses its charge up and voids no other. -/
theorem chargesOnly_of_checked {a : Account} {f : Factor} {e : LogEntry} {c : Charge}
    (hf : f.charges = a.factor.without (some c)) (hmem : c ∈ a.factor.charges)
    (hcall : e.call.charge = some c) (hcharged : e.charged = none)
    (hvoids : e.answer.voids = false) : a.ChargesOnly f e := by
  have huses : ∀ d, e.uses d → d = c := fun d hu =>
    Option.some.inj (hu.2.2.symm.trans hcall)
  refine ⟨fun d hu => huses d hu ▸ hmem, fun d hd => ?_, fun d hd => Or.inl ?_⟩
  · rw [hcharged] at hd
    cases hd
  · rw [hf] at hd
    obtain ⟨hd, hne⟩ := mem_without.mp hd
    exact ⟨hd, fun hu => hne (huses d hu), not_voids hvoids⟩

/-- What a committed call does to the charges. -/
theorem chargesOnly_of_called {a : Account} {now : ℤ} {call : Call} {f : Factor}
    {answer : Reply} (h : a.factor.Called a.serials a.secrets now call f answer) :
    a.ChargesOnly f ⟨now, call, answer, true⟩ := by
  cases h with
  | idle call answer hidle => exact chargesOnly_of_idle rfl (Or.inr hidle)
  | charged madeAt => exact chargesOnly_of_charged rfl
  | enrolCharged madeAt => exact chargesOnly_of_charged rfl
  | passed c proof k _ hmem => exact chargesOnly_of_checked rfl hmem rfl rfl rfl
  | failed c proof step _ hmem => exact chargesOnly_of_checked rfl hmem rfl rfl rfl
  | enrolFailed c proof step codes _ hmem => exact chargesOnly_of_checked rfl hmem rfl rfl rfl
  | enrolled c proof k codes hsecret _ hmem =>
      refine ⟨fun d hu => ?_, fun _ hd => (by cases hd), fun _ hd => (by cases hd)⟩
      cases hu.2.2
      exact hmem
  | begun ticket =>
      exact ⟨fun _ hu => absurd hu (not_uses rfl), fun _ hd => (by cases hd),
        fun _ hd => (by cases hd)⟩
  | issued ticket =>
      exact ⟨fun _ hu => absurd hu (not_uses rfl), fun _ hd => (by cases hd),
        fun _ hd => (by cases hd)⟩
  | recovered code hconfirmed hcode =>
      refine ⟨fun _ hu => absurd hu (not_uses rfl), fun _ hd => (by cases hd), fun d hd => ?_⟩
      rw [useRecoveryCode_eq hconfirmed hcode] at hd
      by_cases hlocked : lockLevel ≤ a.factor.failedAttempts
      · simp [hlocked] at hd
      · simp only [hlocked, if_false] at hd
        exact Or.inl ⟨hd, not_uses rfl, not_voids (by simp [Reply.voids, hlocked])⟩

theorem chargesKept_step {a a' : Account} {m : Made} (h : a.ChargesKept)
    (hstep : a.step m = some a') : a'.ChargesKept := by
  cases hstep
  refine h.extend ?_
  obtain ⟨now, live, committed, call⟩ := m
  cases committed with
  | false => exact chargesOnly_of_idle rfl (Or.inl rfl)
  | true => exact chargesOnly_of_called (called_answer a _)

/-! ## § Time steps -/

structure Account.StepsKept (a : Account) : Prop where
  secret : ∀ σ ∈ a.factor.secret, σ < a.secrets
  proved : ∀ e ∈ a.log, ∀ p ∈ e.pass, p.1 < a.secrets
  steps : ∀ e ∈ a.log, ∀ p ∈ e.pass, a.factor.secret = some p.1 →
    a.factor.confirmedAt ≠ none ∧ p.2 ≤ a.factor.lastStep
  ticket : a.factor.ticketHash ≠ none → a.factor.confirmedAt = none

/-- A call that passes nothing and leaves the secret, its steps and the ticket. -/
theorem Account.StepsKept.idle {a : Account} (h : a.StepsKept) {e : LogEntry} {f : Factor}
    (hpass : e.pass = none) (hsecret : f.secret = a.factor.secret)
    (hconfirmed : f.confirmedAt = a.factor.confirmedAt) (hlast : f.lastStep = a.factor.lastStep)
    (hticket : f.ticketHash = a.factor.ticketHash) :
    Account.StepsKept ⟨f, a.serials + 1, a.secrets + 1, e :: a.log⟩ := by
  refine ⟨fun σ hσ => ?_, fun x hx p hp => ?_, fun x hx p hp hp1 => ?_, fun ht => ?_⟩
  · exact (h.secret σ (hsecret ▸ hσ)).trans (Nat.lt_succ_self _)
  · rcases List.mem_cons.mp hx with rfl | hx
    · rw [hpass] at hp
      cases hp
    · exact (h.proved x hx p hp).trans (Nat.lt_succ_self _)
  · rcases List.mem_cons.mp hx with rfl | hx
    · rw [hpass] at hp
      cases hp
    · show f.confirmedAt ≠ none ∧ p.2 ≤ f.lastStep
      rw [hconfirmed, hlast]
      exact h.steps x hx p hp (hsecret ▸ hp1)
  · show f.confirmedAt = none
    rw [hconfirmed]
    exact h.ticket (hticket ▸ ht)

theorem pass_eq_none_of_idle {e : LogEntry} (h : e.committed = false ∨ e.answer.idle) :
    e.pass = none := by
  obtain ⟨now, call, answer, committed⟩ := e
  rcases h with h | h
  · subst h
    rfl
  · cases answer <;> first | exact h.elim | (cases committed <;> rfl)

/-- What a committed call does to the secret and its steps. -/
theorem Account.StepsKept.called {a : Account} (h : a.StepsKept) {now : ℤ} {call : Call}
    {f : Factor} {answer : Reply}
    (hcalled : a.factor.Called a.serials a.secrets now call f answer) :
    Account.StepsKept
      ⟨f, a.serials + 1, a.secrets + 1, ⟨now, call, answer, true⟩ :: a.log⟩ := by
  cases hcalled with
  | idle call answer hidle =>
      exact h.idle (pass_eq_none_of_idle (Or.inr hidle)) rfl rfl rfl rfl
  | charged madeAt => exact h.idle rfl rfl rfl rfl rfl
  | enrolCharged madeAt => exact h.idle rfl rfl rfl rfl rfl
  | failed c proof step => exact h.idle rfl rfl rfl rfl rfl
  | enrolFailed c proof step codes => exact h.idle rfl rfl rfl rfl rfl
  | recovered code hconfirmed hcode =>
      rw [useRecoveryCode_eq hconfirmed hcode]
      exact h.idle rfl rfl rfl rfl rfl
  | passed c proof k hconfirmed _ _ hsecret hlast =>
      refine ⟨fun σ hσ => (h.secret σ hσ).trans (Nat.lt_succ_self _), fun x hx p hp => ?_,
        fun x hx p hp hp1 => ⟨hconfirmed, ?_⟩, h.ticket⟩
      · rcases List.mem_cons.mp hx with rfl | hx
        · cases hp
          exact (h.secret proof hsecret).trans (Nat.lt_succ_self _)
        · exact (h.proved x hx p hp).trans (Nat.lt_succ_self _)
      · rcases List.mem_cons.mp hx with rfl | hx
        · cases hp
          exact le_rfl
        · exact ((h.steps x hx p hp hp1).2).trans hlast.le
  | enrolled c proof k codes hnone henrolling _ _ hsecret =>
      refine ⟨fun σ hσ => (h.secret σ hσ).trans (Nat.lt_succ_self _), fun x hx p hp => ?_,
        fun x hx p hp hp1 => ⟨by simp [Factor.confirm], ?_⟩, fun ht => absurd rfl ht⟩
      · rcases List.mem_cons.mp hx with rfl | hx
        · cases hp
          exact (h.secret proof hsecret).trans (Nat.lt_succ_self _)
        · exact (h.proved x hx p hp).trans (Nat.lt_succ_self _)
      · rcases List.mem_cons.mp hx with rfl | hx
        · cases hp
          exact le_rfl
        · -- Until now the factor was not confirmed, so its secret had passed nothing.
          exact absurd henrolling.1 (h.steps x hx p hp hp1).1
  | begun ticket enrolled hticket =>
      have hnone := h.ticket (by simp [hticket])
      refine ⟨fun σ hσ => ?_, fun x hx p hp => ?_, fun x hx p hp hp1 => ?_, fun _ => hnone⟩
      · cases hσ
        exact Nat.lt_succ_self _
      · rcases List.mem_cons.mp hx with rfl | hx
        · cases hp
        · exact (h.proved x hx p hp).trans (Nat.lt_succ_self _)
      · rcases List.mem_cons.mp hx with rfl | hx
        · cases hp
        · exact absurd (Option.some.inj hp1) (h.proved x hx p hp).ne'
  | issued ticket =>
      refine ⟨fun σ hσ => (by cases hσ), fun x hx p hp => ?_, fun x hx p hp hp1 => (by cases hp1),
        fun _ => rfl⟩
      rcases List.mem_cons.mp hx with rfl | hx
      · cases hp
      · exact (h.proved x hx p hp).trans (Nat.lt_succ_self _)

theorem stepsKept_step {a a' : Account} {m : Made} (h : a.StepsKept)
    (hstep : a.step m = some a') : a'.StepsKept := by
  cases hstep
  obtain ⟨now, live, committed, call⟩ := m
  cases committed with
  | false => exact h.idle (pass_eq_none_of_idle (Or.inl rfl)) rfl rfl rfl rfl
  | true => exact h.called (called_answer a _)

/-! ## § Recovery codes -/

/-- A code that is left has been issued once more than it has passed. -/
def Account.CodesKept (a : Account) : Prop :=
  ∀ code, a.recoveries code + (if code ∈ a.factor.recoveryCodeHashes then 1 else 0) ≤
    a.issues code

/-- A call uses only a code that is left, and leaves only those and the ones it
issues. -/
def Account.CodesOnly (a : Account) (f : Factor) (e : LogEntry) : Prop :=
  ∀ code, (if e.recovery = some code then 1 else 0) +
      (if code ∈ f.recoveryCodeHashes then 1 else 0) ≤
    (if code ∈ a.factor.recoveryCodeHashes then 1 else 0) + if code ∈ e.issued then 1 else 0

theorem Account.CodesKept.extend {a : Account} (h : a.CodesKept) {f : Factor} {e : LogEntry}
    (honly : a.CodesOnly f e) :
    Account.CodesKept ⟨f, a.serials + 1, a.secrets + 1, e :: a.log⟩ := by
  intro code
  have hkept := h code
  have hcall := honly code
  simp only [Account.recoveries, Account.issues, List.countP_cons, decide_eq_true_eq] at hkept ⊢
  omega

theorem codesOnly_of_same {a : Account} {f : Factor} {e : LogEntry} (hrecovery : e.recovery = none)
    (hf : f.recoveryCodeHashes = a.factor.recoveryCodeHashes) : a.CodesOnly f e := by
  intro code
  rw [hrecovery, hf]
  simp

theorem recovery_eq_none_of_idle {e : LogEntry} (h : e.committed = false ∨ e.answer.idle) :
    e.recovery = none := by
  obtain ⟨now, call, answer, committed⟩ := e
  rcases h with h | h
  · subst h
    rfl
  · cases answer <;> first | exact h.elim | (cases committed <;> rfl)

theorem codesOnly_of_called {a : Account} {now : ℤ} {call : Call} {f : Factor}
    {answer : Reply} (h : a.factor.Called a.serials a.secrets now call f answer) :
    a.CodesOnly f ⟨now, call, answer, true⟩ := by
  cases h with
  | idle call answer hidle =>
      exact codesOnly_of_same (recovery_eq_none_of_idle (Or.inr hidle)) rfl
  | enrolled c proof k codes =>
      intro code
      show (if (none : Option ℕ) = some code then 1 else 0) + (if code ∈ codes then 1 else 0) ≤
        _ + if code ∈ codes then 1 else 0
      simp
  | recovered used hconfirmed hused =>
      intro code
      rw [useRecoveryCode_eq hconfirmed hused]
      show (if some used = some code then 1 else 0) + _ ≤ _ + if code ∈ ([] : List ℕ) then 1 else 0
      by_cases hcode : used = code
      · subst hcode
        simp [hused]
      · have hcode' : code ≠ used := fun h => hcode h.symm
        simp [hcode, hcode']
  | issued ticket =>
      intro code
      show (if (none : Option ℕ) = some code then 1 else 0) +
        (if code ∈ ([] : List ℕ) then 1 else 0) ≤ _
      simp
  | _ => exact codesOnly_of_same rfl rfl

theorem codesKept_step {a a' : Account} {m : Made} (h : a.CodesKept)
    (hstep : a.step m = some a') : a'.CodesKept := by
  cases hstep
  refine h.extend ?_
  obtain ⟨now, live, committed, call⟩ := m
  cases committed with
  | false => exact codesOnly_of_same (recovery_eq_none_of_idle (Or.inl rfl)) rfl
  | true => exact codesOnly_of_called (called_answer a _)

/-! ## § Single use -/

theorem chargesKept_blank : (Account.start .blank).ChargesKept := by
  refine ⟨?_, ?_, ?_⟩ <;> simp [Account.start, Factor.blank]

theorem stepsKept_blank : (Account.start .blank).StepsKept := by
  refine ⟨?_, ?_, ?_, ?_⟩ <;> simp [Account.start, Factor.blank]

theorem codesKept_blank : (Account.start .blank).CodesKept := by
  intro code
  simp [Account.start, Factor.blank, Account.recoveries, Account.issues]

/-- A check that looked at the code held its charge, and the charge was live. -/
theorem held_of_checks {a : Account} {m : Made} {c : Charge} (h : (a.entry m).checks c) :
    c ∈ a.factor.charges ∧ c.live m.now := by
  obtain ⟨now, live, committed, call⟩ := m
  obtain ⟨hchecked, hcharge⟩ := h
  have hcalled := called_answer a ⟨now, live, committed, call⟩
  simp only [Account.entry] at hchecked hcharge
  generalize (a.answer ⟨now, live, committed, call⟩).1 = f at hcalled
  generalize (a.answer ⟨now, live, committed, call⟩).2 = answer at hcalled hchecked
  cases hcalled with
  | idle call answer hidle => cases answer <;> first | exact hidle.elim | cases hchecked
  | passed d proof k _ hmem hlive =>
      cases hcharge
      exact ⟨hmem, hlive⟩
  | failed d proof step _ hmem hlive =>
      cases hcharge
      exact ⟨hmem, hlive⟩
  | enrolled d proof k codes _ _ hmem hlive =>
      cases hcharge
      exact ⟨hmem, hlive⟩
  | enrolFailed d proof step codes _ hmem hlive =>
      cases hcharge
      exact ⟨hmem, hlive⟩
  | _ => cases hchecked

/-- A pass is for the row's secret, at a step after every one that passed before. -/
theorem Account.StepsKept.lt_of_pass {a : Account} (h : a.StepsKept) {m : Made} {σ : ℕ} {k : ℤ}
    (hpass : (a.entry m).pass = some (σ, k)) :
    ∀ e ∈ a.log, ∀ j, e.pass = some (σ, j) → j < k := by
  obtain ⟨now, live, committed, call⟩ := m
  cases committed with
  | false => cases hpass
  | true =>
      have hcalled := called_answer a ⟨now, live, true, call⟩
      simp only [Account.entry] at hpass
      generalize (a.answer ⟨now, live, true, call⟩).1 = f at hcalled
      generalize (a.answer ⟨now, live, true, call⟩).2 = answer at hcalled hpass
      cases hcalled with
      | idle call answer hidle =>
          rw [pass_eq_none_of_idle (Or.inr hidle)] at hpass
          cases hpass
      | passed c proof k' _ _ _ hsecret hlast =>
          cases hpass
          intro e he j hj
          have := (h.steps e he _ hj hsecret).2
          omega
      | enrolled c proof k' codes _ henrolling _ _ hsecret =>
          cases hpass
          intro e he j hj
          exact absurd henrolling.1 (h.steps e he _ hj hsecret).1
      | _ => cases hpass

/-- **Single use.** A check accepts a charge only if one was made, no check has used
it, and nothing since voided it; a secret passes at ever later steps; a recovery code
passes at most as often as it was issued; and a call cut off leaves the row. -/
theorem single_use {ms : List Made} {a : Account}
    (hrun : (Account.start .blank).run ms = some a) :
    (∀ m c, (a.entry m).checks c → (∃ e ∈ a.log, e.charged = some c) ∧
      (∀ e ∈ a.log, ¬ e.uses c) ∧ ¬ voided c a.log) ∧
    (∀ m σ k, (a.entry m).pass = some (σ, k) → ∀ e ∈ a.log, ∀ j, e.pass = some (σ, j) → j < k) ∧
    (∀ code, a.recoveries code ≤ a.issues code) ∧
    ∀ m a', m.committed = false → a.step m = some a' → a'.factor = a.factor := by
  have hcharges : a.ChargesKept := Runs.run_invariant' (I := Account.ChargesKept)
    (fun _ _ _ => chargesKept_step) chargesKept_blank hrun
  have hsteps : a.StepsKept := Runs.run_invariant' (I := Account.StepsKept)
    (fun _ _ _ => stepsKept_step) stepsKept_blank hrun
  have hcodes : a.CodesKept := Runs.run_invariant' (I := Account.CodesKept)
    (fun _ _ _ => codesKept_step) codesKept_blank hrun
  refine ⟨fun m c hc => hcharges.held c (held_of_checks hc).1, fun m σ k => hsteps.lt_of_pass,
    fun code => (Nat.le_add_right _ _).trans (hcodes code), fun m a' hcut hstep => ?_⟩
  cases hstep
  simp [hcut]

/-- An admin enrols, and passes with a code a minute later. -/
def enrolledAndPassed : List Made :=
  [⟨0, false, true, .issueTicket 7⟩,
    ⟨second, true, true, .beginTotpEnrolment 7 false⟩,
    ⟨2 * second, true, true, .chargeTotpEnrolment (2 * second)⟩,
    ⟨3 * second, true, true, .checkTotpEnrolment (some ⟨2 * second, 2⟩) 1 (some 0) (List.range 10)⟩,
    ⟨minute, true, true, .chargeSecondFactor minute⟩,
    ⟨minute, true, true, .checkSecondFactor (some ⟨minute, 4⟩) 1 (some 2)⟩]

theorem single_use_enrolled : ∃ a, (Account.start .blank).run enrolledAndPassed = some a ∧
    (a.log.filterMap LogEntry.pass) = [(1, 2), (1, 0)] ∧
    ∀ m c, (a.entry m).checks c → ∀ e ∈ a.log, ¬ e.uses c :=
  have hrun := (Option.some_get
    (by decide : ((Account.start .blank).run enrolledAndPassed).isSome)).symm
  ⟨_, hrun, by decide, fun m c h => ((single_use hrun).1 m c h).2.1⟩

end Ziftbook
