import Ziftbook.Foundation.Runs
import Ziftbook.Zone

/-!
# An admin's second factor

The database functions of migrations 0083 and 0084 on one admin's row of
`second_factors`, and the CLI's ticket (`app/admin.py`). Each takes the row's lock,
so calls run one after another; each may also be cut off before its commit.
`live` is what `live_admin_user` answered: the caller's session was live.

Secrets, tickets and codes are the numbers they are told apart by; the row keeps
the hash of a value as the value itself.
-/

namespace Ziftbook

open Foundation

/-! ## § The row -/

/-- A uuidv7: its timestamp says when it was made. -/
structure Charge where
  madeAt : ℤ
  serial : ℕ
deriving DecidableEq, Repr

structure Factor where
  ticketHash : Option ℕ
  ticketExpiresAt : ℤ
  /-- `secret_ct` and `proof_hash`. -/
  secret : Option ℕ
  confirmedAt : Option ℤ
  lastStep : ℤ
  failedAttempts : ℕ
  failuresLeakedAt : Option ℤ
  failuresSincePass : ℕ
  recoveryCodeHashes : List ℕ
  charges : List Charge
  confirmed_has_secret : confirmedAt ≠ none → secret ≠ none
deriving DecidableEq

/-- `LEAK_SECONDS`. -/
def leakLength : ℤ := 8 * 60 * minute

/-- `CHARGE_LIFE`. -/
def chargeLife : ℤ := 2 * minute

/-- The count that locks. -/
def lockLevel : ℕ := 10

/-- `NOW_STEP`. -/
def nowStep (now : ℤ) : ℤ := now / (30 * second)

/-- Not yet past its life. -/
def Charge.live (c : Charge) (now : ℤ) : Prop := now - chargeLife < c.madeAt

instance (c : Charge) (now : ℤ) : Decidable (c.live now) := inferInstanceAs (Decidable (_ < _))

/-- `p_charge = ANY (f.charges)`, and live. -/
def Factor.holds (f : Factor) (charge : Option Charge) (now : ℤ) : Prop :=
  ∃ c ∈ charge, c ∈ f.charges ∧ c.live now

instance Factor.decidableHolds (f : Factor) (charge : Option Charge) (now : ℤ) :
    Decidable (f.holds charge now) :=
  inferInstanceAs (Decidable (∃ c ∈ charge, _))

/-- The charges kept beside a new one: expired ones go. -/
def Factor.charging (f : Factor) (now : ℤ) (charge : Charge) : List Charge :=
  (f.charges.filter fun c => c.live now) ++ [charge]

/-- `array_remove(x.charges, p_charge)`. -/
def Factor.without (f : Factor) (charge : Option Charge) : List Charge :=
  f.charges.filter fun c => some c ≠ charge

/-- The step is within one of the clock's. -/
def nearStep (now step : ℤ) : Prop := nowStep now - 1 ≤ step ∧ step ≤ nowStep now + 1

instance (now step : ℤ) : Decidable (nearStep now step) := inferInstanceAs (Decidable (_ ∧ _))

/-! ## § What a call answers -/

inductive Reply
  | none
  | charged (failures : ℕ) (charge : Charge)
  | locked (failures : ℕ)
  | passed (failures : ℕ)
  | failed (failures : ℕ)
  | enrolled
  | begun | invalidTicket | alreadyEnrolled
  | recovered (codesLeft : ℕ) (wasLocked : Bool)
  | issued
  | tenRecoveryCodes
deriving DecidableEq, Repr

/-! ## § The confirmed factor -/

/-- `v_leaked`: whole intervals since the anchor. -/
def Factor.leaked (f : Factor) (now : ℤ) : ℕ :=
  ((now - f.failuresLeakedAt.getD now) / leakLength).toNat

/-- `v_level`. -/
def Factor.level (f : Factor) (now : ℤ) : ℕ :=
  f.failedAttempts - min (f.leaked now) f.failedAttempts

/-- `v_anchor`. -/
def Factor.anchor (f : Factor) (now : ℤ) : ℤ :=
  if f.level now = 0 then now else f.failuresLeakedAt.getD now + f.leaked now * leakLength

/-- The row one failure on, an attempt charged. -/
def Factor.charge (f : Factor) (now : ℤ) (charge : Charge) : Factor :=
  { f with
    failedAttempts := f.level now + 1
    failuresLeakedAt := some (f.anchor now)
    failuresSincePass := f.failuresSincePass + 1
    charges := f.charging now charge }

/-- `charge_second_factor`, on the row locked. -/
def Factor.chargeSecondFactor (f : Factor) (now : ℤ) (charge : Charge) : Factor × Reply :=
  if f.confirmedAt = none then (f, .none)
  else if lockLevel ≤ f.failedAttempts then (f, .locked f.failedAttempts)
  else (f.charge now charge, .charged (f.level now + 1) charge)

/-- The code is the secret's at a step not used before. -/
def Factor.accepts (f : Factor) (now : ℤ) (proof : ℕ) (step : Option ℤ) : Prop :=
  f.secret = some proof ∧ ∃ k ∈ step, f.lastStep < k ∧ nearStep now k

instance (f : Factor) (now : ℤ) (proof : ℕ) (step : Option ℤ) :
    Decidable (f.accepts now proof step) :=
  inferInstanceAs (Decidable (_ ∧ ∃ k ∈ step, _))

/-- The row after a pass: the attempt its charge counted is given back. -/
def Factor.pass (f : Factor) (charge : Option Charge) (step : ℤ) : Factor :=
  { f with
    lastStep := step
    failuresSincePass := 0
    failedAttempts := f.failedAttempts - 1
    charges := f.without charge }

/-- `check_second_factor`: the charge is used up either way. -/
def Factor.checkSecondFactor (f : Factor) (now : ℤ) (charge : Option Charge) (proof : ℕ)
    (step : Option ℤ) : Factor × Reply :=
  if f.confirmedAt = none then (f, .none)
  else if ¬ f.holds charge now then (f, .none)
  else if f.accepts now proof step then
    (f.pass charge (step.getD 0), .passed (f.failuresSincePass - 1))
  else ({ f with charges := f.without charge }, .failed f.failedAttempts)

/-- `use_recovery_code`: a match lifts a lock, leaving 9, and voids the attempts in
flight. -/
def Factor.useRecoveryCode (f : Factor) (now : ℤ) (code : ℕ) : Factor × Reply :=
  if f.confirmedAt = none then (f, .none)
  else if code ∉ f.recoveryCodeHashes then (f, .none)
  else
    let codes := f.recoveryCodeHashes.filter (· ≠ code)
    let wasLocked : Bool := lockLevel ≤ f.failedAttempts
    ({ f with
      recoveryCodeHashes := codes
      failedAttempts := min f.failedAttempts 9
      failuresLeakedAt := if wasLocked then some now else f.failuresLeakedAt
      failuresSincePass := 0
      charges := if wasLocked then [] else f.charges },
      .recovered codes.length wasLocked)

/-! ## § Enrolment -/

/-- An enrolment begun, and its ticket not expired. -/
def Factor.enrolling (f : Factor) (now : ℤ) : Prop :=
  f.confirmedAt = none ∧ f.secret ≠ none ∧ f.ticketHash ≠ none ∧ now < f.ticketExpiresAt

instance (f : Factor) (now : ℤ) : Decidable (f.enrolling now) :=
  inferInstanceAs (Decidable (_ ∧ _ ∧ _ ∧ _))

/-- `charge_totp_enrolment`: a plain count, no leak. -/
def Factor.chargeTotpEnrolment (f : Factor) (now : ℤ) (charge : Charge) : Factor × Reply :=
  if ¬ f.enrolling now then (f, .none)
  else if lockLevel ≤ f.failedAttempts then (f, .locked f.failedAttempts)
  else
    ({ f with failedAttempts := f.failedAttempts + 1, charges := f.charging now charge },
      .charged (f.failedAttempts + 1) charge)

/-- The row confirmed: a new secret starts with no failures and no attempt in
flight. -/
def Factor.confirm (f : Factor) (now step : ℤ) (codes : List ℕ) (h : f.secret ≠ none) :
    Factor :=
  { f with
    confirmedAt := some now
    lastStep := step
    failedAttempts := 0
    failuresLeakedAt := none
    failuresSincePass := 0
    charges := []
    ticketHash := none
    recoveryCodeHashes := codes
    confirmed_has_secret := fun _ => h }

/-- `check_totp_enrolment`. -/
def Factor.checkTotpEnrolment (f : Factor) (now : ℤ) (charge : Option Charge) (proof : ℕ)
    (step : Option ℤ) (codes : List ℕ) : Factor × Reply :=
  if codes.length ≠ 10 then (f, .tenRecoveryCodes)
  else if ¬ f.enrolling now then (f, .none)
  else if ¬ f.holds charge now then (f, .none)
  else if h : f.secret = some proof ∧ ∃ k ∈ step, nearStep now k then
    (f.confirm now (step.getD 0) codes (by simp [h.1]), .enrolled)
  else ({ f with charges := f.without charge }, .failed f.failedAttempts)

/-- `begin_totp_enrolment`: a new secret for the ticket, the count kept. Its first
statement looked for a confirmed factor, and saw `enrolled`; a confirmation may have
committed since. -/
def Factor.beginTotpEnrolment (f : Factor) (now : ℤ) (ticket secret : ℕ) (enrolled : Bool) :
    Factor × Reply :=
  if enrolled then (f, .alreadyEnrolled)
  else if f.ticketHash = some ticket ∧ now < f.ticketExpiresAt ∧ f.failedAttempts < lockLevel then
    ({ f with
      secret := some secret
      lastStep := 0
      charges := []
      confirmed_has_secret := fun _ => by simp }, .begun)
  else (f, .invalidTicket)

/-- The row before the CLI first issued a ticket. -/
def Factor.blank : Factor := ⟨none, 0, none, none, 0, 0, none, 0, [], [], by simp⟩

/-- `ISSUE_TICKET`: wipes the factor, its count and the attempts in flight. -/
def Factor.issueTicket (f : Factor) (now : ℤ) (ticket : ℕ) : Factor :=
  { f with
    ticketHash := some ticket
    ticketExpiresAt := now + 60 * minute
    secret := none
    confirmedAt := none
    lastStep := 0
    failedAttempts := 0
    recoveryCodeHashes := []
    charges := []
    confirmed_has_secret := by simp }

/-! ## § Calls -/

inductive Call
  | chargeSecondFactor (madeAt : ℤ)
  | checkSecondFactor (charge : Option Charge) (proof : ℕ) (step : Option ℤ)
  | chargeTotpEnrolment (madeAt : ℤ)
  | checkTotpEnrolment (charge : Option Charge) (proof : ℕ) (step : Option ℤ) (codes : List ℕ)
  | beginTotpEnrolment (ticket : ℕ) (enrolled : Bool)
  | useRecoveryCode (code : ℕ)
  | issueTicket (ticket : ℕ)
deriving DecidableEq

/-- A call on the row, with the uuid and the secret it may make. -/
def Factor.call (f : Factor) (serial secret : ℕ) (now : ℤ) : Call → Factor × Reply
  | .chargeSecondFactor madeAt => f.chargeSecondFactor now ⟨madeAt, serial⟩
  | .checkSecondFactor charge proof step => f.checkSecondFactor now charge proof step
  | .chargeTotpEnrolment madeAt => f.chargeTotpEnrolment now ⟨madeAt, serial⟩
  | .checkTotpEnrolment charge proof step codes => f.checkTotpEnrolment now charge proof step codes
  | .beginTotpEnrolment ticket enrolled => f.beginTotpEnrolment now ticket secret enrolled
  | .useRecoveryCode code => f.useRecoveryCode now code
  | .issueTicket ticket => (f.issueTicket now ticket, .issued)

/-- What a call answers a session that is not live: its queries find no row. -/
def Call.unseen : Call → Reply
  | .checkTotpEnrolment _ _ _ codes => if codes.length ≠ 10 then .tenRecoveryCodes else .none
  | .beginTotpEnrolment .. => .invalidTicket
  | _ => .none

/-- A call made: on its clock, by a live session or not, and committed or cut off. -/
structure Made where
  now : ℤ
  live : Bool
  committed : Bool
  call : Call
deriving DecidableEq

/-- A call with what it answered. -/
structure LogEntry where
  now : ℤ
  call : Call
  answer : Reply
  committed : Bool
deriving DecidableEq

/-- The admin's row, the uuids and secrets made so far, and what was called, the
newest call first. -/
structure Account where
  factor : Factor
  serials : ℕ
  secrets : ℕ
  log : List LogEntry
deriving DecidableEq

def Account.start (f : Factor) : Account := ⟨f, 0, 0, []⟩

/-- The call on the row; the CLI asks for no session. -/
def Account.answer (a : Account) (m : Made) : Factor × Reply :=
  match m.call with
  | .issueTicket ticket => (a.factor.issueTicket m.now ticket, .issued)
  | call =>
      if m.live then a.factor.call a.serials a.secrets m.now call
      else (a.factor, call.unseen)

def Account.entry (a : Account) (m : Made) : LogEntry :=
  ⟨m.now, m.call, (a.answer m).2, m.committed⟩

/-- One call: it leaves the row alone unless it commits. -/
def Account.step (a : Account) (m : Made) : Option Account :=
  some
    { factor := if m.committed then (a.answer m).1 else a.factor
      serials := a.serials + 1
      secrets := a.secrets + 1
      log := a.entry m :: a.log }

def Account.run (a : Account) (ms : List Made) : Option Account := Runs.run Account.step a ms

/-! ## § What a call can do -/

/-- The answers of a call that found nothing to do. -/
def Reply.idle : Reply → Prop
  | .none | .locked _ | .invalidTicket | .alreadyEnrolled | .tenRecoveryCodes => True
  | _ => False

/-- A call's effect on the row, with its answer. -/
inductive Factor.Called (f : Factor) (serial secret : ℕ) (now : ℤ) :
    Call → Factor → Reply → Prop
  | idle (call : Call) (answer : Reply) : answer.idle → Called f serial secret now call f answer
  | charged (madeAt : ℤ) : f.confirmedAt ≠ none → f.failedAttempts < lockLevel →
      Called f serial secret now (.chargeSecondFactor madeAt) (f.charge now ⟨madeAt, serial⟩)
        (.charged (f.level now + 1) ⟨madeAt, serial⟩)
  | enrolCharged (madeAt : ℤ) : f.enrolling now → f.failedAttempts < lockLevel →
      Called f serial secret now (.chargeTotpEnrolment madeAt)
        { f with
          failedAttempts := f.failedAttempts + 1
          charges := f.charging now ⟨madeAt, serial⟩ }
        (.charged (f.failedAttempts + 1) ⟨madeAt, serial⟩)
  | passed (c : Charge) (proof : ℕ) (k : ℤ) : f.confirmedAt ≠ none → c ∈ f.charges →
      c.live now → f.secret = some proof → f.lastStep < k →
      Called f serial secret now (.checkSecondFactor (some c) proof (some k))
        (f.pass (some c) k) (.passed (f.failuresSincePass - 1))
  | failed (c : Charge) (proof : ℕ) (step : Option ℤ) : f.confirmedAt ≠ none → c ∈ f.charges →
      c.live now → Called f serial secret now (.checkSecondFactor (some c) proof step)
        { f with charges := f.without (some c) } (.failed f.failedAttempts)
  | enrolled (c : Charge) (proof : ℕ) (k : ℤ) (codes : List ℕ) (h : f.secret ≠ none) :
      f.enrolling now → c ∈ f.charges → c.live now → f.secret = some proof →
      Called f serial secret now (.checkTotpEnrolment (some c) proof (some k) codes)
        (f.confirm now k codes h) .enrolled
  | enrolFailed (c : Charge) (proof : ℕ) (step : Option ℤ) (codes : List ℕ) :
      f.enrolling now → c ∈ f.charges → c.live now →
      Called f serial secret now (.checkTotpEnrolment (some c) proof step codes)
        { f with charges := f.without (some c) } (.failed f.failedAttempts)
  | begun (ticket : ℕ) (enrolled : Bool) : f.ticketHash = some ticket →
      f.failedAttempts < lockLevel →
      Called f serial secret now (.beginTotpEnrolment ticket enrolled)
        { f with
          secret := some secret
          lastStep := 0
          charges := []
          confirmed_has_secret := fun _ => by simp } .begun
  | recovered (code : ℕ) : f.confirmedAt ≠ none → code ∈ f.recoveryCodeHashes →
      Called f serial secret now (.useRecoveryCode code) (f.useRecoveryCode now code).1
        (.recovered (f.recoveryCodeHashes.filter (· ≠ code)).length
          (lockLevel ≤ f.failedAttempts))
  | issued (ticket : ℕ) : Called f serial secret now (.issueTicket ticket)
      (f.issueTicket now ticket) .issued

theorem useRecoveryCode_eq {f : Factor} {now : ℤ} {code : ℕ} (hconfirmed : f.confirmedAt ≠ none)
    (hcode : code ∈ f.recoveryCodeHashes) :
    f.useRecoveryCode now code =
      ({ f with
        recoveryCodeHashes := f.recoveryCodeHashes.filter (· ≠ code)
        failedAttempts := min f.failedAttempts 9
        failuresLeakedAt := if lockLevel ≤ f.failedAttempts then some now else f.failuresLeakedAt
        failuresSincePass := 0
        charges := if lockLevel ≤ f.failedAttempts then [] else f.charges },
        .recovered (f.recoveryCodeHashes.filter (· ≠ code)).length
          (lockLevel ≤ f.failedAttempts)) := by
  simp [Factor.useRecoveryCode, hconfirmed, hcode]

theorem called (f : Factor) (serial secret : ℕ) (now : ℤ) (call : Call) :
    f.Called serial secret now call (f.call serial secret now call).1
      (f.call serial secret now call).2 := by
  cases call with
  | chargeSecondFactor madeAt =>
      simp only [Factor.call, Factor.chargeSecondFactor]
      split_ifs with hnone hlocked
      · exact .idle _ _ trivial
      · exact .idle _ _ trivial
      · exact .charged madeAt hnone (not_le.mp hlocked)
  | checkSecondFactor charge proof step =>
      simp only [Factor.call, Factor.checkSecondFactor]
      split_ifs with hnone hholds haccepts
      · exact .idle _ _ trivial
      · obtain ⟨c, hc, hmem, hlive⟩ := hholds
        obtain ⟨hsecret, k, hk, hlast, _⟩ := haccepts
        cases hc
        cases hk
        exact .passed c proof k hnone hmem hlive hsecret hlast
      · obtain ⟨c, hc, hmem, hlive⟩ := hholds
        cases hc
        exact .failed c proof step hnone hmem hlive
      · exact .idle _ _ trivial
  | chargeTotpEnrolment madeAt =>
      simp only [Factor.call, Factor.chargeTotpEnrolment]
      split_ifs with henrolling hlocked
      · exact .idle _ _ trivial
      · exact .enrolCharged madeAt henrolling (not_le.mp hlocked)
      · exact .idle _ _ trivial
  | checkTotpEnrolment charge proof step codes =>
      simp only [Factor.call, Factor.checkTotpEnrolment]
      split_ifs with hten henrolling hholds haccepts
      · exact .idle _ _ trivial
      · obtain ⟨c, hc, hmem, hlive⟩ := hholds
        obtain ⟨hsecret, k, hk, _⟩ := haccepts
        cases hc
        cases hk
        exact .enrolled c proof k codes (by simp [hsecret]) henrolling hmem hlive hsecret
      · obtain ⟨c, hc, hmem, hlive⟩ := hholds
        cases hc
        exact .enrolFailed c proof step codes henrolling hmem hlive
      · exact .idle _ _ trivial
      · exact .idle _ _ trivial
  | beginTotpEnrolment ticket enrolled =>
      simp only [Factor.call, Factor.beginTotpEnrolment]
      split_ifs with henrolled hticket
      · exact .idle _ _ trivial
      · exact .begun ticket enrolled hticket.1 hticket.2.2
      · exact .idle _ _ trivial
  | useRecoveryCode code =>
      by_cases hnone : f.confirmedAt = none
      · simp only [Factor.call, Factor.useRecoveryCode, hnone, if_true]
        exact .idle _ _ trivial
      · by_cases hcode : code ∈ f.recoveryCodeHashes
        · have : Factor.Called f serial secret now (.useRecoveryCode code) _ _ :=
            .recovered code hnone hcode
          simpa only [Factor.call, useRecoveryCode_eq hnone hcode] using this
        · simp only [Factor.call, Factor.useRecoveryCode, hnone, hcode, if_false,
            not_false_eq_true, if_true]
          exact .idle _ _ trivial
  | issueTicket ticket => exact .issued ticket

theorem called_answer (a : Account) (m : Made) :
    a.factor.Called a.serials a.secrets m.now m.call (a.answer m).1 (a.answer m).2 := by
  unfold Account.answer
  cases hcall : m.call with
  | issueTicket ticket => exact .issued ticket
  | checkTotpEnrolment charge proof step codes =>
      simp only
      split_ifs
      · exact called ..
      · refine .idle _ _ ?_
        unfold Call.unseen
        simp only
        split_ifs <;> trivial
  | _ =>
      simp only
      split_ifs
      · exact called ..
      · exact .idle _ _ trivial

end Ziftbook
