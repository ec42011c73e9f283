import Ziftbook.Foundation.Pool
import Ziftbook.Foundation.Rows
import Ziftbook.Store.Tables
import Ziftbook.Zone

/-!
# Invitations to one person

`create` and `revoke` of `app/invites.py`, the `send_invite` job, `accept_invite`
(migration 0045) and `members.remove`, for one business and one email, statement by
statement with the row locks of `invites`, `users` and `memberships`. A link's secret
is told apart by its number. `create` looks for a member in one statement and writes
the invite in another. What a request does to other tables only ends it sooner: a
transaction may be rolled back at any step.
-/

namespace Ziftbook

open Foundation

structure Invite where
  id : ℕ
  tokenHash : Option ℕ
  expiresAt : ℤ
  /-- How many removals had committed when the `create` that made or renewed it looked
  for a member. -/
  after : ℕ
deriving DecidableEq, Repr

/-- An acceptance that brought a removed member back: the removals that its invite's
`create` came after, and all that had committed. -/
structure Revived where
  after : ℕ
  removals : ℕ
deriving DecidableEq, Repr

/-- What a transaction is for. -/
inductive Purpose
  | create | send | revoke | accept | remove
deriving DecidableEq, Repr

structure Admission where
  /-- The email's row of `invites`: there is one at most. -/
  invites : Rows Unit Invite
  /-- The email's account. -/
  users : Rows Unit Unit
  /-- The person's membership, by its role. -/
  membership : Rows Unit Role
  opened : List ℕ
  begun : ℕ
  purpose : ℕ → Purpose
  invitesMade : ℕ
  tokensMade : ℕ
  removals : ℕ
  log : List Revived

def Admission.start (account : Bool) (role : Option Role) : Admission :=
  ⟨.start fun _ => none, .start fun _ => if account then some () else none, .start fun _ => role,
    [], 0, fun _ => .create, 0, 0, 0, []⟩

/-- `role <> 'removed'`. -/
def Admission.member (s : Admission) : Bool :=
  (s.membership.committed ()).any fun role => role ≠ .removed

def week : ℤ := 7 * 24 * 60 * minute

/-! ## § Statements -/

inductive AdmissionStep
  /-- `create`: is the email a member's? -/
  | create (now : ℤ)
  | upsert (tx : ℕ) (now : ℤ) (after : ℕ)
  | revoke (id : ℕ)
  | sendInvite (id : ℕ) (now : ℤ)
  /-- The commit of one of these. -/
  | commit (tx : ℕ)
  /-- `accept_invite`: the invite, the account, the invite's deletion, the membership. -/
  | accept (token : ℕ) (now : ℤ) (register : Bool)
  | account (tx : ℕ) (invite : Invite) (register : Bool)
  | useUp (tx : ℕ) (invite : Invite)
  | join (tx : ℕ) (invite : Invite)
  | accepted (tx : ℕ) (invite : Invite)
  /-- `remove`: the member locked, the role changed. -/
  | remove
  | endMembership (tx : ℕ)
  | removed (tx : ℕ)
deriving DecidableEq

def AdmissionStep.tx : AdmissionStep → Option ℕ
  | .create _ | .revoke _ | .sendInvite .. | .accept .. | .remove => none
  | .upsert tx .. | .commit tx | .account tx .. | .useUp tx _ | .join tx _ | .accepted tx _
  | .endMembership tx | .removed tx => some tx

def Admission.begin (s : Admission) (purpose : Purpose) : Admission :=
  { s with
    opened := s.begun :: s.opened
    begun := s.begun + 1
    purpose := fun t => if t = s.begun then purpose else s.purpose t }

def Admission.end (s : Admission) (tx : ℕ) : Admission :=
  { s with
    invites := s.invites.commit tx
    users := s.users.commit tx
    membership := s.membership.commit tx
    opened := s.opened.filter (· ≠ tx) }

def Admission.rollback (s : Admission) (tx : ℕ) : Admission :=
  { s with
    invites := s.invites.rollback tx
    users := s.users.rollback tx
    membership := s.membership.rollback tx
    opened := s.opened.filter (· ≠ tx) }

/-- The acceptance brings a removed member back. -/
def Admission.revives (s : Admission) (tx : ℕ) : Bool :=
  s.membership.committed () = some .removed ∧ s.membership.seen tx () ≠ some .removed

inductive AdmissionTurn
  | go | stop
deriving DecidableEq

def Admission.exec (s : Admission) (task : AdmissionStep) (turn : AdmissionTurn) :
    Option (Admission × Option (List AdmissionStep)) :=
  match turn, task with
  | .stop, task =>
      match task.tx with
      | none => some (s, none)
      | some tx => if tx ∈ s.opened then some (s.rollback tx, none) else none
  | .go, .create now =>
      -- A member is refused: `already_member`.
      if s.member then some (s, none)
      else some (s.begin .create, some [.upsert s.begun now s.removals])
  | .go, .upsert tx now after =>
      if tx ∈ s.opened then
        (s.invites.write tx () (some ⟨s.invitesMade, none, now + week, after⟩)).map fun r =>
          ({ s with invites := r, invitesMade := s.invitesMade + 1 }, some [.commit tx])
      else none
  | .go, .revoke id =>
      if (s.invites.committed ()).any fun v => v.id = id then
        (s.invites.write s.begun () none).map fun r =>
          ({ s.begin .revoke with invites := r }, some [.commit s.begun])
      else some (s, none)
  | .go, .sendInvite id now =>
      match (s.invites.committed ()).filter fun v => v.id = id with
      | none => some (s, none)
      | some v =>
          (s.invites.write s.begun () (some { v with
            tokenHash := some s.tokensMade, expiresAt := now + week })).map fun r =>
            ({ s.begin .send with invites := r, tokensMade := s.tokensMade + 1 },
              some [.commit s.begun])
  | .go, .commit tx => if tx ∈ s.opened then some (s.end tx, none) else none
  | .go, .accept token now register =>
      match (s.invites.committed ()).filter fun v =>
          v.tokenHash = some token ∧ now < v.expiresAt with
      | none => some (s, none)
      | some v =>
          (s.invites.lock s.begun () .exclusive).map fun r =>
            ({ s.begin .accept with invites := r }, some [.account s.begun v register])
  | .go, .account tx v register =>
      if tx ∈ s.opened then
        if register then
          -- An account there already keeps its password and the invite.
          if s.users.committed () ≠ none then some (s.rollback tx, none)
          else (s.users.write tx () (some ())).map fun r =>
            ({ s with users := r }, some [.useUp tx v])
        else if s.users.committed () = none then some (s.rollback tx, none)
        else some (s, some [.useUp tx v])
      else none
  | .go, .useUp tx v =>
      if tx ∈ s.opened then
        (s.invites.write tx () none).map fun r => ({ s with invites := r }, some [.join tx v])
      else none
  | .go, .join tx v =>
      if tx ∈ s.opened then
        -- A live member's row is locked and left alone: `already_member`.
        (if s.member then s.membership.lock tx () .exclusive
          else s.membership.write tx () (some .worker)).map fun r =>
            ({ s with membership := r }, some [.accepted tx v])
      else none
  | .go, .accepted tx v =>
      if tx ∈ s.opened then
        some ({ s.end tx with
          log := if s.revives tx then ⟨v.after, s.removals⟩ :: s.log else s.log }, none)
      else none
  | .go, .remove =>
      if s.member then
        (s.membership.lock s.begun () .exclusive).map fun r =>
          ({ s.begin .remove with membership := r }, some [.endMembership s.begun])
      else some (s, none)
  | .go, .endMembership tx =>
      if tx ∈ s.opened then
        (s.membership.write tx () (some .removed)).map fun r =>
          ({ s with membership := r }, some [.removed tx])
      else none
  | .go, .removed tx =>
      if tx ∈ s.opened then some ({ s.end tx with removals := s.removals + 1 }, none) else none

inductive AdmissionRequest
  | create (now : ℤ)
  | revoke (id : ℕ)
  | sendInvite (id : ℕ) (now : ℤ)
  | accept (token : ℕ) (now : ℤ) (register : Bool)
  | remove
deriving DecidableEq

def AdmissionRequest.task : AdmissionRequest → AdmissionStep
  | .create now => .create now
  | .revoke id => .revoke id
  | .sendInvite id now => .sendInvite id now
  | .accept token now register => .accept token now register
  | .remove => .remove

def admission : Program Admission AdmissionStep Empty AdmissionRequest AdmissionTurn where
  world _ _ e := e.elim
  start s request := some (s, [request.task])
  exec s task turn := s.exec task turn

abbrev AdmissionPool := Pool Admission AdmissionStep

abbrev AdmissionMove := Move Empty AdmissionRequest AdmissionTurn

def AdmissionPool.run (p : AdmissionPool) (ms : List AdmissionMove) : Option AdmissionPool :=
  Runs.run (Pool.step admission) p ms

/-- A `create` has looked for a member and not written its invite yet. -/
def Admission.looking (s : Admission) : Prop :=
  ∃ t ∈ s.opened, s.purpose t = .create ∧ s.invites.lastWrite t () = none

instance (s : Admission) : Decidable s.looking := inferInstanceAs (Decidable (∃ t ∈ s.opened, _))

/-- The step commits an acceptance that makes the person a member. -/
def Admission.joins (s : Admission) (task : AdmissionStep) (turn : AdmissionTurn) : Prop :=
  match turn, task with
  | .go, .accepted tx _ => s.membership.lastWrite tx () ≠ none
  | _, _ => False

instance (s : Admission) (task : AdmissionStep) (turn : AdmissionTurn) :
    Decidable (s.joins task turn) := by
  unfold Admission.joins
  split <;> infer_instance

/-- The step commits a membership between a `create`'s look for a member and its
writing of the invite. -/
def AdmissionPool.overtakes (p : AdmissionPool) : AdmissionMove → Prop
  | .go i turn => ∃ task ∈ (p.threads[i]?).bind List.head?, p.shared.joins task turn ∧
      p.shared.looking
  | _ => False

instance (p : AdmissionPool) (m : AdmissionMove) : Decidable (p.overtakes m) := by
  unfold AdmissionPool.overtakes
  split <;> infer_instance

end Ziftbook
