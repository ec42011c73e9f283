import Ziftbook.Errors
import Ziftbook.Foundation.Pool
import Ziftbook.Foundation.Rows
import Ziftbook.Store.Tables
import Mathlib.Data.List.Sort

/-!
# A business's members, changed at once

`change_role` and `remove` of `app/members.py` and `accept_invite` (migration 0045) on
one business, statement by statement, with the row locks of `memberships` and
`tenants`. A membership's row is one per person, so the person is its key.

`target` takes its rows from a snapshot and locks them one by one in the order of
their ids, each read again when its lock is granted. The `keep_an_owner` trigger
locks the business and looks again in a statement of its own. What the requests do to
other tables only ends them sooner: a transaction may be rolled back at any step.
-/

namespace Ziftbook

open Foundation

structure Membership where
  id : ℕ
  role : Role
deriving DecidableEq, Repr

inductive RoleChange
  | toOwner | toWorker | removed
deriving DecidableEq, Repr

def RoleChange.role : RoleChange → Role
  | .toOwner => .owner
  | .toWorker => .worker
  | .removed => .removed

/-- A change that committed: who asked for it, whose role it changed, and the row of
the one who asked as it was committed at that moment. -/
structure Changed where
  me : ℕ
  user : ℕ
  change : RoleChange
  meThen : Option Membership
deriving DecidableEq

structure Team where
  /-- By person. -/
  memberships : Rows ℕ Membership
  /-- The business's own row. -/
  tenant : Rows Unit Unit
  opened : List ℕ
  begun : ℕ
  /-- Who asked for a transaction's change; nobody for an acceptance. -/
  callers : ℕ → Option ℕ
  /-- People and memberships have numbers up to these. -/
  people : ℕ
  ids : ℕ
  log : List Changed
  answers : List (ℕ × ApiError)

/-- The business with these members, the first the person 0. -/
def Team.start (members : List Membership) : Team :=
  ⟨.start fun user => members[user]?, .start fun _ => some (), [], 0, fun _ => none,
    members.length, (members.map Membership.id).foldr max 0 + 1, [], []⟩

/-- Someone is the business's owner. -/
def Team.HasOwner (s : Team) : Prop :=
  ∃ user m, s.memberships.committed user = some m ∧ m.role = .owner

/-! ## § Statements -/

inductive TeamTask
  | target (me memberId : ℕ) (change : RoleChange)
  /-- Locking the snapshot's rows: those still to lock, and those locked. -/
  | locking (tx me memberId : ℕ) (change : RoleChange) (users : List ℕ)
      (rows : List (ℕ × Membership))
  | update (tx user : ℕ) (change : RoleChange)
  | keepAnOwner (tx user : ℕ) (change : RoleChange)
  | lookAgain (tx user : ℕ) (change : RoleChange)
  | commit (tx user : ℕ) (change : RoleChange)
  | acceptInvite (user : ℕ)
  | accepted (tx : ℕ)
deriving DecidableEq

def TeamTask.tx : TeamTask → Option ℕ
  | .target .. | .acceptInvite _ => none
  | .locking tx .. | .update tx .. | .keepAnOwner tx .. | .lookAgain tx .. | .commit tx ..
  | .accepted tx => some tx

def Team.begin (s : Team) (caller : Option ℕ) : Team :=
  { s with
    opened := s.begun :: s.opened
    begun := s.begun + 1
    callers := fun t => if t = s.begun then caller else s.callers t }

def Team.end (s : Team) (tx : ℕ) : Team :=
  { s with
    memberships := s.memberships.commit tx
    tenant := s.tenant.commit tx
    opened := s.opened.filter (· ≠ tx) }

def Team.rollback (s : Team) (tx : ℕ) : Team :=
  { s with
    memberships := s.memberships.rollback tx
    tenant := s.tenant.rollback tx
    opened := s.opened.filter (· ≠ tx) }

/-- The request fails, its transaction rolled back. -/
def Team.fail (s : Team) (tx : ℕ) (error : ApiError) : Team :=
  { s.rollback tx with answers := (tx, error) :: s.answers }

/-- `role <> 'removed' AND (m.id = :id OR m.user_id = :me)`. -/
def targeted (me memberId user : ℕ) (m : Membership) : Bool :=
  m.role ≠ .removed ∧ (m.id = memberId ∨ user = me)

def Team.memberId (s : Team) (user : ℕ) : ℕ :=
  ((s.memberships.committed user).map Membership.id).getD 0

/-- The rows of `target`'s snapshot, in the order of their ids. -/
def Team.targets (s : Team) (me memberId : ℕ) : List ℕ :=
  ((List.range s.people).filter fun user =>
    (s.memberships.committed user).any (targeted me memberId user)).insertionSort
      fun u v => s.memberId u ≤ s.memberId v

/-- The row found under the lock, if it still is one to take. -/
def Team.relock (s : Team) (me memberId user : ℕ) : List (ℕ × Membership) :=
  ((s.memberships.committed user).filter (targeted me memberId user)).toList.map fun m => (user, m)

/-- What `target` and its caller make of the rows locked. -/
def chosen (me memberId : ℕ) (change : RoleChange) (rows : List (ℕ × Membership)) :
    Except ApiError (Option ℕ) := do
  let mine ← found (rows.find? fun r => r.1 = me) ⟨401, .unauthenticated⟩
  require (mine.2.role = .owner) ⟨403, .ownerOnly⟩
  let member ← found (rows.find? fun r => r.2.id = memberId) ⟨404, .notFound⟩
  require (member.1 ≠ me) ⟨403, .ownMembership⟩
  -- `change_role` to the role they have changes nothing.
  .ok (if member.2.role = change.role then none else some member.1)

/-- The trigger's look: nobody is an owner any longer, and someone is on the list. -/
def Team.ownerLost (s : Team) (tx : ℕ) : Prop :=
  (∀ user < s.people, ∀ m ∈ s.memberships.seen tx user, m.role ≠ .owner) ∧
    ∃ user < s.people, s.memberships.seen tx user ≠ none

instance (s : Team) (tx : ℕ) : Decidable (s.ownerLost tx) := inferInstanceAs (Decidable (_ ∧ _))

inductive TeamTurn
  | go | stop
deriving DecidableEq

def Team.exec (s : Team) (task : TeamTask) (turn : TeamTurn) :
    Option (Team × Option (List TeamTask)) :=
  match turn, task with
  | .stop, task =>
      match task.tx with
      | none => some (s, none)
      | some tx => if tx ∈ s.opened then some (s.rollback tx, none) else none
  | .go, .target me memberId change =>
      some (s.begin (some me),
        some [.locking s.begun me memberId change (s.targets me memberId) []])
  | .go, .locking tx me memberId change users rows =>
      if tx ∈ s.opened then
        match users with
        | user :: users =>
            (s.memberships.lock tx user .exclusive).map fun r =>
              ({ s with memberships := r },
                some [.locking tx me memberId change users (rows ++ s.relock me memberId user)])
        | [] =>
            match chosen me memberId change rows with
            | .error e => some (s.fail tx e, none)
            | .ok none => some (s.end tx, none)
            | .ok (some user) => some (s, some [.update tx user change])
      else none
  | .go, .update tx user change =>
      if tx ∈ s.opened then
        match s.memberships.seen tx user with
        | none => some (s, some [.commit tx user change])
        | some m =>
            (s.memberships.write tx user (some { m with role := change.role })).map fun r =>
              ({ s with memberships := r },
                -- The trigger is for a row that was an owner's and is one no longer.
                some [if m.role = .owner ∧ change.role ≠ .owner then .keepAnOwner tx user change
                  else .commit tx user change])
      else none
  | .go, .keepAnOwner tx user change =>
      if tx ∈ s.opened then
        (s.tenant.lock tx () .exclusive).map fun r =>
          ({ s with tenant := r }, some [.lookAgain tx user change])
      else none
  | .go, .lookAgain tx user change =>
      if tx ∈ s.opened then
        if s.ownerLost tx then some (s.fail tx ⟨409, .lastOwner⟩, none)
        else some (s, some [.commit tx user change])
      else none
  | .go, .commit tx user change =>
      if tx ∈ s.opened then
        match s.callers tx with
        | none => none
        | some me =>
            some ({ s.end tx with
              log := ⟨me, user, change, s.memberships.committed me⟩ :: s.log }, none)
      else none
  | .go, .acceptInvite user =>
      match s.memberships.committed user with
      | none =>
          -- A worker joins; the person may be new too.
          (s.memberships.write s.begun user (some ⟨s.ids, .worker⟩)).map fun r =>
            ({ s.begin none with
                memberships := r, ids := s.ids + 1, people := max s.people (user + 1) },
              some [.accepted s.begun])
      | some m =>
          if m.role = .removed then
            -- A removed member comes back on the same row.
            (s.memberships.write s.begun user (some { m with role := .worker })).map fun r =>
              ({ s.begin none with memberships := r }, some [.accepted s.begun])
          else
            -- A live one is already a member: their row is locked and left alone.
            (s.memberships.lock s.begun user .exclusive).map fun r =>
              ({ s.begin none with memberships := r }, some [.accepted s.begun])
  | .go, .accepted tx => if tx ∈ s.opened then some (s.end tx, none) else none

inductive TeamRequest
  | changeRole (me memberId : ℕ) (owner : Bool)
  | remove (me memberId : ℕ)
  | accept (user : ℕ)
deriving DecidableEq

def TeamRequest.task : TeamRequest → TeamTask
  | .changeRole me memberId owner => .target me memberId (if owner then .toOwner else .toWorker)
  | .remove me memberId => .target me memberId .removed
  | .accept user => .acceptInvite user

def team : Program Team TeamTask Empty TeamRequest TeamTurn where
  world _ _ e := e.elim
  start s request := some (s, [request.task])
  exec s task turn := s.exec task turn

abbrev TeamPool := Pool Team TeamTask

def TeamPool.run (p : TeamPool) (ms : List (Move Empty TeamRequest TeamTurn)) : Option TeamPool :=
  Runs.run (Pool.step team) p ms

end Ziftbook
