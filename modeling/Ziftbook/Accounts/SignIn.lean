import Ziftbook.Foundation.Pool
import Ziftbook.Foundation.Rows

/-!
# Sign-ins and password resets

One user's stored hash, reset links and sessions, and the statements of the
transactions that use them, each a step of its own: the sign-ins of `app/auth.py`,
`app/platform_account.py` and `app/invites.py`, and `reset_password` (migration 0057).

A sign-in reads the stored hash, verifies it with no transaction open, and starts its
sessions in another transaction, each once `FOR SHARE` finds the hash unchanged.
`newHash` is the hash that a reset's transaction stores, whoever's password it is of.
A set-wise `DELETE` takes its rows from a snapshot and deletes them in turn, waiting
for each. The rows that a sign-in reads of other tables only end it sooner: a
transaction may be rolled back at any step.
-/

namespace Ziftbook

open Foundation

/-! ## § Rows -/

/-- The tables of the two kinds: `sessions`, `account_sessions`. -/
inductive SessionKind
  | business | account
deriving DecidableEq, Repr

/-- A session, with the hash that was verified for it. -/
structure SignedIn (H : Type*) where
  kind : SessionKind
  startedOn : H
deriving DecidableEq

/-- A row of `email_tokens` with purpose `password_reset`, the user's email. -/
structure ResetToken where
  expiresAt : ℤ
deriving DecidableEq, Repr

/-- A reset that committed: its transaction, its link, and the hash it replaced. -/
structure Reset (H : Type*) where
  tx : ℕ
  token : ℕ
  old : Option H
deriving DecidableEq

structure Doors (H : Type*) where
  /-- The user's row of `password_credentials`. -/
  credentials : Rows Unit H
  tokens : Rows ℕ ResetToken
  sessions : Rows ℕ (SignedIn H)
  /-- The open transactions, those among them and before them that reset a password, and
  how many transactions began. -/
  opened : List ℕ
  resetting : List ℕ
  begun : ℕ
  /-- How many links and sessions were made: each has the next number. -/
  minted : ℕ
  started : ℕ
  resets : List (Reset H)

variable {H : Type*}

def Doors.start (hash : Option H) : Doors H :=
  ⟨.start fun _ => hash, .start fun _ => none, .start fun _ => none, [], [], 0, 0, 0, []⟩

/-! ## § Statements -/

/-- What a sign-in's transaction does in turn. -/
inductive SignInStatement
  /-- `password_unchanged`. -/
  | unchanged
  /-- `password_unchanged` and `create`, or `start_account_session`. -/
  | start (kind : SessionKind)
  /-- The session of this browser's cookie ends, whoever's it was. -/
  | endSession (id : ℕ)
deriving DecidableEq

inductive SignIn
  /-- `auth.sign_in`, with the sessions of the browser's two cookies. -/
  | business (old oldAccount : Option ℕ) (admin : Bool)
  /-- `platform_account.sign_in`, with another person's business session. -/
  | account (other oldAccount : Option ℕ) (admin : Bool)
  /-- `invites.accept` by an existing account. -/
  | invite (old oldAccount : Option ℕ) (admin : Bool)
deriving DecidableEq

/-- `auth.start_account`: a platform admin gets no session. -/
def startAccount (old : Option ℕ) (admin : Bool) : List SignInStatement :=
  old.toList.map .endSession ++ if admin then [.unchanged] else [.start .account]

/-- `auth.start`. -/
def startBoth (old oldAccount : Option ℕ) (admin : Bool) : List SignInStatement :=
  .start .business :: old.toList.map .endSession ++ startAccount oldAccount admin

def SignIn.statements : SignIn → List SignInStatement
  | .business old oldAccount admin => .unchanged :: startBoth old oldAccount admin
  | .account other oldAccount admin =>
      .unchanged :: other.toList.map .endSession ++ startAccount oldAccount admin
  | .invite old oldAccount admin => .unchanged :: startBoth old oldAccount admin

inductive DoorTask (H : Type*)
  /-- `account_by_email`, then the password verified. -/
  | read (signIn : SignIn)
  | verify (signIn : SignIn) (hash : H)
  | signIn (tx : ℕ) (hash : H) (statements : List SignInStatement)
  /-- The `INSERT` of a session. -/
  | insert (tx : ℕ) (hash : H) (kind : SessionKind)
  /-- `reset_password`, statement by statement. -/
  | useToken (token : ℕ) (now : ℤ)
  | setPassword (tx token : ℕ)
  | listSessions (tx token : ℕ) (old : Option H) (kind : SessionKind)
  | endSessions (tx token : ℕ) (old : Option H) (kind : SessionKind) (ids : List ℕ)
  | clearTokens (tx token : ℕ) (old : Option H)
  | finish (tx token : ℕ) (old : Option H)

/-- The transaction a task is part of. -/
def DoorTask.tx : DoorTask H → Option ℕ
  | .read _ | .verify .. | .useToken .. => none
  | .signIn tx .. | .insert tx .. | .setPassword tx _ | .listSessions tx .. | .endSessions tx ..
  | .clearTokens tx .. | .finish tx .. => some tx

/-- A task goes on, or its thread ends: a wrong password, an error, a broken
connection. -/
inductive SignInTurn
  | go | stop
deriving DecidableEq

/-! ## § Transactions -/

def Doors.commit (s : Doors H) (tx : ℕ) : Doors H :=
  { s with
    credentials := s.credentials.commit tx
    tokens := s.tokens.commit tx
    sessions := s.sessions.commit tx
    opened := s.opened.filter (· ≠ tx) }

def Doors.rollback (s : Doors H) (tx : ℕ) : Doors H :=
  { s with
    credentials := s.credentials.rollback tx
    tokens := s.tokens.rollback tx
    sessions := s.sessions.rollback tx
    opened := s.opened.filter (· ≠ tx) }

def Doors.begin (s : Doors H) : Doors H :=
  { s with opened := s.begun :: s.opened, begun := s.begun + 1 }

/-- `FOR SHARE` of the hash the caller verified: the sign-in goes on only when it is
still stored. -/
def Doors.checked [DecidableEq H] (s : Doors H) (tx : ℕ) (hash : H) (next : List (DoorTask H)) :
    Option (Doors H × Option (List (DoorTask H))) :=
  if s.credentials.committed () = some hash then
    (s.credentials.lock tx () .share).map fun r => ({ s with credentials := r }, some next)
  else some (s.rollback tx, none)

/-- The rows a set-wise `DELETE` begins with. -/
def Doors.sessionsOf (s : Doors H) (kind : SessionKind) : List ℕ :=
  (List.range s.started).filter fun id => (s.sessions.committed id).any fun x => x.kind = kind

/-- `DELETE` of one row that is still there. -/
def Doors.endSession (s : Doors H) (tx id : ℕ) : Option (Doors H) :=
  if (s.sessions.seen tx id).isSome then
    (s.sessions.write tx id none).map fun r => { s with sessions := r }
  else some s

/-- The user's other links go, those that no other transaction is using. -/
def Doors.clearTokens (s : Doors H) (tx : ℕ) : Doors H :=
  { s with tokens := (List.range s.minted).foldl (fun r token =>
      if (r.seen tx token).isSome then (r.write tx token none).getD r else r) s.tokens }

/-- One task of a thread. -/
def Doors.exec [DecidableEq H] (newHash : ℕ → H) (s : Doors H) (task : DoorTask H)
    (turn : SignInTurn) :
    Option (Doors H × Option (List (DoorTask H))) :=
  match turn, task with
  | .stop, task =>
      match task.tx with
      | none => some (s, none)
      | some tx => if tx ∈ s.opened then some (s.rollback tx, none) else none
  | .go, .read signIn =>
      -- A user without a password verifies none.
      some (s, (s.credentials.committed ()).map fun hash => [.verify signIn hash])
  | .go, .verify signIn hash =>
      some (s.begin, some [.signIn s.begun hash signIn.statements])
  | .go, .useToken token now =>
      if (s.tokens.committed token).any fun t => now < t.expiresAt then
        (s.tokens.write s.begun token none).map fun r =>
          ({ s.begin with tokens := r, resetting := s.begun :: s.resetting },
            some [.setPassword s.begun token])
      else some (s, none)
  | .go, .signIn tx hash statements =>
      if tx ∈ s.opened then
        match statements with
        | [] => some (s.commit tx, none)
        | .unchanged :: rest => s.checked tx hash [.signIn tx hash rest]
        | .start kind :: rest => s.checked tx hash [.insert tx hash kind, .signIn tx hash rest]
        | .endSession id :: rest =>
            (s.endSession tx id).map fun s' => (s', some [.signIn tx hash rest])
      else none
  | .go, .insert tx hash kind =>
      if tx ∈ s.opened then
        (s.sessions.write tx s.started (some ⟨kind, hash⟩)).map fun r =>
          ({ s with sessions := r, started := s.started + 1 }, some [])
      else none
  | .go, .setPassword tx token =>
      if tx ∈ s.opened then
        (s.credentials.write tx () (some (newHash tx))).map fun r =>
          ({ s with credentials := r },
            some [.listSessions tx token (s.credentials.committed ()) .business])
      else none
  | .go, .listSessions tx token old kind =>
      if tx ∈ s.opened then some (s, some [.endSessions tx token old kind (s.sessionsOf kind)])
      else none
  | .go, .endSessions tx token old kind ids =>
      if tx ∈ s.opened then
        match ids, kind with
        | id :: ids, kind =>
            (s.endSession tx id).map fun s' => (s', some [.endSessions tx token old kind ids])
        | [], .business => some (s, some [.listSessions tx token old .account])
        | [], .account => some (s, some [.clearTokens tx token old])
      else none
  | .go, .clearTokens tx token old =>
      if tx ∈ s.opened then some (s.clearTokens tx, some [.finish tx token old]) else none
  | .go, .finish tx token old =>
      if tx ∈ s.opened then
        some ({ s.commit tx with resets := ⟨tx, token, old⟩ :: s.resets }, none)
      else none

/-- What else goes on: a link is mailed, a session ends. -/
inductive DoorEvent
  | mint (expiresAt : ℤ)
  | signOut (id : ℕ)
deriving DecidableEq

/-- Each in a transaction of its own. -/
def Doors.world (s : Doors H) : DoorEvent → Option (Doors H)
  | .mint expiresAt =>
      (s.tokens.write s.begun s.minted (some ⟨expiresAt⟩)).map fun r =>
        { s with tokens := r.commit s.begun, begun := s.begun + 1, minted := s.minted + 1 }
  | .signOut id =>
      (s.sessions.write s.begun id none).map fun r =>
        { s with sessions := r.commit s.begun, begun := s.begun + 1 }

inductive Asked
  | signIn (how : SignIn)
  | reset (token : ℕ) (now : ℤ)
deriving DecidableEq

def Asked.task : Asked → DoorTask H
  | .signIn how => .read how
  | .reset token now => .useToken token now

def doors [DecidableEq H] (newHash : ℕ → H) :
    Program (Doors H) (DoorTask H) DoorEvent Asked SignInTurn where
  world s _ e := s.world e
  start s asked := some (s, [asked.task])
  exec s task turn := s.exec newHash task turn

abbrev Doorway (H : Type*) := Pool (Doors H) (DoorTask H)

def Doorway.run [DecidableEq H] (newHash : ℕ → H) (p : Doorway H)
    (ms : List (Move DoorEvent Asked SignInTurn)) : Option (Doorway H) :=
  Runs.run (Pool.step (doors newHash)) p ms

end Ziftbook
