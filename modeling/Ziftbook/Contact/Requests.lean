import Ziftbook.Bookings.Cancellation
import Ziftbook.Errors
import Ziftbook.Foundation.Runs

/-!
# The contact address of a business

The functions of migration 0086, the calls of `app/contact_email.py` that run them
and the `email.contact_email` job, for one business. Every writer locks the request
row first, so each call's function is one step; only a row inserted since it looked
for one is a row it `missed`. What a call read before the lock is an argument.
-/

namespace Ziftbook

open Foundation

/-! ## § Tables -/

/-- A row of `contact_email_requests`. A hash is told apart by the number of its link. -/
structure EmailRequest (α : Type) where
  id : ℕ
  email : α
  tokenHash : Option ℕ
  expiresAt : Option ℤ
  requestedBy : Option ℕ
deriving DecidableEq

/-- A row of `contact_email_confirmations`. -/
structure EmailConfirmation (α : Type) where
  email : α
  previous : Option α
  requestedBy : Option ℕ
deriving DecidableEq

/-- A link the worker minted, for the request it was queued for. -/
structure EmailLink where
  request : ℕ
  hash : ℕ
deriving DecidableEq

structure ContactEmail (α : Type) where
  request : Option (EmailRequest α)
  /-- The settings key `contact_email`. -/
  confirmed : Option α
  confirmations : List (EmailConfirmation α)
  /-- The users whose membership is an owner's. -/
  owners : List ℕ
  /-- The `email.contact_email` jobs queued, by their request. -/
  jobs : List ℕ
  links : List EmailLink
  idsMade : ℕ

variable {α : Type} [DecidableEq α]

/-- `coalesce(expires_at <= now(), true)`. -/
def EmailRequest.linkDead (r : EmailRequest α) (now : ℤ) : Bool :=
  match r.expiresAt with
  | some t => t ≤ now
  | none => true

/-- `expires_at > now()`. -/
def EmailRequest.linkLive (r : EmailRequest α) (now : ℤ) : Bool :=
  match r.expiresAt with
  | some t => now < t
  | none => false

/-- `LIFETIME`. -/
def linkLifetime : ℤ := 24 * hour

/-! ## § The functions -/

inductive ChangeOutcome
  | cleared | kept | unchanged | requested
deriving DecidableEq, Repr

/-- The row inserted, or every column of the one there replaced. -/
def ContactEmail.upsert (s : ContactEmail α) (now : ℤ) (email : α) (send : Bool)
    (requester : Option ℕ) : ContactEmail α :=
  { s with
    request := some ⟨s.idsMade, email, none, if send then some (now + linkLifetime) else none,
      requester⟩
    idsMade := s.idsMade + 1 }

/-- `change_contact_email`: the outcome, and the request's id. -/
def changeContactEmail (lower : α → α) (s : ContactEmail α) (now : ℤ) (email : Option α)
    (send : Bool) (requester : Option ℕ) (missed : Bool) :
    ContactEmail α × ChangeOutcome × Option ℕ :=
  match email.map lower with
  | none => ({ s with request := none, confirmed := none }, .cleared, none)
  | some email =>
      if s.confirmed = some email then ({ s with request := none }, .kept, none)
      else
        match s.request.filter fun r => missed = false ∧ r.email = email ∧
            ¬ (send = true ∧ r.linkDead now = true) with
        | some r => (s, .unchanged, some r.id)
        | none => (s.upsert now email send requester, .requested, some s.idsMade)

/-- `resend_contact_email`: a new id and no hash, so the old link dies now. -/
def resendContactEmail (s : ContactEmail α) (now : ℤ) (requester : Option ℕ) :
    Option (ContactEmail α × ℕ) :=
  s.request.map fun r => (s.upsert now r.email true requester, s.idsMade)

/-- `cancel_contact_email`. -/
def cancelContactEmail (s : ContactEmail α) : ContactEmail α × Bool :=
  ({ s with request := none }, s.request.isSome)

/-- `mint_contact_email_token`: only a request still due a link. -/
def mintContactEmailToken (s : ContactEmail α) (now : ℤ) (id : ℕ) : Option (ContactEmail α) :=
  (s.request.filter fun r => r.id = id ∧ r.linkLive now = true).map fun r =>
    { s with
      request := some { r with
        tokenHash := some s.links.length, expiresAt := some (now + linkLifetime) }
      links := s.links ++ [⟨r.id, s.links.length⟩] }

/-- `confirm_contact_email`: what is confirmed, and what was before. -/
def confirmContactEmail (s : ContactEmail α) (now : ℤ) (hash : ℕ) :
    Option (ContactEmail α × α × Option α) :=
  (s.request.filter fun r => r.tokenHash = some hash ∧ r.linkLive now = true ∧
    ∃ user ∈ s.owners, r.requestedBy = some user).map fun r =>
      ({ s with
        request := none
        confirmed := some r.email
        confirmations := s.confirmations ++ [⟨r.email, s.confirmed, r.requestedBy⟩] },
        r.email, s.confirmed)

/-! ## § The calls -/

/-- `send_link`: the link is queued, unless the business has sent too many. -/
def sendLink (s : ContactEmail α) (request : ℕ) (limited : Bool) :
    Except ApiError (ContactEmail α) := do
  require (limited = false) ⟨429, .rateLimited⟩
  .ok { s with jobs := s.jobs ++ [request] }

/-- `change`: `claimed` when `WILL_SEND` said so and `claim` let it through. -/
def changeCall (lower : α → α) (s : ContactEmail α) (now : ℤ) (user : ℕ) (email : Option α)
    (missed claimed limited : Bool) : Except ApiError (ContactEmail α) :=
  match changeContactEmail lower s now email true (some user) missed with
  | (s', outcome, id) => do
      require (outcome = .requested ↔ claimed = true) ⟨503, .busy⟩
      match outcome, id with
      | .requested, some id => sendLink s' id limited
      | _, _ => .ok s'

/-- `resend`: `read` is the waiting address it claimed the inbox of. -/
def resendCall (s : ContactEmail α) (now : ℤ) (user : ℕ) (read : Option α) (limited : Bool) :
    Except ApiError (ContactEmail α) := do
  let read ← found read ⟨409, .noContactEmailRequest⟩
  let (s', id) ← found (resendContactEmail s now (some user)) ⟨409, .noContactEmailRequest⟩
  require (s'.request.map EmailRequest.email = some read) ⟨503, .busy⟩
  sendLink s' id limited

/-- `cancel`. -/
def cancelCall (s : ContactEmail α) : Except ApiError (ContactEmail α) := do
  require ((cancelContactEmail s).2 = true) ⟨409, .noContactEmailRequest⟩
  .ok (cancelContactEmail s).1

/-- `confirm`, of a well-formed token. -/
def confirmCall (s : ContactEmail α) (now : ℤ) (hash : ℕ) (limited : Bool) :
    Except ApiError (ContactEmail α) := do
  require (limited = false) ⟨429, .rateLimited⟩
  let (s', _) ← found (confirmContactEmail s now hash) ⟨400, .invalidToken⟩
  .ok s'

/-- `send_contact_email`, for its request: a `valid` address is minted a link. A job
whose delivery or commit fails leaves nothing, and is tried again. -/
def sendContactEmail (s : ContactEmail α) (now : ℤ) (id : ℕ) (valid : Bool) : ContactEmail α :=
  match s.request.filter fun r => r.id = id ∧ valid = true with
  | none => s
  | some _ => (mintContactEmailToken s now id).getD s

/-! ## § Runs -/

inductive ContactOp (α : Type)
  | change (user : ℕ) (email : Option α) (missed claimed limited : Bool)
  | resend (user : ℕ) (read : Option α) (limited : Bool)
  | cancel
  | send (request : ℕ) (valid : Bool)
  | confirm (hash : ℕ) (limited : Bool)
  | addOwner (user : ℕ)
  | removeOwner (user : ℕ)

def ContactEmail.apply (lower : α → α) (s : ContactEmail α) (now : ℤ) :
    ContactOp α → Except ApiError (ContactEmail α)
  | .change user email missed claimed limited =>
      changeCall lower s now user email missed claimed limited
  | .resend user read limited => resendCall s now user read limited
  | .cancel => cancelCall s
  | .send request valid =>
      if request ∈ s.jobs then .ok (sendContactEmail s now request valid)
      else .error ⟨404, .notFound⟩
  | .confirm hash limited => confirmCall s now hash limited
  | .addOwner user => .ok { s with owners := user :: s.owners }
  | .removeOwner user => .ok { s with owners := s.owners.filter fun u => u ≠ user }

/-- What commits, on its clock; a refusal rolls back. -/
def ContactEmail.step (lower : α → α) (s : ContactEmail α) (e : ℤ × ContactOp α) :
    Option (ContactEmail α) :=
  (s.apply lower e.1 e.2).toOption

def ContactEmail.run (lower : α → α) (s : ContactEmail α) (es : List (ℤ × ContactOp α)) :
    Option (ContactEmail α) := Runs.run (ContactEmail.step lower) s es

end Ziftbook
