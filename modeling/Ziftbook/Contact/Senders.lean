import Ziftbook.Foundation.Runs
import Ziftbook.Limits.Counters

/-!
# Who may mail an inbox a confirmation link

`app/contact_email.py`'s `claim`, `own_limits` and `send_link`, over
`contact_email_senders` and the limit counters. A change or resend call reads the
business's own limits, claims a place in a transaction of its own, and queues its
link in the request's, whose `now()` is when the request opened. Calls interleave.

`links` and `claims` keep what the tables do not: every link queued and every claim
made, with the clock at that moment.
-/

namespace Ziftbook

open Foundation

/-- `BUSINESSES_PER_ADDRESS_A_DAY`. -/
def businessesPerAddressADay : ℕ := 3

/-- `LINKS_PER_ADDRESS_A_DAY`. -/
def linksPerAddressADay : ℕ := 5

/-- The life of a claim no link was queued for. -/
def claimLife : ℤ := 5 * minute

/-- A row of `contact_email_senders`. -/
structure Sender (τ δ : Type) where
  inboxKey : δ
  tenant : τ
  claimedAt : ℤ
  linkedAt : Option ℤ
deriving DecidableEq

variable {τ α δ : Type}

/-- `LIVE`. -/
def Sender.live (r : Sender τ δ) (now : ℤ) : Prop :=
  (∃ l ∈ r.linkedAt, now - oneDay < l) ∨ now - claimLife < r.claimedAt

instance Sender.decidableLive (r : Sender τ δ) (now : ℤ) : Decidable (r.live now) :=
  inferInstanceAs (Decidable ((∃ l ∈ r.linkedAt, _) ∨ _))

/-- `PURGE_SENDERS`' condition on a row. -/
def Sender.lapsed (r : Sender τ δ) (now : ℤ) : Prop :=
  r.claimedAt < now - (oneDay + limitsMargin) ∧
    ∀ l ∈ r.linkedAt, l < now - (oneDay + limitsMargin)

instance Sender.decidableLapsed (r : Sender τ δ) (now : ℤ) : Decidable (r.lapsed now) :=
  inferInstanceAs (Decidable (_ ∧ ∀ l ∈ r.linkedAt, _))

/-- The limit keys: `contact_email` of the business and address, `contact_email:tenant`,
and `sent_key`. -/
inductive LinkKey (τ δ : Type)
  | hourly (businessAddress : δ)
  | tenant (tenant : τ)
  | sent (businessAddress : δ)
deriving DecidableEq

structure OwnLimit (τ δ : Type) where
  key : LinkKey τ δ
  window : ℤ
  cap : ℕ

/-- `own_limits`. -/
def ownLimits (d : Digests τ α δ) (tenant : τ) (address : α) : List (OwnLimit τ δ) :=
  [⟨.hourly (d.ofBusiness tenant address), 60 * minute, 3⟩, ⟨.tenant tenant, oneDay, 10⟩,
    ⟨.sent (d.ofBusiness tenant address), oneDay, linksPerAddressADay⟩]

/-! ## § Calls -/

inductive LinkStage
  | opened
  | checked
  /-- Claimed, at that moment. -/
  | claimed (moment : ℤ)
  | ended
deriving DecidableEq

/-- A change or resend call. `address` is the email folded for the limits, `openedAt`
its transaction's `now()`. -/
structure LinkCall (τ α : Type) where
  tenant : τ
  address : α
  exempt : Bool
  openedAt : ℤ
  stage : LinkStage

/-- A link queued; `places` are the hits counted for it. -/
structure QueuedLink (τ α δ : Type) where
  tenant : τ
  address : α
  queuedAt : ℤ
  places : List (Place (LinkKey τ δ))

structure MadeClaim (τ δ : Type) where
  inboxKey : δ
  tenant : τ
  moment : ℤ

structure Inboxes (τ α δ : Type) where
  clock : ℤ
  table : RateLimits (LinkKey τ δ)
  senders : List (Sender τ δ)
  calls : List (LinkCall τ α)
  links : List (QueuedLink τ α δ)
  claims : List (MadeClaim τ δ)

def Inboxes.empty : Inboxes τ α δ := ⟨0, Windows.empty, [], [], [], []⟩

inductive LinkOp (τ α δ : Type)
  | open (tenant : τ) (address : α) (exempt : Bool)
  /-- The business's own limits, read. -/
  | check (i : ℕ)
  | claim (i : ℕ) (purged : List (δ × τ))
  /-- `send_link`, and the request's commit. -/
  | send (i : ℕ)
  /-- The request fails. -/
  | fail (i : ℕ)
  | purge (keys : List (LinkKey τ δ))
  | sweep (purged : List (δ × τ))

/-- A transaction takes effect at `clock`; its own `now()` is no later. -/
structure LinkStep (τ α δ : Type) where
  clock : ℤ
  now : ℤ
  op : LinkOp τ α δ

section Step

variable [DecidableEq τ] [DecidableEq δ]

/-- The business's row of an inbox. -/
def Sender.isOf (r : Sender τ δ) (inboxKey : δ) (tenant : τ) : Prop :=
  r.inboxKey = inboxKey ∧ r.tenant = tenant

instance (r : Sender τ δ) (inboxKey : δ) (tenant : τ) : Decidable (r.isOf inboxKey tenant) :=
  inferInstanceAs (Decidable (_ ∧ _))

/-- `SENDERS`' `mine`. -/
def mine (senders : List (Sender τ δ)) (now : ℤ) (inboxKey : δ) (tenant : τ) : Prop :=
  ∃ r ∈ senders, r.isOf inboxKey tenant ∧ r.live now

instance (senders : List (Sender τ δ)) (now : ℤ) (inboxKey : δ) (tenant : τ) :
    Decidable (mine senders now inboxKey tenant) :=
  inferInstanceAs (Decidable (∃ r ∈ senders, _))

/-- `SENDERS`' `others`. -/
def others (senders : List (Sender τ δ)) (now : ℤ) (inboxKey : δ) (tenant : τ) : ℕ :=
  senders.countP fun r => r.inboxKey = inboxKey ∧ r.tenant ≠ tenant ∧ r.live now

/-- `PURGE_SENDERS`, and the worker's sweep: those of the lapsed rows it takes. -/
def purgeSenders (senders : List (Sender τ δ)) (now : ℤ) (purged : List (δ × τ)) :
    List (Sender τ δ) :=
  senders.filter fun r => ¬ ((r.inboxKey, r.tenant) ∈ purged ∧ r.lapsed now)

/-- `CLAIM`, on a primary key of the inbox and the business. -/
def claimRow (senders : List (Sender τ δ)) (now : ℤ) (inboxKey : δ) (tenant : τ) :
    List (Sender τ δ) :=
  if ∃ r ∈ senders, r.isOf inboxKey tenant then
    senders.map fun r => if r.isOf inboxKey tenant then { r with claimedAt := now } else r
  else senders ++ [⟨inboxKey, tenant, now, none⟩]

/-- One hit on each of the business's own keys. -/
def Inboxes.hitOwn (s : Inboxes τ α δ) (now : ℤ) (own : List (OwnLimit τ δ)) :
    RateLimits (LinkKey τ δ) :=
  own.foldl (fun t l => t.hit l.window now [l.key]) s.table

def Inboxes.callAt (s : Inboxes τ α δ) (i : ℕ) (stage : LinkStage → Bool) :
    Option (LinkCall τ α) :=
  (s.calls[i]?).filter fun c => stage c.stage

def LinkStage.isClaimed : LinkStage → Bool
  | .claimed _ => true
  | _ => false

def Inboxes.restage (s : Inboxes τ α δ) (i : ℕ) (c : LinkCall τ α) (stage : LinkStage) :
    Inboxes τ α δ :=
  { s with calls := s.calls.set i { c with stage := stage } }

/-- The rest of `_claim`, once the own limits were read: `PURGE_SENDERS`, `SENDERS` and
`CLAIM` under the inbox's lock. A 429 rolls all three back. -/
def Inboxes.claim (d : Digests τ α δ) (s : Inboxes τ α δ) (now : ℤ) (purged : List (δ × τ))
    (i : ℕ) (c : LinkCall τ α) : Inboxes τ α δ :=
  let key := d.ofAddress c.address
  let senders := purgeSenders s.senders now purged
  if ¬ (mine senders now key c.tenant ∨ c.exempt) ∧
      businessesPerAddressADay ≤ others senders now key c.tenant then
    s.restage i c .ended
  else
    { s.restage i c (.claimed s.clock) with
      senders := claimRow senders now key c.tenant
      claims := s.claims ++ [⟨key, c.tenant, s.clock⟩] }

/-- `send_link`: a 429 or 503 rolls the request back. -/
def Inboxes.send (d : Digests τ α δ) (s : Inboxes τ α δ) (i : ℕ) (c : LinkCall τ α) :
    Inboxes τ α δ :=
  let own := ownLimits d c.tenant c.address
  let table := s.hitOwn c.openedAt own
  let key := d.ofAddress c.address
  if (∃ l ∈ own, l.cap < (table.last l.key).hits) ∨ ¬ ∃ r ∈ s.senders, r.isOf key c.tenant then
    s.restage i c .ended
  else
    { s.restage i c .ended with
      table := table
      senders := s.senders.map fun r =>
        if r.isOf key c.tenant then { r with linkedAt := some c.openedAt } else r
      links := s.links ++
        [⟨c.tenant, c.address, s.clock, own.map fun l => table.last l.key⟩] }

def Inboxes.apply (d : Digests τ α δ) (s : Inboxes τ α δ) (now : ℤ) :
    LinkOp τ α δ → Option (Inboxes τ α δ)
  | .open tenant address exempt =>
      some { s with calls := s.calls ++ [⟨tenant, address, exempt, now, .opened⟩] }
  | .check i => (s.callAt i (· = .opened)).map fun c : LinkCall τ α =>
      if ∃ l ∈ ownLimits d c.tenant c.address, l.cap ≤ s.table.count l.window now l.key then
        s.restage i c .ended
      else s.restage i c .checked
  | .claim i purged => (s.callAt i (· = .checked)).map fun c => s.claim d now purged i c
  | .send i => (s.callAt i LinkStage.isClaimed).map fun c => s.send d i c
  | .fail i => (s.callAt i fun _ => true).map fun c => s.restage i c .ended
  | .purge keys => some { s with table := s.table.purge now keys }
  | .sweep purged => some { s with senders := purgeSenders s.senders now purged }

def Inboxes.step (d : Digests τ α δ) (s : Inboxes τ α δ) (e : LinkStep τ α δ) :
    Option (Inboxes τ α δ) :=
  if s.clock ≤ e.clock ∧ e.now ≤ e.clock then { s with clock := e.clock }.apply d e.now e.op
  else none

def Inboxes.run (d : Digests τ α δ) (s : Inboxes τ α δ) (es : List (LinkStep τ α δ)) :
    Option (Inboxes τ α δ) :=
  Runs.run (Inboxes.step d) s es

end Step

end Ziftbook
