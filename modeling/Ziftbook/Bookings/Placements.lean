import Ziftbook.Foundation.Runs
import Ziftbook.Limits.Counters

/-!
# The places a booking reserves

`app/bookings.py`'s `create` from its reservations on: the placements of the
address, charged together; the guests' place at the business; the booking; and
`give_back` when nothing was placed. Requests interleave. Each statement runs on
its transaction's clock, read before the statement waits its turn.
-/

namespace Ziftbook

open Foundation

/-- `LIMIT_WINDOW`. -/
def limitWindow : ℤ := 60 * minute

/-- `ADDRESS_LIMIT`. -/
def addressLimit : ℕ := 10

/-- `EMAIL_LIMIT`. -/
def emailLimit : ℕ := 5

/-- `UNPROVEN_PER_BUSINESS_HOUR`. -/
def unprovenPerBusinessHour : ℕ := 20

/-- The keys `create` reserves on: `booking_verify`, `booking_placed` and
`booking_unproven`. -/
inductive PlacementKey (τ δ : Type)
  | verify (address : δ)
  | placed (businessAddress : δ)
  | unproven (tenant : τ)
deriving DecidableEq

variable {τ α δ : Type}

def PlacementKey.limit : PlacementKey τ δ → ℕ
  | .verify _ => addressLimit
  | .placed _ => emailLimit
  | .unproven _ => unprovenPerBusinessHour

/-! ## § The requests -/

/-- Where a request is: before its placements, before its guest's place, in the
booking transaction, committed, to give its places back, or with nothing. -/
inductive CreateStage
  | arrived | guest | booking | placed | refused | over
deriving DecidableEq

/-- One `create`, from step 4. `places` is its `reserved`, with the window each key
was counted in. `folded` is `limits.address_for_limits` of its address. -/
structure CreateRequest (τ α δ : Type) where
  tenant : τ
  folded : α
  proven : Bool
  stage : CreateStage
  places : List (Place (PlacementKey τ δ))

/-- `placements`. -/
def CreateRequest.placements (d : Digests τ α δ) (r : CreateRequest τ α δ) :
    List (PlacementKey τ δ) :=
  [.verify (d.ofAddress r.folded), .placed (d.ofBusiness r.tenant r.folded)]

/-- The table and the requests that arrived. -/
structure Placements (τ α δ : Type) where
  clock : ℤ
  table : RateLimits (PlacementKey τ δ)
  requests : List (CreateRequest τ α δ)

def Placements.empty : Placements τ α δ := ⟨0, Windows.empty, []⟩

inductive CreateOp (τ α δ : Type)
  | arrive (tenant : τ) (folded : α) (proven : Bool)
  /-- Step 4: `hit(placements)`. -/
  | reserve (i : ℕ)
  /-- Step 5: `charge(unproven)`. -/
  | chargeGuest (i : ℕ)
  /-- The charge raised, and counted nothing. -/
  | chargeFails (i : ℕ)
  /-- The booking transaction committed. -/
  | place (i : ℕ)
  /-- It refused, or failed. -/
  | refuse (i : ℕ)
  | giveBack (i : ℕ)
  | purge (keys : List (PlacementKey τ δ))

/-- The request whose places go back. -/
def CreateOp.refunds : CreateOp τ α δ → Option ℕ
  | .giveBack i => some i
  | _ => none

/-- A statement runs at `clock`, on a transaction's `now()`. -/
structure CreateStep (τ α δ : Type) where
  clock : ℤ
  now : ℤ
  op : CreateOp τ α δ

section Step

variable [DecidableEq τ] [DecidableEq δ]

def Placements.put (s : Placements τ α δ) (i : ℕ) (table : RateLimits (PlacementKey τ δ))
    (r : CreateRequest τ α δ) : Placements τ α δ :=
  { s with table := table, requests := s.requests.set i r }

/-- The keys counted, and the request with its places; `stage` unless a key is over
its limit. -/
def Placements.charge (s : Placements τ α δ) (now : ℤ) (i : ℕ) (r : CreateRequest τ α δ)
    (keys : List (PlacementKey τ δ)) (stage : CreateStage) : Placements τ α δ :=
  let table := s.table.hit limitWindow now keys
  s.put i table { r with
    stage := if RateLimits.over table PlacementKey.limit keys then .refused else stage
    places := keys.map table.last ++ r.places }

/-- The request, when it is at that stage. -/
def Placements.at (s : Placements τ α δ) (i : ℕ) (stage : CreateStage) :
    Option (CreateRequest τ α δ) :=
  (s.requests[i]?).filter fun r => r.stage = stage

def Placements.apply (d : Digests τ α δ) (s : Placements τ α δ) (now : ℤ) :
    CreateOp τ α δ → Option (Placements τ α δ)
  | .arrive tenant folded proven =>
      some { s with requests := s.requests ++ [⟨tenant, folded, proven, .arrived, []⟩] }
  | .reserve i => (s.at i .arrived).map fun r =>
      s.charge now i r (r.placements d) (if r.proven then .booking else .guest)
  | .chargeGuest i => (s.at i .guest).map fun r => s.charge now i r [.unproven r.tenant] .booking
  | .chargeFails i => (s.at i .guest).map fun r => s.put i s.table { r with stage := .refused }
  | .place i => (s.at i .booking).map fun r => s.put i s.table { r with stage := .placed }
  | .refuse i => (s.at i .booking).map fun r => s.put i s.table { r with stage := .refused }
  -- `refund(reserved)`: by the keys alone. One that fails leaves the request as it is.
  | .giveBack i => (s.at i .refused).map fun r =>
      s.put i (s.table.giveBack limitWindow now (r.places.map Place.key))
        { r with stage := .over, places := [] }
  | .purge keys => some { s with table := s.table.purge now keys }

/-- Clocks only advance, and a transaction has begun before its statement runs. -/
def Placements.step (d : Digests τ α δ) (s : Placements τ α δ) (e : CreateStep τ α δ) :
    Option (Placements τ α δ) :=
  if s.clock ≤ e.clock ∧ e.now ≤ e.clock then { s with clock := e.clock }.apply d e.now e.op
  else none

def Placements.run (d : Digests τ α δ) (s : Placements τ α δ) (es : List (CreateStep τ α δ)) :
    Option (Placements τ α δ) :=
  Runs.run (Placements.step d) s es

/-! ## § What is counted -/

/-- The request was charged in the key's window of that number, and not refunded. -/
def CreateRequest.holds (r : CreateRequest τ α δ) (k : PlacementKey τ δ) (n : ℕ) : Prop :=
  ∃ p ∈ r.places, p.key = k ∧ p.number = n

instance (r : CreateRequest τ α δ) (k : PlacementKey τ δ) (n : ℕ) : Decidable (r.holds k n) :=
  inferInstanceAs (Decidable (∃ p ∈ r.places, _))

/-- The requests charged in a window that placed their booking. -/
def Placements.succeeded (s : Placements τ α δ) (k : PlacementKey τ δ) (n : ℕ) : ℕ :=
  s.requests.countP fun r => r.stage = .placed ∧ r.holds k n

/-- Those that neither placed it nor gave their place back. -/
def Placements.inFlight (s : Placements τ α δ) (k : PlacementKey τ δ) (n : ℕ) : ℕ :=
  s.requests.countP fun r => r.stage ≠ .placed ∧ r.holds k n

/-- A refund finds each of its keys in the window it was charged in, where it finds the
key's window running. -/
def Placements.sameWindow (s : Placements τ α δ) (e : CreateStep τ α δ) : Prop :=
  ∀ i ∈ e.op.refunds, ∀ r ∈ s.requests[i]?, ∀ p ∈ r.places, ∀ c ∈ s.table.rows p.key,
    c.running limitWindow e.now → p.number = s.table.opened p.key

instance (s : Placements τ α δ) (e : CreateStep τ α δ) : Decidable (s.sameWindow e) :=
  inferInstanceAs (Decidable (∀ i ∈ e.op.refunds, ∀ r ∈ s.requests[i]?, ∀ p ∈ r.places,
    ∀ c ∈ s.table.rows p.key, _ → _))

end Step

end Ziftbook
