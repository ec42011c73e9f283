import Ziftbook.Availability.SlotMeaning
import Ziftbook.Errors
import Ziftbook.Store.Statements

/-!
# Who is offered when

`availability.offered` is the one implementation of "is this slot bookable"
that the public read, the merchant's read and every write share. `compute` is
the answer of the two reads.
-/

namespace Ziftbook

open Foundation.Intervals

structure Offered where
  slots : List (ℕ × List ℤ)
  booked : List BookedRow

/-- `result.slots[member]`, or none for a member not asked about. -/
def Offered.slotsOf (o : Offered) (member : ℕ) : List ℤ := (o.slots.lookup member).getD []

/-- The padded window `booked()` and `time_off()` read for days `first..last`. -/
def readWindow (zone : Zone) (first last : ℤ) : ℤ × ℤ :=
  (toUtc zone (first - 1) 0, toUtc zone (last + 2) 0)

/-- `offered`: each member's bookable starts on days already clamped by
`window`. -/
def offered (db : Db) (now : ℤ) (members : List ℕ) (hours : List WorkingHour)
    (opening : List (ℤ × List (ℤ × ℤ))) (settings : Settings)
    (first last earliest duration buffer : ℤ) (exclude : Option ℕ) : Offered :=
  if members = [] ∨ last < first then ⟨[], []⟩
  else
    let zone := settings.timezone
    let start := (readWindow zone first last).1
    let stop := (readWindow zone first last).2
    let bookedRows := db.booked members start stop now exclude
    ⟨members.map fun m =>
        (m, memberSlots (hoursOf hours m) (db.timeOffOf m first last zone start stop)
          ((bookedRows.filter fun r => r.workerId = m).map BookedRow.booked) opening zone
          first last duration buffer settings.bufferPct settings.slotStepMinutes earliest
          settings.slotStep_pos),
      bookedRows⟩

/-- `AvailabilityOut`: the service's workers, the starts, and for each start who
can take it, as indices into the workers. -/
structure Answer where
  workers : List ℕ
  slots : List ℤ
  slotWorkers : List (List ℕ)
deriving DecidableEq

/-- The answer names the worker beside the start. -/
def Answer.offers (a : Answer) (worker : ℕ) (start : ℤ) : Prop :=
  ∃ (i j : ℕ) (takers : List ℕ), a.slots[j]? = some start ∧
    a.slotWorkers[j]? = some takers ∧ i ∈ takers ∧ a.workers[i]? = some worker

/-- `compute`: everything after the gates, for the public and the merchant's
read. -/
def compute (db : Db) (now : ℤ) (service : Service) (memberId : Option ℕ) (first last : ℤ)
    (exclude : Option ℕ) : Answer :=
  let settings := db.settings
  let hours := db.candidates service.id none
  let workers := candidateIds hours
  let chosen := workers.filter fun m => memberId = none ∨ memberId = some m
  let clamped := window now settings.timezone first last settings.minNoticeMinutes
    settings.bookingHorizonDays
  let buffer := bufferFor service.durationMinutes service.bufferMinutes settings.bufferPct
  let result := offered db now chosen hours (byWeekday db.openingHours) settings clamped.1
    clamped.2.1 clamped.2.2 service.durationMinutes buffer exclude
  let order := ((workers.flatMap result.slotsOf).dedup).insertionSort (· ≤ ·)
  { workers := workers
    slots := order
    slotWorkers := order.map fun slot =>
      (workers.zipIdx.filter fun w => slot ∈ result.slotsOf w.1).map Prod.snd }

/-- `MAX_DAYS`. -/
def maxDays : ℤ := 14

/-- The range a read admits. -/
def validRange (first last : ℤ) : Prop := first ≤ last ∧ last - first < maxDays

instance (first last : ℤ) : Decidable (validRange first last) :=
  inferInstanceAs (Decidable (_ ∧ _))

/-- `read_availability`, the public route. `limited` is the rate limit's answer. -/
def readAvailability (db : Db) (now : ℤ) (limited : Bool) (serviceId : ℕ)
    (memberId : Option ℕ) (first last : ℤ) : Except ApiError Answer := do
  require (limited = false) ⟨429, .rateLimited⟩
  require (validRange first last) ⟨422, .invalidRange⟩
  let service ← found (db.service serviceId) ⟨404, .notFound⟩
  require (db.settings.published = true) ⟨404, .notFound⟩
  .ok (compute db now service memberId first last none)

/-- A signed-in member. -/
structure Session where
  userId : ℕ
  owner : Bool
deriving DecidableEq

/-- `members.may_manage`: an owner manages everyone's data; anyone else their
own. -/
def Session.mayManage (current : Session) (userId : ℕ) : Prop :=
  current.owner = true ∨ userId = current.userId

instance (current : Session) (userId : ℕ) : Decidable (current.mayManage userId) :=
  inferInstanceAs (Decidable (_ ∨ _))

/-- The user behind a booking's worker (`WORKER_OF`, and `BOOKING`'s join). -/
def Db.workerUser (db : Db) (b : Booking) : Option ℕ :=
  (db.member b.workerId).map Member.userId

/-- `read_merchant_availability`. -/
def readMerchantAvailability (db : Db) (now : ℤ) (current : Session) (serviceId : ℕ)
    (memberId : Option ℕ) (first last : ℤ) (exclude : Option ℕ) : Except ApiError Answer := do
  require (validRange first last) ⟨422, .invalidRange⟩
  let service ← found (db.service serviceId) ⟨404, .notFound⟩
  require (∀ id ∈ exclude, ∃ user ∈ (db.bookings.find id).bind db.workerUser,
    current.mayManage user) ⟨404, .notFound⟩
  .ok (compute db now service memberId first last exclude)

end Ziftbook
