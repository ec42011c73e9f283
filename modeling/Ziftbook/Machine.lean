import Ziftbook.Bookings.Operations
import Ziftbook.Foundation.Runs
import Ziftbook.Members
import Ziftbook.Payments.Settling

/-!
# The business as a state machine

Every write that takes the tenant lock is one operation. Operations run one
after another, each on the clock its transaction read when it opened, so the
clocks need not come in the order of the lock. A refused operation changes no
table.
-/

namespace Ziftbook

open Foundation

/-! ## § The merchant's other edits -/

/-- Edits of what bookings are made from. Services are archived, never deleted. -/
inductive Edit
  | settings (settings : Settings)
  | addService (service : Service)
  | updateService (service : Service)
  | serviceWorkers (workers : List ServiceWorker)
  | workingHours (hours : List WorkingHour)
  | openingHours (rows : List Row)
  | addLink (link : Link)

/-- `update_service`'s UPDATE: every column but the id. -/
def Db.updateService (db : Db) (service : Service) : Db :=
  { db with
    services := db.services.update (fun s => s.id = service.id)
      (fun s => { service with id := s.id }) fun _ => rfl
    booked_service := by
      intro b hb
      obtain ⟨s, hs, hid⟩ := db.booked_service b hb
      by_cases h : s.id = service.id
      · exact ⟨_, Table.mem_update.mpr (Or.inl ⟨s, hs, h, rfl⟩), hid⟩
      · exact ⟨s, Table.mem_update.mpr (Or.inr ⟨hs, h⟩), hid⟩ }

theorem Db.mem_updateService {db : Db} {service s : Service} :
    s ∈ (db.updateService service).services.rows ↔
      (∃ old ∈ db.services.rows, old.id = service.id ∧ { service with id := old.id } = s) ∨
      (s ∈ db.services.rows ∧ ¬ s.id = service.id) := by
  have hkeeps : ∀ old : Service, ({ service with id := old.id } : Service).id = old.id :=
    fun _ => rfl
  exact @Table.mem_update _ _ _ db.services (fun s => s.id = service.id) _
    (fun s => { service with id := s.id }) hkeeps s

def Db.addService (db : Db) (service : Service) : Option Db :=
  match h : db.services.insert service with
  | none => none
  | some services => some { db with
      services := services
      booked_service := by
        intro b hb
        obtain ⟨s, hs, hid⟩ := db.booked_service b hb
        refine ⟨s, ?_, hid⟩
        rw [(Table.insert_eq_some h).2]
        exact List.mem_append_left _ hs }

/-- A service is added, and nothing else changes. -/
structure Db.AddedService (db db' : Db) (service : Service) : Prop where
  services : db'.services.rows = db.services.rows ++ [service]
  settings : db'.settings = db.settings
  memberships : db'.memberships = db.memberships
  timeOff : db'.timeOff = db.timeOff
  bookings : db'.bookings = db.bookings

theorem Db.addService_eq_some {db db' : Db} {service : Service}
    (h : db.addService service = some db') : db.AddedService db' service := by
  unfold Db.addService at h
  split at h
  · cases h
  · rename_i services hinsert
    cases h
    exact ⟨(Table.insert_eq_some hinsert).2, rfl, rfl, rfl, rfl⟩

def Db.edit (db : Db) : Edit → Except ApiError Db
  | .settings settings => .ok { db with settings := settings }
  | .addService service => found (db.addService service) ⟨500, .internal⟩
  | .updateService service => .ok (db.updateService service)
  | .serviceWorkers workers => .ok { db with serviceWorkers := workers }
  | .workingHours hours => .ok { db with workingHours := hours }
  | .openingHours rows => .ok { db with openingHours := rows }
  | .addLink link => .ok { db with links := db.links ++ [link] }

/-- A client's erasure: their live bookings end, then `erase_client_core` blanks the
record and deletes the links, unless a booking of theirs still is live. -/
def eraseClient (db : Db) (now : ℤ) (clientId : ℕ) (reason : ErasureReason)
    (at_ : Option ℤ) (actorUserId : Option ℕ) : Except ApiError Db := do
  let db := db.endForErasure clientId reason at_ actorUserId now
  require (¬ ∃ b ∈ db.bookings.rows, b.endsForErasure clientId now) ⟨500, .internal⟩
  .ok { db with
    clients := db.clients.update (fun c => c.id = clientId)
      (fun c => { c with email := none, erased := true }) fun _ => rfl
    links := db.links.filter fun l =>
      ¬ ∃ b ∈ db.bookings.rows, b.id = l.bookingId ∧ b.clientId = clientId }

/-! ## § Operations -/

inductive Op
  | bookOnline (new : OnlineRequest)
  | book (current : Session) (new : MerchantRequest)
  | reschedule (current : Session) (bookingId : ℕ) (change : MerchantMove)
  | linkReschedule (tokenHash : ℕ) (body : LinkMove)
  | linkCancel (tokenHash : ℕ) (body : LinkCancel)
  | confirmConsents (tokenHash : ℕ) (body : LinkConsents)
  | transition (current : Session) (bookingId : ℕ) (change : StatusChange)
  | sweep
  | eraseClient (clientId : ℕ) (reason : ErasureReason) (at_ : Option ℤ)
      (actorUserId : Option ℕ)
  | insertPayment (id bookingId : ℕ) (kind : PaymentKind) (intent : IntentId) (amount : ℤ)
      (currency : String)
  | giveBack (bookingId : ℕ)
  | reconcile (row : Payment) (state : IntentState)
  | resume (bookingId old id : ℕ) (kind : PaymentKind) (intent : IntentId) (amount : ℤ)
      (currency : String)
  | abandon (bookingId : ℕ) (payment : Option ℕ)
  | writeCanceled (paymentId : ℕ)
  | writeReleased (paymentId : ℕ)
  | recordRefund (row : SettleRow) (due : ℤ) (refundId : Option ℕ) (refunded : ℤ)
      (outcome : RefundOutcome) (overQuota : Bool)
  | refundChanged (intent : IntentId) (refundId : ℕ) (failed : Bool) (refunded : ℤ)
      (overQuota : Bool)
  | createTimeOff (current : Session) (memberId : ℕ) (new : Pair) (reason : Option String)
      (id : ℕ)
  | updateTimeOff (current : Session) (id : ℕ) (change : TimeOffChange)
  | deleteTimeOff (current : Session) (id : ℕ)
  | removeMember (current : Session) (memberId : ℕ)
  | rejoin (memberId : ℕ) (owner : Bool)
  | edit (edit : Edit)

/-- One operation on its transaction's clock. -/
def apply (db : Db) (now : ℤ) : Op → Except ApiError Db
  | .bookOnline new => Prod.fst <$> bookOnline db now new
  | .book current new => Prod.fst <$> book db now current new
  | .reschedule current bookingId change => reschedule db now current bookingId change
  | .linkReschedule tokenHash body => linkReschedule db now tokenHash body
  | .linkCancel tokenHash body => linkCancel db now tokenHash body
  | .confirmConsents tokenHash body => confirmConsents db now tokenHash body
  | .transition current bookingId change => transition db now current bookingId change
  | .sweep => .ok (db.expire now)
  | .eraseClient clientId reason at_ actorUserId =>
      eraseClient db now clientId reason at_ actorUserId
  | .insertPayment id bookingId kind intent amount currency =>
      found (db.insertPayment id bookingId kind intent amount currency) ⟨500, .internal⟩
  | .giveBack bookingId => .ok (db.giveBack bookingId)
  | .reconcile row state => .ok (db.reconcile now row state)
  | .resume bookingId old id kind intent amount currency =>
      db.resume now bookingId old id kind intent amount currency
  | .abandon bookingId payment => db.abandon now bookingId payment
  | .writeCanceled paymentId => .ok (db.updatePayment paymentId (fun p => p.markCanceled now)
      fun _ => Payment.markCanceled_id ..)
  | .writeReleased paymentId => .ok (db.updatePayment paymentId (fun p => p.released now)
      fun _ => Payment.released_id ..)
  | .recordRefund row due refundId refunded outcome overQuota =>
      .ok (db.recordRefund now row due refundId refunded outcome overQuota)
  | .refundChanged intent refundId failed refunded overQuota =>
      .ok (db.refundChanged now intent refundId failed refunded overQuota)
  | .createTimeOff current memberId new reason id =>
      createTimeOff db now current memberId new reason id
  | .updateTimeOff current id change => updateTimeOff db now current id change
  | .deleteTimeOff current id => deleteTimeOff db current id
  | .removeMember current memberId => removeMember db now current memberId
  | .rejoin memberId owner => .ok (db.rejoin memberId owner)
  | .edit edit => db.edit edit

/-- The database and the latest clock value used so far. -/
structure World where
  db : Db
  latest : ℤ

/-- One step: the operation, or nothing when it is refused. -/
def World.step (w : World) (e : ℤ × Op) : Option World :=
  match apply w.db e.1 e.2 with
  | .ok db => some ⟨db, max w.latest e.1⟩
  | .error _ => some ⟨w.db, max w.latest e.1⟩

/-- A run of operations, each with its clock. -/
def World.run (w : World) (es : List (ℤ × Op)) : Option World := Runs.run World.step w es

theorem World.step_cases {w w' : World} {e : ℤ × Op} (h : w.step e = some w') :
    w'.latest = max w.latest e.1 ∧ (apply w.db e.1 e.2 = .ok w'.db ∨ w'.db = w.db) := by
  unfold World.step at h
  split at h
  · rename_i db hdb
    cases h
    exact ⟨rfl, Or.inl hdb⟩
  · cases h
    exact ⟨rfl, Or.inr rfl⟩

/-! ## § A small business -/

/-- Half an hour, and half an hour's buffer. -/
def halfHour : Service := ⟨1, 30, some 30, 1000, "EUR", false, by decide, by decide⟩

def owner : Session := ⟨1, true⟩

def ownerBooks (id : ℕ) (start : ℤ) : Op :=
  .book owner ⟨.known 1, 1, none, start, false, none, id⟩

def ownerSets (id : ℕ) (status : Target) : Op := .transition owner id ⟨status, none, none⟩

/-- Open on Thursdays 9:00–12:00, as 1 January 1970 is. -/
def thursdayShop : World :=
  ⟨.solo (.defaults (.fixed 0)) halfHour [morning], 0⟩

end Ziftbook
