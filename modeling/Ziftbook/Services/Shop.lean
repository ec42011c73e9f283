import Ziftbook.Clients.Records
import Ziftbook.Foundation.Journal

/-!
# What a business sells

`app/services.py` on one business's tables, with `members.remove` and an accepted invitation,
which change who performs what, and `change_currency`. Each function is one transaction. Uuids
are numbers; a typed text is the list of its code points, checked before it comes here.
-/

namespace Ziftbook.Services

open Foundation Csp

/-! ## § Rows -/

/-- `dict[Locale, str]`. -/
structure Texts where
  en : Option Text
  nl : Option Text
  pt : Option Text
deriving DecidableEq

inductive Placeholder
  | generic | nails | hair | beauty | massage
deriving DecidableEq, Repr

inductive Currency
  | brl | eur | gbp | usd
deriving DecidableEq, Repr

abbrev Amount := {n : ℕ // n ≤ 1000000}

abbrev Duration := {n : ℕ // 5 ≤ n ∧ n ≤ 720}

abbrev Buffer := {n : ℕ // n ≤ 240}

/-- The photo columns, all or none of them null. The key is the business's id, the service's and
the upload's. -/
structure Photo where
  upload : ℕ
  width : ℕ
  height : ℕ
deriving DecidableEq

structure ServiceRow where
  id : ℕ
  name : Texts
  description : Texts
  amountMinor : Amount
  currency : Currency
  durationMinutes : Duration
  bufferMinutes : Option Buffer
  placeholder : Placeholder
  photo : Option Photo
  archivedAt : Option ℤ
deriving DecidableEq

/-- `photo_key`, without the business: a service's id and an upload's. -/
structure PhotoKey where
  service : ℕ
  upload : ℕ
deriving DecidableEq

def ServiceRow.photoKey (row : ServiceRow) : Option PhotoKey :=
  row.photo.map fun photo => ⟨row.id, photo.upload⟩

/-- A membership; its row stays when it ends. -/
structure MemberRow where
  id : ℕ
  userId : ℕ
  removed : Bool
deriving DecidableEq

/-- A row of `service_workers`. -/
structure Assignment where
  service : ℕ
  member : ℕ
deriving DecidableEq

/-- A `media.delete` job; `done` once an attempt succeeded. -/
structure DeleteJob where
  id : ℕ
  key : PhotoKey
  done : Bool
deriving DecidableEq

/-! ## § Audit events -/

structure Diff (α : Type) where
  old : α
  new : α
deriving DecidableEq

inductive PhotoChange
  | added | removed | replaced
deriving DecidableEq, Repr

/-- `service_changed`'s details: of a text, that it changed. -/
structure ChangeDetails where
  name : Bool
  description : Bool
  price : Option (Diff Amount)
  durationMinutes : Option (Diff Duration)
  bufferMinutes : Option (Diff (Option Buffer))
  archived : Option (Diff Bool)
  placeholder : Option (Diff Placeholder)
  photo : Option PhotoChange
deriving DecidableEq

/-- `{}`. -/
def ChangeDetails.empty : ChangeDetails := ⟨false, false, none, none, none, none, none, none⟩

inductive Action
  | serviceCreated (service : ℕ)
  | serviceChanged (service : ℕ) (details : ChangeDetails)
  | serviceWorkersChanged (service : ℕ) (added removed : List ℕ)
  | memberRemoved (user : ℕ)
  | currencyChanged (old new : Currency)
deriving DecidableEq

/-- A row of `audit_events`. -/
structure AuditEvent where
  createdAt : ℤ
  action : Action
deriving DecidableEq

/-- One business. -/
structure Shop where
  currency : Currency
  services : Table ServiceRow ℕ ServiceRow.id
  assigned : List Assignment
  members : Table MemberRow ℕ MemberRow.id
  events : List AuditEvent
  jobs : Table DeleteJob ℕ DeleteJob.id
  /-- Whether it has a booking, and a payment account. -/
  booked : Bool
  connected : Bool

inductive Refusal
  | notFound | unknownMember | internal | lockedBookings | lockedPayments | pricesExist (n : ℕ)
deriving DecidableEq, Repr

def Shop.record (s : Shop) (now : ℤ) (action : Action) : Shop :=
  { s with events := s.events ++ [⟨now, action⟩] }

/-! ## § Who performs a service -/

/-- The users behind the members, as an event names them. -/
def usersOf (members : List MemberRow) : List ℕ :=
  (members.map MemberRow.userId).insertionSort (· ≤ ·)

/-- `assign_workers`: locks the members, then replaces the assignments. -/
def Shop.assignWorkers (s : Shop) (now : ℤ) (service : ℕ) (memberIds : List ℕ) :
    Except Refusal Shop :=
  let ids := (memberIds.dedup).insertionSort (· ≤ ·)
  let users := s.members.rows.filter fun m => m.id ∈ ids ∧ m.removed = false
  if users.length ≠ ids.length then .error .unknownMember
  else
    let removed := s.assigned.filter fun a => a.service = service ∧ a.member ∉ ids
    let added := ids.filter fun id => ⟨service, id⟩ ∉ s.assigned
    let s' := { s with
      assigned := s.assigned.filter (fun a => ¬ (a.service = service ∧ a.member ∉ ids)) ++
        added.map fun id => ⟨service, id⟩ }
    if added = [] ∧ removed = [] then .ok s'
    else .ok (s'.record now (.serviceWorkersChanged service
      (usersOf (users.filter fun m => m.id ∈ added))
      (usersOf (s.members.rows.filter fun m => m.id ∈ removed.map Assignment.member))))

/-- `replace_workers`. -/
def Shop.replaceWorkers (s : Shop) (now : ℤ) (service : ℕ) (memberIds : List ℕ) :
    Except Refusal Shop :=
  match s.services.find service with
  | none => .error .notFound
  | some _ => s.assignWorkers now service memberIds

/-- `members.remove`, where nothing keeps the member. -/
def Shop.removeMember (s : Shop) (now : ℤ) (memberId : ℕ) : Except Refusal Shop :=
  match s.members.rows.find? fun m => m.id = memberId ∧ m.removed = false with
  | none => .error .notFound
  | some m => .ok ({ s with
      assigned := s.assigned.filter fun a => a.member ≠ memberId
      members := s.members.update (fun m => m.id = memberId) (fun m => { m with removed := true })
        fun _ => rfl }.record now (.memberRemoved m.userId))

def Shop.nextMember (s : Shop) : ℕ := (s.members.rows.map MemberRow.id).foldr max 0 + 1

/-- `accept_invite`'s upsert: a new member, or a removed one back. -/
def Shop.acceptInvite (s : Shop) (user : ℕ) : Shop :=
  if ∃ m ∈ s.members.rows, m.userId = user then
    { s with
      members := s.members.update (fun m => m.userId = user ∧ m.removed = true)
        (fun m => { m with removed := false }) fun _ => rfl }
  else
    { s with
      members := s.members.add ⟨s.nextMember, user, false⟩ fun _ hm =>
        (Clients.lt_foldr_max _ (List.mem_map_of_mem hm)).ne }

/-! ## § Services -/

/-- `ServiceIn`, its photo aside. -/
structure ServiceIn where
  name : Texts
  description : Texts
  amountMinor : Amount
  durationMinutes : Duration
  bufferMinutes : Option Buffer
  workerIds : List ℕ
  placeholder : Placeholder
deriving DecidableEq

def ServiceIn.row (new : ServiceIn) (id : ℕ) (currency : Currency) (photo : Option Photo) :
    ServiceRow :=
  ⟨id, new.name, new.description, new.amountMinor, currency, new.durationMinutes,
    new.bufferMinutes, new.placeholder, photo, none⟩

/-- `create_service`'s transaction. -/
def Shop.createService (s : Shop) (now : ℤ) (id : ℕ) (new : ServiceIn) (stored : Option Photo) :
    Except Refusal Shop :=
  match s.services.insert (new.row id s.currency stored) with
  | none => .error .internal
  | some services =>
      let s' := { s with services := services }.record now (.serviceCreated id)
      if new.workerIds = [] then .ok s' else s'.assignWorkers now id new.workerIds

/-- `ServiceChange`, its photo aside: the fields sent. -/
structure ServiceChange where
  name : Option Texts
  description : Option Texts
  amountMinor : Option Amount
  durationMinutes : Option Duration
  bufferMinutes : Option (Option Buffer)
  archived : Option Bool
  placeholder : Option Placeholder
deriving DecidableEq

/-- A field sent that is another value than before. -/
def diff {α : Type} [DecidableEq α] (before : α) (sent : Option α) : Option (Diff α) :=
  sent.bind fun value => if before ≠ value then some ⟨before, value⟩ else none

/-- What becomes of the photo, as the event says it. -/
def photoChange (before stored : Option Photo) : PhotoChange :=
  match before, stored with
  | _, none => .removed
  | none, some _ => .added
  | some _, some _ => .replaced

/-- The photo to swap is still another than the row's. -/
def ServiceRow.swaps (row : ServiceRow) (swap : Bool) (stored : Option Photo) : Bool :=
  swap && decide (row.photo.map Photo.upload ≠ stored.map Photo.upload)

/-- `changed`. -/
def ServiceChange.details (change : ServiceChange) (row : ServiceRow) (swap : Bool)
    (stored : Option Photo) : ChangeDetails where
  name := (diff row.name change.name).isSome
  description := (diff row.description change.description).isSome
  price := diff row.amountMinor change.amountMinor
  durationMinutes := diff row.durationMinutes change.durationMinutes
  bufferMinutes := diff row.bufferMinutes change.bufferMinutes
  archived := diff row.archivedAt.isSome change.archived
  placeholder := diff row.placeholder change.placeholder
  photo := if row.swaps swap stored then some (photoChange row.photo stored) else none

/-- The `UPDATE`: an archived service keeps the time it was first archived. -/
def ServiceChange.apply (change : ServiceChange) (now : ℤ) (swap : Bool) (stored : Option Photo)
    (row : ServiceRow) : ServiceRow :=
  { row with
    name := change.name.getD row.name
    description := change.description.getD row.description
    amountMinor := change.amountMinor.getD row.amountMinor
    durationMinutes := change.durationMinutes.getD row.durationMinutes
    bufferMinutes := change.bufferMinutes.getD row.bufferMinutes
    placeholder := change.placeholder.getD row.placeholder
    photo := if row.swaps swap stored then stored else row.photo
    archivedAt := if change.archived.getD row.archivedAt.isSome then
        some (row.archivedAt.getD now)
      else none }

def Shop.nextJob (s : Shop) : ℕ := (s.jobs.rows.map DeleteJob.id).foldr max 0 + 1

/-- `jobs.enqueue` of a `media.delete`: its dedupe key is never taken. -/
def Shop.enqueueDelete (s : Shop) (key : PhotoKey) : Shop :=
  { s with
    jobs := s.jobs.add ⟨s.nextJob, key, false⟩ fun _ hj =>
      (Clients.lt_foldr_max _ (List.mem_map_of_mem hj)).ne }

/-- The deletion of the photo that was swapped out. -/
def Shop.dropPhoto (s : Shop) (swapped : Bool) (old : Option PhotoKey) : Shop :=
  match swapped, old with
  | true, some key => s.enqueueDelete key
  | _, _ => s

/-- `update_service`'s second transaction. -/
def Shop.updateService (s : Shop) (now : ℤ) (id : ℕ) (change : ServiceChange) (swap : Bool)
    (stored : Option Photo) : Except Refusal Shop :=
  match s.services.find id with
  | none => .error .notFound
  | some row =>
      let details := change.details row swap stored
      if details = .empty then .ok s
      else
        let updated := { s with
          services := s.services.update (fun r => r.id = id) (change.apply now swap stored)
            fun _ => rfl }
        .ok ((updated.dropPhoto (row.swaps swap stored) row.photoKey).record now
          (.serviceChanged id details))

/-! ## § The business's currency -/

/-- `change_currency`: saved prices keep their numbers and take the new one. -/
def Shop.changeCurrency (s : Shop) (now : ℤ) (currency : Currency) (confirmed : Option ℕ) :
    Except Refusal Shop :=
  if s.currency = currency then .ok s
  else if s.booked then .error .lockedBookings
  else if s.connected then .error .lockedPayments
  else if s.services.rows ≠ [] ∧ confirmed ≠ some s.services.rows.length then
    .error (.pricesExist s.services.rows.length)
  else .ok ({ s with
      currency := currency
      services := s.services.update (fun _ => True) (fun row => { row with currency := currency })
        fun _ => rfl }.record now (.currencyChanged s.currency currency))

end Ziftbook.Services
