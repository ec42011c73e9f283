import Ziftbook.Foundation.Pool
import Ziftbook.Services.Shop

/-!
# Saves of services, side by side

An owner's Save of a service reads it in one transaction, stores the photo's two variants with no
transaction open, and writes the service in another; `media_delete` asks whether a photo is in
use and then deletes its objects. Saves, deletions and the business's other requests interleave
at these steps; any of them may stop at any of them.
-/

namespace Ziftbook.Services

open Foundation

inductive Variant
  | thumb | detail
deriving DecidableEq, Repr

/-- The business's tables, and the objects of the media bucket under its prefix. -/
structure Studio where
  shop : Shop
  media : List (PhotoKey × Variant)

/-- A Save's second transaction. -/
inductive Save
  | create (id : ℕ) (new : ServiceIn)
  | update (id : ℕ) (change : ServiceChange) (swap : Bool)
deriving DecidableEq

/-- The id of the service saved. -/
def Save.service : Save → ℕ
  | .create id _ => id
  | .update id _ _ => id

def Save.key (save : Save) (photo : Photo) : PhotoKey := ⟨save.service, photo.upload⟩

def Save.commit (save : Save) (s : Shop) (now : ℤ) (stored : Option Photo) :
    Except Refusal Shop :=
  match save with
  | .create id new => s.createService now id new stored
  | .update id change swap => s.updateService now id change swap stored

inductive Task
  /-- `finalize`'s two puts, of a photo found fit. -/
  | putThumb (save : Save) (photo : Photo)
  | putDetail (save : Save) (photo : Photo)
  | commit (save : Save) (stored : Option Photo)
  /-- `media_delete`'s statement, and its deletion. -/
  | check (job : ℕ) (key : PhotoKey)
  | delete (job : ℕ) (key : PhotoKey)
deriving DecidableEq

/-- A request of one transaction. -/
inductive Deed
  | replaceWorkers (now : ℤ) (service : ℕ) (memberIds : List ℕ)
  | removeMember (now : ℤ) (memberId : ℕ)
  | acceptInvite (user : ℕ)
  | changeCurrency (now : ℤ) (currency : Currency) (confirmed : Option ℕ)
  | book
  | connect
deriving DecidableEq

/-- What is started: a Save with the photo its upload makes, or an attempt at a job. -/
inductive Begun
  | create (id : ℕ) (new : ServiceIn) (upload : Option Photo)
  | update (id : ℕ) (change : ServiceChange) (upload : Option (Option Photo))
  | attempt (job : ℕ)
deriving DecidableEq

/-- The time of a transaction, and the objects the store refuses to delete. -/
structure Chance where
  now : ℤ
  refused : List Variant
deriving DecidableEq

def Deed.exec (s : Shop) : Deed → Except Refusal Shop
  | .replaceWorkers now service memberIds => s.replaceWorkers now service memberIds
  | .removeMember now memberId => s.removeMember now memberId
  | .acceptInvite user => .ok (s.acceptInvite user)
  | .changeCurrency now currency confirmed => s.changeCurrency now currency confirmed
  | .book => .ok { s with booked := true }
  | .connect => .ok { s with connected := true }

/-- A photo to store goes first. -/
def Save.tasks (save : Save) : Option Photo → List Task
  | some photo => [.putThumb save photo]
  | none => [.commit save none]

/-- `update_service`'s first transaction: the same upload again, or no photo to remove, swaps
nothing. -/
def ServiceRow.wants (row : ServiceRow) : Option (Option Photo) → Bool
  | none => false
  | some upload => decide (row.photo.map Photo.upload ≠ upload.map Photo.upload)

def Studio.start (s : Studio) : Begun → Option (Studio × List Task)
  | .create id new upload => some (s, (Save.create id new).tasks upload)
  | .update id change upload =>
      (s.shop.services.find id).map fun row =>
        (s, (Save.update id change (row.wants upload)).tasks
          (if row.wants upload then upload.join else none))
  | .attempt job =>
      (s.shop.jobs.find job).bind fun j =>
        if j.done then none else some (s, [.check job j.key])

def Studio.put (s : Studio) (key : PhotoKey) (v : Variant) : Studio :=
  { s with media := (key, v) :: s.media }

/-- A photo in use is some service's. -/
def Shop.uses (s : Shop) (key : PhotoKey) : Prop := ∃ row ∈ s.services.rows, row.photoKey = some key

instance (s : Shop) (key : PhotoKey) : Decidable (s.uses key) :=
  inferInstanceAs (Decidable (∃ row ∈ s.services.rows, _))

def Shop.finishJob (s : Shop) (job : ℕ) : Shop :=
  { s with
    jobs := s.jobs.update (fun j => j.id = job) (fun j => { j with done := true }) fun _ => rfl }

/-- `delete_prefix`, but for the objects refused. -/
def Studio.deletePrefix (s : Studio) (key : PhotoKey) (refused : List Variant) : Studio :=
  { s with media := s.media.filter fun o => o.1 ≠ key ∨ o.2 ∈ refused }

def Studio.exec (s : Studio) : Task → Chance → Option (Studio × Option (List Task))
  | .putThumb save photo, _ =>
      some (s.put (save.key photo) .thumb, some [.putDetail save photo])
  | .putDetail save photo, _ =>
      some (s.put (save.key photo) .detail, some [.commit save (some photo)])
  | .commit save stored, chance =>
      match save.commit s.shop chance.now stored with
      | .ok shop => some ({ s with shop := shop }, none)
      | .error _ => some (s, none)
  | .check job key, _ =>
      if s.shop.uses key then some ({ s with shop := s.shop.finishJob job }, none)
      else some (s, some [.delete job key])
  | .delete job key, chance =>
      let left := s.deletePrefix key chance.refused
      -- an object refused is an error: the job is tried again
      if ∃ v ∈ chance.refused, (key, v) ∈ s.media then some (left, none)
      else some ({ left with shop := s.shop.finishJob job }, none)

def studio : Program Studio Task Deed Begun Chance where
  world s _ deed :=
    match deed.exec s.shop with
    | .ok shop => some { s with shop := shop }
    | .error _ => some s
  start := Studio.start
  exec := Studio.exec

/-- A business as it opens. -/
def Shop.opened (currency : Currency) : Shop :=
  ⟨currency, Table.empty, [], Table.empty, [], Table.empty, false, false⟩

def Studio.opened (currency : Currency) : Pool Studio Task :=
  Pool.empty ⟨.opened currency, []⟩

abbrev StudioMove := Move Deed Begun Chance

end Ziftbook.Services
