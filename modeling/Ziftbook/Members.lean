import Ziftbook.Blocks

/-!
# Members

`members.target` and `members.remove`. A membership's row stays when it ends,
so bookings still name their worker.
-/

namespace Ziftbook

open Foundation

/-- `target`: the caller is still an owner, and the member is another's. -/
def Db.target (db : Db) (current : Session) (memberId : ℕ) : Except ApiError Member := do
  let live := db.memberships.rows.filter fun m => m.role ≠ .removed
  let me ← found (live.find? fun m => m.userId = current.userId) ⟨401, .unauthenticated⟩
  require (me.role = .owner) ⟨403, .ownerOnly⟩
  let member ← found (live.find? fun m => m.id = memberId) ⟨404, .notFound⟩
  require (member.userId ≠ current.userId) ⟨403, .ownMembership⟩
  .ok member

/-- `remove`: refused while the member holds an upcoming appointment; their
service assignments, working hours and time off go. The trigger keeps an
owner. -/
def removeMember (db : Db) (now : ℤ) (current : Session) (memberId : ℕ) :
    Except ApiError Db := do
  let member ← db.target current memberId
  require (¬ db.upcoming member.id now) ⟨409, .hasUpcomingBookings⟩
  let memberships := db.memberships.update (fun m => m.id = member.id)
    (fun m => { m with role := .removed }) fun _ => rfl
  require (∃ m ∈ memberships.rows, m.role = .owner) ⟨409, .lastOwner⟩
  .ok { db with
    serviceWorkers := db.serviceWorkers.filter fun w => w.memberId ≠ member.id
    workingHours := db.workingHours.filter fun w => w.memberId ≠ member.id
    timeOff := db.timeOff.delete fun t => t.memberId = member.id
    memberships := memberships }

/-- An accepted invitation brings a removed member back, or changes no one. -/
def Db.rejoin (db : Db) (memberId : ℕ) (owner : Bool) : Db :=
  { db with
    memberships := db.memberships.update (fun m => m.id = memberId ∧ m.role = .removed)
      (fun m => { m with role := if owner then .owner else .worker }) fun _ => rfl }

theorem removeMember_eq_ok {db db' : Db} {now : ℤ} {current : Session} {memberId : ℕ}
    (h : removeMember db now current memberId = .ok db') :
    ∃ member, ¬ db.upcoming member now ∧ db' = { db with
      serviceWorkers := db.serviceWorkers.filter fun w => w.memberId ≠ member
      workingHours := db.workingHours.filter fun w => w.memberId ≠ member
      timeOff := db.timeOff.delete fun t => t.memberId = member
      memberships := db.memberships.update (fun m => m.id = member)
        (fun m => { m with role := .removed }) fun _ => rfl } := by
  obtain ⟨member, _, h⟩ := bind_eq_ok.mp h
  simp only [require_bind_eq_ok] at h
  obtain ⟨hfree, _, h⟩ := h
  cases h
  exact ⟨member.id, hfree, rfl⟩

end Ziftbook
