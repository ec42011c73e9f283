import Ziftbook.Availability.Offered

/-!
# Time off

The writers of `app/time_off.py`. A new or changed block is refused over the
member's live appointments, except those the block already held.
-/

namespace Ziftbook

open Foundation

/-- `LONGEST`, and `LONGEST_DAYS` of it. -/
def longestBlock : ℤ := 366 * (dayMinutes * minute)

/-- `checked`. -/
def checkedInstants (startsAt endsAt : ℤ) : Except ApiError Block :=
  if hordered : startsAt < endsAt then
    if hlength : endsAt - startsAt ≤ longestBlock then
      .ok (.instants startsAt endsAt hordered hlength)
    else .error ⟨422, .timeOffTooLong⟩
  else .error ⟨422, .endNotAfterStart⟩

/-- `checked_days`: a single day off is one day. -/
def checkedDays (first last : ℤ) : Except ApiError Block :=
  if hordered : first ≤ last then
    if hlength : last - first < 366 then .ok (.days first last hordered hlength)
    else .error ⟨422, .timeOffTooLong⟩
  else .error ⟨422, .lastDayBeforeFirstDay⟩

/-- `TimeOffIn`: exactly one complete pair. -/
inductive Pair
  | instants (startsAt endsAt : ℤ)
  | days (first last : ℤ)
deriving DecidableEq

def Pair.checked : Pair → Except ApiError Block
  | .instants startsAt endsAt => checkedInstants startsAt endsAt
  | .days first last => checkedDays first last

/-- `TimeOffChange`: only the fields sent change. -/
structure TimeOffChange where
  startsAt : Option ℤ
  endsAt : Option ℤ
  firstDay : Option ℤ
  lastDay : Option ℤ
  reason : Option (Option String)

/-- The block an update asks for: fields of one kind, merged within the block's
own kind; another kind needs the complete new pair. -/
def TimeOffChange.block (change : TimeOffChange) (old : Block) : Except ApiError Block :=
  match change.startsAt, change.endsAt, change.firstDay, change.lastDay with
  | none, none, none, none => .ok old
  | startsAt, endsAt, none, none =>
      match old, startsAt, endsAt with
      | .instants s e _ _, _, _ => checkedInstants (startsAt.getD s) (endsAt.getD e)
      | .days .., some s, some e => checkedInstants s e
      | .days .., _, _ => .error ⟨422, .invalidRequest⟩
  | none, none, first, last =>
      match old, first, last with
      | .days f l _ _, _, _ => checkedDays (first.getD f) (last.getD l)
      | .instants .., some f, some l => checkedDays f l
      | .instants .., _, _ => .error ⟨422, .invalidRequest⟩
  | _, _, _, _ => .error ⟨422, .invalidRequest⟩

/-- `refuse_over_bookings`. The join on clients drops nothing: a booking's client
is on file. -/
def Db.inTheWay (db : Db) (now : ℤ) (member : ℕ) (after : Block) (before : Option Block) :
    Prop :=
  let zone := db.settings.timezone
  ∃ b ∈ db.bookings.rows,
    b.inTheWay member (after.span zone) (before.map (Block.span zone)) now

instance (db : Db) (now : ℤ) (member : ℕ) (after : Block) (before : Option Block) :
    Decidable (db.inTheWay now member after before) :=
  inferInstanceAs (Decidable (∃ b ∈ db.bookings.rows, _))

/-- `member_user`: the user behind a member still here. -/
def Db.memberUser (db : Db) (memberId : ℕ) : Option ℕ :=
  ((db.member memberId).filter fun m => m.role ≠ .removed).map Member.userId

/-- `create_time_off`. -/
def createTimeOff (db : Db) (now : ℤ) (current : Session) (memberId : ℕ) (new : Pair)
    (reason : Option String) (id : ℕ) : Except ApiError Db := do
  let user ← found (db.memberUser memberId) ⟨404, .notFound⟩
  require (current.mayManage user) ⟨403, .ownerOnly⟩
  let block ← new.checked
  require (¬ db.inTheWay now memberId block none) ⟨409, .overlapsBookings⟩
  let timeOff ← found (db.timeOff.insert ⟨id, memberId, block, reason, .manual⟩)
    ⟨500, .internal⟩
  .ok { db with timeOff := timeOff }

/-- `manual_block`: a manual block the caller may change. -/
def Db.manualBlock (db : Db) (current : Session) (id : ℕ) : Except ApiError TimeOff := do
  let row ← found ((db.timeOff.find id).filter fun t => t.source = .manual) ⟨404, .notFound⟩
  let user ← found (db.memberUser row.memberId) ⟨404, .notFound⟩
  require (current.mayManage user) ⟨403, .ownerOnly⟩
  .ok row

/-- `update_time_off`: nothing is written when nothing changes. -/
def updateTimeOff (db : Db) (now : ℤ) (current : Session) (id : ℕ) (change : TimeOffChange) :
    Except ApiError Db := do
  let old ← db.manualBlock current id
  let block ← change.block old.block
  let reason := change.reason.getD old.reason
  if block = old.block ∧ reason = old.reason then .ok db
  else
    require (¬ db.inTheWay now old.memberId block (some old.block)) ⟨409, .overlapsBookings⟩
    .ok { db with
      timeOff := db.timeOff.update (fun t => t.id = id)
        (fun t => { t with block := block, reason := reason }) fun _ => rfl }

/-- `delete_time_off`. -/
def deleteTimeOff (db : Db) (current : Session) (id : ℕ) : Except ApiError Db := do
  let row ← db.manualBlock current id
  .ok { db with timeOff := db.timeOff.delete fun t => t.id = row.id }

/-! ## § What a committed change did -/

theorem createTimeOff_eq_ok {db db' : Db} {now : ℤ} {current : Session} {memberId : ℕ}
    {new : Pair} {reason : Option String} {id : ℕ}
    (h : createTimeOff db now current memberId new reason id = .ok db') :
    ∃ block timeOff, ¬ db.inTheWay now memberId block none ∧
      db.timeOff.insert ⟨id, memberId, block, reason, .manual⟩ = some timeOff ∧
      db' = { db with timeOff := timeOff } := by
  simp only [createTimeOff, found_bind_eq_ok, require_bind_eq_ok] at h
  obtain ⟨_, _, _, h⟩ := h
  obtain ⟨block, _, h⟩ := bind_eq_ok.mp h
  simp only [found_bind_eq_ok, require_bind_eq_ok] at h
  obtain ⟨hfree, timeOff, hinsert, h⟩ := h
  cases h
  exact ⟨block, timeOff, hfree, hinsert, rfl⟩

theorem manualBlock_eq_ok {db : Db} {current : Session} {id : ℕ} {old : TimeOff}
    (h : db.manualBlock current id = .ok old) : old ∈ db.timeOff.rows ∧ old.id = id := by
  simp only [Db.manualBlock, found_bind_eq_ok, require_bind_eq_ok] at h
  obtain ⟨row, hrow, _, _, _, h⟩ := h
  cases h
  exact Table.find_eq_some.mp (Option.filter_eq_some_iff.mp hrow).1

theorem updateTimeOff_eq_ok {db db' : Db} {now : ℤ} {current : Session} {id : ℕ}
    {change : TimeOffChange} (h : updateTimeOff db now current id change = .ok db') :
    db' = db ∨ ∃ old ∈ db.timeOff.rows, old.id = id ∧ ∃ block reason,
      ¬ db.inTheWay now old.memberId block (some old.block) ∧
      db' = { db with
        timeOff := db.timeOff.update (fun t => t.id = id)
          (fun t => { t with block := block, reason := reason }) fun _ => rfl } := by
  obtain ⟨old, hold, h⟩ := bind_eq_ok.mp h
  obtain ⟨block, _, h⟩ := bind_eq_ok.mp h
  obtain ⟨hmem, hid⟩ := manualBlock_eq_ok hold
  simp only at h
  split at h
  · cases h
    exact Or.inl rfl
  · obtain ⟨hfree, h⟩ := require_bind_eq_ok.mp h
    cases h
    exact Or.inr ⟨old, hmem, hid, block, _, hfree, rfl⟩

theorem deleteTimeOff_eq_ok {db db' : Db} {current : Session} {id : ℕ}
    (h : deleteTimeOff db current id = .ok db') :
    db' = { db with timeOff := db.timeOff.delete fun t => t.id = id } := by
  obtain ⟨row, hrow, hdelete⟩ := bind_eq_ok.mp h
  obtain ⟨_, rfl⟩ := manualBlock_eq_ok hrow
  cases hdelete
  rfl

end Ziftbook
