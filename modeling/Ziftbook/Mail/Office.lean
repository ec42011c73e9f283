import Ziftbook.Mail.Keys
import Ziftbook.Payments.Threads

/-!
# The business and its queue

The business's transactions and the job workers on one clock. A transaction reads the
clock when it opens and commits later, its letters with it; a worker's transactions
come in between. Every letter built is kept beside the queue, and every merchant's move
with the clock it read.
-/

namespace Ziftbook

open Foundation

/-! ## § The transaction of a step -/

/-- The clock and the operation of a step's transaction; a failed connection has none. -/
def Desk.transaction (d : Desk) : Deed → Option (ℤ × Op)
  | .world (.op now op) => if op.pays then none else some (now, op)
  | .go i turn =>
      match d.threads[i]? with
      | some (.write w :: _) => if turn.failed then none else some (turn.now, w.op turn)
      | _ => none
  | _ => none

structure Commit where
  now : ℤ
  op : Op
  db : Db

/-- The transaction when it commits, and the tables after it. -/
def Desk.commit (d : Desk) (m : Deed) : Option Commit :=
  (d.transaction m).bind fun t =>
    match apply d.shared.db t.1 t.2 with
    | .ok db => some ⟨t.1, t.2, db⟩
    | .error _ => none

theorem commit_eq_some {d : Desk} {m : Deed} {c : Commit} (h : d.commit m = some c) :
    d.transaction m = some (c.now, c.op) ∧ apply d.shared.db c.now c.op = .ok c.db := by
  obtain ⟨t, ht, h⟩ := Option.bind_eq_some_iff.mp h
  split at h
  · rename_i db happly
    cases h
    exact ⟨ht, happly⟩
  · cases h

/-- What the tables are after a transaction, or after none. -/
def Desk.dbAfter (d : Desk) (m : Deed) : Db := ((d.commit m).map Commit.db).getD d.shared.db

theorem dbAfter_of_transaction {d : Desk} {m : Deed} {now : ℤ} {op : Op}
    (h : d.transaction m = some (now, op)) :
    d.dbAfter m = ((apply d.shared.db now op).toOption).getD d.shared.db := by
  unfold Desk.dbAfter Desk.commit
  rw [h]
  show ((match apply d.shared.db now op with
    | .ok db => some (⟨now, op, db⟩ : Commit)
    | .error _ => none).map Commit.db).getD d.shared.db = _
  cases apply d.shared.db now op <;> rfl

theorem dbAfter_of_none {d : Desk} {m : Deed} (h : d.transaction m = none) :
    d.dbAfter m = d.shared.db := by
  unfold Desk.dbAfter Desk.commit
  rw [h]
  rfl

/-- **A step's tables** are those its transaction leaves. -/
theorem step_dbAfter {d d' : Desk} {m : Deed} (h : d.step m = some d') :
    d'.shared.db = d.dbAfter m := by
  cases Pool.stepped h with
  | world e he _ =>
      cases e with
      | op now op =>
          simp only [till, Till.around] at he
          split_ifs at he with hpays
          have ht : d.transaction (.world (.op now op)) = some (now, op) := if_neg hpays
          rw [dbAfter_of_transaction ht]
          split at he
          · rename_i db happly
            rw [happly, ← Option.some.inj he]
            rfl
          · rename_i e happly
            rw [happly, ← Option.some.inj he]
            rfl
      | forget payment =>
          rw [dbAfter_of_none rfl]
          simp only [till, Till.around] at he
          split_ifs at he
          rw [← Option.some.inj he]
      | _ =>
          rw [dbAfter_of_none rfl]
          obtain ⟨s, _, hs⟩ := Option.map_eq_some_iff.mp he
          rw [← hs]
  | start e ts he _ =>
      rw [dbAfter_of_none rfl]
      exact enter_db he
  | go i turn u rest next hthread he _ =>
      cases u with
      | look l =>
          have hgo : d.transaction (.go i turn) = none := by
            simp only [Desk.transaction, hthread]
          rw [dbAfter_of_none hgo, ← (Prod.mk.inj (Option.some.inj he)).1]
      | ask a =>
          have hgo : d.transaction (.go i turn) = none := by
            simp only [Desk.transaction, hthread]
          obtain ⟨_, _, hs⟩ := Option.map_eq_some_iff.mp he
          rw [dbAfter_of_none hgo, ← (Prod.mk.inj hs).1]
      | write w =>
          have hgo : d.transaction (.go i turn) =
              if turn.failed then none else some (turn.now, w.op turn) := by
            simp only [Desk.transaction, hthread]
          have hdb : d'.shared.db = (w.run d.shared.db turn).1 := by
            rw [← (Prod.mk.inj (Option.some.inj he)).1]
          rw [hdb, Write.run]
          by_cases hfailed : turn.failed = true
          · rw [dbAfter_of_none (hgo.trans (if_pos hfailed)), if_pos hfailed]
          · rw [dbAfter_of_transaction (hgo.trans (if_neg hfailed)), if_neg hfailed]
            cases apply d.shared.db turn.now (w.op turn) <;> rfl
  | die i hshared _ =>
      rw [dbAfter_of_none rfl, hshared]

/-! ## § Posting -/

/-- A letter's `jobs.enqueue`. -/
def Jobs.post (tenant : ℕ) (now : ℤ) (jobs : Jobs) (l : Letter) : Jobs :=
  jobs.enqueue now .emailBooking (l.key.dedupeKey tenant) l.dueAt

def Jobs.postAll (tenant : ℕ) (now : ℤ) (jobs : Jobs) (ls : List Letter) : Jobs :=
  ls.foldl (Jobs.post tenant now) jobs

/-- The job a letter adds. -/
structure Job.Of (tenant : ℕ) (now : ℤ) (l : Letter) (j : Job) : Prop where
  kind : j.kind = .emailBooking
  dedupeKey : j.dedupeKey = l.key.dedupeKey tenant
  dueAt : j.dueAt = l.dueAt.getD now
  nextAttemptAt : j.nextAttemptAt = l.dueAt.getD now
  attempts : j.attempts = 0
  completedAt : j.completedAt = none

/-- An `enqueue` adds one job, with the next id, or meets one of its key. -/
theorem enqueue_cases (jobs : Jobs) (now : ℤ) (kind : Kind) (key : String) (dueAt : Option ℤ) :
    (jobs.enqueue now kind key dueAt = jobs ∧ ∃ j ∈ jobs.table.rows, j.dedupeKey = key) ∨
      ((∀ j ∈ jobs.table.rows, j.dedupeKey ≠ key) ∧
        (jobs.enqueue now kind key dueAt).nextId = jobs.nextId + 1 ∧
        (jobs.enqueue now kind key dueAt).table.rows = jobs.table.rows ++
          [⟨jobs.nextId, kind, key, dueAt.getD now, dueAt.getD now, 0, none, none, false⟩]) := by
  unfold Jobs.enqueue
  split
  · rename_i h
    exact Or.inl ⟨rfl, h⟩
  · rename_i h
    exact Or.inr ⟨fun j hj heq => h ⟨j, hj, heq⟩, rfl, rfl⟩

/-- What posting leaves: the jobs of before, and new ones each of a letter. -/
structure Jobs.Posted (tenant : ℕ) (now : ℤ) (jobs : Jobs) (ls : List Letter) (jobs' : Jobs) :
    Prop where
  later : jobs.nextId ≤ jobs'.nextId
  kept : ∀ j ∈ jobs.table.rows, j ∈ jobs'.table.rows
  rows : ∀ j ∈ jobs'.table.rows, j ∈ jobs.table.rows ∨
    ∃ l ∈ ls, j.Of tenant now l ∧ jobs.nextId ≤ j.id
  posted : ∀ l ∈ ls, ∃ j ∈ jobs'.table.rows, j.dedupeKey = l.key.dedupeKey tenant

theorem posted_post (tenant : ℕ) (now : ℤ) (jobs : Jobs) (l : Letter) :
    jobs.Posted tenant now [l] (jobs.post tenant now l) := by
  rcases enqueue_cases jobs now .emailBooking (l.key.dedupeKey tenant) l.dueAt with
    ⟨hsame, hmet⟩ | ⟨_, hnext, hrows⟩
  · unfold Jobs.post
    rw [hsame]
    refine ⟨le_rfl, fun _ hj => hj, fun _ hj => Or.inl hj, fun l' hl' => ?_⟩
    rw [List.mem_singleton.mp hl']
    exact hmet
  · have hlast : (⟨jobs.nextId, .emailBooking, l.key.dedupeKey tenant, l.dueAt.getD now,
        l.dueAt.getD now, 0, none, none, false⟩ : Job) ∈ (jobs.post tenant now l).table.rows := by
      unfold Jobs.post
      rw [hrows]
      exact List.mem_append_right _ (List.mem_singleton.mpr rfl)
    refine ⟨?_, fun j hj => ?_, fun j hj => ?_, fun l' hl' => ?_⟩
    · show jobs.nextId ≤ (jobs.enqueue ..).nextId
      rw [hnext]
      exact Nat.le_succ _
    · show j ∈ (jobs.enqueue ..).table.rows
      rw [hrows]
      exact List.mem_append_left _ hj
    · change j ∈ (jobs.enqueue ..).table.rows at hj
      rw [hrows] at hj
      refine (List.mem_append.mp hj).imp_right fun hj => ?_
      rw [List.mem_singleton.mp hj]
      exact ⟨l, List.mem_singleton.mpr rfl, ⟨rfl, rfl, rfl, rfl, rfl, rfl⟩, le_rfl⟩
    · rw [List.mem_singleton.mp hl']
      exact ⟨_, hlast, rfl⟩

/-- **Posting letters** one after another, by induction on the letters. -/
theorem posted_postAll (tenant : ℕ) (now : ℤ) (ls : List Letter) (jobs : Jobs) :
    jobs.Posted tenant now ls (jobs.postAll tenant now ls) := by
  induction ls generalizing jobs with
  | nil => exact ⟨le_rfl, fun _ hj => hj, fun _ hj => Or.inl hj, by simp⟩
  | cons l ls ih =>
      have h := posted_post tenant now jobs l
      have h' := ih (jobs.post tenant now l)
      refine ⟨h.later.trans h'.later, fun j hj => h'.kept j (h.kept j hj), fun j hj => ?_,
        fun l' hl' => ?_⟩
      · rcases h'.rows j hj with hj | ⟨l', hl', hof, hid⟩
        · refine (h.rows j hj).imp_right ?_
          rintro ⟨l', hl', hof, hid⟩
          rw [List.mem_singleton.mp hl'] at hof
          exact ⟨l, List.mem_cons_self .., hof, hid⟩
        · exact Or.inr ⟨l', List.mem_cons_of_mem _ hl', hof, h.later.trans hid⟩
      · rcases List.mem_cons.mp hl' with rfl | hl'
        · obtain ⟨j, hj, hkey⟩ := h.posted l' (List.mem_singleton.mpr rfl)
          exact ⟨j, h'.kept j hj, hkey⟩
        · exact h'.posted l' hl'

/-! ## § The machine -/

structure Office where
  tenant : ℕ
  desk : Desk
  shop : Workshop
  wall : ℤ
  posted : List Letter
  moved : List (ℕ × ℤ)

/-- A step of the business, or a worker's transaction on its own clock. -/
inductive OfficeMove
  | deed (m : Deed) (overQuota : Bool)
  | work (now : ℤ) (w : Work)

/-- What other callers enqueue: their keys begin with their own kinds. -/
def Work.elsewhere : Work → Bool
  | .enqueue _ key _ => !"email.booking:".toList.isPrefixOf key.toList
  | _ => true

/-- The merchant's move an operation makes, with its clock. -/
def Op.merchantMove (now : ℤ) : Op → List (ℕ × ℤ)
  | .reschedule _ bookingId _ => [(bookingId, now)]
  | _ => []

/-- What a step of the business enqueues. -/
def Desk.letters (d : Desk) (m : Deed) (overQuota : Bool) : List Letter :=
  match d.commit m with
  | some c => c.op.letters d.shared.db c.db c.now overQuota
  | none => []

def Desk.merchantMove (d : Desk) (m : Deed) : List (ℕ × ℤ) :=
  match d.commit m with
  | some c => c.op.merchantMove c.now
  | none => []

/-- The clock a step of the business read, at the wall time it commits at the latest. -/
def Desk.opened (d : Desk) (m : Deed) (wall : ℤ) : ℤ := ((d.commit m).map Commit.now).getD wall

/-- The queue once the letters of a step are posted. -/
def Office.afterDeed (o : Office) (m : Deed) (overQuota : Bool) (wall : ℤ) : Workshop :=
  { o.shop with
    jobs := o.shop.jobs.postAll o.tenant (o.desk.opened m wall) (o.desk.letters m overQuota) }

/-- A step, at its wall time. -/
def Office.step (o : Office) (e : ℤ × OfficeMove) : Option Office :=
  if e.1 < o.wall then none
  else
    match e.2 with
    | .deed m overQuota =>
        if e.1 < o.desk.opened m e.1 then none
        else (o.desk.step m).map fun desk =>
          { o with
            desk := desk
            shop := o.afterDeed m overQuota e.1
            wall := e.1
            posted := o.posted ++ o.desk.letters m overQuota
            moved := o.moved ++ o.desk.merchantMove m }
    | .work now w =>
        if e.1 < now ∨ w.elsewhere = false then none
        else (o.shop.step (now, w)).map fun shop => { o with shop := shop, wall := e.1 }

def Office.run (o : Office) (es : List (ℤ × OfficeMove)) : Option Office :=
  Runs.run Office.step o es

/-- What one step does. -/
inductive Office.Stepped (o o' : Office) : ℤ × OfficeMove → Prop
  | deed (wall : ℤ) (m : Deed) (overQuota : Bool) : o.wall ≤ wall → o.desk.opened m wall ≤ wall →
      o.desk.step m = some o'.desk → o'.tenant = o.tenant →
      o'.shop = o.afterDeed m overQuota wall → o'.wall = wall →
      o'.posted = o.posted ++ o.desk.letters m overQuota →
      o'.moved = o.moved ++ o.desk.merchantMove m → Stepped o o' (wall, .deed m overQuota)
  | work (wall now : ℤ) (w : Work) : o.wall ≤ wall → now ≤ wall → w.elsewhere = true →
      o.shop.step (now, w) = some o'.shop → o'.desk = o.desk → o'.tenant = o.tenant →
      o'.wall = wall → o'.posted = o.posted → o'.moved = o.moved →
      Stepped o o' (wall, .work now w)

theorem office_stepped {o o' : Office} {e : ℤ × OfficeMove} (h : o.step e = some o') :
    o.Stepped o' e := by
  obtain ⟨wall, move⟩ := e
  unfold Office.step at h
  split_ifs at h with hwall
  cases move with
  | deed m overQuota =>
      simp only at h
      split_ifs at h with hopened
      obtain ⟨desk, hdesk, rfl⟩ := Option.map_eq_some_iff.mp h
      exact .deed wall m overQuota (not_lt.mp hwall) (not_lt.mp hopened) hdesk rfl rfl rfl rfl rfl
  | work now w =>
      simp only at h
      split_ifs at h with hwork
      obtain ⟨shop, hshop, rfl⟩ := Option.map_eq_some_iff.mp h
      obtain ⟨hnow, helsewhere⟩ := not_or.mp hwork
      exact .work wall now w (not_lt.mp hwall) (not_lt.mp hnow) (Bool.not_eq_false _ ▸ helsewhere)
        hshop rfl rfl rfl rfl rfl

/-- A business before its first booking, its queue empty. -/
structure Office.Blank (o : Office) : Prop where
  desk : o.desk.Blank
  shop : o.shop = Workshop.empty
  posted : o.posted = []
  moved : o.moved = []

end Ziftbook
