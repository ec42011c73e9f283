import Ziftbook.Foundation.Batches
import Ziftbook.Store.Tables

/-!
# The origin sweep

`sweep_booking_origins` of migration 0074 and the walk of `app/retention.py` that calls
it. Business by business it forgets the address and user agent of booking events that are
18 months old, as their bookings are; rows another transaction holds are skipped.
-/

namespace Ziftbook

open Foundation

/-! ## § Tables -/

/-- What the sweep reads of a `booking_events` row. -/
structure OriginEvent where
  id : ℕ
  tenantId : ℕ
  bookingId : ℕ
  createdAt : ℤ
  ip : Option Address
  userAgent : Option String
deriving DecidableEq

structure OriginBooking where
  tenantId : ℕ
  id : ℕ
  endsAt : ℤ
deriving DecidableEq

/-- The businesses and their bookings, which the sweep leaves as they are. -/
structure Businesses where
  tenants : List ℕ
  bookings : List OriginBooking
  distinct : tenants.Nodup

/-- `booking_events`, each of a business. -/
structure OriginEvents (b : Businesses) where
  table : Table OriginEvent ℕ OriginEvent.id
  owned : ∀ e ∈ table.rows, e.tenantId ∈ b.tenants

/-- A call's transaction: `now() - interval '18 months'`, and the rows others hold as it
comes to their business. -/
structure SweepMoment where
  cutoff : ℤ
  locked : ℕ → Bool

namespace OriginEvent

/-- `ip IS NOT NULL OR user_agent IS NOT NULL`. -/
def HasOrigin (e : OriginEvent) : Prop := e.ip ≠ none ∨ e.userAgent ≠ none

instance (e : OriginEvent) : Decidable e.HasOrigin := inferInstanceAs (Decidable (_ ∨ _))

/-- The event and its booking's end are before the cutoff. -/
def Overdue (b : Businesses) (cutoff : ℤ) (e : OriginEvent) : Prop :=
  e.createdAt < cutoff ∧
    ∃ booking ∈ b.bookings, booking.tenantId = e.tenantId ∧ booking.id = e.bookingId ∧
      booking.endsAt < cutoff

instance (b : Businesses) (cutoff : ℤ) (e : OriginEvent) : Decidable (e.Overdue b cutoff) :=
  inferInstanceAs (Decidable (_ ∧ ∃ booking ∈ b.bookings, _))

/-- `SET ip = NULL, user_agent = NULL`. -/
def cleared (e : OriginEvent) : OriginEvent := { e with ip := none, userAgent := none }

/-- `ORDER BY created_at`. -/
def createdLE (e e' : OriginEvent) : Prop := e.createdAt ≤ e'.createdAt

instance : DecidableRel createdLE := fun _ _ => inferInstanceAs (Decidable (_ ≤ _))

end OriginEvent

open OriginEvent

/-! ## § The function -/

/-- `OUT cleared, next_tenant`, with the rows and the businesses looked at, whose number is
`v_visited`. -/
structure OriginSweep (b : Businesses) where
  events : OriginEvents b
  cleared : ℕ
  visited : List ℕ
  nextTenant : Option ℕ

section Sweep

variable (b : Businesses) (m : SweepMoment)

/-- The rows `SELECT … LIMIT … FOR UPDATE OF x SKIP LOCKED` returns. -/
def dueRows (events : OriginEvents b) (tenant limit : ℕ) : List OriginEvent :=
  ((events.table.rows.filter fun e => e.tenantId = tenant ∧ e.HasOrigin ∧ e.Overdue b m.cutoff ∧
    m.locked e.id = false).insertionSort createdLE).take limit

/-- The rows the `UPDATE` is of. -/
def Chosen (events : OriginEvents b) (tenant limit : ℕ) (e : OriginEvent) : Prop :=
  e.tenantId = tenant ∧ e.id ∈ (dueRows b m events tenant limit).map OriginEvent.id

instance (events : OriginEvents b) (tenant limit : ℕ) :
    DecidablePred (Chosen b m events tenant limit) := fun _ => inferInstanceAs (Decidable (_ ∧ _))

/-- The `UPDATE` for one business, and its `ROW_COUNT`. -/
def clearDue (events : OriginEvents b) (tenant limit : ℕ) : OriginEvents b × ℕ :=
  ({ table := events.table.update (Chosen b m events tenant limit) OriginEvent.cleared fun _ => rfl
     owned := by
      intro e he
      obtain ⟨x, hx, _, rfl | ⟨_, rfl⟩⟩ := Table.mem_of_mem_update he
      · exact events.owned _ hx
      · exact events.owned x hx },
    (events.table.rows.filter fun e => Chosen b m events tenant limit e).length)

/-- The loop over the businesses. -/
def sweepTenants : List ℕ → OriginSweep b → OriginSweep b
  | [], s => s
  | tenant :: tenants, s =>
      if 200 ≤ s.visited.length then { s with nextTenant := some tenant }
      else
        let updated := clearDue b m s.events tenant (1000 - s.cleared)
        let s := { s with
          events := updated.1
          cleared := s.cleared + updated.2
          visited := s.visited ++ [tenant] }
        -- it may have more: the next call starts here
        if 1000 ≤ s.cleared then { s with nextTenant := some tenant }
        else sweepTenants tenants s

/-- `sweep_booking_origins(p_from)`. -/
def sweepBookingOrigins (events : OriginEvents b) (start : Option ℕ) : OriginSweep b :=
  sweepTenants b m
    ((b.tenants.filter fun t => ∀ first ∈ start, first ≤ t).insertionSort (· ≤ ·))
    ⟨events, 0, [], none⟩

end Sweep

/-- `_Walk`, with the rows it sweeps and `Swept.booking_origins`. -/
structure OriginWalk (b : Businesses) where
  events : OriginEvents b
  start : Option ℕ
  bookingOrigins : ℕ

/-- `_Walk.__call__`: whether the pass is complete, and the place the next call starts. -/
def OriginWalk.call {b : Businesses} (w : OriginWalk b) (m : SweepMoment) : Bool × OriginWalk b :=
  let row := sweepBookingOrigins b m w.events w.start
  (row.nextTenant.isNone, ⟨row.events, row.nextTenant, w.bookingOrigins + row.cleared⟩)

/-- The walk before its `j`-th call. -/
def OriginWalk.before {b : Businesses} (w : OriginWalk b) (m : ℕ → SweepMoment) :
    ℕ → OriginWalk b
  | 0 => w
  | j + 1 => ((w.before m j).call (m j)).2

/-- What the `j`-th call's `sweep_booking_origins` did. -/
def OriginWalk.row {b : Businesses} (w : OriginWalk b) (m : ℕ → SweepMoment) (j : ℕ) :
    OriginSweep b :=
  sweepBookingOrigins b (m j) (w.before m j).events (w.before m j).start

/-! ## § One business -/

variable {b : Businesses} {m : SweepMoment} {events : OriginEvents b} {tenant limit : ℕ}

/-- Due, of the business and not held by others. -/
def Due (b : Businesses) (m : SweepMoment) (tenant : ℕ) (e : OriginEvent) : Prop :=
  e.tenantId = tenant ∧ e.HasOrigin ∧ e.Overdue b m.cutoff ∧ m.locked e.id = false

instance : DecidablePred (Due b m tenant) := fun _ => inferInstanceAs (Decidable (_ ∧ _))

theorem mem_dueRows {e : OriginEvent} (h : e ∈ dueRows b m events tenant limit) :
    e ∈ events.table.rows ∧ Due b m tenant e := by
  have hmem := (List.mem_insertionSort createdLE).mp (List.mem_of_mem_take h)
  exact ⟨(List.mem_filter.mp hmem).1, of_decide_eq_true (List.mem_filter.mp hmem).2⟩

/-- A row is chosen where the subquery returned it. -/
theorem chosen_iff {e : OriginEvent} (he : e ∈ events.table.rows) :
    Chosen b m events tenant limit e ↔ e ∈ dueRows b m events tenant limit := by
  constructor
  · rintro ⟨_, hid⟩
    obtain ⟨due, hdue, heq⟩ := List.mem_map.mp hid
    exact events.table.eq_of_key (mem_dueRows hdue).1 he heq ▸ hdue
  · intro hdue
    exact ⟨(mem_dueRows hdue).2.1, List.mem_map.mpr ⟨e, hdue, rfl⟩⟩

theorem nodup_rows (events : OriginEvents b) : events.table.rows.Nodup :=
  List.Nodup.of_map _ events.table.keyed

theorem nodup_dueRows : (dueRows b m events tenant limit).Nodup :=
  (((List.perm_insertionSort createdLE _).nodup_iff.mpr
    ((nodup_rows events).filter _)).sublist (List.take_sublist ..))

/-- `ROW_COUNT` is the number of rows the subquery returned. -/
theorem rowCount_eq :
    (clearDue b m events tenant limit).2 = (dueRows b m events tenant limit).length := by
  refine List.Perm.length_eq ((List.perm_ext_iff_of_nodup ((nodup_rows events).filter _)
    nodup_dueRows).mpr fun e => ?_)
  rw [List.mem_filter, decide_eq_true_eq]
  constructor
  · rintro ⟨he, hchosen⟩
    exact (chosen_iff he).mp hchosen
  · intro hdue
    exact ⟨(mem_dueRows hdue).1, (chosen_iff (mem_dueRows hdue).1).mpr hdue⟩

theorem rowCount_le : (clearDue b m events tenant limit).2 ≤ limit := by
  rw [rowCount_eq]
  exact List.length_take_le ..

/-- Where the limit is not reached every due row is chosen. -/
theorem chosen_of_due (hless : (clearDue b m events tenant limit).2 < limit) {e : OriginEvent}
    (he : e ∈ events.table.rows) (hdue : Due b m tenant e) : Chosen b m events tenant limit e := by
  rw [chosen_iff he]
  rw [rowCount_eq] at hless
  unfold dueRows at hless ⊢
  rw [List.length_take] at hless
  rw [List.take_of_length_le (by omega), List.mem_insertionSort, List.mem_filter]
  exact ⟨he, decide_eq_true hdue⟩

/-- How many rows still have an address or a user agent. -/
def withOrigin (events : OriginEvents b) : ℕ := events.table.rows.countP fun e => e.HasOrigin

theorem not_hasOrigin_cleared (e : OriginEvent) : ¬ e.cleared.HasOrigin := by
  simp [HasOrigin, OriginEvent.cleared]

theorem countP_cleared {p : OriginEvent → Prop} [DecidablePred p] {rows : List OriginEvent}
    (h : ∀ e ∈ rows, p e → e.HasOrigin) :
    (rows.map fun e => if p e then e.cleared else e).countP (fun e => e.HasOrigin) +
      (rows.filter fun e => p e).length = rows.countP fun e => e.HasOrigin := by
  induction rows with
  | nil => rfl
  | cons e rows ih =>
      have hrest := ih fun e he => h e (List.mem_cons_of_mem _ he)
      rw [List.map_cons, List.countP_cons, List.countP_cons, List.filter_cons]
      by_cases hp : p e
      · have horigin := h e (List.mem_cons_self ..) hp
        simp only [hp, not_hasOrigin_cleared, horigin, if_true, decide_true, decide_false,
          List.length_cons, Bool.false_eq_true, if_false]
        omega
      · simp only [hp, decide_false, if_false, Bool.false_eq_true]
        omega

/-- **Each row counted is one that had an origin.** -/
theorem withOrigin_clearDue : withOrigin (clearDue b m events tenant limit).1 +
    (clearDue b m events tenant limit).2 = withOrigin events :=
  countP_cleared fun _ he hchosen => (mem_dueRows ((chosen_iff he).mp hchosen)).2.2.1

/-- A row after the `UPDATE` is one from before it, cleared or as it was. -/
theorem mem_clearDue {e : OriginEvent}
    (he : e ∈ (clearDue b m events tenant limit).1.table.rows) :
    (∃ e' : OriginEvent, e'.cleared = e) ∨
      e ∈ events.table.rows ∧ ¬ Chosen b m events tenant limit e := by
  obtain ⟨e', he', rfl⟩ := List.mem_map.mp he
  by_cases hchosen : Chosen b m events tenant limit e'
  · exact Or.inl ⟨e', (if_pos hchosen).symm⟩
  · rw [if_neg hchosen]
    exact Or.inr ⟨he', hchosen⟩

theorem cleared_rows : (clearDue b m events tenant limit).1.table.rows.map OriginEvent.cleared =
    events.table.rows.map OriginEvent.cleared := by
  show (events.table.rows.map _).map _ = _
  rw [List.map_map]
  refine List.map_congr_left fun e _ => ?_
  simp only [Function.comp_apply]
  split_ifs <;> rfl

/-! ## § The walk -/

/-- Due in every call of a walk, the row of a business has been cleared. -/
def Forgotten (m : ℕ → SweepMoment) (n : ℕ) (events : OriginEvents b) (tenant : ℕ) : Prop :=
  ∀ e ∈ events.table.rows, e.tenantId = tenant →
    (∀ j ≤ n, e.Overdue b (m j).cutoff ∧ (m j).locked e.id = false) → ¬ e.HasOrigin

/-- **One business is paid for**: its `UPDATE` keeps to the limit, clears as many rows as it
counts and, below the limit, all that are due. -/
theorem clearDue_pays (m : ℕ → SweepMoment) {n j : ℕ} (hj : j ≤ n) :
    Batches.Pays (clearDue b (m j)) withOrigin (Forgotten m n) where
  within _ _ _ := rowCount_le
  pays _ _ _ := withOrigin_clearDue.le
  finishes events tenant limit hless e he htenant hdue horigin := by
    rcases mem_clearDue he with ⟨e', rfl⟩ | ⟨he', hkept⟩
    · exact not_hasOrigin_cleared e' horigin
    · exact hkept (chosen_of_due hless he' ⟨htenant, horigin, hdue j hj⟩)
  keeps events tenant limit tenant' hdone e he htenant hdue horigin := by
    rcases mem_clearDue he with ⟨e', rfl⟩ | ⟨he', _⟩
    · exact not_hasOrigin_cleared e' horigin
    · exact hdone e he' htenant hdue horigin

/-! ## § The walk's calls are batches -/

def OriginSweep.batch (s : OriginSweep b) : Batches.Batch ℕ (OriginEvents b) :=
  ⟨s.events, s.cleared, s.visited, s.nextTenant⟩

theorem sweepTenants_batch {tenants : List ℕ} : ∀ {s : OriginSweep b},
    (sweepTenants b m tenants s).batch = Batches.loop (clearDue b m) 1000 200 tenants s.batch := by
  induction tenants with
  | nil => intro s; rfl
  | cons tenant tenants ih =>
      intro s
      rw [sweepTenants, Batches.loop]
      by_cases hfull : 200 ≤ s.visited.length
      · rw [if_pos hfull, if_pos (show 200 ≤ s.batch.visited.length from hfull)]
        rfl
      · rw [if_neg hfull, if_neg (show ¬ 200 ≤ s.batch.visited.length from hfull)]
        dsimp only
        split_ifs with hwork hwork' hwork'
        · rfl
        · exact absurd hwork hwork'
        · exact absurd hwork' hwork
        · exact ih

/-- **A walk's calls are a walk in batches** over the businesses. -/
theorem row_batch {w : OriginWalk b} {m : ℕ → SweepMoment} (hstart : w.start = none) (j : ℕ) :
    (w.row m j).batch =
      Batches.batches (fun j => clearDue b (m j)) 1000 200 b.tenants w.events j := by
  induction j with
  | zero =>
      rw [OriginWalk.row, OriginWalk.before, hstart, sweepBookingOrigins, sweepTenants_batch]
      rfl
  | succ j ih =>
      rw [Batches.batches, ← ih, OriginWalk.row, sweepBookingOrigins, sweepTenants_batch]
      rfl

theorem cleared_sweepTenants {tenants : List ℕ} : ∀ {s : OriginSweep b},
    (sweepTenants b m tenants s).events.table.rows.map OriginEvent.cleared =
      s.events.table.rows.map OriginEvent.cleared := by
  induction tenants with
  | nil => intro s; rfl
  | cons tenant tenants ih =>
      intro s
      rw [sweepTenants]
      split_ifs
      · rfl
      · dsimp only
        split_ifs
        · exact cleared_rows
        · exact ih.trans cleared_rows

theorem cleared_before {w : OriginWalk b} {m : ℕ → SweepMoment} (j : ℕ) :
    (w.before m j).events.table.rows.map OriginEvent.cleared =
      w.events.table.rows.map OriginEvent.cleared := by
  induction j with
  | zero => rfl
  | succ j ih => exact cleared_sweepTenants.trans ih

/-- **The origin sweep visits everything in bounded steps.** Whatever is due and held at each
call, a walk from the first business ends; each call keeps to its limits; every business is
looked at; and a row that was due and free at every call has lost its origin, the rows
staying what they were otherwise. -/
theorem origins_swept (b : Businesses) (events : OriginEvents b) (m : ℕ → SweepMoment)
    (bookingOrigins : ℕ) :
    let w : OriginWalk b := ⟨events, none, bookingOrigins⟩
    ∃ n, ((w.before m n).call (m n)).1 = true ∧
      (∀ j < n, ((w.before m j).call (m j)).1 = false) ∧
      (∀ j ≤ n, (w.row m j).cleared ≤ 1000 ∧ (w.row m j).visited.length ≤ 200) ∧
      (∀ tenant ∈ b.tenants, ∃ j ≤ n, tenant ∈ (w.row m j).visited) ∧
      (w.before m (n + 1)).events.table.rows.map OriginEvent.cleared =
        events.table.rows.map OriginEvent.cleared ∧
      ∀ e ∈ (w.before m (n + 1)).events.table.rows,
        (∀ j ≤ n, e.Overdue b (m j).cutoff ∧ (m j).locked e.id = false) → ¬ e.HasOrigin := by
  intro w
  set calls := Batches.batches (fun j => clearDue b (m j)) 1000 200 b.tenants events
  have hrow : ∀ j, (w.row m j).batch = calls j := row_batch rfl
  have hpays : ∀ j, Batches.Pays (clearDue b (m j)) withOrigin (Forgotten m j) := fun j =>
    clearDue_pays m le_rfl
  have hnext : ∀ j, ((w.before m j).call (m j)).1 = (calls j).next.isNone := fun j => by
    rw [← hrow]
    rfl
  obtain ⟨n, hlast, hmore⟩ : ∃ n, (calls n).next = none ∧ ∀ j < n, (calls j).next ≠ none :=
    Batches.batches_end hpays (Nat.succ_pos _) (Nat.succ_pos _) b.distinct
  have hpassed : ∀ tenant, Batches.Passed (calls n) tenant := fun tenant next hmem => by
    rw [hlast] at hmem
    cases hmem
  have hdone : ∀ tenant ∈ b.tenants, Forgotten m n (calls n).state tenant ∧
      ∃ j ≤ n, tenant ∈ (calls j).visited := fun tenant htenant =>
    Batches.batches_passed (fun j hj => clearDue_pays m hj) (Nat.succ_pos _) tenant htenant
      (hpassed tenant)
  refine ⟨n, ?_, fun j hj => ?_, fun j _ => ?_, fun tenant htenant => ?_, cleared_before _, ?_⟩
  · rw [hnext, hlast]
    rfl
  · rw [hnext]
    exact Option.isNone_eq_false_iff.mpr (Option.isSome_iff_ne_none.mpr (hmore j hj))
  · have hstops : (calls j).spent ≤ 1000 ∧ (calls j).visited.length ≤ 200 :=
      Batches.batches_stops hpays (Nat.succ_pos _) j
    rwa [← hrow] at hstops
  · obtain ⟨j, hj, hvisited⟩ := (hdone tenant htenant).2
    rw [← hrow] at hvisited
    exact ⟨j, hj, hvisited⟩
  · intro e he hdue
    have howned : e.tenantId ∈ b.tenants := (w.before m (n + 1)).events.owned e he
    have hforgotten : Forgotten m n (w.row m n).batch.state e.tenantId := by
      rw [hrow]
      exact (hdone _ howned).1
    exact hforgotten e he rfl hdue

end Ziftbook
