import Ziftbook.Bookings.History
import Ziftbook.Foundation.Returns
import Ziftbook.Foundation.Savepoints

/-!
# Placing a booking in its transaction

`place` of `app/bookings.py` as it runs in the caller's transaction: each candidate is
tried inside a savepoint, and an insert may raise what the tables do not show, another
transaction's row or a lost connection. `Bookings/Operations` has what is left of it
when only the tables decide.
-/

namespace Ziftbook

open Foundation Foundation.Savepoints Foundation.Savepoints.Action

/-! ## § What a try raises -/

/-- The class of an `IntegrityError`'s `orig`. -/
inductive ViolationClass
  | exclusion | foreignKey | other
deriving DecidableEq, Repr

/-- An integrity error with its constraint's name, any other error of the database's, or a
candidate that `names` does not have. -/
inductive TryError
  | integrity (kind : ViolationClass) (constraint : Option String)
  | database
  | keyError
deriving DecidableEq, Repr

/-- `OVERLAP`. -/
def overlapConstraint : String := "ex_bookings_worker_overlap"

/-- `members.BOOKINGS_WORKER`. -/
def bookingsWorker : String := "fk_bookings_tenant_id_worker_id_memberships"

/-- The candidate is gone: the loop goes on. -/
def TryError.losesSlot : TryError → Bool
  | .integrity .exclusion constraint => constraint = some overlapConstraint
  | .integrity .foreignKey constraint => constraint = some bookingsWorker
  | _ => false

def IntegrityError.raised : IntegrityError → TryError
  | .exclusion => .integrity .exclusion (some overlapConstraint)
  | .worker => .integrity .foreignKey (some bookingsWorker)
  | .other => .integrity .other none

/-- What a try meets: the id its insert generates, what its inserts raise beside what the
tables make them, and which of its savepoint's statements fail. -/
structure Try where
  id : ℕ
  booking : Option TryError
  event : Option TryError
  breaks : Breaks

/-! ## § The loop -/

/-- `place`'s arguments. -/
structure Placement where
  settings : Settings
  service : Service
  clientId : ℕ
  names : ℕ → Option (Option String)
  startsAt : ℤ
  standing : Standing
  source : Source
  ip : Option Address
  actorUserId : Option ℕ
  metric : List (String × String)

/-- The caller's transaction, with what is counted once it commits. -/
structure PlacingSession where
  tx : Tx Db
  counts : List (Source × List (String × String))

inductive PlaceError
  | api (e : ApiError)
  | raised (e : TryError)

namespace Placement

variable (p : Placement)

def bookingFor (id candidate : ℕ) (name : Option String) : Booking :=
  newBooking p.settings p.service id p.clientId candidate name p.startsAt p.standing p.source

def created (id : ℕ) : Event := ⟨id, .created, p.ip, p.actorUserId, .empty⟩

/-- `INSERT_BOOKING`. -/
def insertBooking (t : Try) (b : Booking) (db : Db) : Except TryError (Booking × Db) :=
  match t.booking, db.insertBooking b with
  | some e, _ => .error e
  | none, .ok db => .ok (b, db)
  | none, .error e => .error e.raised

/-- `INSERT_EVENT`. -/
def insertEvent (t : Try) (event : Event) (db : Db) : Except TryError (Unit × Db) :=
  match t.event with
  | some e => .error e
  | none => .ok ((), db.record event)

/-- The body of the `try`. -/
def tryCandidate (t : Try) (candidate : ℕ) : Action Db TryError Booking :=
  nested .database t.breaks do
    let name ← ofOption .keyError (p.names candidate)
    let booking ← exec .database (insertBooking t (p.bookingFor t.id candidate name))
    exec .database (insertEvent t (p.created booking.id))
    pure booking

/-- `place`. -/
def place : (ℕ → Try) → List ℕ → PlacingSession →
    Except PlaceError (Booking × ℕ) × PlacingSession
  | _, [], s => (.error (.api ⟨409, .slotTaken⟩), s)
  | tries, candidate :: queue, s =>
      match p.tryCandidate (tries 0) candidate s.tx with
      | (.ok booking, tx) => (.ok (booking, candidate), ⟨tx, s.counts ++ [(p.source, p.metric)]⟩)
      | (.error e, tx) =>
          if e.losesSlot then place (fun k => tries (k + 1)) queue { s with tx := tx }
          else (.error (.raised e), { s with tx := tx })

/-! ## § One candidate -/

/-- What the candidate's inserts do to the database. -/
def inserts (t : Try) (candidate : ℕ) (db : Db) : Except TryError (Booking × Db) :=
  match p.names candidate with
  | none => .error .keyError
  | some name => do
      let r ← insertBooking t (p.bookingFor t.id candidate name) db
      let r' ← insertEvent t (p.created r.1.id) r.2
      .ok (r.1, r'.2)

/-- What trying the candidate raises, or leaves. -/
def outcome (t : Try) (candidate : ℕ) (db : Db) : Except TryError (Booking × Db) :=
  inSavepoint .database t.breaks (p.inserts t candidate) db

variable {p} {t : Try} {candidate : ℕ} {db db' : Db} {b : Booking} {s : PlacingSession}

/-- The body of the `try` means its inserts. -/
theorem means_inserts : Means (do
    let name ← ofOption .keyError (p.names candidate)
    let booking ← exec .database (insertBooking t (p.bookingFor t.id candidate name))
    exec .database (insertEvent t (p.created booking.id))
    pure booking) (p.inserts t candidate) := by
  have hbody := (@means_ofOption Db TryError _ .keyError (p.names candidate)).bind fun name =>
    (means_exec .database (insertBooking t (p.bookingFor t.id candidate name))).bind fun booking =>
      (means_exec .database (insertEvent t (p.created booking.id))).bind fun _ =>
        means_pure booking
  convert hbody using 1
  funext db
  unfold inserts
  cases p.names candidate <;> rfl

theorem insertBooking_ok {b' : Booking} (h : insertBooking t b db = .ok (b', db')) :
    b' = b ∧ db'.bookings.rows = db.bookings.rows ++ [b] ∧ db'.events = db.events := by
  unfold insertBooking at h
  split at h
  · cases h
  · rename_i hinsert
    cases h
    exact ⟨rfl, (insertBooking_eq_ok hinsert).2.1, insertBooking_events hinsert⟩
  · cases h

theorem insertEvent_ok {event : Event} {u : Unit} (h : insertEvent t event db = .ok (u, db')) :
    db' = db.record event := by
  unfold insertEvent at h
  split at h
  · cases h
  · cases h
    rfl

/-- **A candidate that takes the slot** leaves one booking, with its own name, and one event. -/
theorem outcome_eq_ok (h : p.outcome t candidate db = .ok (b, db')) :
    ∃ name, p.names candidate = some name ∧ b = p.bookingFor t.id candidate name ∧
      db'.bookings.rows = db.bookings.rows ++ [b] ∧ db'.events = db.events ++ [p.created b.id] := by
  obtain ⟨_, _, hinserts⟩ := inSavepoint_eq_ok h
  unfold inserts at hinserts
  cases hname : p.names candidate with
  | none =>
      rw [hname] at hinserts
      cases hinserts
  | some name =>
      rw [hname] at hinserts
      obtain ⟨⟨b', db1⟩, hbooking, hinserts⟩ := bind_ok_iff.mp hinserts
      obtain ⟨⟨_, db2⟩, hevent, hinserts⟩ := bind_ok_iff.mp hinserts
      cases hinserts
      obtain ⟨rfl, hrows, hevents⟩ := insertBooking_ok hbooking
      rw [insertEvent_ok hevent]
      exact ⟨name, rfl, rfl, hrows, by rw [Db.record, hevents]⟩

/-! ## § The candidates in turn -/

variable {tries : ℕ → Try} {queue : List ℕ}

theorem place_of_ok (ht : s.tx.aborted = false)
    (h : p.outcome (tries 0) candidate s.tx.current = .ok (b, db')) :
    p.place tries (candidate :: queue) s = (.ok (b, candidate),
      ⟨{ s.tx with current := db' }, s.counts ++ [(p.source, p.metric)]⟩) := by
  have htry : p.tryCandidate (tries 0) candidate s.tx = _ := nested_ok means_inserts ht h
  rw [place, htry]

/-- A candidate that loses the slot leaves the transaction as it was. -/
theorem place_of_loses (ht : s.tx.aborted = false) {e : TryError}
    (h : p.outcome (tries 0) candidate s.tx.current = .error e) (hloses : e.losesSlot = true) :
    p.place tries (candidate :: queue) s = p.place (fun k => tries (k + 1)) queue s := by
  obtain ⟨tx, htry, _, hsame⟩ := nested_error means_inserts ht h
  have htx : tx = s.tx := hsame (by rintro rfl; cases hloses)
  have htry' : p.tryCandidate (tries 0) candidate s.tx = _ := htry
  rw [place, htry', htx]
  exact if_pos hloses

/-- Any other error ends the call. -/
theorem place_of_raises (ht : s.tx.aborted = false) {e : TryError}
    (h : p.outcome (tries 0) candidate s.tx.current = .error e) (hother : e.losesSlot = false) :
    ∃ tx, p.place tries (candidate :: queue) s = (.error (.raised e), ⟨tx, s.counts⟩) ∧
      tx.rollback = s.tx.rollback := by
  obtain ⟨tx, htry, hroot, _⟩ := nested_error means_inserts ht h
  have htry' : p.tryCandidate (tries 0) candidate s.tx = _ := htry
  refine ⟨tx, ?_, hroot⟩
  rw [place, htry']
  exact if_neg (by simp [hother])

/-- The `k`-th candidate's try raises `e`. -/
def Raises (p : Placement) (tries : ℕ → Try) (queue : List ℕ) (db : Db) (k : ℕ) (e : TryError) :
    Prop :=
  ∃ candidate ∈ queue[k]?, p.outcome (tries k) candidate db = .error e

/-- It loses the slot. -/
def Loses (p : Placement) (tries : ℕ → Try) (queue : List ℕ) (db : Db) (k : ℕ) : Prop :=
  ∃ e, p.Raises tries queue db k e ∧ e.losesSlot = true

/-- Where the first candidates lose the slot the rest are tried, on the same database. -/
theorem place_append (ht : s.tx.aborted = false) {lost : List ℕ} : ∀ {tries : ℕ → Try},
    (∀ k < lost.length, p.Loses tries lost s.tx.current k) →
    p.place tries (lost ++ queue) s = p.place (fun k => tries (lost.length + k)) queue s := by
  induction lost with
  | nil =>
      intro tries _
      simp only [List.nil_append, List.length_nil, Nat.zero_add]
  | cons candidate lost ih =>
      intro tries hlost
      obtain ⟨e, ⟨_, hcandidate, hraises⟩, hloses⟩ := hlost 0 (Nat.succ_pos _)
      cases hcandidate
      rw [List.cons_append, place_of_loses ht hraises hloses, ih fun k hk => ?_]
      · refine congrArg (fun tries => p.place tries queue s) (funext fun k => ?_)
        rw [List.length_cons]
        congr 1
        omega
      · exact hlost (k + 1) (Nat.succ_lt_succ hk)

theorem raises_append {lost : List ℕ} {candidate k : ℕ} {e : TryError} (hk : k < lost.length) :
    p.Raises tries (lost ++ candidate :: queue) db k e ↔ p.Raises tries lost db k e := by
  rw [Raises, Raises, List.getElem?_append_left hk]

end Placement

/-! ## § When only the tables decide -/

/-- Nothing is raised but what the tables make the inserts raise. -/
def Try.calm (id : ℕ) : Try := ⟨id, none, none, ⟨false, false, false⟩⟩

/-- What the caller makes of an answer: the rest is a 500. -/
def PlaceError.answer : PlaceError → ApiError
  | .api e => e
  | .raised _ => ⟨500, .internal⟩

namespace Placement

theorem insertBooking_calm {id : ℕ} {b : Booking} {db : Db} : insertBooking (.calm id) b db =
    match db.insertBooking b with
    | .ok db' => .ok (b, db')
    | .error e => .error e.raised := by
  rw [insertBooking]
  cases db.insertBooking b <;> rfl

theorem outcome_calm (p : Placement) {id candidate : ℕ} {name : Option String} {db : Db}
    (hname : p.names candidate = some name) :
    p.outcome (.calm id) candidate db =
      match db.insertBooking (p.bookingFor id candidate name) with
      | .ok db' => .ok (p.bookingFor id candidate name, db'.record (p.created id))
      | .error e => .error e.raised := by
  rw [outcome, inSavepoint, inserts, hname]
  simp only [Try.calm]
  rw [← Try.calm, insertBooking_calm]
  cases db.insertBooking (p.bookingFor id candidate name) <;> rfl

end Placement

/-- **`place` of the tables alone is `place`** where nothing else is raised. -/
theorem place_eq_calm (db root : Db) (saved : List Db) (settings : Settings) (service : Service)
    (id clientId : ℕ) (startsAt : ℤ) (standing : Standing) (source : Source) (ip : Option Address)
    (actor : Option ℕ) (metric : List (String × String))
    (counts : List (Source × List (String × String))) (queue : List ℕ) :
    place db settings service id clientId startsAt standing source ip actor queue =
      match Placement.place ⟨settings, service, clientId, fun m => some (db.nameOf m), startsAt,
          standing, source, ip, actor, metric⟩ (fun _ => .calm id) queue
          ⟨⟨root, db, saved, false⟩, counts⟩ with
      | (.ok (b, _), s) => .ok (s.tx.current, b)
      | (.error e, _) => .error e.answer := by
  set p : Placement := ⟨settings, service, clientId, fun m => some (db.nameOf m), startsAt,
    standing, source, ip, actor, metric⟩ with hp
  induction queue with
  | nil => rfl
  | cons candidate queue ih =>
      have houtcome := @Placement.outcome_calm p id candidate _ db rfl
      simp only [place]
      cases hinsert : db.insertBooking (newBooking settings service id clientId candidate
          (db.nameOf candidate) startsAt standing source) with
      | ok db' =>
          rw [show db.insertBooking (p.bookingFor id candidate (db.nameOf candidate)) = .ok db' from
            hinsert] at houtcome
          rw [Placement.place_of_ok rfl houtcome]
          rfl
      | error e =>
          rw [show db.insertBooking (p.bookingFor id candidate (db.nameOf candidate)) = .error e from
            hinsert] at houtcome
          cases e with
          | exclusion => rw [Placement.place_of_loses rfl houtcome rfl, ← ih]
          | worker => rw [Placement.place_of_loses rfl houtcome rfl, ← ih]
          | other =>
              obtain ⟨tx, hplace, _⟩ := @Placement.place_of_raises p candidate
                ⟨⟨root, db, saved, false⟩, counts⟩ (fun _ => .calm id) queue rfl
                IntegrityError.other.raised houtcome rfl
              rw [hplace]
              rfl

/-- **`place` is all or nothing.** Whatever its inserts raise: where every candidate loses the
slot it answers 409 and leaves the transaction as it was; else the first that does not lose it
either takes it, with one booking in its own name and one event, or ends the call with what it
raised, and once the transaction is rolled back nothing is left. -/
theorem placed_all_or_nothing (p : Placement) (tries : ℕ → Try) (queue : List ℕ) (root db : Db)
    (saved : List Db) (counts : List (Source × List (String × String))) :
    let s : PlacingSession := ⟨⟨root, db, saved, false⟩, counts⟩
    ((∀ k < queue.length, p.Loses tries queue db k) →
      p.place tries queue s = (.error (.api ⟨409, .slotTaken⟩), s)) ∧
    ∀ (k : ℕ) (hk : k < queue.length), (∀ j < k, p.Loses tries queue db j) →
      ((∀ e, ¬ p.Raises tries queue db k e) → ∃ b db',
        p.place tries queue s = (.ok (b, queue[k]),
          ⟨⟨root, db', saved, false⟩, counts ++ [(p.source, p.metric)]⟩) ∧
        b = p.bookingFor (tries k).id queue[k] b.workerDisplayName ∧
        p.names queue[k] = some b.workerDisplayName ∧
        db'.bookings.rows = db.bookings.rows ++ [b] ∧
        db'.events = db.events ++ [p.created b.id]) ∧
      ∀ e, p.Raises tries queue db k e → e.losesSlot = false →
        ∃ tx, p.place tries queue s = (.error (.raised e), ⟨tx, counts⟩) ∧ tx.rollback = root := by
  intro s
  refine ⟨fun hall => ?_, fun k hk hlost => ?_⟩
  · have hplace := @Placement.place_append p s [] rfl queue tries hall
    rwa [List.append_nil] at hplace
  · have hsplit : queue.take k ++ queue[k] :: queue.drop (k + 1) = queue := by
      rw [← List.drop_eq_getElem_cons hk, List.take_append_drop]
    have hlen : (queue.take k).length = k := List.length_take_of_le hk.le
    have hplace : p.place tries queue s =
        p.place (fun j => tries (k + j)) (queue[k] :: queue.drop (k + 1)) s := by
      have happend := @Placement.place_append p s (queue[k] :: queue.drop (k + 1)) rfl
        (queue.take k) tries ?_
      · rwa [hsplit, hlen] at happend
      · intro j hj
        obtain ⟨e, hraises, hloses⟩ := hlost j (hlen ▸ hj)
        rw [← hsplit] at hraises
        exact ⟨e, (Placement.raises_append hj).mp hraises, hloses⟩
    have hget : queue[k]? = some queue[k] := List.getElem?_eq_getElem hk
    rw [hplace]
    constructor
    · intro hnone
      cases houtcome : p.outcome (tries k) queue[k] db with
      | error e => exact absurd ⟨_, hget, houtcome⟩ (hnone e)
      | ok r =>
          obtain ⟨b, db'⟩ := r
          obtain ⟨name, hname, hb, hrows, hevents⟩ := Placement.outcome_eq_ok houtcome
          have hbname : b.workerDisplayName = name := by
            rw [hb]
            rfl
          refine ⟨b, db', Placement.place_of_ok rfl houtcome, ?_, ?_, hrows, hevents⟩
          · rw [hbname]
            exact hb
          · rw [hbname]
            exact hname
    · rintro e ⟨candidate, hcandidate, houtcome⟩ hother
      cases Option.some.inj (hget.symm.trans hcandidate)
      exact Placement.place_of_raises rfl houtcome hother

end Ziftbook
