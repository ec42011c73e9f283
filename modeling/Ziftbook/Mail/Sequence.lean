import Ziftbook.Bookings.Anchor
import Ziftbook.Bookings.Written
import Ziftbook.Mail.Ics
import Ziftbook.Mail.Sending

/-!
# Later attachments supersede earlier ones

The confirmations built beside a run of the business, each with what `send_booking`
hands to `ics`. The sequence number is the booking's `reschedule_count`, which the
client's move advances and the merchant's does not.
-/

namespace Ziftbook

open Foundation

/-! ## § What is attached -/

/-- The arguments of `ics` that the booking's row gives. -/
structure Vevent where
  bookingId : ℕ
  startsAt : ℤ
  endsAt : ℤ
  sequence : ℕ
deriving DecidableEq

/-- The attachment of a confirmation that is built: of the row as it was read. -/
def attached (db : Db) (now : ℤ) (payload : Payload) (beside : Beside) : Option Vevent :=
  if payload.template = .bookingConfirmed ∧ (sendBooking db now payload beside).isSome then
    (db.bookings.find payload.bookingId).map fun row =>
      ⟨payload.bookingId, row.startsAt, row.endsAt, row.rescheduleCount⟩
  else none

/-- The booking's id, as a `UUID`. -/
def Vevent.uid (v : Vevent) : Uuid := ⟨v.bookingId % 16 ^ 32, Nat.mod_lt _ (by decide)⟩

/-- Its octets. -/
def Vevent.ics (v : Vevent) (summary : List Char) (now : Stamp) : Option (List UInt8) := do
  let startsAt ← stampAt v.startsAt
  let endsAt ← stampAt v.endsAt
  Ziftbook.ics v.uid startsAt endsAt summary now v.sequence

/-- **The attachment's SEQUENCE** is that of the event, and on one line of it. -/
theorem Vevent.sequence_line {v : Vevent} {summary : List Char} {now : Stamp}
    {attachment : List UInt8} (h : v.ics summary now = some attachment) :
    ∃ text, decode attachment = some text ∧
      (lines '\r' '\n' (unfolded '\r' '\n' Ics.wsp text))[7]? =
        some ("SEQUENCE:".toList ++ decimal v.sequence) := by
  obtain ⟨startsAt, _, h⟩ := Option.bind_eq_some_iff.mp h
  obtain ⟨endsAt, _, h⟩ := Option.bind_eq_some_iff.mp h
  obtain ⟨_, hics, _, text, value, hdecode, hlines, _⟩ :=
    ics_lossless v.uid startsAt endsAt summary now v.sequence
  rw [h] at hics
  cases hics
  refine ⟨text, hdecode, ?_⟩
  rw [hlines]
  rfl

/-! ## § The post room -/

/-- The business, the letters its operations have enqueued, and the attachments of the
confirmations built, in order. -/
structure Postroom where
  world : World
  letters : List Letter
  attachments : List Vevent

/-- An operation, or a worker at one of the letters: jobs run in any order, and again
when they have failed. -/
inductive PostroomStep
  | op (now : ℤ) (op : Op) (overQuota : Bool)
  | send (now : ℤ) (letter : Letter) (beside : Beside)

/-- What an operation enqueues, when it is accepted. -/
def World.letters (w : World) (now : ℤ) (op : Op) (overQuota : Bool) : List Letter :=
  match apply w.db now op with
  | .ok db => op.letters w.db db now overQuota
  | .error _ => []

def Postroom.step (s : Postroom) : PostroomStep → Option Postroom
  | .op now op overQuota => (s.world.step (now, op)).map fun world =>
      { s with
        world := world
        letters := s.letters ++ s.world.letters now op overQuota }
  | .send now letter beside =>
      if letter ∈ s.letters then
        some { s with
          attachments :=
            s.attachments ++ (attached s.world.db now letter.payload beside).toList }
      else none

def Postroom.run (s : Postroom) (es : List PostroomStep) : Option Postroom :=
  Runs.run Postroom.step s es

structure Postroom.Blank (s : Postroom) : Prop where
  bookings : s.world.db.bookings.rows = []
  attachments : s.attachments = []

/-- **Of two attachments with different starts the later has the higher sequence.** -/
def Postroom.Supersedes (s : Postroom) : Prop :=
  s.attachments.Pairwise fun v v' =>
    v.bookingId = v'.bookingId → v.startsAt ≠ v'.startsAt → v.sequence < v'.sequence

/-- A confirmation with the booking's present count has been built. -/
def Postroom.Sent (s : Postroom) (row : Booking) : Prop :=
  ∃ v ∈ s.attachments, v.bookingId = row.id ∧ v.sequence = row.rescheduleCount

/-- The merchant moves no booking to another start once a confirmation with its present
count has been built. -/
def Postroom.Paced (s : Postroom) : PostroomStep → Prop
  | .op now op _ => ∀ row ∈ s.world.db.bookings.rows,
      s.world.moved (now, op) row.id = some .merchant → op.start ≠ some row.startsAt →
      ¬ s.Sent row
  | .send .. => True

instance (s : Postroom) : Decidable s.Supersedes :=
  inferInstanceAs (Decidable (List.Pairwise _ _))

instance (s : Postroom) (row : Booking) : Decidable (s.Sent row) :=
  inferInstanceAs (Decidable (∃ v ∈ s.attachments, _))

instance (s : Postroom) : (e : PostroomStep) → Decidable (s.Paced e)
  | .op .. => inferInstanceAs (Decidable (∀ row ∈ s.world.db.bookings.rows, _ → _ → _))
  | .send .. => .isTrue trivial

/-! ## § One row -/

/-- A merchant's move leaves the row at its start, with the count it had. -/
theorem row_of_merchant {db db' : Db} {now : ℤ} {op : Op} (h : apply db now op = .ok db')
    {b : Booking} (hb : b ∈ db.bookings.rows)
    (hmoves : op.moves db now = some (b.id, .merchant)) :
    ∃ b' ∈ db'.bookings.rows, b'.id = b.id ∧ op.start = some b'.startsAt ∧
      b'.rescheduleCount = b.rescheduleCount := by
  cases op with
  | reschedule current bookingId change =>
      obtain ⟨row, moved, hrow, hshifted, _, hstart, hcount⟩ := reschedule_shifted h
      have hid : bookingId = b.id := congrArg Prod.fst (Option.some.inj hmoves)
      obtain ⟨hmem, hrowId⟩ := Table.find_eq_some.mp hrow
      have hsame : row = b := db.bookings.eq_of_key hmem hb (hrowId.trans hid)
      subst hsame
      exact ⟨moved, hshifted.after, hshifted.id, by rw [hstart]; rfl, hcount⟩
  | linkReschedule tokenHash body =>
      obtain ⟨row, _, hkind⟩ := Option.map_eq_some_iff.mp hmoves
      have hkind := congrArg Prod.snd hkind
      simp only at hkind
      split_ifs at hkind
  | _ => cases hmoves

/-- An attachment of the row: of no later count, and with the present count of the present
start. -/
structure Vevent.Of (v : Vevent) (row : Booking) : Prop where
  id : row.id = v.bookingId
  answered : row.status ∉ expiring
  sequence : v.sequence ≤ row.rescheduleCount
  start : v.sequence = row.rescheduleCount → v.startsAt = row.startsAt

theorem Vevent.Of.stays {v : Vevent} {b b' : Booking} {new : List Event} (h : v.Of b)
    (htold : b.Told b' new) : v.Of b' := by
  refine ⟨htold.stays.id.trans h.id, htold.answered h.answered, ?_, ?_⟩
  · rw [htold.stays.rescheduleCount]
    exact h.sequence
  · rw [htold.stays.rescheduleCount, htold.stays.startsAt]
    exact h.start

/-- **A move keeps it**, the merchant's when it is to the same start or no attachment has
the present count. -/
theorem Vevent.Of.moved {v : Vevent} {b b' : Booking} {moved : ℕ} {kind : MoveKind}
    (h : v.Of b) (hmoved : b.MovedAs moved kind b')
    (hmerchant : kind = .merchant → v.sequence = b.rescheduleCount → b'.startsAt = b.startsAt) :
    v.Of b' := by
  have hwrites := hmoved.writes
  refine ⟨hmoved.id.trans h.id, hmoved.status ▸ h.answered, ?_, ?_⟩
  · cases kind with
    | merchant =>
        rw [hwrites.2.2.2]
        exact h.sequence
    | client =>
        rw [hwrites.2.2.2.1]
        exact h.sequence.trans (Nat.le_succ _)
    | pending =>
        rw [hwrites.2.2.1]
        exact h.sequence
  · intro hcount
    cases kind with
    | merchant =>
        rw [hwrites.2.2.2] at hcount
        rw [hmerchant rfl hcount]
        exact h.start hcount
    | client =>
        -- the client's move advances the count
        have hle := h.sequence
        rw [hwrites.2.2.2.1] at hcount
        omega
    | pending => exact absurd (by rw [hwrites.1]; decide) h.answered

/-! ## § Runs -/

/-- Between two steps. -/
structure Postroom.InStep (s : Postroom) : Prop where
  current : ∀ v ∈ s.attachments, ∃ row ∈ s.world.db.bookings.rows, v.Of row
  supersedes : s.Supersedes

theorem Postroom.Blank.inStep {s : Postroom} (h : s.Blank) : s.InStep := by
  refine ⟨?_, ?_⟩
  · rw [h.attachments]
    simp
  · unfold Postroom.Supersedes
    rw [h.attachments]
    exact List.Pairwise.nil

/-- An operation and the row of an attachment. -/
theorem Vevent.Of.step {w w' : World} {now : ℤ} {op : Op} {v : Vevent} {b : Booking}
    (h : v.Of b) (hb : b ∈ w.db.bookings.rows) (hstep : w.step (now, op) = some w')
    (hpaced : w.moved (now, op) b.id = some .merchant → op.start ≠ some b.startsAt →
      v.sequence ≠ b.rescheduleCount) :
    ∃ b' ∈ w'.db.bookings.rows, v.Of b' := by
  rcases World.step_moved hstep with happly | ⟨hsame, _⟩
  · obtain ⟨b1, new, htold, b', hb', rfl | ⟨kind, hmoves, hmoved⟩⟩ :=
      (apply_chronicle happly).follow hb
    · exact ⟨b', hb', h.stays htold⟩
    · refine ⟨b', hb', (h.stays htold).moved hmoved ?_⟩
      rintro rfl hcount
      have hkind : w.moved (now, op) b.id = some .merchant := by
        rw [World.moved_eq happly, hmoves, Option.filter_some_pos (by simp [htold.stays.id])]
        rfl
      obtain ⟨b2, hb2, hid2, hstart, _⟩ :=
        row_of_merchant happly hb (hmoves.trans (by rw [htold.stays.id]))
      have hsame : b2 = b' := w'.db.bookings.eq_of_key hb2 hb'
        (hid2.trans (htold.stays.id.symm.trans hmoved.id.symm))
      subst hsame
      rw [htold.stays.rescheduleCount] at hcount
      rw [htold.stays.startsAt]
      by_contra hne
      refine hpaced hkind (fun hsame => hne ?_) hcount
      exact Option.some.inj (hstart.symm.trans hsame)
  · rw [hsame]
    exact ⟨b, hb, h⟩

/-- What is attached is of the row as it is. -/
theorem attached_eq_some {db : Db} {now : ℤ} {payload : Payload} {beside : Beside} {v : Vevent}
    (h : attached db now payload beside = some v) :
    ∃ row ∈ db.bookings.rows, row.id = v.bookingId ∧ row.status = .confirmed ∧
      v.startsAt = row.startsAt ∧ v.sequence = row.rescheduleCount := by
  unfold attached at h
  split_ifs at h with hsent
  obtain ⟨row, hrow, rfl⟩ := Option.map_eq_some_iff.mp h
  obtain ⟨addressee, haddressee⟩ := Option.isSome_iff_exists.mp hsent.2
  obtain ⟨row', hrow', hid, hstatus, _⟩ := sendBooking_current haddressee
  obtain ⟨hmem, hrowId⟩ := Table.find_eq_some.mp hrow
  rw [db.bookings.eq_of_key hrow' hmem (hid.trans hrowId.symm), hsent.1] at hstatus
  exact ⟨row, hmem, hrowId, List.mem_singleton.mp hstatus, rfl, rfl⟩

/-- **One step of the post room.** -/
theorem superseding_step {s s' : Postroom} {e : PostroomStep} (h : s.InStep) (hpaced : s.Paced e)
    (hstep : s.step e = some s') : s'.InStep := by
  cases e with
  | op now op overQuota =>
      obtain ⟨w, hw, rfl⟩ := Option.map_eq_some_iff.mp hstep
      refine ⟨fun v hv => ?_, h.supersedes⟩
      obtain ⟨b, hb, hof⟩ := h.current v hv
      exact hof.step hb hw fun hmoved hstart hcount =>
        hpaced b hb hmoved hstart ⟨v, hv, hof.id.symm, hcount⟩
  | send now letter beside =>
      simp only [Postroom.step] at hstep
      split_ifs at hstep
      cases hstep
      cases hnew : attached s.world.db now letter.payload beside with
      | none =>
          rw [Option.toList_none, List.append_nil]
          exact h
      | some v =>
          obtain ⟨row, hrow, hid, hstatus, hstart, hcount⟩ := attached_eq_some hnew
          refine ⟨fun v' hv' => ?_, ?_⟩
          · rcases List.mem_append.mp hv' with hv' | hv'
            · exact h.current v' hv'
            · rw [List.mem_singleton.mp hv']
              refine ⟨row, hrow, hid, ?_, hcount.le, fun _ => hstart⟩
              rw [hstatus]
              decide
          · refine List.pairwise_append.mpr ⟨h.supersedes, List.pairwise_singleton .., ?_⟩
            intro v' hv' v'' hv'' hsame hne
            rw [List.mem_singleton.mp hv''] at hsame hne ⊢
            obtain ⟨row', hrow', hof⟩ := h.current v' hv'
            have heq : row' = row :=
              s.world.db.bookings.eq_of_key hrow' hrow (hof.id.trans (hsame.trans hid.symm))
            subst heq
            -- the present count is of the present start
            refine lt_of_le_of_ne (hcount ▸ hof.sequence) fun hseq => hne ?_
            exact (hof.start (hseq.trans hcount)).trans hstart.symm

/-- **A merchant's move out of pace**: a confirmation built right after it supersedes
nothing. -/
theorem not_supersedes_of_move {s s1 : Postroom} {e : PostroomStep} (h : s.InStep)
    (hnot : ¬ s.Paced e) (hstep : s.step e = some s1) :
    ∃ bookingId, ∀ now letter beside s2 v, s1.step (.send now letter beside) = some s2 →
      attached s1.world.db now letter.payload beside = some v → v.bookingId = bookingId →
      ¬ s2.Supersedes := by
  cases e with
  | send now letter beside => exact absurd trivial hnot
  | op now op overQuota =>
      simp only [Postroom.Paced, not_forall, not_not, exists_prop] at hnot
      obtain ⟨row, hrow, hmoved, hstart, v, hv, hid, hcount⟩ := hnot
      obtain ⟨w, hw, rfl⟩ := Option.map_eq_some_iff.mp hstep
      -- a refused operation moves nothing
      obtain ⟨db', happly⟩ : ∃ db', apply s.world.db now op = .ok db' := by
        cases happly : apply s.world.db now op with
        | ok db' => exact ⟨db', rfl⟩
        | error e =>
            rw [World.moved, happly] at hmoved
            cases hmoved
      have hdb : w.db = db' := by
        rw [World.step, happly] at hw
        rw [← Option.some.inj hw]
      have hmoves : op.moves s.world.db now = some (row.id, .merchant) := by
        rw [World.moved_eq happly] at hmoved
        obtain ⟨m, hm, hkind⟩ := Option.map_eq_some_iff.mp hmoved
        obtain ⟨hm, hrowId⟩ := Option.filter_eq_some_iff.mp hm
        rw [hm, ← of_decide_eq_true hrowId, ← hkind]
      obtain ⟨row', hrow', hid', hstart', hcount'⟩ := row_of_merchant happly hrow hmoves
      have hof : v.startsAt = row.startsAt := by
        obtain ⟨row0, hrow0, hof⟩ := h.current v hv
        have hsame : row0 = row :=
          s.world.db.bookings.eq_of_key hrow0 hrow (hof.id.trans hid)
        subst hsame
        exact hof.start hcount
      refine ⟨row.id, fun now' letter beside s2 v' hsend hnew hid2 hsupersedes => ?_⟩
      simp only [Postroom.step] at hsend
      split_ifs at hsend
      cases hsend
      rw [hdb] at hnew
      obtain ⟨row2, hrow2, hrowId, _, hstart2, hcount2⟩ := attached_eq_some hnew
      have hsame : row2 = row' :=
        db'.bookings.eq_of_key hrow2 hrow' (hrowId.trans (hid2.trans hid'.symm))
      subst hsame
      unfold Postroom.Supersedes at hsupersedes
      simp only [hdb, hnew] at hsupersedes
      have hlt := (List.pairwise_append.mp hsupersedes).2.2 v hv v'
        (List.mem_singleton.mpr rfl) (hid.trans hid2.symm) fun heq => hstart ?_
      · rw [hcount, hcount2, hcount'] at hlt
        exact lt_irrefl _ hlt
      · rw [hstart', ← hstart2, ← heq, hof]

/-- **Calendar updates supersede**, in every run in which the merchant moves no booking
to another start once a confirmation with its present count has been built; after such a
move the next confirmation of the booking does not. -/
theorem supersedes_of_run {s s' : Postroom} {es : List PostroomStep} (h : s.Blank)
    (hpaced : Runs.Along Postroom.step Postroom.Paced s es) (hrun : s.run es = some s') :
    s'.Supersedes ∧ ∀ e s1, ¬ s'.Paced e → s'.step e = some s1 →
      ∃ bookingId, ∀ now letter beside s2 v, s1.step (.send now letter beside) = some s2 →
        attached s1.world.db now letter.payload beside = some v → v.bookingId = bookingId →
        ¬ s2.Supersedes := by
  have hin : s'.InStep :=
    Runs.run_invariant (fun _ _ _ => superseding_step) h.inStep hpaced hrun
  exact ⟨hin.supersedes, fun e s1 hnot hstep => not_supersedes_of_move hin hnot hstep⟩

/-! ## § Two moves -/

def postroom : Postroom := ⟨thursdayShop, [], []⟩

/-- The confirmation of booking 1. -/
def confirmationOf (suffix : KeySuffix) (startsAt : ℤ) : Letter :=
  ⟨⟨1, .bookingConfirmed, suffix, none⟩,
    ⟨1, .bookingConfirmed, none, { startsAt := some startsAt }⟩, none⟩

/-- A request for ten of the second Thursday is accepted, and its confirmation built. -/
def tenConfirmed : List PostroomStep :=
  [.op 0 (.edit (.settings { Settings.defaults (.fixed 0) with published := true })) false,
    .op 0 (.bookOnline ⟨1, none, nextThursday 600, "client", none, none, false, none, true, none,
      1, 2⟩) false,
    .op 0 (.edit (.addLink ⟨1, 1⟩)) false,
    .op minute (ownerSets 1 .confirmed) false,
    .send minute (confirmationOf .none (nextThursday 600)) ⟨false, false, false⟩]

/-- The client moves it to eleven. -/
def clientToEleven : List PostroomStep :=
  [.op (2 * minute) (.linkReschedule 1 ⟨1, nextThursday 660, 0, none, none⟩) false,
    .send (2 * minute) (confirmationOf (.count 1) (nextThursday 660)) ⟨false, false, false⟩]

/-- The owner moves it to eleven. -/
def ownerToEleven : List PostroomStep :=
  [.op (2 * minute) (.reschedule owner 1 ⟨nextThursday 660, none, false, none⟩) false,
    .send (2 * minute) (confirmationOf (.clock (2 * minute)) (nextThursday 660))
      ⟨false, false, false⟩]

theorem supersedes_of_run_client : ∃ s, postroom.run (tenConfirmed ++ clientToEleven) = some s ∧
    s.attachments.map (fun v => (v.startsAt, v.sequence)) =
      [(nextThursday 600, 0), (nextThursday 660, 1)] ∧ s.Supersedes := by
  obtain ⟨s, hrun⟩ := Option.isSome_iff_exists.mp
    (by decide +kernel : (postroom.run (tenConfirmed ++ clientToEleven)).isSome)
  have hfacts : ∀ s ∈ postroom.run (tenConfirmed ++ clientToEleven),
      s.attachments.map (fun v => (v.startsAt, v.sequence)) =
        [(nextThursday 600, 0), (nextThursday 660, 1)] := by
    decide +kernel
  exact ⟨s, hrun, hfacts s hrun,
    (supersedes_of_run ⟨rfl, rfl⟩ (by decide +kernel) hrun).1⟩

/-- Both attachments have SEQUENCE 0. -/
theorem merchant_move_not_superseding : ∃ s, postroom.Blank ∧
    postroom.run (tenConfirmed ++ ownerToEleven) = some s ∧
    s.attachments.map (fun v => (v.startsAt, v.sequence)) =
      [(nextThursday 600, 0), (nextThursday 660, 0)] ∧ ¬ s.Supersedes := by
  obtain ⟨s, hrun⟩ := Option.isSome_iff_exists.mp
    (by decide +kernel : (postroom.run (tenConfirmed ++ ownerToEleven)).isSome)
  have hfacts : ∀ s ∈ postroom.run (tenConfirmed ++ ownerToEleven),
      s.attachments.map (fun v => (v.startsAt, v.sequence)) =
        [(nextThursday 600, 0), (nextThursday 660, 0)] ∧ ¬ s.Supersedes := by
    decide +kernel
  exact ⟨s, ⟨rfl, rfl⟩, hrun, hfacts s hrun⟩

end Ziftbook
