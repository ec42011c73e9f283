import Ziftbook.Bookings.Anchor

/-!
# The moves a client made

Beside a run stands the list of one booking's moves that its client made, each with
the line of the booking's history it wrote and the `reschedule_count` once it was
made. The history tells them one for one, and the count is of those made while the
booking was confirmed.
-/

namespace Ziftbook

open Foundation

/-! ## § The list -/

/-- A move by the booking's client. -/
structure ClientMove where
  pending : Bool
  spent : ℕ
  line : ℕ
deriving DecidableEq

def World.noteMove (bookingId : ℕ) (ms : List ClientMove) (w : World) (e : ℤ × Op)
    (w' : World) : List ClientMove :=
  match w.moved e bookingId, w'.db.bookings.find bookingId with
  | some .pending, some b =>
      ms ++ [⟨true, b.rescheduleCount, (w'.db.logOf bookingId).length - 1⟩]
  | some .client, some b =>
      ms ++ [⟨false, b.rescheduleCount, (w'.db.logOf bookingId).length - 1⟩]
  | _, _ => ms

/-- The client's moves of the booking in a run. -/
def World.clientMoves (w : World) (es : List (ℤ × Op)) (bookingId : ℕ) : List ClientMove :=
  Runs.watch World.step (World.noteMove bookingId) [] w es

/-- A line of the history that no member wrote. -/
def Event.clientMove (e : Event) : Prop := e.name = .rescheduled ∧ e.actorUserId = none

instance : DecidablePred Event.clientMove := fun _ => inferInstanceAs (Decidable (_ ∧ _))

/-! ## § The history tells them -/

/-- Up to each line the history tells as many of the moves as were made. -/
structure Matches (log : List Event) (ms : List ClientMove) : Prop where
  told : ∀ n, ((log.take n).filter Event.clientMove).length =
    (ms.filter fun m => m.line < n).length
  within : ∀ m ∈ ms, m.line < log.length

theorem matches_nil : Matches [] [] := ⟨by simp, by simp⟩

/-- Lines that tell no move of the client's. -/
theorem Matches.quiet {log new : List Event} {ms : List ClientMove} (h : Matches log ms)
    (hnew : ∀ e ∈ new, ¬ e.clientMove) : Matches (log ++ new) ms := by
  refine ⟨fun n => ?_, fun m hm => ?_⟩
  · have hnone : ((new.take (n - log.length)).filter Event.clientMove) = [] := by
      refine List.filter_eq_nil_iff.mpr fun e he => ?_
      exact fun hmove => hnew e (List.mem_of_mem_take he) (of_decide_eq_true hmove)
    rw [List.take_append, List.filter_append, hnone, List.append_nil, h.told n]
  · rw [List.length_append]
    exact (h.within m hm).trans_le (Nat.le_add_right ..)

/-- A move of the client's and its line. -/
theorem Matches.move {log : List Event} {ms : List ClientMove} (h : Matches log ms) {e : Event}
    (he : e.clientMove) (pending : Bool) (spent : ℕ) :
    Matches (log ++ [e]) (ms ++ [⟨pending, spent, log.length⟩]) := by
  refine ⟨fun n => ?_, fun m hm => ?_⟩
  · rw [List.filter_append, List.length_append, List.take_append, List.filter_append,
      List.length_append, h.told n]
    congr 1
    by_cases hn : log.length < n
    · obtain ⟨k, hk⟩ : ∃ k, n - log.length = k + 1 := ⟨n - log.length - 1, by omega⟩
      simp [hk, hn, he]
    · have hzero : n - log.length = 0 := by omega
      simp [hzero, hn]
  · rw [List.length_append, List.length_singleton]
    rcases List.mem_append.mp hm with hm | hm
    · exact (h.within m hm).trans (Nat.lt_succ_self _)
    · rw [List.mem_singleton.mp hm]
      exact Nat.lt_succ_self _

/-- A line that tells a move tells one of these. -/
theorem Matches.exists_line {log : List Event} {ms : List ClientMove} (h : Matches log ms) {i : ℕ}
    {e : Event} (hi : log[i]? = some e) (he : e.clientMove) : ∃ m ∈ ms, m.line = i := by
  have hbefore := h.told i
  have hafter := h.told (i + 1)
  rw [List.take_add_one, hi, List.filter_append, List.length_append] at hafter
  have hone : ([e].filter Event.clientMove).length = 1 := by simp [he]
  rw [Option.toList_some, hone, hbefore] at hafter
  by_contra hnone
  have hsame : (ms.filter fun m => m.line < i + 1) = ms.filter fun m => m.line < i := by
    refine List.filter_congr fun m hm => decide_eq_decide.mpr ?_
    have hne : m.line ≠ i := fun heq => hnone ⟨m, hm, heq⟩
    omega
  rw [hsame] at hafter
  omega

/-! ## § The count -/

/-- How many of the moves up to a line were made while the booking was confirmed. -/
def spentBy (ms : List ClientMove) (line : ℕ) : ℕ :=
  (ms.filter fun m => m.line ≤ line ∧ m.pending = false).length

/-- Each move with the count that it left. -/
def Counted (ms : List ClientMove) : Prop := ∀ m ∈ ms, m.spent = spentBy ms m.line

def confirmedMoves (ms : List ClientMove) : ℕ := (ms.filter fun m => m.pending = false).length

/-- A move after all others. -/
theorem Counted.append {ms : List ClientMove} (h : Counted ms) {m : ClientMove}
    (hlast : ∀ m' ∈ ms, m'.line < m.line) (hspent : m.spent = confirmedMoves (ms ++ [m])) :
    Counted (ms ++ [m]) := by
  intro m' hm'
  rcases List.mem_append.mp hm' with hm' | hm'
  · have hnot : ¬ m.line ≤ m'.line := not_le.mpr (hlast m' hm')
    rw [h m' hm', spentBy, spentBy, List.filter_append, List.length_append]
    simp [hnot]
  · rw [List.mem_singleton.mp hm', hspent, confirmedMoves, spentBy]
    congr 1
    refine List.filter_congr fun m' hm' => decide_eq_decide.mpr ?_
    have hle : m'.line ≤ m.line := by
      rcases List.mem_append.mp hm' with hm' | hm'
      · exact (hlast m' hm').le
      · exact (congrArg ClientMove.line (List.mem_singleton.mp hm')).le
    exact (and_iff_right hle).symm

/-- The booking, its history and its client's moves. -/
structure Db.Notes (bookingId : ℕ) (ms : List ClientMove) (db : Db) : Prop where
  missing : (∀ b ∈ db.bookings.rows, b.id ≠ bookingId) → ms = []
  told : Matches (db.logOf bookingId) ms
  counted : Counted ms
  count : ∀ b ∈ db.bookings.rows, b.id = bookingId → b.rescheduleCount = confirmedMoves ms ∧
    b.rescheduleCount ≤ b.maxReschedules

theorem logOf_append {db db' : Db} {new : List Event} (h : db'.events = db.events ++ new)
    (bookingId : ℕ) : db'.logOf bookingId =
      db.logOf bookingId ++ Journal.about Event.bookingId bookingId new := by
  rw [Db.logOf, h, Journal.about_append]
  rfl

/-- What an operation tells of standings is no move. -/
theorem Db.Logs.notes {bookingId : ℕ} {ms : List ClientMove} {db db' : Db} {new : List Event}
    (h : db.Logs db' new) (hn : db.Notes bookingId ms) : db'.Notes bookingId ms := by
  refine ⟨fun hmissing => hn.missing fun b hb hid => ?_, ?_, hn.counted, fun b' hb' hid => ?_⟩
  · obtain ⟨b', hb', hid'⟩ := h.kept b hb
    exact hmissing b' hb' (hid'.trans hid)
  · rw [logOf_append h.events]
    refine hn.told.quiet fun e he hmove => ?_
    exact h.unmoved e (Journal.mem_about.mp he).1 hmove.1
  · obtain ⟨b, hb, htold⟩ := h.rows b' hb'
    rw [htold.stays.rescheduleCount, htold.stays.maxReschedules]
    exact hn.count b hb (htold.stays.id.symm.trans hid)

/-! ## § One step -/

/-- The event of a move is a member's exactly when the merchant made it. -/
theorem last_of_moves {db db' : Db} {now : ℤ} {op : Op} (h : apply db now op = .ok db') {id : ℕ}
    {kind : MoveKind} (hmoves : op.moves db now = some (id, kind)) :
    ∃ e, db'.events.getLast? = some e ∧ (e.actorUserId = none ↔ kind ≠ .merchant) := by
  cases op with
  | reschedule current bookingId change =>
      have hkind : MoveKind.merchant = kind := congrArg Prod.snd (Option.some.inj hmoves)
      obtain ⟨_, _, _, _, _, _, _, _, rfl⟩ := reschedule_eq_ok h
      refine ⟨_, List.getLast?_concat .., ?_⟩
      rw [← hkind]
      simp
  | linkReschedule tokenHash body =>
      obtain ⟨row, _, hkind⟩ := Option.map_eq_some_iff.mp hmoves
      have hkind : (if row.status = .pending then MoveKind.pending else .client) = kind :=
        congrArg Prod.snd hkind
      obtain ⟨_, _, _, _, _, _, _, _, rfl⟩ := linkReschedule_eq_ok h
      refine ⟨_, List.getLast?_concat .., ?_⟩
      rw [← hkind]
      simp only [true_iff]
      split_ifs
      all_goals decide
  | _ => cases hmoves

/-- A step that moves the booking not, or by the merchant, notes nothing. -/
theorem noteMove_of_not_client {w w' : World} {e : ℤ × Op} {bookingId : ℕ}
    (h : w.moved e bookingId = none ∨ w.moved e bookingId = some .merchant)
    (ms : List ClientMove) : World.noteMove bookingId ms w e w' = ms := by
  unfold World.noteMove
  rcases h with h | h
  · rw [h]
  · rw [h]

theorem noteMove_of_client {w w' : World} {e : ℤ × Op} {bookingId : ℕ} {kind : MoveKind}
    {b : Booking} (h : w.moved e bookingId = some kind) (hkind : kind ≠ .merchant)
    (hfind : w'.db.bookings.find bookingId = some b) (ms : List ClientMove) :
    World.noteMove bookingId ms w e w' = ms ++ [⟨decide (kind = .pending), b.rescheduleCount,
      (w'.db.logOf bookingId).length - 1⟩] := by
  unfold World.noteMove
  rw [h, hfind]
  cases kind with
  | merchant => exact absurd rfl hkind
  | client => rfl
  | pending => rfl

/-- **One step** and what it notes. -/
theorem notes_step {bookingId : ℕ} {ms : List ClientMove} {w w' : World} {e : ℤ × Op}
    (h : w.db.Notes bookingId ms) (hstep : w.step e = some w') :
    w'.db.Notes bookingId (World.noteMove bookingId ms w e w') := by
  rcases World.step_moved hstep with happly | ⟨hsame, hnone⟩
  · have hkind := World.moved_eq happly bookingId
    cases apply_chronicle happly with
    | logs new hmoves hlogs =>
        rw [hmoves] at hkind
        rw [noteMove_of_not_client (Or.inl hkind)]
        exact hlogs.notes h
    | places db1 new b e' hmoves hlogs hfresh hrows hevents hname _ hcount =>
        rw [hmoves] at hkind
        rw [noteMove_of_not_client (Or.inl hkind)]
        have h1 := hlogs.notes h
        refine ⟨fun hmissing => h1.missing fun r hr => hmissing r ?_, ?_, h1.counted,
          fun r hr hid => ?_⟩
        · rw [hrows]
          exact List.mem_append_left _ hr
        · rw [logOf_append hevents]
          refine h1.told.quiet fun e'' he'' hmove => ?_
          rw [List.mem_singleton.mp (Journal.mem_about.mp he'').1, Event.clientMove, hname] at hmove
          cases hmove.1
        · rw [hrows] at hr
          rcases List.mem_append.mp hr with hr | hr
          · exact h1.count r hr hid
          · -- the booking placed has no moves
            rw [List.mem_singleton.mp hr] at hid ⊢
            rw [h1.missing fun r' hr' hid' => hfresh r' hr' (hid'.trans hid.symm), hcount]
            exact ⟨rfl, Nat.zero_le _⟩
    | moves db1 new b b' kind e' hmoves hlogs hb hmoved hmem hothers hevents hof hname =>
        have h1 := hlogs.notes h
        obtain ⟨last, hlast, hactor⟩ := last_of_moves happly hmoves
        have hsame : e' = last := by
          rw [hevents, List.getLast?_concat] at hlast
          exact Option.some.inj hlast
        subst hsame
        by_cases hid : b.id = bookingId
        · rw [hmoves, Option.filter_some_pos (by simpa using hid), Option.map_some] at hkind
          have hbid : b'.id = bookingId := hmoved.id.trans hid
          have hlog : w'.db.logOf bookingId = db1.logOf bookingId ++ [e'] := by
            rw [logOf_append hevents, Journal.about_singleton (hof.trans hid)]
          have hrow : ∀ r ∈ w'.db.bookings.rows, r.id = bookingId → r = b' :=
            fun r hr hrid => w'.db.bookings.eq_of_key hr hmem (hrid.trans hbid.symm)
          obtain ⟨hcount, hwithin⟩ := h1.count b hb hid
          have hmax := hmoved.maxReschedules
          have hwrites := hmoved.writes
          by_cases hmerchant : kind = .merchant
          · subst hmerchant
            rw [noteMove_of_not_client (Or.inr hkind)]
            refine ⟨fun hmissing => absurd hbid (hmissing b' hmem), ?_, h1.counted,
              fun r hr hrid => ?_⟩
            · rw [hlog]
              refine h1.told.quiet fun e'' he'' hmove => ?_
              rw [List.mem_singleton.mp he''] at hmove
              exact hactor.mp hmove.2 rfl
            · rw [hrow r hr hrid, hwrites.2.2.2, hmax]
              exact ⟨hcount, hwithin⟩
          · have hfind : w'.db.bookings.find bookingId = some b' :=
              Table.find_eq_some.mpr ⟨hmem, hbid⟩
            have hline : (w'.db.logOf bookingId).length - 1 = (db1.logOf bookingId).length := by
              rw [hlog, List.length_append, List.length_singleton, Nat.add_sub_cancel]
            rw [noteMove_of_client hkind hmerchant hfind, hline]
            -- the count goes up exactly when the booking was confirmed
            have hnew : b'.rescheduleCount = confirmedMoves (ms ++ [⟨decide (kind = .pending),
                b'.rescheduleCount, (db1.logOf bookingId).length⟩]) ∧
                b'.rescheduleCount ≤ b'.maxReschedules := by
              rw [confirmedMoves, List.filter_append, List.length_append, ← confirmedMoves,
                ← hcount, hmax]
              cases kind with
              | merchant => exact absurd rfl hmerchant
              | client => exact ⟨hwrites.2.2.2.1, hwrites.2.2.2.1 ▸ hwrites.2.2.2.2⟩
              | pending => exact ⟨hwrites.2.2.1, hwrites.2.2.1 ▸ hwithin⟩
            refine ⟨fun hmissing => absurd hbid (hmissing b' hmem), ?_,
              h1.counted.append h1.told.within hnew.1, fun r hr hrid => ?_⟩
            · rw [hlog]
              exact h1.told.move ⟨hname, hactor.mpr hmerchant⟩ _ _
            · rw [hrow r hr hrid]
              exact hnew
        · rw [hmoves, Option.filter_some_neg (by simpa using hid), Option.map_none] at hkind
          rw [noteMove_of_not_client (Or.inl hkind)]
          refine ⟨fun hmissing => h1.missing fun r hr hrid => ?_, ?_, h1.counted,
            fun r hr hrid => ?_⟩
          · exact hmissing r ((hothers r fun he => hid (he.symm.trans hrid)).mpr hr) hrid
          · rw [logOf_append hevents]
            refine h1.told.quiet fun e'' he'' _ => hid ?_
            obtain ⟨hin, hof'⟩ := Journal.mem_about.mp he''
            rw [List.mem_singleton.mp hin, hof] at hof'
            exact hof'
          · exact h1.count r ((hothers r fun he => hid (he.symm.trans hrid)).mp hr) hrid
  · rw [noteMove_of_not_client (Or.inl (hnone bookingId)), hsame]
    exact h

/-- **Every run** of a business that began with no booking. -/
theorem notes_run {w w' : World} {es : List (ℤ × Op)} (hrows : w.db.bookings.rows = [])
    (hlog : w.db.events = []) (hrun : w.run es = some w') (bookingId : ℕ) :
    w'.db.Notes bookingId (w.clientMoves es bookingId) := by
  have hstart : w.db.Notes bookingId [] := by
    refine ⟨fun _ => rfl, ?_, ?_, fun b hb => ?_⟩
    · rw [Db.logOf, hlog]
      exact matches_nil
    · intro m hm
      cases hm
    · rw [hrows] at hb
      cases hb
  exact Runs.watch_invariant (I := fun ms w => w.db.Notes bookingId ms)
    (fun _ _ _ _ h hstep => notes_step h hstep) hstart hrun

end Ziftbook
