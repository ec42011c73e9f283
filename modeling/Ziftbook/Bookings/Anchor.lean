import Ziftbook.Bookings.History

/-!
# The refund anchor and the count of moves

Three statements move a booking, each with its own rule for `earliest_starts_at`
and `reschedule_count`. Beside a run stands the tally of the starts a booking has
held and of the moves its client made; the columns agree with the tally.
-/

namespace Ziftbook

open Foundation

/-! ## § The tally -/

/-- What a run has made of one booking: the starts held since its last pending
move, or since it was placed, and the client's moves of either kind. -/
structure Tally where
  held : List ℤ
  reschedules : ℕ
  pendingMoves : ℕ
deriving DecidableEq

def Tally.none : Tally := ⟨[], 0, 0⟩

/-- A step that leaves the booking at `start`. -/
def Tally.note (t : Tally) (start : ℤ) : Option MoveKind → Tally
  | some .pending => ⟨[start], t.reschedules, t.pendingMoves + 1⟩
  | some .client => ⟨start :: t.held, t.reschedules + 1, t.pendingMoves⟩
  | some .merchant => ⟨start :: t.held, t.reschedules, t.pendingMoves⟩
  | .none => ⟨start :: t.held, t.reschedules, t.pendingMoves⟩

/-- How an accepted operation moves the booking. -/
def World.moved (w : World) (e : ℤ × Op) (bookingId : ℕ) : Option MoveKind :=
  match apply w.db e.1 e.2 with
  | .ok _ => ((e.2.moves w.db e.1).filter fun m => m.1 = bookingId).map Prod.snd
  | .error _ => .none

def World.tallied (bookingId : ℕ) (t : Tally) (w : World) (e : ℤ × Op) (w' : World) : Tally :=
  match w'.db.bookings.find bookingId with
  | some b => t.note b.startsAt (w.moved e bookingId)
  | .none => t

/-- The booking's tally of a run. -/
def World.tally (w : World) (es : List (ℤ × Op)) (bookingId : ℕ) : Tally :=
  Runs.watch World.step (World.tallied bookingId) Tally.none w es

/-! ## § One row -/

/-- The row agrees with its tally. -/
structure Booking.Anchored (b : Booking) (t : Tally) : Prop where
  current : b.startsAt ∈ t.held
  anchor : ∃ anchor, b.earliestStartsAt = some anchor ∧ IsLeast {s | s ∈ t.held} anchor
  count : b.rescheduleCount = t.reschedules
  within : b.rescheduleCount ≤ b.maxReschedules

theorem Booking.Anchored.stays {b b' : Booking} {t : Tally} (h : b.Anchored t)
    (hstays : b.Stays b') : b'.Anchored t := by
  refine ⟨?_, ?_, ?_, ?_⟩
  · rw [hstays.startsAt]
    exact h.current
  · rw [hstays.earliestStartsAt]
    exact h.anchor
  · rw [hstays.rescheduleCount]
    exact h.count
  · rw [hstays.rescheduleCount, hstays.maxReschedules]
    exact h.within

/-- The start the row holds already is noted again. -/
theorem Booking.Anchored.again {b : Booking} {t : Tally} (h : b.Anchored t) :
    b.Anchored (t.note b.startsAt .none) := by
  obtain ⟨anchor, hanchor, hmem, hleast⟩ := h.anchor
  refine ⟨List.mem_cons_self .., ⟨anchor, hanchor, List.mem_cons_of_mem _ hmem, ?_⟩, h.count,
    h.within⟩
  intro s hs
  rcases List.mem_cons.mp hs with rfl | hs
  · exact hleast h.current
  · exact hleast hs

/-- LEAST keeps the anchor the least start held. -/
theorem isLeast_cons {held : List ℤ} {anchor start : ℤ}
    (h : IsLeast {s | s ∈ held} anchor) :
    IsLeast {s | s ∈ start :: held} (least (some anchor) start) := by
  refine ⟨?_, fun s hs => ?_⟩
  · rcases min_choice anchor start with hmin | hmin
    · exact (congrArg (· ∈ start :: held) hmin).mpr (List.mem_cons_of_mem _ h.1)
    · exact (congrArg (· ∈ start :: held) hmin).mpr (List.mem_cons_self ..)
  · rcases List.mem_cons.mp hs with rfl | hs
    · exact min_le_right ..
    · exact (min_le_left ..).trans (h.2 hs)

/-- **Each kind of move** keeps the row in agreement with its tally. -/
theorem Booking.Anchored.move {b b' : Booking} {t : Tally} {moved : ℕ} {kind : MoveKind}
    (h : b.Anchored t) (hmoved : b.MovedAs moved kind b') :
    b'.Anchored (t.note b'.startsAt (some kind)) := by
  obtain ⟨anchor, hanchor, hleast⟩ := h.anchor
  have hwrites := hmoved.writes
  have hmax := hmoved.maxReschedules
  have hwithin := h.within
  have hcount := h.count
  cases kind with
  | merchant =>
      obtain ⟨_, _, hearliest, hsame⟩ := hwrites
      rw [hanchor] at hearliest
      refine ⟨List.mem_cons_self .., ⟨_, hearliest, isLeast_cons hleast⟩, hsame.trans hcount, ?_⟩
      rw [hsame, hmax]
      exact hwithin
  | client =>
      obtain ⟨_, _, hearliest, hmore, hleft⟩ := hwrites
      rw [hanchor] at hearliest
      refine ⟨List.mem_cons_self .., ⟨_, hearliest, isLeast_cons hleast⟩, ?_, ?_⟩
      · rw [hmore, hcount]
        rfl
      · rw [hmore, hmax]
        exact hleft
  | pending =>
      obtain ⟨_, hearliest, hsame, _⟩ := hwrites
      refine ⟨List.mem_cons_self .., ⟨_, hearliest, ?_⟩, hsame.trans hcount, ?_⟩
      · refine ⟨List.mem_cons_self .., fun s hs => ?_⟩
        exact le_of_eq (List.mem_singleton.mp hs).symm
      · rw [hsame, hmax]
        exact hwithin

/-! ## § The invariant -/

/-- The booking agrees with its tally, and every pending move is an event. -/
structure Db.Tallies (bookingId : ℕ) (t : Tally) (db : Db) : Prop where
  missing : (∀ b ∈ db.bookings.rows, b.id ≠ bookingId) → t = Tally.none
  placed : ∀ b ∈ db.bookings.rows, b.id = bookingId → b.Anchored t
  moves : t.pendingMoves ≤ db.moves bookingId
  atMost : t.pendingMoves ≤ pendingMoves

theorem moves_append {db db' : Db} {new : List Event} (h : db'.events = db.events ++ new)
    (bookingId : ℕ) : db'.moves bookingId = db.moves bookingId +
      (new.filter fun e => e.bookingId = bookingId ∧ e.name = .rescheduled).length := by
  simp [Db.moves, h]

theorem moves_of_unmoved {db db' : Db} {new : List Event} (h : db'.events = db.events ++ new)
    (hnew : ∀ e ∈ new, e.name ≠ .rescheduled) (bookingId : ℕ) :
    db'.moves bookingId = db.moves bookingId := by
  have hnone : (new.filter fun e => e.bookingId = bookingId ∧ e.name = .rescheduled) = [] := by
    rw [List.filter_eq_nil_iff]
    intro e he hboth
    exact hnew e he (of_decide_eq_true hboth).2
  rw [moves_append h, hnone, List.length_nil, Nat.add_zero]

theorem Db.Logs.tallies {bookingId : ℕ} {t : Tally} {db db' : Db} {new : List Event}
    (h : db.Logs db' new) (ht : db.Tallies bookingId t) : db'.Tallies bookingId t := by
  refine ⟨fun hmissing => ht.missing fun b hb hid => ?_, fun b' hb' hid => ?_, ?_, ht.atMost⟩
  · obtain ⟨b', hb', hid'⟩ := h.kept b hb
    exact hmissing b' hb' (hid'.trans hid)
  · obtain ⟨b, hb, htold⟩ := h.rows b' hb'
    exact (ht.placed b hb (htold.stays.id.symm.trans hid)).stays htold.stays
  · rw [moves_of_unmoved h.events h.unmoved]
    exact ht.moves

/-- A step that does not move the booking notes the start it has. -/
theorem Db.Tallies.again {bookingId : ℕ} {t : Tally} {w w' : World} {e : ℤ × Op}
    (h : w'.db.Tallies bookingId t) (hmoved : w.moved e bookingId = .none) :
    w'.db.Tallies bookingId (World.tallied bookingId t w e w') := by
  unfold World.tallied
  cases hfind : w'.db.bookings.find bookingId with
  | none => exact h
  | some b =>
      obtain ⟨hb, hid⟩ := Table.find_eq_some.mp hfind
      simp only [hmoved]
      refine ⟨fun hmissing => absurd hid (hmissing b hb), fun c hc hcid => ?_, h.moves, h.atMost⟩
      rw [w'.db.bookings.eq_of_key hc hb (hcid.trans hid.symm)]
      exact (h.placed b hb hid).again

/-- Either an operation was accepted, or it moved nothing. -/
theorem World.step_moved {w w' : World} {e : ℤ × Op} (h : w.step e = some w') :
    apply w.db e.1 e.2 = .ok w'.db ∨ (w'.db = w.db ∧ ∀ id, w.moved e id = .none) := by
  unfold World.step at h
  split at h
  · rename_i db hdb
    cases h
    exact Or.inl hdb
  · rename_i err herr
    cases h
    refine Or.inr ⟨rfl, fun id => ?_⟩
    rw [World.moved, herr]

theorem World.moved_eq {w : World} {e : ℤ × Op} {db' : Db} (h : apply w.db e.1 e.2 = .ok db')
    (id : ℕ) : w.moved e id =
      ((e.2.moves w.db e.1).filter fun m => m.1 = id).map Prod.snd := by
  rw [World.moved, h]

theorem tallies_step {bookingId : ℕ} {t : Tally} {w w' : World} {e : ℤ × Op}
    (h : w.db.Tallies bookingId t) (hstep : w.step e = some w') :
    w'.db.Tallies bookingId (World.tallied bookingId t w e w') := by
  rcases World.step_moved hstep with happly | ⟨hsame, hnone⟩
  · have hkind := World.moved_eq happly bookingId
    cases apply_chronicle happly with
    | logs new hmoves hlogs =>
        rw [hmoves] at hkind
        exact (hlogs.tallies h).again hkind
    | places db1 new b e' hmoves hlogs hfresh hrows hevents hname hearliest hcount =>
        rw [hmoves] at hkind
        have h1 := hlogs.tallies h
        have hmem : b ∈ w'.db.bookings.rows := by
          rw [hrows]
          exact List.mem_append_right _ (List.mem_singleton.mpr rfl)
        have hmoves' : w'.db.moves bookingId = db1.moves bookingId := by
          refine moves_of_unmoved hevents (fun e'' he'' => ?_) bookingId
          rw [List.mem_singleton.mp he'', hname]
          decide
        by_cases hb : b.id = bookingId
        · -- the booking placed begins its tally
          have ht := h1.missing fun r hr hid => hfresh r hr (hid.trans hb.symm)
          have hfind : w'.db.bookings.find bookingId = some b :=
            Table.find_eq_some.mpr ⟨hmem, hb⟩
          simp only [World.tallied, hfind, hkind, ht]
          refine ⟨fun hmissing => absurd hb (hmissing b hmem), fun c hc hcid => ?_,
            Nat.zero_le _, Nat.zero_le _⟩
          rw [w'.db.bookings.eq_of_key hc hmem (hcid.trans hb.symm)]
          refine ⟨List.mem_cons_self .., ⟨b.startsAt, hearliest, List.mem_cons_self .., ?_⟩,
            hcount, hcount ▸ Nat.zero_le _⟩
          intro s hs
          exact le_of_eq (List.mem_singleton.mp hs).symm
        · have h' : w'.db.Tallies bookingId t := by
            refine ⟨fun hmissing => h1.missing fun r hr => hmissing r ?_, fun r hr hid => ?_,
              hmoves' ▸ h1.moves, h1.atMost⟩
            · rw [hrows]
              exact List.mem_append_left _ hr
            · rw [hrows] at hr
              rcases List.mem_append.mp hr with hr | hr
              · exact h1.placed r hr hid
              · rw [List.mem_singleton.mp hr] at hid
                exact absurd hid hb
          exact h'.again hkind
    | moves db1 new b b' kind e' hmoves hlogs hb hmoved hmem hothers hevents hof hname =>
        have h1 := hlogs.tallies h
        have hcounted := moves_append hevents bookingId
        by_cases hid : b.id = bookingId
        · rw [hmoves, Option.filter_some_pos (by simpa using hid), Option.map_some] at hkind
          have hbid : b'.id = bookingId := hmoved.id.trans hid
          have hfind : w'.db.bookings.find bookingId = some b' :=
            Table.find_eq_some.mpr ⟨hmem, hbid⟩
          have hone : w'.db.moves bookingId = db1.moves bookingId + 1 := by
            rw [hcounted]
            simp [hof, hname, hid]
          have hbefore : db1.moves bookingId = w.db.moves bookingId :=
            moves_of_unmoved hlogs.events hlogs.unmoved bookingId
          have hle := h1.moves
          have hmost := h1.atMost
          simp only [World.tallied, hfind, hkind]
          refine ⟨fun hmissing => absurd hbid (hmissing b' hmem), fun c hc hcid => ?_, ?_, ?_⟩
          · rw [w'.db.bookings.eq_of_key hc hmem (hcid.trans hbid.symm)]
            exact (h1.placed b hb hid).move hmoved
          · cases kind <;> simp only [Tally.note] <;> omega
          · -- the cap is on all moves told, and no fewer than these were pending
            have hwrites := hmoved.writes
            cases kind with
            | merchant => exact hmost
            | client => exact hmost
            | pending =>
                have hcap := hwrites.2.2.2
                rw [hid] at hcap
                simp only [Tally.note]
                omega
        · rw [hmoves, Option.filter_some_neg (by simpa using hid), Option.map_none] at hkind
          have h' : w'.db.Tallies bookingId t := by
            refine ⟨fun hmissing => h1.missing fun r hr hrid => ?_, fun r hr hrid => ?_,
              (h1.moves.trans ?_), h1.atMost⟩
            · have hr' := (hothers r fun he => hid (he.symm.trans hrid)).mpr hr
              exact hmissing r hr' hrid
            · exact h1.placed r ((hothers r fun he => hid (he.symm.trans hrid)).mp hr) hrid
            · rw [hcounted]
              exact Nat.le_add_right ..
          exact h'.again hkind
  · have h' : w'.db.Tallies bookingId t := by rwa [hsame]
    exact h'.again (hnone bookingId)

/-! ## § Later on -/

/-- `b'` is the row `b` later on: once it is answered, its anchor only goes down. -/
structure Booking.Later (b b' : Booking) : Prop where
  id : b'.id = b.id
  maxReschedules : b'.maxReschedules = b.maxReschedules
  answered : b.status ∉ expiring → b'.status ∉ expiring
  original : b.status ∉ expiring → b'.originalStartsAt = b.originalStartsAt
  anchor : b.status ∉ expiring → ∀ anchor, b.earliestStartsAt = some anchor →
    ∃ anchor', b'.earliestStartsAt = some anchor' ∧ anchor' ≤ anchor

theorem Booking.Later.refl (b : Booking) : b.Later b :=
  ⟨rfl, rfl, fun h => h, fun _ => rfl, fun _ anchor h => ⟨anchor, h, le_rfl⟩⟩

theorem Booking.Later.trans {b b' b'' : Booking} (h : b.Later b') (h' : b'.Later b'') :
    b.Later b'' := by
  refine ⟨h'.id.trans h.id, h'.maxReschedules.trans h.maxReschedules,
    fun hb => h'.answered (h.answered hb),
    fun hb => (h'.original (h.answered hb)).trans (h.original hb), fun hb anchor hanchor => ?_⟩
  obtain ⟨anchor', hanchor', hle⟩ := h.anchor hb anchor hanchor
  obtain ⟨anchor'', hanchor'', hle'⟩ := h'.anchor (h.answered hb) anchor' hanchor'
  exact ⟨anchor'', hanchor'', hle'.trans hle⟩

theorem Booking.Told.later {b b' : Booking} {new : List Event} (h : b.Told b' new) :
    b.Later b' := by
  refine ⟨h.stays.id, h.stays.maxReschedules, h.answered, fun _ => h.stays.originalStartsAt,
    fun _ anchor hanchor => ?_⟩
  exact ⟨anchor, h.stays.earliestStartsAt.trans hanchor, le_rfl⟩

theorem Booking.MovedAs.later {b b' : Booking} {moved : ℕ} {kind : MoveKind}
    (h : b.MovedAs moved kind b') : b.Later b' := by
  have hwrites := h.writes
  refine ⟨h.id, h.maxReschedules, fun hb => h.status ▸ hb, fun hb => ?_,
    fun hb anchor hanchor => ?_⟩
  · cases kind with
    | merchant => exact hwrites.2.1
    | client => exact hwrites.2.1
    | pending => exact absurd (by rw [hwrites.1]; decide) hb
  · cases kind with
    | merchant =>
        have hearliest := hwrites.2.2.1
        rw [hanchor] at hearliest
        exact ⟨_, hearliest, min_le_left ..⟩
    | client =>
        have hearliest := hwrites.2.2.1
        rw [hanchor] at hearliest
        exact ⟨_, hearliest, min_le_left ..⟩
    | pending => exact absurd (by rw [hwrites.1]; decide) hb

theorem booking_later_step {w w' : World} {e : ℤ × Op} {b : Booking} (hb : b ∈ w.db.bookings.rows)
    (hstep : w.step e = some w') : ∃ b' ∈ w'.db.bookings.rows, b.Later b' := by
  obtain ⟨_, happly | hsame⟩ := World.step_cases hstep
  · obtain ⟨b1, new, htold, b', hb', rfl | ⟨kind, _, hmoved⟩⟩ := (apply_chronicle happly).follow hb
    · exact ⟨b', hb', htold.later⟩
    · exact ⟨b', hb', htold.later.trans hmoved.later⟩
  · rw [hsame]
    exact ⟨b, hb, Booking.Later.refl b⟩

theorem booking_later_run {w w' : World} {es : List (ℤ × Op)} {b : Booking}
    (hb : b ∈ w.db.bookings.rows) (hrun : w.run es = some w') :
    ∃ b' ∈ w'.db.bookings.rows, b.Later b' := by
  refine Runs.run_invariant' (I := fun w => ∃ b' ∈ w.db.bookings.rows, b.Later b') ?_
    ⟨b, hb, Booking.Later.refl b⟩ hrun
  rintro w e w' ⟨b', hb', hlater⟩ hstep
  obtain ⟨b'', hb'', hlater'⟩ := booking_later_step hb' hstep
  exact ⟨b'', hb'', hlater.trans hlater'⟩

/-! ## § Runs -/

/-- **The anchor and the count.** In a business that began with no booking, each
booking's anchor is the least start it has held since its last pending move; its
count is of its client's moves while confirmed, within its allowance; its pending
moves are at most three; and once it is answered its anchor never goes up. -/
theorem anchor_of_run {w w' : World} {es : List (ℤ × Op)} (hrows : w.db.bookings.rows = [])
    (hrun : w.run es = some w') :
    ∀ b ∈ w'.db.bookings.rows, ∃ anchor, b.earliestStartsAt = some anchor ∧
      anchor ≤ b.startsAt ∧ IsLeast {s | s ∈ (w.tally es b.id).held} anchor ∧
      b.rescheduleCount = (w.tally es b.id).reschedules ∧
      b.rescheduleCount ≤ b.maxReschedules ∧ (w.tally es b.id).pendingMoves ≤ 3 ∧
      ∀ fs w'', w'.run fs = some w'' → ∃ b' ∈ w''.db.bookings.rows, b'.id = b.id ∧
        b'.maxReschedules = b.maxReschedules ∧
        (b.status ∉ expiring → b'.originalStartsAt = b.originalStartsAt ∧
          ∃ anchor', b'.earliestStartsAt = some anchor' ∧ anchor' ≤ anchor) := by
  intro b hb
  have hstart : w.db.Tallies b.id Tally.none := by
    refine ⟨fun _ => rfl, fun c hc => ?_, Nat.zero_le _, Nat.zero_le _⟩
    rw [hrows] at hc
    cases hc
  have htallies : w'.db.Tallies b.id (w.tally es b.id) :=
    Runs.watch_invariant (I := fun t w => w.db.Tallies b.id t)
      (fun _ _ _ _ h hstep => tallies_step h hstep) hstart hrun
  have hanchored := htallies.placed b hb rfl
  obtain ⟨anchor, hanchor, hleast⟩ := hanchored.anchor
  refine ⟨anchor, hanchor, hleast.2 hanchored.current, hleast, hanchored.count,
    hanchored.within, htallies.atMost, fun fs w'' hlater => ?_⟩
  obtain ⟨b', hb', h⟩ := booking_later_run hb hlater
  exact ⟨b', hb', h.id, h.maxReschedules, fun hanswered =>
    ⟨h.original hanswered, h.anchor hanswered anchor hanchor⟩⟩

/-- A minute of the second Thursday. -/
def nextThursday (m : ℤ) : ℤ := (7 * 1440 + m) * minute

/-- A request for ten is moved to eleven and accepted; its client moves it to half
past ten, and the owner to half past eleven. -/
def movedThrice : List (ℤ × Op) :=
  [(0, .edit (.settings { Settings.defaults (.fixed 0) with published := true })),
    (0, .bookOnline ⟨1, none, nextThursday 600, "client", none, none, false, none, true, none,
      1, 2⟩),
    (0, .edit (.addLink ⟨1, 1⟩)),
    (minute, .linkReschedule 1 ⟨1, nextThursday 660, 0, some (nextThursday 600), none⟩),
    (2 * minute, ownerSets 1 .confirmed),
    (3 * minute, .linkReschedule 1 ⟨1, nextThursday 630, 0, none, none⟩),
    (4 * minute, .reschedule owner 1 ⟨nextThursday 690, none, false, none⟩)]

theorem anchor_of_run_moved : ∃ w, thursdayShop.run movedThrice = some w ∧
    ∃ b ∈ w.db.bookings.rows, b.startsAt = nextThursday 690 ∧ b.rescheduleCount = 1 ∧
      b.earliestStartsAt = some (nextThursday 630) ∧
      ∃ anchor, b.earliestStartsAt = some anchor ∧ anchor ≤ b.startsAt ∧
        IsLeast {s | s ∈ (thursdayShop.tally movedThrice b.id).held} anchor := by
  have hfacts : ∀ w ∈ thursdayShop.run movedThrice, ∃ b ∈ w.db.bookings.rows,
      b.startsAt = nextThursday 690 ∧ b.rescheduleCount = 1 ∧
      b.earliestStartsAt = some (nextThursday 630) := by
    decide +kernel
  obtain ⟨w, hrun⟩ := Option.isSome_iff_exists.mp
    (by decide +kernel : (thursdayShop.run movedThrice).isSome)
  obtain ⟨b, hb, hstarts, hcount, hearliest⟩ := hfacts w hrun
  obtain ⟨anchor, hanchor, hle, hleast, _⟩ := anchor_of_run rfl hrun b hb
  exact ⟨w, hrun, b, hb, hstarts, hcount, hearliest, anchor, hanchor, hle, hleast⟩

end Ziftbook
