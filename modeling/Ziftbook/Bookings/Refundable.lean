import Ziftbook.Machine

/-!
# Moves of a confirmed booking and its refund

A move takes the refund's anchor down, or leaves it. Whether a client's cancel
refunds the moved booking is read off the starts it was moved to, and compared
with what the same cancel would have refunded had no move been made.
-/

namespace Ziftbook

/-! ## § Moves -/

/-- A move of a confirmed booking: `RESCHEDULE` is the client's, `MOVE` the
merchant's. -/
inductive ConfirmedMove
  | reschedule (new : ℤ)
  | move (new : ℤ) (worker : ℕ) (name : Option String)
deriving DecidableEq

def ConfirmedMove.new : ConfirmedMove → ℤ
  | .reschedule new => new
  | .move new _ _ => new

def ConfirmedMove.run (b : Booking) : ConfirmedMove → Booking
  | .reschedule new => b.rescheduled new
  | .move new worker name => b.movedBy new worker name

def Booking.afterMoves (b : Booking) (moves : List ConfirmedMove) : Booking :=
  moves.foldl ConfirmedMove.run b

/-- `decide` on the row. -/
def Booking.decide (b : Booking) (now : ℤ) : Decision :=
  decideTerms b.policy b.startsAt now b.rescheduleCount b.originalStartsAt b.earliestStartsAt

/-- The recorded anchor, when there is one, and every start moved to. -/
def Booking.anchors (b : Booking) (moves : List ConfirmedMove) : List ℤ :=
  b.earliestStartsAt.toList ++ moves.map ConfirmedMove.new

theorem least_some (earliest new : ℤ) : least (some earliest) new = min earliest new := rfl

theorem least_none (new : ℤ) : least none new = new := min_self new

@[simp] theorem freeCancellationHours_run (b : Booking) (m : ConfirmedMove) :
    (m.run b).freeCancellationHours = b.freeCancellationHours := by
  cases m <;> rfl

@[simp] theorem earliestStartsAt_run (b : Booking) (m : ConfirmedMove) :
    (m.run b).earliestStartsAt = some (least b.earliestStartsAt m.new) := by
  cases m <;> rfl

@[simp] theorem freeCancellationHours_afterMoves (b : Booking) (moves : List ConfirmedMove) :
    (b.afterMoves moves).freeCancellationHours = b.freeCancellationHours := by
  induction moves generalizing b with
  | nil => rfl
  | cons m moves ih =>
      show ((m.run b).afterMoves moves).freeCancellationHours = _
      rw [ih, freeCancellationHours_run]

/-- Once an anchor is recorded, a move only takes it down to the new start. -/
theorem earliestStartsAt_afterMoves {b : Booking} {earliest : ℤ} (moves : List ConfirmedMove)
    (h : b.earliestStartsAt = some earliest) :
    ∃ least, (b.afterMoves moves).earliestStartsAt = some least ∧
      ∀ x, x ≤ least ↔ ∀ start ∈ b.anchors moves, x ≤ start := by
  induction moves generalizing b earliest with
  | nil =>
      refine ⟨earliest, h, fun x => ?_⟩
      simp [Booking.anchors, h]
  | cons m moves ih =>
      have hrun : (m.run b).earliestStartsAt = some (min earliest m.new) := by
        rw [earliestStartsAt_run, h, least_some]
      obtain ⟨a, ha, hle⟩ := ih hrun
      refine ⟨a, ha, fun x => ?_⟩
      rw [hle]
      simp [Booking.anchors, h, least_some, and_assoc]

/-- The anchor after a move, also of a row that had recorded none. -/
theorem anchor_afterMoves (b : Booking) {moves : List ConfirmedMove} (hmoves : moves ≠ []) :
    ∃ least, (b.afterMoves moves).earliestStartsAt = some least ∧
      ∀ x, x ≤ least ↔ ∀ start ∈ b.anchors moves, x ≤ start := by
  cases hearliest : b.earliestStartsAt with
  | some earliest => exact earliestStartsAt_afterMoves moves hearliest
  | none =>
      cases moves with
      | nil => exact absurd rfl hmoves
      | cons m moves =>
          have hrun : (m.run b).earliestStartsAt = some m.new := by
            rw [earliestStartsAt_run, hearliest, least_none]
          obtain ⟨a, ha, hle⟩ := earliestStartsAt_afterMoves moves hrun
          refine ⟨a, ha, fun x => ?_⟩
          rw [hle]
          simp [Booking.anchors, hearliest, least_none]

/-! ## § The refund -/

/-- `free_cancellation_hours`, as a stretch of time. -/
def Booking.freeWindow (b : Booking) : ℤ := b.freeCancellationHours * hour

theorem Booking.freeWindow_nonneg (b : Booking) : 0 ≤ b.freeWindow := by
  have hhour : (0 : ℤ) ≤ hour := by decide
  exact mul_nonneg (Int.natCast_nonneg _) hhour

theorem Booking.freeWindow_eq_zero {b : Booking} :
    b.freeWindow = 0 ↔ b.freeCancellationHours = 0 := by
  have : hour ≠ 0 := by decide
  simp [Booking.freeWindow, this]

@[simp] theorem freeWindow_afterMoves (b : Booking) (moves : List ConfirmedMove) :
    (b.afterMoves moves).freeWindow = b.freeWindow := by
  simp [Booking.freeWindow]

/-- The booking has not started, and its anchor is outside the window. -/
def Booking.refundable (b : Booking) (now : ℤ) : Prop :=
  now < b.startsAt ∧ b.freeWindow ≤ b.earliestStartsAt.getD b.startsAt - now

instance (b : Booking) (now : ℤ) : Decidable (b.refundable now) :=
  inferInstanceAs (Decidable (_ ∧ _))

theorem refundPct_decide (b : Booking) (now : ℤ) :
    (b.decide now).refundPct = if b.refundable now then 100 else 0 := by
  unfold Booking.decide decideTerms
  by_cases hstarted : b.startsAt - now ≤ 0
  · have hlt : ¬ now < b.startsAt := by omega
    simp [hstarted, Booking.refundable, hlt]
  · have hlt : now < b.startsAt := by omega
    by_cases hfree : b.freeWindow ≤ b.earliestStartsAt.getD b.startsAt - now
    · have hterms := hfree
      rw [Booking.freeWindow] at hterms
      simp [hstarted, Booking.refundable, hlt, hfree, Booking.policy, hterms]
    · have hterms := hfree
      rw [Booking.freeWindow] at hterms
      simp [hstarted, Booking.refundable, hlt, hfree, Booking.policy, hterms]

theorem canCancel_decide (b : Booking) (now : ℤ) :
    (b.decide now).canCancel = true ↔ now < b.startsAt := by
  unfold Booking.decide decideTerms
  by_cases hstarted : b.startsAt - now ≤ 0
  · simp only [hstarted, if_true]
    constructor
    · intro h; cases h
    · intro h; omega
  · simp only [hstarted, if_false, true_iff]
    omega

/-- Of two bookings at one instant, the first is refunded no more than the second. -/
theorem refundPct_le_iff (b c : Booking) (now : ℤ) :
    (b.decide now).refundPct ≤ (c.decide now).refundPct ↔
      (b.refundable now → c.refundable now) := by
  rw [refundPct_decide, refundPct_decide]
  by_cases hb : b.refundable now
  · by_cases hc : c.refundable now
    · simp [hb, hc]
    · simp [hb, hc]
  · simp only [hb, if_false, false_imp_iff, iff_true]
    split <;> decide

/-- The moves buy a refund: every anchor is outside the window, although the booking
left unmoved has started, or has recorded no anchor and is inside the window. -/
def Booking.buysRefund (b : Booking) (moves : List ConfirmedMove) (now : ℤ) : Prop :=
  moves ≠ [] ∧ (∀ start ∈ b.anchors moves, b.freeWindow ≤ start - now) ∧
    (b.startsAt ≤ now ∨ (b.earliestStartsAt = none ∧ b.startsAt - now < b.freeWindow))

instance (b : Booking) (moves : List ConfirmedMove) (now : ℤ) :
    Decidable (b.buysRefund moves now) :=
  inferInstanceAs (Decidable (_ ∧ _ ∧ _))

/-- With its anchor recorded, a booking buys a refund only under a zero policy, at the
instant it would have started. -/
theorem buysRefund_iff_of_anchored {b : Booking} {earliest now : ℤ} {moves : List ConfirmedMove}
    (h : b.earliestStartsAt = some earliest) (hcheck : earliest ≤ b.startsAt) :
    b.buysRefund moves now ↔ moves ≠ [] ∧ b.freeCancellationHours = 0 ∧ now = b.startsAt ∧
      earliest = b.startsAt ∧ ∀ m ∈ moves, b.startsAt ≤ m.new := by
  have hnonneg := b.freeWindow_nonneg
  have hanchors : (∀ start ∈ b.anchors moves, b.freeWindow ≤ start - now) ↔
      b.freeWindow ≤ earliest - now ∧ ∀ m ∈ moves, b.freeWindow ≤ m.new - now := by
    simp [Booking.anchors, h]
  rw [Booking.buysRefund, hanchors, h, ← Booking.freeWindow_eq_zero]
  constructor
  · rintro ⟨hmoves, ⟨hearliest, hnew⟩, hstarted | ⟨hnone, _⟩⟩
    · refine ⟨hmoves, by omega, by omega, by omega, fun m hm => ?_⟩
      have := hnew m hm
      omega
    · cases hnone
  · rintro ⟨hmoves, hzero, hnow, hearliest, hnew⟩
    refine ⟨hmoves, ⟨by omega, fun m hm => ?_⟩, Or.inl (by omega)⟩
    have := hnew m hm
    omega

/-- **Moves buy no refund**, but for the two cases of `buysRefund`: at any instant the
client may still cancel the moved booking, its refund is at most the unmoved one's. -/
theorem refund_afterMoves_le_iff (b : Booking) (moves : List ConfirmedMove) (now : ℤ)
    (hcancel : ((b.afterMoves moves).decide now).canCancel = true) :
    ((b.afterMoves moves).decide now).refundPct ≤ (b.decide now).refundPct ↔
      ¬ b.buysRefund moves now := by
  rw [canCancel_decide] at hcancel
  rw [refundPct_le_iff]
  by_cases hmoves : moves = []
  · subst hmoves
    simp [Booking.buysRefund, Booking.afterMoves]
  obtain ⟨anchor, hanchor, hle⟩ := anchor_afterMoves b hmoves
  -- The moved booking's anchor is outside the window when each of its starts is.
  have hmoved : (b.afterMoves moves).refundable now ↔
      ∀ start ∈ b.anchors moves, b.freeWindow ≤ start - now := by
    simp only [Booking.refundable, hcancel, true_and, freeWindow_afterMoves, hanchor,
      Option.getD_some, le_sub_iff_add_le, hle]
  rw [hmoved]
  constructor
  · rintro h ⟨_, hwindow, hunmoved⟩
    obtain ⟨hstarts, hfree⟩ := h hwindow
    rcases hunmoved with hstarted | ⟨hnone, hinside⟩
    · omega
    · rw [hnone, Option.getD_none] at hfree
      omega
  · intro h hwindow
    by_contra hunmoved
    apply h
    refine ⟨hmoves, hwindow, ?_⟩
    by_cases hstarts : b.startsAt ≤ now
    · exact Or.inl hstarts
    · refine Or.inr ?_
      have hfree : ¬ b.freeWindow ≤ b.earliestStartsAt.getD b.startsAt - now :=
        fun hfree => hunmoved ⟨by omega, hfree⟩
      cases hearliest : b.earliestStartsAt with
      | none =>
          rw [hearliest, Option.getD_none] at hfree
          exact ⟨rfl, by omega⟩
      | some earliest =>
          rw [hearliest, Option.getD_some] at hfree
          exact absurd (hwindow earliest (by simp [Booking.anchors, hearliest])) hfree

/-! ## § A zero policy -/

/-- Free to cancel and to move up to the start. -/
def zeroPolicy : Settings :=
  { Settings.defaults (.fixed 0) with freeCancellationHours := 0, rescheduleCutoffHours := 0 }

def zeroPolicyShop : World :=
  ⟨.solo zeroPolicy halfHour [morning], 0⟩

/-- A booking at ten, with its link. -/
def bookedAtTen : List (ℤ × Op) :=
  [(0, ownerBooks 1 (600 * minute)), (0, .edit (.addLink ⟨1, 1⟩))]

/-- Its client moves it to eleven. -/
def movedToEleven : List (ℤ × Op) :=
  bookedAtTen ++ [(0, .linkReschedule 1 ⟨1, 660 * minute, 0, none, none⟩)]

def atTen : Booking :=
  newBooking zeroPolicy halfHour 1 1 1 none (600 * minute) Standing.settled .merchant

/-- Moved to eleven and cancelled a minute before ten, it is refunded as it would
have been. -/
theorem refund_afterMoves_le_before_ten :
    ((atTen.afterMoves [.reschedule (660 * minute)]).decide (599 * minute)).refundPct ≤
      (atTen.decide (599 * minute)).refundPct :=
  (refund_afterMoves_le_iff atTen [.reschedule (660 * minute)] (599 * minute) (by decide)).mpr
    (by decide)

/-- At ten the unmoved booking has started, and refunds nothing; the moved one is
refunded in full. -/
theorem refund_bought_at_start :
    ∃ unmoved, zeroPolicyShop.run bookedAtTen = some unmoved ∧
      ∃ moved, zeroPolicyShop.run movedToEleven = some moved ∧
        ∃ b ∈ unmoved.db.bookings.rows, ∃ c ∈ moved.db.bookings.rows, b.id = c.id ∧
          b.status = .confirmed ∧ c.status = .confirmed ∧
          (c.decide (600 * minute)).canCancel = true ∧
          (b.decide (600 * minute)).refundPct < (c.decide (600 * minute)).refundPct :=
  ⟨_, (Option.some_get (by decide +kernel)).symm, _, (Option.some_get (by decide +kernel)).symm,
    by decide +kernel⟩

end Ziftbook
