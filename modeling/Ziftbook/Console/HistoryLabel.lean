import Ziftbook.Bookings.ClientMoves
import Ziftbook.Console.Dates
import Ziftbook.Mail.Texts

/-!
# The lines of a booking's history

What the API answers of a booking's events, and `historyLabel` of `lib/calendar.ts`,
which words one line. A client's move reads "k of max changes used": `k` is of the
lines, the allowance is of `reschedule_count`.
-/

namespace Ziftbook

open Foundation

/-! ## § The API's history -/

def Status.text : Status → String
  | .awaitingPayment => "awaiting_payment"
  | .pending => "pending"
  | .confirmed => "confirmed"
  | .declined => "declined"
  | .expired => "expired"
  | .cancelledByMerchant => "cancelled_by_merchant"
  | .cancelledByClient => "cancelled_by_client"
  | .completed => "completed"
  | .noShow => "no_show"

/-- `booking_events.event`. -/
def EventName.text : EventName → String
  | .created => "created"
  | .rescheduled => "rescheduled"
  | .consentConfirmed => "consent_confirmed"
  | .expired => "expired"
  | .cancelledByClient => "cancelled_by_client"
  | .transitioned target => target.text
  | .paymentChecked => "payment_checked"
  | .paid => "paid"
  | .refunded => "refunded"
  | .refundFailed => "refund_failed"

inductive Actor
  | client | team | system
deriving DecidableEq, Repr

/-- The keys of `TRANSITIONS`. -/
def transitionEvents : List String :=
  ["confirmed", "declined", "cancelled_by_merchant", "completed", "no_show"]

/-- `SYSTEM_EVENTS`. -/
def systemEvents : List String :=
  ["expired", "payment_checked", "paid", "refunded", "refund_failed"]

/-- `actor_of`. -/
def actorOf (event : String) (actorUserId : Option ℕ) (source : Source) : Actor :=
  if actorUserId ≠ none ∨ event ∈ transitionEvents then .team
  else if event = "created" then if source = .merchant then .team else .client
  else if event ∈ systemEvents then .system else .client

/-- `EventOut`, and `HistoryEvent` of the screen: of the details, the two texts of a move. -/
structure HistoryEvent where
  event : String
  actor : Option Actor
  actorName : Option String
  previous : Option (List Char)
  next : Option (List Char)
deriving DecidableEq

/-- A row of `HISTORY`. -/
def Event.out (names : ℕ → Option String) (source : Source) (e : Event) : HistoryEvent where
  event := e.name.text
  actor := some (actorOf e.name.text e.actorUserId source)
  actorName := e.actorUserId.bind names
  previous := match e.details with
    | .moved previous _ => some (isoformat previous)
    | _ => none
  next := match e.details with
    | .moved _ next => some (isoformat next)
    | _ => none

/-- `detail`'s history of a booking, where `names` is what `HISTORY` joins. -/
def Db.history (db : Db) (names : ℕ → Option String) (b : Booking) : List HistoryEvent :=
  (db.logOf b.id).map (Event.out names b.source)

/-! ## § `historyLabel` -/

inductive HistoryKey
  | historyRequested | historyAdded | historyAccepted | historyUndone | historyDeclined
  | historyCancelled | historyCompleted | historyNoShow | historyCancelledByClient
  | historyConsent | historyExpired | historyMoved | historyMovedTeam | historyPaymentChecked
  | historyPaid | historyRefunded | historyRefundFailed | historyUpdated
deriving DecidableEq, Repr

/-- The parts of a move. -/
structure MoveParts where
  fromTime : List Char
  toTime : List Char
  previous : List Char
  next : List Char
  fromDate : List Char
  toDate : List Char
  sameDay : Bool
deriving DecidableEq

inductive HistoryParams
  | nothing
  | actor (name : Option String)
  | teamMove (actor : Option String) (parts : MoveParts)
  | clientMove (parts : MoveParts) (k max : ℕ)
deriving DecidableEq

structure HistoryLabel where
  key : HistoryKey
  params : HistoryParams
deriving DecidableEq

/-- `BY_TEAM`. -/
def byTeam (event : String) : Option HistoryKey :=
  match event with
  | "declined" => some .historyDeclined
  | "cancelled_by_merchant" => some .historyCancelled
  | "completed" => some .historyCompleted
  | "no_show" => some .historyNoShow
  | _ => none

/-- `STATUS_EVENTS`. -/
def statusEvents : List String :=
  ["created", "confirmed", "declined", "cancelled_by_merchant", "cancelled_by_client",
    "completed", "no_show", "expired"]

/-- `localDateISO`: the day the zone's clock shows, its year unpadded. -/
def localDateISO (tz : Zone) (t : ℤ) : List Char :=
  let date := dateOf ((t + tz.offsetMs t) / dayMs)
  let year := if 0 < date.year then date.year else 1 - date.year
  decimal year.toNat ++ '-' :: (numeral 10 2 date.month.toNat ++ '-' ::
    numeral 10 2 date.day.toNat)

/-- `localTime`: the hour and the minute it shows. -/
def localTime (tz : Zone) (t : ℤ) : List Char :=
  let time := (t + tz.offsetMs t) % dayMs
  numeral 10 2 (time / 3600000).toNat ++ ':' :: numeral 10 2 (time / 60000 % 60).toNat

/-- The parts of a move between two texts that the browser reads as times. -/
def moveParts (browser : Browser) (tz : Zone) (e : HistoryEvent) : Option MoveParts := do
  let previous ← e.previous
  let next ← e.next
  let old ← browser.dateParse previous
  let new ← browser.dateParse next
  let fromDate := localDateISO tz old
  let toDate := localDateISO tz new
  return ⟨localTime tz old, localTime tz new, previous, next, fromDate, toDate,
    decide (fromDate = toDate)⟩

/-- A line that `k` counts. -/
def HistoryEvent.clientMove (e : HistoryEvent) : Prop :=
  e.event = "rescheduled" ∧ e.actor ≠ some .team

instance : DecidablePred HistoryEvent.clientMove := fun _ => inferInstanceAs (Decidable (_ ∧ _))

/-- The line of a move. -/
def moveLabel (browser : Browser) (events : List HistoryEvent) (i : ℕ) (maxReschedules : ℕ)
    (tz : Zone) (e : HistoryEvent) : HistoryLabel :=
  match moveParts browser tz e with
  | none => ⟨.historyUpdated, .nothing⟩
  | some parts =>
      if e.actor = some .team then ⟨.historyMovedTeam, .teamMove e.actorName parts⟩
      else
        let k := ((events.take (i + 1)).filter HistoryEvent.clientMove).length
        ⟨.historyMoved, .clientMove parts k maxReschedules⟩

/-- `historyLabel`, of an `i` within the list. -/
def historyLabel (browser : Browser) (events : List HistoryEvent) (i : ℕ) (source : Source)
    (maxReschedules : ℕ) (tz : Zone) : Option HistoryLabel :=
  events[i]?.map fun e =>
    match e.event with
    | "created" =>
        ⟨if source = .merchant then .historyAdded else .historyRequested, .actor e.actorName⟩
    | "confirmed" =>
        let before := (events.take i).reverse.find? fun x => x.event ∈ statusEvents
        ⟨if before.map HistoryEvent.event = some "completed" then .historyUndone
          else .historyAccepted, .actor e.actorName⟩
    | "cancelled_by_client" => ⟨.historyCancelledByClient, .nothing⟩
    | "consent_confirmed" => ⟨.historyConsent, .nothing⟩
    | "expired" => ⟨.historyExpired, .nothing⟩
    | "rescheduled" => moveLabel browser events i maxReschedules tz e
    | "payment_checked" => ⟨.historyPaymentChecked, .nothing⟩
    | "paid" => ⟨.historyPaid, .nothing⟩
    | "refunded" => ⟨.historyRefunded, .nothing⟩
    | "refund_failed" => ⟨.historyRefundFailed, .nothing⟩
    | event =>
        match byTeam event with
        | some key => ⟨key, .actor e.actorName⟩
        | none => ⟨.historyUpdated, .nothing⟩

variable {browser : Browser} {tz : Zone} {events : List HistoryEvent} {i k max max' : ℕ}

/-- Only a client's move has a count: of the moves up to its line. -/
theorem moveLabel_eq {e : HistoryEvent} {parts : MoveParts}
    (h : (moveLabel browser events i max' tz e).params = .clientMove parts k max) :
    e.actor ≠ some .team ∧ max = max' ∧
      k = ((events.take (i + 1)).filter HistoryEvent.clientMove).length := by
  unfold moveLabel at h
  cases hparts : moveParts browser tz e with
  | none =>
      rw [hparts] at h
      cases h
  | some parts' =>
      rw [hparts] at h
      by_cases hteam : e.actor = some .team
      · simp only [if_pos hteam] at h
        cases h
      · simp only [if_neg hteam] at h
        cases h
        exact ⟨hteam, rfl, rfl⟩

/-- The line of a count is a client's move. -/
theorem historyLabel_eq {source : Source} {label : HistoryLabel} {parts : MoveParts}
    (h : historyLabel browser events i source max' tz = some label)
    (hparams : label.params = .clientMove parts k max) : ∃ e, events[i]? = some e ∧
      e.clientMove ∧ max = max' ∧
      k = ((events.take (i + 1)).filter HistoryEvent.clientMove).length := by
  obtain ⟨e, he, rfl⟩ := Option.map_eq_some_iff.mp h
  refine ⟨e, he, ?_⟩
  split at hparams
  case h_6 hevent =>
    obtain ⟨hteam, hmax, hk⟩ := moveLabel_eq hparams
    exact ⟨⟨hevent, hteam⟩, hmax, hk⟩
  case h_11 =>
    split at hparams
    all_goals cases hparams
  all_goals cases hparams

/-! ## § The history of a run -/

theorem text_eq_rescheduled {name : EventName} : name.text = "rescheduled" ↔
    name = .rescheduled := by
  cases name with
  | transitioned target => cases target <;> decide
  | _ => decide

/-- What the screen counts as the client's is what no member wrote. -/
theorem out_clientMove {names : ℕ → Option String} {source : Source} {e : Event} :
    (e.out names source).clientMove ↔ e.clientMove := by
  show e.name.text = "rescheduled" ∧ some (actorOf e.name.text e.actorUserId source) ≠
    some Actor.team ↔ _
  rw [text_eq_rescheduled]
  refine and_congr_right fun hname => ?_
  have htext : e.name.text = "rescheduled" := text_eq_rescheduled.mpr hname
  rw [htext, actorOf]
  cases e.actorUserId with
  | none => simp [transitionEvents, systemEvents]
  | some id => simp

theorem history_filter {db : Db} {names : ℕ → Option String} {b : Booking} (n : ℕ) :
    (((db.history names b).take n).filter HistoryEvent.clientMove).length =
      (((db.logOf b.id).take n).filter Event.clientMove).length := by
  rw [Db.history, ← List.map_take, List.filter_map, List.length_map]
  congr 1
  exact List.filter_congr fun e _ => decide_eq_decide.mpr out_clientMove

/-- Of the moves up to a line, all were made while confirmed when so many were. -/
theorem spentBy_eq_iff {ms : List ClientMove} {line : ℕ} :
    (ms.filter fun m => m.line < line + 1).length = spentBy ms line ↔
      ∀ m ∈ ms, m.line ≤ line → m.pending = false := by
  have hboth : spentBy ms line =
      ((ms.filter fun m => m.line < line + 1).filter fun m => m.pending = false).length := by
    rw [spentBy, List.filter_filter]
    congr 1
    refine List.filter_congr fun m _ => ?_
    simp [and_comm]
  rw [hboth, eq_comm, List.length_filter_eq_length_iff]
  constructor
  · intro h m hm hle
    have hin : m ∈ ms.filter fun m => m.line < line + 1 :=
      List.mem_filter.mpr ⟨hm, decide_eq_true (Nat.lt_succ_of_le hle)⟩
    exact of_decide_eq_true (h m hin)
  · intro h m hm
    obtain ⟨hm, hlt⟩ := List.mem_filter.mp hm
    exact decide_eq_true (h m hm (Nat.lt_succ_iff.mp (of_decide_eq_true hlt)))

theorem spentBy_le {ms : List ClientMove} (line : ℕ) : spentBy ms line ≤ confirmedMoves ms := by
  rw [spentBy, confirmedMoves, ← List.countP_eq_length_filter, ← List.countP_eq_length_filter]
  refine List.countP_mono_left fun m _ h => decide_eq_true ?_
  exact (of_decide_eq_true h).2

/-- **History counts the allowance.** In every run of a business that began with no
booking, a line "k of max" is a client's move, and `k` is what had been spent of the
allowance once it was made, and is within it, exactly when the client made no move of
the booking while it was pending, up to that line. -/
theorem historyLabel_counts {w w' : World} {es : List (ℤ × Op)} (hrows : w.db.bookings.rows = [])
    (hlog : w.db.events = []) (hrun : w.run es = some w') (browser : Browser)
    (names : ℕ → Option String) (tz : Zone) : ∀ b ∈ w'.db.bookings.rows, ∀ i label parts k max,
    historyLabel browser (w'.db.history names b) i b.source b.maxReschedules tz = some label →
    label.params = .clientMove parts k max →
    ∃ m ∈ w.clientMoves es b.id, m.line = i ∧ (k = m.spent ∧ k ≤ max ↔
      ∀ m' ∈ w.clientMoves es b.id, m'.line ≤ i → m'.pending = false) := by
  intro b hb i label parts k max hlabel hparams
  have hnotes := notes_run hrows hlog hrun b.id
  obtain ⟨e, he, hmove, rfl, hk⟩ := historyLabel_eq hlabel hparams
  rw [history_filter, hnotes.told.told] at hk
  obtain ⟨event, hevent, rfl⟩ : ∃ event, (w'.db.logOf b.id)[i]? = some event ∧
      event.out names b.source = e := by
    rw [Db.history, List.getElem?_map] at he
    exact Option.map_eq_some_iff.mp he
  obtain ⟨m, hm, hline⟩ := hnotes.told.exists_line hevent (out_clientMove.mp hmove)
  refine ⟨m, hm, hline, ?_⟩
  rw [hnotes.counted m hm, hline, hk, ← spentBy_eq_iff]
  refine and_iff_left_of_imp fun hsame => ?_
  obtain ⟨hcount, hwithin⟩ := hnotes.count b hb rfl
  rw [hsame]
  exact (spentBy_le i).trans (hcount ▸ hwithin)

/-! ## § Two histories -/

/-- A browser that reads no other text as a time. -/
def plainBrowser : Browser := ⟨fun _ => none⟩

/-- A request for ten is accepted, and its client moves it to half past ten. -/
def movedConfirmed : List (ℤ × Op) :=
  [(0, .edit (.settings { Settings.defaults (.fixed 0) with published := true })),
    (0, .bookOnline ⟨1, none, nextThursday 600, "client", none, none, false, none, true, none,
      1, 2⟩),
    (0, .edit (.addLink ⟨1, 1⟩)),
    (minute, ownerSets 1 .confirmed),
    (2 * minute, .linkReschedule 1 ⟨1, nextThursday 630, 0, none, none⟩)]

/-- Its client moves a request for ten to eleven, to half past ten and back to ten. -/
def movedPending : List (ℤ × Op) :=
  [(0, .edit (.settings { Settings.defaults (.fixed 0) with published := true })),
    (0, .bookOnline ⟨1, none, nextThursday 600, "client", none, none, false, none, true, none,
      1, 2⟩),
    (0, .edit (.addLink ⟨1, 1⟩)),
    (minute, .linkReschedule 1 ⟨1, nextThursday 660, 0, some (nextThursday 600), none⟩),
    (2 * minute, .linkReschedule 1 ⟨1, nextThursday 630, 0, some (nextThursday 660), none⟩),
    (3 * minute, .linkReschedule 1 ⟨1, nextThursday 600, 0, some (nextThursday 630), none⟩)]

/-- The label of a line of booking `b`'s history, in a zone an hour ahead. -/
def labelOf (db : Db) (b : Booking) (i : ℕ) : Option HistoryLabel :=
  historyLabel plainBrowser (db.history (fun _ => none) b) i b.source b.maxReschedules
    (.fixed 60)

/-- The move from ten to half past ten. -/
def tenToHalfPast : MoveParts where
  fromTime := "11:00".toList
  toTime := "11:30".toList
  previous := "1970-01-08T10:00:00+00:00".toList
  next := "1970-01-08T10:30:00+00:00".toList
  fromDate := "1970-01-08".toList
  toDate := "1970-01-08".toList
  sameDay := true

/-- The move back. -/
def halfPastToTen : MoveParts where
  fromTime := tenToHalfPast.toTime
  toTime := tenToHalfPast.fromTime
  previous := tenToHalfPast.next
  next := tenToHalfPast.previous
  fromDate := tenToHalfPast.toDate
  toDate := tenToHalfPast.fromDate
  sameDay := true

theorem historyLabel_counts_confirmed : ∃ w, thursdayShop.run movedConfirmed = some w ∧
    ∃ b ∈ w.db.bookings.rows,
      labelOf w.db b 2 = some ⟨.historyMoved, .clientMove tenToHalfPast 1 2⟩ ∧
      ∃ m ∈ thursdayShop.clientMoves movedConfirmed b.id, m.line = 2 ∧ (1 = m.spent ∧ 1 ≤ 2) := by
  have hfacts : ∀ w ∈ thursdayShop.run movedConfirmed, ∃ b ∈ w.db.bookings.rows,
      labelOf w.db b 2 = some ⟨.historyMoved, .clientMove tenToHalfPast 1 2⟩ ∧
      ∀ m' ∈ thursdayShop.clientMoves movedConfirmed b.id, m'.line ≤ 2 → m'.pending = false := by
    decide +kernel
  obtain ⟨w, hrun⟩ := Option.isSome_iff_exists.mp
    (by decide +kernel : (thursdayShop.run movedConfirmed).isSome)
  obtain ⟨b, hb, hlabel, hconfirmed⟩ := hfacts w hrun
  obtain ⟨m, hm, hline, hiff⟩ :=
    historyLabel_counts rfl rfl hrun plainBrowser _ _ b hb 2 _ _ _ _ hlabel rfl
  exact ⟨w, hrun, b, hb, hlabel, m, hm, hline, hiff.mpr hconfirmed⟩

/-- The third move reads "3 of 2", and nothing was spent. -/
theorem pending_moves_counted : ∃ w, thursdayShop.run movedPending = some w ∧
    ∃ b ∈ w.db.bookings.rows, b.rescheduleCount = 0 ∧
      labelOf w.db b 3 = some ⟨.historyMoved, .clientMove halfPastToTen 3 2⟩ ∧
      ∃ m ∈ thursdayShop.clientMoves movedPending b.id, m.line = 3 ∧
        ¬ (3 = m.spent) ∧ ¬ (3 ≤ 2) := by
  have hfacts : ∀ w ∈ thursdayShop.run movedPending, ∃ b ∈ w.db.bookings.rows,
      b.rescheduleCount = 0 ∧
      labelOf w.db b 3 = some ⟨.historyMoved, .clientMove halfPastToTen 3 2⟩ ∧
      ∃ m ∈ thursdayShop.clientMoves movedPending b.id, m.line = 3 ∧
        ¬ (3 = m.spent) ∧ ¬ (3 ≤ 2) := by
    decide +kernel
  obtain ⟨w, hrun⟩ := Option.isSome_iff_exists.mp
    (by decide +kernel : (thursdayShop.run movedPending).isSome)
  exact ⟨w, hrun, hfacts w hrun⟩

end Ziftbook
