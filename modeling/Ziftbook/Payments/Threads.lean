import Ziftbook.Foundation.Pool
import Ziftbook.Machine
import Ziftbook.Payments.Provider

/-!
# The payment code as threads

Every route, webhook and job of `app/payments.py`, cut where it leaves one
transaction or one call to the provider for the next: a task looks at the
tables, asks the provider, or writes in a transaction under the lock. Anything
may happen between two tasks, to the tables or at the provider.
-/

namespace Ziftbook

open Foundation

/-! ## § Tasks -/

/-- What `resume` holds once it has read the checkout: `n` payments so far. -/
structure Resuming where
  booking : Booking
  payment : Payment
  n : ℕ
  kind : PaymentKind

/-- A read of the tables, in a transaction of its own. -/
inductive Look
  | readPayment (intent : IntentId)
  | sync (bookingId : ℕ)
  | resume (bookingId : ℕ) (kind : PaymentKind)
  | resumeBeaten (r : Resuming) (made : IntentId)
  | abandon (bookingId : ℕ)
  | settlePass (bookingId : ℕ) (final : Bool)

/-- A call to the provider, and what the code decides on its answer. -/
inductive Ask
  | create (booking : Booking) (kind : PaymentKind)
  | retrieve (row : Payment)
  | resumeRetrieve (r : Resuming)
  | resumeCancel (r : Resuming)
  | resumeCreate (r : Resuming)
  | resumeReplay (live : Payment) (kind : PaymentKind)
  | orphan (made : IntentId)
  | abandonCancel (bookingId : ℕ) (payment : Payment)
  | settling (rows : List SettleRow) (bookingId : ℕ) (final reconciled : Bool)
  | refundRead (row : SettleRow)
  | refundSend (row : SettleRow) (due refunded : ℤ)
  | refundRecheck (row : SettleRow) (due : ℤ)
  | refundRetrieve (refundId : ℕ)
  | refundCharge (refund : Refund)

/-- A transaction that writes. -/
inductive Write
  | insert (booking : Booking) (kind : PaymentKind) (made : IntentId)
  | giveBack (bookingId : ℕ)
  | reconcile (row : Payment) (state : IntentState)
  | resume (r : Resuming) (made : IntentId)
  | abandon (bookingId : ℕ) (payment : Option Payment)
  | canceled (row : SettleRow)
  | released (row : SettleRow)
  | recordRefund (row : SettleRow) (due : ℤ) (refundId : Option ℕ) (refunded : ℤ)
      (outcome : RefundOutcome)
  | refundChanged (intent : IntentId) (refundId : ℕ) (failed : Bool) (refunded : ℤ)

inductive Task
  | look (l : Look)
  | ask (a : Ask)
  | write (w : Write)

/-- What a task meets when it runs: its clock, whether the call or the connection
fails, the ids the provider and the tables make, whether the provider is willing
to refund, whether the mail quota is used up. -/
structure Turn where
  now : ℤ
  failed : Bool := false
  made : IntentId := ⟨false, 0⟩
  fresh : ℕ := 0
  willing : Bool := true
  overQuota : Bool := false

/-! ## § Looking -/

/-- `LIVE_PAYMENT`: the payment not canceled, else the newest, and their count. -/
def Db.livePayment (db : Db) (bookingId : ℕ) : Option (Payment × ℕ) :=
  let rows := db.payments.rows.filter fun p => p.bookingId = bookingId
  ((rows.filter fun p => p.status ≠ .canceled).getLast?.or rows.getLast?).map
    fun p => (p, rows.length)

/-- `_checkout`: the booking page's booking, for the browser that placed it. -/
def Db.checkout (db : Db) (bookingId : ℕ) : Option (Booking × Option (Payment × ℕ)) :=
  ((db.bookings.find bookingId).filter fun b => b.source = .bookingPage).map
    fun b => (b, db.livePayment bookingId)

/-- The tasks a read leads to; nothing when the code raises. A `resume` that the
payment step refuses is one that was not asked for. -/
def Look.run (db : Db) (now : ℤ) : Look → Option (List Task)
  | .readPayment intent =>
      match db.payments.rows.find? fun p => p.intentId = intent with
      | none => some []
      | some row => some [.ask (.retrieve row)]
  | .sync bookingId =>
      match db.checkout bookingId with
      | some (_, some (payment, _)) =>
          if payment.status = .open then some [.look (.readPayment payment.intentId)] else some []
      | _ => none
  | .resume bookingId kind =>
      match db.checkout bookingId with
      | some (booking, some (payment, n)) =>
          if payment.status = .checked ∨ payment.status = .paid then none
          else if ¬ (booking.status = .awaitingPayment ∧ booking.unexpired now) then none
          else if payment.status = .open then
            some [.ask (.resumeRetrieve ⟨booking, payment, n, kind⟩)]
          else some [.ask (.resumeCreate ⟨booking, payment, n, kind⟩)]
      | _ => none
  | .resumeBeaten r made =>
      match db.livePayment r.booking.id with
      | some (live, _) =>
          if live.intentId = made then some [.ask (.resumeReplay live r.kind)]
          else some [.ask (.orphan made)]
      | none => some [.ask (.orphan made)]
  | .abandon bookingId =>
      match db.checkout bookingId with
      | some (booking, payment) =>
          if ¬ (booking.status = .awaitingPayment ∧ booking.unexpired now) then none
          else
            match payment with
            | some (payment, _) =>
                if payment.status = .open then some [.ask (.abandonCancel bookingId payment)]
                else some [.write (.abandon bookingId (some payment))]
            | none => some [.write (.abandon bookingId none)]
      | none => none
  | .settlePass bookingId final =>
      some [.ask (.settling (db.settleRows now bookingId) bookingId final false)]

/-! ## § Asking -/

/-- What the code does when the call fails: `start` gives the hold back, the rest
raise. -/
def Ask.unreachable : Ask → Option (List Task)
  | .create booking _ => some [.write (.giveBack booking.id)]
  | _ => none

/-- The provider after the call, and the tasks its answer leads to. -/
def Ask.answered (s : Provider) (turn : Turn) : Ask → Option (Provider × Option (List Task))
  | .create booking kind =>
      (s.create ⟨booking.id, 1, kind⟩ turn.made booking.priceAmountMinor
        booking.priceCurrency).map
        fun s => (s, some [.write (.insert booking kind turn.made)])
  | .retrieve row =>
      (s.state row.intentId).map fun state => (s, some [.write (.reconcile row state)])
  | .resumeRetrieve r =>
      (s.state r.payment.intentId).map fun state =>
        if landed state r.payment.kind then
          (s, some [.look (.readPayment r.payment.intentId)])
        else if state.status = .canceled then (s, some [.ask (.resumeCreate r)])
        else if r.kind ≠ r.payment.kind then (s, some [.ask (.resumeCancel r)])
        else (s, some [])
  | .resumeCancel r =>
      (s.cancel r.payment.intentId).map fun (s, status) =>
        if status = .canceled then (s, some [.ask (.resumeCreate r)])
        else (s, some [.look (.readPayment r.payment.intentId)])
  | .resumeCreate r =>
      (s.create ⟨r.booking.id, r.n + 1, r.kind⟩ turn.made r.booking.priceAmountMinor
        r.booking.priceCurrency).map fun s => (s, some [.write (.resume r turn.made)])
  | .resumeReplay live kind =>
      (s.state live.intentId).map fun state =>
        if live.status ≠ .open ∨ landed state kind then
          (s, some [.look (.readPayment live.intentId)])
        else (s, some [])
  | .orphan made => (s.cancel made).map fun (s, _) => (s, some [])
  | .abandonCancel bookingId payment =>
      (s.cancel payment.intentId).map fun (s, status) =>
        if status = .canceled then (s, some [.write (.abandon bookingId (some payment))])
        else (s, some [.look (.readPayment payment.intentId)])
  | .settling [] bookingId final reconciled =>
      -- a reconcile can move a row, which the second pass then releases
      if reconciled ∧ ¬ final then some (s, some [.look (.settlePass bookingId true)])
      else some (s, some [])
  | .settling (row :: rows) bookingId final reconciled =>
      match row.action with
      | .cancel =>
          (s.cancel row.payment.intentId).map fun (s, status) =>
            if status = .canceled then
              (s, some [.write (.canceled row), .ask (.settling rows bookingId final reconciled)])
            else if final then (s, none)
            else (s, some [.look (.readPayment row.payment.intentId),
              .ask (.settling rows bookingId final true)])
      | .release =>
          (s.cancel row.payment.intentId).map fun (s, status) =>
            if status = .canceled then
              (s, some [.write (.released row), .ask (.settling rows bookingId final reconciled)])
            else (s, none)
      | .refund =>
          some (s, some [.ask (.refundRead row), .ask (.settling rows bookingId final reconciled)])
      | .pass => some (s, some [.ask (.settling rows bookingId final reconciled)])
  | .refundRead row =>
      (s.state row.payment.intentId).map fun state =>
        match row.due with
        | none => (s, none)
        | some due =>
            if row.held due state then
              (s, some [.write (.recordRefund row due none state.amountRefunded .held)])
            else if state.amountRefunded < due then
              (s, some [.ask (.refundSend row due state.amountRefunded)])
            else (s, some [.write (.recordRefund row due none state.amountRefunded .sent)])
  | .refundSend row due refunded =>
      (s.refund row.payment.id row.payment.intentId (due - refunded) turn.fresh
        turn.willing).map fun (s, answer) =>
        match answer with
        | some id => (s, some [.write (.recordRefund row due (some id) refunded .sent)])
        | none => (s, some [.ask (.refundRecheck row due)])
  | .refundRecheck row due =>
      (s.state row.payment.intentId).map fun state =>
        (s, some [.write (.recordRefund row due none state.amountRefunded
          (if state.amountRefunded < due then .refused else .sent))])
  | .refundRetrieve refundId =>
      (s.refunds.find refundId).map fun refund => (s, some [.ask (.refundCharge refund)])
  | .refundCharge refund =>
      (s.state refund.intent).map fun state =>
        (s, some [.write (.refundChanged refund.intent refund.id refund.failed
          state.amountRefunded)])

def Ask.run (s : Provider) (turn : Turn) (a : Ask) : Option (Provider × Option (List Task)) :=
  if turn.failed then some (s, a.unreachable) else a.answered s turn

/-! ## § Writing -/

/-- The operation a transaction commits. -/
def Write.op (turn : Turn) : Write → Op
  | .insert booking kind made => .insertPayment turn.fresh booking.id kind made
      booking.priceAmountMinor booking.priceCurrency
  | .giveBack bookingId => .giveBack bookingId
  | .reconcile row state => .reconcile row state
  | .resume r made => .resume r.booking.id r.payment.id turn.fresh r.kind made
      r.booking.priceAmountMinor r.booking.priceCurrency
  | .abandon bookingId payment => .abandon bookingId (payment.map Payment.id)
  | .canceled row => .writeCanceled row.payment.id
  | .released row => .writeReleased row.payment.id
  | .recordRefund row due refundId refunded outcome =>
      .recordRefund row due refundId refunded outcome turn.overQuota
  | .refundChanged intent refundId failed refunded =>
      .refundChanged intent refundId failed refunded turn.overQuota

/-- After the commit: a refund just recorded is looked at again. -/
def Write.committed (db : Db) : Write → List Task
  | .recordRefund row due (some id) _ .sent =>
      if db.refundOpen row.payment.id due then [.ask (.refundRetrieve id)] else []
  | _ => []

/-- After a refusal, or a failed connection (`none`). -/
def Write.refused (e : Option ApiError) : Write → Option (List Task)
  | .insert booking _ _ => some [.write (.giveBack booking.id)]
  | .resume r made =>
      match e with
      | none => none
      | some e =>
          if e.status = 404 then some [.ask (.orphan made)]
          else some [.look (.resumeBeaten r made)]
  | _ => none

def Write.run (db : Db) (turn : Turn) (w : Write) : Db × Option (List Task) :=
  if turn.failed then (db, w.refused none)
  else
    match apply db turn.now (w.op turn) with
    | .ok db' => (db', some (w.committed db))
    | .error e => (db, w.refused (some e))

/-! ## § The program -/

/-- The tables and the provider. -/
structure Till where
  db : Db
  provider : Provider

/-- The operations that only payment code runs. -/
def Op.pays : Op → Bool
  | .insertPayment .. | .giveBack .. | .reconcile .. | .resume .. | .abandon ..
  | .writeCanceled .. | .writeReleased .. | .recordRefund .. | .refundChanged .. => true
  | _ => false

/-- What happens around the payment code: the other operations, the sweep among
them, and what the provider does on its own. -/
inductive Around
  | op (now : ℤ) (op : Op)
  | advance (intent : IntentId) (status : IntentStatus) (chargedAt : Option ℤ)
  | handRefund (intent : IntentId) (amount : ℤ) (id : ℕ)
  | failRefund (id : ℕ)
  | forget (payment : ℕ)

/-- The task may still use the payment's idempotency key on what it has read. -/
def Task.mayUse (payment : ℕ) : Task → Prop
  | .ask (.settling rows _ _ _) => ∃ row ∈ rows, row.payment.id = payment
  | .ask (.refundRead row) => row.payment.id = payment
  | .ask (.refundSend row _ _) => row.payment.id = payment
  | _ => False

instance (payment : ℕ) (t : Task) : Decidable (t.mayUse payment) := by
  unfold Task.mayUse
  split <;> infer_instance

/-- A key is kept as long as a run under way may use it. -/
def Till.around (t : Till) (tasks : List Task) : Around → Option Till
  | .op now op =>
      if op.pays then none
      else
        match apply t.db now op with
        | .ok db => some { t with db := db }
        | .error _ => some t
  | .advance intent status chargedAt =>
      (t.provider.advance intent status chargedAt).map fun s => { t with provider := s }
  | .handRefund intent amount id =>
      (t.provider.handRefund intent amount id).map fun s => { t with provider := s }
  | .failRefund id => (t.provider.failRefund id).map fun s => { t with provider := s }
  | .forget payment =>
      if ∃ task ∈ tasks, task.mayUse payment then none
      else some { t with provider := t.provider.forget payment }

/-- What begins a thread. -/
inductive Entry
  | start (bookingId : ℕ) (kind : PaymentKind)
  | reconcile (intent : IntentId)
  | sync (bookingId : ℕ)
  | resume (bookingId : ℕ) (kind : PaymentKind)
  | abandon (bookingId : ℕ)
  | settle (bookingId : ℕ)
  | refundEvent (refundId : ℕ)

def Till.enter (t : Till) : Entry → Option (Till × List Task)
  | .start bookingId kind =>
      (t.db.bookings.find bookingId).map fun b => (t, [.ask (.create b kind)])
  | .reconcile intent => some (t, [.look (.readPayment intent)])
  | .sync bookingId => some (t, [.look (.sync bookingId)])
  | .resume bookingId kind => some (t, [.look (.resume bookingId kind)])
  | .abandon bookingId => some (t, [.look (.abandon bookingId)])
  | .settle bookingId => some (t, [.look (.settlePass bookingId false)])
  | .refundEvent refundId =>
      some ({ t with provider := { t.provider with
        events := t.provider.events.erase refundId } }, [.ask (.refundRetrieve refundId)])

def Till.exec (t : Till) (task : Task) (turn : Turn) : Option (Till × Option (List Task)) :=
  match task with
  | .look l => some (t, if turn.failed then none else l.run t.db turn.now)
  | .ask a => (a.run t.provider turn).map fun (s, next) => ({ t with provider := s }, next)
  | .write w => some ({ t with db := (w.run t.db turn).1 }, (w.run t.db turn).2)

/-- The payment code. -/
def till : Program Till Task Around Entry Turn := ⟨Till.around, Till.enter, Till.exec⟩

abbrev Desk := Pool Till Task

abbrev Deed := Move Around Entry Turn

def Desk.step (d : Desk) (m : Deed) : Option Desk := Pool.step till d m

def Desk.run (d : Desk) (ms : List Deed) : Option Desk := Runs.run Desk.step d ms

/-! ## § What a step does to the tables -/

/-- A transaction writes nothing, or commits its operation. -/
theorem write_cases (db : Db) (turn : Turn) (w : Write) :
    ((w.run db turn).1 = db ∧ ∃ e, (w.run db turn).2 = w.refused e) ∨
    (apply db turn.now (w.op turn) = .ok (w.run db turn).1 ∧
      (w.run db turn).2 = some (w.committed db)) := by
  unfold Write.run
  split
  · exact Or.inl ⟨rfl, none, rfl⟩
  · split
    · rename_i db' h
      exact Or.inr ⟨h, rfl⟩
    · rename_i e _
      exact Or.inl ⟨rfl, some e, rfl⟩

theorem around_db {t t' : Till} {tasks : List Task} {e : Around}
    (h : t.around tasks e = some t') : t'.db = t.db ∨
      ∃ now op, e = .op now op ∧ op.pays = false ∧ apply t.db now op = .ok t'.db := by
  cases e with
  | op now op =>
      simp only [Till.around] at h
      split_ifs at h with hpays
      split at h
      · rename_i db' happly
        cases h
        exact Or.inr ⟨now, op, rfl, Bool.eq_false_iff.mpr hpays, happly⟩
      · cases h
        exact Or.inl rfl
  | forget payment =>
      simp only [Till.around] at h
      split_ifs at h
      cases h
      exact Or.inl rfl
  | _ =>
      obtain ⟨s, _, rfl⟩ := Option.map_eq_some_iff.mp h
      exact Or.inl rfl

theorem enter_db {t t' : Till} {e : Entry} {ts : List Task} (h : t.enter e = some (t', ts)) :
    t'.db = t.db := by
  cases e with
  | start bookingId kind =>
      obtain ⟨b, _, heq⟩ := Option.map_eq_some_iff.mp h
      cases heq
      rfl
  | _ =>
      cases h
      rfl

theorem exec_db {t t' : Till} {u : Task} {turn : Turn} {next : Option (List Task)}
    (h : t.exec u turn = some (t', next)) :
    t'.db = t.db ∨ ∃ w, u = .write w ∧ t'.db = (w.run t.db turn).1 := by
  cases u with
  | look l =>
      cases h
      exact Or.inl rfl
  | ask a =>
      obtain ⟨_, _, heq⟩ := Option.map_eq_some_iff.mp h
      cases heq
      exact Or.inl rfl
  | write w =>
      cases h
      exact Or.inr ⟨w, rfl, rfl⟩

/-- One step commits one operation at most. -/
theorem step_db {d d' : Desk} {m : Deed} (h : d.step m = some d') :
    d'.shared.db = d.shared.db ∨
      ∃ now op, apply d.shared.db now op = .ok d'.shared.db := by
  cases Pool.stepped h with
  | world e he _ =>
      rcases around_db he with hdb | ⟨now, op, _, _, happly⟩
      · exact Or.inl hdb
      · exact Or.inr ⟨now, op, happly⟩
  | start e ts he _ => exact Or.inl (enter_db he)
  | go i turn u rest next _ he _ =>
      rcases exec_db he with hdb | ⟨w, _, hdb⟩
      · exact Or.inl hdb
      · rcases write_cases d.shared.db turn w with ⟨hsame, _⟩ | ⟨happly, _⟩
        · exact Or.inl (hdb.trans hsame)
        · exact Or.inr ⟨turn.now, w.op turn, hdb ▸ happly⟩
  | die i hshared _ => exact Or.inl (by rw [hshared])

/-- **The threads refine the business**: their runs are runs of its operations. -/
theorem run_refines {d d' : Desk} {ms : List Deed} (h : d.run ms = some d') {w : World}
    (hw : w.db = d.shared.db) : ∃ es w', w.run es = some w' ∧ w'.db = d'.shared.db := by
  have hstep : ∀ (d : Desk) (w : World) (m : Deed) (d' : Desk), w.db = d.shared.db → True →
      d.step m = some d' → ∃ es w', w.run es = some w' ∧ w'.db = d'.shared.db := by
    intro d w m d' hdb _ hstep
    rcases step_db hstep with hsame | ⟨now, op, happly⟩
    · exact ⟨[], w, rfl, hdb.trans hsame.symm⟩
    · refine ⟨[(now, op)], ⟨d'.shared.db, max w.latest now⟩, ?_, rfl⟩
      simp [World.run, Runs.run, World.step, hdb, happly]
  exact Runs.run_simulates hstep hw (Runs.along_true d ms) h

/-! ## § A small checkout -/

/-- The Thursday shop, its booking page on, before its first payment. -/
def openDesk : Desk := Pool.empty
  ⟨.solo { Settings.defaults (.fixed 0) with published := true } halfHour [morning],
    Provider.empty⟩

/-- A client books Thursday at 10:00, to pay at once. -/
def booksToPay : Op := .bookOnline
  ⟨1, none, 600 * minute, "client", none, none, true, some .pay, true, none, 1, 2⟩

/-- The booking's intent, and its payment's id. -/
def firstIntent : IntentId := ⟨false, 1⟩

/-- The client books, the payment starts, and goes through at the provider. -/
def checkoutPaid : List Deed :=
  [.world (.op 0 booksToPay), .start (.start 1 .pay), .go 0 { now := 0, made := firstIntent },
    .go 0 { now := 0, fresh := 1 }, .world (.advance firstIntent .succeeded (some 1))]

/-- The webhook's reconcile, as the thread `i`, on the clock `now`. -/
def reconciled (i : ℕ) (now : ℤ) : List Deed :=
  [.start (.reconcile firstIntent), .go i { now := now }, .go i { now := now },
    .go i { now := now }]

end Ziftbook
