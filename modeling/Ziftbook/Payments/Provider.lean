import Ziftbook.Payments.Settling

/-!
# The payment provider

What `stripe_gateway` asks of the provider, and what the provider does on its
own: an intent advances until it succeeds or is canceled, a refund fails, a
refund is made by hand. A refund's idempotency key is answered with the refund
it made; each change of a charge's refunded amount is announced by an event.
-/

namespace Ziftbook

open Foundation

/-! ## § Intents and refunds -/

/-- `pi:{booking_id}:{n}:{kind}`. -/
structure IntentKey where
  bookingId : ℕ
  n : ℕ
  kind : PaymentKind
deriving DecidableEq

structure Intent where
  id : IntentId
  key : IntentKey
  status : IntentStatus
  amount : ℤ
  currency : String
  chargedAt : Option ℤ
deriving DecidableEq

/-- `key` is the payment a refund was made for by this program; one made by hand
has none. -/
structure Refund where
  id : ℕ
  intent : IntentId
  amount : ℤ
  key : Option ℕ
  failed : Bool
  positive : 0 < amount
deriving DecidableEq

/-- `refund:{row.id}` as the provider keeps it: the parameters, and the refund. -/
structure KeptKey where
  payment : ℕ
  intent : IntentId
  amount : ℤ
  refund : ℕ
deriving DecidableEq

structure Provider where
  intents : Table Intent IntentId Intent.id
  refunds : Table Refund ℕ Refund.id
  kept : List KeptKey
  /-- The refund events no run has taken yet. -/
  events : List ℕ

def Provider.empty : Provider := ⟨Table.empty, Table.empty, [], []⟩

/-- The amounts of these refunds that have not failed. -/
def Provider.total (s : Provider) (p : Refund → Prop) [DecidablePred p] : ℤ :=
  ((s.refunds.rows.filter fun r => p r ∧ r.failed = false).map Refund.amount).sum

/-- `amount_refunded` of the intent's charge. -/
def Provider.amountRefunded (s : Provider) (intent : IntentId) : ℤ :=
  s.total fun r => r.intent = intent

/-- What this program has sent back for the payment, and has not failed. -/
def Provider.sentFor (s : Provider) (payment : ℕ) : ℤ := s.total fun r => r.key = some payment

/-- No money moves on it any more. -/
def IntentStatus.final : IntentStatus → Prop
  | .succeeded | .canceled => True
  | _ => False

instance (status : IntentStatus) : Decidable status.final := by
  cases status <;> simp only [IntentStatus.final] <;> infer_instance

/-- Past cancelling: a payment under way, or an end. -/
def IntentStatus.cancelable : IntentStatus → Prop
  | .waiting | .requiresCapture => True
  | _ => False

instance (status : IntentStatus) : Decidable status.cancelable := by
  cases status <;> simp only [IntentStatus.cancelable] <;> infer_instance

/-- The intent is canceled at the provider. -/
def Provider.canceled (s : Provider) (intent : IntentId) : Prop :=
  ∃ i ∈ s.intents.rows, i.id = intent ∧ i.status = .canceled

/-! ## § What the gateway asks -/

/-- `retrieve_intent`: the id's prefix says which kind of intent is read. -/
def Provider.state (s : Provider) (intent : IntentId) : Option IntentState :=
  (s.intents.find intent).map fun i =>
    if intent.setup then ⟨true, i.status, none, none, 0, none⟩
    else ⟨false, i.status, some i.amount, some i.currency, s.amountRefunded intent, i.chargedAt⟩

def Provider.setStatus (s : Provider) (intent : IntentId) (status : IntentStatus)
    (chargedAt : Option ℤ) : Provider :=
  { s with
    intents := s.intents.update (fun i => i.id = intent)
      (fun i => { i with status := status, chargedAt := chargedAt }) fun _ => rfl }

theorem Provider.mem_setStatus {s : Provider} {intent : IntentId} {status : IntentStatus}
    {chargedAt : Option ℤ} {i : Intent} :
    i ∈ (s.setStatus intent status chargedAt).intents.rows ↔
      (∃ j ∈ s.intents.rows, j.id = intent ∧
        { j with status := status, chargedAt := chargedAt } = i) ∨
      (i ∈ s.intents.rows ∧ ¬ i.id = intent) := by
  simp only [Provider.setStatus, Table.mem_update]

/-- `cancel_intent`: the status it has afterwards. -/
def Provider.cancel (s : Provider) (intent : IntentId) : Option (Provider × IntentStatus) :=
  (s.intents.find intent).map fun i =>
    if i.status.cancelable then (s.setStatus intent .canceled i.chargedAt, .canceled)
    else (s, i.status)

/-- `create_check` and `create_payment`: a repeated key is the same intent. -/
def Provider.create (s : Provider) (key : IntentKey) (id : IntentId) (amount : ℤ)
    (currency : String) : Option Provider :=
  match s.intents.find id with
  | some i => if i.key = key then some s else none
  | none => (s.intents.insert ⟨id, key, .waiting, amount, currency, none⟩).map fun intents =>
      { s with intents := intents }

/-- The charge has this much left to send back. -/
def Provider.covers (s : Provider) (intent : IntentId) (amount : ℤ) : Prop :=
  ∃ i ∈ s.intents.rows, i.id = intent ∧ i.status = .succeeded ∧
    amount + s.amountRefunded intent ≤ i.amount

instance (s : Provider) (intent : IntentId) (amount : ℤ) : Decidable (s.covers intent amount) :=
  inferInstanceAs (Decidable (∃ i ∈ s.intents.rows, _))

def Provider.insertRefund (s : Provider) (refund : Refund) : Option Provider :=
  (s.refunds.insert refund).map fun refunds =>
    { s with refunds := refunds, events := s.events ++ [refund.id] }

/-- `refund`, under the payment's key: the refund's id, or nothing when refused.
A key still kept is answered with its refund, and refused with other parameters;
else the provider makes one when it is `willing` and the charge covers it. -/
def Provider.refund (s : Provider) (payment : ℕ) (intent : IntentId) (amount : ℤ) (id : ℕ)
    (willing : Bool) : Option (Provider × Option ℕ) :=
  match s.kept.find? fun k => k.payment = payment with
  | some k =>
      if k.intent = intent ∧ k.amount = amount then some (s, some k.refund) else some (s, none)
  | none =>
      if h : 0 < amount then
        if willing = true ∧ s.covers intent amount then
          (s.insertRefund ⟨id, intent, amount, some payment, false, h⟩).map fun s' =>
            ({ s' with kept := ⟨payment, intent, amount, id⟩ :: s'.kept }, some id)
        else some (s, none)
      else some (s, none)

/-! ## § What it does on its own -/

/-- An intent advances, unless it has ended. -/
def Provider.advance (s : Provider) (intent : IntentId) (status : IntentStatus)
    (chargedAt : Option ℤ) : Option Provider :=
  (s.intents.find intent).bind fun i =>
    if i.status.final then none else some (s.setStatus intent status chargedAt)

/-- The business refunds in its dashboard. -/
def Provider.handRefund (s : Provider) (intent : IntentId) (amount : ℤ) (id : ℕ) :
    Option Provider :=
  if h : 0 < amount then
    if s.covers intent amount then s.insertRefund ⟨id, intent, amount, none, false, h⟩ else none
  else none

/-- A refund fails: its money is back. -/
def Provider.failRefund (s : Provider) (id : ℕ) : Option Provider :=
  if ∃ r ∈ s.refunds.rows, r.id = id ∧ r.failed = false then
    some { s with
      refunds := s.refunds.update (fun r => r.id = id) (fun r => { r with failed := true })
        fun _ => rfl
      events := s.events ++ [id] }
  else none

/-- A key is kept a day. -/
def Provider.forget (s : Provider) (payment : ℕ) : Provider :=
  { s with kept := s.kept.filter fun k => k.payment ≠ payment }

end Ziftbook
