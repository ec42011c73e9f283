import Ziftbook.Foundation.LockOrder
import Ziftbook.Foundation.Runs
import Ziftbook.Foundation.Serial
import Ziftbook.Limits.Counters

/-!
# The limiter's transactions, row by row

`app/limits.py` and the worker's sweep of `rate_limits`, a row at a time: a statement waits
for each row in its turn, so the transactions of any number of callers interleave between
any two rows. `hit(db=…)` runs in its caller's transaction, which holds its business's lock.

What a scan meets, and in which order, is left open where the statement leaves it open.
-/

namespace Ziftbook

open Foundation Foundation.Runs

/-! ## § Statements -/

/-- What is locked: a row of `rate_limits`, or a business by a caller's own transaction. -/
inductive Lockable (κ τ : Type)
  | key (k : κ)
  | tenant (tenant : τ)
deriving DecidableEq

/-- `ORDER BY key`, in the database's collation. -/
structure Collation (κ : Type) where
  sort : List κ → List κ
  perm : ∀ keys, (sort keys).Perm keys

/-- The database's collation, where it is Python's order. -/
def sortedCollation : Collation ℕ :=
  ⟨fun keys => keys.insertionSort (· ≤ ·), fun keys => List.perm_insertionSort _ keys⟩

/-- `PURGE`'s limit. -/
def purgeLimit : ℕ := 100

/-- `retention.BATCH`. -/
def retentionBatch : ℕ := 1000

/-- `HIT` on one row. -/
def Counter.hit (window now : ℤ) : Option Counter → Counter
  | some c => if c.running window now then ⟨c.windowStart, c.hits + 1⟩ else ⟨now, 1⟩
  | none => ⟨now, 1⟩

/-- `REFUND`'s condition on a row. -/
def Counter.refundable (window now : ℤ) (c : Counter) : Prop := c.running window now ∧ 0 < c.hits

instance Counter.decidableRefundable (window now : ℤ) (c : Counter) :
    Decidable (Counter.refundable window now c) :=
  inferInstanceAs (Decidable (_ ∧ _))

/-- `window_start < now() - (MAX_WINDOW + MARGIN)`. -/
def Counter.stale (now : ℤ) (c : Counter) : Prop := c.windowStart < now - (maxWindow + limitsMargin)

instance Counter.decidableStale (now : ℤ) (c : Counter) : Decidable (Counter.stale now c) :=
  inferInstanceAs (Decidable (_ < _))

/-- One row of a statement still to come. -/
inductive RowStep (κ τ : Type)
  /-- The caller locks its business. -/
  | latch (tenant : τ)
  | count (window : ℤ) (k : κ)
  /-- `PURGE` and `RATE_LIMITS`, that may delete so many rows more. -/
  | purge (left : ℕ)
  /-- `LOCK_KEYS` finds its rows. -/
  | find (keys : List κ)
  | take (k : κ)
  /-- `REFUND` finds its rows. -/
  | update (window : ℤ) (keys : List κ)
  | giveBack (window : ℤ) (k : κ)
deriving DecidableEq

/-- A row written. -/
inductive RowDone (κ : Type)
  | counted (window : ℤ) (k : κ)
  | deleted (k : κ)
  | gaveBack (window : ℤ) (k : κ)
deriving DecidableEq

/-- What is written of the row, and `RETURNING key, hits`. -/
def RowDone.effect (τ : Type) {κ : Type} (now : ℤ) :
    RowDone κ → Effect (Lockable κ τ) Counter (κ × ℕ)
  | .counted window k => ⟨.key k, fun c =>
      (some (Counter.hit window now c), [(k, (Counter.hit window now c).hits)])⟩
  | .deleted k => ⟨.key k, fun c => (c.filter fun c => ¬ Counter.stale now c, [])⟩
  | .gaveBack window k => ⟨.key k, fun c => (c.map (Counter.giveBack window now), [])⟩

/-! ## § Transactions -/

/-- The functions that write the table. -/
inductive LimitCall (κ τ : Type)
  /-- `_charge`, of `hit` and of `charge`. -/
  | charge (keys : List κ) (window : ℤ)
  | refund (keys : List κ) (window : ℤ)
  /-- `retention._rate_limits`. -/
  | sweep
  /-- A caller's transaction with its `hit(db=…)`s. -/
  | within (tenant : τ) (hits : List (List κ × ℤ))
deriving DecidableEq

/-- `_check` passes. -/
def LimitCall.checked {κ τ : Type} : LimitCall κ τ → Prop
  | .charge _ window => window ≤ maxWindow
  | .refund _ window => window ≤ maxWindow
  | .sweep => True
  | .within _ hits => ∀ h ∈ hits, h.2 ≤ maxWindow

instance {κ τ : Type} : ∀ call : LimitCall κ τ, Decidable call.checked
  | .charge _ window => inferInstanceAs (Decidable (window ≤ maxWindow))
  | .refund _ window => inferInstanceAs (Decidable (window ≤ maxWindow))
  | .sweep => inferInstanceAs (Decidable True)
  | .within _ hits => inferInstanceAs (Decidable (∀ h ∈ hits, h.2 ≤ maxWindow))

/-- `sorted(keys)`, each key once. -/
def sortedKeys {κ : Type} [LinearOrder κ] (keys : List κ) : List κ :=
  keys.dedup.insertionSort (· ≤ ·)

/-- The rows a `hit` counts. -/
def countsOf {κ : Type} [LinearOrder κ] (h : List κ × ℤ) : List (ℤ × κ) :=
  (sortedKeys h.1).map fun k => (h.2, k)

/-- The transaction's rows, as far as they are known when it begins. -/
def LimitCall.steps {κ τ : Type} [LinearOrder κ] : LimitCall κ τ → List (RowStep κ τ)
  | .charge keys window => (sortedKeys keys).map (.count window) ++ [.purge purgeLimit]
  | .refund keys window => [.find (sortedKeys keys), .update window (sortedKeys keys)]
  | .sweep => [.purge retentionBatch]
  | .within tenant hits => .latch tenant :: (hits.flatMap countsOf).map fun c => .count c.1 c.2

/-- `now` is the transaction's `now()`. -/
structure LimitTxn (κ τ : Type) where
  now : ℤ
  call : LimitCall κ τ
  todo : List (RowStep κ τ)
  done : List (RowDone κ)
  answers : List (κ × ℕ)
deriving DecidableEq

section Step

variable {κ τ : Type} [LinearOrder κ] [DecidableEq τ]

/-- A row written in its turn, once no other transaction holds it. -/
def LimitTxn.carryOut (x : LimitTxn κ τ) (r : Rows (Lockable κ τ) Counter) (t : ℕ)
    (d : RowDone κ) (rest : List (RowStep κ τ)) :
    Option (Rows (Lockable κ τ) Counter × LimitTxn κ τ) :=
  let e := d.effect τ x.now
  let written := e.act (r.seen t e.key)
  (r.write t e.key written.1).map fun r' =>
    (r', { x with todo := rest, done := x.done ++ [d], answers := x.answers ++ written.2 })

/-- The transaction's next row; nothing while it waits for it. `scan` is the row a purge
meets next, or how `REFUND` meets its rows. -/
def LimitTxn.exec (collation : Collation κ) (x : LimitTxn κ τ)
    (r : Rows (Lockable κ τ) Counter) (t : ℕ) (scan : List κ) :
    Option (Rows (Lockable κ τ) Counter × LimitTxn κ τ) :=
  match x.todo with
  | [] => none
  | .latch tenant :: rest =>
      (r.lock t (.tenant tenant) .exclusive).map fun r' => (r', { x with todo := rest })
  | .count window k :: rest => x.carryOut r t (.counted window k) rest
  | .purge left :: rest =>
      match scan with
      | [] => some (r, { x with todo := rest })
      -- `SKIP LOCKED`: never a row that another transaction holds
      | k :: _ =>
          if 0 < left ∧ ∃ c ∈ r.seen t (.key k), Counter.stale x.now c then
            x.carryOut r t (.deleted k) (.purge (left - 1) :: rest)
          else none
  | .find keys :: rest =>
      let found := keys.filter fun k => (r.seen t (.key k)).isSome
      some (r, { x with todo := (collation.sort found).map .take ++ rest })
  | .take k :: rest =>
      if (r.seen t (.key k)).isSome then
        (r.lock t (.key k) .exclusive).map fun r' => (r', { x with todo := rest })
      else some (r, { x with todo := rest })
  | .update window keys :: rest =>
      if scan.Perm (keys.filter fun k =>
          ∃ c ∈ r.seen t (.key k), Counter.refundable window x.now c) then
        some (r, { x with todo := scan.map (.giveBack window) ++ rest })
      else none
  | .giveBack window k :: rest =>
      if (r.seen t (.key k)).isSome then x.carryOut r t (.gaveBack window k) rest
      else some (r, { x with todo := rest })

/-- The table with its transactions, by number, and those that committed, in order. -/
structure LimitsDb (κ τ : Type) where
  rows : Rows (Lockable κ τ) Counter
  running : ℕ → Option (LimitTxn κ τ)
  next : ℕ
  fresh : ∀ t, next ≤ t → running t = none
  committed : List (LimitTxn κ τ)

inductive LimitMove (κ τ : Type)
  | start (now : ℤ) (call : LimitCall κ τ)
  /-- The transaction's next row, or its commit. -/
  | go (t : ℕ) (scan : List κ)
  /-- It fails, or its client goes away. -/
  | abort (t : ℕ)

namespace LimitsDb

/-- The table as the rows say, and no transaction. -/
def idle (table : RateLimits κ) : LimitsDb κ τ where
  rows := Rows.start fun
    | .key k => table.rows k
    | .tenant _ => none
  running := fun _ => none
  next := 0
  fresh := fun _ _ => rfl
  committed := []

omit [LinearOrder κ] [DecidableEq τ] in
theorem fresh_update {running : ℕ → Option (LimitTxn κ τ)} {next t : ℕ} {x : LimitTxn κ τ}
    (hfresh : ∀ t, next ≤ t → running t = none) (hx : running t = some x)
    (y : Option (LimitTxn κ τ)) : ∀ u, next ≤ u → Function.update running t y u = none := by
  intro u hu
  rw [Function.update_of_ne]
  · exact hfresh u hu
  · rintro rfl
    rw [hfresh u hu] at hx
    cases hx

def step (collation : Collation κ) (s : LimitsDb κ τ) : LimitMove κ τ → Option (LimitsDb κ τ)
  | .start now call =>
      if call.checked then
        some { s with
          running := Function.update s.running s.next (some ⟨now, call, call.steps, [], []⟩)
          next := s.next + 1
          fresh := fun t ht => by
            rw [Function.update_of_ne (by omega)]
            exact s.fresh t (by omega) }
      else none
  | .go t scan =>
      match h : s.running t with
      | none => none
      | some x =>
          if x.todo = [] then
            some { s with
              rows := s.rows.commit t
              running := Function.update s.running t none
              fresh := fresh_update s.fresh h none
              committed := s.committed ++ [x] }
          else (x.exec collation s.rows t scan).map fun y =>
            { s with
              rows := y.1
              running := Function.update s.running t (some y.2)
              fresh := fresh_update s.fresh h _ }
  | .abort t =>
      match h : s.running t with
      | none => none
      | some _ =>
          some { s with
            rows := s.rows.rollback t
            running := Function.update s.running t none
            fresh := fresh_update s.fresh h none }

end LimitsDb

end Step

end Ziftbook
