import Ziftbook.Foundation.Swept
import Ziftbook.Limits.AtOnce

/-!
# Purges change no count

`PURGE` and the worker's sweep delete rows whose window started longer than `MAX_WINDOW` and
`MARGIN` ago. No window is longer than `MAX_WINDOW`, so to whoever reads such a row its
window is over: a `hit` begins the next one either way, and nothing is counted or given back.
-/

namespace Ziftbook

open Foundation

variable {κ : Type} [DecidableEq κ]

/-- What reads or writes the counters, at its transaction's `now()`. -/
inductive LimitUse (κ : Type)
  | hit (now window : ℤ) (keys : List κ)
  | refund (now window : ℤ) (keys : List κ)
  | count (now window : ℤ) (key : κ)
  | countAll (now window : ℤ) (keys : List κ)

def LimitUse.now : LimitUse κ → ℤ
  | .hit now _ _ => now
  | .refund now _ _ => now
  | .count now _ _ => now
  | .countAll now _ _ => now

def LimitUse.window : LimitUse κ → ℤ
  | .hit _ window _ => window
  | .refund _ window _ => window
  | .count _ window _ => window
  | .countAll _ window _ => window

/-- `COUNT`: the row's hits in a window that runs. -/
def Counter.running (window now : ℤ) : Option Counter → ℕ
  | some c => if c.running window now then c.hits else 0
  | none => 0

/-- The rows after, with the hits answered. -/
def LimitUse.act (rows : κ → Option Counter) : LimitUse κ → (κ → Option Counter) × List ℕ
  | .hit now window keys =>
      (fun k => if k ∈ keys then some (Counter.hit window now (rows k)) else rows k,
        keys.map fun k => (Counter.hit window now (rows k)).hits)
  | .refund now window keys =>
      (fun k => if k ∈ keys then (rows k).map (Counter.giveBack window now) else rows k, [])
  | .count now window key => (rows, [Counter.running window now (rows key)])
  | .countAll now window keys =>
      (rows, [(keys.map fun k => Counter.running window now (rows k)).sum])

/-- `_check` has passed. -/
def limitReaders (κ : Type) [DecidableEq κ] : Readers κ Counter (LimitUse κ) (List ℕ) where
  act := LimitUse.act
  now := LimitUse.now
  fits := fun _ e => e.window ≤ maxWindow

/-- To whoever reads then, the window is over. -/
def Counter.gone (now : ℤ) (c : Counter) : Prop := c.windowStart ≤ now - maxWindow

instance Counter.decidableGone (now : ℤ) (c : Counter) : Decidable (Counter.gone now c) :=
  inferInstanceAs (Decidable (_ ≤ _))

/-- A purge at `now`, of the stale rows it meets. -/
def purgeAt (now : ℤ) (keys : List κ) : SweptEvent κ Counter (LimitUse κ) :=
  .sweep (now - limitsMargin) fun k c => k ∈ keys ∧ Counter.stale now c

theorem Counter.gone_of_stale {now : ℤ} {c : Counter} (h : Counter.stale now c) :
    Counter.gone (now - limitsMargin) c := by
  unfold Counter.stale at h
  unfold Counter.gone
  omega

/-- The event deletes what `PURGE` does. -/
theorem purgeAt_rows (table : RateLimits κ) (now : ℤ) (keys : List κ) (k : κ) :
    (table.rows k).filter (fun c => ¬ ((decide (k ∈ keys ∧ Counter.stale now c)) = true ∧
      Counter.gone (now - limitsMargin) c)) = (table.purge now keys).rows k := by
  refine congrArg (fun p => (table.rows k).filter p) (funext fun c => ?_)
  by_cases hstale : Counter.stale now c
  · have := Counter.gone_of_stale hstale
    simp_all [Counter.stale]
  · have : ¬ c.windowStart < now - (maxWindow + limitsMargin) := hstale
    simp [hstale, this]

theorem not_running_of_gone {window now : ℤ} {c : Counter} (h : Counter.gone now c)
    (hwindow : window ≤ maxWindow) : ¬ c.running window now := by
  unfold Counter.gone at h
  unfold Foundation.Counter.running
  omega

section gone

variable {window now : ℤ} {c : Counter} (h : Counter.gone now c) (hwindow : window ≤ maxWindow)
include h hwindow

theorem hit_of_gone : Counter.hit window now (some c) = Counter.hit window now none :=
  if_neg (not_running_of_gone h hwindow)

theorem giveBack_of_gone : Counter.giveBack window now c = c :=
  if_neg fun hc => not_running_of_gone h hwindow hc.1

theorem running_of_gone : Counter.running window now (some c) = Counter.running window now none :=
  if_neg (not_running_of_gone h hwindow)

end gone

theorem gone_mono (n m : ℤ) (c : Counter) (hle : n ≤ m) (h : Counter.gone n c) :
    Counter.gone m c := by
  unfold Counter.gone at *
  omega

omit [DecidableEq κ] in
/-- Where the tables differ, the row's window is over to the reader. -/
theorem read_thinned {horizon now window : ℤ} {swept full : κ → Option Counter}
    (h : Thinned Counter.gone horizon swept full) (hnow : horizon ≤ now)
    (hwindow : window ≤ maxWindow) (k : κ) :
    Counter.hit window now (swept k) = Counter.hit window now (full k) ∧
      Counter.running window now (swept k) = Counter.running window now (full k) := by
  rcases h k with hk | ⟨hk, hover⟩
  · rw [hk]
    exact ⟨rfl, rfl⟩
  · cases hfull : full k with
    | none => rw [hk]; exact ⟨rfl, rfl⟩
    | some c =>
        have hc := gone_mono _ _ c hnow (hover c hfull)
        rw [hk]
        exact ⟨(hit_of_gone hc hwindow).symm, (running_of_gone hc hwindow).symm⟩

theorem limitReaders_blind : (limitReaders κ).Blind Counter.gone := by
  intro horizon swept full e h hwindow hnow
  cases e with
  | hit now window keys =>
      change window ≤ maxWindow at hwindow
      change horizon ≤ now at hnow
      have hread := fun k => (read_thinned h hnow hwindow k).1
      simp only [limitReaders, LimitUse.act]
      refine ⟨List.map_congr_left fun k _ => by rw [hread k], fun k => ?_⟩
      beta_reduce
      by_cases hk : k ∈ keys
      · exact .inl (by rw [if_pos hk, if_pos hk, hread k])
      · rw [if_neg hk, if_neg hk]
        exact h k
  | refund now window keys =>
      change window ≤ maxWindow at hwindow
      change horizon ≤ now at hnow
      refine ⟨rfl, ?_⟩
      refine Thinned.map
        (f := fun k c => if k ∈ keys then c.map (Counter.giveBack window now) else c)
        h fun k c _ _ hgone => .inr ?_
      have hc := gone_mono _ _ c hnow hgone
      split_ifs
      · refine ⟨rfl, fun y hy => ?_⟩
        rw [Option.map_some, giveBack_of_gone hc hwindow, Option.mem_some_iff] at hy
        exact hy ▸ hgone
      · exact ⟨rfl, fun y hy => Option.mem_some_iff.mp hy ▸ hgone⟩
  | count now window key =>
      exact ⟨congrArg (fun n => [n]) (read_thinned h hnow hwindow key).2, h⟩
  | countAll now window keys =>
      change window ≤ maxWindow at hwindow
      change horizon ≤ now at hnow
      have hread := fun k => (read_thinned h hnow hwindow k).2
      refine ⟨?_, h⟩
      show [(keys.map fun k => Counter.running window now (swept k)).sum] =
        [(keys.map fun k => Counter.running window now (full k)).sum]
      rw [List.map_congr_left fun k _ => hread k]

/-! ## § With the purges, and without -/

/-- The limiter's uses and its purges, in the order they take effect. -/
inductive LimitEvent (κ : Type)
  | use (e : LimitUse κ)
  /-- `PURGE` or the worker's sweep, at its `now()`, of the rows it meets. -/
  | purge (now : ℤ) (keys : List κ)

def LimitEvent.use? : LimitEvent κ → Option (LimitUse κ)
  | .use e => some e
  | .purge _ _ => none

/-- No transaction begins more than `MARGIN` before a purge that it runs after. -/
def LimitEvent.inMargin (a b : LimitEvent κ) : Prop :=
  match a, b with
  | .purge now _, .use e => now - limitsMargin ≤ e.now
  | _, _ => True

instance LimitEvent.decidableInMargin (a b : LimitEvent κ) : Decidable (a.inMargin b) := by
  unfold LimitEvent.inMargin
  split <;> infer_instance

/-- What the uses are answered. -/
def limitAnswers : RateLimits κ → List (LimitEvent κ) → List (List ℕ)
  | _, [] => []
  | table, .use e :: es =>
      (e.act table.rows).2 :: limitAnswers ⟨(e.act table.rows).1, table.opened⟩ es
  | table, .purge now keys :: es => limitAnswers (table.purge now keys) es

def LimitEvent.swept : LimitEvent κ → SweptEvent κ Counter (LimitUse κ)
  | .use e => .act e
  | .purge now keys => purgeAt now keys

theorem limitAnswers_eq (es : List (LimitEvent κ)) : ∀ table : RateLimits κ,
    limitAnswers table es =
      answers Counter.gone (limitReaders κ) table.rows (es.map LimitEvent.swept) := by
  induction es with
  | nil => intro table; rfl
  | cons e es ih =>
      intro table
      cases e with
      | use e => exact congrArg _ (ih _)
      | purge now keys =>
          rw [limitAnswers, ih, List.map_cons, LimitEvent.swept, purgeAt, answers]
          congr 1
          exact funext fun k => (purgeAt_rows table now keys k).symm

theorem limitAnswers_uses (uses : List (LimitUse κ)) : ∀ table : RateLimits κ,
    limitAnswers table (uses.map .use) = unswept (limitReaders κ) table.rows uses := by
  induction uses with
  | nil => intro table; rfl
  | cons e uses ih => intro table; exact congrArg _ (ih _)

theorem read_swept (e : LimitEvent κ) : e.swept.read? = e.use? := by
  cases e <;> rfl

/-- **Purges change no count.** Whatever rows the purges and sweeps of any workers delete,
and whenever, each `hit`, `refund` and `count` is answered as if nothing were ever deleted,
as long as its transaction began within `MARGIN` of the deletions before it. -/
theorem purges_unnoticed {table : RateLimits κ} {es : List (LimitEvent κ)}
    (hwindows : ∀ e, .use e ∈ es → e.window ≤ maxWindow)
    (hmargin : es.Pairwise LimitEvent.inMargin) :
    limitAnswers table es = limitAnswers table ((es.filterMap LimitEvent.use?).map .use) := by
  have huses : (es.map LimitEvent.swept).filterMap SweptEvent.read? =
      es.filterMap LimitEvent.use? := by
    rw [List.filterMap_map]
    exact List.filterMap_congr fun e _ => read_swept e
  have hprompt : (es.map LimitEvent.swept).Pairwise (Prompt (limitReaders κ)) := by
    rw [List.pairwise_map]
    refine hmargin.imp fun {a b} hab => ?_
    cases a <;> cases b <;> trivial
  have hfits : ∀ (uses : List (LimitUse κ)) (rows : κ → Option Counter),
      (∀ e ∈ uses, e.window ≤ maxWindow) → Fitting (limitReaders κ) rows uses := by
    intro uses
    induction uses with
    | nil => intros; trivial
    | cons e uses ih =>
        intro rows h
        exact ⟨h e (List.mem_cons_self ..), ih _ fun e' he' => h e' (List.mem_cons_of_mem _ he')⟩
  rw [limitAnswers_eq, limitAnswers_uses, ← huses]
  refine answers_eq_unswept gone_mono limitReaders_blind hprompt (hfits _ _ fun e he => ?_)
  rw [huses] at he
  obtain ⟨a, ha, hae⟩ := List.mem_filterMap.mp he
  cases a with
  | use e' =>
      obtain rfl : e' = e := Option.some.inj hae
      exact hwindows e' ha
  | purge now keys => cases hae

/-- A key counted, its row purged a day and an hour later, and counted again. -/
def quietSpell : List (LimitEvent ℕ) :=
  [.use (.hit 0 minute [1]), .use (.hit 0 maxWindow [2]), .purge (26 * 60 * minute) [1, 2],
    .use (.count (26 * 60 * minute) maxWindow 2), .use (.hit (26 * 60 * minute) minute [1])]

theorem purges_unnoticed_quietSpell :
    limitAnswers Windows.empty quietSpell =
      limitAnswers Windows.empty ((quietSpell.filterMap LimitEvent.use?).map .use) :=
  purges_unnoticed (by
    intro e he
    simp only [quietSpell, List.mem_cons, LimitEvent.use.injEq, reduceCtorEq, List.not_mem_nil,
      or_false, false_or] at he
    rcases he with rfl | rfl | rfl | rfl <;> decide) (by decide)

end Ziftbook
