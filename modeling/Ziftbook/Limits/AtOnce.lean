import Ziftbook.Limits.Phases

/-!
# The limiter's calls happen at once

The rows a transaction writes are its own from the first to its commit. So the table, and
what every call was answered, is as if each committed transaction had run alone, at its
commit: a `hit` counts all its keys in one step, as the rest of the development has it.
-/

namespace Ziftbook

open Foundation Foundation.Runs

variable {κ τ : Type} [LinearOrder κ] [DecidableEq τ] {collation : Collation κ}
  {owner : κ → Option τ} {r : Rows (Lockable κ τ) Counter} {t : ℕ} {now window : ℤ}
  {x : LimitTxn κ τ} {keys : List κ} {table : RateLimits κ} {s s' : LimitsDb κ τ}
  {m : LimitMove κ τ}

/-! ## § One call alone -/

/-- What `hit` returns of the counts. -/
def RateLimits.counts (table : RateLimits κ) (keys : List κ) : List (κ × ℕ) :=
  keys.map fun k => (k, (table.last k).hits)

/-- The call on a table nobody else is on; `deleted` are the rows its purge met. -/
def LimitCall.atOnce (now : ℤ) (deleted : List κ) (table : RateLimits κ) :
    LimitCall κ τ → RateLimits κ × List (κ × ℕ)
  | .charge keys window =>
      let table' : RateLimits κ := table.hit window now (sortedKeys keys)
      (table'.purge now deleted, table'.counts (sortedKeys keys))
  | .refund keys window => (table.giveBack window now keys, [])
  | .sweep => (table.purge now deleted, [])
  | .within _ hits => hits.foldl (fun y h =>
      let table' : RateLimits κ := y.1.hit h.2 now (sortedKeys h.1)
      (table', y.2 ++ table'.counts (sortedKeys h.1))) (table, [])

def RowDone.deletes : RowDone κ → Option κ
  | .deleted k => some k
  | _ => none

/-- The rows the transaction deleted. -/
def LimitTxn.deleted (x : LimitTxn κ τ) : List κ := x.done.filterMap RowDone.deletes

/-- How many rows the call may delete. -/
def LimitCall.purges : LimitCall κ τ → ℕ
  | .charge _ _ => purgeLimit
  | .sweep => retentionBatch
  | _ => 0

/-- The transactions one after another, with what each answers. -/
def replay (table : RateLimits κ) (xs : List (LimitTxn κ τ)) :
    RateLimits κ × List (List (κ × ℕ)) :=
  xs.foldl (fun y x =>
    let z := x.call.atOnce x.now x.deleted y.1
    (z.1, y.2 ++ [z.2])) (table, [])

/-! ## § The effects of its rows -/

/-- A table's rows, among all that can be locked. -/
def rowsOf (τ : Type) (table : RateLimits κ) : Lockable κ τ → Option Counter
  | .key k => table.rows k
  | .tenant _ => none

omit [LinearOrder κ] [DecidableEq τ] in
theorem rowsOf_congr {table' : RateLimits κ} (h : ∀ k, table.rows k = table'.rows k) :
    rowsOf τ table = rowsOf τ table' := by
  funext y
  cases y with
  | key k => exact h k
  | tenant _ => rfl

/-- A row written, where one key's row differs. -/
theorem update_rowsOf {table' : RateLimits κ} {k : κ} {c : Option Counter}
    (hk : table'.rows k = c) (hother : ∀ k', k' ≠ k → table'.rows k' = table.rows k') :
    Function.update (rowsOf τ table) (.key k) c = rowsOf τ table' := by
  funext y
  by_cases hy : y = .key k
  · rw [hy, Function.update_self]
    exact hk.symm
  · rw [Function.update_of_ne hy]
    cases y with
    | key k' => exact (hother k' fun h => hy (by rw [h])).symm
    | tenant _ => rfl

theorem hit_rows {k : κ} : (table.hit window now keys).rows k =
    if k ∈ keys then some (Counter.hit window now (table.rows k)) else table.rows k := by
  simp only [Windows.hit]
  split_ifs with hk
  · cases table.rows k with
    | none => rfl
    | some c => simp only [Counter.hit]; split_ifs <;> rfl
  · rfl

/-- Distinct keys counted one by one are counted at once. -/
theorem serial_counted (hkeys : keys.Nodup) :
    serial (keys.map fun k => (RowDone.counted window k).effect τ now) (rowsOf τ table) =
      (rowsOf τ (table.hit window now keys),
        RateLimits.counts (table.hit window now keys) keys) := by
  induction keys using List.reverseRecOn with
  | nil => exact Prod.ext (rowsOf_congr fun k => by simp [hit_rows]) rfl
  | append_singleton keys k ih =>
      have hk : k ∉ keys := fun h =>
        List.disjoint_of_nodup_append hkeys h (List.mem_singleton_self k)
      have hlast : ∀ k' ∈ keys, ((table.hit window now (keys ++ [k])).last k').hits =
          ((table.hit window now keys).last k').hits := by
        intro k' hk'
        simp [Windows.last, hit_rows, hk']
      rw [List.map_append, List.map_singleton, serial_concat, ih hkeys.of_append_left]
      refine Prod.ext ?_ ?_
      · refine update_rowsOf ?_ fun k' hk' => ?_
        · simp [rowsOf, RowDone.effect, hit_rows, hk]
        · simp [hit_rows, hk']
      · simp only [Effect.apply, RowDone.effect, RateLimits.counts, List.map_append,
          List.map_singleton]
        congr 1
        · exact List.map_congr_left fun k' hk' => by rw [hlast k' hk']
        · simp [rowsOf, Windows.last, hit_rows, hk]

theorem purge_rows {k : κ} : (table.purge now keys).rows k =
    if k ∈ keys then (table.rows k).filter (fun c => ¬ Counter.stale now c) else table.rows k := by
  simp only [RateLimits.purge, Windows.delete]
  split_ifs with hk
  · simp [hk, Counter.stale]
  · cases table.rows k <;> simp [hk, Option.filter]

theorem serial_deleted :
    serial (keys.map fun k => (RowDone.deleted k).effect τ now) (rowsOf τ table) =
      (rowsOf τ (table.purge now keys), []) := by
  induction keys using List.reverseRecOn with
  | nil => exact Prod.ext (rowsOf_congr fun k => by simp [purge_rows]) rfl
  | append_singleton keys k ih =>
      rw [List.map_append, List.map_singleton, serial_concat, ih]
      refine Prod.ext (update_rowsOf ?_ fun k' hk' => ?_) rfl
      · simp only [rowsOf, RowDone.effect, purge_rows, List.mem_append, List.mem_singleton, or_true,
          if_true]
        split_ifs
        · simp [Option.filter_filter]
        · rfl
      · simp [purge_rows, hk']

theorem giveBack_rows {k : κ} : (table.giveBack window now keys).rows k =
    if k ∈ keys then (table.rows k).map (Counter.giveBack window now) else table.rows k := rfl

theorem serial_gaveBack (hkeys : keys.Nodup) :
    serial (keys.map fun k => (RowDone.gaveBack window k).effect τ now) (rowsOf τ table) =
      (rowsOf τ (table.giveBack window now keys), []) := by
  induction keys using List.reverseRecOn with
  | nil => exact Prod.ext (rowsOf_congr fun k => by simp [giveBack_rows]) rfl
  | append_singleton keys k ih =>
      have hk : k ∉ keys := fun h =>
        List.disjoint_of_nodup_append hkeys h (List.mem_singleton_self k)
      rw [List.map_append, List.map_singleton, serial_concat, ih hkeys.of_append_left]
      refine Prod.ext (update_rowsOf ?_ fun k' hk' => ?_) rfl
      · simp [rowsOf, RowDone.effect, giveBack_rows, hk]
      · simp [giveBack_rows, hk']

omit [DecidableEq τ] in
/-- The keys whose rows are spared may be left out. -/
theorem giveBack_of_spared {done : List κ} (hsub : ∀ k ∈ done, k ∈ keys)
    (hspared : ∀ k ∈ keys, k ∉ done →
      ∀ c ∈ table.rows k, ¬ Counter.refundable window now c) :
    rowsOf τ (table.giveBack window now done) = rowsOf τ (table.giveBack window now keys) := by
  refine rowsOf_congr fun k => ?_
  rw [giveBack_rows, giveBack_rows]
  by_cases hdone : k ∈ done
  · rw [if_pos hdone, if_pos (hsub k hdone)]
  · rw [if_neg hdone]
    split_ifs with hk
    · cases hrow : table.rows k with
      | none => rfl
      | some c => exact congrArg some (if_neg (hspared k hk hdone c hrow)).symm
    · rfl

/-- A caller's `hit`s, each on what the ones before left. -/
theorem serial_within (hits : List (List κ × ℤ)) :
    serial ((hits.flatMap countsOf).map fun c => (RowDone.counted c.1 c.2).effect τ now)
        (rowsOf τ table) =
      let y := hits.foldl (fun y h =>
        let table' : RateLimits κ := y.1.hit h.2 now (sortedKeys h.1)
        (table', y.2 ++ table'.counts (sortedKeys h.1))) (table, ([] : List (κ × ℕ)))
      (rowsOf τ y.1, y.2) := by
  induction hits using List.reverseRecOn with
  | nil => rfl
  | append_singleton hits h ih =>
      have hone : (countsOf h).map (fun c => (RowDone.counted c.1 c.2).effect τ now) =
          (sortedKeys h.1).map fun k => (RowDone.counted h.2 k).effect τ now := by
        simp [countsOf, List.map_map, Function.comp_def]
      rw [List.flatMap_append, List.map_append, serial_append, ih, List.foldl_append,
        List.flatMap_singleton, hone]
      simp only [serial_counted nodup_sortedKeys, List.foldl_cons, List.foldl_nil]

/-- **A finished transaction's rows are its call, at once.** -/
theorem Phase.atOnce (h : Phase owner r t x.now x.call x.todo x.done) (htodo : x.todo = [])
    (htable : r.committed = rowsOf τ table) :
    serial x.effects r.committed =
        (rowsOf τ (x.call.atOnce x.now x.deleted table).1,
          (x.call.atOnce x.now x.deleted table).2) ∧
      x.deleted.length ≤ x.call.purges := by
  obtain ⟨now, call, todo, done, answers⟩ := x
  simp only at h htodo
  subst htodo
  rw [htable]
  simp only [LimitTxn.effects, LimitTxn.deleted]
  generalize htodo : ([] : List (RowStep κ τ)) = todo at h
  cases h with
  | @charged keys window deleted hlen =>
      have hdeleted : ((sortedKeys keys).map (RowDone.counted window) ++
          deleted.map RowDone.deleted).filterMap RowDone.deletes = deleted := by
        simp [List.filterMap_map, Function.comp_def, RowDone.deletes]
      rw [hdeleted, List.map_append, List.map_map, List.map_map, serial_append]
      refine ⟨?_, hlen⟩
      simp only [Function.comp_def, serial_counted nodup_sortedKeys, serial_deleted,
        LimitCall.atOnce, List.append_nil]
  | @givingBack keys window done pending hkeys hmem hnodup hspared =>
      obtain rfl : pending = [] := by simpa using htodo.symm
      rw [List.append_nil] at hmem hnodup hspared
      have hdeleted : (done.map (RowDone.gaveBack window)).filterMap RowDone.deletes = [] := by
        simp [List.filterMap_map, Function.comp_def, RowDone.deletes]
      rw [hdeleted, List.map_map]
      refine ⟨?_, le_rfl⟩
      have hspared' : ∀ k ∈ keys, k ∉ done →
          ∀ c ∈ table.rows k, ¬ Counter.refundable window now c := by
        intro k hk hnot
        have := hspared k hk hnot
        rwa [Spared, htable] at this
      simp only [Function.comp_def, serial_gaveBack hnodup, LimitCall.atOnce,
        giveBack_of_spared hmem hspared']
  | swept deleted hlen =>
      have hdeleted : (deleted.map RowDone.deleted).filterMap RowDone.deletes = deleted := by
        simp [List.filterMap_map, Function.comp_def, RowDone.deletes]
      rw [hdeleted, List.map_map]
      refine ⟨?_, hlen⟩
      simp only [Function.comp_def, serial_deleted, LimitCall.atOnce]
  | @within tenant hits done pending hsplit htenant honly =>
      obtain rfl : pending = [] := by simpa using htodo.symm
      rw [List.append_nil] at hsplit
      subst hsplit
      have hdeleted : ((hits.flatMap countsOf).map fun c => RowDone.counted c.1 c.2).filterMap
          RowDone.deletes = [] := by
        rw [List.filterMap_map]
        exact List.filterMap_eq_nil_iff.mpr fun _ _ => rfl
      rw [hdeleted, List.map_map]
      exact ⟨serial_within hits, le_rfl⟩
  | _ => simp at htodo

/-! ## § All calls, in the order of their commits -/

omit [DecidableEq τ] in
theorem replay_append (xs : List (LimitTxn κ τ)) :
    replay table (xs ++ [x]) =
      ((x.call.atOnce x.now x.deleted (replay table xs).1).1,
        (replay table xs).2 ++ [(x.call.atOnce x.now x.deleted (replay table xs).1).2]) := by
  simp [replay, List.foldl_append]

namespace LimitsDb

/-- What is committed is the replay of what has committed. -/
structure Replays (table : RateLimits κ) (s : LimitsDb κ τ) : Prop where
  rows : s.rows.committed = rowsOf τ (replay table s.committed).1
  answers : s.committed.map LimitTxn.answers = (replay table s.committed).2
  purged : ∀ x ∈ s.committed, x.deleted.length ≤ x.call.purges

omit [DecidableEq τ] in
theorem Replays.congr (h : s.Replays table) (hrows : s'.rows.committed = s.rows.committed)
    (hcommitted : s'.committed = s.committed) : s'.Replays table := by
  refine ⟨?_, ?_, ?_⟩
  · rw [hrows, hcommitted]
    exact h.rows
  · rw [hcommitted]
    exact h.answers
  · rw [hcommitted]
    exact h.purged

theorem Replays.step (h : s.Replays table) (hsound : s.Sound collation owner)
    (hok : s.Usual collation owner m) (hstep : s.step collation m = some s') :
    s'.Replays table := by
  cases stepped hstep with
  | start now call hchecked hrows hrunning hnext hcommitted =>
      exact h.congr (by rw [hrows]) hcommitted
  | exec t scan x x' hx hexec hrunning hnext hcommitted =>
      have hat := hsound.txns t x hx
      obtain ⟨-, -, hext, -, -⟩ :=
        hat.phase.exec hat.fits hat.follows (hok.1 t (s.lt_next hx) x hx) hexec
      exact h.congr hext.committed hcommitted
  | commit t scan x hx htodo hrows hrunning hnext hcommitted =>
      have hat := hsound.txns t x hx
      obtain ⟨hserial, hpurged⟩ := hat.phase.atOnce htodo h.rows
      have hcommit := hat.follows.commit.trans hserial
      rw [Prod.mk.injEq] at hcommit
      refine ⟨?_, ?_, ?_⟩
      · rw [hrows, hcommitted, replay_append]
        exact hcommit.1
      · rw [hcommitted, replay_append, List.map_append, h.answers, List.map_singleton, hcommit.2]
      · rw [hcommitted]
        intro y hy
        rcases List.mem_append.mp hy with hy | hy
        · exact h.purged y hy
        · rw [List.mem_singleton.mp hy]
          exact hpurged
  | abort t x hx hrows hrunning hnext hcommitted =>
      exact h.congr (by rw [hrows, Rows.rollback_committed]) hcommitted

end LimitsDb

/-- **The limiter's calls are atomic.** However their rows interleave, the table, and what
each call that committed was answered, is what the calls leave and answer one at a time, in
the order of their commits; a purge deletes no more rows than it may. -/
theorem limits_at_once {ms : List (LimitMove κ τ)}
    (hok : Along (LimitsDb.step collation) (LimitsDb.Usual collation owner)
      (LimitsDb.idle table) ms)
    (hrun : run (LimitsDb.step collation) (LimitsDb.idle table) ms = some s) :
    (∀ k, s.rows.committed (.key k) = (replay table s.committed).1.rows k) ∧
      s.committed.map LimitTxn.answers = (replay table s.committed).2 ∧
      ∀ x ∈ s.committed, x.deleted.length ≤ x.call.purges := by
  have hboth : s.Sound collation owner ∧ s.Replays table :=
    run_invariant (I := fun s => s.Sound collation owner ∧ s.Replays table)
      (fun _ _ _ h hok hstep => ⟨h.1.step hok hstep, h.2.step h.1 hok hstep⟩)
      ⟨LimitsDb.sound_idle table, rfl, rfl, fun _ hx => by cases hx⟩ hok hrun
  exact ⟨fun k => congrFun hboth.2.rows (.key k), hboth.2.answers, hboth.2.purged⟩

/-- Two `hit`s of the same keys, whose second waits from its first row to the other's
commit, and the refund of the first while the second has begun. -/
def overlappingHits : List (LimitMove ℕ Bool) :=
  [.start 0 (.charge [2, 1] minute), .start 0 (.charge [1, 2] minute), .go 0 [], .go 0 [],
    .go 0 [], .go 0 [], .start 1 (.refund [1, 2] minute), .go 1 [], .go 2 [], .go 1 [],
    .go 1 [], .go 1 [], .go 2 [], .go 2 [], .go 2 [1, 2], .go 2 [], .go 2 [], .go 2 []]

theorem limits_at_once_overlapping :
    ∃ s, run (LimitsDb.step sortedCollation) (LimitsDb.idle Windows.empty) overlappingHits =
        some s ∧
      s.rows.committed (.key 1) = (replay Windows.empty s.committed).1.rows 1 ∧
      (replay Windows.empty s.committed).2 = [[(1, 1), (2, 1)], [(1, 2), (2, 2)], []] := by
  have hok : Along (LimitsDb.step sortedCollation) (LimitsDb.Usual sortedCollation fun _ => none)
      (LimitsDb.idle Windows.empty) overlappingHits := by
    decide +kernel
  have hruns : (run (LimitsDb.step sortedCollation) (LimitsDb.idle Windows.empty)
      overlappingHits).any (fun s => s.committed.map LimitTxn.answers =
        [[(1, 1), (2, 1)], [(1, 2), (2, 2)], []]) := by
    decide +kernel
  obtain ⟨s, hrun, hs⟩ := (Option.any_eq_true _ _).mp hruns
  obtain ⟨hrows, hanswers, -⟩ := limits_at_once hok hrun
  exact ⟨s, hrun, hrows 1, hanswers.symm.trans (of_decide_eq_true hs)⟩

end Ziftbook
