import Ziftbook.Limits.Phases

/-!
# The limiter never deadlocks

Whoever waits for a key holds only keys before it; a caller's own transaction waits for
its business, holding nothing, or for keys nobody else holds for long. So of the
transactions that run one can always go on, and each step leaves less to do.
-/

namespace Ziftbook

open Foundation Foundation.Runs

variable {κ τ : Type} [LinearOrder κ] [DecidableEq τ] {collation : Collation κ}
  {owner : κ → Option τ} {r r' : Rows (Lockable κ τ) Counter} {t u : ℕ} {now : ℤ}
  {x x' y : LimitTxn κ τ} {scan : List κ} {s s' : LimitsDb κ τ}

/-! ## § What is waited for -/

/-- The row the transaction asks for next. A purge asks for none: it skips what is held. -/
def LimitTxn.want (x : LimitTxn κ τ) (r : Rows (Lockable κ τ) Counter) (t : ℕ) :
    Option (Lockable κ τ) :=
  match x.todo with
  | .latch tenant :: _ => some (.tenant tenant)
  | .count _ k :: _ => some (.key k)
  | .take k :: _ => if (r.seen t (.key k)).isSome then some (.key k) else none
  | .giveBack _ k :: _ => if (r.seen t (.key k)).isSome then some (.key k) else none
  | _ => none

/-- A business before every key, and the keys in their order. -/
def Lockable.rank : Lockable κ τ → WithBot κ
  | .key k => k
  | .tenant _ => ⊥

/-- What a waiting transaction wants, with what it may hold. -/
inductive Wanting (owner : κ → Option τ) (r : Rows (Lockable κ τ) Counter) (t : ℕ) :
    Lockable κ τ → Prop
  | shared (k : κ) : owner k = none →
      HoldsOnly r t (fun x => ∃ k', owner k' = none ∧ k' < k ∧ x = .key k') →
      Wanting owner r t (.key k)
  /-- A refund writes a row it has locked. -/
  | own (k : κ) : r.Holds t (.key k) .exclusive → Wanting owner r t (.key k)
  | latch (tenant : τ) : HoldsOnly r t (fun _ => False) → Wanting owner r t (.tenant tenant)
  | within (k : κ) (tenant : τ) : owner k = some tenant →
      r.Holds t (.tenant tenant) .exclusive →
      HoldsOnly r t (fun x => x = .tenant tenant ∨ ∃ k, owner k = some tenant ∧ x = .key k) →
      Wanting owner r t (.key k)

/-- Sorted keys: those counted come before the next. -/
theorem lt_of_sort_eq {keys done pending : List κ} {k k' : κ}
    (h : sortedKeys keys = done ++ k :: pending) (hk' : k' ∈ done) : k' < k := by
  have hsorted : (done ++ k :: pending).Pairwise (· < ·) := h ▸ pairwise_sortedKeys
  exact (List.pairwise_append.mp hsorted).2.2 k' hk' k (List.mem_cons_self ..)

omit [DecidableEq τ] in
theorem holdsOnly_shared {keys done pending : List κ} {k : κ}
    (howner : ∀ k ∈ keys, owner k = none) (hsplit : sortedKeys keys = done ++ k :: pending)
    (honly : HoldsOnly r t fun x => ∃ k ∈ done, x = .key k) :
    HoldsOnly r t fun x => ∃ k', owner k' = none ∧ k' < k ∧ x = .key k' := by
  refine honly.mono ?_
  rintro _ ⟨k', hk', rfl⟩
  exact ⟨k', howner k' ((mem_of_sort_eq hsplit).mpr (.inl hk')), lt_of_sort_eq hsplit hk', rfl⟩

theorem LimitsDb.At.wanting (h : LimitsDb.At collation owner r t x) {w : Lockable κ τ}
    (hwant : x.want r t = some w) : Wanting owner r t w := by
  obtain ⟨hfits, hphase, -⟩ := h
  obtain ⟨now, call, todo, done, answers⟩ := x
  simp only at hfits hphase
  cases hphase with
  | counting done pending hsplit honly =>
      cases pending with
      | nil => cases hwant
      | cons k pending =>
          cases hwant
          exact .shared k (hfits k ((mem_of_sort_eq hsplit).mpr (.inr (by simp))))
            (holdsOnly_shared hfits hsplit honly)
  | taking done pending hsplit honly hkeys =>
      cases pending with
      | nil => cases hwant
      | cons k pending =>
          simp only [LimitTxn.want, List.map_cons, List.cons_append] at hwant
          split_ifs at hwant
          cases hwant
          exact .shared k (hfits.1 k ((mem_of_sort_eq hsplit).mpr (.inr (by simp))))
            (holdsOnly_shared hfits.1 hsplit honly)
  | givingBack done pending hkeys hmem hnodup hspared =>
      cases pending with
      | nil => cases hwant
      | cons k pending =>
          simp only [LimitTxn.want, List.map_cons] at hwant
          split_ifs at hwant
          cases hwant
          exact .own k (hkeys k (mem_sortedKeys.mpr (hmem k (by simp))))
  | latching honly =>
      cases hwant
      exact .latch _ honly
  | @within tenant hits done pending hsplit htenant honly =>
      cases pending with
      | nil => cases hwant
      | cons c pending =>
          cases hwant
          have hmem : c ∈ hits.flatMap countsOf := by simp [hsplit]
          obtain ⟨hit, hhit, hc⟩ := List.mem_flatMap.mp hmem
          obtain ⟨k, hk, rfl⟩ := List.mem_map.mp hc
          exact .within k tenant (hfits hit hhit k (mem_sortedKeys.mp hk)) htenant honly
  | _ => cases hwant

omit [DecidableEq τ] in
/-- **Whoever is in the way, and waits too, waits for more.** -/
theorem Wanting.rank_lt {w w' : Lockable κ τ} {st : Strength} (h : Wanting owner r t w)
    (h' : Wanting owner r u w') (hholds : r.Holds u w st) (hne : u ≠ t)
    (hfree : ¬ r.Free u w' .exclusive) : w.rank < w'.rank := by
  cases h' with
  | own k' hown => exact absurd (Rows.free_of_holds hown) hfree
  | latch tenant honly => exact (honly w st hholds).elim
  | shared k' howner' honly' =>
      obtain ⟨k, howner, hlt, rfl⟩ := honly' w st hholds
      exact WithBot.coe_lt_coe.mpr hlt
  | within k' tenant howner' htenant' honly' =>
      rcases honly' w st hholds with rfl | ⟨k, howner, rfl⟩
      · exact WithBot.bot_lt_coe k'
      · cases h with
        | shared _ hnone => rw [howner] at hnone; cases hnone
        | own _ hown => exact absurd (Rows.eq_of_holds hown hholds) hne
        | within _ tenant' howner' htenant =>
            -- both would hold the business
            rw [howner, Option.some.injEq] at howner'
            rw [howner'] at htenant'
            exact absurd (Rows.eq_of_holds htenant htenant') hne

/-! ## § One can go on -/

/-- A transaction that does not wait has a next step. -/
theorem exec_of_not_waiting (collation : Collation κ)
    (hfree : ∀ w, x.want r t = some w → r.Free t w .exclusive)
    (htodo : x.todo ≠ []) : ∃ scan, (x.exec collation r t scan).isSome := by
  obtain ⟨now, call, todo, done, answers⟩ := x
  simp only [LimitTxn.want] at hfree
  rcases todo with _ | ⟨_ | _ | _ | _ | k | ⟨window, keys⟩ | ⟨window, k⟩, rest⟩
  · exact absurd rfl htodo
  · exact ⟨[], by simpa [LimitTxn.exec, Rows.isSome_lock] using hfree _ rfl⟩
  · refine ⟨[], ?_⟩
    simpa [LimitTxn.exec, LimitTxn.carryOut, Rows.isSome_write, RowDone.effect] using hfree _ rfl
  · exact ⟨[], rfl⟩
  · exact ⟨[], rfl⟩
  · refine ⟨[], ?_⟩
    simp only [LimitTxn.exec]
    split_ifs with hrow
    · simp only [if_pos hrow] at hfree
      simpa [Rows.isSome_lock] using hfree _ rfl
    · rfl
  · -- the rows in any order will do
    refine ⟨keys.filter fun k => ∃ c ∈ r.seen t (.key k), Counter.refundable window now c, ?_⟩
    simp [LimitTxn.exec]
  · refine ⟨[], ?_⟩
    simp only [LimitTxn.exec]
    split_ifs with hrow
    · simp only [if_pos hrow] at hfree
      simpa [LimitTxn.carryOut, Rows.isSome_write, RowDone.effect] using hfree _ rfl
    · rfl

namespace LimitsDb

/-- The row a running transaction asks for next. -/
def want (s : LimitsDb κ τ) (t : ℕ) : Option (Lockable κ τ) :=
  (s.running t).bind fun x => x.want s.rows t

theorem isSome_go (hx : s.running t = some x) :
    (s.step collation (.go t scan)).isSome ↔
      x.todo = [] ∨ (x.exec collation s.rows t scan).isSome := by
  simp only [step]
  split
  · rename_i hnone
    rw [hnone] at hx
    cases hx
  · rename_i x' hx'
    rw [hx, Option.some.injEq] at hx'
    subst hx'
    split_ifs with htodo
    · simp [htodo]
    · simp [htodo]

/-- Among the transactions that run, one does not wait. -/
theorem Sound.exists_not_waiting (h : s.Sound collation owner)
    (hrunning : ∃ t, (s.running t).isSome) :
    ∃ t x, s.running t = some x ∧ ∀ w, x.want s.rows t = some w → s.rows.Free t w .exclusive := by
  obtain ⟨t₀, ht₀⟩ := hrunning
  let running := (Finset.range s.next).filter fun t => (s.running t).isSome
  have hmem : ∀ t, t ∈ running ↔ (s.running t).isSome := fun t => by
    simp only [running, Finset.mem_filter, Finset.mem_range]
    refine ⟨fun h => h.2, fun h => ⟨?_, h⟩⟩
    obtain ⟨x, hx⟩ := Option.isSome_iff_exists.mp h
    exact s.lt_next hx
  have hwanting : ∀ t w, s.want t = some w → Wanting owner s.rows t w := by
    intro t w hw
    obtain ⟨x, hx, hw⟩ := Option.bind_eq_some_iff.mp hw
    exact (h.txns t x hx).wanting hw
  have hne : running.Nonempty := ⟨t₀, (hmem t₀).mpr ht₀⟩
  obtain ⟨t, ht, hfree⟩ := Rows.exists_not_waiting hne
    (fun y hy => (hmem _).mpr (Option.isSome_iff_exists.mpr (h.held y hy)))
    (fun t u w w' st hw hholds hne hw' hfree =>
      (hwanting t w hw).rank_lt (hwanting u w' hw') hholds hne hfree)
  obtain ⟨x, hx⟩ := Option.isSome_iff_exists.mp ((hmem t).mp ht)
  refine ⟨t, x, hx, fun w hw => ?_⟩
  by_contra hnot
  exact hfree ⟨w, by rw [want, hx]; exact hw, hnot⟩

theorem Sound.go (h : s.Sound collation owner) (hrunning : ∃ t, (s.running t).isSome) :
    ∃ t scan, (s.step collation (.go t scan)).isSome := by
  obtain ⟨t, x, hx, hfree⟩ := h.exists_not_waiting hrunning
  by_cases htodo : x.todo = []
  · exact ⟨t, [], (isSome_go hx).mpr (.inl htodo)⟩
  · obtain ⟨scan, hscan⟩ := exec_of_not_waiting collation hfree htodo
    exact ⟨t, scan, (isSome_go hx).mpr (.inr hscan)⟩

end LimitsDb

/-! ## § Each step leaves less -/

/-- How many steps a row's step may be. -/
def RowStep.work : RowStep κ τ → ℕ
  | .purge left => left + 1
  | .find keys => keys.length + 1
  | .update _ keys => keys.length + 1
  | _ => 1

/-- At most so many steps until the transaction has ended. -/
def LimitTxn.work (x : LimitTxn κ τ) : ℕ := (x.todo.map RowStep.work).sum + 1

theorem carryOut_todo {d : RowDone κ} {rest : List (RowStep κ τ)}
    (h : x.carryOut r t d rest = some (r', x')) : x'.todo = rest := by
  obtain ⟨r'', -, heq⟩ := Option.map_eq_some_iff.mp h
  cases heq
  rfl

omit [LinearOrder κ] [DecidableEq τ] in
theorem sum_work_map {f : κ → RowStep κ τ} (hf : ∀ k, (f k).work = 1) (keys : List κ) :
    ((keys.map f).map RowStep.work).sum = keys.length := by
  simp [List.map_map, Function.comp_def, hf]

theorem exec_work (h : x.exec collation r t scan = some (r', x')) : x'.work < x.work := by
  obtain ⟨now, call, todo, done, answers⟩ := x
  simp only [LimitTxn.exec] at h
  unfold LimitTxn.work
  rcases todo with _ | ⟨tenant | ⟨window, k⟩ | left | keys | k | ⟨window, keys⟩ | ⟨window, k⟩, rest⟩
  · cases h
  · obtain ⟨r'', -, heq⟩ := Option.map_eq_some_iff.mp h
    cases heq
    simp [RowStep.work]
  · simp [carryOut_todo h, RowStep.work]
  · rcases scan with _ | ⟨k, scan⟩
    · cases h
      simp [RowStep.work]
    · simp only at h
      split_ifs at h with hleft
      have := hleft.1
      simp only [carryOut_todo h, List.map_cons, List.sum_cons, RowStep.work]
      omega
  · cases h
    set found := keys.filter fun k => (r.seen t (.key k)).isSome
    have hlen : (collation.sort found).length ≤ keys.length := by
      rw [(collation.perm found).length_eq]
      exact List.length_filter_le _ _
    have hsum := @sum_work_map κ τ .take (fun _ => rfl) (collation.sort found)
    simp only [List.map_append, List.sum_append, List.map_cons, List.sum_cons, RowStep.work, hsum]
    omega
  · simp only at h
    split_ifs at h
    · obtain ⟨r'', -, heq⟩ := Option.map_eq_some_iff.mp h
      cases heq
      simp [RowStep.work]
    · cases h
      simp [RowStep.work]
  · simp only at h
    split_ifs at h with hscan
    cases h
    have hlen : scan.length ≤ keys.length := by
      rw [hscan.length_eq]
      exact List.length_filter_le _ _
    have hsum := @sum_work_map κ τ (.giveBack window) (fun _ => rfl) scan
    simp only [List.map_append, List.sum_append, List.map_cons, List.sum_cons, RowStep.work, hsum]
    omega
  · simp only at h
    split_ifs at h
    · simp [carryOut_todo h, RowStep.work]
    · cases h
      simp [RowStep.work]

namespace LimitsDb

/-- What all transactions have to do. -/
def work (s : LimitsDb κ τ) : ℕ :=
  ∑ t ∈ Finset.range s.next, (s.running t).elim 0 LimitTxn.work

omit [LinearOrder κ] [DecidableEq τ] in
/-- One transaction with less to do, and the others as they were. -/
theorem work_lt {y : Option (LimitTxn κ τ)} (hx : s.running t = some x)
    (hlt : y.elim 0 LimitTxn.work < x.work) (hrunning : s'.running = Function.update s.running t y)
    (hnext : s'.next = s.next) : s'.work < s.work := by
  have ht : t ∈ Finset.range s.next := Finset.mem_range.mpr (s.lt_next hx)
  rw [work, work, hnext, hrunning]
  refine Finset.sum_lt_sum (fun u _ => ?_) ⟨t, ht, ?_⟩
  · by_cases hut : u = t
    · subst hut
      rw [Function.update_self, hx]
      exact hlt.le
    · rw [Function.update_of_ne hut]
  · rw [Function.update_self, hx]
    exact hlt

theorem work_step {scan : List κ} (hstep : s.step collation (.go t scan) = some s') :
    s'.work < s.work := by
  cases stepped hstep with
  | exec t scan x x' hx hexec hrunning hnext hcommitted =>
      refine work_lt hx ?_ hrunning hnext
      exact exec_work hexec
  | commit t scan x hx htodo hrows hrunning hnext hcommitted =>
      refine work_lt hx ?_ hrunning hnext
      exact Nat.succ_pos _

theorem length_le_work {ms : List (ℕ × List κ)} :
    ∀ {s s' : LimitsDb κ τ}, run (step collation) s (ms.map fun m => .go m.1 m.2) = some s' →
      ms.length + s'.work ≤ s.work := by
  induction ms with
  | nil =>
      intro s s' hrun
      rw [List.map_nil, run_nil, Option.some.injEq] at hrun
      rw [hrun, List.length_nil, Nat.zero_add]
  | cons m ms ih =>
      intro s s' hrun
      obtain ⟨s₁, hstep, hrun⟩ := run_cons_eq_some.mp hrun
      have hrest := ih hrun
      have hless := work_step hstep
      rw [List.length_cons]
      omega

end LimitsDb

/-- **The limiter never deadlocks.** However the transactions of any callers interleave, as
long as one runs, one can take its next row or commit; and with no other one starting, all
have ended within the steps their rows are. -/
theorem limits_progress {table : RateLimits κ} {ms : List (LimitMove κ τ)}
    (hok : Along (LimitsDb.step collation) (LimitsDb.Usual collation owner)
      (LimitsDb.idle table) ms)
    (hrun : run (LimitsDb.step collation) (LimitsDb.idle table) ms = some s) :
    ((∃ t, (s.running t).isSome) → ∃ t scan, (s.step collation (.go t scan)).isSome) ∧
      ∀ (ns : List (ℕ × List κ)) (s' : LimitsDb κ τ),
        run (LimitsDb.step collation) s (ns.map fun n => .go n.1 n.2) = some s' →
          ns.length ≤ s.work :=
  ⟨(LimitsDb.sound_of_run hok hrun).go, fun _ _ hgoes =>
    le_trans (Nat.le_add_right _ _) (LimitsDb.length_le_work hgoes)⟩

/-- One key is a business's own. -/
def ownKey (k : ℕ) : Option Bool := if k = 7 then some true else none

/-- A `hit` commits; its refund and another `hit`, of the same keys named the other way
round, run beside a caller's transaction. The refund has taken its first key. -/
def crossing : List (LimitMove ℕ Bool) :=
  [.start 0 (.charge [2, 1] minute), .go 0 [], .go 0 [], .go 0 [], .go 0 [],
    .start 1 (.refund [2, 1] minute), .start 1 (.charge [1, 2] minute),
    .start 1 (.within true [([7], minute)]), .go 1 [], .go 1 [], .go 3 []]

theorem limits_progress_crossing :
    ∃ s, run (LimitsDb.step sortedCollation) (LimitsDb.idle Windows.empty) crossing = some s ∧
      s.step sortedCollation (.go 2 []) = none ∧
      ∃ t scan, (s.step sortedCollation (.go t scan)).isSome := by
  have hok : Along (LimitsDb.step sortedCollation) (LimitsDb.Usual sortedCollation ownKey)
      (LimitsDb.idle Windows.empty) crossing := by
    decide +kernel
  have hruns : (run (LimitsDb.step sortedCollation) (LimitsDb.idle Windows.empty) crossing).any
      (fun s => (s.step sortedCollation (.go 2 [])).isNone && (s.running 1).isSome) := by
    decide +kernel
  obtain ⟨s, hrun, hs⟩ := (Option.any_eq_true _ _).mp hruns
  rw [Bool.and_eq_true, Option.isNone_iff_eq_none] at hs
  exact ⟨s, hrun, hs.1, (limits_progress hok hrun).1 ⟨1, hs.2⟩⟩

end Ziftbook
