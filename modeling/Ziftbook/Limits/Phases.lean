import Ziftbook.Limits.Transactions

/-!
# Where a transaction of the limiter is

What each has written and has still to do, with the rows it holds, kept by every step of
every transaction. A `hit` holds the keys it has counted, which come before the rest; a
`refund` has locked its keys before it writes one; a caller's own transaction holds its
business and keys of that business only.
-/

namespace Ziftbook

open Foundation Foundation.Runs

/-! ## § Sorted keys -/

section sorted

variable {κ : Type} [LinearOrder κ] {keys done pending : List κ} {k : κ}

theorem mem_sortedKeys : k ∈ sortedKeys keys ↔ k ∈ keys := by
  rw [sortedKeys, List.mem_insertionSort, List.mem_dedup]

theorem nodup_sortedKeys : (sortedKeys keys).Nodup :=
  (List.perm_insertionSort _ _).nodup_iff.mpr (List.nodup_dedup keys)

theorem pairwise_sortedKeys : (sortedKeys keys).Pairwise (· < ·) :=
  ((List.pairwise_insertionSort (· ≤ ·) keys.dedup).and nodup_sortedKeys).imp
    fun h => lt_of_le_of_ne h.1 h.2

theorem mem_of_sort_eq (h : sortedKeys keys = done ++ pending) :
    k ∈ keys ↔ k ∈ done ∨ k ∈ pending := by
  rw [← mem_sortedKeys, h, List.mem_append]

end sorted

/-! ## § Phases -/

variable {κ τ : Type} [LinearOrder κ] [DecidableEq τ]

/-- What the callers keep to: a key that a caller counts in its own transaction is of its
business, and nobody else's. A refund's keys sort alike in the database. -/
def LimitCall.Fits (collation : Collation κ) (owner : κ → Option τ) : LimitCall κ τ → Prop
  | .charge keys _ => ∀ k ∈ keys, owner k = none
  | .refund keys _ =>
      (∀ k ∈ keys, owner k = none) ∧ collation.sort (sortedKeys keys) = sortedKeys keys
  | .sweep => True
  | .within tenant hits => ∀ h ∈ hits, ∀ k ∈ h.1, owner k = some tenant

def LimitMove.Fits (collation : Collation κ) (owner : κ → Option τ) : LimitMove κ τ → Prop
  | .start _ call => call.Fits collation owner
  | _ => True

/-- A refund's keys have their rows. -/
def LimitCall.Found (r : Rows (Lockable κ τ) Counter) : LimitCall κ τ → Prop
  | .refund keys _ => ∀ k ∈ keys, (r.committed (.key k)).isSome
  | _ => True

/-- The rows a refund gives back to are there: it follows its `hit` within the hour that a
row outlives its window. -/
def LimitsDb.Kept (s : LimitsDb κ τ) : Prop :=
  ∀ t < s.next, ∀ x ∈ s.running t, x.call.Found s.rows

def LimitsDb.Usual (collation : Collation κ) (owner : κ → Option τ) (s : LimitsDb κ τ)
    (m : LimitMove κ τ) : Prop :=
  s.Kept ∧ m.Fits collation owner

instance (collation : Collation κ) (owner : κ → Option τ) :
    ∀ call : LimitCall κ τ, Decidable (call.Fits collation owner)
  | .charge keys _ => inferInstanceAs (Decidable (∀ k ∈ keys, owner k = none))
  | .refund _ _ => inferInstanceAs (Decidable (_ ∧ _))
  | .sweep => inferInstanceAs (Decidable True)
  | .within _ hits => inferInstanceAs (Decidable (∀ h ∈ hits, ∀ k ∈ h.1, _))

instance (r : Rows (Lockable κ τ) Counter) : ∀ call : LimitCall κ τ, Decidable (call.Found r)
  | .refund keys _ => inferInstanceAs (Decidable (∀ k ∈ keys, _))
  | .charge _ _ => inferInstanceAs (Decidable True)
  | .sweep => inferInstanceAs (Decidable True)
  | .within _ _ => inferInstanceAs (Decidable True)

instance (collation : Collation κ) (owner : κ → Option τ) :
    ∀ m : LimitMove κ τ, Decidable (m.Fits collation owner)
  | .start _ call => inferInstanceAs (Decidable (call.Fits collation owner))
  | .go _ _ => inferInstanceAs (Decidable True)
  | .abort _ => inferInstanceAs (Decidable True)

instance (s : LimitsDb κ τ) : Decidable s.Kept :=
  inferInstanceAs (Decidable (∀ t < s.next, ∀ x ∈ s.running t, x.call.Found s.rows))

instance (collation : Collation κ) (owner : κ → Option τ) (s : LimitsDb κ τ) (m : LimitMove κ τ) :
    Decidable (s.Usual collation owner m) :=
  inferInstanceAs (Decidable (_ ∧ _))

/-- It holds these and no others. -/
def HoldsOnly (r : Rows (Lockable κ τ) Counter) (t : ℕ) (p : Lockable κ τ → Prop) : Prop :=
  ∀ x s, r.Holds t x s → p x

def HoldsKeys (r : Rows (Lockable κ τ) Counter) (t : ℕ) (keys : List κ) : Prop :=
  ∀ k ∈ keys, r.Holds t (.key k) .exclusive

/-- Its row of the key is committed as one that `REFUND` leaves. -/
def Spared (r : Rows (Lockable κ τ) Counter) (window now : ℤ) (k : κ) : Prop :=
  ∀ c ∈ r.committed (.key k), ¬ Counter.refundable window now c

/-- A call that has done so much, and has so much to do. -/
inductive Phase (owner : κ → Option τ) (r : Rows (Lockable κ τ) Counter) (t : ℕ) (now : ℤ) :
    LimitCall κ τ → List (RowStep κ τ) → List (RowDone κ) → Prop
  | counting {keys : List κ} {window : ℤ} (done pending : List κ) :
      sortedKeys keys = done ++ pending → HoldsOnly r t (fun x => ∃ k ∈ done, x = .key k) →
      Phase owner r t now (.charge keys window)
        (pending.map (.count window) ++ [.purge purgeLimit]) (done.map (.counted window))
  | purging {keys : List κ} {window : ℤ} (left : ℕ) (deleted : List κ) :
      left + deleted.length = purgeLimit →
      Phase owner r t now (.charge keys window) [.purge left]
        ((sortedKeys keys).map (.counted window) ++ deleted.map .deleted)
  | charged {keys : List κ} {window : ℤ} (deleted : List κ) : deleted.length ≤ purgeLimit →
      Phase owner r t now (.charge keys window) []
        ((sortedKeys keys).map (.counted window) ++ deleted.map .deleted)
  | finding {keys : List κ} {window : ℤ} : HoldsOnly r t (fun _ => False) →
      Phase owner r t now (.refund keys window)
        [.find (sortedKeys keys), .update window (sortedKeys keys)] []
  | taking {keys : List κ} {window : ℤ} (done pending : List κ) :
      sortedKeys keys = done ++ pending → HoldsOnly r t (fun x => ∃ k ∈ done, x = .key k) →
      HoldsKeys r t done →
      Phase owner r t now (.refund keys window)
        (pending.map .take ++ [.update window (sortedKeys keys)]) []
  | givingBack {keys : List κ} {window : ℤ} (done pending : List κ) :
      HoldsKeys r t (sortedKeys keys) → (∀ k ∈ done ++ pending, k ∈ keys) →
      (done ++ pending).Nodup →
      (∀ k ∈ keys, k ∉ done ++ pending → Spared r window now k) →
      Phase owner r t now (.refund keys window) (pending.map (.giveBack window))
        (done.map (.gaveBack window))
  | sweeping (left : ℕ) (deleted : List κ) : left + deleted.length = retentionBatch →
      Phase owner r t now .sweep [.purge left] (deleted.map .deleted)
  | swept (deleted : List κ) : deleted.length ≤ retentionBatch →
      Phase owner r t now .sweep [] (deleted.map .deleted)
  | latching {tenant : τ} {hits : List (List κ × ℤ)} : HoldsOnly r t (fun _ => False) →
      Phase owner r t now (.within tenant hits)
        (.latch tenant :: (hits.flatMap countsOf).map fun c => .count c.1 c.2) []
  | within {tenant : τ} {hits : List (List κ × ℤ)} (done pending : List (ℤ × κ)) :
      hits.flatMap countsOf = done ++ pending → r.Holds t (.tenant tenant) .exclusive →
      HoldsOnly r t (fun x => x = .tenant tenant ∨ ∃ k, owner k = some tenant ∧ x = .key k) →
      Phase owner r t now (.within tenant hits) (pending.map fun c => .count c.1 c.2)
        (done.map fun c => .counted c.1 c.2)

variable {collation : Collation κ} {owner : κ → Option τ} {r r' : Rows (Lockable κ τ) Counter}
  {t u : ℕ} {now : ℤ} {x x' : LimitTxn κ τ} {scan : List κ} {s s' : LimitsDb κ τ}
  {m : LimitMove κ τ}

/-- What the transaction has done, as effects on rows. -/
def LimitTxn.effects (x : LimitTxn κ τ) : List (Effect (Lockable κ τ) Counter (κ × ℕ)) :=
  x.done.map (RowDone.effect τ x.now)

omit [LinearOrder κ] [DecidableEq τ] in
theorem HoldsOnly.mono {p q : Lockable κ τ → Prop} (h : HoldsOnly r t p) (hpq : ∀ x, p x → q x) :
    HoldsOnly r t q := fun x s hx => hpq x (h x s hx)

/-! ## § The others' steps -/

section others

variable (hby : Rows.By u r r') (hne : t ≠ u)
include hby hne

theorem HoldsOnly.by_other {p : Lockable κ τ → Prop} (h : HoldsOnly r t p) :
    HoldsOnly r' t p := fun x s hx => h x s ((hby.holds hne).mp hx)

theorem HoldsKeys.by_other {keys : List κ} (h : HoldsKeys r t keys) : HoldsKeys r' t keys :=
  fun k hk => (hby.holds hne).mpr (h k hk)

/-- **The others leave a transaction where it is.** -/
theorem Phase.by_other {call : LimitCall κ τ} {todo : List (RowStep κ τ)}
    {done : List (RowDone κ)} (h : Phase owner r t now call todo done) :
    Phase owner r' t now call todo done := by
  cases h with
  | counting done pending hsplit honly =>
      exact .counting done pending hsplit (honly.by_other hby hne)
  | purging left deleted hleft => exact .purging left deleted hleft
  | charged deleted hlen => exact .charged deleted hlen
  | finding honly => exact .finding (honly.by_other hby hne)
  | taking done pending hsplit honly hkeys =>
      exact .taking done pending hsplit (honly.by_other hby hne) (hkeys.by_other hby hne)
  | givingBack done pending hkeys hmem hnodup hspared =>
      refine .givingBack done pending (hkeys.by_other hby hne) hmem hnodup fun k hk hnot => ?_
      rw [Spared, hby.committed hne (hkeys k (mem_sortedKeys.mpr hk))]
      exact hspared k hk hnot
  | sweeping left deleted hleft => exact .sweeping left deleted hleft
  | swept deleted hlen => exact .swept deleted hlen
  | latching honly => exact .latching (honly.by_other hby hne)
  | within done pending hsplit htenant honly =>
      exact .within done pending hsplit ((hby.holds hne).mpr htenant) (honly.by_other hby hne)

end others

/-! ## § Its own -/

/-- A row carried out: the transaction holds it as well, and has one effect more. -/
theorem carryOut_spec {d : RowDone κ} {rest : List (RowStep κ τ)}
    (hfollows : Follows r t x.effects x.answers)
    (h : x.carryOut r t d rest = some (r', x')) :
    Rows.Extends t r r' ∧ Follows r' t x'.effects x'.answers ∧
      x'.now = x.now ∧ x'.call = x.call ∧ x'.todo = rest ∧ x'.done = x.done ++ [d] ∧
      ∀ y s, r'.Holds t y s → y = (d.effect τ x.now).key ∨ r.Holds t y s := by
  obtain ⟨r'', hwrite, heq⟩ := Option.map_eq_some_iff.mp h
  cases heq
  refine ⟨Rows.extends_of_write hwrite, ?_, rfl, rfl, rfl, rfl, fun y s hy => ?_⟩
  · have := hfollows.write hwrite
    simpa only [LimitTxn.effects, List.map_append, List.map_singleton] using this
  · exact ((Rows.holds_write_iff hwrite).mp hy).imp (fun h => h.2.1) id

theorem map_append_one {α β : Type} (f : α → β) (l : List α) (a : α) :
    l.map f ++ [f a] = (l ++ [a]).map f := by
  rw [List.map_append, List.map_singleton]

/-- A purge stops, or deletes a row more. -/
theorem exec_purge (left : ℕ) (htodo : x.todo = [.purge left])
    (hfollows : Follows r t x.effects x.answers)
    (hexec : x.exec collation r t scan = some (r', x')) :
    x'.now = x.now ∧ x'.call = x.call ∧ Rows.Extends t r r' ∧
      Follows r' t x'.effects x'.answers ∧
      (x'.todo = [] ∧ x'.done = x.done ∨
        ∃ k, 0 < left ∧ x'.todo = [.purge (left - 1)] ∧ x'.done = x.done ++ [.deleted k]) := by
  unfold LimitTxn.exec at hexec
  rw [htodo] at hexec
  cases scan with
  | nil =>
      cases hexec
      exact ⟨rfl, rfl, .refl t _, hfollows, .inl ⟨rfl, rfl⟩⟩
  | cons k scan =>
      simp only at hexec
      split_ifs at hexec with hstale
      obtain ⟨hext, hfollows', hnow, hcall, htodo', hdone, -⟩ := carryOut_spec hfollows hexec
      exact ⟨hnow, hcall, hext, hfollows', .inr ⟨k, hstale.1, htodo', hdone⟩⟩

/-- **A transaction goes from phase to phase.** -/
theorem Phase.exec (h : Phase owner r t x.now x.call x.todo x.done)
    (hfits : x.call.Fits collation owner) (hfollows : Follows r t x.effects x.answers)
    (hkept : x.call.Found r)
    (hexec : x.exec collation r t scan = some (r', x')) :
    x'.now = x.now ∧ x'.call = x.call ∧ Rows.Extends t r r' ∧
      Phase owner r' t x'.now x'.call x'.todo x'.done ∧ Follows r' t x'.effects x'.answers := by
  obtain ⟨now, call, todo, done, answers⟩ := x
  change Phase owner r t now call todo done at h
  simp only at hfits hkept
  cases h with
  | @counting keys window done pending hsplit honly =>
      cases pending with
      | nil =>
          obtain ⟨hnow, hcall, hext, hfollows', hend⟩ :=
            exec_purge purgeLimit rfl hfollows hexec
          rw [List.append_nil] at hsplit
          simp only at hnow hcall
          rw [hnow, hcall]
          refine ⟨rfl, rfl, hext, ?_, hfollows'⟩
          rcases hend with ⟨htodo, hdone⟩ | ⟨k, _, htodo, hdone⟩ <;> simp only at hdone
          · rw [htodo, hdone, ← hsplit]
            have hcharged : Phase owner r' t now (.charge keys window) []
                ((sortedKeys keys).map (.counted window) ++ [].map .deleted) :=
              .charged [] (Nat.zero_le _)
            rwa [List.map_nil, List.append_nil] at hcharged
          · rw [htodo, hdone, ← hsplit]
            exact .purging _ [k] rfl
      | cons k pending =>
          obtain ⟨hext, hfollows', hnow, hcall, htodo, hdone, hholds⟩ :=
            carryOut_spec (d := .counted window k) hfollows hexec
          simp only at hnow hcall htodo hdone
          rw [hnow, hcall, htodo, hdone, map_append_one]
          refine ⟨rfl, rfl, hext, .counting (done ++ [k]) pending (by simp [hsplit]) ?_, hfollows'⟩
          intro y s hy
          rcases hholds y s hy with rfl | hold
          · exact ⟨k, by simp, rfl⟩
          · obtain ⟨k', hk', rfl⟩ := honly y s hold
            exact ⟨k', List.mem_append_left _ hk', rfl⟩
  | purging left deleted hleft =>
      obtain ⟨hnow, hcall, hext, hfollows', hend⟩ := exec_purge left rfl hfollows hexec
      simp only at hnow hcall
      rw [hnow, hcall]
      refine ⟨rfl, rfl, hext, ?_, hfollows'⟩
      rcases hend with ⟨htodo, hdone⟩ | ⟨k, hpos, htodo, hdone⟩ <;> simp only at hdone
      · rw [htodo, hdone]
        exact .charged deleted (by omega)
      · rw [htodo, hdone, List.append_assoc, map_append_one]
        refine .purging _ (deleted ++ [k]) ?_
        rw [List.length_append, List.length_singleton]
        omega
  | charged deleted hlen => cases hexec
  | @finding keys window honly =>
      cases hexec
      -- every key has its row, so all are found
      have hfound : (sortedKeys keys).filter (fun k => (r.seen t (.key k)).isSome) =
          sortedKeys keys := by
        refine List.filter_eq_self.mpr fun k hk => ?_
        rw [hfollows.seen]
        exact hkept k (mem_sortedKeys.mp hk)
      rw [hfound, hfits.2]
      refine ⟨rfl, rfl, .refl t _, .taking [] (sortedKeys keys) rfl ?_ fun k hk => (by cases hk),
        hfollows⟩
      exact fun y s hy => (honly y s hy).elim
  | @taking keys window done pending hsplit honly hkeys =>
      have hseen : ∀ y, r.seen t y = r.committed y := fun y => hfollows.seen y
      cases pending with
      | nil =>
          simp only [LimitTxn.exec, List.map_nil, List.nil_append] at hexec
          split_ifs at hexec with hscan
          cases hexec
          rw [List.append_nil] at hsplit
          have hnodup : scan.Nodup := hscan.nodup_iff.mpr (nodup_sortedKeys.filter _)
          have hmem : ∀ k, k ∈ scan ↔ k ∈ keys ∧
              ∃ c ∈ r.committed (.key k), Counter.refundable window now c := by
            intro k
            rw [hscan.mem_iff, List.mem_filter, mem_sortedKeys, decide_eq_true_eq, hseen]
          rw [List.append_nil]
          refine ⟨rfl, rfl, .refl t _, .givingBack [] scan (hsplit ▸ hkeys) ?_ hnodup ?_, hfollows⟩
          · exact fun k hk => ((hmem k).mp hk).1
          · intro k hk hnot c hc href
            exact hnot ((hmem k).mpr ⟨hk, c, hc, href⟩)
      | cons k pending =>
          have hrow : (r.seen t (.key k)).isSome := by
            rw [hseen]
            exact hkept k ((mem_of_sort_eq hsplit).mpr (.inr (by simp)))
          simp only [LimitTxn.exec, List.map_cons, List.cons_append, if_pos hrow] at hexec
          obtain ⟨r'', hlock, heq⟩ := Option.map_eq_some_iff.mp hexec
          cases heq
          have hext := Rows.extends_of_lock hlock
          refine ⟨rfl, rfl, hext, .taking (done ++ [k]) pending (by simp [hsplit]) ?_ ?_,
            hfollows.lock hlock⟩
          · intro y s hy
            rcases (Rows.holds_lock_iff hlock).mp hy with ⟨-, rfl, -⟩ | hold
            · exact ⟨k, by simp, rfl⟩
            · obtain ⟨k', hk', rfl⟩ := honly y s hold
              exact ⟨k', List.mem_append_left _ hk', rfl⟩
          · intro k' hk'
            rcases List.mem_append.mp hk' with hk' | hk'
            · exact hext.holds (hkeys k' hk')
            · rw [List.mem_singleton.mp hk']
              exact Rows.holds_of_lock hlock
  | @givingBack keys window done pending hkeys hmem hnodup hspared =>
      cases pending with
      | nil => cases hexec
      | cons k pending =>
          have hsplit : done ++ k :: pending = done ++ [k] ++ pending := by simp
          have hrow : (r.seen t (.key k)).isSome := by
            rw [hfollows.seen, serial_rows_of_not_mem]
            · exact hkept k (hmem k (by simp))
            · -- the row is not written yet
              simp only [LimitTxn.effects, List.mem_map]
              rintro _ ⟨_, ⟨k', hk', rfl⟩, rfl⟩ heq
              cases heq
              exact List.disjoint_of_nodup_append hnodup hk' (by simp)
          simp only [LimitTxn.exec, List.map_cons, if_pos hrow] at hexec
          obtain ⟨hext, hfollows', hnow, hcall, htodo, hdone, -⟩ := carryOut_spec hfollows hexec
          simp only at hnow hcall htodo hdone
          rw [hnow, hcall, htodo, hdone, map_append_one]
          rw [hsplit] at hmem hnodup hspared
          refine ⟨rfl, rfl, hext, .givingBack (done ++ [k]) pending ?_ hmem hnodup ?_, hfollows'⟩
          · exact fun k' hk' => hext.holds (hkeys k' hk')
          · intro k' hk' hnot
            rw [Spared, hext.committed]
            exact hspared k' hk' hnot
  | sweeping left deleted hleft =>
      obtain ⟨hnow, hcall, hext, hfollows', hend⟩ := exec_purge left rfl hfollows hexec
      simp only at hnow hcall
      rw [hnow, hcall]
      refine ⟨rfl, rfl, hext, ?_, hfollows'⟩
      rcases hend with ⟨htodo, hdone⟩ | ⟨k, hpos, htodo, hdone⟩ <;> simp only at hdone
      · rw [htodo, hdone]
        exact .swept deleted (by omega)
      · rw [htodo, hdone, map_append_one]
        refine .sweeping _ (deleted ++ [k]) ?_
        rw [List.length_append, List.length_singleton]
        omega
  | swept deleted hlen => cases hexec
  | @latching tenant hits honly =>
      obtain ⟨r'', hlock, heq⟩ := Option.map_eq_some_iff.mp hexec
      cases heq
      refine ⟨rfl, rfl, Rows.extends_of_lock hlock, .within [] _ rfl (Rows.holds_of_lock hlock) ?_,
        hfollows.lock hlock⟩
      intro y s hy
      rcases (Rows.holds_lock_iff hlock).mp hy with ⟨-, rfl, -⟩ | hold
      · exact .inl rfl
      · exact (honly y s hold).elim
  | @within tenant hits done pending hsplit htenant honly =>
      cases pending with
      | nil => cases hexec
      | cons c pending =>
          obtain ⟨hext, hfollows', hnow, hcall, htodo, hdone, hholds⟩ :=
            carryOut_spec (d := .counted c.1 c.2) hfollows hexec
          simp only at hnow hcall htodo hdone
          rw [hnow, hcall, htodo, hdone, map_append_one fun c : ℤ × κ => RowDone.counted c.1 c.2]
          refine ⟨rfl, rfl, hext, .within (done ++ [c]) pending (by simp [hsplit])
            (hext.holds htenant) ?_, hfollows'⟩
          intro y s hy
          rcases hholds y s hy with rfl | hold
          · -- the key counted is of the caller's business
            have hmem : c ∈ hits.flatMap countsOf := by simp [hsplit]
            obtain ⟨hit, hhit, hc⟩ := List.mem_flatMap.mp hmem
            obtain ⟨k, hk, rfl⟩ := List.mem_map.mp hc
            exact .inr ⟨k, hfits hit hhit k (mem_sortedKeys.mp hk), rfl⟩
          · exact honly y s hold

/-! ## § Every transaction -/

namespace LimitsDb

omit [LinearOrder κ] [DecidableEq τ] in
theorem lt_next (s : LimitsDb κ τ) (hx : s.running t = some x) : t < s.next := by
  by_contra hle
  rw [s.fresh t (not_lt.mp hle)] at hx
  cases hx

/-- What one step did. -/
inductive Stepped (collation : Collation κ) (s s' : LimitsDb κ τ) : LimitMove κ τ → Prop
  | start (now : ℤ) (call : LimitCall κ τ) : call.checked → s'.rows = s.rows →
      s'.running = Function.update s.running s.next (some ⟨now, call, call.steps, [], []⟩) →
      s'.next = s.next + 1 → s'.committed = s.committed → Stepped collation s s' (.start now call)
  | exec (t : ℕ) (scan : List κ) (x x' : LimitTxn κ τ) : s.running t = some x →
      x.exec collation s.rows t scan = some (s'.rows, x') →
      s'.running = Function.update s.running t (some x') →
      s'.next = s.next → s'.committed = s.committed → Stepped collation s s' (.go t scan)
  | commit (t : ℕ) (scan : List κ) (x : LimitTxn κ τ) : s.running t = some x → x.todo = [] →
      s'.rows = s.rows.commit t → s'.running = Function.update s.running t none →
      s'.next = s.next → s'.committed = s.committed ++ [x] → Stepped collation s s' (.go t scan)
  | abort (t : ℕ) (x : LimitTxn κ τ) : s.running t = some x → s'.rows = s.rows.rollback t →
      s'.running = Function.update s.running t none → s'.next = s.next →
      s'.committed = s.committed → Stepped collation s s' (.abort t)

theorem stepped (h : s.step collation m = some s') : Stepped collation s s' m := by
  cases m with
  | start now call =>
      simp only [step] at h
      split_ifs at h with hchecked
      cases h
      exact .start now call hchecked rfl rfl rfl rfl
  | go t scan =>
      simp only [step] at h
      split at h
      · cases h
      · rename_i x hx
        split_ifs at h with htodo
        · cases h
          exact .commit t scan x hx htodo rfl rfl rfl rfl
        · obtain ⟨⟨r, x'⟩, hexec, rfl⟩ := Option.map_eq_some_iff.mp h
          exact .exec t scan x x' hx hexec rfl rfl rfl
  | abort t =>
      simp only [step] at h
      split at h
      · cases h
      · rename_i x hx
        cases h
        exact .abort t x hx rfl rfl rfl rfl

/-- Where a transaction is, with what it has done. -/
structure At (collation : Collation κ) (owner : κ → Option τ)
    (r : Rows (Lockable κ τ) Counter) (t : ℕ) (x : LimitTxn κ τ) : Prop where
  fits : x.call.Fits collation owner
  phase : Phase owner r t x.now x.call x.todo x.done
  follows : Follows r t x.effects x.answers

theorem At.by_other (h : At collation owner r t x) (hby : Rows.By u r r') (hne : t ≠ u) :
    At collation owner r' t x :=
  ⟨h.fits, h.phase.by_other hby hne, h.follows.by_other hby hne⟩

/-- What holds between two steps. Whoever holds a row runs. -/
structure Sound (collation : Collation κ) (owner : κ → Option τ) (s : LimitsDb κ τ) : Prop where
  held : ∀ y ∈ s.rows.held, ∃ x, s.running y.tx = some x
  txns : ∀ t x, s.running t = some x → At collation owner s.rows t x

theorem sound_idle (table : RateLimits κ) :
    (idle table : LimitsDb κ τ).Sound collation owner where
  held := fun y hy => by cases hy
  txns := fun t x hx => by cases hx

/-- A transaction that does not run holds nothing and has written nothing. -/
theorem Sound.untouched (h : s.Sound collation owner) (ht : s.running t = none) :
    (∀ x st, ¬ s.rows.Holds t x st) ∧ ∀ k, s.rows.lastWrite t k = none := by
  have hholds : ∀ x st, ¬ s.rows.Holds t x st := by
    intro x st hx
    obtain ⟨y, hy⟩ := h.held _ hx
    rw [ht] at hy
    cases hy
  refine ⟨hholds, fun k => ?_⟩
  by_contra hsome
  obtain ⟨row, hrow⟩ := Option.ne_none_iff_exists'.mp hsome
  exact hholds _ _ (Rows.holds_of_lastWrite hrow)

/-- A call's first phase. -/
theorem at_start {call : LimitCall κ τ} (hfits : call.Fits collation owner)
    (hholds : ∀ x st, ¬ r.Holds t x st) (hwritten : ∀ k, r.lastWrite t k = none) :
    At collation owner r t ⟨now, call, call.steps, [], []⟩ := by
  refine ⟨hfits, ?_, Follows.start hwritten⟩
  cases call with
  | charge keys window =>
      exact .counting [] (sortedKeys keys) rfl fun x st hx => absurd hx (hholds x st)
  | refund keys window => exact .finding fun x st hx => absurd hx (hholds x st)
  | sweep => exact .sweeping retentionBatch [] rfl
  | within tenant hits => exact .latching fun x st hx => absurd hx (hholds x st)

/-- The end of a transaction leaves the others where they are. -/
theorem Sound.ended (h : s.Sound collation owner) (hby : Rows.By t s.rows r')
    (hheld : ∀ y ∈ r'.held, y ∈ s.rows.held ∧ y.tx ≠ t) :
    (∀ y ∈ r'.held, ∃ x, Function.update s.running t none y.tx = some x) ∧
      ∀ u x, Function.update s.running t none u = some x → At collation owner r' u x := by
  refine ⟨fun y hy => ?_, fun u x hx => ?_⟩
  · rw [Function.update_of_ne (hheld y hy).2]
    exact h.held y (hheld y hy).1
  · by_cases hut : u = t
    · rw [hut, Function.update_self] at hx
      cases hx
    · rw [Function.update_of_ne hut] at hx
      exact (h.txns u x hx).by_other hby hut

theorem Sound.step (h : s.Sound collation owner) (hok : s.Usual collation owner m)
    (hstep : s.step collation m = some s') : s'.Sound collation owner := by
  cases stepped hstep with
  | start now call hchecked hrows hrunning hnext hcommitted =>
      obtain ⟨hholds, hwritten⟩ := h.untouched (s.fresh s.next le_rfl)
      refine ⟨fun y hy => ?_, fun t x hx => ?_⟩
      · rw [hrows] at hy
        obtain ⟨x, hx⟩ := h.held y hy
        refine ⟨x, ?_⟩
        rw [hrunning, Function.update_of_ne]
        · exact hx
        · intro heq
          rw [heq, s.fresh s.next le_rfl] at hx
          cases hx
      · rw [hrows]
        rw [hrunning] at hx
        by_cases ht : t = s.next
        · subst ht
          rw [Function.update_self] at hx
          cases hx
          exact at_start hok.2 hholds hwritten
        · rw [Function.update_of_ne ht] at hx
          exact h.txns t x hx
  | exec t scan x x' hx hexec hrunning hnext hcommitted =>
      have hat := h.txns t x hx
      obtain ⟨hnow, hcall, hext, hphase, hfollows⟩ :=
        hat.phase.exec hat.fits hat.follows (hok.1 t (s.lt_next hx) x hx) hexec
      refine ⟨fun y hy => ?_, fun u z hz => ?_⟩
      · rw [hrunning]
        by_cases hyt : y.tx = t
        · exact ⟨x', by rw [hyt, Function.update_self]⟩
        · rw [Function.update_of_ne hyt]
          exact h.held y (hext.others hyt hy)
      · rw [hrunning] at hz
        by_cases hut : u = t
        · subst hut
          rw [Function.update_self] at hz
          cases hz
          exact ⟨hcall ▸ hat.fits, hphase, hfollows⟩
        · rw [Function.update_of_ne hut] at hz
          exact (h.txns u z hz).by_other hext.by hut
  | commit t scan x hx htodo hrows hrunning hnext hcommitted =>
      obtain ⟨hheld, htxns⟩ := h.ended (Rows.by_commit s.rows t) fun y hy =>
        ⟨(List.mem_filter.mp hy).1, of_decide_eq_true (List.mem_filter.mp hy).2⟩
      exact ⟨by rwa [hrows, hrunning], by rwa [hrows, hrunning]⟩
  | abort t x hx hrows hrunning hnext hcommitted =>
      obtain ⟨hheld, htxns⟩ := h.ended (Rows.by_rollback s.rows t) fun y hy =>
        ⟨(List.mem_filter.mp hy).1, of_decide_eq_true (List.mem_filter.mp hy).2⟩
      exact ⟨by rwa [hrows, hrunning], by rwa [hrows, hrunning]⟩

/-- **Every transaction is in its phase**, however they interleave. -/
theorem sound_of_run {table : RateLimits κ} {ms : List (LimitMove κ τ)}
    (hok : Along (step collation) (Usual collation owner) (idle table) ms)
    (hrun : run (step collation) (idle table) ms = some s) : s.Sound collation owner :=
  run_invariant (fun _ _ _ h hok hstep => h.step hok hstep) (sound_idle table) hok hrun

end LimitsDb

end Ziftbook
