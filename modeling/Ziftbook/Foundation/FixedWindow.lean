import Mathlib.Tactic

/-!
# Counters over fixed windows

A counter of each key, over windows that begin with their first hit: a hit that
finds the window over begins the next one. A hit may be given back later, by its
key alone.

`opened` numbers a key's windows. It is what the reader of a history knows and no
counter holds: a place is a hit, with the number of its window.
-/

namespace Foundation

structure Counter where
  windowStart : ℤ
  hits : ℕ
deriving DecidableEq

namespace Counter

/-- The window is not over. -/
def running (window now : ℤ) (c : Counter) : Prop := now - window < c.windowStart

instance (window now : ℤ) (c : Counter) : Decidable (c.running window now) :=
  inferInstanceAs (Decidable (_ < _))

theorem running_of_le {window now later : ℤ} {c : Counter} (hle : now ≤ later)
    (h : c.running window later) : c.running window now := by
  unfold running at *
  omega

/-- One hit given back, in a window that runs. -/
def giveBack (window now : ℤ) (c : Counter) : Counter :=
  if c.running window now ∧ 0 < c.hits then { c with hits := c.hits - 1 } else c

theorem giveBack_start (window now : ℤ) (c : Counter) :
    (c.giveBack window now).windowStart = c.windowStart := by
  unfold giveBack
  split <;> rfl

end Counter

structure Windows (κ : Type) where
  rows : κ → Option Counter
  opened : κ → ℕ

/-- A hit: its key, its window's number and the count it was answered. -/
structure Place (κ : Type) where
  key : κ
  number : ℕ
  hits : ℕ
deriving DecidableEq

namespace Windows

variable {κ : Type} [DecidableEq κ] {window now clock later : ℤ} {t : Windows κ}
  {keys : List κ} {ps qs : List (Place κ)} {k : κ} {n : ℕ} {limit : κ → ℕ} {length : κ → ℤ}

def empty : Windows κ := ⟨fun _ => none, fun _ => 0⟩

/-- The count in the window that runs. -/
def count (window now : ℤ) (t : Windows κ) (k : κ) : ℕ :=
  match t.rows k with
  | some c => if c.running window now then c.hits else 0
  | none => 0

/-- One hit on each key. -/
def hit (window now : ℤ) (t : Windows κ) (keys : List κ) : Windows κ where
  rows := fun k =>
    if k ∈ keys then
      match t.rows k with
      | some c => if c.running window now then some ⟨c.windowStart, c.hits + 1⟩ else some ⟨now, 1⟩
      | none => some ⟨now, 1⟩
    else t.rows k
  opened := fun k =>
    if k ∈ keys then
      match t.rows k with
      | some c => if c.running window now then t.opened k else t.opened k + 1
      | none => t.opened k + 1
    else t.opened k

/-- The last hit on a key. -/
def last (t : Windows κ) (k : κ) : Place κ := ⟨k, t.opened k, ((t.rows k).map Counter.hits).getD 0⟩

def giveBack (window now : ℤ) (t : Windows κ) (keys : List κ) : Windows κ :=
  { t with rows := fun k =>
      if k ∈ keys then (t.rows k).map (Counter.giveBack window now) else t.rows k }

def delete (t : Windows κ) (p : κ → Counter → Prop) [∀ k c, Decidable (p k c)] : Windows κ :=
  { t with rows := fun k => (t.rows k).filter fun c => ¬ p k c }

/-! ## § What a hit leaves -/

/-- After a hit the key has a row: the window's next hit, or the first of another. -/
inductive Landed (window now : ℤ) (t : Windows κ) (k : κ) : Counter → ℕ → Prop
  | next (c : Counter) : t.rows k = some c → c.running window now →
      Landed window now t k ⟨c.windowStart, c.hits + 1⟩ (t.opened k)
  | first : (∀ c, t.rows k = some c → ¬ c.running window now) →
      Landed window now t k ⟨now, 1⟩ (t.opened k + 1)

theorem hit_of_mem (h : k ∈ keys) : ∃ c, (t.hit window now keys).rows k = some c ∧
    Landed window now t k c ((t.hit window now keys).opened k) := by
  simp only [hit, if_pos h]
  cases hrow : t.rows k with
  | none => exact ⟨_, rfl, .first fun c hc => by rw [hrow] at hc; cases hc⟩
  | some c =>
      by_cases hrun : c.running window now
      · simp only [if_pos hrun]
        exact ⟨_, rfl, .next c hrow hrun⟩
      · simp only [if_neg hrun]
        refine ⟨_, rfl, .first fun c' hc' => ?_⟩
        rw [hrow, Option.some.injEq] at hc'
        exact hc' ▸ hrun

omit [DecidableEq κ] in
theorem Landed.congr {t' : Windows κ} {c : Counter} (h : Landed window now t k c n)
    (hrows : t.rows k = t'.rows k) (hopened : t.opened k = t'.opened k) :
    Landed window now t' k c n := by
  cases h with
  | next c hc hrun => rw [hopened]; exact .next c (hrows ▸ hc) hrun
  | first hnone => rw [hopened]; exact .first (hrows ▸ hnone)

theorem hit_rows_of_not_mem (h : k ∉ keys) : (t.hit window now keys).rows k = t.rows k :=
  if_neg h

theorem hit_opened_of_not_mem (h : k ∉ keys) : (t.hit window now keys).opened k = t.opened k :=
  if_neg h

theorem opened_le_hit : t.opened k ≤ (t.hit window now keys).opened k := by
  by_cases hk : k ∈ keys
  · obtain ⟨c, _, hland⟩ := hit_of_mem hk
    generalize (t.hit window now keys).opened k = m at hland ⊢
    cases hland with
    | next => exact le_rfl
    | first => exact Nat.le_succ _
  · rw [hit_opened_of_not_mem hk]

theorem last_hit_of_not_mem (h : k ∉ keys) : (t.hit window now keys).last k = t.last k := by
  rw [last, last, hit_rows_of_not_mem h, hit_opened_of_not_mem h]

/-! ## § The places held -/

/-- How many of the places are in one window of a key. -/
def held (ps : List (Place κ)) (k : κ) (n : ℕ) : ℕ :=
  ps.countP fun p => p.key = k ∧ p.number = n

/-- How many of them the limit let in. -/
def within (limit : κ → ℕ) (ps : List (Place κ)) (k : κ) (n : ℕ) : ℕ :=
  ps.countP fun p => p.key = k ∧ p.number = n ∧ p.hits ≤ limit k

theorem held_append : held (ps ++ qs) k n = held ps k n + held qs k n := List.countP_append

theorem within_append : within limit (ps ++ qs) k n = within limit ps k n + within limit qs k n :=
  List.countP_append

theorem within_le_held : within limit ps k n ≤ held ps k n := by
  apply List.countP_mono_left
  intro p _ h
  simp only [decide_eq_true_eq] at h ⊢
  exact ⟨h.1, h.2.1⟩

theorem held_eq_zero (h : ∀ p ∈ ps, p.key = k → p.number ≠ n) : held ps k n = 0 := by
  apply List.countP_eq_zero.mpr
  intro p hp
  simpa using h p hp

/-- Keys that differ: one place of a key is all of them. -/
theorem held_eq_one {p : Place κ} (hkeys : (ps.map Place.key).Nodup) (hp : p ∈ ps) :
    held ps p.key p.number = 1 := by
  obtain ⟨l, r, rfl⟩ := List.append_of_mem hp
  rw [List.map_append, List.map_cons, List.nodup_middle, List.nodup_cons] at hkeys
  have hne : ∀ q ∈ l ++ r, q.key = p.key → q.number ≠ p.number := by
    intro q hq hkey
    exact absurd (List.map_append ▸ hkey ▸ List.mem_map_of_mem hq) hkeys.1
  have hrest := held_eq_zero hne
  rw [held_append] at hrest
  rw [held_append, ← List.singleton_append, held_append]
  have hone : held [p] p.key p.number = 1 := by simp [held]
  omega

theorem held_le_one (hkeys : (ps.map Place.key).Nodup) : held ps k n ≤ 1 := by
  by_cases h : ∃ p ∈ ps, p.key = k ∧ p.number = n
  · obtain ⟨p, hp, rfl, rfl⟩ := h
    exact (held_eq_one hkeys hp).le
  · push Not at h
    exact (held_eq_zero h).le.trans zero_le_one

/-- What each holds a place of the window that the limit let in is no more than those
places. -/
theorem countP_le_within {β : Type} {xs : List β} {f : β → List (Place κ)} {q : β → Bool}
    (h : ∀ x ∈ xs, q x = true → ∃ p ∈ f x, p.key = k ∧ p.number = n ∧ p.hits ≤ limit k) :
    xs.countP q ≤ within limit (xs.flatMap f) k n := by
  induction xs with
  | nil => exact le_rfl
  | cons x xs ih =>
      have hrest := ih fun y hy => h y (List.mem_cons_of_mem _ hy)
      rw [List.flatMap_cons, within_append, List.countP_cons]
      split
      · rename_i hx
        obtain ⟨p, hp, hin⟩ := h x (List.mem_cons_self ..) hx
        have hpos : 0 < within limit (f x) k n :=
          List.countP_pos_iff.mpr ⟨p, hp, decide_eq_true hin⟩
        omega
      · omega

/-- **The books balance.** A window's count is the places held in it, as long as it
runs; a count is never below them, and the places a limit let in are never above it.
`length` is how long a key's windows are. -/
structure Balanced (length : κ → ℤ) (clock : ℤ) (limit : κ → ℕ) (t : Windows κ)
    (ps : List (Place κ)) : Prop where
  unopened : ∀ k n, t.opened k < n → held ps k n = 0
  atMost : ∀ k c, t.rows k = some c → held ps k (t.opened k) ≤ c.hits
  exact : ∀ k c, t.rows k = some c → c.running (length k) clock →
    c.hits ≤ held ps k (t.opened k)
  limited : ∀ k n, within limit ps k n ≤ limit k

namespace Balanced

theorem perm (h : Balanced length clock limit t ps) (hperm : ps.Perm qs) :
    Balanced length clock limit t qs := by
  have hheld : ∀ k n, held qs k n = held ps k n := fun k n => (hperm.countP_eq _).symm
  have hwithin : ∀ k n, within limit qs k n = within limit ps k n :=
    fun k n => (hperm.countP_eq _).symm
  refine ⟨fun k n hn => ?_, fun k c hc => ?_, fun k c hc hrun => ?_, fun k n => ?_⟩
  · rw [hheld]
    exact h.unopened k n hn
  · rw [hheld]
    exact h.atMost k c hc
  · rw [hheld]
    exact h.exact k c hc hrun
  · rw [hwithin]
    exact h.limited k n

theorem tick (h : Balanced length clock limit t ps) (hle : clock ≤ later) :
    Balanced length later limit t ps :=
  ⟨h.unopened, h.atMost, fun k c hc hrun => h.exact k c hc (Counter.running_of_le hle hrun),
    h.limited⟩

theorem delete (h : Balanced length clock limit t ps) (p : κ → Counter → Prop)
    [∀ k c, Decidable (p k c)] : Balanced length clock limit (t.delete p) ps :=
  ⟨h.unopened, fun k c hc => h.atMost k c (Option.filter_eq_some_iff.mp hc).1,
    fun k c hc => h.exact k c (Option.filter_eq_some_iff.mp hc).1, h.limited⟩

/-- A hit on each key, and its places. -/
theorem hit (h : Balanced length clock limit t ps) (window now : ℤ) (hkeys : keys.Nodup) :
    Balanced length clock limit (t.hit window now keys)
      (keys.map (t.hit window now keys).last ++ ps) := by
  set t' := t.hit window now keys with ht'
  have hnodup : ((keys.map t'.last).map Place.key).Nodup := by
    rw [List.map_map]
    exact (List.map_id keys).symm ▸ hkeys
  have hout : ∀ k n, k ∉ keys → held (keys.map t'.last) k n = 0 := by
    intro k n hk
    apply held_eq_zero
    rintro p hp rfl
    obtain ⟨k, hmem, rfl⟩ := List.mem_map.mp hp
    exact absurd hmem hk
  have hother : ∀ k n, n ≠ t'.opened k → held (keys.map t'.last) k n = 0 := by
    intro k n hn
    apply held_eq_zero
    rintro p hp rfl
    obtain ⟨k, _, rfl⟩ := List.mem_map.mp hp
    exact hn.symm
  have hone : ∀ k ∈ keys, held (keys.map t'.last) k (t'.opened k) = 1 := fun k hk =>
    held_eq_one (p := t'.last k) hnodup (List.mem_map_of_mem hk)
  -- A key that was hit has the place more, in its row's window.
  have hrow : ∀ k ∈ keys, ∀ c, t'.rows k = some c →
      held ps k (t'.opened k) + 1 ≤ c.hits ∧
        (c.running (length k) clock → c.hits ≤ held ps k (t'.opened k) + 1) := by
    intro k hk c hc
    obtain ⟨c', hc', hland⟩ : ∃ c', t'.rows k = some c' ∧
        Landed window now t k c' (t'.opened k) := hit_of_mem hk
    rw [hc, Option.some.injEq] at hc'
    subst hc'
    generalize t'.opened k = m at hland ⊢
    cases hland with
    | next c hold hrun =>
        refine ⟨Nat.succ_le_succ (h.atMost k c hold), fun hrun' => Nat.succ_le_succ ?_⟩
        exact h.exact k c hold hrun'
    | first =>
        rw [h.unopened k _ (Nat.lt_succ_self _)]
        exact ⟨le_rfl, fun _ => le_rfl⟩
  have hle : ∀ k, t.opened k ≤ t'.opened k := fun k => opened_le_hit
  refine ⟨fun k n hn => ?_, fun k c hc => ?_, fun k c hc hrun => ?_, fun k n => ?_⟩
  · rw [held_append, hother k n hn.ne', h.unopened k n ((hle k).trans_lt hn)]
  · rw [held_append]
    by_cases hk : k ∈ keys
    · have := (hrow k hk c hc).1
      rw [hone k hk]
      omega
    · rw [hout k _ hk, Nat.zero_add, ht', hit_opened_of_not_mem hk]
      rw [ht', hit_rows_of_not_mem hk] at hc
      exact h.atMost k c hc
  · rw [held_append]
    by_cases hk : k ∈ keys
    · have := (hrow k hk c hc).2 hrun
      rw [hone k hk]
      omega
    · rw [hout k _ hk, Nat.zero_add, ht', hit_opened_of_not_mem hk]
      rw [ht', hit_rows_of_not_mem hk] at hc
      exact h.exact k c hc hrun
  · rw [within_append]
    have hold := h.limited k n
    -- A place the limit let in had the count of all that are in its window.
    by_cases hin : within limit (keys.map t'.last) k n = 0
    · omega
    · obtain ⟨p, hp, hlast⟩ := List.countP_pos_iff.mp (Nat.pos_of_ne_zero hin)
      obtain ⟨k', hk', rfl⟩ := List.mem_map.mp hp
      obtain ⟨rfl, rfl, hhits⟩ := of_decide_eq_true hlast
      obtain ⟨c, hc, _⟩ : ∃ c, t'.rows k' = some c ∧ Landed window now t k' c (t'.opened k') :=
        hit_of_mem hk'
      change ((t'.rows k').map Counter.hits).getD 0 ≤ limit k' at hhits
      rw [hc] at hhits
      change c.hits ≤ limit k' at hhits
      show within limit (keys.map t'.last) k' (t'.opened k') + within limit ps k' (t'.opened k') ≤
        limit k'
      have hold : within limit ps k' (t'.opened k') ≤ limit k' := hold
      have hnew : within limit (keys.map t'.last) k' (t'.opened k') ≤ 1 :=
        within_le_held.trans (held_le_one hnodup)
      have hps : within limit ps k' (t'.opened k') ≤ held ps k' (t'.opened k') := within_le_held
      have := (hrow k' hk' c hc).1
      omega

/-- Places given back: the windows that run are the ones they are in. -/
theorem giveBack (h : Balanced length clock limit t (qs ++ ps)) (hnow : now ≤ clock)
    (hkeys : (qs.map Place.key).Nodup) (hlength : ∀ p ∈ qs, length p.key = window)
    (hin : ∀ p ∈ qs, ∀ c, t.rows p.key = some c → c.running window now →
      p.number = t.opened p.key) :
    Balanced length clock limit (t.giveBack window now (qs.map Place.key)) ps := by
  refine ⟨fun k n hn => ?_, fun k c hc => ?_, fun k c hc hrun => ?_, fun k n => ?_⟩
  · have := h.unopened k n hn
    rw [held_append] at this
    omega
  · by_cases hk : k ∈ qs.map Place.key
    · simp only [Windows.giveBack, if_pos hk] at hc
      obtain ⟨c, hrow, rfl⟩ := Option.map_eq_some_iff.mp hc
      have hle := h.atMost k c hrow
      rw [held_append] at hle
      show held ps k (t.opened k) ≤ _
      unfold Counter.giveBack
      split
      · rename_i hrun
        obtain ⟨p, hp, rfl⟩ := List.mem_map.mp hk
        have hone := held_eq_one hkeys hp
        rw [hin p hp c hrow hrun.1] at hone
        rw [hone] at hle
        show _ ≤ c.hits - 1
        omega
      · omega
    · simp only [Windows.giveBack, if_neg hk] at hc
      have hle := h.atMost k c hc
      rw [held_append] at hle
      exact le_trans (Nat.le_add_left _ _) hle
  · by_cases hk : k ∈ qs.map Place.key
    · simp only [Windows.giveBack, if_pos hk] at hc
      obtain ⟨c, hrow, rfl⟩ := Option.map_eq_some_iff.mp hc
      unfold Counter.running at hrun
      rw [Counter.giveBack_start] at hrun
      have hle := h.exact k c hrow hrun
      rw [held_append] at hle
      obtain ⟨p, hp, rfl⟩ := List.mem_map.mp hk
      rw [hlength p hp] at hrun
      have hone := held_eq_one hkeys hp
      rw [hin p hp c hrow (Counter.running_of_le hnow hrun)] at hone
      rw [hone] at hle
      show _ ≤ held ps p.key (t.opened p.key)
      unfold Counter.giveBack
      split
      · show c.hits - 1 ≤ _
        omega
      · rename_i hnot
        -- The window runs, so nothing was given back because nothing was counted.
        have hzero : c.hits = 0 := by
          by_contra hne
          exact hnot ⟨Counter.running_of_le hnow hrun, Nat.pos_of_ne_zero hne⟩
        omega
    · simp only [Windows.giveBack, if_neg hk] at hc
      have hnone : ∀ p ∈ qs, p.key = k → p.number ≠ t.opened k := by
        rintro p hp rfl
        exact absurd (List.mem_map_of_mem hp) hk
      have hle := h.exact k c hc hrun
      rw [held_append, held_eq_zero hnone, Nat.zero_add] at hle
      exact hle
  · have := h.limited k n
    rw [within_append] at this
    omega

end Balanced

theorem balanced_empty : Balanced length clock limit (empty : Windows κ) [] :=
  ⟨fun _ _ _ => rfl, fun _ _ h => (nomatch h), fun _ _ h => (nomatch h), fun _ _ => Nat.zero_le _⟩

end Windows

end Foundation
