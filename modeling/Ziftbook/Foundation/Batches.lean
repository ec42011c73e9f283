import Mathlib.Data.List.Sort
import Mathlib.Tactic

/-!
# Walks in batches

Keys are visited in ascending order, a batch at a time. A batch ends when it has visited
its most keys, before the next, or has spent its work, at the key it was spent on; it
answers where the next batch starts. A walk is the batches from the first key on, each
with its own way of visiting.
-/

namespace Foundation.Batches

variable {κ σ : Type*}

/-- What a batch has done, and the key it stopped at. -/
structure Batch (κ σ : Type*) where
  state : σ
  spent : ℕ
  visited : List κ
  next : Option κ

/-- The loop over the keys; a visit is told what is left to spend. -/
def loop (visit : σ → κ → ℕ → σ × ℕ) (work most : ℕ) : List κ → Batch κ σ → Batch κ σ
  | [], b => b
  | k :: ks, b =>
      if most ≤ b.visited.length then { b with next := some k }
      else
        let r := visit b.state k (work - b.spent)
        let b := { b with state := r.1, spent := b.spent + r.2, visited := b.visited ++ [k] }
        if work ≤ b.spent then { b with next := some k } else loop visit work most ks b

/-- What the loop relies on: a visit spends no more than it is told is left, paid from
`left`, and finishes its key when it spends less. -/
structure Pays (visit : σ → κ → ℕ → σ × ℕ) (left : σ → ℕ) (Done : σ → κ → Prop) : Prop where
  within : ∀ s k n, (visit s k n).2 ≤ n
  pays : ∀ s k n, left (visit s k n).1 + (visit s k n).2 ≤ left s
  finishes : ∀ s k n, (visit s k n).2 < n → Done (visit s k n).1 k
  keeps : ∀ s k n k', Done s k' → Done (visit s k n).1 k'

/-- From `b` the loop finished `done` and stopped before `rest`. -/
structure Stops (left : σ → ℕ) (Done : σ → κ → Prop) (work most : ℕ) (b r : Batch κ σ)
    (done rest : List κ) : Prop where
  next : r.next = rest.head?
  finished : ∀ k ∈ done, Done r.state k ∧ k ∈ r.visited
  keeps : ∀ k, Done b.state k → Done r.state k
  visited : ∀ k ∈ b.visited, k ∈ r.visited
  within : r.spent ≤ work
  withinMost : r.visited.length ≤ most
  pays : left r.state + r.spent ≤ left b.state + b.spent
  progress : rest ≠ [] → work ≤ r.spent ∨ most ≤ b.visited.length + done.length

variable {visit : σ → κ → ℕ → σ × ℕ} {left : σ → ℕ} {Done : σ → κ → Prop} {work most : ℕ}

/-- **The loop finishes a first part of the keys**, all of them unless a limit is reached. -/
theorem loop_stops (h : Pays visit left Done) {ks : List κ} : ∀ {b : Batch κ σ},
    b.next = none → b.spent < work → b.visited.length ≤ most →
    ∃ done rest, ks = done ++ rest ∧ Stops left Done work most b (loop visit work most ks b)
      done rest := by
  induction ks with
  | nil =>
      intro b hnext hspent hmost
      exact ⟨[], [], rfl, hnext, by simp, fun _ hd => hd, fun _ hk => hk, hspent.le, hmost, le_rfl,
        fun hne => absurd rfl hne⟩
  | cons k ks ih =>
      intro b hnext hspent hmost
      rw [loop]
      split_ifs with hfull
      · exact ⟨[], k :: ks, rfl, rfl, by simp, fun _ hd => hd, fun _ hk => hk, hspent.le, hmost,
          le_rfl, fun _ => Or.inr (by simpa using hfull)⟩
      · have hlen : (b.visited ++ [k]).length ≤ most := by
          rw [List.length_append, List.length_singleton]
          omega
        have hwithin := h.within b.state k (work - b.spent)
        have hpays := h.pays b.state k (work - b.spent)
        have hkeeps := h.keeps b.state k (work - b.spent)
        dsimp only
        split_ifs with hwork
        · refine ⟨[], k :: ks, rfl, rfl, by simp, hkeeps, ?_, ?_, hlen, ?_, fun _ => Or.inl hwork⟩
          · exact fun k' hk' => List.mem_append_left _ hk'
          · dsimp only
            omega
          · dsimp only
            omega
        · obtain ⟨done, rest, rfl, hstops⟩ := @ih
            { b with
              state := (visit b.state k (work - b.spent)).1
              spent := b.spent + (visit b.state k (work - b.spent)).2
              visited := b.visited ++ [k] } hnext (not_le.mp hwork) hlen
          have hfinished := h.finishes b.state k (work - b.spent) (by omega)
          refine ⟨k :: done, rest, rfl, hstops.next, ?_, ?_, ?_, hstops.within,
            hstops.withinMost, ?_, ?_⟩
          · rintro k' (_ | ⟨_, hk'⟩)
            · exact ⟨hstops.keeps _ hfinished, hstops.visited _ (by simp)⟩
            · exact hstops.finished k' hk'
          · exact fun k' hd => hstops.keeps k' (hkeeps k' hd)
          · exact fun k' hk' => hstops.visited k' (List.mem_append_left _ hk')
          · have := hstops.pays
            dsimp only at this
            omega
          · intro hne
            refine (hstops.progress hne).imp_right fun hle => ?_
            simp only [List.length_append, List.length_cons, List.length_nil] at hle ⊢
            omega

/-! ## § A walk -/

section Walk

variable [LinearOrder κ] {keys : List κ}

/-- The keys from where a batch starts. -/
def keysFrom (keys : List κ) (start : Option κ) : List κ :=
  (keys.filter fun k => ∀ first ∈ start, first ≤ k).insertionSort (· ≤ ·)

def batch (visit : σ → κ → ℕ → σ × ℕ) (work most : ℕ) (keys : List κ) (s : σ)
    (start : Option κ) : Batch κ σ :=
  loop visit work most (keysFrom keys start) ⟨s, 0, [], none⟩

/-- The batches of a walk: each starts where the one before it stopped. -/
def batches (visit : ℕ → σ → κ → ℕ → σ × ℕ) (work most : ℕ) (keys : List κ) (s : σ) :
    ℕ → Batch κ σ
  | 0 => batch (visit 0) work most keys s none
  | j + 1 =>
      let b := batches visit work most keys s j
      batch (visit (j + 1)) work most keys b.state b.next

theorem mem_keysFrom {start : Option κ} {k : κ} :
    k ∈ keysFrom keys start ↔ k ∈ keys ∧ ∀ first ∈ start, first ≤ k := by
  simp [keysFrom, List.mem_insertionSort]

/-- How many keys are left to visit. -/
def remaining (keys : List κ) (start : Option κ) : ℕ :=
  keys.countP fun k => ∀ first ∈ start, first ≤ k

theorem length_keysFrom (keys : List κ) (start : Option κ) :
    (keysFrom keys start).length = remaining keys start := by
  rw [keysFrom, List.length_insertionSort, remaining, List.countP_eq_length_filter]

/-- Where the walk goes on, the keys finished are no longer left. -/
theorem remaining_next (hkeys : keys.Nodup) {start : Option κ} {done rest : List κ} {n : κ}
    (hsplit : keysFrom keys start = done ++ n :: rest) :
    remaining keys (some n) + done.length ≤ remaining keys start ∧ ∀ k ∈ done, k < n := by
  have hsorted : (done ++ n :: rest).Pairwise (· ≤ ·) :=
    hsplit ▸ List.pairwise_insertionSort (· ≤ ·) _
  have hnodup : (done ++ n :: rest).Nodup :=
    hsplit ▸ ((List.perm_insertionSort (· ≤ ·) _).nodup_iff.mpr (hkeys.filter _))
  have hbefore : ∀ k ∈ done, k < n := by
    intro k hk
    have hle := (List.pairwise_append.mp hsorted).2.2 k hk n (List.mem_cons_self ..)
    refine lt_of_le_of_ne hle fun heq => ?_
    exact (List.nodup_append.mp hnodup).2.2 k hk n (List.mem_cons_self ..) heq
  refine ⟨?_, hbefore⟩
  have hstart : ∀ first ∈ start, first ≤ n :=
    (mem_keysFrom.mp (hsplit ▸ List.mem_append_right _ (List.mem_cons_self ..))).2
  -- the keys left after `n` are among those from `start`, and none of them is finished
  have hleft : remaining keys (some n) = (keysFrom keys start).countP fun k => n ≤ k := by
    rw [keysFrom, (List.perm_insertionSort (· ≤ ·) _).countP_eq, List.countP_filter, remaining]
    refine List.countP_congr fun k _ => ?_
    simp only [Option.mem_some_iff, forall_eq', decide_eq_true_eq, Bool.and_eq_true]
    exact ⟨fun h => ⟨h, fun first hfirst => (hstart first hfirst).trans h⟩, And.left⟩
  have hdone : done.countP (fun k => n ≤ k) = 0 :=
    List.countP_eq_zero.mpr fun k hk => by simpa using hbefore k hk
  rw [hleft, ← length_keysFrom, hsplit, List.countP_append, hdone, List.length_append]
  have := @List.countP_le_length _ (fun k => decide (n ≤ k)) (n :: rest)
  omega

variable {visit : ℕ → σ → κ → ℕ → σ × ℕ} {s : σ}

theorem batch_stops {visit : σ → κ → ℕ → σ × ℕ} (h : Pays visit left Done) (hwork : 0 < work)
    (start : Option κ) :
    ∃ done rest, keysFrom keys start = done ++ rest ∧
      Stops left Done work most ⟨s, 0, [], none⟩ (batch visit work most keys s start) done rest :=
  loop_stops h rfl hwork (Nat.zero_le _)

theorem batches_stops {Done : ℕ → σ → κ → Prop} (h : ∀ j, Pays (visit j) left (Done j))
    (hwork : 0 < work) (j : ℕ) :
    (batches visit work most keys s j).spent ≤ work ∧
      (batches visit work most keys s j).visited.length ≤ most := by
  cases j with
  | zero =>
      obtain ⟨_, _, _, hstops⟩ := batch_stops (h 0) hwork none
      exact ⟨hstops.within, hstops.withinMost⟩
  | succ j =>
      obtain ⟨_, _, _, hstops⟩ := batch_stops (h (j + 1)) hwork _
      exact ⟨hstops.within, hstops.withinMost⟩

/-- **A walk ends.** Each batch that is not the last spends something or leaves fewer keys. -/
theorem batches_end {Done : ℕ → σ → κ → Prop} (h : ∀ j, Pays (visit j) left (Done j))
    (hwork : 0 < work) (hmost : 0 < most) (hkeys : keys.Nodup) :
    ∃ n, (batches visit work most keys s n).next = none ∧
      ∀ j < n, (batches visit work most keys s j).next ≠ none := by
  classical
  suffices hex : ∃ n, (batches visit work most keys s n).next = none from
    ⟨Nat.find hex, Nat.find_spec hex, fun j hj => Nat.find_min hex hj⟩
  by_contra hnever
  have hmore : ∀ j, (batches visit work most keys s j).next ≠ none := fun j hj => hnever ⟨j, hj⟩
  set size := fun j => left (batches visit work most keys s j).state +
    remaining keys (batches visit work most keys s j).next with hsize
  have hless : ∀ j, size (j + 1) < size j := by
    intro j
    obtain ⟨done, rest, hsplit, hstops⟩ := @batch_stops κ σ left _ work most _ keys
      (batches visit work most keys s j).state _ (h (j + 1)) hwork
      (batches visit work most keys s j).next
    have hnext := hstops.next
    cases rest with
    | nil => exact absurd hnext (hmore (j + 1))
    | cons n rest =>
        have hrest := (remaining_next hkeys hsplit).1
        have hpays := hstops.pays
        have hprogress := hstops.progress (List.cons_ne_nil _ _)
        rw [List.head?_cons] at hnext
        simp only [hsize, batches, hnext]
        simp only [List.length_nil] at hprogress hpays
        omega
  have hsum : ∀ j, size j + j ≤ size 0 := by
    intro j
    induction j with
    | zero => exact le_rfl
    | succ j ih => have := hless j; omega
  have := hsum (size 0 + 1)
  omega

/-- The key is behind where the next batch starts. -/
def Passed (b : Batch κ σ) (k : κ) : Prop := ∀ n ∈ b.next, k < n

/-- A key from where the batch starts that is passed is finished. -/
theorem batch_passed {visit : σ → κ → ℕ → σ × ℕ} (h : Pays visit left Done) (hwork : 0 < work)
    {start : Option κ} {k : κ} (hk : k ∈ keys) (hfrom : ∀ first ∈ start, first ≤ k)
    (hpassed : Passed (batch visit work most keys s start) k) :
    Done (batch visit work most keys s start).state k ∧
      k ∈ (batch visit work most keys s start).visited := by
  obtain ⟨done, rest, hsplit, hstops⟩ := @batch_stops κ σ left Done work most _ keys s visit h
    hwork start
  have hmem : k ∈ done ++ rest := hsplit ▸ mem_keysFrom.mpr ⟨hk, hfrom⟩
  rcases List.mem_append.mp hmem with hdone | hrest
  · exact hstops.finished k hdone
  · cases rest with
    | nil => cases hrest
    | cons first rest =>
        have hsorted : (done ++ first :: rest).Pairwise (· ≤ ·) :=
          hsplit ▸ List.pairwise_insertionSort (· ≤ ·) _
        have hle : first ≤ k := by
          rcases List.mem_cons.mp hrest with rfl | hrest
          · exact le_rfl
          · exact List.rel_of_pairwise_cons (List.pairwise_append.mp hsorted).2.1 hrest
        exact absurd (hpassed first hstops.next) (not_lt.mpr hle)

/-- **A walk finishes what it passes**, whatever limits its batches stopped at. -/
theorem batches_passed {n : ℕ} (h : ∀ j ≤ n, Pays (visit j) left Done) (hwork : 0 < work) :
    ∀ k ∈ keys, Passed (batches visit work most keys s n) k →
      Done (batches visit work most keys s n).state k ∧
        ∃ j ≤ n, k ∈ (batches visit work most keys s j).visited := by
  induction n with
  | zero =>
      intro k hk hpassed
      obtain ⟨hdone, hvisited⟩ := batch_passed (h 0 le_rfl) hwork hk (by simp) hpassed
      exact ⟨hdone, 0, le_rfl, hvisited⟩
  | succ n ih =>
      intro k hk hpassed
      by_cases hbefore : Passed (batches visit work most keys s n) k
      · obtain ⟨hdone, j, hj, hvisited⟩ := ih (fun j hj => h j (by omega)) k hk hbefore
        obtain ⟨_, _, _, hstops⟩ := @batch_stops κ σ left Done work most _ keys
          (batches visit work most keys s n).state _ (h (n + 1) le_rfl) hwork
          (batches visit work most keys s n).next
        exact ⟨hstops.keeps k hdone, j, by omega, hvisited⟩
      · have hfrom : ∀ first ∈ (batches visit work most keys s n).next, first ≤ k := by
          intro first hfirst
          by_contra hlt
          refine hbefore fun m hm => ?_
          rw [Option.mem_unique hm hfirst]
          exact not_le.mp hlt
        obtain ⟨hdone, hvisited⟩ := batch_passed (h (n + 1) le_rfl) hwork hk hfrom hpassed
        exact ⟨hdone, n + 1, le_rfl, hvisited⟩

end Walk

end Foundation.Batches
