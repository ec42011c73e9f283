import Mathlib.Data.List.Sort
import Mathlib.Data.Prod.Lex
import Mathlib.Tactic

/-!
# Half-open intervals over a linear order

An interval is a pair read as `[start, end)`. A list of them is swept into
separated blocks: sorted by start, with overlapping or touching ones joined.
The sweep is stated over its reversed accumulator, so the block written last
is the head of the list.
-/

namespace Foundation.Intervals

variable {α : Type*} [LinearOrder α]

/-! ## § What a list of intervals says -/

/-- `[a, b)` shares a point with `x`. Touching is not meeting. -/
def Meets (x : α × α) (a b : α) : Prop := x.1 < b ∧ a < x.2

instance (x : α × α) (a b : α) : Decidable (Meets x a b) :=
  inferInstanceAs (Decidable (_ ∧ _))

theorem Meets.mono_stop {x : α × α} {a b b' : α} (h : Meets x a b) (hle : b ≤ b') :
    Meets x a b' :=
  ⟨h.1.trans_le hle, h.2⟩

/-- Intervals that are not empty meet at a point of both, the later of their starts. -/
theorem meets_iff_exists {x : α × α} {a b : α} (hx : x.1 < x.2) (hab : a < b) :
    Meets x a b ↔ ∃ p, (x.1 ≤ p ∧ p < x.2) ∧ a ≤ p ∧ p < b := by
  constructor
  · rintro ⟨hb, ha⟩
    exact ⟨max x.1 a, ⟨le_max_left .., max_lt hx ha⟩, le_max_right .., max_lt hb hab⟩
  · rintro ⟨p, ⟨hstart, hstop⟩, ha, hb⟩
    exact ⟨hstart.trans_lt hb, ha.trans_lt hstop⟩

/-- Some interval of the list holds the point. -/
def Covers (xs : List (α × α)) (p : α) : Prop := ∃ x ∈ xs, x.1 ≤ p ∧ p < x.2

/-- Sorted, none turned round, with a gap between any two. -/
structure Separated (xs : List (α × α)) : Prop where
  apart : xs.Pairwise fun x y => x.2 < y.1
  forward : ∀ x ∈ xs, x.1 ≤ x.2

/-- `x` is a maximal stretch of the points satisfying `C`. -/
structure IsRun (C : α → Prop) (x : α × α) : Prop where
  nonempty : x.1 < x.2
  inside : ∀ p, x.1 ≤ p → p < x.2 → C p
  maximal : ∀ y : α × α, y.1 ≤ x.1 → x.2 ≤ y.2 →
    (∀ p, y.1 ≤ p → p < y.2 → C p) → y = x

/-! ## § The sweep -/

/-- Join `x` to the block written last, or write it as a new one. -/
def absorb (out : List (α × α)) (x : α × α) : List (α × α) :=
  match out with
  | [] => [x]
  | last :: rest =>
      if x.1 ≤ last.2 then (last.1, max last.2 x.2) :: rest else x :: last :: rest

def sweep (xs : List (α × α)) : List (α × α) := (xs.foldl absorb []).reverse

/-- What holds of the reversed accumulator between two steps of the sweep. -/
structure Stack (out : List (α × α)) : Prop where
  apart : out.Pairwise fun x y => y.2 < x.1
  forward : ∀ x ∈ out, x.1 ≤ x.2

theorem stack_nil : Stack ([] : List (α × α)) := ⟨List.Pairwise.nil, by simp⟩

theorem Stack.absorb {out : List (α × α)} {x : α × α} (h : Stack out)
    (hx : x.1 ≤ x.2) : Stack (absorb out x) := by
  cases out with
  | nil => exact ⟨List.pairwise_singleton _ _, by simpa [Intervals.absorb] using hx⟩
  | cons last rest =>
      obtain ⟨hlast, hrest⟩ := List.pairwise_cons.mp h.apart
      have hfwd := h.forward last (List.mem_cons_self ..)
      simp only [Intervals.absorb]
      split
      · refine ⟨List.pairwise_cons.mpr ⟨hlast, hrest⟩, ?_⟩
        intro y hy
        rcases List.mem_cons.mp hy with rfl | hy
        · exact le_trans hfwd (le_max_left ..)
        · exact h.forward y (List.mem_cons_of_mem _ hy)
      · rename_i hgap
        refine ⟨List.pairwise_cons.mpr ⟨?_, h.apart⟩, ?_⟩
        · intro y hy
          have hgap' : last.2 < x.1 := not_le.mp hgap
          rcases List.mem_cons.mp hy with rfl | hy
          · exact hgap'
          · exact lt_trans (hlast y hy) (lt_of_le_of_lt hfwd hgap')
        · intro y hy
          rcases List.mem_cons.mp hy with rfl | hy
          · exact hx
          · exact h.forward y hy

/-- After a step the block written last starts no later than the interval read. -/
theorem absorb_head_le {out : List (α × α)} {x last : α × α} {rest : List (α × α)}
    (hhead : ∀ y ∈ out.head?, y.1 ≤ x.1) (h : absorb out x = last :: rest) :
    last.1 ≤ x.1 := by
  cases out with
  | nil => simp only [absorb, List.cons.injEq] at h; rw [← h.1]
  | cons y ys =>
      simp only [absorb] at h
      split at h
      · simp only [List.cons.injEq] at h
        rw [← h.1]
        exact hhead y (by simp)
      · simp only [List.cons.injEq] at h
        rw [← h.1]

/-- A step changes what `[a, b)` meets by the interval read, and nothing else. -/
theorem meets_absorb {out : List (α × α)} {x : α × α} {a b : α} (hab : a < b)
    (hfwd : ∀ y ∈ out, y.1 ≤ y.2) (hhead : ∀ y ∈ out.head?, y.1 ≤ x.1) :
    (∃ y ∈ absorb out x, Meets y a b) ↔ (∃ y ∈ out, Meets y a b) ∨ Meets x a b := by
  cases out with
  | nil => simp [absorb]
  | cons last rest =>
      have hstart := hhead last (by simp)
      have hlast := hfwd last (List.mem_cons_self ..)
      simp only [absorb]
      split
      · rename_i htouch
        have hjoin : Meets (last.1, max last.2 x.2) a b ↔ Meets last a b ∨ Meets x a b := by
          simp only [Meets, lt_max_iff]
          constructor
          · rintro ⟨hb, ha | ha⟩
            · exact Or.inl ⟨hb, ha⟩
            · by_cases hla : a < last.2
              · exact Or.inl ⟨hb, hla⟩
              · exact Or.inr ⟨lt_of_le_of_lt (htouch.trans (not_lt.mp hla)) hab, ha⟩
          · rintro (⟨hb, ha⟩ | ⟨hb, ha⟩)
            · exact ⟨hb, Or.inl ha⟩
            · exact ⟨lt_of_le_of_lt hstart hb, Or.inr ha⟩
        simp only [List.mem_cons, exists_eq_or_imp, hjoin]
        exact or_right_comm
      · simp only [List.mem_cons, exists_eq_or_imp]
        exact or_comm

theorem covers_absorb {out : List (α × α)} {x : α × α} {p : α}
    (hfwd : ∀ y ∈ out, y.1 ≤ y.2) (hhead : ∀ y ∈ out.head?, y.1 ≤ x.1) :
    Covers (absorb out x) p ↔ Covers out p ∨ (x.1 ≤ p ∧ p < x.2) := by
  cases out with
  | nil => simp [absorb, Covers]
  | cons last rest =>
      have hstart := hhead last (by simp)
      have hlast := hfwd last (List.mem_cons_self ..)
      simp only [absorb]
      split
      · rename_i htouch
        have hjoin : (last.1 ≤ p ∧ p < max last.2 x.2) ↔
            (last.1 ≤ p ∧ p < last.2) ∨ (x.1 ≤ p ∧ p < x.2) := by
          rw [lt_max_iff]
          constructor
          · rintro ⟨hp, h | h⟩
            · exact Or.inl ⟨hp, h⟩
            · by_cases hl : p < last.2
              · exact Or.inl ⟨hp, hl⟩
              · exact Or.inr ⟨htouch.trans (not_lt.mp hl), h⟩
          · rintro (⟨hp, h⟩ | ⟨hp, h⟩)
            · exact ⟨hp, Or.inl h⟩
            · exact ⟨hstart.trans hp, Or.inr h⟩
        simp only [Covers, List.mem_cons, exists_eq_or_imp, hjoin]
        exact or_right_comm
      · simp only [Covers, List.mem_cons, exists_eq_or_imp]
        exact or_comm

/-! ## § What the sweep of a sorted list gives -/

/-- The three facts one pass carries along, from any stack it may start on. -/
theorem foldl_absorb_spec {xs : List (α × α)} : ∀ {out : List (α × α)},
    xs.Pairwise (fun x y => x.1 ≤ y.1) → (∀ x ∈ xs, x.1 ≤ x.2) →
    Stack out → (∀ y ∈ out.head?, ∀ x ∈ xs, y.1 ≤ x.1) →
    Stack (xs.foldl absorb out) ∧
      (∀ a b, a < b → ((∃ y ∈ xs.foldl absorb out, Meets y a b) ↔
        (∃ y ∈ out, Meets y a b) ∨ ∃ x ∈ xs, Meets x a b)) ∧
      ∀ p, Covers (xs.foldl absorb out) p ↔ Covers out p ∨ Covers xs p := by
  induction xs with
  | nil =>
      intro out _ _ hout _
      exact ⟨hout, by simp, by simp [Covers]⟩
  | cons x xs ih =>
      intro out hsorted hfwd hout hhead
      obtain ⟨hle, hsorted⟩ := List.pairwise_cons.mp hsorted
      have hx := hfwd x (List.mem_cons_self ..)
      have hheadx : ∀ y ∈ out.head?, y.1 ≤ x.1 :=
        fun y hy => hhead y hy x (List.mem_cons_self ..)
      have hheadNext : ∀ y ∈ (absorb out x).head?, ∀ z ∈ xs, y.1 ≤ z.1 := by
        intro y hy z hz
        obtain ⟨rest, hrest⟩ := List.head?_eq_some_iff.mp hy
        exact (absorb_head_le hheadx hrest).trans (hle z hz)
      obtain ⟨hstack, hmeets, hcovers⟩ := ih hsorted
        (fun y hy => hfwd y (List.mem_cons_of_mem _ hy)) (hout.absorb hx) hheadNext
      refine ⟨hstack, ?_, ?_⟩
      · intro a b hab
        rw [List.foldl_cons, hmeets a b hab, meets_absorb hab hout.forward hheadx]
        simp only [List.mem_cons, exists_eq_or_imp]
        exact or_assoc
      · intro p
        rw [List.foldl_cons, hcovers p, covers_absorb hout.forward hheadx]
        simp only [Covers, List.mem_cons, exists_eq_or_imp]
        exact or_assoc

theorem sweep_separated {xs : List (α × α)}
    (hsorted : xs.Pairwise fun x y => x.1 ≤ y.1) (hfwd : ∀ x ∈ xs, x.1 ≤ x.2) :
    Separated (sweep xs) := by
  have h := (foldl_absorb_spec hsorted hfwd stack_nil (by simp)).1
  exact ⟨List.pairwise_reverse.mpr h.apart,
    fun x hx => h.forward x (List.mem_reverse.mp hx)⟩

/-- **Sweeping keeps what every interval meets.** -/
theorem meets_sweep {xs : List (α × α)} {a b : α}
    (hsorted : xs.Pairwise fun x y => x.1 ≤ y.1) (hfwd : ∀ x ∈ xs, x.1 ≤ x.2)
    (hab : a < b) :
    (∃ y ∈ sweep xs, Meets y a b) ↔ ∃ x ∈ xs, Meets x a b := by
  have h := (foldl_absorb_spec hsorted hfwd stack_nil (by simp)).2.1 a b hab
  simpa [sweep] using h

/-- **Sweeping keeps the points covered.** -/
theorem covers_sweep {xs : List (α × α)} {p : α}
    (hsorted : xs.Pairwise fun x y => x.1 ≤ y.1) (hfwd : ∀ x ∈ xs, x.1 ≤ x.2) :
    Covers (sweep xs) p ↔ Covers xs p := by
  have h := (foldl_absorb_spec hsorted hfwd stack_nil (by simp)).2.2 p
  simpa [sweep, Covers] using h

/-- A step joins only intervals that touch, so none becomes empty. -/
theorem absorb_nonempty {out : List (α × α)} {x : α × α} (hx : x.1 < x.2)
    (hout : ∀ y ∈ out, y.1 < y.2) : ∀ y ∈ absorb out x, y.1 < y.2 := by
  cases out with
  | nil => simpa [absorb] using hx
  | cons last rest =>
      intro y hy
      simp only [absorb] at hy
      split at hy
      · rcases List.mem_cons.mp hy with rfl | hy
        · exact lt_max_of_lt_left (hout last (List.mem_cons_self ..))
        · exact hout y (List.mem_cons_of_mem _ hy)
      · rcases List.mem_cons.mp hy with rfl | hy
        · exact hx
        · exact hout y hy

theorem sweep_nonempty {xs : List (α × α)} (h : ∀ x ∈ xs, x.1 < x.2) :
    ∀ y ∈ sweep xs, y.1 < y.2 := by
  have main : ∀ (zs out : List (α × α)), (∀ x ∈ zs, x.1 < x.2) →
      (∀ y ∈ out, y.1 < y.2) → ∀ y ∈ zs.foldl absorb out, y.1 < y.2 := by
    intro zs
    induction zs with
    | nil => intro out _ hout; exact hout
    | cons z zs ih =>
        intro out hzs hout
        exact ih _ (fun x hx => hzs x (List.mem_cons_of_mem _ hx))
          (absorb_nonempty (hzs z (List.mem_cons_self ..)) hout)
  intro y hy
  exact main xs [] h (by simp) y (List.mem_reverse.mp hy)

/-! ## § Separated blocks are the maximal runs -/

/-- Of two different blocks, one has ended before the other begins. -/
theorem Separated.before_or_after {ys : List (α × α)} (h : Separated ys)
    {x y : α × α} (hx : x ∈ ys) (hy : y ∈ ys) (hne : x ≠ y) :
    x.2 < y.1 ∨ y.2 < x.1 := by
  have hsymm : ys.Pairwise fun u v => u.2 < v.1 ∨ v.2 < u.1 := h.apart.imp Or.inl
  have : Std.Symm fun u v : α × α => u.2 < v.1 ∨ v.2 < u.1 := ⟨fun _ _ h => h.symm⟩
  exact hsymm.forall hx hy hne

/-- The end of a block lies in no block. -/
theorem Separated.end_uncovered {ys : List (α × α)} (h : Separated ys) {y : α × α}
    (hy : y ∈ ys) : ¬ Covers ys y.2 := by
  rintro ⟨z, hz, hzy, hyz⟩
  by_cases hne : y = z
  · subst hne
    exact lt_irrefl _ hyz
  · rcases h.before_or_after hy hz hne with h' | h'
    · exact absurd hzy (not_le.mpr h')
    · exact absurd (lt_trans h' (lt_of_le_of_lt (h.forward y hy) hyz)) (lt_irrefl _)

/-- Two blocks that share a point are one block. -/
theorem Separated.eq_of_shared {ys : List (α × α)} (h : Separated ys) {x y : α × α}
    (hx : x ∈ ys) (hy : y ∈ ys) {p : α} (hpx : x.1 ≤ p ∧ p < x.2)
    (hpy : y.1 ≤ p ∧ p < y.2) : x = y := by
  by_contra hne
  rcases h.before_or_after hx hy hne with h' | h'
  · exact absurd (lt_of_lt_of_le (lt_trans hpx.2 h') hpy.1) (lt_irrefl _)
  · exact absurd (lt_of_lt_of_le (lt_trans hpy.2 h') hpx.1) (lt_irrefl _)

/-- **The blocks of a separated list are exactly the maximal runs it covers.** -/
theorem Separated.mem_iff_isRun {ys : List (α × α)} (h : Separated ys)
    (hne : ∀ y ∈ ys, y.1 < y.2) {x : α × α} : x ∈ ys ↔ IsRun (Covers ys) x := by
  constructor
  · intro hx
    refine ⟨hne x hx, fun p h1 h2 => ⟨x, hx, h1, h2⟩, ?_⟩
    intro z hz1 hz2 hz
    have hzx : x.2 = z.2 := by
      by_contra hlt
      have hlt : x.2 < z.2 := lt_of_le_of_ne hz2 hlt
      exact h.end_uncovered hx (hz x.2 (hz1.trans (hne x hx).le) hlt)
    have hxz : z.1 = x.1 := by
      by_contra hlt
      have hlt : z.1 < x.1 := lt_of_le_of_ne hz1 hlt
      obtain ⟨y, hy, hy1, hy2⟩ := hz z.1 le_rfl (hlt.trans ((hne x hx).trans_le hz2))
      -- the block over `z.1` ends inside `z`, where nothing covers its end
      have hyx : y.2 < z.2 := by
        by_contra hle
        have hshared := h.eq_of_shared hy hx (p := x.1)
          ⟨hy1.trans hlt.le, lt_of_lt_of_le (hne x hx) (hz2.trans (not_lt.mp hle))⟩
          ⟨le_rfl, hne x hx⟩
        exact absurd hy1 (not_le.mpr (hshared ▸ hlt))
      exact h.end_uncovered hy (hz y.2 hy2.le hyx)
    exact Prod.ext hxz hzx.symm
  · intro hx
    obtain ⟨y, hy, hy1, hy2⟩ := hx.inside x.1 le_rfl hx.nonempty
    have hend : x.2 ≤ y.2 := by
      by_contra hlt
      exact h.end_uncovered hy (hx.inside y.2 hy2.le (not_le.mp hlt))
    have := hx.maximal y hy1 hend fun p h1 h2 => ⟨y, hy, h1, h2⟩
    exact this ▸ hy

/-- Runs depend only on the points. -/
theorem isRun_congr {C D : α → Prop} (h : ∀ p, C p ↔ D p) {x : α × α} :
    IsRun C x ↔ IsRun D x := by
  have : C = D := funext fun p => propext (h p)
  rw [this]

end Foundation.Intervals
