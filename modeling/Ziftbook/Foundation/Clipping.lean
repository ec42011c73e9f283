import Ziftbook.Foundation.Intervals

/-!
# Cutting one list of intervals by another

Each interval of one list is cut by each of another, and the empty pieces are
dropped. Of two separated lists the pieces are the intersection, again
separated.
-/

namespace Foundation.Intervals

variable {α : Type*} [LinearOrder α]

/-- Sorted, with a gap between any two, and none empty. -/
structure Spans (xs : List (α × α)) : Prop where
  apart : xs.Pairwise fun x y => x.2 < y.1
  nonempty : ∀ x ∈ xs, x.1 < x.2

theorem Spans.separated {xs : List (α × α)} (h : Spans xs) : Separated xs :=
  ⟨h.apart, fun x hx => (h.nonempty x hx).le⟩

/-- Separated lists are told apart by the points they cover. -/
theorem Spans.ext {xs ys : List (α × α)} (hxs : Spans xs) (hys : Spans ys)
    (h : ∀ p, Covers xs p ↔ Covers ys p) : xs = ys := by
  have hmem : ∀ x, x ∈ xs ↔ x ∈ ys := by
    intro x
    rw [hxs.separated.mem_iff_isRun hxs.nonempty, hys.separated.mem_iff_isRun hys.nonempty]
    exact isRun_congr h
  have hnodup : ∀ {zs : List (α × α)}, Spans zs → zs.Nodup := by
    intro zs hzs
    refine hzs.apart.imp_of_mem ?_
    rintro x y hx _ hgap rfl
    exact absurd hgap (hzs.nonempty x hx).le.not_gt
  have hperm : xs.Perm ys := (List.perm_ext_iff_of_nodup (hnodup hxs) (hnodup hys)).mpr hmem
  refine hperm.eq_of_pairwise ?_ hxs.apart hys.apart
  intro x y hx hy hxy hyx
  have hback : y.2 < y.2 :=
    (hyx.trans (hxs.nonempty x hx)).trans (hxy.trans (hys.nonempty y hy))
  exact absurd hback (lt_irrefl _)

/-! ## § One interval cut by another -/

/-- The part of `x` inside `y`, when there is any. -/
def cut (x y : α × α) : Option (α × α) :=
  if max x.1 y.1 < min x.2 y.2 then some (max x.1 y.1, min x.2 y.2) else none

theorem mem_cut {x y z : α × α} :
    z ∈ cut x y ↔ z.1 < z.2 ∧ max x.1 y.1 = z.1 ∧ min x.2 y.2 = z.2 := by
  unfold cut
  split_ifs with h
  · constructor
    · rintro ⟨⟩
      exact ⟨h, rfl, rfl⟩
    · rintro ⟨_, hstart, hend⟩
      show some (max x.1 y.1, min x.2 y.2) = some z
      rw [hstart, hend]
  · constructor
    · rintro ⟨⟩
    · rintro ⟨hlt, hstart, hend⟩
      rw [hstart, hend] at h
      exact absurd hlt h

/-- What is left lies in both. -/
theorem inside_of_mem_cut {x y z : α × α} (h : z ∈ cut x y) :
    (x.1 ≤ z.1 ∧ z.2 ≤ x.2) ∧ y.1 ≤ z.1 ∧ z.2 ≤ y.2 := by
  obtain ⟨_, hstart, hend⟩ := mem_cut.mp h
  rw [← hstart, ← hend]
  exact ⟨⟨le_max_left .., min_le_left ..⟩, le_max_right .., min_le_right ..⟩

/-! ## § A list cut by another -/

/-- Every interval of `xs`, cut by every one of `ys`. -/
def inter (xs ys : List (α × α)) : List (α × α) :=
  xs.flatMap fun x => ys.filterMap (cut x)

theorem mem_inter {xs ys : List (α × α)} {z : α × α} :
    z ∈ inter xs ys ↔ ∃ x ∈ xs, ∃ y ∈ ys, z ∈ cut x y := by
  simp only [inter, List.mem_flatMap, List.mem_filterMap, Option.mem_def]

/-- **The pieces cover what both lists cover.** -/
theorem covers_inter (xs ys : List (α × α)) (p : α) :
    Covers (inter xs ys) p ↔ Covers xs p ∧ Covers ys p := by
  constructor
  · rintro ⟨z, hz, hstart, hend⟩
    obtain ⟨x, hx, y, hy, hcut⟩ := mem_inter.mp hz
    obtain ⟨hinx, hiny⟩ := inside_of_mem_cut hcut
    exact ⟨⟨x, hx, hinx.1.trans hstart, hend.trans_le hinx.2⟩,
      y, hy, hiny.1.trans hstart, hend.trans_le hiny.2⟩
  · rintro ⟨⟨x, hx, hxp, hpx⟩, y, hy, hyp, hpy⟩
    have hstart : max x.1 y.1 ≤ p := max_le hxp hyp
    have hend : p < min x.2 y.2 := lt_min hpx hpy
    have hcut : (max x.1 y.1, min x.2 y.2) ∈ cut x y :=
      mem_cut.mpr ⟨hstart.trans_lt hend, rfl, rfl⟩
    exact ⟨_, mem_inter.mpr ⟨x, hx, y, hy, hcut⟩, hstart, hend⟩

/-- **The pieces of separated lists are separated.** Two pieces of one interval
are as far apart as the two that cut them; pieces of different intervals at
least as far apart as those. -/
theorem Spans.inter {xs ys : List (α × α)} (hxs : Spans xs) (hys : Spans ys) :
    Spans (inter xs ys) := by
  refine ⟨?_, fun z hz => ?_⟩
  · rw [Intervals.inter, List.pairwise_flatMap]
    constructor
    · intro x _
      rw [List.pairwise_filterMap]
      refine hys.apart.imp ?_
      intro y y' hgap z hz z' hz'
      exact ((inside_of_mem_cut hz).2.2.trans_lt hgap).trans_le (inside_of_mem_cut hz').2.1
    · refine hxs.apart.imp ?_
      intro x x' hgap z hz z' hz'
      obtain ⟨y, _, hcut⟩ := List.mem_filterMap.mp hz
      obtain ⟨y', _, hcut'⟩ := List.mem_filterMap.mp hz'
      exact ((inside_of_mem_cut hcut).1.2.trans_lt hgap).trans_le (inside_of_mem_cut hcut').1.1
  · obtain ⟨x, _, y, _, hcut⟩ := mem_inter.mp hz
    exact (mem_cut.mp hcut).1

/-- **Nothing is cut away exactly where each interval lies inside one of the
others.** -/
theorem inter_eq_left_iff {xs ys : List (α × α)} (hxs : Spans xs) (hys : Spans ys) :
    inter xs ys = xs ↔ ∀ x ∈ xs, ∃ y ∈ ys, y.1 ≤ x.1 ∧ x.2 ≤ y.2 := by
  constructor
  · intro heq z hz
    rw [← heq] at hz
    obtain ⟨x, _, y, hy, hcut⟩ := mem_inter.mp hz
    exact ⟨y, hy, (inside_of_mem_cut hcut).2⟩
  · intro hinside
    refine (hxs.inter hys).ext hxs fun p => ?_
    rw [covers_inter]
    constructor
    · exact And.left
    · rintro ⟨x, hx, hxp, hpx⟩
      obtain ⟨y, hy, hstart, hend⟩ := hinside x hx
      exact ⟨⟨x, hx, hxp, hpx⟩, y, hy, hstart.trans hxp, hpx.trans_le hend⟩

end Foundation.Intervals
