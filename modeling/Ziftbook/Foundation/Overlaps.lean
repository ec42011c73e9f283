import Mathlib.Data.Set.Card
import Ziftbook.Foundation.Intervals

/-!
# Overlapping intervals and their colours

A family of half-open intervals over a linear order. Two overlap when they
share a point; those joined by a chain of overlaps make a cluster. Colours
that differ wherever two overlap are at least as many as the intervals over
any one point.
-/

namespace Foundation.Intervals

variable {ι α : Type*} [LinearOrder α]

section Family

variable (span : ι → α × α)

/-- The interval of `i` holds the point. -/
def Over (p : α) (i : ι) : Prop := (span i).1 ≤ p ∧ p < (span i).2

instance (p : α) : DecidablePred (Over span p) := fun _ => inferInstanceAs (Decidable (_ ∧ _))

/-- Touching is not overlapping. -/
def Overlap (i j : ι) : Prop := (span i).1 < (span j).2 ∧ (span j).1 < (span i).2

instance (i j : ι) : Decidable (Overlap span i j) := inferInstanceAs (Decidable (_ ∧ _))

/-- Joined by a chain of overlaps. -/
def Linked : ι → ι → Prop := Relation.ReflTransGen (Overlap span)

/-- How many of `K` are over the point. -/
def depthAt (K : Finset ι) (p : α) : ℕ := (K.filter (Over span p)).card

/-- All joined to each other, and to nothing else. -/
structure IsCluster (K : Finset ι) : Prop where
  linked : ∀ i ∈ K, ∀ j ∈ K, Linked span i j
  alone : ∀ i ∈ K, ∀ j, j ∉ K → ¬ Overlap span i j

end Family

variable {span : ι → α × α} {i j : ι} {p : α}

theorem Overlap.symm (h : Overlap span i j) : Overlap span j i := ⟨h.2, h.1⟩

theorem Linked.symm (h : Linked span i j) : Linked span j i := by
  induction h with
  | refl => exact Relation.ReflTransGen.refl
  | tail _ hstep ih => exact Relation.ReflTransGen.head hstep.symm ih

theorem overlap_of_over (hi : Over span p i) (hj : Over span p j) : Overlap span i j :=
  ⟨hi.1.trans_lt hj.2, hj.1.trans_lt hi.2⟩

/-- **Proper colours are as many as the depth.** -/
theorem depthAt_le {K : Finset ι} {k : ℕ} {colour : ι → ℕ} (hlt : ∀ i ∈ K, colour i < k)
    (hproper : ∀ i ∈ K, ∀ j ∈ K, i ≠ j → Overlap span i j → colour i ≠ colour j) (p : α) :
    depthAt span K p ≤ k := by
  rw [depthAt, ← Finset.card_range k]
  refine Finset.card_le_card_of_injOn colour (fun i hi => ?_) fun i hi j hj hsame => ?_
  · exact Finset.mem_coe.mpr (Finset.mem_range.mpr (hlt i (Finset.mem_filter.mp hi).1))
  · by_contra hne
    obtain ⟨hiK, hip⟩ := Finset.mem_filter.mp hi
    obtain ⟨hjK, hjp⟩ := Finset.mem_filter.mp hj
    exact hproper i hiK j hjK hne (overlap_of_over hip hjp) hsame

/-- A cluster is what is linked to any of its members. -/
theorem IsCluster.mem_iff {K : Finset ι} (h : IsCluster span K) (hi : i ∈ K) :
    j ∈ K ↔ Linked span i j := by
  constructor
  · exact h.linked i hi j
  · intro hlink
    induction hlink with
    | refl => exact hi
    | tail _ hstep ih =>
        by_contra hout
        exact h.alone _ ih _ hout hstep

/-- **Colours that the depth reaches are the depth of the cluster.** -/
theorem IsCluster.isGreatest {K : Finset ι} (h : IsCluster span K) (hi : i ∈ K) {k : ℕ}
    {colour : ι → ℕ} (hlt : ∀ i ∈ K, colour i < k)
    (hproper : ∀ i ∈ K, ∀ j ∈ K, i ≠ j → Overlap span i j → colour i ≠ colour j)
    (hdeep : ∃ p, k ≤ depthAt span K p) :
    IsGreatest {n | ∃ p, n = {j | Linked span i j ∧ Over span p j}.ncard} k := by
  have hdepth : ∀ p, {j | Linked span i j ∧ Over span p j}.ncard = depthAt span K p := by
    intro p
    rw [depthAt, ← Set.ncard_coe_finset]
    refine congrArg Set.ncard (Set.ext fun j => ?_)
    rw [Finset.mem_coe, Finset.mem_filter, h.mem_iff hi]
    rfl
  constructor
  · obtain ⟨p, hp⟩ := hdeep
    exact ⟨p, (hdepth p).symm ▸ le_antisymm hp (depthAt_le hlt hproper p)⟩
  · rintro n ⟨p, rfl⟩
    rw [hdepth]
    exact depthAt_le hlt hproper p

end Foundation.Intervals
