import Mathlib.Data.List.FinRange
import Ziftbook.Foundation.Overlaps

/-!
# Lanes of a calendar column

`lanes` of `lib/calendar.ts`: items side by side where they overlap. A sweep by
start puts each in the first lane that is free, and widens a cluster's items to
the lanes it took once a gap closes it.
-/

namespace Ziftbook

open Foundation.Intervals

/-! ## § The sweep -/

/-- An item of the column, in minutes. -/
structure Slice where
  start : ℚ
  stop : ℚ
deriving DecidableEq

structure Lane where
  lane : ℕ
  of : ℕ
deriving DecidableEq

/-- What the loop carries: the result so far, and the open cluster with its end and its
lanes' ends. -/
structure LaneSweep (n : ℕ) where
  out : Fin n → Option Lane
  cluster : List (Fin n)
  clusterEnd : ℚ
  laneEnds : List ℚ

/-- `close`: every item of the cluster is as narrow as its lanes are many. -/
def LaneSweep.close {n : ℕ} (s : LaneSweep n) : LaneSweep n :=
  { s with
    out := fun i =>
      if i ∈ s.cluster then (s.out i).map fun l => ⟨l.lane, s.laneEnds.length⟩ else s.out i
    cluster := []
    laneEnds := [] }

/-- `laneEnds[lane] = end`. -/
def setEnd (laneEnds : List ℚ) (lane : ℕ) (stop : ℚ) : List ℚ :=
  if lane < laneEnds.length then laneEnds.set lane stop else laneEnds ++ [stop]

/-- The first lane that is free from `start` on, or a new one. -/
def freeLane (laneEnds : List ℚ) (start : ℚ) : ℕ :=
  (laneEnds.findIdx? fun laneEnd => laneEnd ≤ start).getD laneEnds.length

section Sweep

variable (slices : List Slice)

def spanOf (i : Fin slices.length) : ℚ × ℚ := ((slices.get i).start, (slices.get i).stop)

/-- Put an item in the open cluster. -/
def LaneSweep.place (s : LaneSweep slices.length) (i : Fin slices.length) :
    LaneSweep slices.length :=
  let slice := slices.get i
  let lane := freeLane s.laneEnds slice.start
  { out := Function.update s.out i (some ⟨lane, 1⟩)
    cluster := s.cluster ++ [i]
    clusterEnd := if s.cluster = [] then slice.stop else max s.clusterEnd slice.stop
    laneEnds := setEnd s.laneEnds lane slice.stop }

/-- The loop body: a gap closes the cluster. -/
def LaneSweep.step (s : LaneSweep slices.length) (i : Fin slices.length) :
    LaneSweep slices.length :=
  (if s.cluster ≠ [] ∧ s.clusterEnd ≤ (slices.get i).start then s.close else s).place slices i

/-- The comparison puts `i` before `j`, or leaves them as they came. -/
def sliceLE (i j : Fin slices.length) : Prop :=
  toLex (spanOf slices i) ≤ toLex (spanOf slices j)

instance : DecidableRel (sliceLE slices) := fun _ _ => inferInstanceAs (Decidable (_ ≤ _))

instance : Std.Total (sliceLE slices) := ⟨fun _ _ => le_total _ _⟩

instance : IsTrans (Fin slices.length) (sliceLE slices) := ⟨fun _ _ _ => le_trans⟩

/-- The items by start, then by end. -/
def laneOrder : List (Fin slices.length) :=
  (List.finRange slices.length).insertionSort (sliceLE slices)

/-- `lanes`; an entry never written would be `none`. -/
def lanes : List (Option Lane) :=
  List.ofFn ((laneOrder slices).foldl (LaneSweep.step slices)
    ⟨fun _ => none, [], -1, []⟩).close.out

end Sweep

/-! ## § Lanes and their ends -/

theorem freeLane_cases (laneEnds : List ℚ) (start : ℚ) :
    (∃ h : freeLane laneEnds start < laneEnds.length, laneEnds[freeLane laneEnds start] ≤ start) ∨
      (freeLane laneEnds start = laneEnds.length ∧ ∀ e ∈ laneEnds, start < e) := by
  cases hfind : laneEnds.findIdx? (fun laneEnd => laneEnd ≤ start) with
  | none =>
      right
      have hlane : freeLane laneEnds start = laneEnds.length := by
        rw [freeLane, hfind]
        rfl
      refine ⟨hlane, fun e he => ?_⟩
      have hbusy := List.findIdx?_eq_none_iff.mp hfind e he
      exact not_le.mp (of_decide_eq_false hbusy)
  | some l =>
      left
      obtain ⟨hl, hfree, _⟩ := List.findIdx?_eq_some_iff_getElem.mp hfind
      have hlane : freeLane laneEnds start = l := by
        rw [freeLane, hfind]
        rfl
      refine ⟨hlane ▸ hl, ?_⟩
      simp only [hlane]
      exact of_decide_eq_true hfree

theorem setEnd_self {laneEnds : List ℚ} {lane : ℕ} {stop : ℚ} (h : lane ≤ laneEnds.length) :
    (setEnd laneEnds lane stop)[lane]? = some stop := by
  rw [setEnd]
  split
  · rename_i hlt
    rw [List.getElem?_set_self hlt]
  · have hlen : lane = laneEnds.length := by omega
    rw [hlen, List.getElem?_append_right le_rfl]
    simp

theorem setEnd_other {laneEnds : List ℚ} {lane : ℕ} {stop : ℚ} {l : ℕ} (hne : l ≠ lane)
    (h : l < laneEnds.length) : (setEnd laneEnds lane stop)[l]? = laneEnds[l]? := by
  rw [setEnd]
  split
  · exact List.getElem?_set_ne hne.symm
  · exact List.getElem?_append_left h

/-- A lane of the new ends is one of the old, or the one just set. -/
theorem of_lt_length_setEnd {laneEnds : List ℚ} {lane : ℕ} {stop : ℚ} {l : ℕ}
    (hle : lane ≤ laneEnds.length) (h : l < (setEnd laneEnds lane stop).length) (hne : l ≠ lane) :
    l < laneEnds.length := by
  rw [setEnd] at h
  split at h
  · rwa [List.length_set] at h
  · rw [List.length_append, List.length_singleton] at h
    omega

/-! ## § What the sweep keeps -/

section Invariant

variable {slices : List Slice}

/-- The lane an item was put in. -/
def LaneSweep.laneOf {n : ℕ} (s : LaneSweep n) (i : Fin n) : ℕ := ((s.out i).map Lane.lane).getD 0

/-- A closed cluster: its items' lanes tell overlapping ones apart, all of `k`, and `k` of
them are over one instant. -/
structure Coloured (s : LaneSweep slices.length) (K : Finset (Fin slices.length)) (k : ℕ) :
    Prop where
  cluster : IsCluster (spanOf slices) K
  lanes : ∀ j ∈ K, ∃ l < k, s.out j = some ⟨l, k⟩
  apart : ∀ i ∈ K, ∀ j ∈ K, i ≠ j → Overlap (spanOf slices) i j → s.laneOf i ≠ s.laneOf j
  deep : ∃ p, k ≤ depthAt (spanOf slices) K p

/-- Between two steps, of the items `done`. -/
structure Swept (done : Finset (Fin slices.length)) (s : LaneSweep slices.length) : Prop where
  sub : ∀ i ∈ s.cluster, i ∈ done
  lane : ∀ i ∈ s.cluster, s.out i = some ⟨s.laneOf i, 1⟩ ∧
    ∃ e, s.laneEnds[s.laneOf i]? = some e ∧ (spanOf slices i).2 ≤ e
  apart : ∀ i ∈ s.cluster, ∀ j ∈ s.cluster, i ≠ j → Overlap (spanOf slices) i j →
    s.laneOf i ≠ s.laneOf j
  holder : ∀ l < s.laneEnds.length, ∃ j ∈ s.cluster, s.laneOf j = l ∧
    s.laneEnds[l]? = some (spanOf slices j).2
  ends : ∀ i ∈ s.cluster, (spanOf slices i).2 ≤ s.clusterEnd
  last : s.cluster ≠ [] → ∃ i ∈ s.cluster, (spanOf slices i).2 = s.clusterEnd
  linked : ∀ i ∈ s.cluster, ∀ j ∈ s.cluster, Linked (spanOf slices) i j
  deep : s.cluster ≠ [] → ∃ p, s.laneEnds.length ≤ depthAt (spanOf slices) s.cluster.toFinset p
  closed : ∀ i ∈ done, i ∉ s.cluster → ∃ K k, i ∈ K ∧ K ⊆ done ∧ (∀ j ∈ K, j ∉ s.cluster) ∧
    Coloured s K k

theorem Coloured.congr {s s' : LaneSweep slices.length} {K : Finset (Fin slices.length)} {k : ℕ}
    (h : Coloured s K k) (hout : ∀ j ∈ K, s'.out j = s.out j) : Coloured s' K k := by
  have hlane : ∀ j ∈ K, s'.laneOf j = s.laneOf j := by
    intro j hj
    rw [LaneSweep.laneOf, hout j hj]
    rfl
  refine ⟨h.cluster, fun j hj => ?_, fun i hi j hj hne hover => ?_, h.deep⟩
  · rw [hout j hj]
    exact h.lanes j hj
  · rw [hlane i hi, hlane j hj]
    exact h.apart i hi j hj hne hover

/-- **Closing settles the open cluster**, when nothing still to come overlaps it. -/
theorem Swept.close {done : Finset (Fin slices.length)} {s : LaneSweep slices.length}
    (h : Swept done s)
    (hgap : ∀ i ∈ s.cluster, ∀ m, m ∉ done → ¬ Overlap (spanOf slices) i m) :
    Swept done s.close := by
  have hopen : ∀ i ∈ s.cluster, s.close.out i = some ⟨s.laneOf i, s.laneEnds.length⟩ := by
    intro i hi
    show (if i ∈ s.cluster then _ else _) = _
    rw [if_pos hi, (h.lane i hi).1]
    rfl
  have hsame : ∀ j, j ∉ s.cluster → s.close.out j = s.out j := fun j hj => if_neg hj
  have hlane : ∀ i ∈ s.cluster, s.close.laneOf i = s.laneOf i := by
    intro i hi
    rw [LaneSweep.laneOf, hopen i hi]
    rfl
  refine ⟨by simp [LaneSweep.close], by simp [LaneSweep.close], by simp [LaneSweep.close],
    by simp [LaneSweep.close], by simp [LaneSweep.close], by simp [LaneSweep.close],
    by simp [LaneSweep.close], by simp [LaneSweep.close], fun i hi _ => ?_⟩
  by_cases hin : i ∈ s.cluster
  · refine ⟨s.cluster.toFinset, s.laneEnds.length, List.mem_toFinset.mpr hin,
      fun j hj => h.sub j (List.mem_toFinset.mp hj), by simp [LaneSweep.close], ?_, ?_, ?_, ?_⟩
    · refine ⟨fun a ha b hb => h.linked a (List.mem_toFinset.mp ha) b (List.mem_toFinset.mp hb),
        fun a ha b hb => ?_⟩
      have ha := List.mem_toFinset.mp ha
      have hb : b ∉ s.cluster := fun hmem => hb (List.mem_toFinset.mpr hmem)
      by_cases hdone : b ∈ done
      · -- a cluster closed before has nothing to do with this one
        obtain ⟨K, k, hbK, _, hout, hsettled⟩ := h.closed b hdone hb
        intro hover
        exact hsettled.cluster.alone b hbK a (fun haK => hout a haK ha) hover.symm
      · exact hgap a ha b hdone
    · intro j hj
      have hj := List.mem_toFinset.mp hj
      obtain ⟨e, he, _⟩ := (h.lane j hj).2
      exact ⟨_, (List.getElem?_eq_some_iff.mp he).1, hopen j hj⟩
    · intro a ha b hb hne hover
      rw [hlane a (List.mem_toFinset.mp ha), hlane b (List.mem_toFinset.mp hb)]
      exact h.apart a (List.mem_toFinset.mp ha) b (List.mem_toFinset.mp hb) hne hover
    · exact h.deep (List.ne_nil_of_mem hin)
  · obtain ⟨K, k, hiK, hK, hout, hsettled⟩ := h.closed i hi hin
    exact ⟨K, k, hiK, hK, by simp [LaneSweep.close],
      hsettled.congr fun j hj => hsame j (hout j hj)⟩

theorem depthAt_mono {K K' : Finset (Fin slices.length)} (h : K ⊆ K') (p : ℚ) :
    depthAt (spanOf slices) K p ≤ depthAt (spanOf slices) K' p :=
  Finset.card_le_card (Finset.filter_subset_filter _ h)

/-- An item begun no earlier than the open cluster, and before its end, overlaps it. -/
theorem Swept.joins {done : Finset (Fin slices.length)} {s : LaneSweep slices.length}
    (h : Swept done s) {i j : Fin slices.length} (hne : (spanOf slices i).1 < (spanOf slices i).2)
    (hstart : ∀ j ∈ done, (spanOf slices j).1 ≤ (spanOf slices i).1)
    (hopen : s.cluster ≠ [] → (spanOf slices i).1 < s.clusterEnd) (hj : j ∈ s.cluster) :
    Linked (spanOf slices) i j := by
  have hnil := List.ne_nil_of_mem hj
  obtain ⟨m, hm, hend⟩ := h.last hnil
  have hover : Overlap (spanOf slices) i m :=
    ⟨hend ▸ hopen hnil, (hstart m (h.sub m hm)).trans_lt hne⟩
  exact Relation.ReflTransGen.head hover (h.linked m hm j hj)

/-- **Placing an item keeps the sweep's facts.** -/
theorem Swept.place {done : Finset (Fin slices.length)} {s : LaneSweep slices.length}
    (h : Swept done s) {i : Fin slices.length} (hi : i ∉ done)
    (hne : (spanOf slices i).1 < (spanOf slices i).2)
    (hstart : ∀ j ∈ done, (spanOf slices j).1 ≤ (spanOf slices i).1)
    (hopen : s.cluster ≠ [] → (spanOf slices i).1 < s.clusterEnd) :
    Swept (insert i done) (s.place slices i) := by
  have hfree := freeLane_cases s.laneEnds (spanOf slices i).1
  have hle : freeLane s.laneEnds (spanOf slices i).1 ≤ s.laneEnds.length := by
    rcases hfree with ⟨hlt, _⟩ | ⟨heq, _⟩
    · exact hlt.le
    · exact heq.le
  have hnew : (s.place slices i).out i =
      some ⟨freeLane s.laneEnds (spanOf slices i).1, 1⟩ := Function.update_self ..
  have hold : ∀ j, j ≠ i → (s.place slices i).out j = s.out j :=
    fun j hj => Function.update_of_ne hj ..
  have hlaneNew : (s.place slices i).laneOf i = freeLane s.laneEnds (spanOf slices i).1 := by
    rw [LaneSweep.laneOf, hnew]
    rfl
  have hlaneOld : ∀ j, j ≠ i → (s.place slices i).laneOf j = s.laneOf j := by
    intro j hj
    rw [LaneSweep.laneOf, hold j hj]
    rfl
  have hopenNe : ∀ j ∈ s.cluster, j ≠ i := by
    rintro j hj rfl
    exact hi (h.sub j hj)
  have hends : (s.place slices i).laneEnds = setEnd s.laneEnds
      (freeLane s.laneEnds (spanOf slices i).1) (spanOf slices i).2 := rfl
  have hmem : ∀ j, j ∈ (s.place slices i).cluster ↔ j ∈ s.cluster ∨ j = i := by
    intro j
    show j ∈ s.cluster ++ [i] ↔ _
    rw [List.mem_append, List.mem_singleton]
  -- whoever holds the free lane has ended
  have hclear : ∀ j ∈ s.cluster, Overlap (spanOf slices) i j →
      s.laneOf j ≠ freeLane s.laneEnds (spanOf slices i).1 := by
    intro j hj hover hsame
    obtain ⟨e, he, hle'⟩ := (h.lane j hj).2
    rw [hsame] at he
    rcases hfree with ⟨hlt, hended⟩ | ⟨heq, _⟩
    · rw [List.getElem?_eq_getElem hlt, Option.some.injEq] at he
      exact absurd (hover.1.trans_le (hle'.trans (he ▸ hended))) (lt_irrefl _)
    · rw [heq, List.getElem?_eq_none le_rfl] at he
      cases he
  constructor
  · intro j hj
    rcases (hmem j).mp hj with hj | rfl
    · exact Finset.mem_insert_of_mem (h.sub j hj)
    · exact Finset.mem_insert_self ..
  · intro j hj
    rw [hends]
    rcases (hmem j).mp hj with hj | rfl
    · rw [hlaneOld j (hopenNe j hj), hold j (hopenNe j hj)]
      obtain ⟨hout, e, he, hle'⟩ := h.lane j hj
      refine ⟨hout, ?_⟩
      have hlt := (List.getElem?_eq_some_iff.mp he).1
      by_cases hsame : s.laneOf j = freeLane s.laneEnds (spanOf slices i).1
      · refine ⟨_, by rw [hsame]; exact setEnd_self hle, ?_⟩
        rcases hfree with ⟨hltfree, hended⟩ | ⟨heq, _⟩
        · rw [hsame, List.getElem?_eq_getElem hltfree, Option.some.injEq] at he
          exact (hle'.trans (he ▸ hended)).trans hne.le
        · omega
      · exact ⟨e, (setEnd_other hsame hlt).trans he, hle'⟩
    · rw [hlaneNew]
      exact ⟨hnew, _, setEnd_self hle, le_rfl⟩
  · intro j hj m hm hjm hover
    rcases (hmem j).mp hj with hin | hji
    · rcases (hmem m).mp hm with hm | hmi
      · rw [hlaneOld j (hopenNe j hin), hlaneOld m (hopenNe m hm)]
        exact h.apart j hin m hm hjm hover
      · subst hmi
        rw [hlaneOld j (hopenNe j hin), hlaneNew]
        exact hclear j hin hover.symm
    · subst hji
      rcases (hmem m).mp hm with hm | hmj
      · rw [hlaneOld m (hopenNe m hm), hlaneNew]
        exact (hclear m hm hover).symm
      · exact absurd hmj.symm hjm
  · intro l hl
    rw [hends] at hl ⊢
    by_cases hsame : l = freeLane s.laneEnds (spanOf slices i).1
    · refine ⟨i, (hmem i).mpr (Or.inr rfl), hlaneNew.trans hsame.symm, ?_⟩
      rw [hsame]
      exact setEnd_self hle
    · have hlt := of_lt_length_setEnd hle hl hsame
      obtain ⟨j, hj, hlane, hend⟩ := h.holder l hlt
      exact ⟨j, (hmem j).mpr (Or.inl hj), (hlaneOld j (hopenNe j hj)).trans hlane,
        (setEnd_other hsame hlt).trans hend⟩
  · intro j hj
    show _ ≤ if s.cluster = [] then (spanOf slices i).2 else max s.clusterEnd (spanOf slices i).2
    rcases (hmem j).mp hj with hj | rfl
    · rw [if_neg (List.ne_nil_of_mem hj)]
      exact (h.ends j hj).trans (le_max_left ..)
    · split
      · exact le_rfl
      · exact le_max_right ..
  · intro _
    show ∃ j ∈ (s.place slices i).cluster, _ = if s.cluster = [] then (spanOf slices i).2
      else max s.clusterEnd (spanOf slices i).2
    split
    · exact ⟨i, (hmem i).mpr (Or.inr rfl), rfl⟩
    · rename_i hnil
      rcases le_total s.clusterEnd (spanOf slices i).2 with hmax | hmax
      · exact ⟨i, (hmem i).mpr (Or.inr rfl), (max_eq_right hmax).symm⟩
      · obtain ⟨m, hm, hend⟩ := h.last hnil
        exact ⟨m, (hmem m).mpr (Or.inl hm), hend.trans (max_eq_left hmax).symm⟩
  · intro j hj m hm
    rcases (hmem j).mp hj with hin | hji
    · rcases (hmem m).mp hm with hm | hmi
      · exact h.linked j hin m hm
      · subst hmi
        exact (h.joins hne hstart hopen hin).symm
    · subst hji
      rcases (hmem m).mp hm with hm | hmj
      · exact h.joins hne hstart hopen hm
      · subst hmj
        exact Relation.ReflTransGen.refl
  · intro _
    have hsub : s.cluster.toFinset ⊆ (s.place slices i).cluster.toFinset := by
      intro j hj
      exact List.mem_toFinset.mpr ((hmem j).mpr (Or.inl (List.mem_toFinset.mp hj)))
    rcases hfree with ⟨hlt, _⟩ | ⟨heq, hbusy⟩
    · -- a lane that was there: as deep as before
      have hnil : s.cluster ≠ [] := by
        obtain ⟨j, hj, _⟩ := h.holder _ hlt
        exact List.ne_nil_of_mem hj
      obtain ⟨p, hp⟩ := h.deep hnil
      have hlen : (s.place slices i).laneEnds.length = s.laneEnds.length := by
        rw [hends, setEnd, if_pos hlt, List.length_set]
      exact ⟨p, hlen ▸ hp.trans (depthAt_mono hsub p)⟩
    · -- a new lane: every other's holder is over the start
      refine ⟨(spanOf slices i).1, ?_⟩
      have hlen : (s.place slices i).laneEnds.length = s.laneEnds.length + 1 := by
        rw [hends, setEnd, if_neg (by omega), List.length_append, List.length_singleton]
      rw [hlen, depthAt, ← Finset.card_range (s.laneEnds.length + 1)]
      refine Finset.card_le_card_of_surjOn (s.place slices i).laneOf fun l hl => ?_
      have hl : l < s.laneEnds.length + 1 := Finset.mem_range.mp hl
      rcases Nat.lt_succ_iff_lt_or_eq.mp hl with hlt | rfl
      · obtain ⟨j, hj, hlane, hend⟩ := h.holder l hlt
        have hafter : (spanOf slices i).1 < (spanOf slices j).2 :=
          hbusy _ (List.mem_of_getElem? hend)
        refine ⟨j, Finset.mem_coe.mpr (Finset.mem_filter.mpr ⟨hsub (List.mem_toFinset.mpr hj),
          hstart j (h.sub j hj), hafter⟩), (hlaneOld j (hopenNe j hj)).trans hlane⟩
      · exact ⟨i, Finset.mem_coe.mpr (Finset.mem_filter.mpr
          ⟨List.mem_toFinset.mpr ((hmem i).mpr (Or.inr rfl)), le_rfl, hne⟩), hlaneNew.trans heq⟩
  · intro j hj hout
    have hji : j ≠ i := by
      rintro rfl
      exact hout ((hmem j).mpr (Or.inr rfl))
    have hjdone := Finset.mem_of_mem_insert_of_ne hj hji
    obtain ⟨K, k, hjK, hK, hapart, hsettled⟩ :=
      h.closed j hjdone fun hmem' => hout ((hmem j).mpr (Or.inl hmem'))
    have hKne : ∀ m ∈ K, m ≠ i := by
      rintro m hm rfl
      exact hi (hK hm)
    refine ⟨K, k, hjK, hK.trans (Finset.subset_insert ..), fun m hm hmem' => ?_,
      hsettled.congr fun m hm => hold m (hKne m hm)⟩
    rcases (hmem m).mp hmem' with hm' | rfl
    · exact hapart m hm hm'
    · exact hKne m hm rfl

/-- **One step of the loop**, on an item that no item done starts after and no item left
starts before. -/
theorem Swept.step {done : Finset (Fin slices.length)} {s : LaneSweep slices.length}
    (h : Swept done s) {i : Fin slices.length} (hi : i ∉ done)
    (hne : (spanOf slices i).1 < (spanOf slices i).2)
    (hstart : ∀ j ∈ done, (spanOf slices j).1 ≤ (spanOf slices i).1)
    (hleft : ∀ m, m ∉ done → (spanOf slices i).1 ≤ (spanOf slices m).1) :
    Swept (insert i done) (s.step slices i) := by
  rw [LaneSweep.step]
  split
  · rename_i hgap
    have hclosed : Swept done s.close := by
      refine h.close fun j hj m hm hover => ?_
      have hended : (spanOf slices j).2 ≤ (spanOf slices m).1 :=
        (h.ends j hj).trans (hgap.2.trans (hleft m hm))
      exact absurd hover.2 hended.not_gt
    exact hclosed.place hi hne hstart fun hnil => absurd rfl hnil
  · rename_i hopen
    refine h.place hi hne hstart fun hnil => ?_
    exact not_le.mp fun hle => hopen ⟨hnil, hle⟩

/-- **The whole loop**, over the items left in order. -/
theorem Swept.run (hne : ∀ i, (spanOf slices i).1 < (spanOf slices i).2) :
    ∀ (left : List (Fin slices.length)) {done : Finset (Fin slices.length)}
      {s : LaneSweep slices.length}, Swept done s → left.Nodup →
      left.Pairwise (fun i j => (spanOf slices i).1 ≤ (spanOf slices j).1) →
      (∀ i ∈ done, ∀ j ∈ left, (spanOf slices i).1 ≤ (spanOf slices j).1) →
      (∀ i, i ∉ done ↔ i ∈ left) →
      Swept Finset.univ (left.foldl (LaneSweep.step slices) s) := by
  intro left
  induction left with
  | nil =>
      intro done s h _ _ _ hall
      have hdone : done = Finset.univ := by
        refine Finset.eq_univ_of_forall fun i => ?_
        by_contra hi
        exact List.not_mem_nil ((hall i).mp hi)
      exact hdone ▸ h
  | cons i left ih =>
      intro done s h hnodup hsorted hstart hall
      obtain ⟨hnot, hnodup⟩ := List.nodup_cons.mp hnodup
      obtain ⟨hfirst, hsorted⟩ := List.pairwise_cons.mp hsorted
      have hi : i ∉ done := (hall i).mpr List.mem_cons_self
      have hleft : ∀ m, m ∉ done → (spanOf slices i).1 ≤ (spanOf slices m).1 := by
        intro m hm
        rcases List.mem_cons.mp ((hall m).mp hm) with rfl | hm
        · exact le_rfl
        · exact hfirst m hm
      have hstep := h.step hi (hne i) (fun j hj => hstart j hj i List.mem_cons_self) hleft
      refine ih hstep hnodup hsorted (fun j hj m hm => ?_) fun m => ?_
      · rcases Finset.mem_insert.mp hj with rfl | hj
        · exact hfirst m hm
        · exact hstart j hj m (List.mem_cons_of_mem _ hm)
      · rw [Finset.mem_insert, not_or, hall m, List.mem_cons]
        constructor
        · rintro ⟨hmi, hm⟩
          exact hm.resolve_left hmi
        · intro hm
          refine ⟨?_, Or.inr hm⟩
          rintro rfl
          exact hnot hm

theorem swept_nil : @Swept slices ∅ ⟨fun _ => none, [], -1, []⟩ := by
  constructor
  all_goals simp

/-- The order has every item once, and starts never go back. -/
theorem laneOrder_sorted (slices : List Slice) :
    (laneOrder slices).Nodup ∧ (∀ i, i ∈ laneOrder slices) ∧
      (laneOrder slices).Pairwise fun i j => (spanOf slices i).1 ≤ (spanOf slices j).1 := by
  have hperm := List.perm_insertionSort (sliceLE slices) (List.finRange slices.length)
  refine ⟨hperm.nodup_iff.mpr (List.nodup_finRange _),
    fun i => hperm.mem_iff.mpr (List.mem_finRange i), ?_⟩
  refine (List.pairwise_insertionSort (sliceLE slices) _).imp fun {i j} hle => ?_
  rcases Prod.Lex.le_iff.mp hle with hlt | ⟨heq, _⟩
  · exact hlt.le
  · exact heq.le

theorem swept_lanes (hne : ∀ i, (spanOf slices i).1 < (spanOf slices i).2) :
    Swept Finset.univ ((laneOrder slices).foldl (LaneSweep.step slices)
      ⟨fun _ => none, [], -1, []⟩).close := by
  obtain ⟨hnodup, hall, hsorted⟩ := laneOrder_sorted slices
  have hrun := Swept.run hne (laneOrder slices) swept_nil hnodup hsorted
    (fun i hi => absurd hi (Finset.notMem_empty i))
    fun i => ⟨fun _ => hall i, fun _ => Finset.notMem_empty i⟩
  exact hrun.close fun _ _ m hm => absurd (Finset.mem_univ m) hm

end Invariant

/-! ## § What comes out -/

/-- **Lanes are an optimal colouring.** One entry for each item in the input's order:
overlapping items have different lanes, each below its `of`, and `of` is that of the whole
cluster, the most of it over any one instant. -/
theorem lanes_optimal (slices : List Slice) (h : ∀ slice ∈ slices, slice.start < slice.stop) :
    ∃ out : Fin slices.length → Lane, lanes slices = List.ofFn (fun i => some (out i)) ∧
      (∀ i j, i ≠ j → Overlap (spanOf slices) i j → (out i).lane ≠ (out j).lane) ∧
      (∀ i, (out i).lane < (out i).of) ∧
      (∀ i j, Linked (spanOf slices) i j → (out i).of = (out j).of) ∧
      ∀ i, IsGreatest {k | ∃ p, k = {j | Linked (spanOf slices) i j ∧
        Over (spanOf slices) p j}.ncard} (out i).of := by
  have hne : ∀ i, (spanOf slices i).1 < (spanOf slices i).2 := fun i => h _ (List.get_mem ..)
  have hswept := swept_lanes hne
  generalize hlast : ((laneOrder slices).foldl (LaneSweep.step slices)
    ⟨fun _ => none, [], -1, []⟩).close = last at hswept
  have hlanes : lanes slices = List.ofFn last.out := by
    rw [lanes, hlast]
  have hclosed : ∀ i, ∃ K k, i ∈ K ∧ Coloured last K k := by
    intro i
    have hcluster : last.cluster = [] := by
      rw [← hlast]
      rfl
    obtain ⟨K, k, hi, _, _, hsettled⟩ := hswept.closed i (Finset.mem_univ i) (by simp [hcluster])
    exact ⟨K, k, hi, hsettled⟩
  choose K k hmem hsettled using hclosed
  have hout : ∀ i, ∀ j ∈ K i, last.laneOf j < k i ∧ last.out j = some ⟨last.laneOf j, k i⟩ := by
    intro i j hj
    obtain ⟨l, hl, hj⟩ := (hsettled i).lanes j hj
    have hlane : last.laneOf j = l := by
      rw [LaneSweep.laneOf, hj]
      rfl
    rw [hlane]
    exact ⟨hl, hj⟩
  have hlink : ∀ i j, Linked (spanOf slices) i j → j ∈ K i :=
    fun i j hlink => ((hsettled i).cluster.mem_iff (hmem i)).mpr hlink
  refine ⟨fun i => ⟨last.laneOf i, k i⟩, ?_, ?_, ?_, ?_, ?_⟩
  · rw [hlanes]
    exact congrArg List.ofFn (funext fun i => (hout i i (hmem i)).2)
  · intro i j hij hover
    exact (hsettled i).apart i (hmem i) j (hlink i j (Relation.ReflTransGen.single hover)) hij hover
  · intro i
    exact (hout i i (hmem i)).1
  · intro i j hij
    have hone := (hout i j (hlink i j hij)).2
    rw [(hout j j (hmem j)).2, Option.some.injEq, Lane.mk.injEq] at hone
    exact hone.2.symm
  · intro i
    exact (hsettled i).cluster.isGreatest (hmem i) (fun j hj => (hout i j hj).1)
      (hsettled i).apart (hsettled i).deep

/-- Three in a chain take two lanes: the last touches the first and is put back in its lane. -/
theorem lanes_optimal_chain :
    lanes [⟨600, 660⟩, ⟨540, 600⟩, ⟨570, 630⟩] = [some ⟨0, 2⟩, some ⟨0, 2⟩, some ⟨1, 2⟩] ∧
      ∃ out : Fin 3 → Lane, lanes [⟨600, 660⟩, ⟨540, 600⟩, ⟨570, 630⟩] =
        List.ofFn (fun i => some (out i)) ∧ (out 0).lane ≠ (out 2).lane := by
  refine ⟨by decide +kernel, ?_⟩
  obtain ⟨out, hout, hapart, _⟩ :=
    lanes_optimal [⟨600, 660⟩, ⟨540, 600⟩, ⟨570, 630⟩] (by decide +kernel)
  exact ⟨out, hout, hapart 0 2 (by decide) (by decide +kernel)⟩

end Ziftbook
