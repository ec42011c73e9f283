import Mathlib.Tactic

/-!
# Pages by the last key

Rows listed newest first, a page at a time: each page has the rows below the last key
before it, as the rows are when it is read. Rows come, go and change between the pages. The
pages never repeat a row, and whatever row was there at every page is on one of them.

The newest rows of several sources are among the newest of each.
-/

namespace Foundation

variable {ρ α : Type*} [LinearOrder α] {key : ρ → α}

/-- Below the last key, when there is one. -/
def Below (before : Option α) (a : α) : Prop := ∀ b ∈ before, a < b

instance (before : Option α) (a : α) : Decidable (Below before a) :=
  inferInstanceAs (Decidable (∀ b ∈ before, a < b))

theorem Below.trans_le {before : Option α} {a b : α} (h : Below before b) (hle : a ≤ b) :
    Below before a := fun c hc => hle.trans_lt (h c hc)

/-- Newest first. -/
def Descending (key : ρ → α) (rows : List ρ) : Prop := rows.Pairwise fun x y => key y < key x

theorem Descending.eq_of_mem_iff {rows rows' : List ρ} (h : Descending key rows)
    (h' : Descending key rows') (hmem : ∀ x, x ∈ rows ↔ x ∈ rows') : rows = rows' := by
  have hnodup : ∀ {rows : List ρ}, Descending key rows → rows.Nodup := fun h =>
    List.Pairwise.imp (fun hlt heq => absurd (heq ▸ hlt) (lt_irrefl _)) h
  have hperm : rows.Perm rows' := (List.perm_ext_iff_of_nodup (hnodup h) (hnodup h')).mpr hmem
  exact hperm.eq_of_pairwise (fun _ _ _ _ hlt hgt => absurd hgt hlt.not_gt) h h'

/-! ## § One page -/

/-- `ORDER BY key DESC`. -/
def newestFirst (key : ρ → α) (rows : List ρ) : List ρ :=
  rows.insertionSort fun x y => key y ≤ key x

theorem mem_newestFirst {rows : List ρ} {x : ρ} : x ∈ newestFirst key rows ↔ x ∈ rows :=
  List.mem_insertionSort _

theorem descending_newestFirst {rows : List ρ} (hkeys : (rows.map key).Nodup) :
    Descending key (newestFirst key rows) := by
  have : Std.Total fun x y : ρ => key y ≤ key x := ⟨fun x y => le_total (key y) (key x)⟩
  have : IsTrans ρ fun x y => key y ≤ key x := ⟨fun x y z hxy hyz => hyz.trans hxy⟩
  have hsorted := List.pairwise_insertionSort (fun x y => key y ≤ key x) rows
  have hnodup : ((newestFirst key rows).map key).Nodup :=
    ((List.perm_insertionSort _ rows).map key).nodup_iff.mpr hkeys
  rw [List.Nodup, List.pairwise_map] at hnodup
  exact (hsorted.and hnodup).imp fun h => lt_of_le_of_ne h.1 h.2.symm

/-- The newest of the rows below the last key. -/
def page (key : ρ → α) (before : Option α) (limit : ℕ) (rows : List ρ) : List ρ :=
  (newestFirst key (rows.filter fun x => Below before (key x))).take limit

/-- What a page and the key the next one goes on from say of the rows. -/
structure IsPage (key : ρ → α) (before : Option α) (rows : List ρ) (p : List ρ)
    (next : Option α) : Prop where
  descending : Descending key p
  mem : ∀ x ∈ p, x ∈ rows ∧ Below before (key x)
  next_le : ∀ k ∈ next, Below before k ∧ ∀ x ∈ p, k ≤ key x
  rest : ∀ x ∈ rows, Below before (key x) → x ∈ p ∨ ∃ k ∈ next, key x < k

/-- The last row's key, when the page is as long as it may be. -/
def nextOfFull (key : ρ → α) (limit : ℕ) (p : List ρ) : Option α :=
  if p.length < limit then none else p.getLast?.map key

/-- Rows shown otherwise, under the same keys. -/
theorem IsPage.map {τ : Type*} {shown : τ → α} {f : ρ → τ} {before next : Option α}
    {rows p : List ρ} (h : IsPage key before rows p next) (hf : ∀ x, shown (f x) = key x) :
    IsPage shown before (rows.map f) (p.map f) next := by
  refine ⟨?_, fun y hy => ?_, fun k hk => ⟨(h.next_le k hk).1, fun y hy => ?_⟩, fun y hy hb => ?_⟩
  · unfold Descending
    rw [List.pairwise_map]
    simp only [hf]
    exact h.descending
  · obtain ⟨x, hx, rfl⟩ := List.mem_map.mp hy
    exact ⟨List.mem_map_of_mem (h.mem x hx).1, (hf x).symm ▸ (h.mem x hx).2⟩
  · obtain ⟨x, hx, rfl⟩ := List.mem_map.mp hy
    exact (hf x).symm ▸ (h.next_le k hk).2 x hx
  · obtain ⟨x, hx, rfl⟩ := List.mem_map.mp hy
    rw [hf] at hb ⊢
    exact (h.rest x hx hb).imp_left List.mem_map_of_mem

/-- The rest of a sorted list is below what was taken of it. -/
theorem lt_of_mem_drop {rows : List ρ} (h : Descending key rows) {n : ℕ} {x y : ρ}
    (hx : x ∈ rows.drop n) (hy : y ∈ rows.take n) : key x < key y := by
  rw [← List.take_append_drop n rows] at h
  exact (List.pairwise_append.mp h).2.2 y hy x hx

theorem le_of_getLast? {p : List ρ} (h : Descending key p) {last : ρ}
    (hlast : p.getLast? = some last) {x : ρ} (hx : x ∈ p) : key last ≤ key x := by
  obtain ⟨init, rfl⟩ := List.getLast?_eq_some_iff.mp hlast
  rcases List.mem_append.mp hx with hx | hx
  · exact ((List.pairwise_append.mp h).2.2 x hx last (List.mem_singleton_self last)).le
  · rw [List.mem_singleton.mp hx]

/-- The first of what is below the last key. Its own last key is the next's, at least when
something is left. -/
theorem isPage_take {before : Option α} {limit : ℕ} {rows all : List ρ} (hlimit : 0 < limit)
    (hsorted : Descending key all) (hmem : ∀ x, x ∈ all ↔ x ∈ rows ∧ Below before (key x))
    {more : Prop} [Decidable more] (hmore : limit < all.length → more) :
    IsPage key before rows (all.take limit)
      (if more then (all.take limit).getLast?.map key else none) := by
  have hdesc : Descending key (all.take limit) := hsorted.sublist (List.take_sublist limit _)
  have hin : ∀ x ∈ all.take limit, x ∈ rows ∧ Below before (key x) :=
    fun x hx => (hmem x).mp (List.mem_of_mem_take hx)
  refine ⟨hdesc, hin, fun k hk => ?_, fun x hx hbefore => ?_⟩
  · split_ifs at hk
    · obtain ⟨last, hlast, rfl⟩ := Option.map_eq_some_iff.mp hk
      exact ⟨(hin last (List.mem_of_getLast? hlast)).2, fun x hx => le_of_getLast? hdesc hlast hx⟩
    · cases hk
  · have hx : x ∈ all := (hmem x).mpr ⟨hx, hbefore⟩
    rw [← List.take_append_drop limit all] at hx
    refine (List.mem_append.mp hx).imp_right fun hdrop => ?_
    -- something is left, so the page is full
    have hlong : limit < all.length := by
      by_contra hle
      rw [List.drop_eq_nil_of_le (not_lt.mp hle)] at hdrop
      cases hdrop
    have hne : all.take limit ≠ [] := by
      apply List.length_pos_iff.mp
      rw [List.length_take]
      omega
    obtain ⟨last, hlast⟩ : ∃ last, (all.take limit).getLast? = some last :=
      ⟨_, List.getLast?_eq_some_getLast hne⟩
    refine ⟨key last, ?_, lt_of_mem_drop hsorted hdrop (List.mem_of_getLast? hlast)⟩
    rw [if_pos (hmore hlong), hlast]
    rfl

theorem mem_below {before : Option α} {rows : List ρ} {x : ρ} :
    x ∈ newestFirst key (rows.filter fun x => Below before (key x)) ↔
      x ∈ rows ∧ Below before (key x) := by
  rw [mem_newestFirst, List.mem_filter, decide_eq_true_eq]

theorem descending_below {before : Option α} {rows : List ρ} (hkeys : (rows.map key).Nodup) :
    Descending key (newestFirst key (rows.filter fun x => Below before (key x))) :=
  descending_newestFirst (hkeys.sublist (List.filter_sublist.map key))

/-- **A page whose length tells whether there is more.** -/
theorem isPage_page {before : Option α} {limit : ℕ} {rows : List ρ} (hlimit : 0 < limit)
    (hkeys : (rows.map key).Nodup) :
    IsPage key before rows (page key before limit rows)
      (nextOfFull key limit (page key before limit rows)) := by
  have hpage : IsPage key before rows (page key before limit rows)
      (if ¬ (page key before limit rows).length < limit then
        (page key before limit rows).getLast?.map key else none) := by
    refine isPage_take hlimit (descending_below hkeys) (fun _ => mem_below) fun hlong => ?_
    rw [page, List.length_take]
    omega
  unfold nextOfFull
  rw [ite_not] at hpage
  exact hpage

/-! ## § A walk -/

/-- One page after another, each read from what is there by then, until there is no next. -/
def walk {σ : Type*} (read : σ → Option α → List ρ × Option α) : Option α → List σ → List (List ρ)
  | _, [] => []
  | before, s :: ss =>
      (read s before).1 :: match (read s before).2 with
        | some k => walk read (some k) ss
        | none => []

/-- The walk came to a page with no next. -/
def Walked {σ : Type*} (read : σ → Option α → List ρ × Option α) : Option α → List σ → Prop
  | _, [] => False
  | before, s :: ss =>
      match (read s before).2 with
      | some k => Walked read (some k) ss
      | none => True

def decideWalked {σ : Type*} (read : σ → Option α → List ρ × Option α) :
    (before : Option α) → (ss : List σ) → Decidable (Walked read before ss)
  | _, [] => .isFalse id
  | before, s :: ss =>
      match h : (read s before).2 with
      | some k =>
          have := decideWalked read (some k) ss
          decidable_of_iff (Walked read (some k) ss) (by simp [Walked, h])
      | none => .isTrue (by simp [Walked, h])

instance {σ : Type*} (read : σ → Option α → List ρ × Option α) (before : Option α)
    (ss : List σ) : Decidable (Walked read before ss) := decideWalked read before ss

section walk

variable {σ : Type*} {rows : σ → List ρ} {read : σ → Option α → List ρ × Option α}

/-- **No row twice**, and each from what was there when its page was read. -/
theorem walk_descending {ss : List σ}
    (hread : ∀ s ∈ ss, ∀ before, IsPage key before (rows s) (read s before).1 (read s before).2) :
    ∀ before, Descending key (walk read before ss).flatten ∧
      ∀ x ∈ (walk read before ss).flatten, Below before (key x) ∧ ∃ s ∈ ss, x ∈ rows s := by
  induction ss with
  | nil => intro before; exact ⟨.nil, fun x hx => by cases hx⟩
  | cons s ss ih =>
      intro before
      obtain ⟨hfirst, hread⟩ := List.forall_mem_cons.mp hread
      have hpage := hfirst before
      simp only [walk]
      split
      · rename_i k hk
        obtain ⟨hdesc, hmem⟩ := ih hread (some k)
        obtain ⟨hbelow, hle⟩ := hpage.next_le k hk
        rw [List.flatten_cons]
        refine ⟨List.pairwise_append.mpr ⟨hpage.descending, hdesc, fun x hx y hy => ?_⟩, ?_⟩
        · exact ((hmem y hy).1 k rfl).trans_le (hle x hx)
        · intro x hx
          rcases List.mem_append.mp hx with hx | hx
          · exact ⟨(hpage.mem x hx).2, s, List.mem_cons_self .., (hpage.mem x hx).1⟩
          · obtain ⟨hlt, s', hs', hx⟩ := hmem x hx
            exact ⟨hbelow.trans_le (hlt k rfl).le, s', List.mem_cons_of_mem _ hs', hx⟩
      · rw [List.flatten_cons, List.flatten_nil, List.append_nil]
        exact ⟨hpage.descending, fun x hx =>
          ⟨(hpage.mem x hx).2, s, List.mem_cons_self .., (hpage.mem x hx).1⟩⟩

/-- **No row left out** that was there at every page. -/
theorem walk_complete {ss : List σ} {k : α}
    (hread : ∀ s ∈ ss, ∀ before, IsPage key before (rows s) (read s before).1 (read s before).2)
    (hthere : ∀ s ∈ ss, ∃ x ∈ rows s, key x = k) :
    ∀ {before}, Below before k → Walked read before ss →
      ∃ x ∈ (walk read before ss).flatten, key x = k := by
  induction ss with
  | nil => intro before _ hwalked; exact hwalked.elim
  | cons s ss ih =>
      intro before hbefore hwalked
      obtain ⟨hfirst, hread⟩ := List.forall_mem_cons.mp hread
      have hpage := hfirst before
      obtain ⟨x, hx, hkey⟩ := hthere s (List.mem_cons_self ..)
      have hrest := hpage.rest x hx (hkey ▸ hbefore)
      simp only [walk, Walked] at hwalked ⊢
      cases hnext : (read s before).2 with
      | none =>
          rw [hnext] at hrest
          simp only [List.flatten_cons, List.flatten_nil, List.append_nil]
          rcases hrest with hx | ⟨_, hk, -⟩
          · exact ⟨x, hx, hkey⟩
          · cases hk
      | some last =>
          rw [hnext] at hrest
          simp only [hnext, List.flatten_cons, List.mem_append] at hwalked ⊢
          rcases hrest with hx | ⟨_, hlast, hlt⟩
          · exact ⟨x, .inl hx, hkey⟩
          · cases hlast
            have hbelow : Below (some last) k := fun b hb => by cases hb; exact hkey ▸ hlt
            obtain ⟨y, hy, hkey'⟩ := ih hread
              (fun s' hs' => hthere s' (List.mem_cons_of_mem _ hs')) hbelow hwalked
            exact ⟨y, .inr hy, hkey'⟩

end walk

/-! ## § The newest of several sources -/

/-- How many rows are newer. -/
def newer (key : ρ → α) (rows : List ρ) (a : α) : ℕ := rows.countP fun y => a < key y

theorem newer_cons {x : ρ} {rows : List ρ} {a : α} :
    newer key (x :: rows) a = newer key rows a + if a < key x then 1 else 0 := by
  simp [newer, List.countP_cons]

/-- None is newer than what a sorted list starts with, or than what is newer still. -/
theorem newer_eq_zero {x : ρ} {rows : List ρ} {a : α} (h : ∀ y ∈ rows, key y < key x)
    (ha : key x ≤ a) : newer key rows a = 0 :=
  List.countP_eq_zero.mpr fun y hy => by simpa using (h y hy).le.trans ha

theorem mem_take_of_descending {rows : List ρ} (h : Descending key rows) {x : ρ} :
    ∀ {n : ℕ}, x ∈ rows.take n ↔ x ∈ rows ∧ newer key rows (key x) < n := by
  induction rows with
  | nil => simp
  | cons y rows ih =>
      obtain ⟨hfirst, hrest⟩ := List.pairwise_cons.mp h
      intro n
      cases n with
      | zero => simp
      | succ n =>
          rw [List.take_succ_cons, List.mem_cons, List.mem_cons, ih hrest, newer_cons]
          constructor
          · rintro (rfl | ⟨hx, hlt⟩)
            · exact ⟨.inl rfl, by simp [newer_eq_zero hfirst le_rfl]⟩
            · exact ⟨.inr hx, by split_ifs <;> omega⟩
          · rintro ⟨rfl | hx, hlt⟩
            · exact .inl rfl
            · rw [if_pos (hfirst x hx)] at hlt
              exact .inr ⟨hx, by omega⟩

theorem newer_newestFirst {rows : List ρ} {a : α} :
    newer key (newestFirst key rows) a = newer key rows a :=
  (List.perm_insertionSort _ rows).countP_eq _

/-- **The newest are those that few are newer than.** -/
theorem mem_newest {rows : List ρ} (hkeys : (rows.map key).Nodup) {n : ℕ} {x : ρ} :
    x ∈ (newestFirst key rows).take n ↔ x ∈ rows ∧ newer key rows (key x) < n := by
  rw [mem_take_of_descending (descending_newestFirst hkeys), mem_newestFirst, newer_newestFirst]

theorem newer_take {rows : List ρ} (h : Descending key rows) {a : α} :
    ∀ {n : ℕ}, newer key (rows.take n) a = min n (newer key rows a) := by
  induction rows with
  | nil => simp [newer]
  | cons y rows ih =>
      obtain ⟨hfirst, hrest⟩ := List.pairwise_cons.mp h
      intro n
      cases n with
      | zero => simp [newer]
      | succ n =>
          rw [List.take_succ_cons, newer_cons, newer_cons, ih hrest]
          by_cases hy : a < key y
          · rw [if_pos hy]
            omega
          · rw [if_neg hy, newer_eq_zero hfirst (not_lt.mp hy)]
            omega

theorem newer_append {rows rows' : List ρ} {a : α} :
    newer key (rows ++ rows') a = newer key rows a + newer key rows' a := List.countP_append

/-- The newest of each part, as many as the whole may have. -/
def newestOfEach (key : ρ → α) (n : ℕ) (parts : List (List ρ)) : List ρ :=
  parts.flatMap fun part => (newestFirst key part).take n

theorem newer_newestOfEach {parts : List (List ρ)} {n : ℕ} {a : α}
    (hkeys : ∀ part ∈ parts, (part.map key).Nodup) :
    min n (newer key parts.flatten a) ≤ newer key (newestOfEach key n parts) a ∧
      newer key (newestOfEach key n parts) a ≤ newer key parts.flatten a := by
  induction parts with
  | nil => simp [newer, newestOfEach]
  | cons part parts ih =>
      obtain ⟨hlow, hhigh⟩ := ih fun p hp => hkeys p (List.mem_cons_of_mem _ hp)
      have hpart := descending_newestFirst (hkeys part (List.mem_cons_self ..))
      rw [newestOfEach, List.flatMap_cons, ← newestOfEach, List.flatten_cons, newer_append,
        newer_append, newer_take hpart, newer_newestFirst]
      omega

theorem exists_perm_newestOfEach {n : ℕ} (parts : List (List ρ)) :
    ∃ rest, parts.flatten.Perm (newestOfEach key n parts ++ rest) := by
  induction parts with
  | nil => exact ⟨[], .nil⟩
  | cons part parts ih =>
      obtain ⟨rest, hrest⟩ := ih
      refine ⟨(newestFirst key part).drop n ++ rest, ?_⟩
      rw [List.flatten_cons, newestOfEach, List.flatMap_cons, ← newestOfEach]
      have hpart : part.Perm ((newestFirst key part).take n ++ (newestFirst key part).drop n) := by
        rw [List.take_append_drop]
        exact (List.perm_insertionSort _ part).symm
      refine (hpart.append hrest).trans ?_
      simp only [List.append_assoc]
      refine List.Perm.append_left _ ?_
      rw [← List.append_assoc, ← List.append_assoc]
      exact List.perm_append_comm.append_right _

/-- **The newest overall are among the newest of each.** -/
theorem newest_newestOfEach {parts : List (List ρ)} {n : ℕ}
    (hkeys : (parts.flatten.map key).Nodup) :
    (newestFirst key (newestOfEach key n parts)).take n =
      (newestFirst key parts.flatten).take n := by
  have hparts : ∀ part ∈ parts, (part.map key).Nodup := fun part hpart =>
    hkeys.sublist ((List.sublist_flatten_of_mem hpart).map key)
  have hkeys' : ((newestOfEach key n parts).map key).Nodup := by
    obtain ⟨rest, hperm⟩ : ∃ rest, parts.flatten.Perm (newestOfEach key n parts ++ rest) :=
      exists_perm_newestOfEach parts
    have h := (hperm.map key).nodup_iff.mp hkeys
    rw [List.map_append] at h
    exact h.of_append_left
  refine Descending.eq_of_mem_iff ((descending_newestFirst hkeys').sublist (List.take_sublist ..))
    ((descending_newestFirst hkeys).sublist (List.take_sublist ..)) fun x => ?_
  rw [mem_newest hkeys', mem_newest hkeys]
  obtain ⟨hlow, hhigh⟩ := newer_newestOfEach (n := n) (a := key x) hparts
  constructor
  · rintro ⟨hx, hlt⟩
    obtain ⟨part, hpart, hx⟩ := List.mem_flatMap.mp hx
    exact ⟨List.mem_flatten.mpr ⟨part, hpart, mem_newestFirst.mp (List.mem_of_mem_take hx)⟩,
      by omega⟩
  · rintro ⟨hx, hlt⟩
    obtain ⟨part, hpart, hx⟩ := List.mem_flatten.mp hx
    refine ⟨List.mem_flatMap.mpr ⟨part, hpart, ?_⟩, hhigh.trans_lt hlt⟩
    refine (mem_newest (hparts part hpart)).mpr ⟨hx, ?_⟩
    exact ((List.sublist_flatten_of_mem hpart).countP_le).trans_lt hlt

/-- The first of the newest of each part below the last key, and the key to go on from when
there are more. -/
def mergedPage (key : ρ → α) (before : Option α) (limit : ℕ) (parts : List (List ρ)) :
    List ρ × Option α :=
  let rows := newestFirst key (newestOfEach key (limit + 1)
    (parts.map fun part => part.filter fun x => Below before (key x)))
  (rows.take limit, if limit < rows.length then (rows.take limit).getLast?.map key else none)

/-- **One row more of each part tells whether there is more.** -/
theorem isPage_mergedPage {before : Option α} {limit : ℕ} {parts : List (List ρ)}
    (hlimit : 0 < limit) (hkeys : (parts.flatten.map key).Nodup) :
    IsPage key before parts.flatten (mergedPage key before limit parts).1
      (mergedPage key before limit parts).2 := by
  set below := parts.map fun part => part.filter fun x => Below before (key x) with hbelow
  set all := newestFirst key (parts.flatten.filter fun x => Below before (key x)) with hall
  have hflat : below.flatten = parts.flatten.filter fun x => Below before (key x) := by
    rw [hbelow, List.filter_flatten]
  have hnewest : (newestFirst key (newestOfEach key (limit + 1) below)).take (limit + 1) =
      all.take (limit + 1) := by
    rw [newest_newestOfEach, hflat]
    rw [hflat]
    exact hkeys.sublist (List.filter_sublist.map key)
  have htake : (newestFirst key (newestOfEach key (limit + 1) below)).take limit =
      all.take limit := by
    have := congrArg (List.take limit) hnewest
    rwa [List.take_take, List.take_take, min_eq_left (Nat.le_succ limit)] at this
  have hpage : IsPage key before parts.flatten (all.take limit)
      (if limit < (newestFirst key (newestOfEach key (limit + 1) below)).length then
        (all.take limit).getLast?.map key else none) := by
    refine isPage_take hlimit (descending_below hkeys) (fun _ => mem_below) fun hlong => ?_
    have hlong : limit < all.length := hlong
    have := congrArg List.length hnewest
    rw [List.length_take, List.length_take] at this
    omega
  unfold mergedPage
  simp only [← hbelow, htake]
  exact hpage

end Foundation
