import Ziftbook.Foundation.Edits

/-!
# Did you mean gmail.com?

`editDistance` and `emailSuggestion` of `lib/booking-page.ts`. A string is the list of its
UTF-16 code units, and `lower` is its `toLowerCase`.
-/

namespace Ziftbook.BookingPage

open Foundation

/-! ## § The table -/

/-- `d`, by row and column. -/
structure Cells where
  get : ℕ → ℕ → ℕ

/-- `d[i][j] = value`. -/
def Cells.set (d : Cells) (i j value : ℕ) : Cells :=
  ⟨fun i' j' => if i' = i ∧ j' = j then value else d.get i' j'⟩

variable {α : Type*} [DecidableEq α]

/-- The loop's body. -/
def Cells.fill (a b : List α) (i j : ℕ) (d : Cells) : Cells :=
  let cost := if a[i - 1]? = b[j - 1]? then 0 else 1
  d.set i j (min (d.get (i - 1) j + 1)
    (min (d.get i (j - 1) + 1) (d.get (i - 1) (j - 1) + cost)))

def editDistance (a b : List α) : ℕ :=
  let rows := a.length + 1
  let cols := b.length + 1
  let d : Cells := ⟨fun i j => if j = 0 then i else 0⟩
  let d := (List.range cols).foldl (fun d j => d.set 0 j j) d
  let d := (List.range' 1 (rows - 1)).foldl (fun d i =>
    (List.range' 1 (cols - 1)).foldl (fun d j => d.fill a b i j) d) d
  d.get (rows - 1) (cols - 1)

theorem Cells.set_same {d : Cells} {i j value : ℕ} : (d.set i j value).get i j = value :=
  if_pos ⟨rfl, rfl⟩

theorem Cells.set_of_ne {d : Cells} {i j value i' j' : ℕ} (h : i' ≠ i ∨ j' ≠ j) :
    (d.set i j value).get i' j' = d.get i' j' :=
  if_neg fun hsame => h.elim (fun hi => hi hsame.1) fun hj => hj hsame.2

/-- What holds after so many rounds of a counted loop. -/
theorem foldl_range'_invariant {β : Type*} {f : β → ℕ → β} {P : ℕ → β → Prop} {s : ℕ}
    (hstep : ∀ k x, P k x → P (k + 1) (f x (s + k))) (n : ℕ) {x : β} (h : P 0 x) :
    P n ((List.range' s n).foldl f x) := by
  induction n with
  | zero => exact h
  | succ n ih =>
      rw [List.range'_1_concat, List.foldl_append]
      exact hstep n _ ih

/-! ## § What the loops have filled in -/

section loops

variable (a b : List α)

/-- The distance of the two beginnings. -/
def prefixDistance (i j : ℕ) : ℕ := distance (a.take i).reverse (b.take j).reverse

variable {a b}

theorem prefixDistance_zero_left {j : ℕ} (hj : j ≤ b.length) : prefixDistance a b 0 j = j := by
  simp [prefixDistance, hj]

theorem prefixDistance_zero_right {i : ℕ} (hi : i ≤ a.length) : prefixDistance a b i 0 = i := by
  simp [prefixDistance, hi]

theorem prefixDistance_succ {i j : ℕ} (hi : i < a.length) (hj : j < b.length) :
    prefixDistance a b (i + 1) (j + 1) =
      min (prefixDistance a b i (j + 1) + 1) (min (prefixDistance a b (i + 1) j + 1)
        (prefixDistance a b i j + if a[i]? = b[j]? then 0 else 1)) := by
  have ha : (a.take (i + 1)).reverse = a[i] :: (a.take i).reverse := by
    rw [List.take_succ_eq_append_getElem hi, List.reverse_append]
    rfl
  have hb : (b.take (j + 1)).reverse = b[j] :: (b.take j).reverse := by
    rw [List.take_succ_eq_append_getElem hj, List.reverse_append]
    rfl
  unfold prefixDistance
  rw [ha, hb, distance_cons, cost, List.getElem?_eq_getElem hi, List.getElem?_eq_getElem hj]
  simp only [Option.some.injEq]

/-- The rows before `i` are filled, and row `i` up to `j`. -/
structure Filled (a b : List α) (i j : ℕ) (d : Cells) : Prop where
  rows : ∀ i' < i, ∀ j' ≤ b.length, d.get i' j' = prefixDistance a b i' j'
  row : i ≤ a.length → ∀ j' ≤ j, d.get i j' = prefixDistance a b i j'
  edge : ∀ i', i < i' → d.get i' 0 = i'

theorem filled_start : Filled a b 0 b.length
    ((List.range (b.length + 1)).foldl (fun d j => d.set 0 j j)
      ⟨fun i j => if j = 0 then i else 0⟩) := by
  have h := foldl_range'_invariant (f := fun (d : Cells) j => d.set 0 j j) (s := 0)
    (P := fun k d => (∀ j < k, d.get 0 j = j) ∧ ∀ i, 0 < i → d.get i 0 = i) ?_ (b.length + 1)
    (x := ⟨fun i j => if j = 0 then i else 0⟩) ?_
  · rw [List.range_eq_range']
    refine ⟨fun i' hi' => absurd hi' (Nat.not_lt_zero _), fun _ j' hj' => ?_, h.2⟩
    rw [h.1 j' (by omega), prefixDistance_zero_left hj']
  · rintro k d ⟨hrow, hedge⟩
    refine ⟨fun j hj => ?_, fun i hi => ?_⟩
    · by_cases hjk : j = 0 + k
      · rw [← hjk, Cells.set_same]
      · rw [Cells.set_of_ne (.inr hjk)]
        exact hrow j (by omega)
    · rw [Cells.set_of_ne (.inl hi.ne')]
      exact hedge i hi
  · exact ⟨fun j hj => absurd hj (Nat.not_lt_zero _), fun i _ => rfl⟩

theorem filled_fill {i j : ℕ} {d : Cells} (h : Filled a b (i + 1) j d) (hi : i < a.length)
    (hj : j < b.length) : Filled a b (i + 1) (j + 1) (d.fill a b (i + 1) (j + 1)) where
  rows := by
    intro i' hi' j' hj'
    rw [Cells.fill, Cells.set_of_ne (.inl (by omega))]
    exact h.rows i' hi' j' hj'
  row := by
    intro _ j' hj'
    by_cases hlast : j' = j + 1
    · subst hlast
      rw [Cells.fill, Cells.set_same, prefixDistance_succ hi hj, Nat.add_sub_cancel,
        Nat.add_sub_cancel, h.rows i (by omega) (j + 1) hj, h.rows i (by omega) j (by omega),
        h.row hi j le_rfl]
    · rw [Cells.fill, Cells.set_of_ne (.inr hlast)]
      exact h.row hi j' (by omega)
  edge := by
    intro i' hi'
    rw [Cells.fill, Cells.set_of_ne (.inl (by omega))]
    exact h.edge i' hi'

/-- The next row starts with its edge. -/
theorem filled_next {i : ℕ} {d : Cells} (h : Filled a b i b.length d) (hi : i < a.length) :
    Filled a b (i + 1) 0 d where
  rows := by
    intro i' hi' j' hj'
    rcases Nat.lt_succ_iff_lt_or_eq.mp hi' with hi' | rfl
    · exact h.rows i' hi' j' hj'
    · exact h.row hi.le j' hj'
  row := by
    intro hle j' hj'
    rw [Nat.le_zero.mp hj', h.edge (i + 1) (by omega), prefixDistance_zero_right hle]
  edge := fun i' hi' => h.edge i' (by omega)

/-- A row filled in, from left to right. -/
theorem filled_row {i : ℕ} {d : Cells} (h : Filled a b i b.length d) (hi : i < a.length) :
    Filled a b (i + 1) b.length
      ((List.range' 1 b.length).foldl (fun d j => d.fill a b (i + 1) j) d) := by
  refine foldl_range'_invariant (P := fun j d => j ≤ b.length → Filled a b (i + 1) j d) ?_
    b.length (fun _ => filled_next h hi) le_rfl
  intro j d hd hj
  rw [Nat.add_comm 1 j]
  exact filled_fill (hd (by omega)) hi hj

end loops

theorem editDistance_eq (a b : List α) : editDistance a b = distance a b := by
  have h := foldl_range'_invariant (s := 1) (P := fun i d => i ≤ a.length →
    Filled a b i b.length d) (f := fun d i => (List.range' 1 b.length).foldl
      (fun d j => d.fill a b i j) d) ?_ a.length (fun _ => filled_start) le_rfl
  · have hcorner := h.row le_rfl b.length le_rfl
    rw [prefixDistance, List.take_length, List.take_length, distance_reverse] at hcorner
    exact hcorner
  · intro i d hd hi
    rw [Nat.add_comm 1 i]
    exact filled_row (hd (by omega)) hi

/-- **The table's corner is the least number of edits.** -/
theorem isDistance_editDistance (a b : List α) : IsDistance (editDistance a b) a b := by
  rw [editDistance_eq]
  exact isDistance_distance a b

/-! ## § The suggestion -/

abbrev Units := List UInt16

/-- The code units of an ASCII string. -/
def units (s : String) : Units := s.toList.map fun c => c.toNat.toUInt16

/-- `"@"`. -/
def atSign : UInt16 := 64

def KNOWN_DOMAINS : List Units :=
  ["gmail.com", "yahoo.com", "hotmail.com", "outlook.com", "icloud.com", "live.com", "aol.com",
    "ymail.com", "mail.com", "email.com"].map units

def lastIndexOf (x : α) (as : List α) : Option ℕ :=
  (as.reverse.findIdx? (· = x)).map fun i => as.length - 1 - i

/-- The loop's `best` and `bestDistance`, `none` while the latter is `Infinity`. -/
def closer (domain : Units) (best : Option (Units × ℕ)) (provider : Units) : Option (Units × ℕ) :=
  let distance := editDistance domain provider
  if ∀ b ∈ best, distance < b.2 then some (provider, distance) else best

def emailSuggestion (lower : Units → Units) (email : Units) : Option Units :=
  match lastIndexOf atSign email with
  | none => none
  | some at_ =>
      let name := email.take (at_ + 1)
      let domain := lower (email.drop (at_ + 1))
      if domain = [] ∨ domain ∈ KNOWN_DOMAINS then none
      else
        match KNOWN_DOMAINS.foldl (closer domain) none with
        | some (best, bestDistance) => if bestDistance ≤ 2 then some (name ++ best) else none
        | none => none

theorem lastIndexOf_eq_none {x : α} {as : List α} : lastIndexOf x as = none ↔ x ∉ as := by
  simp only [lastIndexOf, Option.map_eq_none_iff, List.findIdx?_eq_none_iff, List.mem_reverse,
    decide_eq_false_iff_not]
  exact ⟨fun h hx => h x hx rfl, fun h y hy hyx => h (hyx ▸ hy)⟩

theorem lastIndexOf_append {x : α} {as bs : List α} (h : x ∉ bs) :
    lastIndexOf x (as ++ x :: bs) = some as.length := by
  have hnone : bs.reverse.findIdx? (· = x) = none := by
    rw [List.findIdx?_eq_none_iff]
    intro y hy
    exact decide_eq_false fun hyx => h (hyx ▸ List.mem_reverse.mp hy)
  rw [lastIndexOf, List.reverse_append, List.reverse_cons, List.append_assoc,
    List.findIdx?_append, hnone, List.singleton_append, List.findIdx?_cons, if_pos (by simp)]
  simp

omit [DecidableEq α] in
/-- A word with the letter, cut at its last. -/
theorem exists_last {x : α} {as : List α} (h : x ∈ as) :
    ∃ bs cs, as = bs ++ x :: cs ∧ x ∉ cs := by
  obtain ⟨bs, cs, hsplit, hfirst⟩ := List.eq_append_cons_of_mem (List.mem_reverse.mpr h)
  refine ⟨cs.reverse, bs.reverse, ?_, fun hx => hfirst (List.mem_reverse.mp hx)⟩
  rw [← List.reverse_reverse as, hsplit]
  simp

/-- The provider is the first of the nearest, at the distance. -/
def Nearest (domain : Units) (providers : List Units) (provider : Units) (n : ℕ) : Prop :=
  ∃ before after, providers = before ++ provider :: after ∧ IsDistance n domain provider ∧
    (∀ q ∈ before, ∀ m, Edits m domain q → n < m) ∧ ∀ q ∈ after, ∀ m, Edits m domain q → n ≤ m

variable {domain : Units} {providers : List Units} {p q : Units} {m n : ℕ}

theorem Nearest.unique (h : Nearest domain providers p n) (h' : Nearest domain providers q m) :
    p = q ∧ n = m := by
  suffices hpq : p = q by
    subst hpq
    obtain ⟨_, _, _, hp, -⟩ := h
    obtain ⟨_, _, _, hq, -⟩ := h'
    exact ⟨rfl, hp.unique hq⟩
  obtain ⟨before, after, hsplit, hp, hbefore, hafter⟩ := h
  obtain ⟨before', after', hsplit', hq, hbefore', hafter'⟩ := h'
  rcases List.append_eq_append_iff.mp (hsplit.symm.trans hsplit') with
    ⟨cs, rfl, hcs⟩ | ⟨cs, rfl, hcs⟩
  · cases cs with
    | nil => exact (List.cons.inj hcs).1
    | cons c cs =>
        obtain ⟨rfl, rfl⟩ := List.cons.inj hcs
        exact absurd (hafter q (by simp) m hq.edits) (not_le.mpr (hbefore' p (by simp) n hp.edits))
  · cases cs with
    | nil => exact (List.cons.inj hcs).1.symm
    | cons c cs =>
        obtain ⟨rfl, rfl⟩ := List.cons.inj hcs
        exact absurd (hafter' p (by simp) n hp.edits) (not_le.mpr (hbefore q (by simp) m hq.edits))

theorem editDistance_le (h : Edits m domain q) : editDistance domain q ≤ m :=
  (isDistance_editDistance domain q).least m h

theorem closer_none : closer domain none q = some (q, editDistance domain q) := by
  simp [closer]

theorem closer_some : closer domain (some (p, n)) q =
    if editDistance domain q < n then some (q, editDistance domain q) else some (p, n) := by
  simp [closer]

/-- One provider more. -/
theorem nearest_closer {best : Option (Units × ℕ)}
    (h : ∀ p n, best = some (p, n) → Nearest domain providers p n)
    (hnone : best = none → providers = []) (q : Units) :
    ∃ p n, closer domain best q = some (p, n) ∧ Nearest domain (providers ++ [q]) p n := by
  have hq := isDistance_editDistance domain q
  cases best with
  | none =>
      refine ⟨q, _, closer_none, [], [], ?_, hq, by simp, by simp⟩
      rw [hnone rfl]
  | some b =>
      obtain ⟨p, n⟩ := b
      obtain ⟨before, after, hsplit, hp, hbefore, hafter⟩ := h p n rfl
      rw [closer_some]
      by_cases hlt : editDistance domain q < n
      · rw [if_pos hlt]
        refine ⟨q, _, rfl, providers, [], rfl, hq, fun r hr m hm => ?_, by simp⟩
        -- every one before was at `n` at least
        rw [hsplit, List.mem_append, List.mem_cons] at hr
        rcases hr with hr | rfl | hr
        · exact hlt.trans (hbefore r hr m hm)
        · exact hlt.trans_le (hp.least m hm)
        · exact hlt.trans_le (hafter r hr m hm)
      · rw [if_neg hlt]
        refine ⟨p, n, rfl, before, after ++ [q], ?_, hp, hbefore, fun r hr m hm => ?_⟩
        · rw [hsplit, List.append_assoc]
          rfl
        · rcases List.mem_append.mp hr with hr | hr
          · exact hafter r hr m hm
          · rw [List.mem_singleton.mp hr] at hm
            exact (not_lt.mp hlt).trans (editDistance_le hm)

theorem nearest_foldl (hne : providers ≠ []) :
    ∃ p n, providers.foldl (closer domain) none = some (p, n) ∧ Nearest domain providers p n := by
  induction providers using List.reverseRecOn with
  | nil => exact absurd rfl hne
  | append_singleton providers q ih =>
      rw [List.foldl_append]
      by_cases hnil : providers = []
      · subst hnil
        have hbest : ∀ p n, (none : Option (Units × ℕ)) = some (p, n) → Nearest domain [] p n :=
          fun p n h => (by cases h)
        exact nearest_closer hbest (fun _ => rfl) q
      · obtain ⟨p, n, hfold, hnearest⟩ := ih hnil
        rw [hfold]
        show ∃ p' n', closer domain (some (p, n)) q = some (p', n') ∧ _
        have hbest : ∀ p' n', some (p, n) = some (p', n') → Nearest domain providers p' n' := by
          intro p' n' h
          obtain ⟨rfl, rfl⟩ := Prod.mk.inj (Option.some.inj h)
          exact hnearest
        exact nearest_closer hbest (fun h => (by cases h)) q

/-- **The suggestion** keeps what stands before the domain and puts the first of the nearest
providers in its place, where two edits at most lead from the domain typed to it; a provider's
own domain, or none, is never corrected. -/
theorem emailSuggestion_eq_some {lower : Units → Units} {email suggestion : Units} :
    emailSuggestion lower email = some suggestion ↔
      ∃ name domain provider n, email = name ++ atSign :: domain ∧ atSign ∉ domain ∧
        lower domain ≠ [] ∧ lower domain ∉ KNOWN_DOMAINS ∧
        Nearest (lower domain) KNOWN_DOMAINS provider n ∧ n ≤ 2 ∧
        suggestion = name ++ atSign :: provider := by
  have hsplit : ∀ {name domain : Units}, atSign ∉ domain →
      emailSuggestion lower (name ++ atSign :: domain) =
        if lower domain = [] ∨ lower domain ∈ KNOWN_DOMAINS then none
        else
          match KNOWN_DOMAINS.foldl (closer (lower domain)) none with
          | some (best, bestDistance) =>
              if bestDistance ≤ 2 then some (name ++ atSign :: best) else none
          | none => none := by
    intro name domain hat
    have htake : (name ++ atSign :: domain).take (name.length + 1) = name ++ [atSign] := by
      simp [List.take_append]
    have hdrop : (name ++ atSign :: domain).drop (name.length + 1) = domain := by
      simp [List.drop_append]
    simp only [emailSuggestion, lastIndexOf_append hat, htake, hdrop, List.append_assoc,
      List.singleton_append]
  have hsuggests : ∀ {name domain : Units}, atSign ∉ domain →
      (emailSuggestion lower (name ++ atSign :: domain) = some suggestion ↔
        lower domain ≠ [] ∧ lower domain ∉ KNOWN_DOMAINS ∧ ∃ provider n,
          Nearest (lower domain) KNOWN_DOMAINS provider n ∧ n ≤ 2 ∧
          suggestion = name ++ atSign :: provider) := by
    intro name domain hat
    obtain ⟨p, n, hfold, hnearest⟩ : ∃ p n, KNOWN_DOMAINS.foldl (closer (lower domain)) none =
        some (p, n) ∧ Nearest (lower domain) KNOWN_DOMAINS p n := nearest_foldl (by simp
          [KNOWN_DOMAINS])
    rw [hsplit hat, hfold]
    by_cases hdomain : lower domain = [] ∨ lower domain ∈ KNOWN_DOMAINS
    · rw [if_pos hdomain]
      constructor
      · intro h
        cases h
      · rintro ⟨hne, hknown, -⟩
        exact absurd hdomain (not_or.mpr ⟨hne, hknown⟩)
    · obtain ⟨hne, hknown⟩ := not_or.mp hdomain
      rw [if_neg hdomain]
      simp only [Option.ite_none_right_eq_some, Option.some.injEq]
      constructor
      · rintro ⟨hn, rfl⟩
        exact ⟨hne, hknown, p, n, hnearest, hn, rfl⟩
      · rintro ⟨-, -, p', n', hnearest', hn', rfl⟩
        obtain ⟨rfl, rfl⟩ := hnearest.unique hnearest'
        exact ⟨hn', rfl⟩
  constructor
  · intro h
    by_cases hat : atSign ∈ email
    · obtain ⟨name, domain, rfl, hlast⟩ := exists_last hat
      obtain ⟨hne, hknown, provider, n, hnearest, hn, rfl⟩ := (hsuggests hlast).mp h
      exact ⟨name, domain, provider, n, rfl, hlast, hne, hknown, hnearest, hn, rfl⟩
    · rw [emailSuggestion, lastIndexOf_eq_none.mpr hat] at h
      cases h
  · rintro ⟨name, domain, provider, n, rfl, hlast, hne, hknown, hnearest, hn, rfl⟩
    exact (hsuggests hlast).mpr ⟨hne, hknown, provider, n, hnearest, hn, rfl⟩

end Ziftbook.BookingPage
