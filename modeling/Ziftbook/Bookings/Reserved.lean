import Ziftbook.Bookings.Placements

/-!
# A refund gives back the hit it took

While each refund that finds a window running finds the window its request was
charged in, a running window's count is the requests charged in it that placed
their booking or are still in flight, and the bookings placed from one window never
pass the limit.
-/

namespace Ziftbook

open Foundation Foundation.Windows

variable {τ α δ : Type} {d : Digests τ α δ}
  {s s' : Placements τ α δ} {now : ℤ} {i : ℕ} {r r' : CreateRequest τ α δ}
  {k : PlacementKey τ δ} {n : ℕ}

/-! ## § Replacing one request -/

/-- The places all requests hold. -/
def Placements.places (s : Placements τ α δ) : List (Place (PlacementKey τ δ)) :=
  s.requests.flatMap CreateRequest.places

def Placements.others (s : Placements τ α δ) (i : ℕ) : List (Place (PlacementKey τ δ)) :=
  (s.requests.eraseIdx i).flatMap CreateRequest.places

theorem places_perm (h : s.requests[i]? = some r) :
    s.places.Perm (r.places ++ s.others i) := by
  obtain ⟨hi, rfl⟩ := List.getElem?_eq_some_iff.mp h
  exact (List.getElem_cons_eraseIdx_perm hi).symm.flatMap_right _

theorem places_put_perm (h : s.requests[i]? = some r) (table : RateLimits (PlacementKey τ δ)) :
    (s.put i table r').places.Perm (r'.places ++ s.others i) := by
  obtain ⟨hi, _⟩ := List.getElem?_eq_some_iff.mp h
  exact (List.set_perm_cons_eraseIdx hi r').flatMap_right _

theorem at_eq_some {stage : CreateStage} (h : s.at i stage = some r) :
    s.requests[i]? = some r ∧ r.stage = stage := by
  obtain ⟨hr, hstage⟩ := Option.filter_eq_some_iff.mp h
  exact ⟨hr, of_decide_eq_true hstage⟩

variable [DecidableEq τ] [DecidableEq δ]

/-! ## § The invariant -/

/-- What a request's places are at each stage. -/
structure CreateRequest.Orderly (r : CreateRequest τ α δ) : Prop where
  keys : (r.places.map Place.key).Nodup
  arrived : r.stage = .arrived → r.places = []
  guest : r.stage = .guest → .unproven r.tenant ∉ r.places.map Place.key
  letIn : r.stage = .guest ∨ r.stage = .booking ∨ r.stage = .placed →
    ∀ p ∈ r.places, p.hits ≤ p.key.limit

structure Placements.Booked (s : Placements τ α δ) : Prop where
  balanced : Balanced (fun _ => limitWindow) s.clock PlacementKey.limit s.table s.places
  orderly : ∀ r ∈ s.requests, r.Orderly

namespace Placements.Booked

/-- A request replaced: its own places, and the books beside the others. -/
theorem put (h : s.Booked) {table : RateLimits (PlacementKey τ δ)} (hr : s.requests[i]? = some r)
    (hbalanced : Balanced (fun _ => limitWindow) s.clock PlacementKey.limit table
      (r'.places ++ s.others i)) (horderly : r'.Orderly) : (s.put i table r').Booked := by
  refine ⟨hbalanced.perm (places_put_perm hr table).symm, fun q hq => ?_⟩
  rcases List.mem_or_eq_of_mem_set hq with hq | rfl
  · exact h.orderly q hq
  · exact horderly

/-- A stage alone replaced. -/
theorem restage (h : s.Booked) {stage : CreateStage} (hr : s.requests[i]? = some r)
    (horderly : { r with stage := stage }.Orderly) :
    (s.put i s.table { r with stage := stage }).Booked := by
  have hbalanced := h.balanced.perm (places_perm hr)
  exact h.put hr hbalanced horderly

/-- Keys charged that the request held no place of. -/
theorem charge (h : s.Booked) {keys : List (PlacementKey τ δ)} {stage : CreateStage}
    (hr : s.requests[i]? = some r) (hkeys : keys.Nodup)
    (hnew : ∀ k ∈ keys, k ∉ r.places.map Place.key)
    (hletIn : ∀ p ∈ r.places, p.hits ≤ p.key.limit)
    (hstage : stage = .booking ∨
      stage = .guest ∧ .unproven r.tenant ∉ keys ++ r.places.map Place.key) :
    (s.charge now i r keys stage).Booked := by
  have hheld := (h.balanced.perm (places_perm hr)).hit limitWindow now hkeys
  rw [← List.append_assoc] at hheld
  set table := s.table.hit limitWindow now keys with htable
  have hmap : (keys.map table.last ++ r.places).map Place.key = keys ++ r.places.map Place.key := by
    rw [List.map_append, List.map_map]
    exact congrArg (· ++ _) (List.map_id keys)
  apply h.put hr hheld
  refine ⟨?_, fun harrived => ?_, fun hguest => ?_, fun hin p hp => ?_⟩
  · show ((keys.map table.last ++ r.places).map Place.key).Nodup
    rw [hmap]
    exact hkeys.append (h.orderly r (List.mem_of_getElem? hr)).keys fun k hk hk' => hnew k hk hk'
  · exfalso
    change (if _ then _ else stage) = CreateStage.arrived at harrived
    split at harrived
    · cases harrived
    · rcases hstage with rfl | ⟨rfl, _⟩ <;> cases harrived
  · change (if _ then _ else stage) = CreateStage.guest at hguest
    show _ ∉ (keys.map table.last ++ r.places).map Place.key
    rw [hmap]
    split at hguest
    · cases hguest
    · rcases hstage with rfl | ⟨_, hnot⟩
      · cases hguest
      · exact hnot
  · change (if _ then _ else stage) = _ ∨ (if _ then _ else stage) = _ ∨
      (if _ then _ else stage) = _ at hin
    change p ∈ keys.map table.last ++ r.places at hp
    split at hin
    · rcases hin with hin | hin | hin <;> cases hin
    · rename_i hover
      rcases List.mem_append.mp hp with hp | hp
      · obtain ⟨k, hk, rfl⟩ := List.mem_map.mp hp
        exact not_lt.mp fun hlt => hover ⟨k, hk, hlt⟩
      · exact hletIn p hp

theorem apply (h : s.Booked) {op : CreateOp τ α δ} (hnow : now ≤ s.clock)
    (hsame : s.sameWindow ⟨s.clock, now, op⟩) (hop : s.apply d now op = some s') :
    s'.Booked := by
  cases op with
  | arrive tenant folded proven =>
      cases hop
      refine ⟨?_, fun r hr => ?_⟩
      · apply h.balanced.perm
        show s.places.Perm ((s.requests ++ [_]).flatMap CreateRequest.places)
        rw [List.flatMap_append]
        exact (List.append_nil s.places).symm ▸ List.Perm.refl _
      · rcases List.mem_append.mp hr with hr | hr
        · exact h.orderly r hr
        · cases List.mem_singleton.mp hr
          refine ⟨List.nodup_nil, fun _ => rfl, ?_, fun _ p hp => ?_⟩
          · rintro ⟨⟩
          · cases hp
  | reserve i =>
      obtain ⟨r, hr, rfl⟩ := Option.map_eq_some_iff.mp hop
      obtain ⟨hr, hstage⟩ := at_eq_some hr
      have hnone := (h.orderly r (List.mem_of_getElem? hr)).arrived hstage
      apply h.charge hr
      · simp [CreateRequest.placements]
      · intro k _
        simp [hnone]
      · simp [hnone]
      · cases r.proven
        · exact Or.inr ⟨rfl, by simp [CreateRequest.placements, hnone]⟩
        · exact Or.inl rfl
  | chargeGuest i =>
      obtain ⟨r, hr, rfl⟩ := Option.map_eq_some_iff.mp hop
      obtain ⟨hr, hstage⟩ := at_eq_some hr
      have horderly := h.orderly r (List.mem_of_getElem? hr)
      apply h.charge hr
      · exact List.nodup_singleton _
      · intro k hk
        cases List.mem_singleton.mp hk
        exact horderly.guest hstage
      · exact horderly.letIn (Or.inl hstage)
      · exact Or.inl rfl
  | chargeFails i =>
      obtain ⟨r, hr, rfl⟩ := Option.map_eq_some_iff.mp hop
      obtain ⟨hr, _⟩ := at_eq_some hr
      apply h.restage hr
      exact ⟨(h.orderly r (List.mem_of_getElem? hr)).keys, nofun, nofun, nofun⟩
  | place i =>
      obtain ⟨r, hr, rfl⟩ := Option.map_eq_some_iff.mp hop
      obtain ⟨hr, hstage⟩ := at_eq_some hr
      have horderly := h.orderly r (List.mem_of_getElem? hr)
      apply h.restage hr
      exact ⟨horderly.keys, nofun, nofun, fun _ => horderly.letIn (Or.inr (Or.inl hstage))⟩
  | refuse i =>
      obtain ⟨r, hr, rfl⟩ := Option.map_eq_some_iff.mp hop
      obtain ⟨hr, _⟩ := at_eq_some hr
      apply h.restage hr
      exact ⟨(h.orderly r (List.mem_of_getElem? hr)).keys, nofun, nofun, nofun⟩
  | giveBack i =>
      obtain ⟨r, hr, rfl⟩ := Option.map_eq_some_iff.mp hop
      obtain ⟨hr, _⟩ := at_eq_some hr
      apply h.put hr
      · apply (h.balanced.perm (places_perm hr)).giveBack hnow
        · exact (h.orderly r (List.mem_of_getElem? hr)).keys
        · exact fun _ _ => rfl
        · exact fun p hp c hc => hsame i rfl r hr p hp c hc
      · exact ⟨List.nodup_nil, fun _ => rfl, nofun, fun _ p hp => nomatch hp⟩
  | purge keys =>
      cases hop
      exact ⟨h.balanced.delete _, h.orderly⟩

theorem step (h : s.Booked) {e : CreateStep τ α δ} (hsame : s.sameWindow e)
    (hstep : s.step d e = some s') : s'.Booked := by
  unfold Placements.step at hstep
  split at hstep
  · rename_i hclock
    have hlater : Booked { s with clock := e.clock } := ⟨h.balanced.tick hclock.1, h.orderly⟩
    exact hlater.apply hclock.2 hsame hstep
  · cases hstep

/-- The requests charged in a window and not refunded are those that succeeded and those
in flight. -/
theorem held_eq (h : s.Booked) (k : PlacementKey τ δ) (n : ℕ) :
    held s.places k n = s.succeeded k n + s.inFlight k n := by
  have hone : ∀ r : CreateRequest τ α δ, (r.places.map Place.key).Nodup →
      held r.places k n = if r.holds k n then 1 else 0 := by
    intro r hkeys
    split
    · rename_i hholds
      obtain ⟨p, hp, rfl, rfl⟩ := hholds
      exact held_eq_one hkeys hp
    · rename_i hnot
      exact held_eq_zero fun p hp hkey hnumber => hnot ⟨p, hp, hkey, hnumber⟩
  have hall : ∀ rs : List (CreateRequest τ α δ), (∀ r ∈ rs, (r.places.map Place.key).Nodup) →
      held (rs.flatMap CreateRequest.places) k n =
        rs.countP (fun r => r.stage = .placed ∧ r.holds k n) +
          rs.countP (fun r => r.stage ≠ .placed ∧ r.holds k n) := by
    intro rs
    induction rs with
    | nil => intro _; rfl
    | cons r rs ih =>
        intro hkeys
        rw [List.flatMap_cons, held_append, ih fun r hr => hkeys r (List.mem_cons_of_mem _ hr),
          hone r (hkeys r (List.mem_cons_self ..)), List.countP_cons, List.countP_cons]
        by_cases hholds : r.holds k n <;> by_cases hplaced : r.stage = .placed <;>
          simp [hholds, hplaced] <;> omega
  exact hall s.requests fun r hr => (h.orderly r hr).keys

/-- A booking placed was let in by every limit it was charged under. -/
theorem succeeded_le (h : s.Booked) (k : PlacementKey τ δ) (n : ℕ) : s.succeeded k n ≤ k.limit := by
  apply le_trans (countP_le_within _) (h.balanced.limited k n)
  intro r hr hplaced
  obtain ⟨hstage, p, hp, rfl, rfl⟩ := of_decide_eq_true hplaced
  exact ⟨p, hp, rfl, rfl, (h.orderly r hr).letIn (Or.inr (Or.inr hstage)) p hp⟩

end Placements.Booked

theorem booked_empty : (Placements.empty : Placements τ α δ).Booked :=
  ⟨balanced_empty, fun _ hr => nomatch hr⟩

/-! ## § Every run -/

/-- **A refund gives back the hit it took**, while no refund meets a window begun after
its request was charged. -/
theorem refund_gives_back {es : List (CreateStep τ α δ)}
    (hrun : Placements.empty.run d es = some s)
    (hsame : Runs.Along (Placements.step d) Placements.sameWindow Placements.empty es) :
    (∀ k c, s.table.rows k = some c → c.running limitWindow s.clock →
      c.hits = s.succeeded k (s.table.opened k) + s.inFlight k (s.table.opened k)) ∧
    ∀ k n, s.succeeded k n ≤ k.limit := by
  have h : s.Booked :=
    Runs.run_invariant (fun _ _ _ h hok hstep => h.step hok hstep) booked_empty hsame hrun
  refine ⟨fun k c hc hrunning => ?_, h.succeeded_le⟩
  rw [← h.held_eq]
  exact le_antisymm (h.balanced.exact k c hc hrunning) (h.balanced.atMost k c hc)

/-- Addresses and businesses by number, told apart. -/
def plainDigests : Digests ℕ ℕ (Option ℕ × ℕ) := ⟨fun a => (none, a), fun t a => (some t, a)⟩

/-- A signed-in client's request `i`, charged, and its booking placed. -/
def placedAt (i : ℕ) (now : ℤ) : List (CreateStep ℕ ℕ (Option ℕ × ℕ)) :=
  [⟨now, now, .arrive 1 7 true⟩, ⟨now, now, .reserve i⟩, ⟨now, now, .place i⟩]

/-- A guest's request is refused after another is charged, and gives its places back
before the hour is over. -/
def refusedInTime : List (CreateStep ℕ ℕ (Option ℕ × ℕ)) :=
  [⟨0, 0, .arrive 1 7 false⟩, ⟨0, 0, .reserve 0⟩, ⟨0, 0, .chargeGuest 0⟩] ++
    placedAt 1 second ++
    [⟨minute, second, .refuse 0⟩, ⟨minute, second, .giveBack 0⟩]

theorem refund_gives_back_in_time :
    ∃ s, Placements.empty.run plainDigests refusedInTime = some s ∧
      s.succeeded (.placed (some 1, 7)) 1 = 1 ∧ s.inFlight (.placed (some 1, 7)) 1 = 0 ∧
      (∀ k c, s.table.rows k = some c → c.running limitWindow s.clock →
        c.hits = s.succeeded k (s.table.opened k) + s.inFlight k (s.table.opened k)) ∧
      ∀ k n, s.succeeded k n ≤ k.limit := by
  obtain ⟨s, hrun⟩ := Option.isSome_iff_exists.mp
    (by decide +kernel : (Placements.empty.run plainDigests refusedInTime).isSome)
  have hfacts : ∀ s' ∈ Placements.empty.run plainDigests refusedInTime,
      s'.succeeded (.placed (some 1, 7)) 1 = 1 ∧ s'.inFlight (.placed (some 1, 7)) 1 = 0 := by
    decide +kernel
  have hsame : Runs.Along (Placements.step plainDigests) Placements.sameWindow
      Placements.empty refusedInTime := by
    decide +kernel
  obtain ⟨hplaced, hflight⟩ := hfacts s hrun
  exact ⟨s, hrun, hplaced, hflight, refund_gives_back hrun hsame⟩

/-- A request charged in one hour is refused in the next, which another request's charge
began; five more follow. -/
def refusedLate : List (CreateStep ℕ ℕ (Option ℕ × ℕ)) :=
  [⟨0, 0, .arrive 1 7 true⟩, ⟨0, 0, .reserve 0⟩] ++ placedAt 1 limitWindow ++
    [⟨limitWindow, limitWindow, .refuse 0⟩, ⟨limitWindow, limitWindow, .giveBack 0⟩] ++
    [2, 3, 4, 5, 6].flatMap fun i => placedAt i (limitWindow + second)

/-- The later hour's count falls below the bookings placed in it, and one more than the
limit is placed. -/
theorem refund_spends_another_window :
    ∃ s, Placements.empty.run plainDigests refusedLate = some s ∧
      s.succeeded (.placed (some 1, 7)) 2 = 6 ∧
      (PlacementKey.placed (some 1, 7) : PlacementKey ℕ (Option ℕ × ℕ)).limit = 5 ∧
      ¬ ∀ k c, s.table.rows k = some c → c.running limitWindow s.clock →
        c.hits = s.succeeded k (s.table.opened k) + s.inFlight k (s.table.opened k) := by
  obtain ⟨s, hrun⟩ := Option.isSome_iff_exists.mp
    (by decide +kernel : (Placements.empty.run plainDigests refusedLate).isSome)
  have hfacts : ∀ s' ∈ Placements.empty.run plainDigests refusedLate,
      s'.succeeded (.placed (some 1, 7)) 2 = 6 ∧
        s'.table.rows (.placed (some 1, 7)) = some ⟨limitWindow, 5⟩ ∧
        s'.table.opened (.placed (some 1, 7)) = 2 ∧
        s'.clock = limitWindow + second := by
    decide +kernel
  obtain ⟨hplaced, hrow, hopened, hclock⟩ := hfacts s hrun
  refine ⟨s, hrun, hplaced, rfl, fun hall => ?_⟩
  have hcount := hall _ _ hrow (by rw [hclock]; decide)
  rw [hopened, hplaced] at hcount
  change 5 = 6 + _ at hcount
  omega

end Ziftbook
