import Ziftbook.Bookings.Operations
import Ziftbook.Foundation.Runs
import Ziftbook.Foundation.Tally

/-!
# Slots of an address and of its network

`_slot` of `app/limits.py`: a call of the limiter counts in two buckets, its address's and
its /48's, while its block runs. The lock makes each of the two moments one step, so the
calls of all threads interleave by whole steps.
-/

namespace Ziftbook

open Foundation Foundation.Runs

/-! ## § Keys -/

/-- `ip_key`'s group at a prefix length: IPv6 by its network, IPv4 by address. -/
def ipKeyAt (v6Prefix : ℕ) : Option Address → IpKey
  | none => .unknown
  | some (.v4 n) => .v4 n
  | some (.v6 n) =>
      if n / 2 ^ 32 = 0xffff then .v4 (n % 2 ^ 32) else .v6 (n / 2 ^ (128 - v6Prefix))

theorem ipKeyAt_default : ipKeyAt 64 = ipKey := by
  funext host
  rcases host with _ | (_ | _) <;> rfl

/-- What `_key` writes of a group at a prefix length: the text `ipaddress` prints or, with
the pepper set, the text's HMAC. -/
abbrev Naming := ℕ → IpKey → String

def Address.Valid : Address → Prop
  | .v4 n => n < 2 ^ 32
  | .v6 n => n < 2 ^ 128

instance : ∀ address : Address, Decidable address.Valid
  | .v4 n => inferInstanceAs (Decidable (n < 2 ^ 32))
  | .v6 n => inferInstanceAs (Decidable (n < 2 ^ 128))

/-- Whom a request is from: nothing when its address does not parse. -/
structure Caller where
  host : Option Address
  valid : ∀ address ∈ host, address.Valid

def Address.caller (address : Address) (h : address.Valid) : Caller :=
  ⟨some address, fun _ hmem => Option.some.inj hmem ▸ h⟩

/-- No two groups of callers are written alike. -/
def Naming.Distinct (naming : Naming) : Prop := ∀ v6Prefix (caller other : Caller),
  naming v6Prefix (ipKeyAt v6Prefix caller.host) = naming v6Prefix (ipKeyAt v6Prefix other.host) →
    ipKeyAt v6Prefix caller.host = ipKeyAt v6Prefix other.host

/-- `ip_key`: `action:ip:value`. -/
def ipKeyText (naming : Naming) (action : String) (v6Prefix : ℕ) (host : Option Address) :
    String :=
  action ++ ":ip:" ++ naming v6Prefix (ipKeyAt v6Prefix host)

/-! ## § The guard -/

inductive Tier
  | address | network
deriving DecidableEq, Repr

/-- `MAX_IN_FLIGHT`. -/
def maxInFlight : ℕ := 2

/-- `MAX_IN_FLIGHT_PER_48`. -/
def maxInFlightPer48 : ℕ := 8

/-- `AUTH_V6_PREFIX`. -/
def authV6Prefix : ℕ := 48

structure Bucket where
  key : String
  cap : ℕ
  tier : Tier

/-- `buckets`. -/
def slotBuckets (naming : Naming) (caller : Caller) : List Bucket :=
  [⟨ipKeyText naming "in_flight" 64 caller.host, maxInFlight, .address⟩,
    ⟨ipKeyText naming "in_flight_48" authV6Prefix caller.host, maxInFlightPer48, .network⟩]

def slotKeys (naming : Naming) (caller : Caller) : List String :=
  (slotBuckets naming caller).map Bucket.key

/-- `_in_flight`, the calls whose blocks run, and whether a `finally` met a missing entry. -/
structure InFlight where
  counts : Counts String
  inside : List Caller
  raised : Bool

namespace InFlight

def empty : InFlight := ⟨.empty, [], false⟩

/-- `full`: the tier of the first bucket that has all its calls in flight. -/
def full (s : InFlight) (buckets : List Bucket) : Option Tier :=
  (buckets.find? fun b => b.cap ≤ s.counts.get b.key).map Bucket.tier

/-- Up to the `yield`: `AtCap`, with the tier it counts, or a call inside. -/
def enter (naming : Naming) (s : InFlight) (caller : Caller) : Option Tier × InFlight :=
  match s.full (slotBuckets naming caller) with
  | some tier => (some tier, s)
  | none => (none, { s with
      counts := (slotKeys naming caller).foldl Counts.take s.counts
      inside := caller :: s.inside })

/-- The `finally` of the `i`-th call inside. -/
def leave (naming : Naming) (s : InFlight) (i : ℕ) : Option InFlight :=
  s.inside[i]?.map fun caller =>
    let given := s.counts.giveAll (slotKeys naming caller)
    { counts := given.1, inside := s.inside.eraseIdx i, raised := s.raised || given.2 }

end InFlight

/-- A call comes, or the block of one inside ends, raising or not. -/
inductive SlotEvent
  | enter (caller : Caller)
  | leave (i : ℕ) (raised : Bool)

def InFlight.step (naming : Naming) (s : InFlight) : SlotEvent → Option InFlight
  | .enter caller => some (s.enter naming caller).2
  | .leave i _ => s.leave naming i

/-! ## § Two buckets of one key are of one group -/

/-- The group whose calls a bucket counts. -/
def Tier.group : Tier → Caller → IpKey
  | .address, caller => ipKeyAt 64 caller.host
  | .network, caller => ipKeyAt authV6Prefix caller.host

def Tier.cap : Tier → ℕ
  | .address => maxInFlight
  | .network => maxInFlightPer48

def Tier.key (naming : Naming) (caller : Caller) : Tier → String
  | .address => ipKeyText naming "in_flight" 64 caller.host
  | .network => ipKeyText naming "in_flight_48" authV6Prefix caller.host

theorem slotBuckets_eq (naming : Naming) (caller : Caller) :
    slotBuckets naming caller =
      [Tier.address, .network].map fun tier => ⟨tier.key naming caller, tier.cap, tier⟩ := rfl

theorem slotKeys_eq (naming : Naming) (caller : Caller) :
    slotKeys naming caller = [Tier.address.key naming caller, Tier.network.key naming caller] := rfl

variable {naming : Naming} {caller other : Caller}

theorem ipKeyText_inj (hnaming : naming.Distinct) {action : String} {v6Prefix : ℕ} :
    ipKeyText naming action v6Prefix caller.host = ipKeyText naming action v6Prefix other.host ↔
      ipKeyAt v6Prefix caller.host = ipKeyAt v6Prefix other.host := by
  rw [ipKeyText, ipKeyText, String.append_right_inj]
  exact ⟨hnaming v6Prefix caller other, fun h => by rw [h]⟩

/-- The two actions' keys differ after `in_flight`. -/
theorem address_key_ne_network_key :
    Tier.address.key naming caller ≠ Tier.network.key naming other := by
  intro h
  have hactions : "in_flight_48" = "in_flight" ++ "_48" := by decide +kernel
  simp only [Tier.key, ipKeyText, hactions, String.append_assoc, String.append_right_inj] at h
  have hfirst := congrArg (fun key => key.toList.head?) h
  simp at hfirst

theorem Tier.key_inj (hnaming : naming.Distinct) {tier tier' : Tier} :
    tier.key naming caller = tier'.key naming other ↔
      tier = tier' ∧ tier.group caller = tier.group other := by
  cases tier <;> cases tier'
  · simp [Tier.key, Tier.group, ipKeyText_inj hnaming]
  · simp [address_key_ne_network_key]
  · simp [Ne.symm address_key_ne_network_key]
  · simp [Tier.key, Tier.group, ipKeyText_inj hnaming]

/-! ## § Every count is of the calls inside -/

/-- The calls inside from the caller's group. -/
def InFlight.inGroup (s : InFlight) (tier : Tier) (caller : Caller) : ℕ :=
  s.inside.countP fun c => tier.group c = tier.group caller

/-- The keys the calls hold. -/
def heldKeys (naming : Naming) (inside : List Caller) : List String :=
  inside.flatMap (slotKeys naming)

/-- A key is held once by each call of its group. -/
theorem count_heldKeys (hnaming : naming.Distinct) {tier : Tier} {inside : List Caller} :
    (heldKeys naming inside).count (tier.key naming caller) =
      inside.countP fun c => tier.group c = tier.group caller := by
  induction inside with
  | nil => rfl
  | cons other inside ih =>
      have hone : (slotKeys naming other).count (tier.key naming caller) =
          if tier.group other = tier.group caller then 1 else 0 := by
        rw [slotKeys_eq]
        cases tier <;> simp [List.count_cons, Tier.key_inj hnaming]
      rw [heldKeys, List.flatMap_cons, List.count_append, hone, ← heldKeys, ih, List.countP_cons,
        add_comm]
      simp

namespace InFlight

/-- What holds between two steps. -/
structure Sound (naming : Naming) (s : InFlight) : Prop where
  tallied : s.counts.Tallies (heldKeys naming s.inside)
  capped : ∀ tier caller, s.inGroup tier caller ≤ tier.cap
  intact : s.raised = false

theorem sound_empty : empty.Sound naming :=
  ⟨Counts.tallies_empty, fun _ _ => Nat.zero_le _, rfl⟩

variable {s s' : InFlight}

theorem Sound.get_key (hnaming : naming.Distinct) (h : s.Sound naming) (tier : Tier)
    (caller : Caller) : s.counts.get (tier.key naming caller) = s.inGroup tier caller := by
  rw [h.tallied.get_eq, count_heldKeys hnaming, inGroup]

/-- **A call is let in where neither of its groups has all its calls in flight.** -/
theorem Sound.full_eq_none (hnaming : naming.Distinct) (h : s.Sound naming) :
    s.full (slotBuckets naming caller) = none ↔ ∀ tier, s.inGroup tier caller < tier.cap := by
  rw [full, Option.map_eq_none_iff, List.find?_eq_none]
  constructor
  · intro hfree tier
    have hbucket : ⟨tier.key naming caller, tier.cap, tier⟩ ∈ slotBuckets naming caller := by
      cases tier <;> simp [slotBuckets_eq]
    have hlt := hfree _ hbucket
    simp only [decide_eq_true_eq, not_le, h.get_key hnaming] at hlt
    exact_mod_cast hlt
  · intro hfree b hb
    rw [slotBuckets_eq] at hb
    obtain ⟨tier, _, rfl⟩ := List.mem_map.mp hb
    simp only [decide_eq_true_eq, not_le, h.get_key hnaming]
    exact_mod_cast hfree tier

theorem Sound.enter (hnaming : naming.Distinct) (h : s.Sound naming) (caller : Caller) :
    (s.enter naming caller).2.Sound naming := by
  unfold InFlight.enter
  split
  · exact h
  · rename_i hfull
    have hfree := (h.full_eq_none hnaming).mp hfull
    refine ⟨h.tallied.foldl_take, fun tier other => ?_, h.intact⟩
    show List.countP _ (caller :: s.inside) ≤ tier.cap
    rw [List.countP_cons]
    split_ifs with hsame
    · -- the group that grows is the one that was tested
      have hgroup : s.inGroup tier other = s.inGroup tier caller := by
        simp only [inGroup, of_decide_eq_true hsame]
      exact Nat.succ_le_of_lt (show s.inGroup tier other < tier.cap from hgroup ▸ hfree tier)
    · exact h.capped tier other

/-- **Leaving gives both keys back**, and the `finally` raises nothing. -/
theorem Sound.leave (h : s.Sound naming) {i : ℕ} (hleave : s.leave naming i = some s') :
    s'.Sound naming := by
  obtain ⟨caller, hcaller, rfl⟩ := Option.map_eq_some_iff.mp hleave
  obtain ⟨hi, rfl⟩ := List.getElem?_eq_some_iff.mp hcaller
  have hperm : s.inside.Perm (s.inside[i] :: s.inside.eraseIdx i) :=
    (List.getElem_cons_eraseIdx_perm hi).symm
  have hheld := h.tallied.perm (hperm.flatMap_right (slotKeys naming))
  obtain ⟨hmissing, htallied⟩ := Counts.Tallies.giveAll hheld
  refine ⟨htallied, fun tier other => ?_, ?_⟩
  · exact ((List.eraseIdx_sublist _ i).countP_le).trans (h.capped tier other)
  · show (s.raised || _) = false
    rw [h.intact, hmissing]
    rfl

theorem Sound.step (hnaming : naming.Distinct) (h : s.Sound naming) {e : SlotEvent}
    (hstep : s.step naming e = some s') : s'.Sound naming := by
  cases e with
  | enter caller =>
      cases hstep
      exact h.enter hnaming caller
  | leave i raised => exact h.leave hstep

/-- Every entry is of a group that has a call inside. -/
theorem Sound.entry (h : s.Sound naming) {key : String} {n : ℤ} (hkey : s.counts key = some n) :
    0 < n ∧ ∃ caller ∈ s.inside, ∃ tier : Tier, key = tier.key naming caller := by
  refine ⟨h.tallied.pos hkey, ?_⟩
  have hheld : key ∈ heldKeys naming s.inside := by
    rw [h.tallied key] at hkey
    split_ifs at hkey with hnone
    exact List.count_pos_iff.mp (Nat.pos_of_ne_zero hnone)
  obtain ⟨caller, hcaller, hkeys⟩ := List.mem_flatMap.mp hheld
  rw [slotKeys_eq] at hkeys
  rcases List.mem_pair.mp hkeys with rfl | rfl
  · exact ⟨caller, hcaller, .address, rfl⟩
  · exact ⟨caller, hcaller, .network, rfl⟩

end InFlight

/-- **Slots per network.** However calls come and go, an address group's count is the number
of its calls inside, which is within its cap; it has no entry when there are none, no entry
is zero or less, and giving back never fails. -/
theorem slots_counted (hnaming : naming.Distinct) {es : List SlotEvent} {s : InFlight}
    (hrun : run (InFlight.step naming) .empty es = some s) :
    (∀ (tier : Tier) (caller : Caller),
      s.counts.get (tier.key naming caller) = s.inGroup tier caller ∧
      s.inGroup tier caller ≤ tier.cap ∧
      (s.inGroup tier caller = 0 → s.counts (tier.key naming caller) = none)) ∧
    (∀ key n, s.counts key = some n →
      0 < n ∧ ∃ caller ∈ s.inside, ∃ tier : Tier, key = tier.key naming caller) ∧
    s.raised = false := by
  have hsound : s.Sound naming :=
    run_invariant' (fun _ _ _ h hstep => h.step hnaming hstep) InFlight.sound_empty hrun
  refine ⟨fun tier caller => ⟨hsound.get_key hnaming tier caller, hsound.capped tier caller, ?_⟩,
    fun _ _ => hsound.entry, hsound.intact⟩
  intro hnone
  rw [hsound.tallied, count_heldKeys hnaming]
  exact if_pos hnone

/-- The texts of two networks and an address, without the pepper; other groups are written
some other way. -/
def printed : Naming := fun v6Prefix group =>
  match group with
  | .unknown => "unknown"
  | .v4 n => if n = 0xcb007107 then "203.0.113.7" else String.ofList ('4' :: List.replicate n '.')
  | .v6 network =>
      if v6Prefix = 64 ∧ network = 0x20010db800000000 then "2001:db8::/64"
      else if v6Prefix = 48 ∧ network = 0x20010db80000 then "2001:db8::/48"
      else String.ofList ('6' :: List.replicate network ':')

/-- The group of a text `printed` writes. -/
def readBack (v6Prefix : ℕ) (text : String) : IpKey :=
  match text.toList with
  | '4' :: rest => .v4 rest.length
  | '6' :: rest => .v6 rest.length
  | '2' :: '0' :: '3' :: _ => .v4 0xcb007107
  | '2' :: '0' :: '0' :: _ => .v6 (if v6Prefix = 64 then 0x20010db800000000 else 0x20010db80000)
  | _ => .unknown

theorem readBack_printed (v6Prefix : ℕ) (group : IpKey) :
    readBack v6Prefix (printed v6Prefix group) = group := by
  cases group with
  | unknown => simp [readBack, printed]
  | v4 n =>
      simp only [printed]
      split_ifs with h
      · simp [readBack, h]
      · simp [readBack]
  | v6 network =>
      simp only [printed]
      split_ifs with h h'
      · simp [readBack, h.1, h.2]
      · simp [readBack, h'.1, h'.2]
      · simp [readBack]

theorem printed_distinct : printed.Distinct := fun v6Prefix _ _ h =>
  Function.LeftInverse.injective (readBack_printed v6Prefix) h

/-- `2001:db8::1`. -/
def reader : Caller := Address.caller (.v6 0x20010db8000000000000000000000001) (by decide)

/-- `203.0.113.7`. -/
def visitor : Caller := Address.caller (.v4 0xcb007107) (by decide)

/-- The same address, mapped. -/
def mapped : Caller := Address.caller (.v6 0xffffcb007107) (by decide)

/-- A third call of one address is refused, and one of the first two fails. -/
def comings : List SlotEvent :=
  [.enter visitor, .enter reader, .enter mapped, .enter visitor, .leave 1 true]

theorem slots_counted_mapped : ∃ s, run (InFlight.step printed) .empty comings = some s ∧
    s.inside.length = 2 ∧
    s.counts.get (Tier.address.key printed visitor) = s.inGroup .address visitor ∧
    s.inGroup .address visitor ≤ maxInFlight ∧ s.raised = false := by
  have hruns : (run (InFlight.step printed) .empty comings).map (fun s => s.inside.length) =
      some 2 := by
    decide +kernel
  obtain ⟨s, hrun, hinside⟩ := Option.map_eq_some_iff.mp hruns
  obtain ⟨hgroups, _, hintact⟩ := slots_counted printed_distinct hrun
  obtain ⟨hcount, hcap, _⟩ := hgroups .address visitor
  exact ⟨s, hrun, hinside, hcount, hcap, hintact⟩

end Ziftbook
