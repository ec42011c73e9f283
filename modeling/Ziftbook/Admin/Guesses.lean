import Ziftbook.Admin.SingleUse
import Ziftbook.Foundation.Leaky

/-!
# Second-factor guesses are bounded

An attempt is counted before its code is checked, and a pass gives one back. The
count leaks one per eight hours. While no leak forgets an attempt that is still in
flight, the attempts of a stretch of time that no pass gave back are at most the
lock's ten, the leaks that fit the stretch and one more, and the locks lifted in it.
A leak that forgets one in flight lets its pass give it back a second time.
-/

namespace Ziftbook

open Foundation

/-! ## § Reading the log -/

/-- The calls on a confirmed factor. -/
def Call.guesses : Call → Prop
  | .chargeSecondFactor _ | .checkSecondFactor .. | .useRecoveryCode _ => True
  | _ => False

instance : DecidablePred Call.guesses := fun call => by
  cases call <;> simp only [Call.guesses] <;> infer_instance

/-- In the stretch of length `T` from `t`. -/
def LogEntry.during (e : LogEntry) (t T : ℤ) : Prop := t ≤ e.now ∧ e.now ≤ t + T

instance (e : LogEntry) (t T : ℤ) : Decidable (e.during t T) := inferInstanceAs (Decidable (_ ∧ _))

/-- The charge a committed pass gave back. -/
def LogEntry.returned (e : LogEntry) : Option Charge :=
  match e.committed, e.answer with
  | true, .passed _ => e.call.charge
  | _, _ => none

def Reply.wasLocked : Reply → Bool
  | .recovered _ wasLocked => wasLocked
  | _ => false

/-- A committed recovery code that lifted a lock. -/
def LogEntry.lifts (e : LogEntry) : Bool := e.committed && e.answer.wasLocked

/-- The attempts charged in the stretch. -/
def Account.taken (a : Account) (t T : ℤ) : List Charge :=
  (a.log.filter fun e => e.during t T).filterMap LogEntry.charged

def Account.givenBack (a : Account) : List Charge := a.log.filterMap LogEntry.returned

/-- The attempts charged in the stretch and not given back by a pass. -/
def Account.spent (a : Account) (t T : ℤ) : Finset Charge :=
  ((a.taken t T).filter fun c => c ∉ a.givenBack).toFinset

/-- The locks lifted in the stretch. -/
def Account.lifted (a : Account) (t T : ℤ) : ℕ :=
  a.log.countP fun e => e.during t T ∧ e.lifts = true

/-- A ticket from the CLI, committed. -/
def LogEntry.tickets (e : LogEntry) : Prop := e.committed = true ∧ e.answer = .issued

instance (e : LogEntry) : Decidable e.tickets := inferInstanceAs (Decidable (_ ∧ _))

def Call.enrols : Call → Bool
  | .chargeTotpEnrolment _ => true
  | _ => false

/-- The confirm codes charged since the last ticket. -/
def enrolCharges : List LogEntry → ℕ
  | [] => 0
  | e :: log =>
      if e.tickets then 0
      else enrolCharges log + if e.call.enrols = true ∧ e.charged.isSome then 1 else 0

/-! ## § Attempts in flight -/

/-- The attempts charged whose checks may still come. -/
def Factor.inFlight (f : Factor) (now : ℤ) : ℕ := f.charges.countP fun c => c.live now

/-- A leak is due that would take an attempt in flight off the count. -/
def Factor.forgets (f : Factor) (now : ℤ) : Prop :=
  0 < f.leaked now ∧ 0 < f.inFlight now ∧ f.failedAttempts < f.inFlight now + f.leaked now

instance (f : Factor) (now : ℤ) : Decidable (f.forgets now) :=
  inferInstanceAs (Decidable (_ ∧ _ ∧ _))

def Call.charges : Call → Bool
  | .chargeSecondFactor _ => true
  | _ => false

/-- The call is charged, and its leak forgets an attempt in flight. -/
def Account.forgets (a : Account) (m : Made) : Prop :=
  m.call.charges = true ∧ m.live = true ∧ m.committed = true ∧
    a.factor.failedAttempts < lockLevel ∧ a.factor.forgets m.now

instance (a : Account) (m : Made) : Decidable (a.forgets m) :=
  inferInstanceAs (Decidable (_ ∧ _ ∧ _ ∧ _ ∧ _))

/-- The calls of a run come as time passes. -/
def InOrder (ms : List Made) : Prop := (ms.map Made.now).IsChain (· ≤ ·)

instance (ms : List Made) : Decidable (InOrder ms) := inferInstanceAs (Decidable (List.IsChain ..))

theorem along_inOrder {ms : List Made} : ∀ {a : Account},
    (∀ e ∈ a.log, ∀ m ∈ ms, e.now ≤ m.now) → InOrder ms →
    Runs.Along Account.step (fun a m => ∀ e ∈ a.log, e.now ≤ m.now) a ms := by
  induction ms with
  | nil => intro a _ _; trivial
  | cons m ms ih =>
      intro a hlog horder
      refine ⟨fun e he => hlog e he m (List.mem_cons_self ..), fun a' hstep => ?_⟩
      have hpairs := List.isChain_iff_pairwise.mp horder
      rw [List.map_cons, List.pairwise_cons] at hpairs
      cases hstep
      apply ih
      · intro e he m' hm'
        rcases List.mem_cons.mp he with rfl | he
        · exact hpairs.1 _ (List.mem_map_of_mem hm')
        · exact hlog e he m' (List.mem_cons_of_mem _ hm')
      · exact List.isChain_iff_pairwise.mpr hpairs.2

/-! ## § What a stretch has spent -/

theorem mem_spent {a : Account} {t T : ℤ} {c : Charge} : c ∈ a.spent t T ↔
    (∃ e ∈ a.log, e.during t T ∧ e.charged = some c) ∧ ∀ e ∈ a.log, e.returned ≠ some c := by
  simp only [Account.spent, Account.taken, Account.givenBack, List.mem_toFinset, List.mem_filter,
    List.mem_filterMap, decide_eq_true_eq, not_exists, not_and, and_assoc]

section extend

variable {a : Account} {f : Factor} {e : LogEntry} {t T : ℤ}

/-- The account one call on. -/
def Account.extend (a : Account) (f : Factor) (e : LogEntry) : Account :=
  ⟨f, a.serials + 1, a.secrets + 1, e :: a.log⟩

theorem mem_spent_extend {c : Charge} : c ∈ (a.extend f e).spent t T →
    (c ∈ a.spent t T ∨ e.during t T ∧ e.charged = some c) ∧ e.returned ≠ some c := by
  intro h
  obtain ⟨⟨x, hx, hduring, hcharged⟩, hback⟩ := mem_spent.mp h
  refine ⟨?_, hback e (List.mem_cons_self ..)⟩
  rcases List.mem_cons.mp hx with rfl | hx
  · exact Or.inr ⟨hduring, hcharged⟩
  · exact Or.inl (mem_spent.mpr ⟨⟨x, hx, hduring, hcharged⟩, fun y hy =>
      hback y (List.mem_cons_of_mem _ hy)⟩)

theorem spent_extend_subset (h : e.during t T → e.charged = none) :
    (a.extend f e).spent t T ⊆ a.spent t T := by
  intro c hc
  rcases (mem_spent_extend hc).1 with hc | ⟨hduring, hc⟩
  · exact hc
  · rw [h hduring] at hc
    cases hc

theorem spent_extend_insert {c : Charge} (h : e.charged = some c) :
    (a.extend f e).spent t T ⊆ insert c (a.spent t T) := by
  intro d hd
  rcases (mem_spent_extend hd).1 with hd | ⟨_, hd⟩
  · exact Finset.mem_insert_of_mem hd
  · rw [h] at hd
    cases hd
    exact Finset.mem_insert_self ..

theorem spent_extend_erase {c : Charge} (h : e.charged = none) (hback : e.returned = some c) :
    (a.extend f e).spent t T ⊆ (a.spent t T).erase c := by
  intro d hd
  refine Finset.mem_erase.mpr ⟨?_, spent_extend_subset (fun _ => h) hd⟩
  rintro rfl
  exact (mem_spent_extend hd).2 hback

theorem lifted_extend : (a.extend f e).lifted t T =
    a.lifted t T + if e.during t T ∧ e.lifts = true then 1 else 0 := by
  simp [Account.extend, Account.lifted, List.countP_cons]

end extend

/-! ## § One guess -/

/-- What a call on a confirmed factor can do to the count. -/
inductive Account.Guessed (a : Account) (m : Made) : Factor → LogEntry → Prop
  | idle (e : LogEntry) : e.charged = none → e.lifts = false → Guessed a m a.factor e
  | charged (e : LogEntry) (c : Charge) : m.call.charges = true → m.live = true →
      m.committed = true → a.factor.failedAttempts < lockLevel → e.charged = some c →
      e.lifts = false → Guessed a m (a.factor.charge m.now c) e
  | passed (e : LogEntry) (c : Charge) (k : ℤ) : c ∈ a.factor.charges → e.charged = none →
      e.returned = some c → e.lifts = false → Guessed a m (a.factor.pass (some c) k) e
  | failed (e : LogEntry) (c : Charge) : e.charged = none → e.lifts = false →
      Guessed a m { a.factor with charges := a.factor.without (some c) } e
  | recovered (e : LogEntry) (code : ℕ) : a.factor.confirmedAt ≠ none →
      code ∈ a.factor.recoveryCodeHashes → e.charged = none →
      e.lifts = decide (lockLevel ≤ a.factor.failedAttempts) →
      Guessed a m (a.factor.useRecoveryCode m.now code).1 e

theorem lifts_eq_false_of_idle {e : LogEntry} (h : e.committed = false ∨ e.answer.idle) :
    e.lifts = false := by
  obtain ⟨now, call, answer, committed⟩ := e
  rcases h with h | h
  · subst h
    rfl
  · cases answer <;> first | exact h.elim | (cases committed <;> rfl)

theorem charged_eq_none_of_idle {e : LogEntry} (h : e.committed = false ∨ e.answer.idle) :
    e.charged = none := by
  obtain ⟨now, call, answer, committed⟩ := e
  rcases h with h | h
  · subst h
    rfl
  · cases answer <;> first | exact h.elim | (cases committed <;> rfl)

theorem guessed_of_idle {a : Account} {m : Made} {e : LogEntry}
    (h : e.committed = false ∨ e.answer.idle) : a.Guessed m a.factor e :=
  .idle e (charged_eq_none_of_idle h) (lifts_eq_false_of_idle h)

theorem guessed_of_called {a : Account} {now : ℤ} {call : Call} {f : Factor} {answer : Reply}
    (hguess : call.guesses)
    (h : a.factor.Called a.serials a.secrets now call f answer) :
    a.Guessed ⟨now, true, true, call⟩ f ⟨now, call, answer, true⟩ := by
  cases h with
  | idle call answer hidle => exact guessed_of_idle (Or.inr hidle)
  | charged madeAt _ hlock => exact .charged _ _ rfl rfl rfl hlock rfl rfl
  | passed c proof k _ hmem => exact .passed _ c k hmem rfl rfl rfl
  | failed c => exact .failed _ c rfl rfl
  | recovered code hconfirmed hcode =>
      exact .recovered _ code hconfirmed hcode rfl rfl
  | _ => exact hguess.elim

theorem guessed {a a' : Account} {m : Made} (hguess : m.call.guesses)
    (hstep : a.step m = some a') :
    ∃ f, a' = a.extend f (a.entry m) ∧ a.Guessed m f (a.entry m) := by
  cases hstep
  refine ⟨_, rfl, ?_⟩
  obtain ⟨now, live, committed, call⟩ := m
  cases committed with
  | false => exact guessed_of_idle (Or.inl rfl)
  | true =>
      cases live with
      | true => exact guessed_of_called hguess (called_answer a ⟨now, true, true, call⟩)
      | false =>
          -- A session that is not live: the call finds no row.
          cases call <;> first | exact hguess.elim | exact guessed_of_idle (Or.inr trivial)

/-! ## § The count covers the attempts in flight -/

/-- The count, read as a leaky counter. -/
theorem leak_factor (f : Factor) (now : ℤ) :
    Leaky.leak leakLength ⟨f.failedAttempts, f.failuresLeakedAt.getD now⟩ now =
      ⟨f.level now, f.anchor now⟩ := by
  have hlevel : f.failedAttempts - Leaky.due leakLength
      ⟨f.failedAttempts, f.failuresLeakedAt.getD now⟩ now = f.level now := by
    simp only [Leaky.due, Factor.level, Factor.leaked]
    omega
  simp only [Leaky.leak, hlevel]
  rfl

theorem leakLength_pos : 0 < leakLength := by decide

structure Account.Covered (a : Account) : Prop where
  covers : a.factor.charges.toFinset.card ≤ a.factor.failedAttempts
  locks : a.factor.failedAttempts ≤ lockLevel
  anchored : ∀ x ∈ a.factor.failuresLeakedAt, ∃ e ∈ a.log, x ≤ e.now

theorem without_toFinset {f : Factor} {c : Charge} :
    (f.without (some c)).toFinset = f.charges.toFinset.erase c := by
  ext d
  simp [Factor.without, and_comm]

theorem charging_toFinset {f : Factor} {now : ℤ} {c : Charge} :
    (f.charging now c).toFinset = insert c (f.charges.filter fun d => d.live now).toFinset := by
  ext d
  simp [Factor.charging]

theorem inFlight_card (f : Factor) (now : ℤ) :
    (f.charges.filter fun d => d.live now).toFinset.card ≤ f.inFlight now := by
  rw [Factor.inFlight, List.countP_eq_length_filter]
  exact List.toFinset_card_le _

/-- A charge that forgets nothing leaves a count that covers what is in flight. -/
theorem live_card_le_level {a : Account} {m : Made} (hcovered : a.Covered)
    (hforgets : ¬ a.forgets m) (hcall : m.call.charges = true) (hlive : m.live = true)
    (hcommitted : m.committed = true) (hlock : a.factor.failedAttempts < lockLevel) :
    (a.factor.charges.filter fun d => d.live m.now).toFinset.card ≤ a.factor.level m.now := by
  have hcard := inFlight_card a.factor m.now
  have hsub : (a.factor.charges.filter fun d => d.live m.now).toFinset.card ≤
      a.factor.charges.toFinset.card := by
    apply Finset.card_le_card
    intro d hd
    exact List.mem_toFinset.mpr (List.mem_filter.mp (List.mem_toFinset.mp hd)).1
  have hcovers := hcovered.covers
  by_cases hleaked : a.factor.leaked m.now = 0
  · simp only [Factor.level, hleaked]
    omega
  · have hnot : ¬ a.factor.forgets m.now := fun h =>
      hforgets ⟨hcall, hlive, hcommitted, hlock, h⟩
    simp only [Factor.forgets, not_and, not_lt] at hnot
    simp only [Factor.level]
    by_cases hnone : a.factor.inFlight m.now = 0
    · omega
    · have := hnot (Nat.pos_of_ne_zero hleaked) (Nat.pos_of_ne_zero hnone)
      omega

theorem anchor_le {f : Factor} {now : ℤ} (h : ∀ x ∈ f.failuresLeakedAt, x ≤ now) :
    f.anchor now ≤ now := by
  have hle : f.failuresLeakedAt.getD now ≤ now := by
    cases hx : f.failuresLeakedAt with
    | none => exact le_rfl
    | some x => exact h x hx
  have := Leaky.leak_anchor_le (b := ⟨f.failedAttempts, f.failuresLeakedAt.getD now⟩)
    leakLength_pos hle
  rwa [leak_factor] at this

theorem Account.Covered.anchor_le_now {a : Account} (h : a.Covered) {now : ℤ}
    (horder : ∀ e ∈ a.log, e.now ≤ now) : ∀ x ∈ a.factor.failuresLeakedAt, x ≤ now := by
  intro x hx
  obtain ⟨e, he, hle⟩ := h.anchored x hx
  exact hle.trans (horder e he)

theorem covered_step {a a' : Account} {m : Made} (h : a.Covered) (hguess : m.call.guesses)
    (horder : ∀ e ∈ a.log, e.now ≤ m.now) (hforgets : ¬ a.forgets m)
    (hstep : a.step m = some a') : a'.Covered := by
  obtain ⟨f, rfl, hguessed⟩ := guessed hguess hstep
  have hlogged : ∀ x ∈ a.factor.failuresLeakedAt, ∃ e ∈ a.entry m :: a.log, x ≤ e.now :=
    fun x hx => (h.anchored x hx).imp fun e he => ⟨List.mem_cons_of_mem _ he.1, he.2⟩
  generalize hentry : a.entry m = e at hguessed hlogged
  have hnow : e.now = m.now := by rw [← hentry]; rfl
  cases hguessed with
  | idle => exact ⟨h.covers, h.locks, hlogged⟩
  | charged _ c hcall hlive hcommitted hlock =>
      refine ⟨?_, ?_, fun x hx => ⟨e, List.mem_cons_self .., ?_⟩⟩
      · show (a.factor.charging m.now c).toFinset.card ≤ a.factor.level m.now + 1
        rw [charging_toFinset]
        refine (Finset.card_insert_le _ _).trans (Nat.add_le_add_right ?_ 1)
        exact live_card_le_level h hforgets hcall hlive hcommitted hlock
      · show a.factor.level m.now + 1 ≤ lockLevel
        simp only [Factor.level]
        omega
      · cases hx
        rw [hnow]
        exact anchor_le (h.anchor_le_now horder)
  | passed _ c k hmem =>
      refine ⟨?_, ?_, hlogged⟩
      · show (a.factor.without (some c)).toFinset.card ≤ a.factor.failedAttempts - 1
        rw [without_toFinset, Finset.card_erase_of_mem (List.mem_toFinset.mpr hmem)]
        exact Nat.sub_le_sub_right h.covers 1
      · exact (Nat.sub_le _ _).trans h.locks
  | failed _ c =>
      refine ⟨?_, h.locks, hlogged⟩
      show (a.factor.without (some c)).toFinset.card ≤ a.factor.failedAttempts
      rw [without_toFinset]
      exact (Finset.card_le_card (Finset.erase_subset _ _)).trans h.covers
  | recovered _ code hconfirmed hcode =>
      rw [useRecoveryCode_eq hconfirmed hcode]
      refine ⟨?_, (min_le_left _ _).trans h.locks, fun x hx => ?_⟩
      · show (if lockLevel ≤ a.factor.failedAttempts then [] else a.factor.charges).toFinset.card ≤
          min a.factor.failedAttempts 9
        have hcovers := h.covers
        split_ifs with hlocked
        · simp
        · simp only [lockLevel] at hlocked
          omega
      · simp only at hx
        split_ifs at hx with hlocked
        · cases hx
          exact ⟨e, List.mem_cons_self .., hnow.ge⟩
        · exact hlogged x hx

/-! ## § A stretch of time -/

/-- What counts against the stretch: its attempts not given back, and every attempt in
flight, whose pass would lower the count. -/
def Account.against (a : Account) (t T : ℤ) : Finset Charge :=
  a.spent t T ∪ a.factor.charges.toFinset

/-- The stretch has begun: what counts against it is on the count, or lifted, or leaked
since its beginning or at most a period before. -/
structure Account.Begun (t T : ℤ) (a : Account) : Prop where
  entered : ∃ e ∈ a.log, t ≤ e.now
  bounded : ∃ x ∈ a.factor.failuresLeakedAt,
    (((a.against t T).card : ℤ) - a.factor.failedAttempts - a.lifted t T) * leakLength <
      x - t + leakLength

/-- The bound on a stretch. -/
def Account.Bounded (t T : ℤ) (a : Account) : Prop :=
  ((a.spent t T).card : ℤ) ≤ lockLevel + T / leakLength + 1 + a.lifted t T

theorem Account.Begun.toBounded {t T : ℤ} {a : Account} (h : a.Begun t T) (hcovered : a.Covered)
    (hwithin : ∀ e ∈ a.log, e.now ≤ t + T) : a.Bounded t T := by
  obtain ⟨x, hx, hlt⟩ := h.bounded
  obtain ⟨e, he, hxe⟩ := hcovered.anchored x hx
  have hxT : x ≤ t + T := hxe.trans (hwithin e he)
  have hspent : (a.spent t T).card ≤ (a.against t T).card :=
    Finset.card_le_card Finset.subset_union_left
  have hlocks := hcovered.locks
  -- One leak is due to the part of a period before the stretch.
  have hleaks : ((a.against t T).card : ℤ) - a.factor.failedAttempts - a.lifted t T - 1 ≤
      T / leakLength := by
    apply Int.le_ediv_of_mul_le leakLength_pos
    rw [sub_one_mul]
    omega
  show ((a.spent t T).card : ℤ) ≤ _
  omega

theorem charge_leak {f : Factor} {now x : ℤ} (hx : f.failuresLeakedAt = some x) (hle : x ≤ now) :
    ((f.failedAttempts : ℤ) - f.level now) * leakLength ≤ f.anchor now - x := by
  have hspent := Leaky.leak_spent (b := ⟨f.failedAttempts, f.failuresLeakedAt.getD now⟩)
    leakLength_pos (x := now) (by rw [hx]; exact hle)
  rw [leak_factor, hx] at hspent
  have hcast : ((f.failedAttempts - f.level now : ℕ) : ℤ) = (f.failedAttempts : ℤ) - f.level now :=
    Int.ofNat_sub (Nat.sub_le _ _)
  rw [hcast] at hspent
  exact hspent

theorem lt_anchor {f : Factor} {now : ℤ} (h : ∀ x ∈ f.failuresLeakedAt, x ≤ now) :
    now - leakLength < f.anchor now := by
  have hle : f.failuresLeakedAt.getD now ≤ now := by
    cases hx : f.failuresLeakedAt with
    | none => exact le_rfl
    | some x => exact h x hx
  have := Leaky.lt_leak_anchor (b := ⟨f.failedAttempts, f.failuresLeakedAt.getD now⟩)
    leakLength_pos hle
  rwa [leak_factor] at this

/-- A charge begins a stretch that has spent nothing so far. -/
theorem begun_of_charge {t T : ℤ} {a : Account} {m : Made} {e : LogEntry} {c : Charge}
    (hcovered : a.Covered) (horder : ∀ x ∈ a.log, x.now ≤ m.now) (hforgets : ¬ a.forgets m)
    (hcall : m.call.charges = true) (hlive : m.live = true) (hcommitted : m.committed = true)
    (hlock : a.factor.failedAttempts < lockLevel) (hnow : e.now = m.now)
    (hcharged : e.charged = some c) (hspent : a.spent t T = ∅) (ht : t ≤ m.now) :
    (a.extend (a.factor.charge m.now c) e).Begun t T := by
  refine ⟨⟨e, List.mem_cons_self .., by omega⟩, _, rfl, ?_⟩
  have hsub : (a.extend (a.factor.charge m.now c) e).against t T ⊆
      insert c (a.factor.charges.filter fun d => d.live m.now).toFinset := by
    apply Finset.union_subset
    · exact (spent_extend_insert hcharged).trans (Finset.insert_subset_insert _ (by simp [hspent]))
    · exact (charging_toFinset (f := a.factor)).subset
  have hcard := (Finset.card_le_card hsub).trans (Finset.card_insert_le _ _)
  have hcovers := live_card_le_level hcovered hforgets hcall hlive hcommitted hlock
  have hanchor := lt_anchor (hcovered.anchor_le_now horder)
  have hfailed : (a.extend (a.factor.charge m.now c) e).factor.failedAttempts =
      a.factor.level m.now + 1 := rfl
  have hnonpos : (((a.extend (a.factor.charge m.now c) e).against t T).card : ℤ) -
      (a.extend (a.factor.charge m.now c) e).factor.failedAttempts -
      (a.extend (a.factor.charge m.now c) e).lifted t T ≤ 0 := by
    rw [hfailed]
    omega
  have := mul_nonpos_of_nonpos_of_nonneg hnonpos leakLength_pos.le
  omega

/-- What is added to the excess has leaked since. -/
theorem excess_lt {u u' v x x' t : ℤ} (hu : u' ≤ u + v) (hv : v * leakLength ≤ x' - x)
    (h : u * leakLength < x - t + leakLength) : u' * leakLength < x' - t + leakLength := by
  have hmul := mul_le_mul_of_nonneg_right hu leakLength_pos.le
  rw [add_mul] at hmul
  omega

section against

variable {a : Account} {f : Factor} {e : LogEntry} {t T : ℤ}

theorem against_extend_subset (h : e.charged = none) (hf : f.charges ⊆ a.factor.charges) :
    (a.extend f e).against t T ⊆ a.against t T := by
  apply Finset.union_subset_union (spent_extend_subset fun _ => h)
  intro d hd
  exact List.mem_toFinset.mpr (hf (List.mem_toFinset.mp hd))

theorem against_extend_erase {c : Charge} (h : e.charged = none) (hback : e.returned = some c)
    (hf : f.charges = a.factor.without (some c)) :
    (a.extend f e).against t T ⊆ (a.against t T).erase c := by
  show (a.extend f e).spent t T ∪ f.charges.toFinset ⊆ _
  rw [hf, without_toFinset, Account.against, Finset.erase_union_distrib]
  exact Finset.union_subset_union (spent_extend_erase h hback) (Finset.Subset.refl _)

theorem against_extend_insert {c : Charge} {now : ℤ} (h : e.charged = some c)
    (hf : f.charges = a.factor.charging now c) :
    (a.extend f e).against t T ⊆ insert c (a.against t T) := by
  intro d hd
  rcases Finset.mem_union.mp hd with hd | hd
  · exact Finset.insert_subset_insert _ Finset.subset_union_left (spent_extend_insert h hd)
  · have hd : d ∈ f.charges := List.mem_toFinset.mp hd
    rw [hf] at hd
    rcases mem_charging hd with hd | rfl
    · exact Finset.mem_insert_of_mem (Finset.mem_union_right _ (List.mem_toFinset.mpr hd))
    · exact Finset.mem_insert_self ..

end against

theorem without_subset (f : Factor) (charge : Option Charge) : f.without charge ⊆ f.charges :=
  List.filter_subset_self _

/-- A step keeps the bound when what it adds to the excess over the count it lifts or
leaks. -/
theorem Account.Begun.extend {t T x x' v : ℤ} {a : Account} {f : Factor} {e : LogEntry}
    (hentered : ∃ e ∈ a.log, t ≤ e.now) (hduring : e.during t T)
    (hlt : (((a.against t T).card : ℤ) - a.factor.failedAttempts - a.lifted t T) * leakLength <
      x - t + leakLength)
    (hx' : x' ∈ f.failuresLeakedAt) (hv : v * leakLength ≤ x' - x)
    (hcard : (((a.extend f e).against t T).card : ℤ) - f.failedAttempts ≤
      (a.against t T).card - a.factor.failedAttempts + v + if e.lifts = true then 1 else 0) :
    (a.extend f e).Begun t T := by
  obtain ⟨e₀, he₀, ht₀⟩ := hentered
  refine ⟨⟨e₀, List.mem_cons_of_mem _ he₀, ht₀⟩, x', hx', excess_lt ?_ hv hlt⟩
  rw [lifted_extend]
  show _ - (f.failedAttempts : ℤ) - _ ≤ _
  simp only [hduring, true_and, Nat.cast_add, Nat.cast_ite, Nat.cast_one, Nat.cast_zero]
  omega

theorem begun_step {t T : ℤ} {a a' : Account} {m : Made} (h : a.Begun t T) (hcovered : a.Covered)
    (hguess : m.call.guesses) (horder : ∀ e ∈ a.log, e.now ≤ m.now) (hT : m.now ≤ t + T)
    (hstep : a.step m = some a') : a'.Begun t T := by
  obtain ⟨f, rfl, hguessed⟩ := guessed hguess hstep
  obtain ⟨hentered, x, hx, hlt⟩ := h
  have hxm : x ≤ m.now := hcovered.anchor_le_now horder x hx
  have hduring : (a.entry m).during t T := by
    obtain ⟨e, he, ht⟩ := hentered
    exact ⟨ht.trans (horder e he), hT⟩
  generalize a.entry m = e at hguessed hduring
  cases hguessed with
  | idle _ hcharged hlifts =>
      have hcard := Finset.card_le_card (against_extend_subset (f := a.factor) (t := t) (T := T)
        hcharged (List.Subset.refl _))
      apply Account.Begun.extend (v := 0) hentered hduring hlt hx (by omega)
      simp only [hlifts, Bool.false_eq_true, if_false]
      omega
  | failed _ c hcharged hlifts =>
      have hcard := Finset.card_le_card (against_extend_subset
        (f := { a.factor with charges := a.factor.without (some c) }) (t := t) (T := T)
        hcharged (without_subset a.factor (some c)))
      refine Account.Begun.extend (v := 0) hentered hduring hlt (by exact hx) (by omega) ?_
      simp only [hlifts, Bool.false_eq_true, if_false] at hcard ⊢
      omega
  | charged _ c hcall hlive hcommitted hlock hcharged hlifts =>
      -- The count is one up, less what has leaked since the last anchor.
      have hcard := (Finset.card_le_card (against_extend_insert
        (f := a.factor.charge m.now c) (t := t) (T := T) hcharged rfl)).trans
        (Finset.card_insert_le _ _)
      apply Account.Begun.extend hentered hduring hlt rfl (charge_leak hx hxm)
      have hfailed : (a.factor.charge m.now c).failedAttempts = a.factor.level m.now + 1 := rfl
      simp only [hlifts, hfailed, Bool.false_eq_true, if_false]
      omega
  | passed _ c k hmem hcharged hback hlifts =>
      -- The count is one down, and so is what is against the stretch.
      have hagainst : c ∈ a.against t T := Finset.mem_union_right _ (List.mem_toFinset.mpr hmem)
      have hcard := Finset.card_le_card (against_extend_erase
        (f := a.factor.pass (some c) k) (t := t) (T := T) hcharged hback rfl)
      rw [Finset.card_erase_of_mem hagainst] at hcard
      have hpos := Finset.card_pos.mpr ⟨c, hagainst⟩
      have hcount := Finset.card_pos.mpr ⟨c, List.mem_toFinset.mpr hmem⟩
      have hcovers := hcovered.covers
      refine Account.Begun.extend (v := 0) hentered hduring hlt (by exact hx) (by omega) ?_
      have hfailed : (a.factor.pass (some c) k).failedAttempts = a.factor.failedAttempts - 1 := rfl
      simp only [hlifts, hfailed, Bool.false_eq_true, if_false]
      omega
  | recovered _ code hconfirmed hcode hcharged hlifts =>
      have hcard := Finset.card_le_card (against_extend_subset
        (f := (a.factor.useRecoveryCode m.now code).1) (t := t) (T := T) hcharged (by
          rw [useRecoveryCode_eq hconfirmed hcode]
          show (if lockLevel ≤ a.factor.failedAttempts then [] else a.factor.charges) ⊆ _
          split_ifs
          · exact List.nil_subset _
          · exact List.Subset.refl _))
      have hfailed : (a.factor.useRecoveryCode m.now code).1.failedAttempts =
          min a.factor.failedAttempts 9 := by
        rw [useRecoveryCode_eq hconfirmed hcode]
      have hanchor : (a.factor.useRecoveryCode m.now code).1.failuresLeakedAt =
          if lockLevel ≤ a.factor.failedAttempts then some m.now
          else a.factor.failuresLeakedAt := by
        rw [useRecoveryCode_eq hconfirmed hcode]
      have hlocks := hcovered.locks
      by_cases hlocked : lockLevel ≤ a.factor.failedAttempts
      · refine Account.Begun.extend (v := 0) hentered hduring hlt
          (show m.now ∈ (a.factor.useRecoveryCode m.now code).1.failuresLeakedAt by
            simp [hanchor, hlocked]) (by omega) ?_
        simp only [lockLevel] at hlocked hlocks
        simp only [hlifts, hfailed, lockLevel, hlocked, decide_true, if_true]
        omega
      · refine Account.Begun.extend (v := 0) hentered hduring hlt
          (show x ∈ (a.factor.useRecoveryCode m.now code).1.failuresLeakedAt by
            simpa [hanchor, hlocked] using hx) (by omega) ?_
        simp only [lockLevel] at hlocked
        simp only [hlifts, hfailed, lockLevel, hlocked, decide_false, Bool.false_eq_true, if_false]
        omega

/-- Time within the stretch, or past it. -/
def Account.Stretch (t T : ℤ) (a : Account) : Prop :=
  ((∀ e ∈ a.log, e.now ≤ t + T) ∧ (a.spent t T = ∅ ∨ a.Begun t T)) ∨
    ((∃ e ∈ a.log, t + T < e.now) ∧ a.Bounded t T)

theorem bounded_of_empty {t T : ℤ} (hT : 0 ≤ T) {a : Account} (h : a.spent t T = ∅) :
    a.Bounded t T := by
  have : 0 ≤ T / leakLength := Int.ediv_nonneg hT leakLength_pos.le
  show ((a.spent t T).card : ℤ) ≤ _
  rw [h, Finset.card_empty]
  omega

theorem Account.Stretch.toBounded {t T : ℤ} (hT : 0 ≤ T) {a : Account} (h : a.Stretch t T)
    (hcovered : a.Covered) : a.Bounded t T := by
  rcases h with ⟨hwithin, hempty | hbegun⟩ | ⟨_, hbounded⟩
  · exact bounded_of_empty hT hempty
  · exact hbegun.toBounded hcovered hwithin
  · exact hbounded

/-- A call within the stretch. -/
theorem stretch_step_within {t T : ℤ} {a a' : Account} {m : Made} (hcovered : a.Covered)
    (hguess : m.call.guesses) (horder : ∀ e ∈ a.log, e.now ≤ m.now) (hforgets : ¬ a.forgets m)
    (hT : m.now ≤ t + T) (h : a.spent t T = ∅ ∨ a.Begun t T) (hstep : a.step m = some a') :
    a'.spent t T = ∅ ∨ a'.Begun t T := by
  rcases h with hempty | hbegun
  · obtain ⟨f, rfl, hguessed⟩ := guessed hguess hstep
    have hnow : (a.entry m).now = m.now := rfl
    generalize a.entry m = e at hguessed hnow
    have hsame : (e.during t T → e.charged = none) → (a.extend f e).spent t T = ∅ := fun h =>
      Finset.subset_empty.mp (hempty ▸ spent_extend_subset h)
    cases hguessed with
    | idle _ hcharged => exact Or.inl (hsame fun _ => hcharged)
    | passed _ c k _ hcharged => exact Or.inl (hsame fun _ => hcharged)
    | failed _ c hcharged => exact Or.inl (hsame fun _ => hcharged)
    | recovered _ code _ _ hcharged => exact Or.inl (hsame fun _ => hcharged)
    | charged _ c hcall hlive hcommitted hlock hcharged =>
        by_cases ht : t ≤ m.now
        · exact Or.inr (begun_of_charge hcovered horder hforgets hcall hlive hcommitted hlock hnow
            hcharged hempty ht)
        · exact Or.inl (hsame fun hduring => absurd (hnow ▸ hduring.1) ht)
  · exact Or.inr (begun_step hbegun hcovered hguess horder hT hstep)

/-- A call past the stretch takes nothing more from it. -/
theorem bounded_step_past {t T : ℤ} {a a' : Account} {m : Made} (h : a.Bounded t T)
    (hpast : t + T < m.now) (hstep : a.step m = some a') : a'.Bounded t T := by
  cases hstep
  have hduring : ¬ (a.entry m).during t T := fun hd => absurd hd.2 (not_le.mpr hpast)
  set f := if m.committed then (a.answer m).1 else a.factor
  have hcard := Finset.card_le_card (spent_extend_subset (a := a) (f := f)
    fun hd => absurd hd hduring)
  have hlifted := lifted_extend (a := a) (f := f) (e := a.entry m) (t := t) (T := T)
  simp only [hduring, false_and, if_false, Nat.add_zero] at hlifted
  show (((a.extend f (a.entry m)).spent t T).card : ℤ) ≤
    lockLevel + T / leakLength + 1 + (a.extend f (a.entry m)).lifted t T
  rw [hlifted]
  exact (Nat.cast_le.mpr hcard).trans h

theorem stretch_step {t T : ℤ} (hT : 0 ≤ T) {a a' : Account} {m : Made} (hcovered : a.Covered)
    (hguess : m.call.guesses) (horder : ∀ e ∈ a.log, e.now ≤ m.now) (hforgets : ¬ a.forgets m)
    (h : a.Stretch t T) (hstep : a.step m = some a') : a'.Stretch t T := by
  by_cases hwithin : m.now ≤ t + T
  · rcases h with ⟨hlog, h⟩ | ⟨⟨e, he, hlt⟩, _⟩
    · refine Or.inl ⟨?_, stretch_step_within hcovered hguess horder hforgets hwithin h hstep⟩
      cases hstep
      intro e he
      rcases List.mem_cons.mp he with rfl | he
      · exact hwithin
      · exact hlog e he
    · exact absurd (horder e he) (by omega)
  · have hbounded := bounded_step_past (h.toBounded hT hcovered) (not_le.mp hwithin) hstep
    cases hstep
    exact Or.inr ⟨⟨_, List.mem_cons_self .., not_le.mp hwithin⟩, hbounded⟩

theorem bounded_of_run {f : Factor} {ms : List Made} {a : Account} {t T : ℤ}
    (hcovered : (Account.start f).Covered) (hrun : (Account.start f).run ms = some a)
    (hguesses : ∀ m ∈ ms, m.call.guesses) (horder : InOrder ms)
    (hforgets : Runs.Along Account.step (fun a m => ¬ a.forgets m) (Account.start f) ms)
    (hT : 0 ≤ T) : a.Bounded t T := by
  have hordered := along_inOrder (a := Account.start f) (fun e he => (by cases he)) horder
  have halong := (Runs.along_of_forall hguesses (Account.start f)).and (hordered.and hforgets)
  have hstart : (Account.start f).Stretch t T :=
    Or.inl ⟨fun e he => (by cases he), Or.inl rfl⟩
  have hkept : a.Covered ∧ a.Stretch t T :=
    Runs.run_invariant (I := fun a => a.Covered ∧ a.Stretch t T)
      (fun a m a' h hok hstep =>
        ⟨covered_step h.1 hok.1 hok.2.1 hok.2.2 hstep,
          stretch_step hT h.1 hok.1 hok.2.1 hok.2.2 h.2 hstep⟩)
      ⟨hcovered, hstart⟩ halong hrun
  exact hkept.2.toBounded hT hkept.1

theorem covered_confirm {f : Factor} {now step : ℤ} {codes : List ℕ} {h : f.secret ≠ none} :
    (Account.start (f.confirm now step codes h)).Covered :=
  ⟨Nat.zero_le _, Nat.zero_le _, fun x hx => (by cases hx)⟩

/-! ## § One ticket -/

/-- Until its enrolment is confirmed, a ticket's confirm codes are on the count. -/
structure Account.TicketKept (a : Account) : Prop where
  counted : a.factor.confirmedAt = none → enrolCharges a.log ≤ a.factor.failedAttempts
  charged : enrolCharges a.log ≤ lockLevel
  locks : a.factor.failedAttempts ≤ lockLevel

theorem enrolCharges_le {e : LogEntry} {log : List LogEntry}
    (h : e.call.enrols = false ∨ e.charged = none) :
    enrolCharges (e :: log) ≤ enrolCharges log := by
  rw [enrolCharges]
  split_ifs with htickets hcharged
  · exact Nat.zero_le _
  · rcases h with h | h
    · exact absurd (h.symm.trans hcharged.1) (by decide)
    · rw [h] at hcharged
      cases hcharged.2
  · exact le_rfl

/-- A call that charges no confirm code, and leaves an unconfirmed factor's count. -/
theorem Account.TicketKept.uncharged {a : Account} (h : a.TicketKept) {f : Factor} {e : LogEntry}
    (he : e.call.enrols = false ∨ e.charged = none) (hlocks : f.failedAttempts ≤ lockLevel)
    (hcount : f.confirmedAt = none →
      a.factor.confirmedAt = none ∧ a.factor.failedAttempts ≤ f.failedAttempts) :
    (a.extend f e).TicketKept := by
  refine ⟨fun hnone => ?_, (enrolCharges_le he).trans h.charged, hlocks⟩
  obtain ⟨hnone', hle⟩ := hcount hnone
  exact ((enrolCharges_le he).trans (h.counted hnone')).trans hle

theorem ticketKept_of_called {a : Account} (h : a.TicketKept) {now : ℤ} {call : Call}
    {f : Factor} {answer : Reply}
    (hcalled : a.factor.Called a.serials a.secrets now call f answer) :
    (a.extend f ⟨now, call, answer, true⟩).TicketKept := by
  have hlocks := h.locks
  cases hcalled with
  | idle call answer hidle =>
      exact h.uncharged (Or.inr (charged_eq_none_of_idle (Or.inr hidle))) hlocks
        fun hnone => ⟨hnone, le_rfl⟩
  | charged madeAt hconfirmed hlock =>
      refine h.uncharged (Or.inl rfl) ?_ fun hnone => absurd hnone hconfirmed
      show a.factor.level now + 1 ≤ lockLevel
      simp only [Factor.level]
      omega
  | enrolCharged madeAt henrolling hlock =>
      -- A confirm code adds one to the count as to the codes charged.
      have hone : enrolCharges (⟨now, .chargeTotpEnrolment madeAt,
          .charged (a.factor.failedAttempts + 1) ⟨madeAt, a.serials⟩, true⟩ :: a.log) =
          enrolCharges a.log + 1 := by
        rw [enrolCharges, if_neg (by rintro ⟨_, h⟩; cases h), if_pos ⟨rfl, rfl⟩]
      have hcounted := h.counted henrolling.1
      refine ⟨fun _ => ?_, ?_, hlock⟩
      · show enrolCharges (_ :: a.log) ≤ a.factor.failedAttempts + 1
        omega
      · show enrolCharges (_ :: a.log) ≤ lockLevel
        omega
  | passed c proof k hconfirmed =>
      exact h.uncharged (Or.inl rfl) ((Nat.sub_le _ _).trans hlocks)
        fun hnone => absurd hnone hconfirmed
  | failed c proof step hconfirmed =>
      exact h.uncharged (Or.inl rfl) hlocks fun hnone => absurd hnone hconfirmed
  | enrolled c proof k codes =>
      exact h.uncharged (Or.inl rfl) (Nat.zero_le _) fun hnone => (by cases hnone)
  | enrolFailed c proof step codes =>
      exact h.uncharged (Or.inl rfl) hlocks fun hnone => ⟨hnone, le_rfl⟩
  | begun ticket enrolled =>
      exact h.uncharged (Or.inl rfl) hlocks fun hnone => ⟨hnone, le_rfl⟩
  | recovered code hconfirmed hcode =>
      rw [useRecoveryCode_eq hconfirmed hcode]
      exact h.uncharged (Or.inl rfl) ((min_le_left _ _).trans hlocks)
        fun hnone => absurd hnone hconfirmed
  | issued ticket =>
      have hzero : enrolCharges (⟨now, .issueTicket ticket, .issued, true⟩ :: a.log) = 0 := by
        rw [enrolCharges, if_pos ⟨rfl, rfl⟩]
      exact ⟨fun _ => hzero.le.trans (Nat.zero_le _), hzero.le.trans (Nat.zero_le _),
        Nat.zero_le _⟩

theorem ticketKept_step {a a' : Account} {m : Made} (h : a.TicketKept)
    (hstep : a.step m = some a') : a'.TicketKept := by
  cases hstep
  obtain ⟨now, live, committed, call⟩ := m
  cases committed with
  | false =>
      exact h.uncharged (Or.inr (charged_eq_none_of_idle (Or.inl rfl))) h.locks
        fun hnone => ⟨hnone, le_rfl⟩
  | true => exact ticketKept_of_called h (called_answer a _)

/-! ## § Every check has its charge -/

/-- A check that looked at a code was given a charge. -/
theorem exists_checks {a : Account} {m : Made} (h : (a.answer m).2.checked = true) :
    ∃ c, (a.entry m).checks c := by
  obtain ⟨now, live, committed, call⟩ := m
  have hcalled := called_answer a ⟨now, live, committed, call⟩
  simp only [LogEntry.checks, Account.entry, h, true_and]
  generalize (a.answer ⟨now, live, committed, call⟩).1 = f at hcalled
  generalize (a.answer ⟨now, live, committed, call⟩).2 = answer at hcalled h
  cases hcalled with
  | idle call answer hidle => cases answer <;> first | exact hidle.elim | cases h
  | passed c => exact ⟨c, rfl⟩
  | failed c => exact ⟨c, rfl⟩
  | enrolled c => exact ⟨c, rfl⟩
  | enrolFailed c => exact ⟨c, rfl⟩
  | _ => cases h

/-- The factor of an admin who has just enrolled. -/
def justEnrolled : Factor :=
  Factor.confirm { Factor.blank with secret := some 1, confirmed_has_secret := fun _ => by simp }
    0 (-2) (List.range 10) (by simp)

def chargeAt (t : ℤ) : Made := ⟨t, true, true, .chargeSecondFactor t⟩

def passAt (t madeAt : ℤ) (serial : ℕ) (step : ℤ) : Made :=
  ⟨t, true, true, .checkSecondFactor (some ⟨madeAt, serial⟩) 1 (some step)⟩

/-- For `n` hundreds of seconds, every hundred an attempt charged and the one before
passed: one is always in flight, and is all that is on the count. -/
def passesInTurn : ℕ → List Made
  | 0 => []
  | n + 1 => passesInTurn n ++
      [chargeAt (100 * (n + 1) * second),
        passAt (100 * (n + 1) * second) (100 * n * second) (2 * n - 1)
          (nowStep (100 * (n + 1) * second))]

/-- The same calls, appended once each. -/
theorem passesInTurn_eq (n : ℕ) : passesInTurn n = (List.range n).flatMap fun k : ℕ =>
    [chargeAt (100 * (k + 1) * second),
      passAt (100 * (k + 1) * second) (100 * k * second) (2 * k - 1)
        (nowStep (100 * (k + 1) * second))] := by
  induction n with
  | zero => rfl
  | succ n ih =>
      rw [passesInTurn, ih, List.range_succ, List.flatMap_append]
      rfl

/-- After eight hours of passes in turn, the leak forgets an attempt that passes
afterwards; ten more are charged at once, and two at the next leak. -/
def givenBackTwice : List Made :=
  let t := leakLength
  chargeAt 0 :: passesInTurn 287 ++
    [chargeAt t, chargeAt (t + 1), passAt (t + 1) (28700 * second) 573 960, chargeAt (t + 1),
      passAt (t + 1) t 575 961] ++
    List.replicate 8 (chargeAt (t + 1)) ++ List.replicate 2 (chargeAt (2 * t))

end Ziftbook
