import Mathlib.Data.List.Sort
import Ziftbook.Bookings.Shown

/-!
# The times a booking page shows

`slotWho`, `slotsFor` and `firstFreeDayFrom` of `lib/booking-page.ts`, and `ensureWeek` of
`booking-page.tsx`, which looks for the first free day. The page asks once for everyone's times and
picks one person's out of the answer, which is what the server answers when asked for the person
alone; and the day it finds is the first. Days are counted from 1970-01-01, and the page and the
server read the clock at one moment.
-/

namespace Ziftbook.BookingPage

open Foundation

/-! ## § Out of the window -/

/-- `TimesWindow`: the starts, and beside each who can take it. -/
structure TimesWindow where
  slots : List ℤ
  who : List (List ℕ)
deriving DecidableEq

/-- `slotWho`: an index out of range is skipped. -/
def slotWho (slotWorkers : List (List ℕ)) (workers : List ℕ) : List (List ℕ) :=
  slotWorkers.map fun ix => ix.filterMap fun i => workers[i]?

/-- `slotsFor`, of a person or of anyone. -/
def slotsFor (win : TimesWindow) : Option ℕ → List ℤ
  | none => win.slots
  | some worker => ((win.slots.zip win.who).filter fun s => worker ∈ s.2).map Prod.fst

/-- What `loadWindow` keeps of an answer. -/
def timesWindow (answer : Answer) : TimesWindow :=
  ⟨answer.slots, slotWho answer.slotWorkers answer.workers⟩

theorem filter_zip_map {α β : Type} (l : List α) (f : α → β) (p : β → Bool) :
    ((l.zip (l.map f)).filter fun x => p x.2).map Prod.fst = l.filter fun a => p (f a) := by
  induction l with
  | nil => rfl
  | cons a l ih =>
      rw [List.map_cons, List.zip_cons_cons, List.filter_cons, List.filter_cons]
      by_cases h : p (f a) = true
      · rw [if_pos h, if_pos h, List.map_cons, ih]
      · rw [if_neg h, if_neg h, ih]

/-! ## § One person's starts -/

/-- The bookings read of one member are the same, whoever else is asked about. -/
theorem booked_of_member {db : Db} {members members' : List ℕ} {start stop now : ℤ}
    {exclude : Option ℕ} {m : ℕ} (hm : m ∈ members) (hm' : m ∈ members') :
    ((db.booked members start stop now exclude).filter fun r => r.workerId = m) =
      (db.booked members' start stop now exclude).filter fun r => r.workerId = m := by
  unfold Db.booked
  rw [List.filterMap_filter, List.filterMap_filter, List.filter_filterMap, List.filter_filterMap]
  refine List.filterMap_congr fun b _ => ?_
  by_cases hworker : b.workerId = m
  · have hin : b.bookedIn members start stop now exclude ↔
        b.bookedIn members' start stop now exclude :=
      ⟨fun h => ⟨hworker ▸ hm', h.2⟩, fun h => ⟨hworker ▸ hm, h.2⟩⟩
    simp only [hin]
  · have hnone : ∀ c : Bool, (if c = true then (db.services.find b.serviceId).map b.joined
        else none).filter (fun r => r.workerId = m) = none := by
      intro c
      cases c with
      | false => rfl
      | true =>
          cases db.services.find b.serviceId with
          | none => rfl
          | some s => exact Option.filter_some_neg (decide_eq_false hworker)
    rw [hnone, hnone]

variable {db : Db} {now first last earliest duration buffer t : ℤ} {hours : List WorkingHour}
  {opening : List (ℤ × List (ℤ × ℤ))} {settings : Settings} {exclude : Option ℕ}

/-- Nor are the member's starts. -/
theorem slotsOf_alone {members members' : List ℕ} {m : ℕ} (hm : m ∈ members) (hm' : m ∈ members') :
    t ∈ (offered db now members hours opening settings first last earliest duration buffer
        exclude).slotsOf m ↔
      t ∈ (offered db now members' hours opening settings first last earliest duration buffer
        exclude).slotsOf m := by
  rw [mem_slotsOf_offered, mem_slotsOf_offered, booked_of_member hm hm']
  exact ⟨fun h => ⟨hm', h.2⟩, fun h => ⟨hm, h.2⟩⟩

/-- The starts that `compute` finds of one member, asked about or not. -/
def memberStarts (db : Db) (now : ℤ) (service : Service) (memberId : Option ℕ) (first last : ℤ)
    (exclude : Option ℕ) (m : ℕ) : List ℤ :=
  let hours := db.candidates service.id none
  let clamped := window now db.settings.timezone first last db.settings.minNoticeMinutes
    db.settings.bookingHorizonDays
  (offered db now ((candidateIds hours).filter fun m => memberId = none ∨ memberId = some m) hours
    (byWeekday db.openingHours) db.settings clamped.1 clamped.2.1 clamped.2.2
    service.durationMinutes
    (bufferFor service.durationMinutes service.bufferMinutes db.settings.bufferPct)
    exclude).slotsOf m

variable {service : Service} {memberId : Option ℕ} {worker : ℕ}

theorem compute_slots : (compute db now service memberId first last exclude).slots =
    (((candidateIds (db.candidates service.id none)).flatMap
      (memberStarts db now service memberId first last exclude)).dedup).insertionSort (· ≤ ·) := rfl

theorem compute_slotWorkers : (compute db now service memberId first last exclude).slotWorkers =
    (compute db now service memberId first last exclude).slots.map fun slot =>
      ((candidateIds (db.candidates service.id none)).zipIdx.filter fun w =>
        slot ∈ memberStarts db now service memberId first last exclude w.1).map Prod.snd := rfl

/-- The starts come in order, each once. -/
theorem slots_sorted : (compute db now service memberId first last exclude).slots.Pairwise
    (· < ·) := by
  rw [compute_slots]
  have hnodup := (List.perm_insertionSort (· ≤ ·) ((candidateIds
    (db.candidates service.id none)).flatMap
      (memberStarts db now service memberId first last exclude)).dedup).nodup_iff.mpr
        (List.nodup_dedup _)
  exact ((List.pairwise_insertionSort (· ≤ ·) _).and hnodup).imp fun h => lt_of_le_of_ne h.1 h.2

theorem mem_slots : t ∈ (compute db now service memberId first last exclude).slots ↔
    ∃ m ∈ candidateIds (db.candidates service.id none),
      t ∈ memberStarts db now service memberId first last exclude m := by
  rw [compute_slots, List.mem_insertionSort, List.mem_dedup, List.mem_flatMap]

/-- Asked for one person, the server finds that person's starts, and nobody else's. -/
theorem mem_memberStarts_alone {m : ℕ} (hm : m ∈ candidateIds (db.candidates service.id none)) :
    t ∈ memberStarts db now service (some worker) first last exclude m ↔
      m = worker ∧ t ∈ memberStarts db now service none first last exclude m := by
  have hall : m ∈ (candidateIds (db.candidates service.id none)).filter
      fun m => (none : Option ℕ) = none ∨ none = some m :=
    List.mem_filter.mpr ⟨hm, decide_eq_true (.inl rfl)⟩
  by_cases hworker : m = worker
  · subst hworker
    have halone : m ∈ (candidateIds (db.candidates service.id none)).filter
        fun m' => some m = none ∨ some m = some m' :=
      List.mem_filter.mpr ⟨hm, decide_eq_true (.inr rfl)⟩
    rw [memberStarts, memberStarts, slotsOf_alone halone hall]
    exact ⟨fun h => ⟨rfl, h⟩, fun h => h.2⟩
  · refine ⟨fun h => ?_, fun h => absurd h.1 hworker⟩
    obtain ⟨hin, -⟩ := mem_slotsOf_offered.mp h
    rcases of_decide_eq_true (List.mem_filter.mp hin).2 with h | h
    · cases h
    · exact absurd (Option.some.inj h).symm hworker

/-- The person is named beside a start just when it is one of theirs. -/
theorem mem_takers {slot : ℤ} {workers : List ℕ} {starts : ℕ → List ℤ} :
    worker ∈ ((workers.zipIdx.filter fun w => slot ∈ starts w.1).map Prod.snd).filterMap
        (fun i => workers[i]?) ↔ worker ∈ workers ∧ slot ∈ starts worker := by
  constructor
  · intro h
    obtain ⟨i, hi, hget⟩ := List.mem_filterMap.mp h
    obtain ⟨⟨m, k⟩, hm, rfl⟩ := List.mem_map.mp hi
    obtain ⟨hzip, hslot⟩ := List.mem_filter.mp hm
    have hk := List.mem_zipIdx_iff_getElem?.mp hzip
    obtain rfl : m = worker := Option.some.inj (hk.symm.trans hget)
    exact ⟨List.mem_of_getElem? hk, of_decide_eq_true hslot⟩
  · rintro ⟨hworker, hslot⟩
    obtain ⟨k, hk⟩ := List.mem_iff_getElem?.mp hworker
    exact List.mem_filterMap.mpr ⟨k, List.mem_map.mpr ⟨(worker, k), List.mem_filter.mpr
      ⟨List.mem_zipIdx_iff_getElem?.mpr hk, decide_eq_true hslot⟩, rfl⟩, hk⟩

/-- **One person's times.** Out of everyone's times the page picks those the server answers when
it is asked for that person alone. -/
theorem slotsFor_alone (db : Db) (now : ℤ) (service : Service) (first last : ℤ)
    (exclude : Option ℕ) (worker : ℕ) :
    slotsFor (timesWindow (compute db now service none first last exclude)) (some worker) =
      (compute db now service (some worker) first last exclude).slots := by
  have hfiltered : slotsFor (timesWindow (compute db now service none first last exclude))
      (some worker) = (compute db now service none first last exclude).slots.filter fun slot =>
        worker ∈ candidateIds (db.candidates service.id none) ∧
          slot ∈ memberStarts db now service none first last exclude worker := by
    rw [timesWindow, slotsFor, slotWho, compute_slotWorkers, List.map_map]
    refine (filter_zip_map _ _ fun who => decide (worker ∈ who)).trans ?_
    refine List.filter_congr fun slot _ => ?_
    rw [decide_eq_decide]
    exact mem_takers
  rw [hfiltered]
  refine (slots_sorted.filter _).eq_of_mem_iff slots_sorted fun slot => ?_
  rw [List.mem_filter, mem_slots, mem_slots, decide_eq_true_eq]
  constructor
  · rintro ⟨-, hworker, hslot⟩
    exact ⟨worker, hworker, (mem_memberStarts_alone hworker).mpr ⟨rfl, hslot⟩⟩
  · rintro ⟨m, hm, hslot⟩
    obtain ⟨hworker, hall⟩ := (mem_memberStarts_alone hm).mp hslot
    exact ⟨⟨m, hm, hall⟩, hworker ▸ hm, hworker ▸ hall⟩

/-! ## § The first free day -/

/-- `nextWeekDisabled`. -/
def nextWeekDisabled (today nextWeekFirstDay horizonDays : ℤ) : Prop :=
  today + horizonDays < nextWeekFirstDay

instance (today nextWeekFirstDay horizonDays : ℤ) :
    Decidable (nextWeekDisabled today nextWeekFirstDay horizonDays) :=
  inferInstanceAs (Decidable (_ < _))

/-- `scanWindow`: fourteen days. -/
def scanWindow (from_ : ℤ) : ℤ × ℤ := (from_, from_ + 13)

/-- `weekDays`. -/
def weekDays (first : ℤ) : List ℤ := (List.range 7).map fun i : ℕ => first + i

/-- `firstFreeDayFrom`. -/
def firstFreeDayFrom (zone : Zone) (slots : List ℤ) (from_ : ℤ) : Option ℤ :=
  (((slots.map (dateAt zone)).dedup.filter fun day => from_ ≤ day).insertionSort (· ≤ ·)).head?

/-- `loadWindow`, past the cache. -/
def loadWindow (db : Db) (now : ℤ) (limited : Bool) (serviceId : ℕ) (from_ : ℤ) :
    Except ApiError TimesWindow := do
  let answer ← readAvailability db now limited serviceId none (scanWindow from_).1
    (scanWindow from_).2
  .ok (timesWindow answer)

/-- `ensureWeek`'s loop, with `n` windows to go. A read that fails ends it. -/
def scanOn (load : ℤ → Except ApiError TimesWindow) (zone : Zone) (worker : Option ℕ)
    (today horizonDays : ℤ) : ℕ → ℤ → Except ApiError (Option ℤ)
  | 0, _ => .ok none
  | n + 1, from_ =>
      if nextWeekDisabled today (from_ + 14) horizonDays then .ok none
      else do
        let next ← load (from_ + 14)
        match firstFreeDayFrom zone (slotsFor next worker) (from_ + 14) with
        | some day => .ok (some day)
        | none => scanOn load zone worker today horizonDays n (from_ + 14)

/-- `ensureWeek`: nothing when the week shown has a start, and else the first free day it sets.
`scanned` says whether the service and the person were searched for before. -/
def ensureWeek (load : ℤ → Except ApiError TimesWindow) (zone : Zone) (worker : Option ℕ)
    (today horizonDays : ℤ) (scanned : Bool) (weekStart : ℤ) :
    Except ApiError (Option (Option ℤ)) := do
  let entry ← load weekStart
  if ∃ t ∈ slotsFor entry worker, dateAt zone t ∈ weekDays weekStart then .ok none
  else
    match firstFreeDayFrom zone (slotsFor entry worker) weekStart with
    | some day => .ok (some (some day))
    | none =>
        if scanned = true then .ok (some none)
        else do
          let first ← scanOn load zone worker today horizonDays 5 weekStart
          .ok (some first)

theorem mem_weekDays {first day : ℤ} : day ∈ weekDays first ↔ first ≤ day ∧ day ≤ first + 6 := by
  rw [weekDays, List.mem_map]
  constructor
  · rintro ⟨i, hi, rfl⟩
    have := List.mem_range.mp hi
    omega
  · intro h
    exact ⟨(day - first).toNat, List.mem_range.mpr (by omega), by omega⟩

theorem firstFreeDayFrom_spec {zone : Zone} {slots : List ℤ} {from_ : ℤ}
    (hfrom : ∀ t ∈ slots, from_ ≤ dateAt zone t) :
    (∀ day, firstFreeDayFrom zone slots from_ = some day →
      IsLeast {d | ∃ t ∈ slots, dateAt zone t = d} day) ∧
    (firstFreeDayFrom zone slots from_ = none → {d | ∃ t ∈ slots, dateAt zone t = d} = ∅) := by
  have hmem : ∀ {d}, d ∈ ((slots.map (dateAt zone)).dedup.filter
      fun day => from_ ≤ day).insertionSort (· ≤ ·) ↔ ∃ t ∈ slots, dateAt zone t = d := by
    intro d
    rw [List.mem_insertionSort, List.mem_filter, List.mem_dedup, List.mem_map, decide_eq_true_eq]
    exact ⟨And.left, fun h => ⟨h, by obtain ⟨t, ht, rfl⟩ := h; exact hfrom t ht⟩⟩
  have hsorted := List.pairwise_insertionSort (· ≤ ·)
    ((slots.map (dateAt zone)).dedup.filter fun day => from_ ≤ day)
  unfold firstFreeDayFrom
  generalize ((slots.map (dateAt zone)).dedup.filter fun day => from_ ≤ day).insertionSort
    (· ≤ ·) = sorted at hmem hsorted
  cases sorted with
  | nil =>
      refine ⟨fun day h => (by cases h), fun _ => Set.eq_empty_of_forall_notMem fun d hd => ?_⟩
      cases hmem.mpr hd
  | cons first rest =>
      refine ⟨?_, fun h => (by cases h)⟩
      rintro day h
      cases h
      refine ⟨hmem.mp (List.mem_cons_self ..), fun d hd => ?_⟩
      rcases List.mem_cons.mp (hmem.mpr hd) with rfl | hrest
      · exact le_rfl
      · exact List.rel_of_pairwise_cons hsorted hrest

section

variable {load : ℤ → Except ApiError TimesWindow} {zone : Zone} {who : Option ℕ}
  {today horizonDays : ℤ} {days : ℤ → Set ℤ}

/-- Windows that answer with the days there are, each within its fourteen, and none past the
horizon. -/
structure Windowed (load : ℤ → Except ApiError TimesWindow) (zone : Zone) (who : Option ℕ)
    (today horizonDays : ℤ) (days : ℤ → Set ℤ) : Prop where
  answers : ∀ {from_ win}, load from_ = .ok win →
    {d | ∃ t ∈ slotsFor win who, dateAt zone t = d} = days from_
  within : ∀ {from_ day}, day ∈ days from_ → from_ ≤ day ∧ day ≤ from_ + 13
  ended : ∀ {from_}, today + horizonDays < from_ → days from_ = ∅

theorem Windowed.mem (h : Windowed load zone who today horizonDays days) {from_ t : ℤ}
    {win : TimesWindow} (hwin : load from_ = .ok win) (ht : t ∈ slotsFor win who) :
    dateAt zone t ∈ days from_ := by
  rw [← h.answers hwin]
  exact ⟨t, ht, rfl⟩

theorem Windowed.found (h : Windowed load zone who today horizonDays days) {from_ : ℤ}
    {win : TimesWindow} (hwin : load from_ = .ok win) :
    (∀ day, firstFreeDayFrom zone (slotsFor win who) from_ = some day →
      IsLeast (days from_) day) ∧
    (firstFreeDayFrom zone (slotsFor win who) from_ = none → days from_ = ∅) := by
  rw [← h.answers hwin]
  exact firstFreeDayFrom_spec fun t ht => (h.within (h.mem hwin ht)).1

/-- The first window with a day has the first of all the windows' days. -/
theorem Windowed.least_of_first (h : Windowed load zone who today horizonDays days)
    {from_ day : ℤ} {j n : ℕ} (hday : IsLeast (days (from_ + 14 * j)) day) (hj : j ≤ n)
    (hbefore : ∀ i < j, days (from_ + 14 * i) = ∅) :
    IsLeast {d | ∃ k ≤ n, d ∈ days (from_ + 14 * (k : ℤ))} day := by
  refine ⟨⟨j, hj, hday.1⟩, ?_⟩
  rintro d ⟨k, -, hd⟩
  rcases lt_trichotomy k j with hlt | rfl | hgt
  · rw [hbefore k hlt] at hd
    cases hd
  · exact hday.2 hd
  · have hthis := (h.within hday.1).2
    have hthat := (h.within hd).1
    omega

/-- The loop stops at the first of its windows with a day, or none of them has one. -/
theorem scanOn_spec (h : Windowed load zone who today horizonDays days) {n : ℕ} {from_ : ℤ}
    {first : Option ℤ} (hscan : scanOn load zone who today horizonDays n from_ = .ok first) :
    (∀ day, first = some day → ∃ j, 1 ≤ j ∧ j ≤ n ∧ IsLeast (days (from_ + 14 * (j : ℤ))) day ∧
      ∀ i, 1 ≤ i → i < j → days (from_ + 14 * (i : ℤ)) = ∅) ∧
    (first = none → ∀ k, 1 ≤ k → k ≤ n → days (from_ + 14 * (k : ℤ)) = ∅) := by
  induction n generalizing from_ with
  | zero =>
      cases hscan
      exact ⟨fun day hday => (by cases hday), fun _ k hk hk' => (by omega)⟩
  | succ n ih =>
      have hnext : from_ + 14 * ((1 : ℕ) : ℤ) = from_ + 14 := by norm_num
      have hlater : ∀ k : ℕ, from_ + 14 * ((k + 1 : ℕ) : ℤ) = from_ + 14 + 14 * (k : ℤ) := by
        intro k
        push_cast
        ring
      rw [scanOn] at hscan
      by_cases hpast : nextWeekDisabled today (from_ + 14) horizonDays
      · -- the horizon is past, and so it is for every later window
        rw [if_pos hpast] at hscan
        cases hscan
        refine ⟨fun day hday => (by cases hday), fun _ k hk _ => h.ended ?_⟩
        unfold nextWeekDisabled at hpast
        omega
      rw [if_neg hpast, bind_eq_ok] at hscan
      obtain ⟨win, hwin, hscan⟩ := hscan
      obtain ⟨hfound, hempty⟩ := h.found hwin
      cases hday : firstFreeDayFrom zone (slotsFor win who) (from_ + 14) with
      | some day =>
          rw [hday] at hscan
          cases hscan
          refine ⟨fun d hd => ?_, fun hnone => (by cases hnone)⟩
          cases hd
          exact ⟨1, le_rfl, by omega, by rw [hnext]; exact hfound day hday,
            fun i hi hi' => (by omega)⟩
      | none =>
          rw [hday] at hscan
          obtain ⟨hsome, hnone⟩ := ih hscan
          have hfirst := hempty hday
          -- a window of the rest is a window later of the whole
          have hshift : ∀ {m : ℕ}, (∀ i, 1 ≤ i → i < m → days (from_ + 14 + 14 * (i : ℤ)) = ∅) →
              ∀ i, 1 ≤ i → i < m + 1 → days (from_ + 14 * (i : ℤ)) = ∅ := by
            intro m hm i hi hlt
            obtain ⟨i, rfl⟩ : ∃ i', i = i' + 1 := ⟨i - 1, by omega⟩
            rw [hlater]
            rcases Nat.eq_zero_or_pos i with rfl | hpos
            · rw [Nat.cast_zero, mul_zero, add_zero]
              exact hfirst
            · exact hm i hpos (by omega)
          refine ⟨fun day hd => ?_, fun hd k hk hk' => ?_⟩
          · obtain ⟨j, hj, hjn, hleast, hbefore⟩ := hsome day hd
            exact ⟨j + 1, by omega, by omega, by rwa [hlater], hshift hbefore⟩
          · refine @hshift (n + 1) (fun i hi hlt => hnone hd i hi (by omega)) k hk (by omega)

/-- How many windows are searched, past the one in hand. -/
def windowsAhead (scanned : Bool) : ℕ := if scanned = true then 0 else 5

/-- What is set is the first day of the windows searched, past the week shown. -/
theorem ensureWeek_spec (h : Windowed load zone who today horizonDays days) {scanned : Bool}
    {weekStart : ℤ} {shown : Option (Option ℤ)}
    (hshown : ensureWeek load zone who today horizonDays scanned weekStart = .ok shown) :
    (shown = none ↔ ∃ day ∈ days weekStart, day ≤ weekStart + 6) ∧
    (∀ day, shown = some (some day) → weekStart + 7 ≤ day ∧
      IsLeast {d | ∃ k ≤ windowsAhead scanned, d ∈ days (weekStart + 14 * (k : ℤ))} day) ∧
    (shown = some none →
      ∀ k ≤ windowsAhead scanned, days (weekStart + 14 * (k : ℤ)) = ∅) := by
  have hzero : weekStart + 14 * ((0 : ℕ) : ℤ) = weekStart := by norm_num
  rw [ensureWeek, bind_eq_ok] at hshown
  obtain ⟨entry, hentry, hshown⟩ := hshown
  obtain ⟨hfound, hempty⟩ := h.found hentry
  have hweek : (∃ t ∈ slotsFor entry who, dateAt zone t ∈ weekDays weekStart) ↔
      ∃ day ∈ days weekStart, day ≤ weekStart + 6 := by
    constructor
    · rintro ⟨t, ht, hday⟩
      exact ⟨_, h.mem hentry ht, (mem_weekDays.mp hday).2⟩
    · rintro ⟨day, hin, hday⟩
      have hlow := (h.within hin).1
      rw [← h.answers hentry] at hin
      obtain ⟨t, ht, rfl⟩ := hin
      exact ⟨t, ht, mem_weekDays.mpr ⟨hlow, hday⟩⟩
  by_cases hvisible : ∃ t ∈ slotsFor entry who, dateAt zone t ∈ weekDays weekStart
  · rw [if_pos hvisible] at hshown
    cases hshown
    exact ⟨iff_of_true rfl (hweek.mp hvisible), fun day hd => (by cases hd),
      fun hd => (by cases hd)⟩
  rw [if_neg hvisible] at hshown
  have hpast : ∀ {day}, day ∈ days weekStart → weekStart + 7 ≤ day := by
    intro day hday
    by_contra hlt
    exact hvisible (hweek.mpr ⟨day, hday, by omega⟩)
  have hnot : ¬∃ day ∈ days weekStart, day ≤ weekStart + 6 := fun hday =>
    hvisible (hweek.mpr hday)
  cases hday : firstFreeDayFrom zone (slotsFor entry who) weekStart with
  | some day =>
      rw [hday] at hshown
      cases hshown
      refine ⟨iff_of_false (by simp) hnot, fun d hd => ?_, fun hd => (by cases hd)⟩
      cases hd
      refine ⟨hpast (hfound day hday).1, h.least_of_first (j := 0) ?_ (Nat.zero_le _) ?_⟩
      · rw [hzero]
        exact hfound day hday
      · intro i hi
        omega
  | none =>
      rw [hday] at hshown
      have hfirst := hempty hday
      cases scanned with
      | true =>
          rw [if_pos rfl] at hshown
          cases hshown
          refine ⟨iff_of_false (by simp) hnot, fun d hd => (by cases hd), fun _ k hk => ?_⟩
          obtain rfl : k = 0 := Nat.le_zero.mp hk
          rwa [hzero]
      | false =>
          rw [if_neg Bool.false_ne_true, bind_eq_ok] at hshown
          obtain ⟨first, hscan, hshown⟩ := hshown
          cases hshown
          obtain ⟨hsome, hnone⟩ := scanOn_spec h hscan
          refine ⟨iff_of_false (by simp) hnot, fun d hd => ?_, fun hd k hk => ?_⟩
          · cases hd
            obtain ⟨j, hj, hj', hleast, hbefore⟩ := hsome d rfl
            have hin := (h.within hleast.1).1
            refine ⟨by omega, h.least_of_first hleast hj' fun i hi => ?_⟩
            rcases Nat.eq_zero_or_pos i with rfl | hpos
            · rwa [hzero]
            · exact hbefore i hpos hi
          · cases hd
            rcases Nat.eq_zero_or_pos k with rfl | hpos
            · rwa [hzero]
            · exact hnone rfl k hpos hk

end

/-! ## § On the server's answers -/

/-- The days of the fourteen from `from_` on which the server has a start, for the person asked
for. -/
def startDays (db : Db) (now : ℤ) (service : Service) (who : Option ℕ) (from_ : ℤ) : Set ℤ :=
  {d | ∃ t ∈ (compute db now service who from_ (from_ + 13) none).slots,
    dateAt db.settings.timezone t = d}

/-- The server's answers are on the days asked for, up to the horizon. -/
theorem loadWindow_windowed {db : Db} {now : ℤ} {limited : Bool} {serviceId : ℕ}
    {service : Service} (who : Option ℕ) (hzone : db.settings.timezone.Spaced)
    (hdates : db.settings.timezone.DatesForward) (hservice : db.service serviceId = some service) :
    Windowed (loadWindow db now limited serviceId) db.settings.timezone who
      (dateAt db.settings.timezone now) db.settings.bookingHorizonDays
      (startDays db now service who) := by
  have hbuffer : 0 ≤ bufferFor service.durationMinutes service.bufferMinutes
      db.settings.bufferPct :=
    bufferFor_nonneg (by have := service.duration; omega) db.settings.bufferPct_range.1
      fun m hm => (service.buffer m hm).1
  have hduration : 0 < service.durationMinutes := by have := service.duration; omega
  have hclamped : ∀ {from_ d}, d ∈ startDays db now service who from_ →
      (from_ ≤ d ∧ d ≤ from_ + 13) ∧
        d ≤ dateAt db.settings.timezone now + db.settings.bookingHorizonDays := by
    rintro from_ d ⟨t, ht, rfl⟩
    obtain ⟨m, -, hm⟩ := mem_slots.mp ht
    obtain ⟨⟨hfirst, hlast⟩, -⟩ := slotsOf_narrow hzone hdates hduration hbuffer hm
    simp only [window] at hfirst hlast
    omega
  refine ⟨fun {from_ win} hwin => ?_, fun hd => (hclamped hd).1, fun {from_} hpast => ?_⟩
  · rw [loadWindow, bind_eq_ok] at hwin
    obtain ⟨answer, hanswer, hwin⟩ := hwin
    cases hwin
    obtain ⟨service', hservice', -, rfl⟩ := readAvailability_eq_ok hanswer
    obtain rfl : service = service' := Option.some.inj (hservice.symm.trans hservice')
    cases who with
    | none => rfl
    | some worker =>
        rw [slotsFor_alone]
        rfl
  · refine Set.eq_empty_of_forall_notMem fun d hd => ?_
    have := hclamped hd
    omega

/-- Unless the server limits it, a page that is up reads every window. -/
theorem loadWindow_ok {db : Db} {now : ℤ} {serviceId : ℕ} {service : Service}
    (hservice : db.service serviceId = some service) (hup : db.settings.published = true)
    (from_ : ℤ) : ∃ win, loadWindow db now false serviceId from_ = .ok win := by
  have hrange : validRange (scanWindow from_).1 (scanWindow from_).2 := by
    simp only [validRange, scanWindow, maxDays]
    omega
  have hread : readAvailability db now false serviceId none (scanWindow from_).1
      (scanWindow from_).2 = .ok (compute db now service none (scanWindow from_).1
        (scanWindow from_).2 none) := by
    rw [readAvailability, require_bind_eq_ok, require_bind_eq_ok, found_bind_eq_ok]
    exact ⟨rfl, hrange, service, hservice, require_bind_eq_ok.mpr ⟨hup, rfl⟩⟩
  exact ⟨_, by rw [loadWindow, bind_eq_ok]; exact ⟨_, hread, rfl⟩⟩

theorem scanOn_ok {load : ℤ → Except ApiError TimesWindow} {zone : Zone} {who : Option ℕ}
    {today horizonDays : ℤ} (hload : ∀ from_, ∃ win, load from_ = .ok win) (n : ℕ) (from_ : ℤ) :
    ∃ first, scanOn load zone who today horizonDays n from_ = .ok first := by
  induction n generalizing from_ with
  | zero => exact ⟨none, rfl⟩
  | succ n ih =>
      rw [scanOn]
      split
      · exact ⟨none, rfl⟩
      obtain ⟨next, hnext⟩ := hload (from_ + 14)
      simp only [bind_eq_ok, hnext]
      cases hday : firstFreeDayFrom zone (slotsFor next who) (from_ + 14) with
      | some day => exact ⟨some day, next, rfl, by rw [hday]⟩
      | none =>
          obtain ⟨first, hfirst⟩ := ih (from_ + 14)
          exact ⟨first, next, rfl, by rw [hday]; exact hfirst⟩

theorem ensureWeek_ok {load : ℤ → Except ApiError TimesWindow} {zone : Zone} {who : Option ℕ}
    {today horizonDays weekStart : ℤ} {scanned : Bool}
    (hload : ∀ from_, ∃ win, load from_ = .ok win) :
    ∃ shown, ensureWeek load zone who today horizonDays scanned weekStart = .ok shown := by
  obtain ⟨entry, hentry⟩ := hload weekStart
  simp only [ensureWeek, bind_eq_ok, hentry]
  by_cases hvisible : ∃ t ∈ slotsFor entry who, dateAt zone t ∈ weekDays weekStart
  · exact ⟨none, entry, rfl, if_pos hvisible⟩
  cases hday : firstFreeDayFrom zone (slotsFor entry who) weekStart with
  | some day => exact ⟨some (some day), entry, rfl, by rw [if_neg hvisible, hday]⟩
  | none =>
      obtain ⟨first, hfirst⟩ := @scanOn_ok load zone who today horizonDays hload 5 weekStart
      cases scanned with
      | true => exact ⟨some none, entry, rfl, by rw [if_neg hvisible, hday]; rfl⟩
      | false =>
          refine ⟨some first, entry, rfl, ?_⟩
          rw [if_neg hvisible, hday, hfirst]
          rfl

/-- **The first free day is the first.** For anyone or for one person, an empty week names the
earliest day on which the server, asked for that person, has a start, of the fourteen days in hand
and the five windows after them; it names none only when there is none; and a week with a start
names nothing. Once searched, only the fourteen days in hand are looked through. -/
theorem first_free_day_shown {db : Db} {now : ℤ} {serviceId : ℕ} {service : Service}
    (hzone : db.settings.timezone.Spaced) (hdates : db.settings.timezone.DatesForward)
    (hservice : db.service serviceId = some service) (limited scanned : Bool) (who : Option ℕ)
    (weekStart : ℤ) :
    (∀ shown, ensureWeek (loadWindow db now limited serviceId) db.settings.timezone who
        (dateAt db.settings.timezone now) db.settings.bookingHorizonDays scanned weekStart =
          .ok shown →
      (shown = none ↔ ∃ day ∈ startDays db now service who weekStart, day ≤ weekStart + 6) ∧
      (∀ day, shown = some (some day) → weekStart + 7 ≤ day ∧
        IsLeast {d | ∃ k ≤ windowsAhead scanned,
          d ∈ startDays db now service who (weekStart + 14 * (k : ℤ))} day) ∧
      (shown = some none → ∀ k ≤ windowsAhead scanned,
        startDays db now service who (weekStart + 14 * (k : ℤ)) = ∅)) ∧
    (limited = false → db.settings.published = true →
      ∃ shown, ensureWeek (loadWindow db now limited serviceId) db.settings.timezone who
        (dateAt db.settings.timezone now) db.settings.bookingHorizonDays scanned weekStart =
          .ok shown) := by
  refine ⟨fun shown hshown =>
    ensureWeek_spec (loadWindow_windowed who hzone hdates hservice) hshown, ?_⟩
  rintro rfl hup
  exact ensureWeek_ok (loadWindow_ok hservice hup)

/-- At one o'clock on the Thursday, the next is the first free day. -/
theorem first_free_day_shown_thursday :
    ensureWeek (loadWindow publicShop (780 * minute) false 1) (.fixed 0) (some 1) 0 60 false 0 =
        .ok (some (some 7)) ∧
      IsLeast {d | ∃ k : ℕ, k ≤ 5 ∧ d ∈ startDays publicShop (780 * minute) halfHour (some 1)
        (0 + 14 * (k : ℤ))} 7 := by
  have hdates : publicShop.settings.timezone.DatesForward := by
    intro u v huv
    simp only [Zone.reading, publicShop, Db.solo, Settings.defaults, Zone.fixed, offsetAt,
      dayMinutes]
    omega
  have hshown : ensureWeek (loadWindow publicShop (780 * minute) false 1) (.fixed 0) (some 1) 0 60
      false 0 = .ok (some (some 7)) := by decide +kernel
  exact ⟨hshown, ((first_free_day_shown (by decide) hdates rfl false false (some 1) 0).1 _
    hshown).2.1 7 rfl |>.2⟩

end Ziftbook.BookingPage
