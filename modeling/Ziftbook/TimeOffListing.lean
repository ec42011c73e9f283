import Ziftbook.Blocks
import Ziftbook.Clock

/-!
# Listing time off

`blocks_overlapping` of `app/time_off.py`. Hourly blocks are selected by their
instants, day blocks by the local dates of the range's two ends.
-/

namespace Ziftbook

open Foundation Foundation.Intervals

/-! ## § The query -/

/-- `TimeOffRangeOut`. -/
structure ListedBlock where
  id : ℕ
  memberId : ℕ
  block : Block
  reason : Option String
  source : BlockSource
  memberName : Option String
deriving DecidableEq

/-- The WHERE clause: by instants of the one kind, by dates of the other. -/
def Block.overlapsRange : Block → (start stop first last : ℤ) → Prop
  | .instants startsAt endsAt _ _, start, stop, _, _ => startsAt < stop ∧ start < endsAt
  | .days firstDay lastDay _ _, _, _, first, last => firstDay ≤ last ∧ first ≤ lastDay

instance : (block : Block) → (start stop first last : ℤ) →
    Decidable (block.overlapsRange start stop first last)
  | .instants .., _, _, _, _ => inferInstanceAs (Decidable (_ ∧ _))
  | .days .., _, _, _, _ => inferInstanceAs (Decidable (_ ∧ _))

/-- `effective_start`: a day block's is its first local midnight. -/
def Block.effectiveStart (zone : Zone) : Block → ℤ
  | .instants startsAt _ _ _ => startsAt
  | .days first _ _ _ => (daySpan zone first first).1

/-- A row of the query, its member joined; the reason only for those who see it. -/
def Db.listedBlock (db : Db) (userName : ℕ → Option String) (current : Session) (t : TimeOff) :
    Option ListedBlock :=
  (db.memberships.find t.memberId).map fun m =>
    ⟨t.id, t.memberId, t.block,
      if current.owner = true ∨ m.userId = current.userId then t.reason else none, t.source,
      m.displayName.or (userName m.userId)⟩

/-- `blocks.sort`'s key. -/
def listedLE (zone : Zone) (a b : ListedBlock) : Prop :=
  toLex (a.block.effectiveStart zone, a.id) ≤ toLex (b.block.effectiveStart zone, b.id)

instance (zone : Zone) : DecidableRel (listedLE zone) :=
  fun _ _ => inferInstanceAs (Decidable (_ ≤ _))

instance (zone : Zone) : Std.Total (listedLE zone) := ⟨fun _ _ => le_total _ _⟩

instance (zone : Zone) : IsTrans ListedBlock (listedLE zone) := ⟨fun _ _ _ => le_trans⟩

/-- `blocks_overlapping`: one member's, or with none named the whole business's. -/
def blocksOverlapping (db : Db) (userName : ℕ → Option String) (current : Session)
    (start stop : ℤ) (member : Option ℕ) : List ListedBlock :=
  let zone := db.settings.timezone
  let first := dateAt zone start
  let last := dateAt zone (stop - 1)
  let rows := db.timeOff.rows.filter fun t =>
    (∀ m ∈ member, t.memberId = m) ∧ t.block.overlapsRange start stop first last
  (rows.filterMap (db.listedBlock userName current)).insertionSort (listedLE zone)

/-! ## § Midnights and dates -/

/-- **From a day's midnight on the clock shows that date or a later one.** -/
theorem le_dateAt_iff {z : Zone} (h : z.Spaced) (hdates : z.DatesForward) {d t : ℤ} :
    d ≤ dateAt z t ↔ toUtc z d 0 ≤ t := by
  have hday : (0 : ℤ) < dayMinutes := by decide
  have hmin : (0 : ℤ) < minute := by decide
  have hinstant : toUtc z d 0 ≤ t ↔ z.minuteOf (dayMinutes * d) ≤ t / minute := by
    rw [Int.le_ediv_iff_mul_le hmin, toUtc, add_zero, mul_comm]
  rw [hinstant, dateAt]
  constructor
  · intro hle
    refine (h.isLeast_minuteOf _).2 ?_
    rw [Int.le_ediv_iff_mul_le hday] at hle
    show dayMinutes * d ≤ _
    linarith
  · intro hle
    refine le_trans ?_ (hdates _ _ hle)
    rw [Int.le_ediv_iff_mul_le hday]
    have hread := z.le_reading_minuteOf (dayMinutes * d)
    linarith

/-- **The selection by dates is the one by instants.** -/
theorem overlapsRange_iff {z : Zone} (h : z.Spaced) (hdates : z.DatesForward) {block : Block}
    {start stop : ℤ} :
    block.overlapsRange start stop (dateAt z start) (dateAt z (stop - 1)) ↔
      Meets (block.span z) start stop := by
  cases block with
  | instants s e hordered hlength => exact Iff.rfl
  | days first last hordered hlength =>
      have hfirst : first ≤ dateAt z (stop - 1) ↔ toUtc z first 0 < stop := by
        rw [le_dateAt_iff h hdates, Int.le_sub_one_iff]
      have hlast : dateAt z start ≤ last ↔ start < toUtc z (last + 1) 0 := by
        rw [← not_le, ← le_dateAt_iff h hdates, not_le, Int.lt_add_one_iff]
      exact and_congr hfirst hlast

/-! ## § The listing is exact -/

theorem mem_blocksOverlapping {db : Db} {userName : ℕ → Option String} {current : Session}
    {start stop : ℤ} {member : Option ℕ} {b : ListedBlock} :
    b ∈ blocksOverlapping db userName current start stop member ↔
      ∃ t ∈ db.timeOff.rows, ((∀ m ∈ member, t.memberId = m) ∧
        t.block.overlapsRange start stop (dateAt db.settings.timezone start)
          (dateAt db.settings.timezone (stop - 1))) ∧
        db.listedBlock userName current t = some b := by
  simp only [blocksOverlapping, List.mem_insertionSort, List.mem_filterMap, List.mem_filter,
    decide_eq_true_eq, and_assoc]

/-- A block's interval shares an instant with the range. -/
def Block.sharesInstant (block : Block) (zone : Zone) (start stop : ℤ) : Prop :=
  ∃ t, ((block.span zone).1 ≤ t ∧ t < (block.span zone).2) ∧ start ≤ t ∧ t < stop

theorem sharesInstant_iff {block : Block} {zone : Zone} {start stop : ℤ} (hrange : start < stop) :
    block.sharesInstant zone start stop ↔
      (block.span zone).1 < (block.span zone).2 ∧ Meets (block.span zone) start stop := by
  constructor
  · rintro ⟨t, ⟨hlow, hhigh⟩, hfrom, hto⟩
    exact ⟨hlow.trans_lt hhigh, hlow.trans_lt hto, hfrom.trans_lt hhigh⟩
  · rintro ⟨hnonempty, hstop, hstart⟩
    refine ⟨max (block.span zone).1 start, ⟨le_max_left .., max_lt hnonempty hstart⟩,
      le_max_right .., max_lt hstop hrange⟩

/-- **The time-off listing is exact**: a block is listed when its interval begins before the
range ends and ends after the range begins. Of every block but one of days the clock skips
whole, that is to share an instant with the range. -/
theorem blocksOverlapping_exact {db : Db} {userName : ℕ → Option String} {current : Session}
    {start stop : ℤ} {member : Option ℕ} {t : TimeOff} (hzone : db.settings.timezone.Spaced)
    (hdates : db.settings.timezone.DatesForward) (hrange : start < stop)
    (hrow : t ∈ db.timeOff.rows) (hmember : ∃ m ∈ db.memberships.rows, m.id = t.memberId) :
    ((∃ b ∈ blocksOverlapping db userName current start stop member, b.id = t.id) ↔
      (∀ m ∈ member, t.memberId = m) ∧ Meets (t.block.span db.settings.timezone) start stop) ∧
    ((t.block.span db.settings.timezone).1 < (t.block.span db.settings.timezone).2 →
      ((∃ b ∈ blocksOverlapping db userName current start stop member, b.id = t.id) ↔
        (∀ m ∈ member, t.memberId = m) ∧
          t.block.sharesInstant db.settings.timezone start stop)) := by
  have hexact : (∃ b ∈ blocksOverlapping db userName current start stop member, b.id = t.id) ↔
      (∀ m ∈ member, t.memberId = m) ∧ Meets (t.block.span db.settings.timezone) start stop := by
    rw [← overlapsRange_iff hzone hdates]
    constructor
    · rintro ⟨b, hb, hid⟩
      obtain ⟨t', hrow', hasked, hjoin⟩ := mem_blocksOverlapping.mp hb
      obtain ⟨m, _, rfl⟩ := Option.map_eq_some_iff.mp hjoin
      have hsame : t' = t := db.timeOff.eq_of_key hrow' hrow hid
      exact hsame ▸ hasked
    · intro hasked
      obtain ⟨m, hm, hid⟩ := hmember
      have hfind := Table.find_eq_some.mpr ⟨hm, hid⟩
      have hjoin : db.listedBlock userName current t = some ⟨t.id, t.memberId, t.block,
          if current.owner = true ∨ m.userId = current.userId then t.reason else none, t.source,
          m.displayName.or (userName m.userId)⟩ := by
        rw [Db.listedBlock, hfind]
        rfl
      exact ⟨_, mem_blocksOverlapping.mpr ⟨t, hrow, hasked, hjoin⟩, rfl⟩
  refine ⟨hexact, fun hnonempty => ?_⟩
  rw [hexact, sharesInstant_iff hrange]
  simp only [hnonempty, true_and]

/-- The listing is in the order of effective starts, one entry a block. -/
theorem blocksOverlapping_sorted (db : Db) (userName : ℕ → Option String) (current : Session)
    (start stop : ℤ) (member : Option ℕ) :
    (blocksOverlapping db userName current start stop member).Pairwise fun a b =>
      a.block.effectiveStart db.settings.timezone ≤ b.block.effectiveStart db.settings.timezone :=
  (List.pairwise_insertionSort (listedLE db.settings.timezone) _).imp fun h =>
    (Prod.Lex.toLex_le_toLex'.mp h).1

/-! ## § A day the clock skips whole -/

theorem apia_spaced : apia.Spaced := by decide

theorem apia_reading (u : ℤ) :
    apia.reading u = if u < 22087320 then u - 600 else u + 840 := by
  show u + offsetAt (-600) [(22087320, 840)] u = _
  rw [offsetAt, offsetAt]
  split <;> ring

theorem apia_datesForward : apia.DatesForward := by
  intro u v huv
  rw [apia_reading, apia_reading, dayMinutes]
  split <;> split <;> omega

/-- A member off on the day skipped. -/
def skippedDay : TimeOff := ⟨1, 1, .days 15338 15338 le_rfl (by decide), none, .manual⟩

/-- And on the day before it too. -/
def twoDaysOff : TimeOff := ⟨2, 1, .days 15337 15338 (by decide) (by decide), none, .manual⟩

def dateLineShop : Db :=
  { Db.solo (Settings.defaults apia) freeHour [] with
    timeOff := ⟨[skippedDay, twoDaysOff], by decide⟩ }

/-- The whole of the 29th and the 31st, as instants. -/
def aroundDateLine : ℤ × ℤ := (minute * 22085880, minute * 22088760)

theorem skippedDay_span : skippedDay.block.span apia =
    (minute * 22087320, minute * 22087320) := by
  have hmidnight : ∀ d, d = 15338 ∨ d = 15339 → toUtc apia d 0 = minute * 22087320 := by
    intro d hd
    rw [toUtc, add_zero, apia_spaced.minuteOf_eq]
    · rw [apia_reading, dayMinutes, if_neg (by omega)]
      omega
    · intro u hu
      rw [apia_reading, dayMinutes, if_pos hu]
      omega
  exact Prod.ext (hmidnight 15338 (Or.inl rfl)) (hmidnight 15339 (Or.inr rfl))

/-! ## § A clock put back within the stretch it skipped -/

/-- An hour on, ten minutes before the midnight that ends the first day, and back at it. -/
def briefHour : Zone := ⟨0, [(1430, 60), (1440, 0)], by decide⟩

theorem briefHour_reading (u : ℤ) :
    briefHour.reading u = if u < 1430 then u else if u < 1440 then u + 60 else u := by
  show u + offsetAt 0 [(1430, 60), (1440, 0)] u = _
  rw [offsetAt, offsetAt, offsetAt]
  split_ifs <;> ring

theorem briefHour_datesForward : briefHour.DatesForward := by
  intro u v huv
  rw [briefHour_reading, briefHour_reading, dayMinutes]
  split_ifs <;> omega

/-- A member off on the second day. -/
def secondDay : TimeOff := ⟨1, 1, .days 1 1 le_rfl (by decide), none, .manual⟩

def briefHourShop : Db :=
  { Db.solo (Settings.defaults briefHour) freeHour [] with timeOff := ⟨[secondDay], by decide⟩ }

/-- The second day is shown from minute 1430 on, and begins for `to_utc` at 1440. -/
theorem secondDay_span : (secondDay.block.span briefHour).1 = minute * 1440 := by
  have hutc : briefHour.asUtc 1440 = 1440 := by decide
  obtain ⟨hle, _, hfirst⟩ := briefHour.settle_spec 1440
  have hsettle : briefHour.settle 1440 = 1440 := by
    refine le_antisymm (not_lt.mp fun hlt => hfirst 1440 le_rfl hlt ?_) hle
    decide
  show toUtc briefHour 1 0 = _
  rw [toUtc, Zone.minuteOf, show dayMinutes * 1 + 0 = 1440 by decide, hsettle, hutc]

/-- **Blocks listed in vain**: a day off that never came, whose interval has no instant, and
a day off before it begins, in a minute that the clock showed as that day's. -/
theorem blocks_listed_in_vain :
    ((∃ b ∈ blocksOverlapping dateLineShop (fun _ => none) ⟨1, true⟩ aroundDateLine.1
      aroundDateLine.2 none, b.id = skippedDay.id) ∧
    ¬ skippedDay.block.sharesInstant dateLineShop.settings.timezone aroundDateLine.1
      aroundDateLine.2) ∧
    dateLineShop.settings.timezone.DatesForward ∧
    ((∃ b ∈ blocksOverlapping briefHourShop (fun _ => none) ⟨1, true⟩ (minute * 1435)
      (minute * 1436) none, b.id = secondDay.id) ∧
    ¬ secondDay.block.sharesInstant briefHourShop.settings.timezone (minute * 1435)
      (minute * 1436)) ∧
    briefHourShop.settings.timezone.DatesForward := by
  refine ⟨⟨?_, ?_⟩, apia_datesForward, ⟨?_, ?_⟩, briefHour_datesForward⟩
  · exact ⟨⟨1, 1, skippedDay.block, none, .manual, none⟩, mem_blocksOverlapping.mpr
      ⟨skippedDay, List.mem_cons_self .., ⟨by simp, by decide +kernel⟩, rfl⟩, rfl⟩
  · rintro ⟨t, ⟨hlow, hhigh⟩, _⟩
    have hspan : skippedDay.block.span dateLineShop.settings.timezone =
        (minute * 22087320, minute * 22087320) := skippedDay_span
    rw [hspan] at hlow hhigh
    exact absurd hhigh (not_lt.mpr hlow)
  · exact ⟨⟨1, 1, secondDay.block, none, .manual, none⟩, mem_blocksOverlapping.mpr
      ⟨secondDay, List.mem_cons_self .., ⟨by simp, by decide +kernel⟩, rfl⟩, rfl⟩
  · rintro ⟨t, ⟨hlow, _⟩, _, hhigh⟩
    have hspan : (secondDay.block.span briefHourShop.settings.timezone).1 = minute * 1440 :=
      secondDay_span
    rw [hspan] at hlow
    exact absurd (hlow.trans_lt hhigh) (by decide)

theorem blocksOverlapping_exact_twoDays :
    ((∃ b ∈ blocksOverlapping dateLineShop (fun _ => none) ⟨1, true⟩ aroundDateLine.1
      aroundDateLine.2 none, b.id = twoDaysOff.id) ↔
      (∀ m ∈ (none : Option ℕ), twoDaysOff.memberId = m) ∧
        Meets (twoDaysOff.block.span apia) aroundDateLine.1 aroundDateLine.2) ∧
    ((twoDaysOff.block.span apia).1 < (twoDaysOff.block.span apia).2 →
      ((∃ b ∈ blocksOverlapping dateLineShop (fun _ => none) ⟨1, true⟩ aroundDateLine.1
        aroundDateLine.2 none, b.id = twoDaysOff.id) ↔
        (∀ m ∈ (none : Option ℕ), twoDaysOff.memberId = m) ∧
          twoDaysOff.block.sharesInstant apia aroundDateLine.1 aroundDateLine.2)) :=
  @blocksOverlapping_exact dateLineShop (fun _ => none) ⟨1, true⟩ aroundDateLine.1
    aroundDateLine.2 none twoDaysOff apia_spaced apia_datesForward (by decide)
    (List.mem_cons_of_mem _ (List.mem_cons_self ..)) ⟨_, List.mem_cons_self .., rfl⟩

end Ziftbook
