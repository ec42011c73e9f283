import Ziftbook.Team.Owners

/-!
# A business keeps an owner

A change is made by a caller whose own row its transaction has locked and found an
owner's, on the row of someone else. The lock keeps the caller an owner until the
change commits, and the change leaves the caller's row, so an owner is left.
-/

namespace Ziftbook

open Foundation

/-! ## § The invariant -/

/-- The transaction holds the caller's row, and the caller is an owner. -/
def Team.Owns (s : Team) (tx me : ℕ) : Prop :=
  s.memberships.Holds tx me .exclusive ∧
    ∃ m, s.memberships.committed me = some m ∧ m.role = .owner

/-- What an open transaction has found before the task. -/
def TeamTask.Ready (s : Team) : TeamTask → Prop
  | .target .. | .acceptInvite _ => True
  | .locking tx me _ _ _ rows => s.callers tx = some me ∧ ∀ r ∈ rows,
      s.memberships.Holds tx r.1 .exclusive ∧ s.memberships.committed r.1 = some r.2
  | .update tx user _ => ∃ me, s.callers tx = some me ∧ user ≠ me ∧ s.Owns tx me
  | .keepAnOwner tx _ _ | .lookAgain tx _ _ | .commit tx _ _ =>
      ∃ me, s.callers tx = some me ∧ s.Owns tx me
  | .accepted tx => s.callers tx = none

def TeamTask.Ok (s : Team) (task : TeamTask) : Prop :=
  ∀ tx ∈ task.tx, tx < s.begun ∧ (tx ∈ s.opened → task.Ready s)

/-- What a transaction has written: the row of someone other than its caller, an owner;
or, accepting an invitation, a row that is no owner's. -/
def Team.Writes (s : Team) (tx user : ℕ) : Prop :=
  match s.callers tx with
  | some me => user ≠ me ∧ s.Owns tx me
  | none => ∀ m ∈ s.memberships.committed user, m.role ≠ .owner

structure Team.Kept (s : Team) : Prop where
  opened : ∀ t ∈ s.opened, t < s.begun
  holds : ∀ {t k x}, s.memberships.Holds t k x → t < s.begun
  written : ∀ t user row, s.memberships.lastWrite t user = some row → s.Writes t user
  log : ∀ c ∈ s.log, ∃ m, c.meThen = some m ∧ m.role = .owner

/-! ## § What a step leaves -/

structure Team.Frame (tx : ℕ) (s s' : Team) : Prop where
  memberships : Rows.By tx s.memberships s'.memberships
  begun : s.begun ≤ s'.begun
  opened : ∀ t < s.begun, t ∈ s'.opened → t ∈ s.opened
  callers : ∀ t < s.begun, s'.callers t = s.callers t
  own : tx < s.begun → tx ∈ s'.opened → Rows.Extends tx s.memberships s'.memberships

section frame

variable {s s' : Team} {tx t me user : ℕ}

/-- A row that an open transaction holds stays as it is. -/
theorem Team.Frame.held (h : s.Frame tx s') (hlt : t < s.begun) (hopen : t ∈ s'.opened)
    (hheld : s.memberships.Holds t user .exclusive) :
    s'.memberships.Holds t user .exclusive ∧
      s'.memberships.committed user = s.memberships.committed user := by
  by_cases heq : t = tx
  · subst heq
    have hext := h.own hlt hopen
    exact ⟨hext.holds hheld, congrFun hext.committed user⟩
  · exact ⟨(h.memberships.holds heq).mpr hheld, h.memberships.committed heq hheld⟩

theorem Team.Frame.owns (h : s.Frame tx s') (hlt : t < s.begun) (hopen : t ∈ s'.opened)
    (howns : s.Owns t me) : s'.Owns t me := by
  obtain ⟨hheld, hsame⟩ := h.held hlt hopen howns.1
  exact ⟨hheld, by rw [hsame]; exact howns.2⟩

/-- **Frame.** -/
theorem Team.Frame.ok (h : s.Frame tx s') {task : TeamTask} (hok : task.Ok s) : task.Ok s' := by
  intro t ht
  obtain ⟨hlt, hready⟩ := hok t ht
  refine ⟨hlt.trans_le h.begun, fun hopen => ?_⟩
  have hready := hready (h.opened t hlt hopen)
  cases task with
  | target => trivial
  | acceptInvite => trivial
  | locking tx' me memberId change users rows =>
      cases ht
      obtain ⟨hcaller, hrows⟩ := hready
      refine ⟨(h.callers t hlt).trans hcaller, fun r hr => ?_⟩
      obtain ⟨hheld, hsame⟩ := h.held hlt hopen (hrows r hr).1
      exact ⟨hheld, hsame.trans (hrows r hr).2⟩
  | update tx' user change =>
      cases ht
      obtain ⟨me, hcaller, hne, howns⟩ := hready
      exact ⟨me, (h.callers t hlt).trans hcaller, hne, h.owns hlt hopen howns⟩
  | keepAnOwner tx' user change =>
      cases ht
      obtain ⟨me, hcaller, howns⟩ := hready
      exact ⟨me, (h.callers t hlt).trans hcaller, h.owns hlt hopen howns⟩
  | lookAgain tx' user change =>
      cases ht
      obtain ⟨me, hcaller, howns⟩ := hready
      exact ⟨me, (h.callers t hlt).trans hcaller, h.owns hlt hopen howns⟩
  | commit tx' user change =>
      cases ht
      obtain ⟨me, hcaller, howns⟩ := hready
      exact ⟨me, (h.callers t hlt).trans hcaller, h.owns hlt hopen howns⟩
  | accepted tx' =>
      cases ht
      exact (h.callers t hlt).trans hready

end frame

/-! ## § Keeping the invariant -/

section kept

variable {s s' : Team} {tx t : ℕ}

/-- What another transaction has written survives a step. -/
theorem Team.Writes.by {user : ℕ} (hmembers : Rows.By tx s.memberships s'.memberships)
    (hcallers : s'.callers t = s.callers t) (hne : t ≠ tx)
    (hheld : s.memberships.Holds t user .exclusive) (h : s.Writes t user) : s'.Writes t user := by
  unfold Team.Writes at h ⊢
  rw [hcallers]
  cases hcaller : s.callers t with
  | none =>
      rw [hcaller] at h
      rw [hmembers.committed hne hheld]
      exact h
  | some me =>
      rw [hcaller] at h
      obtain ⟨hdiff, howns, howner⟩ := h
      exact ⟨hdiff, (hmembers.holds hne).mpr howns, by rwa [hmembers.committed hne howns]⟩

theorem Team.Kept.begin (h : s.Kept) (caller : Option ℕ) : (s.begin caller).Kept where
  opened := by
    intro t ht
    rcases List.mem_cons.mp ht with rfl | ht
    · exact Nat.lt_succ_self _
    · exact (h.opened t ht).trans (Nat.lt_succ_self _)
  holds := fun hx => (h.holds hx).trans (Nat.lt_succ_self _)
  written := by
    intro t user row hrow
    have hheld := Rows.holds_of_lastWrite hrow
    have hcaller : (s.begin caller).callers t = s.callers t := if_neg (h.holds hheld).ne
    unfold Team.Writes
    rw [hcaller]
    exact h.written t user row hrow
  log := h.log

theorem frame_begin_team (s : Team) (caller : Option ℕ) : s.Frame s.begun (s.begin caller) where
  memberships := Rows.By.refl ..
  begun := Nat.le_succ _
  opened := by
    intro t hlt ht
    rcases List.mem_cons.mp ht with rfl | ht
    · exact absurd hlt (lt_irrefl _)
    · exact ht
  callers := fun t hlt => if_neg hlt.ne
  own := fun hlt => absurd hlt (lt_irrefl _)

/-- The transaction locks or writes rows it may. -/
theorem Team.Kept.members (h : s.Kept) (hlt : tx < s.begun) {r : Rows ℕ Membership}
    (hext : Rows.Extends tx s.memberships r)
    (hwrites : ∀ user row, r.lastWrite tx user = some row →
      ({ s with memberships := r } : Team).Writes tx user) :
    ({ s with memberships := r } : Team).Kept where
  opened := h.opened
  holds := by
    intro t k x hx
    by_cases heq : t = tx
    · exact heq ▸ hlt
    · exact h.holds (hext.others heq hx)
  written := by
    intro t user row hrow
    by_cases heq : t = tx
    · subst heq
      exact hwrites user row hrow
    · have hrow : s.memberships.lastWrite t user = some row := by
        rw [← hext.lastWrite heq]
        exact hrow
      exact (h.written t user row hrow).by hext.by rfl heq (Rows.holds_of_lastWrite hrow)
  log := h.log

theorem frame_members {r : Rows ℕ Membership} (hext : Rows.Extends tx s.memberships r) :
    s.Frame tx { s with memberships := r } where
  memberships := hext.by
  begun := le_rfl
  opened := fun _ _ h => h
  callers := fun _ _ => rfl
  own := fun _ _ => hext

theorem frame_refl_team (s : Team) (tx : ℕ) : s.Frame tx s := frame_members (Rows.Extends.refl ..)

/-- A transaction that ends, whatever it publishes, leaves the others' writes. -/
theorem Team.Kept.ended (h : s.Kept) {r : Rows ℕ Membership} (hby : Rows.By tx s.memberships r)
    (hheld : ∀ {t k x}, r.Holds t k x → t ≠ tx)
    (hlast : ∀ {t k row}, r.lastWrite t k = some row → t ≠ tx) {tenant : Rows Unit Unit} :
    ({ s with memberships := r, tenant := tenant, opened := s.opened.filter (· ≠ tx) } :
      Team).Kept where
  opened := fun t ht => h.opened t (mem_opened_filter.mp ht).1
  holds := fun hx => h.holds ((hby.holds (hheld hx)).mp hx)
  written := by
    intro t user row hrow
    have hne := hlast hrow
    have hrow : s.memberships.lastWrite t user = some row := by
      rw [← hby.lastWrite hne]
      exact hrow
    exact (h.written t user row hrow).by hby rfl hne (Rows.holds_of_lastWrite hrow)
  log := h.log

theorem Team.Kept.rollback (h : s.Kept) : (s.rollback tx).Kept :=
  h.ended (Rows.by_rollback ..) (fun hx => (Rows.holds_rollback.mp hx).2)
    fun hx => (Rows.lastWrite_rollback_eq_some hx).1

theorem Team.Kept.end (h : s.Kept) : (s.end tx).Kept :=
  h.ended (Rows.by_commit ..) (fun hx => (Rows.holds_commit.mp hx).2)
    fun hx => (Rows.lastWrite_rollback_eq_some hx).1

theorem frame_rollback_team (s : Team) (tx : ℕ) : s.Frame tx (s.rollback tx) where
  memberships := Rows.by_rollback ..
  begun := le_rfl
  opened := fun _ _ h => (mem_opened_filter.mp h).1
  callers := fun _ _ => rfl
  own := fun _ h => absurd rfl (mem_opened_filter.mp h).2

theorem frame_end_team (s : Team) (tx : ℕ) : s.Frame tx (s.end tx) where
  memberships := Rows.by_commit ..
  begun := le_rfl
  opened := fun _ _ h => (mem_opened_filter.mp h).1
  callers := fun _ _ => rfl
  own := fun _ h => absurd rfl (mem_opened_filter.mp h).2

/-- **An owner is left.** A commit that changes an owner's row has its caller's, which
it does not change. -/
theorem hasOwner_end (h : s.Kept) (howner : s.HasOwner) : (s.end tx).HasOwner := by
  obtain ⟨user, m, hm, hrole⟩ := howner
  cases hlast : s.memberships.lastWrite tx user with
  | none => exact ⟨user, m, (Rows.seen_of_unwritten hlast).trans hm, hrole⟩
  | some row =>
      have hwrites := h.written tx user row hlast
      unfold Team.Writes at hwrites
      cases hcaller : s.callers tx with
      | none =>
          rw [hcaller] at hwrites
          exact absurd hrole (hwrites m hm)
      | some me =>
          rw [hcaller] at hwrites
          obtain ⟨_, _, mine, hmine, howner⟩ := hwrites
          refine ⟨me, mine, (Rows.seen_of_unwritten ?_).trans hmine, howner⟩
          by_contra hwritten
          obtain ⟨row', hrow'⟩ := Option.ne_none_iff_exists'.mp hwritten
          have hself := h.written tx me row' hrow'
          unfold Team.Writes at hself
          rw [hcaller] at hself
          exact hself.1 rfl

end kept

/-! ## § Every task -/

section task

variable {s s' : Team}

/-- What a task leaves. -/
def Team.Goes (s s' : Team) (next : Option (List TeamTask)) : Prop :=
  s'.Kept ∧ (s.HasOwner → s'.HasOwner) ∧ (∀ ts, next = some ts → ∀ u ∈ ts, u.Ok s') ∧
    ∃ tx, s.Frame tx s'

theorem team_goes_of_end {tx : ℕ} (hkept : s'.Kept) (howner : s.HasOwner → s'.HasOwner)
    (hframe : s.Frame tx s') : s.Goes s' none :=
  ⟨hkept, howner, fun _ h => (by cases h), tx, hframe⟩

theorem team_goes_of_one {tx : ℕ} {task : TeamTask} (hkept : s'.Kept)
    (howner : s.HasOwner → s'.HasOwner) (hframe : s.Frame tx s') (htask : task.Ok s') :
    s.Goes s' (some [task]) := by
  refine ⟨hkept, howner, fun ts hts u hu => ?_, tx, hframe⟩
  cases hts
  rw [List.mem_singleton.mp hu]
  exact htask

theorem team_ok_of_ready {tx : ℕ} {task : TeamTask} (htx : task.tx = some tx) (hlt : tx < s.begun)
    (hready : task.Ready s) : task.Ok s := by
  intro t ht
  rw [htx] at ht
  cases ht
  exact ⟨hlt, fun _ => hready⟩

/-- Whom a change is made on: someone else, by a caller whose locked row is an owner's. -/
theorem chosen_eq_ok {me memberId : ℕ} {change : RoleChange} {rows : List (ℕ × Membership)}
    {user : ℕ} (h : chosen me memberId change rows = .ok (some user)) :
    user ≠ me ∧ ∃ r ∈ rows, r.1 = me ∧ r.2.role = .owner := by
  unfold chosen at h
  obtain ⟨mine, hmine, h⟩ := bind_eq_ok.mp h
  simp only [require_bind_eq_ok] at h
  obtain ⟨howner, h⟩ := h
  obtain ⟨member, _, h⟩ := bind_eq_ok.mp h
  simp only [require_bind_eq_ok] at h
  obtain ⟨hother, h⟩ := h
  have hfound := found_eq_ok.mp hmine
  have hme := List.find?_some hfound
  rw [decide_eq_true_eq] at hme
  refine ⟨?_, mine, List.mem_of_find?_eq_some hfound, hme, howner⟩
  have h := Except.ok.inj h
  split_ifs at h
  exact Option.some.inj h ▸ hother

/-- A row locked and read again is as it is committed. -/
theorem mem_relock {me memberId user : ℕ} {r : ℕ × Membership}
    (h : r ∈ s.relock me memberId user) :
    r.1 = user ∧ s.memberships.committed user = some r.2 := by
  obtain ⟨m, hm, rfl⟩ := List.mem_map.mp h
  exact ⟨rfl, (Option.filter_eq_some_iff.mp (Option.mem_toList.mp hm)).1⟩

theorem goes_locking (h : s.Kept) {tx me memberId : ℕ} {change : RoleChange} {users : List ℕ}
    {rows : List (ℕ × Membership)} {next : Option (List TeamTask)}
    (hok : (TeamTask.locking tx me memberId change users rows).Ok s)
    (hexec : s.exec (.locking tx me memberId change users rows) .go = some (s', next)) :
    s.Goes s' next := by
  obtain ⟨hlt, hready⟩ := hok tx rfl
  simp only [Team.exec] at hexec
  split_ifs at hexec with hopen
  obtain ⟨hcaller, hrows⟩ := hready hopen
  cases users with
  | cons user users =>
      obtain ⟨r, hlock, hr⟩ := Option.map_eq_some_iff.mp hexec
      cases hr
      have hext := Rows.extends_of_lock hlock
      refine team_goes_of_one (h.members hlt hext fun k row hrow => ?_) (fun howner => ?_)
        (frame_members hext) (team_ok_of_ready rfl hlt ⟨hcaller, fun r' hr' => ?_⟩)
      · rw [Rows.lastWrite_of_lock hlock] at hrow
        have hwrites := h.written tx k row hrow
        unfold Team.Writes at hwrites ⊢
        rw [hcaller] at hwrites
        simp only [hcaller]
        exact ⟨hwrites.1, hext.holds hwrites.2.1, by
          rw [congrFun hext.committed]
          exact hwrites.2.2⟩
      · obtain ⟨k, m, hm, hrole⟩ := howner
        exact ⟨k, m, (congrFun hext.committed k).trans hm, hrole⟩
      · rcases List.mem_append.mp hr' with hr' | hr'
        · exact ⟨hext.holds (hrows r' hr').1, (congrFun hext.committed _).trans (hrows r' hr').2⟩
        · obtain ⟨heq, hcommitted⟩ := mem_relock hr'
          rw [heq]
          exact ⟨Rows.holds_of_lock hlock, (congrFun hext.committed _).trans hcommitted⟩
  | nil =>
      cases hchosen : chosen me memberId change rows with
      | error e =>
          rw [hchosen] at hexec
          cases hexec
          exact team_goes_of_end { (h.rollback : (s.rollback tx).Kept) with } id
            { frame_rollback_team s tx with }
      | ok user =>
          rw [hchosen] at hexec
          cases user with
          | none =>
              cases hexec
              exact team_goes_of_end h.end (hasOwner_end h) (frame_end_team s tx)
          | some user =>
              cases hexec
              obtain ⟨hne, r, hr, rfl, howner⟩ := chosen_eq_ok hchosen
              obtain ⟨hheld, hcommitted⟩ := hrows r hr
              exact team_goes_of_one h id (frame_refl_team s tx) (team_ok_of_ready rfl hlt
                ⟨_, hcaller, hne, hheld, r.2, hcommitted, howner⟩)

theorem goes_update (h : s.Kept) {tx user : ℕ} {change : RoleChange}
    {next : Option (List TeamTask)} (hok : (TeamTask.update tx user change).Ok s)
    (hexec : s.exec (.update tx user change) .go = some (s', next)) : s.Goes s' next := by
  obtain ⟨hlt, hready⟩ := hok tx rfl
  simp only [Team.exec] at hexec
  split_ifs at hexec with hopen
  obtain ⟨me, hcaller, hne, howns⟩ := hready hopen
  cases hseen : s.memberships.seen tx user with
  | none =>
      rw [hseen] at hexec
      cases hexec
      exact team_goes_of_one h id (frame_refl_team s tx)
        (team_ok_of_ready rfl hlt ⟨me, hcaller, howns⟩)
  | some m =>
      rw [hseen] at hexec
      obtain ⟨r, hwrite, hr⟩ := Option.map_eq_some_iff.mp hexec
      cases hr
      have hext := Rows.extends_of_write hwrite
      have howns' : ({ s with memberships := r } : Team).Owns tx me :=
        ⟨hext.holds howns.1, by
          rw [congrFun hext.committed]
          exact howns.2⟩
      refine team_goes_of_one (h.members hlt hext fun k row hrow => ?_) (fun howner => ?_)
        (frame_members hext) (team_ok_of_ready ?_ hlt ?_)
      · -- What it wrote before was another's row, and so is this one.
        unfold Team.Writes
        simp only [hcaller]
        refine ⟨?_, howns'⟩
        rw [Rows.lastWrite_of_write hwrite] at hrow
        split_ifs at hrow with hk
        · rw [hk.2]
          exact hne
        · have hwrites := h.written tx k row hrow
          unfold Team.Writes at hwrites
          rw [hcaller] at hwrites
          exact hwrites.1
      · obtain ⟨k, m', hm, hrole⟩ := howner
        exact ⟨k, m', (congrFun hext.committed k).trans hm, hrole⟩
      · split_ifs <;> rfl
      · split_ifs <;> exact ⟨me, hcaller, howns'⟩

/-- A transaction not begun has written nothing. -/
theorem Team.Kept.unbegun (h : s.Kept) {user : ℕ} :
    s.memberships.lastWrite s.begun user = none := by
  by_contra hne
  obtain ⟨row, hrow⟩ := Option.ne_none_iff_exists'.mp hne
  exact absurd (h.holds (Rows.holds_of_lastWrite hrow)) (lt_irrefl _)

/-- An acceptance that takes a row no owner has. -/
theorem goes_taken (h : s.Kept) {r : Rows ℕ Membership} {ids people : ℕ}
    (hext : Rows.Extends s.begun s.memberships r)
    (hwrites : ∀ user row, r.lastWrite s.begun user = some row →
      ∀ m ∈ s.memberships.committed user, m.role ≠ .owner) :
    s.Goes { s.begin none with memberships := r, ids := ids, people := people }
      (some [.accepted s.begun]) := by
  have hcaller : (s.begin none).callers s.begun = none := if_pos rfl
  have hkept := (h.begin none).members (Nat.lt_succ_self _) hext fun user row hrow => by
    unfold Team.Writes
    simp only [hcaller]
    intro m hm
    exact hwrites user row hrow m (by rwa [← congrFun hext.committed user])
  refine team_goes_of_one { hkept with } (fun howner => ?_)
    { frame_begin_team s none with
      memberships := hext.by
      own := fun hlt => absurd hlt (lt_irrefl _) }
    (team_ok_of_ready rfl (Nat.lt_succ_self _) hcaller)
  obtain ⟨user, m, hm, hrole⟩ := howner
  exact ⟨user, m, (congrFun hext.committed user).trans hm, hrole⟩

theorem goes_acceptInvite (h : s.Kept) {user : ℕ} {next : Option (List TeamTask)}
    (hexec : s.exec (.acceptInvite user) .go = some (s', next)) : s.Goes s' next := by
  simp only [Team.exec] at hexec
  cases hrow : s.memberships.committed user with
  | none =>
      rw [hrow] at hexec
      obtain ⟨r, hwrite, hr⟩ := Option.map_eq_some_iff.mp hexec
      cases hr
      refine goes_taken h (Rows.extends_of_write hwrite) fun k row hk m hm => ?_
      rw [Rows.lastWrite_of_write hwrite, h.unbegun] at hk
      split_ifs at hk with heq
      rw [heq.2, hrow] at hm
      cases hm
  | some m =>
      rw [hrow] at hexec
      by_cases hremoved : m.role = .removed
      · simp only [hremoved, if_true] at hexec
        obtain ⟨r, hwrite, hr⟩ := Option.map_eq_some_iff.mp hexec
        cases hr
        refine goes_taken h (Rows.extends_of_write hwrite) fun k row hk m' hm' => ?_
        rw [Rows.lastWrite_of_write hwrite, h.unbegun] at hk
        split_ifs at hk with heq
        rw [heq.2, hrow] at hm'
        cases hm'
        simp [hremoved]
      · simp only [hremoved, if_false] at hexec
        obtain ⟨r, hlock, hr⟩ := Option.map_eq_some_iff.mp hexec
        cases hr
        refine goes_taken h (Rows.extends_of_lock hlock) fun k row hk => ?_
        rw [Rows.lastWrite_of_lock hlock, h.unbegun] at hk
        cases hk

/-- **One task.** -/
theorem team_goes_exec (h : s.Kept) {task : TeamTask} {turn : TeamTurn}
    {next : Option (List TeamTask)} (hok : task.Ok s)
    (hexec : s.exec task turn = some (s', next)) : s.Goes s' next := by
  cases turn with
  | stop =>
      simp only [Team.exec] at hexec
      split at hexec
      · cases hexec
        exact team_goes_of_end h id (frame_refl_team s 0)
      · split_ifs at hexec
        cases hexec
        exact team_goes_of_end h.rollback id (frame_rollback_team s _)
  | go =>
      cases task with
      | target me memberId change =>
          cases hexec
          refine team_goes_of_one (h.begin _) id (frame_begin_team s _)
            (team_ok_of_ready rfl (Nat.lt_succ_self _) ⟨if_pos rfl, fun r hr => ?_⟩)
          cases hr
      | locking tx me memberId change users rows => exact goes_locking h hok hexec
      | update tx user change => exact goes_update h hok hexec
      | keepAnOwner tx user change =>
          obtain ⟨hlt, hready⟩ := hok tx rfl
          simp only [Team.exec] at hexec
          split_ifs at hexec with hopen
          obtain ⟨r, -, hr⟩ := Option.map_eq_some_iff.mp hexec
          cases hr
          exact team_goes_of_one { h with } id { frame_refl_team s tx with }
            (team_ok_of_ready rfl hlt (hready hopen))
      | lookAgain tx user change =>
          obtain ⟨hlt, hready⟩ := hok tx rfl
          simp only [Team.exec] at hexec
          split_ifs at hexec with hopen hlost
          · cases hexec
            exact team_goes_of_end { (h.rollback : (s.rollback tx).Kept) with } id
              { frame_rollback_team s tx with }
          · cases hexec
            exact team_goes_of_one h id (frame_refl_team s tx)
              (team_ok_of_ready rfl hlt (hready hopen))
      | commit tx user change =>
          obtain ⟨hlt, hready⟩ := hok tx rfl
          simp only [Team.exec] at hexec
          split_ifs at hexec with hopen
          obtain ⟨me, hcaller, howns⟩ := hready hopen
          rw [hcaller] at hexec
          cases hexec
          refine team_goes_of_end
            { (h.end : (s.end tx).Kept) with
              log := fun c hc => ?_ } (hasOwner_end h) { frame_end_team s tx with }
          rcases List.mem_cons.mp hc with rfl | hc
          · exact howns.2
          · exact h.log c hc
      | acceptInvite user => exact goes_acceptInvite h hexec
      | accepted tx =>
          simp only [Team.exec] at hexec
          split_ifs at hexec
          cases hexec
          exact team_goes_of_end h.end (hasOwner_end h) (frame_end_team s tx)

/-- **Step.** -/
theorem team_step {had : Prop} {p p' : TeamPool} {m : Move Empty TeamRequest TeamTurn}
    (h : Pool.Invariant (fun s => s.Kept ∧ (had → s.HasOwner)) (fun s task => task.Ok s) p)
    (hstep : Pool.step team p m = some p') :
    Pool.Invariant (fun s => s.Kept ∧ (had → s.HasOwner)) (fun s task => task.Ok s) p' := by
  refine Pool.invariant_step ?_ ?_ ?_ h hstep
  · exact fun _ _ e => e.elim
  · intro s request s' ts hkept hstart
    cases hstart
    refine ⟨hkept, fun t ht => ?_, fun _ hu => hu⟩
    rw [List.mem_singleton.mp ht]
    intro tx htx
    cases request <;> cases htx
  · intro s t turn s' next hI hok hexec
    obtain ⟨hkept', howner, hnext, tx, hframe⟩ := team_goes_exec hI.1 hok hexec
    exact ⟨⟨hkept', fun hhad => howner (hI.2 hhad)⟩, hnext, fun u hu => hframe.ok hu⟩

end task

theorem kept_start_team (members : List Membership) : (Team.start members).Kept := by
  constructor <;> simp [Team.start, Rows.start, Rows.lastWrite, Rows.Holds]

/-- **An owner is kept.** From every state that changes and acceptances reach, a
business with an owner keeps one, and every change that committed was asked for by
someone who was an owner when it did. -/
theorem owner_kept {members : List Membership} {ms ms' : List (Move Empty TeamRequest TeamTurn)}
    {p q : TeamPool} (hrun : TeamPool.run (Pool.empty (Team.start members)) ms = some p)
    (hrun' : TeamPool.run p ms' = some q) :
    (p.shared.HasOwner → q.shared.HasOwner) ∧
    ∀ c ∈ q.shared.log, ∃ m, c.meThen = some m ∧ m.role = .owner := by
  have hstart : Pool.Invariant (fun s : Team => s.Kept ∧ (False → s.HasOwner))
      (fun s (task : TeamTask) => task.Ok s) (Pool.empty (Team.start members)) :=
    Pool.invariant_empty ⟨kept_start_team members, False.elim⟩
  have hp := Runs.run_invariant' (fun _ _ _ => team_step) hstart hrun
  have hmiddle : Pool.Invariant (fun s : Team => s.Kept ∧ (p.shared.HasOwner → s.HasOwner))
      (fun s (task : TeamTask) => task.Ok s) p := ⟨⟨hp.shared.1, id⟩, hp.tasks⟩
  have hq := Runs.run_invariant' (fun _ _ _ => team_step) hmiddle hrun'
  exact ⟨hq.shared.2, hq.shared.1.log⟩

/-- Two owners demote each other at the same moment. -/
def twoDemotions : List (Move Empty TeamRequest TeamTurn) :=
  [.start (.changeRole 0 1 false), .start (.changeRole 1 0 false), .go 0 .go, .go 1 .go] ++
    List.replicate 7 (.go 0 .go) ++ List.replicate 3 (.go 1 .go)

/-- The second request waits for the first one's locks, and finds its caller demoted. -/
theorem owner_kept_two_demotions :
    ∃ p, TeamPool.run (Pool.empty (Team.start [⟨0, .owner⟩, ⟨1, .owner⟩])) twoDemotions = some p ∧
      p.shared.answers = [(1, ⟨403, .ownerOnly⟩)] ∧
      p.shared.log.map Changed.user = [1] ∧ p.shared.HasOwner :=
  have hrun := (Option.some_get (by decide +kernel : (TeamPool.run
    (Pool.empty (Team.start [⟨0, .owner⟩, ⟨1, .owner⟩])) twoDemotions).isSome)).symm
  ⟨_, hrun, by decide +kernel, by decide +kernel,
    (@owner_kept _ [] _ _ _ rfl hrun).1 ⟨0, ⟨0, .owner⟩, rfl, rfl⟩⟩

end Ziftbook
