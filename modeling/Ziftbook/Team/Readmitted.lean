import Ziftbook.Team.Invites

/-!
# Who comes back

While the person is a member there is no invite, so a removal leaves none behind:
unless an acceptance commits between a `create`'s look for a member and its writing of
the invite. In runs without that, every acceptance that brings a removed member back
uses an invite whose `create` looked after the removal had committed.
-/

namespace Ziftbook

open Foundation

/-! ## § The invariant -/

/-- An acceptance holds the invite it found. -/
def Admission.Using (s : Admission) (tx : ℕ) (v : Invite) : Prop :=
  s.purpose tx = .accept ∧ s.invites.Holds tx () .exclusive ∧ s.invites.committed () = some v

/-- What an open transaction has found before the task. -/
def AdmissionStep.Ready (s : Admission) : AdmissionStep → Prop
  | .create _ | .revoke _ | .sendInvite .. | .accept .. | .remove => True
  | .upsert tx _ after => s.purpose tx = .create ∧ s.member = false ∧ after = s.removals
  | .commit tx => s.purpose tx ≠ .accept ∧ s.purpose tx ≠ .remove
  | .account tx v _ | .useUp tx v => s.Using tx v
  | .join tx v | .accepted tx v => s.Using tx v ∧ s.invites.lastWrite tx () = some none
  | .endMembership tx => s.purpose tx = .remove ∧ s.membership.Holds tx () .exclusive ∧
      s.member = true
  | .removed tx => s.purpose tx = .remove ∧ s.membership.lastWrite tx () = some (some .removed)

def AdmissionStep.Ok (s : Admission) (task : AdmissionStep) : Prop :=
  ∀ tx ∈ task.tx, tx < s.begun ∧ (tx ∈ s.opened → task.Ready s)

/-- What a transaction has written of the membership. -/
def Admission.Writes (s : Admission) (tx : ℕ) (row : Option Role) : Prop :=
  (s.purpose tx = .remove ∧ row = some .removed ∧ s.member = true) ∨
    (s.purpose tx = .accept ∧ row = some .worker ∧ s.invites.Holds tx () .exclusive ∧
      s.invites.lastWrite tx () = some none)

structure Admission.Kept (s : Admission) : Prop where
  opened : ∀ t ∈ s.opened, t < s.begun
  holds : ∀ {t}, (∃ k x, s.invites.Holds t k x) ∨ (∃ k x, s.membership.Holds t k x) → t < s.begun
  /-- An invite, committed or written, is for someone who is no member, and no removal
  has committed since its `create` looked. -/
  invited : ∀ v, s.invites.committed () = some v → s.member = false ∧ v.after = s.removals
  inviting : ∀ t v, s.invites.lastWrite t () = some (some v) →
    s.member = false ∧ v.after = s.removals
  written : ∀ t row, s.membership.lastWrite t () = some row → s.Writes t row
  log : ∀ e ∈ s.log, e.after = e.removals

/-! ## § What a step leaves -/

structure Admission.Frame (tx : ℕ) (s s' : Admission) : Prop where
  invites : Rows.By tx s.invites s'.invites
  membership : Rows.By tx s.membership s'.membership
  begun : s.begun ≤ s'.begun
  opened : ∀ t < s.begun, t ∈ s'.opened → t ∈ s.opened
  purpose : ∀ t < s.begun, s'.purpose t = s.purpose t
  /-- Under a `create` that has looked, nobody joins and nobody is removed. -/
  quiet : ∀ t ∈ s.opened, s.purpose t = .create → s.member = false →
    s'.member = false ∧ s'.removals = s.removals
  own : tx < s.begun → tx ∈ s'.opened →
    Rows.Extends tx s.invites s'.invites ∧ Rows.Extends tx s.membership s'.membership ∧
    (s.purpose tx = .accept → s.invites.lastWrite tx () = some none →
      s'.invites.lastWrite tx () = some none) ∧
    (s.purpose tx = .remove → s.membership.lastWrite tx () = some (some .removed) →
      s'.membership.lastWrite tx () = some (some .removed))

section frame

variable {s s' : Admission} {tx t : ℕ} {v : Invite}

theorem Admission.Frame.using (h : s.Frame tx s') (hlt : t < s.begun) (hopen : t ∈ s'.opened)
    (husing : s.Using t v) : s'.Using t v := by
  obtain ⟨hpurpose, hheld, hcommitted⟩ := husing
  refine ⟨(h.purpose t hlt).trans hpurpose, ?_⟩
  by_cases heq : t = tx
  · subst heq
    have hext := (h.own hlt hopen).1
    exact ⟨hext.holds hheld, (congrFun hext.committed ()).trans hcommitted⟩
  · exact ⟨(h.invites.holds heq).mpr hheld, (h.invites.committed heq hheld).trans hcommitted⟩

theorem Admission.Frame.usedUp (h : s.Frame tx s') (hlt : t < s.begun) (hopen : t ∈ s'.opened)
    (hpurpose : s.purpose t = .accept) (hlast : s.invites.lastWrite t () = some none) :
    s'.invites.lastWrite t () = some none := by
  by_cases heq : t = tx
  · subst heq
    exact (h.own hlt hopen).2.2.1 hpurpose hlast
  · rw [h.invites.lastWrite heq]
    exact hlast

/-- **Frame.** -/
theorem Admission.Frame.ok (h : s.Frame tx s') {task : AdmissionStep} (hok : task.Ok s) :
    task.Ok s' := by
  intro t ht
  obtain ⟨hlt, hready⟩ := hok t ht
  refine ⟨hlt.trans_le h.begun, fun hopen => ?_⟩
  have hopened := h.opened t hlt hopen
  have hready := hready hopened
  have hpurpose := h.purpose t hlt
  cases task with
  | create => trivial
  | revoke => trivial
  | sendInvite => trivial
  | accept => trivial
  | remove => trivial
  | upsert tx' now after =>
      cases ht
      obtain ⟨hcreate, hmember, hafter⟩ := hready
      obtain ⟨hmember', hremovals⟩ := h.quiet t hopened hcreate hmember
      exact ⟨hpurpose.trans hcreate, hmember', hafter.trans hremovals.symm⟩
  | commit tx' =>
      cases ht
      show s'.purpose t ≠ .accept ∧ s'.purpose t ≠ .remove
      rwa [hpurpose]
  | account tx' v register =>
      cases ht
      exact h.using hlt hopen hready
  | useUp tx' v =>
      cases ht
      exact h.using hlt hopen hready
  | join tx' v =>
      cases ht
      exact ⟨h.using hlt hopen hready.1, h.usedUp hlt hopen hready.1.1 hready.2⟩
  | accepted tx' v =>
      cases ht
      exact ⟨h.using hlt hopen hready.1, h.usedUp hlt hopen hready.1.1 hready.2⟩
  | endMembership tx' =>
      cases ht
      obtain ⟨hremove, hheld, hmember⟩ := hready
      refine ⟨hpurpose.trans hremove, ?_⟩
      unfold Admission.member at hmember ⊢
      by_cases heq : t = tx
      · subst heq
        have hext := (h.own hlt hopen).2.1
        exact ⟨hext.holds hheld, by rwa [congrFun hext.committed]⟩
      · exact ⟨(h.membership.holds heq).mpr hheld, by rwa [h.membership.committed heq hheld]⟩
  | removed tx' =>
      cases ht
      obtain ⟨hremove, hlast⟩ := hready
      refine ⟨hpurpose.trans hremove, ?_⟩
      by_cases heq : t = tx
      · subst heq
        exact (h.own hlt hopen).2.2.2 hremove hlast
      · rw [h.membership.lastWrite heq]
        exact hlast

end frame

/-! ## § Keeping the invariant -/

section kept

variable {s s' : Admission} {tx t : ℕ}

theorem member_of_extends {r : Rows Unit Role} (hext : Rows.Extends tx s.membership r) :
    ({ s with membership := r } : Admission).member = s.member := by
  simp only [Admission.member, hext.committed]

/-- What another transaction has written of the membership survives a step. -/
theorem Admission.Writes.by {row : Option Role} (hinvites : Rows.By tx s.invites s'.invites)
    (hmembership : Rows.By tx s.membership s'.membership) (hpurpose : s'.purpose t = s.purpose t)
    (hne : t ≠ tx) (hheld : s.membership.Holds t () .exclusive) (h : s.Writes t row) :
    s'.Writes t row := by
  rcases h with ⟨hremove, hrow, hmember⟩ | ⟨haccept, hrow, hholds, hlast⟩
  · refine Or.inl ⟨hpurpose.trans hremove, hrow, ?_⟩
    unfold Admission.member at hmember ⊢
    rwa [hmembership.committed hne hheld]
  · exact Or.inr ⟨hpurpose.trans haccept, hrow, (hinvites.holds hne).mpr hholds,
      (hinvites.lastWrite hne).trans hlast⟩

theorem Admission.Kept.begin (h : s.Kept) (purpose : Purpose) : (s.begin purpose).Kept :=
  { h with
    opened := by
      intro t ht
      rcases List.mem_cons.mp ht with rfl | ht
      · exact Nat.lt_succ_self _
      · exact (h.opened t ht).trans (Nat.lt_succ_self _)
    holds := fun hx => (h.holds hx).trans (Nat.lt_succ_self _)
    written := by
      intro t row hrow
      have hlt := h.holds (Or.inr ⟨_, _, Rows.holds_of_lastWrite hrow⟩)
      have hpurpose : (s.begin purpose).purpose t = s.purpose t := if_neg hlt.ne
      have hwrites := h.written t row hrow
      unfold Admission.Writes at hwrites ⊢
      rw [hpurpose]
      exact hwrites }

theorem frame_begin_admission (s : Admission) (purpose : Purpose) :
    s.Frame s.begun (s.begin purpose) where
  invites := Rows.By.refl ..
  membership := Rows.By.refl ..
  begun := Nat.le_succ _
  opened := by
    intro t hlt ht
    rcases List.mem_cons.mp ht with rfl | ht
    · exact absurd hlt (lt_irrefl _)
    · exact ht
  purpose := fun t hlt => if_neg hlt.ne
  quiet := fun _ _ _ hmember => ⟨hmember, rfl⟩
  own := fun hlt => absurd hlt (lt_irrefl _)

/-- The transaction locks or writes the invite. -/
theorem Admission.Kept.inviteRow (h : s.Kept) (hlt : tx < s.begun) {r : Rows Unit Invite}
    (hext : Rows.Extends tx s.invites r)
    (hinviting : ∀ v, r.lastWrite tx () = some (some v) → s.member = false ∧ v.after = s.removals)
    (hsame : s.purpose tx = .accept → s.invites.lastWrite tx () = some none →
      r.lastWrite tx () = some none) :
    ({ s with invites := r } : Admission).Kept :=
  { h with
    holds := by
      intro t hx
      by_cases heq : t = tx
      · exact heq ▸ hlt
      · exact h.holds (hx.imp_left fun ⟨k, x, hx⟩ => ⟨k, x, hext.others heq hx⟩)
    invited := fun v hv => h.invited v ((congrFun hext.committed ()).symm.trans hv)
    inviting := by
      intro t v hv
      by_cases heq : t = tx
      · subst heq
        exact hinviting v hv
      · exact h.inviting t v ((hext.lastWrite heq).symm.trans hv)
    written := by
      intro t row hrow
      have hwrites := h.written t row hrow
      by_cases heq : t = tx
      · subst heq
        rcases hwrites with hremove | ⟨haccept, hrow, hholds, hlast⟩
        · exact Or.inl hremove
        · exact Or.inr ⟨haccept, hrow, hext.holds hholds, hsame haccept hlast⟩
      · exact hwrites.by hext.by (Rows.By.refl ..) rfl heq (Rows.holds_of_lastWrite hrow) }

theorem frame_inviteRow {r : Rows Unit Invite} (hext : Rows.Extends tx s.invites r)
    (hsame : s.purpose tx = .accept → s.invites.lastWrite tx () = some none →
      r.lastWrite tx () = some none) :
    s.Frame tx { s with invites := r } where
  invites := hext.by
  membership := Rows.By.refl ..
  begun := le_rfl
  opened := fun _ _ h => h
  purpose := fun _ _ => rfl
  quiet := fun _ _ _ hmember => ⟨hmember, rfl⟩
  own := fun _ _ => ⟨hext, Rows.Extends.refl .., hsame, fun _ => id⟩

/-- The transaction locks or writes the membership. -/
theorem Admission.Kept.memberRow (h : s.Kept) (hlt : tx < s.begun) {r : Rows Unit Role}
    (hext : Rows.Extends tx s.membership r)
    (hwritten : ∀ row, r.lastWrite tx () = some row → s.Writes tx row) :
    ({ s with membership := r } : Admission).Kept := by
  have hmember := member_of_extends hext
  exact
    { h with
      holds := by
        intro t hx
        by_cases heq : t = tx
        · exact heq ▸ hlt
        · exact h.holds (hx.imp_right fun ⟨k, x, hx⟩ => ⟨k, x, hext.others heq hx⟩)
      invited := fun v hv => by
        rw [hmember]
        exact h.invited v hv
      inviting := fun t v hv => by
        rw [hmember]
        exact h.inviting t v hv
      written := by
        intro t row hrow
        have hwrites : s.Writes t row := by
          by_cases heq : t = tx
          · subst heq
            exact hwritten row hrow
          · exact h.written t row ((hext.lastWrite heq).symm.trans hrow)
        unfold Admission.Writes at hwrites ⊢
        rw [hmember]
        exact hwrites }

theorem frame_memberRow {r : Rows Unit Role} (hext : Rows.Extends tx s.membership r)
    (hsame : s.purpose tx = .remove → s.membership.lastWrite tx () = some (some .removed) →
      r.lastWrite tx () = some (some .removed)) :
    s.Frame tx { s with membership := r } where
  invites := Rows.By.refl ..
  membership := hext.by
  begun := le_rfl
  opened := fun _ _ h => h
  purpose := fun _ _ => rfl
  quiet := fun _ _ _ hmember => ⟨by rw [member_of_extends hext]; exact hmember, rfl⟩
  own := fun _ _ => ⟨Rows.Extends.refl .., hext, fun _ => id, hsame⟩

theorem frame_refl_admission (s : Admission) (tx : ℕ) : s.Frame tx s :=
  frame_inviteRow (Rows.Extends.refl ..) fun _ => id

/-- A rollback leaves what the others have written. -/
theorem Admission.Kept.rollback (h : s.Kept) : (s.rollback tx).Kept :=
  { h with
    opened := fun t ht => h.opened t (mem_opened_filter.mp ht).1
    holds := by
      rintro t (⟨k, x, hx⟩ | ⟨k, x, hx⟩)
      · exact h.holds (Or.inl ⟨k, x, (Rows.holds_rollback.mp hx).1⟩)
      · exact h.holds (Or.inr ⟨k, x, (Rows.holds_rollback.mp hx).1⟩)
    inviting := fun t v hv => h.inviting t v (Rows.lastWrite_rollback_eq_some hv).2
    written := by
      intro t row hrow
      obtain ⟨hne, hrow⟩ := Rows.lastWrite_rollback_eq_some hrow
      exact (h.written t row hrow).by (Rows.by_rollback ..) (Rows.by_rollback ..) rfl hne
        (Rows.holds_of_lastWrite hrow) }

theorem frame_rollback_admission (s : Admission) (tx : ℕ) : s.Frame tx (s.rollback tx) where
  invites := Rows.by_rollback ..
  membership := Rows.by_rollback ..
  begun := le_rfl
  opened := fun _ _ h => (mem_opened_filter.mp h).1
  purpose := fun _ _ => rfl
  quiet := fun _ _ _ hmember => ⟨hmember, rfl⟩
  own := fun _ h => absurd rfl (mem_opened_filter.mp h).2

theorem frame_end_admission (s : Admission) (tx : ℕ)
    (hquiet : ∀ t ∈ s.opened, s.purpose t = .create → s.member = false →
      (s.end tx).member = false) : s.Frame tx (s.end tx) where
  invites := Rows.by_commit ..
  membership := Rows.by_commit ..
  begun := le_rfl
  opened := fun _ _ h => (mem_opened_filter.mp h).1
  purpose := fun _ _ => rfl
  quiet := fun t ht hcreate hmember => ⟨hquiet t ht hcreate hmember, rfl⟩
  own := fun _ h => absurd rfl (mem_opened_filter.mp h).2

/-- The invite that a commit leaves was committed, or its transaction wrote it. -/
theorem Admission.Kept.invited_of_seen (h : s.Kept) {v : Invite}
    (hv : s.invites.seen tx () = some v) : s.member = false ∧ v.after = s.removals := by
  cases hlast : s.invites.lastWrite tx () with
  | none => exact h.invited v ((Rows.seen_of_unwritten hlast).symm.trans hv)
  | some row =>
      rw [Rows.seen_of_lastWrite hlast] at hv
      exact h.inviting tx v (by rw [hlast, hv])

theorem member_end (hunwritten : s.membership.lastWrite tx () = none) :
    (s.end tx).member = s.member := by
  simp only [Admission.member, Admission.end, Rows.commit_committed,
    Rows.seen_of_unwritten hunwritten]

/-- A commit that leaves the membership alone. -/
theorem Admission.Kept.end (h : s.Kept) (hunwritten : s.membership.lastWrite tx () = none) :
    (s.end tx).Kept := by
  have hmember := member_end hunwritten
  have hback : (s.rollback tx).Kept := h.rollback
  exact
    { hback with
      invited := fun v hv => by
        rw [hmember]
        exact h.invited_of_seen hv
      inviting := fun t v hv => by
        rw [hmember]
        exact hback.inviting t v hv
      written := by
        intro t row hrow
        have hwrites := hback.written t row hrow
        unfold Admission.Writes at hwrites ⊢
        rw [hmember]
        exact hwrites }

/-- **A removal leaves no invite**: there is none while the person is a member. -/
theorem Admission.Kept.removed (h : s.Kept)
    (hlast : s.membership.lastWrite tx () = some (some .removed)) :
    s.member = true ∧ ({ s.end tx with removals := s.removals + 1 } : Admission).Kept := by
  have hmember : s.member = true := by
    rcases h.written tx _ hlast with ⟨_, _, hmember⟩ | ⟨_, hrow, _⟩
    · exact hmember
    · cases hrow
  have hnone : ∀ {v}, ¬ (s.member = false ∧ v = s.removals) := by
    rintro v ⟨hfalse, _⟩
    rw [hmember] at hfalse
    cases hfalse
  have hback : (s.rollback tx).Kept := h.rollback
  refine ⟨hmember,
    { hback with
      invited := fun v hv => absurd (h.invited_of_seen hv) hnone
      inviting := fun t v hv => absurd (hback.inviting t v hv) hnone
      written := ?_ }⟩
  intro t row hrow
  obtain ⟨hne, hrow⟩ := Rows.lastWrite_rollback_eq_some hrow
  exact absurd (Rows.eq_of_holds (Rows.holds_of_lastWrite hlast) (Rows.holds_of_lastWrite hrow)) hne

/-- **An acceptance leaves no invite**: it holds the one it uses up. -/
theorem Admission.Kept.joined (h : s.Kept) {row : Option Role}
    (hlast : s.membership.lastWrite tx () = some row) (haccept : s.purpose tx = .accept) :
    (s.end tx).Kept := by
  obtain ⟨_, hrow, hholds, hused⟩ : s.purpose tx = .accept ∧ row = some .worker ∧
      s.invites.Holds tx () .exclusive ∧ s.invites.lastWrite tx () = some none := by
    rcases h.written tx _ hlast with ⟨hremove, _⟩ | hwrites
    · cases haccept.symm.trans hremove
    · exact hwrites
  have hback : (s.rollback tx).Kept := h.rollback
  refine
    { hback with
      invited := fun v hv => ?_
      inviting := fun t v hv => ?_
      written := fun t row hrow => ?_ }
  · cases (Rows.seen_of_lastWrite hused).symm.trans hv
  · obtain ⟨hne, hv⟩ := Rows.lastWrite_rollback_eq_some hv
    exact absurd (Rows.eq_of_holds hholds (Rows.holds_of_lastWrite hv)) hne
  · obtain ⟨hne, hrow⟩ := Rows.lastWrite_rollback_eq_some hrow
    exact absurd (Rows.eq_of_holds (Rows.holds_of_lastWrite hlast) (Rows.holds_of_lastWrite hrow))
      hne

end kept

/-! ## § Every task -/

section task

variable {s s' : Admission}

/-- What a task leaves. -/
def Admission.Goes (s s' : Admission) (next : Option (List AdmissionStep)) : Prop :=
  s'.Kept ∧ (∀ ts, next = some ts → ∀ u ∈ ts, u.Ok s') ∧ ∃ tx, s.Frame tx s'

theorem admission_goes_of_end {tx : ℕ} (hkept : s'.Kept) (hframe : s.Frame tx s') :
    s.Goes s' none :=
  ⟨hkept, fun _ h => (by cases h), tx, hframe⟩

theorem admission_goes_of_one {tx : ℕ} {task : AdmissionStep} (hkept : s'.Kept)
    (hframe : s.Frame tx s') (htask : task.Ok s') : s.Goes s' (some [task]) := by
  refine ⟨hkept, fun ts hts u hu => ?_, tx, hframe⟩
  cases hts
  rw [List.mem_singleton.mp hu]
  exact htask

theorem admission_ok_of_ready {tx : ℕ} {task : AdmissionStep} (htx : task.tx = some tx)
    (hlt : tx < s.begun) (hready : task.Ready s) : task.Ok s := by
  intro t ht
  rw [htx] at ht
  cases ht
  exact ⟨hlt, fun _ => hready⟩

/-- A transaction that begins with a lock or write of the invite. -/
theorem goes_begin_invite (h : s.Kept) {purpose : Purpose} {r : Rows Unit Invite}
    {task : AdmissionStep} (made : ℕ) (hext : Rows.Extends s.begun s.invites r)
    (hinviting : ∀ v, r.lastWrite s.begun () = some (some v) →
      s.member = false ∧ v.after = s.removals)
    (htx : task.tx = some s.begun)
    (hready : task.Ready { s.begin purpose with invites := r, tokensMade := made }) :
    s.Goes { s.begin purpose with invites := r, tokensMade := made } (some [task]) := by
  have hunbegun : s.invites.lastWrite s.begun () ≠ some none := fun hlast =>
    absurd (h.holds (Or.inl ⟨_, _, Rows.holds_of_lastWrite hlast⟩)) (lt_irrefl _)
  have hkept := (h.begin purpose).inviteRow (Nat.lt_succ_self _) hext hinviting
    fun _ hlast => absurd hlast hunbegun
  exact admission_goes_of_one { hkept with }
    { frame_begin_admission s purpose with
      invites := hext.by
      own := fun hlt => absurd hlt (lt_irrefl _) }
    (admission_ok_of_ready htx (Nat.lt_succ_self _) hready)

/-- `revoke`, the `send_invite` job and `accept_invite` begin with the invite's row. -/
theorem goes_invite (h : s.Kept) {task : AdmissionStep} {next : Option (List AdmissionStep)}
    (htask : (∃ id, task = .revoke id) ∨ (∃ id now, task = .sendInvite id now) ∨
      ∃ token now register, task = .accept token now register)
    (hexec : s.exec task .go = some (s', next)) : s.Goes s' next := by
  rcases htask with ⟨id, rfl⟩ | ⟨id, now, rfl⟩ | ⟨token, now, register, rfl⟩
  · simp only [Admission.exec] at hexec
    split_ifs at hexec with hfound
    · obtain ⟨r, hwrite, hr⟩ := Option.map_eq_some_iff.mp hexec
      cases hr
      refine goes_begin_invite h s.tokensMade (Rows.extends_of_write hwrite)
        (fun v hv => ?_) rfl ?_
      · rw [Rows.lastWrite_of_write hwrite, if_pos ⟨rfl, rfl⟩] at hv
        cases hv
      · simp [AdmissionStep.Ready, Admission.begin]
    · cases hexec
      exact admission_goes_of_end h (frame_refl_admission s 0)
  · simp only [Admission.exec] at hexec
    cases hv : (s.invites.committed ()).filter fun v => v.id = id with
    | none =>
        rw [hv] at hexec
        cases hexec
        exact admission_goes_of_end h (frame_refl_admission s 0)
    | some v =>
        rw [hv] at hexec
        obtain ⟨r, hwrite, hr⟩ := Option.map_eq_some_iff.mp hexec
        cases hr
        obtain ⟨hmember, hafter⟩ := h.invited v (Option.filter_eq_some_iff.mp hv).1
        refine goes_begin_invite h _ (Rows.extends_of_write hwrite) (fun w hw => ?_) rfl ?_
        · rw [Rows.lastWrite_of_write hwrite, if_pos ⟨rfl, rfl⟩] at hw
          cases hw
          exact ⟨hmember, hafter⟩
        · simp [AdmissionStep.Ready, Admission.begin]
  · simp only [Admission.exec] at hexec
    cases hv : (s.invites.committed ()).filter
        fun v => v.tokenHash = some token ∧ now < v.expiresAt with
    | none =>
        rw [hv] at hexec
        cases hexec
        exact admission_goes_of_end h (frame_refl_admission s 0)
    | some v =>
        rw [hv] at hexec
        obtain ⟨r, hlock, hr⟩ := Option.map_eq_some_iff.mp hexec
        cases hr
        have hext := Rows.extends_of_lock hlock
        refine goes_begin_invite h s.tokensMade hext (fun w hw => ?_) rfl
          ⟨if_pos rfl, Rows.holds_of_lock hlock, ?_⟩
        · rw [Rows.lastWrite_of_lock hlock] at hw
          exact h.inviting _ w hw
        · exact (congrFun hext.committed ()).trans (Option.filter_eq_some_iff.mp hv).1

theorem goes_account (h : s.Kept) {tx : ℕ} {v : Invite} {register : Bool}
    {next : Option (List AdmissionStep)} (hok : (AdmissionStep.account tx v register).Ok s)
    (hexec : s.exec (.account tx v register) .go = some (s', next)) : s.Goes s' next := by
  obtain ⟨hlt, hready⟩ := hok tx rfl
  simp only [Admission.exec] at hexec
  split_ifs at hexec with hopen hregister hknown hknown
  · cases hexec
    exact admission_goes_of_end h.rollback (frame_rollback_admission s tx)
  · obtain ⟨r, -, hr⟩ := Option.map_eq_some_iff.mp hexec
    cases hr
    exact admission_goes_of_one { h with } { frame_refl_admission s tx with }
      (admission_ok_of_ready rfl hlt (hready hopen))
  · cases hexec
    exact admission_goes_of_end h.rollback (frame_rollback_admission s tx)
  · cases hexec
    exact admission_goes_of_one h (frame_refl_admission s tx)
      (admission_ok_of_ready rfl hlt (hready hopen))

theorem goes_useUp (h : s.Kept) {tx : ℕ} {v : Invite} {next : Option (List AdmissionStep)}
    (hok : (AdmissionStep.useUp tx v).Ok s)
    (hexec : s.exec (.useUp tx v) .go = some (s', next)) : s.Goes s' next := by
  obtain ⟨hlt, hready⟩ := hok tx rfl
  simp only [Admission.exec] at hexec
  split_ifs at hexec with hopen
  obtain ⟨hpurpose, hheld, hcommitted⟩ := hready hopen
  obtain ⟨r, hwrite, hr⟩ := Option.map_eq_some_iff.mp hexec
  cases hr
  have hext := Rows.extends_of_write hwrite
  have hlast : r.lastWrite tx () = some none := by
    rw [Rows.lastWrite_of_write hwrite, if_pos ⟨rfl, rfl⟩]
  refine admission_goes_of_one (h.inviteRow hlt hext (fun w hw => ?_) fun _ _ => hlast)
    (frame_inviteRow hext fun _ _ => hlast) (admission_ok_of_ready rfl hlt
      ⟨⟨hpurpose, hext.holds hheld, (congrFun hext.committed ()).trans hcommitted⟩, hlast⟩)
  rw [hlast] at hw
  cases hw

theorem goes_join (h : s.Kept) {tx : ℕ} {v : Invite} {next : Option (List AdmissionStep)}
    (hok : (AdmissionStep.join tx v).Ok s)
    (hexec : s.exec (.join tx v) .go = some (s', next)) : s.Goes s' next := by
  obtain ⟨hlt, hready⟩ := hok tx rfl
  simp only [Admission.exec] at hexec
  split_ifs at hexec with hopen hmember
  · obtain ⟨husing, hused⟩ := hready hopen
    obtain ⟨r, hlock, hr⟩ := Option.map_eq_some_iff.mp hexec
    cases hr
    have hext := Rows.extends_of_lock hlock
    refine admission_goes_of_one (h.memberRow hlt hext fun row hrow => ?_)
      (frame_memberRow hext fun _ hlast => ?_) (admission_ok_of_ready rfl hlt ⟨husing, hused⟩)
    · exact h.written tx row (by rwa [Rows.lastWrite_of_lock hlock] at hrow)
    · rwa [Rows.lastWrite_of_lock hlock]
  · obtain ⟨husing, hused⟩ := hready hopen
    obtain ⟨r, hwrite, hr⟩ := Option.map_eq_some_iff.mp hexec
    cases hr
    have hext := Rows.extends_of_write hwrite
    refine admission_goes_of_one (h.memberRow hlt hext fun row hrow => ?_)
      (frame_memberRow hext fun hremove => ?_) (admission_ok_of_ready rfl hlt ⟨husing, hused⟩)
    · rw [Rows.lastWrite_of_write hwrite, if_pos ⟨rfl, rfl⟩] at hrow
      cases hrow
      exact Or.inr ⟨husing.1, rfl, husing.2.1, hused⟩
    · cases husing.1.symm.trans hremove

/-- A commit of an acceptance under no `create` that has looked, or of one that leaves
the membership alone. -/
theorem goes_accepted (h : s.Kept) {tx : ℕ} {v : Invite} {next : Option (List AdmissionStep)}
    (hok : (AdmissionStep.accepted tx v).Ok s)
    (hmay : ¬ (s.joins (.accepted tx v) .go ∧ s.looking))
    (hexec : s.exec (.accepted tx v) .go = some (s', next)) : s.Goes s' next := by
  obtain ⟨hlt, hready⟩ := hok tx rfl
  simp only [Admission.exec] at hexec
  by_cases hopen : tx ∈ s.opened
  swap
  · rw [if_neg hopen] at hexec
    cases hexec
  rw [if_pos hopen] at hexec
  cases hexec
  obtain ⟨⟨hpurpose, hheld, hcommitted⟩, hused⟩ := hready hopen
  have hafter := (h.invited v hcommitted).2
  have hlog : ∀ e ∈ (if s.revives tx then (⟨v.after, s.removals⟩ : Revived) :: s.log else s.log),
      e.after = e.removals := by
    intro e he
    split_ifs at he
    · rcases List.mem_cons.mp he with rfl | he
      · exact hafter
      · exact h.log e he
    · exact h.log e he
  cases hlast : s.membership.lastWrite tx () with
  | none =>
      exact admission_goes_of_end { h.end hlast with log := hlog }
        { frame_end_admission s tx fun _ _ _ hmember => (member_end hlast).trans hmember with }
  | some row =>
      refine admission_goes_of_end { h.joined hlast hpurpose with log := hlog }
        { frame_end_admission s tx fun t ht hcreate _ => ?_ with }
      -- A `create` that has written its invite holds the row that this one holds.
      have hwritten : s.invites.lastWrite t () ≠ none := fun hnone =>
        hmay ⟨by simp [Admission.joins, hlast], t, ht, hcreate, hnone⟩
      obtain ⟨row', hrow'⟩ := Option.ne_none_iff_exists'.mp hwritten
      have heq := Rows.eq_of_holds hheld (Rows.holds_of_lastWrite hrow')
      cases (heq ▸ hcreate).symm.trans hpurpose

/-- **One task.** -/
theorem admission_goes_exec (h : s.Kept) {task : AdmissionStep} {turn : AdmissionTurn}
    {next : Option (List AdmissionStep)} (hok : task.Ok s)
    (hmay : ¬ (s.joins task turn ∧ s.looking))
    (hexec : s.exec task turn = some (s', next)) : s.Goes s' next := by
  cases turn with
  | stop =>
      simp only [Admission.exec] at hexec
      split at hexec
      · cases hexec
        exact admission_goes_of_end h (frame_refl_admission s 0)
      · split_ifs at hexec
        cases hexec
        exact admission_goes_of_end h.rollback (frame_rollback_admission s _)
  | go =>
      cases task with
      | create now =>
          simp only [Admission.exec] at hexec
          split_ifs at hexec with hmember
          · cases hexec
            exact admission_goes_of_end h (frame_refl_admission s 0)
          · cases hexec
            exact admission_goes_of_one (h.begin _) (frame_begin_admission s _)
              (admission_ok_of_ready rfl (Nat.lt_succ_self _)
                ⟨if_pos rfl, Bool.eq_false_iff.mpr hmember, rfl⟩)
      | upsert tx now after =>
          obtain ⟨hlt, hready⟩ := hok tx rfl
          simp only [Admission.exec] at hexec
          split_ifs at hexec with hopen
          obtain ⟨hcreate, hmember, hafter⟩ := hready hopen
          obtain ⟨r, hwrite, hr⟩ := Option.map_eq_some_iff.mp hexec
          cases hr
          have hext := Rows.extends_of_write hwrite
          have hnever : ∀ {p : Prop}, s.purpose tx = .accept → p := fun haccept => by
            cases hcreate.symm.trans haccept
          refine admission_goes_of_one
            { h.inviteRow hlt hext (fun v hv => ?_) fun haccept => hnever haccept with }
            { frame_inviteRow hext fun haccept => hnever haccept with }
            (admission_ok_of_ready rfl hlt ?_)
          · rw [Rows.lastWrite_of_write hwrite, if_pos ⟨rfl, rfl⟩] at hv
            cases hv
            exact ⟨hmember, hafter⟩
          · simp [AdmissionStep.Ready, hcreate]
      | revoke id => exact goes_invite h (Or.inl ⟨id, rfl⟩) hexec
      | sendInvite id now => exact goes_invite h (Or.inr (Or.inl ⟨id, now, rfl⟩)) hexec
      | accept token now register =>
          exact goes_invite h (Or.inr (Or.inr ⟨token, now, register, rfl⟩)) hexec
      | commit tx =>
          obtain ⟨hlt, hready⟩ := hok tx rfl
          simp only [Admission.exec] at hexec
          split_ifs at hexec with hopen
          cases hexec
          obtain ⟨haccept, hremove⟩ := hready hopen
          have hunwritten : s.membership.lastWrite tx () = none := by
            by_contra hwritten
            obtain ⟨row, hrow⟩ := Option.ne_none_iff_exists'.mp hwritten
            rcases h.written tx row hrow with hwrites | hwrites
            · exact hremove hwrites.1
            · exact haccept hwrites.1
          exact admission_goes_of_end (h.end hunwritten)
            (frame_end_admission s tx fun _ _ _ hmember => (member_end hunwritten).trans hmember)
      | account tx v register => exact goes_account h hok hexec
      | useUp tx v => exact goes_useUp h hok hexec
      | join tx v => exact goes_join h hok hexec
      | accepted tx v => exact goes_accepted h hok hmay hexec
      | remove =>
          simp only [Admission.exec] at hexec
          split_ifs at hexec with hmember
          · obtain ⟨r, hlock, hr⟩ := Option.map_eq_some_iff.mp hexec
            cases hr
            have hext := Rows.extends_of_lock hlock
            have hlast : r.lastWrite s.begun () = s.membership.lastWrite s.begun () :=
              Rows.lastWrite_of_lock hlock
            have hkept := (h.begin .remove).memberRow (Nat.lt_succ_self _) hext fun row hrow =>
              (h.begin .remove).written s.begun row (hlast.symm.trans hrow)
            refine admission_goes_of_one hkept
              { frame_begin_admission s .remove with
                membership := hext.by
                quiet := fun _ _ _ hmember' => absurd (hmember'.symm.trans hmember) (by decide)
                own := fun hlt => absurd hlt (lt_irrefl _) }
              (admission_ok_of_ready rfl (Nat.lt_succ_self _)
                ⟨if_pos rfl, Rows.holds_of_lock hlock, ?_⟩)
            rw [member_of_extends (s := s.begin .remove) hext]
            exact hmember
          · cases hexec
            exact admission_goes_of_end h (frame_refl_admission s 0)
      | endMembership tx =>
          obtain ⟨hlt, hready⟩ := hok tx rfl
          simp only [Admission.exec] at hexec
          split_ifs at hexec with hopen
          obtain ⟨hremove, hheld, hmember⟩ := hready hopen
          obtain ⟨r, hwrite, hr⟩ := Option.map_eq_some_iff.mp hexec
          cases hr
          have hext := Rows.extends_of_write hwrite
          have hlast : r.lastWrite tx () = some (some .removed) := by
            rw [Rows.lastWrite_of_write hwrite, if_pos ⟨rfl, rfl⟩]
          refine admission_goes_of_one (h.memberRow hlt hext fun row hrow => ?_)
            (frame_memberRow hext fun _ _ => hlast) (admission_ok_of_ready rfl hlt ⟨hremove, hlast⟩)
          exact Or.inl ⟨hremove, Option.some.inj (hrow.symm.trans hlast), hmember⟩
      | removed tx =>
          obtain ⟨hlt, hready⟩ := hok tx rfl
          simp only [Admission.exec] at hexec
          split_ifs at hexec with hopen
          cases hexec
          obtain ⟨hmember, hkept⟩ := h.removed (hready hopen).2
          have hframe := frame_rollback_admission s tx
          exact admission_goes_of_end hkept
            { invites := Rows.by_commit ..
              membership := Rows.by_commit ..
              begun := le_rfl
              opened := hframe.opened
              purpose := hframe.purpose
              quiet := fun _ _ _ hmember' => absurd (hmember'.symm.trans hmember) (by decide)
              own := fun _ h => absurd rfl (mem_opened_filter.mp h).2 }

/-- **Step.** -/
theorem admission_step {p p' : AdmissionPool} {m : AdmissionMove}
    (h : Pool.Invariant Admission.Kept (fun s task => task.Ok s) p)
    (hmay : ¬ AdmissionPool.overtakes p m) (hstep : Pool.step admission p m = some p') :
    Pool.Invariant Admission.Kept (fun s task => task.Ok s) p' := by
  refine Pool.invariant_step_of (fun s t a => ¬ (s.joins t a ∧ s.looking)) ?_ ?_ ?_ ?_
    h hstep
  · rintro i turn task rest rfl hthread hboth
    exact hmay ⟨task, by simp [hthread], hboth⟩
  · exact fun _ _ e => e.elim
  · intro s request s' ts hkept hstart
    cases hstart
    refine ⟨hkept, fun t ht => ?_, fun _ hu => hu⟩
    rw [List.mem_singleton.mp ht]
    intro tx htx
    cases request <;> cases htx
  · intro s t turn s' next hkept hok hmay hexec
    obtain ⟨hkept', hnext, tx, hframe⟩ := admission_goes_exec hkept hok hmay hexec
    exact ⟨hkept', hnext, fun u hu => hframe.ok hu⟩

end task

theorem kept_start_admission (account : Bool) (role : Option Role) :
    (Admission.start account role).Kept := by
  constructor <;> simp [Admission.start, Rows.start, Rows.lastWrite, Rows.Holds]

/-- **A new invitation.** In runs where no acceptance commits a membership between a
`create`'s look for a member and its writing of the invite, every acceptance that
brought a removed member back used an invite whose `create` looked after the last
removal had committed. -/
theorem revived_by_new_invite {account : Bool} {role : Option Role} {ms : List AdmissionMove}
    {p : AdmissionPool}
    (hrun : AdmissionPool.run (Pool.empty (Admission.start account role)) ms = some p)
    (halong : Runs.Along (Pool.step admission) (fun p m => ¬ AdmissionPool.overtakes p m)
      (Pool.empty (Admission.start account role)) ms) :
    ∀ e ∈ p.shared.log, e.after = e.removals := by
  have hstart : Pool.Invariant Admission.Kept (fun s (task : AdmissionStep) => task.Ok s)
      (Pool.empty (Admission.start account role)) :=
    Pool.invariant_empty (kept_start_admission account role)
  exact (Runs.run_invariant (fun _ _ _ h hok => admission_step h hok) hstart halong
    hrun).shared.log

/-- A request that runs to its end. -/
def requestOf (i : ℕ) (request : AdmissionRequest) (tasks : ℕ) : List AdmissionMove :=
  .start request :: List.replicate tasks (.go i .go)

/-- A person invited, who joins, is removed, invited again and comes back. -/
def invitedBack : List AdmissionMove :=
  List.flatten [requestOf 0 (.create 0) 3, requestOf 1 (.sendInvite 0 1) 2,
    requestOf 2 (.accept 0 2 false) 5, requestOf 3 .remove 3, requestOf 4 (.create 3) 3,
    requestOf 5 (.sendInvite 1 4) 2, requestOf 6 (.accept 1 5 false) 5]

theorem revived_by_new_invite_back :
    ∃ p, AdmissionPool.run (Pool.empty (Admission.start true none)) invitedBack = some p ∧
      p.shared.log = [⟨1, 1⟩] ∧ ∀ e ∈ p.shared.log, e.after = e.removals := by
  have hruns : (AdmissionPool.run (Pool.empty (Admission.start true none)) invitedBack).any
      (fun p => p.shared.log = [⟨1, 1⟩]) = true := by decide +kernel
  have halong : Runs.Along (Pool.step admission) (fun p m => ¬ AdmissionPool.overtakes p m)
      (Pool.empty (Admission.start true none)) invitedBack := by decide +kernel
  obtain ⟨p, hrun, hlog⟩ := (Option.any_eq_true _ _).mp hruns
  exact ⟨p, hrun, of_decide_eq_true hlog, revived_by_new_invite hrun halong⟩

/-- A second `create` looks for a member; the person accepts the first one's invite; the
`create` writes another; the person is removed, and accepts that one. -/
def invitedAcross : List AdmissionMove :=
  List.flatten [requestOf 0 (.create 0) 3, requestOf 1 (.sendInvite 0 1) 2,
    requestOf 2 (.create 2) 1, requestOf 3 (.accept 0 3 false) 5, [.go 2 .go, .go 2 .go],
    requestOf 4 .remove 3, requestOf 5 (.sendInvite 1 4) 2, requestOf 6 (.accept 1 5 false) 5]

/-- The removed member comes back by an invite from before the removal. -/
theorem revived_by_old_invite :
    ∃ p, AdmissionPool.run (Pool.empty (Admission.start true none)) invitedAcross = some p ∧
      ∃ e ∈ p.shared.log, e.after < e.removals := by
  have hruns : (AdmissionPool.run (Pool.empty (Admission.start true none)) invitedAcross).any
      (fun p => ∃ e ∈ p.shared.log, e.after < e.removals) = true := by decide +kernel
  obtain ⟨p, hrun, hlog⟩ := (Option.any_eq_true _ _).mp hruns
  exact ⟨p, hrun, of_decide_eq_true hlog⟩

end Ziftbook
