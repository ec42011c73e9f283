import Ziftbook.Accounts.SignIn

/-!
# A password reset closes every door

A sign-in holds the stored hash shared from its check to its commit, a reset holds it
exclusively from its write to its commit. So no session is committed on a hash from
the moment a reset has replaced it, and the reset's own deletes find all that were
committed before.
-/

namespace Ziftbook

open Foundation

variable {H : Type*}

/-! ## § The invariant -/

/-- The transaction has used the link. -/
def Doors.Using (s : Doors H) (tx token : ℕ) : Prop :=
  tx ∈ s.resetting ∧ s.tokens.lastWrite tx token = some none ∧ s.tokens.committed token ≠ none

/-- The transaction has replaced the hash. -/
def Doors.Wrote (newHash : ℕ → H) (s : Doors H) (tx : ℕ) (old : Option H) : Prop :=
  s.credentials.lastWrite tx () = some (some (newHash tx)) ∧ s.credentials.committed () = old

/-- The transaction has deleted every session of the kind. -/
def Doors.Ended (s : Doors H) (tx : ℕ) (kind : SessionKind) : Prop :=
  ∀ id x, s.sessions.committed id = some x → x.kind = kind → s.sessions.lastWrite tx id = some none

/-- What an open transaction has done before the task. -/
def DoorTask.Ready (newHash : ℕ → H) (s : Doors H) : DoorTask H → Prop
  | .read _ | .verify .. | .useToken .. => True
  | .signIn tx _ _ => tx ∉ s.resetting
  | .insert tx hash _ => tx ∉ s.resetting ∧ s.credentials.Holds tx () .share ∧
      s.credentials.committed () = some hash
  | .setPassword tx token => s.Using tx token
  | .listSessions tx token old kind => s.Using tx token ∧ s.Wrote newHash tx old ∧
      (kind = .account → s.Ended tx .business)
  | .endSessions tx token old kind ids => s.Using tx token ∧ s.Wrote newHash tx old ∧
      (kind = .account → s.Ended tx .business) ∧
      ∀ id x, s.sessions.committed id = some x → x.kind = kind →
        id ∈ ids ∨ s.sessions.lastWrite tx id = some none
  | .clearTokens tx token old | .finish tx token old => s.Using tx token ∧ s.Wrote newHash tx old ∧
      s.Ended tx .business ∧ s.Ended tx .account

def DoorTask.Ok (newHash : ℕ → H) (s : Doors H) (task : DoorTask H) : Prop :=
  ∀ tx ∈ task.tx, tx < s.begun ∧ (tx ∈ s.opened → task.Ready newHash s)

structure Doors.Kept (newHash : ℕ → H) (initial : Option H) (s : Doors H) : Prop where
  /-- Transactions have numbers that were given out, and so have links and sessions. -/
  opened : ∀ t ∈ s.opened, t < s.begun
  resetting : ∀ t ∈ s.resetting, t < s.begun
  holds : ∀ {t}, (∃ k x, s.credentials.Holds t k x) ∨ (∃ k x, s.tokens.Holds t k x) ∨
    (∃ k x, s.sessions.Holds t k x) → t < s.begun
  minted : ∀ id, s.tokens.committed id ≠ none → id < s.minted
  started : ∀ id, s.sessions.committed id ≠ none → id < s.started
  starting_lt : ∀ t id x, s.sessions.lastWrite t id = some (some x) → id < s.started
  /-- Only resets write the hash, each its own. -/
  written : ∀ t v, s.credentials.lastWrite t () = some v → v = some (newHash t) ∧ t ∈ s.resetting
  /-- Links are only deleted. -/
  used : ∀ t id v, s.tokens.lastWrite t id = some v → v = none
  /-- Every session is of the stored hash. -/
  sessions : ∀ id x, s.sessions.committed id = some x →
    s.credentials.committed () = some x.startedOn
  starting : ∀ t id x, s.sessions.lastWrite t id = some (some x) →
    t ∉ s.resetting ∧ s.credentials.Holds t () .share ∧
      s.credentials.committed () = some x.startedOn
  /-- Resets have finished, and their links are gone. -/
  finished : ∀ r ∈ s.resets, r.tx < s.begun ∧ r.tx ∉ s.opened
  gone : ∀ r ∈ s.resets, s.tokens.committed r.token = none ∧ r.token < s.minted
  once : (s.resets.map Reset.token).Nodup
  hashes : ∀ h, (s.credentials.committed () = some h ∨ ∃ r ∈ s.resets, r.old = some h) →
    initial = some h ∨ ∃ r ∈ s.resets, h = newHash r.tx
  replaced : ∀ r ∈ s.resets, ∀ h, r.old = some h → s.credentials.committed () ≠ some h

/-! ## § What a step leaves -/

/-- A step of the transaction: its effect on what other transactions rely on, and on
what it relies on itself if it goes on. -/
structure Doors.Frame (tx : ℕ) (s s' : Doors H) : Prop where
  credentials : Rows.By tx s.credentials s'.credentials
  tokens : Rows.By tx s.tokens s'.tokens
  begun : s.begun ≤ s'.begun
  opened : ∀ t < s.begun, t ∈ s'.opened → t ∈ s.opened
  resetting : ∀ t < s.begun, t ∈ s'.resetting ↔ t ∈ s.resetting
  others : ∀ t ≠ tx, ∀ id, s'.sessions.lastWrite t id = s.sessions.lastWrite t id
  published : ∀ id x, s'.sessions.committed id = some x →
    s.sessions.committed id = some x ∨ s.sessions.lastWrite tx id = some (some x)
  own : tx < s.begun → tx ∈ s'.opened →
    (Rows.Extends tx s.credentials s'.credentials ∧
      ∀ v, s.credentials.lastWrite tx () = some v → s'.credentials.lastWrite tx () = some v) ∧
    (Rows.Extends tx s.tokens s'.tokens ∧
      ∀ id, s.tokens.lastWrite tx id = some none → s'.tokens.lastWrite tx id = some none) ∧
    s'.sessions.committed = s.sessions.committed ∧
    (tx ∈ s.resetting → ∀ id, s.sessions.lastWrite tx id = some none →
      s'.sessions.lastWrite tx id = some none)

section frame

variable {newHash : ℕ → H} {initial : Option H} {s s' : Doors H} {tx t token : ℕ} {old : Option H}

/-- While a reset has replaced the hash, no other transaction publishes a session. -/
theorem Doors.Frame.committed_of_wrote (h : s.Frame tx s') (hkept : s.Kept newHash initial)
    (hlt : t < s.begun) (hopen : t ∈ s'.opened) (hwrote : s.Wrote newHash t old) {id : ℕ}
    {x : SignedIn H} (hx : s'.sessions.committed id = some x) :
    s.sessions.committed id = some x := by
  by_cases heq : t = tx
  · subst heq
    rw [← (h.own hlt hopen).2.2.1]
    exact hx
  · rcases h.published id x hx with hx | hx
    · exact hx
    · have hshare := (hkept.starting tx id x hx).2.1
      exact absurd (Rows.eq_of_holds (Rows.holds_of_lastWrite hwrote.1) hshare).symm heq

theorem Doors.Frame.using (h : s.Frame tx s') (hlt : t < s.begun) (hopen : t ∈ s'.opened)
    (husing : s.Using t token) : s'.Using t token := by
  obtain ⟨hresetting, hlast, hcommitted⟩ := husing
  refine ⟨(h.resetting t hlt).mpr hresetting, ?_, ?_⟩
  · by_cases heq : t = tx
    · subst heq
      exact (h.own hlt hopen).2.1.2 _ hlast
    · rw [h.tokens.lastWrite heq]
      exact hlast
  · by_cases heq : t = tx
    · subst heq
      rw [(h.own hlt hopen).2.1.1.committed]
      exact hcommitted
    · rw [h.tokens.committed heq (Rows.holds_of_lastWrite hlast)]
      exact hcommitted

theorem Doors.Frame.wrote (h : s.Frame tx s') (hlt : t < s.begun) (hopen : t ∈ s'.opened)
    (hwrote : s.Wrote newHash t old) : s'.Wrote newHash t old := by
  obtain ⟨hlast, hcommitted⟩ := hwrote
  by_cases heq : t = tx
  · subst heq
    obtain ⟨hextends, hsame⟩ := (h.own hlt hopen).1
    exact ⟨hsame _ hlast, by rw [hextends.committed]; exact hcommitted⟩
  · refine ⟨by rw [h.credentials.lastWrite heq]; exact hlast, ?_⟩
    rw [h.credentials.committed heq (Rows.holds_of_lastWrite hlast)]
    exact hcommitted

/-- What the transaction has deleted of the sessions stays deleted. -/
theorem Doors.Frame.deleted (h : s.Frame tx s') (hlt : t < s.begun) (hopen : t ∈ s'.opened)
    (hresetting : t ∈ s.resetting) {id : ℕ} (hlast : s.sessions.lastWrite t id = some none) :
    s'.sessions.lastWrite t id = some none := by
  by_cases heq : t = tx
  · subst heq
    exact (h.own hlt hopen).2.2.2 hresetting id hlast
  · rw [h.others t heq]
    exact hlast

theorem Doors.Frame.ended (h : s.Frame tx s') (hkept : s.Kept newHash initial)
    (hlt : t < s.begun) (hopen : t ∈ s'.opened) (hresetting : t ∈ s.resetting)
    (hwrote : s.Wrote newHash t old) {kind : SessionKind} (hended : s.Ended t kind) :
    s'.Ended t kind := by
  intro id x hx hkind
  have hold := h.committed_of_wrote hkept hlt hopen hwrote hx
  exact h.deleted hlt hopen hresetting (hended id x hold hkind)

/-- **Frame.** What a task relies on survives every step but its own transaction's
end. -/
theorem Doors.Frame.ok (h : s.Frame tx s') (hkept : s.Kept newHash initial) {task : DoorTask H}
    (hok : task.Ok newHash s) : task.Ok newHash s' := by
  intro t ht
  obtain ⟨hlt, hready⟩ := hok t ht
  refine ⟨hlt.trans_le h.begun, fun hopen => ?_⟩
  have hready := hready (h.opened t hlt hopen)
  cases task with
  | read _ => trivial
  | verify => trivial
  | useToken => trivial
  | signIn tx' hash statements =>
      cases ht
      exact fun hin => hready ((h.resetting t hlt).mp hin)
  | insert tx' hash kind =>
      cases ht
      obtain ⟨hnot, hshare, hcommitted⟩ := hready
      refine ⟨fun hin => hnot ((h.resetting t hlt).mp hin), ?_⟩
      by_cases heq : t = tx
      · subst heq
        obtain ⟨hextends, _⟩ := (h.own hlt hopen).1
        exact ⟨hextends.holds hshare, by rw [hextends.committed]; exact hcommitted⟩
      · exact ⟨(h.credentials.holds heq).mpr hshare,
          by rw [h.credentials.committed heq hshare]; exact hcommitted⟩
  | setPassword tx' token =>
      cases ht
      exact h.using hlt hopen hready
  | listSessions tx' token old kind =>
      cases ht
      obtain ⟨husing, hwrote, hended⟩ := hready
      exact ⟨h.using hlt hopen husing, h.wrote hlt hopen hwrote,
        fun hkind => h.ended hkept hlt hopen husing.1 hwrote (hended hkind)⟩
  | endSessions tx' token old kind ids =>
      cases ht
      obtain ⟨husing, hwrote, hended, hids⟩ := hready
      refine ⟨h.using hlt hopen husing, h.wrote hlt hopen hwrote,
        fun hkind => h.ended hkept hlt hopen husing.1 hwrote (hended hkind),
        fun id x hx hkind => ?_⟩
      exact (hids id x (h.committed_of_wrote hkept hlt hopen hwrote hx) hkind).imp_right
        (h.deleted hlt hopen husing.1)
  | clearTokens tx' token old =>
      cases ht
      obtain ⟨husing, hwrote, hbusiness, haccount⟩ := hready
      exact ⟨h.using hlt hopen husing, h.wrote hlt hopen hwrote,
        h.ended hkept hlt hopen husing.1 hwrote hbusiness,
        h.ended hkept hlt hopen husing.1 hwrote haccount⟩
  | finish tx' token old =>
      cases ht
      obtain ⟨husing, hwrote, hbusiness, haccount⟩ := hready
      exact ⟨h.using hlt hopen husing, h.wrote hlt hopen hwrote,
        h.ended hkept hlt hopen husing.1 hwrote hbusiness,
        h.ended hkept hlt hopen husing.1 hwrote haccount⟩

end frame

/-! ## § Ending a transaction -/

section ending

variable {newHash : ℕ → H} {initial : Option H} {s : Doors H} {tx : ℕ}

theorem frame_rollback (s : Doors H) (tx : ℕ) : s.Frame tx (s.rollback tx) where
  credentials := Rows.by_rollback ..
  tokens := Rows.by_rollback ..
  begun := le_rfl
  opened := fun _ _ h => (mem_opened_filter.mp h).1
  resetting := fun _ _ => Iff.rfl
  others := fun _ hne _ => Rows.lastWrite_rollback hne
  published := fun _ _ h => Or.inl h
  own := fun _ h => absurd rfl (mem_opened_filter.mp h).2

theorem frame_commit (s : Doors H) (tx : ℕ) : s.Frame tx (s.commit tx) where
  credentials := Rows.by_commit ..
  tokens := Rows.by_commit ..
  begun := le_rfl
  opened := fun _ _ h => (mem_opened_filter.mp h).1
  resetting := fun _ _ => Iff.rfl
  others := fun _ hne _ => Rows.lastWrite_rollback hne
  published := by
    intro id x h
    have h : s.sessions.seen tx id = some x := h
    cases hlast : s.sessions.lastWrite tx id with
    | none => exact Or.inl ((Rows.seen_of_unwritten hlast).symm.trans h)
    | some row => exact Or.inr (by rw [← h, Rows.seen_of_lastWrite hlast])
  own := fun _ h => absurd rfl (mem_opened_filter.mp h).2

theorem Doors.Kept.rollback (h : s.Kept newHash initial) : (s.rollback tx).Kept newHash initial :=
  { h with
    opened := fun t ht => h.opened t (mem_opened_filter.mp ht).1
    holds := by
      rintro t (⟨k, x, hx⟩ | ⟨k, x, hx⟩ | ⟨k, x, hx⟩)
      · exact h.holds (Or.inl ⟨k, x, (Rows.holds_rollback.mp hx).1⟩)
      · exact h.holds (Or.inr (Or.inl ⟨k, x, (Rows.holds_rollback.mp hx).1⟩))
      · exact h.holds (Or.inr (Or.inr ⟨k, x, (Rows.holds_rollback.mp hx).1⟩))
    starting_lt := fun t id x hx =>
      h.starting_lt t id x (Rows.lastWrite_rollback_eq_some hx).2
    written := fun t v hv => h.written t v (Rows.lastWrite_rollback_eq_some hv).2
    used := fun t id v hv => h.used t id v (Rows.lastWrite_rollback_eq_some hv).2
    starting := by
      intro t id x hx
      obtain ⟨hne, hx⟩ := Rows.lastWrite_rollback_eq_some hx
      obtain ⟨hnot, hshare, hcommitted⟩ := h.starting t id x hx
      exact ⟨hnot, Rows.holds_rollback.mpr ⟨hshare, hne⟩, hcommitted⟩
    finished := fun r hr => ⟨(h.finished r hr).1, fun hin =>
      (h.finished r hr).2 (mem_opened_filter.mp hin).1⟩ }

/-- A commit publishes no link. -/
theorem Doors.Kept.seen_token (h : s.Kept newHash initial) {id : ℕ}
    (hseen : s.tokens.seen tx id ≠ none) : s.tokens.committed id ≠ none := by
  cases hlast : s.tokens.lastWrite tx id with
  | none => rwa [Rows.seen_of_unwritten hlast] at hseen
  | some v =>
      rw [Rows.seen_of_lastWrite hlast, h.used tx id v hlast] at hseen
      exact absurd rfl hseen

/-- A sign-in's commit publishes sessions of the stored hash. -/
theorem Doors.Kept.commit (h : s.Kept newHash initial) (hnot : tx ∉ s.resetting) :
    (s.commit tx).Kept newHash initial := by
  have hsame : (s.commit tx).credentials.committed () = s.credentials.committed () := by
    apply Rows.seen_of_unwritten
    by_contra hwritten
    obtain ⟨v, hv⟩ := Option.ne_none_iff_exists'.mp hwritten
    exact hnot (h.written tx v hv).2
  have hback : (s.rollback tx).Kept newHash initial := h.rollback
  refine
    { hback with
      minted := fun id hid => h.minted id (h.seen_token hid)
      started := ?_, sessions := ?_, starting := ?_, gone := ?_, hashes := ?_, replaced := ?_ }
  · intro id hid
    have hid : s.sessions.seen tx id ≠ none := hid
    cases hlast : s.sessions.lastWrite tx id with
    | none => exact h.started id (by rwa [Rows.seen_of_unwritten hlast] at hid)
    | some row =>
        rw [Rows.seen_of_lastWrite hlast] at hid
        obtain ⟨x, rfl⟩ := Option.ne_none_iff_exists'.mp hid
        exact h.starting_lt tx id x hlast
  · intro id x hx
    rw [hsame]
    rcases (frame_commit s tx).published id x hx with hx | hx
    · exact h.sessions id x hx
    · exact (h.starting tx id x hx).2.2
  · intro t id x hx
    obtain ⟨hnot', hshare, hcommitted⟩ := hback.starting t id x hx
    exact ⟨hnot', hshare, hsame.trans hcommitted⟩
  · intro r hr
    refine ⟨?_, (h.gone r hr).2⟩
    by_contra hsome
    exact h.seen_token hsome (h.gone r hr).1
  · intro x hx
    rw [hsame] at hx
    exact h.hashes x hx
  · intro r hr x hx
    rw [hsame]
    exact h.replaced r hr x hx

/-- A reset's commit: no session is left, and none is on its way. -/
theorem Doors.Kept.finish (h : s.Kept newHash initial) (hinj : Function.Injective newHash)
    (hinitial : ∀ t, initial ≠ some (newHash t)) {token : ℕ} {old : Option H}
    (hopen : tx ∈ s.opened)
    (hready : (DoorTask.finish tx token old).Ready newHash s) :
    ({ s.commit tx with resets := ⟨tx, token, old⟩ :: s.resets } : Doors H).Kept newHash
      initial := by
  obtain ⟨⟨hresetting, hlink, hlive⟩, ⟨hwrote, hold⟩, hbusiness, haccount⟩ := hready
  have hhash : s.credentials.seen tx () = some (newHash tx) := Rows.seen_of_lastWrite hwrote
  have hnone : ∀ id, s.sessions.seen tx id = none := by
    intro id
    cases hlast : s.sessions.lastWrite tx id with
    | none =>
        rw [Rows.seen_of_unwritten hlast]
        by_contra hsome
        obtain ⟨x, hx⟩ := Option.ne_none_iff_exists'.mp hsome
        have hdeleted : s.sessions.lastWrite tx id = some none := by
          cases hkind : x.kind with
          | business => exact hbusiness id x hx hkind
          | account => exact haccount id x hx hkind
        rw [hlast] at hdeleted
        cases hdeleted
    | some row =>
        rw [Rows.seen_of_lastWrite hlast]
        by_contra hsome
        obtain ⟨x, rfl⟩ := Option.ne_none_iff_exists'.mp hsome
        exact (h.starting tx id x hlast).1 hresetting
  -- A hash in use is the first one or an earlier reset's, so not this reset's.
  have hother : ∀ x, (s.credentials.committed () = some x ∨ ∃ r ∈ s.resets, r.old = some x) →
      x ≠ newHash tx := by
    rintro x hx rfl
    rcases h.hashes _ hx with hfirst | ⟨r, hr, heq⟩
    · exact hinitial tx hfirst
    · exact (h.finished r hr).2 (hinj heq ▸ hopen)
  have hback : (s.rollback tx).Kept newHash initial := h.rollback
  refine
    { hback with
      minted := fun id hid => h.minted id (h.seen_token hid)
      started := fun id hid => absurd (hnone id) hid
      sessions := fun id x hx => ?_, starting := ?_, finished := ?_, gone := ?_, once := ?_
      hashes := ?_, replaced := ?_ }
  · cases (hnone id).symm.trans hx
  · intro t id x hx
    obtain ⟨hne, hx⟩ := Rows.lastWrite_rollback_eq_some hx
    have hshare := (h.starting t id x hx).2.1
    exact absurd (Rows.eq_of_holds (Rows.holds_of_lastWrite hwrote) hshare) hne
  · intro r hr
    rcases List.mem_cons.mp hr with rfl | hr
    · exact ⟨h.opened _ hopen, fun hin => (mem_opened_filter.mp hin).2 rfl⟩
    · exact hback.finished r hr
  · intro r hr
    rcases List.mem_cons.mp hr with rfl | hr
    · exact ⟨Rows.seen_of_lastWrite hlink, h.minted token hlive⟩
    · refine ⟨?_, (h.gone r hr).2⟩
      by_contra hsome
      exact h.seen_token hsome (h.gone r hr).1
  · refine List.nodup_cons.mpr ⟨fun hin => ?_, h.once⟩
    obtain ⟨r, hr, heq⟩ := List.mem_map.mp hin
    have heq : r.token = token := heq
    exact hlive (heq ▸ (h.gone r hr).1)
  · rintro x (hx | ⟨r, hr, hx⟩)
    · refine Or.inr ⟨_, List.mem_cons_self .., ?_⟩
      exact (Option.some.inj (hhash.symm.trans hx)).symm
    · have hused : initial = some x ∨ ∃ r ∈ s.resets, x = newHash r.tx := by
        rcases List.mem_cons.mp hr with rfl | hr
        · exact h.hashes x (Or.inl (hold.trans hx))
        · exact h.hashes x (Or.inr ⟨r, hr, hx⟩)
      exact hused.imp_right fun ⟨r, hr, heq⟩ => ⟨r, List.mem_cons_of_mem _ hr, heq⟩
  · intro r hr x hx hnow
    have hx' : x = newHash tx := (Option.some.inj (hhash.symm.trans hnow)).symm
    rcases List.mem_cons.mp hr with rfl | hr
    · exact hother x (Or.inl (hold.trans hx)) hx'
    · exact hother x (Or.inr ⟨r, hr, hx⟩) hx'

end ending

/-! ## § Going on -/

section going

variable {newHash : ℕ → H} {initial : Option H} {s : Doors H} {tx : ℕ}

theorem Doors.Kept.begin (h : s.Kept newHash initial) : s.begin.Kept newHash initial :=
  { h with
    opened := by
      intro t ht
      rcases List.mem_cons.mp ht with rfl | ht
      · exact Nat.lt_succ_self _
      · exact (h.opened t ht).trans (Nat.lt_succ_self _)
    resetting := fun t ht => (h.resetting t ht).trans (Nat.lt_succ_self _)
    holds := fun hx => (h.holds hx).trans (Nat.lt_succ_self _)
    finished := by
      intro r hr
      obtain ⟨hlt, hnot⟩ := h.finished r hr
      refine ⟨hlt.trans (Nat.lt_succ_self _), fun hin => ?_⟩
      rcases List.mem_cons.mp hin with heq | hin
      · exact absurd heq hlt.ne
      · exact hnot hin }

theorem frame_begin (s : Doors H) : s.Frame s.begun s.begin where
  credentials := Rows.By.refl ..
  tokens := Rows.By.refl ..
  begun := Nat.le_succ _
  opened := by
    intro t hlt ht
    rcases List.mem_cons.mp ht with rfl | ht
    · exact absurd hlt (lt_irrefl _)
    · exact ht
  resetting := fun _ _ => Iff.rfl
  others := fun _ _ _ => rfl
  published := fun _ _ hx => Or.inl hx
  own := fun hlt => absurd hlt (lt_irrefl _)

/-- The transaction locks or writes the hash. -/
theorem Doors.Kept.credentials (h : s.Kept newHash initial) (hlt : tx < s.begun)
    {r : Rows Unit H} (hext : Rows.Extends tx s.credentials r)
    (hwritten : ∀ v, r.lastWrite tx () = some v → v = some (newHash tx) ∧ tx ∈ s.resetting) :
    ({ s with credentials := r } : Doors H).Kept newHash initial :=
  { h with
    holds := by
      intro t hx
      by_cases heq : t = tx
      · exact heq ▸ hlt
      · exact h.holds (hx.imp_left fun ⟨k, x, hx⟩ => ⟨k, x, hext.others heq hx⟩)
    written := by
      intro t v hv
      by_cases heq : t = tx
      · subst heq
        exact hwritten v hv
      · exact h.written t v (by rw [← hext.lastWrite heq]; exact hv)
    sessions := fun id x hx => by
      show r.committed () = _
      rw [hext.committed]
      exact h.sessions id x hx
    starting := by
      intro t id x hx
      obtain ⟨hnot, hshare, hcommitted⟩ := h.starting t id x hx
      exact ⟨hnot, hext.holds hshare, by
        show r.committed () = _
        rw [hext.committed]
        exact hcommitted⟩
    hashes := fun x hx => h.hashes x (by rwa [← hext.committed])
    replaced := fun y hy x hx hnow => h.replaced y hy x hx (by rwa [← hext.committed]) }

theorem frame_credentials {r : Rows Unit H} (hext : Rows.Extends tx s.credentials r)
    (hsame : ∀ v, s.credentials.lastWrite tx () = some v → r.lastWrite tx () = some v) :
    s.Frame tx { s with credentials := r } where
  credentials := hext.by
  tokens := Rows.By.refl ..
  begun := le_rfl
  opened := fun _ _ h => h
  resetting := fun _ _ => Iff.rfl
  others := fun _ _ _ => rfl
  published := fun _ _ hx => Or.inl hx
  own := fun _ _ => ⟨⟨hext, hsame⟩, ⟨Rows.Extends.refl .., fun _ => id⟩, rfl, fun _ _ => id⟩

/-- The transaction starts or ends sessions. -/
theorem Doors.Kept.sessionRows (h : s.Kept newHash initial) (hlt : tx < s.begun)
    {r : Rows ℕ (SignedIn H)} {n : ℕ} (hext : Rows.Extends tx s.sessions r) (hn : s.started ≤ n)
    (hstarting : ∀ id x, r.lastWrite tx id = some (some x) → id < n ∧ tx ∉ s.resetting ∧
      s.credentials.Holds tx () .share ∧ s.credentials.committed () = some x.startedOn) :
    ({ s with sessions := r, started := n } : Doors H).Kept newHash initial :=
  { h with
    holds := by
      intro t hx
      by_cases heq : t = tx
      · exact heq ▸ hlt
      · exact h.holds (hx.imp_right (Or.imp_right fun ⟨k, x, hx⟩ => ⟨k, x, hext.others heq hx⟩))
    started := by
      intro id hid
      have hid : r.committed id ≠ none := hid
      rw [hext.committed] at hid
      exact (h.started id hid).trans_le hn
    starting_lt := by
      intro t id x hx
      by_cases heq : t = tx
      · subst heq
        exact (hstarting id x hx).1
      · exact (h.starting_lt t id x (by rw [← hext.lastWrite heq]; exact hx)).trans_le hn
    sessions := fun id x hx => h.sessions id x (by rw [← hext.committed]; exact hx)
    starting := by
      intro t id x hx
      by_cases heq : t = tx
      · subst heq
        exact (hstarting id x hx).2
      · exact h.starting t id x (by rw [← hext.lastWrite heq]; exact hx) }

theorem frame_sessionRows {r : Rows ℕ (SignedIn H)} {n : ℕ}
    (hext : Rows.Extends tx s.sessions r)
    (hsame : tx ∈ s.resetting → ∀ id, s.sessions.lastWrite tx id = some none →
      r.lastWrite tx id = some none) :
    s.Frame tx { s with sessions := r, started := n } where
  credentials := Rows.By.refl ..
  tokens := Rows.By.refl ..
  begun := le_rfl
  opened := fun _ _ h => h
  resetting := fun _ _ => Iff.rfl
  others := fun _ hne _ => hext.lastWrite hne
  published := fun id x hx => Or.inl (by rw [← hext.committed]; exact hx)
  own := fun _ _ => ⟨⟨Rows.Extends.refl .., fun _ => id⟩, ⟨Rows.Extends.refl .., fun _ => id⟩,
    hext.committed, hsame⟩

/-- The transaction deletes links. -/
theorem Doors.Kept.tokenRows (h : s.Kept newHash initial) (hlt : tx < s.begun)
    {r : Rows ℕ ResetToken} (hext : Rows.Extends tx s.tokens r)
    (hused : ∀ id v, r.lastWrite tx id = some v → v = none) :
    ({ s with tokens := r } : Doors H).Kept newHash initial :=
  { h with
    holds := by
      intro t hx
      by_cases heq : t = tx
      · exact heq ▸ hlt
      · exact h.holds (hx.imp_right (Or.imp_left fun ⟨k, x, hx⟩ => ⟨k, x, hext.others heq hx⟩))
    minted := fun id hid => h.minted id (by rwa [← hext.committed])
    used := by
      intro t id v hv
      by_cases heq : t = tx
      · subst heq
        exact hused id v hv
      · exact h.used t id v (by rw [← hext.lastWrite heq]; exact hv)
    gone := fun y hy => ⟨by
      show r.committed _ = none
      rw [hext.committed]
      exact (h.gone y hy).1, (h.gone y hy).2⟩ }

theorem frame_tokenRows {r : Rows ℕ ResetToken} (hext : Rows.Extends tx s.tokens r)
    (hsame : ∀ id, s.tokens.lastWrite tx id = some none → r.lastWrite tx id = some none) :
    s.Frame tx { s with tokens := r } where
  credentials := Rows.By.refl ..
  tokens := hext.by
  begun := le_rfl
  opened := fun _ _ h => h
  resetting := fun _ _ => Iff.rfl
  others := fun _ _ _ => rfl
  published := fun _ _ hx => Or.inl hx
  own := fun _ _ => ⟨⟨Rows.Extends.refl .., fun _ => id⟩, ⟨hext, hsame⟩, rfl, fun _ _ => id⟩

/-- A transaction not begun has written nothing. -/
theorem Doors.Kept.unbegun (h : s.Kept newHash initial) {k : ℕ} :
    s.tokens.lastWrite s.begun k = none ∧ s.sessions.lastWrite s.begun k = none := by
  constructor
  · by_contra hne
    obtain ⟨v, hv⟩ := Option.ne_none_iff_exists'.mp hne
    exact absurd (h.holds (Or.inr (Or.inl ⟨_, _, Rows.holds_of_lastWrite hv⟩))) (lt_irrefl _)
  · by_contra hne
    obtain ⟨v, hv⟩ := Option.ne_none_iff_exists'.mp hne
    exact absurd (h.holds (Or.inr (Or.inr ⟨_, _, Rows.holds_of_lastWrite hv⟩))) (lt_irrefl _)

end going

/-! ## § One task -/

section task

variable {newHash : ℕ → H} {initial : Option H} {s s' : Doors H} {tx : ℕ}

theorem frame_useToken {token : ℕ} {r : Rows ℕ ResetToken}
    (hwrite : s.tokens.write s.begun token none = some r) :
    s.Frame s.begun { s.begin with tokens := r, resetting := s.begun :: s.resetting } where
  credentials := Rows.By.refl ..
  tokens := (Rows.extends_of_write hwrite).by
  begun := Nat.le_succ _
  opened := (frame_begin s).opened
  resetting := by
    intro t hlt
    refine ⟨fun ht => ?_, List.mem_cons_of_mem _⟩
    rcases List.mem_cons.mp ht with rfl | ht
    · exact absurd hlt (lt_irrefl _)
    · exact ht
  others := fun _ _ _ => rfl
  published := fun _ _ hx => Or.inl hx
  own := fun hlt => absurd hlt (lt_irrefl _)

theorem Doors.Kept.useToken (h : s.Kept newHash initial) {token : ℕ} {r : Rows ℕ ResetToken}
    (hwrite : s.tokens.write s.begun token none = some r) :
    ({ s.begin with tokens := r, resetting := s.begun :: s.resetting } : Doors H).Kept newHash
      initial := by
  have hused : ∀ id v, r.lastWrite s.begun id = some v → v = none := by
    intro id v hv
    rw [Rows.lastWrite_of_write hwrite] at hv
    split_ifs at hv with hid
    · cases hv
      rfl
    · exact h.used _ id v hv
  have hrows := h.begin.tokenRows (Nat.lt_succ_self s.begun)
    (Rows.extends_of_write hwrite) hused
  exact
    { hrows with
      resetting := by
        intro t ht
        rcases List.mem_cons.mp ht with rfl | ht
        · exact Nat.lt_succ_self _
        · exact hrows.resetting t ht
      written := fun t v hv => (hrows.written t v hv).imp_right (List.mem_cons_of_mem _)
      starting := by
        intro t id x hx
        obtain ⟨hnot, hshare, hcommitted⟩ := h.starting t id x hx
        refine ⟨fun hin => ?_, hshare, hcommitted⟩
        rcases List.mem_cons.mp hin with rfl | hin
        · exact absurd (h.holds (Or.inl ⟨_, _, hshare⟩)) (lt_irrefl _)
        · exact hnot hin }

/-- The check of a sign-in: the hash has changed and it ends, or it holds the hash. -/
theorem checked_cases [DecidableEq H] (h : s.Kept newHash initial) (hlt : tx < s.begun)
    {hash : H} {next : List (DoorTask H)}
    {n : Option (List (DoorTask H))} (hexec : s.checked tx hash next = some (s', n)) :
    (s' = s.rollback tx ∧ n = none) ∨
    (s'.Kept newHash initial ∧ s.Frame tx s' ∧ n = some next ∧ s'.begun = s.begun ∧
      s'.resetting = s.resetting ∧ s'.credentials.Holds tx () .share ∧
      s'.credentials.committed () = some hash) := by
  unfold Doors.checked at hexec
  split_ifs at hexec with hsame
  · obtain ⟨r, hlock, hr⟩ := Option.map_eq_some_iff.mp hexec
    cases hr
    have hext := Rows.extends_of_lock hlock
    refine Or.inr ⟨h.credentials hlt hext fun v hv => ?_, frame_credentials hext fun v hv => ?_,
      rfl, rfl, rfl, Rows.holds_of_lock hlock, ?_⟩
    · exact h.written tx v (by rwa [Rows.lastWrite_of_lock hlock] at hv)
    · rwa [Rows.lastWrite_of_lock hlock]
    · show r.committed () = some hash
      rw [hext.committed]
      exact hsame
  · cases hexec
    exact Or.inl ⟨rfl, rfl⟩

/-- Deleting a session that may be there. -/
theorem endSession_cases {id : ℕ} (hexec : s.endSession tx id = some s') :
    ∃ r, s' = { s with sessions := r } ∧ Rows.Deletes tx s.sessions r ∧
      ((∀ x, s.sessions.lastWrite tx id ≠ some (some x)) → s.sessions.committed id ≠ none →
        r.lastWrite tx id = some none) := by
  unfold Doors.endSession at hexec
  split_ifs at hexec with hsome
  · obtain ⟨r, hwrite, rfl⟩ := Option.map_eq_some_iff.mp hexec
    refine ⟨r, rfl, Rows.deletes_of_write hwrite, fun _ _ => ?_⟩
    rw [Rows.lastWrite_of_write hwrite, if_pos ⟨rfl, rfl⟩]
  · cases hexec
    refine ⟨s.sessions, rfl, Rows.Deletes.refl .., fun hno hcommitted => ?_⟩
    -- The row is gone already: the transaction itself deleted it.
    cases hlast : s.sessions.lastWrite tx id with
    | none =>
        rw [Rows.seen_of_unwritten hlast] at hsome
        exact absurd (Option.isSome_iff_ne_none.mpr hcommitted) hsome
    | some row =>
        cases row with
        | none => rfl
        | some x => exact absurd hlast (hno x)

theorem Doors.Kept.endSessions (h : s.Kept newHash initial) (hlt : tx < s.begun)
    {r : Rows ℕ (SignedIn H)} (hdeletes : Rows.Deletes tx s.sessions r) :
    ({ s with sessions := r } : Doors H).Kept newHash initial ∧
      s.Frame tx { s with sessions := r } :=
  ⟨h.sessionRows hlt hdeletes.toExtends le_rfl fun id x hx =>
      ⟨h.starting_lt tx id x (hdeletes.written hx), h.starting tx id x (hdeletes.written hx)⟩,
    frame_sessionRows hdeletes.toExtends fun _ _ => hdeletes.deleted⟩

theorem deletes_clearTokens : Rows.Deletes tx s.tokens (s.clearTokens tx).tokens := by
  have hrows : ∀ (ids : List ℕ) (r : Rows ℕ ResetToken), Rows.Deletes tx s.tokens r →
      Rows.Deletes tx s.tokens (ids.foldl (fun r token =>
        if (r.seen tx token).isSome then (r.write tx token none).getD r else r) r) := by
    intro ids
    induction ids with
    | nil => exact fun r h => h
    | cons token ids ih =>
        intro r h
        apply ih
        show Rows.Deletes tx s.tokens
          (if (r.seen tx token).isSome then (r.write tx token none).getD r else r)
        split_ifs
        · cases hwrite : r.write tx token none with
          | none => exact h
          | some r' => exact h.trans (Rows.deletes_of_write hwrite)
        · exact h
  exact hrows _ _ (Rows.Deletes.refl ..)

/-- The other links go: each is deleted, or left as it is. -/
theorem Doors.Kept.clearTokens (h : s.Kept newHash initial) (hlt : tx < s.begun) :
    (s.clearTokens tx).Kept newHash initial ∧ s.Frame tx (s.clearTokens tx) := by
  have hdeletes : Rows.Deletes tx s.tokens (s.clearTokens tx).tokens := deletes_clearTokens
  refine ⟨h.tokenRows hlt hdeletes.toExtends fun id v hv => ?_,
    frame_tokenRows hdeletes.toExtends fun _ => hdeletes.deleted⟩
  cases v with
  | none => rfl
  | some x => exact h.used tx id _ (hdeletes.written hv)

end task

/-! ## § Every step -/

section step

variable {newHash : ℕ → H} {initial : Option H} {s s' : Doors H}

/-- What a task leaves: the invariant, its own tasks ready, a frame for the others'. -/
def Doors.Goes (newHash : ℕ → H) (initial : Option H) (s s' : Doors H)
    (next : Option (List (DoorTask H))) : Prop :=
  s'.Kept newHash initial ∧ (∀ ts, next = some ts → ∀ u ∈ ts, u.Ok newHash s') ∧
    ∃ tx, s.Frame tx s'

theorem goes_of_end {tx : ℕ} (hkept : s'.Kept newHash initial) (hframe : s.Frame tx s') :
    s.Goes newHash initial s' none :=
  ⟨hkept, fun _ h => (by cases h), tx, hframe⟩

theorem goes_of_one {tx : ℕ} {task : DoorTask H} (hkept : s'.Kept newHash initial)
    (hframe : s.Frame tx s') (htask : task.Ok newHash s') :
    s.Goes newHash initial s' (some [task]) := by
  refine ⟨hkept, fun ts hts u hu => ?_, tx, hframe⟩
  cases hts
  rw [List.mem_singleton.mp hu]
  exact htask

/-- A task of the same transaction, made ready by this one. -/
theorem ok_of_ready {tx : ℕ} {task : DoorTask H} (htx : task.tx = some tx) (hlt : tx < s.begun)
    (hready : task.Ready newHash s) : task.Ok newHash s := by
  intro t ht
  rw [htx] at ht
  cases ht
  exact ⟨hlt, fun _ => hready⟩

/-- Reading a snapshot changes nothing. -/
theorem frame_refl (s : Doors H) (tx : ℕ) : s.Frame tx s :=
  frame_credentials (Rows.Extends.refl ..) fun _ => id

theorem mem_sessionsOf (h : s.Kept newHash initial) {kind : SessionKind} {id : ℕ} {x : SignedIn H}
    (hx : s.sessions.committed id = some x) (hkind : x.kind = kind) : id ∈ s.sessionsOf kind := by
  have hlt : id < s.started := h.started id (by simp [hx])
  simp [Doors.sessionsOf, hlt, hx, hkind]

variable [DecidableEq H]

theorem goes_signIn (h : s.Kept newHash initial) {tx : ℕ} {hash : H}
    {statements : List SignInStatement} {next : Option (List (DoorTask H))}
    (hok : (DoorTask.signIn tx hash statements).Ok newHash s)
    (hexec : s.exec newHash (.signIn tx hash statements) .go = some (s', next)) :
    s.Goes newHash initial s' next := by
  obtain ⟨hlt, hready⟩ := hok tx rfl
  simp only [Doors.exec] at hexec
  split_ifs at hexec with hopen
  have hnot : tx ∉ s.resetting := hready hopen
  match statements, hexec with
  | [], hexec =>
      cases hexec
      exact goes_of_end (h.commit hnot) (frame_commit s tx)
  | .unchanged :: rest, hexec =>
      rcases checked_cases h hlt hexec with
        ⟨rfl, rfl⟩ | ⟨hkept, hframe, rfl, hbegun, hresetting, _⟩
      · exact goes_of_end h.rollback (frame_rollback s tx)
      · refine goes_of_one hkept hframe (ok_of_ready rfl (hbegun ▸ hlt) ?_)
        show tx ∉ s'.resetting
        rwa [hresetting]
  | .start kind :: rest, hexec =>
      rcases checked_cases h hlt hexec with
        ⟨rfl, rfl⟩ | ⟨hkept, hframe, rfl, hbegun, hresetting, hshare, hcommitted⟩
      · exact goes_of_end h.rollback (frame_rollback s tx)
      · have hnot' : tx ∉ s'.resetting := by rwa [hresetting]
        refine ⟨hkept, fun ts hts u hu => ?_, tx, hframe⟩
        cases hts
        rcases List.mem_cons.mp hu with rfl | hu
        · exact ok_of_ready rfl (hbegun ▸ hlt) ⟨hnot', hshare, hcommitted⟩
        · rw [List.mem_singleton.mp hu]
          exact ok_of_ready rfl (hbegun ▸ hlt) hnot'
  | .endSession id :: rest, hexec =>
      obtain ⟨s'', hend, hs⟩ := Option.map_eq_some_iff.mp hexec
      cases hs
      obtain ⟨r, rfl, hdeletes, _⟩ := endSession_cases hend
      obtain ⟨hkept, hframe⟩ := h.endSessions hlt hdeletes
      exact goes_of_one hkept hframe (ok_of_ready rfl hlt hnot)

theorem goes_insert (h : s.Kept newHash initial) {tx : ℕ} {hash : H} {kind : SessionKind}
    {next : Option (List (DoorTask H))} (hok : (DoorTask.insert tx hash kind).Ok newHash s)
    (hexec : s.exec newHash (.insert tx hash kind) .go = some (s', next)) :
    s.Goes newHash initial s' next := by
  obtain ⟨hlt, hready⟩ := hok tx rfl
  simp only [Doors.exec] at hexec
  split_ifs at hexec with hopen
  obtain ⟨hnot, hshare, hcommitted⟩ := hready hopen
  obtain ⟨r, hwrite, hr⟩ := Option.map_eq_some_iff.mp hexec
  cases hr
  have hext := Rows.extends_of_write hwrite
  refine ⟨h.sessionRows hlt hext (Nat.le_succ _) fun id x hx => ?_, fun ts hts u hu => ?_, tx,
    frame_sessionRows hext fun hin => absurd hin hnot⟩
  · rw [Rows.lastWrite_of_write hwrite] at hx
    split_ifs at hx with hid
    · cases hx
      rw [hid.2]
      exact ⟨Nat.lt_succ_self _, hnot, hshare, hcommitted⟩
    · exact ⟨(h.starting_lt tx id x hx).trans (Nat.lt_succ_self _), h.starting tx id x hx⟩
  · cases hts
    cases hu

theorem goes_useToken (h : s.Kept newHash initial) {token : ℕ} {now : ℤ}
    {next : Option (List (DoorTask H))}
    (hexec : s.exec newHash (.useToken token now) .go = some (s', next)) :
    s.Goes newHash initial s' next := by
  simp only [Doors.exec] at hexec
  split_ifs at hexec with hlive
  · obtain ⟨r, hwrite, hr⟩ := Option.map_eq_some_iff.mp hexec
    cases hr
    refine goes_of_one (h.useToken hwrite) (frame_useToken hwrite)
      (ok_of_ready rfl (Nat.lt_succ_self _) ⟨List.mem_cons_self .., ?_, ?_⟩)
    · show r.lastWrite s.begun token = some none
      rw [Rows.lastWrite_of_write hwrite, if_pos ⟨rfl, rfl⟩]
    · show r.committed token ≠ none
      rw [(Rows.extends_of_write hwrite).committed]
      intro hnone
      rw [hnone] at hlive
      cases hlive
  · cases hexec
    exact goes_of_end h (frame_credentials (Rows.Extends.refl s.begun _) fun _ => id)

theorem goes_setPassword (h : s.Kept newHash initial) {tx token : ℕ}
    {next : Option (List (DoorTask H))} (hok : (DoorTask.setPassword tx token).Ok newHash s)
    (hexec : s.exec newHash (.setPassword tx token) .go = some (s', next)) :
    s.Goes newHash initial s' next := by
  obtain ⟨hlt, hready⟩ := hok tx rfl
  simp only [Doors.exec] at hexec
  split_ifs at hexec with hopen
  have husing : s.Using tx token := hready hopen
  obtain ⟨r, hwrite, hr⟩ := Option.map_eq_some_iff.mp hexec
  cases hr
  have hext := Rows.extends_of_write hwrite
  have hlast : r.lastWrite tx () = some (some (newHash tx)) := by
    rw [Rows.lastWrite_of_write hwrite, if_pos ⟨rfl, rfl⟩]
  refine goes_of_one (h.credentials hlt hext fun v hv => ?_)
    (frame_credentials hext fun v hv => ?_) (ok_of_ready rfl hlt ⟨husing, ⟨hlast, ?_⟩, fun h => ?_⟩)
  · exact ⟨Option.some.inj (hv.symm.trans hlast), husing.1⟩
  · rw [hlast, (h.written tx v hv).1]
  · exact congrFun hext.committed ()
  · cases h

theorem goes_endSessions (h : s.Kept newHash initial) {tx token : ℕ} {old : Option H}
    {kind : SessionKind} {ids : List ℕ} {next : Option (List (DoorTask H))}
    (hok : (DoorTask.endSessions tx token old kind ids).Ok newHash s)
    (hexec : s.exec newHash (.endSessions tx token old kind ids) .go = some (s', next)) :
    s.Goes newHash initial s' next := by
  obtain ⟨hlt, hready⟩ := hok tx rfl
  simp only [Doors.exec] at hexec
  split_ifs at hexec with hopen
  obtain ⟨husing, hwrote, hbusiness, hids⟩ := hready hopen
  match ids, kind, hexec with
  | id :: ids, kind, hexec =>
      obtain ⟨s'', hend, hs⟩ := Option.map_eq_some_iff.mp hexec
      cases hs
      obtain ⟨r, rfl, hdeletes, hgone⟩ := endSession_cases hend
      obtain ⟨hkept, hframe⟩ := h.endSessions hlt hdeletes
      have hopen' : tx ∈ ({ s with sessions := r } : Doors H).opened := hopen
      refine goes_of_one hkept hframe (ok_of_ready rfl hlt ⟨hframe.using hlt hopen' husing,
        hframe.wrote hlt hopen' hwrote, fun hkind => hframe.ended h hlt hopen' husing.1 hwrote
          (hbusiness hkind), fun k x hx hkind => ?_⟩)
      have hx' := hframe.committed_of_wrote h hlt hopen' hwrote hx
      rcases hids k x hx' hkind with hin | hdone
      · rcases List.mem_cons.mp hin with rfl | hin
        · refine Or.inr (hgone (fun y hy => ?_) (by simp [hx']))
          exact (h.starting tx k y hy).1 husing.1
        · exact Or.inl hin
      · exact Or.inr (hdeletes.deleted hdone)
  | [], .business, hexec =>
      cases hexec
      refine goes_of_one h (frame_refl s tx) (ok_of_ready rfl hlt ⟨husing, hwrote, fun _ => ?_⟩)
      exact fun id x hx hkind => (hids id x hx hkind).resolve_left (List.not_mem_nil)
  | [], .account, hexec =>
      cases hexec
      refine goes_of_one h (frame_refl s tx)
        (ok_of_ready rfl hlt ⟨husing, hwrote, hbusiness rfl, ?_⟩)
      exact fun id x hx hkind => (hids id x hx hkind).resolve_left (List.not_mem_nil)

/-- **One task.** -/
theorem goes_exec (hinj : Function.Injective newHash) (hinitial : ∀ t, initial ≠ some (newHash t))
    (h : s.Kept newHash initial) {task : DoorTask H} {turn : SignInTurn}
    {next : Option (List (DoorTask H))} (hok : task.Ok newHash s)
    (hexec : s.exec newHash task turn = some (s', next)) : s.Goes newHash initial s' next := by
  cases turn with
  | stop =>
      simp only [Doors.exec] at hexec
      split at hexec
      · cases hexec
        exact goes_of_end h (frame_refl s 0)
      · split_ifs at hexec
        cases hexec
        exact goes_of_end h.rollback (frame_rollback s _)
  | go =>
      cases task with
      | read how =>
          cases hexec
          refine ⟨h, fun ts hts u hu => ?_, 0, frame_refl s 0⟩
          obtain ⟨hash, -, rfl⟩ := Option.map_eq_some_iff.mp hts
          rw [List.mem_singleton.mp hu]
          exact fun t ht => (by cases ht)
      | verify how hash =>
          cases hexec
          exact goes_of_one h.begin (frame_begin s) (ok_of_ready rfl (Nat.lt_succ_self _)
            fun hin => absurd (h.resetting _ hin) (lt_irrefl _))
      | signIn tx hash statements => exact goes_signIn h hok hexec
      | insert tx hash kind => exact goes_insert h hok hexec
      | useToken token now => exact goes_useToken h hexec
      | setPassword tx token => exact goes_setPassword h hok hexec
      | listSessions tx token old kind =>
          obtain ⟨hlt, hready⟩ := hok tx rfl
          simp only [Doors.exec] at hexec
          split_ifs at hexec with hopen
          cases hexec
          obtain ⟨husing, hwrote, hbusiness⟩ := hready hopen
          exact goes_of_one h (frame_refl s tx) (ok_of_ready rfl hlt ⟨husing, hwrote, hbusiness,
            fun id x hx hkind => Or.inl (mem_sessionsOf h hx hkind)⟩)
      | endSessions tx token old kind ids => exact goes_endSessions h hok hexec
      | clearTokens tx token old =>
          obtain ⟨hlt, hready⟩ := hok tx rfl
          simp only [Doors.exec] at hexec
          split_ifs at hexec with hopen
          cases hexec
          obtain ⟨husing, hwrote, hbusiness, haccount⟩ := hready hopen
          obtain ⟨hkept, hframe⟩ := h.clearTokens hlt
          exact goes_of_one hkept hframe (ok_of_ready rfl hlt
            ⟨hframe.using hlt hopen husing, hwrote, hbusiness, haccount⟩)
      | finish tx token old =>
          obtain ⟨hlt, hready⟩ := hok tx rfl
          simp only [Doors.exec] at hexec
          split_ifs at hexec with hopen
          cases hexec
          have hframe := frame_commit s tx
          exact goes_of_end (h.finish hinj hinitial hopen (hready hopen))
            { hframe with }

omit [DecidableEq H] in
/-- A link mailed. -/
theorem goes_mint (h : s.Kept newHash initial) {expiresAt : ℤ}
    (hworld : s.world (.mint expiresAt) = some s') :
    s'.Kept newHash initial ∧ s.Frame s.begun s' := by
  obtain ⟨r, hwrite, rfl⟩ := Option.map_eq_some_iff.mp hworld
  have hext := Rows.extends_of_write hwrite
  have hseen : ∀ id, id ≠ s.minted → r.seen s.begun id = s.tokens.committed id := by
    intro id hid
    rw [Rows.seen_of_unwritten, hext.committed]
    rw [Rows.lastWrite_of_write hwrite, if_neg fun h => hid h.2]
    exact h.unbegun.1
  refine
    ⟨{ h.begin with
        opened := fun t ht => (h.opened t ht).trans (Nat.lt_succ_self _)
        holds := ?_, minted := ?_, used := ?_, finished := ?_, gone := ?_ },
      { frame_begin s with
        tokens := hext.by.trans (Rows.by_commit ..)
        opened := fun _ _ h => h
        own := fun hlt => absurd hlt (lt_irrefl _) }⟩
  · intro t hx
    rcases hx with hx | ⟨k, x, hx⟩ | hx
    · exact (h.holds (Or.inl hx)).trans (Nat.lt_succ_self _)
    · obtain ⟨hx, hne⟩ := Rows.holds_commit.mp hx
      exact (h.holds (Or.inr (Or.inl ⟨k, x, hext.others hne hx⟩))).trans (Nat.lt_succ_self _)
    · exact (h.holds (Or.inr (Or.inr hx))).trans (Nat.lt_succ_self _)
  · intro id hid
    by_cases heq : id = s.minted
    · rw [heq]
      exact Nat.lt_succ_self _
    · refine (h.minted id ?_).trans (Nat.lt_succ_self _)
      rw [← hseen id heq]
      exact hid
  · intro t id v hv
    obtain ⟨hne, hv⟩ := Rows.lastWrite_rollback_eq_some hv
    exact h.used t id v (by rw [← hext.lastWrite hne]; exact hv)
  · intro y hy
    exact ⟨(h.finished y hy).1.trans (Nat.lt_succ_self _), (h.finished y hy).2⟩
  · intro y hy
    obtain ⟨hgone, hlt⟩ := h.gone y hy
    exact ⟨(hseen _ hlt.ne).trans hgone, hlt.trans (Nat.lt_succ_self _)⟩

omit [DecidableEq H] in
/-- A session ended by its own user. -/
theorem goes_signOut (h : s.Kept newHash initial) {id : ℕ}
    (hworld : s.world (.signOut id) = some s') :
    s'.Kept newHash initial ∧ s.Frame s.begun s' := by
  obtain ⟨r, hwrite, rfl⟩ := Option.map_eq_some_iff.mp hworld
  have hext := Rows.extends_of_write hwrite
  have hcommitted : ∀ k x, (r.commit s.begun).committed k = some x →
      s.sessions.committed k = some x := by
    intro k x hx
    have hx : r.seen s.begun k = some x := hx
    have hlast : r.lastWrite s.begun k = _ := Rows.lastWrite_of_write hwrite
    by_cases heq : k = id
    · rw [if_pos ⟨rfl, heq⟩] at hlast
      cases (Rows.seen_of_lastWrite hlast).symm.trans hx
    · rw [if_neg fun h => heq h.2, h.unbegun.2] at hlast
      rwa [Rows.seen_of_unwritten hlast, hext.committed] at hx
  refine
    ⟨{ h.begin with
        opened := fun t ht => (h.opened t ht).trans (Nat.lt_succ_self _)
        holds := ?_, started := ?_, starting_lt := ?_, sessions := ?_, starting := ?_
        finished := ?_ },
      { frame_begin s with
        opened := fun _ _ h => h
        others := fun t hne id => ?_
        published := fun k x hx => Or.inl (hcommitted k x hx)
        own := fun hlt => absurd hlt (lt_irrefl _) }⟩
  · intro t hx
    rcases hx with hx | hx | ⟨k, x, hx⟩
    · exact (h.holds (Or.inl hx)).trans (Nat.lt_succ_self _)
    · exact (h.holds (Or.inr (Or.inl hx))).trans (Nat.lt_succ_self _)
    · obtain ⟨hx, hne⟩ := Rows.holds_commit.mp hx
      exact (h.holds (Or.inr (Or.inr ⟨k, x, hext.others hne hx⟩))).trans (Nat.lt_succ_self _)
  · intro k hk
    obtain ⟨x, hx⟩ := Option.ne_none_iff_exists'.mp hk
    exact h.started k (by rw [hcommitted k x hx]; simp)
  · intro t k x hx
    obtain ⟨hne, hx⟩ := Rows.lastWrite_rollback_eq_some hx
    exact h.starting_lt t k x (by rw [← hext.lastWrite hne]; exact hx)
  · exact fun k x hx => h.sessions k x (hcommitted k x hx)
  · intro t k x hx
    obtain ⟨hne, hx⟩ := Rows.lastWrite_rollback_eq_some hx
    exact h.starting t k x (by rw [← hext.lastWrite hne]; exact hx)
  · intro y hy
    exact ⟨(h.finished y hy).1.trans (Nat.lt_succ_self _), (h.finished y hy).2⟩
  · exact (Rows.lastWrite_rollback hne).trans (hext.lastWrite hne)

/-- **Step.** Whatever a thread or the world does keeps the invariant, and every task
ready for its turn. -/
theorem doors_step (hinj : Function.Injective newHash) (hinitial : ∀ t, initial ≠ some (newHash t))
    {p p' : Doorway H} {m : Move DoorEvent Asked SignInTurn}
    (h : Pool.Invariant (Doors.Kept newHash initial) (fun s task => task.Ok newHash s) p)
    (hstep : Pool.step (doors newHash) p m = some p') :
    Pool.Invariant (Doors.Kept newHash initial) (fun s task => task.Ok newHash s) p' := by
  refine Pool.invariant_step ?_ ?_ ?_ h hstep
  · intro s ts e s' hkept hoks hworld
    have hgoes : s'.Kept newHash initial ∧ s.Frame s.begun s' := by
      cases e with
      | mint expiresAt => exact goes_mint hkept hworld
      | signOut id => exact goes_signOut hkept hworld
    exact ⟨hgoes.1, fun t ht => hgoes.2.ok hkept (hoks t ht)⟩
  · intro s asked s' ts hkept hstart
    cases hstart
    refine ⟨hkept, fun t ht => ?_, fun _ hu => hu⟩
    rw [List.mem_singleton.mp ht]
    intro tx htx
    cases asked <;> cases htx
  · intro s t turn s' next hkept hok hexec
    obtain ⟨hkept', hnext, tx, hframe⟩ := goes_exec hinj hinitial hkept hok hexec
    exact ⟨hkept', hnext, fun u hu => hframe.ok hkept hu⟩

end step

theorem kept_start (newHash : ℕ → H) (initial : Option H) :
    (Doors.start initial).Kept newHash initial := by
  constructor <;> simp [Doors.start, Rows.start, Rows.lastWrite, Rows.Holds]

/-- **Every door closed.** When resets store hashes that differ, no session on a hash
that a committed reset replaced is live, whatever sign-ins and resets interleave; and
a link is used by one reset at most. -/
theorem doors_closed [DecidableEq H] {newHash : ℕ → H} {initial : Option H}
    (hinj : Function.Injective newHash) (hinitial : ∀ t, initial ≠ some (newHash t))
    {ms : List (Move DoorEvent Asked SignInTurn)} {p : Doorway H}
    (hrun : Doorway.run newHash (Pool.empty (Doors.start initial)) ms = some p) :
    (∀ r ∈ p.shared.resets, ∀ id x, p.shared.sessions.committed id = some x →
      r.old ≠ some x.startedOn) ∧
    (p.shared.resets.map Reset.token).Nodup := by
  have hkept := (Runs.run_invariant' (fun _ _ _ => doors_step hinj hinitial)
    (Pool.invariant_empty (kept_start newHash initial)) hrun).shared
  refine ⟨fun r hr id x hx hold => ?_, hkept.once⟩
  exact hkept.replaced r hr _ hold (hkept.sessions id x hx)

/-- A reset begins while a sign-in has its password verified: the sign-in commits its
session first, and the reset ends it. -/
def resetDuringSignIn : List (Move DoorEvent Asked SignInTurn) :=
  [.world (.mint 60), .start (.signIn (.account none none false)), .go 0 .go, .go 0 .go,
    .start (.reset 0 0), .go 1 .go, .go 0 .go, .go 0 .go, .go 0 .go, .go 0 .go] ++
    List.replicate 8 (.go 1 .go)

theorem doors_closed_during_sign_in : ∃ p : Doorway ℕ,
    Doorway.run Nat.succ (Pool.empty (Doors.start (some 0))) resetDuringSignIn = some p ∧
    p.shared.resets = [⟨2, 0, some 0⟩] ∧ p.shared.started = 1 ∧
    ∀ r ∈ p.shared.resets, ∀ id x, p.shared.sessions.committed id = some x →
      r.old ≠ some x.startedOn :=
  have hrun := (Option.some_get (by decide +kernel :
    (Doorway.run Nat.succ (Pool.empty (Doors.start (some 0))) resetDuringSignIn).isSome)).symm
  ⟨_, hrun, by decide +kernel, by decide +kernel,
    (doors_closed Nat.succ_injective (by simp) hrun).1⟩

end Ziftbook
