import Ziftbook.Contact.Requests

/-!
# Only the newest link confirms

The hash of the request row, when it has one, is that of the link minted last. A
request once gone never comes back, as each new one takes a new id: a job queued for
it mints nothing, and its links match no row.
-/

namespace Ziftbook

open Foundation

variable {α : Type} {lower : α → α} {s s' : ContactEmail α} {now : ℤ}

/-! ## § What each call leaves -/

/-- How a call may leave the request row and the links. -/
inductive ContactEmail.Moved (s s' : ContactEmail α) : Prop
  /-- The row stays as it is. -/
  | kept : s'.request = s.request → s'.links = s.links → s'.idsMade = s.idsMade → Moved s s'
  /-- The row goes. -/
  | gone : s'.request = none → s'.links = s.links → s'.idsMade = s.idsMade → Moved s s'
  /-- The row is renewed, with no link yet. -/
  | renewed (r : EmailRequest α) : s'.request = some r → r.id = s.idsMade → r.tokenHash = none →
      s'.links = s.links → s'.idsMade = s.idsMade + 1 → Moved s s'
  /-- The row's next link is minted. -/
  | minted (r r' : EmailRequest α) : s.request = some r → s'.request = some r' → r'.id = r.id →
      r'.tokenHash = some s.links.length → s'.links = s.links ++ [⟨r.id, s.links.length⟩] →
      s'.idsMade = s.idsMade → Moved s s'

/-- How a call may leave the address in effect. -/
def ContactEmail.SetsTo (s s' : ContactEmail α) (now : ℤ) (op : ContactOp α) : Prop :=
  s'.confirmed = s.confirmed ∨
    (∃ hash limited email, op = .confirm hash limited ∧
      confirmContactEmail s now hash = some (s', email, s.confirmed) ∧
      s'.confirmed = some email) ∨
    ∃ user missed claimed limited, op = .change user none missed claimed limited ∧
      s'.confirmed = none

theorem moved_changeContactEmail [DecidableEq α] (lower : α → α) (s : ContactEmail α) (now : ℤ)
    (email : Option α) (send : Bool) (requester : Option ℕ) (missed : Bool) :
    s.Moved (changeContactEmail lower s now email send requester missed).1 := by
  unfold changeContactEmail
  split
  · exact .gone rfl rfl rfl
  · split_ifs
    · exact .gone rfl rfl rfl
    · split
      · exact .kept rfl rfl rfl
      · exact .renewed _ rfl rfl rfl rfl rfl

theorem ContactEmail.Moved.queued (h : s.Moved s') (jobs : List ℕ) :
    s.Moved { s' with jobs := jobs } := by
  cases h with
  | kept hr hl hi => exact .kept hr hl hi
  | gone hr hl hi => exact .gone hr hl hi
  | renewed r hr hid hnone hl hi => exact .renewed r hr hid hnone hl hi
  | minted r r' hr hr' hid hhash hl hi => exact .minted r r' hr hr' hid hhash hl hi

theorem sendLink_eq_ok {request : ℕ} {limited : Bool} (h : sendLink s request limited = .ok s') :
    s' = { s with jobs := s.jobs ++ [request] } := by
  simp only [sendLink, require_bind_eq_ok] at h
  exact (Except.ok.inj h.2).symm

theorem changeCall_eq_ok [DecidableEq α] {user : ℕ} {email : Option α}
    {missed claimed limited : Bool}
    (h : changeCall lower s now user email missed claimed limited = .ok s') :
    ∃ jobs, s' = { (changeContactEmail lower s now email true (some user) missed).1 with
      jobs := jobs } := by
  unfold changeCall at h
  simp only [require_bind_eq_ok] at h
  obtain ⟨_, h⟩ := h
  split at h
  · exact ⟨_, sendLink_eq_ok h⟩
  · exact ⟨_, (Except.ok.inj h).symm⟩

theorem resendCall_eq_ok [DecidableEq α] {user : ℕ} {read : Option α} {limited : Bool}
    (h : resendCall s now user read limited = .ok s') :
    ∃ r jobs, s.request = some r ∧
      s' = { s.upsert now r.email true (some user) with jobs := jobs } := by
  simp only [resendCall, found_bind_eq_ok, require_bind_eq_ok] at h
  obtain ⟨_, _, ⟨t, id⟩, hresend, _, h⟩ := h
  obtain ⟨r, hr, heq⟩ := Option.map_eq_some_iff.mp hresend
  cases heq
  exact ⟨r, _, hr, sendLink_eq_ok h⟩

theorem cancelCall_eq_ok (h : cancelCall s = .ok s') : s' = { s with request := none } := by
  simp only [cancelCall, require_bind_eq_ok] at h
  exact (Except.ok.inj h.2).symm

theorem confirmCall_eq_ok {hash : ℕ} {limited : Bool}
    (h : confirmCall s now hash limited = .ok s') :
    ∃ email previous, confirmContactEmail s now hash = some (s', email, previous) := by
  simp only [confirmCall, require_bind_eq_ok, found_bind_eq_ok] at h
  obtain ⟨_, ⟨t, email, previous⟩, hconfirm, h⟩ := h
  cases h
  exact ⟨email, previous, hconfirm⟩

/-- What a confirmation asks of the row, and what it does. -/
theorem confirmContactEmail_eq_some {hash : ℕ} {email : α} {previous : Option α}
    (h : confirmContactEmail s now hash = some (s', email, previous)) :
    ∃ r, s.request = some r ∧ r.tokenHash = some hash ∧ (∃ t, r.expiresAt = some t ∧ now < t) ∧
      (∃ user ∈ s.owners, r.requestedBy = some user) ∧ s'.request = none ∧ s'.links = s.links ∧
      s'.idsMade = s.idsMade ∧ s'.confirmed = some r.email ∧ email = r.email ∧
      previous = s.confirmed := by
  obtain ⟨r, hr, heq⟩ := Option.map_eq_some_iff.mp h
  obtain ⟨hrequest, hguard⟩ := Option.filter_eq_some_iff.mp hr
  obtain ⟨hhash, hlive, howner⟩ := of_decide_eq_true hguard
  cases heq
  refine ⟨r, hrequest, hhash, ?_, howner, rfl, rfl, rfl, rfl, rfl, rfl⟩
  unfold EmailRequest.linkLive at hlive
  split at hlive
  · rename_i t ht
    exact ⟨t, ht, of_decide_eq_true hlive⟩
  · cases hlive

theorem moved_sendContactEmail (s : ContactEmail α) (now : ℤ) (id : ℕ) (valid : Bool) :
    s.Moved (sendContactEmail s now id valid) ∧
      (sendContactEmail s now id valid).confirmed = s.confirmed := by
  unfold sendContactEmail
  split
  · exact ⟨.kept rfl rfl rfl, rfl⟩
  · cases hmint : mintContactEmailToken s now id with
    | none => exact ⟨.kept rfl rfl rfl, rfl⟩
    | some t =>
        obtain ⟨r, hr, rfl⟩ := Option.map_eq_some_iff.mp hmint
        obtain ⟨hrequest, _⟩ := Option.filter_eq_some_iff.mp hr
        exact ⟨.minted r _ hrequest rfl rfl rfl rfl rfl, rfl⟩

/-- **Every call** moves the row and the links in one of these ways, and sets the
address in effect only by a confirmation, or clears it. -/
theorem step_moved [DecidableEq α] {op : ContactOp α} (h : s.step lower (now, op) = some s') :
    s.Moved s' ∧ s.SetsTo s' now op := by
  have happly : s.apply lower now op = .ok s' := toOption_eq_some.mp h
  cases op with
  | change user email missed claimed limited =>
      obtain ⟨jobs, rfl⟩ := changeCall_eq_ok happly
      refine ⟨(moved_changeContactEmail ..).queued jobs, ?_⟩
      cases email with
      | none => exact Or.inr (Or.inr ⟨user, missed, claimed, limited, rfl, rfl⟩)
      | some email =>
          left
          simp only [changeContactEmail, Option.map_some]
          split_ifs
          · rfl
          · split <;> rfl
  | resend user read limited =>
      obtain ⟨r, jobs, _, rfl⟩ := resendCall_eq_ok happly
      exact ⟨.renewed _ rfl rfl rfl rfl rfl, Or.inl rfl⟩
  | cancel =>
      rw [cancelCall_eq_ok happly]
      exact ⟨.gone rfl rfl rfl, Or.inl rfl⟩
  | send request valid =>
      simp only [ContactEmail.apply] at happly
      split_ifs at happly
      rw [← Except.ok.inj happly]
      obtain ⟨hmoved, hsame⟩ := moved_sendContactEmail s now request valid
      exact ⟨hmoved, Or.inl hsame⟩
  | confirm hash limited =>
      obtain ⟨email, previous, hconfirm⟩ := confirmCall_eq_ok happly
      obtain ⟨r, _, _, _, _, hnone, hlinks, hids, hset, rfl, rfl⟩ :=
        confirmContactEmail_eq_some hconfirm
      exact ⟨.gone hnone hlinks hids, Or.inr (Or.inl ⟨hash, limited, _, rfl, hconfirm, hset⟩)⟩
  | addOwner user =>
      cases happly
      exact ⟨.kept rfl rfl rfl, Or.inl rfl⟩
  | removeOwner user =>
      cases happly
      exact ⟨.kept rfl rfl rfl, Or.inl rfl⟩

/-! ## § The newest link -/

/-- The row's hash is that of the newest link, and no id is used twice. -/
structure ContactEmail.Sound (s : ContactEmail α) : Prop where
  newest : ∀ r ∈ s.request, ∀ hash, r.tokenHash = some hash →
    s.links.getLast? = some ⟨r.id, hash⟩
  numbered : ∀ l ∈ s.links, s.links[l.hash]? = some l
  requested : ∀ r ∈ s.request, r.id < s.idsMade
  linked : ∀ l ∈ s.links, l.request < s.idsMade

/-- The request has been replaced, used or dropped. -/
def ContactEmail.gone (s : ContactEmail α) (request : ℕ) : Prop :=
  request < s.idsMade ∧ ∀ r ∈ s.request, r.id ≠ request

theorem ContactEmail.Moved.sound (h : s.Moved s') (hs : s.Sound) : s'.Sound := by
  cases h with
  | kept hr hl hi => exact ⟨hr ▸ hl ▸ hs.newest, hl ▸ hs.numbered, hr ▸ hi ▸ hs.requested,
      hl ▸ hi ▸ hs.linked⟩
  | gone hr hl hi =>
      refine ⟨?_, hl ▸ hs.numbered, ?_, hl ▸ hi ▸ hs.linked⟩
      · rw [hr]
        exact fun r hr => by cases hr
      · rw [hr]
        exact fun r hr => by cases hr
  | renewed r hr hid hnone hl hi =>
      constructor
      · intro q hq hash hhash
        cases hr.symm.trans hq
        cases hnone.symm.trans hhash
      · exact hl ▸ hs.numbered
      · intro q hq
        cases hr.symm.trans hq
        omega
      · intro l hlink
        have hold := hs.linked l (hl ▸ hlink)
        omega
  | minted r r' hr hr' hid hhash hl hi =>
      constructor
      · intro q hq hash hqhash
        cases hr'.symm.trans hq
        cases hhash.symm.trans hqhash
        rw [hl, List.getLast?_append_of_ne_nil _ (by simp), hid]
        rfl
      · intro l hlink
        rw [hl, List.mem_append, List.mem_singleton] at hlink
        rcases hlink with hlink | rfl
        · have hnum := hs.numbered l hlink
          rw [hl, List.getElem?_append_left (List.getElem?_eq_some_iff.mp hnum).1]
          exact hnum
        · rw [hl]
          simp
      · intro q hq
        cases hr'.symm.trans hq
        rw [hid, hi]
        exact hs.requested r hr
      · intro l hlink
        rw [hl, List.mem_append, List.mem_singleton] at hlink
        rw [hi]
        rcases hlink with hlink | rfl
        · exact hs.linked l hlink
        · exact hs.requested r hr

/-- A request gone stays gone: every new one takes a new id. -/
theorem ContactEmail.Moved.gone_of_gone (h : s.Moved s') {request : ℕ} (hg : s.gone request) :
    s'.gone request := by
  obtain ⟨hmade, hother⟩ := hg
  cases h with
  | kept hr hl hi => exact ⟨hi ▸ hmade, hr ▸ hother⟩
  | gone hr hl hi =>
      refine ⟨hi ▸ hmade, ?_⟩
      rw [hr]
      exact fun r hr => by cases hr
  | renewed r hr hid hnone hl hi =>
      refine ⟨by omega, fun q hq => ?_⟩
      cases hr.symm.trans hq
      omega
  | minted r r' hr hr' hid hhash hl hi =>
      refine ⟨hi ▸ hmade, fun q hq => ?_⟩
      cases hr'.symm.trans hq
      rw [hid]
      exact hother r hr

theorem ContactEmail.Moved.links_subset (h : s.Moved s') {l : EmailLink} (hl : l ∈ s.links) :
    l ∈ s'.links := by
  cases h with
  | minted r r' _ _ _ _ hlinks _ =>
      rw [hlinks]
      exact List.mem_append_left _ hl
  | kept _ hlinks _ => rwa [hlinks]
  | gone _ hlinks _ => rwa [hlinks]
  | renewed _ _ _ _ hlinks _ => rwa [hlinks]

/-- A link of a request that is gone confirms nothing. -/
theorem not_confirm_of_gone (hs : s.Sound) {l : EmailLink} (hl : l ∈ s.links)
    (hg : s.gone l.request) : confirmContactEmail s now l.hash = none := by
  by_contra hsome
  obtain ⟨⟨t, email, previous⟩, hconfirm⟩ := Option.ne_none_iff_exists'.mp hsome
  obtain ⟨r, hr, hhash, _⟩ := confirmContactEmail_eq_some hconfirm
  have hnewest := hs.newest r hr l.hash hhash
  have hmem : (⟨r.id, l.hash⟩ : EmailLink) ∈ s.links := List.mem_of_getLast? hnewest
  have heq := (hs.numbered _ hmem).symm.trans (hs.numbered l hl)
  exact hg.2 r hr (congrArg EmailLink.request (Option.some.inj heq))

/-- The call leaves no earlier link to confirm: it asks for another address or the one
in effect, for a new link, or for none. -/
def ContactOp.supersedes [DecidableEq α] (lower : α → α) (s : ContactEmail α) :
    ContactOp α → Prop
  | .change _ none _ _ _ => True
  | .change _ (some email) _ _ _ =>
      s.confirmed = some (lower email) ∨ ∀ r ∈ s.request, r.email ≠ lower email
  | .resend .. | .cancel => True
  | _ => False

/-- Such a call leaves the row it found gone. -/
theorem gone_of_supersedes [DecidableEq α] {op : ContactOp α}
    (h : s.step lower (now, op) = some s') (hop : op.supersedes lower s) {request : ℕ}
    (hmade : request < s.idsMade) : s'.gone request := by
  have happly : s.apply lower now op = .ok s' := toOption_eq_some.mp h
  have hnew : ∀ (e : α) (send : Bool) (u : Option ℕ) (jobs : List ℕ),
      ({ s.upsert now e send u with jobs := jobs } : ContactEmail α).gone request := by
    intro e send u jobs
    refine ⟨Nat.lt_succ_of_lt hmade, fun r hr => ?_⟩
    cases hr
    exact (ne_of_lt hmade).symm
  have hnone : ∀ t : ContactEmail α, t.request = none → t.idsMade = s.idsMade →
      t.gone request := by
    intro t ht hi
    refine ⟨hi ▸ hmade, ?_⟩
    rw [ht]
    exact fun r hr => by cases hr
  cases op with
  | change user email missed claimed limited =>
      obtain ⟨jobs, rfl⟩ := changeCall_eq_ok happly
      cases email with
      | none => exact hnone _ rfl rfl
      | some email =>
          simp only [changeContactEmail, Option.map_some]
          split_ifs with heffect
          · exact hnone _ rfl rfl
          · have hother := hop.resolve_left heffect
            split
            · rename_i r hr
              obtain ⟨hrequest, hguard⟩ := Option.filter_eq_some_iff.mp hr
              exact absurd (of_decide_eq_true hguard).2.1 (hother r hrequest)
            · exact hnew ..
  | resend user read limited =>
      obtain ⟨r, jobs, _, rfl⟩ := resendCall_eq_ok happly
      exact hnew ..
  | cancel =>
      rw [cancelCall_eq_ok happly]
      exact hnone _ rfl rfl
  | _ => exact hop.elim

/-! ## § Every run -/

/-- A business before its first link; an address may wait that no one has asked for yet. -/
structure ContactEmail.Unsent (s : ContactEmail α) : Prop where
  links : s.links = []
  request : ∀ r ∈ s.request, r.tokenHash = none ∧ r.id < s.idsMade

theorem ContactEmail.Unsent.sound (h : s.Unsent) : s.Sound := by
  refine ⟨fun r hr hash hhash => ?_, ?_, fun r hr => (h.request r hr).2, ?_⟩
  · rw [(h.request r hr).1] at hhash
    cases hhash
  · rw [h.links]
    exact fun l hl => by cases hl
  · rw [h.links]
    exact fun l hl => by cases hl

theorem sound_run_contact [DecidableEq α] {es : List (ℤ × ContactOp α)} (hs : s.Sound)
    (hrun : s.run lower es = some s') : s'.Sound :=
  Runs.run_invariant' (fun _ _ _ h hstep => (step_moved hstep).1.sound h) hs hrun

/-- A link of a request that is gone is dead for good. -/
theorem dead_run [DecidableEq α] {es : List (ℤ × ContactOp α)} (hs : s.Sound) {l : EmailLink}
    (hl : l ∈ s.links) (hg : s.gone l.request) (hrun : s.run lower es = some s') (now : ℤ)
    (limited : Bool) : s'.step lower (now, .confirm l.hash limited) = none := by
  have hkeeps : ∀ (t : ContactEmail α) (e : ℤ × ContactOp α) (t' : ContactEmail α),
      t.Sound ∧ l ∈ t.links ∧ t.gone l.request → t.step lower e = some t' →
        t'.Sound ∧ l ∈ t'.links ∧ t'.gone l.request := by
    rintro t e t' ⟨ht, hl, hg⟩ hstep
    have hmoved := (step_moved hstep).1
    exact ⟨hmoved.sound ht, hmoved.links_subset hl, hmoved.gone_of_gone hg⟩
  obtain ⟨hs', hl', hg'⟩ := Runs.run_invariant' hkeeps ⟨hs, hl, hg⟩ hrun
  cases hstep : s'.step lower (now, .confirm l.hash limited) with
  | none => rfl
  | some t =>
      obtain ⟨email, previous, hconfirm⟩ := confirmCall_eq_ok (toOption_eq_some.mp hstep)
      rw [not_confirm_of_gone hs' hl' hg'] at hconfirm
      cases hconfirm

/-- **The address is confirmed by its newest link alone**, in every interleaving of the
calls and the worker. A confirmation succeeds with the hash minted last, which is the
waiting row's, unexpired, while its requester is an owner; never again with that hash.
A call that supersedes the row leaves every link minted before it dead. And the address
in effect is set by a confirmation alone, to the waiting one, or cleared. -/
theorem newest_link_confirms [DecidableEq α] {es : List (ℤ × ContactOp α)} (hstart : s.Unsent)
    (hrun : s.run lower es = some s') :
    (∀ now hash limited t, s'.step lower (now, .confirm hash limited) = some t →
      (∃ r, s'.request = some r ∧ r.tokenHash = some hash ∧
        s'.links.getLast? = some ⟨r.id, hash⟩ ∧
        (∃ until_, r.expiresAt = some until_ ∧ now < until_) ∧
        (∃ user ∈ s'.owners, r.requestedBy = some user) ∧ t.confirmed = some r.email) ∧
      ∀ es' t', t.run lower es' = some t' → ∀ now' limited',
        t'.step lower (now', .confirm hash limited') = none) ∧
    (∀ now op t, s'.step lower (now, op) = some t → op.supersedes lower s' →
      ∀ l ∈ s'.links, ∀ es' t', t.run lower es' = some t' → ∀ now' limited',
        t'.step lower (now', .confirm l.hash limited') = none) ∧
    ∀ now op t, s'.step lower (now, op) = some t → t.confirmed ≠ s'.confirmed →
      (∃ hash limited, op = .confirm hash limited ∧
        ∃ r, s'.request = some r ∧ t.confirmed = some r.email) ∨
      ∃ user missed claimed limited, op = .change user none missed claimed limited ∧
        t.confirmed = none := by
  have hs' := sound_run_contact hstart.sound hrun
  refine ⟨fun now hash limited t hstep => ?_, fun now op t hstep hop l hl es' t' hrun' => ?_,
    fun now op t hstep hne => ?_⟩
  · obtain ⟨email, previous, hconfirm⟩ := confirmCall_eq_ok (toOption_eq_some.mp hstep)
    obtain ⟨r, hr, hhash, hlive, howner, hnone, hlinks, hids, hset, _⟩ :=
      confirmContactEmail_eq_some hconfirm
    have hnewest := hs'.newest r hr hash hhash
    refine ⟨⟨r, hr, hhash, hnewest, hlive, howner, hset⟩, fun es' t' hrun' now' limited' => ?_⟩
    have hmem : (⟨r.id, hash⟩ : EmailLink) ∈ t.links := hlinks ▸ List.mem_of_getLast? hnewest
    have hgone : t.gone r.id := by
      refine ⟨hids ▸ hs'.requested r hr, ?_⟩
      rw [hnone]
      exact fun q hq => by cases hq
    exact dead_run ((step_moved hstep).1.sound hs') hmem hgone hrun' now' limited'
  · have hmoved := (step_moved hstep).1
    exact dead_run (hmoved.sound hs') (hmoved.links_subset hl)
      (gone_of_supersedes hstep hop (hs'.linked l hl)) hrun'
  · rcases (step_moved hstep).2 with hsame | ⟨hash, limited, email, hop, hconfirm, hset⟩ | hclear
    · exact absurd hsame hne
    · obtain ⟨r, hr, _, _, _, _, _, _, hset', _⟩ := confirmContactEmail_eq_some hconfirm
      exact Or.inl ⟨hash, limited, hop, r, hr, hset'⟩
    · exact Or.inr hclear

/-- Nothing waits, nothing is confirmed, and the user 1 owns the business. -/
def quietContact : ContactEmail String := ⟨none, none, [], [1], [], [], 0⟩

/-- The owner asks for a link, and for another; the worker mints both and retries. -/
def askedTwice : List (ℤ × ContactOp String) :=
  [(0, .change 1 (some "a@b.nl") false true false), (1, .send 0 true),
    (2, .resend 1 (some "a@b.nl") false), (3, .send 1 true), (4, .send 0 true), (5, .send 1 true)]

/-- Only the last link minted confirms the address. -/
theorem newest_link_confirms_resent :
    ∃ s' t, quietContact.run id askedTwice = some s' ∧ s'.links.length = 3 ∧
      s'.step id (6, .confirm 2 false) = some t ∧ t.confirmed = some "a@b.nl" ∧
      (∀ hash < 2, s'.step id (6, .confirm hash false) = none) ∧
      ∀ es' t', t.run id es' = some t' → t'.step id (7, .confirm 2 false) = none := by
  have hrun := Option.isSome_iff_exists.mp
    (by decide +kernel : (quietContact.run id askedTwice).isSome)
  have hfacts : ∀ s' ∈ quietContact.run id askedTwice, s'.links.length = 3 ∧
      (s'.step id (6, .confirm 2 false)).isSome ∧
      ∀ t ∈ s'.step id (6, .confirm 2 false), t.confirmed = some "a@b.nl" := by decide +kernel
  have hdead : ∀ s' ∈ quietContact.run id askedTwice, ∀ hash < 2,
      (s'.step id (6, .confirm hash false)).isNone := by decide +kernel
  obtain ⟨s', hs'⟩ := hrun
  obtain ⟨hlinks, hok, hset⟩ := hfacts s' hs'
  obtain ⟨t, ht⟩ := Option.isSome_iff_exists.mp hok
  have hunsent : quietContact.Unsent := ⟨rfl, by simp [quietContact]⟩
  refine ⟨s', t, hs', hlinks, ht, hset t ht, fun hash hlt =>
    Option.isNone_iff_eq_none.mp (hdead s' hs' hash hlt), fun es' t' hrun' => ?_⟩
  exact ((newest_link_confirms hunsent hs').1 6 2 false t ht).2 es' t' hrun' 7 false

end Ziftbook
