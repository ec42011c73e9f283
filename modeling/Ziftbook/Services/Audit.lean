import Ziftbook.Services.Saves

/-!
# What the audit log says of a service

The business's log, replayed, gives every service as it is: its price and currency, how long it
takes, who performs it, whether it has a photo and since when it is archived. Saves that run
side by side leave the log of the order they committed in, and nothing is logged that changed
nothing.
-/

namespace Ziftbook.Services

open Foundation Foundation.Runs

/-! ## § Replaying -/

/-- What the log tells of a service. -/
structure View where
  amountMinor : Amount
  currency : Currency
  durationMinutes : Duration
  bufferMinutes : Option Buffer
  placeholder : Placeholder
  hasPhoto : Bool
  archivedAt : Option ℤ
  workers : Finset ℕ
deriving DecidableEq

/-- The users behind the members assigned to a service. -/
def Shop.performers (s : Shop) (service : ℕ) : Finset ℕ :=
  ((s.members.rows.filter fun m => ⟨service, m.id⟩ ∈ s.assigned).map MemberRow.userId).toFinset

def Shop.view (s : Shop) (row : ServiceRow) : View :=
  ⟨row.amountMinor, row.currency, row.durationMinutes, row.bufferMinutes, row.placeholder,
    row.photo.isSome, row.archivedAt, s.performers row.id⟩

/-- A field after an event: the old value is the one there, and the new one another. -/
def applied {α : Type} [DecidableEq α] (d : Option (Diff α)) (value : α) : Option α :=
  match d with
  | none => some value
  | some d => if d.old = value ∧ d.old ≠ d.new then some d.new else none

def photoApplied : Option PhotoChange → Bool → Option Bool
  | none, has => some has
  | some .added, false => some true
  | some .replaced, true => some true
  | some .removed, true => some false
  | _, _ => none

/-- A service after `service_changed`; an event of nothing is no event. -/
def ChangeDetails.applied (d : ChangeDetails) (at_ : ℤ) (v : View) : Option View :=
  if d = .empty then none
  else do
    let amountMinor ← Services.applied d.price v.amountMinor
    let durationMinutes ← Services.applied d.durationMinutes v.durationMinutes
    let bufferMinutes ← Services.applied d.bufferMinutes v.bufferMinutes
    let placeholder ← Services.applied d.placeholder v.placeholder
    let hasPhoto ← photoApplied d.photo v.hasPhoto
    let archived ← Services.applied d.archived v.archivedAt.isSome
    return { v with
      amountMinor, durationMinutes, bufferMinutes, placeholder, hasPhoto
      archivedAt := if archived then some (v.archivedAt.getD at_) else none }

/-- A service after the next event of the log. -/
def AuditEvent.applied (id : ℕ) (e : AuditEvent) (v : View) : Option View :=
  match e.action with
  | .serviceCreated service => if service = id then none else some v
  | .serviceChanged service d => if service = id then d.applied e.createdAt v else some v
  | .serviceWorkersChanged service added removed =>
      if service = id then
        if removed.toFinset ⊆ v.workers ∧ Disjoint added.toFinset v.workers ∧
            ¬ (added = [] ∧ removed = []) then
          some { v with workers := (v.workers \ removed.toFinset) ∪ added.toFinset }
        else none
      else some v
  | .memberRemoved user => some { v with workers := v.workers.erase user }
  | .currencyChanged old new =>
      if v.currency = old ∧ old ≠ new then some { v with currency := new } else none

/-- The service after the log's events, from how it was before them. -/
def viewAfter (id : ℕ) (v : Option View) (es : List AuditEvent) : Option View :=
  Journal.replay (fun v e => v.bind (e.applied id)) v es

/-- The service an event is about. -/
def AuditEvent.service? (e : AuditEvent) : Option ℕ :=
  match e.action with
  | .serviceCreated service => some service
  | .serviceChanged service _ => some service
  | .serviceWorkersChanged service _ _ => some service
  | _ => none

/-- The event says the service's name, or its description, changed. -/
def AuditEvent.renames (e : AuditEvent) (id : ℕ) : Prop :=
  ∃ d, e.action = .serviceChanged id d ∧ d.name = true

def AuditEvent.describes (e : AuditEvent) (id : ℕ) : Prop :=
  ∃ d, e.action = .serviceChanged id d ∧ d.description = true

/-- What the log's events say of a service on file before them and after. -/
structure Shop.Tells (s s' : Shop) (es : List AuditEvent) (row row' : ServiceRow) : Prop where
  same : row'.id = row.id
  replays : viewAfter row.id (some (s.view row)) es = some (s'.view row')
  name : (∀ e ∈ es, ¬ e.renames row.id) → row'.name = row.name
  description : (∀ e ∈ es, ¬ e.describes row.id) → row'.description = row.description

/-- Of a service created among the events: one says so, none before it is about the service,
and those after it lead from a service without workers, not archived, to how it is. -/
def Shop.Opens (s' : Shop) (es : List AuditEvent) (row' : ServiceRow) : Prop :=
  ∃ before created after, ∃ first : View, es = before ++ created :: after ∧
    created.action = .serviceCreated row'.id ∧ (∀ e ∈ before, e.service? ≠ some row'.id) ∧
    first.workers = ∅ ∧ first.archivedAt = none ∧
    viewAfter row'.id (some first) after = some (s'.view row')

/-- The events logged between two moments, and what they say of every service. -/
structure Shop.Logs (s s' : Shop) (es : List AuditEvent) : Prop where
  events : s'.events = s.events ++ es
  mentions : ∀ e ∈ es, ∀ id ∈ e.service?, ∃ row' ∈ s'.services.rows, row'.id = id
  kept : ∀ row ∈ s.services.rows, ∃ row' ∈ s'.services.rows, s.Tells s' es row row'
  opened : ∀ row' ∈ s'.services.rows, (∀ row ∈ s.services.rows, row.id ≠ row'.id) →
    s'.Opens es row'

variable {s s' : Shop} {es : List AuditEvent} {row row' : ServiceRow} {id : ℕ}

theorem viewAfter_append {v : Option View} {es' : List AuditEvent} :
    viewAfter id v (es ++ es') = viewAfter id (viewAfter id v es) es' :=
  Journal.replay_append

/-- An event about no service of that id, or about another. -/
theorem applied_of_other {v : View} {e : AuditEvent}
    (h : ∃ other, e.service? = some other ∧ other ≠ id) : e.applied id v = some v := by
  obtain ⟨other, he, hne⟩ := h
  obtain ⟨at_, action⟩ := e
  cases action with
  | serviceCreated service =>
      cases he
      exact if_neg hne
  | serviceChanged service d =>
      cases he
      exact if_neg hne
  | serviceWorkersChanged service added removed =>
      cases he
      exact if_neg hne
  | memberRemoved user => cases he
  | currencyChanged old new => cases he

theorem Shop.Logs.refl (s : Shop) : s.Logs s [] where
  events := (List.append_nil _).symm
  mentions := fun e he => by cases he
  kept := fun row hrow => ⟨row, hrow, rfl, rfl, fun _ => rfl, fun _ => rfl⟩
  opened := fun row' hrow' hnew => absurd rfl (hnew row' hrow')

/-- **Logs of two stretches make one.** -/
theorem Shop.Logs.trans {s'' : Shop} {es' : List AuditEvent} (h : s.Logs s' es)
    (h' : s'.Logs s'' es') : s.Logs s'' (es ++ es') where
  events := by rw [h'.events, h.events, List.append_assoc]
  mentions := by
    intro e he id hid
    rcases List.mem_append.mp he with he | he
    · obtain ⟨row', hrow', rfl⟩ := h.mentions e he id hid
      obtain ⟨row'', hrow'', htells⟩ := h'.kept row' hrow'
      exact ⟨row'', hrow'', htells.same⟩
    · exact h'.mentions e he id hid
  kept := by
    intro row hrow
    obtain ⟨row', hrow', htells⟩ := h.kept row hrow
    obtain ⟨row'', hrow'', htells'⟩ := h'.kept row' hrow'
    refine ⟨row'', hrow'', htells'.same.trans htells.same, ?_, fun hnone => ?_, fun hnone => ?_⟩
    · rw [viewAfter_append, htells.replays, ← htells.same, htells'.replays]
    · rw [htells'.name fun e he => htells.same ▸ hnone e (List.mem_append_right _ he),
        htells.name fun e he => hnone e (List.mem_append_left _ he)]
    · rw [htells'.description fun e he => htells.same ▸ hnone e (List.mem_append_right _ he),
        htells.description fun e he => hnone e (List.mem_append_left _ he)]
  opened := by
    intro row'' hrow'' hnew
    by_cases hmid : ∃ row' ∈ s'.services.rows, row'.id = row''.id
    · obtain ⟨row', hrow', hid⟩ := hmid
      obtain ⟨before, created, after, first, rfl, hcreated, hbefore, hworkers, harchived, hview⟩ :=
        h.opened row' hrow' (hid ▸ hnew)
      obtain ⟨row₂, hrow₂, htells⟩ := h'.kept row' hrow'
      have hsame : row₂ = row'' := s''.services.eq_of_key hrow₂ hrow'' (htells.same.trans hid)
      subst hsame
      refine ⟨before, created, after ++ es', first, by simp, hid ▸ hcreated, hid ▸ hbefore,
        hworkers, harchived, ?_⟩
      rw [viewAfter_append, ← hid, hview, htells.replays]
    · obtain ⟨before, created, after, first, rfl, hcreated, hbefore, hrest⟩ :=
        h'.opened row'' hrow'' fun row' hrow' hid => hmid ⟨row', hrow', hid⟩
      refine ⟨es ++ before, created, after, first, (List.append_assoc ..).symm, hcreated, ?_,
        hrest⟩
      intro e he hid
      rcases List.mem_append.mp he with he | he
      · exact hmid (h.mentions e he row''.id hid)
      · exact hbefore e he hid

/-! ## § What holds of the tables -/

/-- An assignment is of a service and a member on file, a person has one membership, and prices
are in the business's currency. -/
structure Shop.Sound (s : Shop) : Prop where
  services : ∀ a ∈ s.assigned, ∃ row ∈ s.services.rows, row.id = a.service
  members : ∀ a ∈ s.assigned, ∃ m ∈ s.members.rows, m.id = a.member
  users : (s.members.rows.map MemberRow.userId).Nodup
  priced : ∀ row ∈ s.services.rows, row.currency = s.currency

/-- A transaction keeps what holds, and logs what it did. -/
def Shop.Writes (s s' : Shop) : Prop := s.Sound → s'.Sound ∧ ∃ es, s.Logs s' es

theorem Shop.Writes.refl (s : Shop) : s.Writes s := fun h => ⟨h, [], .refl s⟩

theorem Shop.Writes.trans {s'' : Shop} (h : s.Writes s') (h' : s'.Writes s'') : s.Writes s'' := by
  intro hsound
  obtain ⟨hsound', es, hlogs⟩ := h hsound
  obtain ⟨hsound'', es', hlogs'⟩ := h' hsound'
  exact ⟨hsound'', es ++ es', hlogs.trans hlogs'⟩

theorem mem_performers {u service : ℕ} : u ∈ s.performers service ↔
    ∃ m ∈ s.members.rows, (⟨service, m.id⟩ : Assignment) ∈ s.assigned ∧ m.userId = u := by
  simp only [Shop.performers, List.mem_toFinset, List.mem_map, List.mem_filter, decide_eq_true_eq,
    and_assoc]

/-- Services and their performers stay, and nothing is logged. -/
theorem quiet_writes (hsound' : s.Sound → s'.Sound) (hservices : s'.services = s.services)
    (hevents : s'.events = s.events)
    (hworkers : s.Sound → ∀ id, s'.performers id = s.performers id) : s.Writes s' := by
  intro hsound
  have hview : ∀ row, s'.view row = s.view row := fun row => by
    rw [Shop.view, Shop.view, hworkers hsound]
  refine ⟨hsound' hsound, [], hevents.trans (List.append_nil _).symm, fun e he => (by cases he),
    fun row hrow => ⟨row, hservices ▸ hrow, rfl, ?_, fun _ => rfl, fun _ => rfl⟩,
    fun row' hrow' hnew => absurd rfl (hnew row' (hservices ▸ hrow'))⟩
  rw [hview]
  rfl

/-- One event that leaves the set of services as it is. -/
theorem logs_one {e : AuditEvent} (hevents : s'.events = s.events ++ [e])
    (hmentions : ∀ id ∈ e.service?, ∃ row' ∈ s'.services.rows, row'.id = id)
    (hkept : ∀ row ∈ s.services.rows, ∃ row' ∈ s'.services.rows, row'.id = row.id ∧
      e.applied row.id (s.view row) = some (s'.view row') ∧
      (¬ e.renames row.id → row'.name = row.name) ∧
      (¬ e.describes row.id → row'.description = row.description))
    (hold : ∀ row' ∈ s'.services.rows, ∃ row ∈ s.services.rows, row.id = row'.id) :
    s.Logs s' [e] where
  events := hevents
  mentions := fun e' he => by rwa [List.mem_singleton.mp he]
  kept := by
    intro row hrow
    obtain ⟨row', hrow', hsame, hview, hname, hdescription⟩ := hkept row hrow
    exact ⟨row', hrow', hsame, hview, fun h => hname (h e (List.mem_singleton_self e)),
      fun h => hdescription (h e (List.mem_singleton_self e))⟩
  opened := by
    intro row' hrow' hnew
    obtain ⟨row, hrow, hid⟩ := hold row' hrow'
    exact absurd hid (hnew row hrow)

/-! ## § Who performs a service -/

/-- Members locked as many as asked for are those asked for. -/
theorem exists_locked {ids : List ℕ} (hlength : (s.members.rows.filter fun m =>
      m.id ∈ ids ∧ m.removed = false).length = ids.length) {i : ℕ} (hi : i ∈ ids) :
    ∃ m ∈ s.members.rows, m.removed = false ∧ m.id = i := by
  set users := s.members.rows.filter fun m => m.id ∈ ids ∧ m.removed = false with husers
  have hnodup : (users.map MemberRow.id).Nodup :=
    s.members.keyed.sublist (List.filter_sublist.map _)
  have hsub : users.map MemberRow.id ⊆ ids := by
    intro j hj
    obtain ⟨m, hm, rfl⟩ := List.mem_map.mp hj
    exact (of_decide_eq_true (List.mem_filter.mp hm).2).1
  have hperm : (users.map MemberRow.id).Perm ids :=
    (hnodup.subperm hsub).perm_of_length_le (by rw [List.length_map, hlength])
  obtain ⟨m, hm, hid⟩ := List.mem_map.mp (hperm.mem_iff.mpr hi)
  obtain ⟨hrow, hm⟩ := List.mem_filter.mp hm
  exact ⟨m, hrow, (of_decide_eq_true hm).2, hid⟩

theorem mem_usersOf {members : List MemberRow} {u : ℕ} :
    u ∈ usersOf members ↔ ∃ m ∈ members, m.userId = u := by
  rw [usersOf, List.mem_insertionSort, List.mem_map]

/-- The assignments once a service's are those of the members asked for. -/
def reassigned (assigned : List Assignment) (service : ℕ) (ids : List ℕ) : List Assignment :=
  assigned.filter (fun a => ¬ (a.service = service ∧ a.member ∉ ids)) ++
    (ids.filter fun id => ⟨service, id⟩ ∉ assigned).map fun id => ⟨service, id⟩

theorem mem_reassigned {assigned : List Assignment} {service : ℕ} {ids : List ℕ}
    {a : Assignment} : a ∈ reassigned assigned service ids ↔
      if a.service = service then a.member ∈ ids else a ∈ assigned := by
  obtain ⟨service', member⟩ := a
  simp only [reassigned, List.mem_append, List.mem_filter, List.mem_map, decide_eq_true_eq,
    Assignment.mk.injEq]
  split_ifs with h
  · subst h
    constructor
    · rintro (⟨-, hkept⟩ | ⟨id, ⟨hid, -⟩, -, rfl⟩)
      · by_contra hnot
        exact hkept ⟨rfl, hnot⟩
      · exact hid
    · intro hid
      by_cases hold : (⟨service', member⟩ : Assignment) ∈ assigned
      · exact .inl ⟨hold, fun hgone => hgone.2 hid⟩
      · exact .inr ⟨member, ⟨hid, hold⟩, rfl, rfl⟩
  · constructor
    · rintro (⟨hold, -⟩ | ⟨id, -, hservice, -⟩)
      · exact hold
      · exact absurd hservice.symm h
    · exact fun hold => .inl ⟨hold, fun hgone => h hgone.1⟩

theorem performers_reassigned {service other : ℕ} {ids : List ℕ} {u : ℕ} :
    u ∈ ({ s with assigned := reassigned s.assigned service ids } : Shop).performers other ↔
      ∃ m ∈ s.members.rows, m.userId = u ∧
        if other = service then m.id ∈ ids else (⟨other, m.id⟩ : Assignment) ∈ s.assigned := by
  rw [mem_performers]
  refine exists_congr fun m => and_congr_right fun _ => ?_
  rw [mem_reassigned, and_comm]

/-- The users behind the members who came, and behind those who went. -/
theorem mem_cameWent {service : ℕ} {ids : List ℕ}
    (hlocked : ∀ i ∈ ids, ∃ m ∈ s.members.rows, m.removed = false ∧ m.id = i) {u : ℕ} :
    (u ∈ usersOf ((s.members.rows.filter fun m => m.id ∈ ids ∧ m.removed = false).filter fun m =>
        m.id ∈ ids.filter fun id => ⟨service, id⟩ ∉ s.assigned) ↔
      ∃ m ∈ s.members.rows, m.userId = u ∧ m.id ∈ ids ∧
        (⟨service, m.id⟩ : Assignment) ∉ s.assigned) ∧
    (u ∈ usersOf (s.members.rows.filter fun m =>
        m.id ∈ (s.assigned.filter fun a => a.service = service ∧ a.member ∉ ids).map
          Assignment.member) ↔
      ∃ m ∈ s.members.rows, m.userId = u ∧ m.id ∉ ids ∧
        (⟨service, m.id⟩ : Assignment) ∈ s.assigned) := by
  constructor
  · simp only [mem_usersOf, List.mem_filter, decide_eq_true_eq]
    constructor
    · rintro ⟨m, ⟨⟨hm, -⟩, hid, hnew⟩, rfl⟩
      exact ⟨m, hm, rfl, hid, hnew⟩
    · rintro ⟨m, hm, rfl, hid, hnew⟩
      obtain ⟨m', hm', hcurrent, hsame⟩ := hlocked m.id hid
      rw [s.members.eq_of_key hm' hm hsame] at hcurrent
      exact ⟨m, ⟨⟨hm, hid, hcurrent⟩, hid, hnew⟩, rfl⟩
  · simp only [mem_usersOf, List.mem_filter, List.mem_map, decide_eq_true_eq]
    constructor
    · rintro ⟨m, ⟨hm, ⟨service', member⟩, ⟨hold, rfl, hgone⟩, rfl⟩, rfl⟩
      exact ⟨m, hm, rfl, hgone, hold⟩
    · rintro ⟨m, hm, rfl, hgone, hold⟩
      exact ⟨m, ⟨hm, ⟨service, m.id⟩, ⟨hold, rfl, hgone⟩, rfl⟩, rfl⟩

/-- The event of who came and who went, replayed. -/
theorem applied_reassigned (hsound : s.Sound) {now : ℤ} {ids came went : List ℕ}
    (hcame : ∀ u, u ∈ came ↔ ∃ m ∈ s.members.rows, m.userId = u ∧ m.id ∈ ids ∧
      (⟨row.id, m.id⟩ : Assignment) ∉ s.assigned)
    (hwent : ∀ u, u ∈ went ↔ ∃ m ∈ s.members.rows, m.userId = u ∧ m.id ∉ ids ∧
      (⟨row.id, m.id⟩ : Assignment) ∈ s.assigned)
    (hsome : ¬ (came = [] ∧ went = [])) :
    (AuditEvent.mk now (.serviceWorkersChanged row.id came went)).applied row.id (s.view row) =
      some (({ s with assigned := reassigned s.assigned row.id ids } : Shop).view row) := by
  have hone : ∀ m ∈ s.members.rows, ∀ m' ∈ s.members.rows, m'.userId = m.userId → m' = m :=
    fun m hm m' hm' hsame => List.inj_on_of_nodup_map hsound.users hm' hm hsame
  have hsub : went.toFinset ⊆ s.performers row.id := by
    intro u hu
    obtain ⟨m, hm, hu, -, hold⟩ := (hwent u).mp (List.mem_toFinset.mp hu)
    exact mem_performers.mpr ⟨m, hm, hold, hu⟩
  have hdisjoint : Disjoint came.toFinset (s.performers row.id) := by
    refine Finset.disjoint_left.mpr fun u hu hold => ?_
    obtain ⟨m, hm, rfl, -, hnew⟩ := (hcame u).mp (List.mem_toFinset.mp hu)
    obtain ⟨m', hm', hold, hsame⟩ := mem_performers.mp hold
    exact hnew (hone m hm m' hm' hsame ▸ hold)
  have hworkers : (s.performers row.id \ went.toFinset) ∪ came.toFinset =
      ({ s with assigned := reassigned s.assigned row.id ids } : Shop).performers row.id := by
    ext u
    rw [performers_reassigned, Finset.mem_union, Finset.mem_sdiff, List.mem_toFinset,
      List.mem_toFinset, hcame, hwent, mem_performers]
    simp only [if_true]
    constructor
    · rintro (⟨⟨m, hm, hold, rfl⟩, hstays⟩ | ⟨m, hm, rfl, hid, -⟩)
      · refine ⟨m, hm, rfl, ?_⟩
        by_contra hgone
        exact hstays ⟨m, hm, rfl, hgone, hold⟩
      · exact ⟨m, hm, rfl, hid⟩
    · rintro ⟨m, hm, rfl, hid⟩
      by_cases hold : (⟨row.id, m.id⟩ : Assignment) ∈ s.assigned
      · refine .inl ⟨⟨m, hm, hold, rfl⟩, ?_⟩
        rintro ⟨m', hm', hsame, hgone, -⟩
        exact hgone (hone m hm m' hm' hsame ▸ hid)
      · exact .inr ⟨m, hm, rfl, hid, hold⟩
  show (if row.id = row.id then
    if went.toFinset ⊆ s.performers row.id ∧ Disjoint came.toFinset (s.performers row.id) ∧
        ¬ (came = [] ∧ went = []) then
      some { s.view row with
        workers := (s.performers row.id \ went.toFinset) ∪ came.toFinset }
    else none
    else some (s.view row)) = _
  rw [if_pos rfl, if_pos ⟨hsub, hdisjoint, hsome⟩, hworkers]
  rfl

/-- **Assigning members** logs who came and who went. -/
theorem assignWorkers_writes {now : ℤ} {service : ℕ} {memberIds : List ℕ}
    (hservice : ∃ row ∈ s.services.rows, row.id = service)
    (h : s.assignWorkers now service memberIds = .ok s') : s.Writes s' := by
  unfold Shop.assignWorkers at h
  set ids := memberIds.dedup.insertionSort (· ≤ ·) with hids
  simp only at h
  split_ifs at h with hlength hnothing
  · -- nobody came or went
    have hsame : reassigned s.assigned service ids = s.assigned := by
      rw [reassigned, hnothing.1, List.map_nil, List.append_nil, List.filter_eq_self]
      intro a ha
      exact decide_eq_true fun hgone => List.not_mem_nil
        (hnothing.2 ▸ List.mem_filter.mpr ⟨ha, decide_eq_true hgone⟩)
    have hs : s' = s := by
      cases h
      show { s with assigned := reassigned s.assigned service ids } = s
      rw [hsame]
    exact hs ▸ .refl s
  · cases h
    intro hsound
    have hlocked : ∀ i ∈ ids, ∃ m ∈ s.members.rows, m.removed = false ∧ m.id = i :=
      fun i hi => exists_locked (not_not.mp hlength) hi
    set came := usersOf ((s.members.rows.filter fun m => m.id ∈ ids ∧ m.removed = false).filter
      fun m => m.id ∈ ids.filter fun id => ⟨service, id⟩ ∉ s.assigned) with hcame
    set went := usersOf (s.members.rows.filter fun m => m.id ∈
      (s.assigned.filter fun a => a.service = service ∧ a.member ∉ ids).map
        Assignment.member) with hwent
    have hcame : ∀ u, u ∈ came ↔ _ := fun u => (mem_cameWent (u := u) hlocked).1
    have hwent : ∀ u, u ∈ went ↔ _ := fun u => (mem_cameWent (u := u) hlocked).2
    refine ⟨⟨?_, ?_, hsound.users, hsound.priced⟩, _, logs_one rfl ?_ ?_ ?_⟩
    · intro a ha
      have ha := mem_reassigned.mp ha
      split_ifs at ha with hthis
      · exact hthis ▸ hservice
      · exact hsound.services a ha
    · intro a ha
      have ha := mem_reassigned.mp ha
      split_ifs at ha with hthis
      · obtain ⟨m, hm, -, hid⟩ := hlocked a.member ha
        exact ⟨m, hm, hid⟩
      · exact hsound.members a ha
    · intro id hid
      cases hid
      exact hservice
    · intro row hrow
      refine ⟨row, hrow, rfl, ?_, fun _ => rfl, fun _ => rfl⟩
      have hsome : ¬ (came = [] ∧ went = []) := by
        rintro ⟨hnone, hnone'⟩
        refine hnothing ⟨List.eq_nil_iff_forall_not_mem.mpr fun i hi => ?_,
          List.eq_nil_iff_forall_not_mem.mpr fun a ha => ?_⟩
        · obtain ⟨hi, hnew⟩ := List.mem_filter.mp hi
          obtain ⟨m, hm, -, rfl⟩ := hlocked i hi
          exact List.not_mem_nil (hnone ▸ (hcame _).mpr ⟨m, hm, rfl, hi, of_decide_eq_true hnew⟩)
        · obtain ⟨hold, hwas⟩ := List.mem_filter.mp ha
          obtain ⟨rfl, hgone⟩ := of_decide_eq_true hwas
          obtain ⟨m, hm, hid⟩ := hsound.members a hold
          refine List.not_mem_nil (hnone' ▸ (hwent _).mpr ⟨m, hm, rfl, hid ▸ hgone, ?_⟩)
          rw [hid]
          exact hold
      by_cases hthis : service = row.id
      · subst hthis
        exact applied_reassigned hsound hcame hwent hsome
      · rw [applied_of_other ⟨service, rfl, hthis⟩]
        have hworkers : ({ s with assigned := reassigned s.assigned service ids } : Shop).performers
            row.id = s.performers row.id := by
          ext u
          rw [performers_reassigned, mem_performers]
          simp only [if_neg (Ne.symm hthis)]
          exact exists_congr fun m => and_congr_right fun _ => and_comm
        unfold Shop.view
        congr 2
        exact hworkers.symm
    · exact fun row hrow => ⟨row, hrow, rfl⟩

/-- The memberships keep their ids and users. -/
def SameMembers (s s' : Shop) : Prop := ∀ id u,
  (∃ m ∈ s'.members.rows, m.id = id ∧ m.userId = u) ↔
    ∃ m ∈ s.members.rows, m.id = id ∧ m.userId = u

/-- Ending a membership, or taking it up again, keeps its id and user. -/
theorem map_userId_update {members : Table MemberRow ℕ MemberRow.id} {p : MemberRow → Prop}
    [DecidablePred p] {removed : Bool} :
    (members.update p (fun m => { m with removed := removed }) fun _ => rfl).rows.map
      MemberRow.userId = members.rows.map MemberRow.userId := by
  rw [Table.update, List.map_map]
  refine List.map_congr_left fun m _ => ?_
  simp only [Function.comp_apply]
  split <;> rfl

theorem sameMembers_update {p : MemberRow → Prop} [DecidablePred p] {removed : Bool}
    (h : s'.members = s.members.update p (fun m => { m with removed := removed }) fun _ => rfl) :
    SameMembers s s' := by
  intro id u
  rw [h]
  constructor
  · rintro ⟨m, hm, rfl, rfl⟩
    obtain ⟨m', hm', -, rfl | ⟨-, rfl⟩⟩ := Table.mem_of_mem_update hm
    · exact ⟨m, hm', rfl, rfl⟩
    · exact ⟨m', hm', rfl, rfl⟩
  · rintro ⟨m, hm, rfl, rfl⟩
    by_cases hp : p m
    · exact ⟨_, Table.mem_update.mpr (.inl ⟨m, hm, hp, rfl⟩), rfl, rfl⟩
    · exact ⟨m, Table.mem_update.mpr (.inr ⟨hm, hp⟩), rfl, rfl⟩

theorem replaceWorkers_writes {now : ℤ} {service : ℕ} {memberIds : List ℕ}
    (h : s.replaceWorkers now service memberIds = .ok s') : s.Writes s' := by
  unfold Shop.replaceWorkers at h
  cases hfind : s.services.find service with
  | none => rw [hfind] at h; cases h
  | some row =>
      rw [hfind] at h
      exact assignWorkers_writes ⟨row, Table.find_eq_some.mp hfind⟩ h

/-- **Removing a member** ends their assignments, and says who. -/
theorem removeMember_writes {now : ℤ} {memberId : ℕ} (h : s.removeMember now memberId = .ok s') :
    s.Writes s' := by
  unfold Shop.removeMember at h
  cases hfind : s.members.rows.find? fun m => m.id = memberId ∧ m.removed = false with
  | none => rw [hfind] at h; cases h
  | some m =>
      have hfound := List.find?_some hfind
      obtain ⟨rfl, -⟩ := of_decide_eq_true hfound
      have hm := List.mem_of_find?_eq_some hfind
      simp only [hfind, Except.ok.injEq] at h
      subst h
      intro hsound
      set s' := ({ s with
        assigned := s.assigned.filter fun a => a.member ≠ m.id
        members := s.members.update (fun r => r.id = m.id) (fun r => { r with removed := true })
          fun _ => rfl } : Shop) with hs'
      have hsame : SameMembers s s' := sameMembers_update rfl
      have hworkers : ∀ id, (s.performers id).erase m.userId = s'.performers id := by
        intro id
        ext u
        rw [Finset.mem_erase, mem_performers, mem_performers]
        simp only [hs', List.mem_filter, decide_eq_true_eq]
        constructor
        · rintro ⟨hne, r, hr, hold, rfl⟩
          obtain ⟨r', hr', hid, huser⟩ := (hsame r.id r.userId).mpr ⟨r, hr, rfl, rfl⟩
          refine ⟨r', hr', ⟨hid ▸ hold, fun hthis => hne ?_⟩, huser⟩
          rw [s.members.eq_of_key hr hm (hid.symm.trans hthis)]
        · rintro ⟨r', hr', ⟨hold, hne⟩, rfl⟩
          obtain ⟨r, hr, hid, huser⟩ := (hsame r'.id r'.userId).mp ⟨r', hr', rfl, rfl⟩
          refine ⟨fun hthis => hne ?_, r, hr, hid ▸ hold, huser⟩
          rw [← hid, List.inj_on_of_nodup_map hsound.users hr hm (huser.trans hthis)]
      refine ⟨⟨fun a ha => hsound.services a (List.mem_of_mem_filter ha), fun a ha => ?_, ?_,
        hsound.priced⟩, _, logs_one rfl (fun id hid => nomatch hid)
          (fun row hrow => ⟨row, hrow, rfl, ?_, fun _ => rfl, fun _ => rfl⟩)
          fun row hrow => ⟨row, hrow, rfl⟩⟩
      · obtain ⟨r, hr, hid⟩ := hsound.members a (List.mem_of_mem_filter ha)
        obtain ⟨r', hr', hid', -⟩ := (hsame r.id r.userId).mpr ⟨r, hr, rfl, rfl⟩
        exact ⟨r', hr', hid'.trans hid⟩
      · have husers : s'.members.rows.map MemberRow.userId = s.members.rows.map MemberRow.userId :=
          map_userId_update
        exact husers ▸ hsound.users
      · show some { s.view row with workers := (s.performers row.id).erase m.userId } = _
        rw [hworkers]
        rfl

/-- **A member who joins** performs what they did, or nothing yet. -/
theorem acceptInvite_writes {user : ℕ} : s.Writes (s.acceptInvite user) := by
  unfold Shop.acceptInvite
  split_ifs with hthere
  · set s' := ({ s with
      members := s.members.update (fun m => m.userId = user ∧ m.removed = true)
        (fun m => { m with removed := false }) fun _ => rfl } : Shop) with hs'
    have hsame : SameMembers s s' := sameMembers_update rfl
    have husers : s'.members.rows.map MemberRow.userId = s.members.rows.map MemberRow.userId :=
      map_userId_update
    refine quiet_writes (fun hsound => ⟨hsound.services, fun a ha => ?_, husers ▸ hsound.users,
      hsound.priced⟩) rfl rfl fun _ id => ?_
    · obtain ⟨m, hm, hid⟩ := hsound.members a ha
      obtain ⟨m', hm', hid', -⟩ := (hsame m.id m.userId).mpr ⟨m, hm, rfl, rfl⟩
      exact ⟨m', hm', hid'.trans hid⟩
    · ext u
      rw [mem_performers, mem_performers]
      constructor
      · rintro ⟨m', hm', hold, rfl⟩
        obtain ⟨m, hm, hid, huser⟩ := (hsame m'.id m'.userId).mp ⟨m', hm', rfl, rfl⟩
        exact ⟨m, hm, hid ▸ hold, huser⟩
      · rintro ⟨m, hm, hold, rfl⟩
        obtain ⟨m', hm', hid, huser⟩ := (hsame m.id m.userId).mpr ⟨m, hm, rfl, rfl⟩
        exact ⟨m', hm', hid ▸ hold, huser⟩
  · refine quiet_writes (fun hsound => ⟨hsound.services, fun a ha => ?_, ?_, hsound.priced⟩) rfl
      rfl fun hsound id => ?_
    · obtain ⟨m, hm, hid⟩ := hsound.members a ha
      exact ⟨m, List.mem_append_left _ hm, hid⟩
    · show ((s.members.rows ++ [(⟨s.nextMember, user, false⟩ : MemberRow)]).map
        MemberRow.userId).Nodup
      rw [List.map_append, List.map_singleton, ← List.concat_eq_append, List.nodup_concat]
      refine ⟨fun hin => ?_, hsound.users⟩
      obtain ⟨m, hm, huser⟩ := List.mem_map.mp hin
      exact hthere ⟨m, hm, huser⟩
    · ext u
      rw [mem_performers, mem_performers]
      constructor
      · rintro ⟨m, hm, hold, rfl⟩
        rcases List.mem_append.mp hm with hm | hm
        · exact ⟨m, hm, hold, rfl⟩
        · -- the id is new, so nobody was assigned under it
          obtain ⟨m', hm', hid⟩ := hsound.members _ hold
          rw [List.mem_singleton.mp hm] at hid
          exact absurd hid (Clients.lt_foldr_max _ (List.mem_map_of_mem hm')).ne
      · rintro ⟨m, hm, hold, rfl⟩
        exact ⟨m, List.mem_append_left _ hm, hold, rfl⟩

/-- **A currency changed** relabels every price. -/
theorem changeCurrency_writes {now : ℤ} {currency : Currency} {confirmed : Option ℕ}
    (h : s.changeCurrency now currency confirmed = .ok s') : s.Writes s' := by
  unfold Shop.changeCurrency at h
  split_ifs at h with hsame
  · cases h
    exact .refl s
  · simp only [Except.ok.injEq] at h
    subst h
    intro hsound
    have hrow : ∀ {row}, row ∈ (s.services.update (fun _ => True)
        (fun row => { row with currency := currency }) fun _ => rfl).rows ↔
          ∃ old ∈ s.services.rows, { old with currency := currency } = row := by
      intro row
      rw [Table.mem_update]
      simp
    refine ⟨⟨fun a ha => ?_, hsound.members, hsound.users, fun row hin => ?_⟩, _,
      logs_one rfl (fun id hid => nomatch hid) (fun row hin => ?_) fun row hin => ?_⟩
    · obtain ⟨row, hin, hid⟩ := hsound.services a ha
      exact ⟨_, hrow.mpr ⟨row, hin, rfl⟩, hid⟩
    · obtain ⟨old, -, rfl⟩ := hrow.mp hin
      rfl
    · refine ⟨_, hrow.mpr ⟨row, hin, rfl⟩, rfl, ?_, fun _ => rfl, fun _ => rfl⟩
      exact if_pos ⟨hsound.priced row hin, hsame⟩
    · obtain ⟨old, hold, rfl⟩ := hrow.mp hin
      exact ⟨old, hold, rfl⟩

/-! ## § Services -/

theorem applied_diff {α : Type} [DecidableEq α] {before : α} {sent : Option α} :
    applied (diff before sent) before = some (sent.getD before) := by
  cases sent with
  | none => rfl
  | some value =>
      by_cases h : before = value
      · simp [diff, applied, h]
      · simp [diff, applied, h]

/-- What becomes of a photo, replayed. -/
theorem photoApplied_photoChange {swap : Bool} {stored : Option Photo} :
    photoApplied (if row.swaps swap stored then some (photoChange row.photo stored) else none)
        row.photo.isSome =
      some (if row.swaps swap stored then stored else row.photo).isSome := by
  by_cases h : row.swaps swap stored
  · rw [if_pos h, if_pos h]
    cases hphoto : row.photo with
    | none =>
        cases stored with
        | none => simp [ServiceRow.swaps, hphoto] at h
        | some photo => rfl
    | some old => cases stored <;> rfl
  · rw [if_neg h, if_neg h]
    cases row.photo <;> rfl

variable {change : ServiceChange} {swap : Bool} {stored : Option Photo} {now : ℤ}

/-- **What a Save says it changed is what it changed.** -/
theorem details_applied (hsome : change.details row swap stored ≠ .empty) :
    (change.details row swap stored).applied now (s.view row) =
      some { s.view row with
        amountMinor := change.amountMinor.getD row.amountMinor
        durationMinutes := change.durationMinutes.getD row.durationMinutes
        bufferMinutes := change.bufferMinutes.getD row.bufferMinutes
        placeholder := change.placeholder.getD row.placeholder
        hasPhoto := (if row.swaps swap stored then stored else row.photo).isSome
        archivedAt := if change.archived.getD row.archivedAt.isSome then
            some (row.archivedAt.getD now)
          else none } := by
  rw [ChangeDetails.applied, if_neg hsome]
  simp only [ServiceChange.details, Shop.view, applied_diff, photoApplied_photoChange,
    Option.bind_eq_bind, Option.bind_some]
  rfl

theorem eq_getD_of_diff {α : Type} [DecidableEq α] {before : α} {sent : Option α}
    (h : (diff before sent).isSome = false) : sent.getD before = before := by
  cases sent with
  | none => rfl
  | some value =>
      by_contra hne
      have hdiffers : before ≠ value := fun hsame => hne hsame.symm
      simp [diff, hdiffers] at h

theorem dropPhoto_same {swapped : Bool} {old : Option PhotoKey} :
    ∃ jobs, s.dropPhoto swapped old = { s with jobs := jobs } := by
  unfold Shop.dropPhoto
  split
  · exact ⟨_, rfl⟩
  · exact ⟨s.jobs, rfl⟩

/-- **A Save of a service on file** logs what it changed, and nothing when it changed nothing. -/
theorem updateService_writes (h : s.updateService now id change swap stored = .ok s') :
    s.Writes s' := by
  unfold Shop.updateService at h
  cases hfind : s.services.find id with
  | none => rw [hfind] at h; cases h
  | some row =>
      obtain ⟨hin, rfl⟩ := Table.find_eq_some.mp hfind
      simp only [hfind] at h
      split_ifs at h with hempty
      · cases h
        exact .refl s
      · simp only [Except.ok.injEq] at h
        set updated := ({ s with
          services := s.services.update (fun r => r.id = row.id) (change.apply now swap stored)
            fun _ => rfl } : Shop) with hupdated
        have hdropped : ∃ jobs, updated.dropPhoto (row.swaps swap stored) row.photoKey =
          { updated with jobs := jobs } := dropPhoto_same
        obtain ⟨jobs, hjobs⟩ := hdropped
        rw [hjobs] at h
        subst h
        have hrow : ∀ {r'}, r' ∈ updated.services.rows ↔ ∃ r ∈ s.services.rows,
            (if r.id = row.id then change.apply now swap stored r else r) = r' := List.mem_map
        have hid : ∀ r : ServiceRow,
            (if r.id = row.id then change.apply now swap stored r else r).id = r.id := by
          intro r
          split <;> rfl
        intro hsound
        refine ⟨⟨fun a ha => ?_, hsound.members, hsound.users, fun r' hr' => ?_⟩, _,
          logs_one rfl (fun id hsome => ?_) (fun r hr => ?_) fun r' hr' => ?_⟩
        · obtain ⟨r, hr, hservice⟩ := hsound.services a ha
          exact ⟨_, hrow.mpr ⟨r, hr, rfl⟩, (hid r).trans hservice⟩
        · obtain ⟨r, hr, rfl⟩ := hrow.mp hr'
          have hpriced := hsound.priced r hr
          split
          · exact hpriced
          · exact hpriced
        · cases hsome
          exact ⟨_, hrow.mpr ⟨row, hin, rfl⟩, hid row⟩
        · refine ⟨_, hrow.mpr ⟨r, hr, rfl⟩, hid r, ?_⟩
          by_cases hthis : r.id = row.id
          · obtain rfl := s.services.eq_of_key hr hin hthis
            rw [if_pos rfl]
            refine ⟨?_, fun hname => eq_getD_of_diff ?_, fun hdescription => eq_getD_of_diff ?_⟩
            · show (if r.id = r.id then (change.details r swap stored).applied now (s.view r)
                else some (s.view r)) = _
              rw [if_pos rfl, details_applied hempty]
              rfl
            · exact Bool.eq_false_iff.mpr fun hsome => hname ⟨_, rfl, hsome⟩
            · exact Bool.eq_false_iff.mpr fun hsome => hdescription ⟨_, rfl, hsome⟩
          · rw [if_neg hthis]
            exact ⟨applied_of_other ⟨row.id, rfl, Ne.symm hthis⟩, fun _ => rfl, fun _ => rfl⟩
        · obtain ⟨r, hr, rfl⟩ := hrow.mp hr'
          exact ⟨r, hr, (hid r).symm⟩

/-- **A Save of a new service** logs that it was created, and then who performs it. -/
theorem createService_writes {new : ServiceIn}
    (h : s.createService now id new stored = .ok s') : s.Writes s' := by
  unfold Shop.createService at h
  cases hinsert : s.services.insert (new.row id s.currency stored) with
  | none => rw [hinsert] at h; cases h
  | some services =>
      obtain ⟨hfresh, hrows⟩ := Table.insert_eq_some hinsert
      simp only [hinsert] at h
      set created := ({ s with services := services }.record now (.serviceCreated id) : Shop)
        with hcreated
      have hin : new.row id s.currency stored ∈ created.services.rows :=
        hrows ▸ List.mem_append_right _ (List.mem_singleton_self _)
      have hold : ∀ r ∈ s.services.rows, r ∈ created.services.rows :=
        fun r hr => hrows ▸ List.mem_append_left _ hr
      have hwrites : s.Writes created := by
        intro hsound
        refine ⟨⟨fun a ha => ?_, hsound.members, hsound.users, fun r hr => ?_⟩,
          [⟨now, .serviceCreated id⟩], ⟨rfl, ?_, fun r hr => ?_, fun r hr hnew => ?_⟩⟩
        · obtain ⟨r, hr, hservice⟩ := hsound.services a ha
          exact ⟨r, hold r hr, hservice⟩
        · rcases List.mem_append.mp (hrows ▸ hr : r ∈ s.services.rows ++ _) with hr | hr
          · exact hsound.priced r hr
          · rw [List.mem_singleton.mp hr]
            rfl
        · intro e he other hother
          rw [List.mem_singleton.mp he] at hother
          cases hother
          exact ⟨_, hin, rfl⟩
        · refine ⟨r, hold r hr, rfl, ?_, fun _ => rfl, fun _ => rfl⟩
          exact if_neg (Ne.symm (hfresh r hr))
        · rcases List.mem_append.mp (hrows ▸ hr : r ∈ s.services.rows ++ _) with hr | hr
          · exact absurd rfl (hnew r hr)
          · rw [List.mem_singleton.mp hr]
            refine ⟨[], _, [], _, rfl, rfl, fun e he => (by cases he), ?_, rfl, rfl⟩
            refine Finset.eq_empty_of_forall_notMem fun u hu => ?_
            obtain ⟨m, -, hassigned, -⟩ := mem_performers.mp hu
            obtain ⟨r', hr', hservice⟩ := hsound.services _ hassigned
            exact hfresh r' hr' hservice
      split_ifs at h with hnobody
      · simp only [Except.ok.injEq] at h
        exact h ▸ hwrites
      · exact hwrites.trans (assignWorkers_writes ⟨_, hin, rfl⟩ h)

/-! ## § Any run -/

theorem deed_writes {deed : Deed} (h : deed.exec s = .ok s') : s.Writes s' := by
  cases deed with
  | replaceWorkers now service memberIds => exact replaceWorkers_writes h
  | removeMember now memberId => exact removeMember_writes h
  | acceptInvite user =>
      cases h
      exact acceptInvite_writes
  | changeCurrency now currency confirmed => exact changeCurrency_writes h
  | book =>
      cases h
      exact quiet_writes (fun hsound => ⟨hsound.1, hsound.2, hsound.3, hsound.4⟩) rfl rfl
        fun _ _ => rfl
  | connect =>
      cases h
      exact quiet_writes (fun hsound => ⟨hsound.1, hsound.2, hsound.3, hsound.4⟩) rfl rfl
        fun _ _ => rfl

theorem commit_writes {save : Save} (h : save.commit s now stored = .ok s') : s.Writes s' := by
  cases save with
  | create id new => exact createService_writes h
  | update id change swap => exact updateService_writes h

theorem finishJob_writes {job : ℕ} : s.Writes (s.finishJob job) :=
  quiet_writes (fun hsound => ⟨hsound.1, hsound.2, hsound.3, hsound.4⟩) rfl rfl fun _ _ => rfl

theorem exec_writes {t t' : Studio} {task : Task} {chance : Chance} {next : Option (List Task)}
    (h : t.exec task chance = some (t', next)) : t.shop.Writes t'.shop := by
  cases task with
  | putThumb save photo =>
      cases h
      exact .refl _
  | putDetail save photo =>
      cases h
      exact .refl _
  | commit save stored =>
      simp only [Studio.exec] at h
      cases hcommit : save.commit t.shop chance.now stored with
      | ok shop =>
          rw [hcommit] at h
          cases h
          exact commit_writes hcommit
      | error refusal =>
          rw [hcommit] at h
          cases h
          exact .refl _
  | check job key =>
      simp only [Studio.exec] at h
      split_ifs at h with huses
      · cases h
        exact finishJob_writes
      · cases h
        exact .refl _
  | delete job key =>
      simp only [Studio.exec] at h
      split_ifs at h with hrefused
      · cases h
        exact .refl _
      · cases h
        exact finishJob_writes

/-- Starting a Save, or an attempt at a job, writes nothing. -/
theorem start_same {t t' : Studio} {begun : Begun} {tasks : List Task}
    (h : t.start begun = some (t', tasks)) : t' = t := by
  cases begun with
  | create id new upload =>
      cases h
      rfl
  | update id change upload =>
      obtain ⟨row, -, h⟩ := Option.map_eq_some_iff.mp h
      cases h
      rfl
  | attempt job =>
      obtain ⟨j, -, h⟩ := Option.bind_eq_some_iff.mp h
      split_ifs at h
      cases h
      rfl

theorem step_writes {p p' : Pool Studio Task} {m : StudioMove}
    (h : Pool.step studio p m = some p') : p.shared.shop.Writes p'.shared.shop := by
  cases Pool.stepped h with
  | world deed hdeed _ =>
      simp only [studio] at hdeed
      cases hexec : deed.exec p.shared.shop with
      | ok shop =>
          rw [hexec] at hdeed
          rw [← Option.some.inj hdeed]
          exact deed_writes hexec
      | error refusal =>
          rw [hexec] at hdeed
          rw [← Option.some.inj hdeed]
          exact .refl _
  | start begun tasks hstart _ =>
      rw [start_same hstart]
      exact .refl _
  | go i chance task rest next _ hexec _ => exact exec_writes hexec
  | die i hshared _ =>
      rw [hshared]
      exact .refl _

theorem run_writes {p p' : Pool Studio Task} {ms : List StudioMove}
    (h : run (Pool.step studio) p ms = some p') : p.shared.shop.Writes p'.shared.shop :=
  run_invariant' (I := fun q => p.shared.shop.Writes q.shared.shop)
    (fun _ _ _ hwrites hstep => hwrites.trans (step_writes hstep)) (.refl _) h

theorem opened_sound {currency : Currency} : (Shop.opened currency).Sound :=
  ⟨fun a ha => (by cases ha), fun a ha => (by cases ha), List.nodup_nil,
    fun row hrow => (by cases hrow)⟩

/-- **The audit log, replayed.** However Saves, deletions of photos and the business's other
requests interleave, between any two moments of a run the events logged give every service as it
is at the second from how it was at the first; a service created between opens with its
event. -/
theorem audit_replays {currency : Currency} {ms ms' : List StudioMove} {p p' : Pool Studio Task}
    (hrun : run (Pool.step studio) (Studio.opened currency) ms = some p)
    (hrun' : run (Pool.step studio) p ms' = some p') :
    ∃ es, p.shared.shop.Logs p'.shared.shop es :=
  (run_writes hrun' (run_writes hrun opened_sound).1).2

/-- A first member, and a first service they perform, with a photo. -/
def opening : List StudioMove :=
  [.world (.acceptInvite 7),
    .start (.create 1 ⟨⟨some [110], none, none⟩, ⟨none, none, none⟩, ⟨400, by decide⟩,
      ⟨30, by decide⟩, none, [1], .nails⟩ (some ⟨2, 8, 8⟩)),
    .go 0 ⟨3, []⟩, .go 0 ⟨3, []⟩, .go 0 ⟨3, []⟩]

/-- The price raised and the photo removed, while the member leaves. -/
def repricing : List StudioMove :=
  [.start (.update 1 ⟨none, none, some ⟨500, by decide⟩, none, none, none, none⟩ (some none)),
    .world (.removeMember 4 1), .go 1 ⟨5, []⟩]

theorem audit_replays_repriced : ∃ p p',
    run (Pool.step studio) (Studio.opened .brl) opening = some p ∧
      run (Pool.step studio) p repricing = some p' ∧
      p.shared.shop.Logs p'.shared.shop [⟨4, .memberRemoved 7⟩,
        ⟨5, .serviceChanged 1 { ChangeDetails.empty with
          price := some ⟨⟨400, by decide⟩, ⟨500, by decide⟩⟩
          photo := some .removed }⟩] := by
  have hevents : ((run (Pool.step studio) (Studio.opened .brl) opening).bind fun p =>
      (run (Pool.step studio) p repricing).map fun p' =>
        (p.shared.shop.events, p'.shared.shop.events)) = some _ := rfl
  obtain ⟨p, hrun, hevents⟩ := Option.bind_eq_some_iff.mp hevents
  obtain ⟨p', hrun', hevents⟩ := Option.map_eq_some_iff.mp hevents
  obtain ⟨hp, hp'⟩ := Prod.mk.inj hevents
  obtain ⟨es, hlogs⟩ := audit_replays hrun hrun'
  have hes := hlogs.events
  rw [hp, hp'] at hes
  have hes : es = [_, _] := List.append_cancel_left (hes.symm.trans rfl)
  exact ⟨p, p', hrun, hrun', hes ▸ hlogs⟩

end Ziftbook.Services
