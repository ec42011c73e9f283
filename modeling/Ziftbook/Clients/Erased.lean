import Ziftbook.Clients.Kept

/-!
# What an erasure leaves

A register with what it says of one client's person taken out. An erasure leaves a register that
is read off that one: whoever the client was, the same is left, but for the address and the
language of a hold, and with the hold purged the very same. What it says of others stays, and a
repeat writes nothing.
-/

namespace Ziftbook.Clients

open Foundation Csp

variable {s s' t : Register} {now : ℤ} {e : Erasure} {clientId : ℕ}

/-! ## § Tables -/

theorem table_ext {α κ : Type*} {key : α → κ} {t t' : Table α κ key} (h : t.rows = t'.rows) :
    t = t' := by
  cases t
  cases t'
  cases h
  rfl

section Table

variable {α κ : Type*} {key : α → κ} {t : Table α κ key} {p : α → Prop} [DecidablePred p]
  {f g : α → α}

/-- Rows rewritten twice are rewritten once, where the second forgets the first. -/
theorem update_update (hf : ∀ x, key (f x) = key x) (hg : ∀ x, key (g x) = key x)
    (hp : ∀ x, p x → p (f x)) (hgf : ∀ x, g (f x) = g x) :
    (t.update p f hf).update p g hg = t.update p g hg := by
  refine table_ext ?_
  simp only [Table.update, List.map_map]
  refine List.map_congr_left fun x _ => ?_
  by_cases h : p x
  · simp [h, hp x h, hgf]
  · simp [h]

theorem update_eq_self (hf : ∀ x, key (f x) = key x) (h : ∀ x ∈ t.rows, p x → f x = x) :
    t.update p f hf = t := by
  refine table_ext ?_
  simp only [Table.update]
  refine (List.map_congr_left fun x hx => ?_).trans (List.map_id _)
  by_cases hp : p x
  · simp [hp, h x hx hp]
  · simp [hp]

/-- Rows rewritten and then deleted might as well not have been rewritten. -/
theorem delete_update {q : α → Prop} [DecidablePred q] (hf : ∀ x, key (f x) = key x)
    (hp : ∀ x, p x → q x ∧ q (f x)) : (t.update p f hf).delete q = t.delete q := by
  refine table_ext ?_
  simp only [Table.update, Table.delete, decide_not]
  induction t.rows with
  | nil => rfl
  | cons x rows ih =>
      by_cases h : p x
      · simp [h, hp x h, ih]
      · simp [h, List.filter_cons, ih]

end Table

/-! ## § What is said of the person -/

/-- A live row that says nothing of anyone. -/
def nobody : Person := ⟨none, ⟨[0], by decide⟩, none, none, none, none, none⟩

/-- The register without what it says of the client's person. -/
def Register.redacted (s : Register) (clientId : ℕ) : Register :=
  (s.update clientId fun _ => nobody).blank clientId

/-- Whether the client has an address to be told at. -/
def Register.reachable (s : Register) (clientId : ℕ) : Bool :=
  (((s.clients.find clientId).bind Record.person?).bind Person.email).isSome

/-- A hold without whom it is for. -/
def Hold.anonymous (h : Hold) : Hold := { h with email := [], locale := none }

/-- The register without the address and the language of the client's hold. -/
def Register.withoutContact (s : Register) (clientId : ℕ) : Register :=
  { s with
    holds := s.holds.update (fun h => h.clientId = clientId) Hold.anonymous fun _ => rfl }

/-- What the register says of everyone but the client. -/
def Register.others (s : Register) (clientId : ℕ) : Register :=
  { s with
    clients := s.clients.delete fun c => c.id = clientId
    consents := s.consents.filter fun r => r.clientId ≠ clientId
    bookings := s.bookings.delete fun b => b.clientId = clientId
    events := s.events.filter fun e => ¬ s.isOf clientId e.bookingId
    links := s.links.filter fun l => ¬ s.isOf clientId l.bookingId
    holds := s.holds.delete fun h => h.clientId = clientId }

theorem isOf_update {p : Appointment → Prop} [DecidablePred p] {f : Appointment → Appointment}
    (hf : ∀ b, (f b).id = b.id) (hclient : ∀ b, (f b).clientId = b.clientId)
    (hbookings : s'.bookings = s.bookings.update p f hf) {bookingId : ℕ} :
    s'.isOf clientId bookingId ↔ s.isOf clientId bookingId := by
  unfold Register.isOf
  rw [hbookings]
  constructor
  · rintro ⟨b, hb, hid, hof⟩
    obtain ⟨a, ha, hkey, rfl | ⟨-, rfl⟩⟩ := Table.mem_of_mem_update hb
    · exact ⟨b, ha, hid, hof⟩
    · exact ⟨a, ha, hkey.trans hid, (hclient a).symm.trans hof⟩
  · rintro ⟨b, hb, hid, hof⟩
    by_cases hp : p b
    · exact ⟨f b, Table.mem_update.mpr (.inl ⟨b, hb, hp, rfl⟩), (hf b).trans hid,
        (hclient b).trans hof⟩
    · exact ⟨b, Table.mem_update.mpr (.inr ⟨hb, hp⟩), hid, hof⟩

theorem isOf_blank {bookingId : ℕ} :
    (s.blank clientId).isOf clientId bookingId ↔ s.isOf clientId bookingId :=
  isOf_update (f := Appointment.blanked) (fun _ => rfl) (fun _ => rfl) rfl

theorem isOf_endForErasure {bookingId : ℕ} :
    (s.endForErasure now e).isOf clientId bookingId ↔ s.isOf clientId bookingId :=
  isOf_update (f := Appointment.ended) (fun _ => rfl) (fun _ => rfl) rfl

/-- An event of the client's bookings, as blanking leaves it. -/
def Register.hidden (s : Register) (clientId : ℕ) (e : Happening) : Happening :=
  if s.isOf clientId e.bookingId ∧ e.actorUserId = none then { e with origin := ⟨none, none⟩ }
  else e

theorem blank_events : (s.blank clientId).events = s.events.map (s.hidden clientId) := rfl

theorem hidden_congr (h : ∀ bookingId, s.isOf clientId bookingId ↔ t.isOf clientId bookingId) :
    s.hidden clientId = t.hidden clientId := by
  funext e
  unfold Register.hidden
  simp only [h]

theorem hidden_hidden (e : Happening) :
    s.hidden clientId (s.hidden clientId e) = s.hidden clientId e := by
  by_cases h : s.isOf clientId e.bookingId ∧ e.actorUserId = none
  · simp [Register.hidden, h]
  · simp [Register.hidden, h]

theorem register_ext (hclients : s.clients = t.clients) (hconsents : s.consents = t.consents)
    (hbookings : s.bookings = t.bookings) (hevents : s.events = t.events)
    (hlinks : s.links = t.links) (hholds : s.holds = t.holds)
    (hpayments : s.payments = t.payments) (hmails : s.mails = t.mails) : s = t := by
  cases s
  cases t
  simp_all

/-- **Blanking twice is blanking once.** -/
theorem blank_blank : (s.blank clientId).blank clientId = s.blank clientId := by
  refine register_ext rfl ?_ ?_ ?_ ?_ rfl rfl rfl
  · simp [Register.blank]
  · exact update_update (f := Appointment.blanked) (g := Appointment.blanked) (fun _ => rfl)
      (fun _ => rfl) (fun _ h => h) fun _ => rfl
  · rw [blank_events, blank_events, hidden_congr fun _ => isOf_blank, List.map_map]
    exact List.map_congr_left fun e _ => hidden_hidden e
  · change ((s.links.filter fun l => ¬ s.isOf clientId l.bookingId).filter
      fun l => ¬ (s.blank clientId).isOf clientId l.bookingId) = _
    simp only [isOf_blank, List.filter_filter, Bool.and_self]
    rfl

/-! ## § What an erasure reads -/

theorem liveAt_blanked {b : Appointment} {at_ : ℤ} : b.blanked.liveAt at_ ↔ b.liveAt at_ := Iff.rfl

/-- What holds of one of the client's bookings, blanked or not. -/
theorem exists_blank (clientId : ℕ) {P : Appointment → Prop} (hP : ∀ b, P b.blanked ↔ P b) :
    (∃ b ∈ (s.blank clientId).bookings.rows, P b) ↔ ∃ b ∈ s.bookings.rows, P b := by
  change (∃ b ∈ (s.bookings.update (fun b => b.clientId = clientId) Appointment.blanked
    fun _ => rfl).rows, P b) ↔ _
  constructor
  · rintro ⟨b, hb, h⟩
    obtain ⟨a, ha, -, rfl | ⟨-, rfl⟩⟩ := Table.mem_of_mem_update hb
    · exact ⟨b, ha, h⟩
    · exact ⟨a, ha, (hP a).mp h⟩
  · rintro ⟨b, hb, h⟩
    by_cases hof : b.clientId = clientId
    · exact ⟨b.blanked, Table.mem_update.mpr (.inl ⟨b, hb, hof, rfl⟩), (hP b).mpr h⟩
    · exact ⟨b, Table.mem_update.mpr (.inr ⟨hb, hof⟩), h⟩

theorem announced_blank :
    (s.blank clientId).announced clientId now ↔ s.announced clientId now := by
  have hkept : ∀ e, (s.hidden clientId e).bookingId = e.bookingId ∧
      (s.hidden clientId e).createdAt = e.createdAt ∧
      (s.hidden clientId e).reason = e.reason := by
    intro e
    unfold Register.hidden
    split_ifs <;> exact ⟨rfl, rfl, rfl⟩
  unfold Register.announced
  rw [blank_events]
  simp only [List.mem_map, exists_exists_and_eq_and, isOf_blank, hkept]

theorem holdNeeded_blank (clientId : ℕ) {id : ℕ} :
    (s.blank clientId).holdNeeded id now ↔ s.holdNeeded id now := by
  have hisOf : ∀ bookingId, (s.blank clientId).isOf id bookingId ↔ s.isOf id bookingId :=
    fun bookingId => isOf_update (f := Appointment.blanked) (fun _ => rfl) (fun _ => rfl) rfl
  unfold Register.holdNeeded
  simp only [hisOf]
  refine or_congr ?_ Iff.rfl
  unfold Register.moneyOwed
  refine exists_congr fun p => and_congr_right fun _ => ?_
  exact exists_blank clientId fun _ => Iff.rfl

/-- One of the bookings, ended by an erasure if it is live. -/
def Appointment.endedBy (e : Erasure) (now : ℤ) (b : Appointment) : Appointment :=
  if b.clientId = e.clientId ∧ b.liveAt (e.at_.getD now) then b.ended else b

def Appointment.blankedFor (clientId : ℕ) (b : Appointment) : Appointment :=
  if b.clientId = clientId then b.blanked else b

theorem endedBy_blankedFor (b : Appointment) :
    ((b.blankedFor e.clientId).endedBy e now).blankedFor e.clientId =
      (b.endedBy e now).blankedFor e.clientId := by
  by_cases hof : b.clientId = e.clientId
  · have hblanked : b.blankedFor e.clientId = b.blanked := if_pos hof
    rw [hblanked]
    unfold Appointment.endedBy
    by_cases hlive : b.liveAt (e.at_.getD now)
    · rw [if_pos ⟨hof, hlive⟩, if_pos ⟨hof, liveAt_blanked.mpr hlive⟩]
      have h : b.ended.clientId = e.clientId := hof
      have h' : b.blanked.ended.clientId = e.clientId := hof
      rw [Appointment.blankedFor, Appointment.blankedFor, if_pos h, if_pos h']
      rfl
    · rw [if_neg fun h => hlive h.2, if_neg fun h => hlive (liveAt_blanked.mp h.2), hblanked]
      exact if_pos hof
  · have hkept : b.blankedFor e.clientId = b := if_neg hof
    rw [hkept]

/-- The events an erasure's ends write. -/
def endings (e : Erasure) (now : ℤ) (rows : List Appointment) : List Happening :=
  (rows.filter fun b => b.clientId = e.clientId ∧ b.liveAt (e.at_.getD now)).map fun b =>
    ⟨b.id, if b.status = .awaitingPayment then .expired else .transitioned .cancelledByMerchant,
      ⟨none, none⟩, none, none, e.actorUserId, some e.reason, e.clock b.id⟩

theorem endForErasure_events :
    (s.endForErasure now e).events = s.events ++ endings e now s.bookings.rows := rfl

theorem endings_blank :
    endings e now (s.blank e.clientId).bookings.rows = endings e now s.bookings.rows := by
  change endings e now (s.bookings.rows.map (Appointment.blankedFor e.clientId)) = _
  have hkept : ∀ b : Appointment, (b.blankedFor e.clientId).id = b.id ∧
      (b.blankedFor e.clientId).status = b.status ∧
      (b.blankedFor e.clientId).clientId = b.clientId ∧
      ((b.blankedFor e.clientId).liveAt (e.at_.getD now) ↔ b.liveAt (e.at_.getD now)) := by
    intro b
    unfold Appointment.blankedFor
    split_ifs <;> exact ⟨rfl, rfl, rfl, Iff.rfl⟩
  unfold endings
  rw [List.filter_map, List.map_map]
  have hsel : ((fun b : Appointment => decide (b.clientId = e.clientId ∧
      b.liveAt (e.at_.getD now))) ∘ Appointment.blankedFor e.clientId) =
      fun b => decide (b.clientId = e.clientId ∧ b.liveAt (e.at_.getD now)) := by
    funext b
    simp only [Function.comp_apply, hkept]
  rw [hsel]
  refine List.map_congr_left fun b _ => ?_
  simp only [Function.comp_apply, hkept]

/-- The bookings an erasure ends, and the events it writes, are the blanked ones'. -/
theorem endForErasure_blank :
    ((s.blank e.clientId).endForErasure now e).blank e.clientId =
      (s.endForErasure now e).blank e.clientId := by
  have hisOf : ∀ bookingId, ((s.blank e.clientId).endForErasure now e).isOf e.clientId
      bookingId ↔ (s.endForErasure now e).isOf e.clientId bookingId := fun bookingId => by
    rw [isOf_endForErasure, isOf_endForErasure, isOf_blank]
  refine register_ext rfl ?_ ?_ ?_ ?_ rfl rfl rfl
  · simp [Register.blank, Register.endForErasure]
  · refine table_ext ?_
    change ((s.bookings.rows.map _).map _).map _ = (s.bookings.rows.map _).map _
    rw [List.map_map, List.map_map, List.map_map]
    exact List.map_congr_left fun b _ => endedBy_blankedFor b
  · have hend : (s.endForErasure now e).hidden e.clientId = s.hidden e.clientId :=
      hidden_congr fun _ => isOf_endForErasure
    rw [blank_events, blank_events, hidden_congr hisOf, hend, endForErasure_events,
      endForErasure_events, endings_blank, blank_events, List.map_append, List.map_append,
      List.map_map]
    exact congrArg (· ++ _) (List.map_congr_left fun e _ => hidden_hidden e)
  · change ((s.links.filter fun l => ¬ s.isOf e.clientId l.bookingId).filter
      fun l => ¬ ((s.blank e.clientId).endForErasure now e).isOf e.clientId l.bookingId) =
        s.links.filter fun l => ¬ (s.endForErasure now e).isOf e.clientId l.bookingId
    simp only [hisOf, isOf_endForErasure, List.filter_filter, Bool.and_self]

/-! ## § An erasure, read off the redacted register -/

/-- The register an erasure leaves, of a client on file. -/
def Register.erased (s : Register) (now : ℤ) (e : Erasure) (p : Option Person) : Register :=
  (((s.endForErasure now e).eraseRow now e.clientId).hold e.clientId now e.announce p).blank
    e.clientId

theorem erase_of_find {c : Record} (hfind : s.clients.find e.clientId = some c)
    (hnone : ¬ ∃ b ∈ (s.endForErasure now e).bookings.rows,
      b.clientId = e.clientId ∧ b.liveAt now) :
    s.erase now e = .ok (s.erased now e c.person?) := by
  have hfind' : (s.endForErasure now e).clients.find e.clientId = some c := hfind
  unfold Register.erase Register.eraseClientCore
  rw [if_neg hnone, hfind']
  rfl

theorem erase_ended (h : s.erase now e = .ok s') :
    ¬ ∃ b ∈ (s.endForErasure now e).bookings.rows, b.clientId = e.clientId ∧ b.liveAt now := by
  intro hlive
  unfold Register.erase Register.eraseClientCore at h
  rw [if_pos hlive] at h
  cases h

/-- Whether the core writes a hold for a client it can reach. -/
def Register.holds? (s : Register) (now : ℤ) (e : Erasure) : Prop :=
  (e.announce = true ∧ (s.endForErasure now e).announced e.clientId now) ∨
    (s.endForErasure now e).holdNeeded e.clientId now

instance (s : Register) (now : ℤ) (e : Erasure) : Decidable (s.holds? now e) :=
  inferInstanceAs (Decidable (_ ∨ _))

theorem holds?_blank : (s.blank e.clientId).holds? now e ↔ s.holds? now e := by
  unfold Register.holds?
  have hannounced : ((s.blank e.clientId).endForErasure now e).announced e.clientId now ↔
      (s.endForErasure now e).announced e.clientId now := by
    rw [← announced_blank, endForErasure_blank, announced_blank]
  have hneeded : ((s.blank e.clientId).endForErasure now e).holdNeeded e.clientId now ↔
      (s.endForErasure now e).holdNeeded e.clientId now := by
    rw [← holdNeeded_blank e.clientId, endForErasure_blank, holdNeeded_blank]
  rw [hannounced, hneeded]

/-- The holds after the erasure. -/
def Register.held (s : Register) (now : ℤ) (e : Erasure) (p : Option Person) :
    Table Hold ℕ Hold.clientId :=
  match p.bind Person.email with
  | none => s.holds
  | some email =>
      if s.holds? now e then
        (s.holds.insert ⟨e.clientId, email, p.bind Person.locale, now + 30 * oneDay⟩).getD s.holds
      else s.holds

theorem erased_eq (p : Option Person) :
    s.erased now e p =
      { (s.endForErasure now e).blank e.clientId with
        clients := s.clients.update (fun c => c.id = e.clientId) (Record.erase now)
          (Record.erase_id now)
        holds := s.held now e p } := by
  unfold Register.erased Register.hold Register.held
  cases p.bind Person.email with
  | none => rfl
  | some email =>
      dsimp only
      set r := (s.endForErasure now e).eraseRow now e.clientId with hr
      by_cases h : s.holds? now e
      · have h' : (e.announce = true ∧ r.announced e.clientId now) ∨
          r.holdNeeded e.clientId now := h
        rw [if_pos h, if_pos h']
        rfl
      · have h' : ¬ ((e.announce = true ∧ r.announced e.clientId now) ∨
          r.holdNeeded e.clientId now) := h
        rw [if_neg h, if_neg h']
        rfl

theorem erase_mapPerson (f : Person → Person) (c : Record) :
    (c.mapPerson f).erase now = c.erase now := by
  unfold Record.mapPerson Record.erase
  cases h : c.content <;> simp [h]

/-- What two registers that differ in the client's person alone have in common. -/
theorem redacted_eq (h : t.redacted clientId = s.redacted clientId) :
    t.clients.update (fun c => c.id = clientId) (Record.mapPerson fun _ => nobody)
        (Record.mapPerson_id _) =
      s.clients.update (fun c => c.id = clientId) (Record.mapPerson fun _ => nobody)
        (Record.mapPerson_id _) ∧
      ∀ clients holds, { t.blank clientId with clients := clients, holds := holds } =
        { s.blank clientId with clients := clients, holds := holds } := by
  refine ⟨congrArg Register.clients h, fun clients holds => ?_⟩
  exact congrArg (fun r : Register => { r with clients := clients, holds := holds }) h

theorem erasedRows_eq (h : t.redacted clientId = s.redacted clientId) :
    t.clients.update (fun c => c.id = clientId) (Record.erase now) (Record.erase_id now) =
      s.clients.update (fun c => c.id = clientId) (Record.erase now) (Record.erase_id now) := by
  have hforget : ∀ r : Register, (r.clients.update (fun c => c.id = clientId)
      (Record.mapPerson fun _ => nobody) (Record.mapPerson_id _)).update
        (fun c => c.id = clientId) (Record.erase now) (Record.erase_id now) =
      r.clients.update (fun c => c.id = clientId) (Record.erase now) (Record.erase_id now) :=
    fun r => update_update _ _ (fun c hc => (Record.mapPerson_id _ c).trans hc)
      fun c => erase_mapPerson _ c
  rw [← hforget t, (redacted_eq h).1, hforget s]

/-- **The erased register is read off the redacted one**, but for the holds. -/
theorem erased_congr (h : t.redacted e.clientId = s.redacted e.clientId) (p q : Option Person)
    (holds : Table Hold ℕ Hold.clientId) :
    { t.erased now e q with holds := holds } = { s.erased now e p with holds := holds } := by
  have hend : ∀ r : Register, (r.endForErasure now e).blank e.clientId =
      ((r.blank e.clientId).endForErasure now e).blank e.clientId := fun r =>
    endForErasure_blank.symm
  have hcommon : ∀ clients holds,
      { (t.endForErasure now e).blank e.clientId with clients := clients, holds := holds } =
        { (s.endForErasure now e).blank e.clientId with clients := clients, holds := holds } := by
    intro clients holds
    rw [hend t, hend s]
    exact congrArg (fun r : Register => (r.endForErasure now e).blank e.clientId)
      ((redacted_eq h).2 clients holds)
  rw [erased_eq, erased_eq, erasedRows_eq h]
  exact hcommon _ holds

/-! ## § The hold -/

theorem holds?_congr (h : t.redacted e.clientId = s.redacted e.clientId) :
    t.holds? now e ↔ s.holds? now e := by
  have hparts := (redacted_eq h).2 s.clients s.holds
  have hread : ∀ r : Register, r.holds? now e ↔
      Register.holds? { r.blank e.clientId with clients := s.clients, holds := s.holds } now e :=
    fun r => holds?_blank.symm
  rw [hread t, hparts, ← hread s]

theorem live_congr (h : t.redacted e.clientId = s.redacted e.clientId) :
    (∃ b ∈ (t.endForErasure now e).bookings.rows, b.clientId = e.clientId ∧ b.liveAt now) ↔
      ∃ b ∈ (s.endForErasure now e).bookings.rows, b.clientId = e.clientId ∧ b.liveAt now := by
  have hparts := (redacted_eq h).2 s.clients s.holds
  have hread : ∀ r : Register,
      (∃ b ∈ (r.endForErasure now e).bookings.rows, b.clientId = e.clientId ∧ b.liveAt now) ↔
        ∃ b ∈ (Register.endForErasure { r.blank e.clientId with
          clients := s.clients, holds := s.holds } now e).bookings.rows,
            b.clientId = e.clientId ∧ b.liveAt now := by
    intro r
    change _ ↔ ∃ b ∈ ((r.blank e.clientId).endForErasure now e).bookings.rows, _
    rw [← exists_blank e.clientId fun _ => Iff.rfl, ← endForErasure_blank,
      exists_blank e.clientId fun _ => Iff.rfl]
  rw [hread t, hparts, ← hread s]

theorem find_congr (h : t.redacted clientId = s.redacted clientId) {c : Record}
    (hfind : s.clients.find clientId = some c) : ∃ d, t.clients.find clientId = some d := by
  obtain ⟨hc, hid⟩ := Table.find_eq_some.mp hfind
  have hmem : c.mapPerson (fun _ => nobody) ∈ (s.clients.update (fun c => c.id = clientId)
      (Record.mapPerson fun _ => nobody) (Record.mapPerson_id _)).rows :=
    Table.mem_update.mpr (.inl ⟨c, hc, hid, rfl⟩)
  rw [← (redacted_eq h).1] at hmem
  obtain ⟨d, hd, hkey, -⟩ := Table.mem_of_mem_update hmem
  exact ⟨d, Table.find_eq_some.mpr ⟨hd, hkey.trans ((Record.mapPerson_id _ c).trans hid)⟩⟩

theorem insert_rows {holds : Table Hold ℕ Hold.clientId} {x : Hold} :
    ((holds.insert x).getD holds).rows =
      if x.clientId ∈ holds.rows.map Hold.clientId then holds.rows else holds.rows ++ [x] := by
  unfold Table.insert
  split_ifs <;> rfl

theorem anonymous_insert {holds : Table Hold ℕ Hold.clientId} {email email' : Text}
    {locale locale' : Option Locale} {at_ : ℤ} :
    ((holds.insert ⟨clientId, email', locale', at_⟩).getD holds).update
        (fun h => h.clientId = clientId) Hold.anonymous (fun _ => rfl) =
      ((holds.insert ⟨clientId, email, locale, at_⟩).getD holds).update
        (fun h => h.clientId = clientId) Hold.anonymous fun _ => rfl := by
  refine table_ext ?_
  simp only [Table.update, insert_rows]
  split_ifs
  · rfl
  · simp [Hold.anonymous]

theorem delete_insert {holds : Table Hold ℕ Hold.clientId} {x : Hold} {p : Hold → Prop}
    [DecidablePred p] (hp : p x) : ((holds.insert x).getD holds).delete p = holds.delete p := by
  refine table_ext ?_
  simp only [Table.delete, insert_rows]
  split_ifs
  · rfl
  · simp [hp]

theorem holds_of_redacted (h : t.redacted clientId = s.redacted clientId) : t.holds = s.holds := by
  have h := congrArg Register.holds h
  exact h

theorem held_anonymous (h : t.redacted e.clientId = s.redacted e.clientId) {p q : Option Person}
    (hreach : (q.bind Person.email).isSome = (p.bind Person.email).isSome) :
    (t.held now e q).update (fun h => h.clientId = e.clientId) Hold.anonymous (fun _ => rfl) =
      (s.held now e p).update (fun h => h.clientId = e.clientId) Hold.anonymous fun _ => rfl := by
  have hholds := holds_of_redacted h
  unfold Register.held
  cases hp : p.bind Person.email with
  | none =>
      rw [hp, Option.isSome_none, Option.isSome_eq_false_iff, Option.isNone_iff_eq_none] at hreach
      rw [hreach, hholds]
  | some email =>
      rw [hp, Option.isSome_some, Option.isSome_iff_exists] at hreach
      obtain ⟨email', hemail'⟩ := hreach
      rw [hemail', hholds]
      simp only [holds?_congr h]
      split_ifs
      · exact anonymous_insert
      · rfl

theorem held_delete {p : Option Person} {sel : Hold → Prop} [DecidablePred sel]
    (hsel : ∀ h : Hold, h.purgeAfter = now + 30 * oneDay → sel h) :
    (s.held now e p).delete sel = s.holds.delete sel := by
  unfold Register.held
  split
  · rfl
  · split_ifs
    · exact delete_insert (hsel _ rfl)
    · rfl

/-- **With the hold purged, nothing tells two persons apart.** -/
theorem purge_congr (h : t.redacted e.clientId = s.redacted e.clientId) (p q : Option Person)
    {later : ℤ} (hlater : now + 30 * oneDay ≤ later) :
    (t.erased now e q).purgeHolds later = (s.erased now e p).purgeHolds later := by
  have hcongr : ∀ holds, { t.erased now e q with holds := holds } =
      { s.erased now e p with holds := holds } := erased_congr h p q
  have hholds := holds_of_redacted h
  have hneeded : ∀ id, (t.erased now e q).holdNeeded id later ↔
      (s.erased now e p).holdNeeded id later := by
    intro id
    have hread : ∀ r : Register, r.holdNeeded id later ↔
        Register.holdNeeded { r with holds := s.holds } id later := fun _ => Iff.rfl
    rw [hread (t.erased now e q), hcongr s.holds, ← hread]
  have hkept : ∀ (r : Register) (o : Option Person), (r.erased now e o).purgeHolds later =
      { r.erased now e o with
        holds := r.holds.delete fun h => h.purgeAfter ≤ later ∨
          ¬ (r.erased now e o).holdNeeded h.clientId later } := by
    intro r o
    have hheld : (r.erased now e o).holds = r.held now e o := by rw [erased_eq]
    unfold Register.purgeHolds
    rw [hheld, held_delete fun h hpurge => .inl (hpurge.trans_le hlater)]
  rw [hkept, hkept, hholds]
  simp only [hneeded]
  exact hcongr _

/-! ## § What is left -/

theorem erased_content {now : ℤ} (c : Record) : ∃ at_, (c.erase now).content = .erased at_ := by
  unfold Record.erase
  cases h : c.content with
  | live p => exact ⟨now, rfl⟩
  | erased at_ => exact ⟨at_, by simpa using h⟩

/-- Every row of the client's is erased. -/
theorem erased_row {p : Option Person} {c : Record} (hc : c ∈ (s.erased now e p).clients.rows)
    (hid : c.id = e.clientId) : ∃ at_, c.content = .erased at_ := by
  rw [erased_eq] at hc
  have hc : c ∈ (s.clients.update (fun c => c.id = e.clientId) (Record.erase now)
      (Record.erase_id now)).rows := hc
  rcases Table.mem_update.mp hc with ⟨a, -, -, rfl⟩ | ⟨-, hne⟩
  · exact erased_content a
  · exact absurd hid hne

theorem erased_blank (p : Option Person) :
    (s.erased now e p).blank e.clientId = s.erased now e p := blank_blank

/-- **Nothing of the person is left** in the client's own rows. -/
theorem redacted_erased (p : Option Person) :
    (s.erased now e p).redacted e.clientId = s.erased now e p := by
  have hrows : (s.erased now e p).update e.clientId (fun _ => nobody) = s.erased now e p := by
    refine register_ext ?_ rfl rfl rfl rfl rfl rfl rfl
    refine update_eq_self (Record.mapPerson_id _) fun c hc hid => ?_
    obtain ⟨at_, hat⟩ := erased_row hc hid
    unfold Record.mapPerson
    rw [hat]
  rw [Register.redacted, hrows, erased_blank]

theorem endings_mem {rows : List Appointment} {h : Happening} (hh : h ∈ endings e now rows) :
    ∃ b ∈ rows, b.id = h.bookingId ∧ b.clientId = e.clientId := by
  obtain ⟨b, hb, rfl⟩ := List.mem_map.mp hh
  obtain ⟨hb, hsel⟩ := List.mem_filter.mp hb
  rw [decide_eq_true_eq] at hsel
  exact ⟨b, hb, rfl, hsel.1⟩

theorem isOf_erased {p : Option Person} {bookingId : ℕ} :
    (s.erased now e p).isOf e.clientId bookingId ↔ s.isOf e.clientId bookingId := by
  rw [erased_eq]
  change ((s.endForErasure now e).blank e.clientId).isOf e.clientId bookingId ↔ _
  rw [isOf_blank, isOf_endForErasure]

theorem hidden_of_not {h : Happening} (hnot : ¬ s.isOf clientId h.bookingId) :
    s.hidden clientId h = h := if_neg fun hboth => hnot hboth.1

theorem others_events (p : Option Person) :
    (s.erased now e p).events.filter (fun h => ¬ s.isOf e.clientId h.bookingId) =
      s.events.filter fun h => ¬ s.isOf e.clientId h.bookingId := by
  have hkept : ∀ h : Happening, (s.hidden e.clientId h).bookingId = h.bookingId := by
    intro h
    unfold Register.hidden
    split_ifs <;> rfl
  have hevents : (s.erased now e p).events =
      (s.events ++ endings e now s.bookings.rows).map (s.hidden e.clientId) := by
    rw [erased_eq]
    change ((s.endForErasure now e).blank e.clientId).events = _
    rw [blank_events, hidden_congr fun _ => isOf_endForErasure, endForErasure_events]
  have hended : (endings e now s.bookings.rows).filter
      (fun h => ¬ s.isOf e.clientId h.bookingId) = [] := by
    refine List.filter_eq_nil_iff.mpr fun h hh => ?_
    obtain ⟨b, hb, hid, hof⟩ := endings_mem hh
    have hisOf : s.isOf e.clientId h.bookingId := ⟨b, hb, hid, hof⟩
    simp [hisOf]
  rw [hevents, List.filter_map]
  simp only [Function.comp_def, hkept]
  rw [List.filter_append, hended, List.append_nil]
  refine (List.map_congr_left fun h hh => ?_).trans (List.map_id _)
  exact hidden_of_not (by simpa using (List.mem_filter.mp hh).2)

theorem held_others (p : Option Person) :
    (s.held now e p).delete (fun h => h.clientId = e.clientId) =
      s.holds.delete fun h => h.clientId = e.clientId := by
  unfold Register.held
  split
  · rfl
  · split_ifs
    · exact delete_insert rfl
    · rfl

/-- **What it says of others stays.** -/
theorem others_erased (p : Option Person) :
    (s.erased now e p).others e.clientId = s.others e.clientId := by
  have hisOf : ∀ bookingId, (s.erased now e p).isOf e.clientId bookingId ↔
      s.isOf e.clientId bookingId := fun _ => isOf_erased
  refine register_ext ?_ ?_ ?_ ?_ ?_ ?_ ?_ ?_
  · simp only [Register.others, erased_eq]
    exact delete_update _ fun c hc => ⟨hc, (Record.erase_id now c).trans hc⟩
  · simp only [Register.others, erased_eq]
    simp [Register.blank, Register.endForErasure]
  · simp only [Register.others, erased_eq]
    refine (delete_update (f := Appointment.blanked) (fun _ => rfl) fun b hb => ⟨hb, hb⟩).trans ?_
    exact delete_update (f := Appointment.ended) (fun _ => rfl) fun b hb => ⟨hb.1, hb.1⟩
  · simp only [Register.others, hisOf]
    exact others_events p
  · simp only [Register.others, hisOf]
    have hlinks : (s.erased now e p).links = s.links.filter fun l =>
        ¬ (s.endForErasure now e).isOf e.clientId l.bookingId := by rw [erased_eq]; rfl
    rw [hlinks]
    simp only [isOf_endForErasure, List.filter_filter, Bool.and_self]
  · simp only [Register.others, erased_eq]
    exact held_others p
  · simp only [Register.others, erased_eq]
    rfl
  · simp only [Register.others, erased_eq]
    rfl

/-! ## § A repeat -/

theorem not_liveAt_erased {p : Option Person} {later : ℤ}
    (hnone : ¬ ∃ b ∈ (s.endForErasure now e).bookings.rows,
      b.clientId = e.clientId ∧ b.liveAt now) (hlater : now ≤ later) :
    ¬ ∃ b ∈ (s.erased now e p).bookings.rows, b.clientId = e.clientId ∧ b.liveAt later := by
  have hmono : ∀ b : Appointment, b.liveAt later → b.liveAt now := by
    rintro b (⟨hstatus, hstart⟩ | ⟨hstatus, at_, hat, hlt⟩)
    · exact .inl ⟨hstatus, hlater.trans_lt hstart⟩
    · exact .inr ⟨hstatus, at_, hat, hlater.trans_lt hlt⟩
  intro hlive
  rw [erased_eq] at hlive
  refine hnone ((exists_blank e.clientId fun _ => Iff.rfl).mp ?_)
  obtain ⟨b, hb, hof, hb'⟩ := hlive
  exact ⟨b, hb, hof, hmono b hb'⟩

theorem endForErasure_of_none {e' : Erasure} (hat : e'.at_ = none)
    (hnone : ¬ ∃ b ∈ s.bookings.rows, b.clientId = e'.clientId ∧ b.liveAt now) :
    s.endForErasure now e' = s := by
  have hsel : ∀ b ∈ s.bookings.rows,
      ¬ (b.clientId = e'.clientId ∧ b.liveAt (e'.at_.getD now)) := by
    rw [hat]
    exact fun b hb hboth => hnone ⟨b, hb, hboth⟩
  refine register_ext rfl rfl ?_ ?_ rfl rfl rfl rfl
  · exact update_eq_self (f := Appointment.ended) (fun _ => rfl) fun b hb hboth =>
      absurd hboth (hsel b hb)
  · rw [endForErasure_events]
    have : endings e' now s.bookings.rows = [] := by
      unfold endings
      rw [List.map_eq_nil_iff, List.filter_eq_nil_iff]
      exact fun b hb => by simpa using fun h h' => hsel b hb ⟨h, h'⟩
    rw [this, List.append_nil]

/-- **A repeat writes nothing.** -/
theorem erase_again {p : Option Person} {later : ℤ} {e' : Erasure}
    (hnone : ¬ ∃ b ∈ (s.endForErasure now e).bookings.rows,
      b.clientId = e.clientId ∧ b.liveAt now) (hlater : now ≤ later)
    (hof : e'.clientId = e.clientId) (hat : e'.at_ = none) {c : Record}
    (hfind : (s.erased now e p).clients.find e.clientId = some c) :
    (s.erased now e p).erase later e' = .ok (s.erased now e p) := by
  have hlive := not_liveAt_erased (p := p) hnone hlater
  rw [← hof] at hlive hfind
  have hend := endForErasure_of_none hat hlive
  rw [erase_of_find hfind (by rwa [hend])]
  obtain ⟨hc, hid⟩ := Table.find_eq_some.mp hfind
  obtain ⟨at_, hcontent⟩ := erased_row hc (hid.trans hof)
  have hperson : c.person? = none := by
    unfold Record.person?
    rw [hcontent]
    rfl
  rw [hperson, erased_eq, hend, hof, erased_blank]
  refine congrArg Except.ok (register_ext ?_ rfl rfl rfl rfl rfl rfl rfl)
  refine update_eq_self (Record.erase_id later) fun d hd hid => ?_
  obtain ⟨at_, hat⟩ := erased_row hd hid
  unfold Record.erase
  rw [hat]

/-! ## § The erasure -/

/-- **An erasure forgets who the client was.** Of a client on file: nothing of the person is
left in the client's own rows; what the register says of everyone else stays; a repeat writes
nothing. And from two registers that differ in the client's person alone, both or neither with
an address, the erasure leaves the same but for the address and the language of the client's
hold; once the holds are purged thirty days on, the very same. -/
theorem erase_forgets (h : s.erase now e = .ok s') {c : Record}
    (hfile : s.clients.find e.clientId = some c) :
    s'.redacted e.clientId = s' ∧ s'.others e.clientId = s.others e.clientId ∧
    (∀ later e', now ≤ later → e'.clientId = e.clientId → e'.at_ = none →
      s'.erase later e' = .ok s') ∧
    ∀ t : Register, t.redacted e.clientId = s.redacted e.clientId →
      t.reachable e.clientId = s.reachable e.clientId →
      ∃ t', t.erase now e = .ok t' ∧
        t'.withoutContact e.clientId = s'.withoutContact e.clientId ∧
        ∀ later, now + 30 * oneDay ≤ later → t'.purgeHolds later = s'.purgeHolds later := by
  have hnone := erase_ended h
  rw [erase_of_find hfile hnone] at h
  cases h
  refine ⟨redacted_erased _, others_erased _, fun later e' hlater hof hat => ?_,
    fun t hredacted hreach => ?_⟩
  · obtain ⟨hc, hid⟩ := Table.find_eq_some.mp hfile
    have hfind : (s.erased now e c.person?).clients.find e.clientId = some (c.erase now) := by
      have hmem : c.erase now ∈ (s.clients.update (fun c => c.id = e.clientId) (Record.erase now)
          (Record.erase_id now)).rows := Table.mem_update.mpr (.inl ⟨c, hc, hid, rfl⟩)
      rw [erased_eq, Table.find_eq_some]
      exact ⟨hmem, (Record.erase_id now c).trans hid⟩
    exact erase_again hnone hlater hof hat hfind
  · obtain ⟨d, hd⟩ := find_congr hredacted hfile
    have hreach : (d.person?.bind Person.email).isSome = (c.person?.bind Person.email).isSome := by
      unfold Register.reachable at hreach
      rwa [hd, hfile] at hreach
    refine ⟨_, erase_of_find hd fun hlive => hnone ((live_congr hredacted).mp hlive), ?_,
      fun later hlater => purge_congr hredacted _ _ hlater⟩
    have hheld : ∀ (r : Register) (p : Option Person), (r.erased now e p).holds = r.held now e p :=
      fun r p => by rw [erased_eq]
    unfold Register.withoutContact
    rw [hheld, hheld, held_anonymous hredacted hreach]
    exact erased_congr hredacted _ _ _

/-- A person under a one-letter name, with an address and a booking at noon. -/
def knownAs (letter : ℕ) : Register :=
  Register.empty.run some [.createClient ⟨⟨[letter], by simp⟩, some [letter, 64], none, none⟩,
    .book ⟨.onFile 1, ⟨none, none⟩, 3, 12, 1⟩]

/-- The owner's erasure of the first client. -/
def firstErased : Erasure := ⟨1, .clientErased, none, some 3, true, fun _ => 6⟩

theorem erase_forgets_letters :
    ∃ s' t', (knownAs 97).erase 5 firstErased = .ok s' ∧ (knownAs 98).erase 5 firstErased = .ok t' ∧
      s'.holds.rows.map Hold.email = [[97, 64]] ∧ t'.holds.rows.map Hold.email = [[98, 64]] ∧
      t'.withoutContact 1 = s'.withoutContact 1 ∧
      t'.purgeHolds (5 + 30 * oneDay) = s'.purgeHolds (5 + 30 * oneDay) := by
  have hs : (knownAs 97).erase 5 firstErased =
      .ok ((knownAs 97).erased 5 firstErased
        (some ⟨none, ⟨[97], by simp⟩, some [97, 64], none, none, none, none⟩)) := rfl
  obtain ⟨-, -, -, hforgets⟩ := erase_forgets hs (c := ⟨1, .live ⟨none, ⟨[97], by simp⟩,
    some [97, 64], none, none, none, none⟩⟩) rfl
  obtain ⟨t', ht, hcontact, hpurged⟩ := hforgets (knownAs 98) rfl rfl
  refine ⟨_, t', hs, ht, rfl, ?_, hcontact, hpurged _ le_rfl⟩
  have hsame : (knownAs 98).erase 5 firstErased =
      .ok ((knownAs 98).erased 5 firstErased
        (some ⟨none, ⟨[98], by simp⟩, some [98, 64], none, none, none, none⟩)) := rfl
  rw [hsame] at ht
  cases ht
  rfl

end Ziftbook.Clients
