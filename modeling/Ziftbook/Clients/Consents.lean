import Ziftbook.Clients.Kept
import Ziftbook.Foundation.Grounds

/-!
# Nobody is mailed who did not say so

Every consent on file has the wording its version published, and grounds: a member's record, a
withdrawal by the person's own account, or a grant that was ticked at a booking, was then
confirmed through the booking's link, and had not been withdrawn in between.
-/

namespace Ziftbook.Clients

open Foundation Csp

variable {number : Text → Option Text} {s s' : Register} {r : Request} {rs : List Request}

/-! ## § What the log says -/

/-- How a row came to be written, of a client as the record has them now. -/
inductive Recorded (rs : List Request) (p : Person) (row : Consent) : Prop
  | byMember (body : MemberRecord) (hmem : .addConsents body ∈ rs)
      (hsource : row.source = .merchant) (hclient : body.clientId = row.clientId)
      (hanswer : body.purposes row.purpose = some row.granted) : Recorded rs p row
  | withdrawn (new : PageBooking) (hmem : .bookOnline new ∈ rs) (hheld : new.held = true)
      (hproof : new.proof.isSome) (hemail : p.email = some new.address)
      (hsource : row.source = .bookingPage) (hgranted : row.granted = false)
      (hanswer : new.consents row.purpose = some false) : Recorded rs p row
  | confirmed (hsource : row.source = .bookingPage) (hgranted : row.granted = true) :
      Recorded rs p row

/-- A booking of the client ticked the purpose, under the version; a token minted for that
booking confirmed it; and no row before withdrew it since the booking. -/
def Register.Confirmed (s : Register) (rs : List Request) (earlier : List Consent)
    (row : Consent) : Prop :=
  ∃ b ∈ s.bookings.rows, b.clientId = row.clientId ∧
    (∃ now c, .confirmConsents now c ∈ rs ∧ c.bookingId = b.id ∧
      .link ⟨c.tokenHash, b.id⟩ ∈ rs) ∧
    ∃ e ∈ s.events, e.bookingId = b.id ∧ e.name = .created ∧
      e.policyVersion = some row.policyVersion ∧
      (∃ kept ∈ e.consentPurposes, kept row.purpose = some true) ∧
      ∀ w ∈ earlier, w.clientId = row.clientId → w.purpose = row.purpose → w.granted = false →
        w.createdAt ≤ e.createdAt

/-- The wording is what the version published for the purpose. -/
def Consent.Worded (row : Consent) : Prop :=
  ∃ texts, consentTexts row.policyVersion = some texts ∧ texts row.purpose = some row.textShown

def Register.confirmations (s : Register) (bookingId : ℕ) : ℕ :=
  s.events.countP fun e => e.bookingId = bookingId ∧ e.name = .consentConfirmed

structure Register.Evidence (s : Register) (rs : List Request) : Prop where
  minted : ∀ l ∈ s.links, .link l ∈ rs
  attached : ∀ row ∈ s.consents, ∃ p, s.live row.clientId = some p ∧ Recorded rs p row
  worded : ∀ row ∈ s.consents, row.Worded
  confirmed : Grounded (fun earlier row => row.source = .bookingPage → row.granted = true →
    s.Confirmed rs earlier row) s.consents
  once : ∀ id, s.confirmations id ≤ 1

/-! ## § What a request carries over -/

/-- What of bookings and events the grounds of a consent are read from. -/
structure Carried (s s' : Register) : Prop where
  bookings : ∀ b ∈ s.bookings.rows, ∃ b' ∈ s'.bookings.rows, b'.id = b.id ∧
    b'.clientId = b.clientId
  events : ∀ e ∈ s.events, ∃ e' ∈ s'.events, e'.bookingId = e.bookingId ∧ e'.name = e.name ∧
    e'.policyVersion = e.policyVersion ∧ e'.consentPurposes = e.consentPurposes ∧
    e'.createdAt = e.createdAt

theorem carried_of_eq (hbookings : s'.bookings = s.bookings)
    (hevents : ∃ new, s'.events = s.events ++ new) : Carried s s' := by
  obtain ⟨new, hevents⟩ := hevents
  refine ⟨fun b hb => ⟨b, hbookings ▸ hb, rfl, rfl⟩, fun e he => ⟨e, ?_, rfl, rfl, rfl, rfl, rfl⟩⟩
  rw [hevents]
  exact List.mem_append_left _ he

theorem Carried.trans {s'' : Register} (h : Carried s s') (h' : Carried s' s'') :
    Carried s s'' := by
  refine ⟨fun b hb => ?_, fun e he => ?_⟩
  · obtain ⟨b', hb', hid, hclient⟩ := h.bookings b hb
    obtain ⟨b'', hb'', hid', hclient'⟩ := h'.bookings b' hb'
    exact ⟨b'', hb'', hid'.trans hid, hclient'.trans hclient⟩
  · obtain ⟨e', he', h1, h2, h3, h4, h5⟩ := h.events e he
    obtain ⟨e'', he'', h1', h2', h3', h4', h5'⟩ := h'.events e' he'
    exact ⟨e'', he'', h1'.trans h1, h2'.trans h2, h3'.trans h3, h4'.trans h4, h5'.trans h5⟩

theorem carried_update {p : Appointment → Prop} [DecidablePred p]
    {f : Appointment → Appointment} (hf : ∀ b, (f b).id = b.id)
    (hbookings : s'.bookings = s.bookings.update p f hf)
    (hclient : ∀ b, (f b).clientId = b.clientId)
    (hevents : ∃ new, s'.events = s.events ++ new) : Carried s s' := by
  obtain ⟨new, hevents⟩ := hevents
  refine ⟨fun b hb => ?_, fun e he => ⟨e, ?_, rfl, rfl, rfl, rfl, rfl⟩⟩
  · rw [hbookings]
    by_cases hp : p b
    · exact ⟨f b, Table.mem_update.mpr (.inl ⟨b, hb, hp, rfl⟩), hf b, hclient b⟩
    · exact ⟨b, Table.mem_update.mpr (.inr ⟨hb, hp⟩), rfl, rfl⟩
  · rw [hevents]
    exact List.mem_append_left _ he

theorem Confirmed.carried {rs' : List Request} {earlier : List Consent} {row : Consent}
    (h : s.Confirmed rs earlier row) (hc : Carried s s') (hrs : rs ⊆ rs') :
    s'.Confirmed rs' earlier row := by
  obtain ⟨b, hb, hclient, ⟨now, c, hmem, hbooking, hlink⟩, e, he, hof, hname, hversion, hkept,
    hsince⟩ := h
  obtain ⟨b', hb', hid, hclient'⟩ := hc.bookings b hb
  obtain ⟨e', he', hof', hname', hversion', hpurposes', htime'⟩ := hc.events e he
  refine ⟨b', hb', hclient'.trans hclient, ⟨now, c, hrs hmem, hbooking.trans hid.symm, ?_⟩, e',
    he', hof'.trans (hof.trans hid.symm), hname'.trans hname, hversion'.trans hversion, ?_, ?_⟩
  · rw [hid]
    exact hrs hlink
  · rwa [hpurposes']
  · rwa [htime']

/-! ## § A live record stays live -/

/-- Whether the request erases the client. -/
def Request.erases (id : ℕ) : Request → Prop
  | .erase _ e => e.clientId = id
  | _ => False

theorem live_eq_some {id : ℕ} {p : Person} :
    s.live id = some p ↔ ∃ c ∈ s.clients.rows, c.id = id ∧ c.content = .live p := by
  unfold Register.live
  rw [Option.bind_eq_some_iff]
  constructor
  · rintro ⟨c, hc, hp⟩
    obtain ⟨hmem, hid⟩ := Table.find_eq_some.mp hc
    exact ⟨c, hmem, hid, Record.person?_eq_some.mp hp⟩
  · rintro ⟨c, hmem, hid, hp⟩
    exact ⟨c, Table.find_eq_some.mpr ⟨hmem, hid⟩, Record.person?_eq_some.mpr hp⟩

theorem live_mapPerson {sel : Record → Prop} [DecidablePred sel] {f : Person → Person}
    {id : ℕ} {p : Person} (h : s.live id = some p)
    (hrows : s'.clients = s.clients.update sel (Record.mapPerson f) (Record.mapPerson_id f))
    (hemail : ∀ p, (f p).email = p.email) :
    ∃ p', s'.live id = some p' ∧ p'.email = p.email := by
  obtain ⟨c, hc, hid, hp⟩ := live_eq_some.mp h
  by_cases hsel : sel c
  · refine ⟨f p, live_eq_some.mpr ⟨c.mapPerson f, ?_, ?_, ?_⟩, hemail p⟩
    · rw [hrows]
      exact Table.mem_update.mpr (.inl ⟨c, hc, hsel, rfl⟩)
    · rw [Record.mapPerson_id, hid]
    · rw [Record.mapPerson_live hp]
  · refine ⟨p, live_eq_some.mpr ⟨c, ?_, hid, hp⟩, rfl⟩
    rw [hrows]
    exact Table.mem_update.mpr (.inr ⟨hc, hsel⟩)

theorem ClientsStep.live (h : ClientsStep s s' r) {id : ℕ} {p : Person} (hp : s.live id = some p)
    (hnot : ¬ r.erases id) : ∃ p', s'.live id = some p' ∧ p'.email = p.email := by
  cases h with
  | same _ hsame => exact ⟨p, by rwa [Register.live, hsame], rfl⟩
  | added _ person _ hrows _ =>
      obtain ⟨c, hc, hid, hcontent⟩ := live_eq_some.mp hp
      refine ⟨p, live_eq_some.mpr ⟨c, ?_, hid, hcontent⟩, rfl⟩
      rw [hrows]
      exact List.mem_append_left _ hc
  | refreshed new phone d _ _ _ hrows => exact live_mapPerson hp hrows fun _ => rfl
  | noted owner id change hrows => exact live_mapPerson hp hrows fun _ => rfl
  | erased now e hrows =>
      obtain ⟨c, hc, hid, hcontent⟩ := live_eq_some.mp hp
      refine ⟨p, live_eq_some.mpr ⟨c, ?_, hid, hcontent⟩, rfl⟩
      rw [hrows]
      exact Table.mem_update.mpr (.inr ⟨hc, fun heq => hnot (heq.symm.trans hid)⟩)

/-! ## § What a request does to the log -/

/-- What a request does to the consents: nothing, rows with their grounds, the rows of a
confirmation, or an erasure's delete. -/
inductive LogStep (s s' : Register) : Request → Prop
  | quiet (r : Request) (hconsents : s'.consents = s.consents)
      (hlinks : ∀ l ∈ s'.links, l ∈ s.links ∨ r = .link l)
      (hnot : ∀ id p, s.live id = some p → ¬ r.erases id)
      (honce : ∀ id, s'.confirmations id = s.confirmations id) (hcarried : Carried s s') :
      LogStep s s' r
  | told (r : Request) (rows : List Consent) (hconsents : s'.consents = s.consents ++ rows)
      (hrows : ∀ row ∈ rows, row.Worded ∧ (row.source = .bookingPage → row.granted = false) ∧
        ∃ p, s'.live row.clientId = some p ∧ Recorded [r] p row)
      (hlinks : s'.links = s.links) (hnot : ∀ id, ¬ r.erases id)
      (honce : ∀ id, s'.confirmations id = s.confirmations id) (hcarried : Carried s s') :
      LogStep s s' r
  | confirmed (now : ℤ) (c : Confirmation) (b : Appointment) (event : Happening)
      (texts : Purpose → Option String) (p : Person)
      (hresolve : s.resolve c.tokenHash now = some b) (hbooking : c.bookingId = b.id)
      (hevent : s.consentEvent b.id = some event)
      (hpending : s.pendingConsents b.id b.clientId ≠ [])
      (htexts : textsFor (event.policyVersion.getD "")
        (granting (s.pendingConsents b.id b.clientId)).named = .ok texts)
      (hlive : s.live b.clientId = some p)
      (heq : s' = { s with
        consents := s.consents ++ (granting (s.pendingConsents b.id b.clientId)).named.map
          fun p => ⟨b.clientId, p, ((granting (s.pendingConsents b.id b.clientId)) p).getD false,
            (texts p).getD "", event.policyVersion.getD "", .bookingPage, c.origin, c.clock p⟩
        events := s.events ++ [⟨b.id, .consentConfirmed, c.origin, none, none, none, none,
          c.createdAt⟩] }) :
      LogStep s s' (.confirmConsents now c)
  | erased (now : ℤ) (e : Erasure)
      (hconsents : s'.consents = s.consents.filter fun row => row.clientId ≠ e.clientId)
      (hlinks : ∀ l ∈ s'.links, l ∈ s.links)
      (honce : ∀ id, s'.confirmations id = s.confirmations id) (hcarried : Carried s s') :
      LogStep s s' (.erase now e)

theorem confirmations_append {new : List Happening} (hevents : s'.events = s.events ++ new)
    (hnew : ∀ e ∈ new, e.name ≠ .consentConfirmed) (id : ℕ) :
    s'.confirmations id = s.confirmations id := by
  have hzero : new.countP (fun e => e.bookingId = id ∧ e.name = .consentConfirmed) = 0 :=
    List.countP_eq_zero.mpr fun e he => by simp [hnew e he]
  unfold Register.confirmations
  rw [hevents, List.countP_append, hzero, Nat.add_zero]

theorem place_carried {row : ℕ → Appointment} {event : ℕ → Happening}
    {hid : ∀ id, (row id).id = id} (hbookings : s'.bookings = s.bookings)
    (hevents : s'.events = s.events) : Carried s (s'.place row event hid) := by
  refine ⟨fun b hb => ⟨b, ?_, rfl, rfl⟩, fun e he => ⟨e, ?_, rfl, rfl, rfl, rfl, rfl⟩⟩
  · exact List.mem_append_left _ (hbookings ▸ hb)
  · exact List.mem_append_left _ (hevents ▸ he)

theorem consentTexts_empty : consentTexts "" = none := by
  simp [consentTexts, legacyVersion, policyVersionFor, offeredVersion]

theorem mem_named {c : Choices} {p : Purpose} : p ∈ c.named ↔ ∃ answer, c p = some answer := by
  simp [Choices.named, Purpose.mem_all, Option.isSome_iff_exists]

theorem granting_named {purposes : List Purpose} {p : Purpose}
    (hp : p ∈ (granting purposes).named) : ((granting purposes) p).getD false = true := by
  obtain ⟨answer, hanswer⟩ := mem_named.mp hp
  unfold granting at hanswer ⊢
  split_ifs at hanswer ⊢
  rfl

/-- The rows a record of the purposes writes have the version's wording. -/
theorem worded_of_textsFor {version : String} {purposes : Choices}
    {texts : Purpose → Option String} (h : textsFor version purposes.named = .ok texts)
    {p : Purpose} (hp : p ∈ purposes.named) {clientId : ℕ} {granted : Bool}
    {source : ConsentSource} {origin : Origin} {at_ : ℤ} :
    Consent.Worded ⟨clientId, p, granted, (texts p).getD "", version, source, origin, at_⟩ := by
  obtain ⟨hversion, hall⟩ := textsFor_eq_ok.mp h
  obtain ⟨text, htext⟩ := Option.isSome_iff_exists.mp (hall p hp)
  exact ⟨texts, hversion, by rw [htext]; rfl⟩

theorem findOrCreate_frame {typed : Person} {proven : Bool} {s₁ : Register} {id : ℕ}
    (h : s.findOrCreate typed proven = (s₁, id)) :
    ∃ clients, s₁ = { s with clients := clients } := by
  unfold Register.findOrCreate at h
  split at h
  · cases h
    exact ⟨_, rfl⟩
  · split_ifs at h <;> cases h
    · exact ⟨_, rfl⟩
    · exact ⟨s.clients, rfl⟩

/-- The record found or made is the typed address's. -/
theorem findOrCreate_live {typed : Person} {proven : Bool} {s₁ : Register} {id : ℕ}
    (h : s.findOrCreate typed proven = (s₁, id)) {address : Text}
    (htyped : typed.email = some address) {p : Person} (hp : s₁.live id = some p) :
    p.email = some address := by
  unfold Register.findOrCreate at h
  split at h
  · cases h
    obtain ⟨c, hc, hid, hcontent⟩ := live_eq_some.mp hp
    rcases List.mem_append.mp hc with hc | hc
    · exact absurd hid (Register.lt_nextId hc).ne
    · rw [List.mem_singleton.mp hc] at hcontent
      cases hcontent
      exact htyped
  · rename_i c hfile
    obtain ⟨hc, address', heq, hemail⟩ := onFile_eq_some hfile
    rw [htyped] at heq
    cases heq
    obtain ⟨q, hq, hqemail⟩ := live_of_email hemail
    have hlive : s.live c.id = some q := live_eq_some.mpr ⟨c, hc, rfl, hq⟩
    split_ifs at h <;> cases h
    · have hrows : (s.update c.id typed.refreshed).clients = s.clients.update (fun d => d.id = c.id)
          (Record.mapPerson typed.refreshed) (Record.mapPerson_id _) := rfl
      obtain ⟨p', hp', hemail'⟩ := live_mapPerson hlive hrows fun _ => rfl
      rw [hp] at hp'
      cases hp'
      exact hemail'.trans hqemail
    · rw [hp] at hlive
      cases hlive
      exact hqemail

theorem bookOnline_logStep {new : PageBooking} (h : s.bookOnline number new = .ok s') :
    LogStep s s' (.bookOnline new) := by
  obtain ⟨phone, s₁, clientId, s₂, hheld, -, hfound, hrecord, rfl⟩ := bookOnline_eq_ok h
  obtain ⟨texts, p, htexts, hlive, rfl⟩ := recordConsents_eq_ok hrecord
  have hemail := findOrCreate_live hfound rfl hlive
  obtain ⟨clients, rfl⟩ := findOrCreate_frame hfound
  refine .told _ _ rfl ?_ rfl (fun _ => id)
    (confirmations_append rfl fun e he => ?_) (place_carried rfl rfl)
  · intro row hrow
    obtain ⟨purpose, hpurpose, rfl⟩ := List.mem_map.mp hrow
    -- only a proven address withdraws
    obtain ⟨answer, hanswer⟩ := mem_named.mp hpurpose
    unfold PageBooking.withdrawals at hanswer
    split_ifs at hanswer with hproof
    obtain ⟨hsaid, hfalse⟩ := Option.filter_eq_some_iff.mp hanswer
    rw [decide_eq_true_eq] at hfalse
    subst hfalse
    have hgranted : (new.withdrawals purpose).getD false = false := by
      unfold PageBooking.withdrawals
      rw [if_pos hproof, hanswer]
      rfl
    refine ⟨worded_of_textsFor htexts hpurpose, fun _ => hgranted, p, hlive, ?_⟩
    exact .withdrawn new (List.mem_singleton_self _) (hheld hproof) hproof hemail rfl hgranted hsaid
  · rw [List.mem_singleton.mp he]
    exact nofun

theorem create_frame {new : ClientIn} {id : ℕ} (h : s.create number new = .ok (s', id)) :
    ∃ clients, s' = { s with clients := clients } := by
  obtain ⟨person, -, -, heq⟩ := create_eq_ok h
  cases heq
  exact ⟨_, rfl⟩

theorem quiet_of_clients {clients : Table Record ℕ Record.id} (r : Request)
    (hnot : ∀ id, ¬ r.erases id) : LogStep s { s with clients := clients } r :=
  .quiet r rfl (fun _ hl => .inl hl) (fun id _ _ => hnot id) (fun _ => rfl)
    (carried_of_eq rfl ⟨[], (List.append_nil _).symm⟩)

theorem book_logStep {new : ConsoleBooking} (h : s.book number new = .ok s') :
    LogStep s s' (.book new) := by
  unfold Register.book at h
  split at h
  · cases h
  · rename_i s₁ clientId hchoose
    cases h
    obtain ⟨clients, rfl⟩ : ∃ clients, s₁ = { s with clients := clients } := by
      unfold Register.choose at hchoose
      split at hchoose
      · split at hchoose <;> cases hchoose
        exact ⟨s.clients, rfl⟩
      · exact create_frame hchoose
    refine .quiet _ rfl (fun _ hl => .inl hl) (fun _ _ _ => id)
      (confirmations_append rfl fun e he => ?_) (place_carried rfl rfl)
    rw [List.mem_singleton.mp he]
    exact nofun

theorem addConsents_logStep {body : MemberRecord} (h : s.addConsents body = .ok s') :
    LogStep s s' (.addConsents body) := by
  unfold Register.addConsents at h
  split at h
  · cases h
  · obtain ⟨texts, p, htexts, hlive, rfl⟩ := recordConsents_eq_ok h
    refine .told _ _ rfl ?_ rfl (fun _ => id) (fun _ => rfl)
      (carried_of_eq rfl ⟨[], (List.append_nil _).symm⟩)
    intro row hrow
    obtain ⟨purpose, hpurpose, rfl⟩ := List.mem_map.mp hrow
    obtain ⟨answer, hanswer⟩ := mem_named.mp hpurpose
    refine ⟨worded_of_textsFor htexts hpurpose, nofun, p, hlive, ?_⟩
    exact .byMember body (List.mem_singleton_self _) rfl rfl (by rw [hanswer]; rfl)

theorem blank_confirmations (clientId id : ℕ) :
    (s.blank clientId).confirmations id = s.confirmations id := by
  unfold Register.confirmations Register.blank
  rw [List.countP_map]
  refine List.countP_congr fun e _ => ?_
  simp only [Function.comp_apply]
  split_ifs <;> rfl

theorem blank_carried (clientId : ℕ) : Carried s (s.blank clientId) := by
  refine ⟨fun b hb => ?_, fun e he => ?_⟩
  · by_cases hp : b.clientId = clientId
    · have hmem : b.blanked ∈ (s.bookings.update (fun b => b.clientId = clientId)
          Appointment.blanked fun _ => rfl).rows := Table.mem_update.mpr (.inl ⟨b, hb, hp, rfl⟩)
      exact ⟨b.blanked, hmem, rfl, rfl⟩
    · have hmem : b ∈ (s.bookings.update (fun b => b.clientId = clientId)
          Appointment.blanked fun _ => rfl).rows := Table.mem_update.mpr (.inr ⟨hb, hp⟩)
      exact ⟨b, hmem, rfl, rfl⟩
  · refine ⟨_, List.mem_map_of_mem he, ?_⟩
    split_ifs <;> exact ⟨rfl, rfl, rfl, rfl, rfl⟩

theorem endForErasure_confirmations {now : ℤ} {e : Erasure} (id : ℕ) :
    (s.endForErasure now e).confirmations id = s.confirmations id := by
  refine confirmations_append rfl (fun ended hended => ?_) id
  obtain ⟨b, -, rfl⟩ := List.mem_map.mp hended
  dsimp only
  split_ifs <;> exact nofun

theorem erase_logStep {now : ℤ} {e : Erasure} (h : s.erase now e = .ok s') :
    LogStep s s' (.erase now e) := by
  have hended : Carried s (s.endForErasure now e) :=
    carried_update (f := Appointment.ended) (fun _ => rfl) rfl (fun _ => rfl) ⟨_, rfl⟩
  rcases erase_eq_ok h with ⟨hfind, rfl⟩ | ⟨c, -, rfl⟩
  · refine .quiet _ rfl (fun _ hl => .inl hl) (fun id p hp heq => ?_) endForErasure_confirmations
      hended
    rw [← heq, Register.live, hfind] at hp
    cases hp
  · obtain ⟨holds, hholds⟩ : ∃ holds, ((s.endForErasure now e).eraseRow now e.clientId).hold
        e.clientId now e.announce c.person? =
          { (s.endForErasure now e).eraseRow now e.clientId with holds := holds } := hold_frame
    rw [hholds]
    refine .erased now e rfl (fun _ => List.mem_of_mem_filter) (fun id => ?_) ?_
    · rw [blank_confirmations]
      exact endForErasure_confirmations id
    · refine (hended.trans ?_).trans (blank_carried e.clientId)
      exact carried_of_eq rfl ⟨[], (List.append_nil _).symm⟩

/-- **What a request does to the log.** -/
theorem serve_logStep (h : s.serve number r = .ok s') : LogStep s s' r := by
  cases r with
  | bookOnline new => exact bookOnline_logStep h
  | createClient new =>
      simp only [Register.serve, Except.map] at h
      split at h
      · cases h
      · rename_i p hp
        cases h
        obtain ⟨s₁, clientId⟩ := p
        obtain ⟨clients, rfl⟩ := create_frame hp
        exact quiet_of_clients _ fun _ => id
  | book new => exact book_logStep h
  | updateClient owner clientId change =>
      simp only [Register.serve, Register.updateClient] at h
      split at h
      · cases h
      · split at h
        · cases h
        · split at h <;> cases h
          · exact quiet_of_clients _ fun _ => id
          · exact quiet_of_clients _ fun _ => id
  | addConsents body => exact addConsents_logStep h
  | confirmConsents now c =>
      obtain ⟨b, event, texts, p, hresolve, hbooking, hevent, hpending, htexts, hlive, heq⟩ :=
        confirmConsents_eq_ok h
      exact .confirmed now c b event texts p hresolve hbooking hevent hpending htexts hlive heq
  | erase now e => exact erase_logStep h
  | change c =>
      cases h
      refine .quiet _ rfl (fun _ hl => .inl hl) (fun _ _ _ => id)
        (confirmations_append rfl fun e he => ?_)
        (carried_update (f := Appointment.changed c) (fun _ => rfl) rfl (fun _ => rfl) ⟨_, rfl⟩)
      rw [List.mem_singleton.mp he]
      exact c.own.2
  | link l =>
      cases h
      refine .quiet _ rfl (fun m hm => ?_) (fun _ _ _ => id) (fun _ => rfl)
        (carried_of_eq rfl ⟨[], (List.append_nil _).symm⟩)
      exact (List.mem_append.mp hm).imp_right fun hm => by rw [List.mem_singleton.mp hm]
  | purgeHolds now | others payments mails =>
      cases h
      exact .quiet _ rfl (fun _ hl => .inl hl) (fun _ _ _ => id) (fun _ => rfl)
        (carried_of_eq rfl ⟨[], (List.append_nil _).symm⟩)

/-! ## § Every run -/

theorem Recorded.mono {p p' : Person} {row : Consent} {rs' : List Request}
    (h : Recorded rs p row) (hrs : rs ⊆ rs') (hemail : p'.email = p.email) :
    Recorded rs' p' row := by
  cases h with
  | byMember body hmem hsource hclient hanswer =>
      exact .byMember body (hrs hmem) hsource hclient hanswer
  | withdrawn new hmem hheld hproof haddress hsource hgranted hanswer =>
      exact .withdrawn new (hrs hmem) hheld hproof (hemail.trans haddress) hsource hgranted hanswer
  | confirmed hsource hgranted => exact .confirmed hsource hgranted

theorem LogStep.minted (h : LogStep s s' r) (hs : ∀ l ∈ s.links, .link l ∈ rs) :
    ∀ l ∈ s'.links, .link l ∈ rs ++ [r] := by
  have hold : ∀ l ∈ s.links, .link l ∈ rs ++ [r] := fun l hl => List.mem_append_left _ (hs l hl)
  intro l hl
  cases h with
  | quiet _ _ hlinks _ _ _ =>
      rcases hlinks l hl with hl | rfl
      · exact hold l hl
      · exact List.mem_append_right _ (List.mem_singleton_self _)
  | told _ _ _ _ hlinks _ _ _ => exact hold l (hlinks ▸ hl)
  | confirmed now c b event texts p _ _ _ _ _ _ heq =>
      subst heq
      exact hold l hl
  | erased now e _ hlinks _ _ => exact hold l (hlinks l hl)

/-- A row found in the log, or one the request wrote itself. -/
theorem LogStep.mem (h : LogStep s s' r) {row : Consent} (hrow : row ∈ s'.consents) :
    (row ∈ s.consents ∧ ∀ p, s.live row.clientId = some p → ¬ r.erases row.clientId) ∨
      (row.Worded ∧ ∃ p, s'.live row.clientId = some p ∧ Recorded [r] p row) := by
  cases h with
  | quiet _ hconsents _ hnot _ _ => exact .inl ⟨hconsents ▸ hrow, hnot row.clientId⟩
  | told _ rows hconsents hrows _ hnot _ _ =>
      rw [hconsents] at hrow
      rcases List.mem_append.mp hrow with hrow | hrow
      · exact .inl ⟨hrow, fun _ _ => hnot _⟩
      · obtain ⟨hworded, -, hlive⟩ := hrows row hrow
        exact .inr ⟨hworded, hlive⟩
  | confirmed now c b event texts p _ _ _ _ htexts hlive heq =>
      subst heq
      rcases List.mem_append.mp hrow with hrow | hrow
      · exact .inl ⟨hrow, fun _ _ => id⟩
      · obtain ⟨purpose, hpurpose, rfl⟩ := List.mem_map.mp hrow
        exact .inr ⟨worded_of_textsFor htexts hpurpose, p, hlive,
          .confirmed rfl (granting_named hpurpose)⟩
  | erased now e hconsents _ _ _ =>
      rw [hconsents] at hrow
      obtain ⟨hrow, hne⟩ := List.mem_filter.mp hrow
      rw [decide_eq_true_eq] at hne
      exact .inl ⟨hrow, fun _ _ heq => hne heq.symm⟩

theorem mem_pendingConsents {bookingId clientId : ℕ} {p : Purpose} {event : Happening}
    (hevent : s.consentEvent bookingId = some event)
    (h : p ∈ s.pendingConsents bookingId clientId) :
    s.confirmations bookingId = 0 ∧ (∃ kept ∈ event.consentPurposes, kept p = some true) ∧
      ∀ w ∈ s.consents, w.clientId = clientId → w.purpose = p → w.granted = false →
        w.createdAt ≤ event.createdAt := by
  unfold Register.pendingConsents at h
  split_ifs at h with hconfirmed
  · cases h
  · rw [hevent] at h
    obtain ⟨hticked, hsince⟩ := List.mem_filter.mp h
    refine ⟨List.countP_eq_zero.mpr fun e he => ?_, ?_, fun w hw hclient hpurpose hgranted => ?_⟩
    · simpa using fun hof hname => hconfirmed ⟨e, he, hof, hname⟩
    · obtain ⟨-, htrue⟩ := List.mem_filter.mp hticked
      rw [decide_eq_true_eq] at htrue
      cases hkept : event.consentPurposes with
      | none => rw [hkept] at htrue; cases htrue
      | some kept => exact ⟨kept, rfl, by rwa [hkept] at htrue⟩
    · by_contra hlate
      rw [decide_eq_true_eq] at hsince
      refine hsince (List.mem_map.mpr ⟨w, List.mem_filter.mpr ⟨hw, ?_⟩, hpurpose⟩)
      simpa using ⟨hclient, hgranted, not_le.mp hlate⟩

theorem consentEvent_eq_some {bookingId : ℕ} {event : Happening}
    (h : s.consentEvent bookingId = some event) :
    event ∈ s.events ∧ event.bookingId = bookingId ∧ event.name = .created := by
  obtain ⟨hof, hname⟩ : event.bookingId = bookingId ∧ event.name = .created := by
    simpa using List.find?_some h
  exact ⟨List.mem_of_find?_eq_some h, hof, hname⟩

theorem resolve_eq_some {tokenHash : ℕ} {now : ℤ} {b : Appointment}
    (h : s.resolve tokenHash now = some b) :
    b ∈ s.bookings.rows ∧ ⟨tokenHash, b.id⟩ ∈ s.links := by
  obtain ⟨l, hl, hb⟩ := Option.bind_eq_some_iff.mp h
  obtain ⟨hfind, -⟩ := Option.filter_eq_some_iff.mp hb
  obtain ⟨hmem, hid⟩ := Table.find_eq_some.mp hfind
  have htoken : l.tokenHash = tokenHash := by simpa using List.find?_some hl
  refine ⟨hmem, ?_⟩
  rw [hid, ← htoken]
  exact List.mem_of_find?_eq_some hl

/-- **The grounds of a grant** from the booking page. -/
theorem LogStep.grounded (h : LogStep s s' r) (hminted : ∀ l ∈ s'.links, .link l ∈ rs ++ [r])
    (hs : Grounded (fun earlier row => row.source = .bookingPage → row.granted = true →
      s.Confirmed rs earlier row) s.consents) :
    Grounded (fun earlier row => row.source = .bookingPage → row.granted = true →
      s'.Confirmed (rs ++ [r]) earlier row) s'.consents := by
  have hrs : rs ⊆ rs ++ [r] := List.subset_append_left rs [r]
  have hold : ∀ {P : Register}, Carried s P → Grounded (fun earlier row =>
      row.source = .bookingPage → row.granted = true → P.Confirmed (rs ++ [r]) earlier row)
      s.consents := fun hc => hs.mono fun _ _ _ hrow hsource hgranted =>
    Confirmed.carried (hrow hsource hgranted) hc hrs
  cases h with
  | quiet _ hconsents _ _ _ hcarried =>
      rw [hconsents]
      exact hold hcarried
  | told _ rows hconsents hrows _ _ _ hcarried =>
      rw [hconsents]
      refine (hold hcarried).append fun earlier row later heq hsource hgranted => ?_
      -- the request's own rows of the booking page are withdrawals
      have hrow := hrows row (heq ▸ List.mem_append_right _ (List.mem_cons_self ..))
      rw [hrow.2.1 hsource] at hgranted
      cases hgranted
  | confirmed now c b event texts p hresolve hbooking hevent hpending htexts hlive heq =>
      have hcarried : Carried s s' := by
        subst heq
        exact carried_of_eq rfl ⟨_, rfl⟩
      obtain ⟨hb, hlink⟩ := resolve_eq_some hresolve
      obtain ⟨he, hof, hname⟩ := consentEvent_eq_some hevent
      subst heq
      refine (hold hcarried).append fun earlier row later hsplit _ _ => ?_
      have hrow := List.mem_append_right earlier (List.mem_cons_self (a := row) (l := later))
      have hgrants : ∀ w ∈ earlier ++ row :: later, w.granted = true := by
        intro w hw
        rw [← hsplit] at hw
        obtain ⟨q, hq, rfl⟩ := List.mem_map.mp hw
        exact granting_named hq
      rw [← hsplit] at hrow
      obtain ⟨purpose, hpurpose, rfl⟩ := List.mem_map.mp hrow
      have hmem : purpose ∈ s.pendingConsents b.id b.clientId := by
        obtain ⟨answer, hanswer⟩ := mem_named.mp hpurpose
        unfold granting at hanswer
        split_ifs at hanswer with hmem
        exact hmem
      obtain ⟨-, hkept, hsince⟩ := mem_pendingConsents hevent hmem
      refine ⟨b, hb, rfl, ⟨now, c, List.mem_append_right _ (List.mem_singleton_self _), hbooking,
        hminted _ hlink⟩, event, List.mem_append_left _ he, hof, hname, ?_, hkept, ?_⟩
      · -- a version with wording is one
        obtain ⟨hversion, -⟩ := textsFor_eq_ok.mp htexts
        cases hpolicy : event.policyVersion with
        | none =>
            rw [hpolicy] at hversion
            cases consentTexts_empty.symm.trans hversion
        | some version => rfl
      · intro w hw hclient hpurpose' hgranted
        rcases List.mem_append.mp hw with hw | hw
        · exact hsince w hw hclient hpurpose' hgranted
        · -- the confirmation's own rows are grants
          rw [hgrants w (List.mem_append_left _ hw)] at hgranted
          cases hgranted
  | erased now e hconsents _ _ hcarried =>
      rw [hconsents]
      refine (hold hcarried).filter fun earlier row hrow hsource hgranted => ?_
      obtain ⟨b, hb, hclient, hconfirm, event, he, hof, hname, hversion, hkept, hsince⟩ :=
        hrow hsource hgranted
      exact ⟨b, hb, hclient, hconfirm, event, he, hof, hname, hversion, hkept,
        fun w hw => hsince w (List.mem_of_mem_filter hw)⟩

theorem LogStep.once (h : LogStep s s' r) (hs : ∀ id, s.confirmations id ≤ 1) :
    ∀ id, s'.confirmations id ≤ 1 := by
  intro id
  cases h with
  | quiet _ _ _ _ honce _ | told _ _ _ _ _ _ honce _ | erased _ _ _ _ honce _ =>
      rw [honce]
      exact hs id
  | confirmed now c b event texts p _ _ hevent hpending _ _ heq =>
      obtain ⟨purpose, hpurpose⟩ := List.exists_mem_of_ne_nil _ hpending
      obtain ⟨hzero, -⟩ := mem_pendingConsents hevent hpurpose
      subst heq
      unfold Register.confirmations at hzero ⊢
      rw [List.countP_append]
      by_cases hid : b.id = id
      · rw [← hid, hzero]
        simp
      · have := hs id
        unfold Register.confirmations at this
        simpa [hid] using this

theorem evidence_step (hclients : ClientsStep s s' r) (hlog : LogStep s s' r)
    (hs : s.Evidence rs) : s'.Evidence (rs ++ [r]) := by
  have hminted := hlog.minted hs.minted
  refine ⟨hminted, fun row hrow => ?_, fun row hrow => ?_, hlog.grounded hminted hs.confirmed,
    hlog.once hs.once⟩
  · rcases hlog.mem hrow with ⟨hold, hnot⟩ | ⟨-, p, hp, hrecorded⟩
    · obtain ⟨p, hp, hrecorded⟩ := hs.attached row hold
      obtain ⟨p', hp', hemail⟩ := hclients.live hp (hnot p hp)
      exact ⟨p', hp', hrecorded.mono (List.subset_append_left rs [r]) hemail⟩
    · exact ⟨p, hp, hrecorded.mono (List.subset_append_right rs [r]) rfl⟩
  · rcases hlog.mem hrow with ⟨hold, -⟩ | ⟨hworded, -⟩
    · exact hs.worded row hold
    · exact hworded

theorem evidence_run (number : Text → Option Text) (rs : List Request) :
    (Register.empty.run number rs).Evidence rs := by
  induction rs using List.reverseRecOn with
  | nil =>
      refine ⟨nofun, nofun, nofun, grounded_nil, fun id => ?_⟩
      simp [Register.run, Register.empty, Register.confirmations]
  | append_singleton rs r ih =>
      rw [run_concat]
      unfold Register.after
      split
      · rename_i s' h
        exact evidence_step (serve_clientsStep h) (serve_logStep h) ih
      · -- a refusal
        have hmono := List.subset_append_left rs [r]
        refine ⟨fun l hl => hmono (ih.minted l hl), fun row hrow => ?_, ih.worded,
          ih.confirmed.mono fun _ _ _ hrow hsource hgranted => ?_, ih.once⟩
        · obtain ⟨p, hp, hrecorded⟩ := ih.attached row hrow
          exact ⟨p, hp, hrecorded.mono hmono rfl⟩
        · exact Confirmed.carried (hrow hsource hgranted)
            (carried_of_eq rfl ⟨[], (List.append_nil _).symm⟩) hmono

/-- What stands behind a client's being mailed for a purpose: the newest row of it, a grant in
its version's words, of a client on file; and either a member recorded that very answer, or the
row was confirmed. -/
def Register.Asked (s : Register) (rs : List Request) (clientId : ℕ) (p : Purpose) : Prop :=
  ∃ earlier row later, s.consents = earlier ++ row :: later ∧ row.clientId = clientId ∧
    row.purpose = p ∧ row.granted = true ∧ row.Worded ∧
    (∃ person, s.live clientId = some person) ∧
    (∀ w ∈ later, ¬ (w.clientId = clientId ∧ w.purpose = p)) ∧
    ((∃ body, .addConsents body ∈ rs ∧ body.clientId = clientId ∧ body.purposes p = some true) ∨
      s.Confirmed rs earlier row)

/-- **Nobody is mailed who did not say so.** However requests come, a client the console shows
as mailable for a purpose has the newest row of it to show: a grant, in the words its version
published, which a member recorded, or which a booking of the client ticked, a token minted for
that booking confirmed, and every earlier withdrawal is older than. A booking is confirmed at
most once, and a withdrawal on the page is the person's own account's. -/
theorem mailable_asked (number : Text → Option Text) (rs : List Request) :
    (∀ clientId p, (Register.empty.run number rs).mailable clientId p = true →
      (Register.empty.run number rs).Asked rs clientId p) ∧
    (∀ bookingId, (Register.empty.run number rs).confirmations bookingId ≤ 1) ∧
    ∀ row ∈ (Register.empty.run number rs).consents,
      row.Worded ∧ ∃ p, (Register.empty.run number rs).live row.clientId = some p ∧
        Recorded rs p row := by
  set s := Register.empty.run number rs
  have hev : s.Evidence rs := evidence_run number rs
  refine ⟨fun clientId p h => ?_, hev.once, fun row hrow =>
    ⟨hev.worded row hrow, hev.attached row hrow⟩⟩
  unfold Register.mailable at h
  obtain ⟨row, hrow, hmail⟩ := (Option.any_eq_true _ _).mp h
  obtain ⟨earlier, later, hsplit, hpick, hlater⟩ := exists_latest hrow
  obtain ⟨hclient, hpurpose⟩ : row.clientId = clientId ∧ row.purpose = p := by simpa using hpick
  obtain ⟨hgranted, -⟩ : row.granted = true ∧ row.source ≠ .imported := by
    simpa [Clients.mailable] using hmail
  have hmem : row ∈ s.consents := hsplit ▸ List.mem_append_right _ (List.mem_cons_self ..)
  obtain ⟨person, hlive, hrecorded⟩ := hev.attached row hmem
  refine ⟨earlier, row, later, hsplit, hclient, hpurpose, hgranted, hev.worded row hmem,
    ⟨person, hclient ▸ hlive⟩, fun w hw hboth => ?_, ?_⟩
  · have := hlater w hw
    rw [decide_eq_false_iff_not] at this
    exact this hboth
  · cases hrecorded with
    | byMember body hbody _ hof hanswer =>
        exact .inl ⟨body, hbody, hof.trans hclient, by rw [← hpurpose, hanswer, hgranted]⟩
    | withdrawn _ _ _ _ _ _ hfalse _ =>
        rw [hfalse] at hgranted
        cases hgranted
    | confirmed hsource _ => exact .inr (hev.confirmed earlier row later hsplit hsource hgranted)

/-- A guest books with the box ticked, and confirms by the link they are sent. -/
def guestConfirms : List Request :=
  [.bookOnline
    { accounts := [], held := true, name := ⟨codes "Ann", by decide⟩, address := codes "ann@b.c"
      phone := codes "+31612345678", locale := some .en, policyVersion := policyVersionFor .en
      consents := fun p => if p = .marketingEmail then some true else none
      message := none, origin := ⟨none, none⟩, status := .confirmed, startsAt := 100
      expiresAt := none, checkoutHash := none, clock := fun _ => 1, createdAt := 1 },
    .link ⟨7, 1⟩, .confirmConsents 5 ⟨7, 1, ⟨none, none⟩, fun _ => 6, 6⟩]

theorem mailable_asked_guestConfirms :
    (Register.empty.run some (guestConfirms.take 2)).mailable 1 .marketingEmail = false ∧
      (Register.empty.run some guestConfirms).mailable 1 .marketingEmail = true ∧
      (Register.empty.run some guestConfirms).Asked guestConfirms 1 .marketingEmail :=
  ⟨by decide +kernel, by decide +kernel,
    (mailable_asked some guestConfirms).1 1 .marketingEmail (by decide +kernel)⟩

end Ziftbook.Clients
