import Ziftbook.Clients.Requests

/-!
# A client's record stays theirs

What a request may do to the clients, once for each kind. From it: one record an address; a
record linked to an account only by that account's own booking, and never relinked; and a
record that only its own person, the console's note and an erasure change.
-/

namespace Ziftbook.Clients

open Foundation Csp

variable {number : Text → Option Text} {s s' : Register} {r : Request}

/-! ## § What each statement does -/

theorem onFile_eq_some {email : Option Text} {c : Record} (h : s.onFile email = some c) :
    c ∈ s.clients.rows ∧ ∃ address, email = some address ∧ c.email = some address := by
  obtain ⟨address, rfl, hfind⟩ := Option.bind_eq_some_iff.mp h
  exact ⟨List.mem_of_find?_eq_some hfind, address, rfl, by simpa using List.find?_some hfind⟩

theorem onFile_eq_none {email : Option Text} (h : s.onFile email = none) {c : Record}
    (hc : c ∈ s.clients.rows) : ∀ address ∈ email, c.email ≠ some address := by
  rintro address rfl
  simpa using List.find?_eq_none.mp h c hc

theorem live_of_email {c : Record} {address : Text} (h : c.email = some address) :
    ∃ p, c.content = .live p ∧ p.email = some address := by
  obtain ⟨p, hp, hemail⟩ := Option.bind_eq_some_iff.mp h
  exact ⟨p, Record.person?_eq_some.mp hp, hemail⟩

theorem recordConsents_eq_ok {clientId : ℕ} {version : String} {purposes : Choices}
    {source : ConsentSource} {origin : Origin} {clock : Purpose → ℤ}
    (h : s.recordConsents clientId version purposes source origin clock = .ok s') :
    ∃ texts p, textsFor version purposes.named = .ok texts ∧ s.live clientId = some p ∧
      s' = { s with consents := s.consents ++ purposes.named.map fun p =>
        ⟨clientId, p, (purposes p).getD false, (texts p).getD "", version, source, origin,
          clock p⟩ } := by
  unfold Register.recordConsents at h
  cases htexts : textsFor version purposes.named with
  | error e => rw [htexts] at h; cases h
  | ok texts =>
      rw [htexts] at h
      simp only [bind, Except.bind] at h
      cases hlive : s.live clientId with
      | none => rw [hlive] at h; cases h
      | some p =>
          rw [hlive] at h
          cases h
          exact ⟨texts, p, rfl, rfl, rfl⟩

/-! ## § What a request does -/

/-- What a request does to the clients. -/
inductive ClientsStep (s s' : Register) : Request → Prop
  | same (r : Request) (hsame : s'.clients = s.clients) : ClientsStep s s' r
  | added (r : Request) (person : Person) (hfile : s.onFile person.email = none)
      (hrows : s'.clients.rows = s.clients.rows ++ [⟨s.nextId, .live person⟩])
      (hlinked : ∀ u ∈ person.userId, ∃ new, r = .bookOnline new ∧ new.held = true ∧
        person.email = some new.address ∧ new.proof.map Account.userId = some u) :
      ClientsStep s s' r
  | refreshed (new : PageBooking) (phone : Text) (c : Record) (hproof : new.proof.isSome)
      (hheld : new.held = true) (hfile : s.onFile (some new.address) = some c)
      (hrows : s'.clients = s.clients.update (fun d => d.id = c.id)
        (Record.mapPerson (new.typed phone).refreshed) (Record.mapPerson_id _)) :
      ClientsStep s s' (.bookOnline new)
  | noted (owner : Bool) (id : ℕ) (change : NoteChange)
      (hrows : s'.clients = s.clients.update (fun c => c.id = id)
        (Record.mapPerson (change.applied owner)) (Record.mapPerson_id _)) :
      ClientsStep s s' (.updateClient owner id change)
  | erased (now : ℤ) (e : Erasure)
      (hrows : s'.clients = s.clients.update (fun c => c.id = e.clientId) (Record.erase now)
        (Record.erase_id now)) :
      ClientsStep s s' (.erase now e)

theorem bookOnline_eq_ok {new : PageBooking} (h : s.bookOnline number new = .ok s') :
    ∃ phone s₁ clientId s₂, (new.proof.isSome → new.held = true) ∧
      (∃ texts, textsFor new.policyVersion new.consents.named = .ok texts) ∧
      s.findOrCreate (new.typed phone) new.proof.isSome = (s₁, clientId) ∧
      s₁.recordConsents clientId new.policyVersion new.withdrawals .bookingPage new.origin
        new.clock = .ok s₂ ∧
      s' = s₂.place
        (fun id => ⟨id, clientId, new.status, new.startsAt, new.expiresAt, some new.name.1,
          some phone, new.message, none, new.checkoutHash, new.proof.map Account.userId⟩)
        (fun id => ⟨id, .created, new.origin, some new.policyVersion, some new.kept, none, none,
          new.createdAt⟩)
        fun _ => rfl := by
  unfold Register.bookOnline at h
  split at h
  · cases h
  · split at h
    · cases h
    · rename_i texts htexts
      split at h
      · cases h
      · rename_i phone _
        split at h
        · cases h
        · rename_i hheld
          rw [not_and, Bool.not_eq_false] at hheld
          split at h
          rename_i s₁ clientId hfound
          split at h
          · cases h
          · rename_i s₂ hrecord
            cases h
            exact ⟨phone, s₁, clientId, s₂, hheld, ⟨texts, htexts⟩, hfound, hrecord, rfl⟩

theorem bookOnline_clientsStep {new : PageBooking} (h : s.bookOnline number new = .ok s') :
    ClientsStep s s' (.bookOnline new) := by
  obtain ⟨phone, s₁, clientId, s₂, hheld, -, hfound, hrecord, rfl⟩ := bookOnline_eq_ok h
  obtain ⟨_, _, -, -, rfl⟩ := recordConsents_eq_ok hrecord
  unfold Register.findOrCreate at hfound
  split at hfound
  · rename_i hfile
    cases hfound
    refine .added _ (new.typed phone) hfile rfl fun u hu => ?_
    obtain ⟨a, ha, rfl⟩ := Option.map_eq_some_iff.mp hu
    exact ⟨new, rfl, hheld (by simp [ha]), rfl, hu⟩
  · rename_i c hfile
    cases hfound
    by_cases hproof : new.proof.isSome
    · rw [if_pos hproof]
      exact .refreshed new phone c hproof (hheld hproof) hfile rfl
    · rw [if_neg hproof]
      exact .same _ rfl

theorem create_eq_ok {new : ClientIn} {id : ℕ} (h : s.create number new = .ok (s', id)) :
    ∃ person, person.userId = none ∧ s.onFile person.email = none ∧
      (s', id) = s.addClient person := by
  have hinsert : ∀ {person : Person}, person.userId = none → s.insert person = .ok (s', id) →
      ∃ person, person.userId = none ∧ s.onFile person.email = none ∧
        (s', id) = s.addClient person := by
    intro person hnone hins
    unfold Register.insert at hins
    split at hins
    · cases hins
    · rename_i hfile
      cases hins
      exact ⟨person, hnone, hfile, rfl⟩
  unfold Register.create at h
  split at h
  · exact hinsert rfl h
  · split at h
    · cases h
    · exact hinsert rfl h

theorem createClient_clientsStep {new : ClientIn}
    (h : s.serve number (.createClient new) = .ok s') :
    ClientsStep s s' (.createClient new) := by
  obtain ⟨⟨s'', id⟩, hcreate, rfl⟩ : ∃ p, s.create number new = .ok p ∧ p.1 = s' := by
    simp only [Register.serve, Except.map] at h
    split at h
    · cases h
    · rename_i p hp
      cases h
      exact ⟨p, hp, rfl⟩
  obtain ⟨person, hnone, hfile, heq⟩ := create_eq_ok hcreate
  cases heq
  exact .added _ person hfile rfl fun u hu => by rw [hnone] at hu; cases hu

theorem book_clientsStep {new : ConsoleBooking} (h : s.book number new = .ok s') :
    ClientsStep s s' (.book new) := by
  unfold Register.book at h
  split at h
  · cases h
  · rename_i s₁ clientId hchoose
    cases h
    unfold Register.choose at hchoose
    split at hchoose
    · split at hchoose
      · cases hchoose
      · cases hchoose
        exact .same _ rfl
    · obtain ⟨person, hnone, hfile, heq⟩ := create_eq_ok hchoose
      cases heq
      exact .added _ person hfile rfl fun u hu => by rw [hnone] at hu; cases hu

theorem updateClient_clientsStep {owner : Bool} {id : ℕ} {change : NoteChange}
    (h : s.updateClient owner id change = .ok s') :
    ClientsStep s s' (.updateClient owner id change) := by
  unfold Register.updateClient at h
  split at h
  · cases h
  · split at h
    · cases h
    · dsimp only at h
      split at h
      · cases h
        exact .noted owner id change rfl
      · cases h
        exact .same _ rfl

theorem addConsents_clients {body : MemberRecord} (h : s.addConsents body = .ok s') :
    s'.clients = s.clients := by
  unfold Register.addConsents at h
  split at h
  · cases h
  · obtain ⟨_, _, -, -, rfl⟩ := recordConsents_eq_ok h
    rfl

theorem confirmConsents_eq_ok {now : ℤ} {c : Confirmation}
    (h : s.confirmConsents now c = .ok s') :
    ∃ b event texts p, s.resolve c.tokenHash now = some b ∧ c.bookingId = b.id ∧
      s.consentEvent b.id = some event ∧ s.pendingConsents b.id b.clientId ≠ [] ∧
      textsFor (event.policyVersion.getD "")
        (granting (s.pendingConsents b.id b.clientId)).named = .ok texts ∧
      s.live b.clientId = some p ∧
      s' = { s with
        consents := s.consents ++ (granting (s.pendingConsents b.id b.clientId)).named.map fun p =>
          ⟨b.clientId, p, ((granting (s.pendingConsents b.id b.clientId)) p).getD false,
            (texts p).getD "", event.policyVersion.getD "", .bookingPage, c.origin, c.clock p⟩
        events := s.events ++ [⟨b.id, .consentConfirmed, c.origin, none, none, none, none,
          c.createdAt⟩] } := by
  unfold Register.confirmConsents at h
  split at h
  · cases h
  · rename_i b hresolve
    split at h
    · cases h
    · rename_i hsame
      split at h
      · cases h
      · rename_i event hevent
        dsimp only at h
        split at h
        · cases h
        · rename_i hpending
          split at h
          · cases h
          · rename_i s₁ hrecord
            cases h
            obtain ⟨texts, p, htexts, hlive, rfl⟩ := recordConsents_eq_ok hrecord
            exact ⟨b, event, texts, p, hresolve, not_not.mp hsame, hevent, hpending, htexts, hlive,
              rfl⟩

theorem hold_frame {clientId : ℕ} {now : ℤ} {announce : Bool} {p : Option Person} :
    ∃ holds, s.hold clientId now announce p = { s with holds := holds } := by
  unfold Register.hold
  split
  · exact ⟨s.holds, rfl⟩
  · split_ifs
    · exact ⟨_, rfl⟩
    · exact ⟨s.holds, rfl⟩

/-- The client's own row erased. -/
def Register.eraseRow (s : Register) (now : ℤ) (clientId : ℕ) : Register :=
  { s with
    clients := s.clients.update (fun c => c.id = clientId) (Record.erase now)
      (Record.erase_id now) }

theorem erase_eq_ok {now : ℤ} {e : Erasure} (h : s.erase now e = .ok s') :
    (s.clients.find e.clientId = none ∧ s' = s.endForErasure now e) ∨
      ∃ c, s.clients.find e.clientId = some c ∧
        s' = (((s.endForErasure now e).eraseRow now e.clientId).hold e.clientId now e.announce
          c.person?).blank e.clientId := by
  unfold Register.erase at h
  split at h
  · cases h
  · rename_i s₁ at_ hcore
    cases h
    unfold Register.eraseClientCore at hcore
    split at hcore
    · cases hcore
    · split at hcore
      · rename_i hfind
        cases hcore
        exact .inl ⟨hfind, rfl⟩
      · rename_i c hfind
        cases hcore
        exact .inr ⟨c, hfind, rfl⟩

theorem erase_clientsStep {now : ℤ} {e : Erasure} (h : s.erase now e = .ok s') :
    ClientsStep s s' (.erase now e) := by
  rcases erase_eq_ok h with ⟨-, rfl⟩ | ⟨c, -, rfl⟩
  · exact .same _ rfl
  · obtain ⟨holds, hholds⟩ : ∃ holds, ((s.endForErasure now e).eraseRow now e.clientId).hold
        e.clientId now e.announce c.person? =
          { (s.endForErasure now e).eraseRow now e.clientId with holds := holds } := hold_frame
    rw [hholds]
    exact .erased now e rfl

/-- **What a request does to the clients.** -/
theorem serve_clientsStep (h : s.serve number r = .ok s') : ClientsStep s s' r := by
  cases r with
  | bookOnline new => exact bookOnline_clientsStep h
  | createClient new => exact createClient_clientsStep h
  | book new => exact book_clientsStep h
  | updateClient owner id change => exact updateClient_clientsStep h
  | addConsents body => exact .same _ (addConsents_clients h)
  | confirmConsents now c =>
      obtain ⟨_, _, _, _, -, -, -, -, -, -, rfl⟩ := confirmConsents_eq_ok h
      exact .same _ rfl
  | erase now e => exact erase_clientsStep h
  | purgeHolds now | change c | link l | others payments mails =>
      cases h
      exact .same _ rfl

theorem after_clientsStep (number : Text → Option Text) (s : Register) (r : Request) :
    ClientsStep s (s.after number r) r := by
  unfold Register.after
  split
  · rename_i s' h
    exact serve_clientsStep h
  · exact .same r rfl

/-! ## § One record -/

/-- Whether the request is the record's own: its address's account books, the console notes it,
or it is erased. -/
def Request.touches (c : Record) : Request → Prop
  | .bookOnline new => new.proof.isSome ∧ c.email = some new.address
  | .updateClient _ id _ => id = c.id
  | .erase _ e => e.clientId = c.id
  | _ => False

/-- What may become of a record: nothing more once erased, and while it is live its address
and the account it is linked to stay. -/
structure Record.Becomes (c c' : Record) : Prop where
  id : c'.id = c.id
  final : ∀ at_, c.content = .erased at_ → c' = c
  kept : ∀ p, c.content = .live p → (∃ at_, c'.content = .erased at_) ∨
    ∃ p', c'.content = .live p' ∧ p'.email = p.email ∧ ∀ u ∈ p.userId, p'.userId = some u

theorem Record.Becomes.refl (c : Record) : c.Becomes c :=
  ⟨rfl, fun _ _ => rfl, fun p hp => .inr ⟨p, hp, rfl, fun _ hu => hu⟩⟩

theorem Record.Becomes.trans {c c' c'' : Record} (h : c.Becomes c') (h' : c'.Becomes c'') :
    c.Becomes c'' := by
  refine ⟨h'.id.trans h.id, fun at_ hat => ?_, fun p hp => ?_⟩
  · have hsame := h.final at_ hat
    rw [h'.final at_ (hsame ▸ hat), hsame]
  · rcases h.kept p hp with ⟨at_, hat⟩ | ⟨p', hp', hemail, huser⟩
    · exact .inl ⟨at_, by rw [h'.final at_ hat, hat]⟩
    · refine (h'.kept p' hp').imp_right ?_
      rintro ⟨p'', hp'', hemail', huser'⟩
      exact ⟨p'', hp'', hemail'.trans hemail, fun u hu => huser' u (huser u hu)⟩

theorem becomes_mapPerson {c : Record} {f : Person → Person}
    (hemail : ∀ p, (f p).email = p.email)
    (huser : ∀ p, ∀ u ∈ p.userId, (f p).userId = some u) : c.Becomes (c.mapPerson f) := by
  refine ⟨Record.mapPerson_id f c, fun at_ hat => ?_, fun p hp => .inr ?_⟩
  · unfold Record.mapPerson
    rw [hat]
  · exact ⟨f p, by rw [Record.mapPerson_live hp], hemail p, huser p⟩

theorem becomes_erase {c : Record} {now : ℤ} : c.Becomes (c.erase now) := by
  refine ⟨Record.erase_id now c, fun at_ hat => ?_, fun p hp => .inl ⟨now, ?_⟩⟩
  · unfold Record.erase
    rw [hat]
  · unfold Record.erase
    rw [hp]

theorem refreshed_userId {typed p : Person} {u : ℕ} (h : u ∈ p.userId) :
    (typed.refreshed p).userId = some u := by
  rw [Option.mem_def] at h
  simp [Person.refreshed, h]

/-- **What becomes of a record in one request.** -/
theorem ClientsStep.becomes (h : ClientsStep s s' r) {c : Record} (hc : c ∈ s.clients.rows) :
    ∃ c' ∈ s'.clients.rows, c.Becomes c' ∧ (¬ r.touches c → c' = c) := by
  -- a rewrite of the rows selected by their id
  have hupdate : ∀ {id : ℕ} {f : Record → Record} {hf : ∀ x, (f x).id = x.id},
      (∀ x : Record, x.Becomes (f x)) → s'.clients = s.clients.update (fun c => c.id = id) f hf →
      ∃ c' ∈ s'.clients.rows, c.Becomes c' ∧ (c.id ≠ id → c' = c) := by
    intro id f hf hbecomes hrows
    rw [hrows]
    by_cases hid : c.id = id
    · exact ⟨f c, Table.mem_update.mpr (.inl ⟨c, hc, hid, rfl⟩), hbecomes c,
        fun hne => absurd hid hne⟩
    · exact ⟨c, Table.mem_update.mpr (.inr ⟨hc, hid⟩), .refl c, fun _ => rfl⟩
  cases h with
  | same _ hsame => exact ⟨c, hsame ▸ hc, .refl c, fun _ => rfl⟩
  | added _ person _ hrows _ =>
      exact ⟨c, by rw [hrows]; exact List.mem_append_left _ hc, .refl c, fun _ => rfl⟩
  | refreshed new phone d hproof _ hfile hrows =>
      obtain ⟨c', hc', hbecomes, hsame⟩ := hupdate (fun x => becomes_mapPerson
        (f := (new.typed phone).refreshed) (fun _ => rfl) fun _ _ hu => refreshed_userId hu) hrows
      refine ⟨c', hc', hbecomes, fun hnot => hsame fun hid => hnot ⟨hproof, ?_⟩⟩
      obtain ⟨hd, address, heq, hemail⟩ := onFile_eq_some hfile
      cases heq
      rw [s.clients.eq_of_key hc hd hid, hemail]
  | noted owner id change hrows =>
      obtain ⟨c', hc', hbecomes, hsame⟩ := hupdate (fun x => becomes_mapPerson
        (f := change.applied owner) (fun _ => rfl) fun _ _ hu => hu) hrows
      exact ⟨c', hc', hbecomes, fun hnot => hsame fun hid => hnot hid.symm⟩
  | erased now e hrows =>
      obtain ⟨c', hc', hbecomes, hsame⟩ := hupdate (fun x => becomes_erase) hrows
      exact ⟨c', hc', hbecomes, fun hnot => hsame fun hid => hnot hid.symm⟩

/-! ## § Every run -/

theorem run_concat {rs : List Request} :
    s.run number (rs ++ [r]) = (s.run number rs).after number r := by
  simp [Register.run]

theorem run_append {rs rs' : List Request} :
    s.run number (rs ++ rs') = (s.run number rs).run number rs' := by
  simp [Register.run]

theorem run_becomes (rs : List Request) {c : Record} (hc : c ∈ s.clients.rows) :
    ∃ c' ∈ (s.run number rs).clients.rows, c.Becomes c' ∧
      ((∀ r ∈ rs, ¬ r.touches c) → c' = c) := by
  induction rs using List.reverseRecOn with
  | nil => exact ⟨c, hc, .refl c, fun _ => rfl⟩
  | append_singleton rs r ih =>
      obtain ⟨c₁, hc₁, hbecomes, hsame⟩ := ih
      rw [run_concat]
      obtain ⟨c₂, hc₂, hbecomes', hsame'⟩ :=
        (after_clientsStep number (s.run number rs) r).becomes hc₁
      refine ⟨c₂, hc₂, hbecomes.trans hbecomes', fun hnone => ?_⟩
      have heq := hsame fun r' hr' => hnone r' (List.mem_append_left _ hr')
      rw [hsame' (heq ▸ hnone r (List.mem_append_right _ (List.mem_singleton_self r))), heq]

/-- One record an address. -/
def OneEach (rows : List Record) : Prop :=
  ∀ c ∈ rows, ∀ c' ∈ rows, ∀ address, c.email = some address → c'.email = some address → c = c'

/-- Among the requests is a booking by the account, its session held, under the address. -/
def BookedAs (rs : List Request) (u : ℕ) (address : Option Text) : Prop :=
  ∃ new, .bookOnline new ∈ rs ∧ new.held = true ∧ address = some new.address ∧
    new.proof.map Account.userId = some u

/-- What holds of the records however they came about. -/
structure Register.Sound (s : Register) (rs : List Request) : Prop where
  oneEach : OneEach s.clients.rows
  linked : ∀ c ∈ s.clients.rows, ∀ p, c.content = .live p → ∀ u ∈ p.userId, BookedAs rs u p.email

theorem email_mapPerson {c : Record} {f : Person → Person} (hemail : ∀ p, (f p).email = p.email) :
    (c.mapPerson f).email = c.email := by
  unfold Record.email Record.mapPerson
  cases hc : c.content with
  | live p => simp [Record.person?, Content.person?, hc, hemail]
  | erased at_ => rfl

theorem email_erase {c : Record} {now : ℤ} {address : Text}
    (h : (c.erase now).email = some address) : False := by
  obtain ⟨p, hp, -⟩ := live_of_email h
  unfold Record.erase at hp
  split at hp
  · cases hp
  · rename_i hc
    rw [hc] at hp
    cases hp

/-- Rows rewritten without a new address keep one record an address. -/
theorem oneEach_update {id : ℕ} {f : Record → Record} {hf : ∀ x, (f x).id = x.id}
    (h : OneEach s.clients.rows)
    (hemail : ∀ c address, (f c).email = some address → c.email = some address) :
    OneEach (s.clients.update (fun c => c.id = id) f hf).rows := by
  have hback : ∀ c ∈ (s.clients.update (fun c => c.id = id) f hf).rows, ∀ address,
      c.email = some address → ∃ d ∈ s.clients.rows, d.id = c.id ∧ d.email = some address := by
    intro c hc address haddress
    obtain ⟨d, hd, hid, rfl | ⟨-, rfl⟩⟩ := Table.mem_of_mem_update hc
    · exact ⟨c, hd, rfl, haddress⟩
    · exact ⟨d, hd, hid, hemail d address haddress⟩
  intro c hc c' hc' address h₁ h₂
  obtain ⟨d, hd, hid, hdemail⟩ := hback c hc address h₁
  obtain ⟨d', hd', hid', hdemail'⟩ := hback c' hc' address h₂
  refine Table.eq_of_key _ hc hc' ?_
  rw [← hid, ← hid', h d hd d' hd' address hdemail hdemail']

theorem ClientsStep.oneEach (h : ClientsStep s s' r) (hs : OneEach s.clients.rows) :
    OneEach s'.clients.rows := by
  cases h with
  | same _ hsame => rwa [hsame]
  | added _ person hfile hrows _ =>
      have hnew : ∀ c ∈ s.clients.rows, ∀ address, c.email = some address →
          person.email ≠ some address := by
        intro c hc address hemail hperson
        exact onFile_eq_none hfile hc address hperson hemail
      have hemail : Record.email ⟨s.nextId, .live person⟩ = person.email := rfl
      rw [hrows]
      intro c hc c' hc' address h₁ h₂
      rcases List.mem_append.mp hc with hc | hc <;> rcases List.mem_append.mp hc' with hc' | hc'
      · exact hs c hc c' hc' address h₁ h₂
      · rw [List.mem_singleton.mp hc', hemail] at h₂
        exact absurd h₂ (hnew c hc address h₁)
      · rw [List.mem_singleton.mp hc, hemail] at h₁
        exact absurd h₁ (hnew c' hc' address h₂)
      · rw [List.mem_singleton.mp hc, List.mem_singleton.mp hc']
  | refreshed new phone d _ _ _ hrows =>
      rw [hrows]
      refine oneEach_update hs fun c address h => ?_
      rwa [email_mapPerson (f := (new.typed phone).refreshed) fun _ => rfl] at h
  | noted owner id change hrows =>
      rw [hrows]
      refine oneEach_update hs fun c address h => ?_
      rwa [email_mapPerson (f := change.applied owner) fun _ => rfl] at h
  | erased now e hrows =>
      rw [hrows]
      exact oneEach_update hs fun c address h => (email_erase h).elim

theorem ClientsStep.linked (h : ClientsStep s s' r) {rs : List Request}
    (hs : ∀ c ∈ s.clients.rows, ∀ p, c.content = .live p → ∀ u ∈ p.userId,
      BookedAs rs u p.email) :
    ∀ c ∈ s'.clients.rows, ∀ p, c.content = .live p → ∀ u ∈ p.userId,
      BookedAs (rs ++ [r]) u p.email := by
  have hold : ∀ c ∈ s.clients.rows, ∀ p, c.content = .live p → ∀ u ∈ p.userId,
      BookedAs (rs ++ [r]) u p.email := by
    intro c hc p hp u hu
    obtain ⟨new, hnew, hrest⟩ := hs c hc p hp u hu
    exact ⟨new, List.mem_append_left _ hnew, hrest⟩
  have hlast : r ∈ rs ++ [r] := List.mem_append_right _ (List.mem_singleton_self r)
  cases h with
  | same _ hsame => rwa [hsame]
  | added _ person _ hrows hlinked =>
      intro c hc p hp u hu
      rw [hrows] at hc
      rcases List.mem_append.mp hc with hc | hc
      · exact hold c hc p hp u hu
      · rw [List.mem_singleton.mp hc] at hp
        cases hp
        obtain ⟨new, rfl, hheld, hemail, hproof⟩ := hlinked u hu
        exact ⟨new, hlast, hheld, hemail, hproof⟩
  | refreshed new phone d hproof hheld hfile hrows =>
      intro c hc p hp u hu
      rw [hrows] at hc
      obtain ⟨a, ha, hid, rfl | ⟨hsel, rfl⟩⟩ := Table.mem_of_mem_update hc
      · exact hold c ha p hp u hu
      · obtain ⟨hd, address, heq, hemail⟩ := onFile_eq_some hfile
        cases heq
        have had := s.clients.eq_of_key ha hd hsel
        subst had
        obtain ⟨q, hq, hqemail⟩ := live_of_email hemail
        rw [Record.mapPerson_live hq] at hp
        cases hp
        -- linked before, or by this booking
        cases huser : q.userId with
        | some v =>
            rw [Option.mem_def, refreshed_userId (Option.mem_def.mpr huser)] at hu
            cases hu
            exact hold a ha q hq u huser
        | none =>
            refine ⟨new, hlast, hheld, hqemail, ?_⟩
            simpa [Person.refreshed, huser, PageBooking.typed] using hu
  | noted owner id change hrows =>
      intro c hc p hp u hu
      rw [hrows] at hc
      obtain ⟨a, ha, hid, rfl | ⟨hsel, rfl⟩⟩ := Table.mem_of_mem_update hc
      · exact hold c ha p hp u hu
      · cases hcontent : a.content with
        | live q =>
            rw [Record.mapPerson_live hcontent] at hp
            cases hp
            exact hold a ha q hcontent u hu
        | erased at_ =>
            unfold Record.mapPerson at hp
            rw [hcontent] at hp
            simp only [hcontent, reduceCtorEq] at hp
  | erased now e hrows =>
      intro c hc p hp u hu
      rw [hrows] at hc
      obtain ⟨a, ha, hid, rfl | ⟨hsel, rfl⟩⟩ := Table.mem_of_mem_update hc
      · exact hold c ha p hp u hu
      · unfold Record.erase at hp
        cases hcontent : a.content with
        | live q => simp only [hcontent, reduceCtorEq] at hp
        | erased at_ => simp only [hcontent, reduceCtorEq] at hp

theorem sound_run (number : Text → Option Text) (rs : List Request) :
    (Register.empty.run number rs).Sound rs := by
  induction rs using List.reverseRecOn with
  | nil =>
      refine ⟨fun c hc => ?_, fun c hc => ?_⟩ <;>
        simp [Register.run, Register.empty, Table.empty] at hc
  | append_singleton rs r ih =>
      rw [run_concat]
      have hstep := after_clientsStep number (Register.empty.run number rs) r
      exact ⟨hstep.oneEach ih.oneEach, hstep.linked ih.linked⟩

/-- **A record stays its person's.** However requests come, an address has one record, and a
record is linked to an account only where that account, its session held, booked under the
record's own verified address. Of any record on the way: erased, it never changes again; live,
it keeps its address and the account it is linked to until it is erased; and it is the same
row until its own account books, the console notes it, or it is erased. -/
theorem records_kept (number : Text → Option Text) (before after : List Request) :
    (Register.empty.run number (before ++ after)).Sound (before ++ after) ∧
    ∀ c ∈ (Register.empty.run number before).clients.rows,
      ∃ c' ∈ (Register.empty.run number (before ++ after)).clients.rows, c.Becomes c' ∧
        ((∀ r ∈ after, ¬ r.touches c) → c' = c) := by
  refine ⟨sound_run number _, fun c hc => ?_⟩
  rw [run_append]
  exact run_becomes after hc

end Ziftbook.Clients
