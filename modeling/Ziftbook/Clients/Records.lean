import Ziftbook.Csp.Urls
import Ziftbook.Jobs.Queue
import Ziftbook.Store.Tables

/-!
# A business's clients

`app/clients.py` on one business's tables: the record of a client, refreshed by each booking
it is proven to have made, and the log of the consents given to the business. Bookings,
events and links are the columns that say something of the client or that the statements
here read; a typed text is the list of its code points.
-/

namespace Ziftbook.Clients

open Foundation Csp

/-! ## § Consents -/

inductive Purpose
  | marketingEmail | sms | whatsapp
deriving DecidableEq, Repr

/-- Every purpose, as `sorted` puts them. -/
def Purpose.all : List Purpose := [.marketingEmail, .sms, .whatsapp]

theorem Purpose.mem_all (p : Purpose) : p ∈ all := by cases p <;> decide

/-- `Source`; nothing here imports. -/
inductive ConsentSource
  | bookingPage | merchant | imported
deriving DecidableEq, Repr

inductive Locale
  | en | nl | pt
deriving DecidableEq, Repr

def Locale.code : Locale → String
  | en => "en"
  | nl => "nl"
  | pt => "pt"

/-- `dict[Purpose, bool]`. -/
abbrev Choices := Purpose → Option Bool

/-- The purposes given the answer. -/
def Choices.answered (c : Choices) (answer : Bool) : List Purpose :=
  Purpose.all.filter fun p => c p = some answer

/-- The choices with the answer alone. -/
def Choices.only (c : Choices) (answer : Bool) : Choices := fun p => (c p).filter (· = answer)

/-- The purposes named, as `sorted` puts them. -/
def Choices.named (c : Choices) : List Purpose := Purpose.all.filter fun p => (c p).isSome

/-- Why a request is refused. -/
inductive Refusal
  | unknownPolicyVersion | purposeNotInPolicyVersion | phoneInvalid | emailTaken | notFound
  | ownerOnly | unknownClient | unauthenticated | linkExpired | linkChanged | nothingToConfirm
  | liveBookings | internal
deriving DecidableEq, Repr

def legacyVersion : String := "2026-09-01"

/-- `POLICY_VERSION`. -/
def offeredVersion : String := "2026-10-20"

def policyVersionFor (locale : Locale) : String := offeredVersion ++ "/" ++ locale.code

/-- `CONSENT_TEXTS`. -/
def consentTexts (version : String) : Option (Purpose → Option String) :=
  if version = legacyVersion then
    some fun
      | .marketingEmail =>
          some "Email me offers and news from this business. I can unsubscribe at any time."
      | .sms => some "Text me offers and news from this business. I can opt out at any time."
      | .whatsapp => some ("Message me on WhatsApp with offers and news from this business. " ++
          "I can opt out at any time.")
  else if version = policyVersionFor .en then
    some fun
      | .marketingEmail =>
          some "Email me offers and news from this business. I can unsubscribe at any time."
      | _ => none
  else if version = policyVersionFor .nl then
    some fun
      | .marketingEmail => some ("Stuur me aanbiedingen en nieuws van dit bedrijf per e-mail. " ++
          "Ik kan me op elk moment afmelden.")
      | _ => none
  else if version = policyVersionFor .pt then
    some fun
      | .marketingEmail => some ("Quero receber ofertas e novidades deste negócio por e-mail. " ++
          "Posso cancelar a inscrição quando quiser.")
      | _ => none
  else none

/-- `texts_for`. -/
def textsFor (version : String) (purposes : List Purpose) :
    Except Refusal (Purpose → Option String) :=
  match consentTexts version with
  | none => .error .unknownPolicyVersion
  | some texts =>
      if ∀ p ∈ purposes, (texts p).isSome then .ok texts else .error .purposeNotInPolicyVersion

theorem textsFor_eq_ok {version : String} {purposes : List Purpose}
    {texts : Purpose → Option String} :
    textsFor version purposes = .ok texts ↔
      consentTexts version = some texts ∧ ∀ p ∈ purposes, (texts p).isSome := by
  unfold textsFor
  cases consentTexts version with
  | none => simp
  | some found =>
      simp only [Option.some.injEq]
      split_ifs with h
      · constructor
        · intro heq
          cases heq
          exact ⟨rfl, h⟩
        · rintro ⟨rfl, -⟩
          rfl
      · constructor
        · intro heq
          cases heq
        · rintro ⟨rfl, h'⟩
          exact absurd h' h

/-! ## § Rows -/

/-- `ClientName`'s length; `named` is the caller's. -/
abbrev ClientName := { name : Text // 1 ≤ name.length ∧ name.length ≤ 100 }

/-- What a client's record holds about the person. -/
structure Person where
  userId : Option ℕ
  name : ClientName
  email : Option Text
  phone : Option Text
  locale : Option Locale
  clientNote : Option Text
  internalNote : Option Text
deriving DecidableEq

/-- `ck_clients_name_or_erased`: a row is a person's, or it is erased and holds nothing. -/
inductive Content
  | live (person : Person)
  | erased (erasedAt : ℤ)
deriving DecidableEq

def Content.person? : Content → Option Person
  | live person => some person
  | erased _ => none

structure Record where
  id : ℕ
  content : Content
deriving DecidableEq

/-- `erased_at IS NULL`'s row. -/
def Record.person? (c : Record) : Option Person := c.content.person?

def Record.email (c : Record) : Option Text := c.person?.bind Person.email

/-- Rewrite what a live record holds; `clients_erased_final` leaves an erased one be. -/
def Record.mapPerson (f : Person → Person) (c : Record) : Record :=
  match c.content with
  | .live person => { c with content := .live (f person) }
  | .erased _ => c

@[simp] theorem Record.mapPerson_id (f : Person → Person) (c : Record) :
    (c.mapPerson f).id = c.id := by
  unfold mapPerson
  cases c.content <;> rfl

theorem Record.mapPerson_live {f : Person → Person} {c : Record} {p : Person}
    (h : c.content = .live p) : c.mapPerson f = { c with content := .live (f p) } := by
  unfold mapPerson
  rw [h]

theorem Record.person?_eq_some {c : Record} {p : Person} :
    c.person? = some p ↔ c.content = .live p := by
  unfold Record.person? Content.person?
  cases c.content <;> simp

/-- Where a request comes from, as `auth.origin` reads it. -/
structure Origin where
  ip : Option Address
  userAgent : Option Text
deriving DecidableEq

structure Consent where
  clientId : ℕ
  purpose : Purpose
  granted : Bool
  textShown : String
  policyVersion : String
  source : ConsentSource
  origin : Origin
  createdAt : ℤ
deriving DecidableEq

/-- A booking's columns that name the client, or that the statements here read. -/
structure Appointment where
  id : ℕ
  clientId : ℕ
  status : Status
  startsAt : ℤ
  expiresAt : Option ℤ
  clientName : Option Text
  clientPhone : Option Text
  clientMessage : Option Text
  declineMessage : Option Text
  checkoutHash : Option ℕ
  bookedAs : Option ℕ
deriving DecidableEq

/-- A row of `booking_events`. -/
structure Happening where
  bookingId : ℕ
  name : EventName
  origin : Origin
  policyVersion : Option String
  consentPurposes : Option Choices
  actorUserId : Option ℕ
  reason : Option ErasureReason
  createdAt : ℤ

structure LinkRow where
  tokenHash : ℕ
  bookingId : ℕ
deriving DecidableEq

/-- A row of `client_erasure_holds`. -/
structure Hold where
  clientId : ℕ
  email : Text
  locale : Option Locale
  purgeAfter : ℤ
deriving DecidableEq

/-- An `email.booking` job. -/
structure BookingMail where
  bookingId : ℕ
  template : String
  attempts : ℕ
  nextAttemptAt : ℤ
  completedAt : Option ℤ
deriving DecidableEq

structure Register where
  clients : Table Record ℕ Record.id
  consents : List Consent
  bookings : Table Appointment ℕ Appointment.id
  events : List Happening
  links : List LinkRow
  holds : Table Hold ℕ Hold.clientId
  payments : List Payment
  mails : List BookingMail

def Register.empty : Register :=
  ⟨Table.empty, [], Table.empty, [], [], Table.empty, [], []⟩

/-- The client with the id, unless erased. -/
def Register.live (s : Register) (id : ℕ) : Option Person :=
  (s.clients.find id).bind Record.person?

/-! ## § Statements on clients -/

/-- `uuidv7()`: after every id before it. -/
def Register.nextId (s : Register) : ℕ := (s.clients.rows.map Record.id).foldr max 0 + 1

theorem lt_foldr_max {ids : List ℕ} : ∀ id ∈ ids, id < ids.foldr max 0 + 1 := by
  induction ids with
  | nil => simp
  | cons first ids ih =>
      intro id hid
      rw [List.foldr_cons]
      rcases List.mem_cons.mp hid with rfl | hid
      · omega
      · have := ih id hid
        omega

theorem Register.lt_nextId {s : Register} {c : Record} (h : c ∈ s.clients.rows) :
    c.id < s.nextId :=
  lt_foldr_max c.id (List.mem_map_of_mem h)

/-- A new row, and its id. -/
def Register.addClient (s : Register) (person : Person) : Register × ℕ :=
  ({ s with
    clients := s.clients.add ⟨s.nextId, .live person⟩ fun _ hc => (Register.lt_nextId hc).ne },
    s.nextId)

/-- The row on file under the address; null is no address. -/
def Register.onFile (s : Register) (email : Option Text) : Option Record :=
  email.bind fun address => s.clients.rows.find? fun c => c.email = some address

/-- `REFRESH`'s SET list. -/
def Person.refreshed (typed p : Person) : Person :=
  { p with
    name := typed.name
    phone := typed.phone <|> p.phone
    locale := typed.locale <|> p.locale
    userId := p.userId <|> typed.userId }

def Register.update (s : Register) (id : ℕ) (f : Person → Person) : Register :=
  { s with
    clients := s.clients.update (fun c => c.id = id) (Record.mapPerson f)
      (Record.mapPerson_id f) }

/-- `find_or_create`: `REFRESH` when proven, else `KEEP`. -/
def Register.findOrCreate (s : Register) (typed : Person) (proven : Bool) : Register × ℕ :=
  match s.onFile typed.email with
  | none => s.addClient typed
  | some c => (if proven then s.update c.id typed.refreshed else s, c.id)

/-- `insert`: never the upsert. -/
def Register.insert (s : Register) (new : Person) : Except Refusal (Register × ℕ) :=
  match s.onFile new.email with
  | some _ => .error .emailTaken
  | none => .ok (s.addClient new)

/-- `NoteChange`: the notes sent, each to set or to clear. -/
structure NoteChange where
  clientNote : Option (Option Text)
  internalNote : Option (Option Text)
deriving DecidableEq

/-- The row as `fields(owner)` reads it. -/
def Person.seenBy (owner : Bool) (p : Person) : Person :=
  if owner then p else { p with internalNote := none }

/-- The statement's SET list on what was sent; the private note is the owner's alone. -/
def NoteChange.applied (change : NoteChange) (owner : Bool) (p : Person) : Person :=
  let before := p.seenBy owner
  { p with
    clientNote := change.clientNote.getD before.clientNote
    internalNote := if owner then change.internalNote.getD before.internalNote
      else p.internalNote }

/-- `update_client`. -/
def Register.updateClient (s : Register) (owner : Bool) (id : ℕ) (change : NoteChange) :
    Except Refusal Register :=
  if change.internalNote.isSome ∧ owner = false then .error .ownerOnly
  else
    match s.live id with
    | none => .error .notFound
    | some row =>
        let before := row.seenBy owner
        if (∃ note ∈ change.clientNote, note ≠ before.clientNote) ∨
            (∃ note ∈ change.internalNote, note ≠ before.internalNote) then
          .ok (s.update id (change.applied owner))
        else .ok s

/-! ## § Statements on consents -/

/-- `RECORD_CONSENTS`, on the rows' own clock readings; a client the register does not have, or
an erased one, is refused by the foreign key and the trigger. -/
def Register.recordConsents (s : Register) (clientId : ℕ) (policyVersion : String)
    (purposes : Choices) (source : ConsentSource) (origin : Origin) (clock : Purpose → ℤ) :
    Except Refusal Register := do
  let texts ← textsFor policyVersion purposes.named
  match s.live clientId with
  | none => .error .internal
  | some _ =>
      .ok { s with consents := s.consents ++ purposes.named.map fun p =>
        ⟨clientId, p, (purposes p).getD false, (texts p).getD "", policyVersion, source, origin,
          clock p⟩ }

/-- `CURRENT_CONSENTS`' row of the client and the purpose: the newest. -/
def Register.currentConsent (s : Register) (clientId : ℕ) (p : Purpose) : Option Consent :=
  (s.consents.filter fun r => r.clientId = clientId ∧ r.purpose = p).getLast?

/-- `mailable`. -/
def mailable (granted : Bool) (source : ConsentSource) : Bool := granted && source ≠ .imported

/-- `current_consents`' word on whether the client may be mailed for the purpose. -/
def Register.mailable (s : Register) (clientId : ℕ) (p : Purpose) : Bool :=
  (s.currentConsent clientId p).any fun r => Clients.mailable r.granted r.source

/-- `CONSENT_EVENT`. -/
def Register.consentEvent (s : Register) (bookingId : ℕ) : Option Happening :=
  s.events.find? fun e => e.bookingId = bookingId ∧ e.name = .created

/-- `WITHDRAWN_SINCE`. -/
def Register.withdrawnSince (s : Register) (clientId : ℕ) (since : ℤ) : List Purpose :=
  (s.consents.filter fun r => r.clientId = clientId ∧ r.granted = false ∧
    since < r.createdAt).map Consent.purpose

/-- `pending_consents`. -/
def Register.pendingConsents (s : Register) (bookingId clientId : ℕ) : List Purpose :=
  if ∃ e ∈ s.events, e.bookingId = bookingId ∧ e.name = .consentConfirmed then []
  else
    match s.consentEvent bookingId with
    | none => []
    | some event =>
        ((event.consentPurposes.getD fun _ => none).answered true).filter fun p =>
          p ∉ s.withdrawnSince clientId event.createdAt

end Ziftbook.Clients
