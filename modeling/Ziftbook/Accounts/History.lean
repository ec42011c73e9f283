import Ziftbook.Accounts.Sessions
import Ziftbook.Clients.Records
import Ziftbook.Foundation.Base64
import Ziftbook.Foundation.Keyset
import Ziftbook.Ledger.Reading

/-!
# A person's own bookings

`history` of `app/platform_account.py` and the `own_bookings` it reads: what a person placed
while signed in, at every business, newest first, a page at a time. A page's cursor reads back
as the place it was cut at. Pages read one after another, while bookings come, go and change,
show no booking of one start twice and leave none out that was there throughout; a session
that ends between two of them leaves the next page refused or empty.
-/

namespace Ziftbook

open Foundation

/-! ## § The place a page was cut at -/

/-- 32 octets. -/
abbrev SortKey := {octets : List (Fin 256) // octets.length = 32}

/-- What pages are sorted by: `(starts_at, sort_key)`. -/
abbrev Position := Stamp ×ₗ SortKey

/-- `bytes.hex`. -/
def hexText (octets : List (Fin 256)) : List Char := octets.flatMap fun o => numeral 16 2 o.val

/-- What `bytes.fromhex` passes over between octets. -/
def hexBlank (c : Char) : Bool := c = ' ' || ('\t' ≤ c && c ≤ '\r')

/-- `bytes.fromhex`. -/
def fromHex : List Char → Option (List (Fin 256))
  | [] => some []
  | [c] => if hexBlank c then some [] else none
  | c :: d :: cs =>
      if hexBlank c then fromHex (d :: cs)
      else if digitOf c < 16 ∧ digitOf d < 16 then
        (fromHex cs).map (Fin.ofNat 256 (digitOf c * 16 + digitOf d) :: ·)
      else none

/-- What the cursor's JSON is, before its encoding. -/
def cursorBody (before : Position) : List Char :=
  '{' :: (jsonMember ['s'] (jsonText (ofLex before).1.isoformat) ++ ',' :: ' ' ::
    (jsonMember ['k'] (jsonText (hexText (ofLex before).2.val)) ++ ['}']))

/-- `cursor_of`. -/
def cursorOf (before : Position) : List Char :=
  unpadded (encode64 ((cursorBody before).map Char.toNat))

/-- `parse_cursor`, where it is no 422. -/
def parseCursor (p : Python) (cursor : List Char) : Except Raised Position := do
  match decode64 (cursor ++ padding cursor) with
  | none => .error .caught
  | some raw =>
      let data ← p.jsonLoads (raw.map Char.ofNat)
      let moment ← p.isoParse (← data.text ['s'])
      match fromHex (← data.text ['k']), moment with
      | some key, .aware utc =>
          if h : key.length = 32 then return toLex (← utc, ⟨key, h⟩) else .error .caught
      | _, _ => .error .caught

/-! ## § Sessions and bookings -/

/-- The columns of a booking that `own_bookings` reads, with its payments' statuses. -/
structure OwnBooking where
  id : ℕ
  startsAt : Stamp
  endsAt : Stamp
  status : Status
  serviceName : Clients.Locale → List Char
  priceAmountMinor : ℕ
  priceCurrency : List Char
  workerDisplayName : Option (List Char)
  checkoutHash : Option ℕ
  bookedAs : Option ℕ
  payments : List PaymentStatus

/-- A tenant, with its bookings. -/
structure BusinessRow where
  name : List Char
  slug : List Char
  bookings : List OwnBooking

structure AccountSessionRow where
  userId : ℕ
  startedAt : ℤ
  expiresAt : ℤ
  lastSeenAt : ℤ
  /-- The business session a console sign-in started it with. -/
  startedBy : Option ℕ

/-- The tables as a transaction reads them, and its time. -/
structure Platform where
  now : ℤ
  businesses : List BusinessRow
  accountSessions : ℕ → Option AccountSessionRow
  sessions : ℕ → Option (SessionRow ℕ ℕ)
  admins : List ℕ
  keyed : ((businesses.flatMap BusinessRow.bookings).map OwnBooking.id).Nodup

/-- `USABLE`. -/
def Platform.usable (s : Platform) (row : AccountSessionRow) : Prop :=
  (s.now < row.expiresAt ∧ s.now - sessionIdle < row.lastSeenAt) ∧ row.userId ∉ s.admins ∧
    ∀ b ∈ row.startedBy, ∃ started ∈ s.sessions b, started.live s.now

instance Platform.decidableUsable (s : Platform) (row : AccountSessionRow) :
    Decidable (s.usable row) :=
  have : Decidable (∀ b ∈ row.startedBy, ∃ started ∈ s.sessions b, started.live s.now) :=
    decidable_of_iff (row.startedBy.all fun b => (s.sessions b).any fun r => r.live s.now)
      (by cases row.startedBy <;> simp [Option.any_eq_true])
  inferInstanceAs (Decidable (_ ∧ _ ∧ _))

/-- `resolve_account_session`: the holder, and whether the session started within a day. -/
def Platform.resolve (s : Platform) (idHash : ℕ) : Option (ℕ × Bool) :=
  ((s.accountSessions idHash).filter fun row => s.usable row).map fun row =>
    (row.userId, decide (s.now - oneDay < row.startedAt))

/-- Whose bookings `own_bookings` reads. -/
def Platform.holder (s : Platform) (idHash : ℕ) : Option ℕ :=
  ((s.resolve idHash).filter Prod.snd).map Prod.fst

/-- A booking the person placed, but for a checkout still open or never completed. -/
def OwnBooking.Placed (user : ℕ) (b : OwnBooking) : Prop :=
  b.bookedAs = some user ∧ b.status ≠ .awaitingPayment ∧
    ¬ (b.status = .expired ∧ b.checkoutHash.isSome ∧ ¬ ∃ p ∈ b.payments, p = .checked ∨ p = .paid)

instance OwnBooking.decidablePlaced (user : ℕ) (b : OwnBooking) : Decidable (b.Placed user) :=
  inferInstanceAs (Decidable (_ ∧ _ ∧ _))

/-- A row `own_bookings` returns. -/
structure HistoryRow where
  businessName : List Char
  businessSlug : List Char
  startsAt : Stamp
  endsAt : Stamp
  status : Status
  serviceName : Clients.Locale → List Char
  priceAmountMinor : ℕ
  priceCurrency : List Char
  workerDisplayName : Option (List Char)
  sortKey : SortKey

def HistoryRow.position (r : HistoryRow) : Position := toLex (r.startsAt, r.sortKey)

section Digest

-- `digest`: SHA-256 of a booking's id, as text
variable (digest : ℕ → SortKey)

def OwnBooking.row (business : BusinessRow) (b : OwnBooking) : HistoryRow :=
  ⟨business.name, business.slug, b.startsAt, b.endsAt, b.status, b.serviceName,
    b.priceAmountMinor, b.priceCurrency, b.workerDisplayName, digest b.id⟩

/-- One business's rows, before the cursor and the limit. -/
def BusinessRow.rowsOf (user : ℕ) (business : BusinessRow) : List HistoryRow :=
  (business.bookings.filter fun b => b.Placed user).map (OwnBooking.row digest business)

/-- `own_bookings`. -/
def Platform.ownBookings (s : Platform) (idHash : ℕ) (before : Option Position) (limit : ℕ) :
    List HistoryRow :=
  match s.holder idHash with
  | none => []
  | some user => s.businesses.flatMap fun business =>
      (newestFirst HistoryRow.position ((business.rowsOf digest user).filter fun r =>
        Below before r.position)).take limit

/-! ## § A page -/

inductive HistoryRefusal
  | unauthenticated | reauthenticationRequired | invalidRequest | internal
deriving DecidableEq

/-- `HistoryBooking`: never an id, nor what its place is made of. -/
structure HistoryBooking where
  businessName : List Char
  businessSlug : List Char
  startsAt : Stamp
  endsAt : Stamp
  status : Status
  serviceName : Clients.Locale → List Char
  priceAmountMinor : ℕ
  priceCurrency : List Char
  workerDisplayName : Option (List Char)

def HistoryRow.shown (r : HistoryRow) : HistoryBooking :=
  ⟨r.businessName, r.businessSlug, r.startsAt, r.endsAt, r.status, r.serviceName,
    r.priceAmountMinor, r.priceCurrency, r.workerDisplayName⟩

structure HistoryPage where
  bookings : List HistoryBooking
  next : Option (List Char)

/-- A request's two transactions: the session's, and the bookings'. -/
structure Visit where
  resolved : Platform
  read : Platform

/-- The longest cursor a request may carry. -/
def cursorLimit : ℕ := 200

/-- `parse_cursor(cursor) if cursor else (None, None)`. -/
def startOf (p : Python) (cursor : Option (List Char)) : Except HistoryRefusal (Option Position) :=
  match cursor with
  | none | some [] => .ok none
  | some cursor =>
      match parseCursor p cursor with
      | .ok before => .ok (some before)
      | .error .caught => .error .invalidRequest
      | .error .uncaught => .error .internal

/-- `history`, after its limits. -/
def Visit.history (p : Python) (v : Visit) (idHash : ℕ) (cursor : Option (List Char))
    (limit : ℕ) : Except HistoryRefusal HistoryPage :=
  match v.resolved.resolve idHash with
  | none => .error .unauthenticated
  | some (_, fresh) =>
      if limit < 1 ∨ 100 < limit ∨ cursor.any (cursorLimit < ·.length) then
        .error .invalidRequest
      else if fresh then do
        let before ← startOf p cursor
        let rows := newestFirst HistoryRow.position
          (v.read.ownBookings digest idHash before (limit + 1))
        let page := rows.take limit
        return ⟨page.map HistoryRow.shown,
          if limit < rows.length then page.getLast?.map fun r => cursorOf r.position else none⟩
      else .error .reauthenticationRequired

/-- One page after another, each asked for with the cursor of the last. -/
def turnPages (p : Python) (idHash limit : ℕ) :
    Option (List Char) → List Visit → List HistoryPage
  | _, [] => []
  | cursor, v :: vs =>
      match v.history digest p idHash cursor limit with
      | .error _ => []
      | .ok page => page :: match page.next with
        | some next => turnPages p idHash limit (some next) vs
        | none => []

end Digest

variable {p : Python} {before : Position} {octets : List (Fin 256)}

/-! ## § A cursor reads back -/

theorem plain_hexText : Plain (hexText octets) := by
  intro c hc
  obtain ⟨o, -, hc⟩ := List.mem_flatMap.mp hc
  exact plain_numeral (by decide) le_rfl c hc

theorem length_hexText : (hexText octets).length = 2 * octets.length := by
  induction octets with
  | nil => rfl
  | cons o octets ih =>
      rw [hexText, List.flatMap_cons, List.length_append, length_numeral, ← hexText, ih,
        List.length_cons]
      ring

theorem hexBlank_digitChar {n : ℕ} (h : n < 16) : hexBlank (Nat.digitChar n) = false := by
  revert h
  decide +revert

theorem fromHex_hexText : fromHex (hexText octets) = some octets := by
  induction octets with
  | nil => rfl
  | cons o octets ih =>
      have hhigh : o.val / 16 % 16 < 16 := Nat.mod_lt _ (by decide)
      have hlow : o.val % 16 < 16 := Nat.mod_lt _ (by decide)
      have hdigits : hexText (o :: octets) =
          Nat.digitChar (o.val / 16 % 16) :: Nat.digitChar (o.val % 16) :: hexText octets := rfl
      have hvalue : Fin.ofNat 256 (o.val / 16 % 16 * 16 + o.val % 16) = o := by
        apply Fin.ext
        show (o.val / 16 % 16 * 16 + o.val % 16) % 256 = o.val
        omega
      rw [hdigits, fromHex, hexBlank_digitChar hhigh, digitOf_digitChar hhigh,
        digitOf_digitChar hlow, if_neg (by decide), if_pos ⟨hhigh, hlow⟩, ih, hvalue]
      rfl

theorem plain_name (c : Char) (h : c ≠ '"' ∧ c ≠ '\\' ∧ ' ' ≤ c ∧ c ≤ '~') : Plain [c] :=
  .cons h fun _ hc => nomatch hc

/-- The cursor's JSON is printable ASCII. -/
theorem cursorBody_ascii : ∀ c ∈ cursorBody before, c.toNat < 128 := by
  have hplain : ∀ {cs : List Char}, Plain cs → ∀ c ∈ cs, c.toNat < 128 := fun h c hc =>
    Nat.lt_of_le_of_lt (h c hc).2.2.2 (by decide : '~'.toNat < 128)
  have htext := hplain (plain_isoformat (ofLex before).1)
  have hkey : ∀ c ∈ hexText (ofLex before).2.val, c.toNat < 128 := hplain plain_hexText
  have hname : ∀ {name value : List Char}, (∀ c ∈ name, c.toNat < 128) →
      (∀ c ∈ value, c.toNat < 128) → ∀ c ∈ jsonMember name (jsonText value), c.toNat < 128 := by
    intro name value hname hvalue
    simp only [jsonMember, jsonText, List.forall_mem_cons, List.forall_mem_append]
    exact ⟨⟨by decide, hname, by decide⟩, by decide, by decide, by decide, hvalue, by decide⟩
  simp only [cursorBody, List.forall_mem_cons, List.forall_mem_append]
  exact ⟨by decide, hname (by decide) htext, by decide, by decide, hname (by decide) hkey,
    by decide⟩

theorem cursorBody_octets : ∀ o ∈ (cursorBody before).map Char.toNat, o < 256 := by
  intro o ho
  obtain ⟨c, hc, rfl⟩ := List.mem_map.mp ho
  have := cursorBody_ascii c hc
  omega

theorem jsonLoads_cursorBody :
    p.jsonLoads (cursorBody before) = .ok [(['s'], .text (ofLex before).1.isoformat),
      (['k'], .text (hexText (ofLex before).2.val))] := by
  have hs : Plain ['s'] := plain_name 's' (by decide)
  have hk : Plain ['k'] := plain_name 'k' (by decide)
  set cs := (cursorBody before).tail with hcs
  have hbody : cursorBody before = '{' :: cs := rfl
  obtain ⟨fuel, hfuel⟩ : ∃ fuel, cs.length = fuel + 2 := by
    apply Nat.exists_eq_add_of_le'
    simp only [hcs, cursorBody, List.tail_cons, List.length_append, jsonMember, jsonText,
      List.length_cons]
    omega
  have hread : readMembers cs.length cs = some [(['s'], .text (ofLex before).1.isoformat),
      (['k'], .text (hexText (ofLex before).2.val))] := by
    rw [hfuel]
    show readMembers (fuel + 1 + 1) (jsonMember ['s'] (jsonText _) ++ _) = _
    rw [readMembers_text hs (plain_isoformat _), readMembers_last hk plain_hexText]
    rfl
  rw [hbody, Python.jsonLoads, hread]

/-- **A cursor reads back as its place.** -/
theorem parseCursor_cursorOf : parseCursor p (cursorOf before) = .ok before := by
  have hchars : ((cursorBody before).map Char.toNat).map Char.ofNat = cursorBody before := by
    rw [List.map_map]
    exact List.map_id'' (fun c => Char.ofNat_toNat c) _
  have hiso : p.isoParse (ofLex before).1.isoformat = .ok (.aware (.ok (ofLex before).1)) := by
    rw [Python.isoParse, readIso_isoformat]
  have hs : JsonObject.text [(['s'], .text (ofLex before).1.isoformat),
      (['k'], .text (hexText (ofLex before).2.val))] ['s'] =
        .ok (ofLex before).1.isoformat := rfl
  have hk : JsonObject.text [(['s'], .text (ofLex before).1.isoformat),
      (['k'], .text (hexText (ofLex before).2.val))] ['k'] =
        .ok (hexText (ofLex before).2.val) := rfl
  unfold parseCursor cursorOf
  rw [decode64_unpadded cursorBody_octets]
  simp only [hchars, jsonLoads_cursorBody, except_ok_bind, hs, hk, hiso, fromHex_hexText]
  exact dif_pos (ofLex before).2.property

theorem cursorOf_ne_nil : cursorOf before ≠ [] := by
  apply List.length_pos_iff.mp
  rw [cursorOf, length_unpadded cursorBody_octets, List.length_map]
  simp only [cursorBody, List.length_cons]
  omega

/-- **A cursor given out is short enough to be sent back.** -/
theorem length_cursorOf_le : (cursorOf before).length ≤ cursorLimit := by
  have hiso : (ofLex before).1.isoformat.length ≤ 32 := by
    unfold Stamp.isoformat
    simp only [List.length_append, List.length_cons, length_numeral]
    split <;> simp
  have hkey : (hexText (ofLex before).2.val).length = 64 := by
    rw [length_hexText, (ofLex before).2.property]
  have hbody : (cursorBody before).length ≤ 114 := by
    simp only [cursorBody, jsonMember, jsonText, List.length_cons, List.length_append,
      List.length_nil, hkey]
    omega
  rw [cursorOf, length_unpadded cursorBody_octets, List.length_map]
  unfold cursorLimit
  omega

/-! ## § Pages -/

variable {digest : ℕ → SortKey} {idHash limit : ℕ} {v : Visit} {vs : List Visit}

/-- The rows of the session's holder, business by business. -/
def Platform.parts (digest : ℕ → SortKey) (idHash : ℕ) (s : Platform) : List (List HistoryRow) :=
  match s.holder idHash with
  | none => []
  | some user => s.businesses.map (BusinessRow.rowsOf digest user)

theorem ownBookings_eq {s : Platform} {before : Option Position} :
    s.ownBookings digest idHash before limit = newestOfEach HistoryRow.position limit
      ((s.parts digest idHash).map fun part => part.filter fun r => Below before r.position) := by
  unfold Platform.ownBookings Platform.parts newestOfEach
  cases s.holder idHash with
  | none => rfl
  | some user => simp only [List.flatMap_map, List.map_map, Function.comp_def]

/-- What a visit may show. -/
def Visit.parts (digest : ℕ → SortKey) (idHash : ℕ) (v : Visit) : List (List HistoryRow) :=
  if (v.resolved.holder idHash).isSome then v.read.parts digest idHash else []

/-- A page's rows, and the place the next one starts below. -/
def Visit.page (digest : ℕ → SortKey) (idHash limit : ℕ) (v : Visit) (before : Option Position) :
    List HistoryRow × Option Position :=
  mergedPage HistoryRow.position before limit (v.parts digest idHash)

theorem isSome_holder {s : Platform} :
    (s.holder idHash).isSome ↔ ∃ user, s.resolve idHash = some (user, true) := by
  unfold Platform.holder
  cases s.resolve idHash with
  | none => simp
  | some row => cases row with | mk user fresh => cases fresh <;> simp [Option.filter]

theorem startOf_cursorOf {before : Option Position} :
    startOf p (before.map cursorOf) = .ok before := by
  cases before with
  | none => rfl
  | some before =>
      have hparse : parseCursor p (cursorOf before) = .ok before := parseCursor_cursorOf
      have hne : cursorOf before ≠ [] := cursorOf_ne_nil
      obtain ⟨c, cs, hcursor⟩ := List.exists_cons_of_ne_nil hne
      rw [hcursor] at hparse
      show startOf p (some (cursorOf before)) = _
      rw [hcursor]
      unfold startOf
      simp only [hparse]

/-- A page asked for with a page's cursor. -/
theorem history_eq_ok (hlimit : 1 ≤ limit ∧ limit ≤ 100) {before : Option Position}
    (h : (v.resolved.holder idHash).isSome) :
    v.history digest p idHash (before.map cursorOf) limit =
      .ok ⟨(v.page digest idHash limit before).1.map HistoryRow.shown,
        (v.page digest idHash limit before).2.map cursorOf⟩ := by
  have hshort : ¬ (before.map cursorOf).any (cursorLimit < ·.length) := by
    rw [Option.any_map, Option.any_eq_true]
    rintro ⟨q, -, hlong⟩
    exact absurd (of_decide_eq_true hlong) (not_lt.mpr length_cursorOf_le)
  obtain ⟨user, hresolve⟩ := isSome_holder.mp h
  have hbounds : ¬ (limit < 1 ∨ 100 < limit ∨
      (before.map cursorOf).any (cursorLimit < ·.length)) := by
    rintro (h | h | h)
    · omega
    · omega
    · exact hshort h
  unfold Visit.history
  rw [hresolve]
  simp only [if_neg hbounds, startOf_cursorOf, except_ok_bind]
  unfold Visit.page Visit.parts mergedPage
  rw [if_pos h, ownBookings_eq]
  simp only [apply_ite (Option.map cursorOf), Option.map_map, Option.map_none]
  rfl

theorem history_error (h : ¬ (v.resolved.holder idHash).isSome) {cursor : Option (List Char)} :
    ∃ e, v.history digest p idHash cursor limit = .error e := by
  unfold Visit.history
  cases hresolve : v.resolved.resolve idHash with
  | none => exact ⟨_, rfl⟩
  | some row =>
      obtain ⟨user, fresh⟩ := row
      cases fresh with
      | true => exact absurd (isSome_holder.mpr ⟨user, hresolve⟩) h
      | false =>
          dsimp only
          split_ifs with hbad hfresh
          · exact ⟨_, rfl⟩
          · exact hfresh.elim
          · exact ⟨_, rfl⟩

theorem page_eq_nil (h : ¬ (v.resolved.holder idHash).isSome) {before : Option Position} :
    v.page digest idHash limit before = ([], none) := by
  unfold Visit.page Visit.parts
  rw [if_neg h]
  simp [mergedPage, newestOfEach, newestFirst]

/-- Pages turned by their cursors are pages read one below the other. -/
theorem turnPages_eq (hlimit : 1 ≤ limit ∧ limit ≤ 100) : ∀ before : Option Position,
    (turnPages digest p idHash limit (before.map cursorOf) vs).flatMap HistoryPage.bookings =
      (walk (Visit.page digest idHash limit) before vs).flatten.map HistoryRow.shown ∧
    ((turnPages digest p idHash limit (before.map cursorOf) vs).getLast?.any
      (·.next.isNone) → Walked (Visit.page digest idHash limit) before vs) := by
  induction vs with
  | nil => intro before; exact ⟨rfl, fun h => absurd h (by simp [turnPages])⟩
  | cons v vs ih =>
      intro before
      by_cases hopen : (v.resolved.holder idHash).isSome
      · simp only [turnPages, history_eq_ok hlimit hopen, walk, Walked]
        cases hnext : (v.page digest idHash limit before).2 with
        | none => simp
        | some last =>
            obtain ⟨hrows, hended⟩ := ih (some last)
            simp only [Option.map_some] at hrows hended ⊢
            rw [List.flatMap_cons, hrows, List.flatten_cons, List.map_append]
            refine ⟨rfl, fun hlast => hended ?_⟩
            cases hrest : turnPages digest p idHash limit (some (cursorOf last)) vs with
            | nil => simp [hrest] at hlast
            | cons page pages => rwa [hrest, List.getLast?_cons_cons] at hlast
      · obtain ⟨e, herror⟩ : ∃ e, v.history digest p idHash (before.map cursorOf) limit =
            .error e := history_error hopen
        simp only [turnPages, herror, walk, Walked, page_eq_nil hopen]
        exact ⟨rfl, fun _ => trivial⟩

/-! ## § What the pages show -/

/-- Different bookings there have different keys. -/
def Platform.Apart (digest : ℕ → SortKey) (s : Platform) : Prop :=
  ∀ b ∈ s.businesses.flatMap BusinessRow.bookings,
    ∀ b' ∈ s.businesses.flatMap BusinessRow.bookings, digest b.id = digest b'.id → b.id = b'.id

theorem parts_nodup {s : Platform} (h : s.Apart digest) :
    ((s.parts digest idHash).flatten.map HistoryRow.position).Nodup := by
  unfold Platform.parts
  cases s.holder idHash with
  | none => exact List.nodup_nil
  | some user =>
      dsimp only
      have hsub : ∀ businesses : List BusinessRow,
          ((businesses.map (BusinessRow.rowsOf digest user)).flatten.map
            HistoryRow.sortKey).Sublist
              (((businesses.flatMap BusinessRow.bookings).map OwnBooking.id).map digest) := by
        intro businesses
        induction businesses with
        | nil => exact .slnil
        | cons business businesses ih =>
            rw [List.map_cons, List.flatten_cons, List.map_append, List.flatMap_cons,
              List.map_append, List.map_append]
            refine List.Sublist.append ?_ ih
            rw [BusinessRow.rowsOf, List.map_map, List.map_map]
            exact List.filter_sublist.map (digest ∘ OwnBooking.id)
      have hkeys : (((s.businesses.flatMap BusinessRow.bookings).map OwnBooking.id).map
          digest).Nodup := by
        refine s.keyed.map_on fun i hi j hj heq => ?_
        obtain ⟨b, hb, rfl⟩ := List.mem_map.mp hi
        obtain ⟨b', hb', rfl⟩ := List.mem_map.mp hj
        exact h b hb b' hb' heq
      refine List.Nodup.of_map (fun q : Position => (ofLex q).2) ?_
      rw [List.map_map]
      exact hkeys.sublist (hsub s.businesses)

theorem isPage_page_visit (hlimit : 1 ≤ limit) (h : v.read.Apart digest)
    (before : Option Position) :
    IsPage HistoryRow.position before (v.parts digest idHash).flatten
      (v.page digest idHash limit before).1 (v.page digest idHash limit before).2 := by
  refine isPage_mergedPage hlimit ?_
  unfold Visit.parts
  split_ifs
  · exact parts_nodup h
  · exact List.nodup_nil

/-- The visit finds the session open, and this booking its holder's to show. -/
def Visit.Finds (idHash : ℕ) (v : Visit) (business : BusinessRow) (b : OwnBooking) : Prop :=
  (v.resolved.holder idHash).isSome ∧ ∃ user, v.read.holder idHash = some user ∧
    business ∈ v.read.businesses ∧ b ∈ business.bookings ∧ b.Placed user

theorem mem_parts {r : HistoryRow} : r ∈ (v.parts digest idHash).flatten ↔
    ∃ business b, v.Finds idHash business b ∧ b.row digest business = r := by
  unfold Visit.parts Visit.Finds Platform.parts
  by_cases hopen : (v.resolved.holder idHash).isSome
  · rw [if_pos hopen]
    cases v.read.holder idHash with
    | none => simp
    | some user =>
        simp only [List.mem_flatten, List.mem_map, hopen, true_and, Option.some.injEq,
          exists_eq_left']
        constructor
        · rintro ⟨_, ⟨business, hbusiness, rfl⟩, hr⟩
          obtain ⟨b, hb, rfl⟩ := List.mem_map.mp hr
          obtain ⟨hb, hplaced⟩ := List.mem_filter.mp hb
          exact ⟨business, b, ⟨hbusiness, hb, of_decide_eq_true hplaced⟩, rfl⟩
        · rintro ⟨business, b, ⟨hbusiness, hb, hplaced⟩, rfl⟩
          exact ⟨_, ⟨business, hbusiness, rfl⟩, List.mem_map_of_mem
            (List.mem_filter.mpr ⟨hb, decide_eq_true hplaced⟩)⟩
  · rw [if_neg hopen]
    simp [hopen]

/-- **A person's own bookings.** Pages turned by the cursors given out, each of the tables as
they are by then, show rows that are strictly older from one to the next, so no booking of one
start twice; each is a booking the session's holder placed, as the tables have it at its page,
and the session was open and started within a day. When they came to the last page, whatever
booking was there to show at every one of them, its start the same, is shown. -/
theorem history_listed (p : Python) (idHash : ℕ) (hlimit : 1 ≤ limit ∧ limit ≤ 100)
    (hapart : ∀ v ∈ vs, v.read.Apart digest) :
    let pages := turnPages digest p idHash limit none vs
    ∃ rows : List HistoryRow,
      pages.flatMap HistoryPage.bookings = rows.map HistoryRow.shown ∧
      rows.Pairwise (fun r r' => r'.position < r.position) ∧
      (∀ r ∈ rows, ∃ v ∈ vs, ∃ business b, v.Finds idHash business b ∧
        r = b.row digest business) ∧
      (pages.getLast?.any (·.next.isNone) → ∀ id start,
        (∀ v ∈ vs, ∃ business b, v.Finds idHash business b ∧ b.id = id ∧ b.startsAt = start) →
          ∃ r ∈ rows, r.startsAt = start ∧ r.sortKey = digest id) := by
  intro pages
  obtain ⟨hrows, hended⟩ : pages.flatMap HistoryPage.bookings =
      (walk (Visit.page digest idHash limit) none vs).flatten.map HistoryRow.shown ∧
        (pages.getLast?.any (·.next.isNone) → Walked (Visit.page digest idHash limit) none vs) :=
    turnPages_eq hlimit none
  have hread : ∀ v ∈ vs, ∀ before, IsPage HistoryRow.position before
      (v.parts digest idHash).flatten (v.page digest idHash limit before).1
      (v.page digest idHash limit before).2 :=
    fun v hv before => isPage_page_visit hlimit.1 (hapart v hv) before
  obtain ⟨hdesc, hmem⟩ := walk_descending hread none
  refine ⟨_, hrows, hdesc, fun r hr => ?_, fun hlast id start hthere => ?_⟩
  · obtain ⟨-, v, hv, hin⟩ := hmem r hr
    obtain ⟨business, b, hfinds, rfl⟩ := mem_parts.mp hin
    exact ⟨v, hv, business, b, hfinds, rfl⟩
  · have hsame : ∀ v ∈ vs, ∃ r ∈ (v.parts digest idHash).flatten,
        r.position = toLex (start, digest id) := by
      intro v hv
      obtain ⟨business, b, hfinds, rfl, rfl⟩ := hthere v hv
      exact ⟨b.row digest business, mem_parts.mpr ⟨business, b, hfinds, rfl⟩, rfl⟩
    have hbelow : Below (none : Option Position) (toLex (start, digest id)) :=
      fun _ h => nomatch h
    obtain ⟨r, hr, hposition⟩ := walk_complete hread hsame hbelow (hended hlast)
    exact ⟨r, hr, congrArg (fun q : Position => (ofLex q).1) hposition,
      congrArg (fun q : Position => (ofLex q).2) hposition⟩

/-- A booking placed by the first person, on a day in March. -/
def marchBooking (id hour : ℕ) (h : hour < 24) (status : Status) : OwnBooking :=
  ⟨id, marchFirst hour h, marchFirst hour h, status, fun _ => [], 0, "EUR".toList, none, some 9,
    some 1, []⟩

/-- Two businesses; one booking was never completed. -/
def twoShops : Platform where
  now := 0
  businesses := [
    ⟨[], ['a'], [marchBooking 1 2 (by decide) .confirmed, marchBooking 2 5 (by decide) .expired]⟩,
    ⟨[], ['b'], [marchBooking 3 4 (by decide) .completed]⟩]
  accountSessions := fun _ => some ⟨1, 0, oneDay, 0, none⟩
  sessions := fun _ => none
  admins := []
  keyed := by decide

/-- A number's last octet. -/
def lastOctet (id : ℕ) : SortKey := ⟨List.replicate 31 0 ++ [Fin.ofNat 256 id], rfl⟩

theorem history_listed_twoShops :
    let pages := turnPages lastOctet noOtherText 0 1 none [⟨twoShops, twoShops⟩,
      ⟨twoShops, twoShops⟩]
    pages.map (fun page => page.bookings.map fun b => b.startsAt.hour) = [[4], [2]] ∧
      ∃ rows : List HistoryRow, pages.flatMap HistoryPage.bookings = rows.map HistoryRow.shown ∧
        ∃ r ∈ rows, r.sortKey = lastOctet 1 := by
  have hapart : ∀ v ∈ [(⟨twoShops, twoShops⟩ : Visit), ⟨twoShops, twoShops⟩],
      v.read.Apart lastOctet := by
    have : twoShops.Apart lastOctet := by
      unfold Platform.Apart
      decide +kernel
    simp [this]
  obtain ⟨rows, hrows, -, -, hcomplete⟩ :=
    history_listed noOtherText 0 (by decide : 1 ≤ 1 ∧ 1 ≤ 100) hapart
  refine ⟨by decide +kernel, rows, hrows, ?_⟩
  have hthere : ∀ v ∈ [(⟨twoShops, twoShops⟩ : Visit), ⟨twoShops, twoShops⟩],
      ∃ business b, v.Finds 0 business b ∧ b.id = 1 ∧
        b.startsAt = (marchBooking 1 2 (by decide) .confirmed).startsAt := by
    intro v hv
    have : v = ⟨twoShops, twoShops⟩ := by simpa using hv
    subst this
    exact ⟨_, _, ⟨by decide +kernel, 1, by decide +kernel, List.mem_cons_self ..,
      List.mem_cons_self .., by decide +kernel⟩, rfl, rfl⟩
  obtain ⟨r, hr, -, hkey⟩ := hcomplete (by decide +kernel) 1 _ hthere
  exact ⟨r, hr, hkey⟩

end Ziftbook
