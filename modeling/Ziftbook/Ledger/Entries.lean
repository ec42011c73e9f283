import Ziftbook.Foundation.Numerals

/-!
# Entries of the erasure ledger

`app/ledger.py`'s `Entry`: its key, its body and `parse`. Texts are lists of
characters, a body its bytes. What `json`, `fromisoformat` and `UUID` make of texts in
the forms they write is defined here; what they make of any other text is a parameter.
-/

namespace Ziftbook

open Foundation

/-! ## § Times and ids -/

/-- Days of a month of the Gregorian calendar. -/
def daysInMonth (year month : ℕ) : ℕ :=
  if month = 2 then if year % 4 = 0 ∧ (year % 100 ≠ 0 ∨ year % 400 = 0) then 29 else 28
  else if month ∈ [4, 6, 9, 11] then 30
  else 31

/-- A `datetime` in UTC. -/
structure Stamp where
  year : ℕ
  month : ℕ
  day : ℕ
  hour : ℕ
  minute : ℕ
  second : ℕ
  microsecond : ℕ
  year_range : 1 ≤ year ∧ year ≤ 9999
  month_range : 1 ≤ month ∧ month ≤ 12
  day_range : 1 ≤ day ∧ day ≤ daysInMonth year month
  hour_range : hour < 24
  minute_range : minute < 60
  second_range : second < 60
  microsecond_range : microsecond < 1000000
deriving DecidableEq

namespace Stamp

/-- Two of them compare by their fields, the first first. -/
def fields (s : Stamp) : ℕ ×ₗ ℕ ×ₗ ℕ ×ₗ ℕ ×ₗ ℕ ×ₗ ℕ ×ₗ ℕ :=
  toLex (s.year, toLex (s.month, toLex (s.day, toLex (s.hour, toLex (s.minute,
    toLex (s.second, s.microsecond))))))

theorem fields_injective : Function.Injective fields := by
  rintro ⟨y, mo, d, h, mi, s, us, _, _, _, _, _, _, _⟩ ⟨y', mo', d', h', mi', s', us', _, _, _, _,
    _, _, _⟩ heq
  simp only [fields, EmbeddingLike.apply_eq_iff_eq, Prod.mk.injEq] at heq
  obtain ⟨rfl, rfl, rfl, rfl, rfl, rfl, rfl⟩ := heq
  rfl

instance : LinearOrder Stamp := LinearOrder.lift' fields fields_injective

theorem lt_iff {s t : Stamp} : s < t ↔ s.fields < t.fields := Iff.rfl

/-- The fields, when they make a time. -/
def ofFields (year month day hour minute second microsecond : ℕ) : Option Stamp :=
  if h : ((1 ≤ year ∧ year ≤ 9999) ∧ (1 ≤ month ∧ month ≤ 12) ∧
      (1 ≤ day ∧ day ≤ daysInMonth year month)) ∧
      hour < 24 ∧ minute < 60 ∧ second < 60 ∧ microsecond < 1000000 then
    some ⟨year, month, day, hour, minute, second, microsecond, h.1.1, h.1.2.1, h.1.2.2, h.2.1,
      h.2.2.1, h.2.2.2.1, h.2.2.2.2⟩
  else none

theorem ofFields_self (s : Stamp) :
    ofFields s.year s.month s.day s.hour s.minute s.second s.microsecond = some s :=
  dif_pos ⟨⟨s.year_range, s.month_range, s.day_range⟩, s.hour_range, s.minute_range,
    s.second_range, s.microsecond_range⟩

/-- `isoformat`: no fraction on a whole second. -/
def isoformat (s : Stamp) : List Char :=
  numeral 10 4 s.year ++ '-' :: (numeral 10 2 s.month ++ '-' :: (numeral 10 2 s.day ++ 'T' ::
    (numeral 10 2 s.hour ++ ':' :: (numeral 10 2 s.minute ++ ':' :: (numeral 10 2 s.second ++
      (if s.microsecond = 0 then [] else '.' :: numeral 10 6 s.microsecond) ++
        "+00:00".toList)))))

end Stamp

structure Uuid where
  number : ℕ
  bound : number < 16 ^ 32
deriving DecidableEq

/-- `str(uuid)`. -/
def Uuid.str (u : Uuid) : List Char :=
  let hex := numeral 16 32 u.number
  hex.take 8 ++ '-' :: ((hex.drop 8).take 4 ++ '-' :: ((hex.drop 12).take 4 ++ '-' ::
    ((hex.drop 16).take 4 ++ '-' :: hex.drop 20)))

/-! ## § Entries -/

structure LedgerEntry where
  tenantId : Uuid
  clientId : Uuid
  erasedAt : Stamp
deriving DecidableEq

/-- `Entry.key`. -/
def LedgerEntry.key (e : LedgerEntry) : List Char :=
  let at_ := e.erasedAt
  "erasures/".toList ++ (numeral 10 4 at_.year ++ '/' :: (numeral 10 2 at_.month ++ '/' ::
    (numeral 10 2 at_.day ++ '/' :: (numeral 10 4 at_.year ++ (numeral 10 2 at_.month ++
      (numeral 10 2 at_.day ++ 'T' :: (numeral 10 2 at_.hour ++ (numeral 10 2 at_.minute ++
        (numeral 10 2 at_.second ++ '.' :: (numeral 10 6 at_.microsecond ++
          ("Z-client-".toList ++ (e.clientId.str ++ ".json".toList))))))))))))

def jsonText (s : List Char) : List Char := '"' :: (s ++ ['"'])

/-- A member of an object as `json.dumps` writes it. -/
def jsonMember (name value : List Char) : List Char := jsonText name ++ ':' :: ' ' :: value

/-- `Entry.body`. -/
def LedgerEntry.body (e : LedgerEntry) : List Char :=
  '{' :: (jsonMember ['v'] ['1'] ++ ',' :: ' ' ::
    (jsonMember "kind".toList (jsonText "client".toList) ++ ',' :: ' ' ::
      (jsonMember "tenant_id".toList (jsonText e.tenantId.str) ++ ',' :: ' ' ::
        (jsonMember "client_id".toList (jsonText e.clientId.str) ++ ',' :: ' ' ::
          (jsonMember "erased_at".toList (jsonText e.erasedAt.isoformat) ++ ['}'])))))

/-! ## § Reading texts back -/

/-- What is raised: a class `read` catches, or another. -/
inductive Raised
  | caught | uncaught
deriving DecidableEq

/-- A member's value, as the code tells values apart. `one` equals 1. -/
inductive JsonValue
  | text (s : List Char)
  | one
  | other
deriving DecidableEq

/-- The members of an object, in the order written. -/
abbrev JsonObject := List (List Char × JsonValue)

/-- A parsed time: without a zone, or known by what `astimezone(UTC)` gives. -/
inductive Moment
  | naive
  | aware (utc : Except Raised Stamp)

/-- What Python makes of the texts no function here writes, the object's digest, and the
characters `\d` matches. -/
structure Python where
  loads : List Char → Except Raised JsonObject
  fromisoformat : List Char → Except Raised Moment
  uuid : List Char → Except Raised Uuid
  sha256 : List Char → List Char
  digit : Char → Bool

/-- A quoted text of ASCII characters with nothing escaped, and what follows it. -/
def readQuoted : List Char → Option (List Char × List Char)
  | '"' :: cs =>
      match cs.span (· ≠ '"') with
      | (s, _ :: rest) =>
          if ∀ c ∈ s, c ≠ '\\' ∧ ' ' ≤ c ∧ c ≤ '~' then some (s, rest) else none
      | (_, []) => none
  | _ => none

/-- A quoted text, or a 1 that ends its member. -/
def readValue : List Char → Option (JsonValue × List Char)
  | '1' :: ',' :: rest => some (.one, ',' :: rest)
  | '1' :: '}' :: rest => some (.one, '}' :: rest)
  | cs => (readQuoted cs).map fun q => (.text q.1, q.2)

/-- The members up to the end of the text. -/
def readMembers : ℕ → List Char → Option JsonObject
  | 0, _ => none
  | fuel + 1, cs =>
      match readQuoted cs with
      | some (name, ':' :: ' ' :: cs) =>
          match readValue cs with
          | some (value, ',' :: ' ' :: cs) => (readMembers fuel cs).map ((name, value) :: ·)
          | some (value, ['}']) => some [(name, value)]
          | _ => none
      | _ => none

/-- `json.loads`. A value that is no object is an error: `data.get` raises one `read`
catches. -/
def Python.jsonLoads (p : Python) (raw : List Char) : Except Raised JsonObject :=
  match raw with
  | '{' :: cs =>
      match readMembers cs.length cs with
      | some members => .ok members
      | none => p.loads raw
  | _ => p.loads raw

/-- The member of that name written last. -/
def JsonObject.get (data : JsonObject) (name : List Char) : Option JsonValue :=
  data.reverse.lookup name

/-- `w` decimal digits, and what follows them. -/
def readDigits (w : ℕ) (cs : List Char) : Option (ℕ × List Char) :=
  if (cs.take w).length = w ∧ IsNumeral 10 (cs.take w) then
    some (numeralValue 10 (cs.take w), cs.drop w)
  else none

def readChar (c : Char) : List Char → Option (List Char)
  | c' :: cs => if c = c' then some cs else none
  | [] => none

/-- A fraction of six digits, or none. -/
def readFraction : List Char → Option (ℕ × List Char)
  | '.' :: cs => readDigits 6 cs
  | cs => some (0, cs)

/-- A time as `isoformat` writes it. -/
def readIso (cs : List Char) : Option Stamp := do
  let (year, cs) ← readDigits 4 cs
  let cs ← readChar '-' cs
  let (month, cs) ← readDigits 2 cs
  let cs ← readChar '-' cs
  let (day, cs) ← readDigits 2 cs
  let cs ← readChar 'T' cs
  let (hour, cs) ← readDigits 2 cs
  let cs ← readChar ':' cs
  let (minute, cs) ← readDigits 2 cs
  let cs ← readChar ':' cs
  let (second, cs) ← readDigits 2 cs
  let (microsecond, cs) ← readFraction cs
  if cs = "+00:00".toList then Stamp.ofFields year month day hour minute second microsecond
  else none

/-- `datetime.fromisoformat`. -/
def Python.isoParse (p : Python) (s : List Char) : Except Raised Moment :=
  match readIso s with
  | some stamp => .ok (.aware (.ok stamp))
  | none => p.fromisoformat s

/-- 32 hexadecimal digits among hyphens. -/
def readUuid (s : List Char) : Option Uuid :=
  let hex := s.filter (· ≠ '-')
  if hex.length = 32 ∧ IsNumeral 16 hex then
    if h : numeralValue 16 hex < 16 ^ 32 then some ⟨_, h⟩ else none
  else none

/-- `UUID(s)`. -/
def Python.uuidOf (p : Python) (s : List Char) : Except Raised Uuid :=
  match readUuid s with
  | some u => .ok u
  | none => p.uuid s

/-- A member that is a text: a missing one is a `KeyError`, another value a `TypeError` or
an `AttributeError`. -/
def JsonObject.text (data : JsonObject) (name : List Char) : Except Raised (List Char) :=
  match data.get name with
  | some (.text s) => .ok s
  | _ => .error .caught

/-- `Entry.parse`. -/
def LedgerEntry.parse (p : Python) (data : JsonObject) : Except Raised LedgerEntry := do
  if data.get "kind".toList = some (.text "client".toList) then
    let moment ← p.isoParse (← data.text "erased_at".toList)
    match moment with
    | .naive => .error .caught
    | .aware utc =>
        let tenantId ← p.uuidOf (← data.text "tenant_id".toList)
        let clientId ← p.uuidOf (← data.text "client_id".toList)
        let erasedAt ← utc
        return ⟨tenantId, clientId, erasedAt⟩
  else .error .caught

/-- An object of the ledger parsed: of version 1, and an erasure of a client. -/
def LedgerEntry.ofRaw (p : Python) (raw : List Char) : Except Raised LedgerEntry := do
  let data ← p.jsonLoads raw
  if data.get ['v'] = some .one then LedgerEntry.parse p data else .error .caught

end Ziftbook
