import Ziftbook.Clients.Records
import Ziftbook.Foundation.Keyset
import Ziftbook.Foundation.Like

/-!
# The console's list of clients

`list_clients`: the clients of a business, newest first, a page at a time, searched by name,
email or phone. What is typed is looked for as it is, whatever signs it has; and pages read one
after another, while clients come, go and change, list nobody twice and leave nobody out who was
there throughout.
-/

namespace Ziftbook.Clients

open Foundation Csp

/-! ## § The search -/

/-- `LIKE`'s own signs: `%`, `_` and the backslash. -/
def signs : Wildcards ℕ := ⟨37, 95, 92, by decide, by decide, by decide⟩

/-- `like`: a typed query as a contains-pattern. -/
def likePattern (query : Text) : Text :=
  signs.many ::
    (signs.escapeOne signs.one (signs.escapeOne signs.many (signs.escapeOne signs.escape query)) ++
      [signs.many])

/-- `q.strip() if q else None`, null where it is as good as empty. -/
def strippedQuery (q : Option Text) : Option Text := (q.map (strip isSpace)).filter (· ≠ [])

/-- `re.sub(r"[\s().-]", "", stripped)`. -/
def compact (stripped : Text) : Text :=
  stripped.filter fun c => ¬ (isSpace c = true ∨ c ∈ codes "().-")

section Search

-- `number`: a typed phone as it is stored; `fold`: a letter in lower case
variable (number : Text → Option Text) (fold : ℕ → ℕ)

/-- `ILIKE`; with a null on either side it is not true. -/
def ilike (column pattern : Option Text) : Bool :=
  column.any fun s => pattern.any fun p => signs.like (p.map fold) (s.map fold)

/-- The statement's condition on `:q`, `:compact` and `:number`. -/
def Person.found (stripped : Option Text) (p : Person) : Bool :=
  match stripped with
  | none => true
  | some q =>
      let pattern := some (likePattern q)
      let compacted := if compact q = [] then none else some (likePattern (compact q))
      ilike fold (some p.name.1) pattern || ilike fold p.email pattern ||
        ilike fold p.phone pattern || ilike fold p.phone compacted ||
        (number q).any fun n => p.phone = some n

structure ConsentOut where
  granted : Bool
  source : ConsentSource
  mailable : Bool
deriving DecidableEq

structure ClientOut where
  id : ℕ
  name : Text
  email : Option Text
  phone : Option Text
  locale : Option Locale
  clientNote : Option Text
  internalNote : Option Text
  consents : Purpose → Option ConsentOut

/-- `as_clients` of one row, read with `fields(owner)`. -/
def Register.shown (s : Register) (owner : Bool) (row : ℕ × Person) : ClientOut :=
  let p := row.2.seenBy owner
  ⟨row.1, p.name.1, p.email, p.phone, p.locale, p.clientNote, p.internalNote, fun purpose =>
    (s.currentConsent row.1 purpose).map fun r =>
      ⟨r.granted, r.source, Clients.mailable r.granted r.source⟩⟩

/-- The rows the statement's WHERE leaves, but for the page's start. -/
def Register.foundRows (s : Register) (q : Option Text) : List (ℕ × Person) :=
  (s.clients.rows.filterMap fun c => c.person?.map fun p => (c.id, p)).filter fun row =>
    row.2.found number fold (strippedQuery q)

/-- `list_clients`. -/
def Register.listClients (s : Register) (owner : Bool) (q : Option Text) (before : Option ℕ)
    (limit : ℕ) : List ClientOut :=
  (page Prod.fst before limit (s.foundRows number fold q)).map (s.shown owner)

/-- A page, and the id to go on from: the last one's, unless the page is short. -/
def Register.readPage (owner : Bool) (q : Option Text) (limit : ℕ) (s : Register)
    (before : Option ℕ) : List ClientOut × Option ℕ :=
  (s.listClients number fold owner q before limit,
    nextOfFull ClientOut.id limit (s.listClients number fold owner q before limit))

/-! ## § What a search finds -/

/-- The text is in the column, in letters of either case. -/
def Within (q : Text) (column : Option Text) : Prop := ∃ s ∈ column, q.map fold <:+: s.map fold

/-- What is typed is in the name, the email or the phone; or, without what sets a number out,
in the phone; or it is the phone. -/
def Person.Contains (q : Text) (p : Person) : Prop :=
  Within fold q (some p.name.1) ∨ Within fold q p.email ∨ Within fold q p.phone ∨
    (compact q ≠ [] ∧ Within fold (compact q) p.phone) ∨ ∃ n ∈ number q, p.phone = some n

end Search

variable {number : Text → Option Text} {fold : ℕ → ℕ} {s : Register} {owner : Bool}
  {q : Option Text} {limit : ℕ}

/-- Lower case keeps `LIKE`'s signs apart from letters. -/
structure KeepsSigns (fold : ℕ → ℕ) : Prop where
  many : ∀ c, fold c = signs.many ↔ c = signs.many
  one : ∀ c, fold c = signs.one ↔ c = signs.one
  escape : ∀ c, fold c = signs.escape ↔ c = signs.escape

/-- **A pattern made of what is typed finds what contains it.** -/
theorem ilike_likePattern (hfold : KeepsSigns fold) {column : Option Text} {q : Text} :
    ilike fold column (some (likePattern q)) = true ↔ Within fold q column := by
  have hpattern : (likePattern q).map fold =
      signs.many :: (signs.quote (q.map fold) ++ [signs.many]) := by
    unfold likePattern
    rw [Wildcards.escapeOne_all, List.map_cons, List.map_append, List.map_singleton,
      (hfold.many _).mpr rfl, Wildcards.map_quote hfold.many hfold.one hfold.escape]
  unfold ilike Within
  rw [Option.any_eq_true]
  simp only [Option.any_some, hpattern, Wildcards.like_contains, Option.mem_def]

theorem ilike_none {column : Option Text} : ilike fold column none = false := by
  cases column <;> rfl

/-- **What is typed is looked for as it is**, whatever signs it has. -/
theorem found_iff (hfold : KeepsSigns fold) {q : Text} {p : Person} :
    p.found number fold (some q) = true ↔ p.Contains number fold q := by
  have hcompact : ilike fold p.phone
      (if compact q = [] then none else some (likePattern (compact q))) = true ↔
        compact q ≠ [] ∧ Within fold (compact q) p.phone := by
    split_ifs with h
    · simp [h, ilike_none]
    · rw [ilike_likePattern hfold]
      simp [h]
  simp only [Person.found, Bool.or_eq_true, ilike_likePattern hfold, hcompact, Option.any_eq_true,
    decide_eq_true_eq, Person.Contains, Option.mem_def, or_assoc]

/-- What the query asks of a client: nothing, when it is empty. -/
def Person.Answers (number : Text → Option Text) (fold : ℕ → ℕ) (q : Option Text)
    (p : Person) : Prop := ∀ stripped ∈ strippedQuery q, p.Contains number fold stripped

theorem found_iff_answers (hfold : KeepsSigns fold) {p : Person} :
    p.found number fold (strippedQuery q) = true ↔ p.Answers number fold q := by
  unfold Person.Answers
  cases strippedQuery q with
  | none => simp [Person.found]
  | some stripped => simp [found_iff hfold]

/-! ## § Pages -/

theorem mem_foundRows (hfold : KeepsSigns fold) {id : ℕ} {p : Person} :
    (id, p) ∈ s.foundRows number fold q ↔
      (∃ c ∈ s.clients.rows, c.id = id ∧ c.content = .live p) ∧ p.Answers number fold q := by
  unfold Register.foundRows
  rw [List.mem_filter, found_iff_answers hfold]
  refine and_congr_left fun _ => ?_
  rw [List.mem_filterMap]
  refine exists_congr fun c => and_congr_right fun _ => ?_
  rw [Option.map_eq_some_iff]
  constructor
  · rintro ⟨p', hp, heq⟩
    cases heq
    exact ⟨rfl, Record.person?_eq_some.mp hp⟩
  · rintro ⟨rfl, hp⟩
    exact ⟨p, Record.person?_eq_some.mpr hp, rfl⟩

theorem foundRows_nodup : ((s.foundRows number fold q).map Prod.fst).Nodup := by
  refine s.clients.keyed.sublist (List.Sublist.trans (List.filter_sublist.map Prod.fst) ?_)
  induction s.clients.rows with
  | nil => exact .slnil
  | cons c rows ih =>
      rw [List.filterMap_cons]
      cases c.person? with
      | none => exact ih.cons _
      | some p => exact ih.cons_cons _

theorem isPage_readPage (hlimit : 0 < limit) (s : Register) (before : Option ℕ) :
    IsPage ClientOut.id before ((s.foundRows number fold q).map (s.shown owner))
      (s.readPage number fold owner q limit before).1
      (s.readPage number fold owner q limit before).2 := by
  set rows := s.foundRows number fold q with hrows
  have hpage : IsPage Prod.fst before rows (page Prod.fst before limit rows)
      (nextOfFull Prod.fst limit (page Prod.fst before limit rows)) :=
    isPage_page hlimit foundRows_nodup
  have hshown : IsPage ClientOut.id before (rows.map (s.shown owner))
      ((page Prod.fst before limit rows).map (s.shown owner))
      (nextOfFull Prod.fst limit (page Prod.fst before limit rows)) := hpage.map fun _ => rfl
  have hnext : nextOfFull ClientOut.id limit (s.listClients number fold owner q before limit) =
      nextOfFull Prod.fst limit (page Prod.fst before limit rows) := by
    unfold nextOfFull Register.listClients
    rw [List.length_map, List.getLast?_map, Option.map_map]
    rfl
  unfold Register.readPage
  rw [hnext]
  exact hshown

/-- **The list of clients.** Pages of one search read one after another, each of the clients as
they are by then, list ids downwards, so nobody twice; each row is shown as the register has it
at its page, of a client not erased who answers the search; a member who is not the owner never
sees the private note; and whoever is on file and answers the search at every page is on one. -/
theorem clients_listed (hfold : KeepsSigns fold) (hlimit : 0 < limit) (ss : List Register) :
    let pages := walk (Register.readPage number fold owner q limit) none ss
    pages.flatten.Pairwise (fun a b => b.id < a.id) ∧
    (∀ row ∈ pages.flatten, ∃ s ∈ ss, ∃ c ∈ s.clients.rows, ∃ p, c.content = .live p ∧
      p.Answers number fold q ∧ row = s.shown owner (c.id, p)) ∧
    (owner = false → ∀ row ∈ pages.flatten, row.internalNote = none) ∧
    (Walked (Register.readPage number fold owner q limit) none ss →
      ∀ id, (∀ s ∈ ss, ∃ c ∈ s.clients.rows, c.id = id ∧ ∃ p, c.content = .live p ∧
        p.Answers number fold q) → ∃ row ∈ pages.flatten, row.id = id) := by
  intro pages
  have hread : ∀ s ∈ ss, ∀ before, IsPage ClientOut.id before
      ((s.foundRows number fold q).map (s.shown owner))
      (s.readPage number fold owner q limit before).1
      (s.readPage number fold owner q limit before).2 := fun s _ => isPage_readPage hlimit s
  obtain ⟨hdesc, hmem⟩ := walk_descending hread none
  have hrow : ∀ row ∈ pages.flatten, ∃ s ∈ ss, ∃ c ∈ s.clients.rows, ∃ p, c.content = .live p ∧
      p.Answers number fold q ∧ row = s.shown owner (c.id, p) := by
    intro row hrow
    obtain ⟨-, s, hs, hin⟩ := hmem row hrow
    obtain ⟨⟨id, p⟩, hfound, rfl⟩ := List.mem_map.mp hin
    obtain ⟨⟨c, hc, rfl, hp⟩, hanswers⟩ := (mem_foundRows hfold).mp hfound
    exact ⟨s, hs, c, hc, p, hp, hanswers, rfl⟩
  refine ⟨hdesc, hrow, ?_, fun hwalked id hthere => ?_⟩
  · rintro rfl row hin
    obtain ⟨s, -, c, -, p, -, -, rfl⟩ := hrow row hin
    rfl
  · refine walk_complete hread (k := id) (fun s hs => ?_) (fun _ h => nomatch h) hwalked
    obtain ⟨c, hc, rfl, p, hp, hanswers⟩ := hthere s hs
    exact ⟨s.shown owner (c.id, p), List.mem_map_of_mem
      ((mem_foundRows hfold).mpr ⟨⟨c, hc, rfl, hp⟩, hanswers⟩), rfl⟩

/-- ASCII's letters in lower case. -/
def asciiLower (c : ℕ) : ℕ := if 65 ≤ c ∧ c ≤ 90 then c + 32 else c

theorem asciiLower_keepsSigns : KeepsSigns asciiLower := by
  have h : ∀ sign c, sign < 65 ∨ (90 < sign ∧ sign < 97) → (asciiLower c = sign ↔ c = sign) := by
    intro sign c hsign
    unfold asciiLower
    split_ifs <;> omega
  exact ⟨fun c => h 37 c (by decide), fun c => h 95 c (by decide), fun c => h 92 c (by decide)⟩

/-- Clients named `A_b`, `axb` and `xa_b`. -/
def threeNames : Register :=
  let first := (Register.empty.addClient
    ⟨none, ⟨codes "A_b", by decide⟩, none, none, none, none, none⟩).1
  let second := (first.addClient ⟨none, ⟨codes "axb", by decide⟩, none, none, none, none, none⟩).1
  (second.addClient ⟨none, ⟨codes "xa_b", by decide⟩, none, none, none, none, none⟩).1

theorem clients_listed_threeNames :
    let pages := walk (Register.readPage some asciiLower false (some (codes " a_b")) 1) none
      [threeNames, threeNames, threeNames]
    pages.flatten.map ClientOut.id = [3, 1] ∧
      ∃ row ∈ pages.flatten, row.id = 1 :=
  ⟨by decide +kernel,
    (clients_listed asciiLower_keepsSigns (by decide) [threeNames, threeNames, threeNames]).2.2.2
      (by decide +kernel) 1 (by
        intro s hs
        have : s = threeNames := by simpa using hs
        subst this
        refine ⟨⟨1, .live ⟨none, ⟨codes "A_b", by decide⟩, none, none, none, none, none⟩⟩,
          by decide +kernel, rfl, _, rfl, ?_⟩
        exact (found_iff_answers asciiLower_keepsSigns).mp (by decide +kernel))⟩

end Ziftbook.Clients
