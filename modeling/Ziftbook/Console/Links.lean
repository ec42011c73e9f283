import Ziftbook.Console.Dates
import Ziftbook.Foundation.Urlencoded

/-!
# Calendar links

`parseView` and `hrefFor` of `lib/calendar.ts`: the view a query asks for, and the query
of a view. A view read keeps to the rules of its own context, so its link reads back,
but for an instant printed in a form that `validInstant` does not take.
-/

namespace Ziftbook

open Foundation Foundation.Urlencoded

/-! ## § Views -/

/-- `Role` of the console. -/
inductive ConsoleRole
  | owner | worker
deriving DecidableEq, Repr

/-- `View`. -/
inductive ViewKind
  | day | week | days
deriving DecidableEq, Repr

def ViewKind.text : ViewKind → List Char
  | .day => "day".toList
  | .week => "week".toList
  | .days => "days".toList

inductive Panel
  | new | block | move
deriving DecidableEq, Repr

def Panel.text : Panel → List Char
  | .new => "new".toList
  | .block => "block".toList
  | .move => "move".toList

/-- `VIEWS`: an unknown view is the day. -/
def ViewKind.read (cs : List Char) : ViewKind :=
  if cs = ViewKind.week.text then .week
  else if cs = ViewKind.days.text then .days
  else .day

def Panel.read (cs : List Char) : Option Panel :=
  if cs = Panel.new.text then some .new
  else if cs = Panel.block.text then some .block
  else if cs = Panel.move.text then some .move
  else none

structure CalendarView where
  view : ViewKind
  date : List Char
  member : List Char
  booking : Option (List Char)
  panel : Option Panel
  at_ : Option (List Char)
  with_ : Option (List Char)
deriving DecidableEq

/-- What `parseView` reads beside the query. -/
structure LinkContext where
  browser : Browser
  todayISO : List Char
  role : ConsoleRole
  selfId : List Char
  memberIds : Option (List (List Char))
  remembered : Option (List Char)

/-- One of the members, where these are known. -/
def LinkContext.known (ctx : LinkContext) (member : List Char) : Prop :=
  ∀ ids ∈ ctx.memberIds, member ∈ ids

instance (ctx : LinkContext) : DecidablePred ctx.known :=
  fun _ => inferInstanceAs (Decidable (∀ _ ∈ _, _))

/-- `UUID`, in either case. -/
def isUuid (cs : List Char) : Prop :=
  match cs.splitOn '-' with
  | [a, b, c, d, e] => [a, b, c, d, e].map List.length = [8, 4, 4, 4, 12] ∧
      IsNumeral 16 (a ++ b ++ c ++ d ++ e)
  | _ => False

instance : DecidablePred isUuid := fun cs => by
  unfold isUuid
  split
  · exact inferInstanceAs (Decidable (_ ∧ _))
  · exact instDecidableFalse

def everyone : List Char := "all".toList

/-! ## § `parseView` -/

/-- The panels that carry an instant and a member. -/
def prefill (panel : Option Panel) : Prop := panel = some .new ∨ panel = some .block

instance : DecidablePred prefill := fun _ => inferInstanceAs (Decidable (_ ∨ _))

/-- `new` and `block` replace the open booking. -/
def openBooking (panel : Option Panel) (booking : Option (List Char)) : Option (List Char) :=
  if prefill panel then none else booking

/-- `move` needs a booking. -/
def shownPanel (panel : Option Panel) (booking : Option (List Char)) : Option Panel :=
  if panel = some .move ∧ booking = none then none else panel

def LinkContext.shownMember (ctx : LinkContext) (asked : Option (List Char)) : List Char :=
  match ctx.role with
  | .worker => ctx.selfId
  | .owner =>
      let member := asked.getD everyone
      if member ≠ everyone ∧ ¬ ctx.known member then everyone else member

def LinkContext.withMember (ctx : LinkContext) (asWith : Option (List Char)) : Option (List Char) :=
  match ctx.role with
  | .worker => some ctx.selfId
  | .owner => asWith.filter fun member => member ≠ [] ∧ ctx.known member

def LinkContext.shownDate (ctx : LinkContext) (date : Option (List Char)) : List Char :=
  (date.filter fun date => validDate date).getD ctx.todayISO

/-- `parseView`. -/
def parseView (ctx : LinkContext) (params : Params) : CalendarView :=
  let view := ((get params "view".toList).orElse fun _ => ctx.remembered).getD "day".toList
  let asBooking := (get params "booking".toList).filter fun id => isUuid id
  let wanted := (get params "panel".toList).bind Panel.read
  let panel := shownPanel wanted asBooking
  { view := ViewKind.read view
    date := ctx.shownDate (get params "date".toList)
    member := ctx.shownMember (get params "member".toList)
    booking := openBooking panel asBooking
    panel := panel
    at_ := if prefill panel then ctx.browser.validInstant (get params "at".toList) else none
    with_ := if prefill panel then ctx.withMember (get params "with".toList) else none }

/-! ## § `hrefFor` -/

/-- A patch: what it does not name stands as `none`. -/
structure ViewPatch where
  view : Option ViewKind := none
  date : Option (List Char) := none
  member : Option (List Char) := none
  booking : Option (Option (List Char)) := none
  panel : Option (Option Panel) := none
  at_ : Option (Option (List Char)) := none
  with_ : Option (Option (List Char)) := none

/-- `carry`. -/
def carry {α : Type} (moved : Prop) [Decidable moved] (patch : Option (Option α))
    (current : Option α) : Option α :=
  match patch with
  | some next => next
  | none => if moved then none else current

/-- A text that is there and is not empty. -/
def truthy (text : Option (List Char)) : Option (List Char) := text.filter (· ≠ [])

/-- `query.set`, of a text that is there. -/
def setSome (name : List Char) (value : Option (List Char)) (query : Params) : Params :=
  match value with
  | some value => set name value query
  | none => query

/-- The names and values of `hrefFor`. -/
def hrefParams (current : CalendarView) (patch : ViewPatch) : Params :=
  let view := patch.view.getD current.view
  let date := patch.date.getD current.date
  let member := patch.member.getD current.member
  let moved := date ≠ current.date ∨ view ≠ current.view ∨ member ≠ current.member
  let asked := carry moved patch.panel current.panel
  let booking := openBooking asked (truthy (carry moved patch.booking current.booking))
  let panel := shownPanel asked booking
  let query := [("view".toList, view.text), ("date".toList, date), ("member".toList, member)]
  let query := setSome "booking".toList booking query
  match panel with
  | none => query
  | some panel =>
      let query := set "panel".toList panel.text query
      let query := setSome "at".toList (truthy (carry moved patch.at_ current.at_)) query
      setSome "with".toList (truthy (carry moved patch.with_ current.with_)) query

/-- `hrefFor`. -/
def hrefFor (current : CalendarView) (patch : ViewPatch) : List Char :=
  "/calendar?".toList ++ serialize (hrefParams current patch)

/-- A link's query: from its `?` to its `#`. -/
def search (href : List Char) : List Char := (href.dropWhile (· ≠ '?')).takeWhile (· ≠ '#')

/-- What a page at a link reads. -/
def readView (ctx : LinkContext) (query : List Char) : CalendarView := parseView ctx (parse query)

variable {ctx : LinkContext} {v : CalendarView}

/-! ## § What a view read keeps to -/

@[simp] theorem ViewKind.read_text (view : ViewKind) : ViewKind.read view.text = view := by
  cases view with
  | day => decide
  | week => decide
  | days => decide

@[simp] theorem Panel.read_text (panel : Panel) : Panel.read panel.text = some panel := by
  cases panel with
  | new => decide
  | block => decide
  | move => decide

/-- A view by the rules of its context: each field is what reading it gives. -/
structure LinkContext.Kept (ctx : LinkContext) (v : CalendarView) : Prop where
  date : ctx.shownDate (some v.date) = v.date
  member : ctx.shownMember (some v.member) = v.member
  booking : ∀ id ∈ v.booking, isUuid id
  move : v.panel = some .move → v.booking ≠ none
  alone : prefill v.panel → v.booking = none
  with_ : (if prefill v.panel then ctx.withMember (truthy v.with_) else none) = v.with_
  at_ : ¬ prefill v.panel → v.at_ = none

theorem shownDate_shownDate (asked : Option (List Char)) :
    ctx.shownDate (some (ctx.shownDate asked)) = ctx.shownDate asked := by
  have hread : ∀ date, ctx.shownDate (some date) =
      if validDate date then date else ctx.todayISO := by
    intro date
    unfold LinkContext.shownDate
    by_cases hdate : validDate date
    · rw [if_pos hdate, Option.filter_some_pos (by simpa using hdate), Option.getD_some]
    · rw [if_neg hdate, Option.filter_some_neg (by simpa using hdate), Option.getD_none]
  have htoday : ctx.shownDate (some ctx.todayISO) = ctx.todayISO := by
    rw [hread, ite_self]
  cases asked with
  | none => exact htoday
  | some date =>
      rw [hread date]
      by_cases hdate : validDate date
      · rw [if_pos hdate, hread, if_pos hdate]
      · rw [if_neg hdate, htoday]

theorem shownMember_shownMember (asked : Option (List Char)) :
    ctx.shownMember (some (ctx.shownMember asked)) = ctx.shownMember asked := by
  unfold LinkContext.shownMember
  cases ctx.role with
  | worker => rfl
  | owner =>
      simp only [Option.getD_some]
      by_cases hunknown : asked.getD everyone ≠ everyone ∧ ¬ ctx.known (asked.getD everyone)
      · rw [if_pos hunknown]
        exact if_neg fun h => h.1 rfl
      · rw [if_neg hunknown, if_neg hunknown]

theorem withMember_withMember (asWith : Option (List Char)) :
    ctx.withMember (truthy (ctx.withMember asWith)) = ctx.withMember asWith := by
  unfold LinkContext.withMember
  cases ctx.role with
  | worker => rfl
  | owner =>
      simp only [truthy, Option.filter_filter]
      refine congrArg (fun p => Option.filter p asWith) (funext fun member => ?_)
      by_cases hmember : member = []
      · simp [hmember]
      · simp [hmember]

theorem prefill_shownPanel {wanted : Option Panel} {booking : Option (List Char)} :
    prefill (shownPanel wanted booking) ↔ prefill wanted := by
  unfold shownPanel
  split_ifs with hmove
  · rw [hmove.1]
    decide
  · exact Iff.rfl

/-- **What `parseView` yields keeps to the rules.** -/
theorem parseView_kept (ctx : LinkContext) (params : Params) : ctx.Kept (parseView ctx params) where
  date := shownDate_shownDate _
  member := shownMember_shownMember _
  booking := by
    intro id hid
    change openBooking _ _ = some id at hid
    unfold openBooking at hid
    split_ifs at hid
    exact of_decide_eq_true (Option.filter_eq_some_iff.mp hid).2
  move := by
    intro hmove hnone
    change shownPanel _ _ = _ at hmove
    change openBooking _ _ = none at hnone
    rw [openBooking, hmove, if_neg (by decide)] at hnone
    unfold shownPanel at hmove
    split_ifs at hmove with hlone
    exact hlone ⟨hmove, hnone⟩
  alone := fun hprefill => if_pos hprefill
  with_ := by
    by_cases hprefill : prefill (parseView ctx params).panel
    · have hwith : (parseView ctx params).with_ =
          ctx.withMember (Urlencoded.get params "with".toList) := if_pos hprefill
      rw [if_pos hprefill, hwith, withMember_withMember]
    · have hwith : (parseView ctx params).with_ = none := if_neg hprefill
      rw [if_neg hprefill, hwith]
  at_ := fun hprefill => if_neg hprefill

/-! ## § A link read -/

theorem get_setSome (name : List Char) (value : Option (List Char)) (query : Params)
    (name' : List Char) : get (setSome name value query) name' =
      if name' = name then value.or (get query name) else get query name' := by
  cases value with
  | none =>
      by_cases hname : name' = name
      · rw [if_pos hname, Option.none_or, hname]
        rfl
      · rw [if_neg hname]
        rfl
  | some value =>
      rw [setSome, get_set, Option.some_or]

/-- The names and values of a view's own link. -/
def linkParams (v : CalendarView) : Params :=
  setSome "with".toList (truthy v.with_) <| setSome "at".toList (truthy v.at_) <|
    setSome "panel".toList (v.panel.map Panel.text) <| setSome "booking".toList v.booking
      [("view".toList, v.view.text), ("date".toList, v.date), ("member".toList, v.member)]

namespace LinkContext.Kept

theorem shownPanel (h : ctx.Kept v) : shownPanel v.panel v.booking = v.panel :=
  if_neg fun hmove => h.move hmove.1 hmove.2

theorem openBooking (h : ctx.Kept v) : openBooking v.panel v.booking = v.booking := by
  unfold Ziftbook.openBooking
  split_ifs with hprefill
  · exact (h.alone hprefill).symm
  · rfl

theorem filter_isUuid (h : ctx.Kept v) : v.booking.filter (fun id => isUuid id) = v.booking := by
  cases hid : v.booking with
  | none => rfl
  | some id => exact Option.filter_some_pos (by simpa using h.booking id hid)

theorem truthy_booking (h : ctx.Kept v) : truthy v.booking = v.booking := by
  have hempty : ¬ isUuid [] := by decide
  cases hid : v.booking with
  | none => rfl
  | some id =>
      have hne : id ≠ [] := by
        rintro rfl
        exact hempty (h.booking [] hid)
      exact Option.filter_some_pos (by simpa using hne)

end LinkContext.Kept

/-- The link of a view that keeps to the rules carries each of its fields. -/
theorem hrefParams_kept (h : ctx.Kept v) : hrefParams v {} = linkParams v := by
  have hcarry : ∀ {α : Type} (value : Option α), carry (v.date ≠ v.date ∨ v.view ≠ v.view ∨
      v.member ≠ v.member) none value = value := fun _ => if_neg (by simp)
  unfold hrefParams
  simp only [Option.getD_none, hcarry, h.truthy_booking, h.openBooking, h.shownPanel]
  cases hshown : v.panel with
  | some panel =>
      rw [linkParams, hshown]
      rfl
  | none =>
      have hprefill : ¬ prefill v.panel := by
        rw [hshown]
        decide
      have hwith := h.with_
      rw [if_neg hprefill] at hwith
      rw [linkParams, hshown, h.at_ hprefill, ← hwith]
      rfl

theorem get_linkParams (v : CalendarView) :
    get (linkParams v) "view".toList = some v.view.text ∧
    get (linkParams v) "date".toList = some v.date ∧
    get (linkParams v) "member".toList = some v.member ∧
    get (linkParams v) "booking".toList = v.booking ∧
    get (linkParams v) "panel".toList = v.panel.map Panel.text ∧
    get (linkParams v) "at".toList = truthy v.at_ ∧
    get (linkParams v) "with".toList = truthy v.with_ := by
  refine ⟨?_, ?_, ?_, ?_, ?_, ?_, ?_⟩
  all_goals simp [linkParams, get_setSome, get_cons]

/-- An empty text is no instant. -/
theorem validInstant_truthy (browser : Browser) (value : Option (List Char)) :
    browser.validInstant (truthy value) = browser.validInstant value := by
  cases value with
  | none => rfl
  | some value =>
      by_cases hempty : value = []
      · rw [hempty]
        rfl
      · rw [truthy, Option.filter_some_pos (by simpa using hempty)]

/-- **Only the instant may be lost.** -/
theorem parseView_linkParams (h : ctx.Kept v) : parseView ctx (linkParams v) =
    { v with at_ := ctx.browser.validInstant v.at_ } := by
  obtain ⟨hview, hdate, hmember, hbooking, hpanel, hat, hwith⟩ := get_linkParams v
  have hread : (v.panel.map Panel.text).bind Panel.read = v.panel := by
    cases v.panel with
    | none => rfl
    | some panel => exact Panel.read_text panel
  have hinstant : (if prefill v.panel then ctx.browser.validInstant v.at_ else none) =
      ctx.browser.validInstant v.at_ := by
    split_ifs with hprefill
    · rfl
    · rw [h.at_ hprefill]
      rfl
  unfold parseView
  simp only [hview, hdate, hmember, hbooking, hpanel, hat, hwith, h.filter_isUuid, hread,
    h.shownPanel, h.openBooking, validInstant_truthy, hinstant, h.date, h.member, h.with_]
  show CalendarView.mk (ViewKind.read v.view.text) _ _ _ _ _ _ = _
  rw [ViewKind.read_text]

/-- What a page at the link is given. -/
theorem parse_search_hrefFor (v : CalendarView) (patch : ViewPatch) :
    parse (search (hrefFor v patch)) = hrefParams v patch := by
  have hhash : '#' ∉ serialize (hrefParams v patch) := not_mem_serialize (by decide) _
  have hsearch : search (hrefFor v patch) = '?' :: serialize (hrefParams v patch) := by
    show ('?' :: serialize (hrefParams v patch)).takeWhile (· ≠ '#') = _
    refine List.takeWhile_eq_self_iff.mpr fun c hc => decide_eq_true ?_
    rintro rfl
    exact hhash ((List.mem_cons.mp hc).resolve_left (by decide))
  rw [hsearch, parse_question (not_mem_serialize (by decide) _), parse_serialize]

/-- A view read is read back but for its instant. -/
theorem readView_hrefFor_eq (ctx : LinkContext) (query : List Char) :
    readView ctx (search (hrefFor (readView ctx query) {})) =
      { readView ctx query with
        at_ := ctx.browser.validInstant (readView ctx query).at_ } := by
  have hkept : ctx.Kept (readView ctx query) := parseView_kept ctx (parse query)
  rw [readView, parse_search_hrefFor, hrefParams_kept hkept, parseView_linkParams hkept]

/-- **Calendar links read back** exactly when the instant a query asks for beside a `new` or
`block` panel, if the browser reads one, has a year of four digits in UTC. -/
theorem readView_hrefFor (ctx : LinkContext) (query : List Char) :
    readView ctx (search (hrefFor (readView ctx query) {})) = readView ctx query ↔
      (prefill ((get (parse query) "panel".toList).bind Panel.read) →
        ∀ t ∈ (get (parse query) "at".toList).bind ctx.browser.askedInstant, FourDigits t) := by
  rw [readView_hrefFor_eq]
  have hat : (readView ctx query).at_ =
      if prefill ((get (parse query) "panel".toList).bind Panel.read) then
        ctx.browser.validInstant (get (parse query) "at".toList) else none := by
    exact if_congr prefill_shownPanel rfl rfl
  have hsame : { readView ctx query with
      at_ := ctx.browser.validInstant (readView ctx query).at_ } = readView ctx query ↔
      ctx.browser.validInstant (readView ctx query).at_ = (readView ctx query).at_ := by
    generalize readView ctx query = v
    refine ⟨fun h => congrArg CalendarView.at_ h, fun h => ?_⟩
    rw [h]
  rw [hsame, hat]
  split_ifs with hprefill
  · have hread : ctx.browser.validInstant (get (parse query) "at".toList) =
        ((get (parse query) "at".toList).bind ctx.browser.askedInstant).map toISOString := rfl
    rw [hread]
    cases (get (parse query) "at".toList).bind ctx.browser.askedInstant with
    | none =>
        refine ⟨fun _ _ t ht => ?_, fun _ => rfl⟩
        cases ht
    | some t =>
        rw [Option.map_some, validInstant_toISOString]
        constructor
        · intro hyear _ t' ht'
          rw [← Option.some.inj ht']
          exact hyear
        · intro h
          exact h hprefill t rfl
  · exact ⟨fun _ h => absurd h hprefill, fun _ => rfl⟩

/-! ## § The end of the year 9999 -/

/-- A console whose browser reads no other text as a time. -/
def ownerConsole : LinkContext where
  browser := ⟨fun _ => none⟩
  todayISO := "2026-10-01".toList
  role := .owner
  selfId := "me".toList
  memberIds := none
  remembered := none

/-- A second before midnight, an hour west. -/
def lastSecond : List Char := "?panel=new&at=9999-12-31T23:59:59-01:00".toList

/-- The instant is printed with a year of six digits, and lost in the link. -/
theorem lastSecond_lost :
    (readView ownerConsole lastSecond).at_ = some "+010000-01-01T00:59:59.000Z".toList ∧
    (readView ownerConsole (search (hrefFor (readView ownerConsole lastSecond) {}))).at_ = none ∧
    readView ownerConsole (search (hrefFor (readView ownerConsole lastSecond) {})) ≠
      readView ownerConsole lastSecond := by
  decide +kernel

end Ziftbook
