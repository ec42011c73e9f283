import Mathlib.Data.String.Basic
import Ziftbook.Csp.Urls

/-!
# The violation reports' endpoint

`report` of `app/csp_reports.py`, from the request's media type to its log lines, and the
process-wide counters it keeps. What is learnt outside the handler comes with the request:
whether the limiter's calls are all taken, what the limiter counts and what is read of the
body.
-/

namespace Ziftbook.Csp

open Foundation

/-! ## § Reading a body -/

/-- `application/csp-report`: one report. -/
def legacy : Text := codes "application/csp-report"

/-- `application/reports+json`: an array of reports. -/
def batch : Text := codes "application/reports+json"

def mediaTypes : List Text := [legacy, batch]

/-- `FORMATS`. -/
def formats : List (Text × Text) :=
  [(legacy, codes "csp-report"), (batch, codes "reports+json")]

/-- `MAX_REPORTS`. -/
def maxReports : ℕ := 10

/-- A report in the legacy field names: a dict. -/
abbrev Report := List (Text × Json)

/-- `report.get(name, default)`. -/
def Report.get (report : Report) (name : String) (default : Json := .null) : Json :=
  (report.lookup (codes name)).getD default

/-- What a batch's entry holds, when it is a violation's. -/
def ofEntry : Json → Option Report
  | .object entry =>
      match Report.get entry "type", Report.get entry "body" with
      | .text kind, .object fields =>
          if kind = codes "csp-violation" then
            some [
              (codes "document-uri", Report.get fields "documentURL" (Report.get entry "url")),
              (codes "effective-directive", Report.get fields "effectiveDirective"),
              (codes "disposition", Report.get fields "disposition"),
              (codes "blocked-uri", Report.get fields "blockedURL"),
              (codes "source-file", Report.get fields "sourceFile")]
          else none
      | _, _ => none
  | _ => none

/-- `_reports` of the body's value. -/
def reportsOf (media : Text) (data : Json) : List Report :=
  if media = legacy then
    match data with
    | .object members =>
        match Report.get members "csp-report" with
        | .object report => [report]
        | _ => []
    | _ => []
  else
    match data with
    | .array entries => entries.filterMap ofEntry
    | _ => []

/-- `_reports`. -/
def reports (py : Interpreter) (media : Text) (body : List UInt8) : Except Exn (List Report) :=
  handling (fun e => e = .valueError ∨ e = .recursionError)
    ((py.loads body).map (reportsOf media)) (.ok [])

/-- `value.split()[0].lower()` of a string that is read. -/
def directiveName (py : Interpreter) (value : Text) : Except Exn Text :=
  if value.length ≤ maxValue then
    match words isSpace value with
    | word :: _ => .ok (py.lower word)
    | [] => .error .indexError
  else .ok []

/-- `_directive`. -/
def directive (py : Interpreter) : List Json → Except Exn Text
  | [] => .ok otherText
  | .text value :: values =>
      if strip isSpace value ≠ [] then do
        let name ← directiveName py value
        .ok (if name ∈ directives then name else otherText)
      else directive py values
  | _ :: values => directive py values

/-- `_disposition`. -/
def disposition : Json → Text
  | .text value => if value ∈ dispositions then value else codes "unknown"
  | _ => codes "unknown"

structure Violation where
  reportFormat : Text
  directive : Text
  disposition : Text
  page : Text
  blocked : Text
  source : Text
deriving DecidableEq

/-- `_violation`. -/
def violation (py : Interpreter) (reportFormat : Text) (report : Report) (known : Known) :
    Except Exn Violation := do
  let directive ← directive py
    [report.get "effective-directive", report.get "violated-directive"]
  let page ← pageTemplate py (report.get "document-uri") known
  let blocked ← resourceClass py (report.get "blocked-uri") known
  let source ← resourceClass py (report.get "source-file") known
  .ok ⟨reportFormat, directive, disposition (report.get "disposition"), page, blocked, source⟩

/-- `CLOSED_VALUES`: every field holds one of its own. -/
structure Violation.Closed (v : Violation) : Prop where
  reportFormat : v.reportFormat ∈ formats.map Prod.snd
  directive : v.directive ∈ directives ++ [otherText]
  disposition : v.disposition ∈ dispositions ++ [codes "unknown"]
  page : v.page ∈ pages ++ [otherText]
  blocked : v.blocked ∈ categories
  source : v.source ∈ categories

/-! ## § Counters and lines -/

inductive Reason
  | busy | disconnected | crossSite | rateLimited | limiterUnavailable | foreign | batchCap
  | globalCap
deriving DecidableEq, Repr

/-- `DROP_REASONS`. -/
def dropReasons : List Reason := [.busy, .disconnected, .crossSite, .rateLimited,
  .limiterUnavailable, .foreign, .batchCap, .globalCap]

inductive Line
  | violation (v : Violation) (count : ℕ)
  | dropped (warning : Bool) (counts : List (Reason × ℕ)) (seconds : ℤ) (error : Option Text)

/-- `LINE_BUDGET`: violation lines a minute. -/
def lineBudget : ℕ := 600

/-- `DROP_EVERY`, in seconds. -/
def dropEvery : ℚ := 60

/-- `MAX_SERIES`. -/
def maxSeries : ℕ := 500

/-- `LIMIT`: reports of one address a minute. -/
def reportLimit : ℕ := 30

abbrev Series := Text × Text × Text

/-- `OVERFLOW`. -/
def overflow : Series := (otherText, otherText, otherText)

/-- The module's globals, the process's log and its metric; `clock` are the readings of
`time.monotonic`, of which `reads` are taken. -/
structure State where
  drops : List (Reason × ℕ)
  dropError : Option Text
  dropsLoggedAt : Option ℚ
  dropsSince : Option ℚ
  series : List Series
  linesSince : Option ℚ
  lines : ℕ
  log : List Line
  counted : List (Series × ℕ)
  clock : ℕ → ℚ
  reads : ℕ

/-- `round`: to the even neighbour at a half. -/
def roundHalfEven (x : ℚ) : ℤ :=
  if x - ⌊x⌋ < 1 / 2 then ⌊x⌋
  else if 1 / 2 < x - ⌊x⌋ then ⌊x⌋ + 1
  else if ⌊x⌋ % 2 = 0 then ⌊x⌋
  else ⌊x⌋ + 1

namespace State

def init (clock : ℕ → ℚ) : State := ⟨[], none, none, none, [], none, 0, [], [], clock, 0⟩

def write (s : State) (line : Line) : State := { s with log := s.log ++ [line] }

/-- `_drops[reason]`. -/
def dropsOf (s : State) (reason : Reason) : ℕ := (s.drops.lookup reason).getD 0

/-- `_flush_drops`. -/
def flushDrops (s : State) (force : Bool) : State :=
  let now := s.clock s.reads
  let s := { s with reads := s.reads + 1 }
  if s.drops = [] then s
  else if force = false ∧ ∃ at_ ∈ s.dropsLoggedAt, now - at_ < dropEvery then s
  else { s with
    drops := []
    dropError := none
    dropsLoggedAt := some now
    dropsSince := none
    log := s.log ++ [.dropped (0 < s.dropsOf .limiterUnavailable)
      ((dropReasons.map fun reason => (reason, s.dropsOf reason)).filter fun d => 0 < d.2)
      (roundHalfEven (now - s.dropsSince.getD now)) (s.dropError.filter fun e => e ≠ [])] }

/-- `_count`. -/
def count (s : State) (reason : Reason) (n : ℕ) : State :=
  let s := if s.drops = [] then
    { s with dropsSince := some (s.clock s.reads), reads := s.reads + 1 } else s
  { s with drops := (reason, s.dropsOf reason + n) :: s.drops.filter fun d => d.1 ≠ reason }

/-- `_drop`. -/
def drop (s : State) (reason : Reason) : State := (s.count reason 1).flushDrops false

/-- `_record`. -/
def record (s : State) (v : Violation) (n : ℕ) : State :=
  let series := (v.directive, v.disposition, v.blocked)
  if series ∉ s.series ∧ maxSeries ≤ s.series.length then
    { s with counted := s.counted ++ [(overflow, n)] }
  else { s with
    series := if series ∈ s.series then s.series else series :: s.series
    counted := s.counted ++ [(series, n)] }

/-- `_spend_line`: whether a line of this minute's is left, and the state after it. -/
def spendLine (s : State) : Bool × State :=
  let now := s.clock s.reads
  let s := { s with reads := s.reads + 1 }
  let s := if ∀ since ∈ s.linesSince, dropEvery ≤ now - since then
    { s with linesSince := some now, lines := 0 } else s
  if lineBudget ≤ s.lines then (false, s) else (true, { s with lines := s.lines + 1 })

/-- The loop over `sorted(found.items())`. -/
def logFound (s : State) : List (Violation × ℕ) → State
  | [] => s
  | (v, n) :: found =>
      if v.page = foreign then s.logFound found
      else
        match (s.record v n).spendLine with
        | (true, s) => (s.write (.violation v n)).logFound found
        | (false, s) => (s.count .globalCap n).logFound found

end State

/-! ## § The handler -/

/-- Violations compare by their fields, the first first. -/
def Violation.fields (v : Violation) : List Text :=
  [v.reportFormat, v.directive, v.disposition, v.page, v.blocked, v.source]

/-- `sorted(Counter(violations).items())`. -/
def tally (violations : List Violation) : List (Violation × ℕ) :=
  (violations.dedup.insertionSort fun v w => v.fields ≤ w.fields).map fun v =>
    (v, violations.count v)

structure Request where
  contentType : Option Text
  secFetchSite : Option Text
  /-- `MAX_IN_FLIGHT` calls to the limiter are running. -/
  busy : Bool
  /-- The address's reports this minute, or the summary of the database's error. -/
  charged : Except Text ℕ
  /-- Nothing when the client hung up. -/
  body : Option (List UInt8)
  known : Known

inductive Response
  | noContent | unsupportedMediaType
deriving DecidableEq

/-- `media_type`. -/
def mediaType (py : Interpreter) (contentType : Option Text) : Text :=
  py.lower (strip isSpace (((contentType.getD []).splitOn ';'.toNat).headD []))

/-- The handler from the body on. -/
def logReports (py : Interpreter) (s : State) (media : Text) (body : List UInt8) (known : Known) :
    Except Exn State := do
  let reports ← reports py media body
  let s := if maxReports < reports.length then
    s.count .batchCap (reports.length - maxReports) else s
  let violations ← (reports.take maxReports).mapM fun report =>
    match formats.lookup media with
    | some reportFormat => violation py reportFormat report known
    | none => .error .keyError
  let foreigners := violations.countP fun v => v.page = foreign
  let s := if foreigners ≠ 0 then s.count .foreign foreigners else s
  .ok ((s.logFound (tally violations)).flushDrops false)

/-- `report`. -/
def report (py : Interpreter) (s : State) (request : Request) :
    Except Exn (Response × State) :=
  let media := mediaType py request.contentType
  if media ∉ mediaTypes then .ok (.unsupportedMediaType, s)
  else if ∃ site ∈ request.secFetchSite, py.lower (strip isSpace site) ≠ codes "same-origin" then
    .ok (.noContent, s.drop .crossSite)
  else if request.busy then .ok (.noContent, s.drop .busy)
  else
    match request.charged with
    | .error summary => .ok (.noContent, { s with dropError := some summary }.drop
        .limiterUnavailable)
    | .ok hits =>
        if reportLimit < hits then .ok (.noContent, s.drop .rateLimited)
        else
          match request.body with
          | none => .ok (.noContent, s.drop .disconnected)
          | some body => do
              let s ← logReports py s media body request.known
              .ok (.noContent, s)

end Ziftbook.Csp
