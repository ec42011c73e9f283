import Ziftbook.Csp.Endpoint

/-!
# What the violation log can hold

Reading a body never raises, and every field of a violation is one of its closed set. The
endpoint logs violations of the body's reports only, and none whose page is foreign.
-/

namespace Ziftbook.Csp

open Foundation

variable {py : Interpreter} {known : Known}

/-! ## § Reading raises nothing -/

theorem returns_reports (hpy : py.Documented) (media : Text) (body : List UInt8) :
    Returns (reports py media body) fun _ => True := by
  refine .handling ?_ (fun _ _ => trivial) (.ok trivial)
  intro e he
  cases hloads : py.loads body with
  | ok data =>
      rw [hloads] at he
      cases he
  | error raised =>
      rw [hloads] at he
      cases he
      simpa using hpy.loads body _ hloads

theorem returns_directiveName {value : Text} (h : strip isSpace value ≠ []) :
    Returns (directiveName py value) fun _ => True := by
  refine .ite (fun _ => ?_) fun _ => .ok trivial
  cases hwords : words isSpace value with
  | nil => exact absurd (words_eq_nil.mp hwords) h
  | cons word rest => exact .ok trivial

/-- A text that is not in the table is written as another. -/
theorem closed_mem {table : List Text} {x other : Text} :
    (if x ∈ table then x else other) ∈ table ++ [other] := by
  split_ifs with h
  · exact List.mem_append_left _ h
  · exact List.mem_append_right _ (List.mem_cons_self ..)

theorem returns_directive (values : List Json) :
    Returns (directive py values) fun name => name ∈ directives ++ [otherText] := by
  induction values with
  | nil => exact .ok (by simp)
  | cons value values ih =>
      cases value with
      | text value =>
          refine .ite (fun h => ?_) fun _ => ih
          exact (returns_directiveName h).bind fun name _ _ => .ok closed_mem
      | _ => exact ih

theorem disposition_mem (value : Json) :
    disposition value ∈ dispositions ++ [codes "unknown"] := by
  cases value with
  | text value => exact closed_mem
  | _ => exact List.mem_append_right _ (List.mem_cons_self ..)

/-- **A violation's fields are closed values**, but that its page may be foreign. -/
theorem returns_violation (hpy : py.Documented) {reportFormat : Text}
    (hformat : reportFormat ∈ formats.map Prod.snd) (report : Report) :
    Returns (violation py reportFormat report known) fun v =>
      (v.page ≠ foreign → v.Closed) ∧
        ∀ url, report.get "document-uri" = .text url → url.length ≤ maxValue →
          Elsewhere py known (.text url) → v.page = foreign := by
  refine (returns_directive _).bind fun directive _ hdirective => ?_
  refine (returns_pageTemplate hpy _).bind fun page hread hpage => ?_
  refine (returns_resourceClass hpy _).bind fun blocked _ hblocked => ?_
  refine (returns_resourceClass hpy _).bind fun source _ hsource => .ok ⟨fun hne => ?_, ?_⟩
  · refine ⟨hformat, hdirective, disposition_mem _, ?_, hblocked, hsource⟩
    rcases hpage with hpage | rfl | rfl
    · exact List.mem_append_left _ hpage
    · exact List.mem_append_right _ (List.mem_cons_self ..)
    · exact absurd rfl hne
  · intro url hurl hshort helse
    rw [hurl, pageTemplate_of_elsewhere helse hshort] at hread
    exact (Except.ok.inj hread).symm

/-! ## § Which lines are written -/

/-- The `csp violation` lines of a log. -/
def violationLines (log : List Line) : List (Violation × ℕ) :=
  log.filterMap fun line => match line with
    | .violation v n => some (v, n)
    | .dropped .. => none

@[simp] theorem violationLines_append (log log' : List Line) :
    violationLines (log ++ log') = violationLines log ++ violationLines log' :=
  List.filterMap_append

namespace State

variable {s : State}

@[simp] theorem violationLines_flushDrops {force : Bool} :
    violationLines (s.flushDrops force).log = violationLines s.log := by
  simp only [flushDrops]
  split_ifs
  · rfl
  · rfl
  · rw [violationLines_append]
    exact List.append_nil _

@[simp] theorem log_count {reason : Reason} {n : ℕ} : (s.count reason n).log = s.log := by
  simp only [count]
  split_ifs <;> rfl

@[simp] theorem violationLines_drop {reason : Reason} :
    violationLines (s.drop reason).log = violationLines s.log := by
  simp [drop]

@[simp] theorem log_record {v : Violation} {n : ℕ} : (s.record v n).log = s.log := by
  simp only [record]
  split_ifs <;> rfl

@[simp] theorem log_spendLine : s.spendLine.2.log = s.log := by
  simp only [spendLine]
  split_ifs <;> rfl

/-- **What the loop logs** are violations found whose page is not foreign. -/
theorem violationLines_logFound {found : List (Violation × ℕ)} : ∀ {s : State},
    ∃ new, violationLines (s.logFound found).log = violationLines s.log ++ new ∧
      ∀ line ∈ new, line ∈ found ∧ line.1.page ≠ foreign := by
  induction found with
  | nil => intro s; exact ⟨[], (List.append_nil _).symm, by simp⟩
  | cons line found ih =>
      obtain ⟨v, n⟩ := line
      intro s
      have hlater : ∀ {new : List (Violation × ℕ)},
          (∀ line ∈ new, line ∈ found ∧ line.1.page ≠ foreign) →
          ∀ line ∈ new, line ∈ (v, n) :: found ∧ line.1.page ≠ foreign :=
        fun h line hline => ⟨List.mem_cons_of_mem _ (h line hline).1, (h line hline).2⟩
      by_cases hforeign : v.page = foreign
      · obtain ⟨new, hnew, hall⟩ := @ih s
        refine ⟨new, ?_, hlater hall⟩
        rw [logFound, if_pos hforeign, hnew]
      · have hlog : (s.record v n).spendLine.2.log = s.log := by simp
        rw [logFound, if_neg hforeign]
        split
        · rename_i s' hspent
          rw [hspent] at hlog
          obtain ⟨new, hnew, hall⟩ := @ih (s'.write (.violation v n))
          refine ⟨(v, n) :: new, ?_, ?_⟩
          · rw [hnew, write, violationLines_append, hlog, List.append_assoc]
            rfl
          · rintro line (_ | ⟨_, hline⟩)
            · exact ⟨List.mem_cons_self .., hforeign⟩
            · exact hlater hall line hline
        · rename_i s' hspent
          rw [hspent] at hlog
          obtain ⟨new, hnew, hall⟩ := @ih (s'.count .globalCap n)
          refine ⟨new, ?_, hlater hall⟩
          rw [hnew, log_count, hlog]

end State

theorem mem_of_mem_tally {violations : List Violation} {line : Violation × ℕ}
    (h : line ∈ tally violations) : line.1 ∈ violations := by
  obtain ⟨v, hv, rfl⟩ := List.mem_map.mp h
  exact List.mem_dedup.mp ((List.mem_insertionSort _).mp hv)

/-- The reports the handler reads of a body of the media type. -/
def reportsRead (py : Interpreter) (media : Text) (body : List UInt8) : List Report :=
  match reports py media body with
  | .ok rs => rs.take maxReports
  | .error _ => []

/-- The endpoint reads `report` of the request's body as `v`. -/
def Request.ReadAs (py : Interpreter) (request : Request) (report : Report) (v : Violation) :
    Prop :=
  ∃ body ∈ request.body, ∃ reportFormat ∈ formats.lookup (mediaType py request.contentType),
    report ∈ reportsRead py (mediaType py request.contentType) body ∧
      violation py reportFormat report request.known = .ok v

/-! ## § What the endpoint logs -/

theorem mem_of_lookup_formats {media reportFormat : Text}
    (h : reportFormat ∈ formats.lookup media) : reportFormat ∈ formats.map Prod.snd := by
  obtain ⟨before, after, hparts, _⟩ := List.lookup_eq_some_iff.mp h
  rw [hparts, List.map_append, List.map_cons]
  exact List.mem_append_right _ (List.mem_cons_self ..)

theorem lookup_formats {media : Text} (h : media ∈ mediaTypes) :
    ∃ reportFormat, formats.lookup media = some reportFormat := by
  simp only [mediaTypes, List.mem_cons, List.not_mem_nil, or_false] at h
  rcases h with rfl | rfl
  · exact ⟨_, rfl⟩
  · exact ⟨codes "reports+json", by decide +kernel⟩

theorem returns_logReports (hpy : py.Documented) (s : State) {media : Text}
    (hmedia : media ∈ mediaTypes) (body : List UInt8) :
    Returns (logReports py s media body known) fun s' =>
      ∃ new, violationLines s'.log = violationLines s.log ++ new ∧
        ∀ line ∈ new, line.1.page ≠ foreign ∧ ∃ reportFormat ∈ formats.lookup media,
          ∃ report ∈ reportsRead py media body,
            violation py reportFormat report known = .ok line.1 := by
  obtain ⟨reportFormat, hlookup⟩ := lookup_formats hmedia
  have hformat := mem_of_lookup_formats hlookup
  refine (returns_reports hpy media body).bind fun rs hrs _ => ?_
  have hread : reportsRead py media body = rs.take maxReports := by rw [reportsRead, hrs]
  simp only [hlookup]
  refine (Returns.mapM fun report _ => ?_).bind fun violations _ hviolations => .ok ?_
  · exact (returns_violation hpy hformat report).mono fun _ _ => trivial
  set counted := if maxReports < rs.length then
    s.count .batchCap (rs.length - maxReports) else s with hcounted
  set foreigners := violations.countP fun v => v.page = foreign
  have hlog : (if foreigners ≠ 0 then counted.count .foreign foreigners else counted).log =
      s.log := by
    split_ifs <;> simp [hcounted] <;> split_ifs <;> simp
  obtain ⟨new, hnew, hall⟩ := @State.violationLines_logFound (tally violations)
    (if foreigners ≠ 0 then counted.count .foreign foreigners else counted)
  refine ⟨new, ?_, fun line hline => ?_⟩
  · rw [State.violationLines_flushDrops, hnew, hlog]
  · obtain ⟨hfound, hpage⟩ := hall line hline
    obtain ⟨report, hreport, hv⟩ := hviolations _ (mem_of_mem_tally hfound)
    exact ⟨hpage, reportFormat, rfl, report, hread ▸ hreport, hv⟩

/-- **The endpoint returns**, and a line it logs is one of the body's reports', of a page
not foreign. -/
theorem returns_report (hpy : py.Documented) (s : State) (request : Request) :
    Returns (report py s request) fun answer =>
      ∃ new, violationLines answer.2.log = violationLines s.log ++ new ∧
        ∀ line ∈ new, line.1.page ≠ foreign ∧ ∃ report, request.ReadAs py report line.1 := by
  have hsame : ∀ {response : Response} {s' : State},
      violationLines s'.log = violationLines s.log →
      Returns (.ok (response, s') : Except Exn (Response × State)) fun answer =>
        ∃ new, violationLines answer.2.log = violationLines s.log ++ new ∧
          ∀ line ∈ new, line.1.page ≠ foreign ∧ ∃ report, request.ReadAs py report line.1 :=
    fun h => .ok ⟨[], by rw [h, List.append_nil], by simp⟩
  simp only [report]
  refine .ite (fun _ => hsame rfl) fun hmedia => ?_
  refine .ite (fun _ => hsame (by simp)) fun _ => ?_
  refine .ite (fun _ => hsame (by simp)) fun _ => ?_
  cases request.charged with
  | error summary => exact hsame (by simp)
  | ok hits =>
      refine .ite (fun _ => hsame (by simp)) fun _ => ?_
      cases hbody : request.body with
      | none => exact hsame (by simp)
      | some body =>
          refine (returns_logReports hpy s (not_not.mp hmedia) body).bind fun s' _ hs' => .ok ?_
          obtain ⟨new, hnew, hall⟩ := hs'
          refine ⟨new, hnew, fun line hline => ?_⟩
          obtain ⟨hpage, reportFormat, hlookup, report, hreport, hv⟩ := hall line hline
          exact ⟨hpage, report, body, hbody, reportFormat, hlookup, hreport, hv⟩

/-- **The violation log is closed.** No body of either media type makes the reading raise;
the fields of every line logged are closed values; and none is logged for a page whose URL,
of at most `MAX_VALUE` characters, is of another web origin. -/
theorem violation_log_closed (hpy : py.Documented) :
    (∀ media ∈ mediaTypes, ∀ body known, ∃ rs, reports py media body = .ok rs ∧
      ∀ reportFormat ∈ formats.lookup media, ∀ report ∈ rs,
        ∃ v, violation py reportFormat report known = .ok v) ∧
    ∀ (s : State) (request : Request), ∃ response s', report py s request = .ok (response, s') ∧
      ∃ new, violationLines s'.log = violationLines s.log ++ new ∧
        ∀ line ∈ new, line.1.Closed ∧
          ∀ report, request.ReadAs py report line.1 →
            ∀ url, report.get "document-uri" = .text url → url.length ≤ maxValue →
              ¬ Elsewhere py request.known (.text url) := by
  constructor
  · intro media _ body known
    obtain ⟨rs, hrs, _⟩ := returns_reports hpy media body
    refine ⟨rs, hrs, fun reportFormat hformat report _ => ?_⟩
    obtain ⟨v, hv, _⟩ := @returns_violation py known hpy _ (mem_of_lookup_formats hformat) report
    exact ⟨v, hv⟩
  · intro s request
    obtain ⟨⟨response, s'⟩, hanswer, new, hnew, hall⟩ := returns_report hpy s request
    refine ⟨response, s', hanswer, new, hnew, fun line hline => ?_⟩
    obtain ⟨hpage, report, _, _, reportFormat, hlookup, _, hv⟩ := hall line hline
    refine ⟨((returns_violation hpy (mem_of_lookup_formats hlookup) report).of_ok hv).1 hpage, ?_⟩
    rintro other ⟨_, _, reportFormat', hlookup', _, hv'⟩ url hurl hshort helse
    have hread := (returns_violation hpy (mem_of_lookup_formats hlookup') other).of_ok hv'
    exact hpage (hread.2 url hurl hshort helse)

/-- An interpreter that reads one body, holding one report of the page at `url`. -/
def reading (body : List UInt8) (url : Text) (parts : Split) : Interpreter where
  loads given := if given = body then
    .ok (.object [(codes "csp-report", .object [(codes "document-uri", .text url)])])
    else .error .valueError
  urlsplit given := if given = url then .ok parts else .error .valueError
  ipAddress _ := .error .valueError
  lower s := s.map fun c => if 65 ≤ c ∧ c ≤ 90 then c + 32 else c

theorem reports_reading {body : List UInt8} {url : Text} {parts : Split} :
    reports (reading body url parts) legacy body = .ok [[(codes "document-uri", .text url)]] := by
  have hloads : (reading body url parts).loads body = .ok _ := if_pos rfl
  rw [reports, hloads]
  rfl

theorem urlsplit_reading {body : List UInt8} {url : Text} {parts : Split} :
    (reading body url parts).urlsplit url = .ok parts := if_pos rfl

theorem reading_documented {body : List UInt8} {url : Text} {parts : Split}
    (hport : ∀ e, parts.port ≠ .error e) : (reading body url parts).Documented where
  loads given e h := by
    simp only [reading] at h
    split_ifs at h
    exact Or.inl (Except.error.inj h).symm
  urlsplit given e h := by
    simp only [reading] at h
    split_ifs at h
    exact (Except.error.inj h).symm
  port given parts' e h herror := by
    simp only [reading] at h
    split_ifs at h
    cases h
    exact absurd herror (hport e)
  ipAddress host e h := (Except.error.inj h).symm

/-- The body of a browser's report of the page at `url`. -/
def bodyOf (url : Text) : List UInt8 :=
  (codes "\x7b\"csp-report\":\x7b\"document-uri\":\"" ++ url ++ codes "\"\x7d\x7d").map
    fun c => UInt8.ofNat c

/-- A report of the page at `url`, to an app on `https://app.example`. -/
def posted (url : Text) : Request where
  contentType := some legacy
  secFetchSite := some (codes "same-origin")
  busy := false
  charged := .ok 1
  body := some (bodyOf url)
  known := ⟨some (codes "https", codes "app.example", 443), none, none⟩

/-- A page of the app. -/
def ownUrl : Text := codes "https://app.example/en/booking"

def ownReader : Interpreter := reading (bodyOf ownUrl) ownUrl
  ⟨codes "https", codes "/en/booking", some (codes "app.example"), .ok none⟩

theorem own_page_logged_closed :
    ∃ answer, report ownReader (State.init fun _ => 0) (posted ownUrl) = .ok answer ∧
      (violationLines answer.2.log).map (fun line => line.1.page) = [codes "/[locale]/booking"] ∧
      ∀ line ∈ violationLines answer.2.log, line.1.Closed := by
  obtain ⟨response, s', hanswer, new, hnew, hall⟩ :=
    (@violation_log_closed ownReader (reading_documented fun e => nofun)).2
      (State.init fun _ => 0) (posted ownUrl)
  have hpages : (report ownReader (State.init fun _ => 0) (posted ownUrl)).toOption.map
      (fun answer => (violationLines answer.2.log).map fun line => line.1.page) =
        some [codes "/[locale]/booking"] := by
    decide +kernel
  rw [hanswer] at hpages
  refine ⟨_, hanswer, Option.some.inj hpages, fun line hline => (hall line ?_).1⟩
  rwa [hnew] at hline

/-- What is read of a report that names a page and nothing else, its URL too long. -/
def overlongViolation : Violation :=
  ⟨codes "csp-report", otherText, codes "unknown", otherText, codes "none", codes "none"⟩

theorem violation_of_overlong {url : Text} (h : maxValue < url.length) :
    violation py (codes "csp-report") [(codes "document-uri", .text url)] known =
      .ok overlongViolation := by
  have hpage : pageTemplate py (.text url) known = .ok otherText := by
    rw [pageTemplate, split, if_pos h]
    rfl
  have hget : Report.get [(codes "document-uri", .text url)] "document-uri" = .text url := rfl
  rw [violation, hget, hpage]
  rfl

/-- The state once such a report was logged. -/
def overlongLogged : State :=
  ((State.init fun _ => 0).logFound (tally [overlongViolation])).flushDrops false

theorem report_overlong {url : Text} {parts : Split} (h : maxValue < url.length) :
    report (reading (bodyOf url) url parts) (State.init fun _ => 0) (posted url) =
      .ok (.noContent, overlongLogged) := by
  have hlogs : logReports (reading (bodyOf url) url parts) (State.init fun _ => 0) legacy
      (bodyOf url) (posted url).known = .ok overlongLogged := by
    rw [logReports, reports_reading]
    show (([[(codes "document-uri", Json.text url)]].mapM fun report =>
      violation (reading (bodyOf url) url parts) (codes "csp-report") report (posted url).known) >>=
        _) = _
    rw [List.mapM_cons, violation_of_overlong h]
    rfl
  show (logReports (reading (bodyOf url) url parts) (State.init fun _ => 0) legacy
    (bodyOf url) (posted url).known >>= _) = _
  rw [hlogs]
  rfl

/-- A page of `https://evil.example`. -/
def evilPath : Text := slash :: List.replicate 5000 'x'.toNat

def evilUrl : Text := codes "https://evil.example" ++ evilPath

def evilParts : Split := ⟨codes "https", evilPath, some (codes "evil.example"), .ok none⟩

def evilReader : Interpreter := reading (bodyOf evilUrl) evilUrl evilParts

/-- **Another origin's page is logged** when its URL is too long to be read: as `other`. -/
theorem overlong_page_logged : evilReader.Documented ∧
    (bodyOf evilUrl).length ≤ 64 * 1024 ∧
    ∃ v s', report evilReader (State.init fun _ => 0) (posted evilUrl) = .ok (.noContent, s') ∧
      violationLines s'.log = [(v, 1)] ∧
      (posted evilUrl).ReadAs evilReader [(codes "document-uri", .text evilUrl)] v ∧
      Elsewhere evilReader (posted evilUrl).known (.text evilUrl) := by
  have hlong : maxValue < evilUrl.length := by decide +kernel
  refine ⟨reading_documented fun e => nofun, by decide +kernel, overlongViolation, overlongLogged,
    report_overlong hlong, by decide +kernel, ⟨_, rfl, _, rfl, ?_, violation_of_overlong hlong⟩,
    evilUrl, evilParts, _, rfl, ?_, rfl, by decide⟩
  · show _ ∈ reportsRead evilReader legacy (bodyOf evilUrl)
    rw [reportsRead, evilReader, reports_reading]
    exact List.mem_cons_self ..
  · have hends : evilUrl = 'h'.toNat :: (codes "ttps://evil.example" ++
        slash :: List.replicate 4999 'x'.toNat ++ ['x'.toNat]) := by
      rw [evilUrl, evilPath, List.replicate_succ', ← List.cons_append, ← List.append_assoc]
      rfl
    have hstrip : strip isSpace evilUrl = evilUrl := by
      rw [hends]
      exact strip_eq_self (by decide) (by decide)
    rw [hstrip]
    exact urlsplit_reading

end Ziftbook.Csp
