import Mathlib.Data.List.MinMax
import Ziftbook.Foundation.Returns
import Ziftbook.Foundation.Words

/-!
# Pages and resources of a violation report

The classifiers of `app/csp_reports.py`: a page's URL is read as a route template, a blocked
or source URL as a category. A text is the list of its code points, lone surrogates
included. What `json`, `urllib` and `ipaddress` make of a text, and lower case beyond it,
are parameters.
-/

namespace Ziftbook.Csp

open Foundation

abbrev Text := List ℕ

scoped instance : LawfulBEq Text := inferInstance

def codes (s : String) : Text := s.toList.map Char.toNat

/-- A value as `json.loads` returns it. -/
inductive Json
  | null
  | bool (value : Bool)
  | number (literal : Text)
  | text (value : Text)
  | array (items : List Json)
  | object (members : List (Text × Json))

/-- What the code below could raise. -/
inductive Exn
  | valueError | recursionError | indexError | keyError | other
deriving DecidableEq, Repr

/-- `SplitResult`'s fields and properties that are read; reading `port` may raise. -/
structure Split where
  scheme : Text
  path : Text
  hostname : Option Text
  port : Except Exn (Option ℕ)

/-- The library functions called on what a client sends. -/
structure Interpreter where
  loads : List UInt8 → Except Exn Json
  urlsplit : Text → Except Exn Split
  ipAddress : Text → Except Exn Unit
  lower : Text → Text

/-- What they are documented to raise. -/
structure Interpreter.Documented (py : Interpreter) : Prop where
  loads : ∀ body e, py.loads body = .error e → e = .valueError ∨ e = .recursionError
  urlsplit : ∀ url e, py.urlsplit url = .error e → e = .valueError
  port : ∀ url parts e, py.urlsplit url = .ok parts → parts.port = .error e → e = .valueError
  ipAddress : ∀ host e, py.ipAddress host = .error e → e = .valueError

/-! ## § Tables -/

/-- The route template of every page. -/
def pages : List Text := [
  "/[locale]", "/[locale]/account/contact-email", "/[locale]/admin", "/[locale]/admin/sign-in",
  "/[locale]/booking", "/[locale]/calendar", "/[locale]/clients", "/[locale]/forgot-password",
  "/[locale]/invite", "/[locale]/my-hours", "/[locale]/my-hours/time-off",
  "/[locale]/opening-hours", "/[locale]/privacy", "/[locale]/reset-password",
  "/[locale]/services", "/[locale]/services/new", "/[locale]/services/[serviceId]",
  "/[locale]/settings", "/[locale]/setup", "/[locale]/sign-in", "/[locale]/sign-up",
  "/[locale]/sign-up/complete", "/[locale]/team", "/[locale]/team/[memberId]",
  "/[locale]/team/[memberId]/time-off", "/[locale]/terms", "/[locale]/[slug]",
  "/[locale]/[slug]/book"].map codes

def slash : ℕ := '/'.toNat

/-- `segment.startswith("[")`. -/
def dynamic (segment : Text) : Bool := segment.head? = some '['.toNat

/-- `_TEMPLATES`. -/
def templates : List (List Text) := pages.map fun template => (template.splitOn slash).drop 2

/-- `_LITERAL_FIRST`: a first segment some page spells out. -/
def literalFirst : List Text := (templates.filterMap List.head?).filter fun s => ¬ dynamic s

def locales : List Text := ["en", "nl", "pt"].map codes

/-- `MAX_VALUE`: longer strings are not read at all. -/
def maxValue : ℕ := 4096

def directives : List Text := ["base-uri", "block-all-mixed-content", "child-src", "connect-src",
  "default-src", "fenced-frame-src", "font-src", "form-action", "frame-ancestors", "frame-src",
  "img-src", "manifest-src", "media-src", "object-src", "require-trusted-types-for", "sandbox",
  "script-src", "script-src-attr", "script-src-elem", "style-src", "style-src-attr",
  "style-src-elem", "trusted-types", "upgrade-insecure-requests", "worker-src"].map codes

def dispositions : List Text := ["enforce", "report"].map codes

/-- What browsers write in place of a URL. -/
def keywords : List Text :=
  ["inline", "eval", "wasm-eval", "trusted-types-policy", "trusted-types-sink", "self"].map codes

/-- The schemes reported by name alone. -/
def schemes : List Text := ["data", "blob", "filesystem", "about"].map codes

def extensions : List Text := ["chrome-extension", "moz-extension", "safari-web-extension",
  "safari-extension", "ms-browser-extension"].map codes

/-- The third parties the pages use, by registrable domain. -/
def providers : List (Text × Text) := [("stripe.com", "stripe"), ("stripe.network", "stripe"),
  ("stripecdn.com", "stripe"), ("link.com", "link"), ("cloudflare.com", "cloudflare"),
  ("hcaptcha.com", "hcaptcha")].map fun p => (codes p.1, codes p.2)

def categories : List Text := keywords ++ schemes ++ providers.map Prod.snd ++
  ["media", "upload", "extension", "external", "ip-address", "other", "none"].map codes

/-- `_WEB`: of a web scheme, the one its origin has and its default port. -/
def web : List (Text × Text × ℕ) := [("http", "http", 80), ("https", "https", 443),
  ("ws", "http", 80), ("wss", "https", 443)].map fun w => (codes w.1, codes w.2.1, w.2.2)

/-! ## § Origins -/

abbrev Origin := Text × Text × ℕ

/-- The origins a URL is compared with: the app's own, the media and upload stores'. -/
structure Known where
  app : Option Origin
  media : Option Origin
  upload : Option Origin

/-- What `str.strip` and `str.split` take for a blank. -/
def isSpace (c : ℕ) : Bool :=
  9 ≤ c ∧ c ≤ 13 ∨ 28 ≤ c ∧ c ≤ 32 ∨ 8192 ≤ c ∧ c ≤ 8202 ∨
    c ∈ [133, 160, 5760, 8232, 8233, 8239, 8287, 12288]

/-- `_split`'s `try` block. -/
def splitUrl (py : Interpreter) (url : Text) : Except Exn (Option Split) := do
  let parts ← py.urlsplit (strip isSpace url)
  let _ ← parts.port
  .ok (some parts)

/-- `_split`. -/
def split (py : Interpreter) : Json → Except Exn (Option Split)
  | .text value =>
      if maxValue < value.length then .ok none
      else handling (fun e => e = .valueError) (splitUrl py value) (.ok none)
  | _ => .ok none

/-- `parts.port or default`: no port, and the port 0, are the default. -/
def portOr (port : Option ℕ) (default : ℕ) : ℕ :=
  match port with
  | some (n + 1) => n + 1
  | _ => default

/-- `_origin`. -/
def origin (parts : Split) : Except Exn (Option Origin) :=
  match web.lookup parts.scheme, parts.hostname with
  | some (scheme, default), some host =>
      if host = [] then .ok none
      else do
        let port ← parts.port
        .ok (some (scheme, host, portOr port default))
  | _, _ => .ok none

/-! ## § Pages -/

def isAlnum (c : ℕ) : Prop := 48 ≤ c ∧ c ≤ 57 ∨ 65 ≤ c ∧ c ≤ 90 ∨ 97 ≤ c ∧ c ≤ 122

def isSlugCode (c : ℕ) : Prop := 48 ≤ c ∧ c ≤ 57 ∨ 97 ≤ c ∧ c ≤ 122

instance (c : ℕ) : Decidable (isAlnum c) := inferInstanceAs (Decidable (_ ∨ _))

instance (c : ℕ) : Decidable (isSlugCode c) := inferInstanceAs (Decidable (_ ∨ _))

/-- `_ID.fullmatch`. -/
def matchesId (s : Text) : Bool :=
  1 ≤ s.length ∧ s.length ≤ 64 ∧ ∀ c ∈ s, isAlnum c ∨ c = '-'.toNat

/-- `SLUG.fullmatch`. -/
def matchesSlug (s : Text) : Bool :=
  ∀ part ∈ s.splitOn '-'.toNat, part ≠ [] ∧ ∀ c ∈ part, isSlugCode c

/-- `_segment_matches`. -/
def segmentMatches (py : Interpreter) (segment pattern : Text) : Bool :=
  if pattern = codes "[slug]" then
    (∀ c ∈ segment, c < 128) ∧ segment.length ≤ 40 ∧ py.lower segment ∉ literalFirst ∧
      matchesSlug (py.lower segment) = true
  else if dynamic pattern then matchesId segment
  else segment = pattern

/-- `all(map(_segment_matches, rest, template, strict=True))`: a length that differs is met
at the end of the shorter. -/
def allMatch (py : Interpreter) : List Text → List Text → Except Exn Bool
  | [], [] => .ok true
  | segment :: rest, pattern :: template =>
      if segmentMatches py segment pattern then allMatch py rest template else .ok false
  | _, _ => .error .valueError

/-- `min(matches, key=…)`: the first with the fewest dynamic segments. -/
def leastDynamic (found : List (List Text)) : Except Exn (List Text) :=
  match found.argmin fun t => (t.filter fun s => dynamic s).length with
  | some best => .ok best
  | none => .error .valueError

def otherText : Text := codes "other"

def foreign : Text := codes "foreign"

/-- `"/".join(("", "[locale]", *best))`. -/
def joinTemplate (best : List Text) : Text :=
  [slash].intercalate ([] :: codes "[locale]" :: best)

/-- `page_template` from the segments of a path of the app's own. -/
def templateOf (py : Interpreter) : List Text → Except Exn Text
  | [] => .ok otherText
  | locale :: rest =>
      if locale ∉ locales then .ok otherText
      else do
        let found ← templates.filterM fun template =>
          if template.length = rest.length then allMatch py rest template else .ok false
        if found = [] then .ok otherText
        else
          let best ← leastDynamic found
          .ok (joinTemplate best)

/-- `page_template`. -/
def pageTemplate (py : Interpreter) (value : Json) (known : Known) : Except Exn Text := do
  match ← split py value with
  | none => .ok otherText
  | some parts =>
      match ← origin parts with
      | none => .ok otherText
      | some o =>
          if some o ≠ known.app then .ok foreign
          else templateOf py ((parts.path.splitOn slash).filter fun s => s ≠ [])

/-! ## § Resources -/

/-- `host.removesuffix(".")`. -/
def withoutDot (host : Text) : Text :=
  if host.getLast? = some '.'.toNat then host.dropLast else host

/-- `_provider`. -/
def provider (host : Text) : Option Text :=
  (providers.find? fun p => withoutDot host = p.1 ∨ '.'.toNat :: p.1 <:+ withoutDot host).map
    Prod.snd

/-- `resource_class` of a URL's parts. -/
def classOf (py : Interpreter) (parts : Split) (known : Known) : Except Exn Text :=
  if parts.scheme ∈ schemes then .ok parts.scheme
  else if parts.scheme ∈ extensions then .ok (codes "extension")
  else do
    match ← origin parts with
    | none => .ok otherText
    | some o =>
        if some o = known.app then .ok (codes "self")
        else if some o = known.media then .ok (codes "media")
        else if some o = known.upload then .ok (codes "upload")
        else
          handling (fun e => e = .valueError) ((py.ipAddress o.2.1).map fun _ => codes "ip-address")
            (.ok ((provider o.2.1).getD (codes "external")))

/-- `resource_class`. -/
def resourceClass (py : Interpreter) (value : Json) (known : Known) : Except Exn Text :=
  match value with
  | .null => .ok (codes "none")
  | .text url =>
      if url = [] then .ok (codes "none")
      else if maxValue < url.length then .ok otherText
      else
        let word := py.lower (strip isSpace url)
        if word ∈ keywords ∨ word ∈ schemes then .ok word
        else do
          match ← split py value with
          | none => .ok otherText
          | some parts => classOf py parts known
  | _ => .ok otherText

/-! ## § What they return -/

variable {py : Interpreter} {known : Known}

theorem splitUrl_eq_ok {url : Text} {parts : Option Split} : splitUrl py url = .ok parts ↔
    ∃ p, py.urlsplit (strip isSpace url) = .ok p ∧ (∃ port, p.port = .ok port) ∧
      some p = parts := by
  simp [splitUrl, bind_ok_iff]

theorem valueError_of_splitUrl (hpy : py.Documented) {url : Text} {e : Exn}
    (h : splitUrl py url = .error e) : e = .valueError := by
  rcases bind_error_iff.mp h with hsplit | ⟨parts, hsplit, h⟩
  · exact hpy.urlsplit _ _ hsplit
  · rcases bind_error_iff.mp h with hport | ⟨_, _, h⟩
    · exact hpy.port _ _ _ hsplit hport
    · cases h

/-- Of the parts `_split` returns the port can be read. -/
theorem returns_split (hpy : py.Documented) (value : Json) :
    Returns (split py value) fun parts => ∀ p ∈ parts, ∃ port, p.port = .ok port := by
  cases value with
  | text url =>
      refine .ite (fun _ => .ok (by simp)) fun _ => .handling ?_ ?_ (.ok (by simp))
      · intro e he
        simpa using valueError_of_splitUrl hpy he
      · intro parts hparts p hp
        obtain ⟨p', _, hport, rfl⟩ := splitUrl_eq_ok.mp hparts
        exact Option.some.inj hp ▸ hport
  | _ => exact .ok (by simp)

theorem returns_origin {parts : Split} (h : ∃ port, parts.port = .ok port) :
    Returns (origin parts) fun _ => True := by
  obtain ⟨port, hport⟩ := h
  unfold origin
  split
  · refine .ite (fun _ => .ok trivial) fun _ => ?_
    rw [hport]
    exact .ok trivial
  · exact .ok trivial

/-- On as many segments as the template has, nothing is raised. -/
theorem returns_allMatch {rest template : List Text} (h : template.length = rest.length) :
    Returns (allMatch py rest template) fun _ => True := by
  induction rest generalizing template with
  | nil =>
      rw [List.length_eq_zero_iff.mp h]
      exact .ok trivial
  | cons segment rest ih =>
      cases template with
      | nil => cases h
      | cons pattern template =>
          exact .ite (fun _ => ih (Nat.succ.inj h)) fun _ => .ok trivial

theorem returns_leastDynamic {found : List (List Text)} (h : found ≠ []) :
    Returns (leastDynamic found) fun best => best ∈ found := by
  unfold leastDynamic
  split
  · rename_i best hbest
    exact .ok (List.argmin_mem hbest)
  · rename_i hnone
    exact absurd (List.argmin_eq_none.mp hnone) h

/-- A template put together again is the page it was cut from. -/
theorem joinTemplate_mem : ∀ template ∈ templates, joinTemplate template ∈ pages := by
  decide +kernel

theorem returns_templateOf (segments : List Text) :
    Returns (templateOf py segments) fun page => page ∈ pages ∨ page = otherText := by
  cases segments with
  | nil => exact .ok (Or.inr rfl)
  | cons locale rest =>
      refine .ite (fun _ => .ok (Or.inr rfl)) fun _ => ?_
      refine (Returns.filterM fun template _ => ?_).bind fun found _ hfound => ?_
      · exact .ite returns_allMatch fun _ => .ok trivial
      · refine .ite (fun _ => .ok (Or.inr rfl)) fun hne => ?_
        refine (returns_leastDynamic hne).bind fun best _ hbest => ?_
        exact .ok (Or.inl (joinTemplate_mem best (hfound best hbest)))

/-- **A page is one of the templates, other or foreign.** -/
theorem returns_pageTemplate (hpy : py.Documented) (value : Json) :
    Returns (pageTemplate py value known) fun page =>
      page ∈ pages ∨ page = otherText ∨ page = foreign := by
  refine (returns_split hpy value).bind fun parts _ hport => ?_
  cases parts with
  | none => exact .ok (Or.inr (Or.inl rfl))
  | some parts =>
      refine (returns_origin (hport parts rfl)).bind fun o _ _ => ?_
      cases o with
      | none => exact .ok (Or.inr (Or.inl rfl))
      | some o =>
          refine .ite (fun _ => .ok (Or.inr (Or.inr rfl))) fun _ => ?_
          exact (returns_templateOf _).mono fun page h => h.imp_right Or.inl

theorem provider_mem {host name : Text} (h : provider host = some name) : name ∈ categories := by
  obtain ⟨p, hp, rfl⟩ := Option.map_eq_some_iff.mp h
  refine List.mem_append_left _ (List.mem_append_right _ ?_)
  exact List.mem_map_of_mem (List.mem_of_find?_eq_some hp)

theorem scheme_mem {scheme : Text} (h : scheme ∈ schemes) : scheme ∈ categories :=
  List.mem_append_left _ (List.mem_append_left _ (List.mem_append_right _ h))

theorem keyword_mem {word : Text} (h : word ∈ keywords) : word ∈ categories :=
  List.mem_append_left _ (List.mem_append_left _ (List.mem_append_left _ h))

/-- The words written for a resource that is nobody's own. -/
theorem words_mem : ∀ word ∈ ["media", "upload", "extension", "external", "ip-address", "other",
    "none", "self"].map codes, word ∈ categories := by
  decide +kernel

theorem returns_classOf (hpy : py.Documented) {parts : Split}
    (hport : ∃ port, parts.port = .ok port) :
    Returns (classOf py parts known) fun category => category ∈ categories := by
  refine .ite (fun h => .ok (scheme_mem h)) fun _ => ?_
  refine .ite (fun _ => .ok (words_mem _ (by simp))) fun _ => ?_
  refine (returns_origin hport).bind fun o _ _ => ?_
  cases o with
  | none => exact .ok (words_mem _ (by simp [otherText]))
  | some o =>
      refine .ite (fun _ => .ok (words_mem _ (by simp))) fun _ => ?_
      refine .ite (fun _ => .ok (words_mem _ (by simp))) fun _ => ?_
      refine .ite (fun _ => .ok (words_mem _ (by simp))) fun _ => .handling ?_ ?_ (.ok ?_)
      · intro e he
        cases haddress : py.ipAddress o.2.1 with
        | error e' =>
            rw [haddress] at he
            cases he
            simpa using hpy.ipAddress _ _ haddress
        | ok _ =>
            rw [haddress] at he
            cases he
      · intro category hcategory
        cases haddress : py.ipAddress o.2.1 with
        | error e' =>
            rw [haddress] at hcategory
            cases hcategory
        | ok _ =>
            rw [haddress] at hcategory
            cases hcategory
            exact words_mem _ (by simp)
      · cases hprovider : provider o.2.1 with
        | none => exact words_mem _ (by simp)
        | some name => exact provider_mem hprovider

/-- **A resource is one of the categories.** -/
theorem returns_resourceClass (hpy : py.Documented) (value : Json) :
    Returns (resourceClass py value known) fun category => category ∈ categories := by
  cases value with
  | null => exact .ok (words_mem _ (by simp))
  | text url =>
      refine .ite (fun _ => .ok (words_mem _ (by simp))) fun _ => ?_
      refine .ite (fun _ => .ok (words_mem _ (by simp [otherText]))) fun _ => ?_
      refine .ite (fun h => .ok (h.elim keyword_mem scheme_mem)) fun _ => ?_
      refine (returns_split hpy _).bind fun parts _ hport => ?_
      cases parts with
      | none => exact .ok (words_mem _ (by simp [otherText]))
      | some parts => exact returns_classOf hpy (hport parts rfl)
  | _ => exact .ok (words_mem _ (by simp [otherText]))

/-! ## § Pages of another origin -/

/-- The value is a URL of another web origin than the app's, as `urllib` reads it. -/
def Elsewhere (py : Interpreter) (known : Known) (value : Json) : Prop :=
  ∃ url parts o, value = .text url ∧ py.urlsplit (strip isSpace url) = .ok parts ∧
    origin parts = .ok (some o) ∧ some o ≠ known.app

/-- Of a web origin the port was read. -/
theorem port_of_origin {parts : Split} {o : Origin} (h : origin parts = .ok (some o)) :
    ∃ port, parts.port = .ok port := by
  unfold origin at h
  split at h
  · split_ifs at h
    · cases h
    · obtain ⟨port, hport, _⟩ := bind_ok_iff.mp h
      exact ⟨port, hport⟩
  · cases h

/-- **A page elsewhere is foreign**, when its URL is short enough to be read. -/
theorem pageTemplate_of_elsewhere {url : Text} (h : Elsewhere py known (.text url))
    (hshort : url.length ≤ maxValue) : pageTemplate py (.text url) known = .ok foreign := by
  obtain ⟨url', parts, o, heq, hsplit, horigin, hne⟩ := h
  cases heq
  have hread : split py (.text url) = .ok (some parts) := by
    have hurl : splitUrl py url = .ok (some parts) :=
      splitUrl_eq_ok.mpr ⟨parts, hsplit, port_of_origin horigin, rfl⟩
    rw [split, if_neg (not_lt.mpr hshort), hurl]
    rfl
  rw [pageTemplate, hread]
  simp only [bind, Except.bind, horigin]
  exact if_pos hne

end Ziftbook.Csp
