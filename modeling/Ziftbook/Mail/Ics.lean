import Ziftbook.Foundation.Lines
import Ziftbook.Foundation.Utf8
import Ziftbook.Mail.Texts

/-!
# The calendar attachment

`ics` of `app/mail.py`, as octets. A calendar client unfolds its lines and
unescapes the summary; what it reads is the summary on one line a break, whatever
the summary holds.
-/

namespace Ziftbook

open Foundation

namespace Ics

/-! ## § Escaping -/

/-- `_ICS_CONTROL_CHARS`. -/
def controlChars (c : Char) : Bool :=
  c.toNat ≤ 0x09 || c.toNat = 0x0b || c.toNat = 0x0c || (0x0e ≤ c.toNat && c.toNat ≤ 0x1f) ||
    c.toNat = 0x7f || (0x80 ≤ c.toNat && c.toNat ≤ 0x9f) || c.toNat = 0x2028 || c.toNat = 0x2029

/-- `replace` of one character. -/
def replace (old : Char) (new : List Char) (value : List Char) : List Char :=
  value.flatMap fun c => if c = old then new else [c]

/-- `replace` of `\r\n`. -/
def replaceCrlf (new : List Char) : List Char → List Char
  | x :: y :: rest =>
      if x = '\r' ∧ y = '\n' then new ++ replaceCrlf new rest
      else x :: replaceCrlf new (y :: rest)
  | rest => rest

def escape (value : List Char) : List Char :=
  let value := value.map fun c => if controlChars c then ' ' else c
  let value := replace ',' ['\\', ','] (replace ';' ['\\', ';'] (replace '\\' ['\\', '\\'] value))
  replace '\r' ['\\', 'n'] (replace '\n' ['\\', 'n'] (replaceCrlf ['\\', 'n'] value))

/-! ## § Folding -/

/-- `%Y%m%dT%H%M%SZ`. -/
def stamp (time : Stamp) : List Char :=
  numeral 10 4 time.year ++ numeral 10 2 time.month ++ numeral 10 2 time.day ++
    'T' :: (numeral 10 2 time.hour ++ numeral 10 2 time.minute ++ numeral 10 2 time.second ++
      ['Z'])

/-- What the loop of `fold` carries. -/
structure Folding where
  parts : List (List UInt8)
  chunk : List UInt8
  budget : ℕ

def Folding.step (s : Folding) (char : Char) : Folding :=
  let piece := encode [char]
  if s.budget < s.chunk.length + piece.length then
    -- the folded line's leading space eats one octet of the next 75
    ⟨s.parts ++ [s.chunk], piece, 74⟩
  else { s with chunk := s.chunk ++ piece }

def Folding.last (s : Folding) : List (List UInt8) :=
  if s.chunk ≠ [] then s.parts ++ [s.chunk] else s.parts

/-- `fold`; a part that were no text would raise. -/
def fold (line : List Char) : Option (List Char) :=
  if (encode line).length ≤ 75 then some line
  else ((line.foldl Folding.step ⟨[], [], 75⟩).last.mapM decode).map
    ['\r', '\n', ' '].intercalate

/-- The lines, the summary escaped. -/
def properties (bookingId : Uuid) (startsAt endsAt : Stamp) (summary : List Char) (now : Stamp)
    (sequence : ℕ) : List (List Char) :=
  ["BEGIN:VCALENDAR".toList,
    "VERSION:2.0".toList,
    "PRODID:-//ziftbook//booking//EN".toList,
    "CALSCALE:GREGORIAN".toList,
    "METHOD:PUBLISH".toList,
    "BEGIN:VEVENT".toList,
    "UID:".toList ++ bookingId.str ++ "@ziftbook.com".toList,
    "SEQUENCE:".toList ++ decimal sequence,
    "DTSTAMP:".toList ++ stamp now,
    "DTSTART:".toList ++ stamp startsAt,
    "DTEND:".toList ++ stamp endsAt,
    "SUMMARY:".toList ++ summary,
    "END:VEVENT".toList,
    "END:VCALENDAR".toList]

end Ics

/-- `ics`. -/
def ics (bookingId : Uuid) (startsAt endsAt : Stamp) (summary : List Char) (now : Stamp)
    (sequence : ℕ) : Option (List UInt8) :=
  ((Ics.properties bookingId startsAt endsAt (Ics.escape summary) now sequence).mapM Ics.fold).map
    fun folded => encode (['\r', '\n'].intercalate folded ++ ['\r', '\n'])

namespace Ics

/-! ## § What a client reads -/

/-- A text value without its escapes. -/
def unescape : List Char → List Char
  | x :: y :: rest =>
      if x = '\\' then (if y = 'n' ∨ y = 'N' then '\n' else y) :: unescape rest
      else x :: unescape (y :: rest)
  | rest => rest

/-- A break, however it is written, is one line break; every other control character is a
space. -/
def plain : List Char → List Char
  | x :: y :: rest =>
      if x = '\r' ∧ y = '\n' then '\n' :: plain rest
      else (if x = '\r' then '\n' else if controlChars x then ' ' else x) :: plain (y :: rest)
  | rest => rest.map fun x => if x = '\r' then '\n' else if controlChars x then ' ' else x

/-- A space or a tab. -/
def wsp (c : Char) : Bool := c = ' ' || c = '\t'

/-- The name before the colon. -/
def propertyName (line : List Char) : List Char := line.takeWhile (· ≠ ':')

/-! ## § The summary -/

/-- How one character of a text value is written. -/
def escapeChar (c : Char) : List Char :=
  if c = '\n' then ['\\', 'n'] else if c = '\\' ∨ c = ';' ∨ c = ',' then ['\\', c] else [c]

theorem unescape_escapeChar (c : Char) (rest : List Char) :
    unescape (escapeChar c ++ rest) = c :: unescape rest := by
  unfold escapeChar
  split_ifs with hbreak hspecial
  · rw [hbreak]
    rfl
  · show unescape ('\\' :: c :: rest) = _
    rw [unescape, if_pos rfl, if_neg]
    rcases hspecial with rfl | rfl | rfl
    all_goals decide
  · have hc : c ≠ '\\' := fun h => hspecial (Or.inl h)
    cases rest with
    | nil => rfl
    | cons y rest =>
        show unescape (c :: y :: rest) = _
        rw [unescape, if_neg hc]

theorem unescape_flatMap (value : List Char) : unescape (value.flatMap escapeChar) = value := by
  induction value with
  | nil => rfl
  | cons c value ih => rw [List.flatMap_cons, unescape_escapeChar, ih]

/-- What the first three replacements write. -/
def mark (c : Char) : List Char := if c = '\\' ∨ c = ';' ∨ c = ',' then ['\\', c] else [c]

theorem replace_marks (value : List Char) :
    replace ',' ['\\', ','] (replace ';' ['\\', ';'] (replace '\\' ['\\', '\\'] value)) =
      value.flatMap mark := by
  unfold replace
  rw [List.flatMap_assoc, List.flatMap_assoc]
  refine List.flatMap_congr fun c _ => ?_
  unfold mark
  by_cases hback : c = '\\'
  · subst hback
    decide
  · by_cases hsemi : c = ';'
    · subst hsemi
      decide
    · by_cases hcomma : c = ','
      · subst hcomma
        decide
      · simp [hback, hsemi, hcomma]

/-- What the last two replacements write. -/
def breaks (value : List Char) : List Char :=
  replace '\r' ['\\', 'n'] (replace '\n' ['\\', 'n'] value)

theorem breaks_append (v w : List Char) : breaks (v ++ w) = breaks v ++ breaks w := by
  unfold breaks replace
  rw [List.flatMap_append, List.flatMap_append]

theorem replaceCrlf_cons {new : List Char} {x : Char} {rest : List Char}
    (h : x = '\r' → rest.head? ≠ some '\n') :
    replaceCrlf new (x :: rest) = x :: replaceCrlf new rest := by
  cases rest with
  | nil => rfl
  | cons y rest =>
      rw [replaceCrlf, if_neg]
      rintro ⟨hx, hy⟩
      exact h hx (congrArg some hy)

theorem replaceCrlf_append {new l : List Char} (h : '\r' ∉ l) (rest : List Char) :
    replaceCrlf new (l ++ rest) = l ++ replaceCrlf new rest := by
  induction l with
  | nil => rfl
  | cons x l ih =>
      obtain ⟨hne, hl⟩ := not_or.mp (mt List.mem_cons.mpr h)
      rw [List.cons_append, replaceCrlf_cons fun hx => absurd hx.symm hne, ih hl]
      rfl

/-- A character that is no carriage return, its control characters spaces. -/
theorem breaks_mark {c : Char} (h : c ≠ '\r') : breaks (mark c) = escapeChar c := by
  unfold mark escapeChar
  by_cases hspecial : c = '\\' ∨ c = ';' ∨ c = ','
  · rcases hspecial with rfl | rfl | rfl
    all_goals decide
  · rw [if_neg hspecial]
    unfold breaks replace
    rw [List.flatMap_singleton]
    by_cases hbreak : c = '\n'
    · subst hbreak
      decide
    · rw [if_neg hbreak, List.flatMap_singleton, if_neg h]

theorem cr_not_mem_mark {c : Char} (h : c ≠ '\r') : '\r' ∉ mark c := by
  unfold mark
  split_ifs
  · intro hmem
    rcases List.mem_pair.mp hmem with hback | hc
    · cases hback
    · exact h hc.symm
  · intro hmem
    exact h (List.mem_singleton.mp hmem).symm

/-- The first replacements of a character. -/
def cleaned (c : Char) : List Char := mark (if controlChars c then ' ' else c)

/-- **One character of the summary**, a break not cut in two. -/
theorem escape_cons {x : Char} {rest : List Char} (h : x = '\r' → rest.head? ≠ some '\n') :
    breaks (replaceCrlf ['\\', 'n'] (cleaned x ++ rest)) =
      escapeChar (if x = '\r' then '\n' else if controlChars x then ' ' else x) ++
        breaks (replaceCrlf ['\\', 'n'] rest) := by
  by_cases hx : x = '\r'
  · subst hx
    show breaks (replaceCrlf _ ('\r' :: rest)) = _
    rw [replaceCrlf_cons h]
    rfl
  · have hclean : (if controlChars x then ' ' else x) ≠ '\r' := by
      split_ifs
      · decide
      · exact hx
    rw [if_neg hx, cleaned, replaceCrlf_append (cr_not_mem_mark hclean), breaks_append,
      breaks_mark hclean]

theorem head_cleaned {y : Char} (h : y ≠ '\n') (rest : List Char) :
    (cleaned y ++ rest).head? ≠ some '\n' := by
  unfold cleaned mark
  split_ifs with hcontrol hspecial hspecial
  · show some '\\' ≠ _
    decide
  · show some ' ' ≠ _
    decide
  · show some '\\' ≠ _
    decide
  · intro heq
    exact h (Option.some.inj heq)

/-- **Escaping writes the plain text**, character by character. -/
theorem escape_eq (value : List Char) : escape value = (plain value).flatMap escapeChar := by
  have hmarks : escape value = breaks (replaceCrlf ['\\', 'n'] (value.flatMap cleaned)) := by
    unfold escape
    simp only
    rw [replace_marks, List.flatMap_map]
    rfl
  rw [hmarks]
  clear hmarks
  fun_induction plain value with
  | case1 x y rest hcrlf ih =>
      obtain ⟨rfl, rfl⟩ := hcrlf
      show breaks (['\\', 'n'] ++ replaceCrlf _ (rest.flatMap cleaned)) = _
      rw [breaks_append, ih]
      rfl
  | case2 x y rest hcrlf ih =>
      rw [List.flatMap_cons, escape_cons, ih, List.flatMap_cons]
      intro hx
      exact head_cleaned (fun hy => hcrlf ⟨hx, hy⟩) _
  | case3 rest hrest =>
      match rest with
      | [] => rfl
      | [x] =>
          have hone := @escape_cons x [] fun _ => by simp
          rw [List.append_nil] at hone
          simpa [breaks, replace, replaceCrlf] using hone
      | x :: y :: rest => exact absurd rfl (hrest x y rest)

theorem unescape_escape (value : List Char) : unescape (escape value) = plain value := by
  rw [escape_eq, unescape_flatMap]

example : escape "Cut, wash\r\n& dry".toList = "Cut\\, wash\\n& dry".toList := by decide

/-- No break and no control character is left in what is written. -/
theorem clean_plain (value : List Char) :
    ∀ c ∈ plain value, c = '\n' ∨ (c ≠ '\r' ∧ controlChars c = false) := by
  have hone : ∀ x : Char, (if x = '\r' then '\n' else if controlChars x then ' ' else x) = '\n' ∨
      ((if x = '\r' then '\n' else if controlChars x then ' ' else x) ≠ '\r' ∧
        controlChars (if x = '\r' then '\n' else if controlChars x then ' ' else x) = false) := by
    intro x
    split_ifs with hx hcontrol
    · exact Or.inl rfl
    · exact Or.inr ⟨by decide, by decide⟩
    · exact Or.inr ⟨hx, Bool.eq_false_iff.mpr hcontrol⟩
  fun_induction plain value with
  | case1 x y rest _ ih =>
      intro c hc
      rcases List.mem_cons.mp hc with rfl | hc
      · exact Or.inl rfl
      · exact ih c hc
  | case2 x y rest _ ih =>
      intro c hc
      rcases List.mem_cons.mp hc with rfl | hc
      · exact hone x
      · exact ih c hc
  | case3 rest _ =>
      intro c hc
      obtain ⟨x, _, rfl⟩ := List.mem_map.mp hc
      exact hone x

theorem clean_escape (value : List Char) :
    ∀ c ∈ escape value, c ≠ '\r' ∧ c ≠ '\n' ∧ controlChars c = false := by
  rw [escape_eq]
  intro c hc
  obtain ⟨x, hx, hc⟩ := List.mem_flatMap.mp hc
  unfold escapeChar at hc
  have hslash : '\\' ≠ '\r' ∧ '\\' ≠ '\n' ∧ controlChars '\\' = false := by decide
  split_ifs at hc with hbreak hspecial
  · rcases List.mem_pair.mp hc with rfl | rfl
    · exact hslash
    · decide
  · rcases List.mem_pair.mp hc with rfl | rfl
    · exact hslash
    · rcases hspecial with rfl | rfl | rfl
      all_goals decide
  · rw [List.mem_singleton.mp hc]
    obtain ⟨hcr, hcontrol⟩ := (clean_plain value x hx).resolve_left hbreak
    exact ⟨hcr, hbreak, hcontrol⟩

/-! ## § Folding -/

/-- The parts of a line as the lines of the text they are, each but the first with its
space. -/
def physical : List (List Char) → List (List Char)
  | [] => []
  | p :: parts => p :: parts.map (' ' :: ·)

theorem physical_concat (parts : List (List Char)) (p : List Char) :
    physical (parts ++ [p]) = physical parts ++ [if parts = [] then p else ' ' :: p] := by
  cases parts with
  | nil => rfl
  | cons q parts =>
      rw [if_neg (List.cons_ne_nil q parts)]
      show q :: (parts ++ [p]).map (' ' :: ·) = _
      rw [List.map_append]
      rfl

/-- What the loop has made of a line: whole parts, and a chunk of the next. -/
structure Folding.Of (line : List Char) (s : Folding) (parts : List (List Char))
    (chunk : List Char) : Prop where
  ended : s.parts = parts.map encode
  current : s.chunk = encode chunk
  whole : parts.flatten ++ chunk = line
  budget : s.budget = if parts = [] then 75 else 74
  fits : (encode chunk).length ≤ s.budget
  short : ∀ l ∈ physical parts, (encode l).length ≤ 75
  some : ∀ p ∈ parts, p ≠ []

theorem length_space (chunk : List Char) :
    (encode (' ' :: chunk)).length = (encode chunk).length + 1 := by
  rw [encode_cons, List.length_append, length_encode_singleton]
  exact Nat.add_comm ..

/-- A chunk ended here is a line of at most 75 octets. -/
theorem Folding.Of.short_concat {line chunk : List Char} {s : Folding}
    {parts : List (List Char)} (h : s.Of line parts chunk) :
    ∀ l ∈ physical (parts ++ [chunk]), (encode l).length ≤ 75 := by
  intro l hl
  have hfits := h.fits
  rw [h.budget] at hfits
  rw [physical_concat] at hl
  rcases List.mem_append.mp hl with hl | hl
  · exact h.short l hl
  · rw [List.mem_singleton.mp hl]
    split_ifs at hfits ⊢
    · exact hfits
    · rw [length_space]
      omega

/-- **One character of the loop.** -/
theorem Folding.Of.step {line chunk : List Char} {s : Folding} {parts : List (List Char)}
    (h : s.Of line parts chunk) (char : Char) :
    ∃ parts' chunk', (s.step char).Of (line ++ [char]) parts' chunk' := by
  have hpiece : (encode [char]).length ≤ 4 := by
    rw [length_encode_singleton]
    exact char.utf8Size_le_four
  have hbudget : 74 ≤ s.budget := by
    rw [h.budget]
    split_ifs
    all_goals decide
  have hroom : s.step char = if s.budget < (encode chunk).length + (encode [char]).length then
      ⟨s.parts ++ [s.chunk], encode [char], 74⟩
      else { s with chunk := s.chunk ++ encode [char] } := by
    rw [← h.current]
    rfl
  rw [hroom]
  split_ifs with hfull
  · -- the chunk is a part; the character begins the next
    refine ⟨parts ++ [chunk], [char], ⟨?_, rfl, ?_, ?_, ?_, h.short_concat, ?_⟩⟩
    · show s.parts ++ [s.chunk] = _
      rw [h.ended, h.current, List.map_append]
      rfl
    · rw [List.flatten_append, List.flatten_singleton, h.whole]
    · rw [if_neg (by simp)]
    · show _ ≤ 74
      omega
    · intro p hp
      rcases List.mem_append.mp hp with hp | hp
      · exact h.some p hp
      · rw [List.mem_singleton.mp hp]
        rintro rfl
        rw [encode_nil, List.length_nil] at hfull
        omega
  · refine ⟨parts, chunk ++ [char], ⟨h.ended, ?_, ?_, h.budget, ?_, h.short, h.some⟩⟩
    · show s.chunk ++ encode [char] = _
      rw [h.current, encode_append]
    · rw [← List.append_assoc, h.whole]
    · rw [encode_append, List.length_append]
      exact not_lt.mp hfull

/-- **The whole loop**, over the line from its end. -/
theorem folding_of (line : List Char) :
    ∃ parts chunk, (line.foldl Folding.step ⟨[], [], 75⟩).Of line parts chunk := by
  induction line using List.reverseRecOn with
  | nil =>
      refine ⟨[], [], ⟨rfl, rfl, rfl, rfl, by decide, ?_, ?_⟩⟩
      · intro l hl
        cases hl
      · intro p hp
        cases hp
  | append_singleton line char ih =>
      obtain ⟨parts, chunk, h⟩ := ih
      rw [List.foldl_append]
      exact h.step char

/-- Parts that put a line together, each short enough with its space. -/
structure Parts (line : List Char) (parts : List (List Char)) : Prop where
  whole : parts.flatten = line
  short : ∀ l ∈ physical parts, (encode l).length ≤ 75
  some : ∀ p ∈ parts, p ≠ []

theorem Folding.Of.last {line chunk : List Char} {s : Folding} {parts : List (List Char)}
    (h : s.Of line parts chunk) : ∃ parts', s.last = parts'.map encode ∧ Parts line parts' := by
  unfold Folding.last
  split_ifs with hchunk
  · refine ⟨parts ++ [chunk], ?_, ⟨?_, h.short_concat, ?_⟩⟩
    · rw [h.ended, h.current, List.map_append]
      rfl
    · rw [List.flatten_append, List.flatten_singleton, h.whole]
    · intro p hp
      rcases List.mem_append.mp hp with hp | hp
      · exact h.some p hp
      · rw [List.mem_singleton.mp hp]
        rintro rfl
        exact hchunk h.current
  · have hnil : chunk = [] := by
      cases hc : chunk with
      | nil => rfl
      | cons c cs =>
          rw [h.current, hc] at hchunk
          exact absurd (not_not.mp hchunk) encode_ne_nil
    refine ⟨parts, h.ended, ⟨?_, h.short, h.some⟩⟩
    rw [← h.whole, hnil, List.append_nil]

theorem mapM_decode (parts : List (List Char)) :
    (parts.map encode).mapM decode = some parts := by
  induction parts with
  | nil => rfl
  | cons p parts ih =>
      rw [List.map_cons, List.mapM_cons, decode_encode, ih]
      rfl

/-- **Folding a line** never fails, and leaves parts of it. -/
theorem fold_parts {line : List Char} (hne : line ≠ []) :
    ∃ parts, fold line = some (['\r', '\n', ' '].intercalate parts) ∧ Parts line parts := by
  unfold fold
  split_ifs with hshort
  · refine ⟨[line], ?_, ⟨?_, ?_, ?_⟩⟩
    · rw [List.intercalate_singleton]
    · exact List.flatten_singleton
    · intro l hl
      rw [List.mem_singleton.mp hl]
      exact hshort
    · intro p hp
      rw [List.mem_singleton.mp hp]
      exact hne
  · obtain ⟨parts, chunk, h⟩ := folding_of line
    obtain ⟨parts', hlast, hparts⟩ := h.last
    refine ⟨parts', ?_, hparts⟩
    rw [hlast, mapM_decode]
    rfl

/-- Every line folded. -/
theorem mapM_fold {ls : List (List Char)} (hne : ∀ l ∈ ls, l ≠ []) :
    ∃ folded : List (List (List Char)),
      ls.mapM fold = some (folded.map ['\r', '\n', ' '].intercalate) ∧
      folded.map List.flatten = ls ∧ ∀ parts ∈ folded, Parts parts.flatten parts := by
  induction ls with
  | nil => exact ⟨[], rfl, rfl, by simp⟩
  | cons l ls ih =>
      obtain ⟨parts, hfold, hparts⟩ := fold_parts (hne l List.mem_cons_self)
      obtain ⟨folded, hmap, hwhole, hall⟩ := ih fun m hm => hne m (List.mem_cons_of_mem _ hm)
      refine ⟨parts :: folded, ?_, ?_, fun ps hps => ?_⟩
      · rw [List.mapM_cons, hfold, hmap]
        rfl
      · rw [List.map_cons, hparts.whole, hwhole]
      · rcases List.mem_cons.mp hps with rfl | hps
        · rw [hparts.whole]
          exact hparts
        · exact hall ps hps

/-! ## § The attachment -/

/-- The names of the lines, in their order. -/
def propertyNames : List (List Char) :=
  ["BEGIN".toList, "VERSION".toList, "PRODID".toList, "CALSCALE".toList, "METHOD".toList,
    "BEGIN".toList, "UID".toList, "SEQUENCE".toList, "DTSTAMP".toList, "DTSTART".toList,
    "DTEND".toList, "SUMMARY".toList, "END".toList, "END".toList]

theorem map_propertyName (bookingId : Uuid) (startsAt endsAt : Stamp) (summary : List Char)
    (now : Stamp) (sequence : ℕ) :
    (properties bookingId startsAt endsAt summary now sequence).map propertyName =
      propertyNames := rfl

/-- A numeral has no carriage return. -/
theorem cr_not_mem_numeral {b : ℕ} (hb : 0 < b) (hle : b ≤ 16) (w n : ℕ) :
    '\r' ∉ numeral b w n := by
  intro hmem
  have hdigit := isNumeral_numeral hb hle '\r' hmem
  have hcr : digitOf '\r' = 16 := by decide
  omega

theorem cr_not_mem_stamp (time : Stamp) : '\r' ∉ stamp time := by
  have hdigits := cr_not_mem_numeral (b := 10) (by decide) (by decide)
  simp only [stamp, List.mem_append, List.mem_cons, hdigits, List.not_mem_nil, or_false, false_or]
  decide

theorem cr_not_mem_str (id : Uuid) : '\r' ∉ id.str := by
  have hdigits := cr_not_mem_numeral (b := 16) (by decide) (by decide) 32 id.number
  have htake : ∀ m n, '\r' ∉ ((numeral 16 32 id.number).drop m).take n :=
    fun m n hmem => hdigits (List.mem_of_mem_drop (List.mem_of_mem_take hmem))
  have hfirst : '\r' ∉ (numeral 16 32 id.number).take 8 := htake 0 8
  have hlast : '\r' ∉ (numeral 16 32 id.number).drop 20 :=
    fun hmem => hdigits (List.mem_of_mem_drop hmem)
  simp only [Uuid.str, List.mem_append, List.mem_cons, hfirst, htake, hlast, or_false, false_or]
  decide

/-- A property line begins with its name, and has no carriage return. -/
theorem line_of_properties {bookingId : Uuid} {sequence : ℕ} {startsAt endsAt now : Stamp}
    {summary : List Char} (hsummary : '\r' ∉ summary) :
    ∀ l ∈ properties bookingId startsAt endsAt summary now sequence,
      '\r' ∉ l ∧ ∃ c cs, l = c :: cs ∧ wsp c = false := by
  have hvalue : ∀ {name value : List Char}, '\r' ∉ name → '\r' ∉ value →
      '\r' ∉ name ++ value := fun hname hval hmem => (List.mem_append.mp hmem).elim hname hval
  intro l hl
  simp only [properties, List.mem_cons, List.not_mem_nil, or_false] at hl
  rcases hl with rfl | rfl | rfl | rfl | rfl | rfl | rfl | rfl | rfl | rfl | rfl | rfl | rfl | rfl
  · exact ⟨by decide, _, _, rfl, rfl⟩
  · exact ⟨by decide, _, _, rfl, rfl⟩
  · exact ⟨by decide, _, _, rfl, rfl⟩
  · exact ⟨by decide, _, _, rfl, rfl⟩
  · exact ⟨by decide, _, _, rfl, rfl⟩
  · exact ⟨by decide, _, _, rfl, rfl⟩
  · exact ⟨hvalue (hvalue (by decide) (cr_not_mem_str _)) (by decide), _, _, rfl, rfl⟩
  · exact ⟨hvalue (by decide) (not_mem_decimal (by decide) _), _, _, rfl, rfl⟩
  · exact ⟨hvalue (by decide) (cr_not_mem_stamp _), _, _, rfl, rfl⟩
  · exact ⟨hvalue (by decide) (cr_not_mem_stamp _), _, _, rfl, rfl⟩
  · exact ⟨hvalue (by decide) (cr_not_mem_stamp _), _, _, rfl, rfl⟩
  · exact ⟨hvalue (by decide) hsummary, _, _, rfl, rfl⟩
  · exact ⟨by decide, _, _, rfl, rfl⟩
  · exact ⟨by decide, _, _, rfl, rfl⟩

theorem encode_terminated (ls : List (List Char)) :
    encode (terminated '\r' '\n' ls) = terminated 13 10 (ls.map encode) := by
  induction ls with
  | nil => rfl
  | cons l ls ih =>
      rw [terminated_cons, encode_append, encode_cons, encode_cons '\n', ih, List.map_cons,
        terminated_cons]
      rfl

/-- The parts of a line without a carriage return have none. -/
theorem Parts.clean {line : List Char} {parts : List (List Char)} (h : Parts line parts)
    (hline : '\r' ∉ line) : ∀ p ∈ parts, '\r' ∉ p := by
  intro p hp hmem
  rw [← h.whole] at hline
  exact hline (List.mem_flatten.mpr ⟨p, hp, hmem⟩)

theorem Parts.begun {line cs : List Char} {c : Char} {parts : List (List Char)}
    (h : Parts line parts) (hline : line = c :: cs) (hc : wsp c = false) : Begun wsp parts := by
  have hwhole := h.whole
  have hsome := h.some
  cases parts with
  | nil =>
      rw [hline] at hwhole
      cases hwhole
  | cons p parts =>
      cases p with
      | nil => exact absurd rfl (hsome [] List.mem_cons_self)
      | cons d p =>
          rw [hline, List.flatten_cons, List.cons_append] at hwhole
          exact ⟨d, p, parts, rfl, (List.cons.inj hwhole).1 ▸ hc⟩

/-- A folded line and what follows it, as lines of the text. -/
theorem terminated_intercalate (folded : List (List (List Char)))
    (hsome : ∀ parts ∈ folded, parts ≠ []) :
    terminated '\r' '\n' (folded.map ['\r', '\n', ' '].intercalate) =
      terminated '\r' '\n' (folded.flatMap physical) := by
  induction folded with
  | nil => rfl
  | cons parts folded ih =>
      cases parts with
      | nil => exact absurd rfl (hsome [] List.mem_cons_self)
      | cons p parts =>
          rw [List.map_cons, terminated_cons, intercalate_terminated, List.flatMap_cons,
            terminated_append, ih fun ps hps => hsome ps (List.mem_cons_of_mem _ hps)]
          rfl

end Ics

/-- **The attachment is well formed and loses nothing.** Its lines are of at most 75
octets and cut no character; unfolded, they are the properties, whatever the summary, and
the value of SUMMARY, unescaped, is the summary with plain breaks and no control
characters. -/
theorem ics_lossless (bookingId : Uuid) (startsAt endsAt : Stamp) (summary : List Char)
    (now : Stamp) (sequence : ℕ) :
    ∃ attachment, ics bookingId startsAt endsAt summary now sequence = some attachment ∧
      (∀ line ∈ lines 13 10 attachment, line.length ≤ 75 ∧ (decode line).isSome) ∧
      ∃ text value, decode attachment = some text ∧
        lines '\r' '\n' (unfolded '\r' '\n' Ics.wsp text) =
          Ics.properties bookingId startsAt endsAt value now sequence ++ [[]] ∧
        (Ics.properties bookingId startsAt endsAt value now sequence).map Ics.propertyName =
          Ics.propertyNames ∧
        (∀ c ∈ value, c ≠ '\r' ∧ c ≠ '\n' ∧ Ics.controlChars c = false) ∧
        Ics.unescape value = Ics.plain summary := by
  have hclean := Ics.clean_escape summary
  have hproperties := @Ics.line_of_properties bookingId sequence startsAt endsAt now
    (Ics.escape summary) fun hcr => (hclean '\r' hcr).1 rfl
  obtain ⟨folded, hfold, hwhole, hparts⟩ := Ics.mapM_fold fun l hl => by
    obtain ⟨_, c, cs, rfl, _⟩ := hproperties l hl
    exact List.cons_ne_nil c cs
  have hline : ∀ parts ∈ folded, '\r' ∉ parts.flatten ∧ Begun Ics.wsp parts := by
    intro parts hmem
    obtain ⟨hcr, c, cs, hcons, hwsp⟩ :=
      hproperties parts.flatten (hwhole ▸ List.mem_map_of_mem hmem)
    exact ⟨hcr, (hparts parts hmem).begun hcons hwsp⟩
  have hsome : ∀ parts ∈ folded, parts ≠ [] := by
    rintro parts hmem rfl
    obtain ⟨c, l, rest, hnil, _⟩ := (hline [] hmem).2
    cases hnil
  have hclear : ∀ parts ∈ folded, ∀ p ∈ parts, '\r' ∉ p :=
    fun parts hmem => (hparts parts hmem).clean (hline parts hmem).1
  have hfolded : folded.map ['\r', '\n', ' '].intercalate ≠ [] := by
    intro hnil
    rw [List.map_eq_nil_iff.mp hnil] at hwhole
    cases hwhole
  refine ⟨encode (terminated '\r' '\n' (folded.map ['\r', '\n', ' '].intercalate)), ?_, ?_,
    _, Ics.escape summary, decode_encode _, ?_, Ics.map_propertyName .., hclean,
    Ics.unescape_escape summary⟩
  · rw [ics, hfold, Option.map_some, intercalate_append _ _ hfolded]
  · rw [Ics.terminated_intercalate folded hsome, Ics.encode_terminated, lines_terminated]
    · intro line hmem
      rcases List.mem_append.mp hmem with hmem | hmem
      · obtain ⟨l, hl, rfl⟩ := List.mem_map.mp hmem
        obtain ⟨parts, hin, hl⟩ := List.mem_flatMap.mp hl
        exact ⟨(hparts parts hin).short l hl, by rw [decode_encode]; rfl⟩
      · rw [List.mem_singleton.mp hmem]
        exact ⟨Nat.zero_le _, by rw [← encode_nil, decode_encode]; rfl⟩
    · intro line hmem
      obtain ⟨l, hl, rfl⟩ := List.mem_map.mp hmem
      obtain ⟨parts, hin, hl⟩ := List.mem_flatMap.mp hl
      refine not_mem_encode (c := '\r') (by decide) fun hcr => ?_
      cases parts with
      | nil => cases hl
      | cons p parts =>
          rcases List.mem_cons.mp hl with rfl | hl
          · exact hclear _ hin l List.mem_cons_self hcr
          · obtain ⟨q, hq, rfl⟩ := List.mem_map.mp hl
            rcases List.mem_cons.mp hcr with hspace | hcr
            · cases hspace
            · exact hclear _ hin q (List.mem_cons_of_mem _ hq) hcr
  · rw [unfolded_terminated (by decide) rfl hclear fun parts hmem => (hline parts hmem).2, hwhole,
      lines_terminated fun l hl => (hproperties l hl).1]

end Ziftbook
