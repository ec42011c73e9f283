import Ziftbook.Foundation.Numerals
import Ziftbook.Foundation.Utf8

/-!
# Queries of names and values

The form `application/x-www-form-urlencoded`: any text read as a list of names and
values, and such a list written. What is written reads back, and a value set is the
value read.
-/

namespace Foundation.Urlencoded

abbrev Params := List (List Char × List Char)

/-! ## § Writing -/

/-- Octets that stand for themselves. -/
def plain (c : Char) : Prop := c.isAlphanum = true ∨ c ∈ ['*', '-', '.', '_']

instance : DecidablePred plain := fun _ => inferInstanceAs (Decidable (_ ∨ _))

def hexDigit (n : ℕ) : Char := (Nat.digitChar n).toUpper

def writeOctet (b : UInt8) : List Char :=
  if b.toNat = 32 then ['+']
  else if plain (Char.ofNat b.toNat) then [Char.ofNat b.toNat]
  else ['%', hexDigit (b.toNat / 16), hexDigit (b.toNat % 16)]

def write (cs : List Char) : List Char := (encode cs).flatMap writeOctet

def serialize (ps : Params) : List Char :=
  ['&'].intercalate (ps.map fun p => write p.1 ++ '=' :: write p.2)

/-! ## § Reading -/

/-- `%` and two hexadecimal digits are one octet. -/
def percentDecode : List UInt8 → List UInt8
  | b :: h :: l :: bs =>
      let high := digitOf (Char.ofNat h.toNat)
      let low := digitOf (Char.ofNat l.toNat)
      if b.toNat = '%'.toNat ∧ high < 16 ∧ low < 16 then
        UInt8.ofNat (16 * high + low) :: percentDecode bs
      else b :: percentDecode (h :: l :: bs)
  | bs => bs

def blank (c : Char) : Char := if c = '+' then ' ' else c

def read (cs : List Char) : List Char := lossy (percentDecode (encode (cs.map blank)))

/-- The name before the first `=`, and the value behind it. -/
def readPair (cs : List Char) : List Char × List Char :=
  (read (cs.takeWhile (· ≠ '=')), read (cs.dropWhile (· ≠ '=')).tail)

/-- The names and values of a query, with or without its `?`. -/
def parse (query : List Char) : Params :=
  let cs := match query with
    | '?' :: cs => cs
    | cs => cs
  ((cs.splitOn '&').filter (· ≠ [])).map readPair

/-! ## § A list of names and values -/

/-- `get`: the first value of the name. -/
def get (ps : Params) (name : List Char) : Option (List Char) := ps.lookup name

/-- `set`: the name's first value becomes this one and its others go, or it is added. -/
def set (name value : List Char) : Params → Params
  | [] => [(name, value)]
  | p :: ps =>
      if p.1 = name then (name, value) :: ps.filter (·.1 ≠ name) else p :: set name value ps

@[simp] theorem get_nil (name : List Char) : get [] name = none := rfl

theorem get_cons (p : List Char × List Char) (ps : Params) (name : List Char) :
    get (p :: ps) name = if name = p.1 then some p.2 else get ps name := by
  obtain ⟨n, v⟩ := p
  by_cases hname : name = n
  · rw [get, List.lookup_cons, if_pos hname, hname, beq_self_eq_true]
  · rw [get, List.lookup_cons, if_neg hname, beq_eq_false_iff_ne.mpr hname]
    rfl

theorem get_filter {ps : Params} {name name' : List Char} (h : name' ≠ name) :
    get (ps.filter (·.1 ≠ name)) name' = get ps name' := by
  induction ps with
  | nil => rfl
  | cons p ps ih =>
      by_cases hp : p.1 = name
      · rw [List.filter_cons_of_neg (by simpa using hp), ih, get_cons, if_neg (hp ▸ h)]
      · rw [List.filter_cons_of_pos (by simpa using hp), get_cons, get_cons, ih]

/-- **A value set is read**, and no other changes. -/
theorem get_set (name value : List Char) (ps : Params) (name' : List Char) :
    get (set name value ps) name' = if name' = name then some value else get ps name' := by
  induction ps with
  | nil => exact get_cons ..
  | cons p ps ih =>
      by_cases hp : p.1 = name
      · rw [set, if_pos hp, get_cons, get_cons]
        by_cases hname : name' = name
        · rw [if_pos hname, if_pos hname]
        · rw [if_neg hname, if_neg hname, if_neg (hp ▸ hname), get_filter hname]
      · rw [set, if_neg hp, get_cons, get_cons, ih]
        by_cases hname : name' = name
        · rw [if_pos hname, if_pos hname, if_neg (hname ▸ fun h => hp h.symm)]
        · rw [if_neg hname, if_neg hname]

/-! ## § What is written reads back -/

/-- The marks of a query. -/
def marks : List Char := ['+', '%', '&', '=', '#', '?', ' ']

theorem hexDigit_spec {n : ℕ} (h : n < 16) : digitOf (hexDigit n) = n ∧ (hexDigit n).toNat < 128 ∧
    hexDigit n ∉ marks := by
  have hall : ∀ n < 16, digitOf (hexDigit n) = n ∧ (hexDigit n).toNat < 128 ∧
      hexDigit n ∉ marks := by decide
  exact hall n h

theorem plain_spec {c : Char} (h : plain c) : c.toNat < 128 ∧ c ∉ marks := by
  constructor
  · rcases h with h | h
    · change ((decide (_ ∧ _) || _ && _) || _ && _) = true at h
      simp only [Bool.or_eq_true, Bool.and_eq_true, decide_eq_true_eq] at h
      have hval : c.toNat = c.val.toNat := rfl
      simp only [UInt32.le_iff_toNat_le, ge_iff_le] at h
      rw [hval]
      rcases h with (⟨_, h⟩ | ⟨_, h⟩) | ⟨_, h⟩
      all_goals exact lt_of_le_of_lt h (by decide)
    · revert c
      decide
  · intro hmem
    have hnone : ∀ c ∈ marks, ¬ plain c := by decide
    exact hnone c hmem h

/-- An octet of another kind than a mark is read as it stands. -/
theorem percentDecode_cons {b : UInt8} (h : b.toNat ≠ '%'.toNat) (bs : List UInt8) :
    percentDecode (b :: bs) = b :: percentDecode bs := by
  match bs with
  | [] => rfl
  | [_] => rfl
  | h' :: l :: bs =>
      rw [percentDecode]
      exact if_neg fun hmark => h hmark.1

theorem percentDecode_hex (b : UInt8) (bs : List UInt8) :
    percentDecode (UInt8.ofNat '%'.toNat :: UInt8.ofNat (hexDigit (b.toNat / 16)).toNat ::
      UInt8.ofNat (hexDigit (b.toNat % 16)).toNat :: bs) = b :: percentDecode bs := by
  have hb : b.toNat < 256 := UInt8.toNat_lt_size b
  obtain ⟨hhigh, hhigh', _⟩ := @hexDigit_spec (b.toNat / 16) (by omega)
  obtain ⟨hlow, hlow', _⟩ := @hexDigit_spec (b.toNat % 16) (by omega)
  have hascii : ∀ {c : Char}, c.toNat < 128 → Char.ofNat (UInt8.ofNat c.toNat).toNat = c := by
    intro c hc
    have hnat : (UInt8.ofNat c.toNat).toNat = c.toNat := by
      rw [UInt8.toNat_ofNat']
      omega
    rw [hnat, Char.ofNat_toNat]
  rw [percentDecode]
  simp only [hascii hhigh', hascii hlow', hhigh, hlow]
  rw [if_pos ⟨by decide, by omega, by omega⟩, Nat.div_add_mod, UInt8.ofNat_toNat]

theorem blank_of_not_mem {c : Char} (h : c ∉ marks) : blank c = c := by
  refine if_neg ?_
  rintro rfl
  exact h (by decide)

/-- By cases on how the octet is written. -/
theorem percentDecode_writeOctet (b : UInt8) (cs : List Char) :
    percentDecode (encode ((writeOctet b).map blank ++ cs)) = b :: percentDecode (encode cs) := by
  have hb : b.toNat < 256 := UInt8.toNat_lt_size b
  unfold writeOctet
  split_ifs with hspace hplain
  · have heq : b = UInt8.ofNat ' '.toNat := by
      rw [← UInt8.ofNat_toNat (x := b), hspace]
      rfl
    show percentDecode (encode (' ' :: cs)) = _
    rw [encode_cons, encode_ascii (by decide), heq, List.singleton_append]
    exact percentDecode_cons (by decide) _
  · obtain ⟨hascii, hmark⟩ := plain_spec hplain
    have hnat : (Char.ofNat b.toNat).toNat = b.toNat := by
      rw [Char.ofNat, dif_pos (Or.inl (by omega))]
      rfl
    rw [List.map_singleton, blank_of_not_mem hmark, List.singleton_append, encode_cons,
      encode_ascii hascii, hnat, UInt8.ofNat_toNat, List.singleton_append]
    refine percentDecode_cons (fun heq => hmark ?_) _
    rw [heq]
    decide
  · obtain ⟨_, hhigh, hhigh'⟩ := @hexDigit_spec (b.toNat / 16) (by omega)
    obtain ⟨_, hlow, hlow'⟩ := @hexDigit_spec (b.toNat % 16) (by omega)
    simp only [List.map_cons, List.map_nil, blank_of_not_mem hhigh', blank_of_not_mem hlow']
    show percentDecode
      (encode ('%' :: hexDigit (b.toNat / 16) :: hexDigit (b.toNat % 16) :: cs)) = _
    rw [encode_cons, encode_cons (hexDigit (b.toNat / 16)), encode_cons (hexDigit (b.toNat % 16)),
      encode_ascii hhigh, encode_ascii hlow, encode_ascii (by decide)]
    exact percentDecode_hex b (encode cs)

theorem read_write (cs : List Char) : read (write cs) = cs := by
  have hoctets : ∀ bytes : List UInt8,
      percentDecode (encode ((bytes.flatMap writeOctet).map blank)) = bytes := by
    intro bytes
    induction bytes with
    | nil => rfl
    | cons b bytes ih =>
        rw [List.flatMap_cons, List.map_append, percentDecode_writeOctet, ih]
  rw [read, write, hoctets, lossy_encode]

/-- What separates names and values is in none of them. -/
theorem not_mem_write {c : Char} (hc : c ∈ ['&', '=', '#', '?']) (cs : List Char) :
    c ∉ write cs := by
  intro hmem
  have hall : ∀ c ∈ ['&', '=', '#', '?'], c ∈ marks := by decide
  have hmark := hall c hc
  obtain ⟨b, _, hmem⟩ := List.mem_flatMap.mp hmem
  have hb : b.toNat < 256 := UInt8.toNat_lt_size b
  unfold writeOctet at hmem
  split_ifs at hmem with hspace hplain
  · rw [List.mem_singleton.mp hmem] at hc
    revert hc
    decide
  · rw [List.mem_singleton.mp hmem] at hmark
    exact (plain_spec hplain).2 hmark
  · rcases List.mem_cons.mp hmem with rfl | hmem
    · revert hc
      decide
    rcases List.mem_cons.mp hmem with rfl | hmem
    · exact (@hexDigit_spec (b.toNat / 16) (by omega)).2.2 hmark
    · rw [List.mem_singleton.mp hmem] at hmark
      exact (@hexDigit_spec (b.toNat % 16) (by omega)).2.2 hmark

theorem readPair_write (name value : List Char) :
    readPair (write name ++ '=' :: write value) = (name, value) := by
  have hname : ∀ c ∈ write name, decide (c ≠ '=') = true := fun c hc =>
    decide_eq_true fun heq => not_mem_write (by decide) name (heq ▸ hc)
  rw [readPair, List.takeWhile_append_of_pos hname, List.dropWhile_append_of_pos hname,
    List.takeWhile_cons_of_neg (by simp), List.dropWhile_cons_of_neg (by simp), List.append_nil,
    List.tail_cons, read_write, read_write]

/-- A query written has no `?` and no `#` in it. -/
theorem not_mem_serialize {c : Char} (hc : c ∈ ['#', '?']) (ps : Params) : c ∉ serialize ps := by
  have hmarks : ∀ c ∈ ['#', '?'], c ∈ ['&', '=', '#', '?'] ∧ c ≠ '=' ∧ c ≠ '&' := by decide
  obtain ⟨hmark, heq, hamp⟩ := hmarks c hc
  have hpair : ∀ p : List Char × List Char, c ∉ write p.1 ++ '=' :: write p.2 := by
    intro p hmem
    rcases List.mem_append.mp hmem with hmem | hmem
    · exact not_mem_write hmark p.1 hmem
    · exact not_mem_write hmark p.2 ((List.mem_cons.mp hmem).resolve_left heq)
  induction ps with
  | nil => exact List.not_mem_nil
  | cons p ps ih =>
      intro hmem
      cases ps with
      | nil =>
          rw [serialize, List.map_singleton, List.intercalate_singleton] at hmem
          exact hpair p hmem
      | cons q ps =>
          rw [serialize, List.map_cons, List.map_cons, List.intercalate_cons_cons] at hmem
          rcases List.mem_append.mp hmem with hmem | hmem
          · rcases List.mem_append.mp hmem with hmem | hmem
            · exact hpair p hmem
            · exact hamp (List.mem_singleton.mp hmem)
          · exact ih hmem

theorem parse_of_not_mem {query : List Char} (h : '?' ∉ query) :
    parse query = ((query.splitOn '&').filter (· ≠ [])).map readPair := by
  unfold parse
  split
  · exact absurd (List.mem_cons_self ..) h
  · rfl

/-- With its `?` the query is the same. -/
theorem parse_question {query : List Char} (h : '?' ∉ query) :
    parse ('?' :: query) = parse query := (parse_of_not_mem h).symm

/-- **What is written reads back.** -/
theorem parse_serialize (ps : Params) : parse (serialize ps) = ps := by
  rw [parse_of_not_mem (not_mem_serialize (by decide) ps)]
  by_cases hps : ps = []
  · rw [hps]
    rfl
  have hamp : ∀ l ∈ ps.map fun p => write p.1 ++ '=' :: write p.2, '&' ∉ l := by
    intro l hl hmem
    obtain ⟨p, _, rfl⟩ := List.mem_map.mp hl
    rcases List.mem_append.mp hmem with hmem | hmem
    · exact not_mem_write (by decide) p.1 hmem
    · rcases List.mem_cons.mp hmem with heq | hmem
      · exact absurd heq (by decide)
      · exact not_mem_write (by decide) p.2 hmem
  rw [serialize, List.splitOn_intercalate '&' hamp (by simpa using hps),
    List.filter_eq_self.mpr, List.map_map]
  · exact (List.map_congr_left fun p _ => readPair_write p.1 p.2).trans (List.map_id _)
  · intro l hl
    obtain ⟨p, _, rfl⟩ := List.mem_map.mp hl
    simp

end Foundation.Urlencoded
