import Mathlib.Tactic

/-!
# Texts as octets

A text encoded in UTF-8, and read back, also with a replacement for every part that is
not of a character. A character of ASCII is one octet, and no other character's octets
hold it.
-/

namespace Foundation

def encode (cs : List Char) : List UInt8 := cs.flatMap String.utf8EncodeChar

/-- Nothing, when the octets are not of characters. -/
def decode (bytes : List UInt8) : Option (List Char) :=
  bytes.toByteArray.utf8Decode?.map Array.toList

@[simp] theorem encode_nil : encode [] = [] := rfl

@[simp] theorem encode_append (cs ds : List Char) : encode (cs ++ ds) = encode cs ++ encode ds :=
  List.flatMap_append

theorem encode_cons (c : Char) (cs : List Char) : encode (c :: cs) = encode [c] ++ encode cs :=
  encode_append [c] cs

theorem decode_encode (cs : List Char) : decode (encode cs) = some cs := by
  have hdecode : (encode cs).toByteArray.utf8Decode? = some cs.toArray :=
    List.utf8Decode?_utf8Encode
  rw [decode, hdecode]
  rfl

theorem length_encode_singleton (c : Char) : (encode [c]).length = c.utf8Size := by
  rw [encode, List.flatMap_singleton, String.length_utf8EncodeChar]

theorem encode_ne_nil {c : Char} {cs : List Char} : encode (c :: cs) ≠ [] := by
  intro h
  have hlen := congrArg List.length h
  rw [encode_cons, List.length_append, length_encode_singleton, List.length_nil] at hlen
  have hpos := c.utf8Size_pos
  omega

/-- **An octet of ASCII is that character's.** -/
theorem eq_of_mem_utf8EncodeChar {c d : Char} (hc : c.toNat < 128)
    (h : UInt8.ofNat c.toNat ∈ String.utf8EncodeChar d) : d = c := by
  have hsame : ∀ n < 256, UInt8.ofNat c.toNat = UInt8.ofNat n → n = c.toNat := by
    intro n hn heq
    have hnat := congrArg UInt8.toNat heq
    rw [UInt8.toNat_ofNat', UInt8.toNat_ofNat'] at hnat
    omega
  -- the octets of any other are 128 or more
  have hlead : ∀ n < 256, 128 ≤ n → UInt8.ofNat c.toNat ≠ UInt8.ofNat n := by
    intro n hn hle heq
    have hnat := hsame n hn heq
    omega
  unfold String.utf8EncodeChar at h
  simp only at h
  split_ifs at h with hone htwo hthree
  · have hlt : d.toNat < 256 := Nat.lt_of_le_of_lt hone (by decide)
    exact Char.toNat_inj.mp (hsame _ hlt (List.mem_singleton.mp h))
  all_goals
    simp only [List.mem_cons, List.not_mem_nil, or_false] at h
    exfalso
  · rcases h with h | h
    · exact hlead _ (by omega) (by omega) h
    · exact hlead _ (by omega) (by omega) h
  · rcases h with h | h | h
    · exact hlead _ (by omega) (by omega) h
    · exact hlead _ (by omega) (by omega) h
    · exact hlead _ (by omega) (by omega) h
  · rcases h with h | h | h | h
    · exact hlead _ (by omega) (by omega) h
    · exact hlead _ (by omega) (by omega) h
    · exact hlead _ (by omega) (by omega) h
    · exact hlead _ (by omega) (by omega) h

theorem not_mem_encode {c : Char} (hc : c.toNat < 128) {cs : List Char} (h : c ∉ cs) :
    UInt8.ofNat c.toNat ∉ encode cs := by
  intro hmem
  obtain ⟨d, hd, hin⟩ := List.mem_flatMap.mp hmem
  exact h (eq_of_mem_utf8EncodeChar hc hin ▸ hd)

theorem encode_ascii {c : Char} (hc : c.toNat < 128) : encode [c] = [UInt8.ofNat c.toNat] := by
  have hone : c.val.toNat ≤ 0x7f := Nat.le_of_lt_succ hc
  rw [encode, List.flatMap_singleton, String.utf8EncodeChar]
  exact if_pos hone

/-! ## § Octets that may be of no text -/

/-- A character begun: how many octets it still wants, the least and the greatest that
the next may be, and its number so far. -/
structure Owed where
  owed : ℕ
  least : ℕ
  greatest : ℕ
  point : ℕ

/-- U+FFFD. -/
def replacement : Char := Char.ofNat 0xFFFD

/-- What a first octet is: a character, or the beginning of one. -/
def lead (b : ℕ) : List Char × Option Owed :=
  if b ≤ 0x7F then ([Char.ofNat b], none)
  else if 0xC2 ≤ b ∧ b ≤ 0xDF then ([], some ⟨1, 0x80, 0xBF, b % 0x20⟩)
  else if 0xE0 ≤ b ∧ b ≤ 0xEF then
    ([], some ⟨2, if b = 0xE0 then 0xA0 else 0x80, if b = 0xED then 0x9F else 0xBF, b % 0x10⟩)
  else if 0xF0 ≤ b ∧ b ≤ 0xF4 then
    ([], some ⟨3, if b = 0xF0 then 0x90 else 0x80, if b = 0xF4 then 0x8F else 0xBF, b % 8⟩)
  else ([replacement], none)

/-- One octet more. One that does not go on with the character begun ends it, and is a
first octet itself. -/
def utf8Step (state : Option Owed) (b : ℕ) : List Char × Option Owed :=
  match state with
  | none => lead b
  | some s =>
      if s.least ≤ b ∧ b ≤ s.greatest then
        let point := s.point * 64 + b % 64
        if s.owed = 1 then ([Char.ofNat point], none)
        else ([], some ⟨s.owed - 1, 0x80, 0xBF, point⟩)
      else (replacement :: (lead b).1, (lead b).2)

def lossyFrom : Option Owed → List UInt8 → List Char
  | none, [] => []
  | some _, [] => [replacement]
  | state, b :: bs => (utf8Step state b.toNat).1 ++ lossyFrom (utf8Step state b.toNat).2 bs

/-- The text of the octets, with a replacement for each part that is not of a character. -/
def lossy (bytes : List UInt8) : List Char := lossyFrom none bytes

theorem lossyFrom_cons {state next : Option Owed} {n : ℕ} {out : List Char} (hn : n < 256)
    (h : utf8Step state n = (out, next)) (bs : List UInt8) :
    lossyFrom state (UInt8.ofNat n :: bs) = out ++ lossyFrom next bs := by
  have hnat : (UInt8.ofNat n).toNat = n := by
    rw [UInt8.toNat_ofNat']
    omega
  rw [lossyFrom, hnat, h]

/-- A character's octets after the first. -/
theorem lossyFrom_more {k lo hi p n : ℕ} (hn : n < 256) (h : lo ≤ n ∧ n ≤ hi) (bs : List UInt8) :
    lossyFrom (some ⟨k + 2, lo, hi, p⟩) (UInt8.ofNat n :: bs) =
      lossyFrom (some ⟨k + 1, 0x80, 0xBF, p * 64 + n % 64⟩) bs := by
  have hstep : utf8Step (some ⟨k + 2, lo, hi, p⟩) n =
      ([], some ⟨k + 1, 0x80, 0xBF, p * 64 + n % 64⟩) := by
    rw [utf8Step, if_pos h]
    rfl
  rw [lossyFrom_cons hn hstep, List.nil_append]

theorem lossyFrom_last {lo hi p n : ℕ} (hn : n < 256) (h : lo ≤ n ∧ n ≤ hi) (bs : List UInt8) :
    lossyFrom (some ⟨1, lo, hi, p⟩) (UInt8.ofNat n :: bs) =
      Char.ofNat (p * 64 + n % 64) :: lossyFrom none bs := by
  have hstep : utf8Step (some ⟨1, lo, hi, p⟩) n = ([Char.ofNat (p * 64 + n % 64)], none) := by
    rw [utf8Step, if_pos h]
    rfl
  rw [lossyFrom_cons hn hstep, List.singleton_append]

/-- The first octet of two, of three and of four. -/
theorem lossyFrom_two {n : ℕ} (h : 0xC2 ≤ n) (h' : n ≤ 0xDF) (bs : List UInt8) :
    lossyFrom none (UInt8.ofNat n :: bs) = lossyFrom (some ⟨1, 0x80, 0xBF, n % 0x20⟩) bs := by
  have hstep : utf8Step none n = ([], some ⟨1, 0x80, 0xBF, n % 0x20⟩) := by
    rw [utf8Step, lead, if_neg (by omega), if_pos ⟨h, h'⟩]
  rw [lossyFrom_cons (by omega) hstep, List.nil_append]

theorem lossyFrom_three {n : ℕ} (h : 0xE0 ≤ n) (h' : n ≤ 0xEF) (bs : List UInt8) :
    lossyFrom none (UInt8.ofNat n :: bs) = lossyFrom (some ⟨2, if n = 0xE0 then 0xA0 else 0x80,
      if n = 0xED then 0x9F else 0xBF, n % 0x10⟩) bs := by
  have hstep : utf8Step none n = ([], some ⟨2, if n = 0xE0 then 0xA0 else 0x80,
      if n = 0xED then 0x9F else 0xBF, n % 0x10⟩) := by
    rw [utf8Step, lead, if_neg (by omega), if_neg (by omega), if_pos ⟨h, h'⟩]
  rw [lossyFrom_cons (by omega) hstep, List.nil_append]

theorem lossyFrom_four {n : ℕ} (h : 0xF0 ≤ n) (h' : n ≤ 0xF4) (bs : List UInt8) :
    lossyFrom none (UInt8.ofNat n :: bs) = lossyFrom (some ⟨3, if n = 0xF0 then 0x90 else 0x80,
      if n = 0xF4 then 0x8F else 0xBF, n % 8⟩) bs := by
  have hstep : utf8Step none n = ([], some ⟨3, if n = 0xF0 then 0x90 else 0x80,
      if n = 0xF4 then 0x8F else 0xBF, n % 8⟩) := by
    rw [utf8Step, lead, if_neg (by omega), if_neg (by omega), if_neg (by omega), if_pos ⟨h, h'⟩]
  rw [lossyFrom_cons (by omega) hstep, List.nil_append]

/-- By cases on how many octets the character is. -/
theorem lossyFrom_encode_singleton (c : Char) (bs : List UInt8) :
    lossyFrom none (encode [c] ++ bs) = c :: lossyFrom none bs := by
  have hvalid : c.toNat < 0xD800 ∨ 0xDFFF < c.toNat ∧ c.toNat < 0x110000 := c.valid
  have hsame : ∀ p, p = c.toNat → Char.ofNat p :: lossyFrom none bs = c :: lossyFrom none bs := by
    rintro p rfl
    rw [Char.ofNat_toNat]
  have hoctets : encode [c] = String.utf8EncodeChar c := by
    rw [encode, List.flatMap_singleton]
  rw [hoctets]
  unfold String.utf8EncodeChar
  simp only [Char.toNat_val]
  generalize c.toNat = v at *
  split_ifs with hone htwo hthree
  · have hstep : utf8Step none v = ([Char.ofNat v], none) := if_pos hone
    rw [List.singleton_append, lossyFrom_cons (by omega) hstep]
    exact hsame v rfl
  · simp only [List.cons_append, List.nil_append]
    rw [lossyFrom_two (by omega) (by omega), lossyFrom_last (by omega) (by omega)]
    exact hsame _ (by omega)
  · simp only [List.cons_append, List.nil_append]
    rw [lossyFrom_three (by omega) (by omega), lossyFrom_more (by omega) (by split_ifs <;> omega),
      lossyFrom_last (by omega) (by omega)]
    exact hsame _ (by omega)
  · simp only [List.cons_append, List.nil_append]
    rw [lossyFrom_four (by omega) (by omega), lossyFrom_more (by omega) (by split_ifs <;> omega),
      lossyFrom_more (by omega) (by omega), lossyFrom_last (by omega) (by omega)]
    exact hsame _ (by omega)

theorem lossy_encode (cs : List Char) : lossy (encode cs) = cs := by
  induction cs with
  | nil => rfl
  | cons c cs ih =>
      rw [lossy] at ih ⊢
      rw [encode_cons, lossyFrom_encode_singleton, ih]

end Foundation
