import Mathlib.Data.List.DropRight
import Ziftbook.Foundation.Numerals

/-!
# Octets as URL-safe characters

Base 64: three octets are four characters, and what is left over two or three, padded. The
padding can be left off and put back. Reading is lenient: it passes over what is no character
of the alphabet, and takes either alphabet's two last.
-/

namespace Foundation

/-! ## § Writing -/

/-- Six bits as a character. -/
def sextetChar (n : ℕ) : Char :=
  if n < 26 then Char.ofNat (n + 65)
  else if n < 52 then Char.ofNat (n + 71)
  else if n < 62 then Char.ofNat (n - 4)
  else if n = 62 then '-' else '_'

/-- Octets, six bits at a time. -/
def sextets : List ℕ → List ℕ
  | [] => []
  | [a] => [a / 4, a % 4 * 16]
  | [a, b] => [a / 4, a % 4 * 16 + b / 16, b % 16 * 4]
  | a :: b :: c :: octets =>
      (a / 4) :: (a % 4 * 16 + b / 16) :: (b % 16 * 4 + c / 64) :: (c % 64) :: sextets octets

/-- What makes it whole fours. -/
def padding (cs : List Char) : List Char := List.replicate ((4 - cs.length % 4) % 4) '='

/-- `urlsafe_b64encode`. -/
def encode64 (octets : List ℕ) : List Char :=
  let cs := (sextets octets).map sextetChar
  cs ++ padding cs

/-- `rstrip("=")`. -/
def unpadded (cs : List Char) : List Char := cs.rdropWhile (· = '=')

/-! ## § Reading -/

/-- A character's six bits, of the alphabet for URLs or the other. -/
def charSextet (c : Char) : Option ℕ :=
  if 'A' ≤ c ∧ c ≤ 'Z' then some (c.toNat - 65)
  else if 'a' ≤ c ∧ c ≤ 'z' then some (c.toNat - 71)
  else if '0' ≤ c ∧ c ≤ '9' then some (c.toNat + 4)
  else if c = '-' ∨ c = '+' then some 62
  else if c = '_' ∨ c = '/' then some 63
  else none

/-- From the place among four characters, the bits left over there, and the padding since. -/
def decodeFrom : ℕ → ℕ → ℕ → List Char → Option (List ℕ)
  | place, _, _, [] => if place = 0 then some [] else none
  | place, left, pads, c :: cs =>
      if c = '=' then
        if place < 2 then decodeFrom place left pads cs
        else if 4 ≤ place + (pads + 1) then some []
        else decodeFrom place left (pads + 1) cs
      else
        match charSextet c with
        | none => decodeFrom place left pads cs
        | some v =>
            if place = 0 then decodeFrom 1 v 0 cs
            else if place = 1 then (decodeFrom 2 (v % 16) 0 cs).map ((left * 4 + v / 16) :: ·)
            else if place = 2 then (decodeFrom 3 (v % 4) 0 cs).map ((left * 16 + v / 4) :: ·)
            else (decodeFrom 0 0 0 cs).map ((left * 64 + v) :: ·)

/-- `urlsafe_b64decode`; nothing is made of characters that are not ASCII. -/
def decode64 (cs : List Char) : Option (List ℕ) :=
  if ∀ c ∈ cs, c.toNat < 128 then decodeFrom 0 0 0 cs else none

/-! ## § Round trip -/

variable {octets : List ℕ} {cs : List Char} {n place left pads : ℕ}

theorem charSextet_sextetChar (h : n < 64) : charSextet (sextetChar n) = some n := by
  revert h
  decide +revert

theorem sextetChar_ne (h : n < 64) : sextetChar n ≠ '=' := by
  revert h
  decide +revert

theorem sextetChar_ascii (h : n < 64) : (sextetChar n).toNat < 128 := by
  revert h
  decide +revert

theorem sextets_lt (h : ∀ o ∈ octets, o < 256) : ∀ n ∈ sextets octets, n < 64 := by
  induction octets using sextets.induct with
  | case1 => intro n hn; cases hn
  | case2 a =>
      have ha := h a (by simp)
      simp only [sextets, List.forall_mem_cons, List.not_mem_nil, IsEmpty.forall_iff,
        implies_true, and_true]
      omega
  | case3 a b =>
      have ha := h a (by simp)
      have hb := h b (by simp)
      simp only [sextets, List.forall_mem_cons, List.not_mem_nil, IsEmpty.forall_iff,
        implies_true, and_true]
      omega
  | case4 a b c octets ih =>
      have ha := h a (by simp)
      have hb := h b (by simp)
      have hc := h c (by simp)
      simp only [sextets, List.forall_mem_cons]
      refine ⟨by omega, by omega, by omega, by omega, ih fun o ho => h o ?_⟩
      exact List.mem_cons_of_mem _ (List.mem_cons_of_mem _ (List.mem_cons_of_mem _ ho))

theorem length_sextets : (sextets octets).length = (4 * octets.length + 2) / 3 := by
  induction octets using sextets.induct with
  | case1 => rfl
  | case2 a => simp [sextets]
  | case3 a b => simp [sextets]
  | case4 a b c octets ih =>
      simp only [sextets, List.length_cons, ih]
      omega

/-- A character of six bits, read at its place. -/
theorem decodeFrom_sextetChar (h : n < 64) :
    decodeFrom place left pads (sextetChar n :: cs) =
      if place = 0 then decodeFrom 1 n 0 cs
      else if place = 1 then (decodeFrom 2 (n % 16) 0 cs).map ((left * 4 + n / 16) :: ·)
      else if place = 2 then (decodeFrom 3 (n % 4) 0 cs).map ((left * 16 + n / 4) :: ·)
      else (decodeFrom 0 0 0 cs).map ((left * 64 + n) :: ·) := by
  rw [decodeFrom, if_neg (sextetChar_ne h), charSextet_sextetChar h]

theorem padding_cons4 {a b c d : Char} : padding (a :: b :: c :: d :: cs) = padding cs := by
  unfold padding
  simp only [List.length_cons]
  congr 2
  omega

theorem decodeFrom_sextets (h : ∀ o ∈ octets, o < 256) :
    decodeFrom 0 0 0 ((sextets octets).map sextetChar ++
      padding ((sextets octets).map sextetChar)) = some octets := by
  have hlt := sextets_lt h
  induction octets using sextets.induct with
  | case1 => rfl
  | case2 a =>
      simp only [sextets, List.forall_mem_cons] at hlt
      simp only [sextets, List.map_cons, List.map_nil, List.cons_append, List.nil_append]
      rw [decodeFrom_sextetChar hlt.1, if_pos rfl, decodeFrom_sextetChar hlt.2.1,
        if_neg one_ne_zero, if_pos rfl]
      show some [a / 4 * 4 + a % 4 * 16 / 16] = some [a]
      congr 2
      omega
  | case3 a b =>
      have hb := h b (by simp)
      simp only [sextets, List.forall_mem_cons] at hlt
      simp only [sextets, List.map_cons, List.map_nil, List.cons_append, List.nil_append]
      rw [decodeFrom_sextetChar hlt.1, if_pos rfl, decodeFrom_sextetChar hlt.2.1,
        if_neg one_ne_zero, if_pos rfl, decodeFrom_sextetChar hlt.2.2.1, if_neg two_ne_zero,
        if_neg (by decide), if_pos rfl]
      show some [a / 4 * 4 + (a % 4 * 16 + b / 16) / 16,
        (a % 4 * 16 + b / 16) % 16 * 16 + b % 16 * 4 / 4] = some [a, b]
      congr 2
      · omega
      · congr 1
        omega
  | case4 a b c octets ih =>
      have hb := h b (by simp)
      have hc := h c (by simp)
      have hrest : ∀ o ∈ octets, o < 256 := fun o ho =>
        h o (List.mem_cons_of_mem _ (List.mem_cons_of_mem _ (List.mem_cons_of_mem _ ho)))
      simp only [sextets, List.forall_mem_cons] at hlt
      simp only [sextets, List.map_cons, List.cons_append, padding_cons4]
      rw [decodeFrom_sextetChar hlt.1, if_pos rfl, decodeFrom_sextetChar hlt.2.1,
        if_neg one_ne_zero, if_pos rfl, decodeFrom_sextetChar hlt.2.2.1, if_neg two_ne_zero,
        if_neg (by decide), if_pos rfl, decodeFrom_sextetChar hlt.2.2.2.1, if_neg (by decide),
        if_neg (by decide), if_neg (by decide), ih hrest hlt.2.2.2.2]
      simp only [Option.map_some, Option.some.injEq, List.cons.injEq, and_true]
      omega

theorem unpadded_encode64 (h : ∀ o ∈ octets, o < 256) :
    unpadded (encode64 octets) = (sextets octets).map sextetChar := by
  have hpadding : ∀ (cs : List Char) (k : ℕ), unpadded (cs ++ List.replicate k '=') =
      unpadded cs := by
    intro cs k
    induction k with
    | zero => rw [List.replicate_zero, List.append_nil]
    | succ k ih =>
        rw [List.replicate_succ', ← List.append_assoc, unpadded,
          List.rdropWhile_concat_pos _ _ _ (by decide)]
        exact ih
  rw [encode64, padding, hpadding]
  refine List.rdropWhile_eq_self_iff.mpr fun hne heq => ?_
  obtain ⟨n, hn, hchar⟩ := List.mem_map.mp (List.getLast_mem hne)
  exact sextetChar_ne (sextets_lt h n hn) (hchar.trans (of_decide_eq_true heq))

/-- **Octets written, their padding left off and put back, are read as they were.** -/
theorem decode64_unpadded (h : ∀ o ∈ octets, o < 256) :
    decode64 (unpadded (encode64 octets) ++ padding (unpadded (encode64 octets))) =
      some octets := by
  rw [unpadded_encode64 h, decode64, if_pos, decodeFrom_sextets h]
  intro c hc
  rcases List.mem_append.mp hc with hc | hc
  · obtain ⟨n, hn, rfl⟩ := List.mem_map.mp hc
    exact sextetChar_ascii (sextets_lt h n hn)
  · rw [List.eq_of_mem_replicate hc]
    decide

theorem length_unpadded (h : ∀ o ∈ octets, o < 256) :
    (unpadded (encode64 octets)).length = (4 * octets.length + 2) / 3 := by
  rw [unpadded_encode64 h, List.length_map, length_sextets]

end Foundation
