import Ziftbook.Ledger.Entries

/-!
# What the ledger writes

An entry's body reads back as the entry, and keys are in the order of their times.
-/

namespace Ziftbook

open Foundation

variable {p : Python} {s rest name : List Char} {w n fuel : ℕ} {e e₁ e₂ : LedgerEntry}

/-! ## § Texts with nothing to escape -/

/-- Neither quotes nor backslashes, and none outside printable ASCII. -/
def Plain (cs : List Char) : Prop := ∀ c ∈ cs, c ≠ '"' ∧ c ≠ '\\' ∧ ' ' ≤ c ∧ c ≤ '~'

theorem Plain.append {cs ds : List Char} (h : Plain cs) (h' : Plain ds) : Plain (cs ++ ds) := by
  intro c hc
  rcases List.mem_append.mp hc with hc | hc
  · exact h c hc
  · exact h' c hc

theorem Plain.cons {c : Char} {cs : List Char} (h : c ≠ '"' ∧ c ≠ '\\' ∧ ' ' ≤ c ∧ c ≤ '~')
    (h' : Plain cs) : Plain (c :: cs) := List.forall_mem_cons.mpr ⟨h, h'⟩

theorem plain_of_isNumeral {b : ℕ} (hb : b ≤ 16) (h : IsNumeral b s) : Plain s := by
  intro c hc
  have hdigit : digitOf c < 16 := (h c hc).trans_le hb
  have hprinted : ' ' ≤ c ∧ c ≤ '~' := by
    unfold digitOf at hdigit
    split at hdigit
    · rename_i hc
      exact ⟨Char.le_trans (by decide : ' ' ≤ '0') hc.1, Char.le_trans hc.2 (by decide)⟩
    · split at hdigit
      · rename_i hc
        exact ⟨Char.le_trans (by decide : ' ' ≤ 'a') hc.1, Char.le_trans hc.2 (by decide)⟩
      · split at hdigit
        · rename_i hc
          exact ⟨Char.le_trans (by decide : ' ' ≤ 'A') hc.1, Char.le_trans hc.2 (by decide)⟩
        · exact absurd hdigit (by decide)
  refine ⟨?_, ?_, hprinted⟩
  · rintro rfl
    exact absurd hdigit (by decide)
  · rintro rfl
    exact absurd hdigit (by decide)

theorem plain_numeral {b : ℕ} (hb : 0 < b) (hle : b ≤ 16) : Plain (numeral b w n) :=
  plain_of_isNumeral hle (isNumeral_numeral hb hle)

theorem plain_str (u : Uuid) : Plain u.str := by
  have hhex : Plain (numeral 16 32 u.number) := plain_numeral (by decide) le_rfl
  have htake : ∀ i k, Plain (((numeral 16 32 u.number).drop i).take k) :=
    fun i k c hc => hhex c (List.mem_of_mem_drop (List.mem_of_mem_take hc))
  have hdash : '-' ≠ '"' ∧ '-' ≠ '\\' ∧ ' ' ≤ '-' ∧ '-' ≤ '~' := by decide
  exact (htake 0 8).append (.cons hdash ((htake 8 4).append (.cons hdash ((htake 12 4).append
    (.cons hdash ((htake 16 4).append (.cons hdash fun c hc =>
      hhex c (List.mem_of_mem_drop hc))))))))

theorem plain_isoformat (t : Stamp) : Plain t.isoformat := by
  have hnum : ∀ w n, Plain (numeral 10 w n) := fun w n => plain_numeral (by decide) (by decide)
  have hfraction : Plain (if t.microsecond = 0 then [] else '.' :: numeral 10 6 t.microsecond) := by
    split
    · intro c hc; cases hc
    · exact .cons (by decide) (hnum _ _)
  have hzone : Plain "+00:00".toList := by unfold Plain; decide
  have hsecond := ((hnum 2 t.second).append hfraction).append hzone
  have hminute := (hnum 2 t.minute).append (.cons (by decide : ':' ≠ '"' ∧ _) hsecond)
  have hhour := (hnum 2 t.hour).append (.cons (by decide : ':' ≠ '"' ∧ _) hminute)
  have hday := (hnum 2 t.day).append (.cons (by decide : 'T' ≠ '"' ∧ _) hhour)
  have hmonth := (hnum 2 t.month).append (.cons (by decide : '-' ≠ '"' ∧ _) hday)
  exact (hnum 4 t.year).append (.cons (by decide) hmonth)

/-! ## § JSON -/

theorem readQuoted_jsonText (h : Plain s) : readQuoted (jsonText s ++ rest) = some (s, rest) := by
  have hspan : (s ++ '"' :: rest).span (· ≠ '"') = (s, '"' :: rest) := by
    have hall : ∀ c ∈ s, decide (c ≠ '"') = true := fun c hc => decide_eq_true (h c hc).1
    rw [List.span_eq_takeWhile_dropWhile, List.takeWhile_append_of_pos hall,
      List.dropWhile_append_of_pos hall]
    simp
  have htext : jsonText s ++ rest = '"' :: (s ++ '"' :: rest) := by simp [jsonText]
  rw [htext, readQuoted, hspan]
  exact if_pos fun c hc => (h c hc).2

theorem readValue_jsonText (h : Plain s) :
    readValue (jsonText s ++ rest) = some (.text s, rest) := by
  show (readQuoted (jsonText s ++ rest)).map _ = _
  rw [readQuoted_jsonText h]
  rfl

/-- One member read, and what follows its name. -/
theorem readMembers_jsonMember (hname : Plain name) (fuel : ℕ) (value : List Char) :
    readMembers (fuel + 1) (jsonMember name value ++ rest) =
      match readValue (value ++ rest) with
      | some (value, ',' :: ' ' :: cs) => (readMembers fuel cs).map ((name, value) :: ·)
      | some (value, ['}']) => some [(name, value)]
      | _ => none := by
  rw [jsonMember, List.append_assoc, readMembers, readQuoted_jsonText hname]
  rfl

theorem readMembers_text (hname : Plain name) (hs : Plain s) (fuel : ℕ) :
    readMembers (fuel + 1) (jsonMember name (jsonText s) ++ ',' :: ' ' :: rest) =
      (readMembers fuel rest).map ((name, .text s) :: ·) := by
  rw [readMembers_jsonMember hname, readValue_jsonText hs]
  rfl

theorem readMembers_last (hname : Plain name) (hs : Plain s) (fuel : ℕ) :
    readMembers (fuel + 1) (jsonMember name (jsonText s) ++ ['}']) = some [(name, .text s)] := by
  rw [readMembers_jsonMember hname, readValue_jsonText hs]
  rfl

/-- The members of an entry's body. -/
def LedgerEntry.members (e : LedgerEntry) : JsonObject :=
  [(['v'], .one), ("kind".toList, .text "client".toList),
    ("tenant_id".toList, .text e.tenantId.str), ("client_id".toList, .text e.clientId.str),
    ("erased_at".toList, .text e.erasedAt.isoformat)]

theorem jsonLoads_body (p : Python) (e : LedgerEntry) : p.jsonLoads e.body = .ok e.members := by
  have hv : Plain ['v'] := by unfold Plain; decide
  have hkind : Plain "kind".toList := by unfold Plain; decide
  have hclient : Plain "client".toList := by unfold Plain; decide
  have htenant : Plain "tenant_id".toList := by unfold Plain; decide
  have hclientId : Plain "client_id".toList := by unfold Plain; decide
  have herasedAt : Plain "erased_at".toList := by unfold Plain; decide
  set cs := e.body.tail with hcs
  have hbody : e.body = '{' :: cs := rfl
  obtain ⟨fuel, hfuel⟩ : ∃ fuel, cs.length = fuel + 5 := by
    apply Nat.exists_eq_add_of_le'
    simp only [hcs, LedgerEntry.body, List.tail_cons, List.length_append, jsonMember, jsonText,
      List.length_cons]
    omega
  have hread : readMembers cs.length cs = some e.members := by
    rw [hfuel]
    show readMembers (fuel + 4 + 1) (jsonMember ['v'] ['1'] ++ _) = _
    rw [readMembers_jsonMember hv]
    show (readMembers (fuel + 3 + 1) _).map _ = _
    rw [readMembers_text hkind hclient, readMembers_text htenant (plain_str _),
      readMembers_text hclientId (plain_str _), readMembers_last herasedAt (plain_isoformat _)]
    rfl
  rw [hbody, Python.jsonLoads, hread]

/-! ## § Times and ids -/

theorem readDigits_numeral (h : n < 10 ^ w) :
    readDigits w (numeral 10 w n ++ rest) = some (n, rest) := by
  have htake : (numeral 10 w n ++ rest).take w = numeral 10 w n :=
    List.take_left' length_numeral
  have hdrop : (numeral 10 w n ++ rest).drop w = rest := List.drop_left' length_numeral
  rw [readDigits, htake, hdrop, numeralValue_numeral (by decide) (by decide) h]
  exact if_pos ⟨length_numeral, isNumeral_numeral (by decide) (by decide)⟩

theorem Stamp.day_lt (t : Stamp) : t.day < 10 ^ 2 := by
  have h := t.day_range.2
  have : daysInMonth t.year t.month ≤ 31 := by
    unfold daysInMonth
    split_ifs <;> omega
  omega

theorem Stamp.year_lt (t : Stamp) : t.year < 10 ^ 4 := by
  have := t.year_range.2
  omega

theorem Stamp.month_lt (t : Stamp) : t.month < 10 ^ 2 := by
  have := t.month_range.2
  omega

theorem Stamp.hour_lt (t : Stamp) : t.hour < 10 ^ 2 := by
  have := t.hour_range
  omega

theorem Stamp.minute_lt (t : Stamp) : t.minute < 10 ^ 2 := by
  have := t.minute_range
  omega

theorem Stamp.second_lt (t : Stamp) : t.second < 10 ^ 2 := by
  have := t.second_range
  omega

theorem Stamp.microsecond_lt (t : Stamp) : t.microsecond < 10 ^ 6 :=
  t.microsecond_range.trans_eq (by norm_num)

theorem bind_of_eq_some {α β : Type} {x : Option α} {f : α → Option β} {a : α} {b : β}
    (hx : x = some a) (hf : f a = some b) : (x >>= f) = some b :=
  Option.bind_eq_some_iff.mpr ⟨a, hx, hf⟩

theorem readIso_isoformat (t : Stamp) : readIso t.isoformat = some t := by
  have hfraction : readFraction ((if t.microsecond = 0 then [] else
      '.' :: numeral 10 6 t.microsecond) ++ "+00:00".toList) =
        some (t.microsecond, "+00:00".toList) := by
    split
    · rename_i hzero
      rw [hzero]
      rfl
    · exact readDigits_numeral t.microsecond_lt
  have hchar : ∀ {c cs}, readChar c (c :: cs) = some cs := if_pos rfl
  rw [Stamp.isoformat, List.append_assoc (numeral 10 2 t.second)]
  unfold readIso
  apply bind_of_eq_some (readDigits_numeral t.year_lt)
  apply bind_of_eq_some hchar
  apply bind_of_eq_some (readDigits_numeral t.month_lt)
  apply bind_of_eq_some hchar
  apply bind_of_eq_some (readDigits_numeral t.day_lt)
  apply bind_of_eq_some hchar
  apply bind_of_eq_some (readDigits_numeral t.hour_lt)
  apply bind_of_eq_some hchar
  apply bind_of_eq_some (readDigits_numeral t.minute_lt)
  apply bind_of_eq_some hchar
  apply bind_of_eq_some (readDigits_numeral t.second_lt)
  apply bind_of_eq_some hfraction
  exact (if_pos rfl).trans t.ofFields_self

theorem readUuid_str (u : Uuid) : readUuid u.str = some u := by
  have hdigits : IsNumeral 16 (numeral 16 32 u.number) := isNumeral_numeral (by decide) le_rfl
  have hkeep : ∀ i k, (((numeral 16 32 u.number).drop i).take k).filter (· ≠ '-') =
      ((numeral 16 32 u.number).drop i).take k := by
    intro i k
    apply List.filter_eq_self.mpr
    intro c hc
    have := hdigits c (List.mem_of_mem_drop (List.mem_of_mem_take hc))
    apply decide_eq_true
    rintro rfl
    exact absurd this (by decide)
  have hlast : ((numeral 16 32 u.number).drop 20).filter (· ≠ '-') =
      (numeral 16 32 u.number).drop 20 := by
    have := hkeep 20 12
    rwa [List.take_of_length_le (by simp)] at this
  have hhex : u.str.filter (· ≠ '-') = numeral 16 32 u.number := by
    have hfirst := hkeep 0 8
    rw [List.drop_zero] at hfirst
    have hjoin : ∀ i k, ((numeral 16 32 u.number).drop i).take k ++
        (numeral 16 32 u.number).drop (i + k) = (numeral 16 32 u.number).drop i := by
      intro i k
      rw [← List.drop_drop, List.take_append_drop]
    have hdash : decide ('-' ≠ '-') = false := by decide
    simp only [Uuid.str, List.filter_append, List.filter_cons, hfirst, hkeep, hlast, hdash]
    rw [if_neg Bool.false_ne_true, if_neg Bool.false_ne_true, if_neg Bool.false_ne_true,
      if_neg Bool.false_ne_true, hjoin 16 4, hjoin 12 4, hjoin 8 4, List.take_append_drop]
  have hvalue : numeralValue 16 (numeral 16 32 u.number) = u.number :=
    numeralValue_numeral (by decide) le_rfl u.bound
  rw [readUuid, hhex, if_pos ⟨length_numeral, hdigits⟩]
  simp only [hvalue, u.bound, dif_pos]

theorem except_ok_bind {ε α β : Type} (a : α) (f : α → Except ε β) :
    (Except.ok a >>= f) = f a := rfl

/-- **A body reads back as its entry.** -/
theorem ofRaw_body (p : Python) (e : LedgerEntry) : LedgerEntry.ofRaw p e.body = .ok e := by
  have hiso : p.isoParse e.erasedAt.isoformat = .ok (.aware (.ok e.erasedAt)) := by
    rw [Python.isoParse, readIso_isoformat]
  have huuid : ∀ u : Uuid, p.uuidOf u.str = .ok u := by
    intro u
    rw [Python.uuidOf, readUuid_str]
  have hversion : e.members.get ['v'] = some .one := rfl
  have hkind : e.members.get "kind".toList = some (.text "client".toList) := rfl
  have hat : e.members.text "erased_at".toList = .ok e.erasedAt.isoformat := rfl
  have htenant : e.members.text "tenant_id".toList = .ok e.tenantId.str := rfl
  have hclient : e.members.text "client_id".toList = .ok e.clientId.str := rfl
  simp only [LedgerEntry.ofRaw, jsonLoads_body, LedgerEntry.parse, hversion, hkind, hat, htenant,
    hclient, hiso, huuid, if_true, bind_pure_comp, Except.map_ok, except_ok_bind]

/-! ## § Keys are in the order of their times -/

/-- Times compare by their fields. -/
theorem Stamp.lt_iff_fields {t u : Stamp} : t < u ↔ t.year < u.year ∨ t.year = u.year ∧
    (t.month < u.month ∨ t.month = u.month ∧ (t.day < u.day ∨ t.day = u.day ∧
      (t.hour < u.hour ∨ t.hour = u.hour ∧ (t.minute < u.minute ∨ t.minute = u.minute ∧
        (t.second < u.second ∨ t.second = u.second ∧ t.microsecond < u.microsecond))))) := by
  simp only [Stamp.lt_iff, Stamp.fields, Prod.Lex.toLex_lt_toLex]

theorem cons_lt_cons_self {c : Char} {x y : List Char} (h : x < y) : c :: x < c :: y :=
  List.cons_lt_cons_iff.mpr (Or.inr ⟨rfl, h⟩)

/-- **Keys sort in the order of their times.** -/
theorem key_lt_of_lt (h : e₁.erasedAt < e₂.erasedAt) : e₁.key < e₂.key := by
  have hnum : ∀ {w m n : ℕ} {x y : List Char}, m < 10 ^ w → n < 10 ^ w →
      (m < n ∨ m = n ∧ x < y) → numeral 10 w m ++ x < numeral 10 w n ++ y :=
    fun hm hn => (numeral_append_lt_iff (by decide) (by decide) hm hn).mpr
  unfold LedgerEntry.key
  apply append_lt_append_iff.mpr
  apply hnum e₁.erasedAt.year_lt e₂.erasedAt.year_lt
  rcases Stamp.lt_iff_fields.mp h with hyear | ⟨hyear, h⟩
  · exact Or.inl hyear
  refine Or.inr ⟨hyear, cons_lt_cons_self ?_⟩
  apply hnum e₁.erasedAt.month_lt e₂.erasedAt.month_lt
  rcases h with hmonth | ⟨hmonth, h⟩
  · exact Or.inl hmonth
  refine Or.inr ⟨hmonth, cons_lt_cons_self ?_⟩
  apply hnum e₁.erasedAt.day_lt e₂.erasedAt.day_lt
  rcases h with hday | ⟨hday, h⟩
  · exact Or.inl hday
  refine Or.inr ⟨hday, cons_lt_cons_self ?_⟩
  -- The date once more, the same in both.
  rw [hyear, hmonth, hday]
  apply append_lt_append_iff.mpr
  apply append_lt_append_iff.mpr
  apply append_lt_append_iff.mpr
  apply cons_lt_cons_self
  apply hnum e₁.erasedAt.hour_lt e₂.erasedAt.hour_lt
  rcases h with hhour | ⟨hhour, h⟩
  · exact Or.inl hhour
  refine Or.inr ⟨hhour, ?_⟩
  apply hnum e₁.erasedAt.minute_lt e₂.erasedAt.minute_lt
  rcases h with hminute | ⟨hminute, h⟩
  · exact Or.inl hminute
  refine Or.inr ⟨hminute, ?_⟩
  apply hnum e₁.erasedAt.second_lt e₂.erasedAt.second_lt
  rcases h with hsecond | ⟨hsecond, hmicrosecond⟩
  · exact Or.inl hsecond
  refine Or.inr ⟨hsecond, cons_lt_cons_self ?_⟩
  exact hnum e₁.erasedAt.microsecond_lt e₂.erasedAt.microsecond_lt (Or.inl hmicrosecond)

end Ziftbook
