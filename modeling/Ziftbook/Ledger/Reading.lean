import Mathlib.Data.String.Basic
import Ziftbook.Ledger.Written

/-!
# Reading the erasure ledger

`storage.ledger_entries` and `ledger.read`: the objects listed from the day of `since`
on, and the entries they hold.
-/

namespace Ziftbook

open Foundation

/-! ## § The bucket -/

/-- An object of the bucket: its key, and its body as `Entries` reads one. -/
structure LedgerObject where
  key : List Char
  raw : List Char
deriving DecidableEq

/-- The bucket holds one object under a key. -/
structure Ledger where
  objects : List LedgerObject
  distinct : (objects.map LedgerObject.key).Nodup

/-- `storage.ledger_entries`, in key order. -/
def Ledger.entries (ledger : Ledger) (startAfter : List Char) : List LedgerObject :=
  (ledger.objects.filter fun o => "erasures/".toList <+: o.key ∧ startAfter < o.key).insertionSort
    fun a b => a.key ≤ b.key

/-! ## § Names of keys -/

/-- `SAFE_KEY`, character by character. -/
def safeKey (p : Python) : List (Char → Bool) :=
  let text := fun s : String => s.toList.map fun c c' => c == c'
  let digits := fun n : ℕ => List.replicate n p.digit
  text "erasures/" ++ digits 4 ++ text "/" ++ digits 2 ++ text "/" ++ digits 2 ++ text "/" ++
    digits 8 ++ text "T" ++ digits 6 ++ text "." ++ digits 6 ++ text "Z-client-" ++
      List.replicate 36 (fun c => decide (('0' ≤ c ∧ c ≤ '9') ∨ ('a' ≤ c ∧ c ≤ 'f') ∨ c = '-')) ++
        text ".json"

def fullmatch : List (Char → Bool) → List Char → Bool
  | [], [] => true
  | matches_ :: pattern, c :: cs => matches_ c && fullmatch pattern cs
  | _, _ => false

/-- `name_of`. -/
def Python.nameOf (p : Python) (key : List Char) : List Char :=
  if fullmatch (safeKey p) key then key else "sha256:".toList ++ p.sha256 key

/-! ## § Read -/

/-- Why `read` returns nothing: an error it does not catch, or `Refused` with an exit code. -/
inductive ReadError
  | uncaught
  | refused (code : ℕ)
deriving DecidableEq

/-- The lists `read` fills. -/
structure Found where
  entries : List LedgerEntry
  skipped : List (List Char)
  refused : List (List Char)

/-- What one object of the listing adds. `latest` is the clock's time and `SKEW`. -/
def readObject (p : Python) (since : Option Stamp) (skip : List (List Char)) (latest : Stamp)
    (found : Found) (o : LedgerObject) : Except ReadError Found :=
  let name := p.nameOf o.key
  if name ∈ skip then .ok { found with skipped := found.skipped ++ [name] }
  else
    match LedgerEntry.ofRaw p o.raw with
    | .error .uncaught => .error .uncaught
    | .error .caught => .ok { found with refused := found.refused ++ [name] }
    | .ok entry =>
        if entry.key ≠ o.key ∨ latest < entry.erasedAt then
          .ok { found with refused := found.refused ++ [name] }
        else if ∀ s ∈ since, s ≤ entry.erasedAt then
          .ok { found with entries := found.entries ++ [entry] }
        else .ok found

/-- The day a listing starts after. -/
def listingStart (since : Option Stamp) : List Char :=
  match since with
  | none => "erasures/".toList
  | some s => "erasures/".toList ++ (numeral 10 4 s.year ++ '/' :: (numeral 10 2 s.month ++
      '/' :: (numeral 10 2 s.day ++ ['/'])))

/-- `ledger.read`. -/
def Ledger.read (p : Python) (ledger : Ledger) (since : Option Stamp) (skip : List (List Char))
    (latest : Stamp) : Except ReadError (List LedgerEntry × List (List Char)) := do
  let found ← (ledger.entries (listingStart since)).foldlM
    (readObject p since skip latest) ⟨[], [], []⟩
  if ∃ name ∈ skip, name ∉ found.skipped then .error (.refused 2)
  else if found.refused ≠ [] then .error (.refused 1)
  else return (found.entries.insertionSort fun a b => a.erasedAt ≤ b.erasedAt, found.skipped)

variable {p : Python} {ledger : Ledger} {since : Option Stamp} {skip : List (List Char)}
  {latest : Stamp} {found found' : Found} {o : LedgerObject} {e : LedgerEntry}

/-! ## § The listing -/

/-- The day of a time at or before an entry's sorts before its key. -/
theorem listingStart_lt_key (h : ∀ s ∈ since, s ≤ e.erasedAt) : listingStart since < e.key := by
  have hnum : ∀ {w m n : ℕ} {x y : List Char}, m < 10 ^ w → n < 10 ^ w →
      (m < n ∨ m = n ∧ x < y) → numeral 10 w m ++ x < numeral 10 w n ++ y :=
    fun hm hn => (numeral_append_lt_iff (by decide) (by decide) hm hn).mpr
  have hafter : ∀ {w n : ℕ} {y : List Char}, [] < numeral 10 (w + 1) n ++ y := by
    intro w n y
    obtain ⟨c, cs, hcs⟩ : ∃ c cs, numeral 10 (w + 1) n ++ y = c :: cs := by
      apply List.exists_cons_of_ne_nil
      simp [numeral]
    rw [hcs]
    exact List.nil_lt_cons c cs
  cases since with
  | none =>
      have hprefix : "erasures/".toList ++ [] < e.key := append_lt_append_iff.mpr hafter
      rwa [List.append_nil] at hprefix
  | some s =>
      have hdate : s.year < e.erasedAt.year ∨ s.year = e.erasedAt.year ∧
          (s.month < e.erasedAt.month ∨ s.month = e.erasedAt.month ∧
            (s.day < e.erasedAt.day ∨ s.day = e.erasedAt.day)) := by
        rcases lt_or_eq_of_le (h s rfl) with hlt | heq
        · rcases Stamp.lt_iff_fields.mp hlt with hy | ⟨hy, hm | ⟨hm, hd | ⟨hd, _⟩⟩⟩
          · exact Or.inl hy
          · exact Or.inr ⟨hy, Or.inl hm⟩
          · exact Or.inr ⟨hy, Or.inr ⟨hm, Or.inl hd⟩⟩
          · exact Or.inr ⟨hy, Or.inr ⟨hm, Or.inr hd⟩⟩
        · rw [heq]
          exact Or.inr ⟨rfl, Or.inr ⟨rfl, Or.inr rfl⟩⟩
      apply append_lt_append_iff.mpr
      apply hnum s.year_lt e.erasedAt.year_lt
      refine hdate.imp_right (And.imp_right fun hmonth => cons_lt_cons_self ?_)
      apply hnum s.month_lt e.erasedAt.month_lt
      refine hmonth.imp_right (And.imp_right fun hday => cons_lt_cons_self ?_)
      apply hnum s.day_lt e.erasedAt.day_lt
      exact hday.imp_right fun hday => ⟨hday, cons_lt_cons_self hafter⟩

theorem Ledger.mem_entries {start : List Char} :
    o ∈ ledger.entries start ↔
      o ∈ ledger.objects ∧ "erasures/".toList <+: o.key ∧ start < o.key := by
  rw [Ledger.entries, List.mem_insertionSort, List.mem_filter, decide_eq_true_iff]

theorem Ledger.nodup_entries {start : List Char} :
    ((ledger.entries start).map LedgerObject.key).Nodup := by
  rw [Ledger.entries, ((List.perm_insertionSort _ _).map _).nodup_iff]
  exact ledger.distinct.sublist (List.filter_sublist.map _)

/-- Every entry on or after `since` is listed, by its key. -/
theorem Ledger.listed (ho : o ∈ ledger.objects) (hkey : o.key = e.key)
    (hsince : ∀ s ∈ since, s ≤ e.erasedAt) : o ∈ ledger.entries (listingStart since) := by
  refine Ledger.mem_entries.mpr ⟨ho, ?_, ?_⟩
  · rw [hkey]
    exact List.prefix_append _ _
  · rw [hkey]
    exact listingStart_lt_key hsince

/-! ## § What the objects hold -/

/-- An object not skipped, with its entry, on or after `since`. -/
def InLedger (p : Python) (since : Option Stamp) (skip : List (List Char)) (o : LedgerObject)
    (e : LedgerEntry) : Prop :=
  (o.key = e.key ∧ LedgerEntry.ofRaw p o.raw = .ok e ∧ p.nameOf o.key ∉ skip) ∧
    ∀ s ∈ since, s ≤ e.erasedAt

/-- One object adds the entry it holds, or nothing, or is refused. -/
theorem readObject_cases (h : readObject p since skip latest found o = .ok found') :
    (∃ name, found'.refused = found.refused ++ [name]) ∨ found'.refused = found.refused ∧
      ((found'.entries = found.entries ∧ ∀ e, ¬ InLedger p since skip o e) ∨
        ∃ e, found'.entries = found.entries ++ [e] ∧ InLedger p since skip o e) := by
  simp only [readObject] at h
  split at h
  · rename_i hskip
    cases h
    exact Or.inr ⟨rfl, Or.inl ⟨rfl, fun e he => he.1.2.2 hskip⟩⟩
  rename_i hskip
  split at h
  · exact nomatch h
  · cases h
    exact Or.inl ⟨_, rfl⟩
  rename_i entry hraw
  split at h
  · cases h
    exact Or.inl ⟨_, rfl⟩
  rename_i hvalid
  have hkey : o.key = entry.key := by
    by_contra hne
    exact hvalid (Or.inl (Ne.symm hne))
  split at h
  · rename_i hsince
    cases h
    exact Or.inr ⟨rfl, Or.inr ⟨entry, rfl, ⟨hkey, hraw, hskip⟩, hsince⟩⟩
  · rename_i hbefore
    cases h
    refine Or.inr ⟨rfl, Or.inl ⟨rfl, fun e he => hbefore ?_⟩⟩
    have hsame : e = entry := Except.ok.inj (he.1.2.1.symm.trans hraw)
    exact hsame ▸ he.2

theorem InLedger.unique {e' : LedgerEntry} (h : InLedger p since skip o e)
    (h' : InLedger p since skip o e') : e = e' := Except.ok.inj (h.1.2.1.symm.trans h'.1.2.1)

/-- A run over the objects that refuses none adds what they hold, each entry once. -/
theorem foldlM_readObject (os : List LedgerObject)
    (h : os.foldlM (readObject p since skip latest) found = .ok found')
    (hrefused : found'.refused = []) :
    found.refused = [] ∧ ∃ new, found'.entries = found.entries ++ new ∧
      (new.map LedgerEntry.key).Sublist (os.map LedgerObject.key) ∧
        ∀ e, e ∈ new ↔ ∃ o ∈ os, InLedger p since skip o e := by
  induction os generalizing found with
  | nil =>
      cases h
      exact ⟨hrefused, [], by simp, List.Sublist.refl _, by simp⟩
  | cons o os ih =>
      rw [List.foldlM_cons] at h
      cases hone : readObject p since skip latest found o with
      | error err =>
          rw [hone] at h
          exact nomatch h
      | ok next =>
          rw [hone] at h
          obtain ⟨hnext, new, hnew, hsub, hmem⟩ := ih h
          rcases readObject_cases hone with ⟨name, hadd⟩ | ⟨hsame, ⟨hentries, hnone⟩ | hheld⟩
          · rw [hnext] at hadd
            exact absurd hadd.symm (List.append_ne_nil_of_right_ne_nil _ (List.cons_ne_nil _ _))
          · refine ⟨hsame ▸ hnext, new, hentries ▸ hnew, hsub.cons _, fun e => ?_⟩
            rw [hmem, List.exists_mem_cons_iff]
            exact ⟨Or.inr, fun h => h.resolve_left (hnone e)⟩
          · obtain ⟨entry, hentries, hholds⟩ := hheld
            refine ⟨hsame ▸ hnext, entry :: new, ?_, ?_, fun e => ?_⟩
            · rw [hnew, hentries, List.append_assoc]
              rfl
            · rw [List.map_cons, List.map_cons, hholds.1.1]
              exact hsub.cons_cons _
            · rw [List.mem_cons, hmem, List.exists_mem_cons_iff]
              constructor
              · rintro (rfl | hlater)
                · exact Or.inl hholds
                · exact Or.inr hlater
              · rintro (hfirst | hlater)
                · exact Or.inl (hfirst.unique hholds)
                · exact Or.inr hlater

/-! ## § What is returned -/

theorem Ledger.read_ok {entries : List LedgerEntry} {skipped : List (List Char)}
    (h : ledger.read p since skip latest = .ok (entries, skipped)) :
    (∀ e, e ∈ entries ↔ ∃ o ∈ ledger.objects, InLedger p since skip o e) ∧ entries.Nodup ∧
      entries.Pairwise (·.erasedAt ≤ ·.erasedAt) := by
  unfold Ledger.read at h
  cases hfold : (ledger.entries (listingStart since)).foldlM (readObject p since skip latest)
      ⟨[], [], []⟩ with
  | error err =>
      rw [hfold] at h
      exact nomatch h
  | ok found =>
      rw [hfold] at h
      change (if _ then _ else _) = _ at h
      split at h
      · exact nomatch h
      split at h
      · exact nomatch h
      rename_i hrefused
      obtain ⟨rfl, rfl⟩ := Prod.mk.inj (Except.ok.inj h)
      obtain ⟨_, new, hnew, hsub, hmem⟩ := foldlM_readObject _ hfold (not_not.mp hrefused)
      rw [List.nil_append] at hnew
      refine ⟨fun e => ?_, ?_, ?_⟩
      · rw [List.mem_insertionSort, hnew, hmem]
        constructor
        · rintro ⟨o, ho, hholds⟩
          exact ⟨o, (Ledger.mem_entries.mp ho).1, hholds⟩
        · rintro ⟨o, ho, hholds⟩
          exact ⟨o, Ledger.listed ho hholds.1.1 hholds.2, hholds⟩
      · have hkeys : (new.map LedgerEntry.key).Nodup := Ledger.nodup_entries.sublist hsub
        rw [(List.perm_insertionSort _ _).nodup_iff, hnew]
        exact hkeys.of_map
      · exact List.pairwise_insertionSort _ _

/-- **What is written reads back, and what is read is what the ledger holds.** An entry's
body parses as the entry and keys are in the order of the times. Whatever objects the
bucket holds, a read that returns gives exactly the entries that are under their keys,
not skipped and on or after `since`, each once and the oldest first. -/
theorem ledger_round_trip (p : Python) :
    (∀ e : LedgerEntry, LedgerEntry.ofRaw p e.body = .ok e) ∧
    (∀ e₁ e₂ : LedgerEntry, e₁.erasedAt < e₂.erasedAt → e₁.key < e₂.key) ∧
    ∀ (ledger : Ledger) (since : Option Stamp) (skip : List (List Char)) (latest : Stamp)
      (entries : List LedgerEntry) (skipped : List (List Char)),
      ledger.read p since skip latest = .ok (entries, skipped) →
        (∀ e, e ∈ entries ↔
          (∃ o ∈ ledger.objects, o.key = e.key ∧ LedgerEntry.ofRaw p o.raw = .ok e ∧
            p.nameOf o.key ∉ skip) ∧ ∀ s ∈ since, s ≤ e.erasedAt) ∧
        entries.Nodup ∧ entries.Pairwise (·.erasedAt ≤ ·.erasedAt) := by
  refine ⟨fun e => ofRaw_body p e, fun _ _ h => key_lt_of_lt h, ?_⟩
  intro ledger since skip latest entries skipped h
  obtain ⟨hmem, hnodup, hsorted⟩ := Ledger.read_ok h
  refine ⟨fun e => ?_, hnodup, hsorted⟩
  rw [hmem]
  constructor
  · rintro ⟨o, ho, hheld, hsince⟩
    exact ⟨⟨o, ho, hheld⟩, hsince⟩
  · rintro ⟨⟨o, ho, hheld⟩, hsince⟩
    exact ⟨o, ho, hheld, hsince⟩

/-- 1 March 2026, on the hour. -/
def marchFirst (hour : ℕ) (h : hour < 24) : Stamp :=
  ⟨2026, 3, 1, hour, 0, 0, 0, by decide, by decide, by decide, h, by decide, by decide, by decide⟩

/-- Two clients of one business erased on that day, at nine and at twelve. -/
def erasedAtNine : LedgerEntry := ⟨⟨1, by decide⟩, ⟨2, by decide⟩, marchFirst 9 (by decide)⟩
def erasedAtNoon : LedgerEntry := ⟨⟨1, by decide⟩, ⟨3, by decide⟩, marchFirst 12 (by decide)⟩

def twoErasures : Ledger where
  objects := [⟨erasedAtNoon.key, erasedAtNoon.body⟩, ⟨erasedAtNine.key, erasedAtNine.body⟩]
  distinct := by decide +kernel

/-- Nothing else is read, and no key needs its digest. -/
def noOtherText : Python where
  loads _ := .error .caught
  fromisoformat _ := .error .caught
  uuid _ := .error .caught
  sha256 _ := []
  digit c := decide ('0' ≤ c ∧ c ≤ '9')

theorem ledger_round_trip_since_ten :
    twoErasures.read noOtherText (some (marchFirst 10 (by decide))) []
        (marchFirst 13 (by decide)) = .ok ([erasedAtNoon], []) ∧
      ∀ e, e ∈ [erasedAtNoon] ↔
        (∃ o ∈ twoErasures.objects, o.key = e.key ∧ LedgerEntry.ofRaw noOtherText o.raw = .ok e ∧
          noOtherText.nameOf o.key ∉ ([] : List (List Char))) ∧
        ∀ s ∈ some (marchFirst 10 (by decide)), s ≤ e.erasedAt := by
  have hread : twoErasures.read noOtherText (some (marchFirst 10 (by decide))) []
      (marchFirst 13 (by decide)) = .ok ([erasedAtNoon], []) := by decide +kernel
  exact ⟨hread, ((ledger_round_trip noOtherText).2.2 _ _ _ _ _ _ hread).1⟩

end Ziftbook
