import Mathlib.Tactic

/-!
# What reaches the image decoder

`_markers` and `unsafe_container` of `app/photos.py`, which read a file's structure before the
decoder sees any of it.
-/

namespace Ziftbook.Photos

abbrev Bytes := List UInt8

/-- `data[i:j]`. -/
def slice (data : Bytes) (i j : ℕ) : Bytes := (data.drop i).take (j - i)

/-- `int.from_bytes`. -/
def fromBytes (bs : Bytes) : ℕ := bs.foldl (fun n b => 256 * n + b.toNat) 0

/-! ## § Markers -/

/-- A marker without a length. -/
def IsBare (marker : UInt8) : Prop := marker = 0x01 ∨ 0xD0 ≤ marker ∧ marker ≤ 0xD8

instance bareDecidable (marker : UInt8) : Decidable (IsBare marker) :=
  inferInstanceAs (Decidable (_ ∨ _))

/-- The walk of `_markers`, from an offset. -/
def markersFrom (data : Bytes) (i : ℕ) : List (ℕ × UInt8) :=
  if h : i + 1 < data.length then
    if data[i] = 0xFF then
      let marker := data[i + 1]
      if marker = 0xFF then markersFrom data (i + 1)
      else if marker = 0xD9 ∨ marker = 0xDA then [(i, marker)]
      else if IsBare marker then (i, marker) :: markersFrom data (i + 2)
      else (i, marker) :: markersFrom data (i + 2 + fromBytes (slice data (i + 2) (i + 4)))
    else []
  else []
termination_by data.length - i

def markers (data : Bytes) : List (ℕ × UInt8) := markersFrom data 2

def LOSSLESS_FRAMES : List UInt8 := [0xC3, 0xC7, 0xCB, 0xCF]

def EXIF_CAP : ℕ := 65536

/-- `b"Exif\x00\x00"`. -/
def exifHead : Bytes := [0x45, 0x78, 0x69, 0x66, 0x00, 0x00]

/-- The loop over a JPEG's markers. -/
def unsafeMarkers (data : Bytes) : List (ℕ × UInt8) → Option UInt8 → ℕ → Bool
  | [], last, exif => decide (last ≠ some 0xDA) || decide (exif > EXIF_CAP)
  | (i, marker) :: rest, _, exif =>
      if marker = 0x00 ∨ marker ∈ LOSSLESS_FRAMES then true
      else
        unsafeMarkers data rest (some marker)
          (if marker = 0xE1 ∧ slice data (i + 4) (i + 10) = exifHead then
            exif + (fromBytes (slice data (i + 2) (i + 4)) - 2)
          else exif)

/-! ## § Chunks -/

def PNG_SIGNATURE : Bytes := [0x89, 0x50, 0x4E, 0x47, 0x0D, 0x0A, 0x1A, 0x0A]

def acTL : Bytes := [0x61, 0x63, 0x54, 0x4C]

def eXIf : Bytes := [0x65, 0x58, 0x49, 0x66]

def IEND : Bytes := [0x49, 0x45, 0x4E, 0x44]

/-- The loop over a PNG's chunks. -/
def unsafeChunks (data : Bytes) (i : ℕ) : Bool :=
  if i + 8 ≤ data.length then
    let length := fromBytes (slice data i (i + 4))
    let kind := slice data (i + 4) (i + 8)
    if kind = acTL ∨ kind = eXIf ∧ length > EXIF_CAP then true
    else if kind = IEND then false
    else unsafeChunks data (i + 12 + length)
  else false
termination_by data.length - i

def unsafeContainer (data : Bytes) : Bool :=
  if slice data 0 2 = [0xFF, 0xD8] then unsafeMarkers data (markers data) none 0
  else if slice data 0 8 = PNG_SIGNATURE then unsafeChunks data 8
  else false

/-! ## § What a JPEG holds before its first scan -/

/-- A marker with its payload, none for one without a length. -/
structure Segment where
  marker : UInt8
  payload : Bytes
deriving DecidableEq

/-- Neither a fill byte nor one that ends the walk, and with a length. -/
def IsSized (marker : UInt8) : Prop :=
  marker ≠ 0xFF ∧ marker ≠ 0xD9 ∧ marker ≠ 0xDA ∧ ¬ IsBare marker

/-- A length in two bytes, its own two included. -/
def sizeBytes (payload : Bytes) : Bytes :=
  [UInt8.ofNat ((payload.length + 2) / 256), UInt8.ofNat ((payload.length + 2) % 256)]

/-- The bytes are these segments, with fill bytes before any marker, and then a scan. -/
inductive Reads : Bytes → List Segment → Prop
  | scan (rest : Bytes) : Reads (0xFF :: 0xDA :: rest) []
  | fill {bs : Bytes} {segments : List Segment} : Reads bs segments → Reads (0xFF :: bs) segments
  | bare {bs : Bytes} {segments : List Segment} (marker : UInt8) : IsBare marker →
      Reads bs segments → Reads (0xFF :: marker :: bs) (⟨marker, []⟩ :: segments)
  | sized {bs : Bytes} {segments : List Segment} (marker : UInt8) (payload : Bytes) :
      IsSized marker → payload.length + 2 < 65536 → Reads bs segments →
      Reads (0xFF :: marker :: (sizeBytes payload ++ payload ++ bs)) (⟨marker, payload⟩ :: segments)

/-- The EXIF a segment carries, in bytes. -/
def Segment.exif (s : Segment) : ℕ :=
  if s.marker = 0xE1 ∧ s.payload.take 6 = exifHead then s.payload.length else 0

/-- Neither `FF00` nor a lossless frame. -/
def Segment.Sound (s : Segment) : Prop := s.marker ≠ 0x00 ∧ s.marker ∉ LOSSLESS_FRAMES

variable {data bs : Bytes} {segments : List Segment} {i : ℕ}

theorem Reads.head (h : Reads bs segments) : ∃ b tail, bs = 0xFF :: b :: tail := by
  induction h with
  | scan rest => exact ⟨_, _, rfl⟩
  | fill _ ih =>
      obtain ⟨b, tail, rfl⟩ := ih
      exact ⟨_, _, rfl⟩
  | bare marker _ _ _ => exact ⟨_, _, rfl⟩
  | sized marker payload _ _ _ _ => exact ⟨_, _, rfl⟩

theorem drop_eq_cons_cons (h : i + 1 < data.length) :
    data.drop i = data[i] :: data[i + 1] :: data.drop (i + 2) := by
  rw [List.drop_eq_getElem_cons (by omega), List.drop_eq_getElem_cons h]

theorem getElem_of_drop {a b : UInt8} {tail : Bytes} (h : data.drop i = a :: b :: tail) :
    ∃ hlt : i + 1 < data.length, data[i] = a ∧ data[i + 1] = b ∧ data.drop (i + 2) = tail := by
  have hlength := congrArg List.length h
  simp only [List.length_drop, List.length_cons] at hlength
  have hlt : i + 1 < data.length := by omega
  rw [drop_eq_cons_cons hlt] at h
  obtain ⟨ha, htail⟩ := List.cons.inj h
  obtain ⟨hb, htail⟩ := List.cons.inj htail
  exact ⟨hlt, ha, hb, htail⟩

/-! ## § A length, and the EXIF after it -/

/-- Bytes that lead, past their own length, to segments are a length and a payload. -/
theorem exists_payload {rest : Bytes} (h : Reads (rest.drop (fromBytes (rest.take 2))) segments) :
    ∃ payload, rest = sizeBytes payload ++ payload ++ rest.drop (fromBytes (rest.take 2)) ∧
      payload.length + 2 = fromBytes (rest.take 2) ∧ payload.length + 2 < 65536 := by
  obtain ⟨c, tail, hhead⟩ := h.head
  match rest, hhead with
  | [], hhead => cases hhead
  | [a], hhead =>
      -- a length cut short leads nowhere
      have hlength := congrArg List.length hhead
      simp only [List.length_drop, List.length_cons, List.length_nil] at hlength
      omega
  | a :: b :: rest, hhead =>
      have hsize : fromBytes ((a :: b :: rest).take 2) = 256 * a.toNat + b.toNat := by
        simp [fromBytes]
      rw [hsize] at hhead ⊢
      have ha := a.toNat_lt
      have hb := b.toNat_lt
      obtain ⟨n, hn⟩ : ∃ n, 256 * a.toNat + b.toNat = n + 2 := by
        refine ⟨256 * a.toNat + b.toNat - 2, ?_⟩
        by_contra hsmall
        obtain hzero | hone : 256 * a.toNat + b.toNat = 0 ∨ 256 * a.toNat + b.toNat = 1 := by omega
        · rw [hzero] at hhead
          have : a = 0xFF := (List.cons.inj hhead).1
          subst this
          simp at hzero
        · rw [hone] at hhead
          have : b = 0xFF := (List.cons.inj hhead).1
          subst this
          simp at hone
      rw [hn] at hhead ⊢
      have hdrop : (a :: b :: rest).drop (n + 2) = rest.drop n := rfl
      rw [hdrop] at hhead ⊢
      have hlength : (rest.take n).length = n := by
        have hlength := congrArg List.length hhead
        simp only [List.length_drop, List.length_cons] at hlength
        rw [List.length_take]
        omega
      refine ⟨rest.take n, ?_, by rw [hlength], by omega⟩
      have hhigh : (n + 2) / 256 = a.toNat := by omega
      have hlow : (n + 2) % 256 = b.toNat := by omega
      rw [sizeBytes, hlength, hhigh, hlow]
      simp

theorem fromBytes_sizeBytes {payload : Bytes} (h : payload.length + 2 < 65536) (rest : Bytes) :
    fromBytes ((sizeBytes payload ++ payload ++ rest).take 2) = payload.length + 2 := by
  have hhigh : (payload.length + 2) / 256 < 256 := by omega
  have hlow : (payload.length + 2) % 256 < 256 := Nat.mod_lt _ (by decide)
  simp only [sizeBytes, List.cons_append, List.nil_append, List.take_succ_cons, List.take_zero,
    fromBytes, List.foldl_cons, List.foldl_nil, UInt8.toNat_ofNat', Nat.mod_eq_of_lt hhigh,
    Nat.mod_eq_of_lt hlow]
  omega

/-- No marker stands in the EXIF head, so a payload too short for it does not run into one. -/
theorem take_exifHead {payload tail : Bytes} :
    (payload ++ 0xFF :: tail).take 6 = exifHead ↔ payload.take 6 = exifHead := by
  by_cases hlong : 6 ≤ payload.length
  · rw [List.take_append_of_le_length hlong]
  · constructor
    · intro h
      have hin : (0xFF : UInt8) ∈ exifHead := by
        rw [← h, List.mem_take_iff_getElem]
        refine ⟨payload.length, by simp; omega, ?_⟩
        simp
      exact absurd hin (by decide)
    · intro h
      have hlength := congrArg List.length h
      rw [List.length_take] at hlength
      have : exifHead.length = 6 := rfl
      omega

/-! ## § The walk, by what stands at its offset -/

section walk

variable {tail : Bytes} {marker : UInt8}

theorem markersFrom_fill (h : data.drop i = 0xFF :: 0xFF :: tail) :
    markersFrom data i = markersFrom data (i + 1) := by
  obtain ⟨hlt, hff, hmarker, -⟩ := getElem_of_drop h
  rw [markersFrom, dif_pos hlt, if_pos hff]
  exact if_pos hmarker

theorem markersFrom_end (h : data.drop i = 0xFF :: 0xDA :: tail) :
    markersFrom data i = [(i, 0xDA)] := by
  obtain ⟨hlt, hff, hmarker, -⟩ := getElem_of_drop h
  rw [markersFrom, dif_pos hlt, if_pos hff]
  simp only [hmarker]
  rfl

theorem markersFrom_bare (hbare : IsBare marker) (h : data.drop i = 0xFF :: marker :: tail) :
    markersFrom data i = (i, marker) :: markersFrom data (i + 2) := by
  obtain ⟨hlt, hff, hmarker, -⟩ := getElem_of_drop h
  have hfill : marker ≠ 0xFF := by
    rintro rfl
    exact absurd hbare (by decide)
  have hend : ¬ (marker = 0xD9 ∨ marker = 0xDA) := by
    rintro (rfl | rfl)
    · exact absurd hbare (by decide)
    · exact absurd hbare (by decide)
  rw [markersFrom, dif_pos hlt, if_pos hff]
  simp only [hmarker]
  rw [if_neg hfill, if_neg hend, if_pos hbare]

theorem markersFrom_sized (hsized : IsSized marker) (h : data.drop i = 0xFF :: marker :: tail) :
    markersFrom data i = (i, marker) :: markersFrom data (i + 2 + fromBytes (tail.take 2)) := by
  obtain ⟨hlt, hff, hmarker, htail⟩ := getElem_of_drop h
  obtain ⟨hfill, hnine, hten, hbare⟩ := hsized
  rw [markersFrom, dif_pos hlt, if_pos hff]
  simp only [hmarker]
  rw [if_neg hfill, if_neg (not_or.mpr ⟨hnine, hten⟩), if_neg hbare]
  have hslice : slice data (i + 2) (i + 4) = tail.take 2 := by
    rw [slice, htail]
    congr 1
    omega
  rw [hslice]

/-- The EXIF the loop adds up at a segment. -/
theorem exif_segment {payload bs : Bytes} (hread : Reads bs segments)
    (hsize : payload.length + 2 < 65536)
    (h : data.drop i = 0xFF :: marker :: (sizeBytes payload ++ payload ++ bs)) (exif : ℕ) :
    (if marker = 0xE1 ∧ slice data (i + 4) (i + 10) = exifHead then
      exif + (fromBytes (slice data (i + 2) (i + 4)) - 2) else exif) =
      exif + Segment.exif ⟨marker, payload⟩ := by
  obtain ⟨b, tail, rfl⟩ := hread.head
  obtain ⟨-, -, -, htail⟩ := getElem_of_drop h
  have hlength : slice data (i + 2) (i + 4) =
      (sizeBytes payload ++ payload ++ 0xFF :: b :: tail).take 2 := by
    rw [slice, htail]
    congr 1
    omega
  have hpayload : slice data (i + 4) (i + 10) = (payload ++ 0xFF :: b :: tail).take 6 := by
    have hdrop : data.drop (i + 4) = payload ++ 0xFF :: b :: tail := by
      rw [← List.drop_drop, h]
      rfl
    rw [slice, hdrop]
    congr 1
    omega
  rw [hlength, hpayload, fromBytes_sizeBytes hsize]
  simp only [take_exifHead, Segment.exif, Nat.add_sub_cancel]
  split <;> rfl

end walk

theorem unsafeMarkers_cons {marker : UInt8} {rest : List (ℕ × UInt8)} {last : Option UInt8}
    {exif : ℕ} : unsafeMarkers data ((i, marker) :: rest) last exif = false ↔
      (marker ≠ 0x00 ∧ marker ∉ LOSSLESS_FRAMES) ∧ unsafeMarkers data rest (some marker)
        (if marker = 0xE1 ∧ slice data (i + 4) (i + 10) = exifHead then
          exif + (fromBytes (slice data (i + 2) (i + 4)) - 2) else exif) = false := by
  rw [unsafeMarkers]
  by_cases hbad : marker = 0x00 ∨ marker ∈ LOSSLESS_FRAMES
  · rw [if_pos hbad]
    exact ⟨fun h => (by cases h), fun h => absurd hbad (not_or.mpr h.1)⟩
  · rw [if_neg hbad]
    exact ⟨fun h => ⟨not_or.mp hbad, h⟩, fun h => h.2⟩

/-- **Segments up to a scan are found safe** just when each is and their EXIF is small enough. -/
theorem safe_of_reads (h : Reads bs segments) {last : Option UInt8} {exif : ℕ}
    (hdrop : data.drop i = bs) (hsound : ∀ s ∈ segments, s.Sound)
    (hcap : exif + (segments.map Segment.exif).sum ≤ EXIF_CAP) :
    unsafeMarkers data (markersFrom data i) last exif = false := by
  induction h generalizing i last exif with
  | scan rest =>
      rw [markersFrom_end hdrop, unsafeMarkers_cons]
      refine ⟨by decide, ?_⟩
      rw [if_neg (by rintro ⟨h, -⟩; exact absurd h (by decide))]
      simpa [unsafeMarkers] using hcap
  | fill hread ih =>
      obtain ⟨b, tail, rfl⟩ := hread.head
      obtain ⟨hlt, -, -, htail⟩ := getElem_of_drop hdrop
      rw [markersFrom_fill hdrop]
      refine ih ?_ hsound hcap
      rw [← List.drop_drop, hdrop]
      rfl
  | bare marker hbare hread ih =>
      obtain ⟨b, tail, rfl⟩ := hread.head
      obtain ⟨hlt, -, -, htail⟩ := getElem_of_drop hdrop
      obtain ⟨hhere, hthere⟩ := List.forall_mem_cons.mp hsound
      rw [markersFrom_bare hbare hdrop, unsafeMarkers_cons]
      refine ⟨hhere, ?_⟩
      have hexif : ¬ (marker = 0xE1 ∧ slice data (i + 4) (i + 10) = exifHead) := by
        rintro ⟨rfl, -⟩
        exact absurd hbare (by decide)
      rw [if_neg hexif]
      refine ih htail hthere ?_
      have hnone : Segment.exif ⟨marker, []⟩ = 0 := ite_eq_right_iff.mpr fun _ => rfl
      rwa [List.map_cons, List.sum_cons, hnone, zero_add] at hcap
  | sized marker payload hsized hsize hread ih =>
      obtain ⟨-, -, -, htail⟩ := getElem_of_drop hdrop
      obtain ⟨hhere, hthere⟩ := List.forall_mem_cons.mp hsound
      rw [markersFrom_sized hsized hdrop, unsafeMarkers_cons, exif_segment hread hsize hdrop,
        fromBytes_sizeBytes hsize]
      refine ⟨hhere, ih ?_ hthere ?_⟩
      · rw [← List.drop_drop, htail, List.append_assoc]
        exact List.drop_left' rfl
      · rwa [List.map_cons, List.sum_cons, ← Nat.add_assoc] at hcap

/-- **A walk that finds nothing unsafe** has read segments, up to a scan. -/
theorem reads_of_safe {last : Option UInt8} {exif : ℕ} (hlast : last ≠ some 0xDA)
    (h : unsafeMarkers data (markersFrom data i) last exif = false) :
    ∃ segments, Reads (data.drop i) segments ∧ (∀ s ∈ segments, s.Sound) ∧
      exif + (segments.map Segment.exif).sum ≤ EXIF_CAP := by
  fun_induction markersFrom data i generalizing last exif with
  | case1 i hlt hff marker hfill =>
      rename_i ih
      obtain ⟨segments, hread, hsafe⟩ := ih hlast h
      refine ⟨segments, ?_, hsafe⟩
      rw [List.drop_eq_getElem_cons (by omega), hff]
      exact .fill hread
  | case2 i hlt hff marker hfill =>
      rename_i hend
      obtain ⟨-, h⟩ := unsafeMarkers_cons.mp h
      have hscan : marker = 0xDA := by
        by_contra hne
        simp [unsafeMarkers, hne] at h
      have hexif : ¬ (marker = 0xE1 ∧ slice data (i + 4) (i + 10) = exifHead) := by
        rw [hscan]
        rintro ⟨h, -⟩
        exact absurd h (by decide)
      rw [if_neg hexif] at h
      refine ⟨[], ?_, fun s hs => (by cases hs), ?_⟩
      · rw [drop_eq_cons_cons hlt, hff]
        show Reads (0xFF :: marker :: data.drop (i + 2)) []
        rw [hscan]
        exact .scan _
      · simpa [unsafeMarkers, hscan] using h
  | case3 i hlt hff marker hfill hend =>
      rename_i hbare ih
      obtain ⟨hhere, h⟩ := unsafeMarkers_cons.mp h
      have hexif : ¬ (marker = 0xE1 ∧ slice data (i + 4) (i + 10) = exifHead) := by
        rintro ⟨hmarker, -⟩
        rw [hmarker] at hbare
        exact absurd hbare (by decide)
      rw [if_neg hexif] at h
      have hnot : some marker ≠ some 0xDA := fun hlast => hend (.inr (Option.some.inj hlast))
      obtain ⟨segments, hread, hsound, hcap⟩ := ih hnot h
      refine ⟨⟨marker, []⟩ :: segments, ?_, List.forall_mem_cons.mpr ⟨hhere, hsound⟩, ?_⟩
      · rw [drop_eq_cons_cons hlt, hff]
        exact .bare marker hbare hread
      · have hnone : Segment.exif ⟨marker, []⟩ = 0 := ite_eq_right_iff.mpr fun _ => rfl
        rwa [List.map_cons, List.sum_cons, hnone, zero_add]
  | case4 i hlt hff marker hfill hend =>
      rename_i hbare ih
      obtain ⟨hhere, h⟩ := unsafeMarkers_cons.mp h
      have hnot : some marker ≠ some 0xDA := fun hlast => hend (.inr (Option.some.inj hlast))
      obtain ⟨segments, hread, hsound, hcap⟩ := ih hnot h
      have hsized : IsSized marker :=
        ⟨hfill, fun hnine => hend (.inl hnine), fun hten => hend (.inr hten), hbare⟩
      have hslice : slice data (i + 2) (i + 4) = (data.drop (i + 2)).take 2 := by
        rw [slice]
        congr 1
        omega
      rw [hslice, ← List.drop_drop] at hread
      obtain ⟨payload, hpayload, -, hsize⟩ := exists_payload hread
      have hdrop : data.drop i = 0xFF :: marker :: (sizeBytes payload ++ payload ++
          (data.drop (i + 2)).drop (fromBytes ((data.drop (i + 2)).take 2))) := by
        rw [← hpayload, drop_eq_cons_cons hlt, hff]
      refine ⟨⟨marker, payload⟩ :: segments, hdrop ▸ .sized marker payload hsized hsize hread,
        List.forall_mem_cons.mpr ⟨hhere, hsound⟩, ?_⟩
      rw [exif_segment hread hsize hdrop] at hcap
      rwa [List.map_cons, List.sum_cons, ← Nat.add_assoc]
  | case5 i hlt hff => simp [unsafeMarkers, hlast] at h
  | case6 i hlt => simp [unsafeMarkers, hlast] at h

/-! ## § What a PNG holds before its end -/

/-- A chunk: its body's length, its kind, its body and a checksum. -/
structure Chunk where
  kind : {bs : Bytes // bs.length = 4}
  body : {bs : Bytes // bs.length < 2 ^ 32}
  crc : {bs : Bytes // bs.length = 4}

def lengthBytes (n : ℕ) : Bytes :=
  [UInt8.ofNat (n / 2 ^ 24), UInt8.ofNat (n / 2 ^ 16 % 256), UInt8.ofNat (n / 2 ^ 8 % 256),
    UInt8.ofNat (n % 256)]

theorem length_lengthBytes (n : ℕ) : (lengthBytes n).length = 4 := rfl

def Chunk.write (c : Chunk) : Bytes :=
  lengthBytes c.body.val.length ++ c.kind.val ++ c.body.val ++ c.crc.val

/-- The bytes open with the length and the kind of a chunk, the rest of which may be cut off. -/
def Opens (bs : Bytes) (length : ℕ) (kind : Bytes) : Prop :=
  8 ≤ bs.length ∧ fromBytes (bs.take 4) = length ∧ (bs.drop 4).take 4 = kind

/-- A chunk that animates, or holds too much EXIF. -/
def Harmful (length : ℕ) (kind : Bytes) : Prop :=
  kind = acTL ∨ kind = eXIf ∧ length > EXIF_CAP

theorem fromBytes_lengthBytes {n : ℕ} (h : n < 2 ^ 32) : fromBytes (lengthBytes n) = n := by
  have hfirst : n / 2 ^ 24 < 256 := by omega
  simp only [lengthBytes, fromBytes, List.foldl_cons, List.foldl_nil, UInt8.toNat_ofNat',
    Nat.mod_eq_of_lt hfirst, Nat.mod_mod]
  omega

theorem lengthBytes_fromBytes {bs : Bytes} (h : bs.length = 4) :
    lengthBytes (fromBytes bs) = bs ∧ fromBytes bs < 2 ^ 32 := by
  match bs, h with
  | [a, b, c, d], _ =>
      have ha := a.toNat_lt
      have hb := b.toNat_lt
      have hc := c.toNat_lt
      have hd := d.toNat_lt
      have hsize : fromBytes [a, b, c, d] =
          256 * (256 * (256 * a.toNat + b.toNat) + c.toNat) + d.toNat := by
        simp [fromBytes]
      rw [hsize]
      refine ⟨?_, by omega⟩
      have h1 : (256 * (256 * (256 * a.toNat + b.toNat) + c.toNat) + d.toNat) / 2 ^ 24 =
        a.toNat := by omega
      have h2 : (256 * (256 * (256 * a.toNat + b.toNat) + c.toNat) + d.toNat) / 2 ^ 16 % 256 =
        b.toNat := by omega
      have h3 : (256 * (256 * (256 * a.toNat + b.toNat) + c.toNat) + d.toNat) / 2 ^ 8 % 256 =
        c.toNat := by omega
      have h4 : (256 * (256 * (256 * a.toNat + b.toNat) + c.toNat) + d.toNat) % 256 =
        d.toNat := by omega
      rw [lengthBytes, h1, h2, h3, h4]
      simp

theorem Chunk.length_write (c : Chunk) : c.write.length = 12 + c.body.val.length := by
  simp only [Chunk.write, List.length_append, c.kind.2, c.crc.2]
  simp [lengthBytes]
  omega

/-- A chunk opens as it says. -/
theorem Chunk.opens (c : Chunk) (rest : Bytes) :
    Opens (c.write ++ rest) c.body.val.length c.kind.val := by
  have hsplit : c.write ++ rest =
      lengthBytes c.body.val.length ++ (c.kind.val ++ (c.body.val ++ c.crc.val ++ rest)) := by
    simp [Chunk.write]
  refine ⟨?_, ?_, ?_⟩
  · rw [List.length_append, c.length_write]
    omega
  · rw [hsplit, List.take_left' (length_lengthBytes _), fromBytes_lengthBytes c.body.2]
  · rw [hsplit, List.drop_left' (length_lengthBytes _), List.take_left' c.kind.2]

/-- Bytes long enough for the chunk they open with start with it. -/
theorem exists_chunk {length : ℕ} {kind : Bytes} (h : Opens bs length kind)
    (hlong : 12 + length ≤ bs.length) : ∃ c : Chunk, c.body.val.length = length ∧
      c.kind.val = kind ∧ bs = c.write ++ bs.drop (12 + length) := by
  obtain ⟨height, hlength, hkind⟩ := h
  have hfour : (bs.take 4).length = 4 := by
    rw [List.length_take]
    omega
  obtain ⟨hbytes, hsize⟩ := lengthBytes_fromBytes hfour
  rw [hlength] at hbytes hsize
  have hbody : (((bs.drop 8).take length)).length = length := by
    rw [List.length_take, List.length_drop]
    omega
  refine ⟨⟨⟨(bs.drop 4).take 4, by rw [List.length_take, List.length_drop]; omega⟩,
    ⟨(bs.drop 8).take length, by rwa [hbody]⟩,
    ⟨(bs.drop (8 + length)).take 4, by rw [List.length_take, List.length_drop]; omega⟩⟩,
    hbody, hkind, ?_⟩
  have hcut : ∀ k n, (bs.drop k).take n ++ bs.drop (k + n) = bs.drop k := fun k n => by
    rw [← List.drop_drop, List.take_append_drop]
  simp only [Chunk.write, hbody, hbytes, List.append_assoc]
  rw [show 12 + length = 8 + length + 4 by omega, hcut, hcut, hcut 4 4, List.take_append_drop]

/-! ## § The walk over chunks -/

theorem opens_drop (h : i + 8 ≤ data.length) :
    Opens (data.drop i) (fromBytes (slice data i (i + 4))) (slice data (i + 4) (i + 8)) := by
  refine ⟨by rw [List.length_drop]; omega, ?_, ?_⟩
  · rw [slice, Nat.add_sub_cancel_left]
  · rw [slice, List.drop_drop]
    congr 1
    omega

theorem unsafeChunks_of_opens {length : ℕ} {kind : Bytes} (h : Opens (data.drop i) length kind) :
    unsafeChunks data i =
      if kind = acTL ∨ kind = eXIf ∧ length > EXIF_CAP then true
      else if kind = IEND then false
      else unsafeChunks data (i + 12 + length) := by
  have hlong : i + 8 ≤ data.length := by
    have := h.1
    rw [List.length_drop] at this
    omega
  obtain ⟨-, hlength, hkind⟩ := opens_drop hlong
  obtain ⟨-, rfl, rfl⟩ := h
  rw [unsafeChunks, if_pos hlong]
  simp only [hlength, hkind]

/-- The bytes are some chunks before the end, then the opening of a harmful one. -/
def Harms (bs : Bytes) : Prop :=
  ∃ (chunks : List Chunk) (tail : Bytes) (length : ℕ) (kind : Bytes),
    bs = chunks.flatMap Chunk.write ++ tail ∧ (∀ c ∈ chunks, c.kind.val ≠ IEND) ∧
      Opens tail length kind ∧ Harmful length kind

/-- **The walk finds what harms**, wherever it stands. -/
theorem unsafeChunks_iff : unsafeChunks data i = true ↔ Harms (data.drop i) := by
  constructor
  · intro h
    fun_induction unsafeChunks data i with
    | case1 i hlong length kind hharmful =>
        exact ⟨[], _, length, kind, rfl, fun c hc => (by cases hc), opens_drop hlong, hharmful⟩
    | case2 => cases h
    | case3 i hlong length kind =>
        rename_i hkind ih
        obtain ⟨chunks, tail, length', kind', hdrop, hkinds, hopens, hharmful⟩ := ih h
        have hlength := congrArg List.length hdrop
        rw [List.length_append, List.length_drop] at hlength
        have htail := hopens.1
        obtain ⟨c, hbody, hc, hsplit⟩ := exists_chunk (opens_drop hlong) (by
          rw [List.length_drop]
          omega)
        refine ⟨c :: chunks, tail, length', kind', ?_, List.forall_mem_cons.mpr ⟨?_, hkinds⟩,
          hopens, hharmful⟩
        · rw [hsplit, List.drop_drop, ← Nat.add_assoc, hdrop, List.flatMap_cons, List.append_assoc]
        · rwa [hc]
    | case4 => cases h
  · rintro ⟨chunks, tail, length, kind, hdrop, hkinds, hopens, hharmful⟩
    induction chunks generalizing i with
    | nil =>
        rw [List.flatMap_nil, List.nil_append] at hdrop
        rw [← hdrop] at hopens
        rw [unsafeChunks_of_opens hopens]
        exact if_pos hharmful
    | cons c chunks ih =>
        rw [List.flatMap_cons, List.append_assoc] at hdrop
        have hopens' := c.opens (chunks.flatMap Chunk.write ++ tail)
        rw [← hdrop] at hopens'
        obtain ⟨hkind, hkinds⟩ := List.forall_mem_cons.mp hkinds
        rw [unsafeChunks_of_opens hopens', if_neg hkind]
        split_ifs
        · rfl
        · refine ih ?_ hkinds
          rw [Nat.add_assoc, ← List.drop_drop, hdrop, ← c.length_write]
          exact List.drop_left' rfl

/-- **What reaches the decoder.** A file that starts as a JPEG passes just when it is segments up
to a scan, none of them `FF00` or a lossless frame, with at most `EXIF_CAP` bytes of EXIF; one that
starts as a PNG, just when no chunk that harms opens before its end; any other passes. -/
theorem unsafeContainer_eq_false : unsafeContainer data = false ↔
    (slice data 0 2 = [0xFF, 0xD8] → ∃ segments, Reads (data.drop 2) segments ∧
      (∀ s ∈ segments, s.Sound) ∧ (segments.map Segment.exif).sum ≤ EXIF_CAP) ∧
    (slice data 0 8 = PNG_SIGNATURE → ¬ Harms (data.drop 8)) := by
  unfold unsafeContainer
  by_cases hjpeg : slice data 0 2 = [0xFF, 0xD8]
  · have hpng : slice data 0 8 ≠ PNG_SIGNATURE := by
      intro hpng
      have hhead : (slice data 0 8).take 2 = slice data 0 2 := by
        simp [slice, List.take_take]
      rw [hpng, hjpeg] at hhead
      exact absurd hhead (by decide)
    rw [if_pos hjpeg]
    constructor
    · intro h
      obtain ⟨segments, hread, hsound, hcap⟩ := reads_of_safe (by decide) h
      rw [Nat.zero_add] at hcap
      exact ⟨fun _ => ⟨segments, hread, hsound, hcap⟩, fun h => absurd h hpng⟩
    · rintro ⟨h, -⟩
      obtain ⟨segments, hread, hsound, hcap⟩ := h hjpeg
      exact safe_of_reads hread rfl hsound (by rwa [Nat.zero_add])
  · rw [if_neg hjpeg]
    by_cases hpng : slice data 0 8 = PNG_SIGNATURE
    · rw [if_pos hpng, ← Bool.not_eq_true, unsafeChunks_iff]
      exact ⟨fun h => ⟨fun hhead => absurd hhead hjpeg, fun _ => h⟩, fun h => h.2 hpng⟩
    · rw [if_neg hpng]
      exact ⟨fun _ => ⟨fun h => absurd h hjpeg, fun h => absurd h hpng⟩, fun _ => rfl⟩

end Ziftbook.Photos
