import Ziftbook.Services.Saves

/-!
# Photos in use, and photos swept

Storing a photo, naming it in the service's row and deleting the one before are steps of their
own, and any of them may be the last. A photo in use has both its objects, so long as a photo
being deleted is not saved again meanwhile; and an object no service uses is being saved, or is
to be deleted, so long as no Save fails once it began to store.
-/

namespace Ziftbook.Services

open Foundation Foundation.Runs

/-- The photo a Save is storing, or has stored. -/
def Task.saved? : Task → Option PhotoKey
  | .putThumb save photo => some (save.key photo)
  | .putDetail save photo => some (save.key photo)
  | .commit save stored => stored.map save.key
  | .check _ _ => none
  | .delete _ _ => none

/-- The photo an attempt asks about, and the one it deletes. -/
def Task.checked? : Task → Option PhotoKey
  | .check _ key => some key
  | _ => none

def Task.deleted? : Task → Option PhotoKey
  | .delete _ key => some key
  | _ => none

variable {s s' : Shop} {t t' : Studio} {p p' : Pool Studio Task} {key : PhotoKey}
  {stored : Option Photo} {now : ℤ}

/-! ## § What a transaction does to the photos -/

theorem uses_of_services (h : s'.services = s.services) : s'.uses key ↔ s.uses key := by
  unfold Shop.uses
  rw [h]

theorem assignWorkers_same {service : ℕ} {memberIds : List ℕ}
    (h : s.assignWorkers now service memberIds = .ok s') :
    s'.services = s.services ∧ s'.jobs = s.jobs := by
  unfold Shop.assignWorkers at h
  simp only at h
  split_ifs at h
  · cases h
    exact ⟨rfl, rfl⟩
  · cases h
    exact ⟨rfl, rfl⟩

/-- **No other request** touches a photo, or a job. -/
theorem deed_same {deed : Deed} (h : deed.exec s = .ok s') :
    (∀ key, s'.uses key ↔ s.uses key) ∧ s'.jobs = s.jobs := by
  cases deed with
  | replaceWorkers now service memberIds =>
      simp only [Deed.exec, Shop.replaceWorkers] at h
      split at h
      · cases h
      · obtain ⟨hservices, hjobs⟩ := assignWorkers_same h
        exact ⟨fun _ => uses_of_services hservices, hjobs⟩
  | removeMember now memberId =>
      simp only [Deed.exec, Shop.removeMember] at h
      split at h
      · cases h
      · cases h
        exact ⟨fun _ => uses_of_services rfl, rfl⟩
  | acceptInvite user =>
      simp only [Deed.exec, Shop.acceptInvite] at h
      split_ifs at h
      · cases h
        exact ⟨fun _ => uses_of_services rfl, rfl⟩
      · cases h
        exact ⟨fun _ => uses_of_services rfl, rfl⟩
  | changeCurrency now currency confirmed =>
      simp only [Deed.exec, Shop.changeCurrency] at h
      split_ifs at h
      · cases h
        exact ⟨fun _ => Iff.rfl, rfl⟩
      · cases h
        refine ⟨fun key => ⟨?_, ?_⟩, rfl⟩
        · rintro ⟨row, hrow, huses⟩
          obtain ⟨old, hold, rfl⟩ := List.mem_map.mp hrow
          exact ⟨old, hold, huses⟩
        · rintro ⟨row, hrow, huses⟩
          exact ⟨_, List.mem_map.mpr ⟨row, hrow, if_pos trivial⟩, huses⟩
  | book =>
      cases h
      exact ⟨fun _ => uses_of_services rfl, rfl⟩
  | connect =>
      cases h
      exact ⟨fun _ => uses_of_services rfl, rfl⟩

/-- What a Save's transaction does to the photo of a key. -/
structure Shop.Saved (s s' : Shop) (key : PhotoKey) (saved : Option PhotoKey) : Prop where
  /-- A photo comes into use only by its Save. -/
  gained : s'.uses key → s.uses key ∨ saved = some key
  /-- It goes out of use only with a job to delete it. -/
  lost : s.uses key → s'.uses key ∨ ∃ j ∈ s'.jobs.rows, j.key = key ∧ j.done = false
  named : saved = some key → s'.uses key
  jobs : ∀ j ∈ s.jobs.rows, j ∈ s'.jobs.rows

theorem createService_saved {id : ℕ} {new : ServiceIn}
    (h : s.createService now id new stored = .ok s') :
    s.Saved s' key (stored.map (Save.create id new).key) := by
  unfold Shop.createService at h
  cases hinsert : s.services.insert (new.row id s.currency stored) with
  | none => rw [hinsert] at h; cases h
  | some services =>
      obtain ⟨-, hrows⟩ := Table.insert_eq_some hinsert
      simp only [hinsert] at h
      have hsame : s'.services = services ∧ s'.jobs = s.jobs := by
        split_ifs at h
        · cases h
          exact ⟨rfl, rfl⟩
        · exact assignWorkers_same h
      have huses : s'.uses key ↔
          s.uses key ∨ (new.row id s.currency stored).photoKey = some key := by
        unfold Shop.uses
        rw [hsame.1, hrows]
        simp
      exact ⟨huses.mp, fun h => .inl (huses.mpr (.inl h)), fun h => huses.mpr (.inr h),
        fun j hj => hsame.2 ▸ hj⟩

/-- The Save has a photo to store. -/
def Save.stores : Save → Bool
  | .create _ _ => true
  | .update _ _ swap => swap

theorem dropPhoto_kept {swapped : Bool} {old : Option PhotoKey} :
    (s.dropPhoto swapped old).services = s.services ∧
      (∀ j ∈ s.jobs.rows, j ∈ (s.dropPhoto swapped old).jobs.rows) ∧
      (swapped = true → old = some key →
        ∃ j ∈ (s.dropPhoto swapped old).jobs.rows, j.key = key ∧ j.done = false) := by
  unfold Shop.dropPhoto
  split
  · refine ⟨rfl, fun j hj => List.mem_append_left _ hj, fun _ hold => ?_⟩
    cases hold
    exact ⟨_, List.mem_append_right _ (List.mem_singleton_self _), rfl, rfl⟩
  · rename_i hnone
    exact ⟨rfl, fun j hj => hj, fun hswapped hold => (hnone key hswapped hold).elim⟩

/-- The photo a Save brings is the row's already when it is not swapped in. -/
theorem photoKey_of_not_swaps {row : ServiceRow} {photo : Photo}
    (h : row.swaps true (some photo) = false) : row.photoKey = some ⟨row.id, photo.upload⟩ := by
  have hsame : row.photo.map Photo.upload = some photo.upload := by
    simpa [ServiceRow.swaps] using h
  obtain ⟨old, hold, hupload⟩ := Option.map_eq_some_iff.mp hsame
  rw [ServiceRow.photoKey, hold, ← hupload]
  rfl

theorem updateService_saved {id : ℕ} {change : ServiceChange} {swap : Bool}
    (h : s.updateService now id change swap stored = .ok s') (hstores : stored.isSome → swap) :
    s.Saved s' key (stored.map (Save.update id change swap).key) := by
  unfold Shop.updateService at h
  cases hfind : s.services.find id with
  | none => rw [hfind] at h; cases h
  | some row =>
      obtain ⟨hin, rfl⟩ := Table.find_eq_some.mp hfind
      simp only [hfind] at h
      -- a photo brought that is not swapped in is in use as it is
      have hthere : row.swaps swap stored = false →
          stored.map (Save.update row.id change swap).key = some key → row.photoKey = some key := by
        intro hswaps hsaved
        obtain ⟨photo, rfl, rfl⟩ := Option.map_eq_some_iff.mp hsaved
        rw [hstores rfl] at hswaps
        exact photoKey_of_not_swaps hswaps
      split_ifs at h with hempty
      · cases h
        have hswaps : row.swaps swap stored = false := by
          by_contra hswaps
          have hphoto : (change.details row swap stored).photo = none := by rw [hempty]; rfl
          simp [ServiceChange.details, hswaps] at hphoto
        exact ⟨.inl, .inl, fun hsaved => ⟨row, hin, hthere hswaps hsaved⟩, fun j hj => hj⟩
      · simp only [Except.ok.injEq] at h
        set updated := ({ s with
          services := s.services.update (fun r => r.id = row.id) (change.apply now swap stored)
            fun _ => rfl } : Shop) with hupdated
        have hrow : ∀ {r'}, r' ∈ updated.services.rows ↔ ∃ r ∈ s.services.rows,
            (if r.id = row.id then change.apply now swap stored r else r) = r' := List.mem_map
        have hother : ∀ {r}, r ∈ s.services.rows → r.photoKey = some key → r ≠ row →
            updated.uses key := by
          intro r hr huses hne
          have hid : r.id ≠ row.id := fun hid => hne (s.services.eq_of_key hr hin hid)
          exact ⟨r, hrow.mpr ⟨r, hr, if_neg hid⟩, huses⟩
        have hown : (change.apply now swap stored row).photoKey = some key → updated.uses key :=
          fun huses => ⟨_, hrow.mpr ⟨row, hin, if_pos rfl⟩, huses⟩
        have happly : (change.apply now swap stored row).photoKey =
            if row.swaps swap stored then stored.map (Save.update row.id change swap).key
            else row.photoKey := by
          show ((if row.swaps swap stored then stored else row.photo).map fun photo =>
            (⟨row.id, photo.upload⟩ : PhotoKey)) = _
          split <;> rfl
        obtain ⟨hservices, hjobs, hdropped⟩ := @dropPhoto_kept updated key
          (row.swaps swap stored) row.photoKey
        have huses : s'.uses key ↔ updated.uses key := uses_of_services (h ▸ hservices)
        subst h
        refine ⟨fun hused => ?_, ?_, fun hsaved => huses.mpr (hown ?_), hjobs⟩
        · obtain ⟨r', hr', hphoto⟩ := huses.mp hused
          obtain ⟨r, hr, rfl⟩ := hrow.mp hr'
          split_ifs at hphoto with hid
          · obtain rfl := s.services.eq_of_key hr hin hid
            rw [happly] at hphoto
            split_ifs at hphoto
            · exact .inr hphoto
            · exact .inl ⟨r, hr, hphoto⟩
          · exact .inl ⟨r, hr, hphoto⟩
        · rintro ⟨r, hr, hused⟩
          by_cases hne : r = row
          · subst hne
            by_cases hswaps : r.swaps swap stored = true
            · exact .inr (hdropped hswaps hused)
            · refine .inl (huses.mpr (hown ?_))
              rw [happly, if_neg hswaps]
              exact hused
          · exact .inl (huses.mpr (hother hr hused hne))
        · rw [happly]
          split_ifs with hswaps
          · exact hsaved
          · exact hthere (Bool.eq_false_iff.mpr hswaps) hsaved

/-- **A Save's transaction** brings its photo into use, and what it takes out of use is to be
deleted. -/
theorem commit_saved {save : Save} (h : save.commit s now stored = .ok s')
    (hstores : stored.isSome → save.stores) : s.Saved s' key (stored.map save.key) := by
  cases save with
  | create id new => exact createService_saved h
  | update id change swap => exact updateService_saved h hstores

/-! ## § The tasks -/

/-- A Save with a photo was to store one, and an attempt is at a job on file. -/
def Task.Sound (s : Studio) : Task → Prop
  | .putThumb save _ => save.stores
  | .putDetail save _ => save.stores
  | .commit save stored => stored.isSome → save.stores
  | .check job key => ∃ j ∈ s.shop.jobs.rows, j.id = job ∧ j.key = key
  | .delete job key => ∃ j ∈ s.shop.jobs.rows, j.id = job ∧ j.key = key

/-- Jobs stay on file, at the photos they are for. -/
def JobsKept (s s' : Shop) : Prop :=
  ∀ j ∈ s.jobs.rows, ∃ j' ∈ s'.jobs.rows, j'.id = j.id ∧ j'.key = j.key

theorem jobsKept_of_subset (h : ∀ j ∈ s.jobs.rows, j ∈ s'.jobs.rows) : JobsKept s s' :=
  fun j hj => ⟨j, h j hj, rfl, rfl⟩

theorem finishJob_kept {job : ℕ} : JobsKept s (s.finishJob job) := by
  intro j hj
  by_cases hjob : j.id = job
  · exact ⟨_, List.mem_map.mpr ⟨j, hj, if_pos hjob⟩, rfl, rfl⟩
  · exact ⟨j, List.mem_map.mpr ⟨j, hj, if_neg hjob⟩, rfl, rfl⟩

theorem sound_of_kept {task : Task} (hkept : JobsKept t.shop t'.shop) (h : task.Sound t) :
    task.Sound t' := by
  have hjob : ∀ {job key}, (∃ j ∈ t.shop.jobs.rows, j.id = job ∧ j.key = key) →
      ∃ j ∈ t'.shop.jobs.rows, j.id = job ∧ j.key = key := by
    rintro job key ⟨j, hj, rfl, rfl⟩
    exact hkept j hj
  cases task with
  | putThumb save photo => exact h
  | putDetail save photo => exact h
  | commit save stored => exact h
  | check job key => exact hjob h
  | delete job key => exact hjob h

theorem deed_kept {deed : Deed} {tasks : List Task} (h : studio.world t tasks deed = some t') :
    (∀ key, t'.shop.uses key ↔ t.shop.uses key) ∧ t'.shop.jobs = t.shop.jobs ∧
      t'.media = t.media := by
  simp only [studio] at h
  cases hexec : deed.exec t.shop with
  | ok shop =>
      rw [hexec] at h
      rw [← Option.some.inj h]
      obtain ⟨huses, hjobs⟩ := deed_same hexec
      exact ⟨huses, hjobs, rfl⟩
  | error refusal =>
      rw [hexec] at h
      rw [← Option.some.inj h]
      exact ⟨fun _ => Iff.rfl, rfl, rfl⟩

/-- What a task does. -/
inductive Ran (t t' : Studio) (chance : Chance) : Task → Option (List Task) → Prop
  | thumb (save : Save) (photo : Photo) : t' = t.put (save.key photo) .thumb →
      Ran t t' chance (.putThumb save photo) (some [.putDetail save photo])
  | detail (save : Save) (photo : Photo) : t' = t.put (save.key photo) .detail →
      Ran t t' chance (.putDetail save photo) (some [.commit save (some photo)])
  | committed (save : Save) (stored : Option Photo) :
      save.commit t.shop chance.now stored = .ok t'.shop → t'.media = t.media →
      Ran t t' chance (.commit save stored) none
  | refused (save : Save) (stored : Option Photo) (refusal : Refusal) :
      save.commit t.shop chance.now stored = .error refusal → t' = t →
      Ran t t' chance (.commit save stored) none
  | used (job : ℕ) (key : PhotoKey) : t.shop.uses key →
      t' = { t with shop := t.shop.finishJob job } → Ran t t' chance (.check job key) none
  | unused (job : ℕ) (key : PhotoKey) : ¬ t.shop.uses key → t' = t →
      Ran t t' chance (.check job key) (some [.delete job key])
  | failed (job : ℕ) (key : PhotoKey) : t' = t.deletePrefix key chance.refused →
      Ran t t' chance (.delete job key) none
  | deleted (job : ℕ) (key : PhotoKey) : (∀ v ∈ chance.refused, (key, v) ∉ t.media) →
      t' = { t.deletePrefix key chance.refused with shop := t.shop.finishJob job } →
      Ran t t' chance (.delete job key) none

theorem ran {task : Task} {chance : Chance} {next : Option (List Task)}
    (h : t.exec task chance = some (t', next)) : Ran t t' chance task next := by
  cases task with
  | putThumb save photo =>
      cases h
      exact .thumb save photo rfl
  | putDetail save photo =>
      cases h
      exact .detail save photo rfl
  | commit save stored =>
      simp only [Studio.exec] at h
      cases hcommit : save.commit t.shop chance.now stored with
      | ok shop =>
          rw [hcommit] at h
          cases h
          exact .committed save stored hcommit rfl
      | error refusal =>
          rw [hcommit] at h
          cases h
          exact .refused save stored refusal hcommit rfl
  | check job key =>
      simp only [Studio.exec] at h
      split_ifs at h with huses
      · cases h
        exact .used job key huses rfl
      · cases h
        exact .unused job key huses rfl
  | delete job key =>
      simp only [Studio.exec] at h
      split_ifs at h with hrefused
      · cases h
        exact .failed job key rfl
      · cases h
        exact .deleted job key (fun v hv hin => hrefused ⟨v, hv, hin⟩) rfl

theorem ran_kept {task : Task} {chance : Chance} {next : Option (List Task)}
    (hsound : task.Sound t) (h : Ran t t' chance task next) : JobsKept t.shop t'.shop := by
  cases h with
  | thumb save photo ht => exact jobsKept_of_subset fun j hj => ht ▸ hj
  | detail save photo ht => exact jobsKept_of_subset fun j hj => ht ▸ hj
  | committed save stored hcommit _ =>
      have hsaved : t.shop.Saved t'.shop ⟨0, 0⟩ _ := commit_saved hcommit hsound
      exact jobsKept_of_subset hsaved.jobs
  | refused save stored refusal _ ht => exact jobsKept_of_subset fun j hj => ht ▸ hj
  | used job key _ ht => exact ht ▸ finishJob_kept
  | unused job key _ ht => exact jobsKept_of_subset fun j hj => ht ▸ hj
  | failed job key ht => exact jobsKept_of_subset fun j hj => ht ▸ hj
  | deleted job key _ ht => exact ht ▸ finishJob_kept

/-- A Save starts with its photo's first object, or with nothing to store. -/
theorem started {begun : Begun} {tasks : List Task} (h : t.start begun = some (t', tasks)) :
    t' = t ∧ ∃ task, tasks = [task] ∧ task.Sound t ∧
      ((∃ save photo, task = .putThumb save photo) ∨ (∃ save, task = .commit save none) ∨
        ∃ job key, task = .check job key) := by
  have hsave : ∀ (save : Save) (upload : Option Photo), (upload.isSome → save.stores) →
      ∃ task, save.tasks upload = [task] ∧ task.Sound t ∧
        ((∃ save photo, task = .putThumb save photo) ∨ (∃ save, task = .commit save none) ∨
          ∃ job key, task = .check job key) := by
    intro save upload hstores
    cases upload with
    | none => exact ⟨_, rfl, fun h => (by cases h), .inr (.inl ⟨save, rfl⟩)⟩
    | some photo => exact ⟨_, rfl, hstores rfl, .inl ⟨save, photo, rfl⟩⟩
  cases begun with
  | create id new upload =>
      cases h
      exact ⟨rfl, hsave _ _ fun _ => rfl⟩
  | update id change upload =>
      obtain ⟨row, -, h⟩ := Option.map_eq_some_iff.mp h
      cases h
      refine ⟨rfl, hsave _ _ fun hsome => ?_⟩
      show row.wants upload = true
      by_contra hnot
      rw [if_neg hnot] at hsome
      cases hsome
  | attempt job =>
      obtain ⟨j, hfind, h⟩ := Option.bind_eq_some_iff.mp h
      split_ifs at h
      cases h
      obtain ⟨hj, hid⟩ := Table.find_eq_some.mp hfind
      exact ⟨rfl, _, rfl, ⟨j, hj, hid, rfl⟩, .inr (.inr ⟨job, j.key, rfl⟩)⟩

/-- The tasks of a run are sound. -/
theorem sound_step {m : StudioMove} (h : Pool.Invariant (fun _ => True) Task.Sound p)
    (hstep : Pool.step studio p m = some p') :
    Pool.Invariant (fun _ => True) Task.Sound p' := by
  refine Pool.invariant_step ?_ ?_ ?_ h hstep
  · intro s ts deed s' _ hok hdeed
    obtain ⟨-, hjobs, -⟩ := deed_kept hdeed
    exact ⟨trivial, fun task htask =>
      sound_of_kept (jobsKept_of_subset fun j hj => hjobs ▸ hj) (hok task htask)⟩
  · intro s begun s' ts _ hstart
    obtain ⟨rfl, task, rfl, hsound, -⟩ := started hstart
    exact ⟨trivial, fun u hu => List.mem_singleton.mp hu ▸ hsound, fun u hu => hu⟩
  · intro s task chance s' next _ hsound hexec
    have hran := ran hexec
    have hkept := ran_kept hsound hran
    refine ⟨trivial, ?_, fun u hu => sound_of_kept hkept hu⟩
    rintro ts rfl u hu
    cases hran with
    | thumb save photo _ => exact List.mem_singleton.mp hu ▸ hsound
    | detail save photo _ => exact List.mem_singleton.mp hu ▸ fun _ => hsound
    | unused job key _ ht =>
        subst ht
        exact List.mem_singleton.mp hu ▸ hsound

/-! ## § A photo in use has its objects -/

/-- The variants stored before a task. -/
def Task.puts : Task → List Variant
  | .putThumb _ _ => []
  | .putDetail _ _ => [.thumb]
  | .commit _ _ => [.thumb, .detail]
  | .check _ _ => []
  | .delete _ _ => []

/-- A photo being deleted is not saved again: no Save of it starts while its deletion is under
way, and no deletion goes ahead of it while a Save is. -/
def Apart (key : PhotoKey) (p : Pool Studio Task) : StudioMove → Prop
  | .start begun =>
      (∀ r ∈ p.shared.start begun, ∀ t ∈ r.2, t.saved? ≠ some key) ∨
        ∀ t ∈ p.tasks, t.deleted? ≠ some key
  | .go i _ =>
      (∀ t ∈ p.head i, t.checked? ≠ some key) ∨ p.shared.shop.uses key ∨
        ∀ t ∈ p.tasks, t.saved? ≠ some key
  | _ => True

instance apartDecidable (key : PhotoKey) (p : Pool Studio Task) :
    (m : StudioMove) → Decidable (Apart key p m)
  | .world _ => .isTrue trivial
  | .start _ => inferInstanceAs (Decidable (_ ∨ _))
  | .go _ _ => inferInstanceAs (Decidable (_ ∨ _ ∨ _))
  | .die _ => .isTrue trivial

/-- What holds of a photo's objects along such a run. -/
structure Kept (key : PhotoKey) (p : Pool Studio Task) : Prop where
  sound : Pool.Invariant (fun _ => True) Task.Sound p
  used : p.shared.shop.uses key → ∀ v, (key, v) ∈ p.shared.media
  underway : ∀ t ∈ p.tasks, t.saved? = some key → ∀ v ∈ t.puts, (key, v) ∈ p.shared.media
  apart : ∀ t ∈ p.tasks, t.deleted? = some key →
    ¬ p.shared.shop.uses key ∧ ∀ u ∈ p.tasks, u.saved? ≠ some key

/-- A step that deletes nothing and brings no photo into use keeps this, when its tasks may. -/
theorem kept_of {p p' : Pool Studio Task} (h : Kept key p)
    (hsound : Pool.Invariant (fun _ => True) Task.Sound p')
    (hmedia : ∀ o ∈ p.shared.media, o ∈ p'.shared.media)
    (huses : p'.shared.shop.uses key → p.shared.shop.uses key)
    (hstored : ∀ t ∈ p'.tasks, t ∈ p.tasks ∨
      (t.saved? = some key → (∀ t ∈ p.tasks, t.deleted? ≠ some key) ∧
        ∀ v ∈ t.puts, (key, v) ∈ p'.shared.media))
    (hdeletes : ∀ t ∈ p'.tasks, t.deleted? = some key → t ∈ p.tasks) : Kept key p' where
  sound := hsound
  used := fun hused v => hmedia _ (h.used (huses hused) v)
  underway := by
    intro t ht hsaved v hv
    rcases hstored t ht with hold | hnew
    · exact hmedia _ (h.underway t hold hsaved v hv)
    · exact (hnew hsaved).2 v hv
  apart := by
    intro t ht hdelete
    obtain ⟨hunused, hnone⟩ := h.apart t (hdeletes t ht hdelete) hdelete
    refine ⟨fun hused => hunused (huses hused), fun u hu hsaved => ?_⟩
    rcases hstored u hu with hold | hnew
    · exact hnone u hold hsaved
    · exact (hnew hsaved).1 t (hdeletes t ht hdelete) hdelete

/-- A deletion leaves the objects of every other photo. -/
theorem mem_deletePrefix {other : PhotoKey} {refused : List Variant} {v : Variant}
    (hne : key ≠ other) : (key, v) ∈ (t.deletePrefix other refused).media ↔ (key, v) ∈ t.media := by
  simp [Studio.deletePrefix, hne]

/-- The deletion of a photo that is neither used nor saved, or of another. -/
theorem kept_delete {job : ℕ} {other : PhotoKey} {refused : List Variant} (h : Kept key p)
    (hsound : Pool.Invariant (fun _ => True) Task.Sound p')
    (htask : .delete job other ∈ p.tasks) (htasks : ∀ t ∈ p'.tasks, t ∈ p.tasks)
    (hmedia : p'.shared.media = (p.shared.deletePrefix other refused).media)
    (hservices : p'.shared.shop.services = p.shared.shop.services) : Kept key p' := by
  have huses : p'.shared.shop.uses key ↔ p.shared.shop.uses key := uses_of_services hservices
  have hobject : ∀ {v}, key ≠ other → (key, v) ∈ p.shared.media → (key, v) ∈ p'.shared.media :=
    fun hne hin => hmedia ▸ (mem_deletePrefix hne).mpr hin
  by_cases hthis : key = other
  · obtain ⟨hunused, hnone⟩ := h.apart _ htask (by rw [hthis]; rfl)
    exact ⟨hsound, fun hused => absurd (huses.mp hused) hunused,
      fun t ht hsaved => absurd hsaved (hnone t (htasks t ht)), fun t ht hdelete =>
        ⟨fun hused => hunused (huses.mp hused), fun u hu => hnone u (htasks u hu)⟩⟩
  · refine ⟨hsound, fun hused v => hobject hthis (h.used (huses.mp hused) v),
      fun t ht hsaved v hv => hobject hthis (h.underway t (htasks t ht) hsaved v hv),
      fun t ht hdelete => ?_⟩
    obtain ⟨hunused, hnone⟩ := h.apart t (htasks t ht) hdelete
    exact ⟨fun hused => hunused (huses.mp hused), fun u hu => hnone u (htasks u hu)⟩

/-- A task that has run, in a thread of the pool. -/
theorem kept_ran {task : Task} {chance : Chance} {next : Option (List Task)} (h : Kept key p)
    (hsound : Pool.Invariant (fun _ => True) Task.Sound p') (htask : task ∈ p.tasks)
    (hcheck : task.checked? ≠ some key ∨ p.shared.shop.uses key ∨
      ∀ t ∈ p.tasks, t.saved? ≠ some key)
    (htasks : ∀ t ∈ p'.tasks, t ∈ p.tasks ∨ ∃ ts, next = some ts ∧ t ∈ ts)
    (hran : Ran p.shared p'.shared chance task next) : Kept key p' := by
  have hend : next = none → ∀ t ∈ p'.tasks, t ∈ p.tasks := by
    rintro rfl t ht
    exact (htasks t ht).resolve_right fun ⟨ts, hts, _⟩ => (by cases hts)
  have hnext : ∀ {u}, next = some [u] → ∀ t ∈ p'.tasks, t ∈ p.tasks ∨ t = u := by
    rintro u rfl t ht
    refine (htasks t ht).imp id ?_
    rintro ⟨ts, hts, hin⟩
    cases hts
    exact List.mem_singleton.mp hin
  -- nothing deletes what is being saved
  have hown : task.saved? = some key → ∀ t ∈ p.tasks, t.deleted? ≠ some key :=
    fun hsaved t ht hdelete => (h.apart t ht hdelete).2 task htask hsaved
  cases hran with
  | thumb save photo hp' =>
      refine kept_of h hsound (fun o ho => hp' ▸ List.mem_cons_of_mem _ ho)
        (fun hused => by rwa [hp'] at hused) (fun t ht => (hnext rfl t ht).imp id ?_)
        fun t ht hdelete => (hnext rfl t ht).resolve_right ?_
      · rintro rfl hsaved
        refine ⟨hown hsaved, fun v hv => ?_⟩
        rw [List.mem_singleton.mp hv, hp', ← Option.some.inj hsaved]
        exact List.mem_cons_self ..
      · rintro rfl
        cases hdelete
  | detail save photo hp' =>
      refine kept_of h hsound (fun o ho => hp' ▸ List.mem_cons_of_mem _ ho)
        (fun hused => by rwa [hp'] at hused) (fun t ht => (hnext rfl t ht).imp id ?_)
        fun t ht hdelete => (hnext rfl t ht).resolve_right ?_
      · rintro rfl hsaved
        refine ⟨hown hsaved, fun v hv => ?_⟩
        have hthumb := h.underway _ htask hsaved .thumb (List.mem_singleton_self _)
        rw [← Option.some.inj hsaved] at hthumb ⊢
        rw [hp']
        cases v with
        | thumb => exact List.mem_cons_of_mem _ hthumb
        | detail => exact List.mem_cons_self ..
      · rintro rfl
        cases hdelete
  | committed save stored hcommit hmedia =>
      have hsaved : p.shared.shop.Saved p'.shared.shop key _ :=
        commit_saved hcommit (h.sound.tasks _ htask)
      refine ⟨hsound, fun hused v => hmedia ▸ ?_, fun t ht hsaved v hv => hmedia ▸
        h.underway t (hend rfl t ht) hsaved v hv, fun t ht hdelete => ?_⟩
      · rcases hsaved.gained hused with hused | hown
        · exact h.used hused v
        · -- its photo was stored before it came into use
          refine h.underway _ htask hown v ?_
          cases v with
          | thumb => exact List.mem_cons_self ..
          | detail => exact List.mem_cons_of_mem _ (List.mem_singleton_self _)
      · obtain ⟨hunused, hnone⟩ := h.apart t (hend rfl t ht) hdelete
        exact ⟨fun hused => (hsaved.gained hused).elim hunused (hnone _ htask),
          fun u hu => hnone u (hend rfl u hu)⟩
  | refused save stored refusal _ hp' =>
      exact kept_of h hsound (fun o ho => hp' ▸ ho) (fun hused => hp' ▸ hused)
        (fun t ht => .inl (hend rfl t ht)) fun t ht _ => hend rfl t ht
  | used job other _ hp' =>
      refine kept_of h hsound (fun o ho => hp' ▸ ho) (fun hused => ?_)
        (fun t ht => .inl (hend rfl t ht)) fun t ht _ => hend rfl t ht
      rw [hp'] at hused
      exact hused
  | unused job other hunused hp' =>
      by_cases hthis : other = key
      · subst hthis
        have hnone := (hcheck.resolve_left fun hnot => hnot rfl).resolve_left hunused
        have hnone' : ∀ t ∈ p'.tasks, t.saved? ≠ some other := by
          intro t ht
          rcases hnext rfl t ht with hold | rfl
          · exact hnone t hold
          · exact fun hsaved => by cases hsaved
        exact ⟨hsound, fun hused => absurd (hp' ▸ hused) hunused,
          fun t ht hsaved => absurd hsaved (hnone' t ht),
          fun t ht hdelete => ⟨hp' ▸ hunused, hnone'⟩⟩
      · refine kept_of h hsound (fun o ho => hp' ▸ ho) (fun hused => hp' ▸ hused)
          (fun t ht => (hnext rfl t ht).imp id ?_)
          fun t ht hdelete => (hnext rfl t ht).resolve_right ?_
        · rintro rfl hsaved
          cases hsaved
        · rintro rfl
          cases hdelete
          exact hthis rfl
  | failed job other hp' =>
      exact kept_delete h hsound htask (hend rfl) (congrArg Studio.media hp')
        (congrArg (fun t => t.shop.services) hp')
  | deleted job other _ hp' =>
      have hmedia : p'.shared.media = (p.shared.deletePrefix other chance.refused).media := by
        rw [hp']
      exact kept_delete h hsound htask (hend rfl) hmedia (congrArg (fun t => t.shop.services) hp')

theorem kept_step {m : StudioMove} (h : Kept key p) (hapart : Apart key p m)
    (hstep : Pool.step studio p m = some p') : Kept key p' := by
  have hsound := sound_step h.sound hstep
  cases Pool.stepped hstep with
  | world deed hdeed hthreads =>
      obtain ⟨huses, -, hmedia⟩ := deed_kept hdeed
      have htasks : p'.tasks = p.tasks := by rw [Pool.tasks, hthreads, Pool.tasks]
      exact kept_of h hsound (fun o ho => hmedia ▸ ho) (huses key).mp
        (fun t ht => .inl (htasks ▸ ht)) fun t ht _ => htasks ▸ ht
  | start begun ts hstart hthreads =>
      obtain ⟨hshared, task, rfl, -, hkind⟩ := started hstart
      have htasks : ∀ t ∈ p'.tasks, t ∈ p.tasks ∨ t = task := by
        intro t ht
        rw [Pool.tasks, hthreads, List.flatten_append, List.mem_append] at ht
        exact ht.imp id fun ht => by simpa using ht
      refine kept_of h hsound (fun o ho => hshared ▸ ho) (fun hused => hshared ▸ hused)
        (fun t ht => (htasks t ht).imp id ?_) fun t ht hdelete => (htasks t ht).resolve_right ?_
      · rintro rfl hsaved
        have hnone := hapart.resolve_left fun hnone =>
          hnone _ hstart t (List.mem_singleton_self t) hsaved
        refine ⟨hnone, ?_⟩
        obtain ⟨save, photo, rfl⟩ | ⟨save, rfl⟩ | ⟨job, key, rfl⟩ := hkind
        · exact fun v hv => (by cases hv)
        · cases hsaved
        · cases hsaved
      · rintro rfl
        obtain ⟨save, photo, rfl⟩ | ⟨save, rfl⟩ | ⟨job, key, rfl⟩ := hkind
        · cases hdelete
        · cases hdelete
        · cases hdelete
  | go i chance task rest next hthread hexec hthreads =>
      refine kept_ran h hsound (Pool.mem_tasks_of_getElem hthread (List.mem_cons_self ..))
        (hapart.imp (fun hcheck => ?_) id)
        (fun t ht => Pool.mem_tasks_of_set hthread hthreads ht) (ran hexec)
      exact hcheck task (Pool.head_eq_some.mpr ⟨rest, hthread⟩)
  | die i hshared hthreads =>
      have htasks : ∀ t ∈ p'.tasks, t ∈ p.tasks := fun t ht => Pool.mem_tasks_die hthreads ht
      exact kept_of h hsound (fun o ho => hshared ▸ ho) (fun hused => hshared ▸ hused)
        (fun t ht => .inl (htasks t ht)) fun t ht _ => htasks t ht

theorem opened_kept {currency : Currency} : Kept key (Studio.opened currency) where
  sound := Pool.invariant_empty trivial
  used := by
    rintro ⟨row, hrow, -⟩
    cases hrow
  underway := fun t ht => (by cases ht)
  apart := fun t ht => (by cases ht)

/-- **A photo in use has both its objects**, in every run in which the photo is not saved again
while it is being deleted, whatever else runs beside it, stops or is refused. -/
theorem photos_kept {currency : Currency} {ms : List StudioMove}
    (hrun : run (Pool.step studio) (Studio.opened currency) ms = some p)
    (hapart : Along (Pool.step studio) (Apart key) (Studio.opened currency) ms)
    (huses : p.shared.shop.uses key) : ∀ v, (key, v) ∈ p.shared.media :=
  (run_invariant (fun _ _ _ => kept_step) opened_kept hapart hrun).used huses

/-- A photo replaced by another, and the one before deleted while a Save of it dies. -/
def replacing : List StudioMove :=
  [.start (.create 1 ⟨⟨some [110], none, none⟩, ⟨none, none, none⟩, ⟨450, by decide⟩,
      ⟨45, by decide⟩, none, [], .nails⟩ (some ⟨2, 8, 8⟩)),
    .go 0 ⟨3, []⟩, .go 0 ⟨3, []⟩, .go 0 ⟨3, []⟩,
    .start (.update 1 ⟨none, none, none, none, none, none, none⟩ (some (some ⟨4, 9, 9⟩))),
    .go 1 ⟨5, []⟩, .go 1 ⟨5, []⟩, .go 1 ⟨5, []⟩,
    .start (.attempt 1), .go 2 ⟨6, []⟩, .go 2 ⟨6, [.detail]⟩,
    .start (.attempt 1), .start (.update 1 ⟨none, none, none, none, none, none, none⟩ (some none)),
    .die 4]

theorem photos_kept_replaced : ∃ p,
    run (Pool.step studio) (Studio.opened .brl) replacing = some p ∧
      p.shared.media = [(⟨1, 4⟩, .detail), (⟨1, 4⟩, .thumb), (⟨1, 2⟩, .detail)] ∧
      ∀ v, (⟨1, 4⟩, v) ∈ p.shared.media := by
  have hmedia : (run (Pool.step studio) (Studio.opened .brl) replacing).map (fun p =>
    (p.shared.media, decide (p.shared.shop.uses ⟨1, 4⟩))) = some (_, true) := rfl
  obtain ⟨p, hrun, hp⟩ := Option.map_eq_some_iff.mp hmedia
  obtain ⟨hmedia, huses⟩ := Prod.mk.inj hp
  exact ⟨p, hrun, hmedia, photos_kept hrun (by decide +kernel) (of_decide_eq_true huses)⟩

/-! ## § An object is in use, or to be deleted -/

/-- The transaction a Save comes to is refused. -/
def Task.refused (s : Shop) (now : ℤ) : Task → Bool
  | .commit save stored => !(save.commit s now stored).isOk
  | _ => false

/-- A Save of the photo does not stop once it began to store, and is not refused. -/
def Unfailed (key : PhotoKey) (p : Pool Studio Task) : StudioMove → Prop
  | .die i => ∀ t ∈ p.head i, t.saved? ≠ some key
  | .go i chance => ∀ t ∈ p.head i, t.saved? = some key →
      t.refused p.shared.shop chance.now = false
  | _ => True

instance unfailedDecidable (key : PhotoKey) (p : Pool Studio Task) :
    (m : StudioMove) → Decidable (Unfailed key p m)
  | .world _ => .isTrue trivial
  | .start _ => .isTrue trivial
  | .go i _ => inferInstanceAs (Decidable (∀ t ∈ p.head i, _))
  | .die i => inferInstanceAs (Decidable (∀ t ∈ p.head i, _))

/-- An object is of a photo in use, of one being saved, or of one with a job left to delete it. -/
structure Swept (key : PhotoKey) (p : Pool Studio Task) : Prop where
  sound : Pool.Invariant (fun _ => True) Task.Sound p
  held : ∀ v, (key, v) ∈ p.shared.media → p.shared.shop.uses key ∨
    (∃ i t, p.head i = some t ∧ t.saved? = some key) ∨
      ∃ j ∈ p.shared.shop.jobs.rows, j.key = key ∧ j.done = false

/-- What no step but a Save's own, or its deletion's, does to a photo. -/
theorem swept_of {p p' : Pool Studio Task} (h : Swept key p)
    (hsound : Pool.Invariant (fun _ => True) Task.Sound p')
    (hmedia : ∀ v, (key, v) ∈ p'.shared.media → (key, v) ∈ p.shared.media)
    (huses : p.shared.shop.uses key → p'.shared.shop.uses key)
    (hheads : ∀ i t, p.head i = some t → t.saved? = some key → p'.shared.shop.uses key ∨
      ∃ i t, p'.head i = some t ∧ t.saved? = some key)
    (hjobs : ∀ j ∈ p.shared.shop.jobs.rows, j.key = key → j.done = false →
      p'.shared.shop.uses key ∨ j ∈ p'.shared.shop.jobs.rows) : Swept key p' := by
  refine ⟨hsound, fun v hv => ?_⟩
  rcases h.held v (hmedia v hv) with hused | ⟨i, t, hi, hsaved⟩ | ⟨j, hj, hkey, hdone⟩
  · exact .inl (huses hused)
  · exact (hheads i t hi hsaved).imp id .inl
  · exact (hjobs j hj hkey hdone).imp id fun hj => .inr ⟨j, hj, hkey, hdone⟩

/-- An object stored for a Save that goes on. -/
theorem swept_put {other : PhotoKey} {w : Variant} (h : Swept key p)
    (hsound : Pool.Invariant (fun _ => True) Task.Sound p')
    (hput : p'.shared = p.shared.put other w)
    (hown : other = key → ∃ i t, p'.head i = some t ∧ t.saved? = some key)
    (hgoes : ∀ j t, p.head j = some t → t.saved? = some key →
      ∃ i t, p'.head i = some t ∧ t.saved? = some key) : Swept key p' := by
  refine ⟨hsound, fun v hv => ?_⟩
  rw [hput] at hv ⊢
  rcases List.mem_cons.mp hv with hnew | hold
  · exact .inr (.inl (hown (Prod.mk.inj hnew).1.symm))
  · exact (h.held v hold).imp id (.imp (fun ⟨j, t, hj, hsaved⟩ => hgoes j t hj hsaved) id)

/-- The other jobs are not finished with one. -/
theorem mem_finishJob {job : ℕ} {j : DeleteJob} (hj : j ∈ s.jobs.rows) (hne : j.id ≠ job) :
    j ∈ (s.finishJob job).jobs.rows :=
  List.mem_map.mpr ⟨j, hj, if_neg hne⟩

theorem swept_ran {task : Task} {chance : Chance} {next : Option (List Task)} {i : ℕ}
    {rest : List Task} (h : Swept key p)
    (hsound : Pool.Invariant (fun _ => True) Task.Sound p') (hhead : p.head i = some task)
    (hunfailed : task.saved? = some key → task.refused p.shared.shop chance.now = false)
    (hthreads : p'.threads = p.threads.set i (Pool.remaining next rest))
    (hran : Ran p.shared p'.shared chance task next) : Swept key p' := by
  have htask := h.sound.tasks _ (Pool.mem_tasks_of_head hhead)
  have hhead' := Pool.head_set hhead hthreads
  -- the other threads' Saves go on
  have hother : ∀ j t, j ≠ i → p.head j = some t → t.saved? = some key →
      ∃ i t, p'.head i = some t ∧ t.saved? = some key :=
    fun j t hne hj hsaved => ⟨j, t, (Pool.head_set_of_ne hne hthreads).trans hj, hsaved⟩
  have hsame : ∀ j t, p.head j = some t → t.saved? = some key → task.saved? ≠ some key →
      ∃ i t, p'.head i = some t ∧ t.saved? = some key := by
    intro j t hj hsaved hnot
    refine hother j t (fun hij => hnot ?_) hj hsaved
    rw [hij, hhead] at hj
    rwa [Option.some.inj hj]
  have hgoes : ∀ {u}, next = some [u] → u.saved? = task.saved? →
      ∀ j t, p.head j = some t → t.saved? = some key →
        ∃ i t, p'.head i = some t ∧ t.saved? = some key := by
    rintro u rfl hu j t hj hsaved
    by_cases hij : j = i
    · subst hij
      rw [hhead] at hj
      exact ⟨j, u, hhead', hu.trans (Option.some.inj hj ▸ hsaved)⟩
    · exact hother j t hij hj hsaved
  -- a job finished is of the photo it was for
  have hfinished : ∀ {job other}, (∃ j ∈ p.shared.shop.jobs.rows, j.id = job ∧ j.key = other) →
      other ≠ key → ∀ j ∈ p.shared.shop.jobs.rows, j.key = key →
        j ∈ (p.shared.shop.finishJob job).jobs.rows := by
    rintro job other ⟨j', hj', rfl, rfl⟩ hne j hj hkey
    refine mem_finishJob hj fun hid => hne ?_
    rw [← p.shared.shop.jobs.eq_of_key hj hj' hid, hkey]
  cases hran with
  | thumb save photo hp' =>
      have hgoes := hgoes rfl rfl
      exact swept_put h hsound hp' (fun hkey => hgoes i _ hhead (congrArg some hkey)) hgoes
  | detail save photo hp' =>
      have hgoes := hgoes rfl rfl
      exact swept_put h hsound hp' (fun hkey => hgoes i _ hhead (congrArg some hkey)) hgoes
  | committed save stored hcommit hmedia =>
      have hsaved : p.shared.shop.Saved p'.shared.shop key _ := commit_saved hcommit htask
      refine ⟨hsound, fun v hv => ?_⟩
      rcases h.held v (hmedia ▸ hv) with hused | ⟨j, t, hj, hin⟩ | ⟨j, hj, hkey, hdone⟩
      · exact (hsaved.lost hused).imp id .inr
      · by_cases hij : j = i
        · rw [hij, hhead] at hj
          rw [← Option.some.inj hj] at hin
          exact .inl (hsaved.named hin)
        · exact .inr (.inl (hother j t hij hj hin))
      · exact .inr (.inr ⟨j, hsaved.jobs j hj, hkey, hdone⟩)
  | refused save stored refusal hcommit hp' =>
      have hnot : (Task.commit save stored).saved? ≠ some key := by
        intro hsaved
        have hok := hunfailed hsaved
        rw [Task.refused, hcommit] at hok
        cases hok
      exact swept_of h hsound (fun v hv => hp' ▸ hv) (fun hused => hp' ▸ hused)
        (fun j t hj hsaved => .inr (hsame j t hj hsaved hnot)) fun j hj _ _ => .inr (hp' ▸ hj)
  | used job other hused hp' =>
      have huses : p'.shared.shop.uses key ↔ p.shared.shop.uses key :=
        uses_of_services (congrArg (fun t => t.shop.services) hp')
      refine swept_of h hsound (fun v hv => by rwa [hp'] at hv) huses.mpr
        (fun j t hj hsaved => .inr (hsame j t hj hsaved fun hnot => by cases hnot))
        fun j hj hkey _ => ?_
      by_cases hthis : other = key
      · exact .inl (huses.mpr (hthis ▸ hused))
      · exact .inr (hp' ▸ hfinished htask hthis j hj hkey)
  | unused job other _ hp' =>
      exact swept_of h hsound (fun v hv => hp' ▸ hv) (fun hused => hp' ▸ hused)
        (fun j t hj hsaved => .inr (hsame j t hj hsaved fun hnot => by cases hnot))
        fun j hj _ _ => .inr (hp' ▸ hj)
  | failed job other hp' =>
      refine swept_of h hsound (fun v hv => ?_) (fun hused => hp' ▸ hused)
        (fun j t hj hsaved => .inr (hsame j t hj hsaved fun hnot => by cases hnot))
        fun j hj _ _ => .inr (hp' ▸ hj)
      rw [hp'] at hv
      exact List.mem_of_mem_filter hv
  | deleted job other hgone hp' =>
      have huses : p'.shared.shop.uses key ↔ p.shared.shop.uses key :=
        uses_of_services (congrArg (fun t => t.shop.services) hp')
      by_cases hthis : other = key
      · -- every object of the photo is gone
        subst hthis
        refine ⟨hsound, fun v hv => ?_⟩
        rw [hp'] at hv
        obtain ⟨hold, hv⟩ := List.mem_filter.mp hv
        rcases of_decide_eq_true hv with hne | hrefused
        · exact absurd rfl hne
        · exact absurd hold (hgone v hrefused)
      · refine swept_of h hsound (fun v hv => ?_) huses.mpr
          (fun j t hj hsaved => .inr (hsame j t hj hsaved fun hnot => by cases hnot))
          fun j hj hkey _ => .inr (hp' ▸ hfinished htask hthis j hj hkey)
        rw [hp'] at hv
        exact List.mem_of_mem_filter hv

theorem swept_step {m : StudioMove} (h : Swept key p) (hunfailed : Unfailed key p m)
    (hstep : Pool.step studio p m = some p') : Swept key p' := by
  have hsound := sound_step h.sound hstep
  cases Pool.stepped hstep with
  | world deed hdeed hthreads =>
      obtain ⟨huses, hjobs, hmedia⟩ := deed_kept hdeed
      refine swept_of h hsound (fun v hv => hmedia ▸ hv) (huses key).mpr
        (fun j t hj hsaved => .inr ⟨j, t, ?_, hsaved⟩) fun j hj _ _ => .inr (hjobs ▸ hj)
      rw [Pool.head, hthreads]
      exact hj
  | start begun ts hstart hthreads =>
      obtain ⟨hshared, -⟩ := started hstart
      exact swept_of h hsound (fun v hv => hshared ▸ hv) (fun hused => hshared ▸ hused)
        (fun j t hj hsaved => .inr ⟨j, t, (Pool.head_start hthreads).1 j t hj, hsaved⟩)
        fun j hj _ _ => .inr (hshared ▸ hj)
  | go i chance task rest next hthread hexec hthreads =>
      have hhead : p.head i = some task := Pool.head_eq_some.mpr ⟨rest, hthread⟩
      exact swept_ran h hsound hhead (hunfailed task hhead) hthreads (ran hexec)
  | die i hshared hthreads =>
      exact swept_of h hsound (fun v hv => hshared ▸ hv) (fun hused => hshared ▸ hused)
        (fun j t hj hsaved => .inr ⟨j, t, Pool.head_kept hunfailed hthreads hj hsaved, hsaved⟩)
        fun j hj _ _ => .inr (hshared ▸ hj)

theorem opened_swept {currency : Currency} : Swept key (Studio.opened currency) where
  sound := Pool.invariant_empty trivial
  held := fun v hv => (by cases hv)

/-- **No object is forgotten.** In every run in which no Save of the photo fails once it began to
store, its objects are of a photo in use, or being saved, or a job is left to delete them,
however deletions fail or stop. -/
theorem photos_swept {currency : Currency} {ms : List StudioMove}
    (hrun : run (Pool.step studio) (Studio.opened currency) ms = some p)
    (hunfailed : Along (Pool.step studio) (Unfailed key) (Studio.opened currency) ms) {v : Variant}
    (hv : (key, v) ∈ p.shared.media) : p.shared.shop.uses key ∨
      (∃ t ∈ p.tasks, t.saved? = some key) ∨
        ∃ j ∈ p.shared.shop.jobs.rows, j.key = key ∧ j.done = false := by
  have hswept := run_invariant (fun _ _ _ => swept_step) opened_swept hunfailed hrun
  exact (hswept.held v hv).imp id (.imp (fun ⟨i, t, hi, hsaved⟩ =>
    ⟨t, Pool.mem_tasks_of_head hi, hsaved⟩) id)

theorem photos_swept_replaced : ∃ p,
    run (Pool.step studio) (Studio.opened .brl) replacing = some p ∧
      (⟨1, 2⟩, .detail) ∈ p.shared.media ∧ (p.shared.shop.uses ⟨1, 2⟩ ∨
        (∃ t ∈ p.tasks, t.saved? = some ⟨1, 2⟩) ∨
          ∃ j ∈ p.shared.shop.jobs.rows, j.key = ⟨1, 2⟩ ∧ j.done = false) := by
  have hmedia : (run (Pool.step studio) (Studio.opened .brl) replacing).map (fun p =>
    decide ((⟨1, 2⟩, Variant.detail) ∈ p.shared.media)) = some true := by decide +kernel
  obtain ⟨p, hrun, hv⟩ := Option.map_eq_some_iff.mp hmedia
  have hv := of_decide_eq_true hv
  exact ⟨p, hrun, hv, photos_swept hrun (by decide +kernel) hv⟩

end Ziftbook.Services
