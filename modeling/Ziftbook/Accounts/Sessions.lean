import Ziftbook.Foundation.Swept
import Ziftbook.Limits.Counters
import Ziftbook.Store.Tables

/-!
# How long a session lasts

The business sessions of `app/auth.py`: a request's cookie is good until `ABSOLUTE` after
its sign-in and as long as it was used within `IDLE`. `RESOLVE` writes the use down only
every `TOUCH_EVERY`. A sign-in deletes expired rows, and the worker's sweep dead ones, an
hour later; requests are answered as if neither did.
-/

namespace Ziftbook

open Foundation

/-- `IDLE`. -/
def sessionIdle : ℤ := 7 * oneDay

/-- `ABSOLUTE`. -/
def sessionAbsolute : ℤ := 30 * oneDay

/-- `TOUCH_EVERY`. -/
def touchEvery : ℤ := 5 * minute

/-- Whom a session is of. -/
structure SessionOf (τ υ : Type) where
  tenant : τ
  user : υ
  role : Role
  active : role ≠ .removed
deriving DecidableEq

/-- A row of `sessions`. -/
structure SessionRow (τ υ : Type) where
  owner : SessionOf τ υ
  expiresAt : ℤ
  lastSeenAt : ℤ
deriving DecidableEq

variable {κ τ υ : Type} [DecidableEq κ]

/-- Neither idle nor past its absolute expiry. -/
def SessionRow.live (now : ℤ) (s : SessionRow τ υ) : Prop :=
  now < s.expiresAt ∧ now - sessionIdle < s.lastSeenAt

instance SessionRow.decidableLive (now : ℤ) (s : SessionRow τ υ) : Decidable (s.live now) :=
  inferInstanceAs (Decidable (_ ∧ _))

/-- `RESOLVE`'s row afterwards. -/
def SessionRow.touched (now : ℤ) (s : SessionRow τ υ) : SessionRow τ υ :=
  if s.live now ∧ s.lastSeenAt < now - touchEvery then { s with lastSeenAt := now } else s

/-- The statements on `sessions`, but for the deletions of dead rows. -/
inductive SessionUse (κ τ υ : Type)
  /-- `create`'s `INSERT`, with what the membership says. -/
  | start (now : ℤ) (id : κ) (owner : SessionOf τ υ)
  /-- `RESOLVE`. -/
  | resolve (now : ℤ) (id : κ)
  /-- `HOLD_BUSINESS`, and the owner's session that an erasure needs. -/
  | hold (now : ℤ) (id : κ)
  /-- A `DELETE`: of this browser's session, of the person's, of the member's. -/
  | endAll (now : ℤ) (which : κ → SessionOf τ υ → Bool)

def SessionUse.now : SessionUse κ τ υ → ℤ
  | .start now _ _ => now
  | .resolve now _ => now
  | .hold now _ => now
  | .endAll now _ => now

/-- Whose session it is, if it is live. -/
def liveOwner (now : ℤ) (row : Option (SessionRow τ υ)) : Option (SessionOf τ υ) :=
  (row.filter fun s => s.live now).map SessionRow.owner

/-- The rows after, with the answer. -/
def SessionUse.act (rows : κ → Option (SessionRow τ υ)) :
    SessionUse κ τ υ → (κ → Option (SessionRow τ υ)) × Option (SessionOf τ υ)
  | .start now id owner =>
      (Function.update rows id (some ⟨owner, now + sessionAbsolute, now⟩), some owner)
  | .resolve now id =>
      (Function.update rows id ((rows id).map (SessionRow.touched now)), liveOwner now (rows id))
  | .hold now id => (rows, liveOwner now (rows id))
  | .endAll _ which => (fun k => (rows k).filter fun s => ¬ which k s.owner, none)

/-- The id a sign-in draws is not in use. -/
def SessionUse.fresh (rows : κ → Option (SessionRow τ υ)) : SessionUse κ τ υ → Prop
  | .start _ id _ => rows id = none
  | _ => True

def sessionReaders (κ τ υ : Type) [DecidableEq κ] :
    Readers κ (SessionRow τ υ) (SessionUse κ τ υ) (Option (SessionOf τ υ)) where
  act := SessionUse.act
  now := SessionUse.now
  fits := SessionUse.fresh

/-! ## § Deleting dead rows -/

/-- Not live, now or later. -/
def SessionRow.dead (now : ℤ) (s : SessionRow τ υ) : Prop := ¬ s.live now

instance SessionRow.decidableDead (now : ℤ) (s : SessionRow τ υ) : Decidable (s.dead now) :=
  inferInstanceAs (Decidable (¬ _))

/-- `SESSIONS`' condition. -/
def SessionRow.sweepable (now : ℤ) (s : SessionRow τ υ) : Prop :=
  s.expiresAt ≤ now - limitsMargin ∨ s.lastSeenAt ≤ now - (sessionIdle + limitsMargin)

instance SessionRow.decidableSweepable (now : ℤ) (s : SessionRow τ υ) :
    Decidable (s.sweepable now) :=
  inferInstanceAs (Decidable (_ ∨ _))

/-- **The sweep's condition is the negation of `RESOLVE`'s, an hour later.** -/
theorem sweepable_iff (now : ℤ) (s : SessionRow τ υ) :
    s.sweepable now ↔ s.dead (now - limitsMargin) := by
  unfold SessionRow.sweepable SessionRow.dead SessionRow.live
  omega

theorem SessionRow.dead_mono (n m : ℤ) (s : SessionRow τ υ) (hle : n ≤ m) (h : s.dead n) :
    s.dead m := by
  unfold SessionRow.dead SessionRow.live at *
  omega

theorem dead_of_expired {now : ℤ} {s : SessionRow τ υ} (h : s.expiresAt ≤ now) : s.dead now :=
  fun hlive => absurd hlive.1 (not_lt.mpr h)

theorem touched_of_dead {now : ℤ} {s : SessionRow τ υ} (h : s.dead now) : s.touched now = s :=
  if_neg fun hlive => h hlive.1

theorem liveOwner_of_dead {now : ℤ} {s : SessionRow τ υ} (h : s.dead now) :
    liveOwner now (some s) = none := by
  have h : ¬ s.live now := h
  simp [liveOwner, h]

omit [DecidableEq κ] in
/-- Where the tables differ, the session is dead to the reader. -/
theorem liveOwner_thinned {horizon now : ℤ} {swept full : κ → Option (SessionRow τ υ)}
    (h : Thinned SessionRow.dead horizon swept full) (hnow : horizon ≤ now) (id : κ) :
    liveOwner now (swept id) = liveOwner now (full id) := by
  rcases h id with hk | ⟨hk, hdead⟩
  · rw [hk]
  · cases hfull : full id with
    | none => rw [hk]
    | some s =>
        rw [hk, liveOwner_of_dead (s.dead_mono _ _ hnow (hdead s hfull))]
        rfl

theorem sessionReaders_blind : (sessionReaders κ τ υ).Blind SessionRow.dead := by
  intro horizon swept full e h hfresh hnow
  cases e with
  | start now id owner =>
      refine ⟨rfl, fun k => ?_⟩
      simp only [sessionReaders, SessionUse.act]
      by_cases hk : k = id
      · exact .inl (by rw [hk, Function.update_self, Function.update_self])
      · rw [Function.update_of_ne hk, Function.update_of_ne hk]
        exact h k
  | resolve now id =>
      change horizon ≤ now at hnow
      refine ⟨liveOwner_thinned h hnow id, ?_⟩
      simp only [sessionReaders, SessionUse.act]
      intro k
      by_cases hk : k = id
      · subst hk
        rw [Function.update_self, Function.update_self]
        rcases h k with hrow | ⟨hrow, hdead⟩
        · exact .inl (by rw [hrow])
        · refine .inr ⟨by rw [hrow]; rfl, fun y hy => ?_⟩
          obtain ⟨s, hs, rfl⟩ := Option.map_eq_some_iff.mp hy
          rw [touched_of_dead (s.dead_mono _ _ hnow (hdead s hs))]
          exact hdead s hs
      · rw [Function.update_of_ne hk, Function.update_of_ne hk]
        exact h k
  | hold now id => exact ⟨liveOwner_thinned h hnow id, h⟩
  | endAll now which =>
      refine ⟨rfl, ?_⟩
      refine Thinned.map (f := fun k c => c.filter fun s => ¬ which k s.owner) h
        fun k s _ _ hdead => .inr ⟨rfl, fun y hy => ?_⟩
      obtain rfl := Option.some.inj (Option.filter_eq_some_iff.mp hy).1
      exact hdead

/-- The statements on `sessions`, in the order they take effect. -/
inductive SessionEvent (κ τ υ : Type)
  | use (e : SessionUse κ τ υ)
  /-- `create` deletes expired rows, those it meets. -/
  | purge (now : ℤ) (ids : List κ)
  /-- The worker's `SESSIONS`, those it meets. -/
  | sweep (now : ℤ) (ids : List κ)

def SessionEvent.use? : SessionEvent κ τ υ → Option (SessionUse κ τ υ)
  | .use e => some e
  | _ => none

/-- No transaction begins before a purge, or more than `MARGIN` before a sweep, that it
runs after. -/
def SessionEvent.inMargin (a b : SessionEvent κ τ υ) : Prop :=
  match a, b with
  | .purge now _, .use e => now ≤ e.now
  | .sweep now _, .use e => now - limitsMargin ≤ e.now
  | _, _ => True

instance SessionEvent.decidableInMargin (a b : SessionEvent κ τ υ) : Decidable (a.inMargin b) := by
  unfold SessionEvent.inMargin
  split <;> infer_instance

/-- What the requests are answered. -/
def sessionAnswers : (κ → Option (SessionRow τ υ)) → List (SessionEvent κ τ υ) →
    List (Option (SessionOf τ υ))
  | _, [] => []
  | rows, .use e :: es => (e.act rows).2 :: sessionAnswers (e.act rows).1 es
  | rows, .purge now ids :: es =>
      sessionAnswers (fun k => (rows k).filter fun s => ¬ (k ∈ ids ∧ s.expiresAt ≤ now)) es
  | rows, .sweep now ids :: es =>
      sessionAnswers (fun k => (rows k).filter fun s => ¬ (k ∈ ids ∧ s.sweepable now)) es

/-! ## § As if they never were -/

def SessionEvent.swept : SessionEvent κ τ υ → SweptEvent κ (SessionRow τ υ) (SessionUse κ τ υ)
  | .use e => .act e
  | .purge now ids => .sweep now fun k s => k ∈ ids ∧ s.expiresAt ≤ now
  | .sweep now ids => .sweep (now - limitsMargin) fun k s => k ∈ ids ∧ s.sweepable now

theorem sessionAnswers_eq (es : List (SessionEvent κ τ υ)) :
    ∀ rows : κ → Option (SessionRow τ υ), sessionAnswers rows es =
      answers SessionRow.dead (sessionReaders κ τ υ) rows (es.map SessionEvent.swept) := by
  induction es with
  | nil => intro rows; rfl
  | cons e es ih =>
      intro rows
      cases e with
      | use e => exact congrArg _ (ih _)
      | purge now ids =>
          rw [sessionAnswers, ih, List.map_cons, SessionEvent.swept, answers]
          congr 1
          refine funext fun k => congrArg (fun p => (rows k).filter p) (funext fun s => ?_)
          by_cases hexpired : s.expiresAt ≤ now
          · simp [hexpired, dead_of_expired hexpired]
          · simp [hexpired]
      | sweep now ids =>
          rw [sessionAnswers, ih, List.map_cons, SessionEvent.swept, answers]
          congr 1
          refine funext fun k => congrArg (fun p => (rows k).filter p) (funext fun s => ?_)
          simp only [sweepable_iff, decide_eq_true_eq, and_assoc, and_self]

theorem sessionAnswers_uses (uses : List (SessionUse κ τ υ)) :
    ∀ rows : κ → Option (SessionRow τ υ),
      sessionAnswers rows (uses.map .use) = unswept (sessionReaders κ τ υ) rows uses := by
  induction uses with
  | nil => intro rows; rfl
  | cons e uses ih => intro rows; exact congrArg _ (ih _)

def SessionUse.drawn? : SessionUse κ τ υ → Option κ
  | .start _ id _ => some id
  | _ => none

/-- The ids that sign-ins drew. -/
def startedIds (uses : List (SessionUse κ τ υ)) : List κ := uses.filterMap SessionUse.drawn?

omit [DecidableEq κ] in
theorem mem_startedIds {uses : List (SessionUse κ τ υ)} {id : κ} :
    id ∈ startedIds uses ↔ ∃ c o, .start c id o ∈ uses := by
  rw [startedIds, List.mem_filterMap]
  constructor
  · rintro ⟨e, he, hid⟩
    cases e <;> cases hid
    exact ⟨_, _, he⟩
  · rintro ⟨c, o, he⟩
    exact ⟨_, he, rfl⟩

omit [DecidableEq κ] in
theorem start_unique {uses : List (SessionUse κ τ υ)} {id : κ} {c c' : ℤ} {o o' : SessionOf τ υ}
    (hfresh : (startedIds uses).Nodup) (h : .start c id o ∈ uses) (h' : .start c' id o' ∈ uses) :
    c = c' ∧ o = o' := by
  induction uses with
  | nil => cases h
  | cons e uses ih =>
      have hrest : (startedIds uses).Nodup :=
        hfresh.sublist ((List.sublist_cons_self e uses).filterMap _)
      -- the first of the two is the only one
      have hfirst : ∀ {c c' : ℤ} {o o' : SessionOf τ υ}, e = .start c id o →
          .start c' id o' ∉ uses := by
        rintro c c' o o' rfl hmem
        exact (List.nodup_cons.mp hfresh).1 (mem_startedIds.mpr ⟨c', o', hmem⟩)
      rcases List.mem_cons.mp h with heq | hmem <;> rcases List.mem_cons.mp h' with heq' | hmem'
      · rw [← heq, SessionUse.start.injEq] at heq'
        exact ⟨heq'.1.symm, heq'.2.2.symm⟩
      · exact absurd hmem' (hfirst heq.symm)
      · exact absurd hmem (hfirst heq'.symm)
      · exact ih hrest hmem hmem'

/-- Ids never drawn twice are not in use when they are drawn. -/
theorem fitting_of_nodup {uses : List (SessionUse κ τ υ)} :
    ∀ {rows : κ → Option (SessionRow τ υ)}, (startedIds uses).Nodup →
      (∀ id ∈ startedIds uses, rows id = none) → Fitting (sessionReaders κ τ υ) rows uses := by
  induction uses with
  | nil => intros; trivial
  | cons e uses ih =>
      intro rows hnodup hnone
      cases e with
      | start now id owner =>
          obtain ⟨hid, hnodup⟩ := List.nodup_cons.mp hnodup
          refine ⟨hnone id (List.mem_cons_self ..), ih hnodup fun id' hid' => ?_⟩
          have hne : id' ≠ id := fun h => hid (h ▸ hid')
          simp only [sessionReaders, SessionUse.act]
          rw [Function.update_of_ne hne]
          exact hnone id' (List.mem_cons_of_mem _ hid')
      | resolve now id =>
          refine ⟨trivial, ih hnodup fun id' hid' => ?_⟩
          have hrow := hnone id' hid'
          simp only [sessionReaders, SessionUse.act]
          by_cases hk : id' = id
          · rw [hk, Function.update_self, ← hk, hrow]
            rfl
          · rw [Function.update_of_ne hk, hrow]
      | hold now id => exact ⟨trivial, ih hnodup hnone⟩
      | endAll now which =>
          refine ⟨trivial, ih hnodup fun id' hid' => ?_⟩
          simp [sessionReaders, SessionUse.act, hnone id' hid']

/-- **Deleting dead sessions is never noticed.** Whatever rows the sign-ins' purges and the
workers' sweeps delete, and whenever, every request is answered as if none had been. -/
theorem session_sweeps_unnoticed {es : List (SessionEvent κ τ υ)}
    (hfresh : (startedIds (es.filterMap SessionEvent.use?)).Nodup)
    (hmargin : es.Pairwise SessionEvent.inMargin) :
    sessionAnswers (fun _ => none) es =
      sessionAnswers (fun _ => none) ((es.filterMap SessionEvent.use?).map .use) := by
  have huses : (es.map SessionEvent.swept).filterMap SweptEvent.read? =
      es.filterMap SessionEvent.use? := by
    rw [List.filterMap_map]
    exact List.filterMap_congr fun e _ => by cases e <;> rfl
  have hprompt : (es.map SessionEvent.swept).Pairwise (Prompt (sessionReaders κ τ υ)) := by
    rw [List.pairwise_map]
    refine hmargin.imp fun {a b} hab => ?_
    cases a <;> cases b <;> trivial
  rw [sessionAnswers_eq, sessionAnswers_uses, ← huses]
  refine answers_eq_unswept SessionRow.dead_mono sessionReaders_blind hprompt ?_
  rw [huses]
  exact fitting_of_nodup hfresh fun _ _ => rfl

/-- An owner and a worker sign in. The owner comes back at six days; on the eighth the
worker's session is swept, and the owner signs out everywhere. -/
def eighthDay : List (SessionEvent ℕ Unit ℕ) :=
  [.use (.start 0 1 ⟨(), 7, .owner, by decide⟩), .purge 0 [1],
    .use (.start 0 2 ⟨(), 8, .worker, by decide⟩), .use (.resolve (6 * oneDay) 1),
    .sweep (8 * oneDay) [1, 2], .use (.resolve (8 * oneDay) 2), .use (.hold (8 * oneDay) 1),
    .use (.endAll (8 * oneDay) fun _ o => o.user = 7), .use (.resolve (8 * oneDay) 1)]

theorem session_sweeps_unnoticed_eighthDay :
    sessionAnswers (fun _ => none) eighthDay =
      sessionAnswers (fun _ => none) ((eighthDay.filterMap SessionEvent.use?).map .use) :=
  session_sweeps_unnoticed (by decide +kernel) (by decide +kernel)

/-! ## § How long a session lasts -/

/-- The session's moments of use so far, with this one: its sign-in, and each request
that was answered. -/
def SessionUse.noted (rows : κ → Option (SessionRow τ υ)) (used : κ → List ℤ) :
    SessionUse κ τ υ → κ → List ℤ
  | .start now id _ => Function.update used id (now :: used id)
  | .resolve now id =>
      if (liveOwner now (rows id)).isSome then Function.update used id (now :: used id) else used
  | _ => used

/-- The rows, and when each session was used. -/
def sessionsAfter (uses : List (SessionUse κ τ υ)) :
    (κ → Option (SessionRow τ υ)) × (κ → List ℤ) :=
  uses.foldl (fun x e => ((e.act x.1).1, e.noted x.1 x.2)) (fun _ => none, fun _ => [])

def usedAt (uses : List (SessionUse κ τ υ)) (id : κ) : List ℤ := (sessionsAfter uses).2 id

variable {uses : List (SessionUse κ τ υ)} {e : SessionUse κ τ υ} {id : κ} {now c : ℤ}
  {o : SessionOf τ υ} {s : SessionRow τ υ}

theorem sessionsAfter_concat : sessionsAfter (uses ++ [e]) =
    ((e.act (sessionsAfter uses).1).1, e.noted (sessionsAfter uses).1 (sessionsAfter uses).2) := by
  rw [sessionsAfter, List.foldl_append]
  rfl

/-- What a row says of its session: when it began, and to within `TOUCH_EVERY` when it was
last used. -/
structure Told (uses : List (SessionUse κ τ υ)) (id : κ) (s : SessionRow τ υ) : Prop where
  began : ∃ c, .start c id s.owner ∈ uses ∧ s.expiresAt = c + sessionAbsolute
  seen : s.lastSeenAt ∈ usedAt uses id
  recent : ∀ m ∈ usedAt uses id, m - touchEvery ≤ s.lastSeenAt

theorem usedAt_of_unstarted (h : id ∉ startedIds uses) :
    (sessionsAfter uses).1 id = none ∧ usedAt uses id = [] := by
  induction uses using List.reverseRecOn with
  | nil => exact ⟨rfl, rfl⟩
  | append_singleton uses e ih =>
      rw [startedIds, List.filterMap_append, List.mem_append, not_or] at h
      obtain ⟨hrow, hused⟩ := ih h.1
      rw [usedAt] at hused
      rw [usedAt, sessionsAfter_concat]
      cases e with
      | start now id' owner =>
          have hne : id ≠ id' := by simpa [SessionUse.drawn?] using h.2
          simp [SessionUse.act, SessionUse.noted, hne, hrow, hused]
      | resolve now id' =>
          by_cases hk : id = id'
          · subst hk
            simp [SessionUse.act, SessionUse.noted, hrow, hused, liveOwner]
          · refine ⟨by simp [SessionUse.act, hk, hrow], ?_⟩
            simp only [SessionUse.noted]
            split_ifs
            · simp [hk, hused]
            · exact hused
      | hold now id' => exact ⟨hrow, hused⟩
      | endAll now which => exact ⟨by simp [SessionUse.act, hrow], hused⟩

theorem Told.mono (h : Told uses id s) (hused : usedAt (uses ++ [e]) id = usedAt uses id) :
    Told (uses ++ [e]) id s := by
  obtain ⟨⟨c, hc, hexpires⟩, hseen, hrecent⟩ := h
  exact ⟨⟨c, List.mem_append_left _ hc, hexpires⟩, hused ▸ hseen, hused ▸ hrecent⟩

/-- **Rows tell the truth.** -/
theorem told_of_row (hfresh : (startedIds uses).Nodup)
    (hrow : (sessionsAfter uses).1 id = some s) : Told uses id s := by
  induction uses using List.reverseRecOn generalizing s with
  | nil => cases hrow
  | append_singleton uses e ih =>
      have hfresh' : (startedIds uses).Nodup := by
        rw [startedIds, List.filterMap_append] at hfresh
        exact hfresh.of_append_left
      have ih := fun s hrow => @ih s hfresh' hrow
      rw [sessionsAfter_concat] at hrow
      cases e with
      | start now id' owner =>
          by_cases hk : id = id'
          · subst hk
            obtain ⟨-, hused⟩ : (sessionsAfter uses).1 id = none ∧ usedAt uses id = [] := by
              refine usedAt_of_unstarted fun hid => ?_
              rw [startedIds, List.filterMap_append] at hfresh
              exact List.disjoint_of_nodup_append hfresh hid (by simp [SessionUse.drawn?])
            have hused' : usedAt (uses ++ [.start now id owner]) id = [now] := by
              rw [usedAt] at hused
              rw [usedAt, sessionsAfter_concat]
              simp [SessionUse.noted, hused]
            simp only [SessionUse.act, Function.update_self, Option.some.injEq] at hrow
            subst hrow
            refine ⟨⟨now, by simp, rfl⟩, by rw [hused']; simp, fun m hm => ?_⟩
            rw [hused', List.mem_singleton] at hm
            have : (0 : ℤ) ≤ touchEvery := by decide
            show m - touchEvery ≤ now
            omega
          · simp only [SessionUse.act, Function.update_of_ne hk] at hrow
            refine (ih s hrow).mono ?_
            rw [usedAt, sessionsAfter_concat]
            simp [SessionUse.noted, hk, usedAt]
      | resolve now id' =>
          by_cases hk : id = id'
          · subst hk
            simp only [SessionUse.act, Function.update_self] at hrow
            obtain ⟨s₀, hs₀, rfl⟩ := Option.map_eq_some_iff.mp hrow
            have htold := ih s₀ hs₀
            by_cases hlive : s₀.live now
            · have hused : usedAt (uses ++ [.resolve now id]) id = now :: usedAt uses id := by
                rw [usedAt, sessionsAfter_concat]
                simp [SessionUse.noted, hs₀, liveOwner, hlive, usedAt]
              obtain ⟨⟨c, hc, hexpires⟩, hseen, hrecent⟩ := htold
              by_cases hold : s₀.lastSeenAt < now - touchEvery
              · -- the use is written down
                have htouched : s₀.touched now = { s₀ with lastSeenAt := now } :=
                  if_pos ⟨hlive, hold⟩
                rw [htouched]
                refine ⟨⟨c, List.mem_append_left _ hc, hexpires⟩, by rw [hused]; simp, ?_⟩
                intro m hm
                have : (0 : ℤ) ≤ touchEvery := by decide
                rw [hused] at hm
                show m - touchEvery ≤ now
                rcases List.mem_cons.mp hm with rfl | hm
                · omega
                · have := hrecent m hm
                  omega
              · have htouched : s₀.touched now = s₀ := if_neg fun h => hold h.2
                rw [htouched]
                refine ⟨⟨c, List.mem_append_left _ hc, hexpires⟩, ?_, ?_⟩
                · rw [hused]
                  exact List.mem_cons_of_mem _ hseen
                · intro m hm
                  rw [hused] at hm
                  rcases List.mem_cons.mp hm with rfl | hm
                  · omega
                  · exact hrecent m hm
            · rw [touched_of_dead hlive]
              refine htold.mono ?_
              rw [usedAt, sessionsAfter_concat]
              simp [SessionUse.noted, hs₀, liveOwner, hlive, usedAt]
          · simp only [SessionUse.act, Function.update_of_ne hk] at hrow
            refine (ih s hrow).mono ?_
            rw [usedAt, sessionsAfter_concat]
            simp only [SessionUse.noted, usedAt]
            split_ifs
            · rw [Function.update_of_ne hk]
            · rfl
      | hold now id' => exact (ih s hrow).mono (by rw [usedAt, sessionsAfter_concat]; rfl)
      | endAll now which =>
          refine (ih s (Option.filter_eq_some_iff.mp hrow).1).mono ?_
          rw [usedAt, sessionsAfter_concat]
          rfl

/-- A session that nothing ends keeps its row. -/
theorem row_of_not_ended {before after : List (SessionUse κ τ υ)}
    (hfresh : (startedIds (before ++ .start c id o :: after)).Nodup)
    (hends : ∀ now which, .endAll now which ∈ after → which id o = false) :
    ∃ s, (sessionsAfter (before ++ .start c id o :: after)).1 id = some s ∧ s.owner = o := by
  induction after using List.reverseRecOn with
  | nil =>
      rw [sessionsAfter_concat]
      exact ⟨_, Function.update_self .., rfl⟩
  | append_singleton after e ih =>
      rw [← List.cons_append, ← List.append_assoc] at hfresh ⊢
      have hsplit := hfresh
      rw [startedIds, List.filterMap_append] at hsplit
      obtain ⟨s, hs, howner⟩ := ih hsplit.of_append_left fun now which hmem =>
        hends now which (List.mem_append_left _ hmem)
      rw [sessionsAfter_concat]
      cases e with
      | start now id' owner =>
          have hne : id ≠ id' := by
            rintro rfl
            have hdrawn : id ∈ startedIds (before ++ .start c id o :: after) :=
              mem_startedIds.mpr ⟨c, o, by simp⟩
            exact List.disjoint_of_nodup_append hsplit hdrawn (by simp [SessionUse.drawn?])
          exact ⟨s, by simpa [SessionUse.act, hne] using hs, howner⟩
      | resolve now id' =>
          by_cases hk : id = id'
          · subst hk
            refine ⟨s.touched now, by simp [SessionUse.act, hs], ?_⟩
            rw [SessionRow.touched]
            split_ifs
            · exact howner
            · exact howner
          · exact ⟨s, by simpa [SessionUse.act, hk] using hs, howner⟩
      | hold now id' => exact ⟨s, hs, howner⟩
      | endAll now which =>
          have hno := hends now which (by simp)
          exact ⟨s, by simp [SessionUse.act, hs, howner, hno], howner⟩

theorem unswept_concat (uses : List (SessionUse κ τ υ)) (e : SessionUse κ τ υ) :
    unswept (sessionReaders κ τ υ) (fun _ => none) (uses ++ [e]) =
      unswept (sessionReaders κ τ υ) (fun _ => none) uses ++
        [(e.act (sessionsAfter uses).1).2] := by
  have hgen : ∀ (uses : List (SessionUse κ τ υ)) (x : (κ → Option (SessionRow τ υ)) × (κ → List ℤ)),
      unswept (sessionReaders κ τ υ) x.1 (uses ++ [e]) =
        unswept (sessionReaders κ τ υ) x.1 uses ++ [(e.act (uses.foldl
          (fun x e => ((e.act x.1).1, e.noted x.1 x.2)) x).1).2] := by
    intro uses
    induction uses with
    | nil => intro x; rfl
    | cons e' uses ih => intro x; exact congrArg _ (ih ((e'.act x.1).1, e'.noted x.1 x.2))
  exact hgen uses (fun _ => none, fun _ => [])

/-- What a request with the cookie is answered after these statements. -/
def answerAt (es : List (SessionEvent κ τ υ)) (now : ℤ) (id : κ) :
    Option (Option (SessionOf τ υ)) :=
  (sessionAnswers (fun _ => none) (es ++ [.use (.resolve now id)])).getLast?

theorem answerAt_eq {es : List (SessionEvent κ τ υ)}
    (hfresh : (startedIds (es.filterMap SessionEvent.use?)).Nodup)
    (hmargin : (es ++ [SessionEvent.use (.resolve now id)]).Pairwise SessionEvent.inMargin) :
    answerAt es now id =
      some (liveOwner now ((sessionsAfter (es.filterMap SessionEvent.use?)).1 id)) := by
  have hfresh' : (startedIds ((es ++ [SessionEvent.use (.resolve now id)]).filterMap
      SessionEvent.use?)).Nodup := by
    rw [List.filterMap_append, startedIds, List.filterMap_append]
    exact (List.append_nil _).symm ▸ hfresh
  rw [answerAt, session_sweeps_unnoticed hfresh' hmargin, sessionAnswers_uses,
    List.filterMap_append]
  exact (congrArg List.getLast? (unswept_concat _ _)).trans (List.getLast?_concat ..)

/-- **How long a session lasts.** A request with its cookie is answered only before
`ABSOLUTE` from the sign-in, and within `IDLE` of a use; and it is answered, with what the
sign-in found, then and within `TOUCH_EVERY` less, unless the session was ended. -/
theorem session_lasts {es : List (SessionEvent κ τ υ)}
    (hfresh : (startedIds (es.filterMap SessionEvent.use?)).Nodup)
    (hmargin : (es ++ [SessionEvent.use (.resolve now id)]).Pairwise SessionEvent.inMargin) :
    (answerAt es now id = some (some o) →
      ∃ c, .start c id o ∈ es.filterMap SessionEvent.use? ∧ now < c + sessionAbsolute ∧
        ∃ m ∈ usedAt (es.filterMap SessionEvent.use?) id, now < m + sessionIdle) ∧
    ∀ before after, es.filterMap SessionEvent.use? = before ++ .start c id o :: after →
      (∀ now which, .endAll now which ∈ after → which id o = false) →
      now < c + sessionAbsolute →
      (∃ m ∈ usedAt (es.filterMap SessionEvent.use?) id, now < m + sessionIdle - touchEvery) →
      answerAt es now id = some (some o) := by
  rw [answerAt_eq hfresh hmargin]
  refine ⟨fun hanswer => ?_, fun before after hsplit hends hbefore ⟨m, hm, hused⟩ => ?_⟩
  · rw [Option.some.injEq] at hanswer
    obtain ⟨s, hs, rfl⟩ := Option.map_eq_some_iff.mp hanswer
    obtain ⟨hrow, hlive⟩ := Option.filter_eq_some_iff.mp hs
    obtain ⟨hexpires, hidle⟩ := of_decide_eq_true hlive
    obtain ⟨⟨c, hc, hc'⟩, hseen, -⟩ := told_of_row hfresh hrow
    exact ⟨c, hc, hc' ▸ hexpires, s.lastSeenAt, hseen, by omega⟩
  · rw [hsplit] at hfresh hm ⊢
    obtain ⟨s, hs, howner⟩ := row_of_not_ended hfresh hends
    obtain ⟨⟨c', hc', hexpires⟩, -, hrecent⟩ := told_of_row hfresh hs
    have hlive : s.live now := by
      refine ⟨?_, ?_⟩
      · -- the sign-in that drew the id is the one that says when it expires
        have hstart : .start c id o ∈ before ++ .start c id o :: after := by simp
        have hsame : c' = c := (start_unique hfresh hc' hstart).1
        rw [hexpires, hsame]
        exact hbefore
      · have := hrecent m hm
        omega
    rw [hs, liveOwner, Option.filter_some, if_pos (decide_eq_true hlive), Option.map_some, howner]

/-- Until the owner's session of `eighthDay` is ended. -/
theorem session_lasts_eighthDay :
    answerAt (eighthDay.take 7) (8 * oneDay) 1 = some (some ⟨(), 7, .owner, by decide⟩) :=
  (session_lasts (by decide +kernel) (by decide +kernel)).2 [] _ rfl
    (by simp [SessionEvent.use?]) (by decide) ⟨6 * oneDay, by decide +kernel, by decide⟩

end Ziftbook
