import Ziftbook.Ledger.Reapply

/-!
# What a re-applied ledger leaves

The loop keeps one invariant: the clients of the entries behind it are erased and have no
live booking, every other client is as the backup had it. A turn raises only over a client
still waiting that holds a booking live now but over by the entry's time, which takes an
entry dated after the transaction's clock.
-/

namespace Ziftbook

open Foundation

variable {clock : SessionClock} {now at_ : ℤ} {clientId : ℕ} {e : LedgerEntry}
  {es : List LedgerEntry} {b b' : Business} {r r' : Restored} {report : Report}

/-! ## § One booking under two clocks -/

theorem Booking.erasureEnding_not_expiring (k : Booking) :
    erasureEnding k.status ∉ expiring := Ziftbook.erasureEnding_not_expiring _

/-- The row as an erasure ends it. -/
def Booking.endedByErasure (k : Booking) : Booking :=
  k.withStatus (erasureEnding k.status) k.erasureEnding_not_expiring

/-- To come by the clock `now`, and no longer by the entry's time: a confirmed booking that
starts in `(now, at_]`, or a hold that lapses in it. -/
def Booking.liveBetween (k : Booking) (clientId : ℕ) (now at_ : ℤ) : Prop :=
  k.clientId = clientId ∧
    ((k.status = .confirmed ∧ now < k.startsAt ∧ k.startsAt ≤ at_) ∨
      (k.status ∈ expiring ∧ ∃ deadline, k.expiresAt = some deadline ∧ now < deadline ∧
        deadline ≤ at_))

theorem Booking.liveBetween_iff {k : Booking} :
    k.liveBetween clientId now at_ ↔
      k.endsForErasure clientId now ∧ ¬ k.endsForErasure clientId at_ := by
  constructor
  · rintro ⟨hclient, ⟨hstatus, hnow, hat⟩ | ⟨hstatus, d, hd, hnow, hat⟩⟩
    · refine ⟨⟨hclient, Or.inl ⟨hstatus, hnow⟩⟩, ?_⟩
      rintro ⟨_, ⟨_, hlater⟩ | ⟨hexpiring, _⟩⟩
      · exact absurd hlater (not_lt.mpr hat)
      · rw [hstatus] at hexpiring
        exact absurd hexpiring (by decide)
    · refine ⟨⟨hclient, Or.inr ⟨hstatus, d, hd, hnow⟩⟩, ?_⟩
      rintro ⟨_, ⟨hconfirmed, _⟩ | ⟨_, d', hd', hlater⟩⟩
      · rw [hconfirmed] at hstatus
        exact absurd hstatus (by decide)
      · rw [hd, Option.some.injEq] at hd'
        omega
  · rintro ⟨⟨hclient, ⟨hstatus, hnow⟩ | ⟨hstatus, d, hd, hnow⟩⟩, hover⟩
    · refine ⟨hclient, Or.inl ⟨hstatus, hnow, not_lt.mp fun hlater => hover ?_⟩⟩
      exact ⟨hclient, Or.inl ⟨hstatus, hlater⟩⟩
    · refine ⟨hclient, Or.inr ⟨hstatus, d, hd, hnow, not_lt.mp fun hlater => hover ?_⟩⟩
      exact ⟨hclient, Or.inr ⟨hstatus, d, hd, hlater⟩⟩

theorem Booking.not_endsForErasure_ended (k : Booking) (clientId : ℕ) (at_ : ℤ) :
    ¬ k.endedByErasure.endsForErasure clientId at_ := by
  have hover : erasureEnding k.status ≠ .confirmed ∧ erasureEnding k.status ∉ expiring := by
    cases k.status <;> decide
  rintro ⟨_, ⟨hstatus, _⟩ | ⟨hstatus, _⟩⟩
  · exact hover.1 hstatus
  · exact hover.2 hstatus

/-! ## § One business -/

theorem Business.mem_endForErasure {k : Booking} :
    k ∈ (b.endForErasure now clientId at_).db.bookings.rows ↔
      (∃ a ∈ b.db.bookings.rows, a.endsForErasure clientId at_ ∧ a.endedByErasure = k) ∨
      (k ∈ b.db.bookings.rows ∧ ¬ k.endsForErasure clientId at_) :=
  @Db.mem_updateBookings b.db (fun k => k.endsForErasure clientId at_) _ Booking.endedByErasure
    (fun _ => rfl) (fun _ => rfl) k

/-- After the erasure's ending, the core refuses over exactly those in between. -/
theorem Business.core_refuses_iff :
    (∃ k ∈ (b.endForErasure now clientId at_).db.bookings.rows, k.endsForErasure clientId now) ↔
      ∃ k ∈ b.db.bookings.rows, k.liveBetween clientId now at_ := by
  constructor
  · rintro ⟨k, hk, hlive⟩
    rcases Business.mem_endForErasure.mp hk with ⟨a, _, _, rfl⟩ | ⟨hk, hover⟩
    · exact absurd hlive (a.not_endsForErasure_ended clientId now)
    · exact ⟨k, hk, Booking.liveBetween_iff.mpr ⟨hlive, hover⟩⟩
  · rintro ⟨k, hk, hbetween⟩
    obtain ⟨hlive, hover⟩ := Booking.liveBetween_iff.mp hbetween
    exact ⟨k, Business.mem_endForErasure.mpr (Or.inr ⟨hk, hover⟩), hlive⟩

theorem Business.reapply_error {jobs : Jobs}
    (h : ∃ k ∈ b.db.bookings.rows, k.liveBetween clientId now at_) :
    b.reapply clock now jobs clientId at_ = .error .raised := by
  have hcore : (b.endForErasure now clientId at_).eraseClientCore now clientId =
      .error .raised := if_pos (Business.core_refuses_iff.mpr h)
  simp only [Business.reapply, hcore]
  rfl

theorem Business.reapply_ok {jobs : Jobs} (hheld : ∃ c ∈ b.db.clients.rows, c.id = clientId)
    (h : ∀ k ∈ b.db.bookings.rows, ¬ k.liveBetween clientId now at_) :
    ∃ again, b.reapply clock now jobs clientId at_ = .ok again ∧
      again.business = (b.endForErasure now clientId at_).blankClient now clientId := by
  obtain ⟨c, hc, hid⟩ := hheld
  have hfind : (b.endForErasure now clientId at_).db.clients.find clientId = some c :=
    Table.find_eq_some.mpr ⟨hc, hid⟩
  have hclear : ¬ ∃ k ∈ (b.endForErasure now clientId at_).db.bookings.rows,
      k.endsForErasure clientId now := by
    rw [Business.core_refuses_iff]
    rintro ⟨k, hk, hbetween⟩
    exact h k hk hbetween
  have hcore : (b.endForErasure now clientId at_).eraseClientCore now clientId =
      .ok ((b.endForErasure now clientId at_).blankClient now clientId,
        some (((b.endForErasure now clientId at_).erasedAt clientId).getD now)) := by
    unfold Business.eraseClientCore
    rw [if_neg hclear, hfind]
  simp only [Business.reapply, hcore]
  exact ⟨_, rfl, rfl⟩

/-- The entry is an erasure of that client of that business. -/
def LedgerEntry.isFor (e : LedgerEntry) (tenantId clientId : ℕ) : Prop :=
  e.tenantId.number = tenantId ∧ e.clientId.number = clientId

instance (e : LedgerEntry) (tenantId clientId : ℕ) : Decidable (e.isFor tenantId clientId) :=
  inferInstanceAs (Decidable (_ ∧ _))

/-- A restored business with its row after the entries `es`. -/
structure Business.Reapplied (now : ℤ) (es : List LedgerEntry) (b b' : Business) : Prop where
  id : b'.id = b.id
  held : ∀ n, (∃ c ∈ b'.db.clients.rows, c.id = n) ↔ ∃ c ∈ b.db.clients.rows, c.id = n
  unlisted : ∀ n, (∀ e ∈ es, ¬ e.isFor b.id n) → b'.erasedAt n = b.erasedAt n ∧
    ∀ k, k.clientId = n → (k ∈ b'.db.bookings.rows ↔ k ∈ b.db.bookings.rows)
  ended : ∀ k ∈ b.db.bookings.rows, ∃ k' ∈ b'.db.bookings.rows, k' = k ∨
    ∃ e ∈ es, e.isFor b.id k.clientId ∧ k.endsForErasure k.clientId e.erasedAt.instant ∧
      k' = k.endedByErasure
  erased : ∀ e ∈ es, ∀ n, e.isFor b.id n → (∃ c ∈ b.db.clients.rows, c.id = n) →
    (b'.erasedAt n).isSome
  clear : ∀ e ∈ es, ∀ n, e.isFor b.id n → (∃ c ∈ b.db.clients.rows, c.id = n) →
    b.erasedAt n = none → ∀ k ∈ b'.db.bookings.rows, ¬ k.endsForErasure n now

theorem Business.Reapplied.refl (b : Business) : b.Reapplied now [] b where
  id := rfl
  held _ := Iff.rfl
  unlisted _ _ := ⟨rfl, fun _ _ => Iff.rfl⟩
  ended k hk := ⟨k, hk, Or.inl rfl⟩
  erased _ he := absurd he List.not_mem_nil
  clear _ he := absurd he List.not_mem_nil

/-- The business holds the entry's client, not erased. -/
def LedgerEntry.WaitsIn (e : LedgerEntry) (b : Business) : Prop :=
  b.id = e.tenantId.number ∧ (∃ c ∈ b.db.clients.rows, c.id = e.clientId.number) ∧
    b.erasedAt e.clientId.number = none

/-- An entry that finds no client waiting is passed over. -/
theorem Business.Reapplied.skip (h : b.Reapplied now es b') (hnot : ¬ e.WaitsIn b') :
    b.Reapplied now (es ++ [e]) b' := by
  have herased : ∀ n, e.isFor b.id n → (∃ c ∈ b.db.clients.rows, c.id = n) →
      b'.erasedAt n ≠ none := by
    rintro n ⟨htenant, rfl⟩ hheld hnone
    exact hnot ⟨h.id.trans htenant.symm, (h.held _).mpr hheld, hnone⟩
  constructor
  · exact h.id
  · exact h.held
  · intro n hn
    exact h.unlisted n fun e' he' => hn e' (List.mem_append_left _ he')
  · intro k hk
    obtain ⟨k', hk', heq | ⟨e', he', hends⟩⟩ := h.ended k hk
    · exact ⟨k', hk', Or.inl heq⟩
    · exact ⟨k', hk', Or.inr ⟨e', List.mem_append_left _ he', hends⟩⟩
  · intro e' he' n hfor hheld
    rcases List.mem_append.mp he' with he' | he'
    · exact h.erased e' he' n hfor hheld
    · rw [List.mem_singleton.mp he'] at hfor
      exact Option.isSome_iff_ne_none.mpr (herased n hfor hheld)
  · intro e' he' n hfor hheld hnone
    -- Erased already, so an earlier entry was the client's.
    by_cases hearlier : ∃ e'' ∈ es, e''.isFor b.id n
    · obtain ⟨e'', he'', hfor''⟩ := hearlier
      exact h.clear e'' he'' n hfor'' hheld hnone
    · rcases List.mem_append.mp he' with he' | he'
      · exact absurd ⟨e', he', hfor⟩ hearlier
      · rw [List.mem_singleton.mp he'] at hfor
        have hsame := (h.unlisted n fun e'' he'' hf => hearlier ⟨e'', he'', hf⟩).1
        exact absurd (hsame.trans hnone) (herased n hfor hheld)

/-- An entry whose client waits, with nothing in the core's way. -/
theorem Business.Reapplied.erase (h : b.Reapplied now es b') (hwaits : e.WaitsIn b')
    (hclear : ∀ k ∈ b'.db.bookings.rows,
      ¬ k.liveBetween e.clientId.number now e.erasedAt.instant) :
    b.Reapplied now (es ++ [e]) ((b'.endForErasure now e.clientId.number
      e.erasedAt.instant).blankClient now e.clientId.number) := by
  set n := e.clientId.number with hn
  set b'' := (b'.endForErasure now n e.erasedAt.instant).blankClient now n with hb''
  have hfor : e.isFor b.id n := ⟨hwaits.1.symm.trans h.id, rfl⟩
  have hrows : ∀ k, k ∈ b''.db.bookings.rows ↔
      (∃ a ∈ b'.db.bookings.rows, a.endsForErasure n e.erasedAt.instant ∧
        a.endedByErasure = k) ∨
      (k ∈ b'.db.bookings.rows ∧ ¬ k.endsForErasure n e.erasedAt.instant) :=
    fun k => Business.mem_endForErasure
  have hothers : ∀ k, k.clientId ≠ n → (k ∈ b''.db.bookings.rows ↔ k ∈ b'.db.bookings.rows) := by
    intro k hk
    rw [hrows]
    constructor
    · rintro (⟨a, _, hends, rfl⟩ | ⟨hmem, _⟩)
      · exact absurd hends.1 hk
      · exact hmem
    · exact fun hmem => Or.inr ⟨hmem, fun hends => hk hends.1⟩
  have herased : ∀ m, m ≠ n → b''.erasedAt m = b'.erasedAt m := fun m hm =>
    Function.update_of_ne hm _ _
  constructor
  · exact h.id
  · intro m
    refine Iff.trans ?_ (h.held m)
    constructor
    · rintro ⟨c, hc, rfl⟩
      rcases Db.mem_blankClient.mp hc with ⟨a, ha, _, rfl⟩ | ⟨hc, _⟩
      · exact ⟨a, ha, rfl⟩
      · exact ⟨c, hc, rfl⟩
    · rintro ⟨c, hc, rfl⟩
      by_cases hid : c.id = n
      · exact ⟨c.blank, Db.mem_blankClient.mpr (Or.inl ⟨c, hc, hid, rfl⟩), rfl⟩
      · exact ⟨c, Db.mem_blankClient.mpr (Or.inr ⟨hc, hid⟩), rfl⟩
  · intro m hm
    have hne : m ≠ n := by
      rintro rfl
      exact hm e (by simp) hfor
    obtain ⟨hsame, hbookings⟩ := h.unlisted m fun e' he' => hm e' (List.mem_append_left _ he')
    refine ⟨(herased m hne).trans hsame, fun k hk => ?_⟩
    rw [hothers k (hk ▸ hne), hbookings k hk]
  · intro k hk
    obtain ⟨k', hk', hfrom⟩ := h.ended k hk
    by_cases hends : k'.endsForErasure n e.erasedAt.instant
    · rcases hfrom with rfl | ⟨_, _, _, _, rfl⟩
      · refine ⟨_, (hrows _).mpr (Or.inl ⟨k', hk', hends, rfl⟩), Or.inr ⟨e, by simp, ?_⟩⟩
        rw [hends.1]
        exact ⟨hfor, hends, rfl⟩
      · exact absurd hends (k.not_endsForErasure_ended _ _)
    · refine ⟨k', (hrows _).mpr (Or.inr ⟨hk', hends⟩), ?_⟩
      rcases hfrom with heq | ⟨e', he', hby⟩
      · exact Or.inl heq
      · exact Or.inr ⟨e', List.mem_append_left _ he', hby⟩
  · intro e' he' m hm hheld
    by_cases hne : m = n
    · rw [hne]
      show (Function.update b'.erasedAt n _ n).isSome
      rw [Function.update_self]
      rfl
    · rw [herased m hne]
      rcases List.mem_append.mp he' with he' | he'
      · exact h.erased e' he' m hm hheld
      · rw [List.mem_singleton.mp he'] at hm
        exact absurd hm.2.symm hne
  · intro e' he' m hm hheld hnone k hk hlive
    by_cases hne : m = n
    · rw [hne] at hlive
      obtain ⟨a, ha, hbetween⟩ := Business.core_refuses_iff.mp ⟨k, hk, hlive⟩
      exact hclear a ha hbetween
    · rcases List.mem_append.mp he' with he' | he'
      · have hk' := (hothers k (hlive.1 ▸ hne)).mp hk
        exact h.clear e' he' m hm hheld hnone k hk' hlive
      · rw [List.mem_singleton.mp he'] at hm
        exact absurd hm.2.symm hne

/-! ## § One turn -/

/-- The database holds the entry's client unerased, with a booking in between. -/
def LedgerEntry.Strands (e : LedgerEntry) (r : Restored) (now : ℤ) : Prop :=
  ∃ b ∈ r.businesses.rows, e.WaitsIn b ∧
    ∃ k ∈ b.db.bookings.rows, k.liveBetween e.clientId.number now e.erasedAt.instant

theorem reapplyEntry_skips (h : ∀ b ∈ r.businesses.rows, ¬ e.WaitsIn b) :
    ∃ report', reapplyEntry clock now (r, report) e = .ok (r, report') := by
  cases hfind : r.businesses.find e.tenantId.number with
  | none =>
      simp only [reapplyEntry, hfind]
      exact ⟨_, rfl⟩
  | some b =>
      obtain ⟨hb, hid⟩ := Table.find_eq_some.mp hfind
      cases hclient : b.db.clients.find e.clientId.number with
      | none =>
          simp only [reapplyEntry, hfind, hclient]
          exact ⟨_, rfl⟩
      | some c =>
          obtain ⟨hc, hcid⟩ := Table.find_eq_some.mp hclient
          have hsome : (b.erasedAt c.id).isSome := by
            rw [Option.isSome_iff_ne_none, hcid]
            exact fun hnone => h b hb ⟨hid, ⟨c, hc, hcid⟩, hnone⟩
          simp only [reapplyEntry, hfind, hclient]
          rw [if_pos hsome]
          exact ⟨_, rfl⟩

/-- A client that waits is erased again by the loop's body. -/
theorem reapplyEntry_waits (hb : b ∈ r.businesses.rows) (hwaits : e.WaitsIn b) :
    reapplyEntry clock now (r, report) e =
      (b.reapply clock now r.jobs e.clientId.number e.erasedAt.instant >>= fun again =>
        .ok (r.withBusiness again.business again.jobs,
          { report with
            reapplied := report.reapplied + 1
            cancelled := report.cancelled + again.ended.length
            paidEnded := report.paidEnded ++ again.paidEnded })) := by
  obtain ⟨hid, ⟨c, hc, hcid⟩, hnone⟩ := hwaits
  have hfind : r.businesses.find e.tenantId.number = some b := Table.find_eq_some.mpr ⟨hb, hid⟩
  have hclient : b.db.clients.find e.clientId.number = some c :=
    Table.find_eq_some.mpr ⟨hc, hcid⟩
  have herased : ¬ (b.erasedAt c.id).isSome := by
    rw [hcid, hnone]
    exact Bool.false_ne_true
  simp only [reapplyEntry, hfind, hclient]
  rw [if_neg herased, hcid]
  rfl

theorem Restored.mem_withBusiness {a : Business} {jobs : Jobs} (hb : b ∈ r.businesses.rows)
    (hid : b'.id = b.id) :
    a ∈ (r.withBusiness b' jobs).businesses.rows ↔
      a = b' ∨ (a ∈ r.businesses.rows ∧ a.id ≠ b.id) := by
  have hmem := @Table.mem_update _ _ _ r.businesses (fun a => a.id = b'.id) _
    (fun a => { b' with id := a.id }) (fun _ => rfl) a
  refine hmem.trans ?_
  rw [hid]
  refine or_congr ?_ Iff.rfl
  constructor
  · rintro ⟨x, _, hx, rfl⟩
    rw [hx, ← hid]
  · rintro rfl
    exact ⟨b, hb, rfl, by rw [← hid]⟩

/-! ## § The loop -/

/-- Where the loop stands after the entries `es`. -/
structure Restored.Progress (now : ℤ) (es : List LedgerEntry) (r r' : Restored) : Prop where
  forth : ∀ b ∈ r.businesses.rows, ∃ b' ∈ r'.businesses.rows, b.Reapplied now es b'
  back : ∀ b' ∈ r'.businesses.rows, ∃ b ∈ r.businesses.rows, b.Reapplied now es b'

theorem Restored.Progress.refl (now : ℤ) (r : Restored) : r.Progress now [] r :=
  ⟨fun b hb => ⟨b, hb, .refl b⟩, fun b hb => ⟨b, hb, .refl b⟩⟩

/-- A turn that returns passed over its entry, or erased the client of a business none of
whose bookings was in between. -/
theorem reapplyEntry_cases {out : Restored × Report}
    (h : reapplyEntry clock now (r, report) e = .ok out) :
    ((∀ b ∈ r.businesses.rows, ¬ e.WaitsIn b) ∧ out.1 = r) ∨
      ∃ b ∈ r.businesses.rows, e.WaitsIn b ∧
        (∀ k ∈ b.db.bookings.rows,
          ¬ k.liveBetween e.clientId.number now e.erasedAt.instant) ∧
        ∃ jobs, out.1 = r.withBusiness ((b.endForErasure now e.clientId.number
          e.erasedAt.instant).blankClient now e.clientId.number) jobs := by
  by_cases hnone : ∀ b ∈ r.businesses.rows, ¬ e.WaitsIn b
  · obtain ⟨report', hskip⟩ := @reapplyEntry_skips clock now _ _ report hnone
    rw [hskip, Except.ok.injEq] at h
    exact Or.inl ⟨hnone, by rw [← h]⟩
  · push Not at hnone
    obtain ⟨b, hb, hwaits⟩ := hnone
    rw [reapplyEntry_waits hb hwaits] at h
    by_cases hbetween : ∃ k ∈ b.db.bookings.rows,
        k.liveBetween e.clientId.number now e.erasedAt.instant
    · rw [Business.reapply_error hbetween] at h
      exact absurd h (by rintro ⟨⟩)
    · push Not at hbetween
      obtain ⟨again, hagain, hbusiness⟩ := Business.reapply_ok hwaits.2.1 hbetween
      rw [hagain] at h
      refine Or.inr ⟨b, hb, hwaits, hbetween, again.jobs, ?_⟩
      rw [← hbusiness]
      exact congrArg Prod.fst (Except.ok.inj h).symm

/-- **One turn keeps the invariant.** -/
theorem Restored.Progress.step (hp : r.Progress now es r') {out : Restored × Report}
    (h : reapplyEntry clock now (r', report) e = .ok out) : r.Progress now (es ++ [e]) out.1 := by
  rcases reapplyEntry_cases h with ⟨hnone, hout⟩ | ⟨b₀, hb₀, hwaits, hbetween, jobs, hout⟩
  · rw [hout]
    constructor
    · intro b hb
      obtain ⟨b', hb', hrel⟩ := hp.forth b hb
      exact ⟨b', hb', hrel.skip (hnone b' hb')⟩
    · intro b' hb'
      obtain ⟨b, hb, hrel⟩ := hp.back b' hb'
      exact ⟨b, hb, hrel.skip (hnone b' hb')⟩
  · rw [hout]
    have hmem := fun a => @Restored.mem_withBusiness b₀ ((b₀.endForErasure now e.clientId.number
      e.erasedAt.instant).blankClient now e.clientId.number) r' a jobs hb₀ rfl
    have hother : ∀ b' ∈ r'.businesses.rows, b'.id ≠ b₀.id → ¬ e.WaitsIn b' :=
      fun b' _ hne hw => hne (hw.1.trans hwaits.1.symm)
    constructor
    · intro b hb
      obtain ⟨b', hb', hrel⟩ := hp.forth b hb
      by_cases hid : b'.id = b₀.id
      · rw [r'.businesses.eq_of_key hb' hb₀ hid] at hrel
        exact ⟨_, (hmem _).mpr (Or.inl rfl), hrel.erase hwaits hbetween⟩
      · exact ⟨b', (hmem _).mpr (Or.inr ⟨hb', hid⟩), hrel.skip (hother b' hb' hid)⟩
    · intro b' hb'
      rcases (hmem b').mp hb' with rfl | ⟨hb', hid⟩
      · obtain ⟨b, hb, hrel⟩ := hp.back b₀ hb₀
        exact ⟨b, hb, hrel.erase hwaits hbetween⟩
      · obtain ⟨b, hb, hrel⟩ := hp.back b' hb'
        exact ⟨b, hb, hrel.skip (hother b' hb' hid)⟩

theorem Restored.Progress.fold (rest : List LedgerEntry) :
    ∀ {es : List LedgerEntry} {r' : Restored} {report : Report} {out : Restored × Report},
      r.Progress now es r' → rest.foldlM (reapplyEntry clock now) (r', report) = .ok out →
        r.Progress now (es ++ rest) out.1 := by
  induction rest with
  | nil =>
      intro es r' report out hp h
      obtain rfl : (r', report) = out := Except.ok.inj h
      rwa [List.append_nil]
  | cons e rest ih =>
      intro es r' report out hp h
      rw [List.foldlM_cons] at h
      cases hturn : reapplyEntry clock now (r', report) e with
      | error err =>
          rw [hturn] at h
          exact absurd h (by rintro ⟨⟩)
      | ok mid =>
          rw [hturn] at h
          have hrest := ih (hp.step hturn) h
          rwa [List.append_assoc, List.singleton_append] at hrest

/-- A turn returns unless it is a stranded client's first. -/
theorem Restored.Progress.turn_iff (hp : r.Progress now es r') :
    (∃ out, reapplyEntry clock now (r', report) e = .ok out) ↔
      ((∀ e' ∈ es, ¬ e'.isFor e.tenantId.number e.clientId.number) → ¬ e.Strands r now) := by
  constructor
  · rintro ⟨out, hout⟩ hfirst ⟨b, hb, hwaits, k, hk, hbetween⟩
    obtain ⟨b', hb', hrel⟩ := hp.forth b hb
    obtain ⟨hsame, hbookings⟩ := hrel.unlisted e.clientId.number (by rwa [hwaits.1])
    have hwaits' : e.WaitsIn b' :=
      ⟨hrel.id.trans hwaits.1, (hrel.held _).mpr hwaits.2.1, hsame.trans hwaits.2.2⟩
    have hk' : k ∈ b'.db.bookings.rows := (hbookings k hbetween.1).mpr hk
    rw [reapplyEntry_waits hb' hwaits', Business.reapply_error ⟨k, hk', hbetween⟩] at hout
    exact absurd hout (by rintro ⟨⟩)
  · intro hclear
    by_cases hnone : ∀ b' ∈ r'.businesses.rows, ¬ e.WaitsIn b'
    · obtain ⟨report', hskip⟩ := @reapplyEntry_skips clock now _ _ report hnone
      exact ⟨_, hskip⟩
    · push Not at hnone
      obtain ⟨b', hb', hwaits'⟩ := hnone
      obtain ⟨b, hb, hrel⟩ := hp.back b' hb'
      have hid : b.id = e.tenantId.number := hrel.id.symm.trans hwaits'.1
      have hheld := (hrel.held _).mp hwaits'.2.1
      have hfirst : ∀ e' ∈ es, ¬ e'.isFor b.id e.clientId.number := by
        intro e' he' hfor
        have hsome := hrel.erased e' he' _ hfor hheld
        rw [hwaits'.2.2] at hsome
        exact Bool.false_ne_true hsome
      obtain ⟨hsame, hbookings⟩ := hrel.unlisted _ hfirst
      have hbetween : ∀ k ∈ b'.db.bookings.rows,
          ¬ k.liveBetween e.clientId.number now e.erasedAt.instant := by
        intro k hk hlive
        refine hclear (by rwa [hid] at hfirst)
          ⟨b, hb, ⟨hid, hheld, hsame ▸ hwaits'.2.2⟩, k, ?_, hlive⟩
        exact (hbookings k hlive.1).mp hk
      obtain ⟨again, hagain, _⟩ := Business.reapply_ok hwaits'.2.1 hbetween
      rw [reapplyEntry_waits hb' hwaits', hagain]
      exact ⟨_, rfl⟩

/-- Each client at its first entry is not stranded. -/
def NoneStranded (r : Restored) (now : ℤ) (earlier entries : List LedgerEntry) : Prop :=
  ∀ before e after, entries = before ++ e :: after →
    (∀ e' ∈ earlier ++ before, ¬ e'.isFor e.tenantId.number e.clientId.number) →
      ¬ e.Strands r now

theorem noneStranded_cons {rest : List LedgerEntry} :
    NoneStranded r now es (e :: rest) ↔
      ((∀ e' ∈ es, ¬ e'.isFor e.tenantId.number e.clientId.number) → ¬ e.Strands r now) ∧
        NoneStranded r now (es ++ [e]) rest := by
  constructor
  · intro h
    refine ⟨fun hfirst => h [] e rest rfl (by rwa [List.append_nil]), ?_⟩
    intro before e' after heq hfirst
    apply h (e :: before) e' after
    · rw [heq, List.cons_append]
    · rwa [List.append_assoc, List.singleton_append] at hfirst
  · rintro ⟨hhead, htail⟩ before e' after heq hfirst
    rcases List.cons_eq_append_iff.mp heq with ⟨rfl, hcons⟩ | ⟨before', rfl, hrest⟩
    · obtain ⟨rfl, _⟩ := List.cons.inj hcons
      exact hhead (by rwa [List.append_nil] at hfirst)
    · apply htail before' e' after hrest
      rwa [List.append_assoc, List.singleton_append]

/-- The loop ends without an error exactly when no client is stranded. -/
theorem Restored.Progress.fold_iff (rest : List LedgerEntry) :
    ∀ {es : List LedgerEntry} {r' : Restored} {report : Report}, r.Progress now es r' →
      ((∃ out, rest.foldlM (reapplyEntry clock now) (r', report) = .ok out) ↔
        NoneStranded r now es rest) := by
  induction rest with
  | nil =>
      intro es r' report _
      refine ⟨fun _ before e after heq => ?_, fun _ => ⟨_, rfl⟩⟩
      exact absurd heq (by simp)
  | cons e rest ih =>
      intro es r' report hp
      rw [noneStranded_cons, ← @Restored.Progress.turn_iff clock now e es r r' report hp,
        List.foldlM_cons]
      cases hturn : reapplyEntry clock now (r', report) e with
      | error err =>
          constructor
          · rintro ⟨out, hout⟩
            exact absurd hout (by rintro ⟨⟩)
          · rintro ⟨⟨out, hout⟩, _⟩
            exact absurd hout (by rintro ⟨⟩)
      | ok mid =>
          have hrest := @ih _ mid.1 mid.2 (hp.step hturn)
          rw [← hrest]
          exact ⟨fun h => ⟨⟨mid, rfl⟩, h⟩, fun h => h.2⟩

/-- Once every listed client is erased, the loop passes over every entry. -/
theorem fold_skips (rest : List LedgerEntry)
    (h : ∀ e ∈ rest, ∀ b ∈ r.businesses.rows, ¬ e.WaitsIn b) :
    ∀ report, ∃ report', rest.foldlM (reapplyEntry clock now) (r, report) = .ok (r, report') := by
  induction rest with
  | nil => exact fun report => ⟨report, rfl⟩
  | cons e rest ih =>
      intro report
      obtain ⟨mid, hmid⟩ := @reapplyEntry_skips clock now _ _ report (h e (by simp))
      rw [List.foldlM_cons, hmid]
      exact ih (fun e' he' => h e' (List.mem_cons_of_mem _ he')) mid

end Ziftbook
