import Ziftbook.Contact.Senders

/-!
# At most three businesses and fifteen links a day

A business holds a place of an inbox for a day after each link it queued, and for
five minutes after a claim. While each claim finds the places as they are at that
moment, and no daily counter begins again within a day of a link it counted, three
businesses at most hold a place at any time, and each queues five links at most in
any day.
-/

namespace Ziftbook

open Foundation Foundation.Windows

variable {τ α δ : Type}

/-! ## § Conditions on a step -/

/-- Not a call of a business exempt from the inbox's cap. -/
def LinkOp.unexempt : LinkOp τ α δ → Bool
  | .open _ _ exempt => !exempt
  | _ => true

def LinkOp.sends : LinkOp τ α δ → Option ℕ
  | .send i => some i
  | _ => none

def LinkOp.claims : LinkOp τ α δ → Option (ℕ × List (δ × τ))
  | .claim i purged => some (i, purged)
  | _ => none

def LinkStage.moment : LinkStage → Option ℤ
  | .claimed moment => some moment
  | _ => none

/-- A link is queued within five minutes of its claim. -/
def Inboxes.prompt (s : Inboxes τ α δ) (e : LinkStep τ α δ) : Prop :=
  ∀ i ∈ e.op.sends, ∀ c ∈ s.calls[i]?, ∀ moment ∈ c.stage.moment, e.clock ≤ moment + claimLife

instance (s : Inboxes τ α δ) (e : LinkStep τ α δ) : Decidable (s.prompt e) :=
  inferInstanceAs (Decidable (∀ i ∈ e.op.sends, ∀ c ∈ s.calls[i]?, ∀ moment ∈ c.stage.moment, _))

/-- The counter of the business's links to an address in a day, `sent_key`. -/
def QueuedLink.sentKey (d : Digests τ α δ) (l : QueuedLink τ α δ) : LinkKey τ δ :=
  .sent (d.ofBusiness l.tenant l.address)

variable [DecidableEq τ] [DecidableEq δ]

/-- The business queued a link to the inbox in the past day, or claimed it in the past five
minutes. -/
def Inboxes.holding (d : Digests τ α δ) (s : Inboxes τ α δ) (clock : ℤ) (key : δ) (tenant : τ) :
    Prop :=
  (∃ l ∈ s.links, d.ofAddress l.address = key ∧ l.tenant = tenant ∧ clock - oneDay < l.queuedAt) ∨
    ∃ m ∈ s.claims, m.inboxKey = key ∧ m.tenant = tenant ∧ clock - claimLife ≤ m.moment

instance (d : Digests τ α δ) (s : Inboxes τ α δ) (clock : ℤ) (key : δ) (tenant : τ) :
    Decidable (s.holding d clock key tenant) :=
  inferInstanceAs (Decidable ((∃ l ∈ s.links, _) ∨ ∃ m ∈ s.claims, _))

/-- The businesses that ever queued a link or claimed. -/
def Inboxes.businesses (s : Inboxes τ α δ) : List τ :=
  s.links.map QueuedLink.tenant ++ s.claims.map MadeClaim.tenant

/-- A claim counts the other businesses that hold a place of its inbox at that moment,
and its own only if it holds one. -/
def Inboxes.seen (d : Digests τ α δ) (s : Inboxes τ α δ) (e : LinkStep τ α δ) : Prop :=
  ∀ q ∈ e.op.claims, ∀ c ∈ s.calls[q.1]?,
    (∀ t ∈ s.businesses, t ≠ c.tenant → s.holding d e.clock (d.ofAddress c.address) t →
      mine (purgeSenders s.senders e.now q.2) e.now (d.ofAddress c.address) t) ∧
    (mine (purgeSenders s.senders e.now q.2) e.now (d.ofAddress c.address) c.tenant →
      s.holding d e.clock (d.ofAddress c.address) c.tenant)

instance (d : Digests τ α δ) (s : Inboxes τ α δ) (e : LinkStep τ α δ) : Decidable (s.seen d e) :=
  inferInstanceAs (Decidable (∀ q ∈ e.op.claims, ∀ c ∈ s.calls[q.1]?,
    (∀ t ∈ s.businesses, _ → _ → _) ∧ (_ → _)))

/-- A day's counter begins again only a day after each link it counted. -/
def Inboxes.spaced (d : Digests τ α δ) (s : Inboxes τ α δ) (e : LinkStep τ α δ) : Prop :=
  ∀ i ∈ e.op.sends, ∀ c ∈ s.calls[i]?,
    (∀ r ∈ s.table.rows (.sent (d.ofBusiness c.tenant c.address)), ¬ r.running oneDay c.openedAt) →
      ∀ l ∈ s.links, l.sentKey d = .sent (d.ofBusiness c.tenant c.address) →
        l.queuedAt + oneDay ≤ e.clock

instance (d : Digests τ α δ) (s : Inboxes τ α δ) (e : LinkStep τ α δ) : Decidable (s.spaced d e) :=
  inferInstanceAs (Decidable (∀ i ∈ e.op.sends, ∀ c ∈ s.calls[i]?,
    (∀ r ∈ s.table.rows _, ¬ _) → ∀ l ∈ s.links, _ → _))

/-! ## § The business's own counters -/

def LinkKey.cap : LinkKey τ δ → ℕ
  | .hourly _ => 3
  | .tenant _ => 10
  | .sent _ => linksPerAddressADay

variable {d : Digests τ α δ} {s s' : Inboxes τ α δ} {now : ℤ} {i : ℕ} {c : LinkCall τ α}
  {tenant : τ} {address : α} {key : δ} {senders : List (Sender τ δ)} {ts : List τ}
  {ps : List (Place (LinkKey τ δ))}

/-- The places of one link, on its three counters. -/
theorem balanced_hitOwn {length : LinkKey τ δ → ℤ}
    (h : Balanced length s.clock LinkKey.cap s.table ps) :
    Balanced length s.clock LinkKey.cap (s.hitOwn now (ownLimits d tenant address))
      ((ownLimits d tenant address).map
        (fun l => (s.hitOwn now (ownLimits d tenant address)).last l.key) ++ ps) := by
  set k := d.ofBusiness tenant address
  set first := s.table.hit (60 * minute) now [.hourly k]
  set second := first.hit oneDay now [.tenant tenant]
  set table := s.hitOwn now (ownLimits d tenant address)
  have hfirst : Balanced _ _ _ first _ := h.hit _ _ (List.nodup_singleton _)
  have hsecond : Balanced _ _ _ second _ := hfirst.hit _ _ (List.nodup_singleton _)
  have hthird : Balanced _ _ _ table _ := hsecond.hit _ _ (List.nodup_singleton _)
  apply hthird.perm
  rw [← List.append_assoc, ← List.append_assoc]
  apply List.Perm.append_right
  -- A counter's last hit is its own, whichever counters were hit since.
  have hhourly : table.last (.hourly k) = first.last (.hourly k) :=
    (last_hit_of_not_mem (by simp)).trans (last_hit_of_not_mem (by simp))
  have htenant : table.last (.tenant tenant) = second.last (.tenant tenant) :=
    last_hit_of_not_mem (by simp)
  show List.Perm _ [table.last (.hourly k), table.last (.tenant tenant), table.last (.sent k)]
  rw [hhourly, htenant]
  exact (List.reverse_perm _).symm

/-- The day's counter: its window's next link, or the first of another. -/
theorem hitOwn_sent : ∃ r, Landed oneDay now s.table (.sent (d.ofBusiness tenant address)) r
    ((s.hitOwn now (ownLimits d tenant address)).opened
      (.sent (d.ofBusiness tenant address))) := by
  set k := d.ofBusiness tenant address
  set first := s.table.hit (60 * minute) now [.hourly k] with hfirst
  set second := first.hit oneDay now [.tenant tenant] with hsecond
  have hhourly : LinkKey.sent k ∉ [(.hourly k : LinkKey τ δ)] := by simp
  have htenant : LinkKey.sent k ∉ [(.tenant tenant : LinkKey τ δ)] := by simp
  obtain ⟨r, _, hland⟩ : ∃ r, (second.hit oneDay now [.sent k]).rows (.sent k) = some r ∧
      Landed oneDay now second (.sent k) r ((second.hit oneDay now [.sent k]).opened (.sent k)) :=
    hit_of_mem (List.mem_singleton_self _)
  refine ⟨r, hland.congr ?_ ?_⟩
  · exact (hit_rows_of_not_mem htenant).trans (hit_rows_of_not_mem hhourly)
  · exact (hit_opened_of_not_mem htenant).trans (hit_opened_of_not_mem hhourly)

/-- Businesses with a live row beside this one's are among the others counted. -/
theorem length_le_others (hts : ts.Nodup)
    (h : ∀ t ∈ ts, t ≠ tenant ∧ mine senders now key t) :
    ts.length ≤ others senders now key tenant := by
  have hsub : ts ⊆ (senders.filter fun r =>
      r.inboxKey = key ∧ r.tenant ≠ tenant ∧ r.live now).map Sender.tenant := by
    intro t ht
    obtain ⟨hne, r, hr, ⟨hkey, rfl⟩, hlive⟩ := h t ht
    exact List.mem_map_of_mem
      (List.mem_filter.mpr ⟨hr, decide_eq_true ⟨hkey, hne, hlive⟩⟩)
  have hle := (List.subperm_of_subset hts hsub).length_le
  rw [List.length_map] at hle
  rw [others, List.countP_eq_length_filter]
  exact hle

/-! ## § The invariant -/

/-- What holds of the inboxes after any steps that meet the conditions. -/
structure Inboxes.Capped (d : Digests τ α δ) (s : Inboxes τ α δ) : Prop where
  unexempt : ∀ c ∈ s.calls, c.exempt = false
  claimed : ∀ c ∈ s.calls, ∀ moment ∈ c.stage.moment, ∃ m ∈ s.claims,
    m.inboxKey = d.ofAddress c.address ∧ m.tenant = c.tenant ∧ m.moment = moment
  balanced : Balanced (fun _ => oneDay) s.clock LinkKey.cap s.table
    (s.links.flatMap QueuedLink.places)
  counted : ∀ l ∈ s.links, ∃ p ∈ l.places, p.key = l.sentKey d ∧ p.hits ≤ p.key.cap
  /-- A link is of its counter's last window, or a day old. -/
  current : ∀ l ∈ s.links, ∀ p ∈ l.places, p.key = l.sentKey d →
    p.number = s.table.opened p.key ∨ l.queuedAt + oneDay ≤ s.clock
  apart : ∀ l ∈ s.links, ∀ m ∈ s.links, ∀ p ∈ l.places, ∀ q ∈ m.places,
    p.key = l.sentKey d → q.key = m.sentKey d → p.key = q.key →
      p.number = q.number ∨ l.queuedAt + oneDay ≤ m.queuedAt ∨ m.queuedAt + oneDay ≤ l.queuedAt
  holders : ∀ key (ts : List τ), ts.Nodup → (∀ t ∈ ts, s.holding d s.clock key t) →
    ts.length ≤ businessesPerAddressADay
  daily : ∀ address start (ts : List τ), ts.Nodup → (∀ t ∈ ts, ∃ l ∈ s.links,
    l.address = address ∧ l.tenant = t ∧ start ≤ l.queuedAt ∧ l.queuedAt < start + oneDay) →
      ts.length ≤ businessesPerAddressADay

omit [DecidableEq τ] [DecidableEq δ] in
theorem holding_businesses {clock : ℤ} (h : s.holding d clock key tenant) :
    tenant ∈ s.businesses := by
  rcases h with ⟨l, hl, _, rfl, _⟩ | ⟨m, hm, _, rfl, _⟩
  · exact List.mem_append_left _ (List.mem_map_of_mem hl)
  · exact List.mem_append_right _ (List.mem_map_of_mem hm)

namespace Inboxes.Capped

theorem tick (h : s.Capped d) {clock : ℤ} (hle : s.clock ≤ clock) :
    Capped d { s with clock := clock } := by
  refine ⟨h.unexempt, h.claimed, h.balanced.tick hle, h.counted, fun l hl p hp hkey => ?_,
    h.apart, fun key ts hts hall => ?_, h.daily⟩
  · rcases h.current l hl p hp hkey with hnumber | hold
    · exact Or.inl hnumber
    · exact Or.inr (hold.trans hle)
  · apply h.holders key ts hts
    intro t ht
    rcases hall t ht with ⟨l, hl, hkey, htenant, hday⟩ | ⟨m, hm, hkey, htenant, hlife⟩
    · exact Or.inl ⟨l, hl, hkey, htenant, by change clock - _ < _ at hday; omega⟩
    · exact Or.inr ⟨m, hm, hkey, htenant, by change clock - _ ≤ _ at hlife; omega⟩

/-- A call replaced by one that claims nothing new. -/
theorem restage (h : s.Capped d) (hc : s.calls[i]? = some c) {stage : LinkStage}
    (hstage : stage.moment = none) : (s.restage i c stage).Capped d := by
  refine ⟨fun x hx => ?_, fun x hx moment hmoment => ?_, h.balanced, h.counted, h.current,
    h.apart, h.holders, h.daily⟩
  · rcases List.mem_or_eq_of_mem_set hx with hx | rfl
    · exact h.unexempt x hx
    · exact h.unexempt c (List.mem_of_getElem? hc)
  · rcases List.mem_or_eq_of_mem_set hx with hx | rfl
    · exact h.claimed x hx moment hmoment
    · change moment ∈ stage.moment at hmoment
      rw [hstage] at hmoment
      cases hmoment

theorem claim (h : s.Capped d) (hc : s.calls[i]? = some c) {purged : List (δ × τ)}
    (hseen : s.seen d ⟨s.clock, now, .claim i purged⟩) : (s.claim d now purged i c).Capped d := by
  obtain ⟨hothers, hown⟩ := hseen (i, purged) rfl c hc
  unfold Inboxes.claim
  dsimp only
  split
  · exact h.restage hc rfl
  · rename_i hadmitted
    set key := d.ofAddress c.address with hkey
    refine ⟨fun x hx => ?_, fun x hx moment hmoment => ?_, h.balanced, h.counted, h.current,
      h.apart, fun inbox ts hts hall => ?_, h.daily⟩
    · rcases List.mem_or_eq_of_mem_set hx with hx | rfl
      · exact h.unexempt x hx
      · exact h.unexempt c (List.mem_of_getElem? hc)
    · rcases List.mem_or_eq_of_mem_set hx with hx | rfl
      · obtain ⟨m, hm, hfacts⟩ := h.claimed x hx moment hmoment
        exact ⟨m, List.mem_append_left _ hm, hfacts⟩
      · cases hmoment
        exact ⟨_, List.mem_append_right _ (List.mem_singleton_self _), rfl, rfl, rfl⟩
    · -- A place held after the claim is one of before, or the claim's own.
      have hcases : ∀ t ∈ ts, s.holding d s.clock inbox t ∨ inbox = key ∧ t = c.tenant := by
        intro t ht
        rcases hall t ht with hlink | ⟨m, hm, hinbox, htenant, hlife⟩
        · exact Or.inl (Or.inl hlink)
        · rcases List.mem_append.mp hm with hm | hm
          · exact Or.inl (Or.inr ⟨m, hm, hinbox, htenant, hlife⟩)
          · cases List.mem_singleton.mp hm
            exact Or.inr ⟨hinbox.symm, htenant.symm⟩
      by_cases hinbox : inbox = key
      · subst hinbox
        by_cases hmine : mine (purgeSenders s.senders now purged) now key c.tenant
        · apply h.holders key ts hts
          intro t ht
          rcases hcases t ht with hold | ⟨_, rfl⟩
          · exact hold
          · exact hown hmine
        · have hroom : others (purgeSenders s.senders now purged) now key c.tenant <
              businessesPerAddressADay := by
            by_contra hfull
            refine hadmitted ⟨?_, not_lt.mp hfull⟩
            rintro (hmine' | hexempt)
            · exact hmine hmine'
            · rw [h.unexempt c (List.mem_of_getElem? hc)] at hexempt
              cases hexempt
          have hrest : (ts.erase c.tenant).length ≤
              others (purgeSenders s.senders now purged) now key c.tenant := by
            apply length_le_others (hts.erase _)
            intro t ht
            obtain ⟨hne, ht⟩ := hts.mem_erase_iff.mp ht
            rcases hcases t ht with hold | ⟨_, heq⟩
            · exact ⟨hne, hothers t (holding_businesses hold) hne hold⟩
            · exact absurd heq hne
          rw [List.length_erase] at hrest
          split at hrest <;> omega
      · apply h.holders inbox ts hts
        intro t ht
        rcases hcases t ht with hold | ⟨heq, _⟩
        · exact hold
        · exact absurd heq hinbox

/-- A link queued: the counters are hit once more, and the business held its place. -/
theorem send (h : s.Capped d) (hc : s.calls[i]? = some c) {moment : ℤ}
    (hstage : c.stage = .claimed moment) (hprompt : s.clock ≤ moment + claimLife)
    (hspaced : s.spaced d ⟨s.clock, now, .send i⟩) : (s.send d i c).Capped d := by
  unfold Inboxes.send
  dsimp only
  split
  · exact h.restage hc rfl
  · rename_i hsent
    set own := ownLimits d c.tenant c.address with hownEq
    set table := s.hitOwn c.openedAt own with htable
    set link : QueuedLink τ α δ :=
      ⟨c.tenant, c.address, s.clock, own.map fun l => table.last l.key⟩ with hlink
    have hmem : ∀ {l}, l ∈ s.links ++ [link] → l ∈ s.links ∨ l = link := by
      intro l hl
      rcases List.mem_append.mp hl with hl | hl
      · exact Or.inl hl
      · exact Or.inr (List.mem_singleton.mp hl)
    -- The new link's place on the day's counter is the counter's last hit.
    have hplace : ∀ p ∈ link.places, p = table.last p.key := by
      intro p hp
      obtain ⟨l, _, rfl⟩ := List.mem_map.mp hp
      rfl
    -- Each earlier link of the counter is of the same window, or a day old.
    have hearlier : ∀ l ∈ s.links, ∀ p ∈ l.places, p.key = l.sentKey d →
        p.key = link.sentKey d →
          p.number = table.opened p.key ∨ l.queuedAt + oneDay ≤ s.clock := by
      intro l hl p hp hkey hsame
      rw [hsame]
      obtain ⟨r, hland⟩ : ∃ r, Landed oneDay c.openedAt s.table (link.sentKey d) r
          (table.opened (link.sentKey d)) := hitOwn_sent
      generalize table.opened (link.sentKey d) = number at hland ⊢
      cases hland with
      | next r hr hrun =>
          rw [← hsame]
          exact h.current l hl p hp hkey
      | first hnone =>
          exact Or.inr (hspaced i rfl c hc hnone l hl (hkey.symm.trans hsame))
    have hother : ∀ k, k ∉ own.map OwnLimit.key → table.opened k = s.table.opened k := by
      intro k hk
      simp only [hownEq, ownLimits, List.map_cons, List.map_nil, List.mem_cons, not_or,
        List.not_mem_nil, not_false_eq_true, and_true] at hk
      obtain ⟨hhourly, htenant, hsentKey⟩ := hk
      show (((s.table.hit _ _ [_]).hit _ _ [_]).hit _ _ [_]).opened k = _
      rw [hit_opened_of_not_mem (mt List.mem_singleton.mp hsentKey),
        hit_opened_of_not_mem (mt List.mem_singleton.mp htenant),
        hit_opened_of_not_mem (mt List.mem_singleton.mp hhourly)]
    have hheld : s.holding d s.clock (d.ofAddress c.address) c.tenant := by
      obtain ⟨m, hm, hkey, htenant, rfl⟩ := h.claimed c (List.mem_of_getElem? hc) moment
        (by rw [hstage]; rfl)
      exact Or.inr ⟨m, hm, hkey, htenant, by omega⟩
    have hholding : ∀ key t, holding d { s with links := s.links ++ [link] } s.clock key t →
        s.holding d s.clock key t := by
      rintro key t (⟨l, hl, hkey, htenant, hday⟩ | hclaim)
      · rcases hmem hl with hl | rfl
        · exact Or.inl ⟨l, hl, hkey, htenant, hday⟩
        · exact hkey ▸ htenant ▸ hheld
      · exact Or.inr hclaim
    have hnumber : ∀ q ∈ link.places, ∀ p : Place (LinkKey τ δ), p.key = q.key →
        p.number = table.opened p.key → p.number = q.number := by
      intro q hq p hkey hlast
      rw [hlast, hplace q hq, hkey]
      rfl
    refine ⟨?_, ?_, ?_, fun l hl => ?_, fun l hl p hp hkey => ?_, ?_, ?_, ?_⟩
    · intro x hx
      rcases List.mem_or_eq_of_mem_set hx with hx | rfl
      · exact h.unexempt x hx
      · exact h.unexempt c (List.mem_of_getElem? hc)
    · intro x hx m hm
      rcases List.mem_or_eq_of_mem_set hx with hx | rfl
      · exact h.claimed x hx m hm
      · cases hm
    · apply (balanced_hitOwn h.balanced).perm
      show List.Perm _ ((s.links ++ [link]).flatMap QueuedLink.places)
      rw [List.flatMap_append, List.flatMap_singleton]
      exact List.perm_append_comm
    · rcases hmem hl with hl | rfl
      · exact h.counted l hl
      · have hown : (⟨link.sentKey d, oneDay, linksPerAddressADay⟩ : OwnLimit τ δ) ∈ own :=
          List.mem_cons_of_mem _ (List.mem_cons_of_mem _ (List.mem_singleton_self _))
        have hlast : table.last (link.sentKey d) ∈ own.map fun l => table.last l.key :=
          List.mem_map.mpr ⟨_, hown, rfl⟩
        refine ⟨table.last (link.sentKey d), hlast, rfl, ?_⟩
        exact not_lt.mp fun hover => hsent (Or.inl ⟨_, hown, hover⟩)
    · rcases hmem hl with hl | rfl
      · by_cases hsame : p.key = link.sentKey d
        · exact hearlier l hl p hp hkey hsame
        · show p.number = table.opened p.key ∨ _
          rw [hother p.key]
          · exact h.current l hl p hp hkey
          · intro hown
            simp only [hownEq, ownLimits, List.map_cons, List.map_nil, List.mem_cons,
              List.not_mem_nil, or_false] at hown
            rcases hown with hown | hown | hown
            · cases hkey.symm.trans hown
            · cases hkey.symm.trans hown
            · exact hsame hown
      · rw [hplace p hp]
        exact Or.inl rfl
    · intro l hl m hm p hp q hq hpkey hqkey hkeys
      rcases hmem hl with hl | rfl <;> rcases hmem hm with hm | rfl
      · exact h.apart l hl m hm p hp q hq hpkey hqkey hkeys
      · rcases hearlier l hl p hp hpkey (hkeys.trans hqkey) with hlast | hold
        · exact Or.inl (hnumber q hq p hkeys hlast)
        · exact Or.inr (Or.inl hold)
      · rcases hearlier m hm q hq hqkey (hkeys.symm.trans hpkey) with hlast | hold
        · exact Or.inl (hnumber p hp q hkeys.symm hlast).symm
        · exact Or.inr (Or.inr hold)
      · exact Or.inl (hnumber q hq p hkeys (congrArg Place.number (hplace p hp)))
    · exact fun key ts hts hall => h.holders key ts hts fun t ht => hholding key t (hall t ht)
    · intro address start ts hts hall
      by_cases hin : start ≤ s.clock ∧ s.clock < start + oneDay
      · -- The new link is in the period: all in it hold a place now.
        apply h.holders (d.ofAddress address) ts hts
        intro t ht
        apply hholding
        obtain ⟨l, hl, rfl, htenant, hstart, _⟩ := hall t ht
        exact Or.inl ⟨l, hl, rfl, htenant, by omega⟩
      · apply h.daily address start ts hts
        intro t ht
        obtain ⟨l, hl, hfacts⟩ := hall t ht
        rcases hmem hl with hl | rfl
        · exact ⟨l, hl, hfacts⟩
        · exact absurd ⟨hfacts.2.2.1, hfacts.2.2.2⟩ hin

theorem apply (h : s.Capped d) {op : LinkOp τ α δ} (hplain : op.unexempt = true)
    (hprompt : s.prompt ⟨s.clock, now, op⟩) (hseen : s.seen d ⟨s.clock, now, op⟩)
    (hspaced : s.spaced d ⟨s.clock, now, op⟩) (hop : s.apply d now op = some s') :
    s'.Capped d := by
  cases op with
  | «open» tenant address exempt =>
      cases hop
      refine ⟨fun x hx => ?_, fun x hx m hm => ?_, h.balanced, h.counted, h.current, h.apart,
        h.holders, h.daily⟩
      · rcases List.mem_append.mp hx with hx | hx
        · exact h.unexempt x hx
        · cases List.mem_singleton.mp hx
          simpa [LinkOp.unexempt] using hplain
      · rcases List.mem_append.mp hx with hx | hx
        · exact h.claimed x hx m hm
        · cases List.mem_singleton.mp hx
          cases hm
  | check i =>
      obtain ⟨c, hc, rfl⟩ := Option.map_eq_some_iff.mp hop
      obtain ⟨hc, _⟩ := Option.filter_eq_some_iff.mp hc
      split
      · exact h.restage hc rfl
      · exact h.restage hc rfl
  | claim i purged =>
      obtain ⟨c, hc, rfl⟩ := Option.map_eq_some_iff.mp hop
      obtain ⟨hc, _⟩ := Option.filter_eq_some_iff.mp hc
      exact h.claim hc hseen
  | send i =>
      obtain ⟨c, hc, rfl⟩ := Option.map_eq_some_iff.mp hop
      obtain ⟨hc, hstage⟩ := Option.filter_eq_some_iff.mp hc
      obtain ⟨moment, hmoment⟩ : ∃ moment, c.stage = .claimed moment := by
        generalize c.stage = stage at hstage ⊢
        cases stage with
        | claimed moment => exact ⟨moment, rfl⟩
        | _ => cases hstage
      apply h.send hc hmoment _ hspaced
      exact hprompt i rfl c hc moment (by rw [hmoment]; rfl)
  | fail i =>
      obtain ⟨c, hc, rfl⟩ := Option.map_eq_some_iff.mp hop
      obtain ⟨hc, _⟩ := Option.filter_eq_some_iff.mp hc
      exact h.restage hc rfl
  | purge keys =>
      cases hop
      exact ⟨h.unexempt, h.claimed, h.balanced.delete _, h.counted, h.current, h.apart,
        h.holders, h.daily⟩
  | sweep purged =>
      cases hop
      exact ⟨h.unexempt, h.claimed, h.balanced, h.counted, h.current, h.apart, h.holders,
        h.daily⟩

theorem step (h : s.Capped d) {e : LinkStep τ α δ} (hplain : e.op.unexempt = true)
    (hprompt : s.prompt e) (hseen : s.seen d e) (hspaced : s.spaced d e)
    (hstep : s.step d e = some s') : s'.Capped d := by
  unfold Inboxes.step at hstep
  split at hstep
  · rename_i hclock
    exact (h.tick hclock.1).apply hplain hprompt hseen hspaced hstep
  · cases hstep

end Inboxes.Capped

theorem capped_empty : (Inboxes.empty : Inboxes τ α δ).Capped d := by
  refine ⟨nofun, nofun, balanced_empty, nofun, nofun, nofun, fun key ts _ hall => ?_,
    fun address start ts _ hall => ?_⟩
  · rcases ts with _ | ⟨t, ts⟩
    · exact Nat.zero_le _
    · rcases hall t (List.mem_cons_self ..) with ⟨_, hl, _⟩ | ⟨_, hm, _⟩
      · cases hl
      · cases hm
  · rcases ts with _ | ⟨t, ts⟩
    · exact Nat.zero_le _
    · obtain ⟨_, hl, _⟩ := hall t (List.mem_cons_self ..)
      cases hl

/-! ## § Every day -/

section Day

variable [DecidableEq α]

/-- The links queued to an address in the day from `start` on. -/
def Inboxes.linksIn (s : Inboxes τ α δ) (address : α) (start : ℤ) : List (QueuedLink τ α δ) :=
  s.links.filter fun l => l.address = address ∧ start ≤ l.queuedAt ∧ l.queuedAt < start + oneDay

omit [DecidableEq τ] [DecidableEq δ] in
theorem mem_linksIn {start : ℤ} {l : QueuedLink τ α δ} :
    l ∈ s.linksIn address start ↔
      l ∈ s.links ∧ l.address = address ∧ start ≤ l.queuedAt ∧ l.queuedAt < start + oneDay := by
  rw [Inboxes.linksIn, List.mem_filter, decide_eq_true_eq]

/-- A business's links of one day are of one window of its counter. -/
theorem Inboxes.Capped.own_le (h : s.Capped d) (address : α) (start : ℤ) (tenant : τ) :
    ((s.linksIn address start).map QueuedLink.tenant).count tenant ≤ linksPerAddressADay := by
  by_cases hnone : tenant ∈ (s.linksIn address start).map QueuedLink.tenant
  · obtain ⟨first, hfirst, rfl⟩ := List.mem_map.mp hnone
    obtain ⟨hmem, haddress, hstart, hend⟩ := mem_linksIn.mp hfirst
    obtain ⟨p, hp, hkey, _⟩ := h.counted first hmem
    have hcount : ((s.linksIn address start).map QueuedLink.tenant).count first.tenant =
        s.links.countP fun l => l.tenant = first.tenant ∧ l.address = address ∧
          start ≤ l.queuedAt ∧ l.queuedAt < start + oneDay := by
      rw [List.count, List.countP_map, Inboxes.linksIn, List.countP_filter]
      apply List.countP_congr
      intro l _
      simp
    rw [hcount]
    apply le_trans (countP_le_within _) (h.balanced.limited (first.sentKey d) p.number)
    intro l hl hin
    obtain ⟨htenant, hto, hfrom, huntil⟩ := of_decide_eq_true hin
    have hsame : l.sentKey d = first.sentKey d := by
      rw [QueuedLink.sentKey, QueuedLink.sentKey, htenant, hto, haddress]
    obtain ⟨q, hq, hqkey, hhits⟩ := h.counted l hl
    refine ⟨q, hq, hqkey.trans hsame, ?_, hqkey.trans hsame ▸ hhits⟩
    rcases h.apart l hl first hmem q hq p hp hqkey hkey ((hqkey.trans hsame).trans hkey.symm) with
      hnumber | hold | hold
    · exact hnumber
    · omega
    · omega
  · rw [List.count_eq_zero_of_not_mem hnone]
    exact Nat.zero_le _

/-- **Three businesses and fifteen links a day**, of unexempt businesses that queue each
link within five minutes of its claim, while every claim finds the places held at that
moment and no daily counter begins again within a day of a link it counted. -/
theorem inbox_capped {es : List (LinkStep τ α δ)} (hrun : Inboxes.empty.run d es = some s)
    (hunexempt : ∀ e ∈ es, e.op.unexempt = true)
    (hprompt : Runs.Along (Inboxes.step d) Inboxes.prompt Inboxes.empty es)
    (hseen : Runs.Along (Inboxes.step d) (Inboxes.seen d) Inboxes.empty es)
    (hspaced : Runs.Along (Inboxes.step d) (Inboxes.spaced d) Inboxes.empty es)
    (address : α) (start : ℤ) :
    ((s.linksIn address start).map QueuedLink.tenant).dedup.length ≤ 3 ∧
      (s.linksIn address start).length ≤ 15 := by
  have hok := (((Runs.along_of_forall hunexempt Inboxes.empty).and hprompt).and hseen).and hspaced
  have h : s.Capped d := by
    apply Runs.run_invariant _ capped_empty hok hrun
    rintro s e s' hs ⟨⟨⟨hplain, hprompt⟩, hseen⟩, hspaced⟩ hstep
    exact hs.step hplain hprompt hseen hspaced hstep
  set tenants := (s.linksIn address start).map QueuedLink.tenant with htenants
  have hthree : tenants.dedup.length ≤ 3 := by
    apply h.daily address start _ (List.nodup_dedup _)
    intro t ht
    obtain ⟨l, hl, rfl⟩ := List.mem_map.mp (List.mem_dedup.mp ht)
    obtain ⟨hmem, haddress, hfrom, huntil⟩ := mem_linksIn.mp hl
    exact ⟨l, hmem, haddress, rfl, hfrom, huntil⟩
  refine ⟨hthree, ?_⟩
  calc (s.linksIn address start).length
      = tenants.length := (List.length_map _).symm
    _ = ∑ t ∈ tenants.toFinset, tenants.count t := (List.sum_toFinset_count_eq_length _).symm
    _ ≤ tenants.toFinset.card • linksPerAddressADay :=
        Finset.sum_le_card_nsmul _ _ _ fun t _ => h.own_le address start t
    _ = tenants.dedup.length * linksPerAddressADay := by rw [List.card_toFinset, smul_eq_mul]
    _ ≤ 15 := Nat.mul_le_mul_right _ hthree

end Day

/-- Addresses and businesses by number, told apart. -/
def plainKeys : Digests ℕ ℕ (Option ℕ × ℕ) := ⟨fun a => (none, a), fun t a => (some t, a)⟩

/-- Call `i`: a business opens its request, claims and queues its link at one moment. -/
def linkAt (i tenant : ℕ) (now : ℤ) : List (LinkStep ℕ ℕ (Option ℕ × ℕ)) :=
  [⟨now, now, .open tenant 7 false⟩, ⟨now, now, .check i⟩, ⟨now, now, .claim i []⟩,
    ⟨now, now, .send i⟩]

/-- Three businesses mail an inbox, a fourth is refused, and a day later mails it too. -/
def fourBusinesses : List (LinkStep ℕ ℕ (Option ℕ × ℕ)) :=
  linkAt 0 1 0 ++ linkAt 1 2 second ++ linkAt 2 3 (2 * second) ++
    [⟨minute, minute, .open 4 7 false⟩, ⟨minute, minute, .check 3⟩,
      ⟨minute, minute, .claim 3 []⟩] ++
    linkAt 4 4 (oneDay + minute)

theorem inbox_capped_four :
    ∃ s, Inboxes.empty.run plainKeys fourBusinesses = some s ∧ s.links.length = 4 ∧
      ∀ address start, ((s.linksIn address start).map QueuedLink.tenant).dedup.length ≤ 3 ∧
        (s.linksIn address start).length ≤ 15 := by
  obtain ⟨s, hrun⟩ := Option.isSome_iff_exists.mp
    (by decide +kernel : (Inboxes.empty.run plainKeys fourBusinesses).isSome)
  have hfour : ∀ s' ∈ Inboxes.empty.run plainKeys fourBusinesses, s'.links.length = 4 := by
    decide +kernel
  exact ⟨s, hrun, hfour s hrun, inbox_capped hrun (by decide +kernel) (by decide +kernel)
    (by decide +kernel) (by decide +kernel)⟩

/-- Three links queued ten seconds after their requests opened, whose places lapse a day
after the opening: a fourth business mails the inbox within a day of them. -/
example : ∃ s ∈ Inboxes.empty.run plainKeys
    ([⟨0, 0, .open 1 7 false⟩, ⟨0, 0, .check 0⟩, ⟨0, 0, .claim 0 []⟩, ⟨0, 0, .open 2 7 false⟩,
      ⟨0, 0, .check 1⟩, ⟨0, 0, .claim 1 []⟩, ⟨0, 0, .open 3 7 false⟩, ⟨0, 0, .check 2⟩,
      ⟨0, 0, .claim 2 []⟩, ⟨10 * second, 0, .send 0⟩, ⟨10 * second, 0, .send 1⟩,
      ⟨10 * second, 0, .send 2⟩] ++ linkAt 3 4 (oneDay + second)),
    ((s.linksIn 7 (10 * second)).map QueuedLink.tenant).dedup.length = 4 := by
  decide +kernel

/-- Two businesses in turn: a link each at `0`, two at 22:30, two at 23:30, one at 24:00
and three at 24:30. -/
def aroundMidnight : List (LinkStep ℕ ℕ (Option ℕ × ℕ)) :=
  [0, 45, 45, 47, 47, 48, 49, 49, 49].zipIdx.flatMap fun q =>
    linkAt (2 * q.2) 1 (q.1 * (30 * minute)) ++ linkAt (2 * q.2 + 1) 2 (q.1 * (30 * minute))

/-- A daily counter that ends and begins again within a day counts past five: sixteen
links from 22:30 on. -/
theorem sixteen_links :
    ∃ s, Inboxes.empty.run plainKeys aroundMidnight = some s ∧
      (∀ e ∈ aroundMidnight, e.op.unexempt = true) ∧
      Runs.Along (Inboxes.step plainKeys) Inboxes.prompt Inboxes.empty aroundMidnight ∧
      (s.linksIn 7 (45 * (30 * minute))).length = 16 := by
  obtain ⟨s, hrun⟩ := Option.isSome_iff_exists.mp
    (by decide +kernel : (Inboxes.empty.run plainKeys aroundMidnight).isSome)
  have hsixteen : ∀ s' ∈ Inboxes.empty.run plainKeys aroundMidnight,
      (s'.linksIn 7 (45 * (30 * minute))).length = 16 := by
    decide +kernel
  exact ⟨s, hrun, by decide +kernel, by decide +kernel, hsixteen s hrun⟩

end Ziftbook
