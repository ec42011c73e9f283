import Ziftbook.Mail.Letters

/-!
# Dedupe keys as texts

The queue compares texts. What follows a template in a key depends on the template, so
two keys with their parts in place have one text only when they are one key.
-/

namespace Ziftbook

open Foundation

/-! ## § What a template takes -/

/-- The suffixes that the call sites build for a template. -/
def MailTemplate.takes (t : MailTemplate) : KeySuffix → Prop
  | .none => t ≠ .bookingReminder ∧ t ≠ .bookingRefundFailed
  | .count _ => t = .bookingConfirmed ∨ t = .bookingClientRescheduled
  | .moves _ => t = .bookingReceived ∨ t = .bookingClientRescheduled
  | .clock _ => t = .bookingConfirmed ∨ t = .bookingNew ∨ t = .bookingMovedTeam
  | .event _ => t = .bookingRefundFailed
  | .start _ => t = .bookingReminder

instance (t : MailTemplate) (s : KeySuffix) : Decidable (t.takes s) := by
  unfold MailTemplate.takes
  split <;> infer_instance

structure MailKey.Proper (k : MailKey) : Prop where
  takes : k.template.takes k.suffix
  reminder : k.template = .bookingReminder → k.userId = none

/-! ## § Names -/

def templates : List MailTemplate :=
  [.bookingReceived, .bookingRequest, .bookingConfirmed, .bookingNew, .bookingReminder,
    .bookingDeclined, .bookingCancelled, .bookingCancelledByClient, .bookingClientCancelled,
    .bookingExpired, .bookingClientRescheduled, .bookingMovedTeam, .bookingRefundFailed]

/-- The first template of that name is the one that has it. -/
theorem find_name (t : MailTemplate) : templates.find? (fun t' => t'.name = t.name) = some t := by
  cases t <;> decide +kernel

theorem name_injective : Function.Injective MailTemplate.name := by
  intro t t' h
  have ht := find_name t
  rw [h, find_name t'] at ht
  exact (Option.some.inj ht).symm

theorem colon_not_mem_name (t : MailTemplate) : ':' ∉ t.name := by
  cases t <;> decide +kernel

/-! ## § What follows the template -/

theorem colon_not_mem_decimal (n : ℕ) : ':' ∉ decimal n := not_mem_decimal (by decide) n

theorem opens_userText (userId : Option ℕ) : Opens ':' (userText userId) := by
  cases userId with
  | none => exact opens_nil ':'
  | some userId => exact opens_cons ':' _

theorem opens_suffix (s : KeySuffix) (userId : Option ℕ) :
    Opens ':' (s.text ++ userText userId) := by
  cases s with
  | none => exact opens_userText userId
  | _ => exact opens_cons ':' _

theorem userText_injective : Function.Injective userText := by
  intro u u' h
  cases u with
  | none =>
      cases u' with
      | none => rfl
      | some userId => cases h
  | some userId =>
      cases u' with
      | none => cases h
      | some userId' => rw [decimal_injective (List.cons.inj h).2]

/-- A user's text begins with a digit. -/
theorem userText_ne {c : Char} (hc : c.isDigit = false) (userId : Option ℕ) (cs : List Char) :
    userText userId ≠ ':' :: c :: cs := by
  intro h
  cases userId with
  | none => cases h
  | some userId =>
      obtain ⟨d, rest, hdecimal, hdigit⟩ := decimal_eq_cons userId
      rw [userText, hdecimal] at h
      rw [(List.cons.inj (List.cons.inj h).2).1, hc] at hdigit
      cases hdigit

/-- A part between two colons, and the user after it. -/
theorem part_inj {a b : List Char} {u u' : Option ℕ} (ha : ':' ∉ a) (hb : ':' ∉ b)
    (h : a ++ userText u = b ++ userText u') : a = b ∧ u = u' := by
  obtain ⟨hab, huser⟩ := append_inj_of_opens ha hb (opens_userText u) (opens_userText u') h
  exact ⟨hab, userText_injective huser⟩

/-- **A suffix and a user are read back**, once the template is known. -/
theorem suffix_inj {t : MailTemplate} {s s' : KeySuffix} {u u' : Option ℕ} (hs : t.takes s)
    (hs' : t.takes s') (hu : t = .bookingReminder → u = none)
    (hu' : t = .bookingReminder → u' = none)
    (h : s.text ++ userText u = s'.text ++ userText u') : s = s' ∧ u = u' := by
  -- An `r` or an `m` after the colon is no user's digit.
  have hletter : ∀ {c : Char} (v : Option ℕ) (cs : List Char), c = 'r' ∨ c = 'm' →
      userText v ≠ ':' :: c :: cs := by
    rintro c v cs (rfl | rfl)
    · exact userText_ne (by decide) v cs
    · exact userText_ne (by decide) v cs
  cases s with
  | none =>
      cases s' with
      | none => exact ⟨rfl, userText_injective h⟩
      | count n => exact absurd h (hletter _ _ (Or.inl rfl))
      | moves n => exact absurd h (hletter _ _ (Or.inr rfl))
      | clock now => exact absurd h (hletter _ _ (Or.inr rfl))
      | event id => exact absurd hs' hs.2
      | start startsAt => exact absurd hs' hs.1
  | count n =>
      cases s' with
      | none => exact absurd h.symm (hletter _ _ (Or.inl rfl))
      | count n' =>
          obtain ⟨hn, huser⟩ := part_inj (colon_not_mem_decimal n) (colon_not_mem_decimal n')
            (List.cons.inj (List.cons.inj h).2).2
          rw [decimal_injective hn]
          exact ⟨rfl, huser⟩
      | moves n' => exact absurd (List.cons.inj (List.cons.inj h).2).1 (by decide)
      | clock now => exact absurd (List.cons.inj (List.cons.inj h).2).1 (by decide)
      | event id => rcases hs with rfl | rfl <;> cases hs'
      | start startsAt => rcases hs with rfl | rfl <;> cases hs'
  | moves n =>
      cases s' with
      | none => exact absurd h.symm (hletter _ _ (Or.inr rfl))
      | count n' => exact absurd (List.cons.inj (List.cons.inj h).2).1 (by decide)
      | moves n' =>
          obtain ⟨hn, huser⟩ := part_inj (colon_not_mem_decimal n) (colon_not_mem_decimal n')
            (List.cons.inj (List.cons.inj h).2).2
          rw [decimal_injective hn]
          exact ⟨rfl, huser⟩
      | clock now => rcases hs with rfl | rfl <;> rcases hs' with h' | h' | h' <;> cases h'
      | event id => rcases hs with rfl | rfl <;> cases hs'
      | start startsAt => rcases hs with rfl | rfl <;> cases hs'
  | clock now =>
      cases s' with
      | none => exact absurd h.symm (hletter _ _ (Or.inr rfl))
      | count n' => exact absurd (List.cons.inj (List.cons.inj h).2).1 (by decide)
      | moves n' => rcases hs' with rfl | rfl <;> rcases hs with h' | h' | h' <;> cases h'
      | clock now' =>
          obtain ⟨hnow, huser⟩ := part_inj (colon_not_mem_timestamp now)
            (colon_not_mem_timestamp now') (List.cons.inj (List.cons.inj h).2).2
          rw [timestamp_injective hnow]
          exact ⟨rfl, huser⟩
      | event id => rcases hs with rfl | rfl | rfl <;> cases hs'
      | start startsAt => rcases hs with rfl | rfl | rfl <;> cases hs'
  | event id =>
      cases s' with
      | none => exact absurd hs hs'.2
      | count n' => rcases hs' with rfl | rfl <;> cases hs
      | moves n' => rcases hs' with rfl | rfl <;> cases hs
      | clock now => rcases hs' with rfl | rfl | rfl <;> cases hs
      | event id' =>
          obtain ⟨hid, huser⟩ := part_inj (colon_not_mem_decimal id) (colon_not_mem_decimal id')
            (List.cons.inj h).2
          rw [decimal_injective hid]
          exact ⟨rfl, huser⟩
      | start startsAt =>
          rw [show t = .bookingRefundFailed from hs] at hs'
          cases hs'
  | start startsAt =>
      cases s' with
      | none => exact absurd hs hs'.1
      | count n' => rcases hs' with rfl | rfl <;> cases hs
      | moves n' => rcases hs' with rfl | rfl <;> cases hs
      | clock now => rcases hs' with rfl | rfl | rfl <;> cases hs
      | event id =>
          rw [show t = .bookingReminder from hs] at hs'
          cases hs'
      | start startsAt' =>
          -- A start's text has colons, and no user follows it.
          rw [hu hs, hu' hs] at h ⊢
          have hstart := List.append_cancel_right h
          rw [isoformat_injective (List.cons.inj hstart).2]
          exact ⟨rfl, rfl⟩

/-! ## § The whole key -/

/-- **Keys with one text are one key.** -/
theorem text_inj {tenant : ℕ} {k k' : MailKey} (hk : k.Proper) (hk' : k'.Proper)
    (h : k.text tenant = k'.text tenant) : k = k' := by
  obtain ⟨bookingId, t, s, u⟩ := k
  obtain ⟨bookingId', t', s', u'⟩ := k'
  have hbooking := (List.cons.inj (List.append_cancel_left (List.append_cancel_left h))).2
  obtain ⟨hid, hrest⟩ := append_inj_of_opens (colon_not_mem_decimal _) (colon_not_mem_decimal _)
    (opens_cons ':' _) (opens_cons ':' _) hbooking
  obtain ⟨hname, hafter⟩ := append_inj_of_opens (colon_not_mem_name t) (colon_not_mem_name t')
    (opens_suffix s u) (opens_suffix s' u') (List.cons.inj hrest).2
  have hid := decimal_injective hid
  have hname := name_injective hname
  subst hid
  subst hname
  obtain ⟨rfl, rfl⟩ := suffix_inj hk.takes hk'.takes hk.reminder hk'.reminder hafter
  rfl

theorem dedupeKey_inj {tenant : ℕ} {k k' : MailKey} (hk : k.Proper) (hk' : k'.Proper)
    (h : k.dedupeKey tenant = k'.dedupeKey tenant) : k = k' :=
  text_inj hk hk' (String.ofList_injective h)

end Ziftbook
