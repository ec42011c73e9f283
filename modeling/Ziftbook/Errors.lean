import Mathlib.Tactic

/-!
# Refusals

A handler either commits a new database or raises `ApiError`, which rolls
everything back. Its checks are a chain of `require` and `found`.
-/

namespace Ziftbook

/-- The error codes the modelled handlers answer with. -/
inductive Code
  | notFound | unauthenticated | ownerOnly | ownMembership | rateLimited | invalidRange
  | currencyChanged | unknownPolicyVersion | purposeNotInPolicyVersion | phoneInvalid
  | messageInvalid | paymentRequired | paymentNotOffered | paymentSettled
  | slotUnavailable | slotTaken | memberRequired | unknownClient | invalidTransition
  | changed | unchanged | notAllowed | linkExpired | linkChanged | termsChanged
  | endNotAfterStart | timeOffTooLong | lastDayBeforeFirstDay | invalidRequest
  | overlapsBookings | hasUpcomingBookings | lastOwner | nothingToConfirm | internal
  | busy | invalidToken | noContactEmailRequest | contactEmailRequestsToday
  | overlappingHours | outsideOpeningHours (weekday : ℤ) | openingHoursRequired
deriving DecidableEq, Repr

structure ApiError where
  status : ℕ
  code : Code
deriving DecidableEq, Repr

/-- Raise unless the condition holds. -/
def require (c : Prop) [Decidable c] (e : ApiError) : Except ApiError Unit :=
  if c then .ok () else .error e

/-- The row found, or raise. -/
def found {α : Type} (o : Option α) (e : ApiError) : Except ApiError α :=
  match o with
  | some a => .ok a
  | none => .error e

/-- The error a handler answered with. -/
def refusal {α : Type} : Except ApiError α → Option ApiError
  | .ok _ => none
  | .error e => some e

theorem refusal_eq_some {α : Type} {r : Except ApiError α} {e : ApiError} :
    refusal r = some e ↔ r = .error e := by
  cases r <;> simp [refusal]

section Bind

variable {α β : Type} {c : Prop} [Decidable c] {e e' : ApiError} {r : β}

theorem require_bind_eq_ok {f : Unit → Except ApiError β} :
    (require c e >>= f) = .ok r ↔ c ∧ f () = .ok r := by
  by_cases h : c
  · simp [require, h, bind, Except.bind]
  · simp [require, h, bind, Except.bind]

theorem require_bind_eq_error {f : Unit → Except ApiError β} :
    (require c e >>= f) = .error e' ↔ (¬ c ∧ e = e') ∨ (c ∧ f () = .error e') := by
  by_cases h : c
  · simp [require, h, bind, Except.bind]
  · simp [require, h, bind, Except.bind]

theorem found_bind_eq_ok {o : Option α} {f : α → Except ApiError β} :
    (found o e >>= f) = .ok r ↔ ∃ a, o = some a ∧ f a = .ok r := by
  cases o <;> simp [found, bind, Except.bind]

theorem found_bind_eq_error {o : Option α} {f : α → Except ApiError β} :
    (found o e >>= f) = .error e' ↔
      (o = none ∧ e = e') ∨ ∃ a, o = some a ∧ f a = .error e' := by
  cases o <;> simp [found, bind, Except.bind]

theorem bind_eq_ok {m : Except ApiError α} {f : α → Except ApiError β} :
    (m >>= f) = .ok r ↔ ∃ a, m = .ok a ∧ f a = .ok r := by
  cases m <;> simp [bind, Except.bind]

theorem bind_eq_error {m : Except ApiError α} {f : α → Except ApiError β} :
    (m >>= f) = .error e' ↔ m = .error e' ∨ ∃ a, m = .ok a ∧ f a = .error e' := by
  cases m <;> simp [bind, Except.bind]

theorem map_eq_ok {m : Except ApiError α} {f : α → β} :
    (f <$> m) = .ok r ↔ ∃ a, m = .ok a ∧ f a = r := by
  cases m <;> simp [Functor.map, Except.map]

theorem found_eq_ok {o : Option α} {a : α} : found o e = .ok a ↔ o = some a := by
  cases o <;> simp [found]

theorem toOption_eq_some {m : Except ApiError α} {a : α} : m.toOption = some a ↔ m = .ok a := by
  cases m <;> simp [Except.toOption]

end Bind

end Ziftbook
