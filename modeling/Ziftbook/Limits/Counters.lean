import Ziftbook.Foundation.FixedWindow
import Ziftbook.Jobs.Queue

/-!
# Rate limits

`app/limits.py` on its table: `HIT`, `refund`, `count` and the purge. The numbers of
a key's windows are the history's; no column holds them.
-/

namespace Ziftbook

open Foundation

/-- `rate_limits`. -/
abbrev RateLimits (κ : Type) := Windows κ

/-- `limits.email_key`'s hash of an address, and of a business's id with an address.
Two may share one. -/
structure Digests (τ α δ : Type) where
  ofAddress : α → δ
  ofBusiness : τ → α → δ

/-- `MAX_WINDOW`. -/
def maxWindow : ℤ := oneDay

/-- `MARGIN`. -/
def limitsMargin : ℤ := 60 * minute

variable {κ : Type} [DecidableEq κ]

/-- `PURGE`, and the worker's sweep: some of the rows past their day and an hour. -/
def RateLimits.purge (t : RateLimits κ) (now : ℤ) (keys : List κ) : RateLimits κ :=
  t.delete fun k c => k ∈ keys ∧ c.windowStart < now - (maxWindow + limitsMargin)

/-- `hit`'s answer: a key it counted is now over its limit. -/
def RateLimits.over (t : RateLimits κ) (limit : κ → ℕ) (keys : List κ) : Prop :=
  ∃ k ∈ keys, limit k < (t.last k).hits

instance (t : RateLimits κ) (limit : κ → ℕ) (keys : List κ) : Decidable (t.over limit keys) :=
  inferInstanceAs (Decidable (∃ k ∈ keys, _))

end Ziftbook
