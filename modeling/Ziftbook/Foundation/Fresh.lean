import Mathlib.Data.List.Nodup

/-!
# Keys used once

A state rules keys out: a key that is spent stays spent. A step that only uses keys
not spent before it, and spends each, never uses one twice.
-/

namespace Foundation

variable {S K : Type*}

/-- A step from `s` to `s'` that uses `ks`. -/
structure Spends (spent : S → K → Prop) (s s' : S) (ks : List K) : Prop where
  keeps : ∀ k, spent s k → spent s' k
  nodup : ks.Nodup
  fresh : ∀ k ∈ ks, ¬ spent s k
  spent : ∀ k ∈ ks, spent s' k

/-- The keys used so far, none twice and all of them spent. -/
structure Used (spent : S → K → Prop) (s : S) (used : List K) : Prop where
  nodup : used.Nodup
  spent : ∀ k ∈ used, spent s k

theorem Used.nil (spent : S → K → Prop) (s : S) : Used spent s [] :=
  ⟨List.nodup_nil, fun _ hk => absurd hk List.not_mem_nil⟩

/-- **One step.** -/
theorem Used.step {spent : S → K → Prop} {s s' : S} {used ks : List K} (h : Used spent s used)
    (hstep : Spends spent s s' ks) : Used spent s' (used ++ ks) := by
  refine ⟨List.nodup_append.mpr ⟨h.nodup, hstep.nodup, ?_⟩, fun k hk => ?_⟩
  · rintro k hk _ hk' rfl
    exact hstep.fresh k hk' (h.spent k hk)
  · rcases List.mem_append.mp hk with hk | hk
    · exact hstep.keeps k (h.spent k hk)
    · exact hstep.spent k hk

/-- What a step uses has not been used before. -/
theorem Used.not_mem {spent : S → K → Prop} {s s' : S} {used ks : List K}
    (h : Used spent s used) (hstep : Spends spent s s' ks) : ∀ k ∈ ks, k ∉ used :=
  fun k hk hused => hstep.fresh k hk (h.spent k hused)

end Foundation
