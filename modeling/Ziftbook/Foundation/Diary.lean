import Ziftbook.Foundation.Runs

/-!
# A diary of reservations

Each entry reserves a resource from `start` and leaves it clear at `clear`. A
diary lets entries go at any time, and takes a new one only where it keeps clear
of all others of its resource, its own earlier time excepted. Then no entry ever
starts on a resource before an earlier one has left it clear.
-/

namespace Foundation.Diary

variable {κ ρ τ : Type*} [LinearOrder τ]

structure Entry (κ ρ τ : Type*) where
  key : κ
  resource : ρ
  start : τ
  clear : τ

/-- One of the two leaves the resource clear before the other starts. -/
def Entry.Apart (a b : Entry κ ρ τ) : Prop := a.clear ≤ b.start ∨ b.clear ≤ a.start

theorem Entry.Apart.symm {a b : Entry κ ρ τ} (h : a.Apart b) : b.Apart a := Or.symm h

/-- Entries of one resource, other than moves of one entry, are apart. -/
def Spaced (d : Set (Entry κ ρ τ)) : Prop :=
  ∀ a ∈ d, ∀ b ∈ d, a.key ≠ b.key → a.resource = b.resource → a.Apart b

theorem Spaced.subset {d d' : Set (Entry κ ρ τ)} (h : Spaced d) (hsub : d' ⊆ d) : Spaced d' :=
  fun a ha b hb => h a (hsub ha) b (hsub hb)

/-- Of two apart entries, the later starts once the earlier is clear. -/
theorem Spaced.clear_le {d : Set (Entry κ ρ τ)} (h : Spaced d) {a b : Entry κ ρ τ}
    (ha : a ∈ d) (hb : b ∈ d) (hkey : a.key ≠ b.key) (hresource : a.resource = b.resource)
    (hstart : a.start ≤ b.start) (hb' : b.start < b.clear) : a.clear ≤ b.start := by
  rcases h a ha b hb hkey hresource with hle | hle
  · exact hle
  · exact absurd (hb'.trans_le (hle.trans hstart)) (lt_irrefl _)

/-- The entry can be taken: it is apart from every other entry of its resource. -/
def Fits (d : Set (Entry κ ρ τ)) (e : Entry κ ρ τ) : Prop :=
  ∀ a ∈ d, a.key ≠ e.key → a.resource = e.resource → a.Apart e

/-- The entry in place of the one of its key. -/
def write (d : Set (Entry κ ρ τ)) (e : Entry κ ρ τ) : Set (Entry κ ρ τ) :=
  insert e {a | a ∈ d ∧ a.key ≠ e.key}

theorem Spaced.write {d : Set (Entry κ ρ τ)} (h : Spaced d) {e : Entry κ ρ τ}
    (he : Fits d e) : Spaced (write d e) := by
  rintro a (rfl | ⟨ha, hae⟩) b (rfl | ⟨hb, hbe⟩) hkey hresource
  · exact absurd rfl hkey
  · exact (he b hb hbe hresource.symm).symm
  · exact he a ha hae hresource
  · exact h a ha b hb hkey hresource

/-! ## § The diary as a system -/

inductive Action (κ ρ τ : Type*)
  | keep (kept : Set (Entry κ ρ τ))
  | reserve (entry : Entry κ ρ τ)

open Classical in
/-- Entries may go; a new one must fit. -/
noncomputable def step (d : Set (Entry κ ρ τ)) :
    Action κ ρ τ → Option (Set (Entry κ ρ τ))
  | .keep kept => if kept ⊆ d then some kept else none
  | .reserve e => if Fits d e then some (write d e) else none

theorem step_keep {d kept : Set (Entry κ ρ τ)} (h : kept ⊆ d) :
    step d (.keep kept) = some kept := if_pos h

theorem step_reserve {d : Set (Entry κ ρ τ)} {e : Entry κ ρ τ} (h : Fits d e) :
    step d (.reserve e) = some (write d e) := if_pos h

theorem spaced_step {d d' : Set (Entry κ ρ τ)} {a : Action κ ρ τ} (h : Spaced d)
    (hstep : step d a = some d') : Spaced d' := by
  cases a with
  | keep kept =>
      obtain ⟨hsub, heq⟩ := Option.ite_none_right_eq_some.mp hstep
      cases heq
      exact h.subset hsub
  | reserve e =>
      obtain ⟨hfits, heq⟩ := Option.ite_none_right_eq_some.mp hstep
      cases heq
      exact h.write hfits

/-- **Every run keeps the diary spaced.** -/
theorem spaced_run {d d' : Set (Entry κ ρ τ)} {as : List (Action κ ρ τ)} (h : Spaced d)
    (hrun : Runs.run step d as = some d') : Spaced d' :=
  Runs.run_invariant' (fun _ _ _ hd hstep => spaced_step hd hstep) h hrun

/-- Letting go, taking one entry that fits, and letting go again is a run. -/
theorem run_rewrite {d kept d' : Set (Entry κ ρ τ)} {e : Entry κ ρ τ} (hkept : kept ⊆ d)
    (hfits : Fits kept e) (hsub : d' ⊆ write kept e) :
    Runs.run step d [.keep kept, .reserve e, .keep d'] = some d' := by
  simp [Runs.run, step_keep hkept, step_reserve hfits, step_keep hsub]

end Foundation.Diary
