import Mathlib.Data.List.Chain
import Mathlib.Data.List.Sort
import Mathlib.Tactic

/-!
# A test on neighbours

`any` over the pairs of neighbours of a sorted list. Where the relation
tested is carried across the order, no two neighbours fail it exactly when no
two elements do.
-/

namespace Foundation.Neighbours

variable {α : Type*}

/-- `any(p(a, b) for a, b in pairwise(xs))`. -/
def anyNeighbours (p : α → α → Bool) : List α → Bool
  | a :: b :: rest => p a b || anyNeighbours p (b :: rest)
  | _ => false

theorem anyNeighbours_eq_false {p : α → α → Bool} : ∀ {xs : List α},
    anyNeighbours p xs = false ↔ xs.IsChain fun a b => p a b = false
  | [] => by simp [anyNeighbours]
  | [_] => by simp [anyNeighbours]
  | a :: b :: rest => by
      rw [List.isChain_cons_cons, ← @anyNeighbours_eq_false p (b :: rest)]
      exact Bool.or_eq_false_iff

/-- A relation of neighbours holds throughout, where the order `S` carries it on. -/
theorem pairwise_of_isChain {Q R S : α → α → Prop} (hstep : ∀ a b, S a b → Q a b → R a b)
    (hcarry : ∀ a b c, S a b → S b c → R a b → R b c → R a c) {xs : List α}
    (hsorted : xs.Pairwise S) (hchain : xs.IsChain Q) : xs.Pairwise R := by
  induction xs with
  | nil => exact List.Pairwise.nil
  | cons a xs ih =>
      obtain ⟨ha, hsorted⟩ := List.pairwise_cons.mp hsorted
      have hrest := ih hsorted hchain.tail
      refine List.pairwise_cons.mpr ⟨?_, hrest⟩
      intro c hc
      cases xs with
      | nil => cases hc
      | cons b xs =>
          have hS : S a b := ha b (List.mem_cons_self ..)
          have hab : R a b := hstep a b hS (List.isChain_cons_cons.mp hchain).1
          rcases List.mem_cons.mp hc with rfl | hc
          · exact hab
          · have hbc : S b c := (List.pairwise_cons.mp hsorted).1 c hc
            exact hcarry a b c hS hbc hab
              ((List.pairwise_cons.mp hrest).1 c hc)

/-- **No two neighbours of a sorted list fail the test exactly when no two
elements of the list do**, in whatever order the list came. -/
theorem anyNeighbours_sorted {le : α → α → Prop} [DecidableRel le] [Std.Total le] [IsTrans α le]
    {p : α → α → Bool} {D : α → α → Prop} {xs : List α}
    (hsymm : ∀ a b, D a b → D b a)
    (htest : ∀ a ∈ xs, ∀ b ∈ xs, le a b → (p a b = false ↔ D a b))
    (hcarry : ∀ a ∈ xs, ∀ b ∈ xs, ∀ c ∈ xs, le a b → le b c → D a b → D b c → D a c) :
    anyNeighbours p (xs.insertionSort le) = false ↔ xs.Pairwise D := by
  have hmem : ∀ {a}, a ∈ xs.insertionSort le → a ∈ xs := (List.mem_insertionSort le).mp
  have hsorted := List.pairwise_insertionSort le xs
  rw [anyNeighbours_eq_false, ← (List.perm_insertionSort le xs).pairwise_iff (hsymm _ _)]
  have hsortedIn : (xs.insertionSort le).Pairwise fun a b => a ∈ xs ∧ b ∈ xs ∧ le a b :=
    hsorted.imp_of_mem fun ha hb hle => ⟨hmem ha, hmem hb, hle⟩
  constructor
  · intro hchain
    refine pairwise_of_isChain ?_ ?_ hsortedIn hchain
    · rintro a b ⟨ha, hb, hle⟩ hp
      exact (htest a ha b hb hle).mp hp
    · rintro a b c ⟨ha, hb, hab⟩ ⟨_, hc, hbc⟩ hDab hDbc
      exact hcarry a ha b hb c hc hab hbc hDab hDbc
  · intro hpairwise
    refine ((hsortedIn.and hpairwise).imp ?_).isChain
    rintro a b ⟨⟨ha, hb, hle⟩, hD⟩
    exact (htest a ha b hb hle).mpr hD

end Foundation.Neighbours
