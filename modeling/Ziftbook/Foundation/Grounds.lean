import Mathlib.Data.List.Basic

/-!
# Logs whose entries have their grounds

An append-only log where each entry was written on the strength of those before it: what was
said of it then is said of it for good, also once other entries are struck. The latest of
some entries, and what was written after it.
-/

namespace Foundation

variable {ε : Type*} {P Q : List ε → ε → Prop} {log new : List ε}

/-- Each entry, with those before it. -/
def Grounded (P : List ε → ε → Prop) (log : List ε) : Prop :=
  ∀ earlier e later, log = earlier ++ e :: later → P earlier e

theorem grounded_nil : Grounded P [] := fun earlier e later h => by
  cases earlier <;> cases h

theorem Grounded.mono (h : Grounded P log)
    (himp : ∀ earlier, ∀ e ∈ log, P earlier e → Q earlier e) : Grounded Q log := by
  rintro earlier e later rfl
  exact himp earlier e (List.mem_append_right _ (List.mem_cons_self ..)) (h earlier e later rfl)

/-- **More entries.** Each of the new ones stands on the log and on those before it. -/
theorem Grounded.append (h : Grounded P log)
    (hnew : Grounded (fun earlier e => P (log ++ earlier) e) new) : Grounded P (log ++ new) := by
  intro earlier e later heq
  rcases List.append_eq_append_iff.mp heq with ⟨part, rfl, hpart⟩ | ⟨part, rfl, hpart⟩
  · exact hnew part e later hpart
  · cases part with
    | nil => simpa using hnew [] e later hpart.symm
    | cons first part =>
        cases hpart
        exact h earlier e part rfl

/-- **Entries struck**, where what is said of one does not need those that are gone. -/
theorem Grounded.filter (h : Grounded P log) {keep : ε → Bool}
    (himp : ∀ earlier e, P earlier e → P (earlier.filter keep) e) :
    Grounded P (log.filter keep) := by
  intro earlier e later heq
  obtain ⟨before, rest, rfl, rfl, hrest⟩ := List.filter_eq_append_iff.mp heq
  obtain ⟨skipped, after, rfl, hskipped, -, -⟩ := List.filter_eq_cons_iff.mp hrest
  have hgone : skipped.filter keep = [] := List.filter_eq_nil_iff.mpr hskipped
  have := himp _ e (h (before ++ skipped) e after (by rw [List.append_assoc]))
  rwa [List.filter_append, hgone, List.append_nil] at this

/-- The latest of the entries picked, with nothing picked after it. -/
theorem exists_latest {pick : ε → Bool} {e : ε} (h : (log.filter pick).getLast? = some e) :
    ∃ earlier later, log = earlier ++ e :: later ∧ pick e = true ∧
      ∀ x ∈ later, pick x = false := by
  obtain ⟨before, hbefore⟩ := List.getLast?_eq_some_iff.mp h
  obtain ⟨earlier, rest, rfl, -, hrest⟩ := List.filter_eq_append_iff.mp hbefore
  obtain ⟨skipped, later, rfl, -, hpick, hlater⟩ := List.filter_eq_cons_iff.mp hrest
  refine ⟨earlier ++ skipped, later, by rw [List.append_assoc], hpick, fun x hx => ?_⟩
  exact Bool.eq_false_iff.mpr (List.filter_eq_nil_iff.mp hlater x hx)

end Foundation
