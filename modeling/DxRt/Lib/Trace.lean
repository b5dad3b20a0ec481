import Mathlib

/-! Logs of events in which every event is permitted by the events before it. -/

namespace Trace
variable {ε : Type*} {permit : List ε → ε → Prop}

/-- Every event of the log, latest first, was permitted when it was recorded. -/
def Permitted (permit : List ε → ε → Prop) : List ε → Prop
  | [] => True
  | e :: log => permit log e ∧ Permitted permit log

theorem Permitted.of_split {after before : List ε} {e : ε}
    (h : Permitted permit (after ++ e :: before)) : permit before e := by
  induction after with
  | nil => exact h.1
  | cons a after ih => exact ih h.2

/-- An event of the log was permitted by a part of the log. -/
theorem Permitted.of_mem {log : List ε} {e : ε} (h : Permitted permit log) (he : e ∈ log) :
    ∃ before, before ⊆ log ∧ permit before e := by
  obtain ⟨after, before, rfl⟩ := List.append_of_mem he
  exact ⟨before, fun a ha => by simp [ha], h.of_split⟩

/-- An event that is only permitted when it is new occurs at most once. -/
theorem Permitted.count_le_one [DecidableEq ε] {e : ε} (hnew : ∀ log, permit log e → e ∉ log)
    {log : List ε} (h : Permitted permit log) : log.count e ≤ 1 := by
  induction log with
  | nil => simp
  | cons a log ih =>
    by_cases ha : a = e
    · subst ha
      rw [List.count_cons_self, List.count_eq_zero_of_not_mem (hnew log h.1)]
    · rw [List.count_cons_of_ne ha]
      exact ih h.2

end Trace
