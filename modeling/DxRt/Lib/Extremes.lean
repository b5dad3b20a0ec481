import Mathlib

/-! The least and the greatest value of a function on a list, as a left fold from a first value: what
    bounds them and what they bound. -/

namespace List
variable {α β : Type*} [LinearOrder β] {f : α → β} {l : List α} {a c : β}

theorem le_foldl_min_iff :
    c ≤ l.foldl (fun m x => min m (f x)) a ↔ c ≤ a ∧ ∀ x ∈ l, c ≤ f x := by
  induction l generalizing a with
  | nil => simp
  | cons x rest ih =>
    rw [foldl_cons, ih, le_min_iff, forall_mem_cons, and_assoc]

theorem foldl_min_le_iff :
    l.foldl (fun m x => min m (f x)) a ≤ c ↔ a ≤ c ∨ ∃ x ∈ l, f x ≤ c := by
  induction l generalizing a with
  | nil => simp
  | cons x rest ih =>
    rw [foldl_cons, ih, min_le_iff, exists_mem_cons_iff, or_assoc]

theorem foldl_max_le_iff :
    l.foldl (fun m x => max m (f x)) a ≤ c ↔ a ≤ c ∧ ∀ x ∈ l, f x ≤ c :=
  @le_foldl_min_iff α βᵒᵈ _ _ _ _ _

theorem le_foldl_max_iff :
    c ≤ l.foldl (fun m x => max m (f x)) a ↔ c ≤ a ∨ ∃ x ∈ l, c ≤ f x :=
  @foldl_min_le_iff α βᵒᵈ _ _ _ _ _

end List
