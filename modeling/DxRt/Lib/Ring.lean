import Mathlib

/-! Ring buffers: an array whose slots are written in turn, round and round.

    What the array holds is described by the log of the writes, latest first. -/

namespace Ring
variable {α : Type*} {n next i j k : ℕ} {slots : ℕ → α} {log : List α}

/-- The slot of the `j`-th latest write, when `next` is the slot to be written next. -/
def slot (n next j : ℕ) : ℕ := (next + n - 1 - j) % n

theorem slot_lt (hnext : next < n) (j : ℕ) : slot n next j < n :=
  Nat.mod_lt _ (Nat.zero_lt_of_lt hnext)

theorem succ_mod_lt (hnext : next < n) : (next + 1) % n < n :=
  Nat.mod_lt _ (Nat.zero_lt_of_lt hnext)

/-- A slot, without the remainder. -/
theorem slot_eq (hnext : next < n) (hj : j < n) :
    slot n next j = if j < next then next - 1 - j else next + n - 1 - j := by
  rw [slot]
  split_ifs with hlt
  · rw [show next + n - 1 - j = next - 1 - j + n by omega, Nat.add_mod_right,
      Nat.mod_eq_of_lt (by omega)]
  · exact Nat.mod_eq_of_lt (by omega)

theorem succ_mod_eq (hnext : next < n) : (next + 1) % n = if next + 1 = n then 0 else next + 1 := by
  split_ifs with h
  · rw [h, Nat.mod_self]
  · exact Nat.mod_eq_of_lt (by omega)

theorem slot_zero (hnext : next < n) : slot n ((next + 1) % n) 0 = next := by
  rw [slot_eq (succ_mod_lt hnext) (by omega), succ_mod_eq hnext]
  split_ifs <;> omega

theorem slot_succ (hnext : next < n) (hj : j + 1 < n) :
    slot n ((next + 1) % n) (j + 1) = slot n next j := by
  rw [slot_eq (succ_mod_lt hnext) hj, slot_eq hnext (by omega), succ_mod_eq hnext]
  split_ifs <;> omega

/-- Different writes of the last round are in different slots. -/
theorem slot_inj (hnext : next < n) (hi : i < n) (hj : j < n)
    (h : slot n next i = slot n next j) : i = j := by
  rw [slot_eq hnext hi, slot_eq hnext hj] at h
  split_ifs at h <;> omega

theorem slot_ne_next (hnext : next < n) (hj : j + 1 < n) : slot n next j ≠ next := by
  rw [slot_eq hnext (by omega)]
  split_ifs <;> omega

/-- Every slot is the one of a write of the last round. -/
theorem exists_slot (hnext : next < n) (hi : i < n) : ∃ j < n, slot n next j = i := by
  rcases Nat.lt_or_ge i next with hlt | hge
  · refine ⟨next - 1 - i, by omega, ?_⟩
    rw [slot_eq hnext (by omega), if_pos (by omega)]
    omega
  · refine ⟨next + n - 1 - i, by omega, ?_⟩
    rw [slot_eq hnext (by omega), if_neg (by omega)]
    omega

/-- The slots hold the latest writes of the log, as many as there are slots. -/
def Holds (n next : ℕ) (slots : ℕ → α) (log : List α) : Prop :=
  ∀ j x, j < n → log[j]? = some x → slots (slot n next j) = x

theorem Holds.nil : Holds n next slots [] := by
  intro j x _ hx
  rw [List.getElem?_nil] at hx
  exact absurd hx (Option.some_ne_none x).symm

theorem Holds.write (h : Holds n next slots log) (hnext : next < n) (x : α) :
    Holds n ((next + 1) % n) (Function.update slots next x) (x :: log) := by
  intro j y hj hy
  cases j with
  | zero =>
    rw [slot_zero hnext, Function.update_self]
    exact Option.some.inj hy
  | succ j =>
    rw [slot_succ hnext hj, Function.update_of_ne (slot_ne_next hnext hj)]
    exact h j y (by omega) hy

/-- A write of the last round is changed where it is. -/
theorem Holds.set (h : Holds n next slots log) (hnext : next < n) (hj : j < n) (x : α) :
    Holds n next (Function.update slots (slot n next j) x) (log.set j x) := by
  intro i y hi hy
  rw [List.getElem?_set] at hy
  split_ifs at hy with hij hlt
  · rw [← hij, Function.update_self]
    exact Option.some.inj hy
  · rw [Function.update_of_ne fun heq => hij (slot_inj hnext hi hj heq).symm]
    exact h i y hi hy

/-- What is forgotten of the log are its oldest writes. -/
theorem Holds.take (h : Holds n next slots log) (k : ℕ) : Holds n next slots (log.take k) := by
  intro j x hj hx
  rw [List.getElem?_take] at hx
  split_ifs at hx
  exact h j x hj hx

/-- The slots in the order of the writes, from the `k`-th latest one on. -/
theorem Holds.read (h : Holds n next slots log) (hkn : k ≤ n) (hk : k ≤ log.length) :
    (List.range k).map (fun i => slots ((next + n - k + i) % n)) = (log.take k).reverse := by
  refine List.ext_getElem (by simp [hk]) fun i hi _ => ?_
  rw [List.length_map, List.length_range] at hi
  have hlog : log[k - 1 - i]? = some log[k - 1 - i] := List.getElem?_eq_getElem (by omega)
  have hslot := h (k - 1 - i) _ (by omega) hlog
  have hplace : next + n - 1 - (k - 1 - i) = next + n - k + i := by omega
  rw [slot, hplace] at hslot
  simp only [List.getElem_map, List.getElem_range, List.getElem_reverse, List.getElem_take,
    List.length_take, Nat.min_eq_left hk]
  exact hslot

end Ring
