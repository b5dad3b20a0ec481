import Mathlib

/-! Programs of stores on a memory that is addressed by natural numbers.

    A store writes a block of cells; what it writes may depend on the memory that it finds. If all
    stores of a program agree on what each cell is to become, the order of the stores and their
    overlaps do not matter. -/

namespace Stores
variable {β : Type*} {base n a : ℕ} {m : ℕ → β}

/-- `size` cells from `dst` on become `bytes`, as a function of the memory before. -/
structure Store (β : Type*) where
  dst : ℕ
  size : ℕ
  bytes : (ℕ → β) → ℕ → β

namespace Store
variable {s : Store β}

def Covers (s : Store β) (a : ℕ) : Prop := s.dst ≤ a ∧ a < s.dst + s.size

instance (s : Store β) : DecidablePred s.Covers := fun _ => inferInstanceAs (Decidable (_ ∧ _))

def run (s : Store β) (m : ℕ → β) : ℕ → β :=
  fun a => if s.Covers a then s.bytes m (a - s.dst) else m a

/-- The store stays inside the `n` cells from `base` on. -/
def Within (s : Store β) (base n : ℕ) : Prop := ∀ a, s.Covers a → base ≤ a ∧ a < base + n

theorem within_iff : s.Within base n ↔ s.size = 0 ∨ base ≤ s.dst ∧ s.dst + s.size ≤ base + n := by
  constructor
  · intro h
    rcases Nat.eq_zero_or_pos s.size with hzero | hpos
    · exact Or.inl hzero
    · have hfirst := h s.dst ⟨le_rfl, by omega⟩
      have hlast := h (s.dst + s.size - 1) ⟨by omega, by omega⟩
      exact Or.inr ⟨hfirst.1, by omega⟩
  · rintro (hzero | ⟨hlow, hhigh⟩) a ⟨ha, ha'⟩
    · omega
    · exact ⟨hlow.trans ha, ha'.trans_le hhigh⟩

theorem run_of_covers (h : s.Covers a) : s.run m a = s.bytes m (a - s.dst) := if_pos h

theorem run_of_not_covers (h : ¬ s.Covers a) : s.run m a = m a := if_neg h

end Store

variable {l : List (Store β)}

/-- The stores one after the other. -/
def replay (l : List (Store β)) (m : ℕ → β) : ℕ → β := l.foldl (fun m s => s.run m) m

@[simp] theorem replay_nil : replay [] m = m := rfl

@[simp] theorem replay_cons (s : Store β) : replay (s :: l) m = replay l (s.run m) := rfl

/-- Every store stays inside the `n` cells from `base` on. -/
def Within (l : List (Store β)) (base n : ℕ) : Prop := ∀ s ∈ l, s.Within base n

@[simp] theorem within_nil : Within ([] : List (Store β)) base n := nofun

@[simp] theorem within_cons (s : Store β) :
    Within (s :: l) base n ↔ s.Within base n ∧ Within l base n := List.forall_mem_cons

@[simp] theorem within_append (l l' : List (Store β)) :
    Within (l ++ l') base n ↔ Within l base n ∧ Within l' base n := List.forall_mem_append

/-- What no store covers is left as it was. -/
theorem replay_of_not_covers (h : ∀ s ∈ l, ¬ s.Covers a) : replay l m a = m a := by
  induction l generalizing m with
  | nil => rfl
  | cons s l ih =>
    obtain ⟨hs, hl⟩ := List.forall_mem_cons.mp h
    rw [replay_cons, ih hl, Store.run_of_not_covers hs]

/-- Stores of one and the same value leave nothing else in a cell that has it. -/
theorem replay_constant {z : β} (h : ∀ s ∈ l, ∀ m' k, k < s.size → s.bytes m' k = z)
    (ha : m a = z) : replay l m a = z := by
  induction l generalizing m with
  | nil => exact ha
  | cons s l ih =>
    obtain ⟨hs, hl⟩ := List.forall_mem_cons.mp h
    rw [replay_cons]
    refine ih hl ?_
    by_cases hc : s.Covers a
    · rw [Store.run_of_covers hc]
      obtain ⟨hlow, hhigh⟩ := hc
      exact hs _ _ (by omega)
    · rw [Store.run_of_not_covers hc, ha]

theorem replay_frame (h : Within l base n) (ha : ¬ (base ≤ a ∧ a < base + n)) :
    replay l m a = m a :=
  replay_of_not_covers fun s hs hc => ha (h s hs a hc)

/-- `m'` differs from `m` only in the `n` cells from `base` on. -/
def Framed (m : ℕ → β) (base n : ℕ) (m' : ℕ → β) : Prop :=
  ∀ a, ¬ (base ≤ a ∧ a < base + n) → m' a = m a

theorem Framed.refl (m : ℕ → β) (base n : ℕ) : Framed m base n m := fun _ _ => rfl

theorem Framed.run {m' : ℕ → β} {s : Store β} (h : Framed m base n m') (hs : s.Within base n) :
    Framed m base n (s.run m') := fun a ha =>
  (Store.run_of_not_covers fun hc => ha (hs a hc)).trans (h a ha)

/-- Whatever stands in the cells from `base` on, the store writes its part of `f` there. -/
def Settles (m : ℕ → β) (base n : ℕ) (f : ℕ → β) (s : Store β) : Prop :=
  ∀ m', Framed m base n m' → ∀ a, s.Covers a → s.bytes m' (a - s.dst) = f (a - base)

/-- Stores that settle what they write leave it behind, in any order. -/
theorem replay_settled {f m' : ℕ → β} (hin : Within l base n)
    (hl : ∀ s ∈ l, Settles m base n f s) (hm : Framed m base n m') (a : ℕ) :
    replay l m' a = if ∃ s ∈ l, s.Covers a then f (a - base) else m' a := by
  induction l generalizing m' with
  | nil => simp
  | cons s l ih =>
    obtain ⟨hs, hl⟩ := List.forall_mem_cons.mp hl
    obtain ⟨hsin, hin⟩ := (within_cons s).mp hin
    rw [replay_cons, ih hin hl (hm.run hsin)]
    by_cases hrest : ∃ t ∈ l, t.Covers a
    · obtain ⟨t, ht, hc⟩ := hrest
      rw [if_pos ⟨t, ht, hc⟩, if_pos ⟨t, List.mem_cons_of_mem _ ht, hc⟩]
    · rw [if_neg hrest]
      by_cases hc : s.Covers a
      · rw [Store.run_of_covers hc, hs m' hm a hc, if_pos ⟨s, List.mem_cons_self, hc⟩]
      · rw [Store.run_of_not_covers hc, if_neg]
        simpa [hc] using hrest

/-- The cells from `base` on hold `f` in `m'`, and all other cells are those of `m`. -/
structure Writes (m m' : ℕ → β) (base n : ℕ) (f : ℕ → β) : Prop where
  bytes : ∀ p < n, m' (base + p) = f p
  frame : Framed m base n m'

/-- What the stores leave out has to be right before. -/
theorem writes_of_settled {f m' : ℕ → β} (hin : Within l base n)
    (hl : ∀ s ∈ l, Settles m base n f s) (hm : Framed m base n m')
    (hall : ∀ p < n, (∃ s ∈ l, s.Covers (base + p)) ∨ m' (base + p) = f p) :
    Writes m (replay l m') base n f where
  bytes p hp := by
    rw [replay_settled hin hl hm, Nat.add_sub_cancel_left]
    split_ifs with hc
    · rfl
    · exact (hall p hp).resolve_left hc
  frame a ha := (replay_frame hin ha).trans (hm a ha)

end Stores
